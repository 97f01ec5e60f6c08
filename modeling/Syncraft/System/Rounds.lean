import Syncraft.Field.Queue
import Syncraft.Library.Descent
import Syncraft.System.Progress
import Syncraft.System.Refinement

/-!
# Syncraft.System.Rounds

What a device of the deployment gets done when nothing disturbs it, from the request that it sends
to the response that it hears. A round of the push loop takes a batch to the server and out of the
outbox (`push_round`); a round of the pull loop brings the next page (`pull_round`); and so a
`synchronize` pushes what is queued and pulls what is new, ten thousand of each at most
(`synchronizes`).
-/

namespace Syncraft.Deployment

open Domain Library Api CausalLog
open Syncraft.Field
open Syncraft.Field.Engine (during Rests)

variable {δ ι : Type} {F : Setting} {d d' : Deployment δ ι}

/-! ### What the server answers -/

variable {e : Engine} {now : Nat} {c : Claims}

/-- The server takes what the device asks for the requests of an editor of the workspace. -/
structure Admitted (F : Setting) (s : Store.Space) (e : Engine) (now : Nat) (c : Claims) : Prop where
  token : F.server.verify (trimBearer (carried e).authorization) now = some c
  workspace : c.workspace = F.workspace
  edits : c.Edits
  device : s.active (carried e).device c.subject = true

namespace Admitted

variable {s : Store.Space} {b : Backend}

/-- The token is for the workspace. -/
theorem bearer (h : Admitted F s e now c) {r : Api.Request}
    (hr : r.authorization = (carried e).authorization) :
    ∀ w, F.server.bearer (arrived r [] false now) = some w → w = F.workspace := by
  intro w hw
  have htoken : F.server.verify (trimBearer r.authorization) now = some c := by
    rw [hr]
    exact h.token
  have hbearer : F.server.bearer (arrived r [] false now) = some c.workspace :=
    congrArg (Option.map Claims.workspace) htoken
  rw [hbearer] at hw
  rw [← Option.some.inj hw, h.workspace]

theorem active (h : Admitted F (b.store F.workspace) e now c) :
    (b.store c.workspace).active (carried e).device c.subject = true := by
  rw [h.workspace]
  exact h.device

/-- A batch that the workspace takes is answered with a cursor. -/
theorem serve_push (h : Admitted F (b.store F.workspace) e now c) (hF : F.Sound)
    {batch : List Operation} (hfits : (pushBody batch).length ≤ bodyLimit) {n : Nat}
    (hpush : (b.store F.workspace).push (carried e).device c.subject (batch.map Operation.toGo) =
      (.ok n, s)) :
    (F.server.serve (arrived (ApiClient.push (carried e) batch) [] false now) b).1 =
        { status := 200, body := .cursor n } ∧
      (F.server.serve (arrived (ApiClient.push (carried e) batch) [] false now) b).2.store F.workspace =
        s := by
  have hdecode : Server.decode F.server.packages.decodePush
      (arrived (ApiClient.push (carried e) batch) [] false now) =
      some (batch.map Operation.toGo) := by
    show (if (pushBody batch).length > bodyLimit then none
      else F.server.packages.decodePush (pushBody batch)) = _
    rw [if_neg (Nat.not_lt.mpr hfits), hF.decodes]
  rw [← h.workspace] at hpush
  obtain ⟨hresponse, hstore⟩ := Server.serve_push
    (r := arrived (ApiClient.push (carried e) batch) [] false now) rfl rfl rfl rfl h.token h.edits
    h.active hdecode hpush
  refine ⟨hresponse, ?_⟩
  rw [hstore, h.workspace, Function.update_self]

/-- A cursor that the workspace has a page for is answered with it. -/
theorem serve_pull (h : Admitted F (b.store F.workspace) e now c) {after : Nat}
    (hafter : after < 2 ^ 63) {page : Domain.Page} (hpull : (b.store F.workspace).pull after 100 = .ok page) :
    (F.server.serve (arrived (ApiClient.pull (carried e) after) [] false now) b).1 =
        { status := 200, body := .page page } ∧
      (F.server.serve (arrived (ApiClient.pull (carried e) after) [] false now) b).2.store F.workspace =
        b.store F.workspace := by
  have hcursor : cursor (arrived (ApiClient.pull (carried e) after) [] false now) = .ok (after : Int) :=
    ApiClient.cursor_decimal rfl hafter
  rw [← h.workspace] at hpull
  obtain ⟨hresponse, hstore⟩ := Server.serve_pull
    (r := arrived (ApiClient.pull (carried e) after) [] false now) rfl rfl rfl rfl h.token h.active
    hcursor hpull
  exact ⟨hresponse, by rw [hstore]⟩

end Admitted

/-! ### What the system's invariant says -/

/-- The workspace of the devices, on the server. -/
def space (F : Setting) (d : Deployment δ ι) : Store.Space := d.server.store.store F.workspace

/-- A `synchronize` that is under way, as the system shows it. -/
theorem Shows.phase {s : System δ} (h : Shows F d s) {i : δ} {phase : Engine.Phase}
    (hphase : phase ∈ (d.engines i).runs) : (s.phones i).phase = phase.shown (d.awaited i) := by
  obtain ⟨error, hphone⟩ := h.phones i
  obtain ⟨n, hn, hget⟩ := List.getElem_of_mem hphase
  obtain ⟨-, -, hone⟩ := (h.sane i).single.only (List.getElem?_eq_some_iff.mpr ⟨hn, hget⟩)
  rw [hphone]
  show Engine.shown _ (d.engines i).runs = _
  rw [hone]
  rfl

variable [DecidableEq δ] [DecidableEq ι]

/-- What the system's invariant says of the deployment. -/
theorem Reachable.inv (hF : F.Sound) (h : Reachable F d) :
    ∃ s : System δ, System.Inv F.outline s ∧ Shows F d s ∧ s.server = d.space F ∧
      ∀ i, (s.phones i).store = (d.engines i).store := by
  obtain ⟨s, hs, hshows⟩ := h.shown hF
  refine ⟨s, System.Reachable.inv hF.edits hs, hshows, hshows.server, fun i => ?_⟩
  obtain ⟨error, hphone⟩ := hshows.phones i
  rw [hphone]
  rfl

/-- IDs are unique, and the outbox refers to them. -/
theorem Reachable.kept (hF : F.Sound) (h : Reachable F d) (i : δ) : (d.engines i).store.Kept := by
  obtain ⟨s, hi, -, -, hstores⟩ := h.inv hF
  rw [← hstores]
  refine ⟨?_, (hi.store i).outbox⟩
  rw [LocalStore.ids_eq]
  exact (hi.store i).causal.nodup

/-- What a device has saved is in its table. -/
theorem Reachable.holds (hF : F.Sound) (h : Reachable F d) {i : δ} {o : Field.Operation}
    (ho : o ∈ d.saved i) : o.stored ∈ (d.engines i).store.ops := by
  obtain ⟨s, hi, hshows, -, hstores⟩ := h.inv hF
  rw [← hstores]
  exact hi.saved i o (hshows.saved ▸ ho)

/-! ### One device goes on -/

/-- One device has gone on. Nothing else has, but the workspace may have grown. -/
structure Onward (F : Setting) (i : δ) (d d' : Deployment δ ι) : Prop where
  steps : Relation.ReflTransGen (Step F) d d'
  others : ∀ j, j ≠ i → d'.engines j = d.engines j
  saved : d'.saved = d.saved
  sessions : d'.server.sessions = d.server.sessions
  active : (d'.space F).active = (d.space F).active
  grown : (d.space F).entries.length ≤ (d'.space F).entries.length

variable {i : δ} {j : ι} {store store' : LocalStore} {phase next : Engine.Phase}

theorem Onward.refl (d : Deployment δ ι) : Onward F i d d :=
  ⟨.refl, fun _ _ => rfl, rfl, rfl, rfl, le_rfl⟩

theorem Onward.trans {d'' : Deployment δ ι} (h : Onward F i d d') (h' : Onward F i d' d'') :
    Onward F i d d'' where
  steps := h.steps.trans h'.steps
  others k hk := (h'.others k hk).trans (h.others k hk)
  saved := h'.saved.trans h.saved
  sessions := h'.sessions.trans h.sessions
  active := h'.active.trans h.active
  grown := h.grown.trans h'.grown

/-- A `synchronize` goes on. -/
theorem runs_on (he : d.engines i = during e store phase) {o : Outcome}
    (ho : waits phase = true → F.Comes d.responses (d.awaited i) o)
    (hadvance : (during e store phase).advance F.platform o phase =
      (during e store' phase, some next)) :
    ∃ d', Onward F i d d' ∧ d'.engines i = during e store' next ∧ d'.server = d.server ∧
      d'.responses = d.responses ∧
      d'.requests = d.requests ++ (leaves (during e store phase) phase).toList ∧
      d'.awaited i = phase.number (d.awaited i) d.requests.length := by
  have hget : (d.engines i).runs[0]? = some phase := by
    rw [he]
    rfl
  refine ⟨_, ⟨.single (.run i 0 phase o hget ho), fun k hk => ?_, rfl, rfl, rfl, le_rfl⟩, ?_, rfl, rfl, ?_, ?_⟩
  · exact Function.update_of_ne hk _ _
  · show Function.update d.engines i _ i = _
    rw [Function.update_self, he, Engine.step_during hadvance]
  · show d.requests ++ (leaves (d.engines i) phase).toList = _
    rw [he]
  · exact Function.update_self _ _ _

/-- A device can lose what it waits for, again and again. -/
theorem loses (i : δ) (n : Nat) : ∃ d', Onward F i d d' ∧ d'.server = d.server ∧
    d'.engines i =
      (List.replicate n (Engine.Event.run 0 .lost)).foldl (Engine.step F.platform) (d.engines i) := by
  induction n generalizing d with
  | zero => exact ⟨d, .refl d, rfl, rfl⟩
  | succ n ih =>
      rw [List.replicate_succ, List.foldl_cons]
      cases hget : (d.engines i).runs[0]? with
      | none =>
          have hsame : (d.engines i).step F.platform (.run 0 .lost) = d.engines i := by
            rw [Engine.step, hget]
          rw [hsame]
          exact ih
      | some phase =>
          have hstep : Step F d _ := .run i 0 phase .lost hget fun _ => .lost
          have honward : Onward F i d _ :=
            ⟨.single hstep, fun k hk => Function.update_of_ne hk _ _, rfl, rfl, rfl, le_rfl⟩
          obtain ⟨d', hrest, hserver, hengine⟩ := ih (d := { d with
            engines := Function.update d.engines i ((d.engines i).step F.platform (.run 0 .lost))
            requests := d.requests ++ (leaves (d.engines i) phase).toList
            awaited := Function.update d.awaited i (phase.number (d.awaited i) d.requests.length) })
          refine ⟨d', honward.trans hrest, hserver, ?_⟩
          rw [hengine]
          dsimp only
          rw [Function.update_self]

/-- A response that was sent can come. -/
theorem comes_accepted {responses : List (Nat × Response)} {k : Nat} {body : Body} {json : Json}
    (hsent : (k, { status := 200, body }) ∈ responses) (hjson : bodyJson F.stamp body = some json)
    (hexact : ∀ page, body = .page page → ExactPage page) : F.Comes responses k (accepted json) :=
  .response _ json _ hsent hjson (Json.decode_encode json) hexact

/-- **A request is sent, served and answered**, with nothing in between. -/
theorem exchanges (he : d.engines i = during e store phase) (hwaits : waits phase = false)
    {r : Api.Request} (hleaves : leaves (during e store phase) phase = some r)
    (hposts : phase.posts.isSome = true)
    (hadvance : (during e store phase).advance F.platform .lost phase =
      (during e store phase, some next))
    (hbearer : ∀ w, F.server.bearer (arrived r [] false now) = some w → w = F.workspace)
    (hidle : d.server.sessions j = none)
    {s : Store.Space}
    (hspace : (F.server.serve (arrived r [] false now) d.server.store).2.store F.workspace = s)
    (hactive : s.active = (d.space F).active)
    (hgrown : (d.space F).entries.length ≤ s.entries.length) :
    ∃ d', Onward F i d d' ∧ d'.engines i = during e store next ∧
      d'.space F = s ∧
      (d'.awaited i, (F.server.serve (arrived r [] false now) d.server.store).1) ∈ d'.responses := by
  obtain ⟨d₁, h₁, hengine, hserver, -, hrequests, hawaited⟩ := runs_on he
    (o := .lost) (fun h => absurd (hwaits.symm.trans h) Bool.false_ne_true) hadvance
  have hk : d₁.requests[d.requests.length]? = some r := by
    rw [hrequests, hleaves]
    exact List.getElem?_concat_length
  have hnumber : d₁.awaited i = d.requests.length := by
    rw [hawaited, Engine.Phase.number, if_pos hposts]
  have hstarts : F.Starts d₁.requests _ := .sent d.requests.length r [] false now hk hbearer
  have hsession : d₁.server.sessions j = none := by
    rw [hserver]
    exact hidle
  have h₂ := later_serve (run_answers (S := backend) hstarts hsession)
  rw [Program.run_bind] at h₂
  have h₃ := h₂.tail (Step.respond j d.requests.length
    (F.server.serve (arrived r [] false now) d₁.server.store).1 (Function.update_self _ _ _))
  have h₄ := h₃.tail (Step.serve _ (Running.Step.finish j _ (Function.update_self _ _ _)))
  have hafter : (F.server.serve (arrived r [] false now) d₁.server.store).2.store F.workspace = s := by
    rw [hserver]
    exact hspace
  refine ⟨_, ⟨h₁.steps.trans h₄, h₁.others, h₁.saved, ?_, ?_, ?_⟩, hengine, hafter, ?_⟩
  · show Function.update (Function.update d₁.server.sessions j _) j none = _
    rw [Function.update_idem, ← hsession, Function.update_eq_self]
    exact h₁.sessions
  · rw [← hafter] at hactive
    exact hactive
  · rw [← hafter] at hgrown
    exact hgrown
  · show (d₁.awaited i, _) ∈ d₁.responses ++ [_]
    rw [hnumber, ← hserver]
    exact List.mem_append_right _ (List.mem_singleton_self _)

/-! ### Rounds -/

/-- What is queued is admitted by the log, and adds what is new in it. -/
theorem Reachable.push_ok (hF : F.Sound) (h : Reachable F d) (hne : (d.engines i).store.queue ≠ [])
    {device actor : GoString} (hactive : (d.space F).active device actor = true) :
    ∃ n s, (d.space F).push device actor
        (((d.engines i).store.queue.take 100).map Operation.toGo) = (.ok n, s) ∧
      s.active = (d.space F).active ∧ (d.space F).entries.length ≤ s.entries.length ∧
      s.entries.length ≤ (d.space F).entries.length + ((d.engines i).store.queue.take 100).length := by
  obtain ⟨s, hi, -, hserver, hstores⟩ := h.inv hF
  have hpending : (s.phones i).store.pending = .ok ((d.engines i).store.queue.take 100) := by
    rw [hstores]
    exact LocalStore.pending_queue _
  have hbatch : (d.engines i).store.queue.take 100 ≠ [] := by
    rw [ne_eq, List.take_eq_nil_iff]
    simp [hne]
  obtain ⟨r, hr⟩ := hi.pending_admitted hF.edits hpending
  have hcausal := hi.server.causal
  rw [hserver] at hr hcausal
  obtain ⟨fresh, hfresh, hpush⟩ := Store.Space.push_ok hcausal hactive
    (System.pending_size hpending hbatch) (System.valid_pushed _) hr
  refine ⟨_, _, hpush, Store.Space.acceptAll_active _ _ _ _, ?_⟩
  -- What is new in a batch is a part of it.
  have hnew := admitAll_unseen hr
  rw [hfresh, List.append_cancel_left_eq] at hnew
  have hfew : fresh.length ≤ ((d.engines i).store.queue.take 100).length := by
    rw [hnew]
    refine ((List.Nodup.of_map _ (unseen_nodup _ _)).subperm
      fun o ho => (unseen_subset o ho).1).length_le.trans (List.length_map _).le
  have hlength : (Store.Space.acceptAll device actor (d.space F) fresh).entries.length =
      (d.space F).entries.length + fresh.length := by
    have hops := congrArg List.length (Store.Space.ops_acceptAll device actor (d.space F) fresh)
    rwa [Store.Space.ops, List.length_map, List.length_append, Store.Space.ops, List.length_map] at hops
  omega

/-- **One round of the push loop.** The batch is on the server, and out of the queue. -/
theorem push_round (hF : F.Sound) (hd : Reachable F d) {round : Nat} (hround : round < 100)
    (he : d.engines i = during e store (.pushing round)) (hne : store.queue ≠ [])
    (hfits : (pushBody (store.queue.take 100)).length ≤ bodyLimit) (hidle : d.server.sessions j = none)
    (hadmitted : Admitted F (d.space F) e now c) :
    ∃ d', Onward F i d d' ∧
      d'.engines i = during e (store.acknowledge (Engine.ids (store.queue.take 100)))
        (.pushing (round + 1)) ∧
      (d'.space F).entries.length ≤ (d.space F).entries.length + (store.queue.take 100).length := by
  have hstore : (d.engines i).store = store := by rw [he]; rfl
  obtain ⟨n, s, hpush, hactive, hgrown, hlength⟩ :=
    hd.push_ok hF (i := i) (by rwa [hstore]) hadmitted.device
  rw [hstore] at hpush hlength
  obtain ⟨d₁, h₁, he₁, hserver, -⟩ := runs_on he (o := .lost)
    (fun h => absurd h Bool.false_ne_true) (Engine.advance_pushing hround hne)
  obtain ⟨hresponse, hspace⟩ :=
    Admitted.serve_push (b := d.server.store) hadmitted hF hfits hpush
  have hspace₁ : d₁.space F = d.space F := by rw [space, space, hserver]
  rw [← hserver] at hresponse hspace
  obtain ⟨d₂, h₂, he₂, hspace₂, hanswer⟩ := exchanges he₁ rfl
    (r := ApiClient.push (carried e) (store.queue.take 100)) rfl rfl rfl (hadmitted.bearer rfl)
    (h₁.sessions ▸ hidle) hspace (by rw [hactive, hspace₁]) (by rw [hspace₁]; exact hgrown)
  rw [hresponse] at hanswer
  have hcomes : F.Comes d₂.responses (d₂.awaited i) (accepted (.obj [(dart "cursor", .int n)])) :=
    comes_accepted hanswer rfl fun page h => by cases h
  obtain ⟨d₃, h₃, he₃, hserver₃, -⟩ := runs_on he₂ (fun _ => hcomes)
    (show _ = (during e store _, some (.acknowledging round (store.queue.take 100))) by
      rw [Engine.advance, result_accepted])
  obtain ⟨d₄, h₄, he₄, hserver₄, -⟩ := runs_on he₃ (o := .lost)
    (fun h => absurd h Bool.false_ne_true) (by rw [Engine.advance]; rfl)
  refine ⟨d₄, h₁.trans (h₂.trans (h₃.trans h₄)), he₄, ?_⟩
  have hspace₄ : d₄.space F = s := by
    rw [space, hserver₄, hserver₃]
    exact hspace₂
  rw [hspace₄]
  exact hlength

/-- The cursor of a device does not run ahead of the log. -/
theorem Reachable.cursor_le (hF : F.Sound) (h : Reachable F d) (i : δ) :
    ∃ n : Nat, (d.engines i).store.cursor = n ∧ n ≤ (d.space F).entries.length := by
  obtain ⟨s, hi, -, hserver, hstores⟩ := h.inv hF
  obtain ⟨n, hn, hle⟩ := hi.cursor_le i
  rw [hstores] at hn
  rw [hserver] at hle
  exact ⟨n, hn, hle⟩

/-- What the server answers to a pull with the cursor of the device is applied, and moves the
cursor. -/
theorem Reachable.pull_ok (hF : F.Sound) (h : Reachable F d) (i : δ)
    (hexact : Exact (d.space F).entries.length) :
    ∃ (n : Nat) (page : Domain.Page) (received : Field.Page) (store : LocalStore),
      (d.engines i).store.cursor = n ∧ n < 2 ^ 63 ∧ (d.space F).pull n 100 = .ok page ∧
      ExactPage page ∧ F.platform.pageOf (pageJson F.stamp page) = .ok received ∧
      (d.engines i).store.applyPage received = .ok store ∧
      received.more = decide (store.cursor < (d.space F).entries.length) ∧
      store.cursor = min ((d.engines i).store.cursor + 100) (d.space F).entries.length ∧
      store.queue = (d.engines i).store.queue := by
  have hkept := h.kept hF i
  obtain ⟨s, hi, -, hserver, hstores⟩ := h.inv hF
  obtain ⟨n, hn, hle⟩ := hi.cursor_le i
  obtain ⟨page, hpull, hslice, hmore⟩ := System.pull_slice hle (by decide : (1 : Int) ≤ 100) (by decide)
  have hpage : ExactPage page := by
    rw [← hserver] at hexact
    have hsmall : s.server.entries.length < 2 ^ 53 := hexact
    constructor
    · rw [hslice.cursor]
      exact lt_of_le_of_lt (Nat.min_le_right _ _) hexact
    · intro entry hentry
      rw [hslice.entries] at hentry
      obtain ⟨m, hm, rfl⟩ := List.getElem_of_mem
        (List.mem_of_mem_take (List.mem_of_mem_drop hentry))
      show s.server.entries[m].sequence < 2 ^ 53
      rw [hi.server.sequence m hm]
      omega
  obtain ⟨received, hread, hreceived, hsame⟩ := pageOf_pageJson hF.platform hF.stamps hpage
  obtain ⟨store, happly, -, hcursor, -, -⟩ :=
    (hi.store i).apply F.stamp hF.edits hi.server hi.log hn hslice hreceived
  rw [hstores] at hn happly
  rw [hserver] at hpull hcursor hmore hle
  refine ⟨n, page, received, store, hn, ?_, hpull, hpage, hread, happly, ?_, ?_, ?_⟩
  · have hsmall : (d.space F).entries.length < 2 ^ 53 := hexact
    omega
  · rw [hsame, hmore, hcursor]
    exact decide_eq_decide.mpr (by omega)
  · rw [hcursor, hn]
    omega
  · exact LocalStore.queue_applyPage hkept happly

/-- **One round of the pull loop.** The next page is in the table. -/
theorem pull_round (hF : F.Sound) (hd : Reachable F d) {round : Nat} (hround : round < 100)
    (he : d.engines i = during e store (.pulling round)) (hidle : d.server.sessions j = none)
    (hadmitted : Admitted F (d.space F) e now c) (hexact : Exact (d.space F).entries.length) :
    ∃ d' store', Onward F i d d' ∧ d'.space F = d.space F ∧
      d'.engines i = during e store'
        (if store'.cursor < (d.space F).entries.length then .pulling (round + 1) else .uploading) ∧
      store'.cursor = min (store.cursor + 100) (d.space F).entries.length ∧
      store'.queue = store.queue := by
  have hstore : (d.engines i).store = store := by rw [he]; rfl
  obtain ⟨n, page, received, store', hn, hsmall, hpull, hpage, hread, happly, hmore, hcursor, hqueue⟩ :=
    hd.pull_ok hF i hexact
  rw [hstore] at hn happly hcursor hqueue
  obtain ⟨d₁, h₁, he₁, hserver, -⟩ := runs_on he (o := .lost)
    (fun h => absurd h Bool.false_ne_true)
    (show _ = (during e store _, some (.getting round store.cursor)) by
      rw [Engine.advance, if_pos hround]
      rfl)
  obtain ⟨hresponse, hspace⟩ := Admitted.serve_pull (b := d.server.store) hadmitted hsmall hpull
  rw [← hserver] at hresponse hspace
  rw [hn] at he₁
  obtain ⟨d₂, h₂, he₂, hspace₂, hanswer⟩ := exchanges he₁ rfl
    (r := ApiClient.pull (carried e) n) rfl rfl rfl (hadmitted.bearer rfl) (h₁.sessions ▸ hidle)
    hspace rfl le_rfl
  rw [hresponse] at hanswer
  have hcomes : F.Comes d₂.responses (d₂.awaited i) (accepted (pageJson F.stamp page)) := by
    refine comes_accepted hanswer rfl fun page' heq => ?_
    obtain rfl := Body.page.inj heq
    exact hpage
  obtain ⟨d₃, h₃, he₃, hserver₃, -⟩ := runs_on he₂ (fun _ => hcomes)
    (show _ = (during e store _, some (.applying round received)) by
      rw [Engine.advance, result_accepted, LocalStore.ok_bind, hread])
  obtain ⟨d₄, h₄, he₄, hserver₄, -⟩ := runs_on he₃ (o := .lost)
    (fun h => absurd h Bool.false_ne_true)
    (show _ = (during e store' _, some (if received.more then .pulling (round + 1) else .uploading)) by
      have happly' : (during e store (.applying round received)).store.applyPage received =
          .ok store' := happly
      rw [Engine.advance, happly']
      rfl)
  have hspace₄ : d₄.space F = d.space F := by
    rw [space, hserver₄, hserver₃]
    refine hspace₂.trans ?_
    rw [hserver]
    rfl
  refine ⟨d₄, store', h₁.trans (h₂.trans (h₃.trans h₄)), hspace₄, ?_, hcursor, hqueue⟩
  rw [he₄, hmore]
  simp only [decide_eq_true_eq]

/-! ### Loops -/

/-- No batch of what is queued is too long for a request. -/
def Sendable (store : LocalStore) : Prop :=
  ∀ n, (pushBody ((store.queue.drop n).take 100)).length ≤ bodyLimit

/-- The workspace has grown, and the device is still registered. -/
theorem Admitted.later (h : Admitted F (d.space F) e now c) (honward : Onward F i d d') :
    Admitted F (d'.space F) e now c :=
  { h with device := honward.active.symm ▸ h.device }

/-- What the push loop has done, which had so many rounds left. -/
structure Pushed (F : Setting) (i : δ) (e : Engine) (d : Deployment δ ι) (store : LocalStore)
    (rounds : Nat) (d' : Deployment δ ι) (store' : LocalStore) : Prop where
  onward : Onward F i d d'
  engine : d'.engines i = during e store' (.pulling 0)
  queue : store'.queue = store.queue.drop (100 * rounds)
  cursor : store'.cursor = store.cursor
  /-- Of what it has pushed, some may have been there. -/
  length : (d'.space F).entries.length + store'.queue.length ≤
    (d.space F).entries.length + store.queue.length
  quiet : store.queue = [] → d'.space F = d.space F

/-- The push loop ends. -/
theorem pushes_end (rounds : Nat) {round : Nat} (he : d.engines i = during e store (.pushing round))
    (hdone : round < 100 → store.queue = []) (hrest : store.queue.drop (100 * rounds) = store.queue) :
    ∃ d', Pushed F i e d store rounds d' store := by
  obtain ⟨d', honward, he', hserver, -⟩ := runs_on he (o := .lost)
    (fun h => absurd h Bool.false_ne_true) (Engine.advance_pushed hdone)
  have hspace : d'.space F = d.space F := by rw [space, space, hserver]
  exact ⟨d', honward, he', hrest.symm, rfl, by rw [hspace], fun _ => hspace⟩

/-- **The push loop.** It pushes what is queued, a hundred batches at most. -/
theorem pushes (hF : F.Sound) (hd : Reachable F d) {round rounds : Nat} (hround : round + rounds = 100)
    (he : d.engines i = during e store (.pushing round)) (hfits : Sendable store)
    (hidle : d.server.sessions j = none) (hadmitted : Admitted F (d.space F) e now c) :
    ∃ d' store', Pushed F i e d store rounds d' store' := by
  induction rounds generalizing d store round with
  | zero =>
      obtain ⟨d', hpushed⟩ := pushes_end (F := F) 0 he (fun h => by omega)
        (by rw [Nat.mul_zero, List.drop_zero])
      exact ⟨d', store, hpushed⟩
  | succ rounds ih =>
      by_cases hne : store.queue = []
      · obtain ⟨d', hpushed⟩ := pushes_end (F := F) (rounds + 1) he (fun _ => hne)
          (by rw [hne, List.drop_nil])
        exact ⟨d', store, hpushed⟩
      · have hkept : store.Kept := by
          have hengine := hd.kept hF i
          rwa [he] at hengine
        obtain ⟨d₁, h₁, he₁, hlength⟩ :=
          push_round hF hd (by omega) he hne (hfits 0) hidle hadmitted
        have hqueue : (store.acknowledge (Engine.ids (store.queue.take 100))).queue =
            store.queue.drop 100 := LocalStore.queue_acknowledge hkept 100
        have hfits₁ : Sendable (store.acknowledge (Engine.ids (store.queue.take 100))) := by
          intro n
          rw [hqueue, List.drop_drop]
          exact hfits _
        obtain ⟨d₂, store₂, h₂⟩ := ih (hd.trans h₁.steps) (by omega) he₁ hfits₁
          (h₁.sessions ▸ hidle) (hadmitted.later h₁)
        have hcut := congrArg List.length (List.take_append_drop 100 store.queue)
        rw [List.length_append] at hcut
        have hcount := h₂.length
        rw [hqueue] at hcount
        refine ⟨d₂, store₂, h₁.trans h₂.onward, h₂.engine, ?_, h₂.cursor, by omega,
          fun h => absurd h hne⟩
        rw [h₂.queue, hqueue, List.drop_drop]
        congr 1
        omega

/-- **The pull loop.** It brings what is new, a hundred pages at most. -/
theorem pulls (hF : F.Sound) (hd : Reachable F d) {round rounds : Nat} (hround : round + rounds = 100)
    (he : d.engines i = during e store (.pulling round)) (hidle : d.server.sessions j = none)
    (hadmitted : Admitted F (d.space F) e now c) (hexact : Exact (d.space F).entries.length) :
    ∃ d' store', Onward F i d d' ∧ d'.space F = d.space F ∧
      d'.engines i = during e store' .uploading ∧
      store'.cursor = min (store.cursor + 100 * rounds) (d.space F).entries.length ∧
      store'.queue = store.queue := by
  induction rounds generalizing d store round with
  | zero =>
      obtain ⟨d', honward, he', hserver, -⟩ := runs_on he (o := .lost)
        (fun h => absurd h Bool.false_ne_true)
        (show _ = (during e store _, some .uploading) by
          rw [Engine.advance, if_neg (by omega)])
      obtain ⟨n, hn, hle⟩ := hd.cursor_le hF i
      have hstore : (d.engines i).store = store := by rw [he]; rfl
      rw [hstore] at hn
      exact ⟨d', store, honward, by rw [space, space, hserver], he', by omega, rfl⟩
  | succ rounds ih =>
      obtain ⟨d₁, store₁, h₁, hspace₁, he₁, hcursor₁, hqueue₁⟩ :=
        pull_round hF hd (by omega) he hidle hadmitted hexact
      by_cases hmore : store₁.cursor < (d.space F).entries.length
      · rw [if_pos hmore] at he₁
        obtain ⟨d₂, store₂, h₂, hspace₂, he₂, hcursor₂, hqueue₂⟩ := ih (hd.trans h₁.steps) (by omega)
          he₁ (h₁.sessions ▸ hidle) (hadmitted.later h₁) (hspace₁ ▸ hexact)
        refine ⟨d₂, store₂, h₁.trans h₂, hspace₂.trans hspace₁, he₂, ?_, hqueue₂.trans hqueue₁⟩
        rw [hcursor₂, hspace₁]
        omega
      · rw [if_neg hmore] at he₁
        exact ⟨d₁, store₁, h₁, hspace₁, he₁, by omega, hqueue₁⟩

/-- **A `synchronize` pushes what is queued and pulls what is new**, ten thousand of each at most,
when the network loses nothing and the session is good. Uploads may fail. -/
theorem synchronizes (hF : F.Sound) (hd : Reachable F d)
    (he : d.engines i = during e store (.pushing 0)) (hfits : Sendable store)
    (hidle : d.server.sessions j = none) (hadmitted : Admitted F (d.space F) e now c)
    (hexact : Exact ((d.space F).entries.length + store.queue.length)) :
    ∃ d', Onward F i d d' ∧ Rests e (d'.engines i) ∧
      (d'.engines i).store.queue = store.queue.drop 10000 ∧
      (d'.engines i).store.cursor = min (store.cursor + 10000) (d'.space F).entries.length ∧
      (d'.space F).entries.length + (d'.engines i).store.queue.length ≤
        (d.space F).entries.length + store.queue.length ∧
      (store.queue = [] → d'.space F = d.space F) := by
  obtain ⟨d₁, store₁, h₁⟩ := pushes hF hd (Nat.zero_add 100) he hfits hidle hadmitted
  have hlength := h₁.length
  have hexact₁ : Exact (d₁.space F).entries.length := by
    have hsmall : (d.space F).entries.length + store.queue.length < 2 ^ 53 := hexact
    show (d₁.space F).entries.length < 2 ^ 53
    omega
  obtain ⟨d₂, store₂, h₂, hspace₂, he₂, hcursor₂, hqueue₂⟩ := pulls hF (hd.trans h₁.onward.steps)
    (Nat.zero_add 100) h₁.engine (h₁.onward.sessions ▸ hidle) (hadmitted.later h₁.onward) hexact₁
  obtain ⟨n, hrests, hstore⟩ := Engine.uploading_ends F.platform e store₂
  obtain ⟨d₃, h₃, hserver₃, he₃⟩ := loses (F := F) (d := d₂) i n
  rw [he₂] at he₃
  rw [← he₃] at hrests hstore
  have hspace₃ : d₃.space F = d₁.space F := by
    rw [space, hserver₃]
    exact hspace₂
  refine ⟨d₃, h₁.onward.trans (h₂.trans h₃), hrests, ?_, ?_, ?_, fun h => hspace₃.trans (h₁.quiet h)⟩
  · rw [hstore, hqueue₂, h₁.queue]
  · rw [hstore, hcursor₂, h₁.cursor, hspace₃]
    rfl
  · rw [hstore, hqueue₂, hspace₃]
    exact hlength

/-! ### Catching up -/

/-- The device is online: its user is logged in and has not paused, and the session is good. A
`synchronize` may be under way, wherever it stands, unless the server has just turned it away; the
batches of what it leaves to push can be sent. -/
structure Online (F : Setting) (d : Deployment δ ι) (i : δ) (now : Nat) (c : Claims) : Prop where
  connected : (d.engines i).connected = true
  paused : (d.engines i).paused = false
  disposed : (d.engines i).disposed = false
  accepted : ∀ phase ∈ (d.engines i).runs, phase.refused = false
  admitted : Admitted F (d.space F) (d.engines i) now c
  sendable : Sendable (Engine.settled F.platform (d.engines i))

/-- It is still, when another one has gone on. -/
theorem Online.later (h : Online F d i now c) {k : δ} (honward : Onward F k d d') (hk : i ≠ k) :
    Online F d' i now c := by
  obtain ⟨connected, paused, disposed, accepted, admitted, sendable⟩ := h
  rw [← honward.others i hk] at connected paused disposed accepted admitted sendable
  exact ⟨connected, paused, disposed, accepted, admitted.later honward, sendable⟩

/-- It is still, when a `synchronize` of its own has ended. -/
theorem Online.rests (h : Online F d i now c) (honward : Onward F i d d')
    (hrests : Rests (d.engines i) (d'.engines i)) (hsendable : Sendable (d'.engines i).store) :
    Online F d' i now c := by
  have hsame : carried (d'.engines i) = carried (d.engines i) := by
    rw [carried, carried, hrests.token, hrests.device]
  obtain ⟨token, workspace, edits, device⟩ := h.admitted.later honward
  rw [← hsame] at token device
  refine ⟨hrests.connected.trans h.connected, hrests.paused.trans h.paused,
    hrests.disposed.trans h.disposed, ?_, ⟨token, workspace, edits, device⟩, ?_⟩
  · rw [hrests.runs]
    exact List.forall_mem_nil _
  · rw [Engine.settled, hrests.runs]
    exact hsendable

/-- What is under way ends first. -/
theorem Online.ends (hF : F.Sound) (hd : Reachable F d) (h : Online F d i now c) :
    ∃ d', Onward F i d d' ∧ Online F d' i now c ∧ (d'.engines i).runs = [] ∧
      d'.space F = d.space F ∧
      (d'.engines i).store.queue.length ≤ (d.engines i).store.queue.length := by
  obtain ⟨s, -, hshows, -⟩ := hd.inv hF
  obtain ⟨n, hrests, hqueue⟩ :=
    Engine.lost_ends F.platform (hshows.sane i).single (hd.kept hF i) h.accepted
  obtain ⟨d', honward, hserver, he⟩ := loses (F := F) (d := d) i n
  rw [← he] at hrests hqueue
  refine ⟨d', honward, h.rests honward hrests ?_, hrests.runs, ?_, ?_⟩
  · intro n
    rw [hqueue]
    exact h.sendable n
  · rw [space, space, hserver]
  · rw [hqueue]
    exact (Engine.settled_sublist _ _).length_le

/-- Its `synchronize` begins. -/
theorem Online.begins (hF : F.Sound) (hd : Reachable F d) (h : Online F d i now c)
    (hruns : (d.engines i).runs = []) :
    ∃ d', Onward F i d d' ∧ d'.server = d.server ∧
      d'.engines i =
        during { d.engines i with error := none } (d.engines i).store (.pushing 0) := by
  obtain ⟨s, -, hshows, -⟩ := hd.inv hF
  have hguard : ((d.engines i).busy || (d.engines i).paused || !(d.engines i).connected ||
      (d.engines i).disposed) = false := by
    rw [(hshows.sane i).single.not_busy hruns, h.paused, h.connected, h.disposed]
    rfl
  have hstarts : (d.engines i).synchronize =
      during { d.engines i with error := none } (d.engines i).store (.pushing 0) := by
    rw [Engine.synchronize, hguard, if_neg Bool.false_ne_true, hruns]
    rfl
  refine ⟨_, ⟨.single (.event i .synchronize trivial), fun k hk => Function.update_of_ne hk _ _, rfl,
    rfl, rfl, le_rfl⟩, rfl, ?_⟩
  show Function.update d.engines i (d.engines i).synchronize i = _
  rw [Function.update_self, hstarts]

/-- One `synchronize` of a device that is online. -/
theorem Online.synchronizes (hF : F.Sound) (hd : Reachable F d) (hidle : d.server.sessions j = none)
    (h : Online F d i now c) (hruns : (d.engines i).runs = [])
    (hexact : Exact ((d.space F).entries.length + (d.engines i).store.queue.length)) :
    ∃ d', Onward F i d d' ∧ Online F d' i now c ∧ (d'.engines i).runs = [] ∧
      (d'.engines i).store.queue = (d.engines i).store.queue.drop 10000 ∧
      (d'.engines i).store.cursor =
        min ((d.engines i).store.cursor + 10000) (d'.space F).entries.length ∧
      (d'.space F).entries.length + (d'.engines i).store.queue.length ≤
        (d.space F).entries.length + (d.engines i).store.queue.length ∧
      ((d.engines i).store.queue = [] → d'.space F = d.space F) := by
  obtain ⟨d₁, h₁, hserver, he⟩ := h.begins hF hd hruns
  have hspace : d₁.space F = d.space F := by rw [space, space, hserver]
  have hsendable : Sendable (d.engines i).store := by
    have hsettled := h.sendable
    rwa [Engine.settled, hruns] at hsettled
  have hadmitted : Admitted F (d₁.space F) { d.engines i with error := none } now c := by
    obtain ⟨token, workspace, edits, device⟩ := h.admitted
    exact ⟨token, workspace, edits, hspace ▸ device⟩
  obtain ⟨d₂, h₂, hrests, hqueue, hcursor, hlength, hquiet⟩ := Deployment.synchronizes hF
    (hd.trans h₁.steps) he hsendable (h₁.sessions ▸ hidle) hadmitted (by rw [hspace]; exact hexact)
  rw [hspace] at hlength hquiet
  have hended : Rests (d.engines i) (d₂.engines i) :=
    ⟨hrests.token, hrests.device, hrests.paused, hrests.connected, hrests.disposed, hrests.runs⟩
  refine ⟨d₂, h₁.trans h₂, h.rests (h₁.trans h₂) hended ?_, hrests.runs, hqueue, hcursor, hlength,
    hquiet⟩
  intro n
  rw [hqueue, List.drop_drop]
  exact hsendable _

/-- How much a device still has to push, and to pull of a log that will hold so much in the end. -/
def behind (total : Nat) (i : δ) (d : Deployment δ ι) : Nat :=
  (d.engines i).store.queue.length + (total - (d.engines i).store.cursor.toNat)

/-- What a device has done that catches up, at any time when no `synchronize` is under way. -/
structure CatchingUp (F : Setting) (i : δ) (now : Nat) (c : Claims) (d d' : Deployment δ ι) : Prop where
  onward : Onward F i d d'
  online : Online F d' i now c
  runs : (d'.engines i).runs = []
  total : (d'.space F).entries.length + (d'.engines i).store.queue.length ≤
    (d.space F).entries.length + (d.engines i).store.queue.length
  quiet : (d.engines i).store.queue = [] →
    (d'.engines i).store.queue = [] ∧ d'.space F = d.space F

/-- The device is where it wants to be. -/
def CaughtUp (F : Setting) (i : δ) (d : Deployment δ ι) : Prop :=
  (d.engines i).store.queue = [] ∧ (d.engines i).store.cursor = (d.space F).entries.length

/-- Another `synchronize` brings it nearer. -/
theorem CatchingUp.nearer (hF : F.Sound) (hd : Reachable F d) (hidle : d.server.sessions j = none)
    (hexact : Exact ((d.space F).entries.length + (d.engines i).store.queue.length))
    (h : CatchingUp F i now c d d') :
    ∃ d'', Relation.ReflTransGen (Step F) d' d'' ∧ CatchingUp F i now c d d'' ∧
      (CaughtUp F i d'' ∨
        behind ((d.space F).entries.length + (d.engines i).store.queue.length) i d'' <
          behind ((d.space F).entries.length + (d.engines i).store.queue.length) i d') := by
  have hd' := hd.trans h.onward.steps
  have htotal := h.total
  obtain ⟨n, hn, hle⟩ := Reachable.cursor_le hF hd' i
  obtain ⟨d'', h', honline, hruns, hqueue, hcursor, hlength, hquiet⟩ :=
    Online.synchronizes hF hd' (h.onward.sessions ▸ hidle) h.online h.runs
      (lt_of_le_of_lt htotal hexact)
  have hgrown := h'.grown
  have hdrop := congrArg List.length hqueue
  rw [List.length_drop] at hdrop
  refine ⟨d'', h'.steps, ⟨h.onward.trans h', honline, hruns, by omega, fun hnone => ?_⟩, ?_⟩
  · obtain ⟨hnone', hsame⟩ := h.quiet hnone
    exact ⟨by rw [hqueue, hnone', List.drop_nil], (hquiet hnone').trans hsame⟩
  · by_cases hdone : CaughtUp F i d''
    · exact .inl hdone
    · rw [CaughtUp, ← List.length_eq_zero_iff] at hdone
      rw [behind, behind]
      exact .inr (by omega)

/-- **A device that is online catches up**, however much is queued and new. -/
theorem Online.catches_up (hF : F.Sound) (hd : Reachable F d) (hidle : d.server.sessions j = none)
    (h : Online F d i now c)
    (hexact : Exact ((d.space F).entries.length + (d.engines i).store.queue.length)) :
    ∃ d', CatchingUp F i now c d d' ∧ CaughtUp F i d' := by
  obtain ⟨d₁, h₁, honline, hruns, hspace, hqueue⟩ := h.ends hF hd
  have hbegun : CatchingUp F i now c d d₁ := by
    refine ⟨h₁, honline, hruns, ?_, fun hnone => ⟨?_, hspace⟩⟩
    · rw [hspace]
      exact Nat.add_le_add_left hqueue _
    · rw [hnone] at hqueue
      exact List.eq_nil_of_length_eq_zero (Nat.le_zero.mp hqueue)
  obtain ⟨d', -, hcatching, hcaught⟩ := reaches_by_descent
    (P := CatchingUp F i now c d) (Q := CaughtUp F i)
    (behind ((d.space F).entries.length + (d.engines i).store.queue.length) i)
    (fun s hs => hs.nearer hF hd hidle hexact) hbegun
  exact ⟨d', hcatching, hcaught⟩

/-! ### A run -/

section Site

open Engine (localhost)

/-- The server, once a second tablet is registered. -/
def joined : Backend :=
  (site.server.serve (requestOf .register (go "ada") otherTablet) registered).2

/-- The second device, once it has logged in. -/
def reader : Engine :=
  entered localhost LocalStore.new (dart "ada") (dart "0a000000-0000-4000-8000-000000000002")

/-- What the token of the two devices says. -/
def ada : Claims :=
  { workspace := go "site-a", role := go "editor", subject := go "ada", expires := 9 }

/-- Both devices have logged in, and the author's push of two titles is on the way. -/
theorem site_joined : ∃ d : Deployment Bool Unit, Reachable site d ∧
    d.saved false = System.titles ∧ d.server = Running.new joined ∧
    d.engines false = { author with runs := [.posted 0 System.titles] } ∧
    d.engines true = reader := by
  obtain ⟨d, hd, hsaved, hserver, hengines, -⟩ := site_posted
  have hother : site.Starts d.requests
      (site.server.handler (requestOf .register (go "ada") otherTablet)
        >>= fun response => pure (none, response)) := .other _ fun h => by cases h
  have h₁ := hd.trans (later_serve (run_steps (i := ()) hother (by rw [hserver]; rfl)))
  have houter : ∀ e ∈ entering (dart "ada") (dart "0a000000-0000-4000-8000-000000000002"), e.Outer := by
    simp [entering, Engine.Event.Outer]
  have h₂ := h₁.trans (outer_events true houter)
  have hentered : (entering (dart "ada") (dart "0a000000-0000-4000-8000-000000000002")).foldl
      (Engine.step site.platform) (d.engines true) = reader := by
    rw [hengines, Function.update_of_ne (by decide), entering_ends _ _ _ _ rfl rfl]
    rfl
  dsimp only at h₂
  rw [hentered] at h₂
  refine ⟨_, h₂, ?_, ?_, ?_, ?_⟩
  · show d.saved false = System.titles
    rw [hsaved]
  · dsimp only
    rw [hserver, Program.run_bind]
    rfl
  · show Function.update d.engines true reader false = _
    rw [Function.update_of_ne (by decide), hengines, Function.update_self]
  · show Function.update d.engines true reader true = reader
    rw [Function.update_self]

theorem author_queue : author.store.queue = System.titles := by
  have hpending := author_pending
  rw [LocalStore.pending_queue] at hpending
  have htake := Except.ok.inj hpending
  rwa [List.take_of_length_le] at htake
  by_contra hmany
  have hlength := congrArg List.length htake
  rw [List.length_take, Nat.min_eq_left (by omega)] at hlength
  cases hlength

theorem author_sendable : Sendable author.store := by
  intro n
  rw [author_queue, length_pushBody]
  rcases n with _ | _ | n
  · decide
  · decide
  · rw [List.drop_of_length_le (by simp [System.titles])]
    decide

theorem site_online {d : Deployment Bool Unit} (hserver : d.server = Running.new joined)
    (hauthor : d.engines false = { author with runs := [.posted 0 System.titles] })
    (hreader : d.engines true = reader) (i : Bool) :
    Online site d i 0 ada := by
  have hspace : d.space site = joined.store (go "site-a") := by
    rw [space, hserver]
    rfl
  cases i with
  | false =>
      refine ⟨by rw [hauthor]; rfl, by rw [hauthor]; rfl, by rw [hauthor]; rfl, ?_, ?_, ?_⟩
      · rw [hauthor]
        intro phase hphase
        obtain rfl := List.mem_singleton.mp hphase
        rfl
      · rw [hspace, hauthor]
        exact ⟨by decide, rfl, .inl rfl, by decide +kernel⟩
      · rw [hauthor]
        exact author_sendable
  | true =>
      refine ⟨by rw [hreader]; rfl, by rw [hreader]; rfl, by rw [hreader]; rfl, ?_, ?_, ?_⟩
      · rw [hreader]
        intro phase hphase
        obtain rfl := List.mem_singleton.mp hphase
        rfl
      · rw [hspace, hreader]
        exact ⟨by decide, rfl, .inl rfl, by decide +kernel⟩
      · rw [hreader]
        intro n
        show (pushBody ((([] : List Operation).drop n).take 100)).length ≤ bodyLimit
        rw [List.drop_nil]
        decide

end Site

end Syncraft.Deployment
