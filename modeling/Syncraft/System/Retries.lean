import Syncraft.System.Deployed

/-!
# Syncraft.System.Retries

A push that has left a device can always be taken. It is built on what the server held then, the
log only grows, and nobody makes two edits with one ID; so however late it comes, and however often,
only the device can be a reason to turn it away (`Reachable.taken`, `pushes_admitted`).
-/

namespace Syncraft.System

open Syncraft.Field CausalLog

variable {δ : Type} {w : Setting}

/-- The server admits the batch. -/
structure Taken (w : Setting) (server : Store.Space) (batch : List Operation) : Prop where
  size : Domain.BatchSize (batch.map Operation.toGo)
  made : ∀ o ∈ batch, Made w.made o
  admits : ∃ r, admitAll server.ops (batch.map Operation.toGo) = .ok r

/-- Edits agree with a log of edits. -/
theorem agrees_of_log (he : Edits w.made) {log : List (Domain.Operation GoString)}
    (hlog : ∀ q ∈ log, ∃ o, Made w.made o ∧ o.toGo = q) {o : Operation} (ho : Made w.made o) :
    Agrees log o.toGo := by
  intro y hy
  obtain ⟨x, hx, rfl⟩ := hlog y (mem_of_find hy)
  have hid : x.id = o.id := (toGo_inj x.id_wellFormed o.id_wellFormed).mp (key_of_find hy)
  exact (same_toGo_iff (hx.wellFormed he) (ho.wellFormed he)).mpr ((hx.same_iff he ho).mpr hid)

/-- It still does when the log has grown, by edits. -/
theorem Taken.grow (he : Edits w.made) {server server' : Store.Space} {batch : List Operation}
    (h : Taken w server batch) (hgrow : server.entries <+: server'.entries)
    (hlog : ∀ q ∈ server'.ops, ∃ o, Made w.made o ∧ o.toGo = q) : Taken w server' batch := by
  obtain ⟨r, hr⟩ := h.admits
  refine ⟨h.size, h.made, ?_⟩
  rcases admitAll_later (Covers.of_extends (ops_grows hgrow)) hr with ⟨⟨r', hr', -⟩, -⟩ |
    ⟨-, q, hq, hdiffers⟩
  · exact ⟨r', hr'⟩
  · obtain ⟨o, ho, rfl⟩ := List.mem_map.mp hq
    exact absurd (agrees_of_log he hlog (h.made o ho)) hdiffers

/-- What is about to be posted, and what has been, can be taken. -/
structure Ready (w : Setting) (s : System δ) : Prop where
  posting : ∀ i round batch, (s.phones i).phase = .posting round batch → Taken w s.server batch
  requests : ∀ r ∈ s.requests, ∀ body, r = .push body →
    ∃ batch, r = pushRequest batch ∧ Taken w s.server batch

theorem Ready.grow (he : Edits w.made) {s : System δ} (h : Ready w s) {server : Store.Space}
    {replies : List (Nat × Api.Reply)} (hgrow : s.server.entries <+: server.entries)
    (hlog : ∀ q ∈ server.ops, ∃ o, Made w.made o ∧ o.toGo = q) :
    Ready w { s with server, replies } where
  posting i round batch hphase := (h.posting i round batch hphase).grow he hgrow hlog
  requests r hr body hbody := by
    obtain ⟨batch, hbatch, htaken⟩ := h.requests r hr body hbody
    exact ⟨batch, hbatch, htaken.grow he hgrow hlog⟩

/-- The server takes a request of its devices, unless it refuses the device. -/
theorem Ready.push {s : System δ} (hi : Inv w s) (h : Ready w s) {k : Nat}
    {body : List (Domain.Operation JsonText.Literal)} (hk : s.requests[k]? = some (.push body))
    {operations : List (Domain.Operation GoString)}
    (hbody : body.mapM Api.decodeOperation = some operations) (device actor : GoString) :
    (s.server.active device actor = true ∧
        ∃ n, (s.server.push device actor operations).1 = .ok n) ∨
      s.server.active device actor = false ∧
        s.server.push device actor operations = (.error .forbidden, s.server) := by
  obtain ⟨batch, hrequest, htaken⟩ := h.requests _ (List.mem_of_getElem? hk) body rfl
  obtain rfl := Request.push.inj hrequest
  obtain rfl : batch.map Operation.toGo = operations :=
    Option.some.inj ((decode_pushed batch).symm.trans hbody)
  cases hactive : s.server.active device actor with
  | true =>
      obtain ⟨r, hr⟩ := htaken.admits
      obtain ⟨fresh, -, hpush⟩ :=
        Store.Space.push_ok hi.server.causal hactive htaken.size (valid_pushed batch) hr
      exact .inl ⟨rfl, _, by rw [hpush]⟩
  | false =>
      right
      rw [Store.Space.push, hactive]
      exact ⟨rfl, rfl⟩

variable [DecidableEq δ]

/-- A change of a device's store does not matter. -/
theorem Ready.store {s : System δ} (h : Ready w s) (i : δ) (store : LocalStore)
    (ops : List Operation) : Ready w (s.store i store ops) where
  posting j round batch hphase := by
    refine h.posting j round batch ?_
    by_cases hj : j = i
    · subst hj
      simpa [System.store] using hphase
    · simpa [System.store, Function.update_of_ne hj] using hphase
  requests := h.requests

/-- A device goes on. What it is about to post was pending. -/
theorem Ready.phone (he : Edits w.made) {s : System δ} (hi : Inv w s) (h : Ready w s) {i : δ}
    {p : Phone} {sent : List Request}
    (hstep : Phone.Step w.created (fun k r => (k, r) ∈ s.replies) s.requests.length (s.phones i) p
      sent) :
    Ready w { s with phones := Function.update s.phones i p, requests := s.requests ++ sent } := by
  have hp : ∀ round batch, p.phase = .posting round batch → Taken w s.server batch := by
    intro round batch hphase
    cases hstep with
    | pending round' batch' _ _ hpending hne =>
        obtain ⟨-, rfl⟩ := Phase.posting.inj hphase
        exact ⟨pending_size hpending hne, pending_made (hi.store i) hpending,
          hi.pending_admitted he hpending⟩
    | pause | connect | deviceId | bind | attachments => exact h.posting i round batch hphase
    | apply round' page store =>
        dsimp only at hphase
        split at hphase <;> cases hphase
    | _ => cases hphase
  have hsent : ∀ r ∈ sent, ∀ body, r = .push body →
      ∃ batch, r = pushRequest batch ∧ Taken w s.server batch := by
    intro r hr body hbody
    cases hstep with
    | post round batch hphase =>
        obtain rfl := List.mem_singleton.mp hr
        exact ⟨batch, rfl, h.posting i round batch hphase⟩
    | get round after hphase =>
        obtain rfl := List.mem_singleton.mp hr
        cases hbody
    | _ => cases hr
  refine ⟨fun j round batch hphase => ?_, fun r hr body hbody => ?_⟩
  · by_cases hj : j = i
    · subst hj
      exact hp round batch (by simpa using hphase)
    · exact h.posting j round batch (by simpa [Function.update_of_ne hj] using hphase)
  · rcases List.mem_append.mp hr with hr | hr
    · exact h.requests r hr body hbody
    · exact hsent r hr body hbody

theorem Ready.step (he : Edits w.made) {s s' : System δ} (hi : Inv w s) (h : Ready w s)
    (hstep : Step w s s') : Ready w s' := by
  have hi' := step_inv he hi hstep
  cases hstep with
  | save i batch now store hbatch hok => exact h.store i store batch
  | seed i ops now store hseed hok => exact h.store i store ops
  | exportBundle i payload hok => exact { h with }
  | restore i payload now store hmem hok => exact h.store i store store.ops
  | phone i p sent hphone => exact h.phone he hi hphone
  | push k body device actor hk =>
      obtain ⟨batch, hmade, hbody⟩ := hi.pushes _ (List.mem_of_getElem? hk) body rfl
      obtain rfl := Request.push.inj hbody
      refine h.grow he ?_ hi'.log
      rcases push_handled hi.server batch device actor with ⟨hserver, -⟩ |
        ⟨n, server, hpush, -, hgrow, -⟩
      · rw [hserver]
      · rw [hpush]
        exact hgrow
  | pull k after hk => exact { h with }
  | refuse k status message hk => exact { h with }
  | other c hc hpush =>
      have hentries : s.server.entries <+: (s.server.write c).2.entries :=
        (write_entries hpush).symm ▸ List.prefix_rfl
      exact h.grow he hentries hi'.log

/-- **What has been posted can be taken**, at any later time. -/
theorem Reachable.ready (he : Edits w.made) {s : System δ} (h : Reachable w s) : Ready w s := by
  induction h with
  | refl =>
      refine ⟨fun _ _ _ hphase => ?_, fun _ hr => ?_⟩
      · cases hphase
      · cases hr
  | tail hs hstep ih => exact ih.step he (Reachable.inv he hs) hstep

end Syncraft.System

namespace Syncraft.Deployment

open Domain Library Program Api
open Syncraft.Field

variable {δ ι : Type} [DecidableEq δ] [DecidableEq ι] {F : Setting} {d : Deployment δ ι}

/-- What a push asks, whatever its session is for. -/
theorem handler_pushes {S : Server} {r : Api.Request} {c : Claims} {α : Type}
    {operations : List (Domain.Operation GoString)} (k : Response → Program Ask α)
    (horigin : r.origin = []) (hoptions : r.options = false) (hlimited : r.limited = false)
    (hroute : r.route = .push) (hverify : S.verify (trimBearer r.authorization) r.now = some c)
    (hrole : c.role = go "editor")
    (hdecode : Server.decode S.packages.decodePush r = some operations) :
    ∃ rest, S.handler r >>= k = .call .countRequest (fun _ =>
        .call (.store c.workspace (.device r.device)) rest) ∧
      ∀ found, Server.owns c found = true → ∃ next,
        rest found = .call (.store c.workspace (.push r.device c.subject operations)) next := by
  have hguard : (true && c.role != go "editor" && c.role != go "admin") = false := by
    simp [hrole]
  refine ⟨?rest, ?program, ?owned⟩
  case program =>
    rw [Server.handler, horigin, hoptions, hlimited, Server.mux, hroute]
    dsimp only
    rw [Server.push, Server.identity, hverify, hdecode]
    dsimp only
    rw [hguard]
    rfl
  case owned =>
    intro found howns
    refine ⟨?next, ?call⟩
    case call =>
      dsimp only [Program.bind]
      rw [if_pos howns]
      rfl

/-- **A push that a device has sent is taken whenever it arrives.** When its handler comes to store
it, however late and however often that is, the store accepts it, unless the device is not
registered, is another's, or has been revoked. It is never invalid and never in conflict. -/
theorem pushes_admitted (hF : F.Sound) (h : Reachable F d) {i : ι} {device actor : GoString}
    {operations : List (Domain.Operation GoString)}
    {next : Except Err Nat → Program Ask (Option Nat × Response)}
    (hcall : d.server.sessions i =
      some (.call (.store F.workspace (.push device actor operations)) next)) :
    ((d.space F).active device actor = true ∧
        ∃ n, ((d.space F).push device actor operations).1 = .ok n) ∨
      (d.space F).active device actor = false ∧
        (d.space F).push device actor operations = (.error .forbidden, d.space F) := by
  obtain ⟨s, hs, hshows⟩ := h.shown hF
  have hi := System.Reachable.inv hF.edits hs
  have hready := System.Reachable.ready hF.edits hs
  have hserver : s.server = d.space F := hshows.server
  rw [← hserver]
  cases hshows.sessions i _ hcall with
  | undecided k a r x hk hsent hworkspace honce =>
      rcases honce with ⟨haside, -⟩ | ⟨-, hnext⟩
      · cases haside
      · -- The handler has decoded the request.
        obtain ⟨-, -, hroute, hdecode, -⟩ := (hnext (.ok 0)).2.run backend d.server.store
        obtain ⟨body, rfl, hbody⟩ := push_of_sent hF hsent hroute hdecode
        exact hready.push hi hk hbody device actor
  | decided k x hmakes hreturns => cases hmakes.1
  | other x hmakes hreturns => exact absurd rfl hmakes.1

/-- The author's push is taken: its handler is about to store it. -/
theorem pushes_admitted_run :
    let operations := System.titles.map Operation.toGo
    ∃ (d : Deployment Bool Unit) (next : Except Err Nat → Program Ask (Option Nat × Response))
      (n : Nat), Reachable site d ∧
      d.server.sessions () =
        some (.call (.store site.workspace (.push (toGo tabletID) (go "ada") operations)) next) ∧
      ((d.space site).push (toGo tabletID) (go "ada") operations).1 = .ok n := by
  obtain ⟨d, hd, -, hserver, -, hrequests⟩ := site_posted
  let r := arrived (ApiClient.push (carried author) System.titles) [] false 0
  let c : Claims := { workspace := go "site-a", role := go "editor", subject := go "ada", expires := 9 }
  have hverify : site.server.verify (trimBearer r.authorization) r.now = some c := by decide
  have hdecode : Server.decode site.server.packages.decodePush r =
      some (System.titles.map Operation.toGo) := by
    have hlength : (pushBody System.titles).length ≤ 2 * 1024 * 1024 := by
      rw [length_pushBody]
      decide
    show (if (pushBody System.titles).length > 2 * 1024 * 1024 then none
      else readPush (pushBody System.titles)) = _
    rw [if_neg (Nat.not_lt.mpr hlength), readPush_pushBody]
  obtain ⟨rest, hprogram, hrest⟩ := handler_pushes (fun response => pure (some 0, response))
    (rfl : r.origin = []) rfl rfl rfl hverify rfl hdecode
  obtain ⟨next, hpush⟩ := hrest (registered.store.answer (go "site-a") (.device r.device)).1 (by decide)
  have hstart : site.Starts d.requests _ := .sent 0 (ApiClient.push (carried author) System.titles) [] false 0
    (by rw [hrequests]; rfl) fun w hw => by
      have hbearer : site.server.bearer r = some (go "site-a") := by decide
      exact Option.some.inj (hw.symm.trans hbearer)
  rw [hprogram] at hstart
  have hidle : d.server.sessions () = none := by
    rw [hserver]
    rfl
  have h₁ : Running.Later backend (site.Starts d.requests) d.server _ :=
    .single (Running.Step.start () _ hidle hstart)
  have h₂ := h₁.tail (Running.Step.call () .countRequest _ (by
    dsimp only
    rw [Function.update_self]))
  have h₃ := h₂.tail (Running.Step.call () (.store c.workspace (.device r.device)) _ (by
    dsimp only
    rw [Function.update_self]))
  have hfound : (backend.answer (.store c.workspace (.device r.device))
      (backend.answer .countRequest d.server.store).2).1 =
        (registered.store.answer (go "site-a") (.device r.device)).1 := by
    rw [hserver]
    rfl
  obtain ⟨e, he, hsession, hspace⟩ : ∃ e : Deployment Bool Unit, Reachable site e ∧
      e.server.sessions () = some (.call (.store site.workspace
        (.push (toGo tabletID) (go "ada") (System.titles.map Operation.toGo))) next) ∧
      e.space site = registered.store (go "site-a") := by
    refine ⟨_, hd.trans (later_serve h₃), ?_, ?_⟩
    · dsimp only
      rw [Function.update_self, hfound, hpush]
      rfl
    · show d.server.store.store (go "site-a") = _
      rw [hserver]
      rfl
  have hactive : (e.space site).active (toGo tabletID) (go "ada") = true := by
    rw [hspace]
    decide +kernel
  rcases pushes_admitted site_sound he hsession with ⟨-, n, hn⟩ | ⟨hinactive, -⟩
  · exact ⟨e, next, n, he, hsession, hn⟩
  · rw [hactive] at hinactive
    cases hinactive

end Syncraft.Deployment
