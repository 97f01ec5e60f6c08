import Syncraft.Field.Pausing
import Syncraft.System.Delivery
import Syncraft.System.Deployment
import Syncraft.System.Invariant

/-!
# Syncraft.System.Refinement

The deployment is an implementation of the system: whatever it does, the system does as well
(`Shows.step`), and so it gets to no state but those that show a state of the system
(`deployment_refines`).

A push takes effect in the system when its handler calls the store, and that is when it is answered
there; in the deployment the response is sent later, with other requests in between. An error
counts as given when the response is sent.
-/

namespace Syncraft.Deployment

open Domain Library Program Api
open Syncraft.Field
open Syncraft.Field.LocalStore (Call)

/-! ### What a state shows -/

/-- The request, as it left the device or as it arrived. -/
inductive Sent : Field.Request → Api.Request → Prop where
  | push (r : Api.Request) (batch : List Operation) : r.route = .push → r.options = false →
      r.body = pushBody batch → Sent (pushRequest batch) r
  | pull (r : Api.Request) (after : Int) : r.route = .pull → r.options = false →
      r.after = ApiClient.decimal after → Sent (.pull after) r

theorem Sent.arrived {a : Field.Request} {r : Api.Request} (h : Sent a r) (origin : GoString)
    (limited : Bool) (now : Nat) : Sent a (arrived r origin limited now) := by
  cases h with
  | push _ batch hroute hoptions hbody => exact .push _ batch hroute hoptions hbody
  | pull _ after hroute hoptions hafter => exact .pull _ after hroute hoptions hafter

theorem Sent.exchanges {a : Field.Request} {r : Api.Request} (h : Sent a r) :
    r.options = false ∧ (r.route = .push ∨ r.route = .pull) := by
  cases h with
  | push _ batch hroute hoptions hbody => exact ⟨hoptions, .inl hroute⟩
  | pull _ after hroute hoptions hafter => exact ⟨hoptions, .inr hroute⟩

/-- The response carries a reply to request `k`. -/
def Given (replies : List (Nat × Reply)) (k : Nat) (response : Response) : Prop :=
  ∃ reply, (k, reply) ∈ replies ∧ response = responseOf reply ∧
    ∀ status message, reply = .problem status message → 400 ≤ status

/-- Calls by which nothing is answered. -/
def Aside (β : Type) (a : Ask β) : Prop := Ask.aside β a = true

/-- Where a session of the server stands. -/
inductive Session (F : Setting) (requests : List Field.Request) (replies : List (Nat × Reply)) :
    Program Ask (Option Nat × Response) → Prop where
  /-- Nothing has been decided yet. -/
  | undecided (k : Nat) (a : Field.Request) (r : Api.Request) (x : Program Ask (Option Nat × Response)) :
      requests[k]? = some a → Sent a r → (∀ w, F.server.bearer r = some w → w = F.workspace) →
      x.Once Ask.aside (fun y => y.1 = some k ∧ y.2.Refuses)
        (fun β c res y => y.1 = some k ∧ F.server.Decides r β c res y.2) →
      Session F requests replies x
  /-- The reply is there, and its response is to be sent. -/
  | decided (k : Nat) (x : Program Ask (Option Nat × Response)) : x.Makes Aside →
      x.Returns (fun y => y.1 = some k ∧ Given replies k y.2) → Session F requests replies x
  /-- Another request is being served. -/
  | other (x : Program Ask (Option Nat × Response)) :
      x.Makes (Ask.Elsewhere F.server F.workspace) → x.Returns (fun y => y.1 = none) →
      Session F requests replies x

variable {δ ι : Type} {F : Setting}

/-- The state of the deployment, with the details left out, is the state of the system. -/
structure Shows (F : Setting) (d : Deployment δ ι) (s : System δ) : Prop where
  server : s.server = d.server.store.store F.workspace
  phones : ∀ i, ∃ error, s.phones i = (d.engines i).phone (d.awaited i) error
  sane : ∀ i, (d.engines i).Sane
  saved : s.saved = d.saved
  requests : List.Forall₂ Sent s.requests d.requests
  sessions : ∀ i x, d.server.sessions i = some x → Session F s.requests s.replies x
  responses : ∀ k response, (k, response) ∈ d.responses → Given s.replies k response
  /-- A bundle is the payload, under its envelope. -/
  bundles : ∀ bytes ∈ d.bundles, bytes.length ≤ RecoveryBundle.maxBytes ∧ ∃ payload ∈ s.bundles,
    RecoveryBundle.contentOf F.platform.sha256 bytes =
      .ok (RecoveryBundle.payloadJson payload).encode

theorem new_shows (F : Setting) : Shows F (new F : Deployment δ ι) System.new where
  server := rfl
  phones _ := ⟨none, rfl⟩
  sane _ := Engine.Sane.new _ _
  saved := rfl
  requests := .nil
  sessions _ _ h := by cases h
  responses _ _ h := by cases h
  bundles _ h := by cases h

/-! ### What is sent and replied stays so -/

theorem Given.mono {replies replies' : List (Nat × Reply)} (h : replies ⊆ replies') {k : Nat}
    {response : Response} (hg : Given replies k response) : Given replies' k response := by
  obtain ⟨reply, hmem, hrest⟩ := hg
  exact ⟨reply, h hmem, hrest⟩

theorem Session.mono {requests requests' : List Field.Request} {replies replies' : List (Nat × Reply)}
    (hreq : requests <+: requests') (hrep : replies ⊆ replies')
    {x : Program Ask (Option Nat × Response)} (h : Session F requests replies x) :
    Session F requests' replies' x := by
  cases h with
  | undecided k a r x hk hsent hworkspace honce =>
      exact .undecided k a r x (System.getElem?_grows hreq hk) hsent hworkspace honce
  | decided k x hmakes hreturns =>
      exact .decided k x hmakes (hreturns.mono fun y hy => ⟨hy.1, hy.2.mono hrep⟩)
  | other x hmakes hreturns => exact .other x hmakes hreturns

/-! ### Sessions of the server -/

/-- The system can go on to a state that is shown. -/
def Follows [DecidableEq δ] (F : Setting) (s : System δ) (d : Deployment δ ι) : Prop :=
  ∃ s', Relation.ReflTransGen (System.Step F.outline) s s' ∧ Shows F d s'

section Serving

variable {d : Deployment δ ι} {s : System δ} [DecidableEq ι]

/-- A session goes on, and the workspace and the replies with it. -/
theorem Shows.served (h : Shows F d s) (i : ι) {b : Backend}
    {x : Option (Program Ask (Option Nat × Response))} {server : Store.Space}
    {replies : List (Nat × Reply)} (hserver : server = b.store F.workspace)
    (hreplies : s.replies ⊆ replies) (hx : ∀ y, x = some y → Session F s.requests replies y) :
    Shows F
      { d with server := { store := b, sessions := Function.update d.server.sessions i x } }
      { s with server, replies } := by
  refine { h with
    server := hserver
    sessions := fun j y hy => ?_
    responses := fun k response hk => (h.responses k response hk).mono hreplies }
  dsimp only at hy
  by_cases hj : j = i
  · subst hj
    rw [Function.update_self] at hy
    exact hx y hy
  · rw [Function.update_of_ne hj] at hy
    exact (h.sessions j y hy).mono List.prefix_rfl hreplies

/-- A session goes on, and nothing happens to the workspace. -/
theorem Shows.unmoved (h : Shows F d s) (i : ι) {b : Backend}
    (hb : b.store F.workspace = d.server.store.store F.workspace)
    {x : Option (Program Ask (Option Nat × Response))}
    (hx : ∀ y, x = some y → Session F s.requests s.replies y) :
    Shows F
      { d with server := { store := b, sessions := Function.update d.server.sessions i x } } s :=
  h.served i (h.server.trans hb.symm) (List.Subset.refl _) hx

theorem store_of_quiet {β : Type} {c : Ask β} (hc : Ask.quiet β c = true) (b : Backend)
    (w : GoString) : (backend.answer c b).2.store w = b.store w := by
  rw [quiet_store hc]

/-- The operations that a push is decided by are those of the request. -/
theorem push_of_sent (hF : F.Sound) {a : Field.Request} {r : Api.Request} (hsent : Sent a r)
    (hroute : r.route = .push) {operations : List (Domain.Operation GoString)}
    (hdecode : Server.decode F.server.packages.decodePush r = some operations) :
    ∃ body, a = .push body ∧ body.mapM decodeOperation = some operations := by
  cases hsent with
  | pull _ after hpull => rw [hroute] at hpull; cases hpull
  | push _ batch _ _ hbody =>
      refine ⟨_, rfl, ?_⟩
      rw [Server.decode] at hdecode
      split at hdecode
      · cases hdecode
      · rw [hbody, hF.decodes] at hdecode
        rw [System.decode_pushed, hdecode]

/-- The cursor that a pull is decided by is that of the request. -/
theorem pull_of_sent {a : Field.Request} {r : Api.Request} (hsent : Sent a r)
    (hroute : r.route = .pull) {after : Int} (hcursor : cursor r = .ok after) : a = .pull after := by
  cases hsent with
  | push _ batch hpush => rw [hroute] at hpush; cases hpush
  | pull _ n _ _ hafter => rw [ApiClient.cursor_pull hafter hcursor]

theorem problem_status {e : Err} {status : Nat} {message : String}
    (h : problem e = .problem status message) : 400 ≤ status := by
  cases e <;> cases h <;> decide

variable [DecidableEq δ]

/-- The call by which a push or a pull is decided. -/
theorem Shows.decide (hF : F.Sound) (h : Shows F d s) (i : ι) {k : Nat} {a : Field.Request}
    {r : Api.Request} (hk : s.requests[k]? = some a) (hsent : Sent a r)
    (hworkspace : ∀ w, F.server.bearer r = some w → w = F.workspace) {β : Type} {c : Ask β}
    {x : Program Ask (Option Nat × Response)} (hmakes : x.Makes Aside)
    (hreturns : x.Returns fun y =>
      y.1 = some k ∧ F.server.Decides r β c (backend.answer c d.server.store).1 y.2) :
    Follows F s
      { d with server := { store := (backend.answer c d.server.store).2,
                           sessions := Function.update d.server.sessions i (some x) } } := by
  -- The call is a push or a pull, since the program has some result.
  obtain ⟨-, hdecides⟩ := hreturns.run backend d.server.store
  have hsub : ∀ reply, s.replies ⊆ s.replies ++ [(k, reply)] :=
    fun reply => List.subset_append_left _ _
  have hlast : ∀ reply, (k, reply) ∈ s.replies ++ [(k, reply)] :=
    fun reply => List.mem_append_right _ (List.mem_singleton_self _)
  cases c with
  | store w c =>
      cases c with
      | push device actor operations =>
          obtain ⟨hbearer, hroute, hdecode, -⟩ := hdecides
          obtain rfl := hworkspace w hbearer
          obtain ⟨body, rfl, hbody⟩ := push_of_sent hF hsent hroute hdecode
          obtain ⟨hresponse, hspace⟩ :=
            push_decides (b := d.server.store) (w := F.workspace) device actor hbody
          rw [← h.server] at hresponse hspace
          refine ⟨_, .single (.push k body device actor hk),
            h.served i hspace.symm (hsub _) fun y hy => ?_⟩
          obtain rfl := Option.some.inj hy
          refine .decided k _ hmakes (hreturns.mono fun y hy => ⟨hy.1, _, hlast _, ?_, ?_⟩)
          · rw [hy.2.2.2.2, hresponse]
          · intro status message hproblem
            rw [Api.push, hbody] at hproblem
            dsimp only at hproblem
            split at hproblem
            · cases hproblem
            · exact problem_status hproblem
      | pull after limit =>
          obtain ⟨hbearer, hroute, hcursor, rfl, -⟩ := hdecides
          obtain rfl := hworkspace w hbearer
          obtain rfl := pull_of_sent hsent hroute hcursor
          have hresponse := pull_decides (b := d.server.store) (w := F.workspace) after
          rw [← h.server] at hresponse
          refine ⟨_, .single (.pull k after hk),
            h.served i (h.server.trans (store_of_quiet rfl _ _).symm) (hsub _) fun y hy => ?_⟩
          obtain rfl := Option.some.inj hy
          refine .decided k _ hmakes (hreturns.mono fun y hy => ⟨hy.1, _, hlast _, ?_, ?_⟩)
          · rw [hy.2.2.2.2.2, hresponse]
          · intro status message hproblem
            rw [Api.pull] at hproblem
            split at hproblem
            · cases hproblem
            · exact problem_status hproblem
      | _ => cases hdecides
  | _ => cases hdecides

/-- A call for a request that is no push to the workspace. -/
theorem Shows.elsewhere (h : Shows F d s) (i : ι) {β : Type} {c : Ask β}
    (hc : Ask.Elsewhere F.server F.workspace β c) {x : Program Ask (Option Nat × Response)}
    (hx : ∀ replies, s.replies ⊆ replies → Session F s.requests replies x) :
    Follows F s
      { d with server := { store := (backend.answer c d.server.store).2,
                           sessions := Function.update d.server.sessions i (some x) } } := by
  have hsession : ∀ y, some x = some y → Session F s.requests s.replies y := by
    rintro y ⟨⟩
    exact hx _ (List.Subset.refl _)
  -- Its workspace is another one, or it looks only, or it writes what is no push.
  have hsame : (backend.answer c d.server.store).2.store F.workspace =
      d.server.store.store F.workspace →
      Follows F s
        { d with server := { store := (backend.answer c d.server.store).2,
                             sessions := Function.update d.server.sessions i (some x) } } :=
    fun hb => ⟨s, .refl, h.unmoved i hb hsession⟩
  cases c with
  | store w c =>
      by_cases hw : F.workspace = w
      · subst hw
        have hwrite : ∀ c' : Store.Write, c'.Handled →
            (∀ device actor batch, c' ≠ .push device actor batch) →
            (s.server.write c').2 =
              (backend.answer (.store F.workspace c) d.server.store).2.store F.workspace →
            Follows F s
              { d with server := { store := (backend.answer (.store F.workspace c) d.server.store).2,
                                   sessions := Function.update d.server.sessions i (some x) } } :=
          fun c' hhandled hpush hspace =>
            ⟨_, .single (.other c' hhandled hpush), h.served i hspace (List.Subset.refl _) hsession⟩
        cases c with
        | push => exact absurd rfl hc
        | register device =>
            refine hwrite (.register device) hc (fun _ _ _ h => by cases h) ?_
            rw [space_of_answer, h.server]
            rfl
        | revoke id actor =>
            refine hwrite (.revoke id actor) trivial (fun _ _ _ h => by cases h) ?_
            rw [space_of_answer, h.server]
            rfl
        | putAttachment device actor row =>
            refine hwrite (.putAttachment device actor row) trivial (fun _ _ _ h => by cases h) ?_
            rw [space_of_answer, h.server]
            rfl
        | _ => exact hsame (store_of_quiet rfl _ _)
      · exact hsame (by
          show (d.server.store.store.answer w c).2 F.workspace = _
          rw [Store.Memory.answer_of_ne _ hw])
  | _ => exact hsame rfl

/-- **The server's sessions**: what they do, the system does. -/
theorem Shows.serve (hF : F.Sound) (h : Shows F d s)
    {server : Running ι Backend Ask (Option Nat × Response)}
    (hstep : Running.Step backend (F.Starts d.requests) d.server server) :
    Follows F s { d with server } := by
  cases hstep with
  | start i x _ hstarts =>
      refine ⟨s, .refl, h.unmoved i rfl fun y hy => ?_⟩
      obtain rfl := Option.some.inj hy
      cases hstarts with
      | sent k r origin limited now hk hworkspace =>
          obtain ⟨a, ha, hsent⟩ : ∃ a, s.requests[k]? = some a ∧ Sent a r := by
            obtain ⟨hlt, rfl⟩ := List.getElem?_eq_some_iff.mp hk
            have hlt' : k < s.requests.length := h.requests.length_eq ▸ hlt
            exact ⟨_, List.getElem?_eq_getElem hlt', h.requests.get hlt' hlt⟩
          have harrived := hsent.arrived origin limited now
          refine .undecided k a _ _ ha harrived hworkspace ?_
          exact (Server.handler_exchanges harrived.exchanges.1 harrived.exchanges.2).map
            (fun response hrefuses => ⟨rfl, hrefuses⟩) fun β c b response hdecides => ⟨rfl, hdecides⟩
      | other r hpush =>
          have hreturns : (F.server.handler r).Returns fun _ => True :=
            returns_of_forall (fun _ => trivial) _
          exact .other _ ((Server.handler_elsewhere hpush).bind fun _ => trivial)
            (hreturns.map (Q := fun y : Option Nat × Response => y.1 = none) fun _ _ => rfl)
  | @call i β c next hcall =>
      cases h.sessions i _ hcall with
      | undecided k a r x hk hsent hworkspace honce =>
          rcases honce with ⟨haside, hnext⟩ | ⟨-, hnext⟩
          · refine ⟨s, .refl, h.unmoved i (store_of_quiet (quiet_of_aside haside) _ _) fun y hy => ?_⟩
            obtain rfl := Option.some.inj hy
            exact .undecided k a r _ hk hsent hworkspace (hnext _)
          · exact h.decide hF i hk hsent hworkspace (hnext _).1 (hnext _).2
      | decided k x hmakes hreturns =>
          refine ⟨s, .refl, h.unmoved i (store_of_quiet (quiet_of_aside hmakes.1) _ _) fun y hy => ?_⟩
          obtain rfl := Option.some.inj hy
          exact .decided k _ (hmakes.2 _) (hreturns _)
      | other x hmakes hreturns =>
          exact h.elsewhere i hmakes.1 fun _ _ => .other _ (hmakes.2 _) (hreturns _)
  | finish i y hdone => exact ⟨s, .refl, h.unmoved i rfl fun _ hy => by cases hy⟩

end Serving

section Devices

variable {d : Deployment δ ι} {s : System δ} [DecidableEq δ]

/-- A response is sent. An error that no call has decided is given now. -/
theorem Shows.respond (h : Shows F d s) {i : ι} {k : Nat} {response : Response}
    (hdone : d.server.sessions i = some (.done (some k, response))) :
    Follows F s { d with responses := d.responses ++ [(k, response)] } := by
  have hresponses : ∀ replies, s.replies ⊆ replies → Given replies k response →
      ∀ k' response', (k', response') ∈ d.responses ++ [(k, response)] →
        Given replies k' response' := by
    intro replies hsub hgiven k' response' hmem
    rcases List.mem_append.mp hmem with hmem | hmem
    · exact (h.responses k' response' hmem).mono hsub
    · obtain ⟨rfl, rfl⟩ := Prod.mk.inj (List.mem_singleton.mp hmem)
      exact hgiven
  cases h.sessions i _ hdone with
  | undecided k' a r x hk hsent hworkspace honce =>
      obtain ⟨hsome, status, message, hstatus, hresponse⟩ := honce
      obtain rfl := Option.some.inj hsome
      dsimp only at hresponse
      obtain ⟨hlt, -⟩ := List.getElem?_eq_some_iff.mp hk
      have hsub : s.replies ⊆ s.replies ++ [(k, .problem status message)] :=
        List.subset_append_left _ _
      refine ⟨_, .single (.refuse k status message hlt), { h with
        sessions := fun j y hy => (h.sessions j y hy).mono List.prefix_rfl hsub
        responses := hresponses _ hsub ⟨_, List.mem_append_right _ (List.mem_singleton_self _),
          hresponse, ?_⟩ }⟩
      rintro status' message' ⟨⟩
      exact hstatus
  | decided k' x hmakes hreturns =>
      obtain ⟨hsome, hgiven⟩ := hreturns
      obtain rfl := Option.some.inj hsome
      exact ⟨s, .refl, { h with responses := hresponses _ (List.Subset.refl _) hgiven }⟩
  | other x hmakes hreturns => cases hreturns

/-! ### Devices -/

/-- A device goes on. -/
theorem Shows.device (h : Shows F d s) (i : δ) {e : Engine} {k : Nat} {p : Phone}
    {error : Option Exn} (hp : p = e.phone k error) (hsane : e.Sane) {ops : List Operation}
    {sent : List Field.Request} {left : List Api.Request} (hsent : List.Forall₂ Sent sent left) :
    Shows F
      { d with
        engines := Function.update d.engines i e
        awaited := Function.update d.awaited i k
        saved := Function.update d.saved i (d.saved i ++ ops)
        requests := d.requests ++ left }
      { s with
        phones := Function.update s.phones i p
        saved := Function.update s.saved i (s.saved i ++ ops)
        requests := s.requests ++ sent } where
  server := h.server
  phones j := by
    by_cases hj : j = i
    · subst hj
      exact ⟨error, by simpa using hp⟩
    · simpa [Function.update_of_ne hj] using h.phones j
  sane j := by
    by_cases hj : j = i
    · subst hj
      simpa using hsane
    · simpa [Function.update_of_ne hj] using h.sane j
  saved := by rw [h.saved]
  requests := List.rel_append h.requests hsent
  sessions j x hx := (h.sessions j x hx).mono (List.prefix_append _ _) (List.Subset.refl _)
  responses := h.responses
  bundles := h.bundles

/-- A device goes on that neither saves nor sends anything. -/
theorem Shows.quiet (h : Shows F d s) (i : δ) {e : Engine} {p : Phone} {error : Option Exn}
    (hp : p = e.phone (d.awaited i) error) (hsane : e.Sane) :
    Shows F { d with engines := Function.update d.engines i e }
      { s with phones := Function.update s.phones i p } := by
  have hdevice : Shows F _ { s with
      phones := _, saved := Function.update s.saved i (s.saved i ++ []), requests := _ } :=
    h.device i hp hsane List.Forall₂.nil
  simpa only [List.append_nil, Function.update_eq_self] using hdevice

/-- Steps of a device that send nothing are steps of the system. -/
theorem quiet_steps {i : δ} {p q : Phone}
    (h : Relation.ReflTransGen (Engine.Quiet F.stamp (fun k r => (k, r) ∈ s.replies) s.requests.length)
      p q) :
    Relation.ReflTransGen (System.Step F.outline) { s with phones := Function.update s.phones i p }
      { s with phones := Function.update s.phones i q } := by
  induction h with
  | refl => exact .refl
  | @tail q q' _ hstep ih =>
      refine ih.tail ?_
      have hq : Phone.Step F.stamp (fun k r => (k, r) ∈ s.replies) s.requests.length
          (Function.update s.phones i q i) q' [] := by
        rw [Function.update_self]
        exact hstep
      have hnext := System.Step.phone (w := F.outline)
        (s := { s with phones := Function.update s.phones i q }) i q' [] hq
      simpa only [Function.update_idem, List.append_nil] using hnext

/-- A step of a device. -/
theorem Shows.stepped (h : Shows F d s) (i : δ) {e : Engine} {p : Phone} {error : Option Exn}
    (hstep : Phone.Step F.stamp (fun k r => (k, r) ∈ s.replies) s.requests.length (s.phones i) p [])
    (hp : p = e.phone (d.awaited i) error) (hsane : e.Sane) :
    Follows F s { d with engines := Function.update d.engines i e } := by
  have hnext : System.Step F.outline s { s with phones := Function.update s.phones i p } := by
    simpa only [List.append_nil] using System.Step.phone (w := F.outline) i p [] hstep
  exact ⟨_, .single hnext, h.quiet i hp hsane⟩

/-! ### Calls of the store -/

/-- A step of a device that changes its store and nothing else. -/
theorem plain_step {w : System.Setting} {i : δ} {store : LocalStore}
    (h : Phone.Step w.created (fun k r => (k, r) ∈ s.replies) s.requests.length (s.phones i)
      { s.phones i with store } []) :
    System.Step w s (s.store i store []) := by
  have heq : s.store i store [] = { s with
      phones := Function.update s.phones i { s.phones i with store }, requests := s.requests ++ [] } := by
    rw [System.store, List.append_nil, List.append_nil, Function.update_eq_self]
  rw [heq]
  exact .phone i _ [] h

/-- A step that replaces the attachments. -/
theorem attachments_step {w : System.Setting} {i : δ} {store : LocalStore} {rows : List AttachmentRow}
    (h : store = { (s.phones i).store with attachments := rows }) :
    System.Step w s (s.store i store []) := by
  subst h
  exact plain_step (.attachments rows)

/-- A restore, and the ID that the device gets once the transaction is over. -/
theorem restore_steps {w : System.Setting} {i : δ} {payload : Payload}
    {now : Field.Operation → DartString} {restored : LocalStore} (hmem : payload ∈ s.bundles)
    (hok : RecoveryBundle.restore w.sha256 (s.phones i).store payload now = .ok restored)
    (uuid : DartString) :
    Relation.ReflTransGen (System.Step w) s
      (s.store i (restored.deviceId uuid).2 restored.ops) := by
  have hrestore := System.Step.restore i payload now restored hmem hok
  have hdevice : System.Step w (s.store i restored restored.ops) _ :=
    .phone i _ [] (.deviceId uuid)
  have heq : s.store i (restored.deviceId uuid).2 restored.ops =
      { s.store i restored restored.ops with
        phones := Function.update (s.store i restored restored.ops).phones i
          { (s.store i restored restored.ops).phones i with
            store := (((s.store i restored restored.ops).phones i).store.deviceId uuid).2 }
        requests := s.requests ++ [] } := by
    simp only [System.store, Function.update_self, Function.update_idem, List.append_nil]
  rw [heq]
  exact .tail (.single hrestore) hdevice

theorem brought_ok {t store : LocalStore} {c : Call} (h : t.call F.platform.sha256 c = .ok store) :
    brought F t c = bringing store c := by
  rw [brought, h]

/-- **A call that returns** is one that the system makes. -/
theorem call_steps {i : δ} {c : Call} {bundles : List (List UInt8)} {store : LocalStore}
    (hc : Allowed F bundles c)
    (hbundles : ∀ bytes ∈ bundles, bytes.length ≤ RecoveryBundle.maxBytes ∧
      ∃ payload ∈ s.bundles, RecoveryBundle.contentOf F.platform.sha256 bytes =
        .ok (RecoveryBundle.payloadJson payload).encode)
    (hcall : (s.phones i).store.call F.platform.sha256 c = .ok store) :
    Relation.ReflTransGen (System.Step F.outline) s
      (s.store i store (brought F (s.phones i).store c)) := by
  rw [brought_ok hcall]
  cases c with
  | save batch now => exact .single (.save i batch now store hc hcall)
  | restore bytes now uuid =>
      obtain ⟨hsize, payload, hpayload, hcontent⟩ := hbundles bytes hc
      have hmap : (RecoveryBundle.restoreBytes F.platform.sha256 (s.phones i).store bytes now
        uuid).map Prod.snd = .ok store := hcall
      cases hread : RecoveryBundle.restoreBytes F.platform.sha256 (s.phones i).store bytes now
          uuid with
      | error e =>
          rw [hread] at hmap
          cases hmap
      | ok result =>
          obtain ⟨n, store'⟩ := result
          rw [hread] at hmap
          obtain rfl : store' = store := Except.ok.inj hmap
          obtain ⟨restored, hok, rfl⟩ := RecoveryBundle.restoreBytes_exported hsize hcontent hread
          have hops : (restored.deviceId uuid).2.ops = restored.ops := by
            rw [LocalStore.deviceId]
            split <;> rfl
          rw [bringing, hops]
          exact restore_steps (w := F.outline) hpayload hok uuid
  | deviceId uuid =>
      obtain rfl := Except.ok.inj hcall
      exact .single (plain_step (.deviceId uuid))
  | add record name media bytes uuid =>
      rw [LocalStore.call] at hcall
      obtain ⟨row, -, -, -, -, -, hinsert⟩ := AttachmentStore.add_ok hcall
      exact .single (attachments_step (AttachmentStore.insertAttachment_ok hinsert).2)
  | confirmUpload row sha256 =>
      rw [LocalStore.call] at hcall
      exact .single (attachments_step (AttachmentStore.confirmUpload_ok hcall).2)
  | storeFetched record row data =>
      rw [LocalStore.call] at hcall
      obtain ⟨-, hinsert⟩ := AttachmentStore.storeFetched_ok hcall
      exact .single (attachments_step (AttachmentStore.insertAttachment_ok hinsert).2)
  | _ => cases hc

/-- What is stored is shown, once the system has stored it. -/
theorem Shows.stored (h : Shows F d s) (i : δ) (store : LocalStore) (ops : List Field.Operation) :
    Shows F
      { d with
        engines := Function.update d.engines i { d.engines i with store }
        saved := Function.update d.saved i (d.saved i ++ ops) } (s.store i store ops) := by
  obtain ⟨error, hphone⟩ := h.phones i
  have hnext : { s.phones i with store } =
      ({ d.engines i with store } : Engine).phone (d.awaited i) error := by
    rw [hphone]
    rfl
  have hsane : ({ d.engines i with store } : Engine).Sane := ⟨(h.sane i).single, (h.sane i).counted⟩
  have hdevice : Shows F _ { s with
      phones := _, saved := Function.update s.saved i (s.saved i ++ ops), requests := _ } :=
    h.device i hnext hsane List.Forall₂.nil
  simp only [List.append_nil, Function.update_eq_self] at hdevice
  exact hdevice

/-- The application's own calls of the store. -/
theorem Shows.call (h : Shows F d s) {i : δ} {c : Call} (hc : Allowed F d.bundles c) :
    Follows F s
      { d with
        engines := Function.update d.engines i ((d.engines i).step F.platform (.call c))
        saved := Function.update d.saved i (d.saved i ++ brought F (d.engines i).store c) } := by
  obtain ⟨error, hphone⟩ := h.phones i
  have hstore : (s.phones i).store = (d.engines i).store := by
    rw [hphone]
    rfl
  rw [← hstore]
  cases hcall : (s.phones i).store.call F.platform.sha256 c with
  | error e =>
      -- The transaction is rolled back.
      have hengine : (d.engines i).step F.platform (.call c) = d.engines i := by
        rw [Engine.step, ← hstore, LocalStore.after_error hcall, hstore]
      have hbrought : brought F (s.phones i).store c = [] := by
        rw [brought, hcall]
      refine ⟨s, .refl, ?_⟩
      rw [hengine, hbrought, List.append_nil, Function.update_eq_self, Function.update_eq_self]
      exact h
  | ok store =>
      have hengine : (d.engines i).step F.platform (.call c) = { d.engines i with store } := by
        rw [Engine.step, ← hstore, LocalStore.after_ok hcall]
      rw [hengine]
      exact ⟨_, call_steps hc h.bundles hcall, h.stored i store _⟩

/-- A bundle is exported. -/
theorem Shows.exported (h : Shows F d s) {i : δ} {bytes : List UInt8}
    (hbytes : RecoveryBundle.exportBytes F.platform.sha256 (d.engines i).store = .ok bytes) :
    Follows F s { d with bundles := d.bundles ++ [bytes] } := by
  obtain ⟨error, hphone⟩ := h.phones i
  have hpayload : RecoveryBundle.exportBundle (s.phones i).store =
      .ok (d.engines i).store.payload := by
    rw [hphone]
    show RecoveryBundle.exportBundle (d.engines i).store = _
    rw [RecoveryBundle.exportBundle, LocalStore.operations_eq]
    rfl
  obtain ⟨hcontent, hsize⟩ := LocalStore.export_ok hbytes
  refine ⟨_, .single (.exportBundle i _ hpayload), { h with bundles := fun b hb => ?_ }⟩
  rcases List.mem_append.mp hb with hb | hb
  · obtain ⟨hsize', payload, hmem, hcontent'⟩ := h.bundles b hb
    exact ⟨hsize', payload, List.mem_append_left _ hmem, hcontent'⟩
  · obtain rfl := List.mem_singleton.mp hb
    exact ⟨hsize, _, List.mem_append_right _ (List.mem_singleton_self _), hcontent⟩

/-! ### The engine -/

/-- The user, the timer, hints and logins. -/
theorem Shows.event (h : Shows F d s) (i : δ) {e : Engine.Event} (he : e.Outer) :
    Follows F s
      { d with engines := Function.update d.engines i ((d.engines i).step F.platform e) } := by
  obtain ⟨error, hphone⟩ := h.phones i
  obtain ⟨error', hquiet⟩ : ∃ error', Relation.ReflTransGen
      (Engine.Quiet F.stamp (fun k r => (k, r) ∈ s.replies) s.requests.length)
      ((d.engines i).phone (d.awaited i) error)
      (((d.engines i).step F.platform e).phone (d.awaited i) error') :=
    Engine.event_shown (h.sane i).single he F.platform
  have hsteps := quiet_steps (F := F) (i := i) hquiet
  rw [← hphone, Function.update_eq_self] at hsteps
  exact ⟨_, hsteps, h.quiet i rfl ((h.sane i).step rfl)⟩

/-- The application is started again. -/
theorem Shows.restart (h : Shows F d s) (i : δ) :
    Follows F s
      { d with
        engines := Function.update d.engines i (Engine.new F.base (d.engines i).store) } := by
  obtain ⟨error, hphone⟩ := h.phones i
  have hnew : { Phone.new with store := (s.phones i).store } =
      (Engine.new F.base (d.engines i).store).phone (d.awaited i) none := by
    rw [hphone]
    rfl
  exact h.stepped i .restart hnew (Engine.Sane.new _ _)

/-- What leaves with an event is what the device posts. -/
theorem leaves_sent (e : Engine) (phase : Engine.Phase) :
    List.Forall₂ Sent phase.posts.toList (leaves e phase).toList := by
  cases phase with
  | posting round batch => exact .cons (.push _ batch rfl rfl rfl) .nil
  | getting round after => exact .cons (.pull _ after rfl rfl rfl) .nil
  | _ => exact .nil

/-- The response to a push or a pull that is read. -/
theorem result_given (hF : F.Sound) {replies : List (Nat × Reply)} {k : Nat} {response : Response}
    (hgiven : Given replies k response) {json : Json} {body : DartString}
    (hjson : bodyJson F.stamp response.body = some json) (hbody : Json.decode body = some json) :
    (∃ n, (k, .cursor n) ∈ replies ∧ F.platform.result (.response response.status body) = .ok json) ∨
      (∃ page, (k, .page page) ∈ replies ∧ response.body = .page page ∧ json = pageJson F.stamp page ∧
        F.platform.result (.response response.status body) = .ok json) ∨
      ∃ status message, (k, .problem status message) ∈ replies ∧
        F.platform.result (.response response.status body) = .error (.api status (dart message)) := by
  obtain ⟨reply, hmem, rfl, hstatus⟩ := hgiven
  have hok : 200 ≤ 200 ∧ 200 < 300 := by decide
  cases reply with
  | cursor n => exact .inl ⟨n, hmem, result_ok hbody hok⟩
  | page page =>
      exact .inr (.inl ⟨page, hmem, rfl, (Option.some.inj hjson).symm, result_ok hbody hok⟩)
  | problem status message =>
      have hbad := hstatus status message rfl
      have hrange : ¬ (200 ≤ status ∧ status < 300) := by omega
      exact .inr (.inr ⟨status, message, hmem,
        result_error hF.platform (hbody.trans hjson.symm) hrange⟩)

omit [DecidableEq δ] in
/-- **What comes of a request is what the device can hear.** -/
theorem comes_hears (hF : F.Sound) (h : Shows F d s) (hi : System.Inv F.outline s) {i : δ}
    {phase : Engine.Phase} (hphase : (d.engines i).runs = [phase]) {o : Outcome}
    (ho : waits phase = true → F.Comes d.responses (d.awaited i) o) :
    phase.Hears F.platform F.stamp (fun k r => (k, r) ∈ s.replies) (d.awaited i) o := by
  obtain ⟨error, hphone⟩ := h.phones i
  have hshown : (s.phones i).phase = phase.shown (d.awaited i) := by
    rw [hphone]
    show Engine.shown _ (d.engines i).runs = _
    rw [hphase]
    rfl
  have hinv := (hi.phase i).at hshown
  cases phase with
  | posted round batch =>
      have hreq : s.requests[d.awaited i]? = some (pushRequest batch) := hinv.2
      cases ho rfl with
      | lost => exact .inl rfl
      | garbled status body hbody => exact .inl (result_garbled hbody)
      | response response json body hmem hjson hbody hexact =>
          rcases result_given hF (h.responses _ _ hmem) hjson hbody with ⟨n, hn, hok⟩ |
            ⟨page, hpage, -⟩ | ⟨status, message, hproblem, herror⟩
          · exact .inr (.inl ⟨n, json, hn, hok⟩)
          · -- A push is not answered with a page.
            obtain ⟨c, stop, hpull, -⟩ := hi.pages _ _ hpage
            rw [hreq] at hpull
            cases hpull
          · exact .inr (.inr ⟨status, message, hproblem, herror⟩)
  | got round =>
      have hreq : s.requests[d.awaited i]? = some (.pull (s.phones i).store.cursor) := hinv
      cases ho rfl with
      | lost => exact .inl rfl
      | garbled status body hbody =>
          left
          rw [result_garbled hbody]
          rfl
      | response response json body hmem hjson hbody hexact =>
          rcases result_given hF (h.responses _ _ hmem) hjson hbody with ⟨n, hn, -⟩ |
            ⟨page, hpage, hresponse, rfl, hok⟩ | ⟨status, message, hproblem, herror⟩
          · -- A pull is not answered with a cursor.
            obtain ⟨batch, hpush, -⟩ := hi.cursors _ _ hn
            rw [hreq] at hpush
            cases hpush
          · obtain ⟨received, hread, hreceived, -⟩ :=
              pageOf_pageJson hF.platform hF.stamps (hexact page hresponse)
            refine .inr (.inl ⟨page, received, hpage, hreceived, ?_⟩)
            rw [hok]
            exact hread
          · refine .inr (.inr ⟨status, message, hproblem, ?_⟩)
            rw [herror]
            rfl
  | _ => trivial

/-- A `synchronize` goes on. -/
theorem Shows.run (hF : F.Sound) (h : Shows F d s) (hi : System.Inv F.outline s) {i : δ} {n : Nat}
    {phase : Engine.Phase} {o : Outcome} (hphase : (d.engines i).runs[n]? = some phase)
    (ho : waits phase = true → F.Comes d.responses (d.awaited i) o) :
    Follows F s
      { d with
        engines := Function.update d.engines i ((d.engines i).step F.platform (.run n o))
        requests := d.requests ++ (leaves (d.engines i) phase).toList
        awaited := Function.update d.awaited i (phase.number (d.awaited i) d.requests.length) } := by
  obtain ⟨error, hphone⟩ := h.phones i
  have hone := ((h.sane i).single.only hphase).2.2
  have hsane : ((d.engines i).step F.platform (.run n o)).Sane := (h.sane i).step rfl
  have hrun : phase.posts = none ∧
      ((d.engines i).step F.platform (.run n o)).phone (d.awaited i) error =
        (d.engines i).phone (d.awaited i) error ∨
      ∃ error', Phone.Step F.stamp (fun k r => (k, r) ∈ s.replies) s.requests.length
        ((d.engines i).phone (d.awaited i) error)
        (((d.engines i).step F.platform (.run n o)).phone
          (phase.number (d.awaited i) s.requests.length) error') phase.posts.toList :=
    Engine.run_shown (h.sane i) hphase (comes_hears hF h hi hone ho)
  rcases hrun with ⟨hnone, hsame⟩ | ⟨error', hstep⟩
  · -- Between two uploads nothing is seen.
    have hleaves : leaves (d.engines i) phase = none := by
      have hsent := leaves_sent (d.engines i) phase
      rw [hnone] at hsent
      cases hleft : leaves (d.engines i) phase with
      | none => rfl
      | some r =>
          rw [hleft] at hsent
          cases hsent
    have hnumber : phase.number (d.awaited i) d.requests.length = d.awaited i := by
      rw [Engine.Phase.number, hnone]
      rfl
    rw [hleaves, hnumber, Option.toList_none, List.append_nil, Function.update_eq_self]
    refine ⟨_, .refl, ?_⟩
    have hquiet := h.quiet i (hphone.trans hsame.symm) hsane
    rwa [Function.update_eq_self] at hquiet
  · rw [← hphone] at hstep
    refine ⟨_, .single (.phone i _ _ hstep), ?_⟩
    rw [← h.requests.length_eq]
    have hdevice : Shows F _ { s with
        phones := _, saved := Function.update s.saved i (s.saved i ++ []), requests := _ } :=
      h.device i (Eq.refl (((d.engines i).step F.platform (.run n o)).phone
        (phase.number (d.awaited i) s.requests.length) error')) hsane
        (leaves_sent (d.engines i) phase)
    simpa only [List.append_nil, Function.update_eq_self] using hdevice

end Devices

/-! ### Runs -/

section Runs

variable [DecidableEq δ] [DecidableEq ι] {d d' : Deployment δ ι}

/-- **What the deployment does in one step, the system does in some.** -/
theorem Shows.step (hF : F.Sound) {s : System δ} (h : Shows F d s) (hi : System.Inv F.outline s)
    (hstep : Step F d d') : Follows F s d' := by
  cases hstep with
  | serve server hserve => exact h.serve hF hserve
  | respond i k response hdone => exact h.respond hdone
  | call i c hc => exact h.call hc
  | exportBundle i bytes hbytes => exact h.exported hbytes
  | event i e he => exact h.event i he
  | run i n phase o hphase ho => exact h.run hF hi hphase ho
  | restart i => exact h.restart i

/-- Step after step. -/
theorem Shows.later (hF : F.Sound) {s : System δ} (h : Shows F d s)
    (hs : System.Reachable F.outline s) (hsteps : Relation.ReflTransGen (Step F) d d') :
    Follows F s d' := by
  induction hsteps with
  | refl => exact ⟨s, .refl, h⟩
  | tail _ hstep ih =>
      obtain ⟨s', hsteps', hshows⟩ := ih
      have hinv := System.Reachable.inv hF.edits (hs.trans hsteps')
      obtain ⟨s'', hmore, hshows'⟩ := hshows.step hF hinv hstep
      exact ⟨s'', hsteps'.trans hmore, hshows'⟩

/-- A state of the deployment shows a state that the system can get to: the same stores, the same
edits saved, the same log, the same requests, and replies that the responses carry. -/
theorem Reachable.shown (hF : F.Sound) (h : Reachable F d) :
    ∃ s : System δ, System.Reachable F.outline s ∧ Shows F d s :=
  (new_shows F).later hF .refl h

/-- What the sessions of the server do, the deployment does. -/
theorem later_serve {server : Running ι Backend Ask (Option Nat × Response)}
    (h : Running.Later backend (F.Starts d.requests) d.server server) :
    Relation.ReflTransGen (Step F) d { d with server } := by
  induction h with
  | refl => exact .refl
  | tail _ hstep ih => exact ih.tail (.serve _ hstep)

/-- Events one after the other. -/
theorem outer_events (i : δ) {es : List Engine.Event} (hes : ∀ e ∈ es, e.Outer) :
    Relation.ReflTransGen (Step F) d
      { d with
        engines := Function.update d.engines i
          (es.foldl (Engine.step F.platform) (d.engines i)) } := by
  induction es generalizing d with
  | nil =>
      rw [List.foldl_nil, Function.update_eq_self]
  | cons e rest ih =>
      have hstep : Step F d _ := .event i e (hes e List.mem_cons_self)
      have hrest := ih (d := { d with
        engines := Function.update d.engines i ((d.engines i).step F.platform e) })
        fun e' he' => hes e' (List.mem_cons_of_mem _ he')
      simp only [Function.update_self, Function.update_idem] at hrest
      exact .head hstep hrest

end Runs

/-! ### A run -/

section Site

open Engine (plain localhost)

/-- A response with status 200. -/
def accepted (json : Json) : Outcome := .response 200 json.encode

theorem result_accepted (p : Platform) (json : Json) : p.result (accepted json) = .ok json :=
  result_ok (Json.decode_encode json) (by decide)

/-- A login from its start to its end. -/
def entering (user device : DartString) : List Engine.Event :=
  [.login user [], .enter 0 .lost [], .enter 0 .lost [],
    .enter 0 (accepted (.obj [(dart "token", .str user)])) [], .enter 0 .lost device,
    .enter 0 .lost [], .enter 0 (accepted (.obj [])) [], .enter 0 .lost [], .enter 0 .lost []]

/-- A device that has logged in, and begun to synchronize. -/
def entered (base : DartString) (store : LocalStore) (user device : DartString) : Engine :=
  { Engine.new base store with
    store := { store with device := some device, account := some (base ++ dart "|" ++ user) }
    token := some user, device := some device, busy := true, connected := true
    runs := [.pushing 0] }

theorem entering_ends (p : Platform) (base : DartString) {store : LocalStore} (user device : DartString)
    (haccount : store.account = none) (hdevice : store.device = none) :
    (entering user device).foldl (Engine.step p) (Engine.new base store) =
      entered base store user device := by
  have htoken : (Except.ok (.obj [(dart "token", .str user)]) >>= Platform.tokenOf) = .ok user := rfl
  simp only [entering, List.foldl_cons, List.foldl_nil, Engine.step, Engine.new,
    Engine.advanceLogin, Engine.withLogin, List.nil_append, List.getElem?_cons_zero,
    List.set_cons_zero, haccount, hdevice, htoken, result_accepted, LocalStore.deviceId,
    Engine.bindingOf, Engine.synchronize, List.eraseIdx_zero, ne_eq, not_true_eq_false, false_and,
    if_false, Bool.not_true, Bool.or_false, Bool.false_eq_true, List.tail_cons]
  rfl

/-- The server that `demo` is, with pushes decoded; and a yard whose edits are two titles. -/
def site : Setting :=
  { server := { demo with packages := { demo.packages with decodePush := readPush } }
    workspace := go "site-a", base := localhost, platform := plain, made := System.yard.made
    stamp := fun _ => dart "2026-01-01T00:00:00Z" }

theorem plain_sound : plain.Sound where
  asInt _ _ := rfl
  sameInt _ _ := rfl
  column _ _ := rfl
  text _ := rfl

theorem site_sound : site.Sound where
  edits := System.yard_edits
  platform := plain_sound
  stamps _ := wellFormed_dart _
  decodes := readPush_pushBody

def tabletID : DartString := dart "0a000000-0000-4000-8000-000000000001"

/-- The server, once the tablet is registered. -/
def registered : Backend :=
  (site.server.serve (requestOf .register (go "ada") (toGo tabletID)) Backend.new).2

/-- The author's device, once it has logged in. -/
def author : Engine := entered localhost System.written (dart "ada") tabletID

theorem author_pending : author.store.pending = .ok System.titles := by
  have h := System.written_pending
  rw [LocalStore.pending_eq] at h ⊢
  exact h

/-- The tablet is registered; the author's device saves two titles and logs in. -/
theorem site_entered : ∃ d : Deployment Bool Unit, Reachable site d ∧
    d.saved = Function.update (fun _ => []) false System.titles ∧ d.server = Running.new registered ∧
    d.engines = Function.update (fun _ => Engine.new localhost LocalStore.new) false author ∧
    d.requests = [] := by
  have hother : site.Starts [] (site.server.handler (requestOf .register (go "ada") (toGo tabletID))
      >>= fun response => pure (none, response)) := .other _ fun h => by cases h
  have h₁ : Reachable site { (new site : Deployment Bool Unit) with server := Running.new registered } :=
    later_serve (run_steps (i := ()) hother rfl)
  have hcall : LocalStore.new.call site.platform.sha256
      (.save System.titles fun _ => dart "2026-01-01T00:00:00Z") = .ok System.written :=
    System.save_titles
  have h₂ := h₁.tail (Step.call false (.save System.titles fun _ => dart "2026-01-01T00:00:00Z")
    fun o ho => Or.inl ho)
  have hsaved : brought site (Engine.new localhost LocalStore.new).store
      (.save System.titles fun _ => dart "2026-01-01T00:00:00Z") = System.titles := brought_ok hcall
  have hstored : (Engine.new localhost LocalStore.new).step site.platform
      (.call (.save System.titles fun _ => dart "2026-01-01T00:00:00Z")) =
      Engine.new localhost System.written := by
    rw [Engine.step, Engine.new, LocalStore.after_ok hcall]
    rfl
  have houter : ∀ e ∈ entering (dart "ada") tabletID, e.Outer := by
    simp [entering, Engine.Event.Outer]
  have h₃ := h₂.trans (outer_events false houter)
  simp only [new, Function.update_self, Function.update_idem] at h₃
  rw [show site.base = localhost from rfl, hstored, hsaved,
    entering_ends _ _ _ _ rfl rfl, List.nil_append] at h₃
  exact ⟨_, h₃, rfl, rfl, rfl, rfl⟩

/-- Then it pushes them. -/
theorem site_posted : ∃ d : Deployment Bool Unit, Reachable site d ∧
    d.saved false = System.titles ∧ d.server = Running.new registered ∧
    d.engines = Function.update (fun _ => Engine.new localhost LocalStore.new) false
      { author with runs := [.posted 0 System.titles] } ∧
    d.requests = [ApiClient.push (carried author) System.titles] := by
  obtain ⟨d, hd, hsaved, hserver, hengines, hrequests⟩ := site_entered
  have hauthor : d.engines false = author := by
    rw [hengines, Function.update_self]
  have h₄ := hd.tail (Step.run false 0 (.pushing 0) .lost (by rw [hauthor]; rfl) (fun h => by cases h))
  have hposting : author.step site.platform (.run 0 .lost) =
      { author with runs := [.posting 0 System.titles] } := by
    have hadvance : author.advance site.platform .lost (.pushing 0) =
        (author, some (.posting 0 System.titles)) := by
      rw [Engine.advance, author_pending]
      rfl
    show Engine.withRun 0 (author.advance site.platform .lost (.pushing 0)) = _
    rw [hadvance]
    rfl
  rw [hauthor, hposting] at h₄
  have h₅ := h₄.tail (Step.run false 0 (.posting 0 System.titles) .lost
    (by dsimp only; rw [Function.update_self]; rfl) (fun h => by cases h))
  simp only [Function.update_self, Function.update_idem] at h₅
  refine ⟨_, h₅, ?_, hserver, ?_, ?_⟩
  · show d.saved false = System.titles
    rw [hsaved, Function.update_self]
  · show Function.update d.engines false _ = _
    rw [hengines, Function.update_idem]
    rfl
  · show d.requests ++ _ ++ _ = _
    rw [hrequests]
    rfl

end Site

variable [DecidableEq δ] [DecidableEq ι] {d : Deployment δ ι}

/-- **The deployment refines the system.** Every state it gets to shows a state that the system can
get to; and from there, whatever the deployment goes on to do, the system can do as well. -/
theorem deployment_refines (hF : F.Sound) (h : Reachable F d) :
    (∃ s : System δ, System.Reachable F.outline s ∧ Shows F d s) ∧
      ∀ s : System δ, System.Reachable F.outline s → Shows F d s →
        ∀ d', Relation.ReflTransGen (Step F) d d' →
          ∃ s', Relation.ReflTransGen (System.Step F.outline) s s' ∧ Shows F d' s' :=
  ⟨h.shown hF, fun _ hs hshows _ hsteps => hshows.later hF hs hsteps⟩

/-- The author's push is one that the system has sent as well, with the same titles saved. -/
theorem deployment_refines_run :
    ∃ (d : Deployment Bool Unit) (s : System Bool), System.Reachable site.outline s ∧
      Shows site d s ∧ s.saved false = System.titles ∧ s.requests.length = 1 := by
  obtain ⟨d, hd, hsaved, -, -, hrequests⟩ := site_posted
  obtain ⟨s, hs, hshows⟩ := (deployment_refines site_sound hd).1
  refine ⟨d, s, hs, hshows, by rw [hshows.saved, hsaved], ?_⟩
  rw [hshows.requests.length_eq, hrequests]
  rfl

end Syncraft.Deployment
