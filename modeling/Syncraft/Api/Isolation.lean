import Syncraft.Library.Unwinding
import Syncraft.Api.Confinement
import Syncraft.Store.Revocation

/-!
# Syncraft.Api.Isolation

What one request can change, and what a workspace can notice of requests for others. The four
checks (token, role, ownership of the device, revocation) come together in `serve_effect`, which
says everything a request can do to the store; who may do what is read off it. That workspaces
do not interfere follows from the calls a handler can make, by unwinding.
-/

namespace Syncraft.Api

open Domain Store Library Program

/-- The role may edit. -/
def Claims.Edits (c : Claims) : Prop := c.role = go "editor" ∨ c.role = go "admin"

namespace Server

variable {S : Server} {r : Request}

/-- Everything that a request with the claims `c` can do to their workspace. -/
inductive Effect (S : Server) (r : Request) (c : Claims) (s : Space) : Space → Prop where
  | nothing : Effect S r c s s
  | register (d : Device) : d.actor = c.subject → d.revoked = false →
      Effect S r c s (s.register d).2
  /-- The device that the request comes from is the subject's, and the one it revokes is the
  subject's as well, or the subject is an admin. -/
  | revoke (id : GoString) (d : Device) : r.route = .revoke id →
      s.active r.device c.subject = true → s.devices.lookup id = some d →
      c.role = go "admin" ∨ d.actor = c.subject → Effect S r c s (s.revoke id c.subject).2
  | push (operations : List (Operation GoString)) : c.Edits →
      Effect S r c s (s.push r.device c.subject operations).2
  | upload (id : GoString) (a : Attachment) : c.Edits → S.uploaded r id = .ok a →
      Effect S r c s (s.putAttachment r.device c.subject a).2

/-! ### One request -/

theorem owns_device (c : Claims) (s : Space) (id : GoString) :
    owns c (s.device id) = s.active id c.subject := by
  unfold Space.device Space.active
  cases s.devices.lookup id with
  | none => rfl
  | some d =>
      show (!(d.revoked || d.actor != c.subject)) = (!d.revoked && d.actor == c.subject)
      rw [Bool.not_or, bne, Bool.not_not]

/-- Reading a device changes nothing. -/
theorem run_device (w id : GoString) (b : Backend) :
    (ask (.store w (.device id)) : Handler _).run backend b = ((b.store w).device id, b) := by
  show ((b.store w).device id, { b with store := Function.update b.store w (b.store w) }) = _
  rw [Function.update_eq_self]

/-- What a handler does that passes `identity` and goes on with the claims. -/
theorem run_after_identity (edit device : Bool) (next : Claims → Handler Response) (b : Backend) :
    (∃ response, ((S.identity r edit device) >>= fun res => match res with
      | .error response => pure response
      | .ok c => next c).run backend b = (response, b)) ∨
    ∃ c, S.verify (trimBearer r.authorization) r.now = some c ∧ (edit = true → c.Edits) ∧
      (device = true → (b.store c.workspace).active r.device c.subject = true) ∧
      ((S.identity r edit device) >>= fun res => match res with
        | .error response => pure response
        | .ok c => next c).run backend b = (next c).run backend b := by
  rw [run_bind]
  unfold identity
  cases hc : S.verify (trimBearer r.authorization) r.now with
  | none => exact Or.inl ⟨_, rfl⟩
  | some c =>
      dsimp only
      by_cases hedit : (edit && c.role != go "editor" && c.role != go "admin") = true
      · rw [if_pos hedit]
        exact Or.inl ⟨_, rfl⟩
      rw [if_neg hedit]
      have hedits : edit = true → c.Edits := role_of_passed hedit
      cases device with
      | false => exact Or.inr ⟨c, rfl, hedits, fun h => absurd h Bool.false_ne_true, rfl⟩
      | true =>
          rw [if_pos rfl, run_bind, run_device, owns_device]
          cases hactive : (b.store c.workspace).active r.device c.subject with
          | false => exact Or.inl ⟨_, rfl⟩
          | true => exact Or.inr ⟨c, rfl, hedits, fun _ => hactive, rfl⟩

/-- A request whose claims the header names has changed their workspace as it may, or nothing. -/
def Changes (S : Server) (r : Request) (x : Handler Response) (b : Backend) : Prop :=
  (x.run backend b).2.store = b.store ∨
    ∃ c s', S.verify (trimBearer r.authorization) r.now = some c ∧
      Effect S r c (b.store c.workspace) s' ∧
      (x.run backend b).2.store = Function.update b.store c.workspace s'

/-- What follows `identity` decides. -/
theorem Changes.after_identity {edit device : Bool} {next : Claims → Handler Response} {b : Backend}
    (h : ∀ c, S.verify (trimBearer r.authorization) r.now = some c → (edit = true → c.Edits) →
      (device = true → (b.store c.workspace).active r.device c.subject = true) →
      ∃ s', Effect S r c (b.store c.workspace) s' ∧
        ((next c).run backend b).2.store = Function.update b.store c.workspace s') :
    Changes S r ((S.identity r edit device) >>= fun res => match res with
      | .error response => pure response
      | .ok c => next c) b := by
  rcases run_after_identity (S := S) (r := r) edit device next b with
    ⟨response, hrun⟩ | ⟨c, hc, hedits, hactive, hrun⟩
  · exact Or.inl (by rw [hrun])
  · obtain ⟨s', heffect, hstore⟩ := h c hc hedits hactive
    exact Or.inr ⟨c, s', hc, heffect, by rw [hrun]; exact hstore⟩

/-- A handler that changes nothing whoever asks. -/
theorem store_after_identity {edit device : Bool} {next : Claims → Handler Response} {b : Backend}
    (h : ∀ c, ((next c).run backend b).2.store = b.store) :
    (((S.identity r edit device) >>= fun res => match res with
      | .error response => pure response
      | .ok c => next c).run backend b).2.store = b.store := by
  rcases run_after_identity (S := S) (r := r) edit device next b with
    ⟨response, hrun⟩ | ⟨c, -, -, -, hrun⟩
  · rw [hrun]
  · rw [hrun]; exact h c

/-- Going on without a change. -/
theorem nothing_changed {c : Claims} {b : Backend} {x : Handler Response}
    (h : (x.run backend b).2.store = b.store) :
    ∃ s', Effect S r c (b.store c.workspace) s' ∧
      (x.run backend b).2.store = Function.update b.store c.workspace s' :=
  ⟨_, Effect.nothing, by rw [h, Function.update_eq_self]⟩

/-- A call to a method, after which the store is left alone. -/
theorem run_method {β : Type} (w : GoString) (c : Method β) {next : β → Handler Response}
    (hnext : ∀ res b, ((next res).run backend b).2.store = b.store) (b : Backend) :
    (((ask (.store w c) : Handler β) >>= next).run backend b).2.store =
      Function.update b.store w ((b.store w).answer c).2 := by
  rw [run_bind, run_ask, hnext]
  rfl

/-- A call to a method that only reads. -/
theorem run_read {β : Type} (w : GoString) (c : Method β) {next : β → Handler Response}
    (hread : ∀ s : Space, (s.answer c).2 = s)
    (hnext : ∀ res b, ((next res).run backend b).2.store = b.store) (b : Backend) :
    (((ask (.store w c) : Handler β) >>= next).run backend b).2.store = b.store := by
  rw [run_method w c hnext, hread, Function.update_eq_self]

theorem register_changes (b : Backend) : Changes S r (S.register r) b := by
  refine Changes.after_identity fun c hc _ _ => ?_
  split
  · exact nothing_changed rfl
  next id name hbody =>
  split
  · exact nothing_changed rfl
  let d : Device := { id, name, actor := c.subject, revoked := false }
  refine ⟨((b.store c.workspace).register d).2, Effect.register d rfl rfl, ?_⟩
  exact run_method c.workspace (.register d) (fun res _ => by cases res <;> rfl) b

theorem devices_store (b : Backend) : ((S.devices r).run backend b).2.store = b.store := by
  refine store_after_identity fun c => ?_
  exact run_read c.workspace .devices (fun _ => rfl) (fun res _ => by cases res <;> rfl) b

theorem revoke_changes {id : GoString} (hroute : r.route = .revoke id) (b : Backend) :
    Changes S r (S.revoke r id) b := by
  refine Changes.after_identity fun c hc _ hactive => ?_
  split
  · exact nothing_changed rfl
  rw [run_bind, run_device]
  cases hd : (b.store c.workspace).device id with
  | error e => exact ⟨_, Effect.nothing, by rw [Function.update_eq_self]; rfl⟩
  | ok d =>
      dsimp only
      by_cases hdenied : (c.role != go "admin" && d.actor != c.subject) = true
      · rw [if_pos hdenied]
        exact ⟨_, Effect.nothing, by rw [Function.update_eq_self]; rfl⟩
      rw [if_neg hdenied]
      have hlookup : (b.store c.workspace).devices.lookup id = some d := by
        unfold Space.device at hd
        cases hl : (b.store c.workspace).devices.lookup id with
        | none => rw [hl] at hd; cases hd
        | some d' => rw [hl] at hd; exact congrArg some (Except.ok.inj hd)
      have hallowed : c.role = go "admin" ∨ d.actor = c.subject := by
        simp only [Bool.and_eq_true, bne_iff_ne, ne_eq, not_and, not_not] at hdenied
        by_cases hadmin : c.role = go "admin"
        · exact Or.inl hadmin
        · exact Or.inr (hdenied hadmin)
      refine ⟨_, Effect.revoke id d hroute (hactive rfl) hlookup hallowed, ?_⟩
      exact run_method c.workspace (.revoke id c.subject) (fun res _ => by cases res <;> rfl) b

theorem push_changes (b : Backend) : Changes S r (S.push r) b := by
  refine Changes.after_identity fun c hc hedits _ => ?_
  split
  · exact nothing_changed rfl
  next operations hbody =>
  refine ⟨_, Effect.push operations (hedits rfl), ?_⟩
  exact run_method c.workspace (.push r.device c.subject operations)
    (fun res _ => by cases res <;> rfl) b

theorem pull_store (b : Backend) : ((S.pull r).run backend b).2.store = b.store := by
  refine store_after_identity fun c => ?_
  split
  · rfl
  · exact run_read c.workspace (.pull _ 100) (fun _ => rfl) (fun res _ => by cases res <;> rfl) b

theorem audit_store (b : Backend) : ((S.audit r).run backend b).2.store = b.store := by
  refine store_after_identity fun c => ?_
  split
  · rfl
  · exact run_read c.workspace (.audit _ 100) (fun _ => rfl) (fun res _ => by cases res <;> rfl) b

theorem upload_changes (id : GoString) (b : Backend) : Changes S r (S.upload r id) b := by
  refine Changes.after_identity fun c hc hedits _ => ?_
  split
  · exact nothing_changed rfl
  next a ha =>
  refine ⟨_, Effect.upload id a (hedits rfl) ha, ?_⟩
  exact run_method c.workspace (.putAttachment r.device c.subject a)
    (fun res _ => by cases res <;> rfl) b

theorem download_store (id : GoString) (b : Backend) :
    ((S.download r id).run backend b).2.store = b.store := by
  refine store_after_identity fun c => ?_
  split
  · rfl
  · exact run_read c.workspace (.getAttachment id) (fun _ => rfl)
      (fun res _ => by cases res <;> rfl) b

theorem attachments_store (b : Backend) : ((S.attachments r).run backend b).2.store = b.store := by
  refine store_after_identity fun c => ?_
  split
  · rfl
  · exact run_read c.workspace (.attachments r.queryRecord) (fun _ => rfl)
      (fun res _ => by cases res <;> rfl) b

theorem metrics_store (b : Backend) : ((S.metrics r).run backend b).2.store = b.store := by
  refine store_after_identity fun c => ?_
  split <;> rfl

theorem login_store (b : Backend) : ((S.login r).run backend b).2.store = b.store := by
  unfold login
  split
  · rfl
  split
  · rfl
  split <;> rfl

theorem events_store (hello : Option (GoString × GoString)) (b : Backend) :
    ((S.events r hello).run backend b).2.store = b.store := by
  unfold events
  split
  · rfl
  split
  · rfl
  · exact run_read _ (.device _) (fun _ => rfl) (fun res _ => by split <;> rfl) b

/-- The mux does nothing else. -/
theorem mux_changes (b : Backend) : Changes S r (S.mux r) b := by
  unfold mux
  cases hroute : r.route with
  | live => exact Or.inl rfl
  | ready => exact Or.inl rfl
  | login => exact Or.inl (login_store b)
  | register => exact register_changes b
  | devices => exact Or.inl (devices_store b)
  | revoke id => exact revoke_changes hroute b
  | push => exact push_changes b
  | pull => exact Or.inl (pull_store b)
  | audit => exact Or.inl (audit_store b)
  | upload id => exact upload_changes id b
  | download id => exact Or.inl (download_store id b)
  | attachments => exact Or.inl (attachments_store b)
  | events hello => exact Or.inl (events_store hello b)
  | metrics => exact Or.inl (metrics_store b)
  | unmatched status => exact Or.inl rfl

/-- Around the mux, the middleware leaves the store alone. -/
theorem serve_store {b : Backend} {P : Memory → Prop} (hsame : P b.store)
    (h : ∀ b', b'.store = b.store → P ((S.mux r).run backend b').2.store) :
    P (S.serve r b).2.store := by
  unfold serve handler
  rw [run_bind, run_ask]
  generalize hb : (backend.answer Ask.countRequest b).2 = b₁
  have hstore : b₁.store = b.store := by rw [← hb]; rfl
  split
  · exact hstore ▸ hsame
  split
  · exact hstore ▸ hsame
  split
  · exact hstore ▸ hsame
  · exact h b₁ hstore

/-- The route of the counters leaves the store alone. -/
theorem serve_metrics (hroute : r.route = .metrics) (b : Backend) :
    (S.serve r b).2.store = b.store := by
  refine serve_store (P := fun m => m = b.store) rfl fun b' hb' => ?_
  rw [mux, hroute]
  exact (metrics_store b').trans hb'

/-- **Everything a request can do to the store.** -/
theorem serve_effect (b : Backend) :
    (S.serve r b).2.store = b.store ∨
      ∃ c s', S.claims r = some c ∧ Effect S r c (b.store c.workspace) s' ∧
        (S.serve r b).2.store = Function.update b.store c.workspace s' := by
  refine serve_store (P := fun m => m = b.store ∨ ∃ c s', S.claims r = some c ∧
    Effect S r c (b.store c.workspace) s' ∧ m = Function.update b.store c.workspace s')
    (Or.inl rfl) fun b₁ hstore => ?_
  rcases mux_changes (S := S) (r := r) b₁ with h | ⟨c, s', hc, heffect, h⟩
  · exact Or.inl (h.trans hstore)
  · rw [hstore] at heffect h
    by_cases hevents : ∃ hello, r.route = .events hello
    · obtain ⟨hello, hroute⟩ := hevents
      refine Or.inl ?_
      rw [mux, hroute]
      exact (events_store hello b₁).trans hstore
    · refine Or.inr ⟨c, s', ?_, heffect, h⟩
      unfold claims
      split
      · next hello hroute => exact absurd ⟨hello, hroute⟩ hevents
      · exact hc

/-! ### Who may do what -/

/-- The request comes from an active device of its subject, in the workspace `w`. -/
def FromDevice (r : Request) (w : GoString) (c : Claims) (s : Space) : Prop :=
  c.workspace = w ∧ ∃ d, s.devices.lookup r.device = some d ∧ d.revoked = false ∧ d.actor = c.subject

/-- What a request may do to the workspace `w`, which was `s` and is `s'` after it. -/
structure Authorised (S : Server) (r : Request) (w : GoString) (s s' : Space) : Prop where
  /-- Entries and attachments change by a request of an editor or admin of `w`, from an active
  device of their own. -/
  edits : s'.entries ≠ s.entries ∨ s'.attachments ≠ s.attachments →
    ∃ c, S.claims r = some c ∧ c.Edits ∧ FromDevice r w c s
  /-- New entries carry that device and the subject. -/
  entries : ∃ added, s'.entries = s.entries ++ added ∧
    ∀ e ∈ added, e.device = r.device ∧ ∃ c, S.claims r = some c ∧ e.actor = c.subject
  /-- A device is revoked by its owner or an admin of `w`, from an active device of their own. -/
  revocations : ∀ id, s'.isRevoked id = true → s.isRevoked id = false →
    ∃ c d, S.claims r = some c ∧ r.route = .revoke id ∧ FromDevice r w c s ∧
      s.devices.lookup id = some d ∧ (c.role = go "admin" ∨ d.actor = c.subject)
  /-- A viewer changes neither. -/
  viewer : ∀ c, S.claims r = some c → c.role = go "viewer" →
    s'.entries = s.entries ∧ s'.attachments = s.attachments

theorem Authorised.same (S : Server) (r : Request) (w : GoString) (s : Space) :
    Authorised S r w s s where
  edits h := h.elim (absurd rfl) (absurd rfl)
  entries := ⟨[], by simp, fun _ he => by cases he⟩
  revocations id h h' := by rw [h] at h'; cases h'
  viewer _ _ _ := ⟨rfl, rfl⟩

theorem not_viewer {c : Claims} (h : c.Edits) : c.role ≠ go "viewer" := by
  rcases h with h | h
  · rw [h]; decide
  · rw [h]; decide

/-- A change of the workspace that needs a role that edits and an active device. -/
theorem Authorised.of_edit {S : Server} {r : Request} {c : Claims} {s s' : Space}
    (hc : S.claims r = some c) (hedits : c.Edits) (hdevices : s'.devices = s.devices)
    (hinactive : s.active r.device c.subject = false → s' = s)
    (hentries : ∃ added, s'.entries = s.entries ++ added ∧
      ∀ e ∈ added, e.device = r.device ∧ e.actor = c.subject) :
    Authorised S r c.workspace s s' where
  edits hne := by
    have hactive : s.active r.device c.subject = true := by
      by_contra hnot
      have heq := hinactive (by simpa using hnot)
      rw [heq] at hne
      exact hne.elim (absurd rfl) (absurd rfl)
    exact ⟨c, hc, hedits, rfl, Space.active_iff.mp hactive⟩
  entries := by
    obtain ⟨added, heq, hadded⟩ := hentries
    exact ⟨added, heq, fun e he => ⟨(hadded e he).1, c, hc, (hadded e he).2⟩⟩
  revocations id h h' := by
    unfold Space.isRevoked at h h'
    rw [hdevices, h'] at h
    cases h
  viewer c' hc' hviewer := by
    rw [hc] at hc'
    obtain rfl := Option.some.inj hc'
    exact absurd hviewer (not_viewer hedits)

theorem Effect.authorised {c : Claims} {s s' : Space} (hi : s.Inv) (hc : S.claims r = some c)
    (h : Effect S r c s s') : Authorised S r c.workspace s s' := by
  have hsame := Authorised.same S r c.workspace s
  cases h with
  | nothing => exact hsame
  | register d hactor hrevoked =>
      unfold Space.register
      split
      · split <;> exact hsame
      · next hnew =>
          refine { hsame with revocations := fun id h h' => ?_ }
          rw [Space.isRevoked_iff] at h
          obtain ⟨x, hx, hxr⟩ := h
          simp only [Space.log_devices, Space.lookup_insert] at hx
          split at hx
          · rw [← Option.some.inj hx, hrevoked] at hxr
            cases hxr
          · rw [Space.isRevoked_iff.mpr ⟨x, hx, hxr⟩] at h'
            cases h'
  | revoke id d hroute hactive hd hallowed =>
      unfold Space.revoke
      rw [hd]
      dsimp only
      split
      · exact hsame
      · refine { hsame with revocations := fun id' h h' => ?_ }
        by_cases hid : id' = id
        · subst hid
          exact ⟨c, d, hc, hroute, ⟨rfl, Space.active_iff.mp hactive⟩, hd, hallowed⟩
        · rw [Space.isRevoked_iff] at h
          obtain ⟨x, hx, hxr⟩ := h
          simp only [Space.log_devices, Space.lookup_insert, if_neg hid] at hx
          rw [Space.isRevoked_iff.mpr ⟨x, hx, hxr⟩] at h'
          cases h'
  | push operations hedits =>
      obtain ⟨hdevices, added, hentries, hadded⟩ :=
        Space.push_entries hi.causal r.device c.subject operations
      refine Authorised.of_edit hc hedits hdevices (fun hinactive => ?_)
        ⟨added, hentries, fun e he => ⟨(hadded e he).1, (hadded e he).2.1⟩⟩
      simp [Space.push, hinactive]
  | upload id a hedits ha =>
      obtain ⟨hdevices, hentries⟩ := Space.putAttachment_keeps s r.device c.subject a
      refine Authorised.of_edit hc hedits hdevices (fun hinactive => ?_)
        ⟨[], by rw [hentries, List.append_nil], fun _ he => by cases he⟩
      simp [Space.putAttachment, hinactive]

/-! ### Runs -/

/-- Requests keep every workspace reachable. -/
theorem serve_later (b : Backend) (w : GoString) :
    (b.store w).Later ((S.serve r b).2.store w) := by
  have h := (handler_makes (S := S) (r := r)).run (S := backend)
    (R := fun b' => (b.store w).Later (b'.store w)) (fun β a b' ha hb' => ?_)
    (s := b) Relation.ReflTransGen.refl
  · exact h
  · cases a with
    | store w' c =>
        by_cases hw : w = w'
        · subst hw
          show (b.store w).Later ((b'.store.answer w c).2 w)
          rw [Memory.answer_self]
          exact hb'.trans (Space.answer_later _ ha.2.handled)
        · show (b.store w).Later ((b'.store.answer w' c).2 w)
          rw [Memory.answer_of_ne _ hw]
          exact hb'
    | _ => exact hb'

theorem after_inv (S : Server) (rs : List Request) (w : GoString) :
    ((after S.serve Backend.new rs).store w).Inv := by
  have h : ∀ (rs : List Request) (b : Backend), (b.store w).Inv →
      ((after S.serve b rs).store w).Inv := by
    intro rs
    induction rs with
    | nil => exact fun _ hb => hb
    | cons r rest ih => exact fun b hb => ih _ ((serve_later b w).inv hb)
  exact h rs Backend.new Space.new_inv

/-- One request, wherever a run has come to, does to each workspace what it may. -/
theorem serve_authorised (S : Server) (rs : List Request) (r : Request) (w : GoString) :
    Authorised S r w ((after S.serve Backend.new rs).store w)
      ((S.serve r (after S.serve Backend.new rs)).2.store w) := by
  generalize hb : after S.serve Backend.new rs = b
  have hi : ∀ w, (b.store w).Inv := fun w => hb ▸ after_inv S rs w
  rcases serve_effect (S := S) (r := r) b with heq | ⟨c, s', hc, heffect, heq⟩
  · rw [heq]
    exact Authorised.same S r w _
  · rw [heq]
    by_cases hw : w = c.workspace
    · subst hw
      rw [Function.update_self]
      exact heffect.authorised (hi _) hc
    · rw [Function.update_of_ne hw]
      exact Authorised.same S r w _

/-! ### Isolation -/

/-- What a workspace can notice: the answers to requests with claims for it, except what the
route of the process-wide counters says, and its own part of the store. -/
def observer (S : Server) (w : GoString) : Observer Backend Request Response (Option Response) where
  mine r := decide (S.workspace r = some w)
  sees r a := if r.route = .metrics then none else some a
  alike b b' := b.store w = b'.store w

/-- A method in a workspace depends on that workspace alone. -/
theorem answer_alike {w : GoString} {puts : Attachment → Prop} {β : Type} {a : Ask β}
    (ha : Ask.For (some w) False puts β a)
    {b t : Backend} (h : b.store w = t.store w) :
    (backend.answer a b).1 = (backend.answer a t).1 ∧
      (backend.answer a b).2.store w = (backend.answer a t).2.store w := by
  cases a with
  | store w' c =>
      obtain rfl := Option.some.inj ha.1
      show ((b.store w).answer c).1 = ((t.store w).answer c).1 ∧
        (b.store.answer w c).2 w = (t.store.answer w c).2 w
      rw [Memory.answer_self, Memory.answer_self, h]
      exact ⟨rfl, rfl⟩
  | metrics => exact absurd ha id
  | _ => exact ⟨rfl, h⟩

theorem observer_unwinds (S : Server) (w : GoString) : (observer S w).Unwinds S.serve where
  refl _ := rfl
  symm _ _ h := h.symm
  trans _ _ _ h h' := h.trans h'
  unseen r b hr := by
    have hmine : S.workspace r ≠ some w := by simpa [observer] using hr
    refine (handler_makes (S := S) (r := r)).run (S := backend)
      (R := fun b' => b.store w = b'.store w) (fun β a b' ha hb' => ?_) (s := b) rfl
    cases a with
    | store w' c =>
        have hw : w ≠ w' := by
          rintro rfl
          exact hmine ha.1
        show b.store w = (b'.store.answer w' c).2 w
        rw [Memory.answer_of_ne _ hw]
        exact hb'
    | _ => exact hb'
  seen r b t hr hst := by
    have hmine : S.workspace r = some w := by simpa [observer] using hr
    have hmakes := handler_makes (S := S) (r := r)
    rw [hmine] at hmakes
    by_cases hroute : r.route = .metrics
    · refine ⟨by simp only [observer, hroute, if_true], ?_⟩
      show (S.serve r b).2.store w = (S.serve r t).2.store w
      rw [serve_metrics hroute, serve_metrics hroute]
      exact hst
    · have hquiet : (S.handler r).Makes (Ask.For (some w) False (S.Uploads r)) :=
        hmakes.mono fun _ a ha => by
          cases a with
          | metrics => exact absurd ha hroute
          | _ => exact ha
      obtain ⟨hanswer, hstore⟩ := hquiet.run_same (S := backend)
        (R := fun b t => b.store w = t.store w) (fun _ a b t ha h => answer_alike ha h) hst
      exact ⟨congrArg _ hanswer, hstore⟩

/-- **Authorisation and isolation.** Wherever a run of requests has come to, one more request does
to each workspace only what its claims, its role and its device allow; and runs that agree on the
requests with claims for a workspace answer those requests alike, and leave the workspace the
same, whatever requests there are for others. -/
theorem authorised_and_isolated (S : Server) :
    (∀ (rs : List Request) (r : Request) (w : GoString),
      Authorised S r w ((after S.serve Backend.new rs).store w)
        ((S.serve r (after S.serve Backend.new rs)).2.store w)) ∧
    ∀ (b : Backend) (w : GoString) (rs rs' : List Request),
      rs.filter (observer S w).mine = rs'.filter (observer S w).mine →
        (observer S w).view (answers S.serve b rs) = (observer S w).view (answers S.serve b rs') ∧
          (after S.serve b rs).store w = (after S.serve b rs').store w :=
  ⟨serve_authorised S, fun b w _ _ h => (observer_unwinds S w).noninterference b h⟩

end Server

/-! ### A server -/

/-- A server whose tokens are the names of its users: an editor and an admin of one site, and an
editor of another. -/
def demo : Server where
  packages :=
    { parseWithClaims := fun _ token _ =>
        if token = go "ada" then
          some { workspace := go "site-a", role := go "editor", subject := token, expires := 9 }
        else if token = go "cy" then
          some { workspace := go "site-a", role := go "admin", subject := token, expires := 9 }
        else if token = go "bo" then
          some { workspace := go "site-b", role := go "editor", subject := token, expires := 9 }
        else none
      signedString := fun _ c _ => c.subject
      compareHash := fun hash password => hash == password
      decodeLogin := fun _ => none
      decodeDevice := fun body => some (body, go "Tablet")
      decodePush := fun _ => some [firstEdit]
      parseMediaType := some
      sha256 := fun _ => go "hash" }
  secret := []
  users name :=
    if name = go "ada" then some { passwordHash := [], workspace := go "site-a", role := go "editor" }
    else if name = go "cy" then some { passwordHash := [], workspace := go "site-a", role := go "admin" }
    else if name = go "bo" then some { passwordHash := [], workspace := go "site-b", role := go "editor" }
    else none
  origins := []

/-- A request of a user, from the device given. -/
def requestOf (route : Route) (user device : GoString) : Request :=
  { route, options := false, origin := [], limited := false, now := 0
    authorization := go "Bearer " ++ user, device, record := [], filename := [], contentType := [],
    after := [], queryRecord := [], body := device }

def otherTablet : GoString := go "0a000000-0000-4000-8000-000000000002"

/-- A request for the other site, in between, goes unnoticed. -/
theorem authorised_and_isolated_run :
    (Server.observer demo (go "site-a")).view (answers demo.serve Backend.new
      [requestOf .register (go "ada") tablet.id, requestOf .register (go "bo") otherTablet,
        requestOf .push (go "ada") tablet.id]) =
    (Server.observer demo (go "site-a")).view (answers demo.serve Backend.new
      [requestOf .register (go "ada") tablet.id, requestOf .push (go "ada") tablet.id]) :=
  ((Server.authorised_and_isolated demo).2 Backend.new (go "site-a") _ _ (by decide)).1

end Syncraft.Api
