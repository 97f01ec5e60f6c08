import Syncraft.Library.Once
import Syncraft.Api.Isolation
import Syncraft.Api.Uploads
import Syncraft.Store.Replay
import Syncraft.Store.Revocation

/-!
# Syncraft.Api.Answers

What a response says of the store. Every handler makes at most one call that writes, after all of
its checks, and answers as that call was answered (`handler_once`). So in every interleaving an
error means that the request has changed nothing, and a success that the write was made, by that
request and once, in the name of its token, and that it still stands (`responses_truthful`).
-/

namespace Syncraft.Api

open Domain Store Library Program CausalLog

/-- The call leaves the store as it is. -/
def Ask.quiet : (β : Type) → Ask β → Bool
  | _, .store _ (.register _) => false
  | _, .store _ (.revoke _ _) => false
  | _, .store _ (.push _ _ _) => false
  | _, .store _ (.putAttachment _ _ _) => false
  | _, _ => true

/-- Requests that want something stored. -/
def Route.writes : Route → Bool
  | .register | .revoke _ | .push | .upload _ => true
  | _ => false

/-- The response says that something was stored. -/
def Response.succeeds (response : Response) : Bool := response.status == 200 || response.status == 201

/-- The response to a write that was answered so. -/
def answered {α : Type} (res : Except Err α) (ok : α → Response) : Response :=
  match res with
  | .ok a => ok a
  | .error e => failure e

/-- The response tells of an error. -/
def Response.Refuses (response : Response) : Prop :=
  ∃ status message, 400 ≤ status ∧ response = { status, body := .error message }

theorem Response.Refuses.fails {response : Response} (h : response.Refuses) :
    response.succeeds = false := by
  obtain ⟨status, message, hstatus, rfl⟩ := h
  simp only [Response.succeeds, Bool.or_eq_false_iff, beq_eq_false_iff_ne, ne_eq]
  omega

theorem failure_refuses (e : Err) : (failure e).Refuses := by
  cases e with
  | invalid => exact ⟨400, _, by decide, rfl⟩
  | conflict => exact ⟨409, _, by decide, rfl⟩
  | forbidden => exact ⟨403, _, by decide, rfl⟩
  | notFound => exact ⟨404, _, by decide, rfl⟩
  | internal => exact ⟨500, _, by decide, rfl⟩

theorem failure_succeeds (e : Err) : (failure e).succeeds = false := (failure_refuses e).fails

namespace Server

variable {S : Server} {r : Request}

/-- Nothing was stored: the response to a request that wants it does not say so. -/
def Silent (r : Request) (response : Response) : Prop :=
  r.route.writes = true → response.succeeds = false

/-- The token of the request is for the workspace, and the actor is its subject. -/
def Bears (S : Server) (r : Request) (w actor : GoString) : Prop :=
  ∃ c, S.claims r = some c ∧ c.workspace = w ∧ c.subject = actor

/-- What the response says of the write that was made. -/
def Tells (S : Server) (r : Request) : (β : Type) → Ask β → β → Response → Prop
  | _, .store w (.register d), res, response =>
    S.Bears r w d.actor ∧ r.route = .register ∧
      decode S.packages.decodeDevice r = some (d.id, d.name) ∧
      response = answered res fun _ => { status := 201, body := .device d }
  | _, .store w (.revoke id actor), res, response =>
    S.Bears r w actor ∧ r.route = .revoke id ∧
      response = answered res fun _ => { status := 200, body := .revoked }
  | _, .store w (.push device actor operations), res, response =>
    S.Bears r w actor ∧ r.route = .push ∧ device = r.device ∧
      decode S.packages.decodePush r = some operations ∧
      response = answered res fun n => { status := 200, body := .cursor n }
  | _, .store w (.putAttachment device actor a), res, response =>
    S.Bears r w actor ∧ (∃ id, r.route = .upload id ∧ S.uploaded r id = .ok a) ∧
      device = r.device ∧
      response = answered res fun _ => { status := 201, body := .attachment { a with data := [] } }
  | _, _, _, _ => False

/-- The routes that write take the token from the header. -/
theorem bears_of_verify (hroute : r.route.writes = true) {c : Claims}
    (h : S.verify (trimBearer r.authorization) r.now = some c) :
    S.Bears r c.workspace c.subject := by
  refine ⟨c, ?_, rfl, rfl⟩
  unfold claims
  split
  · next hello hevents =>
      rw [hevents] at hroute
      cases hroute
  · exact h

/-! ### Handlers that only look -/

/-- Calls that look only. -/
def Quiet (β : Type) (c : Ask β) : Prop := Ask.quiet β c = true

theorem identity_quiet (edit device : Bool) : (S.identity r edit device).Makes Quiet := by
  unfold identity
  split
  · trivial
  split
  · trivial
  split
  · refine Makes.bind (makes_ask rfl) fun found => ?_
    split <;> trivial
  · trivial

/-- `identity` answers with an error, or lets the request pass with its claims. -/
theorem identity_settles (edit device : Bool) :
    (S.identity r edit device).Returns fun res =>
      (∃ response, res = .error response ∧ response.Refuses) ∨
        ∃ c, res = .ok c ∧ S.verify (trimBearer r.authorization) r.now = some c := by
  unfold identity
  split
  · exact .inl ⟨_, rfl, 401, _, by decide, rfl⟩
  next c hc =>
  split
  · exact .inl ⟨_, rfl, failure_refuses _⟩
  split
  · intro found
    show Returns _ (if owns c found = true then _ else _)
    split
    · exact .inr ⟨c, rfl, hc⟩
    · exact .inl ⟨_, rfl, failure_refuses _⟩
  · exact .inr ⟨c, rfl, hc⟩

/-- A handler that passes `identity` and goes on with the claims. The check of the device counts
as a call that only looks. -/
theorem once_after_identity {quiet : (β : Type) → Ask β → Bool} {without : Response → Prop}
    {after : (β : Type) → Ask β → β → Response → Prop}
    (hquiet : ∀ w id, quiet _ (.store w (.device id)) = true)
    (hwithout : ∀ response : Response, response.Refuses → without response) {edit device : Bool}
    {next : Claims → Handler Response}
    (h : ∀ c, S.verify (trimBearer r.authorization) r.now = some c →
      (next c).Once quiet without after) :
    ((S.identity r edit device) >>= fun res => match res with
      | .error response => pure response
      | .ok c => next c).Once quiet without after := by
  have hmakes : (S.identity r edit device).Makes fun β a => quiet β a = true := by
    unfold identity
    split
    · trivial
    split
    · trivial
    split
    · refine Makes.bind (makes_ask (hquiet _ _)) fun found => ?_
      split <;> trivial
    · trivial
  refine Once.bind hmakes (identity_settles edit device) fun res hres => ?_
  rcases hres with ⟨response, rfl, hrefuses⟩ | ⟨c, rfl, hverify⟩
  · exact hwithout response hrefuses
  · exact h c hverify

/-- A handler of those that write at most once. -/
theorem writes_after_identity (hroute : r.route.writes = true) {edit device : Bool}
    {next : Claims → Handler Response}
    (h : ∀ c, S.Bears r c.workspace c.subject → (next c).Once Ask.quiet (Silent r) (S.Tells r)) :
    ((S.identity r edit device) >>= fun res => match res with
      | .error response => pure response
      | .ok c => next c).Once Ask.quiet (Silent r) (S.Tells r) :=
  once_after_identity (fun _ _ => rfl) (fun _ hrefuses _ => hrefuses.fails) fun c hverify =>
    h c (bears_of_verify hroute hverify)

/-- A handler makes the calls that follow, once it is let pass, and calls that only look. -/
theorem makes_past_identity {P : (β : Type) → Ask β → Prop}
    (hquiet : ∀ β a, Quiet β a → P β a) {edit device : Bool} {next : Claims → Handler Response}
    (h : ∀ c, (next c).Makes P) :
    ((S.identity r edit device) >>= fun res => match res with
      | .error response => pure response
      | .ok c => next c).Makes P := by
  refine Makes.bind ((identity_quiet edit device).mono hquiet) fun res => ?_
  cases res with
  | error response => trivial
  | ok c => exact h c

theorem quiet_after_identity {edit device : Bool} {next : Claims → Handler Response}
    (h : ∀ c, (next c).Makes Quiet) :
    ((S.identity r edit device) >>= fun res => match res with
      | .error response => pure response
      | .ok c => next c).Makes Quiet :=
  makes_past_identity (fun _ _ hquiet => hquiet) h

theorem devices_quiet : (S.devices r).Makes Quiet := by
  refine quiet_after_identity fun c => Makes.bind (makes_ask rfl) fun res => ?_
  split <;> trivial

theorem pull_quiet : (S.pull r).Makes Quiet := by
  refine quiet_after_identity fun c => ?_
  split
  · trivial
  refine Makes.bind (makes_ask rfl) fun res => ?_
  split
  · trivial
  · exact Makes.bind (makes_ask rfl) fun _ => trivial

theorem audit_quiet : (S.audit r).Makes Quiet := by
  refine quiet_after_identity fun c => ?_
  split
  · trivial
  refine Makes.bind (makes_ask rfl) fun res => ?_
  split <;> trivial

theorem download_quiet (id : GoString) : (S.download r id).Makes Quiet := by
  refine quiet_after_identity fun c => ?_
  split
  · trivial
  refine Makes.bind (makes_ask rfl) fun res => ?_
  split <;> trivial

theorem attachments_quiet : (S.attachments r).Makes Quiet := by
  refine quiet_after_identity fun c => ?_
  split
  · trivial
  refine Makes.bind (makes_ask rfl) fun res => ?_
  split <;> trivial

theorem metrics_quiet : (S.metrics r).Makes Quiet := by
  refine quiet_after_identity fun c => ?_
  split
  · trivial
  · exact Makes.bind (makes_ask rfl) fun _ => trivial

theorem ready_quiet : ready.Makes Quiet := by
  refine Makes.bind (makes_ask rfl) fun res => ?_
  split <;> trivial

theorem login_quiet : (S.login r).Makes Quiet := by
  unfold login
  split
  · trivial
  split
  · trivial
  split <;> trivial

theorem events_quiet (hello : Option (GoString × GoString)) : (S.events r hello).Makes Quiet := by
  unfold events
  split
  · trivial
  split
  · trivial
  refine Makes.bind (makes_ask rfl) fun res => ?_
  split <;> trivial

/-- A handler that only looks, on a route that wants nothing stored. -/
theorem once_of_quiet {x : Handler Response} (hroute : r.route.writes = false)
    (hx : x.Makes Quiet) : x.Once Ask.quiet (Silent r) (S.Tells r) := by
  refine once_of_makes hx (returns_of_forall (fun response h => ?_) x)
  rw [hroute] at h
  cases h

/-! ### Handlers that write -/

theorem register_once (hroute : r.route = .register) :
    (S.register r).Once Ask.quiet (Silent r) (S.Tells r) := by
  refine writes_after_identity (by rw [hroute]; rfl) fun c hbears => ?_
  split
  · exact fun _ => failure_succeeds _
  next id name hbody =>
  split
  · exact fun _ => failure_succeeds _
  refine once_ask rfl fun res => ?_
  cases res with
  | error e => exact ⟨trivial, hbears, hroute, hbody, rfl⟩
  | ok u => exact ⟨trivial, hbears, hroute, hbody, rfl⟩

theorem revoke_once {id : GoString} (hroute : r.route = .revoke id) :
    (S.revoke r id).Once Ask.quiet (Silent r) (S.Tells r) := by
  refine writes_after_identity (by rw [hroute]; rfl) fun c hbears => ?_
  split
  · exact fun _ => failure_succeeds _
  refine Once.bind (Q := fun _ => True) (makes_ask rfl) (fun _ => trivial) fun found _ => ?_
  split
  · exact fun _ => failure_succeeds _
  split
  · exact fun _ => failure_succeeds _
  refine once_ask rfl fun res => ?_
  cases res with
  | error e => exact ⟨trivial, hbears, hroute, rfl⟩
  | ok u => exact ⟨trivial, hbears, hroute, rfl⟩

theorem push_once (hroute : r.route = .push) :
    (S.push r).Once Ask.quiet (Silent r) (S.Tells r) := by
  refine writes_after_identity (by rw [hroute]; rfl) fun c hbears => ?_
  split
  · exact fun _ => failure_succeeds _
  next operations hbody =>
  refine once_ask rfl fun res => ?_
  cases res with
  | error e => exact ⟨trivial, hbears, hroute, rfl, hbody, rfl⟩
  | ok n => exact ⟨⟨rfl, fun _ => trivial⟩, fun _ => ⟨hbears, hroute, rfl, hbody, rfl⟩⟩

theorem uploaded_fails {id : GoString} {response : Response}
    (h : S.uploaded r id = .error response) : response.succeeds = false := by
  rw [uploaded] at h
  split at h
  · exact Except.error.inj h ▸ failure_succeeds _
  split at h
  · exact Except.error.inj h ▸ failure_succeeds _
  split at h
  · exact Except.error.inj h ▸ failure_succeeds _
  split at h
  · exact Except.error.inj h ▸ failure_succeeds _
  split at h
  · obtain rfl := Except.error.inj h
    rfl
  · cases h

theorem upload_once {id : GoString} (hroute : r.route = .upload id) :
    (S.upload r id).Once Ask.quiet (Silent r) (S.Tells r) := by
  refine writes_after_identity (by rw [hroute]; rfl) fun c hbears => ?_
  split
  · next response hresponse => exact fun _ => uploaded_fails hresponse
  next a ha =>
  refine once_ask rfl fun res => ?_
  cases res with
  | error e => exact ⟨trivial, hbears, ⟨id, hroute, ha⟩, rfl, rfl⟩
  | ok u => exact ⟨trivial, hbears, ⟨id, hroute, ha⟩, rfl, rfl⟩

theorem mux_once : (S.mux r).Once Ask.quiet (Silent r) (S.Tells r) := by
  unfold mux
  cases hroute : r.route with
  | register => exact register_once hroute
  | revoke id => exact revoke_once hroute
  | push => exact push_once hroute
  | upload id => exact upload_once hroute
  | live => exact once_of_quiet (by rw [hroute]; rfl) trivial
  | ready => exact once_of_quiet (by rw [hroute]; rfl) ready_quiet
  | login => exact once_of_quiet (by rw [hroute]; rfl) login_quiet
  | devices => exact once_of_quiet (by rw [hroute]; rfl) devices_quiet
  | pull => exact once_of_quiet (by rw [hroute]; rfl) pull_quiet
  | audit => exact once_of_quiet (by rw [hroute]; rfl) audit_quiet
  | download id => exact once_of_quiet (by rw [hroute]; rfl) (download_quiet id)
  | attachments => exact once_of_quiet (by rw [hroute]; rfl) attachments_quiet
  | events hello => exact once_of_quiet (by rw [hroute]; rfl) (events_quiet hello)
  | metrics => exact once_of_quiet (by rw [hroute]; rfl) metrics_quiet
  | unmatched status => exact once_of_quiet (by rw [hroute]; rfl) trivial

/-- **A handler writes at most once**, and answers as its write was answered. -/
theorem handler_once (S : Server) (r : Request) :
    (S.handler r).Once Ask.quiet (Silent r) (S.Tells r) := by
  refine Once.bind (Q := fun _ => True) (makes_ask rfl) (fun _ => trivial) fun _ _ => ?_
  split
  · exact fun _ => rfl
  split
  · exact fun _ => rfl
  split
  · exact fun _ => rfl
  exact mux_once

end Server

/-! ### What calls do -/

/-- In every workspace some calls have been made. -/
def Backend.Later (b b' : Backend) : Prop := ∀ w, (b.store w).Later (b'.store w)

theorem later_refl (b : Backend) : b.Later b := fun _ => Relation.ReflTransGen.refl

theorem later_trans (b b' b'' : Backend) (h : b.Later b') (h' : b'.Later b'') : b.Later b'' :=
  fun w => (h w).trans (h' w)

theorem answer_later {S : Server} (β : Type) (a : Ask β) (b : Backend) (ha : Ask.Of S β a) :
    b.Later (backend.answer a b).2 := by
  cases a with
  | store w c =>
      intro w'
      show (b.store w').Later ((b.store.answer w c).2 w')
      by_cases hw : w' = w
      · subst hw
        rw [Memory.answer_self]
        exact Space.answer_later _ ha.handled
      · rw [Memory.answer_of_ne _ hw]
        exact Relation.ReflTransGen.refl
  | _ => exact later_refl b

theorem Backend.Later.inv {b : Backend} (h : Backend.new.Later b) (w : GoString) :
    (b.store w).Inv :=
  Space.Later.inv (h w) Space.new_inv

/-- A quiet call leaves the store as it is. -/
theorem quiet_store {β : Type} {a : Ask β} (h : Ask.quiet β a = true) (b : Backend) :
    (backend.answer a b).2.store = b.store := by
  cases a with
  | store w c =>
      have hsame : (b.store w).answer c = (((b.store w).answer c).1, b.store w) := by
        cases c with
        | register | revoke | push | putAttachment => cases h
        | _ => rfl
      show Function.update b.store w ((b.store w).answer c).2 = b.store
      rw [hsame, Function.update_eq_self]
  | _ => rfl

/-- A call to a method that leaves the workspace as it was. -/
theorem store_of_answer {β : Type} {w : GoString} {c : Method β} {b : Backend}
    (h : ((b.store w).answer c).2 = b.store w) :
    (backend.answer (.store w c) b).2.store = b.store := by
  show Function.update b.store w ((b.store w).answer c).2 = b.store
  rw [h, Function.update_eq_self]

theorem answered_fails {α : Type} {res : Except Err α} {ok : α → Response}
    (hok : ∀ a, (ok a).succeeds = true) (h : (answered res ok).succeeds = false) :
    ∃ e, res = .error e := by
  cases res with
  | error e => exact ⟨e, rfl⟩
  | ok a =>
      have hsucceeds : (ok a).succeeds = false := h
      rw [hok a] at hsucceeds
      cases hsucceeds

/-- A write that was answered with an error has changed nothing. -/
theorem failed_store {S : Server} {r : Request} {β : Type} {a : Ask β} {b : Backend}
    {response : Response} (h : S.Tells r β a (backend.answer a b).1 response)
    (hfails : response.succeeds = false) : (backend.answer a b).2.store = b.store := by
  cases a with
  | store w c =>
      refine store_of_answer ?_
      cases c with
      | register d =>
          obtain ⟨-, -, -, rfl⟩ := h
          obtain ⟨e, he⟩ := answered_fails (fun _ => rfl) hfails
          have hwrite : ((b.store w).write (.register d)).1 = .error e := congrArg (Except.map _) he
          exact Space.write_error hwrite
      | revoke id actor =>
          obtain ⟨-, -, rfl⟩ := h
          obtain ⟨e, he⟩ := answered_fails (fun _ => rfl) hfails
          have hwrite : ((b.store w).write (.revoke id actor)).1 = .error e :=
            congrArg (Except.map _) he
          exact Space.write_error hwrite
      | push device actor operations =>
          obtain ⟨-, -, -, -, rfl⟩ := h
          obtain ⟨e, he⟩ := answered_fails (fun _ => rfl) hfails
          have hwrite : ((b.store w).write (.push device actor operations)).1 = .error e :=
            congrArg (Except.map _) he
          exact Space.write_error hwrite
      | putAttachment device actor a =>
          obtain ⟨-, -, -, rfl⟩ := h
          obtain ⟨e, he⟩ := answered_fails (fun _ => rfl) hfails
          have hwrite : ((b.store w).write (.putAttachment device actor a)).1 = .error e :=
            congrArg (Except.map _) he
          exact Space.write_error hwrite
      | _ => cases h
  | _ => cases h

/-! ### What a response says -/

/-- A request that is being served, with the calls made for it. -/
abbrev Served := Serviced Backend Request Ask

/-- A moment at which the request has changed nothing. -/
def Unchanged (m : Moment Backend Ask) : Prop := (m.later backend).store = m.store.store

/-- What a response says is so of the store as it is given. -/
structure Honest (S : Server) (x : Served) (response : Response) (b : Backend) : Prop where
  /-- Unless the response says that something was stored, the request has changed nothing. -/
  silent : x.request.route.writes = false ∨ response.succeeds = false → ∀ m ∈ x.calls, Unchanged m
  /-- What the request has changed it has changed at one moment. -/
  once : ∃ before after, (∀ m ∈ before ++ after, Unchanged m) ∧
    (x.calls = before ++ after ∨ ∃ m, x.calls = before ++ m :: after)
  /-- What is new was stored in the workspace of the token: the entries carry the device of the
  request and the subject of the token, the devices and the audit the subject. -/
  signed : ∀ m ∈ x.calls, Unchanged m ∨ ∃ w actor, S.Bears x.request w actor ∧
    (∀ w', w' ≠ w → (m.later backend).store w' = m.store.store w') ∧
    Space.Signed x.request.device actor (m.store.store w) ((m.later backend).store w)
  /-- The operations of a push are among the entries up to the cursor that is reported. -/
  pushed : x.request.route = .push → response.succeeds = true → ∃ n w actor operations,
    response.body = .cursor n ∧ S.Bears x.request w actor ∧
      Server.decode S.packages.decodePush x.request = some operations ∧
      n ≤ (b.store w).ops.length ∧
      ∀ o ∈ operations, ∃ q ∈ (b.store w).ops.take n, equivalent q o = true
  /-- The device that was sent is registered, for the subject of the token. -/
  registered : x.request.route = .register → response.succeeds = true → ∃ d w old,
    response.body = .device d ∧ S.Bears x.request w d.actor ∧
      Server.decode S.packages.decodeDevice x.request = some (d.id, d.name) ∧
      (b.store w).devices.lookup d.id = some old ∧ old.actor = d.actor
  /-- The device is revoked. -/
  revoked : ∀ id, x.request.route = .revoke id → response.succeeds = true → ∃ w actor,
    S.Bears x.request w actor ∧ (b.store w).isRevoked id = true
  /-- The attachment is held, as it was sent. -/
  uploaded : ∀ id, x.request.route = .upload id → response.succeeds = true → ∃ a w actor old,
    response.body = .attachment { a with data := [] } ∧ S.uploaded x.request id = .ok a ∧
      S.Bears x.request w actor ∧ (b.store w).attachments.lookup id = some old ∧
      SameAttachment old a

section Tells

variable {S : Server} {r : Request} {β : Type} {a : Ask β} {b : Backend} {response : Response}

theorem answered_succeeds {α : Type} {res : Except Err α} {ok : α → Response}
    (h : (answered res ok).succeeds = true) : ∃ a, res = .ok a := by
  cases res with
  | ok a => exact ⟨a, rfl⟩
  | error e =>
      have hfails : (failure e).succeeds = true := h
      rw [failure_succeeds] at hfails
      cases hfails

/-- The workspace after a call to one of its methods. -/
theorem space_of_answer (w : GoString) (c : Method β) (b : Backend) :
    (backend.answer (.store w c) b).2.store w = ((b.store w).answer c).2 :=
  Memory.answer_self b.store w c

/-- A push that succeeded, at its moment. -/
theorem pushed_of_tells (hi : ∀ w, (b.store w).Inv)
    (h : S.Tells r β a (backend.answer a b).1 response) (hroute : r.route = .push)
    (hok : response.succeeds = true) :
    ∃ n w actor operations, response.body = .cursor n ∧ S.Bears r w actor ∧
      Server.decode S.packages.decodePush r = some operations ∧
      n = ((backend.answer a b).2.store w).ops.length ∧
      ∀ o ∈ operations, ∃ q ∈ ((backend.answer a b).2.store w).ops, equivalent q o = true := by
  cases a with
  | store w c =>
      cases c with
      | push device actor operations =>
          obtain ⟨hbears, -, -, hbody, rfl⟩ := h
          obtain ⟨n, hn⟩ := answered_succeeds hok
          refine ⟨n, w, actor, operations, by rw [hn]; rfl, hbears, hbody, ?_⟩
          rw [space_of_answer]
          have hn' : ((b.store w).push device actor operations).1 = .ok n := hn
          show n = ((b.store w).push device actor operations).2.ops.length ∧
            ∀ o ∈ operations, ∃ q ∈ ((b.store w).push device actor operations).2.ops, _
          rcases Space.push_cases (hi w).causal device actor operations with
            ⟨e, he⟩ | ⟨fresh, -, -, -, hadmits, heq⟩
          · rw [he] at hn'
            cases hn'
          · rw [heq] at hn' ⊢
            obtain rfl := Except.ok.inj hn'
            simp only [Space.ops_acceptAll]
            refine ⟨trivial, fun o ho => ?_⟩
            obtain ⟨q, hq, hsame⟩ := admitAll_holds hadmits ho
            exact ⟨q, mem_of_find hq, same_iff.mp hsame⟩
      | register | revoke => cases hroute.symm.trans h.2.1
      | putAttachment =>
          obtain ⟨-, ⟨id, hid, -⟩, -⟩ := h
          cases hroute.symm.trans hid
      | _ => cases h
  | _ => cases h

/-- A registration that succeeded, at its moment. -/
theorem registered_of_tells (h : S.Tells r β a (backend.answer a b).1 response)
    (hroute : r.route = .register) (hok : response.succeeds = true) :
    ∃ d w old, response.body = .device d ∧ S.Bears r w d.actor ∧
      Server.decode S.packages.decodeDevice r = some (d.id, d.name) ∧
      ((backend.answer a b).2.store w).devices.lookup d.id = some old ∧ old.actor = d.actor := by
  cases a with
  | store w c =>
      cases c with
      | register d =>
          obtain ⟨hbears, -, hdecode, rfl⟩ := h
          obtain ⟨u, hu⟩ := answered_succeeds hok
          have hu' : ((b.store w).register d).1 = .ok u := hu
          have hbody : (answered (backend.answer (.store w (.register d)) b).1
              fun _ => ({ status := 201, body := .device d } : Response)).body = .device d := by
            rw [hu]
            rfl
          rw [Space.register] at hu'
          cases hold : (b.store w).devices.lookup d.id with
          | some old =>
              rw [hold] at hu'
              dsimp only at hu'
              split at hu'
              · cases hu'
              next hsame =>
              refine ⟨d, w, old, hbody, hbears, hdecode, ?_, ?_⟩
              · rw [space_of_answer]
                show ((b.store w).register d).2.devices.lookup d.id = some old
                rw [Space.register, hold]
                dsimp only
                rw [if_neg hsame]
                exact hold
              · simp only [Bool.or_eq_true, bne_iff_ne, ne_eq, not_or, not_not] at hsame
                exact hsame.1
          | none =>
              refine ⟨d, w, d, hbody, hbears, hdecode, ?_, rfl⟩
              rw [space_of_answer]
              show ((b.store w).register d).2.devices.lookup d.id = some d
              rw [Space.register, hold]
              exact AList.lookup_insert _
      | revoke | push => cases hroute.symm.trans h.2.1
      | putAttachment =>
          obtain ⟨-, ⟨id, hid, -⟩, -⟩ := h
          cases hroute.symm.trans hid
      | _ => cases h
  | _ => cases h

/-- A revocation that succeeded, at its moment. -/
theorem revoked_of_tells {id : GoString} (h : S.Tells r β a (backend.answer a b).1 response)
    (hroute : r.route = .revoke id) (hok : response.succeeds = true) :
    ∃ w actor, S.Bears r w actor ∧ ((backend.answer a b).2.store w).isRevoked id = true := by
  cases a with
  | store w c =>
      cases c with
      | revoke id' actor =>
          obtain ⟨hbears, hroute', rfl⟩ := h
          obtain rfl := Route.revoke.inj (hroute.symm.trans hroute')
          obtain ⟨u, hu⟩ := answered_succeeds hok
          refine ⟨w, actor, hbears, ?_⟩
          rw [space_of_answer]
          exact Space.revoke_takes_effect hu
      | register | push => cases hroute.symm.trans h.2.1
      | putAttachment =>
          obtain ⟨-, ⟨id', hid, -⟩, -⟩ := h
          cases hroute.symm.trans hid
      | _ => cases h
  | _ => cases h

/-- An upload that succeeded, at its moment. -/
theorem uploaded_of_tells {id : GoString} (h : S.Tells r β a (backend.answer a b).1 response)
    (hroute : r.route = .upload id) (hok : response.succeeds = true) :
    ∃ x w actor old, response.body = .attachment { x with data := [] } ∧ S.uploaded r id = .ok x ∧
      S.Bears r w actor ∧
      ((backend.answer a b).2.store w).attachments.lookup id = some old ∧ SameAttachment old x := by
  cases a with
  | store w c =>
      cases c with
      | putAttachment device actor x =>
          obtain ⟨hbears, ⟨id', hroute', hx⟩, -, rfl⟩ := h
          obtain rfl := Route.upload.inj (hroute.symm.trans hroute')
          obtain ⟨u, hu⟩ := answered_succeeds hok
          obtain ⟨old, hold, hsame⟩ := Space.putAttachment_ok hu
          rw [(Server.uploaded_ok hx).id.1] at hold
          refine ⟨x, w, actor, old, by rw [hu]; rfl, hx, hbears, ?_, hsame⟩
          rw [space_of_answer]
          exact hold
      | register | push | revoke => cases hroute.symm.trans h.2.1
      | _ => cases h
  | _ => cases h

/-- Whose write it was. -/
theorem signed_of_tells (hi : ∀ w, (b.store w).Inv)
    (h : S.Tells r β a (backend.answer a b).1 response) :
    ∃ w actor, S.Bears r w actor ∧ (∀ w', w' ≠ w → (backend.answer a b).2.store w' = b.store w') ∧
      Space.Signed r.device actor (b.store w) ((backend.answer a b).2.store w) := by
  cases a with
  | store w c =>
      have hothers : ∀ w', w' ≠ w → (backend.answer (.store w c) b).2.store w' = b.store w' :=
        fun w' hw => Memory.answer_of_ne b.store hw c
      have hspace := space_of_answer w c b
      cases c with
      | register d =>
          exact ⟨w, d.actor, h.1, hothers, by rw [hspace]; exact Space.register_signed _ _ d⟩
      | revoke id actor =>
          exact ⟨w, actor, h.1, hothers, by rw [hspace]; exact Space.revoke_signed _ _ id actor⟩
      | push device actor operations =>
          obtain ⟨hbears, -, rfl, -⟩ := h
          refine ⟨w, actor, hbears, hothers, ?_⟩
          rw [hspace]
          exact Space.push_signed (hi w).causal _ actor operations
      | putAttachment device actor x =>
          obtain ⟨hbears, -, rfl, -⟩ := h
          refine ⟨w, actor, hbears, hothers, ?_⟩
          rw [hspace]
          exact Space.putAttachment_signed _ _ actor x
      | _ => cases h
  | _ => cases h

end Tells

/-! ### Every response -/

section Serving

variable {S : Server} {x : Served} {response : Response} {b : Backend}

/-- The workspaces have gone on from one state to the other, and so have their attachments. -/
def Backend.Passes (S : Server) (b b' : Backend) : Prop := b.Later b' ∧ b.Grows S b'

/-- A request that has written nothing. -/
theorem unchanged_of_effects (h : x.effects Ask.quiet = []) : ∀ m ∈ x.calls, Unchanged m := by
  intro m hm
  have hquiet := List.filter_eq_nil_iff.mp h m hm
  simp only [Bool.not_eq_true', Bool.not_eq_false] at hquiet
  exact quiet_store hquiet m.store

/-- A request that has made one write. -/
theorem split_of_effects {m : Moment Backend Ask} (h : x.effects Ask.quiet = [m]) :
    ∃ before after, x.calls = before ++ m :: after ∧ ∀ m' ∈ before ++ after, Unchanged m' := by
  obtain ⟨before, after, hcalls, hbefore, -, hafter⟩ := List.filter_eq_cons_iff.mp h
  refine ⟨before, after, hcalls, fun m' hm' => ?_⟩
  have hquiet : Ask.quiet m'.β m'.call = true := by
    rcases List.mem_append.mp hm' with hm' | hm'
    · simpa using hbefore m' hm'
    · simpa using List.filter_eq_nil_iff.mp hafter m' hm'
  exact quiet_store hquiet m'.store

theorem Honest.of_silent (hnone : x.effects Ask.quiet = [])
    (hsilent : Server.Silent x.request response) : Honest S x response b := by
  have hunchanged := unchanged_of_effects hnone
  have hfails : ∀ {p : Prop}, x.request.route.writes = true → response.succeeds = true → p := by
    intro p hroute hok
    rw [hsilent hroute] at hok
    cases hok
  exact
    { silent := fun _ => hunchanged
      once := ⟨x.calls, [], by rwa [List.append_nil], .inl (List.append_nil _).symm⟩
      signed := fun m hm => .inl (hunchanged m hm)
      pushed := fun hroute => hfails (by rw [hroute]; rfl)
      registered := fun hroute => hfails (by rw [hroute]; rfl)
      revoked := fun id hroute => hfails (by rw [hroute]; rfl)
      uploaded := fun id hroute => hfails (by rw [hroute]; rfl) }

/-- A write is only made for a request that wants it. -/
theorem writes_of_tells {r : Request} {β : Type} {a : Ask β} {res : β}
    (h : S.Tells r β a res response) : r.route.writes = true := by
  cases a with
  | store w c =>
      cases c with
      | register | push | revoke =>
          rw [h.2.1]
          rfl
      | putAttachment =>
          obtain ⟨-, ⟨id, hid, -⟩, -⟩ := h
          rw [hid]
          rfl
      | _ => cases h
  | _ => cases h

theorem Honest.of_tells {m : Moment Backend Ask} (hone : x.effects Ask.quiet = [m])
    (htells : S.Tells x.request m.β m.call (m.answer backend) response)
    (hstart : Backend.new.Later m.store) (hmoment : m.store.Later (m.later backend))
    (hlater : (m.later backend).Passes S b) : Honest S x response b := by
  obtain ⟨before, after, hcalls, hunchanged⟩ := split_of_effects hone
  have hinv : ∀ w, ((m.later backend).store w).Inv := fun w =>
    (later_trans _ _ _ hstart hmoment).inv w
  constructor
  case silent =>
    intro h m' hm'
    rw [writes_of_tells htells] at h
    have hfails : response.succeeds = false := h.resolve_left fun h => by cases h
    rw [hcalls] at hm'
    rcases List.mem_append.mp hm' with hm' | hm'
    · exact hunchanged m' (List.mem_append_left _ hm')
    · rcases List.mem_cons.mp hm' with rfl | hm'
      · exact failed_store htells hfails
      · exact hunchanged m' (List.mem_append_right _ hm')
  case once => exact ⟨before, after, hunchanged, .inr ⟨m, hcalls⟩⟩
  case signed =>
    intro m' hm'
    rw [hcalls] at hm'
    rcases List.mem_append.mp hm' with hm' | hm'
    · exact .inl (hunchanged m' (List.mem_append_left _ hm'))
    rcases List.mem_cons.mp hm' with rfl | hm'
    · exact .inr (signed_of_tells (fun w => hstart.inv w) htells)
    · exact .inl (hunchanged m' (List.mem_append_right _ hm'))
  case pushed =>
    intro hroute hok
    obtain ⟨n, w, actor, operations, hbody, hbears, hdecode, hn, hheld⟩ :=
      pushed_of_tells (fun w => hstart.inv w) htells hroute hok
    -- The log has only grown since.
    obtain ⟨later, hops⟩ := (hlater.1 w).ops_extends (hinv w)
    refine ⟨n, w, actor, operations, hbody, hbears, hdecode, ?_, fun o ho => ?_⟩
    · rw [hn, ← hops, List.length_append]
      exact Nat.le_add_right _ _
    · obtain ⟨q, hq, hsame⟩ := hheld o ho
      refine ⟨q, ?_, hsame⟩
      rw [hn, ← hops]
      exact List.mem_take_iff_getElem.mpr (by
        obtain ⟨k, hk, rfl⟩ := List.getElem_of_mem hq
        refine ⟨k, ?_, List.getElem_append_left hk⟩
        have hk' : k < ((m.later backend).store w).ops.length := hk
        show k < min ((m.later backend).store w).ops.length
          (((m.later backend).store w).ops ++ later).length
        rw [List.length_append]
        omega)
  case registered =>
    intro hroute hok
    obtain ⟨d, w, old, hbody, hbears, hdecode, hold, hactor⟩ :=
      registered_of_tells htells hroute hok
    obtain ⟨old', hold', hactor', -⟩ := (hlater.1 w).device (hinv w) hold
    exact ⟨d, w, old', hbody, hbears, hdecode, hold', hactor'.trans hactor⟩
  case revoked =>
    intro id hroute hok
    obtain ⟨w, actor, hbears, hrevoked⟩ := revoked_of_tells htells hroute hok
    exact ⟨w, actor, hbears, (hlater.1 w).isRevoked (hinv w) hrevoked⟩
  case uploaded =>
    intro id hroute hok
    obtain ⟨a, w, actor, old, hbody, ha, hbears, hold, hsame⟩ :=
      uploaded_of_tells htells hroute hok
    exact ⟨a, w, actor, old, hbody, ha, hbears, (hlater.2 w).kept hold, hsame⟩

variable {ι : Type} [DecidableEq ι] {h h' : Witnessed ι Backend Request Ask Response}

/-- **Responses are truthful.** However requests interleave: when one is answered, it has changed
the store at one moment at most. Unless the response says that something was stored, it has not
changed it at all; what the response says was stored is in the store; and what is new there carries
the identity of the token. -/
theorem responses_truthful (S : Server)
    (hr : Witnessed.Reachable backend S.handler Backend.new h) {i : ι}
    (hstep : Witnessed.Step backend S.handler h (.finish i response) h') :
    ∃ x, h.serviced i = some x ∧ Honest S x response h.running.store := by
  obtain ⟨x, hx, haccounts⟩ := Witnessed.finished S.handler_once hr hstep
  have hgrown := hr.grown (P := Ask.Of S) (R := Backend.Passes S)
    (fun b => ⟨later_refl b, grows_refl b⟩)
    (fun b b' b'' hb hb' => ⟨later_trans _ _ _ hb.1 hb'.1, grows_trans _ _ _ hb.2 hb'.2⟩)
    (fun β a b ha => ⟨answer_later β a b ha, answer_grows β a b ha⟩) fun r => handler_of
  refine ⟨x, hx, ?_⟩
  rcases haccounts with ⟨hnone, hsilent⟩ | ⟨m, hone, htells⟩
  · exact Honest.of_silent hnone hsilent
  · have hm : m ∈ x.calls := by
      have hmem : m ∈ x.effects Ask.quiet := by
        rw [hone]
        exact List.mem_singleton_self m
      exact (List.mem_filter.mp hmem).1
    obtain ⟨hof, hstart, hlater⟩ := hgrown.calls i x hx m hm
    exact Honest.of_tells hone htells hstart.1 (answer_later m.β m.call m.store hof) hlater

end Serving

/-- A tablet is registered, for the subject of the token. -/
theorem responses_truthful_run :
    let d : Device := { tablet with actor := go "ada" }
    ∃ (h : Witnessed Unit Backend Request Ask Response) (x : Served) (response : Response),
      h.serviced () = some x ∧ response = { status := 201, body := .device d } ∧
        (h.running.store.store (go "site-a")).devices.lookup tablet.id = some d ∧
        Honest demo x response h.running.store := by
  intro d
  let r := requestOf .register (go "ada") tablet.id
  have h₁ : Witnessed.Reachable backend demo.handler Backend.new (ι := Unit) _ :=
    .single ⟨_, .step (.start () r rfl)⟩
  have h₂ := h₁.tail ⟨_, .step (.call () _ _ (by rfl))⟩
  have h₃ := h₂.tail ⟨_, .step (.call () _ _ (by rfl))⟩
  obtain ⟨x, hx, honest⟩ := responses_truthful demo h₃ (.step (.finish () _ (by rfl)))
  exact ⟨_, x, _, hx, rfl, rfl, honest⟩

end Syncraft.Api
