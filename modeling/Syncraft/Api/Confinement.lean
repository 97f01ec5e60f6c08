import Syncraft.Api.Server

/-!
# Syncraft.Api.Confinement

Which calls a handler can make, whatever the store answers: only calls in the workspace that the
request's verified claims name (`handler_makes`). A request without claims makes none.
-/

namespace Syncraft.Api

open Domain Store Library Program

/-- The claims a request is answered for. A web socket sends its token in its first message. -/
def Server.claims (S : Server) (r : Request) : Option Claims :=
  match r.route with
  | .events hello => hello.bind fun h => S.verify h.1 r.now
  | _ => S.verify (trimBearer r.authorization) r.now

/-- The workspace of the claims. -/
def Server.workspace (S : Server) (r : Request) : Option GoString :=
  (S.claims r).map Claims.workspace

/-- The attachment is what the request uploads. -/
def Server.Uploads (S : Server) (r : Request) (a : Attachment) : Prop :=
  ∃ id, S.uploaded r id = .ok a

/-- The call is to a method in the workspace given, as the handlers make it; or to no method.
`loud` allows it to read the counters, and what it uploads is among `puts`. -/
def Ask.For (w : Option GoString) (loud : Prop) (puts : Attachment → Prop) :
    (β : Type) → Ask β → Prop
  | _, .store w' c => w = some w' ∧ c.Within puts
  | _, .metrics => loud
  | _, _ => True

namespace Server

variable {S : Server} {r : Request} {w : Option GoString} {loud : Prop} {puts : Attachment → Prop}

/-- The workspace that the token in the header names. -/
def bearer (S : Server) (r : Request) : Option GoString :=
  (S.verify (trimBearer r.authorization) r.now).map Claims.workspace

theorem bearer_of_verify {c : Claims} (h : S.verify (trimBearer r.authorization) r.now = some c) :
    S.bearer r = some c.workspace := by
  rw [bearer, h]
  rfl

theorem identity_makes (edit device : Bool) :
    (S.identity r edit device).Makes (Ask.For (S.bearer r) loud puts) := by
  unfold identity bearer
  split
  · trivial
  · next c hc =>
      split
      · trivial
      · split
        · refine Makes.bind (makes_ask ⟨by rw [hc]; rfl, trivial⟩) fun found => ?_
          split <;> trivial
        · trivial

/-- A role that `identity` lets pass where editing is asked for. -/
theorem role_of_passed {c : Claims} {edit : Bool}
    (h : ¬ (edit && c.role != go "editor" && c.role != go "admin") = true) (he : edit = true) :
    c.role = go "editor" ∨ c.role = go "admin" := by
  simp only [he, Bool.true_and, Bool.and_eq_true, bne_iff_ne, ne_eq, not_and, not_not] at h
  by_cases heditor : c.role = go "editor"
  · exact Or.inl heditor
  · exact Or.inr (h heditor)

/-- `identity` lets a request pass with the claims of its token, of which the role may edit if
that is asked for. -/
theorem identity_returns (edit device : Bool) :
    (S.identity r edit device).Returns fun res => ∀ c, res = .ok c →
      S.verify (trimBearer r.authorization) r.now = some c ∧
        (edit = true → c.role = go "editor" ∨ c.role = go "admin") := by
  unfold identity
  split
  · exact fun _ h => by cases h
  next c hc =>
  split
  · exact fun _ h => by cases h
  next hedit =>
  have hpass : ∀ c', (Except.ok c : Except Response Claims) = .ok c' →
      S.verify (trimBearer r.authorization) r.now = some c' ∧
        (edit = true → c'.role = go "editor" ∨ c'.role = go "admin") := by
    intro c' hc'
    obtain rfl := Except.ok.inj hc'
    exact ⟨hc, role_of_passed hedit⟩
  split
  · intro found
    show Returns _ (if owns c found = true then _ else _)
    split
    · exact hpass
    · exact fun _ h => by cases h
  · exact hpass

/-- A handler that passes `identity` and goes on with the claims. -/
theorem makes_after_identity {edit device : Bool} {next : Claims → Handler Response}
    (h : ∀ c, S.bearer r = some c.workspace → (next c).Makes (Ask.For (S.bearer r) loud puts)) :
    ((S.identity r edit device) >>= fun res => match res with
      | .error response => pure response
      | .ok c => next c).Makes (Ask.For (S.bearer r) loud puts) := by
  refine Makes.bind_returns (identity_makes edit device) (identity_returns edit device) fun res hres => ?_
  cases res with
  | error response => trivial
  | ok c => exact h c (bearer_of_verify (hres c rfl).1)

theorem register_makes : (S.register r).Makes (Ask.For (S.bearer r) loud puts) := by
  refine makes_after_identity fun c hw => ?_
  split
  · trivial
  split
  · trivial
  refine Makes.bind (makes_ask ⟨hw, rfl⟩) fun res => ?_
  split <;> trivial

theorem devices_makes : (S.devices r).Makes (Ask.For (S.bearer r) loud puts) := by
  refine makes_after_identity fun c hw => ?_
  refine Makes.bind (makes_ask ⟨hw, trivial⟩) fun res => ?_
  split <;> trivial

theorem revoke_makes (id : GoString) : (S.revoke r id).Makes (Ask.For (S.bearer r) loud puts) := by
  refine makes_after_identity fun c hw => ?_
  split
  · trivial
  refine Makes.bind (makes_ask ⟨hw, trivial⟩) fun found => ?_
  split
  · trivial
  split
  · trivial
  refine Makes.bind (makes_ask ⟨hw, trivial⟩) fun res => ?_
  split <;> trivial

theorem push_makes : (S.push r).Makes (Ask.For (S.bearer r) loud puts) := by
  refine makes_after_identity fun c hw => ?_
  split
  · trivial
  refine Makes.bind (makes_ask ⟨hw, trivial⟩) fun res => ?_
  split
  · trivial
  · exact Makes.bind (makes_ask trivial) fun _ => trivial

theorem pull_makes : (S.pull r).Makes (Ask.For (S.bearer r) loud puts) := by
  refine makes_after_identity fun c hw => ?_
  split
  · trivial
  refine Makes.bind (makes_ask ⟨hw, trivial⟩) fun res => ?_
  split
  · trivial
  · exact Makes.bind (makes_ask trivial) fun _ => trivial

theorem audit_makes : (S.audit r).Makes (Ask.For (S.bearer r) loud puts) := by
  refine makes_after_identity fun c hw => ?_
  split
  · trivial
  refine Makes.bind (makes_ask ⟨hw, trivial⟩) fun res => ?_
  split <;> trivial

theorem upload_makes (id : GoString) :
    (S.upload r id).Makes (Ask.For (S.bearer r) loud (S.Uploads r)) := by
  refine makes_after_identity fun c hw => ?_
  split
  · trivial
  next a ha =>
  refine Makes.bind (makes_ask ⟨hw, id, ha⟩) fun res => ?_
  split <;> trivial

theorem download_makes (id : GoString) :
    (S.download r id).Makes (Ask.For (S.bearer r) loud puts) := by
  refine makes_after_identity fun c hw => ?_
  split
  · trivial
  refine Makes.bind (makes_ask ⟨hw, trivial⟩) fun res => ?_
  split <;> trivial

theorem attachments_makes : (S.attachments r).Makes (Ask.For (S.bearer r) loud puts) := by
  refine makes_after_identity fun c hw => ?_
  split
  · trivial
  refine Makes.bind (makes_ask ⟨hw, trivial⟩) fun res => ?_
  split <;> trivial

theorem metrics_makes : (S.metrics r).Makes (Ask.For (S.bearer r) True puts) := by
  refine makes_after_identity fun c hw => ?_
  split
  · trivial
  · exact Makes.bind (makes_ask trivial) fun _ => trivial

theorem ready_makes : ready.Makes (Ask.For w loud puts) := by
  refine Makes.bind (makes_ask trivial) fun res => ?_
  split <;> trivial

theorem login_makes : (S.login r).Makes (Ask.For w loud puts) := by
  unfold login
  split
  · trivial
  split
  · trivial
  split <;> trivial

theorem events_makes (hello : Option (GoString × GoString)) :
    (S.events r hello).Makes
      (Ask.For ((hello.bind fun h => S.verify h.1 r.now).map Claims.workspace) loud puts) := by
  unfold events
  split
  · trivial
  next token device =>
  split
  · trivial
  next c hc =>
  have hw : ((some (token, device)).bind fun h => S.verify h.1 r.now).map Claims.workspace =
      some c.workspace := by
    rw [Option.bind_some, hc]
    rfl
  refine Makes.bind (makes_ask ⟨hw, trivial⟩) fun found => ?_
  split <;> trivial

/-- The mux stays in the workspace of the claims. -/
theorem mux_makes :
    (S.mux r).Makes (Ask.For (S.workspace r) (r.route = .metrics) (S.Uploads r)) := by
  unfold mux Server.workspace Server.claims
  cases r.route with
  | live => trivial
  | ready => exact ready_makes
  | login => exact login_makes
  | register => exact register_makes
  | devices => exact devices_makes
  | revoke id => exact revoke_makes id
  | push => exact push_makes
  | pull => exact pull_makes
  | audit => exact audit_makes
  | upload id => exact upload_makes id
  | download id => exact download_makes id
  | attachments => exact attachments_makes
  | events hello => exact events_makes hello
  | metrics => exact metrics_makes.mono fun _ c hc => by rwa [eq_self (Route.metrics)]
  | unmatched status => trivial

/-- **What a handler can ask for**, whatever the store answers: methods in the workspace of the
request's claims, an upload only of what the request brings, and the counters only by their
route. -/
theorem handler_makes :
    (S.handler r).Makes (Ask.For (S.workspace r) (r.route = .metrics) (S.Uploads r)) := by
  refine Makes.bind (makes_ask trivial) fun _ => ?_
  split
  · trivial
  split
  · trivial
  split
  · trivial
  exact mux_makes

end Server

end Syncraft.Api
