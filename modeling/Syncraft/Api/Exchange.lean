import Syncraft.Api.Answers
import Syncraft.Api.Handlers

/-!
# Syncraft.Api.Exchange

How a push or a pull is answered, when other requests come in between its calls. There is one call
that decides (`handler_exchanges`), and its answer at its moment is the reply of the handler as
`Syncraft.Api.Handlers` has it, which is given at once.
-/

namespace Syncraft.Api

open Domain Store Library Program

/-- The call is not one that a push or a pull is answered by. -/
def Ask.aside : (β : Type) → Ask β → Bool
  | _, .store _ (.pull _ _) => false
  | _, a => Ask.quiet _ a

/-- The response that carries a reply. -/
def responseOf : Reply → Response
  | .cursor n => { status := 200, body := .cursor n }
  | .page p => { status := 200, body := .page p }
  | .problem status message => { status, body := .error message }

theorem responseOf_problem (e : Err) : responseOf (problem e) = failure e := by
  cases e <;> rfl

/-- What is not one of them looks only. -/
theorem quiet_of_aside {β : Type} {a : Ask β} (h : Ask.aside β a = true) : Ask.quiet β a = true := by
  cases a with
  | store w c =>
      cases c with
      | pull => rfl
      | _ => exact h
  | _ => rfl

namespace Server

variable {S : Server} {r : Request}

/-- The response to a push or a pull, by the call that decides it. -/
def Decides (S : Server) (r : Request) : (β : Type) → Ask β → β → Response → Prop
  | _, .store w (.push _ _ operations), res, response =>
    S.bearer r = some w ∧ r.route = .push ∧ decode S.packages.decodePush r = some operations ∧
      response = answered res fun n => { status := 200, body := .cursor n }
  | _, .store w (.pull after limit), res, response =>
    S.bearer r = some w ∧ r.route = .pull ∧ cursor r = .ok after ∧ limit = 100 ∧
      response = answered res fun page => { status := 200, body := .page page }
  | _, _, _, _ => False

theorem push_exchanges (hroute : r.route = .push) :
    (S.push r).Once Ask.aside Response.Refuses (S.Decides r) := by
  refine once_after_identity (fun _ _ => rfl) (fun _ hrefuses => hrefuses) fun c hverify => ?_
  have hbearer := bearer_of_verify hverify
  split
  · exact failure_refuses _
  next operations hbody =>
  refine once_ask rfl fun res => ?_
  cases res with
  | error e => exact ⟨trivial, hbearer, hroute, hbody, rfl⟩
  | ok n => exact ⟨⟨rfl, fun _ => trivial⟩, fun _ => ⟨hbearer, hroute, hbody, rfl⟩⟩

theorem pull_exchanges (hroute : r.route = .pull) :
    (S.pull r).Once Ask.aside Response.Refuses (S.Decides r) := by
  refine once_after_identity (fun _ _ => rfl) (fun _ hrefuses => hrefuses) fun c hverify => ?_
  have hbearer := bearer_of_verify hverify
  split
  · exact failure_refuses _
  next after hafter =>
  refine once_ask rfl fun res => ?_
  cases res with
  | error e => exact ⟨trivial, hbearer, hroute, hafter, rfl, rfl⟩
  | ok page => exact ⟨⟨rfl, fun _ => trivial⟩, fun _ => ⟨hbearer, hroute, hafter, rfl, rfl⟩⟩

/-- **A push or a pull is turned away, or one call decides its response.** -/
theorem handler_exchanges (hoptions : r.options = false) (hroute : r.route = .push ∨ r.route = .pull) :
    (S.handler r).Once Ask.aside Response.Refuses (S.Decides r) := by
  refine Once.bind (Q := fun _ => True) (makes_ask rfl) (fun _ => trivial) fun _ _ => ?_
  rw [hoptions]
  split
  · exact ⟨403, _, by decide, rfl⟩
  split
  · next h => cases h
  split
  · exact ⟨429, _, by decide, rfl⟩
  unfold mux
  rcases hroute with hpush | hpull
  · rw [hpush]
    exact push_exchanges hpush
  · rw [hpull]
    exact pull_exchanges hpull

end Server

/-! ### Other requests -/

/-- The call pushes. -/
def Ask.pushes : (β : Type) → Ask β → Bool
  | _, .store _ (.push _ _ _) => true
  | _, _ => false

/-- A call as handlers make it, other than a push to the workspace. -/
def Ask.Elsewhere (S : Server) (w : GoString) : (β : Type) → Ask β → Prop
  | _, .store w' (.push _ _ _) => w' ≠ w
  | _, .store _ c => c.Within S.Accepts
  | _, _ => True

theorem not_pushes_of_quiet {β : Type} {a : Ask β} (h : Ask.quiet β a = true) :
    Ask.pushes β a = false := by
  cases a with
  | store w c =>
      cases c with
      | push => cases h
      | _ => rfl
  | _ => rfl

namespace Server

variable {S : Server} {r : Request}

/-- Only the handler of pushes pushes. -/
theorem mux_pushes (hroute : r.route ≠ .push) :
    (S.mux r).Makes fun β a => Ask.pushes β a = false := by
  have hlooks : ∀ β a, Quiet β a → Ask.pushes β a = false := fun _ _ h => not_pushes_of_quiet h
  have hquiet : ∀ {x : Handler Response}, x.Makes Quiet → x.Makes fun β a => Ask.pushes β a = false :=
    fun hx => hx.mono hlooks
  unfold mux
  cases hr : r.route with
  | push => exact absurd hr hroute
  | register =>
      refine makes_past_identity hlooks fun c => ?_
      split
      · trivial
      split
      · trivial
      refine Makes.bind (makes_ask rfl) fun res => ?_
      split <;> trivial
  | revoke id =>
      refine makes_past_identity hlooks fun c => ?_
      split
      · trivial
      refine Makes.bind (makes_ask rfl) fun found => ?_
      split
      · trivial
      split
      · trivial
      refine Makes.bind (makes_ask rfl) fun res => ?_
      split <;> trivial
  | upload id =>
      refine makes_past_identity hlooks fun c => ?_
      split
      · trivial
      refine Makes.bind (makes_ask rfl) fun res => ?_
      split <;> trivial
  | live => trivial
  | ready => exact hquiet ready_quiet
  | login => exact hquiet login_quiet
  | devices => exact hquiet devices_quiet
  | pull => exact hquiet pull_quiet
  | audit => exact hquiet audit_quiet
  | download id => exact hquiet (download_quiet id)
  | attachments => exact hquiet attachments_quiet
  | events hello => exact hquiet (events_quiet hello)
  | metrics => exact hquiet metrics_quiet
  | unmatched status => trivial

/-- **A request that is no push to the workspace pushes nothing there.** -/
theorem handler_elsewhere {w : GoString} (h : r.route = .push → S.bearer r ≠ some w) :
    (S.handler r).Makes (Ask.Elsewhere S w) := by
  by_cases hroute : r.route = .push
  · have hworkspace : S.workspace r = S.bearer r := by
      rw [workspace, claims, hroute]
      rfl
    refine ((handler_makes (S := S) (r := r)).and handler_of).mono fun β a ha => ?_
    cases a with
    | store w' c =>
        cases c with
        | push =>
            rintro rfl
            exact h hroute (hworkspace ▸ ha.1.1)
        | _ => exact ha.2
    | _ => trivial
  · have hpushes : (S.handler r).Makes fun β a => Ask.pushes β a = false := by
      refine Makes.bind (makes_ask rfl) fun _ => ?_
      split
      · trivial
      split
      · trivial
      split
      · trivial
      exact mux_pushes hroute
    refine (hpushes.and handler_of).mono fun β a ha => ?_
    cases a with
    | store w' c =>
        cases c with
        | push => cases ha.1
        | _ => exact ha.2
    | _ => trivial

end Server

/-! ### The reply -/

section Reply

variable {b : Backend} {w : GoString}

/-- What a push is answered at its moment is what the handler replies there, and the workspace is as
that leaves it. -/
theorem push_decides (device actor : GoString) {operations : List (Operation GoString)}
    {body : List (Operation JsonText.Literal)} (hbody : body.mapM decodeOperation = some operations) :
    answered (backend.answer (.store w (.push device actor operations)) b).1
        (fun n => { status := 200, body := .cursor n }) =
      responseOf (push (b.store w) device actor body).1 ∧
    (backend.answer (.store w (.push device actor operations)) b).2.store w =
      (push (b.store w) device actor body).2 := by
  rw [space_of_answer, push, hbody]
  show answered ((b.store w).push device actor operations).1 _ = _ ∧
    ((b.store w).push device actor operations).2 = _
  dsimp only
  rcases (b.store w).push device actor operations with ⟨e | n, s⟩
  · exact ⟨(responseOf_problem e).symm, rfl⟩
  · exact ⟨rfl, rfl⟩

theorem pull_decides (after : Int) :
    answered (backend.answer (.store w (.pull after 100)) b).1
        (fun page => { status := 200, body := .page page }) =
      responseOf (pull (b.store w) after) := by
  rw [pull]
  show answered ((b.store w).pull after 100) _ = _
  cases (b.store w).pull after 100 with
  | error e => exact (responseOf_problem e).symm
  | ok page => rfl

end Reply

/-! ### Undisturbed -/

namespace Server

variable {S : Server} {r : Request} {c : Claims} {b : Backend}

/-- `identity` lets pass whom it should. -/
theorem run_identity {edit device : Bool} (hverify : S.verify (trimBearer r.authorization) r.now = some c)
    (hedits : edit = true → c.Edits)
    (hactive : device = true → (b.store c.workspace).active r.device c.subject = true) :
    (S.identity r edit device).run backend b = (.ok c, b) := by
  have hpassed : (edit && c.role != go "editor" && c.role != go "admin") = false := by
    cases edit with
    | false => rfl
    | true => rcases hedits rfl with hrole | hrole <;> simp [hrole]
  rw [identity, hverify]
  dsimp only
  rw [hpassed, if_neg Bool.false_ne_true]
  cases device with
  | false => rfl
  | true =>
      rw [if_pos rfl, run_bind, run_device, owns_device, hactive rfl]
      rfl

/-- The middleware counts a request that it lets pass. -/
theorem run_handler (horigin : r.origin = []) (hoptions : r.options = false)
    (hlimited : r.limited = false) (b : Backend) :
    (S.handler r).run backend b = (S.mux r).run backend (backend.answer .countRequest b).2 := by
  rw [handler, horigin, hoptions, hlimited, run_bind, run_ask]
  rfl

/-- A push that the store takes, from its request to its response. -/
theorem serve_push (horigin : r.origin = []) (hoptions : r.options = false)
    (hlimited : r.limited = false) (hroute : r.route = .push)
    (hverify : S.verify (trimBearer r.authorization) r.now = some c) (hedits : c.Edits)
    (hactive : (b.store c.workspace).active r.device c.subject = true)
    {operations : List (Operation GoString)}
    (hdecode : decode S.packages.decodePush r = some operations) {n : Nat} {s : Space}
    (hpush : (b.store c.workspace).push r.device c.subject operations = (.ok n, s)) :
    (S.serve r b).1 = { status := 200, body := .cursor n } ∧
      (S.serve r b).2.store = Function.update b.store c.workspace s := by
  have hidentity : (S.identity r true true).run backend (backend.answer .countRequest b).2 =
      (.ok c, (backend.answer .countRequest b).2) := run_identity hverify (fun _ => hedits) fun _ => hactive
  have hanswer : backend.answer (.store c.workspace (.push r.device c.subject operations))
      (backend.answer .countRequest b).2 = (.ok n,
        { (backend.answer .countRequest b).2 with store := Function.update b.store c.workspace s }) := by
    obtain rfl : ((b.store c.workspace).push r.device c.subject operations).2 = s := by rw [hpush]
    have hresult : ((b.store c.workspace).push r.device c.subject operations).1 = .ok n := by
      rw [hpush]
    exact Prod.ext hresult rfl
  rw [serve, run_handler horigin hoptions hlimited, mux, hroute]
  dsimp only
  rw [push, run_bind, hidentity]
  dsimp only
  rw [hdecode]
  dsimp only
  rw [run_bind, run_ask, hanswer]
  exact ⟨rfl, rfl⟩

/-- A pull, from its request to its response. -/
theorem serve_pull (horigin : r.origin = []) (hoptions : r.options = false)
    (hlimited : r.limited = false) (hroute : r.route = .pull)
    (hverify : S.verify (trimBearer r.authorization) r.now = some c)
    (hactive : (b.store c.workspace).active r.device c.subject = true) {after : Int}
    (hcursor : cursor r = .ok after) {page : Page}
    (hpull : (b.store c.workspace).pull after 100 = .ok page) :
    (S.serve r b).1 = { status := 200, body := .page page } ∧ (S.serve r b).2.store = b.store := by
  have hidentity : (S.identity r false true).run backend (backend.answer .countRequest b).2 =
      (.ok c, (backend.answer .countRequest b).2) :=
    run_identity hverify (fun h => absurd h Bool.false_ne_true) fun _ => hactive
  have hanswer : backend.answer (.store c.workspace (.pull after 100))
      (backend.answer .countRequest b).2 = (.ok page, (backend.answer .countRequest b).2) := by
    show ((b.store c.workspace).pull after 100,
      ({ (backend.answer .countRequest b).2 with
        store := Function.update b.store c.workspace (b.store c.workspace) } : Backend)) = _
    rw [hpull, Function.update_eq_self]
    rfl
  rw [serve, run_handler horigin hoptions hlimited, mux, hroute]
  dsimp only
  rw [pull, run_bind, hidentity]
  dsimp only
  rw [hcursor]
  dsimp only
  rw [run_bind, run_ask, hanswer]
  exact ⟨rfl, rfl⟩

end Server

end Syncraft.Api
