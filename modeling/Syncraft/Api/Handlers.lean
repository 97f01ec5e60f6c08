import Syncraft.Field.Wire
import Syncraft.Store.Memory

/-!
# Syncraft.Api.Handlers

The two handlers of `internal/api/server.go` that synchronization uses, over one workspace of
the in-memory adapter. `identity` and the middleware come before them and can turn a request
away with other statuses; here they are any refusal at all. The device and the actor that
`identity` has established are arguments.
-/

namespace Syncraft.Api

open Domain JsonText Store

/-- What a handler answers. -/
inductive Reply where
  /-- 200, with the cursor of a push. -/
  | cursor (n : Nat)
  /-- 200, with a page. -/
  | page (p : Page)
  /-- Another status, with the text under `error`. -/
  | problem (status : Nat) (message : String)
  deriving DecidableEq, Repr

/-- `problem` -/
def problem (e : Err) : Reply :=
  match e with
  | .invalid => .problem 400 e.message
  | .conflict => .problem 409 e.message
  | .forbidden => .problem 403 e.message
  | .notFound => .problem 404 e.message
  | .internal => .problem 500 e.message

/-- `push` -/
def push (s : Space) (device actor : GoString) (body : List (Operation Literal)) : Reply × Space :=
  match body.mapM decodeOperation with
  | none => (problem .invalid, s)
  | some operations =>
    match s.push device actor operations with
    | (.ok n, s') => (.cursor n, s')
    | (.error e, s') => (problem e, s')

/-- `pull` -/
def pull (s : Space) (after : Int) : Reply :=
  match s.pull after 100 with
  | .ok page => .page page
  | .error e => problem e

theorem problem_ne_cursor (e : Err) (n : Nat) : problem e ≠ .cursor n := by
  cases e <;> simp [problem]

theorem problem_ne_page (e : Err) (p : Page) : problem e ≠ .page p := by
  cases e <;> simp [problem]

end Syncraft.Api
