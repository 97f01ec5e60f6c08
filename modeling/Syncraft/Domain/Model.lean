import Syncraft.Library.Text

/-!
# Syncraft.Domain.Model

The records of `internal/domain/model.go`. A Go `string` is its bytes (`GoString`);
`go "…"` writes the bytes of a source literal. Slices are lists, and `nil` is the empty
list. Sequence numbers and cursors count entries from one, so they are natural numbers.

The `Created` stamps are left out: the wall clock is read when a row is stored, and no
modelled function reads a stamp back.

An operation is generic in its string type, because the same record is held on both ends
of the wire: with `GoString` fields on the server, with UTF-16 fields in the field
application, and with JSON literals in between.
-/

namespace Syncraft

open Text

/-- A Go string: any byte sequence, usually but not always UTF-8. -/
abbrev GoString := List UInt8

/-- The bytes of a source literal. -/
def go (s : String) : GoString := utf8Encode s.toList

namespace Domain

/-- One immutable edit of one field of one record. `parents` names the edits of that field
its author had seen. -/
structure Operation (σ : Type) where
  id : σ
  record : σ
  field : σ
  value : σ
  parents : List σ
  deriving DecidableEq, Repr

/-- Rewrite every string of an operation. -/
def Operation.map {σ τ : Type} (f : σ → τ) (o : Operation σ) : Operation τ :=
  { id := f o.id, record := f o.record, field := f o.field, value := f o.value,
    parents := o.parents.map f }

/-- Rewrite every string of an operation by a function that may fail. -/
def Operation.traverse {σ τ : Type} (f : σ → Option τ) (o : Operation σ) :
    Option (Operation τ) := do
  let id ← f o.id
  let record ← f o.record
  let field ← f o.field
  let value ← f o.value
  let parents ← o.parents.mapM f
  return { id, record, field, value, parents }

/-- Every string of an operation. -/
def Operation.strings {σ : Type} (o : Operation σ) : List σ :=
  o.id :: o.record :: o.field :: o.value :: o.parents

/-- An operation as the server log holds it. -/
structure Entry where
  sequence : Nat
  device : GoString
  actor : GoString
  operation : Operation GoString
  deriving DecidableEq, Repr

structure Device where
  id : GoString
  name : GoString
  actor : GoString
  revoked : Bool
  deriving DecidableEq, Repr

structure Audit where
  sequence : Nat
  actor : GoString
  action : GoString
  target : GoString
  deriving DecidableEq, Repr

structure Attachment where
  id : GoString
  record : GoString
  name : GoString
  type : GoString
  sha256 : GoString
  size : Nat
  data : List UInt8
  deriving DecidableEq, Repr

structure Page where
  entries : List Entry
  cursor : Nat
  more : Bool
  deriving DecidableEq, Repr

/-- The errors the server distinguishes. `internal` is any failure of the database: the
API answers it with "internal service error". -/
inductive Err where
  | conflict
  | forbidden
  | notFound
  | invalid
  | internal
  deriving DecidableEq, Repr

/-- The text of an error, as `problem` sends it. -/
def Err.message : Err → String
  | .conflict => "immutable ID conflict"
  | .forbidden => "access denied"
  | .notFound => "not found"
  | .invalid => "invalid operation or request"
  | .internal => "internal service error"

end Domain

end Syncraft
