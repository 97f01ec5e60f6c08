import Syncraft.Domain.Merge

/-!
# Syncraft.Store.Store

The interface of `internal/store/store.go`. A call names its method and arguments; what it
returns is one of the `Result`s. Both adapters answer the same calls, which is what lets
them be compared call by call. The workspace argument every method takes stands outside
(`Memory.call`, `Postgres.call`), and the context argument is left out.
-/

namespace Syncraft.Store

open Domain

/-- A call that may change the store, with its arguments. -/
inductive Write where
  | register (d : Device)
  | revoke (id actor : GoString)
  | push (device actor : GoString) (batch : List (Operation GoString))
  | putAttachment (device actor : GoString) (a : Attachment)
  deriving Repr

/-- A call that only reads, with its arguments. `after` and `limit` are `int64` and `int` in
the source and may be negative. -/
inductive Read where
  | device (id : GoString)
  | pull (after limit : Int)
  | audit (after limit : Int)
  | getAttachment (id : GoString)
  deriving Repr

inductive Call where
  | write (c : Write)
  | read (c : Read)
  deriving Repr

/-- What a successful call returns. -/
inductive Result where
  | done
  | device (d : Device)
  | cursor (n : Nat)
  | page (p : Page)
  | audit (events : List Audit)
  | attachment (a : Attachment)
  deriving DecidableEq, Repr

/-- A write as the handlers make it: a device is registered unrevoked. -/
def Write.Handled : Write → Prop
  | .register d => d.revoked = false
  | _ => True

/-! ### Audit actions -/

def operationAccepted : GoString := go "operation.accepted"

def deviceRegistered : GoString := go "device.registered"

def deviceRevoked : GoString := go "device.revoked"

def attachmentStored : GoString := go "attachment.stored"

end Syncraft.Store
