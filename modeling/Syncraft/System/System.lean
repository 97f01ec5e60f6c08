import Syncraft.Field.DemoSeed
import Syncraft.Field.Recovery
import Syncraft.Field.SyncEngine
import Syncraft.Store.MemoryInvariant

/-!
# Syncraft.System.System

The whole: the devices of one workspace, its server, and the network between them. There may
be any number of devices, of any type of names.

The network loses, delays, repeats and reorders. Every request ever sent stays in `requests`
and may reach the server any number of times, at any later moment, or never; every answer stays
in `replies`, and the device that asked takes one of them or none. Before a request reaches
its handler it may be turned away (`refuse`): a token that has expired, a device that was
revoked, a limit that is exceeded.

Saves and exported bundles are remembered (`saved`, `bundles`) for the statements made
about them, and so that a bundle can be restored elsewhere.
-/

namespace Syncraft

open Syncraft.Field

/-- The state of everything. -/
structure System (δ : Type) where
  server : Store.Space
  phones : δ → Phone
  /-- The operations each device has saved or restored. -/
  saved : δ → List Operation
  requests : List Request
  /-- Answers, under the number of the request. -/
  replies : List (Nat × Api.Reply)
  bundles : List Payload

namespace System

variable {δ : Type}

/-- Before anything has happened. -/
def new : System δ :=
  { server := Store.Space.new, phones := fun _ => Phone.new, saved := fun _ => [], requests := [],
    replies := [], bundles := [] }

/-- The edits that users make. An ID is never used for two contents, values survive
transport, and the demonstration's edits are among them. -/
structure Edits (made : Operation → Prop) : Prop where
  distinct : ∀ a b : Operation, made a → made b → a.id = b.id → a.equivalent b = true
  survives : ∀ a : Operation, made a → Text.WellFormed a.value
  demo : ∀ ops, demoSeed = .ok ops → ∀ o ∈ ops, made o

/-- What is the same in every run: the edits made, the checksum, and the stamps the server
puts on entries. -/
structure Setting where
  made : Operation → Prop
  sha256 : List UInt8 → DartString
  created : Domain.Entry → DartString

variable [DecidableEq δ]

/-- The device has saved operations, or has restored them. -/
def store (s : System δ) (i : δ) (store : LocalStore) (ops : List Operation) : System δ :=
  { s with
    phones := Function.update s.phones i { s.phones i with store }
    saved := Function.update s.saved i (s.saved i ++ ops) }

/-- One step of the system. -/
inductive Step (w : Setting) (s : System δ) : System δ → Prop where
  /-- `LocalStore.save`, of edits. -/
  | save (i : δ) (batch : List Operation) (now : Operation → DartString) (store : LocalStore) :
      (∀ o ∈ batch, w.made o) → (s.phones i).store.save batch now = .ok store →
      Step w s (s.store i store batch)
  /-- The `save` of `loadDemo`, whatever has happened since it looked at the table. -/
  | seed (i : δ) (ops : List Operation) (now : Operation → DartString) (store : LocalStore) :
      demoSeed = .ok ops → (s.phones i).store.save ops now = .ok store →
      Step w s (s.store i store ops)
  /-- `RecoveryBundle.export` -/
  | exportBundle (i : δ) (payload : Payload) :
      RecoveryBundle.exportBundle (s.phones i).store = .ok payload →
      Step w s { s with bundles := s.bundles ++ [payload] }
  /-- `RecoveryBundle.restore`, on any device. -/
  | restore (i : δ) (payload : Payload) (now : Operation → DartString) (store : LocalStore) :
      payload ∈ s.bundles →
      RecoveryBundle.restore w.sha256 (s.phones i).store payload now = .ok store →
      Step w s (s.store i store store.ops)
  /-- A step of a device's engine. -/
  | phone (i : δ) (p : Phone) (sent : List Request) :
      Phone.Step w.created (fun k r => (k, r) ∈ s.replies) s.requests.length (s.phones i) p sent →
      Step w s { s with phones := Function.update s.phones i p, requests := s.requests ++ sent }
  /-- A push request reaches its handler, from a device and an actor `identity` has
  established. -/
  | push (k : Nat) (body : List (Domain.Operation JsonText.Literal)) (device actor : GoString) :
      s.requests[k]? = some (.push body) →
      Step w s
        { s with
          server := (Api.push s.server device actor body).2
          replies := s.replies ++ [(k, (Api.push s.server device actor body).1)] }
  /-- A pull request reaches its handler. -/
  | pull (k : Nat) (after : Int) : s.requests[k]? = some (.pull after) →
      Step w s { s with replies := s.replies ++ [(k, Api.pull s.server after)] }
  /-- A request is turned away before it reaches its handler. -/
  | refuse (k status : Nat) (message : String) : k < s.requests.length →
      Step w s { s with replies := s.replies ++ [(k, .problem status message)] }
  /-- A device is registered or revoked, or an attachment is uploaded. -/
  | other (c : Store.Write) : c.Handled → (∀ device actor batch, c ≠ .push device actor batch) →
      Step w s { s with server := (s.server.write c).2 }

/-- A state that some steps lead to. -/
def Reachable (w : Setting) (s : System δ) : Prop := Relation.ReflTransGen (Step w) new s

end System

end Syncraft
