import Syncraft.Api.Exchange
import Syncraft.Field.Projection
import Syncraft.Field.Requests
import Syncraft.System.System

/-!
# Syncraft.System.Deployment

The whole as it runs. A device has an engine with its client, its credentials, its logins and its
uploads. Requests and responses are HTTP with JSON in it. The server is all of its workspaces; its
handlers make one call after the other, and those of other requests come in between.

`Syncraft.System.System` leaves most of this out. `Syncraft.System.Refinement` shows that nothing
is lost by that.

The network loses, delays, repeats and reorders. A push or a pull that was sent may arrive any
number of times and a response may come or not. Any other request, of anybody, may arrive at any
time and get any outcome; it must only be no push to the workspace: the devices are the ones that
edit there.
-/

namespace Syncraft

open Domain Library Api
open Syncraft.Field
open Syncraft.Field.LocalStore (Call)

/-- The state of everything. -/
structure Deployment (δ ι : Type) where
  /-- A session ends with the number of the request it was for, if it is one of `requests`. -/
  server : Running ι Backend Ask (Option Nat × Response)
  engines : δ → Engine
  /-- The number of the push or pull that a device has sent last. -/
  awaited : δ → Nat
  /-- The operations each device has saved or restored. -/
  saved : δ → List Operation
  /-- The pushes and pulls that were sent, as they left. -/
  requests : List Api.Request
  /-- Responses, under the number of the request. -/
  responses : List (Nat × Response)
  bundles : List (List UInt8)

namespace Deployment

/-- What is the same in every run. -/
structure Setting where
  server : Server
  /-- The workspace of the devices. -/
  workspace : GoString
  /-- The address of the server. -/
  base : DartString
  platform : Platform
  /-- The edits that users make. -/
  made : Operation → Prop
  /-- The time that the JSON of an entry tells. -/
  stamp : Domain.Entry → DartString

/-- The setting of the system that is left when the details are. -/
def Setting.outline (F : Setting) : System.Setting :=
  { made := F.made, sha256 := F.platform.sha256, created := F.stamp }

/-- What is assumed: of the edits, of the platform, of the times, and of the server's JSON. -/
structure Setting.Sound (F : Setting) : Prop where
  edits : System.Edits F.made
  platform : F.platform.Sound
  stamps : ∀ e, Text.WellFormed (F.stamp e)
  decodes : ∀ batch, F.server.packages.decodePush (pushBody batch) =
    some (batch.map Operation.toGo)

/-! ### The server -/

/-- A request as it arrives, with what the server finds out for itself. -/
def arrived (r : Api.Request) (origin : GoString) (limited : Bool) (now : Nat) : Api.Request :=
  { r with origin, limited, now }

/-- The programs that the server may start. The token of a push or a pull is for the workspace, if
it is valid. -/
inductive Setting.Starts (F : Setting) (requests : List Api.Request) :
    Program Ask (Option Nat × Response) → Prop where
  /-- A push or a pull of a device arrives. -/
  | sent (k : Nat) (r : Api.Request) (origin : GoString) (limited : Bool) (now : Nat) :
      requests[k]? = some r →
      (∀ w, F.server.bearer (arrived r origin limited now) = some w → w = F.workspace) →
      Starts F requests
        (F.server.handler (arrived r origin limited now) >>= fun response =>
          pure (some k, response))
  /-- Any other request arrives. -/
  | other (r : Api.Request) : (r.route = .push → F.server.bearer r ≠ some F.workspace) →
      Starts F requests (F.server.handler r >>= fun response => pure (none, response))

/-! ### The devices -/

/-- `headers`, and nothing that only the server knows. -/
def carried (s : Engine) : Carried :=
  { authorization := match s.token with
      | some token => go "Bearer " ++ toGo token
      | none => []
    device := (s.device.map toGo).getD []
    origin := [], limited := false, now := 0 }

/-- The push or pull that leaves with an event of the engine. -/
def leaves (s : Engine) : Engine.Phase → Option Api.Request
  | .posting _ batch => some (ApiClient.push (carried s) batch)
  | .getting _ after => some (ApiClient.pull (carried s) after)
  | _ => none

/-- The phases in which the outcome of a push or a pull is awaited. -/
def waits : Engine.Phase → Bool
  | .posted _ _ | .got _ => true
  | _ => false

/-- What can come of request number `k`. -/
inductive Setting.Comes (F : Setting) (responses : List (Nat × Response)) (k : Nat) :
    Outcome → Prop where
  | lost : Comes F responses k .lost
  /-- What came is no JSON. -/
  | garbled (status : Nat) (body : DartString) : Json.decode body = none →
      Comes F responses k (.response status body)
  /-- A response to the request. A double holds the numbers in it. -/
  | response (response : Response) (json : Json) (body : DartString) :
      (k, response) ∈ responses → bodyJson F.stamp response.body = some json →
      Json.decode body = some json → (∀ page, response.body = .page page → ExactPage page) →
      Comes F responses k (.response response.status body)

/-- The calls that the rest of the application makes to the store. Edits are saved, and bundles
restored that some device has exported. -/
def Allowed (F : Setting) (bundles : List (List UInt8)) : Call → Prop
  | .save batch _ => ∀ o ∈ batch, F.made o
  | .restore bytes _ _ => bytes ∈ bundles
  | .acknowledge _ | .failed _ _ | .applyPage _ => False
  | .deviceId _ | .add _ _ _ _ _ | .confirmUpload _ _ | .storeFetched _ _ _ => True

/-- The operations that a call has saved or restored. -/
def bringing (s' : LocalStore) : Call → List Operation
  | .save batch _ => batch
  | .restore _ _ _ => s'.ops
  | _ => []

/-- The operations that a call saves or restores, unless it throws. -/
def brought (F : Setting) (s : LocalStore) (c : Call) : List Operation :=
  match s.call F.platform.sha256 c with
  | .ok s' => bringing s' c
  | .error _ => []

variable {δ ι : Type}

/-- Before anything has happened. -/
def new (F : Setting) : Deployment δ ι :=
  { server := Running.new Backend.new, engines := fun _ => Engine.new F.base LocalStore.new,
    awaited := fun _ => 0, saved := fun _ => [], requests := [], responses := [], bundles := [] }

variable [DecidableEq δ] [DecidableEq ι]

/-- One step of the whole. -/
inductive Step (F : Setting) (d : Deployment δ ι) : Deployment δ ι → Prop where
  /-- A session of the server starts, or makes a call, or is over. -/
  | serve (server : Running ι Backend Ask (Option Nat × Response)) :
      Running.Step backend (F.Starts d.requests) d.server server → Step F d { d with server }
  /-- A session has come to its response, and it is sent. -/
  | respond (i : ι) (k : Nat) (response : Response) :
      d.server.sessions i = some (.done (some k, response)) →
      Step F d { d with responses := d.responses ++ [(k, response)] }
  /-- A call of the store. -/
  | call (i : δ) (c : Call) : Allowed F d.bundles c →
      Step F d
        { d with
          engines := Function.update d.engines i ((d.engines i).step F.platform (.call c))
          saved := Function.update d.saved i
            (d.saved i ++ brought F (d.engines i).store c) }
  /-- `export` -/
  | exportBundle (i : δ) (bytes : List UInt8) :
      RecoveryBundle.exportBytes F.platform.sha256 (d.engines i).store = .ok bytes →
      Step F d { d with bundles := d.bundles ++ [bytes] }
  /-- The user, a timer, a hint, or a login that goes on. -/
  | event (i : δ) (e : Engine.Event) : e.Outer →
      Step F d
        { d with engines := Function.update d.engines i ((d.engines i).step F.platform e) }
  /-- A `synchronize` goes on. -/
  | run (i : δ) (n : Nat) (phase : Engine.Phase) (o : Outcome) :
      (d.engines i).runs[n]? = some phase →
      (waits phase = true → F.Comes d.responses (d.awaited i) o) →
      Step F d
        { d with
          engines := Function.update d.engines i ((d.engines i).step F.platform (.run n o))
          requests := d.requests ++ (leaves (d.engines i) phase).toList
          awaited := Function.update d.awaited i
            (phase.number (d.awaited i) d.requests.length) }
  /-- The application is closed and started again. -/
  | restart (i : δ) :
      Step F d
        { d with
          engines := Function.update d.engines i (Engine.new F.base (d.engines i).store) }

/-- A state that some steps lead to. -/
def Reachable (F : Setting) (d : Deployment δ ι) : Prop :=
  Relation.ReflTransGen (Step F) (new F) d

end Deployment

end Syncraft
