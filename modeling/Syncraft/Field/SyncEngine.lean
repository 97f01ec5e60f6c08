import Syncraft.Api.Handlers
import Syncraft.Field.LocalStore

/-!
# Syncraft.Field.SyncEngine

`lib/sync/sync_engine.dart`: one device, its local store and its engine. `synchronize` is cut
at its awaits (`Phase`), because that is where saves, the user and the network come in between.
`Phone.Step` has one constructor for each stretch of code between two awaits, and one for each
thing that can happen meanwhile.

A request that leaves the device gets the next number; a step that waits for an answer takes
any answer the server has given to that number, or gives up. Credentials are left out:
whatever token a request carries, the server checks device and actor itself.
-/

namespace Syncraft.Field

open Text JsonText

/-! ### Requests and pages -/

/-- A request of `synchronize`. The body of a push is JSON. -/
inductive Request where
  /-- `POST /api/v1/sync/push` -/
  | push (operations : List (Domain.Operation Literal))
  /-- `GET /api/v1/sync/pull?after=…` -/
  | pull (after : Int)
  deriving DecidableEq, Repr

/-- The push request for a batch. -/
def pushRequest (batch : List Operation) : Request :=
  .push (batch.map fun o => jsonEncode o.toJson)

/-- An entry as the device decodes it. `created` is the stamp the server has put on it, which
the server's model leaves out. -/
def receiveEntry (created : Domain.Entry → DartString) (e : Domain.Entry) : Option PageEntry := do
  let actor ← unitsOf (bytesLiteral e.actor)
  let operation ← jsonDecode (Api.encodeOperation e.operation)
  return { sequence := some e.sequence, actor := some actor, created := some (created e), operation }

/-- A page as the device decodes it. -/
def receivePage (created : Domain.Entry → DartString) (p : Domain.Page) : Option Page := do
  let entries ← p.entries.mapM (receiveEntry created)
  return { entries, cursor := p.cursor, more := p.more }

/-! ### The engine -/

/-- Where `synchronize` stands. `round` counts the rounds the loop at hand has made. -/
inductive Phase where
  | idle
  /-- At the head of the push loop. -/
  | pushing (round : Nat)
  /-- `pending` has returned the batch. -/
  | posting (round : Nat) (batch : List Operation)
  /-- Request number `request` is out. -/
  | posted (round : Nat) (batch : List Operation) (request : Nat)
  /-- The request has failed, and `failed` is to be called. -/
  | recording (batch : List Operation) (e : Exn)
  /-- The server has answered, and `acknowledge` is to be called. -/
  | acknowledging (round : Nat) (batch : List Operation)
  /-- At the head of the pull loop. -/
  | pulling (round : Nat)
  /-- `cursor` has returned. -/
  | getting (round : Nat) (after : Int)
  /-- Request number `request` is out. -/
  | got (round : Nat) (request : Nat)
  /-- The page is decoded, and `applyPage` is to be called. -/
  | applying (round : Nat) (page : Page)
  /-- In `uploadPending`. -/
  | uploading
  /-- In the `catch` block. -/
  | caught (e : Exn)

/-- A device. `busy` is `phase ≠ idle`. -/
structure Phone where
  store : LocalStore
  phase : Phase
  paused : Bool
  connected : Bool
  error : Option Exn
  failures : Nat

/-- A device that has just been set up. -/
def Phone.new : Phone :=
  { store := LocalStore.new, phase := .idle, paused := false, connected := false, error := none,
    failures := 0 }

/-- Does the error end the session? -/
def Exn.unauthorized : Exn → Bool
  | .api status _ => status == 401 || status == 403
  | _ => false

/-- One step of a device other than a save or a restore. `answered k r` says that the server
has given the answer `r` to request `k`, `next` is the number of the next request, and the
requests at the end are those the step sends. -/
inductive Phone.Step (created : Domain.Entry → DartString) (answered : Nat → Api.Reply → Prop)
    (next : Nat) (p : Phone) : Phone → List Request → Prop where
  /-- `synchronize` is called and does not return at once. -/
  | start : p.phase = .idle → p.paused = false → p.connected = true →
      Step created answered next p { p with phase := .pushing 0, error := none } []
  | pending (round : Nat) (batch : List Operation) : p.phase = .pushing round → round < 100 →
      p.store.pending = .ok batch → batch ≠ [] →
      Step created answered next p { p with phase := .posting round batch } []
  /-- Nothing is pending. -/
  | pushed (round : Nat) : p.phase = .pushing round → round < 100 → p.store.pending = .ok [] →
      Step created answered next p { p with phase := .pulling 0 } []
  /-- The hundred rounds are made. -/
  | pushedAll : p.phase = .pushing 100 →
      Step created answered next p { p with phase := .pulling 0 } []
  | pendingThrows (round : Nat) (e : Exn) : p.phase = .pushing round → round < 100 →
      p.store.pending = .error e →
      Step created answered next p { p with phase := .caught e } []
  | post (round : Nat) (batch : List Operation) : p.phase = .posting round batch →
      Step created answered next p { p with phase := .posted round batch next } [pushRequest batch]
  | accepted (round : Nat) (batch : List Operation) (request n : Nat) :
      p.phase = .posted round batch request → answered request (.cursor n) →
      Step created answered next p { p with phase := .acknowledging round batch } []
  | refused (round : Nat) (batch : List Operation) (request status : Nat) (message : String) :
      p.phase = .posted round batch request → answered request (.problem status message) →
      Step created answered next p
        { p with phase := .recording batch (.api status (dart message)) } []
  /-- No answer, or none that can be read. The request may still arrive. -/
  | lost (round : Nat) (batch : List Operation) (request : Nat) :
      p.phase = .posted round batch request →
      Step created answered next p { p with phase := .recording batch .other } []
  | record (batch : List Operation) (e : Exn) (text : DartString) : p.phase = .recording batch e →
      Step created answered next p
        { p with store := p.store.failed (batch.map fun o => o.id) text, phase := .caught e } []
  | acknowledge (round : Nat) (batch : List Operation) : p.phase = .acknowledging round batch →
      Step created answered next p
        { p with store := p.store.acknowledge (batch.map fun o => o.id),
                 phase := .pushing (round + 1) } []
  | cursor (round : Nat) : p.phase = .pulling round → round < 100 →
      Step created answered next p { p with phase := .getting round p.store.cursor } []
  /-- The hundred rounds are made. -/
  | pulledAll : p.phase = .pulling 100 →
      Step created answered next p { p with phase := .uploading } []
  | get (round : Nat) (after : Int) : p.phase = .getting round after →
      Step created answered next p { p with phase := .got round next } [.pull after]
  | page (round request : Nat) (page : Domain.Page) (received : Page) :
      p.phase = .got round request → answered request (.page page) →
      receivePage created page = some received →
      Step created answered next p { p with phase := .applying round received } []
  | refusedPage (round request status : Nat) (message : String) :
      p.phase = .got round request → answered request (.problem status message) →
      Step created answered next p { p with phase := .caught (.api status (dart message)) } []
  | lostPage (round request : Nat) : p.phase = .got round request →
      Step created answered next p { p with phase := .caught .other } []
  | apply (round : Nat) (page : Page) (store : LocalStore) : p.phase = .applying round page →
      p.store.applyPage page = .ok store →
      Step created answered next p
        { p with store, phase := if page.more then .pulling (round + 1) else .uploading } []
  | applyThrows (round : Nat) (page : Page) (e : Exn) : p.phase = .applying round page →
      p.store.applyPage page = .error e →
      Step created answered next p { p with phase := .caught e } []
  | uploaded : p.phase = .uploading →
      Step created answered next p { p with phase := .idle, failures := 0 } []
  | uploadThrows (e : Exn) : p.phase = .uploading →
      Step created answered next p { p with phase := .caught e } []
  | caught (e : Exn) : p.phase = .caught e →
      Step created answered next p
        { p with phase := .idle, error := some e, failures := p.failures + 1,
                 connected := p.connected && !e.unauthorized } []
  /-- `setPaused` -/
  | pause (paused : Bool) : Step created answered next p { p with paused } []
  /-- `login` has succeeded, or `logout`. -/
  | connect (connected : Bool) : Step created answered next p { p with connected } []
  /-- `deviceId`, from `login` or at the end of a restore. -/
  | deviceId (uuid : DartString) :
      Step created answered next p { p with store := (p.store.deviceId uuid).2 } []
  /-- `setMetadata('account', …)`, from `login`. -/
  | bind (account : DartString) :
      Step created answered next p { p with store := { p.store with account := some account } } []
  /-- Attachments are added, fetched or uploaded. -/
  | attachments (rows : List AttachmentRow) :
      Step created answered next p { p with store := { p.store with attachments := rows } } []
  /-- The application is closed and started again. -/
  | restart : Step created answered next p
      { p with phase := .idle, paused := false, connected := false, error := none, failures := 0 } []

end Syncraft.Field
