import Syncraft.Field.StoreRun
import Syncraft.Field.SyncEngine

/-!
# Syncraft.Field.Engine

`lib/sync/sync_engine.dart` with its credentials, its flags and the uploads, over
`lib/sync/api_client.dart`. `login` and `synchronize` are cut at their awaits, and any number of
their calls are at one at a time: `advance` and `advanceLogin` say what a call does from one await
to the next, and `Step` what can happen in the application.

The server is not modelled here. A request gets any outcome.
-/

namespace Syncraft.Field

open LocalStore (Call ok_bind ok_of_bind)
open RecoveryBundle (asMap asList asString fieldsOf)

/-- What comes of a request: a response, or a timeout or an error of the transport. -/
inductive Outcome where
  | response (status : Nat) (body : DartString)
  | lost
  deriving DecidableEq

/-- What the code uses of the platform. -/
structure Platform where
  /-- `sha256.convert(…).toString()` -/
  sha256 : List UInt8 → DartString
  /-- `as int` -/
  asInt : Json.Number → Option Int
  /-- The integer that a number is equal to. -/
  sameInt : Json.Number → Option Int
  /-- What the database takes for a value that it can store. -/
  column : Json → Option DartString
  /-- `toString` of a value that was decoded. -/
  text : Json → DartString
  /-- `toString` of what was thrown. -/
  describe : Exn → DartString

namespace Platform

/-! ### Responses -/

/-- The message of an `ApiFailure`. -/
def message (p : Platform) : Json → DartString
  | .obj members =>
    match Json.member members (dart "error") with
    | none | some .null => dart "Request failed"
    | some j => p.text j
  | _ => dart "Request failed"

/-- `_decode`, awaited. -/
def result (p : Platform) : Outcome → Except Exn Json
  | .response status body =>
    match Json.decode body with
    | none => .error .other
    | some json =>
      if status < 200 ∨ status ≥ 300 then .error (.api status (p.message json)) else .ok json
  | .lost => .error .other

/-- `response['token'] as String` -/
def tokenOf (json : Json) : Except Exn DartString := do
  let response ← asMap (some json)
  asString (Json.member response (dart "token"))

/-- A value for a column of text. -/
def columnOf (p : Platform) : Option Json → Except Exn (Option DartString)
  | none | some .null => .ok none
  | some j =>
    match p.column j with
    | some s => .ok (some s)
    | none => .error .database

/-- The casts of an entry of a page. -/
def entryOf (p : Platform) (json : Json) : Except Exn PageEntry := do
  let entry ← asMap (some json)
  let sequence :=
    match Json.member entry (dart "sequence") with
    | some (.num n) => p.sameInt n
    | _ => none
  let operation ← fieldsOf ((Json.member entry (dart "operation")).getD .null)
  let actor ← p.columnOf (Json.member entry (dart "actor"))
  let created ← p.columnOf (Json.member entry (dart "created"))
  return { sequence, actor, created, operation }

/-- The casts of a page. Whatever throws, nothing has been stored. -/
def pageOf (p : Platform) (json : Json) : Except Exn Page := do
  let page ← asMap (some json)
  let rawEntries ← asList (Json.member page (dart "entries"))
  let cursor ←
    match Json.member page (dart "cursor") with
    | some (.num n) =>
      match p.asInt n with
      | some cursor => .ok cursor
      | none => .error .other
    | _ => .error .other
  let entries ← rawEntries.mapM p.entryOf
  let more :=
    match Json.member page (dart "more") with
    | some (.bool more) => more
    | _ => false
  return { entries, cursor, more }

/-- The hash that `uploadPending` reads of a result. -/
def hashOf (json : Json) : Except Exn (Option DartString) := do
  let result ← asMap (some json)
  return match Json.member result (dart "sha256") with
    | some (.str sha256) => some sha256
    | _ => none

end Platform

namespace Engine

/-! ### Requests -/

/-- A request of the engine. -/
inductive Request where
  /-- `POST /api/v1/login` -/
  | login (username password : DartString)
  /-- `POST /api/v1/devices` -/
  | device (id : DartString)
  /-- `POST /api/v1/sync/push` -/
  | push (batch : List Operation)
  /-- `GET /api/v1/sync/pull?after=…` -/
  | pull (after : Int)
  /-- `POST /api/v1/attachments/…` -/
  | upload (row : AttachmentRow)
  deriving DecidableEq

/-- Where a `synchronize` stands, past its guard. -/
inductive Phase where
  /-- At the head of the push loop. -/
  | pushing (round : Nat)
  /-- `pending` has returned the batch. -/
  | posting (round : Nat) (batch : List Operation)
  /-- The push is out. -/
  | posted (round : Nat) (batch : List Operation)
  /-- It has failed, and `failed` is to be called. -/
  | recording (batch : List Operation) (e : Exn)
  /-- It has succeeded, and `acknowledge` is to be called. -/
  | acknowledging (round : Nat) (batch : List Operation)
  /-- At the head of the pull loop. -/
  | pulling (round : Nat)
  /-- `cursor` has returned. -/
  | getting (round : Nat) (after : Int)
  /-- The pull is out. -/
  | got (round : Nat)
  /-- The page is there, and `applyPage` is to be called. -/
  | applying (round : Nat) (page : Page)
  /-- At the query of `uploadPending`. -/
  | uploading
  /-- At the head of its loop. -/
  | sending (rows : List AttachmentRow)
  /-- The upload of the row is out. -/
  | sent (row : AttachmentRow) (rest : List AttachmentRow)
  /-- It has succeeded, and the row is to be marked. -/
  | marking (row : AttachmentRow) (rest : List AttachmentRow)
  /-- In the `catch` block. -/
  | caught (e : Exn)

/-- The request that leaves next, before anything else is awaited. -/
def Phase.sends : Phase → Option Request
  | .posting _ batch => some (.push batch)
  | .getting _ after => some (.pull after)
  | .sending (row :: _) => some (.upload row)
  | _ => none

/-- Where a `login` stands. -/
inductive LoginPhase where
  /-- At `metadata('account')`. -/
  | reading
  /-- It has returned. -/
  | read (existing : Option DartString)
  /-- The login is out. -/
  | posted
  /-- At `deviceId`, with the token. -/
  | identifying
  /-- It has returned. -/
  | identified (id : DartString)
  /-- The registration is out. -/
  | registering
  /-- It has succeeded, and the account is to be set. -/
  | binding
  /-- The account has been set. -/
  | bound

/-- A call of `login`. -/
structure Login where
  username : DartString
  password : DartString
  phase : LoginPhase

/-- Has the login got its token? -/
def Login.holding (l : Login) : Bool :=
  match l.phase with
  | .reading | .read _ | .posted => false
  | _ => true

end Engine

/-- The engine, its client and its store. `base` is the address of the server. -/
structure Engine where
  base : DartString
  store : LocalStore
  token : Option DartString
  device : Option DartString
  busy : Bool
  paused : Bool
  connected : Bool
  disposed : Bool
  error : Option Exn
  failures : Nat
  runs : List Engine.Phase
  logins : List Engine.Login

namespace Engine

/-- The application has been started. -/
def new (base : DartString) (store : LocalStore) : Engine :=
  { base, store, token := none, device := none, busy := false, paused := false,
    connected := false, disposed := false, error := none, failures := 0, runs := [], logins := [] }

/-! ### `synchronize` -/

/-- `synchronize`, up to its first await. -/
def synchronize (s : Engine) : Engine :=
  if s.busy || s.paused || !s.connected || s.disposed then s
  else { s with busy := true, error := none, runs := s.runs ++ [.pushing 0] }

/-- The IDs of a batch. -/
def ids (batch : List Operation) : List DartString := batch.map fun o => o.id

/-- The `catch` block, and `finally`. -/
def fail (s : Engine) (e : Exn) : Engine :=
  { s with
    error := some e, failures := s.failures + 1, busy := false
    connected := s.connected && !e.unauthorized
    token := if e.unauthorized then none else s.token }

/-- `synchronize`, from one await to the next. `o` is the outcome of the request that is out. -/
def advance (p : Platform) (o : Outcome) (s : Engine) : Phase → Engine × Option Phase
  | .pushing round =>
    if round < 100 then
      match s.store.pending with
      | .ok batch => (s, some (if batch.isEmpty then .pulling 0 else .posting round batch))
      | .error e => (s, some (.caught e))
    else (s, some (.pulling 0))
  | .posting round batch => (s, some (.posted round batch))
  | .posted round batch =>
    match p.result o with
    | .ok _ => (s, some (.acknowledging round batch))
    | .error e => (s, some (.recording batch e))
  | .recording batch e =>
    ({ s with store := s.store.failed (ids batch) (p.describe e) }, some (.caught e))
  | .acknowledging round batch =>
    ({ s with store := s.store.acknowledge (ids batch) }, some (.pushing (round + 1)))
  | .pulling round =>
    (s, some (if round < 100 then .getting round s.store.cursor else .uploading))
  | .getting round _ => (s, some (.got round))
  | .got round =>
    match p.result o >>= p.pageOf with
    | .ok page => (s, some (.applying round page))
    | .error e => (s, some (.caught e))
  | .applying round page =>
    match s.store.applyPage page with
    | .ok store => ({ s with store }, some (if page.more then .pulling (round + 1) else .uploading))
    | .error e => (s, some (.caught e))
  | .uploading => (s, some (.sending (AttachmentStore.pendingUploads s.store)))
  | .sending [] => ({ s with failures := 0, busy := false }, none)
  | .sending (row :: rest) => (s, some (.sent row rest))
  | .sent row rest =>
    match p.result o >>= Platform.hashOf with
    | .ok hash =>
      if hash ≠ some row.sha256 then
        (s, some (.caught (.format "Attachment checksum mismatch")))
      else (s, some (.marking row rest))
    | .error e => (s, some (.caught e))
  | .marking row rest =>
    ({ s with store := AttachmentStore.markUploaded row.id s.store }, some (.sending rest))
  | .caught e => (s.fail e, none)

/-! ### `login` -/

/-- `'${api.base}|$username'` -/
def bindingOf (s : Engine) (username : DartString) : DartString := s.base ++ dart "|" ++ username

/-- `login`, from one await to the next. `uuid` is a fresh ID. -/
def advanceLogin (p : Platform) (o : Outcome) (uuid : DartString) (s : Engine) (l : Login) :
    Engine × Option LoginPhase :=
  match l.phase with
  | .reading => (s, some (.read s.store.account))
  | .read existing =>
    if existing ≠ none ∧ existing ≠ some (s.bindingOf l.username) then (s, none)
    else (s, some .posted)
  | .posted =>
    match p.result o >>= Platform.tokenOf with
    | .ok token => ({ s with token := some token }, some .identifying)
    | .error _ => (s, none)
  | .identifying =>
    ({ s with store := (s.store.deviceId uuid).2 }, some (.identified (s.store.deviceId uuid).1))
  | .identified id => ({ s with device := some id }, some .registering)
  | .registering =>
    match p.result o with
    | .ok _ => (s, some .binding)
    | .error _ => ({ s with token := none }, none)
  | .binding =>
    ({ s with store := { s.store with account := some (s.bindingOf l.username) } }, some .bound)
  | .bound => ({ s with connected := true, error := none }.synchronize, none)

/-! ### The application -/

/-- `setPaused` -/
def setPaused (s : Engine) (value : Bool) : Engine :=
  if value then { s with paused := true } else { s with paused := false }.synchronize

/-- `logout` -/
def logout (s : Engine) : Engine := { s with connected := false, token := none }

/-- What can happen. -/
inductive Event where
  /-- Another part of the application calls the store. -/
  | call (c : Call)
  /-- The timer, a hint, an edit or the user calls `synchronize`. -/
  | synchronize
  | setPaused (value : Bool)
  | logout
  | login (username password : DartString)
  | dispose
  /-- One of the `synchronize` that are under way goes on. -/
  | run (i : Nat) (o : Outcome)
  /-- One of the `login` that are under way goes on. -/
  | enter (i : Nat) (o : Outcome) (uuid : DartString)

/-- A `synchronize` stands where it got to, or has ended. -/
def withRun (i : Nat) : Engine × Option Phase → Engine
  | (s, some phase) => { s with runs := s.runs.set i phase }
  | (s, none) => { s with runs := s.runs.eraseIdx i }

/-- A `login` stands where it got to, or has ended. -/
def withLogin (i : Nat) (l : Login) : Engine × Option LoginPhase → Engine
  | (s, some phase) => { s with logins := s.logins.set i { l with phase } }
  | (s, none) => { s with logins := s.logins.eraseIdx i }

@[simp] theorem withRun_store (i : Nat) (r : Engine × Option Phase) :
    (withRun i r).store = r.1.store := by
  rcases r with ⟨s, _ | phase⟩ <;> rfl

@[simp] theorem withLogin_store (i : Nat) (l : Login) (r : Engine × Option LoginPhase) :
    (withLogin i l r).store = r.1.store := by
  rcases r with ⟨s, _ | phase⟩ <;> rfl

/-- What an event does. -/
def step (p : Platform) (s : Engine) : Event → Engine
  | .call c => { s with store := s.store.after p.sha256 c }
  | .synchronize => s.synchronize
  | .setPaused value => s.setPaused value
  | .logout => s.logout
  | .login username password =>
    { s with logins := s.logins ++ [{ username, password, phase := .reading }] }
  | .dispose => { s with disposed := true }
  | .run i o =>
    match s.runs[i]? with
    | some phase => withRun i (s.advance p o phase)
    | none => s
  | .enter i o uuid =>
    match s.logins[i]? with
    | some l => withLogin i l (s.advanceLogin p o uuid l)
    | none => s

/-- The steps of an engine. -/
def Step (p : Platform) (s : Engine) (e : Event) (t : Engine) : Prop := s.step p e = t

/-- The request that leaves with an event. It carries the token of the moment. -/
def sends (s : Engine) : Event → Option Request
  | .run i _ => s.runs[i]?.bind Phase.sends
  | .enter i _ _ =>
    match s.logins[i]? with
    | some { username, password, phase := .read existing } =>
      if existing ≠ none ∧ existing ≠ some (s.bindingOf username) then none
      else some (.login username password)
    | some { phase := .identified id, .. } => some (.device id)
    | _ => none
  | _ => none

/-! ### What a call can do -/

theorem synchronize_cases (s : Engine) :
    s.synchronize = s ∨ s.busy = false ∧ s.paused = false ∧ s.connected = true ∧
      s.synchronize = { s with busy := true, error := none, runs := s.runs ++ [.pushing 0] } := by
  rw [synchronize]
  split
  · exact .inl rfl
  · next hguard =>
      simp only [Bool.or_eq_true, Bool.not_eq_true', not_or, Bool.not_eq_true,
        Bool.not_eq_false] at hguard
      exact .inr ⟨hguard.1.1.1, hguard.1.1.2, hguard.1.2, rfl⟩

/-- A `synchronize` that starts changes nothing else. -/
theorem synchronize_eq (s : Engine) :
    ∃ busy error runs, s.synchronize = { s with busy, error, runs } := by
  rcases s.synchronize_cases with heq | ⟨-, -, -, heq⟩
  · exact ⟨s.busy, s.error, s.runs, heq⟩
  · exact ⟨_, _, _, heq⟩

/-- `setPaused` touches what says whether a `synchronize` is under way, and no more. -/
theorem setPaused_eq (s : Engine) (value : Bool) :
    ∃ busy paused error runs, s.setPaused value = { s with busy, paused, error, runs } := by
  cases value with
  | true => exact ⟨s.busy, true, s.error, s.runs, rfl⟩
  | false =>
      obtain ⟨busy, error, runs, heq⟩ := synchronize_eq { s with paused := false }
      exact ⟨busy, false, error, runs, heq⟩

section Calls

variable {p : Platform} {s t : Engine} {o : Outcome} {uuid : DartString}

/-- **Everything a `synchronize` can do between two awaits**: it changes the store and goes on, or
it ends. -/
theorem advance_cases (p : Platform) (o : Outcome) (s : Engine) (phase : Phase) :
    (∃ store next, s.advance p o phase = ({ s with store }, some next)) ∨
    phase = .sending [] ∧ s.advance p o phase = ({ s with failures := 0, busy := false }, none) ∨
    ∃ e, phase = .caught e ∧ s.advance p o phase = (s.fail e, none) := by
  have hsame : ∀ next : Phase, ∃ store next',
      (s, some next) = (({ s with store } : Engine), some next') := fun next => ⟨s.store, next, rfl⟩
  cases phase with
  | pushing round =>
      left
      rw [advance]
      split
      · rw [LocalStore.pending_eq]
        exact hsame _
      · exact hsame _
  | posted round batch =>
      left
      rw [advance]
      split <;> exact hsame _
  | recording batch e | acknowledging round batch | marking row rest => exact .inl ⟨_, _, rfl⟩
  | got round =>
      left
      rw [advance]
      split <;> exact hsame _
  | applying round page =>
      left
      rw [advance]
      split
      · exact ⟨_, _, rfl⟩
      · exact hsame _
  | sending rows =>
      cases rows with
      | nil => exact .inr (.inl ⟨rfl, rfl⟩)
      | cons row rest => exact .inl (hsame _)
  | sent row rest =>
      left
      rw [advance]
      split
      · split <;> exact hsame _
      · exact hsame _
  | caught e => exact .inr (.inr ⟨e, rfl, rfl⟩)
  | _ => exact .inl (hsame _)

/-- **Everything a `login` can do between two awaits.** At its end it starts a `synchronize`; until
then it touches the store, the token and the device. -/
theorem advanceLogin_cases (p : Platform) (o : Outcome) (uuid : DartString) (s : Engine) (l : Login) :
    (l.phase = .bound ∧ s.advanceLogin p o uuid l =
      ({ s with connected := true, error := none }.synchronize, none)) ∨
    l.phase ≠ .bound ∧ ∃ store token device next,
      s.advanceLogin p o uuid l = ({ s with store, token, device }, next) := by
  have hsame : ∀ next : Option LoginPhase, ∃ store token device next',
      (s, next) = (({ s with store, token, device } : Engine), next') :=
    fun next => ⟨s.store, s.token, s.device, next, rfl⟩
  rw [advanceLogin]
  cases l.phase with
  | bound => exact .inl ⟨rfl, rfl⟩
  | read existing =>
      refine .inr ⟨by simp, ?_⟩
      dsimp only
      split <;> exact hsame _
  | posted =>
      refine .inr ⟨by simp, ?_⟩
      dsimp only
      split
      · exact ⟨s.store, _, s.device, _, rfl⟩
      · exact hsame _
  | registering =>
      refine .inr ⟨by simp, ?_⟩
      dsimp only
      split
      · exact hsame _
      · exact ⟨s.store, _, s.device, _, rfl⟩
  | reading => exact .inr ⟨by simp, hsame _⟩
  | identifying | binding => exact .inr ⟨by simp, _, s.token, s.device, _, rfl⟩
  | identified id => exact .inr ⟨by simp, s.store, s.token, _, _, rfl⟩

theorem run_eq {i : Nat} {phase : Phase} (hi : s.runs[i]? = some phase) (p : Platform) (o : Outcome) :
    s.step p (.run i o) = withRun i (s.advance p o phase) := by
  rw [step, hi]

theorem enter_eq {i : Nat} {l : Login} (hi : s.logins[i]? = some l) (p : Platform) (o : Outcome)
    (uuid : DartString) :
    s.step p (.enter i o uuid) = withLogin i l (s.advanceLogin p o uuid l) := by
  rw [step, hi]

/-- What a `synchronize` does to the store is a call of it. -/
theorem advance_store (p : Platform) (o : Outcome) (s : Engine) (phase : Phase) :
    (s.advance p o phase).1.store = s.store ∨
      ∃ c, (s.advance p o phase).1.store = s.store.after p.sha256 c := by
  cases phase with
  | pushing round =>
      rw [advance]
      split
      · rw [LocalStore.pending_eq]
        exact .inl rfl
      · exact .inl rfl
  | posted round batch | got round =>
      rw [advance]
      split <;> exact .inl rfl
  | recording batch e => exact .inr ⟨.failed (ids batch) (p.describe e), rfl⟩
  | acknowledging round batch => exact .inr ⟨.acknowledge (ids batch), rfl⟩
  | applying round page =>
      rw [advance]
      cases happly : s.store.applyPage page with
      | ok store =>
          exact .inr ⟨.applyPage page, (LocalStore.after_ok (c := .applyPage page) happly).symm⟩
      | error e => exact .inl rfl
  | sending rows => cases rows <;> exact .inl rfl
  | sent row rest =>
      rw [advance]
      split
      · split <;> exact .inl rfl
      · exact .inl rfl
  | marking row rest =>
      refine .inr ⟨.confirmUpload row (some row.sha256), (LocalStore.after_ok ?_).symm⟩
      show AttachmentStore.confirmUpload row (some row.sha256) s.store = _
      rw [AttachmentStore.confirmUpload, if_neg (not_not.mpr rfl)]
      rfl
  | _ => exact .inl rfl

/-! ### One at a time -/

/-- At most one `synchronize` is under way, and `busy` says whether. -/
def Single (s : Engine) : Prop :=
  s.busy = false ∧ s.runs = [] ∨ s.busy = true ∧ ∃ phase, s.runs = [phase]

theorem Single.idle (h : Single s) (hbusy : s.busy = false) : s.runs = [] := by
  rcases h with ⟨-, hruns⟩ | ⟨hbusy', -⟩
  · exact hruns
  · rw [hbusy] at hbusy'
    cases hbusy'

theorem Single.not_busy (h : Single s) (hruns : s.runs = []) : s.busy = false := by
  rcases h with ⟨hbusy, -⟩ | ⟨-, phase, hphase⟩
  · exact hbusy
  · rw [hruns] at hphase
    cases hphase

theorem Single.synchronize (h : Single s) : Single s.synchronize := by
  rcases s.synchronize_cases with heq | ⟨hbusy, -, -, heq⟩
  · rwa [heq]
  · rw [heq]
    exact .inr ⟨rfl, .pushing 0, by rw [h.idle hbusy, List.nil_append]⟩

/-- The one that goes on is the only one. -/
theorem Single.only (h : Single s) {i : Nat} {phase : Phase} (hi : s.runs[i]? = some phase) :
    s.busy = true ∧ i = 0 ∧ s.runs = [phase] := by
  rcases h with ⟨-, hnone⟩ | ⟨hbusy, phase', hone⟩
  · rw [hnone, List.getElem?_nil] at hi
    cases hi
  · rw [hone, List.getElem?_singleton] at hi
    split at hi
    · next hzero =>
        obtain rfl := Option.some.inj hi
        exact ⟨hbusy, hzero, hone⟩
    · cases hi

/-- **Everything that a `synchronize` which goes on can do.** It was the only one; it changes the
store and goes on, or it ends. -/
theorem run_cases (h : Single s) {i : Nat} {phase : Phase} (hi : s.runs[i]? = some phase)
    (p : Platform) (o : Outcome) :
    s.busy = true ∧ s.runs = [phase] ∧
      ((∃ store next, s.advance p o phase = ({ s with store }, some next) ∧
        s.step p (.run i o) = { s with store, runs := [next] }) ∨
      phase = .sending [] ∧ s.step p (.run i o) = { s with failures := 0, busy := false, runs := [] } ∨
      ∃ e, phase = .caught e ∧ s.step p (.run i o) = { s.fail e with runs := [] }) := by
  obtain ⟨hbusy, rfl, hone⟩ := h.only hi
  refine ⟨hbusy, hone, ?_⟩
  rw [run_eq hi]
  rcases advance_cases p o s phase with ⟨store, next, heq⟩ | ⟨rfl, heq⟩ | ⟨e, rfl, heq⟩
  · refine .inl ⟨store, next, heq, ?_⟩
    rw [heq, withRun, hone]
    rfl
  · refine .inr (.inl ⟨rfl, ?_⟩)
    rw [heq, withRun, hone]
    rfl
  · refine .inr (.inr ⟨e, rfl, ?_⟩)
    rw [heq, withRun]
    show { s.fail e with runs := s.runs.eraseIdx 0 } = _
    rw [hone]
    rfl

/-- **Everything that a `login` which goes on can do.** -/
theorem enter_cases {i : Nat} {l : Login} (hi : s.logins[i]? = some l) (p : Platform) (o : Outcome)
    (uuid : DartString) :
    (l.phase = .bound ∧ s.step p (.enter i o uuid) =
      { { s with connected := true, error := none }.synchronize with
        logins := s.logins.eraseIdx i }) ∨
    l.phase ≠ .bound ∧ ∃ store token device logins,
      s.step p (.enter i o uuid) = { s with store, token, device, logins } := by
  have hlogins : ({ s with connected := true, error := none } : Engine).synchronize.logins =
      s.logins := by
    obtain ⟨busy, error, runs, heq⟩ := synchronize_eq { s with connected := true, error := none }
    rw [heq]
  rw [enter_eq hi]
  rcases advanceLogin_cases p o uuid s l with ⟨hbound, heq⟩ | ⟨hnot, store, token, device, next, heq⟩
  · refine .inl ⟨hbound, ?_⟩
    rw [heq, withLogin, hlogins]
  · refine .inr ⟨hnot, store, token, device, ?_⟩
    rw [heq]
    cases next with
    | none => exact ⟨_, rfl⟩
    | some phase => exact ⟨_, rfl⟩

/-- **At most one `synchronize` is under way**, whatever happens. -/
theorem Single.step (h : Single s) {e : Event} (hstep : Step p s e t) : Single t := by
  obtain rfl := hstep
  cases e with
  | call | logout | login | dispose => exact h
  | synchronize => exact h.synchronize
  | setPaused value =>
      show Single (s.setPaused value)
      rw [setPaused]
      split
      · exact h
      · exact synchronize (s := { s with paused := false }) h
  | run i o =>
      cases hi : s.runs[i]? with
      | none => rwa [Engine.step, hi]
      | some phase =>
          obtain ⟨hbusy, -, ⟨store, next, -, heq⟩ | ⟨-, heq⟩ | ⟨e, -, heq⟩⟩ := run_cases h hi p o
          · rw [heq]
            exact .inr ⟨hbusy, next, rfl⟩
          · rw [heq]
            exact .inl ⟨rfl, rfl⟩
          · rw [heq]
            exact .inl ⟨rfl, rfl⟩
  | enter i o uuid =>
      cases hi : s.logins[i]? with
      | none => rwa [Engine.step, hi]
      | some l =>
          rcases enter_cases hi p o uuid with ⟨-, heq⟩ | ⟨-, store, token, device, logins, heq⟩
          · rw [heq]
            exact synchronize (s := { s with connected := true, error := none }) h
          · rw [heq]
            exact h

theorem Single.new (base : DartString) (store : LocalStore) : Single (Engine.new base store) :=
  .inl ⟨rfl, rfl⟩

/-! ### The store -/

/-- Everything an event does to the store: a call of it, or `login` sets the account. -/
theorem step_store (p : Platform) (s : Engine) (e : Event) :
    (s.step p e).store = s.store ∨ (∃ c, (s.step p e).store = s.store.after p.sha256 c) ∨
      ∃ i o uuid l, e = .enter i o uuid ∧ s.logins[i]? = some l ∧ l.phase = .binding ∧
        (s.step p e).store = { s.store with account := some (s.bindingOf l.username) } := by
  have hsynchronize : ∀ t : Engine, t.synchronize.store = t.store := by
    intro t
    obtain ⟨busy, error, runs, heq⟩ := t.synchronize_eq
    rw [heq]
  cases e with
  | call c => exact .inr (.inl ⟨c, rfl⟩)
  | synchronize => exact .inl (hsynchronize s)
  | setPaused value =>
      obtain ⟨busy, paused, error, runs, heq⟩ := s.setPaused_eq value
      left
      show (s.setPaused value).store = s.store
      rw [heq]
  | logout | login | dispose => exact .inl rfl
  | run i o =>
      cases hi : s.runs[i]? with
      | none => rw [step, hi]; exact .inl rfl
      | some phase =>
          rw [run_eq hi, withRun_store]
          exact (s.advance_store p o phase).imp_right .inl
  | enter i o uuid =>
      cases hi : s.logins[i]? with
      | none => rw [step, hi]; exact .inl rfl
      | some l =>
          rw [enter_eq hi, withLogin_store, advanceLogin]
          cases hphase : l.phase with
          | read existing | posted | registering =>
              left
              dsimp only
              split <;> rfl
          | identifying => exact .inr (.inl ⟨.deviceId uuid, rfl⟩)
          | binding => exact .inr (.inr ⟨i, o, uuid, l, rfl, hi, hphase, rfl⟩)
          | bound => exact .inl (hsynchronize _)
          | _ => exact .inl rfl

theorem kept_step (hk : s.store.Kept) {e : Event} (hstep : Step p s e t) : t.store.Kept := by
  obtain rfl := hstep
  rcases step_store p s e with heq | ⟨c, heq⟩ | ⟨i, o, uuid, l, -, -, -, heq⟩
  · rwa [heq]
  · rw [heq]
    exact hk.after c
  · rw [heq]
    exact ⟨hk.ids, hk.outbox⟩

end Calls

end Engine

end Syncraft.Field
