import Syncraft.Store.Methods

/-!
# Syncraft.Api.Server

The server of `internal/api`: `Handler` with its middleware, `identity`, and every handler of
`server.go`, `attachments.go`, `metrics.go` and, up to the first message, `events.go`; with
`Login` and `Verify` of `internal/auth`. A handler is a program (`Syncraft.Library.Program`):
what it asks of the store and of the counters are its calls, and between two of them other
requests may make theirs.

A request stands as the mux has dispatched it. What the handlers use of packages that are not
part of this repository is `Packages`; whether the rate limiter turns a request away, and the
time, are part of the request. Notifications of the hub carry no data and are left out.
-/

namespace Syncraft.Api

open Domain Store Library

/-! ### Requests and responses -/

/-- `Claims` -/
structure Claims where
  workspace : GoString
  role : GoString
  subject : GoString
  expires : Nat
  deriving DecidableEq, Repr

/-- `User` -/
structure User where
  passwordHash : GoString
  workspace : GoString
  role : GoString
  deriving DecidableEq, Repr

/-- The pattern that the mux has matched. `hello` is the first message of a web socket, token
and device, if there is one. -/
inductive Route where
  | live
  | ready
  | login
  | register
  | devices
  | revoke (id : GoString)
  | push
  | pull
  | audit
  | upload (id : GoString)
  | download (id : GoString)
  | attachments
  | events (hello : Option (GoString × GoString))
  | metrics
  /-- No pattern matches: 404 or 405. -/
  | unmatched (status : Nat)
  deriving DecidableEq, Repr

structure Request where
  route : Route
  /-- The method is OPTIONS. -/
  options : Bool
  origin : GoString
  /-- The rate limiter turns the request away. -/
  limited : Bool
  now : Nat
  /-- `Authorization` -/
  authorization : GoString
  /-- `X-Device-ID` -/
  device : GoString
  /-- `X-Record-ID` -/
  record : GoString
  /-- `X-Filename` -/
  filename : GoString
  /-- `Content-Type` -/
  contentType : GoString
  /-- The parameter `after` of the query. -/
  after : GoString
  /-- The parameter `record` of the query. -/
  queryRecord : GoString
  body : List UInt8
  deriving DecidableEq, Repr

/-- `Metrics` -/
structure Metrics where
  requests : Nat
  pushes : Nat
  pulls : Nat
  deriving DecidableEq, Repr

/-- The body of a response. An attachment is listed without its data. -/
inductive Body where
  | empty
  | error (message : String)
  | status (text : String)
  | token (t : GoString)
  | device (d : Device)
  | devices (rows : List Device)
  | revoked
  | cursor (n : Nat)
  | page (p : Page)
  | audit (rows : List Audit)
  | attachment (a : Attachment)
  | attachments (rows : List Attachment)
  | file (name sha256 : GoString) (data : List UInt8)
  | metrics (m : Metrics)
  /-- The first message of a web socket. -/
  | hint
  /-- A web socket that was closed, with the reason given. -/
  | closed (reason : String)
  deriving DecidableEq, Repr

structure Response where
  status : Nat
  body : Body
  deriving DecidableEq, Repr

/-- `problem` -/
def failure (e : Err) : Response :=
  match e with
  | .invalid => { status := 400, body := .error e.message }
  | .conflict => { status := 409, body := .error e.message }
  | .forbidden => { status := 403, body := .error e.message }
  | .notFound => { status := 404, body := .error e.message }
  | .internal => { status := 500, body := .error e.message }

/-! ### Values of a request -/

/-- `strings.TrimPrefix(…, "Bearer ")` -/
def trimBearer (s : GoString) : GoString :=
  if (go "Bearer ").isPrefixOf s then s.drop (go "Bearer ").length else s

/-- The value of a hexadecimal digit. -/
def unhex (b : UInt8) : Option UInt8 :=
  if 0x30 ≤ b ∧ b ≤ 0x39 then some (b - 0x30)
  else if 0x61 ≤ b ∧ b ≤ 0x66 then some (b - 0x61 + 10)
  else if 0x41 ≤ b ∧ b ≤ 0x46 then some (b - 0x41 + 10)
  else none

/-- `url.QueryUnescape` -/
def queryUnescape : GoString → Option GoString
  | [] => some []
  | 0x25 :: a :: b :: rest => do
    let high ← unhex a
    let low ← unhex b
    let text ← queryUnescape rest
    return (high * 16 + low) :: text
  | b :: rest =>
    if b = 0x25 then none
    else (queryUnescape rest).map fun text => (if b = 0x2B then 0x20 else b) :: text

/-- The digits of a decimal number. -/
def digits (s : GoString) : Option Nat :=
  if s = [] ∨ s.any (fun b => b < 0x30 || 0x39 < b) then none
  else some (s.foldl (fun n b => 10 * n + (b.toNat - 0x30)) 0)

/-- `strconv.ParseInt(…, 10, 64)` -/
def parseInt (s : GoString) : Option Int :=
  let value :=
    match s with
    | 0x2D :: rest => (digits rest).map fun n => -(n : Int)
    | 0x2B :: rest => (digits rest).map fun n => (n : Int)
    | _ => (digits s).map fun n => (n : Int)
  value.filter fun n => -9223372036854775808 ≤ n && n ≤ 9223372036854775807

/-- `cursor` -/
def cursor (r : Request) : Except Err Int :=
  if r.after = [] then .ok 0
  else
    match parseInt r.after with
    | some n => if n < 0 then .error .invalid else .ok n
    | none => .error .invalid

/-- The media types of an upload. -/
def mediaTypes : List GoString :=
  [go "image/jpeg", go "image/png", go "application/pdf", go "text/plain"]

/-- `strings.ContainsAny(name, "/\\\r\n\x00")`, for one byte. -/
def forbidden (b : UInt8) : Bool := b == 0x2F || b == 0x5C || b == 0xD || b == 0xA || b == 0

/-! ### The server -/

/-- What the server uses of packages that are not part of this repository. -/
structure Packages where
  /-- `jwt.ParseWithClaims` with the options of `Verify`: method, issuer, audience, expiration. -/
  parseWithClaims : (secret token : GoString) → (now : Nat) → Option Claims
  /-- `jwt.NewWithClaims` and `SignedString`. -/
  signedString : (secret : GoString) → Claims → (now : Nat) → GoString
  /-- `bcrypt.CompareHashAndPassword` -/
  compareHash : (hash password : GoString) → Bool
  /-- A JSON document with `username` and `password`, nothing unknown and nothing after it. -/
  decodeLogin : List UInt8 → Option (GoString × GoString)
  /-- A JSON document with `id` and `name`. -/
  decodeDevice : List UInt8 → Option (GoString × GoString)
  /-- A JSON document with `operations`. -/
  decodePush : List UInt8 → Option (List (Operation GoString))
  /-- `mime.ParseMediaType` -/
  parseMediaType : GoString → Option GoString
  /-- `sha256.Sum256` and `hex.EncodeToString`. -/
  sha256 : List UInt8 → GoString

/-- What a server is started with. -/
structure Server where
  packages : Packages
  secret : GoString
  users : GoString → Option User
  origins : List GoString

/-- A call of a handler: to a method of the store, or to a counter. -/
inductive Ask : Type → Type 1 where
  | store {β : Type} (w : GoString) (c : Method β) : Ask β
  | ping : Ask (Except Err Unit)
  | countRequest : Ask Unit
  | countPush : Ask Unit
  | countPull : Ask Unit
  | metrics : Ask Metrics

/-- What the handlers share. -/
structure Backend where
  store : Memory
  metrics : Metrics

/-- `NewMemory`, and counters at zero. -/
def Backend.new : Backend :=
  { store := Memory.new, metrics := { requests := 0, pushes := 0, pulls := 0 } }

/-- Answer a call. Each is atomic. -/
def Backend.answer {β : Type} : Ask β → Backend → β × Backend
  | .store w c, b => ((b.store.answer w c).1, { b with store := (b.store.answer w c).2 })
  | .ping, b => (.ok (), b)
  | .countRequest, b => ((), { b with metrics := { b.metrics with requests := b.metrics.requests + 1 } })
  | .countPush, b => ((), { b with metrics := { b.metrics with pushes := b.metrics.pushes + 1 } })
  | .countPull, b => ((), { b with metrics := { b.metrics with pulls := b.metrics.pulls + 1 } })
  | .metrics, b => (b.metrics, b)

def backend : Service Backend Ask := { answer := Backend.answer }

/-- What a handler runs as. -/
abbrev Handler (α : Type) := Program Ask α

namespace Server

open Program

variable (S : Server)

/-- `Verify` -/
def verify (token : GoString) (now : Nat) : Option Claims :=
  match S.packages.parseWithClaims S.secret token now with
  | none => none
  | some c =>
    match S.users c.subject with
    | none => none
    | some u => if c.workspace != u.workspace || c.role != u.role then none else some c

/-- `Login` -/
def issue (name password : GoString) (now : Nat) : Option GoString :=
  match S.users name with
  | none => none
  | some u =>
    if !S.packages.compareHash u.passwordHash password then none
    else
      let c : Claims :=
        { workspace := u.workspace, role := u.role, subject := name, expires := now + 3600 }
      some (S.packages.signedString S.secret c now)

/-- `decode`: a body of at most 2 MiB. -/
def decode {α : Type} (read : List UInt8 → Option α) (r : Request) : Option α :=
  if r.body.length > 2 * 1024 * 1024 then none else read r.body

/-- The device is the subject's, and not revoked. -/
def owns (c : Claims) : Except Err Device → Bool
  | .ok d => !(d.revoked || d.actor != c.subject)
  | .error _ => false

/-- `identity` -/
def identity (r : Request) (edit device : Bool) : Handler (Except Response Claims) := do
  match S.verify (trimBearer r.authorization) r.now with
  | none => return .error { status := 401, body := .error "authentication required" }
  | some c =>
    if edit && c.role != go "editor" && c.role != go "admin" then return .error (failure .forbidden)
    else if device then do
      let found ← ask (.store c.workspace (.device r.device))
      if owns c found then return .ok c else return .error (failure .forbidden)
    else return .ok c

/-- `GET /health/ready` -/
def ready : Handler Response := do
  match ← ask .ping with
  | .ok () => return { status := 200, body := .status "ready" }
  | .error _ => return { status := 503, body := .error "storage unavailable" }

/-- `login` -/
def login (r : Request) : Handler Response :=
  match decode S.packages.decodeLogin r with
  | none => return failure .invalid
  | some (username, password) =>
    if username.length > 100 ∨ password.length > 256 then return failure .invalid
    else
      match S.issue username password r.now with
      | none => return { status := 401, body := .error "invalid credentials" }
      | some token => return { status := 200, body := .token token }

/-- `register` -/
def register (r : Request) : Handler Response := do
  match ← S.identity r false false with
  | .error response => return response
  | .ok c =>
    match decode S.packages.decodeDevice r with
    | none => return failure .invalid
    | some (id, name) =>
      if !validID id || trimSpace name == [] || decide (name.length > 100) then
        return failure .invalid
      else do
        let d : Device := { id, name, actor := c.subject, revoked := false }
        match ← ask (.store c.workspace (.register d)) with
        | .error e => return failure e
        | .ok () => return { status := 201, body := .device d }

/-- `devices` -/
def devices (r : Request) : Handler Response := do
  match ← S.identity r false true with
  | .error response => return response
  | .ok c =>
    match ← ask (.store c.workspace .devices) with
    | .error e => return failure e
    | .ok rows => return { status := 200, body := .devices rows }

/-- `revoke` -/
def revoke (r : Request) (id : GoString) : Handler Response := do
  match ← S.identity r false true with
  | .error response => return response
  | .ok c =>
    if !validID id then return failure .invalid
    else do
      match ← ask (.store c.workspace (.device id)) with
      | .error e => return failure e
      | .ok d =>
        if c.role != go "admin" && d.actor != c.subject then return failure .forbidden
        else do
          match ← ask (.store c.workspace (.revoke id c.subject)) with
          | .error e => return failure e
          | .ok () => return { status := 200, body := .revoked }

/-- `push` -/
def push (r : Request) : Handler Response := do
  match ← S.identity r true true with
  | .error response => return response
  | .ok c =>
    match decode S.packages.decodePush r with
    | none => return failure .invalid
    | some operations => do
      match ← ask (.store c.workspace (.push r.device c.subject operations)) with
      | .error e => return failure e
      | .ok n => do
        ask .countPush
        return { status := 200, body := .cursor n }

/-- `pull` -/
def pull (r : Request) : Handler Response := do
  match ← S.identity r false true with
  | .error response => return response
  | .ok c =>
    match cursor r with
    | .error e => return failure e
    | .ok after => do
      match ← ask (.store c.workspace (.pull after 100)) with
      | .error e => return failure e
      | .ok page => do
        ask .countPull
        return { status := 200, body := .page page }

/-- `audit` -/
def audit (r : Request) : Handler Response := do
  match ← S.identity r false true with
  | .error response => return response
  | .ok c =>
    match cursor r with
    | .error e => return failure e
    | .ok after => do
      match ← ask (.store c.workspace (.audit after 100)) with
      | .error e => return failure e
      | .ok rows => return { status := 200, body := .audit rows }

/-- What `upload` reads of its request, up to the data. -/
def uploaded (r : Request) (id : GoString) : Except Response Attachment :=
  match queryUnescape r.filename with
  | none => .error (failure .invalid)
  | some name =>
    if !validID id || !validID r.record || name.isEmpty || decide (name.length > 200) ||
        name.any forbidden then
      .error (failure .invalid)
    else
      match S.packages.parseMediaType r.contentType with
      | none => .error (failure .invalid)
      | some media =>
        if !mediaTypes.contains media then .error (failure .invalid)
        else if r.body.length > 5 * 1024 * 1024 ∨ r.body = [] then
          .error { status := 413, body := .error "attachment must contain 1 byte to 5 MiB" }
        else
          .ok { id, record := r.record, name, type := media, sha256 := S.packages.sha256 r.body,
                size := r.body.length, data := r.body }

/-- `upload` -/
def upload (r : Request) (id : GoString) : Handler Response := do
  match ← S.identity r true true with
  | .error response => return response
  | .ok c =>
    match S.uploaded r id with
    | .error response => return response
    | .ok a => do
      match ← ask (.store c.workspace (.putAttachment r.device c.subject a)) with
      | .error e => return failure e
      | .ok () => return { status := 201, body := .attachment { a with data := [] } }

/-- `download` -/
def download (r : Request) (id : GoString) : Handler Response := do
  match ← S.identity r false true with
  | .error response => return response
  | .ok c =>
    if !validID id then return failure .invalid
    else do
      match ← ask (.store c.workspace (.getAttachment id)) with
      | .error e => return failure e
      | .ok a => return { status := 200, body := .file a.name a.sha256 a.data }

/-- `attachments` -/
def attachments (r : Request) : Handler Response := do
  match ← S.identity r false true with
  | .error response => return response
  | .ok c =>
    if !validID r.queryRecord then return failure .invalid
    else do
      match ← ask (.store c.workspace (.attachments r.queryRecord)) with
      | .error e => return failure e
      | .ok rows => return { status := 200, body := .attachments rows }

/-- `events`, up to the first message. -/
def events (r : Request) (hello : Option (GoString × GoString)) : Handler Response :=
  match hello with
  | none => return { status := 101, body := .closed "" }
  | some (token, device) =>
    match S.verify token r.now with
    | none => return { status := 101, body := .closed "authentication required" }
    | some c => do
      let found ← ask (.store c.workspace (.device device))
      if owns c found && decide (r.now < c.expires) then return { status := 101, body := .hint }
      else return { status := 101, body := .closed "device denied" }

/-- `metrics` -/
def metrics (r : Request) : Handler Response := do
  match ← S.identity r false true with
  | .error response => return response
  | .ok c =>
    if c.role != go "admin" then return failure .forbidden
    else do
      let m ← ask .metrics
      return { status := 200, body := .metrics m }

/-- The mux. -/
def mux (r : Request) : Handler Response :=
  match r.route with
  | .live => return { status := 200, body := .status "alive" }
  | .ready => ready
  | .login => S.login r
  | .register => S.register r
  | .devices => S.devices r
  | .revoke id => S.revoke r id
  | .push => S.push r
  | .pull => S.pull r
  | .audit => S.audit r
  | .upload id => S.upload r id
  | .download id => S.download r id
  | .attachments => S.attachments r
  | .events hello => S.events r hello
  | .metrics => S.metrics r
  | .unmatched status => return { status, body := .empty }

/-- `Handler`: the middleware around the mux. -/
def handler (r : Request) : Handler Response := do
  ask .countRequest
  if r.origin ≠ [] ∧ r.origin ∉ S.origins then
    return { status := 403, body := .error "origin denied" }
  else if r.options then return { status := 204, body := .empty }
  else if r.limited then
    return { status := 429, body := .error "request rate exceeded" }
  else S.mux r

/-- Answer a request with nothing else going on. -/
def serve (r : Request) (b : Backend) : Response × Backend := (S.handler r).run backend b

end Server

end Syncraft.Api
