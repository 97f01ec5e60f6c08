import Mathlib.Data.List.Sort
import Mathlib.Data.Prod.Lex
import Syncraft.Library.RowLock
import Syncraft.Store.Store

/-!
# Syncraft.Store.Postgres

The PostgreSQL adapter, `internal/store/postgres.go` and `postgres_attachments.go`, over the
tables of `migrations/001_initial.sql`. Every statement names the workspace, so the rows of
one workspace (`Rows`) stand for the database and other workspaces are other rows.

A write is the body of a transaction that holds the lock of the workspace's row
(`Syncraft.Library.RowLock`); a read is a query, statement by statement. Statements check
what the table declares: primary keys, the unique sequence, references, the size of an
attachment. The parameters of a statement are checked by `Pg`, which stands for the parts
of PostgreSQL and its driver that this adapter relies on.

`created` is left out of every table.
-/

namespace Syncraft.Store

open Domain RowLock

/-- What PostgreSQL makes of the values it is sent. -/
structure Pg where
  /-- The `text` parameters it accepts. -/
  text : GoString → Bool
  /-- A `uuid` parameter, in the form it is returned in. -/
  uuid : GoString → Option GoString
  /-- An operation marshalled into a `jsonb` column, and what that decodes to. -/
  jsonb : Operation GoString → Option (Operation GoString)

/-- A UTF-8 database: text is valid UTF-8 without U+0000, a `uuid` is returned in lower case,
and `jsonb` holds no U+0000. -/
def Pg.standard : Pg where
  text := plainText
  uuid s :=
    let id := s.map fun b => if 65 ≤ b && b ≤ 70 then b + 32 else b
    if validID id then some id else none
  jsonb o := if o.strings.all plainText then some o else none

/-! ### The tables -/

/-- A row of `workspaces`. -/
structure WorkspaceRow where
  sequence : Nat
  auditSequence : Nat
  deriving DecidableEq, Repr

/-- A row of `devices`. -/
structure DeviceRow where
  id : GoString
  actor : GoString
  name : GoString
  revoked : Bool
  deriving DecidableEq, Repr

/-- A row of `operations`. -/
structure OperationRow where
  id : GoString
  sequence : Nat
  device : GoString
  actor : GoString
  content : Operation GoString
  deriving DecidableEq, Repr

/-- A row of `attachments`. -/
structure AttachmentRow where
  id : GoString
  record : GoString
  name : GoString
  mediaType : GoString
  sha256 : GoString
  content : List UInt8
  deriving DecidableEq, Repr

/-- The rows of one workspace. -/
structure Rows where
  workspace : Option WorkspaceRow
  devices : List DeviceRow
  operations : List OperationRow
  auditEvents : List Audit
  attachments : List AttachmentRow
  deriving DecidableEq, Repr

namespace Rows

/-- A workspace the database has no row for. -/
def new : Rows :=
  { workspace := none, devices := [], operations := [], auditEvents := [], attachments := [] }

/-- `INSERT INTO workspaces(id) VALUES($1) ON CONFLICT DO NOTHING` -/
def create (r : Rows) : Rows := { r with workspace := some { sequence := 0, auditSequence := 0 } }

end Rows

namespace Postgres

-- `Validate` is known by `validate_ok_iff`, and never run inside a proof.
attribute [local irreducible] validate

variable (pg : Pg)

/-! ### Statements

A row that is not there is `pgx.ErrNoRows`, told apart from other failures by the bodies
below; it is `notFound` here. -/

/-- `SELECT … FROM devices WHERE workspace=$1 AND id=$2` -/
def deviceRow (id : GoString) (r : Rows) : Except Err DeviceRow :=
  match pg.uuid id with
  | none => .error .internal
  | some id =>
    match r.devices.find? fun d => d.id == id with
    | some d => .ok d
    | none => .error .notFound

/-- `SELECT content FROM operations WHERE workspace=$1 AND id=$2` -/
def operationContent (id : GoString) (r : Rows) : Except Err (Operation GoString) :=
  match pg.uuid id with
  | none => .error .internal
  | some id =>
    match r.operations.find? fun o => o.id == id with
    | some o => .ok o.content
    | none => .error .notFound

/-- `SELECT … FROM attachments WHERE workspace=$1 AND id=$2` -/
def attachmentRow (id : GoString) (r : Rows) : Except Err AttachmentRow :=
  match pg.uuid id with
  | none => .error .internal
  | some id =>
    match r.attachments.find? fun a => a.id == id with
    | some a => .ok a
    | none => .error .notFound

/-- `SELECT … FROM operations WHERE workspace=$1 AND sequence>$2 ORDER BY sequence LIMIT $3` -/
def operationsAfter (after limit : Nat) (r : Rows) : List OperationRow :=
  ((r.operations.filter fun o => after < o.sequence).insertionSort
    fun a b => a.sequence ≤ b.sequence).take limit

/-- `SELECT … FROM audit_events WHERE workspace=$1 AND sequence>$2 ORDER BY sequence LIMIT $3` -/
def auditAfter (after limit : Nat) (r : Rows) : List Audit :=
  ((r.auditEvents.filter fun a => after < a.sequence).insertionSort
    fun a b => a.sequence ≤ b.sequence).take limit

/-- `SELECT … FROM devices WHERE workspace=$1 ORDER BY created,id LIMIT 500`, where `created` says
when the row of a device was inserted. -/
def devicesBy (created : GoString → Nat) (r : Rows) : List DeviceRow :=
  (r.devices.insertionSort fun a b =>
    toLex (created a.id, a.id) ≤ toLex (created b.id, b.id)).take 500

/-- `SELECT … FROM attachments WHERE workspace=$1 AND record=$2 ORDER BY id LIMIT 500`. In the
canonical form, a `uuid` is ordered as its text is. -/
def attachmentsOf (record : GoString) (r : Rows) : Except Err (List AttachmentRow) :=
  match pg.uuid record with
  | none => .error .internal
  | some record =>
    .ok <| ((r.attachments.filter fun a => a.record == record).insertionSort
      fun a b => a.id ≤ b.id).take 500

/-- `INSERT INTO devices(workspace,id,actor,name) VALUES($1,$2,$3,$4)` -/
def insertDevice (d : Device) (r : Rows) : Except Err (Rows → Rows) :=
  match pg.uuid d.id with
  | none => .error .internal
  | some id =>
    if !pg.text d.actor || !pg.text d.name || r.workspace.isNone ||
        r.devices.any (fun x => x.id == id) then .error .internal
    else
      let row : DeviceRow := { id, actor := d.actor, name := d.name, revoked := false }
      .ok fun r => { r with devices := r.devices ++ [row] }

/-- `UPDATE devices SET revoked=true WHERE workspace=$1 AND id=$2` -/
def revokeDevice (id : GoString) (_ : Rows) : Except Err (Rows → Rows) :=
  match pg.uuid id with
  | none => .error .internal
  | some id => .ok fun r =>
    { r with devices := r.devices.map fun d => if d.id = id then { d with revoked := true } else d }

/-- `UPDATE workspaces SET sequence=sequence+1 … RETURNING sequence`, and the
`INSERT INTO operations … SELECT … FROM n` over what it returns. -/
def insertOperation (o : Operation GoString) (device actor : GoString) (r : Rows) :
    Except Err (Rows → Rows) :=
  match pg.uuid o.id, pg.uuid device, pg.jsonb o, r.workspace with
  | some id, some device, some content, some w =>
    if !pg.text actor || r.operations.any (fun x => x.id == id || x.sequence == w.sequence + 1) ||
        !r.devices.any (fun d => d.id == device) then .error .internal
    else
      let row : OperationRow := { id, sequence := w.sequence + 1, device, actor, content }
      .ok fun r =>
        { r with
          workspace := r.workspace.map fun x => { x with sequence := w.sequence + 1 }
          operations := r.operations ++ [row] }
  | some _, some _, some _, none => .ok id
  | _, _, _, _ => .error .internal

/-- `logAudit` -/
def logAudit (actor action target : GoString) : Tx Rows Err Unit :=
  .exec fun r =>
    if !pg.text actor || !pg.text target then .error .internal
    else
      match r.workspace with
      | none => .ok id
      | some w =>
        if r.auditEvents.any (fun a => a.sequence == w.auditSequence + 1) then .error .internal
        else
          let row : Audit := { sequence := w.auditSequence + 1, actor, action, target }
          .ok fun r =>
            { r with
              workspace := r.workspace.map fun x => { x with auditSequence := w.auditSequence + 1 }
              auditEvents := r.auditEvents ++ [row] }

/-- `INSERT INTO attachments(…) VALUES(…)` -/
def insertAttachment (a : Attachment) (r : Rows) : Except Err (Rows → Rows) :=
  match pg.uuid a.id, pg.uuid a.record with
  | some id, some record =>
    if !pg.text a.name || !pg.text a.type || !pg.text a.sha256 || decide (a.data.length > 5242880) ||
        r.workspace.isNone || r.attachments.any (fun x => x.id == id) then .error .internal
    else
      let row : AttachmentRow :=
        { id, record, name := a.name, mediaType := a.type, sha256 := a.sha256, content := a.data }
      .ok fun r => { r with attachments := r.attachments ++ [row] }
  | _, _ => .error .internal

/-! ### Writes -/

/-- `Register` -/
def register (d : Device) : Tx Rows Err Unit := do
  match ← .ask (deviceRow pg d.id) with
  | .ok old => if old.actor != d.actor || old.revoked then .fail .forbidden else pure ()
  | .error .notFound => do
    .exec (insertDevice pg d)
    logAudit pg d.actor deviceRegistered d.id
  | .error e => .fail e

/-- `Revoke` -/
def revoke (id actor : GoString) : Tx Rows Err Unit := do
  match ← .ask (deviceRow pg id) with
  | .error e => .fail e
  | .ok d =>
    if d.revoked then pure ()
    else do
      .exec (revokeDevice pg id)
      logAudit pg actor deviceRevoked id

/-- The guard of `Push` and `PutAttachment`. -/
def active (device actor : GoString) (r : Rows) : Bool :=
  match deviceRow pg device r with
  | .ok d => !(d.revoked || d.actor != actor)
  | .error _ => false

/-- Load the operations stored under the IDs, except under those loaded before. -/
def loadIDs : OpMap → List GoString → Tx Rows Err OpMap
  | known, [] => pure known
  | known, id :: rest =>
    match known id with
    | some _ => loadIDs known rest
    | none => do
      match ← .ask (operationContent pg id) with
      | .ok stored => loadIDs (fun x => if x = id then some stored else known x) rest
      | .error .notFound => loadIDs known rest
      | .error e => .fail e

/-- The first loop of `Push`: validate every operation and load what its IDs name. -/
def load : OpMap → List (Operation GoString) → Tx Rows Err OpMap
  | known, [] => pure known
  | known, o :: rest =>
    match validate o with
    | .error e => .fail e
    | .ok () => do
      let known ← loadIDs pg known (o.id :: o.parents)
      load known rest

theorem load_cons (known : OpMap) (o : Operation GoString) (rest : List (Operation GoString)) :
    load pg known (o :: rest) =
      match validate o with
      | .error e => .fail e
      | .ok () => (loadIDs pg known (o.id :: o.parents)) >>= fun known => load pg known rest :=
  rfl

/-- The second loop of `Push`: insert what is not known yet. -/
def insertAll (device actor : GoString) : OpMap → List (Operation GoString) → Tx Rows Err Unit
  | _, [] => pure ()
  | known, o :: rest =>
    match known o.id with
    | some _ => insertAll device actor known rest
    | none => do
      .exec (insertOperation pg o device actor)
      logAudit pg actor operationAccepted o.id
      insertAll device actor (known.put o) rest

/-- `SELECT sequence FROM workspaces WHERE id=$1` -/
def latest (r : Rows) : Option Nat := r.workspace.map WorkspaceRow.sequence

/-- `Push` -/
def push (device actor : GoString) (batch : List (Operation GoString)) : Tx Rows Err Nat := do
  if !(← .ask (active pg device actor)) then .fail .forbidden
  else if batch.length = 0 ∨ batch.length > 100 then .fail .invalid
  else do
    let known ← load pg (fun _ => none) batch
    match validateBatch known batch with
    | .error e => .fail e
    | .ok () => do
      insertAll pg device actor known batch
      match ← .ask latest with
      | some n => pure n
      | none => .fail .internal

/-- `PutAttachment` -/
def putAttachment (device actor : GoString) (a : Attachment) : Tx Rows Err Unit := do
  if !(← .ask (active pg device actor)) then .fail .forbidden
  else do
    match ← .ask (attachmentRow pg a.id) with
    | .ok old =>
      if old.sha256 != a.sha256 || old.record != a.record || old.name != a.name ||
          old.mediaType != a.type then .fail .conflict
      else pure ()
    | .error .notFound => do
      .exec (insertAttachment pg a)
      logAudit pg actor attachmentStored a.id
    | .error e => .fail e

/-- The body of the transaction a write runs. A workspace whose name is no `text` fails at
the first statement. -/
def body (w : GoString) (c : Write) : Tx Rows Err Result :=
  if !pg.text w then .fail .internal
  else
    match c with
    | .register d => do register pg d; pure .done
    | .revoke id actor => do revoke pg id actor; pure .done
    | .push device actor batch => do let n ← push pg device actor batch; pure (.cursor n)
    | .putAttachment device actor a => do putAttachment pg device actor a; pure .done

/-! ### Reads -/

/-- The loop of `Pull` over the rows: all but the last of `limit+1` are the page. -/
def collect (limit : Nat) : Page → List OperationRow → Page
  | out, [] => out
  | out, row :: rest =>
    if out.entries.length = limit then { out with more := true }
    else
      let e : Entry :=
        { sequence := row.sequence, device := row.device, actor := row.actor, operation := row.content }
      collect limit { out with entries := out.entries ++ [e], cursor := row.sequence } rest

/-- `Pull` -/
def pull (w : GoString) (after limit : Int) : Query Rows (Except Err Page) :=
  let out : Page := { entries := [], cursor := after.toNat, more := false }
  if after < 0 ∨ limit < 1 ∨ limit > 200 then .ret (.error .invalid)
  else if !pg.text w then .ret (.error .internal)
  else .read fun r =>
    match latest r with
    | none => if after ≠ 0 then .ret (.error .invalid) else .ret (.ok out)
    | some n =>
      if after > n then .ret (.error .invalid)
      else .read fun r =>
        .ret (.ok (collect limit.toNat out (operationsAfter after.toNat (limit.toNat + 1) r)))

/-- `Audit` -/
def audit (w : GoString) (after limit : Int) : Query Rows (Except Err (List Audit)) :=
  if after < 0 ∨ limit < 1 ∨ limit > 200 then .ret (.error .invalid)
  else if !pg.text w then .ret (.error .internal)
  else .read fun r => .ret (.ok (auditAfter after.toNat limit.toNat r))

/-- `Device` -/
def device (w id : GoString) : Query Rows (Except Err Device) :=
  if !pg.text w then .ret (.error .internal)
  else .read fun r => .ret <|
    (deviceRow pg id r).map fun d => { id, name := d.name, actor := d.actor, revoked := d.revoked }

/-- `GetAttachment` -/
def getAttachment (w id : GoString) : Query Rows (Except Err Attachment) :=
  if !pg.text w then .ret (.error .internal)
  else .read fun r => .ret <|
    (attachmentRow pg id r).map fun a =>
      { id, record := a.record, name := a.name, type := a.mediaType, sha256 := a.sha256,
        size := a.content.length, data := a.content }

/-- `Devices` -/
def listDevices (created : GoString → Nat) (w : GoString) : Query Rows (Except Err (List Device)) :=
  if !pg.text w then .ret (.error .internal)
  else .read fun r => .ret <| .ok <|
    (devicesBy created r).map fun d =>
      { id := d.id, name := d.name, actor := d.actor, revoked := d.revoked }

/-- `Attachments`: their sizes are counted by the database, their content is left there. -/
def listAttachments (w record : GoString) : Query Rows (Except Err (List Attachment)) :=
  if !pg.text w then .ret (.error .internal)
  else .read fun r => .ret <|
    (attachmentsOf pg record r).map fun rows => rows.map fun a =>
      { id := a.id, record := a.record, name := a.name, type := a.mediaType, sha256 := a.sha256,
        size := a.content.length, data := [] }

/-- The query a read runs. -/
def query (w : GoString) : Read → Query Rows (Except Err Result)
  | .device id => (device pg w id).map fun r => r.map .device
  | .pull after limit => (pull pg w after limit).map fun r => r.map .page
  | .audit after limit => (audit pg w after limit).map fun r => r.map .audit
  | .getAttachment id => (getAttachment pg w id).map fun r => r.map .attachment

end Postgres

/-! ### The adapter, call after call -/

/-- Commit what a body made of the rows, or roll back to what was there. -/
def Rows.finish {α : Type} (r : Rows) : Except Err (α × Rows) → Except Err α × Rows
  | .ok (a, r') => (.ok a, r')
  | .error e => (.error e, r)

/-- `write`: the row of the workspace is there and locked while the body runs. -/
def Rows.write (pg : Pg) (w : GoString) (r : Rows) (c : Write) : Except Err Result × Rows :=
  r.finish ((Postgres.body pg w c).run (if r.workspace.isSome then r else r.create))

/-- Answer one call, with nothing else going on. -/
def Rows.call (pg : Pg) (w : GoString) (r : Rows) : Call → Except Err Result × Rows
  | .write c => r.write pg w c
  | .read c => ((Postgres.query pg w c).run r, r)

/-- The database: the rows of every workspace. -/
abbrev Postgres := GoString → Rows

/-- The database after the migration. -/
def Postgres.new : Postgres := fun _ => Rows.new

/-- Answer a call in a workspace. -/
def Postgres.call (pg : Pg) (db : Postgres) (w : GoString) (c : Call) :
    Except Err Result × Postgres :=
  (((db w).call pg w c).1, Function.update db w ((db w).call pg w c).2)

end Syncraft.Store
