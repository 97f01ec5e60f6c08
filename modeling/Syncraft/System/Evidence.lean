import Syncraft.Api.Isolation
import Syncraft.Api.Uploads
import Syncraft.Field.ApiClient
import Syncraft.Field.StoreRun

/-!
# Syncraft.System.Evidence

Attachments from end to end: the devices of one workspace, the server with whatever else it is
asked meanwhile, and the responses it has given.

A response that was given stays in `replies`, and the device that sent its request takes it at some
later moment, or never; a request that is out may be answered any number of times. `uploadPending`
and `fetch` are cut where they await (`Task`), and a device may run any number of them, next to the
calls that await nothing but the database. A task may stop anywhere: the response is a failure,
cannot be read, is lost or comes too late, a check throws, the application is closed.

`Fleet.Inv` is the inductive invariant. What makes a marker truthful is that the server never gives
an attachment up again: a response that was truthful once stays so.
-/

namespace Syncraft

open Domain Library Api
open Store (Space SameAttachment tablet)
open Syncraft.Field (LocalStore AttachmentRow idPattern toGo fromGo Carried)
open Syncraft.Field.AttachmentStore (RemoteRow pendingUploads confirmUpload wanted storeFetched
  markUploaded)

/-- Where a run of `uploadPending` or `fetch` stands. -/
inductive Task where
  | idle
  /-- In the loop of `uploadPending`, with the rows that are left. -/
  | uploading (rows : List AttachmentRow)
  /-- The upload of `row` is out. -/
  | posted (row : AttachmentRow) (rows : List AttachmentRow) (request : Api.Request)
  /-- `fetch` has asked for the list. -/
  | listing (record : DartString) (request : Api.Request)
  /-- In the loop of `fetch`, with the rows that are left. -/
  | fetching (record : DartString) (rows : List RemoteRow)
  /-- The download of `row` is out. -/
  | downloading (record : DartString) (row : RemoteRow) (rows : List RemoteRow)
    (request : Api.Request)

/-- The devices, the server, and the responses it has given. -/
structure Fleet (δ ι : Type) where
  server : Running ι Backend Ask (Api.Request × Response)
  replies : List (Api.Request × Response)
  stores : δ → LocalStore
  tasks : δ → Nat → Task

namespace Fleet

/-- What is the same in every run: the server, the workspace of the devices, and their SHA-256. -/
structure Setting where
  server : Server
  workspace : GoString
  sha256 : List UInt8 → DartString

/-- The credentials are for the workspace, if they are for any. -/
def Setting.Admits (F : Setting) (c : Carried) : Prop :=
  ∀ claims, F.server.verify (trimBearer c.authorization) c.now = some claims →
    claims.workspace = F.workspace

/-- A session of the server answers any request. -/
def Setting.Starts (F : Setting) (x : Program Ask (Api.Request × Response)) : Prop :=
  ∃ r, x = (F.server.handler r >>= fun response => pure (r, response))

/-- One step of a task on the store of its device. `answered` are the responses given so far. -/
inductive TaskStep (F : Setting) (answered : Api.Request → Response → Prop) (s : LocalStore) :
    Task → LocalStore → Task → Prop where
  /-- `uploadPending` reads what is not uploaded. -/
  | pending : TaskStep F answered s .idle s (.uploading (pendingUploads s))
  | post (row : AttachmentRow) (rows : List AttachmentRow) (c : Carried) : F.Admits c →
      TaskStep F answered s (.uploading (row :: rows)) s
        (.posted row rows (Field.ApiClient.upload c row))
  /-- The response is read, its hash compared, and the row marked. -/
  | confirm (row : AttachmentRow) (rows : List AttachmentRow) (r : Api.Request)
      (response : Response) (s' : LocalStore) : answered r response →
      confirmUpload row (Field.ApiClient.uploadResult response) s = .ok s' →
      TaskStep F answered s (.posted row rows r) s' (.uploading rows)
  /-- `fetch`, of a record of the application. -/
  | list (record : DartString) (c : Carried) : idPattern record = true → F.Admits c →
      TaskStep F answered s .idle s (.listing record (Field.ApiClient.list c record))
  | listed (record : DartString) (r : Api.Request) (response : Response) (rows : List RemoteRow) :
      answered r response → Field.ApiClient.listResult response = some rows →
      TaskStep F answered s (.listing record r) s (.fetching record rows)
  /-- The store has the ID. -/
  | present (record : DartString) (row : RemoteRow) (rows : List RemoteRow) :
      wanted row s = .ok false →
      TaskStep F answered s (.fetching record (row :: rows)) s (.fetching record rows)
  | get (record : DartString) (row : RemoteRow) (rows : List RemoteRow) (c : Carried) :
      wanted row s = .ok true → F.Admits c →
      TaskStep F answered s (.fetching record (row :: rows)) s
        (.downloading record row rows (Field.ApiClient.download c row.id))
  /-- The response is read, the hash of its data compared, and the row inserted. -/
  | store (record : DartString) (row : RemoteRow) (rows : List RemoteRow) (r : Api.Request)
      (response : Response) (data : List UInt8) (s' : LocalStore) : answered r response →
      Field.ApiClient.downloadResult response = some data →
      storeFetched F.sha256 record row data s = .ok s' →
      TaskStep F answered s (.downloading record row rows r) s' (.fetching record rows)
  /-- The task has come to its end, or fails. -/
  | stop (t : Task) : TaskStep F answered s t s .idle

variable {δ ι : Type}

/-- Before anything has happened. -/
def new : Fleet δ ι :=
  { server := Running.new Backend.new, replies := [], stores := fun _ => LocalStore.new,
    tasks := fun _ _ => .idle }

section Steps

variable [DecidableEq δ] [DecidableEq ι]

/-- One step of the whole. -/
inductive Step (F : Setting) (g : Fleet δ ι) : Fleet δ ι → Prop where
  /-- A session of the server starts, or makes a call, or is over. -/
  | serve (server : Running ι Backend Ask (Api.Request × Response)) :
      Running.Step backend F.Starts g.server server → Step F g { g with server }
  /-- A session has come to its response. -/
  | reply (i : ι) (r : Api.Request) (response : Response) :
      g.server.sessions i = some (.done (r, response)) →
      Step F g { g with replies := g.replies ++ [(r, response)] }
  /-- A call that awaits nothing but the database. -/
  | call (i : δ) (c : LocalStore.Call) : c.Offline →
      Step F g { g with stores := Function.update g.stores i ((g.stores i).after F.sha256 c) }
  | task (i : δ) (k : Nat) (s : LocalStore) (t : Task) :
      TaskStep F (fun r response => (r, response) ∈ g.replies) (g.stores i) (g.tasks i k) s t →
      Step F g
        { g with
          stores := Function.update g.stores i s
          tasks := Function.update g.tasks i (Function.update (g.tasks i) k t) }

/-- What some steps make of `g`. -/
def Later (F : Setting) (g g' : Fleet δ ι) : Prop := Relation.ReflTransGen (Step F) g g'

end Steps

/-! ### What the server holds, as a device reads it -/

/-- The server holds an attachment with the ID, for the record and with the hash. -/
def Held (s : Space) (id record sha256 : DartString) : Prop :=
  ∃ a, s.attachments.lookup (toGo id) = some a ∧ a.id = toGo id ∧ a.record = toGo record ∧
    fromGo a.sha256 = some sha256

/-- What holds of the attachments of a device. -/
structure Sound (sha256 : List UInt8 → DartString) (s : Space) (t : LocalStore) : Prop where
  unique : (t.attachments.map AttachmentRow.id).Nodup
  hash : ∀ row ∈ t.attachments, row.sha256 = sha256 row.content
  uploaded : ∀ row ∈ t.attachments, row.uploaded = true → Held s row.id row.record row.sha256

/-- The store has the row, perhaps marked meanwhile. -/
def Stored (t : LocalStore) (row : AttachmentRow) : Prop :=
  ∃ x ∈ t.attachments, { x with uploaded := row.uploaded } = row

/-- What holds of a task. -/
def TaskSound (F : Setting) (s : Space) (t : LocalStore) : Task → Prop
  | .idle => True
  | .uploading rows => ∀ row ∈ rows, Stored t row
  | .posted row rows r =>
    (∀ x ∈ row :: rows, Stored t x) ∧ ∃ c, F.Admits c ∧ r = Field.ApiClient.upload c row
  | .listing record r =>
    idPattern record = true ∧ ∃ c, F.Admits c ∧ r = Field.ApiClient.list c record
  | .fetching record rows => ∀ row ∈ rows, Held s row.id record row.sha256
  | .downloading record row rows _ => ∀ x ∈ row :: rows, Held s x.id record x.sha256

/-- The invariant. -/
structure Inv (F : Setting) (g : Fleet δ ι) : Prop where
  kept : ∀ i, LocalStore.Kept (g.stores i)
  calls : g.server.Makes (Ask.Of F.server)
  grown : Backend.new.Grows F.server g.server.store
  ensured : g.server.Ensures backend (Backend.Grows F.server) fun p => Truthful F.server p.1 p.2
  replies : ∀ p ∈ g.replies, Truthful F.server p.1 p.2 g.server.store
  stores : ∀ i, Sound F.sha256 (g.server.store.store F.workspace) (g.stores i)
  tasks : ∀ i k, TaskSound F (g.server.store.store F.workspace) (g.stores i) (g.tasks i k)

theorem new_inv (F : Setting) : Inv F (new : Fleet δ ι) where
  kept _ := LocalStore.kept_new
  calls := Running.new_makes _
  grown := grows_refl _
  ensured := Running.new_ensures _
  replies := fun _ hp => by cases hp
  stores _ :=
    { unique := List.nodup_nil, hash := fun _ hrow => by cases hrow
      uploaded := fun _ hrow => by cases hrow }
  tasks _ _ := trivial

/-! ### The server -/

section Server

variable {F : Setting} {puts : Attachment → Prop} {s s' : Space} {t : LocalStore}

theorem Held.later {id record sha256 : DartString} (h : Held s id record sha256)
    (hs : s.Grows puts s') : Held s' id record sha256 := by
  obtain ⟨a, ha, hsame⟩ := h
  exact ⟨a, hs.kept ha, hsame⟩

theorem Sound.later {sha256 : List UInt8 → DartString} (h : Sound sha256 s t)
    (hs : s.Grows puts s') : Sound sha256 s' t where
  unique := h.unique
  hash := h.hash
  uploaded row hrow hmarked := (h.uploaded row hrow hmarked).later hs

theorem TaskSound.later {task : Task} (h : TaskSound F s t task) (hs : s.Grows puts s') :
    TaskSound F s' t task := by
  cases task with
  | fetching record rows => exact fun row hrow => (h row hrow).later hs
  | downloading record row rows r => exact fun x hx => (h x hx).later hs
  | _ => exact h

theorem session_of {x : Program Ask (Api.Request × Response)} (hx : F.Starts x) :
    x.Makes (Ask.Of F.server) := by
  obtain ⟨r, rfl⟩ := hx
  exact handler_of.bind fun _ => trivial

theorem session_ensures {b : Backend} (hb : Backend.new.Grows F.server b)
    {x : Program Ask (Api.Request × Response)} (hx : F.Starts x) :
    x.Ensures backend (Backend.Grows F.server) (fun p => Truthful F.server p.1 p.2) b := by
  obtain ⟨r, rfl⟩ := hx
  exact (Server.handler_ensures r hb).bind fun response b h => h

theorem Inv.serve [DecidableEq ι] {g : Fleet δ ι} (h : Inv F g)
    {server : Running ι Backend Ask (Api.Request × Response)}
    (hstep : Running.Step backend F.Starts g.server server) : Inv F { g with server } := by
  have hstable : ∀ (p : Api.Request × Response) b b', Truthful F.server p.1 p.2 b →
      b.Grows F.server b' → Truthful F.server p.1 p.2 b' := fun _ _ _ hp hb => hp.later hb
  obtain ⟨hgrows, hensured⟩ := hstep.ensures grows_refl grows_trans hstable
    (fun β a b ha => answer_grows β a b ha) (fun x hx => session_ensures h.grown hx) h.calls
    h.ensured
  exact
    { kept := h.kept
      calls := hstep.makes (fun x hx => session_of hx) h.calls
      grown := grows_trans _ _ _ h.grown hgrows
      ensured := hensured
      replies := fun p hp => (h.replies p hp).later hgrows
      stores := fun i => (h.stores i).later (hgrows F.workspace)
      tasks := fun i k => (h.tasks i k).later (hgrows F.workspace) }

theorem Inv.reply {g : Fleet δ ι} (h : Inv F g) {i : ι} {r : Api.Request} {response : Response}
    (hdone : g.server.sessions i = some (.done (r, response))) :
    Inv F { g with replies := g.replies ++ [(r, response)] } :=
  { h with
    replies := fun p hp => by
      rcases List.mem_append.mp hp with hp | hp
      · exact h.replies p hp
      · obtain rfl := List.mem_singleton.mp hp
        exact h.ensured i _ hdone }

end Server

/-! ### The devices -/

section Devices

variable {F : Setting} {s : Space} {t t' : LocalStore}

theorem Stored.attaches {sha256 : List UInt8 → DartString} {row : AttachmentRow} (h : Stored t row)
    (ht : Field.RecoveryBundle.Attaches sha256 t t') : Stored t' row := by
  obtain ⟨x, hx, hsame⟩ := h
  obtain ⟨added, hadded, -⟩ := ht.rows
  exact ⟨x, by rw [hadded]; exact List.mem_append_left _ hx, hsame⟩

theorem Sound.attaches {sha256 : List UInt8 → DartString} (h : Sound sha256 s t)
    (ht : Field.RecoveryBundle.Attaches sha256 t t') : Sound sha256 s t' := by
  obtain ⟨added, hadded, hrows⟩ := ht.rows
  have hcases : ∀ row ∈ t'.attachments, row ∈ t.attachments ∨ row ∈ added := fun row hrow =>
    List.mem_append.mp (hadded ▸ hrow)
  constructor
  case unique => exact ht.unique h.unique
  case hash =>
    intro row hrow
    rcases hcases row hrow with hrow | hrow
    · exact h.hash row hrow
    · exact (hrows row hrow).1.hash
  case uploaded =>
    intro row hrow hmarked
    rcases hcases row hrow with hrow | hrow
    · exact h.uploaded row hrow hmarked
    · rw [(hrows row hrow).2] at hmarked
      cases hmarked

/-- A mark changes nothing but the mark. -/
theorem Stored.marked {row : AttachmentRow} (h : Stored t row) (id : DartString) :
    Stored (markUploaded id t) row := by
  obtain ⟨x, hx, hsame⟩ := h
  refine ⟨_, List.mem_map_of_mem hx, ?_⟩
  split
  · exact hsame
  · exact hsame

/-- Marking a row is sound when the server holds the row that was read. -/
theorem Sound.marked {sha256 : List UInt8 → DartString} (h : Sound sha256 s t) {row : AttachmentRow}
    (hrow : Stored t row) (hheld : Held s row.id row.record row.sha256) :
    Sound sha256 s (markUploaded row.id t) := by
  constructor
  case unique =>
    rw [Field.AttachmentStore.markUploaded_ids]
    exact h.unique
  case hash =>
    intro x hx
    obtain ⟨y, hy, rfl⟩ := List.mem_map.mp hx
    split
    · exact h.hash y hy
    · exact h.hash y hy
  case uploaded =>
    intro x hx hmarked
    obtain ⟨y, hy, rfl⟩ := List.mem_map.mp hx
    split
    · next hid =>
        -- IDs are unique, so this is the row that was read.
        obtain ⟨z, hz, hsame⟩ := hrow
        have hzid : z.id = row.id := by rw [← hsame]
        obtain rfl := List.inj_on_of_nodup_map h.unique hy hz (hid.trans hzid.symm)
        rw [← hsame] at hheld
        exact hheld
    · next hid =>
        rw [if_neg hid] at hmarked
        exact h.uploaded y hy hmarked

theorem Stored.inserted {row new : AttachmentRow} (h : Stored t row)
    (hnew : Field.RecoveryBundle.insertAttachment new t = .ok t') : Stored t' row := by
  obtain ⟨-, rfl⟩ := Field.AttachmentStore.insertAttachment_ok hnew
  obtain ⟨x, hx, hsame⟩ := h
  exact ⟨x, List.mem_append_left _ hx, hsame⟩

/-- Inserting a row as uploaded is sound when the server holds it. -/
theorem Sound.inserted {sha256 : List UInt8 → DartString} (h : Sound sha256 s t)
    {new : AttachmentRow} (hnew : Field.RecoveryBundle.insertAttachment new t = .ok t')
    (hhash : new.sha256 = sha256 new.content) (hheld : Held s new.id new.record new.sha256) :
    Sound sha256 s t' := by
  have hunique := Field.RecoveryBundle.insertAttachment_nodup hnew h.unique
  obtain ⟨-, rfl⟩ := Field.AttachmentStore.insertAttachment_ok hnew
  constructor
  case unique => exact hunique
  case hash =>
    intro row hrow
    rcases List.mem_append.mp hrow with hrow | hrow
    · exact h.hash row hrow
    · obtain rfl := List.mem_singleton.mp hrow
      exact hhash
  case uploaded =>
    intro row hrow hmarked
    rcases List.mem_append.mp hrow with hrow | hrow
    · exact h.uploaded row hrow hmarked
    · obtain rfl := List.mem_singleton.mp hrow
      exact hheld

/-- A task is not disturbed by what happens to the store of its device. -/
theorem TaskSound.stored {task : Task} (h : TaskSound F s t task)
    (ht : ∀ row, Stored t row → Stored t' row) : TaskSound F s t' task := by
  cases task with
  | uploading rows => exact fun row hrow => ht row (h row hrow)
  | posted row rows r => exact ⟨fun x hx => ht x (h.1 x hx), h.2⟩
  | _ => exact h

theorem Inv.stored [DecidableEq δ] {g : Fleet δ ι} (h : Inv F g) {i : δ} (hk : LocalStore.Kept t)
    (hs : Sound F.sha256 (g.server.store.store F.workspace) t)
    (ht : ∀ row, Stored (g.stores i) row → Stored t row) :
    Inv F { g with stores := Function.update g.stores i t } := by
  refine { h with kept := fun j => ?_, stores := fun j => ?_, tasks := fun j k => ?_ }
  · by_cases hj : j = i
    · subst hj
      simpa using hk
    · simpa [hj] using h.kept j
  · by_cases hj : j = i
    · subst hj
      simpa using hs
    · simpa [hj] using h.stores j
  · by_cases hj : j = i
    · subst hj
      simpa using (h.tasks j k).stored ht
    · simpa [hj] using h.tasks j k

theorem Inv.tasked [DecidableEq δ] {g : Fleet δ ι} (h : Inv F g) {i : δ} {k : Nat} {task : Task}
    (ht : TaskSound F (g.server.store.store F.workspace) (g.stores i) task) :
    Inv F
      { g with tasks := Function.update g.tasks i (Function.update (g.tasks i) k task) } := by
  refine { h with tasks := fun j l => ?_ }
  by_cases hj : j = i
  · subst hj
    by_cases hl : l = k
    · subst hl
      simpa using ht
    · simpa [hl] using h.tasks j l
  · simpa [hj] using h.tasks j l

end Devices

/-! ### Responses -/

section Responses

variable {F : Setting} {b : Backend} {c : Carried} {response : Response}

/-- The hash that came back with an upload is that of an attachment the server holds. -/
theorem held_of_upload (hc : F.Admits c) (hb : Backend.new.Grows F.server b) {row : AttachmentRow}
    (h : Truthful F.server (Field.ApiClient.upload c row) response b)
    (hread : Field.ApiClient.uploadResult response = some row.sha256) :
    Held (b.store F.workspace) row.id row.record row.sha256 := by
  obtain ⟨a, hbody, hsha⟩ := Field.ApiClient.uploadResult_some hread
  obtain ⟨claims, hclaims, x, hx, hrecord, hhash⟩ := h.uploaded (toGo row.id) a rfl hbody
  rw [hc claims hclaims] at hx
  exact ⟨x, hx, ((hb _).held hx).1, hrecord, hhash ▸ hsha⟩

/-- What is read of a list, the server holds. -/
theorem held_of_list (hc : F.Admits c) (hb : Backend.new.Grows F.server b) {record : DartString}
    (h : Truthful F.server (Field.ApiClient.list c record) response b) {rows : List RemoteRow}
    (hread : Field.ApiClient.listResult response = some rows) {row : RemoteRow}
    (hrow : row ∈ rows) : Held (b.store F.workspace) row.id record row.sha256 := by
  obtain ⟨listed, hbody, hlisted⟩ := Field.ApiClient.listResult_some hread
  obtain ⟨claims, hclaims, hheld⟩ := h.listed listed rfl hbody
  rw [hc claims hclaims] at hheld
  obtain ⟨a, ha, hreceived⟩ := Field.ApiClient.mem_of_mapM hlisted hrow
  obtain ⟨hid, -, -, hsha, -⟩ := Field.ApiClient.receiveAttachment_some hreceived
  obtain ⟨x, hx, hrecord, hhash⟩ := hheld a ha
  -- Only valid IDs were ever accepted, so the ID is read as what it is.
  obtain ⟨hxid, r, id, hup⟩ := (hb _).held hx
  have hchecked := Server.uploaded_ok hup
  have hvalid : validID a.id = true := by
    rw [← hxid, hchecked.id.1]
    exact hchecked.id.2
  rw [← Field.toGo_of_fromGo hvalid hid] at hx hxid
  exact ⟨x, hx, hxid, hrecord, hhash ▸ hsha⟩

end Responses

/-! ### Steps -/

variable [DecidableEq δ] {F : Setting} {g g' : Fleet δ ι}

theorem Inv.call (h : Inv F g) (i : δ) {c : LocalStore.Call} (hc : c.Offline) :
    Inv F { g with stores := Function.update g.stores i ((g.stores i).after F.sha256 c) } := by
  cases hcall : (g.stores i).call F.sha256 c with
  | error e =>
      rw [LocalStore.after_error hcall, Function.update_eq_self]
      exact h
  | ok s =>
      have hattaches := LocalStore.call_attaches (h.kept i) hc hcall
      have hkept := (h.kept i).call hcall
      rw [LocalStore.after_ok hcall]
      exact h.stored hkept ((h.stores i).attaches hattaches) fun row hrow => hrow.attaches hattaches

/-- A task that goes on, on a store that is what it was. -/
theorem Inv.proceed (h : Inv F g) (i : δ) (k : Nat) {task : Task}
    (ht : TaskSound F (g.server.store.store F.workspace) (g.stores i) task) :
    Inv F
      { g with
        stores := Function.update g.stores i (g.stores i)
        tasks := Function.update g.tasks i (Function.update (g.tasks i) k task) } := by
  rw [Function.update_eq_self]
  exact h.tasked ht

theorem Inv.task (h : Inv F g) {i : δ} {k : Nat} {s : LocalStore} {t : Task}
    (hstep : TaskStep F (fun r response => (r, response) ∈ g.replies) (g.stores i) (g.tasks i k)
      s t) :
    Inv F
      { g with
        stores := Function.update g.stores i s
        tasks := Function.update g.tasks i (Function.update (g.tasks i) k t) } := by
  have htask := h.tasks i k
  generalize g.tasks i k = task at hstep htask
  cases hstep with
  | pending =>
      refine h.proceed i k fun row hrow => ?_
      have hmem := (List.mem_filter.mp (List.mem_of_mem_take hrow)).1
      exact ⟨row, hmem, rfl⟩
  | post row rows c hc => exact h.proceed i k ⟨htask, c, hc, rfl⟩
  | confirm row rows r response s hresponse hok =>
      obtain ⟨hstored, c, hc, rfl⟩ := htask
      have hcall : (g.stores i).call F.sha256
          (.confirmUpload row (Field.ApiClient.uploadResult response)) = .ok s := hok
      have hkept := (h.kept i).call hcall
      obtain ⟨hread, rfl⟩ := Field.AttachmentStore.confirmUpload_ok hok
      have hheld := held_of_upload hc h.grown (h.replies _ hresponse) hread
      have hsound := (h.stores i).marked (hstored row List.mem_cons_self) hheld
      have hmid := h.stored hkept hsound fun x hx => hx.marked row.id
      have hrest : ∀ x ∈ rows, Stored (markUploaded row.id (g.stores i)) x := fun x hx =>
        (hstored x (List.mem_cons_of_mem _ hx)).marked row.id
      rw [← Function.update_self i (markUploaded row.id (g.stores i)) g.stores] at hrest
      exact hmid.tasked hrest
  | list record c hrecord hc => exact h.proceed i k ⟨hrecord, c, hc, rfl⟩
  | listed record r response rows hresponse hread =>
      obtain ⟨-, c, hc, rfl⟩ := htask
      exact h.proceed i k fun row hrow =>
        held_of_list hc h.grown (h.replies _ hresponse) hread hrow
  | present record row rows hhas =>
      exact h.proceed i k fun x hx => htask x (List.mem_cons_of_mem _ hx)
  | get record row rows c hwanted hc => exact h.proceed i k htask
  | store record row rows r response data s hresponse hdata hok =>
      have hcall : (g.stores i).call F.sha256 (.storeFetched record row data) = .ok s := hok
      have hkept := (h.kept i).call hcall
      obtain ⟨hhash, hinsert⟩ := Field.AttachmentStore.storeFetched_ok hok
      have hsound := (h.stores i).inserted hinsert hhash (htask row List.mem_cons_self)
      have hmid := h.stored hkept hsound fun x hx => hx.inserted hinsert
      exact hmid.tasked fun x hx => htask x (List.mem_cons_of_mem _ hx)
  | stop t => exact h.proceed i k trivial

variable [DecidableEq ι]

theorem Step.inv (hstep : Step F g g') (h : Inv F g) : Inv F g' := by
  cases hstep with
  | serve server hserve => exact h.serve hserve
  | reply i r response hdone => exact h.reply hdone
  | call i c hc => exact h.call i hc
  | task i k s t htask => exact h.task htask

theorem Later.inv (hlater : Later F g g') (h : Inv F g) : Inv F g' := by
  induction hlater with
  | refl => exact h
  | tail _ hstep ih => exact hstep.inv ih

/-- What the server holds, it keeps. -/
theorem Step.grows (hstep : Step F g g') (h : Inv F g) :
    g.server.store.Grows F.server g'.server.store := by
  cases hstep with
  | serve server hserve =>
      rcases hserve.store h.calls with heq | ⟨β, c, hc, heq⟩
      · show Backend.Grows F.server _ server.store
        rw [heq]
        exact grows_refl _
      · show Backend.Grows F.server _ server.store
        rw [heq]
        exact answer_grows β c _ hc
  | reply i r response hdone => exact grows_refl _
  | call i c hc => exact grows_refl _
  | task i k s t htask => exact grows_refl _

theorem Later.grows (hlater : Later F g g') (h : Inv F g) :
    g.server.store.Grows F.server g'.server.store := by
  induction hlater with
  | refl => exact grows_refl _
  | tail hbefore hstep ih => exact grows_trans _ _ _ ih (hstep.grows (Later.inv hbefore h))

/-- What holds of the attachments at a moment `g` and any later one `g'`. -/
structure Integrity (F : Setting) (g g' : Fleet δ ι) : Prop where
  /-- What the server has stored never changes. -/
  stored : ∀ w id a, (g.server.store.store w).attachments.lookup id = some a →
    (g'.server.store.store w).attachments.lookup id = some a
  /-- A repeated upload of an active device succeeds exactly when record, name, type and hash are
  equal. It changes nothing and logs nothing. -/
  repeated : ∀ w device actor a old, (g.server.store.store w).active device actor = true →
    (g.server.store.store w).attachments.lookup a.id = some old →
    ((backend.answer (.store w (.putAttachment device actor a)) g.server.store).1 = .ok () ↔
      old.record = a.record ∧ old.name = a.name ∧ old.type = a.type ∧ old.sha256 = a.sha256) ∧
    (backend.answer (.store w (.putAttachment device actor a)) g.server.store).2 = g.server.store
  /-- In every local store the hash of a row is that of its content. -/
  hash : ∀ i, ∀ row ∈ (g.stores i).attachments, row.sha256 = F.sha256 row.content
  /-- A row that is marked, the server holds. -/
  uploaded : ∀ i, ∀ row ∈ (g.stores i).attachments, row.uploaded = true →
    Held (g.server.store.store F.workspace) row.id row.record row.sha256

theorem repeated_upload {b : Backend} {w device actor : GoString} {a old : Attachment}
    (hactive : (b.store w).active device actor = true)
    (hold : (b.store w).attachments.lookup a.id = some old) :
    ((backend.answer (.store w (.putAttachment device actor a)) b).1 = .ok () ↔
      SameAttachment old a) ∧
    (backend.answer (.store w (.putAttachment device actor a)) b).2 = b := by
  have hput := Space.putAttachment_again hactive hold
  constructor
  · show ((b.store w).putAttachment device actor a).1 = .ok () ↔ _
    rw [hput]
    by_cases hsame : SameAttachment old a
    · rw [if_pos hsame]
      exact iff_of_true rfl hsame
    · rw [if_neg hsame]
      exact iff_of_false (fun h => by cases h) hsame
  · show { b with
      store := Function.update b.store w ((b.store w).putAttachment device actor a).2 } = b
    rw [hput, Function.update_eq_self]

/-- **Attachment integrity.** In every run, however the devices' tasks, the network and the requests
that the server answers interleave. -/
theorem attachment_integrity (h : Later F new g) (h' : Later F g g') : Integrity F g g' := by
  have hinv := h.inv (new_inv F)
  constructor
  case stored => exact fun w id a ha => (h'.grows hinv w).kept ha
  case repeated => exact fun w device actor a old hactive hold => repeated_upload hactive hold
  case hash => exact fun i => (hinv.stores i).hash
  case uploaded => exact fun i => (hinv.stores i).uploaded

/-- What the sessions of the server do, the whole does. -/
theorem later_serve {server : Running ι Backend Ask (Api.Request × Response)}
    (h : Running.Later backend F.Starts g.server server) : Later F g { g with server } := by
  induction h with
  | refl => exact Relation.ReflTransGen.refl
  | tail _ hstep ih => exact ih.tail (Step.serve _ hstep)

/-- The hash of the letter `a`, as the server and the devices write it. -/
def letterHash : String := "ca978112ca1bbdcafac231b39a23dc4da786eff8147c4f72b9807785afee48bb"

/-- A server and devices that hash the letter `a`. -/
def letterSetting : Setting :=
  { server := { demo with packages := { demo.packages with sha256 := fun _ => go letterHash } }
    workspace := go "site-a", sha256 := fun _ => dart letterHash }

def tabletCarried : Carried :=
  { authorization := go "Bearer ada", device := tablet.id, origin := [], limited := false
    now := 0 }

def letterRow : AttachmentRow :=
  { id := dart "0b000000-0000-4000-8000-000000000001"
    record := dart "0c000000-0000-4000-8000-000000000001"
    name := dart "a.txt", mediaType := dart "text/plain", sha256 := dart letterHash
    content := [0x61], uploaded := false }

def addLetter : LocalStore.Call :=
  .add letterRow.record letterRow.name letterRow.mediaType letterRow.content letterRow.id

theorem after_addLetter : LocalStore.new.after letterSetting.sha256 addLetter =
    { LocalStore.new with attachments := [letterRow] } := by
  decide

theorem admits_tablet : letterSetting.Admits tabletCarried := by
  intro claims h
  have hclaims : letterSetting.server.verify (trimBearer tabletCarried.authorization)
      tabletCarried.now =
        some { workspace := go "site-a", role := go "editor", subject := go "ada"
               expires := 9 } := by
    decide
  obtain rfl := Option.some.inj (hclaims.symm.trans h)
  rfl

/-- The tablet is registered, an attachment is added and uploaded, and its row is marked. -/
theorem attachment_integrity_run : ∃ g : Fleet Unit Unit, Later letterSetting new g ∧
    (g.stores ()).attachments = [{ letterRow with uploaded := true }] ∧
      Integrity letterSetting g g := by
  let S := letterSetting.server
  let register := requestOf .register (go "ada") tablet.id
  let post := Field.ApiClient.upload tabletCarried letterRow
  let registered := (S.serve register Backend.new).2
  let session (r : Api.Request) : Program Ask (Api.Request × Response) :=
    S.handler r >>= fun response => pure (r, response)
  have hresponse :
      Field.ApiClient.uploadResult (S.serve post registered).1 = some letterRow.sha256 := by
    have hserve : (S.serve post registered).1 =
        { status := 201
          body := .attachment
            { id := toGo letterRow.id, record := toGo letterRow.record, name := toGo letterRow.name
              type := toGo letterRow.mediaType, sha256 := go letterHash, size := 1
              data := [] } } := by
      decide
    rw [hserve]
    exact Field.fromGo_text _
  have h₁ : Later letterSetting (new : Fleet Unit Unit) _ :=
    later_serve (run_steps (i := ()) (x := session register) ⟨_, rfl⟩ rfl)
  have hid : idPattern letterRow.id = true := by decide
  have h₂ := h₁.tail (Step.call () addLetter hid)
  rw [show (new : Fleet Unit Unit).stores () = LocalStore.new from rfl, after_addLetter] at h₂
  have h₃ := h₂.tail (Step.task () 0 _ _ .pending)
  have h₄ := h₃.tail (Step.task () 0 _ _ (.post letterRow [] tabletCarried admits_tablet))
  have h₅ := h₄.trans (later_serve (run_answers (i := ()) (x := session post) ⟨_, rfl⟩ rfl))
  have h₆ := h₅.tail (Step.reply () post (S.serve post registered).1 rfl)
  have hconfirm : confirmUpload letterRow (Field.ApiClient.uploadResult (S.serve post registered).1)
      { LocalStore.new with attachments := [letterRow] } =
      .ok { LocalStore.new with attachments := [{ letterRow with uploaded := true }] } := by
    rw [hresponse]
    rfl
  have h₇ := h₆.tail
    (Step.task () 0 _ _ (.confirm letterRow [] post _ _ (List.mem_singleton_self _) hconfirm))
  exact ⟨_, h₇, rfl, attachment_integrity h₇ Relation.ReflTransGen.refl⟩

end Fleet

end Syncraft
