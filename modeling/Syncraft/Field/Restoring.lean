import Syncraft.Field.Recoverable

/-!
# Syncraft.Field.Restoring

`restore` of any bytes, amid the other calls of the local store. Between its look for operations
and its transaction, and again between the transaction and `deviceId`, other calls come in
(`restoreAmid`). It is all or nothing nevertheless: `restore_all_or_nothing` says everything it
can do.
-/

namespace Syncraft.Field

open CausalLog
open RecoveryBundle (Restorable)

namespace LocalStore

/-- The database after some calls. -/
def afterAll (sha256 : List UInt8 → DartString) (s : LocalStore) (calls : List Call) : LocalStore :=
  calls.foldl (after sha256) s

end LocalStore

namespace RecoveryBundle

open LocalStore (ok_of_bind ok_bind Call Kept)

/-! ### A restore amid other calls -/

/-- What `restore` makes of the content of a bundle, before its transaction. -/
def validate (sha256 : List UInt8 → DartString) (bytes : List UInt8) :
    Except Exn (List Operation × List AttachmentRow) := do
  let content ← contentOf sha256 bytes
  let payload ← asMap (Json.decode content)
  let rawOps ← asList (Json.member payload (dart "operations"))
  if rawOps.length > 10000 then .error (.format "Too many operations")
  else do
    let ops ← rawOps.mapM operationOf
    let _ ← Replica.empty.addAll ops
    let rawAttachments ← asList (Json.member payload (dart "attachments"))
    let attachments ← rawAttachments.mapM (attachmentOf sha256)
    return (ops, attachments)

/-- `restore` up to its transaction. -/
def opened (sha256 : List UInt8 → DartString) (s : LocalStore) (bytes : List UInt8) :
    Except Exn (List Operation × List AttachmentRow) :=
  if bytes.length > maxBytes then .error (.format "Recovery bundle exceeds 50 MiB")
  else do
    let existing ← s.operations
    if existing ≠ [] then .error (.format "Restore requires an empty local workspace")
    else validate sha256 bytes

/-- `restore`, with the calls of others that are made before its transaction and after it: what
it completes with, and the database then. -/
def restoreAmid (sha256 : List UInt8 → DartString) (s : LocalStore) (bytes : List UInt8)
    (now : Operation → DartString) (uuid : DartString) (before later : List Call) :
    Except Exn Nat × LocalStore :=
  match opened sha256 s bytes with
  | .error e => (.error e, s.afterAll sha256 before)
  | .ok (ops, attachments) =>
    match transaction (s.afterAll sha256 before) ops attachments now with
    | .error e => (.error e, s.afterAll sha256 before)
    | .ok s' => (.ok ops.length, ((s'.afterAll sha256 later).deviceId uuid).2)

/-- Alone it is `restore`. -/
theorem restoreAmid_alone (sha256 : List UInt8 → DartString) (s : LocalStore) (bytes : List UInt8)
    (now : Operation → DartString) (uuid : DartString) :
    restoreAmid sha256 s bytes now uuid [] [] =
      match restoreBytes sha256 s bytes now uuid with
      | .ok (n, s') => (.ok n, s')
      | .error e => (.error e, s) := by
  have hsteps : restoreBytes sha256 s bytes now uuid =
      (opened sha256 s bytes >>= fun p => do
        let s ← transaction s p.1 p.2 now
        return (p.1.length, (s.deviceId uuid).2)) := by
    rw [restoreBytes, opened]
    split
    · rfl
    rw [LocalStore.operations_eq, ok_bind, ok_bind]
    split
    · rfl
    rw [validate]
    cases contentOf sha256 bytes with
    | error e => rfl
    | ok content =>
        rw [ok_bind, ok_bind]
        cases asMap (Json.decode content) with
        | error e => rfl
        | ok payload =>
            rw [ok_bind, ok_bind]
            cases asList (Json.member payload (dart "operations")) with
            | error e => rfl
            | ok rawOps =>
                rw [ok_bind, ok_bind]
                split
                · rfl
                simp only [bind_assoc, pure_bind]
  rw [restoreAmid, hsteps]
  cases opened sha256 s bytes with
  | error e => rfl
  | ok p =>
      rw [ok_bind]
      show (match transaction s p.1 p.2 now with | .error e => _ | .ok s' => _) = _
      cases transaction s p.1 p.2 now <;> rfl

/-! ### What it comes to -/

/-- The lists of a bundle: its envelope opens, its checksum is right, and its content is a map
with these two lists. -/
def Bundled (sha256 : List UInt8 → DartString) (bytes : List UInt8)
    (rawOps rawAttachments : List Json) : Prop :=
  bytes.length ≤ maxBytes ∧ rawOps.length ≤ 10000 ∧
    ∃ content payload, contentOf sha256 bytes = .ok content ∧
      asMap (Json.decode content) = .ok payload ∧
      asList (Json.member payload (dart "operations")) = .ok rawOps ∧
      asList (Json.member payload (dart "attachments")) = .ok rawAttachments

/-- What the transaction of a restore has found, and what it has left. -/
structure Installed (sha256 : List UInt8 → DartString) (bytes : List UInt8) (s s' : LocalStore)
    (ops : List Operation) (added : List AttachmentRow) : Prop where
  /-- The operations and the attachments are those of the bundle, in its order. -/
  bundle : ∃ rawOps rawAttachments, Bundled sha256 bytes rawOps rawAttachments ∧
    rawOps.mapM operationOf = .ok ops ∧ rawAttachments.mapM (attachmentOf sha256) = .ok added
  empty : s.ops = []
  operations : s'.ops = ops.map Operation.stored
  valid : ∀ o ∈ s'.ops, Accepted o.toOperation
  unique : s'.ids.Nodup
  /-- Parents come earlier, and are of the same record and field. -/
  ordered : ∀ (i : Nat) (hi : i < s'.ops.length), ∀ p ∈ s'.ops[i].parents,
    ∃ (j : Nat) (hj : j < s'.ops.length), j < i ∧ s'.ops[j].id = p ∧
      s'.ops[j].record = s'.ops[i].record ∧ s'.ops[j].field = s'.ops[i].field
  outbox : s'.outbox = ops.map fun o => { id := o.id, attempts := 0, error := none }
  attachments : s'.attachments = s.attachments ++ added
  rows : ∀ row ∈ added, Restorable sha256 row ∧ row.uploaded = false ∧
    ∀ x ∈ s.attachments, x.id ≠ row.id
  rowsUnique : (added.map AttachmentRow.id).Nodup
  cursor : s'.storedCursor = none
  device : s'.device = none
  account : s'.account = s.account

section Installing

variable {sha256 : List UInt8 → DartString} {s s' : LocalStore} {bytes : List UInt8}
  {ops : List Operation} {added : List AttachmentRow}

/-- Content that is valid was bundled, and a replica has taken its operations. -/
theorem validate_ok (hsize : bytes.length ≤ maxBytes) (h : validate sha256 bytes = .ok (ops, added)) :
    (∃ rawOps rawAttachments, Bundled sha256 bytes rawOps rawAttachments ∧
      rawOps.mapM operationOf = .ok ops ∧ rawAttachments.mapM (attachmentOf sha256) = .ok added) ∧
    ∃ r, Replica.empty.addAll ops = .ok r := by
  obtain ⟨content, hcontent, h⟩ := ok_of_bind h
  obtain ⟨payload, hpayload, h⟩ := ok_of_bind h
  obtain ⟨rawOps, hrawOps, h⟩ := ok_of_bind h
  split at h
  · cases h
  next hcount =>
  obtain ⟨ops', hops, h⟩ := ok_of_bind h
  obtain ⟨r, hr, h⟩ := ok_of_bind h
  obtain ⟨rawAttachments, hraw, h⟩ := ok_of_bind h
  obtain ⟨added', hadded, h⟩ := ok_of_bind h
  obtain ⟨rfl, rfl⟩ := Prod.mk.inj (Except.ok.inj h)
  exact ⟨⟨rawOps, rawAttachments,
    ⟨hsize, not_lt.mp hcount, content, payload, hcontent, hpayload, hrawOps, hraw⟩, hops, hadded⟩,
    r, hr⟩

/-- A restore that opened has found no operations. -/
theorem opened_ok (h : opened sha256 s bytes = .ok (ops, added)) :
    s.ops = [] ∧ bytes.length ≤ maxBytes ∧ validate sha256 bytes = .ok (ops, added) := by
  rw [opened] at h
  split at h
  · cases h
  next hsize =>
  rw [LocalStore.operations_eq, ok_bind] at h
  split at h
  · cases h
  next hempty => exact ⟨not_not.mp hempty, not_lt.mp hsize, h⟩

/-- What is accepted of a list of attachments has passed the checks. -/
theorem attachments_restorable {rawAttachments : List Json}
    (h : rawAttachments.mapM (attachmentOf sha256) = .ok added) {row : AttachmentRow}
    (hrow : row ∈ added) : Restorable sha256 row ∧ row.uploaded = false := by
  have hmem : Except.ok row ∈ rawAttachments.map (attachmentOf sha256) :=
    LocalStore.mapM_ok_iff.mp h ▸ List.mem_map_of_mem hrow
  obtain ⟨raw, -, hraw⟩ := List.mem_map.mp hmem
  obtain ⟨row', -, hrow'⟩ := ok_of_bind hraw
  exact checkRaw_ok hrow'

/-- **What the transaction installs.** -/
theorem installed (hk : Kept s) (hsize : bytes.length ≤ maxBytes)
    (hvalid : validate sha256 bytes = .ok (ops, added)) {now : Operation → DartString}
    (h : transaction s ops added now = .ok s') : Installed sha256 bytes s s' ops added := by
  obtain ⟨hbundle, r, hr⟩ := validate_ok hsize hvalid
  obtain ⟨hrows, hn, hunique, hnew, rfl⟩ := transaction_ok hk.outbox h
  have hempty : s.ops = [] := by rw [LocalStore.ops, hrows]; rfl
  have hops : (s.add now ops).ops = ops.map Operation.stored := by
    rw [LocalStore.ops_add, hempty, List.nil_append]
  have hcausal : Causal (s.add now ops).ops := by
    have hc : Causal ([] ++ ops) := Replica.operations_of_addAll hr hn ▸ r.causal
    rw [hops]
    exact LocalStore.causal_stored_iff.mpr hc
  have houtbox : s.outbox = [] := by
    refine List.eq_nil_iff_forall_not_mem.mpr fun q hq => ?_
    have hmem := hk.outbox q.id (List.mem_map_of_mem hq)
    rw [LocalStore.ids_nil hempty] at hmem
    cases hmem
  constructor
  case bundle => exact hbundle
  case empty => exact hempty
  case operations => exact hops
  case valid => exact fun o _ => o.accepted
  case unique =>
    show (s.add now ops).ids.Nodup
    rw [LocalStore.ids_eq]
    exact hcausal.nodup
  case ordered =>
    intro i hi p hp
    obtain ⟨j, hj, hlt, hid, hscope⟩ := hcausal.parent_before hi hp
    exact ⟨j, hj, hlt, hid, sameScope_iff.mp hscope⟩
  case outbox =>
    show s.outbox ++ _ = _
    rw [houtbox, List.nil_append]
  case rows =>
    obtain ⟨rawOps, rawAttachments, -, -, hadded⟩ := hbundle
    intro row hrow
    obtain ⟨hrestorable, huploaded⟩ := attachments_restorable hadded hrow
    exact ⟨hrestorable, huploaded, hnew row hrow⟩
  case rowsUnique => exact hunique
  all_goals rfl

theorem Installed.kept (h : Installed sha256 bytes s s' ops added) : Kept s' := by
  refine ⟨h.unique, fun id hid => ?_⟩
  rw [LocalStore.ids_eq, h.operations, List.map_map]
  rw [h.outbox, List.map_map] at hid
  exact hid

end Installing

/-! ### The device -/

end RecoveryBundle

namespace LocalStore

theorem afterAll_device {sha256 : List UInt8 → DartString} {s : LocalStore} (hk : Kept s)
    (calls : List Call) :
    (s.afterAll sha256 calls).device = s.device ∨
      ∃ c ∈ calls, ∃ id ∈ c.generated, (s.afterAll sha256 calls).device = some id := by
  induction calls generalizing s with
  | nil => exact .inl rfl
  | cons c rest ih =>
      rcases ih (@Kept.after sha256 _ hk c) with hsame | ⟨d, hd, hnew⟩
      · rcases (@Kept.after_metadata sha256 _ hk c).2 with hc | ⟨id, hid, hc⟩
        · exact .inl (hsame.trans hc)
        · exact .inr ⟨c, List.mem_cons_self, id, hid, hsame.trans hc⟩
      · exact .inr ⟨d, List.mem_cons_of_mem _ hd, hnew⟩

theorem Kept.afterAll {sha256 : List UInt8 → DartString} {s : LocalStore} (hk : Kept s)
    (calls : List Call) : Kept (s.afterAll sha256 calls) := by
  induction calls generalizing s with
  | nil => exact hk
  | cons c rest ih => exact ih (hk.after c)

/-- A device without an ID gets one that was generated meanwhile. -/
theorem deviceId_new {sha256 : List UInt8 → DartString} {s : LocalStore} (hk : Kept s)
    (hnone : s.device = none) (later : List Call) (uuid : DartString) :
    ∃ id, ((s.afterAll sha256 later).deviceId uuid).2.device = some id ∧
      (id = uuid ∨ ∃ c ∈ later, id ∈ c.generated) := by
  rw [deviceId]
  split
  · next id hid =>
      rcases @afterAll_device sha256 _ hk later with hsame | ⟨c, hc, id', hid', hnew⟩
      · rw [hsame, hnone] at hid
        cases hid
      · obtain rfl := Option.some.inj (hid.symm.trans hnew)
        exact ⟨id, hid, .inr ⟨c, hc, hid'⟩⟩
  · exact ⟨uuid, rfl, .inl rfl⟩

end LocalStore

namespace RecoveryBundle

open LocalStore (Call Kept)

/-- **A restore is all or nothing.** In every database that keeps the constraints of its schema, as
every one that can be reached does, of any bytes and amid any calls of others: it throws and has
done nothing, or its transaction has installed the bundle into a database without operations, and
the device has an ID that was generated since. What has an ID twice, a cycle, or parents that come
later or are foreign, is never installed. -/
theorem restore_all_or_nothing {sha256 : List UInt8 → DartString} {s : LocalStore} (hs : Kept s)
    (bytes : List UInt8) (now : Operation → DartString)
    (uuid : DartString) (before later : List Call) :
    (∃ e, restoreAmid sha256 s bytes now uuid before later = (.error e, s.afterAll sha256 before)) ∨
      ∃ s' ops added, Installed sha256 bytes (s.afterAll sha256 before) s' ops added ∧
        restoreAmid sha256 s bytes now uuid before later =
          (.ok ops.length, ((s'.afterAll sha256 later).deviceId uuid).2) ∧
        ∃ id, ((s'.afterAll sha256 later).deviceId uuid).2.device = some id ∧
          (id = uuid ∨ ∃ c ∈ later, id ∈ c.generated) := by
  have hk : (s.afterAll sha256 before).Kept := hs.afterAll before
  rw [restoreAmid]
  cases hopened : opened sha256 s bytes with
  | error e => exact .inl ⟨e, rfl⟩
  | ok p =>
      obtain ⟨ops, added⟩ := p
      dsimp only
      obtain ⟨-, hsize, hvalid⟩ := opened_ok hopened
      cases htransaction : transaction (s.afterAll sha256 before) ops added now with
      | error e => exact .inl ⟨e, rfl⟩
      | ok s' =>
          have hdone := installed hk hsize hvalid htransaction
          have hk' : s'.Kept := hdone.kept
          exact .inr ⟨s', ops, added, hdone, rfl, LocalStore.deviceId_new hk' hdone.device later uuid⟩

/-- The bundle of two edits is installed in a new database. `sha256` is right about the payload
there is. -/
theorem restore_all_or_nothing_run : ∃ s' ops added,
    Installed (fun _ => LocalStore.twoHash)
      ((LocalStore.edited 2).bundle fun _ => LocalStore.twoHash) LocalStore.new s' ops added ∧
    restoreAmid (fun _ => LocalStore.twoHash) LocalStore.new
        ((LocalStore.edited 2).bundle fun _ => LocalStore.twoHash) LocalStore.morning gate.id [] [] =
      (.ok 2, (s'.deviceId gate.id).2) := by
  have hexport := @LocalStore.export_edited (fun _ => LocalStore.twoHash) (fun _ => by decide) 2
    (by decide)
  have hs := (LocalStore.reachable_edited Api.demo (fun _ => LocalStore.twoHash)
    (show 2 ≤ 10 ^ 12 by decide)).exportable
  have hc : Causal (LocalStore.edited 2).ops :=
    (LocalStore.ops_edited 2).symm ▸ LocalStore.causal_edits (by decide)
  have hlength : (LocalStore.edited 2).ops.length = 2 := by
    rw [LocalStore.ops_edited, LocalStore.length_edits]
  have hpayload : (LocalStore.edited 2).payload.operations.length = 2 := by
    rw [LocalStore.payload, List.length_map, hlength]
  obtain ⟨hcontent, hsize⟩ := LocalStore.export_ok hexport
  obtain ⟨t, hrestore⟩ : ∃ t, restoreBytes (fun _ => LocalStore.twoHash) LocalStore.new
      ((LocalStore.edited 2).bundle fun _ => LocalStore.twoHash) LocalStore.morning gate.id =
        .ok (2, t) := by
    have h := restoreBytes_eq hsize hcontent hs.rows LocalStore.new LocalStore.morning gate.id
    rw [LocalStore.restore_payload hs (by rw [hlength]; decide) hc LocalStore.kept_new rfl rfl,
      hpayload] at h
    exact ⟨_, h⟩
  rcases @restore_all_or_nothing (fun _ => LocalStore.twoHash) LocalStore.new LocalStore.kept_new
    ((LocalStore.edited 2).bundle fun _ => LocalStore.twoHash) LocalStore.morning gate.id [] []
    with ⟨e, he⟩ | ⟨s', ops, added, hdone, hrun, -⟩
  · rw [restoreAmid_alone, hrestore] at he
    cases he
  · have hcount : ops.length = 2 := by
      rw [restoreAmid_alone, hrestore] at hrun
      exact (Except.ok.inj (Prod.mk.inj hrun).1).symm
    refine ⟨s', ops, added, hdone, ?_⟩
    rw [hrun, hcount]
    rfl

end RecoveryBundle

end Syncraft.Field
