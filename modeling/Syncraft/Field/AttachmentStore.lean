import Syncraft.Field.Bundle

/-!
# Syncraft.Field.AttachmentStore

`lib/data/attachment_store.dart`. `uploadPending` and `fetch` await the server between their
statements, so each is cut at its awaits: what it reads first, and what it does with an answer.
A row is only ever inserted, and afterwards only its `uploaded` flag is set.
-/

namespace Syncraft.Field.AttachmentStore

open RecoveryBundle (mediaTypes forbidden insertAttachment Restorable)

/-- `add`. `uuid` is a fresh ID. -/
def add (sha256 : List UInt8 → DartString) (s : LocalStore) (record name media : DartString)
    (bytes : List UInt8) (uuid : DartString) : Except Exn LocalStore :=
  if !idPattern record || name.isEmpty || decide (name.length > 200) || name.any forbidden ||
      bytes.isEmpty || decide (bytes.length > 5 * 1024 * 1024) || !mediaTypes.contains media then
    .error (.format "Use a JPG, PNG, PDF, or text file up to 5 MiB.")
  else
    insertAttachment { id := uuid, record, name, mediaType := media, sha256 := sha256 bytes,
                       content := bytes, uploaded := false } s

/-- The rows `uploadPending` reads. -/
def pendingUploads (s : LocalStore) : List AttachmentRow :=
  (s.attachments.filter fun r => !r.uploaded).take 10

/-- `UPDATE attachments SET uploaded=1 WHERE id=…` -/
def markUploaded (id : DartString) (s : LocalStore) : LocalStore :=
  { s with attachments := s.attachments.map fun r => if r.id = id then { r with uploaded := true } else r }

/-- What `uploadPending` makes of an answer, of which it reads the hash. -/
def confirmUpload (row : AttachmentRow) (sha256 : Option DartString) (s : LocalStore) :
    Except Exn LocalStore :=
  if sha256 ≠ some row.sha256 then .error (.format "Attachment checksum mismatch")
  else .ok (markUploaded row.id s)

/-- A row of the list that `fetch` gets. A `size` that is no integer is `none`. -/
structure RemoteRow where
  id : DartString
  name : DartString
  type : DartString
  sha256 : DartString
  size : Option Int
  deriving DecidableEq

/-- What `fetch` does before it downloads: is the row wanted? -/
def wanted (row : RemoteRow) (s : LocalStore) : Except Exn Bool :=
  if s.attachments.any (fun r => r.id == row.id) then .ok false
  else
    match row.size with
    | some n => if n > 5 * 1024 * 1024 then .error (.format "Attachment too large") else .ok true
    | none => .error (.format "Attachment too large")

/-- What `fetch` makes of a download. -/
def storeFetched (sha256 : List UInt8 → DartString) (record : DartString) (row : RemoteRow)
    (data : List UInt8) (s : LocalStore) : Except Exn LocalStore :=
  if sha256 data != row.sha256 then .error (.format "Attachment checksum mismatch")
  else
    insertAttachment { id := row.id, record, name := row.name, mediaType := row.type,
                       sha256 := row.sha256, content := data, uploaded := true } s

/-! ### What the methods do -/

theorem insertAttachment_ok {row : AttachmentRow} {s s' : LocalStore}
    (h : insertAttachment row s = .ok s') :
    (∀ r ∈ s.attachments, r.id ≠ row.id) ∧ s' = { s with attachments := s.attachments ++ [row] } := by
  rw [insertAttachment] at h
  split at h
  · cases h
  next hnew =>
  refine ⟨fun r hr hid => hnew ?_, (Except.ok.inj h).symm⟩
  exact List.any_eq_true.mpr ⟨r, hr, beq_iff_eq.mpr hid⟩

/-- **Everything an `add` can do**: it inserts one row, which passes the checks of a restore. -/
theorem add_ok {sha256 : List UInt8 → DartString} {s s' : LocalStore}
    {record name media : DartString} {bytes : List UInt8} {uuid : DartString}
    (h : add sha256 s record name media bytes uuid = .ok s') :
    ∃ row : AttachmentRow, row.id = uuid ∧ row.name = name ∧ row.sha256 = sha256 row.content ∧
      row.uploaded = false ∧ (idPattern uuid = true → Restorable sha256 row) ∧
      insertAttachment row s = .ok s' := by
  rw [add] at h
  split at h
  · cases h
  next hchecks =>
  simp only [Bool.or_eq_true, Bool.not_eq_true', decide_eq_true_eq, not_or, Bool.not_eq_false,
    Nat.not_lt, List.isEmpty_iff, List.contains_iff_mem] at hchecks
  obtain ⟨⟨⟨⟨⟨⟨hrecord, hname⟩, hlength⟩, hforbidden⟩, hbytes⟩, hsize⟩, hmedia⟩ := hchecks
  refine ⟨_, rfl, rfl, rfl, rfl, fun huuid => ?_, h⟩
  exact { id := huuid, record := hrecord, nonempty := hbytes, size := hsize, hash := rfl,
          media := hmedia, name := ⟨hname, hlength, by simpa using hforbidden⟩ }

theorem markUploaded_ids (id : DartString) (s : LocalStore) :
    (markUploaded id s).attachments.map AttachmentRow.id =
      s.attachments.map AttachmentRow.id := by
  rw [markUploaded, List.map_map]
  refine List.map_congr_left fun x _ => ?_
  simp only [Function.comp_apply]
  split <;> rfl

theorem confirmUpload_ok {row : AttachmentRow} {sha256 : Option DartString} {s s' : LocalStore}
    (h : confirmUpload row sha256 s = .ok s') :
    sha256 = some row.sha256 ∧ s' = markUploaded row.id s := by
  rw [confirmUpload] at h
  split at h
  · cases h
  next hsha => exact ⟨not_not.mp hsha, (Except.ok.inj h).symm⟩

theorem storeFetched_ok {sha256 : List UInt8 → DartString} {record : DartString} {row : RemoteRow}
    {data : List UInt8} {s s' : LocalStore} (h : storeFetched sha256 record row data s = .ok s') :
    row.sha256 = sha256 data ∧
      insertAttachment { id := row.id, record, name := row.name, mediaType := row.type,
                         sha256 := row.sha256, content := data, uploaded := true } s = .ok s' := by
  rw [storeFetched] at h
  split at h
  · cases h
  next hsha =>
  simp only [bne_iff_ne, not_not] at hsha
  exact ⟨hsha.symm, h⟩

end Syncraft.Field.AttachmentStore
