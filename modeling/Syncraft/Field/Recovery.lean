import Syncraft.Field.LocalStore

/-!
# Syncraft.Field.Recovery

`lib/data/recovery.dart`, from the payload on: what `export` puts into a bundle, and what
`restore` makes of it. The envelope around the payload (JSON text, its checksum, the size
limit) is left out; a bundle that was exported either reaches `restore` as it was, or is
refused.

`restore_ok` says everything a restore can have done.
-/

namespace Syncraft.Field

open CausalLog

/-- `payload` -/
structure Payload where
  operations : List (Domain.Operation DartString)
  attachments : List AttachmentRow

namespace RecoveryBundle

/-- `export` -/
def exportBundle (s : LocalStore) : Except Exn Payload := do
  let ops ← s.operations
  return { operations := ops.map Operation.toJson, attachments := s.attachments }

/-- The media types of an attachment. -/
def mediaTypes : List DartString :=
  [dart "image/jpeg", dart "image/png", dart "application/pdf", dart "text/plain"]

/-- `RegExp(r'[/\\\r\n]')` -/
def forbidden (u : UInt16) : Bool := u == 0x2F || u == 0x5C || u == 0xD || u == 0xA

/-- The checks of an attachment. It has to be uploaded again. -/
def checkAttachment (sha256 : List UInt8 → DartString) (row : AttachmentRow) :
    Except Exn AttachmentRow :=
  if !idPattern row.id || !idPattern row.record || row.content.isEmpty ||
      decide (row.content.length > 5 * 1024 * 1024) || sha256 row.content != row.sha256 ||
      !mediaTypes.contains row.mediaType then
    .error (.format "Invalid recovery attachment")
  else if row.name.isEmpty || decide (row.name.length > 200) || row.name.any forbidden then
    .error (.format "Invalid attachment filename")
  else .ok { row with uploaded := false }

/-- `INSERT INTO attachments` -/
def insertAttachment (row : AttachmentRow) (s : LocalStore) : Except Exn LocalStore :=
  if s.attachments.any (fun x => x.id == row.id) then .error .database
  else .ok { s with attachments := s.attachments ++ [row] }

/-- The loop of the transaction over the operations. -/
def operationLoop (now : Operation → DartString) :
    List Operation → LocalStore → Except Exn LocalStore
  | [], s => .ok s
  | op :: rest, s => do
    let s ← s.insertRow { op, actor := dart "local", created := now op }
    let s ← s.insertOutbox op.id
    operationLoop now rest s

/-- The loop of the transaction over the attachments. -/
def attachmentLoop : List AttachmentRow → LocalStore → Except Exn LocalStore
  | [], s => .ok s
  | row :: rest, s => do
    let s ← insertAttachment row s
    attachmentLoop rest s

/-- The transaction. -/
def transaction (s : LocalStore) (ops : List Operation) (attachments : List AttachmentRow)
    (now : Operation → DartString) : Except Exn LocalStore :=
  if s.rows ≠ [] then .error (.format "Workspace changed during restore")
  else do
    let s ← operationLoop now ops s
    let s ← attachmentLoop attachments s
    return { s with device := none, storedCursor := none }

/-- `restore`, up to `deviceId`. -/
def restore (sha256 : List UInt8 → DartString) (s : LocalStore) (payload : Payload)
    (now : Operation → DartString) : Except Exn LocalStore := do
  let existing ← s.operations
  if existing ≠ [] then .error (.format "Restore requires an empty local workspace")
  else if payload.operations.length > 10000 then .error (.format "Too many operations")
  else do
    let ops ← payload.operations.mapM fromJson
    let _ ← Replica.empty.addAll ops
    let attachments ← payload.attachments.mapM (checkAttachment sha256)
    transaction s ops attachments now

/-! ### What a restore does -/

/-- Inserting operations succeeds when they are new, and then it adds them. -/
theorem operationLoop_ok {s s' : LocalStore} (h : s.OutboxStored) {ops : List Operation}
    {now : Operation → DartString} (hok : operationLoop now ops s = .ok s') :
    s' = s.add now ops ∧ (ops.map fun o => o.id).Nodup ∧ ∀ o ∈ ops, o.id ∉ s.ids := by
  induction ops generalizing s with
  | nil =>
      obtain rfl := Except.ok.inj hok
      exact ⟨by simp [LocalStore.add], List.nodup_nil, by simp⟩
  | cons op rest ih =>
      rw [operationLoop] at hok
      obtain ⟨s₁, h₁, hok⟩ := LocalStore.ok_of_bind hok
      obtain ⟨s₂, h₂, hok⟩ := LocalStore.ok_of_bind hok
      have hnew : op.id ∉ s.ids := by
        simp only [LocalStore.insertRow] at h₁
        split at h₁
        · cases h₁
        · next hrow =>
            rwa [LocalStore.hasRow_iff] at hrow
      have hins := LocalStore.insert_new h hnew now
      rw [h₁] at hins
      obtain rfl := Except.ok.inj (h₂.symm.trans hins)
      obtain ⟨rfl, hn, hd⟩ := ih (h.add now [op]) hok
      refine ⟨by simp only [LocalStore.add_add]; rfl, ?_, ?_⟩
      · simp only [List.map_cons, List.nodup_cons]
        refine ⟨fun hmem => ?_, hn⟩
        obtain ⟨o, ho, hoid⟩ := List.mem_map.mp hmem
        refine hd o ho ?_
        rw [LocalStore.ids_add, hoid]
        simp
      · intro o ho hmem
        rcases List.mem_cons.mp ho with rfl | ho
        · exact hnew hmem
        · refine hd o ho ?_
          simp only [LocalStore.ids_add]
          exact List.mem_append_left _ hmem

/-- Attachments go into their own table. -/
theorem attachmentLoop_ok {s s' : LocalStore} {rows : List AttachmentRow}
    (hok : attachmentLoop rows s = .ok s') :
    s' = { s with attachments := s.attachments ++ rows } := by
  induction rows generalizing s with
  | nil =>
      obtain rfl := Except.ok.inj hok
      simp
  | cons row rest ih =>
      rw [attachmentLoop] at hok
      obtain ⟨s₁, h₁, hok⟩ := LocalStore.ok_of_bind hok
      rw [insertAttachment] at h₁
      split at h₁
      · cases h₁
      · obtain rfl := Except.ok.inj h₁
        rw [ih hok]
        simp

/-- New operations are inserted. -/
theorem operationLoop_new {s : LocalStore} (h : s.OutboxStored) {ops : List Operation}
    (now : Operation → DartString) (hn : (ops.map fun o => o.id).Nodup)
    (hnew : ∀ o ∈ ops, o.id ∉ s.ids) : operationLoop now ops s = .ok (s.add now ops) := by
  induction ops generalizing s with
  | nil => simp [operationLoop, LocalStore.add]
  | cons op rest ih =>
      rw [List.map_cons, List.nodup_cons] at hn
      have hrest : ∀ o ∈ rest, o.id ∉ (s.add now [op]).ids := by
        intro o ho hmem
        rw [LocalStore.ids_add, List.mem_append] at hmem
        rcases hmem with hmem | hmem
        · exact hnew o (List.mem_cons_of_mem _ ho) hmem
        · rw [List.map_singleton, List.mem_singleton] at hmem
          exact hn.1 (hmem ▸ List.mem_map_of_mem ho)
      have hloop : operationLoop now (op :: rest) s =
          ((s.insertRow { op, actor := dart "local", created := now op }).bind
            (LocalStore.insertOutbox op.id)).bind (operationLoop now rest) := by
        rw [operationLoop]
        cases s.insertRow { op, actor := dart "local", created := now op } <;> rfl
      rw [hloop, LocalStore.insert_new h (hnew op List.mem_cons_self) now]
      show operationLoop now rest (s.add now [op]) = _
      rw [ih (h.add now [op]) hn.2 hrest, LocalStore.add_add, List.singleton_append]

/-- New attachments are inserted. -/
theorem attachmentLoop_new {s : LocalStore} {rows : List AttachmentRow}
    (hn : (rows.map AttachmentRow.id).Nodup)
    (hnew : ∀ row ∈ rows, ∀ x ∈ s.attachments, x.id ≠ row.id) :
    attachmentLoop rows s = .ok { s with attachments := s.attachments ++ rows } := by
  induction rows generalizing s with
  | nil => simp [attachmentLoop]
  | cons row rest ih =>
      rw [List.map_cons, List.nodup_cons] at hn
      have hrow : ¬ s.attachments.any (fun x => x.id == row.id) = true := by
        simpa using hnew row List.mem_cons_self
      rw [attachmentLoop, insertAttachment, if_neg hrow]
      show attachmentLoop rest { s with attachments := s.attachments ++ [row] } = _
      rw [ih hn.2]
      · simp
      · intro x hx y hy
        rcases List.mem_append.mp hy with hy | hy
        · exact hnew x (List.mem_cons_of_mem _ hx) y hy
        · rw [List.mem_singleton.mp hy]
          exact fun hid => hn.1 (hid ▸ List.mem_map_of_mem hx)

/-- The primary key keeps the IDs of attachments unique. -/
theorem insertAttachment_nodup {s s' : LocalStore} {row : AttachmentRow}
    (h : insertAttachment row s = .ok s') (hn : (s.attachments.map AttachmentRow.id).Nodup) :
    (s'.attachments.map AttachmentRow.id).Nodup := by
  rw [insertAttachment] at h
  split at h
  · cases h
  next hnew =>
  obtain rfl := Except.ok.inj h
  rw [List.map_append, List.map_singleton]
  refine List.nodup_append.mpr ⟨hn, List.nodup_singleton _, fun id hid id' hid' heq => hnew ?_⟩
  obtain ⟨r, hr, hrid⟩ := List.mem_map.mp hid
  rw [List.mem_singleton.mp hid'] at heq
  exact List.any_eq_true.mpr ⟨r, hr, beq_iff_eq.mpr (hrid.trans heq)⟩

/-- Attachments that were inserted were new, each ID once. -/
theorem attachmentLoop_fresh {s s' : LocalStore} {rows : List AttachmentRow}
    (h : attachmentLoop rows s = .ok s') :
    (rows.map AttachmentRow.id).Nodup ∧ ∀ row ∈ rows, ∀ x ∈ s.attachments, x.id ≠ row.id := by
  induction rows generalizing s with
  | nil => exact ⟨List.nodup_nil, fun _ hrow => by cases hrow⟩
  | cons row rest ih =>
      rw [attachmentLoop] at h
      obtain ⟨s₁, h₁, h⟩ := LocalStore.ok_of_bind h
      rw [insertAttachment] at h₁
      split at h₁
      · cases h₁
      next hnew =>
      obtain rfl := Except.ok.inj h₁
      obtain ⟨hn, hrest⟩ := ih h
      have hrow : ∀ x ∈ s.attachments, x.id ≠ row.id := by
        intro x hx heq
        exact hnew (List.any_eq_true.mpr ⟨x, hx, beq_iff_eq.mpr heq⟩)
      refine ⟨List.nodup_cons.mpr ⟨fun hmem => ?_, hn⟩, fun r hr x hx => ?_⟩
      · obtain ⟨r, hr, hid⟩ := List.mem_map.mp hmem
        exact hrest r hr row (List.mem_append_right _ List.mem_cons_self) hid.symm
      · rcases List.mem_cons.mp hr with rfl | hr
        · exact hrow x hx
        · exact hrest r hr x (List.mem_append_left _ hx)

/-- **Everything the transaction can have done.** There were no operations, and what it was given
has been inserted, each ID once. -/
theorem transaction_ok {s s' : LocalStore} (hs : s.OutboxStored) {ops : List Operation}
    {attachments : List AttachmentRow} {now : Operation → DartString}
    (h : transaction s ops attachments now = .ok s') :
    s.rows = [] ∧ (ops.map fun o => o.id).Nodup ∧ (attachments.map AttachmentRow.id).Nodup ∧
      (∀ row ∈ attachments, ∀ x ∈ s.attachments, x.id ≠ row.id) ∧
      s' = { s.add now ops with
        attachments := s.attachments ++ attachments, device := none, storedCursor := none } := by
  rw [transaction] at h
  split at h
  · cases h
  next hrows =>
  obtain ⟨s₁, h₁, h⟩ := LocalStore.ok_of_bind h
  obtain ⟨s₂, h₂, h⟩ := LocalStore.ok_of_bind h
  obtain ⟨rfl, hn, -⟩ := operationLoop_ok hs h₁
  obtain ⟨hunique, hnew⟩ := attachmentLoop_fresh h₂
  obtain rfl := attachmentLoop_ok h₂
  exact ⟨not_not.mp hrows, hn, hunique, hnew, (Except.ok.inj h).symm⟩

/-- What a restore that returned has found, and what it has done. -/
structure Restoration (sha256 : List UInt8 → DartString) (now : Operation → DartString)
    (payload : Payload) (s s' : LocalStore) (ops : List Operation)
    (attachments : List AttachmentRow) : Prop where
  empty : s.rows = []
  read : payload.operations.mapM fromJson = .ok ops
  causal : Causal ops
  checked : payload.attachments.mapM (checkAttachment sha256) = .ok attachments
  unique : (s.attachments.map AttachmentRow.id).Nodup →
    ((s.attachments ++ attachments).map AttachmentRow.id).Nodup
  result : s' = { s.add now ops with
    attachments := s.attachments ++ attachments, device := none, storedCursor := none }

/-- **Everything a restore can have done.** The store was empty; the bundle's operations are
causally ordered, each ID once, and are all stored and queued; the cursor starts again. -/
theorem restore_ok {sha256 : List UInt8 → DartString} {s s' : LocalStore} (h : s.OutboxStored)
    {payload : Payload} {now : Operation → DartString}
    (hok : restore sha256 s payload now = .ok s') :
    ∃ ops attachments, Restoration sha256 now payload s s' ops attachments := by
  rw [restore, LocalStore.operations_eq] at hok
  replace hok : (if s.ops ≠ [] then _ else _) = _ := hok
  split at hok
  · cases hok
  next hempty =>
  split at hok
  · cases hok
  obtain ⟨ops, hops, hok⟩ := LocalStore.ok_of_bind hok
  obtain ⟨r, hr, hok⟩ := LocalStore.ok_of_bind hok
  obtain ⟨attachments, hattachments, hok⟩ := LocalStore.ok_of_bind hok
  obtain ⟨hrows, hn, hunique, hnew, rfl⟩ := transaction_ok h hok
  exact ⟨ops, attachments,
    { empty := hrows
      read := hops
      -- Inserted once each, the operations are what the replica made of them.
      causal := Replica.operations_of_addAll hr hn ▸ r.causal
      checked := hattachments
      unique := fun hs => by
        rw [List.map_append]
        refine List.nodup_append.mpr ⟨hs, hunique, fun id hid id' hid' heq => ?_⟩
        obtain ⟨x, hx, rfl⟩ := List.mem_map.mp hid
        obtain ⟨row, hrow, rfl⟩ := List.mem_map.mp hid'
        exact hnew row hrow x hx heq
      result := rfl }⟩

end RecoveryBundle

end Syncraft.Field
