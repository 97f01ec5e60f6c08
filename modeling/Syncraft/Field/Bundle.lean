import Syncraft.Library.Base64
import Syncraft.Library.Json
import Syncraft.Field.Recovery
import Syncraft.Field.Wire

/-!
# Syncraft.Field.Bundle

`lib/data/recovery.dart` with the envelope: `export` to bytes, and `restore` from any bytes.
A bundle is a JSON document that holds the payload as a text of its own, next to the checksum
of that text. `sha256` stands for `sha256.convert(…).toString()`.

`restoreBytes_ok` says everything a restore can have done, and `restoreBytes_eq` what it
makes of a bundle that was exported.
-/

namespace Syncraft.Field.RecoveryBundle

open Text CausalLog
open LocalStore (ok_bind)

/-- `maxBytes` -/
def maxBytes : Nat := 50 * 1024 * 1024

/-! ### Export -/

/-- `toJson`, as `jsonEncode` writes the map. -/
def operationJson (o : Domain.Operation DartString) : Json :=
  .obj [(dart "id", .str o.id), (dart "record", .str o.record), (dart "field", .str o.field),
    (dart "value", .str o.value), (dart "parents", .arr (o.parents.map .str))]

/-- A row of `attachments`, with its content in base64. -/
def attachmentJson (r : AttachmentRow) : Json :=
  .obj [(dart "id", .str r.id), (dart "record", .str r.record), (dart "name", .str r.name),
    (dart "media_type", .str r.mediaType), (dart "sha256", .str r.sha256),
    (dart "content", .str (Base64.encode r.content)),
    (dart "uploaded", .int (if r.uploaded then 1 else 0))]

/-- `payload` -/
def payloadMembers (p : Payload) : List (DartString × Json) :=
  [(dart "operations", .arr (p.operations.map operationJson)),
    (dart "attachments", .arr (p.attachments.map attachmentJson))]

/-- `payload`, as `jsonEncode` writes it. -/
def payloadJson (p : Payload) : Json := .obj (payloadMembers p)

/-- The envelope of a content. -/
def envelope (sha256 : List UInt8 → DartString) (content : DartString) : List (DartString × Json) :=
  [(dart "version", .int 1), (dart "sha256", .str (sha256 (toGo content))),
    (dart "payload", .str content)]

/-- `export` -/
def exportBytes (sha256 : List UInt8 → DartString) (s : LocalStore) : Except Exn (List UInt8) := do
  let payload ← exportBundle s
  let content := (payloadJson payload).encode
  let bytes := toGo (Json.obj (envelope sha256 content)).encode
  if bytes.length > maxBytes then .error (.format "Recovery bundle exceeds 50 MiB")
  else .ok bytes

/-! ### Restore -/

/-- `as Map` -/
def asMap : Option Json → Except Exn (List (DartString × Json))
  | some (.obj members) => .ok members
  | _ => .error .other

/-- `as List` -/
def asList : Option Json → Except Exn (List Json)
  | some (.arr elements) => .ok elements
  | _ => .error .other

/-- `as String` -/
def asString : Option Json → Except Exn DartString
  | some (.str s) => .ok s
  | _ => .error .other

/-- Is the value this string? -/
def isString (s : DartString) : Option Json → Bool
  | some (.str s') => s' == s
  | _ => false

/-- `utf8.decode`: malformed bytes are refused, and a byte order mark at the start is left out. -/
def utf8Text (bytes : List UInt8) : Except Exn DartString :=
  match utf8Decode? bytes with
  | none => .error .other
  | some (c :: cs) => .ok (utf16Encode (if c = '\uFEFF' then cs else c :: cs))
  | some [] => .ok []

/-- `List<String>.from(… as List? ?? [])` -/
def parentsOf : Option Json → Except Exn (List DartString)
  | none => .ok []
  | some .null => .ok []
  | json => do
    let elements ← asList json
    elements.mapM fun j => asString (some j)

/-- The map that `Operation.fromJson` reads. -/
def fieldsOf (o : Json) : Except Exn (Domain.Operation DartString) := do
  let json ← asMap (some o)
  let id ← asString (Json.member json (dart "id"))
  let record ← asString (Json.member json (dart "record"))
  let field ← asString (Json.member json (dart "field"))
  let value ← asString (Json.member json (dart "value"))
  let parents ← parentsOf (Json.member json (dart "parents"))
  return { id, record, field, value, parents }

/-- `Operation.fromJson(Map.from(o as Map))` -/
def operationOf (o : Json) : Except Exn Operation := do
  let json ← fieldsOf o
  fromJson json

/-- What the checks of an attachment read of its row. -/
structure RawAttachment where
  id : DartString
  record : DartString
  data : List UInt8
  name : Option Json
  mediaType : Option Json
  sha256 : Option Json

/-- `row['record'] as String`, which an ID that is refused keeps from being cast. -/
def recordOf (id : DartString) (record : Option Json) : Except Exn DartString :=
  if idPattern id then asString record else .ok []

/-- `base64Decode` -/
def base64Data (content : DartString) : Except Exn (List UInt8) :=
  match Base64.decode content with
  | some data => .ok data
  | none => .error .other

/-- A row of the payload. -/
def rawAttachment (raw : Json) : Except Exn RawAttachment := do
  let row ← asMap (some raw)
  let content ← asString (Json.member row (dart "content"))
  let data ← base64Data content
  let id ← asString (Json.member row (dart "id"))
  let record ← recordOf id (Json.member row (dart "record"))
  return { id, record, data, name := Json.member row (dart "name"),
           mediaType := Json.member row (dart "media_type"),
           sha256 := Json.member row (dart "sha256") }

/-- The checks of an attachment. It has to be uploaded again. -/
def checkRaw (sha256 : List UInt8 → DartString) (row : RawAttachment) : Except Exn AttachmentRow :=
  let mediaType := mediaTypes.find? fun m => isString m row.mediaType
  if !idPattern row.id || !idPattern row.record || row.data.isEmpty ||
      decide (row.data.length > 5 * 1024 * 1024) || !isString (sha256 row.data) row.sha256 ||
      mediaType.isNone then
    .error (.format "Invalid recovery attachment")
  else do
    let name ← asString row.name
    if name.isEmpty || decide (name.length > 200) || name.any forbidden then
      .error (.format "Invalid attachment filename")
    else
      .ok { id := row.id, record := row.record, name, mediaType := mediaType.getD [],
            sha256 := sha256 row.data, content := row.data, uploaded := false }

/-- The loop over the attachments. -/
def attachmentOf (sha256 : List UInt8 → DartString) (raw : Json) : Except Exn AttachmentRow := do
  let row ← rawAttachment raw
  checkRaw sha256 row

/-- The checks of the envelope. -/
def openEnvelope (sha256 : List UInt8 → DartString) (envelope : List (DartString × Json)) :
    Except Exn DartString :=
  match Json.member envelope (dart "version"), Json.member envelope (dart "payload") with
  | some (.num version), some (.str content) =>
    if !version.isOne then .error (.format "Unsupported recovery format")
    else if !isString (sha256 (toGo content)) (Json.member envelope (dart "sha256")) then
      .error (.format "Recovery checksum mismatch")
    else .ok content
  | _, _ => .error (.format "Unsupported recovery format")

/-- The content of a bundle, its checksum verified. -/
def contentOf (sha256 : List UInt8 → DartString) (bytes : List UInt8) : Except Exn DartString := do
  let text ← utf8Text bytes
  let envelope ← asMap (Json.decode text)
  openEnvelope sha256 envelope

/-- `restore`. `uuid` is a fresh ID, for the device. -/
def restoreBytes (sha256 : List UInt8 → DartString) (s : LocalStore) (bytes : List UInt8)
    (now : Operation → DartString) (uuid : DartString) : Except Exn (Nat × LocalStore) :=
  if bytes.length > maxBytes then .error (.format "Recovery bundle exceeds 50 MiB")
  else do
    let existing ← s.operations
    if existing ≠ [] then .error (.format "Restore requires an empty local workspace")
    else do
      let content ← contentOf sha256 bytes
      let payload ← asMap (Json.decode content)
      let rawOps ← asList (Json.member payload (dart "operations"))
      if rawOps.length > 10000 then .error (.format "Too many operations")
      else do
        let ops ← rawOps.mapM operationOf
        let _ ← Replica.empty.addAll ops
        let rawAttachments ← asList (Json.member payload (dart "attachments"))
        let attachments ← rawAttachments.mapM (attachmentOf sha256)
        let s ← transaction s ops attachments now
        return (ops.length, (s.deviceId uuid).2)

/-! ### Attachments -/

/-- What a restore accepts of an attachment. -/
structure Restorable (sha256 : List UInt8 → DartString) (r : AttachmentRow) : Prop where
  id : idPattern r.id = true
  record : idPattern r.record = true
  nonempty : r.content ≠ []
  size : r.content.length ≤ 5 * 1024 * 1024
  hash : r.sha256 = sha256 r.content
  media : r.mediaType ∈ mediaTypes
  name : r.name ≠ [] ∧ r.name.length ≤ 200 ∧ r.name.any forbidden = false

theorem checkAttachment_ok {sha256 : List UInt8 → DartString} {r : AttachmentRow}
    (h : Restorable sha256 r) : checkAttachment sha256 r = .ok { r with uploaded := false } := by
  have hname : ¬ r.name.length > 200 := Nat.not_lt.mpr h.name.2.1
  have hsize : ¬ r.content.length > 5 * 1024 * 1024 := Nat.not_lt.mpr h.size
  rw [checkAttachment, if_neg, if_neg]
  · simp [h.name.1, h.name.2.2, hname]
  · simp only [h.id, h.record, h.hash, decide_eq_false hsize, List.isEmpty_eq_false_iff.mpr h.nonempty,
      List.contains_iff_mem.mpr h.media, bne_self_eq_false]
    decide

theorem isString_iff {s : DartString} {j : Option Json} :
    isString s j = true ↔ j = some (.str s) := by
  unfold isString
  split
  · simp
  · next h =>
      constructor
      · intro hf; cases hf
      · rintro rfl; exact absurd rfl (h s)

/-- A row that was accepted has passed the checks. -/
theorem checkRaw_ok {sha256 : List UInt8 → DartString} {row : RawAttachment} {r : AttachmentRow}
    (h : checkRaw sha256 row = .ok r) : Restorable sha256 r ∧ r.uploaded = false := by
  unfold checkRaw at h
  dsimp only at h
  split at h
  · cases h
  next hchecks =>
  obtain ⟨name, -, h⟩ := LocalStore.ok_of_bind h
  split at h
  · cases h
  next hname =>
  obtain rfl := Except.ok.inj h
  simp only [Bool.or_eq_true, Bool.not_eq_true', decide_eq_true_eq, not_or, Bool.not_eq_false,
    Nat.not_lt, List.isEmpty_iff, Option.isNone_iff_eq_none] at hchecks hname
  obtain ⟨⟨⟨⟨⟨hid, hrecord⟩, hdata⟩, hsize⟩, -⟩, hmedia⟩ := hchecks
  obtain ⟨m, hm⟩ := Option.ne_none_iff_exists'.mp hmedia
  refine ⟨⟨hid, hrecord, hdata, hsize, rfl, ?_, hname.1.1, hname.1.2, ?_⟩, rfl⟩
  · simp only [hm, Option.getD_some]
    exact List.mem_of_find?_eq_some hm
  · simpa using hname.2

theorem find_mediaType {m : DartString} (h : m ∈ mediaTypes) :
    mediaTypes.find? (fun m' => isString m' (some (.str m))) = some m := by
  simp only [mediaTypes, List.mem_cons, List.not_mem_nil, or_false] at h
  rcases h with rfl | rfl | rfl | rfl <;> decide

/-- A row, as it is read of the payload. -/
def rawOf (r : AttachmentRow) : RawAttachment :=
  { id := r.id, record := r.record, data := r.content, name := some (.str r.name),
    mediaType := some (.str r.mediaType), sha256 := some (.str r.sha256) }

/-- A row that passes the checks is accepted, not uploaded yet. -/
theorem checkRaw_restorable {sha256 : List UInt8 → DartString} {r : AttachmentRow}
    (h : Restorable sha256 r) :
    checkRaw sha256 (rawOf r) = .ok { r with uploaded := false } := by
  have hhash : isString (sha256 r.content) (some (.str r.sha256)) = true :=
    isString_iff.mpr (by rw [h.hash])
  have hname : ¬ (r.name.isEmpty || decide (r.name.length > 200) || r.name.any forbidden) = true := by
    simp [h.name.1, h.name.2.2, h.name.2.1]
  rw [rawOf, checkRaw]
  dsimp only
  rw [find_mediaType h.media, hhash, if_neg]
  · show (if (r.name.isEmpty || decide (r.name.length > 200) || r.name.any forbidden) = true then
      _ else _) = _
    rw [if_neg hname, Option.getD_some, ← h.hash]
  · simp [h.id, h.record, h.nonempty, h.size]

/-- The row that was exported is read back. -/
theorem attachmentOf_json {sha256 : List UInt8 → DartString} {r : AttachmentRow}
    (h : Restorable sha256 r) :
    attachmentOf sha256 (attachmentJson r) = .ok { r with uploaded := false } := by
  have hdata : base64Data (Base64.encode r.content) = .ok r.content := by
    rw [base64Data, Base64.decode_encode]
  have hrecord : recordOf r.id (some (.str r.record)) = .ok r.record := by
    rw [recordOf, if_pos h.id]
    rfl
  have hraw : rawAttachment (attachmentJson r) = .ok (rawOf r) := by
    show (do
      let data ← base64Data (Base64.encode r.content)
      let record ← recordOf r.id (some (.str r.record))
      return { rawOf r with data, record } : Except Exn _) = _
    rw [hdata, hrecord]
    rfl
  rw [attachmentOf, hraw]
  exact checkRaw_restorable h

/-! ### Reading what was written -/

/-- The map that was exported is read back. -/
theorem fieldsOf_json (o : Domain.Operation DartString) : fieldsOf (operationJson o) = .ok o := by
  have hparents : (o.parents.map Json.str).mapM (fun j => asString (some j)) = .ok o.parents := by
    rw [LocalStore.mapM_ok_iff, List.map_map]
    rfl
  show (do
    let parents ← ((o.parents.map Json.str).mapM fun j => asString (some j))
    return { o with parents } : Except Exn _) = .ok o
  rw [hparents]
  rfl

theorem operationOf_json (o : Domain.Operation DartString) :
    operationOf (operationJson o) = fromJson o := by
  rw [operationOf, fieldsOf_json]
  rfl

/-- Mapping before converting. -/
theorem mapM_map {α β γ : Type} {f : α → β} {g : β → Except Exn γ} {k : α → Except Exn γ}
    {xs : List α} (h : ∀ x ∈ xs, g (f x) = k x) : (xs.map f).mapM g = xs.mapM k := by
  induction xs with
  | nil => rfl
  | cons x xs ih =>
      rw [List.map_cons, List.mapM_cons, List.mapM_cons, h x List.mem_cons_self,
        ih fun y hy => h y (List.mem_cons_of_mem _ hy)]

/-- The text of a bundle is read back. -/
theorem utf8Text_encode {j : Json} (h : (j.encode).head? ≠ some 0xFEFF) :
    utf8Text (toGo j.encode) = .ok j.encode := by
  obtain ⟨cs, hcs⟩ := Json.isText_encode j
  rw [← hcs] at h ⊢
  rw [utf8Text, toGo, utf16Lossy_utf16Encode, utf8Decode?_utf8Encode]
  cases cs with
  | nil => rfl
  | cons c cs =>
      dsimp only
      rw [if_neg]
      rintro rfl
      exact h rfl

/-- **The content of an envelope is read back.** -/
theorem contentOf_envelope (sha256 : List UInt8 → DartString) (content : DartString) :
    contentOf sha256 (toGo (Json.obj (envelope sha256 content)).encode) = .ok content := by
  have hhead : (Json.obj (envelope sha256 content)).encode.head? ≠ some 0xFEFF := by
    rw [envelope, Json.encode]
    simp only [List.head?_cons, ne_eq, Option.some.injEq]
    decide
  have hversion : Json.member (envelope sha256 content) (dart "version") = some (.int 1) := rfl
  have hpayload : Json.member (envelope sha256 content) (dart "payload") = some (.str content) := rfl
  have hsha : Json.member (envelope sha256 content) (dart "sha256") =
      some (.str (sha256 (toGo content))) := rfl
  rw [contentOf, utf8Text_encode hhead, ok_bind, Json.decode_encode, asMap, ok_bind, openEnvelope,
    hversion, hpayload, hsha, Json.int]
  dsimp only
  rw [isString_iff.mpr rfl, if_neg (by decide), if_neg (by decide)]

/-- **Restoring the payload that was written** is restoring the payload. -/
theorem restoreBytes_eq {sha256 : List UInt8 → DartString} {bytes : List UInt8} {payload : Payload}
    (hsize : bytes.length ≤ maxBytes)
    (hcontent : contentOf sha256 bytes = .ok (payloadJson payload).encode)
    (hrestorable : ∀ r ∈ payload.attachments, Restorable sha256 r) (s : LocalStore)
    (now : Operation → DartString) (uuid : DartString) :
    restoreBytes sha256 s bytes now uuid =
      (restore sha256 s payload now).map fun s' => (payload.operations.length, (s'.deviceId uuid).2) := by
  have hops : (payload.operations.map operationJson).mapM operationOf =
      payload.operations.mapM fromJson := mapM_map fun o _ => operationOf_json o
  have hattachments : (payload.attachments.map attachmentJson).mapM (attachmentOf sha256) =
      payload.attachments.mapM (checkAttachment sha256) :=
    mapM_map fun r hr => by
      rw [attachmentOf_json (hrestorable r hr), checkAttachment_ok (hrestorable r hr)]
  have hrawOps : Json.member (payloadMembers payload) (dart "operations") =
      some (.arr (payload.operations.map operationJson)) := rfl
  have hraw : Json.member (payloadMembers payload) (dart "attachments") =
      some (.arr (payload.attachments.map attachmentJson)) := rfl
  rw [restoreBytes, if_neg (Nat.not_lt.mpr hsize), restore, LocalStore.operations_eq, ok_bind, ok_bind]
  by_cases hempty : s.ops ≠ []
  · rw [if_pos hempty, if_pos hempty]
    rfl
  rw [if_neg hempty, if_neg hempty, hcontent, ok_bind, Json.decode_encode, payloadJson, asMap,
    ok_bind, hrawOps, asList, ok_bind, List.length_map]
  by_cases hcount : payload.operations.length > 10000
  · rw [if_pos hcount, if_pos hcount]
    rfl
  rw [if_neg hcount, if_neg hcount, hops]
  cases hread : payload.operations.mapM fromJson with
  | error e => rfl
  | ok ops =>
      have hlen : ops.length = payload.operations.length := LocalStore.length_of_mapM hread
      rw [ok_bind, ok_bind]
      cases Replica.empty.addAll ops with
      | error e => rfl
      | ok r =>
          rw [ok_bind, ok_bind, hraw, asList, ok_bind, hattachments]
          cases payload.attachments.mapM (checkAttachment sha256) with
          | error e => rfl
          | ok attachments =>
              rw [ok_bind, ok_bind, ← hlen]
              cases transaction s ops attachments now <;> rfl

/-- Reading row by row, in two steps. -/
theorem mapM_bind {α β γ : Type} {f : α → Except Exn β} {g : β → Except Exn γ} {xs : List α}
    {zs : List γ} (h : xs.mapM (fun x => f x >>= g) = .ok zs) :
    ∃ ys, xs.mapM f = .ok ys ∧ ys.mapM g = .ok zs := by
  induction xs generalizing zs with
  | nil => exact ⟨[], rfl, h⟩
  | cons x xs ih =>
      rw [List.mapM_cons] at h
      obtain ⟨z, hz, h⟩ := LocalStore.ok_of_bind h
      obtain ⟨rest, hrest, h⟩ := LocalStore.ok_of_bind h
      obtain ⟨y, hy, hyz⟩ := LocalStore.ok_of_bind hz
      obtain ⟨ys, hys, hyzs⟩ := ih hrest
      refine ⟨y :: ys, ?_, ?_⟩
      · rw [List.mapM_cons, hy, hys]; rfl
      · rw [List.mapM_cons, hyz, hyzs]; exact h

/-- **Everything a restore can have done**, of any bytes: it has restored some payload. -/
theorem restoreBytes_ok {sha256 : List UInt8 → DartString} {s s' : LocalStore} {bytes : List UInt8}
    {now : Operation → DartString} {uuid : DartString} {n : Nat}
    (h : restoreBytes sha256 s bytes now uuid = .ok (n, s')) :
    ∃ payload s₁, restore sha256 s payload now = .ok s₁ ∧ n = payload.operations.length ∧
      s' = (s₁.deviceId uuid).2 := by
  rw [restoreBytes] at h
  split at h
  · cases h
  obtain ⟨existing, hexisting, h⟩ := LocalStore.ok_of_bind h
  split at h
  · cases h
  next hempty =>
  obtain ⟨content, -, h⟩ := LocalStore.ok_of_bind h
  obtain ⟨payload, -, h⟩ := LocalStore.ok_of_bind h
  obtain ⟨rawOps, -, h⟩ := LocalStore.ok_of_bind h
  split at h
  · cases h
  next hcount =>
  obtain ⟨ops, hops, h⟩ := LocalStore.ok_of_bind h
  obtain ⟨r, hr, h⟩ := LocalStore.ok_of_bind h
  obtain ⟨rawAttachments, -, h⟩ := LocalStore.ok_of_bind h
  obtain ⟨attachments, hattachments, h⟩ := LocalStore.ok_of_bind h
  obtain ⟨s₁, htransaction, h⟩ := LocalStore.ok_of_bind h
  obtain ⟨rfl, rfl⟩ := Prod.mk.inj (Except.ok.inj h)
  obtain ⟨operations, hfields, hread⟩ := mapM_bind hops
  have hlength : operations.length = rawOps.length := LocalStore.length_of_mapM hfields
  have hcheck : attachments.mapM (checkAttachment sha256) = .ok attachments := by
    refine LocalStore.mapM_ok_iff.mpr (List.map_congr_left fun row hrow => ?_)
    have hmem : Except.ok row ∈ rawAttachments.map (attachmentOf sha256) :=
      LocalStore.mapM_ok_iff.mp hattachments ▸ List.mem_map_of_mem hrow
    obtain ⟨raw, -, hraw⟩ := List.mem_map.mp hmem
    obtain ⟨row', -, hrow'⟩ := LocalStore.ok_of_bind hraw
    obtain ⟨hrestorable, huploaded⟩ := checkRaw_ok hrow'
    rw [checkAttachment_ok hrestorable, ← huploaded]
  have hlen : ops.length = operations.length := LocalStore.length_of_mapM hread
  refine ⟨{ operations, attachments }, s₁, ?_, hlen, rfl⟩
  rw [restore, hexisting, ok_bind, if_neg hempty, if_neg (by rwa [hlength]), hread, ok_bind, hr,
    ok_bind, hcheck]
  exact htransaction

/-- **What a restore leaves**: the operations of its bundle in a database that had none, and the new
device ID. -/
theorem restoreBytes_result {sha256 : List UInt8 → DartString} {s s' : LocalStore}
    {bytes : List UInt8} {now : Operation → DartString} {uuid : DartString} {n : Nat}
    (hs : s.OutboxStored) (h : restoreBytes sha256 s bytes now uuid = .ok (n, s')) :
    ∃ ops attachments, s.rows = [] ∧ Causal ops ∧ s' = { s.add now ops with
      attachments, device := some uuid, storedCursor := none } := by
  obtain ⟨payload, s₁, hrestore, -, rfl⟩ := restoreBytes_ok h
  obtain ⟨ops, attachments, hdone⟩ := restore_ok hs hrestore
  refine ⟨ops, s.attachments ++ attachments, hdone.empty, hdone.causal, ?_⟩
  rw [hdone.result]
  rfl

/-! ### What a restore does to the attachments -/

/-- A row that was accepted has passed the checks. -/
theorem checkAttachment_restorable {sha256 : List UInt8 → DartString} {row r : AttachmentRow}
    (h : checkAttachment sha256 row = .ok r) : Restorable sha256 r ∧ r.uploaded = false := by
  rw [checkAttachment] at h
  split at h
  · cases h
  next hchecks =>
  split at h
  · cases h
  next hname =>
  obtain rfl := Except.ok.inj h
  simp only [Bool.or_eq_true, Bool.not_eq_true', decide_eq_true_eq, not_or, Bool.not_eq_false,
    Nat.not_lt, List.isEmpty_iff, bne_iff_ne, ne_eq, not_not, Bool.not_eq_true,
    List.contains_iff_mem] at hchecks hname
  obtain ⟨⟨⟨⟨⟨hid, hrecord⟩, hdata⟩, hsize⟩, hhash⟩, hmedia⟩ := hchecks
  exact ⟨⟨hid, hrecord, hdata, hsize, hhash.symm, hmedia, hname.1.1, hname.1.2, hname.2⟩, rfl⟩

/-- The store has got attachments, none of them uploaded, and their IDs are still unique. -/
structure Attaches (sha256 : List UInt8 → DartString) (s s' : LocalStore) : Prop where
  rows : ∃ added, s'.attachments = s.attachments ++ added ∧
    ∀ r ∈ added, Restorable sha256 r ∧ r.uploaded = false
  unique : (s.attachments.map AttachmentRow.id).Nodup → (s'.attachments.map AttachmentRow.id).Nodup

/-- A call that leaves the attachments alone. -/
theorem Attaches.none {sha256 : List UInt8 → DartString} {s s' : LocalStore}
    (h : s'.attachments = s.attachments) : Attaches sha256 s s' where
  rows := ⟨[], by rw [h, List.append_nil], fun _ hr => by cases hr⟩
  unique hn := by rwa [h]

theorem restoreBytes_attaches {sha256 : List UInt8 → DartString} {s s' : LocalStore}
    (hs : s.OutboxStored) {bytes : List UInt8} {now : Operation → DartString} {uuid : DartString}
    {n : Nat} (h : restoreBytes sha256 s bytes now uuid = .ok (n, s')) : Attaches sha256 s s' := by
  obtain ⟨payload, s₁, hrestore, -, rfl⟩ := restoreBytes_ok h
  obtain ⟨ops, attachments, hdone⟩ := restore_ok hs hrestore
  have hrows : (s₁.deviceId uuid).2.attachments = s.attachments ++ attachments := by
    rw [hdone.result, LocalStore.deviceId]
  constructor
  · refine ⟨attachments, hrows, fun row hrow => ?_⟩
    have hmem : Except.ok row ∈ payload.attachments.map (checkAttachment sha256) :=
      LocalStore.mapM_ok_iff.mp hdone.checked ▸ List.mem_map_of_mem hrow
    obtain ⟨raw, -, hraw⟩ := List.mem_map.mp hmem
    exact checkAttachment_restorable hraw
  · rw [hrows]
    exact hdone.unique

/-! ### Bundles that were exported -/

/-- What is accepted of a row that was exported is the row. -/
theorem checkRaw_rawOf {sha256 : List UInt8 → DartString} {r x : AttachmentRow}
    {record : DartString} (h : checkRaw sha256 { rawOf r with record } = .ok x) :
    idPattern r.id = true ∧ x = { r with record, uploaded := false } := by
  unfold checkRaw rawOf at h
  dsimp only at h
  split at h
  · cases h
  next hchecks =>
  obtain ⟨name, hname, h⟩ := LocalStore.ok_of_bind h
  split at h
  · cases h
  obtain rfl : r.name = name := Except.ok.inj hname
  obtain rfl := Except.ok.inj h
  simp only [Bool.or_eq_true, Bool.not_eq_true', not_or, Bool.not_eq_false,
    Option.isNone_iff_eq_none] at hchecks
  obtain ⟨⟨⟨⟨⟨hid, -⟩, -⟩, -⟩, hhash⟩, hmedia⟩ := hchecks
  obtain ⟨m, hm⟩ := Option.ne_none_iff_exists'.mp hmedia
  have hsha : r.sha256 = sha256 r.content := Json.str.inj (Option.some.inj (isString_iff.mp hhash))
  have hfound : isString m (some (.str r.mediaType)) = true :=
    List.find?_some (p := fun m => isString m (some (.str r.mediaType))) hm
  have htype : r.mediaType = m := Json.str.inj (Option.some.inj (isString_iff.mp hfound))
  refine ⟨hid, ?_⟩
  rw [hm, Option.getD_some, ← htype, ← hsha]

/-- A row that was exported is accepted only if it passes the checks. -/
theorem restorable_of_attachmentOf {sha256 : List UInt8 → DartString} {r x : AttachmentRow}
    (h : attachmentOf sha256 (attachmentJson r) = .ok x) : Restorable sha256 r := by
  have hraw : rawAttachment (attachmentJson r) =
      (recordOf r.id (some (.str r.record))).map fun record => { rawOf r with record } := by
    show (do
      let data ← base64Data (Base64.encode r.content)
      let record ← recordOf r.id (some (.str r.record))
      return { rawOf r with data, record } : Except Exn _) = _
    rw [base64Data, Base64.decode_encode]
    cases recordOf r.id (some (.str r.record)) <;> rfl
  rw [attachmentOf, hraw] at h
  by_cases hid : idPattern r.id = true
  · rw [recordOf, if_pos hid] at h
    have hchecked : checkRaw sha256 { rawOf r with record := r.record } = .ok x := h
    obtain ⟨-, rfl⟩ := checkRaw_rawOf hchecked
    obtain ⟨hrestorable, -⟩ := checkRaw_ok hchecked
    exact { hrestorable with }
  · rw [recordOf, if_neg hid] at h
    have hchecked : checkRaw sha256 { rawOf r with record := [] } = .ok x := h
    exact absurd (checkRaw_rawOf hchecked).1 hid

/-- **A restore of what was exported restores what was exported**, or throws. -/
theorem restoreBytes_exported {sha256 : List UInt8 → DartString} {bytes : List UInt8}
    {payload : Payload} (hsize : bytes.length ≤ maxBytes)
    (hcontent : contentOf sha256 bytes = .ok (payloadJson payload).encode) {s s' : LocalStore}
    {now : Operation → DartString} {uuid : DartString} {n : Nat}
    (h : restoreBytes sha256 s bytes now uuid = .ok (n, s')) :
    ∃ s₁, restore sha256 s payload now = .ok s₁ ∧ s' = (s₁.deviceId uuid).2 := by
  have hrestorable : ∀ r ∈ payload.attachments, Restorable sha256 r := by
    have hraw : Json.member (payloadMembers payload) (dart "attachments") =
        some (.arr (payload.attachments.map attachmentJson)) := rfl
    have hread := h
    rw [restoreBytes, if_neg (Nat.not_lt.mpr hsize), hcontent] at hread
    obtain ⟨existing, -, hread⟩ := LocalStore.ok_of_bind hread
    split at hread
    · cases hread
    rw [ok_bind, Json.decode_encode, payloadJson, asMap, ok_bind] at hread
    obtain ⟨rawOps, -, hread⟩ := LocalStore.ok_of_bind hread
    split at hread
    · cases hread
    obtain ⟨ops, -, hread⟩ := LocalStore.ok_of_bind hread
    obtain ⟨replica, -, hread⟩ := LocalStore.ok_of_bind hread
    rw [hraw, asList, ok_bind] at hread
    obtain ⟨attachments, hattachments, -⟩ := LocalStore.ok_of_bind hread
    intro r hr
    have hmem : attachmentOf sha256 (attachmentJson r) ∈
        (payload.attachments.map attachmentJson).map (attachmentOf sha256) :=
      List.mem_map_of_mem (List.mem_map_of_mem hr)
    rw [LocalStore.mapM_ok_iff.mp hattachments] at hmem
    obtain ⟨x, -, hx⟩ := List.mem_map.mp hmem
    exact restorable_of_attachmentOf hx.symm
  rw [restoreBytes_eq hsize hcontent hrestorable] at h
  cases hrestore : restore sha256 s payload now with
  | error e =>
      rw [hrestore] at h
      cases h
  | ok s₁ =>
      rw [hrestore] at h
      obtain ⟨-, rfl⟩ := Prod.mk.inj (Except.ok.inj h)
      exact ⟨s₁, rfl, rfl⟩

end Syncraft.Field.RecoveryBundle
