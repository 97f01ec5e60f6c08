import Syncraft.Api.Server
import Syncraft.Field.AttachmentStore
import Syncraft.Field.Wire

/-!
# Syncraft.Field.ApiClient

`lib/sync/api_client.dart`, as far as attachments need it: the requests that are sent, and what is
read of the responses. A string of the server is read as `fromGo`.
-/

namespace Syncraft.Field

open Domain Text JsonText
open AttachmentStore (RemoteRow)

/-- A string of the server, as it is read of a response. -/
def fromGo (s : GoString) : Option DartString := unitsOf (bytesLiteral s)

theorem fromGo_text (cs : List Char) : fromGo (utf8Encode cs) = some (utf16Encode cs) :=
  unitsOf_bytesLiteral cs

/-- An ID is read as what it is. -/
theorem toGo_of_fromGo {g : GoString} {s : DartString} (hid : validID g = true)
    (h : fromGo g = some s) : toGo s = g := by
  have hascii : ∀ b ∈ g, b.toNat < 128 := fun b hb =>
    idChar_lt (uuidPattern_chars hid _ (List.mem_map_of_mem hb))
  rw [← utf8Encode_ascii hascii, fromGo_text] at h
  obtain rfl := Option.some.inj h
  rw [toGo, utf16Lossy_utf16Encode, utf8Encode_ascii hascii]

/-- What can be said of a string of the server that need not be UTF-8. -/
theorem units_of_fromGo {g : GoString} {s : DartString} (h : fromGo g = some s) :
    (g ≠ [] → s ≠ []) ∧ s.length ≤ g.length ∧
      ∀ u ∈ s, u.toNat < 128 → ∃ b ∈ g, b.toNat = u.toNat := by
  rw [fromGo, unitsOf_bytes] at h
  obtain rfl := Option.some.inj h
  exact ⟨flatMap_readUnits_ne_nil, length_readUnits_le g, fun u hu => byte_of_unit hu⟩

/-- What comes with a request besides its content: the credentials of the client, and what the
server finds out for itself. -/
structure Carried where
  authorization : GoString
  device : GoString
  origin : GoString
  limited : Bool
  now : Nat

namespace ApiClient

/-- `headers` -/
def request (c : Carried) (route : Api.Route) : Api.Request :=
  { route, options := false, origin := c.origin, limited := c.limited, now := c.now,
    authorization := c.authorization, device := c.device, record := [], filename := [],
    contentType := go "application/json", after := [], queryRecord := [], body := [] }

/-- A hexadecimal digit, in upper case. -/
def hexDigit (n : UInt8) : UInt8 := if n < 10 then 0x30 + n else 0x37 + n

/-- The bytes `Uri.encodeQueryComponent` leaves as they are. -/
def unreserved (b : UInt8) : Bool :=
  (0x30 ≤ b && b ≤ 0x39) || (0x41 ≤ b && b ≤ 0x5A) || (0x61 ≤ b && b ≤ 0x7A) ||
    b == 0x2D || b == 0x2E || b == 0x5F || b == 0x7E

/-- `Uri.encodeQueryComponent` -/
def encodeQueryComponent (s : DartString) : GoString :=
  (toGo s).flatMap fun b =>
    if unreserved b then [b]
    else if b = 0x20 then [0x2B]
    else [0x25, hexDigit (b / 16), hexDigit (b % 16)]

/-- The request of `upload`. -/
def upload (c : Carried) (row : AttachmentRow) : Api.Request :=
  { request c (.upload (toGo row.id)) with
    contentType := toGo row.mediaType, record := toGo row.record,
    filename := encodeQueryComponent row.name, body := row.content }

/-- The request of `get('/api/v1/attachments?record=…')`. -/
def list (c : Carried) (record : DartString) : Api.Request :=
  { request c .attachments with queryRecord := toGo record }

/-- The request of `download`. -/
def download (c : Carried) (id : DartString) : Api.Request := request c (.download (toGo id))

/-- `_decode` -/
def decode (r : Api.Response) : Option Api.Body :=
  if r.status < 200 ∨ r.status ≥ 300 then none else some r.body

/-- `upload`, and the hash that is read of its result. -/
def uploadResult (r : Api.Response) : Option DartString :=
  match decode r with
  | some (.attachment a) => fromGo a.sha256
  | _ => none

/-- An attachment, as it is read of a list. -/
def receiveAttachment (a : Attachment) : Option RemoteRow := do
  let id ← fromGo a.id
  let name ← fromGo a.name
  let type ← fromGo a.type
  let sha256 ← fromGo a.sha256
  return { id, name, type, sha256, size := some a.size }

/-- The list of `get`. -/
def listResult (r : Api.Response) : Option (List RemoteRow) :=
  match decode r with
  | some (.attachments rows) => rows.mapM receiveAttachment
  | _ => none

/-- `download` -/
def downloadResult (r : Api.Response) : Option (List UInt8) :=
  match decode r with
  | some (.file _ _ data) => some data
  | _ => none

/-! ### What is read of a response -/

theorem uploadResult_some {r : Api.Response} {sha256 : DartString}
    (h : uploadResult r = some sha256) :
    ∃ a, r.body = .attachment a ∧ fromGo a.sha256 = some sha256 := by
  unfold uploadResult decode at h
  split at h
  · next a ha =>
      split at ha
      · cases ha
      · exact ⟨a, Option.some.inj ha, h⟩
  · cases h

theorem listResult_some {r : Api.Response} {rows : List RemoteRow} (h : listResult r = some rows) :
    ∃ listed, r.body = .attachments listed ∧ listed.mapM receiveAttachment = some rows := by
  unfold listResult decode at h
  split at h
  · next listed hlisted =>
      split at hlisted
      · cases hlisted
      · exact ⟨listed, Option.some.inj hlisted, h⟩
  · cases h

theorem receiveAttachment_some {a : Attachment} {row : RemoteRow}
    (h : receiveAttachment a = some row) :
    fromGo a.id = some row.id ∧ fromGo a.name = some row.name ∧ fromGo a.type = some row.type ∧
      fromGo a.sha256 = some row.sha256 ∧ row.size = some a.size := by
  unfold receiveAttachment at h
  simp only [Option.bind_eq_bind, Option.bind_eq_some_iff, Option.pure_def, Option.some.injEq] at h
  obtain ⟨id, hid, name, hname, type, htype, sha256, hsha, rfl⟩ := h
  exact ⟨hid, hname, htype, hsha, rfl⟩

/-- Every row of a list is some attachment, as it is read. -/
theorem mem_of_mapM {listed : List Attachment} {rows : List RemoteRow}
    (h : listed.mapM receiveAttachment = some rows) {row : RemoteRow} (hrow : row ∈ rows) :
    ∃ a ∈ listed, receiveAttachment a = some row := by
  induction listed generalizing rows with
  | nil =>
      obtain rfl := Option.some.inj h
      cases hrow
  | cons a rest ih =>
      rw [List.mapM_cons] at h
      simp only [Option.bind_eq_bind, Option.bind_eq_some_iff, Option.pure_def, Option.some.injEq] at h
      obtain ⟨first, hfirst, others, hothers, rfl⟩ := h
      rcases List.mem_cons.mp hrow with rfl | hrow
      · exact ⟨a, List.mem_cons_self, hfirst⟩
      · obtain ⟨x, hx, hread⟩ := ih hothers hrow
        exact ⟨x, List.mem_cons_of_mem _ hx, hread⟩

end ApiClient

end Syncraft.Field
