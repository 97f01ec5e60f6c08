import Syncraft.Api.Isolation
import Syncraft.Field.Recoverable

/-!
# Syncraft.Field.UploadQueue

What the server makes of the attachments a device has queued. `add` counts the UTF-16 units of a
name, the server its bytes in UTF-8, after `Uri.encodeQueryComponent` and `url.QueryUnescape`,
which undo each other (`queryUnescape_encode`). The server also refuses U+0000, and an unpaired
surrogate does not arrive. `queued_upload_iff` says which names the server takes as they are.
-/

namespace Syncraft.Field

open Text
open ApiClient (encodeQueryComponent hexDigit unreserved)
open RecoveryBundle (Restorable)

/-! ### A name in a header -/

theorem unhex_hexDigit {n : UInt8} (h : n < 16) : Api.unhex (hexDigit n) = some n := by
  have hall : ∀ k : Fin 16, Api.unhex (hexDigit (UInt8.ofNat k)) = some (UInt8.ofNat k) := by
    decide
  have hn := hall ⟨n.toNat, UInt8.lt_iff_toNat_lt.mp h⟩
  rwa [UInt8.ofNat_toNat] at hn

/-- A byte that stands for itself. -/
theorem queryUnescape_plain {b : UInt8} (hpercent : b ≠ 0x25) (hplus : b ≠ 0x2B) (rest : GoString) :
    Api.queryUnescape (b :: rest) = (Api.queryUnescape rest).map (b :: ·) := by
  rw [Api.queryUnescape]
  · simp [hpercent, hplus]
  · exact fun a c tail h _ => hpercent h

theorem queryUnescape_plus (rest : GoString) :
    Api.queryUnescape (0x2B :: rest) = (Api.queryUnescape rest).map (0x20 :: ·) := by
  rw [Api.queryUnescape]
  · simp
  · exact fun a c tail h _ => absurd h (by decide)

theorem queryUnescape_escape (b : UInt8) (rest : GoString) :
    Api.queryUnescape (0x25 :: hexDigit (b / 16) :: hexDigit (b % 16) :: rest) =
      (Api.queryUnescape rest).map (b :: ·) := by
  have hhigh : b / 16 < 16 := by
    rw [UInt8.lt_iff_toNat_lt, UInt8.toNat_div]
    have := b.toNat_lt
    simp only [UInt8.reduceToNat]
    omega
  have hlow : b % 16 < 16 := by
    rw [UInt8.lt_iff_toNat_lt, UInt8.toNat_mod]
    simp only [UInt8.reduceToNat]
    omega
  have hsum : b / 16 * 16 + b % 16 = b := by
    have hlt := b.toNat_lt
    simp only [← UInt8.toNat_inj, UInt8.toNat_add, UInt8.toNat_mul, UInt8.toNat_div,
      UInt8.toNat_mod, UInt8.reduceToNat]
    omega
  rw [Api.queryUnescape, unhex_hexDigit hhigh, unhex_hexDigit hlow]
  cases h : Api.queryUnescape rest <;> simp [hsum]

/-- **The server reads the name that was sent.** -/
theorem queryUnescape_encode (name : DartString) :
    Api.queryUnescape (encodeQueryComponent name) = some (toGo name) := by
  rw [encodeQueryComponent]
  induction toGo name with
  | nil => rfl
  | cons b bytes ih =>
      rw [List.flatMap_cons]
      by_cases hplain : unreserved b = true
      · have hb : b ≠ 0x25 ∧ b ≠ 0x2B := by
          constructor <;> rintro rfl <;> exact absurd hplain (by decide)
        rw [if_pos hplain, List.singleton_append, queryUnescape_plain hb.1 hb.2, ih]
        rfl
      · rw [if_neg hplain]
        by_cases hspace : b = 0x20
        · rw [if_pos hspace, List.singleton_append, queryUnescape_plus, ih, hspace]
          rfl
        · rw [if_neg hspace]
          rw [List.cons_append, List.cons_append, List.cons_append, List.nil_append,
            queryUnescape_escape, ih]
          rfl

/-! ### What the server checks of a row -/

/-- A byte below 128 is sent for the unit with its number, and for no other. -/
theorem ascii_mem_toGo {s : DartString} {b : UInt8} {u : UInt16} (hb : b.toNat < 128)
    (hu : u.toNat = b.toNat) : b ∈ toGo s ↔ u ∈ s := by
  rw [toGo, ascii_mem_utf8Encode hb, ← ascii_mem_utf16Lossy (hu ▸ hb), hu]

/-- The server forbids what the device forbids, and U+0000. -/
theorem any_forbidden_toGo {name : DartString} (h : name.any RecoveryBundle.forbidden = false) :
    (toGo name).any Api.forbidden = true ↔ 0 ∈ name := by
  have hnot : ∀ u ∈ name, u ≠ 0x2F ∧ u ≠ 0x5C ∧ u ≠ 0xD ∧ u ≠ 0xA := by
    simpa [RecoveryBundle.forbidden, not_or, and_assoc] using h
  have hzero : (0 : UInt8) ∈ toGo name ↔ 0 ∈ name := ascii_mem_toGo (by decide) rfl
  have hout (b : UInt8) (u : UInt16) (hb : b.toNat < 128) (hu : u.toNat = b.toNat)
      (hmem : b ∈ toGo name) : u ∈ name := (ascii_mem_toGo hb hu).mp hmem
  rw [List.any_eq_true, ← hzero]
  constructor
  · rintro ⟨b, hb, hbad⟩
    simp only [Api.forbidden, Bool.or_eq_true, beq_iff_eq] at hbad
    rcases hbad with (((rfl | rfl) | rfl) | rfl) | rfl
    · exact absurd rfl (hnot _ (hout 0x2F 0x2F (by decide) rfl hb)).1
    · exact absurd rfl (hnot _ (hout 0x5C 0x5C (by decide) rfl hb)).2.1
    · exact absurd rfl (hnot _ (hout 0xD 0xD (by decide) rfl hb)).2.2.1
    · exact absurd rfl (hnot _ (hout 0xA 0xA (by decide) rfl hb)).2.2.2
    · exact hb
  · exact fun hb => ⟨0, hb, by decide⟩

/-- A name is read back as it is if and only if all of it arrives. -/
theorem fromGo_toGo_iff {name : DartString} : fromGo (toGo name) = some name ↔ WellFormed name := by
  rw [toGo, fromGo_text, Option.some.injEq, wellFormed_iff]

theorem validID_toGo {s : DartString} (h : idPattern s = true) : Domain.validID (toGo s) = true := by
  rw [Domain.validID, toGo_toNat (ascii_id h)]
  exact h

theorem toGo_ne_nil {s : DartString} (h : s ≠ []) : toGo s ≠ [] := by
  intro hnil
  rw [toGo, utf8Encode, List.flatMap_eq_nil_iff] at hnil
  -- Every character takes a byte.
  have hnone : utf16Lossy s = [] := by
    refine List.eq_nil_iff_forall_not_mem.mpr fun c hc => ?_
    have hlength := congrArg List.length (hnil c hc)
    rw [String.length_utf8EncodeChar] at hlength
    exact absurd hlength c.utf8Size_pos.ne'
  rw [utf16Lossy, List.map_eq_nil_iff] at hnone
  exact h (by rw [← units_runes s, hnone, List.flatMap_nil])

theorem toGo_mediaType {media : DartString} (h : media ∈ RecoveryBundle.mediaTypes) :
    toGo media ∈ Api.mediaTypes := by
  have hgo : ∀ t : String, toGo (dart t) = go t := fun t => by
    rw [toGo, dart, utf16Lossy_utf16Encode, go]
  simp only [RecoveryBundle.mediaTypes, List.mem_cons, List.not_mem_nil, or_false] at h
  rcases h with rfl | rfl | rfl | rfl <;> simp [hgo, Api.mediaTypes]

/-- **What the server makes of a queued row.** -/
theorem uploaded_eq {S : Api.Server}
    (hmedia : ∀ m ∈ Api.mediaTypes, S.packages.parseMediaType m = some m)
    {sha256 : List UInt8 → DartString} {row : AttachmentRow} (h : Restorable sha256 row)
    (c : Carried) :
    S.uploaded (ApiClient.upload c row) (toGo row.id) =
      if utf8Length row.name ≤ 200 ∧ 0 ∉ row.name then
        .ok { id := toGo row.id, record := toGo row.record, name := toGo row.name,
              type := toGo row.mediaType, sha256 := S.packages.sha256 row.content,
              size := row.content.length, data := row.content }
      else .error (Api.failure .invalid) := by
  have hforbidden := any_forbidden_toGo h.name.2.2
  have hlength : (toGo row.name).length = utf8Length row.name := rfl
  have htype := toGo_mediaType h.media
  have hempty := toGo_ne_nil h.name.1
  have hname : Api.queryUnescape (ApiClient.upload c row).filename = some (toGo row.name) :=
    queryUnescape_encode row.name
  have hparse : S.packages.parseMediaType (ApiClient.upload c row).contentType =
      some (toGo row.mediaType) := hmedia _ htype
  have hrecord : Domain.validID (ApiClient.upload c row).record = true := validID_toGo h.record
  have hbody : (ApiClient.upload c row).body = row.content := rfl
  have hsize : ¬ (row.content.length > 5 * 1024 * 1024 ∨ row.content = []) :=
    not_or.mpr ⟨not_lt.mpr h.size, h.nonempty⟩
  rw [Api.Server.uploaded, hname]
  dsimp only
  rw [validID_toGo h.id, hrecord, List.isEmpty_eq_false_iff.mpr hempty, hlength]
  by_cases hgood : utf8Length row.name ≤ 200 ∧ 0 ∉ row.name
  · have hclean : (toGo row.name).any Api.forbidden = false :=
      Bool.eq_false_iff.mpr (mt hforbidden.mp hgood.2)
    rw [if_pos hgood, hclean, if_neg (by simp [hgood.1]), hparse]
    dsimp only
    rw [List.contains_iff_mem.mpr htype, hbody, if_neg (by simp), if_neg hsize]
    rfl
  · rw [if_neg hgood, if_pos]
    rw [not_and_or, not_le, not_not] at hgood
    rcases hgood with hlong | hzero
    · simp [hlong]
    · simp [hforbidden.mpr hzero]

/-- **Queued uploads.** What `add` has queued passes every check of the upload handler and is
stored under the name that was added if and only if the name is at most 200 bytes of UTF-8, and
has neither U+0000 nor an unpaired surrogate. A name that is longer or has U+0000 is refused,
whatever the request carries besides. -/
theorem queued_upload_iff {S : Api.Server}
    (hmedia : ∀ m ∈ Api.mediaTypes, S.packages.parseMediaType m = some m)
    {sha256 : List UInt8 → DartString} {s s' : LocalStore} {record name media : DartString}
    {bytes : List UInt8} {uuid : DartString} (huuid : idPattern uuid = true)
    (hadd : AttachmentStore.add sha256 s record name media bytes uuid = .ok s') :
    ∃ row, s'.attachments = s.attachments ++ [row] ∧ row.id = uuid ∧ row.uploaded = false ∧
      ∀ c, ((∃ a, S.uploaded (ApiClient.upload c row) (toGo uuid) = .ok a ∧
          fromGo a.name = some name) ↔ utf8Length name ≤ 200 ∧ 0 ∉ name ∧ WellFormed name) ∧
        (¬ (utf8Length name ≤ 200 ∧ 0 ∉ name) →
          S.uploaded (ApiClient.upload c row) (toGo uuid) = .error (Api.failure .invalid)) := by
  obtain ⟨row, hid, hname, -, hqueued, hrow, hinsert⟩ := AttachmentStore.add_ok hadd
  have hrows := congrArg LocalStore.attachments (AttachmentStore.insertAttachment_ok hinsert).2
  refine ⟨row, hrows, hid, hqueued, fun c => ?_⟩
  have hserver := uploaded_eq hmedia (hrow huuid) c
  rw [hid, hname] at hserver
  rw [hserver]
  by_cases hgood : utf8Length name ≤ 200 ∧ 0 ∉ name
  · rw [if_pos hgood]
    refine ⟨?_, fun hnot => absurd hgood hnot⟩
    constructor
    · rintro ⟨a, ha, hread⟩
      obtain rfl := Except.ok.inj ha
      exact ⟨hgood.1, hgood.2, fromGo_toGo_iff.mp hread⟩
    · exact fun hall => ⟨_, rfl, fromGo_toGo_iff.mpr hall.2.2⟩
  · rw [if_neg hgood]
    refine ⟨?_, fun _ => rfl⟩
    constructor
    · rintro ⟨a, ha, -⟩
      cases ha
    · exact fun hall => absurd ⟨hall.1, hall.2.1⟩ hgood

/-! ### Two names -/

/-- A text file of the letter `a`, under a name. -/
def letterFile (name : DartString) : AttachmentRow :=
  { id := dart "0b000000-0000-4000-8000-0000000000a1"
    record := dart "0c000000-0000-4000-8000-0000000000a1"
    name, mediaType := dart "text/plain", sha256 := dart "hash", content := [0x61], uploaded := false }

/-- `add` of the file, on a new device. -/
def addLetterFile (name : DartString) : Except Exn LocalStore :=
  AttachmentStore.add (fun _ => dart "hash") LocalStore.new (letterFile name).record name
    (letterFile name).mediaType [0x61] (letterFile name).id

/-- A tablet that is logged in. -/
def carriedByTablet : Carried :=
  { authorization := go "Bearer ada", device := Store.tablet.id, origin := [], limited := false
    now := 0 }

/-- A hundred and one accented letters: as many units, and twice as many bytes. -/
def accents : DartString := List.replicate 101 0xE9

/-- The device queues a name that the server refuses. -/
theorem queued_upload_refused :
    addLetterFile accents = .ok { LocalStore.new with attachments := [letterFile accents] } ∧
      Api.demo.uploaded (ApiClient.upload carriedByTablet (letterFile accents))
          (toGo (letterFile accents).id) = .error (Api.failure .invalid) := by
  have hrow : Restorable (fun _ => dart "hash") (letterFile accents) :=
    { id := by decide, record := by decide, nonempty := by decide
      size := by decide, hash := rfl, media := by decide, name := by decide }
  constructor
  · rw [addLetterFile, AttachmentStore.add, if_neg (by decide)]
    rfl
  · rw [uploaded_eq (fun _ _ => rfl) hrow, if_neg (by decide +kernel)]

/-- A name of plain letters is stored as it is. -/
theorem queued_upload_iff_run : ∃ row c,
    (∃ a, Api.demo.uploaded (ApiClient.upload c row) (toGo (letterFile (dart "a.txt")).id) = .ok a ∧
      fromGo a.name = some (dart "a.txt")) := by
  have hadd : addLetterFile (dart "a.txt") =
      .ok { LocalStore.new with attachments := [letterFile (dart "a.txt")] } := by
    rw [addLetterFile, AttachmentStore.add, if_neg (by decide)]
    rfl
  obtain ⟨row, -, -, -, hall⟩ := @queued_upload_iff Api.demo (fun _ _ => rfl) _ _ _ _ _ _ _ _
    (by decide : idPattern (letterFile (dart "a.txt")).id = true) hadd
  exact ⟨row, carriedByTablet, (hall carriedByTablet).1.mpr (by decide)⟩

end Syncraft.Field
