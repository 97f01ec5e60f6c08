import Mathlib.Algebra.GroupWithZero.Nat
import Syncraft.Library.Json

/-!
# Syncraft.Library.JsonBytes

How many bytes of UTF-8 a JSON document takes. A string takes what it takes as a text, the two
quotes, and what its escapes add (`bytes_quote`): one byte for a quote, a backslash or a
control character with a short escape, five for another control character, and three for an
unpaired surrogate, which as a text is U+FFFD.
-/

namespace Syncraft

open Text JsonText

namespace Json

/-- The bytes of a text in UTF-8. -/
def bytes (s : Text) : Nat := (utf8Encode (utf16Lossy s)).length

/-- What the escape of a rune adds to its bytes. -/
def escapeCost : Rune → Nat
  | .unpaired _ => 3
  | .scalar c =>
    if c.toNat < 0x20 then
      if c.toNat = 0x8 ∨ c.toNat = 0x9 ∨ c.toNat = 0xA ∨ c.toNat = 0xC ∨ c.toNat = 0xD then 1 else 5
    else if c = '"' ∨ c = '\\' then 1
    else 0

/-- What the escapes of a string add to its bytes. -/
def escapes (s : Text) : Nat := ((runes s).map escapeCost).sum

@[simp] theorem bytes_nil : bytes [] = 0 := rfl

theorem bytes_utf16Encode (cs : List Char) : bytes (utf16Encode cs) = (utf8Encode cs).length := by
  rw [bytes, utf16Lossy_utf16Encode]

theorem bytes_append {s t : Text} (hs : IsText s) (ht : IsText t) :
    bytes (s ++ t) = bytes s + bytes t := by
  obtain ⟨cs, rfl⟩ := hs
  obtain ⟨ds, rfl⟩ := ht
  have happend : utf16Encode cs ++ utf16Encode ds = utf16Encode (cs ++ ds) :=
    List.flatMap_append.symm
  rw [happend, bytes_utf16Encode, bytes_utf16Encode, bytes_utf16Encode, utf8Encode,
    List.flatMap_append, List.length_append]
  rfl

theorem bytes_unit {u : UInt16} (hu : u.toNat < 0x80) : bytes [u] = 1 := by
  have hall : ∀ n : Fin 0x80, bytes [UInt16.ofNat n] = 1 := by decide
  have h := hall ⟨u.toNat, hu⟩
  rwa [UInt16.ofNat_toNat] at h

theorem bytes_cons {u : UInt16} {s : Text} (hu : u.toNat < 0x80) (hs : IsText s) :
    bytes (u :: s) = 1 + bytes s := by
  have hone : IsText [u] := isText_ascii fun v hv => List.mem_singleton.mp hv ▸ hu
  rw [← List.singleton_append, bytes_append hone hs, bytes_unit hu]

/-! ### Strings -/

theorem length_utf8Encode_ascii {cs : List Char} (h : ∀ c ∈ cs, c.toNat < 0x80) :
    (utf8Encode cs).length = cs.length := by
  have hlength := congrArg List.length (utf8Encode_toNat h)
  rwa [List.length_map, List.length_map] at hlength

theorem bytes_escape4 (u : UInt16) : (utf8Encode (escape4 u)).length = 6 :=
  length_utf8Encode_ascii (escape4_ascii u)

theorem bytes_controlLiteral (c : Char) :
    (utf8Encode (controlLiteral c)).length =
      if c.toNat = 0x8 ∨ c.toNat = 0x9 ∨ c.toNat = 0xA ∨ c.toNat = 0xC ∨ c.toNat = 0xD then 2
      else 6 := by
  unfold controlLiteral
  by_cases hshort : c.toNat = 0x8 ∨ c.toNat = 0x9 ∨ c.toNat = 0xA ∨ c.toNat = 0xC ∨ c.toNat = 0xD
  · rw [if_pos hshort]
    rcases hshort with h | h | h | h | h <;> rw [h] <;> decide
  · rw [if_neg hshort]
    simp only [not_or] at hshort
    obtain ⟨h₁, h₂, h₃, h₄, h₅⟩ := hshort
    rw [if_neg h₁, if_neg h₂, if_neg h₃, if_neg h₄, if_neg h₅]
    exact bytes_escape4 _

/-- A rune between quotes takes its bytes and those of its escape. -/
theorem bytes_runeLiteral (r : Rune) :
    (utf8Encode (runeLiteral r)).length = (utf8Encode [r.toChar]).length + escapeCost r := by
  cases r with
  | unpaired u =>
      rw [runeLiteral, bytes_escape4]
      rfl
  | scalar c =>
      rw [runeLiteral, escapeCost, Rune.toChar]
      by_cases hcontrol : c.toNat < 0x20
      · have hone : (utf8Encode [c]).length = 1 :=
          length_utf8Encode_ascii fun d hd => by rw [List.mem_singleton.mp hd]; omega
        rw [if_pos hcontrol, if_pos hcontrol, bytes_controlLiteral, hone]
        split <;> rfl
      · rw [if_neg hcontrol, if_neg hcontrol]
        by_cases hquote : c = '"' ∨ c = '\\'
        · rw [if_pos hquote, if_pos hquote]
          rcases hquote with rfl | rfl <;> decide
        · rw [if_neg hquote, if_neg hquote]
          rfl

/-- **A string.** -/
theorem bytes_quote (s : Text) : bytes (quote s) = bytes s + escapes s + 2 := by
  have hliteral : ∀ rs : List Rune, (utf8Encode (rs.flatMap runeLiteral)).length =
      (utf8Encode (rs.map Rune.toChar)).length + (rs.map escapeCost).sum := by
    intro rs
    induction rs with
    | nil => rfl
    | cons r rs ih =>
        have hr := bytes_runeLiteral r
        simp only [utf8Encode, List.flatMap_cons, List.flatMap_nil, List.append_nil,
          List.flatMap_append, List.map_cons, List.length_append, List.sum_cons] at hr ih ⊢
        omega
  have hend : IsText [0x22] := isText_of_all (by decide)
  have htext : IsText (utf16Encode (unitsLiteral s)) := ⟨_, rfl⟩
  rw [quote, bytes_cons (by decide) (htext.append hend), bytes_append htext hend,
    bytes_unit (by decide), bytes_utf16Encode, unitsLiteral, hliteral, bytes, utf16Lossy, escapes]
  omega

/-- A string that needs no escapes, in ASCII. -/
theorem bytes_quote_plain {s : Text}
    (h : ∀ u ∈ s, 0x20 ≤ u.toNat ∧ u.toNat < 0x80 ∧ u ≠ 0x22 ∧ u ≠ 0x5C) :
    bytes (quote s) = s.length + 2 := by
  obtain ⟨cs, rfl⟩ := isText_ascii fun u hu => (h u hu).2.1
  have hascii : ∀ c ∈ cs, c.toNat < 0x80 := ascii_of_utf16Encode fun u hu => (h u hu).2.1
  have hunits := utf16Encode_ascii hascii
  have hplain : ∀ c ∈ cs, ¬ c.toNat < 0x20 ∧ c ≠ '"' ∧ c ≠ '\\' := by
    intro c hc
    have hu := h (UInt16.ofNat c.toNat) (by rw [hunits]; exact List.mem_map_of_mem hc)
    rw [toNat_unit (by have := hascii c hc; omega)] at hu
    refine ⟨not_lt.mpr hu.1, ?_, ?_⟩
    · rintro rfl
      exact hu.2.2.1 rfl
    · rintro rfl
      exact hu.2.2.2 rfl
  have hend : IsText [0x22] := isText_of_all (by decide)
  have htext : IsText (utf16Encode cs) := ⟨cs, rfl⟩
  rw [quote_plain hplain, bytes_cons (by decide) (htext.append hend), bytes_append htext hend,
    bytes_unit (by decide), bytes_utf16Encode, length_utf8Encode_ascii hascii, hunits,
    List.length_map]
  omega

/-! ### Lists and records -/

/-- The elements after the first. -/
theorem bytes_encodeElements (js : List Json) :
    bytes (encodeElements js) = (js.map fun j => bytes (encode j) + 1).sum + 1 := by
  induction js with
  | nil => exact bytes_unit (by decide)
  | cons j js ih =>
      rw [encodeElements, bytes_cons (by decide) ((isText_encode j).append (isText_elements js)),
        bytes_append (isText_encode j) (isText_elements js), ih, List.map_cons, List.sum_cons]
      omega

/-- **A list**: the elements, the commas and the brackets. -/
theorem bytes_array (js : List Json) :
    bytes (encode (.arr js)) = (js.map fun j => bytes (encode j) + 1).sum - 1 + 2 := by
  cases js with
  | nil => decide
  | cons j js =>
      rw [encode, bytes_cons (by decide) ((isText_encode j).append (isText_elements js)),
        bytes_append (isText_encode j) (isText_elements js), bytes_encodeElements, List.map_cons,
        List.sum_cons]
      omega

/-- A member of a record, up to the next one. -/
theorem bytes_member (k : Text) (j : Json) (ms : List (Text × Json)) :
    bytes (quote k ++ 0x3A :: (encode j ++ encodeMembers ms)) =
      bytes (quote k) + 1 + bytes (encode j) + bytes (encodeMembers ms) := by
  have hrest := (isText_encode j).append (isText_members ms)
  rw [bytes_append (isText_quote k) (hrest.cons (by decide)), bytes_cons (by decide) hrest,
    bytes_append (isText_encode j) (isText_members ms)]
  omega

theorem bytes_encodeMembers (ms : List (Text × Json)) :
    bytes (encodeMembers ms) =
      (ms.map fun m => bytes (quote m.1) + bytes (encode m.2) + 2).sum + 1 := by
  induction ms with
  | nil => exact bytes_unit (by decide)
  | cons m ms ih =>
      obtain ⟨k, j⟩ := m
      have hrest := (isText_encode j).append (isText_members ms)
      rw [encodeMembers, bytes_cons (by decide) ((isText_quote k).append (hrest.cons (by decide))),
        bytes_member, ih, List.map_cons, List.sum_cons]
      dsimp only
      omega

/-- **A record**: the keys and values, the colons, the commas and the braces. -/
theorem bytes_object (ms : List (Text × Json)) :
    bytes (encode (.obj ms)) =
      (ms.map fun m => bytes (quote m.1) + bytes (encode m.2) + 2).sum - 1 + 2 := by
  cases ms with
  | nil => decide
  | cons m ms =>
      obtain ⟨k, j⟩ := m
      have hrest := (isText_encode j).append (isText_members ms)
      rw [encode, bytes_cons (by decide) ((isText_quote k).append (hrest.cons (by decide))),
        bytes_member, bytes_encodeMembers, List.map_cons, List.sum_cons]
      dsimp only
      omega

end Json

end Syncraft
