import Mathlib.Order.Lattice
import Mathlib.Data.List.Lex
import Mathlib.Data.List.Basic

/-!
# Syncraft.Library.Text

**Text as bytes and as code units.** A Unicode text is a `List Char`. Two programs
that exchange text rarely hold it in that form: one keeps its UTF-8 bytes, another its
UTF-16 code units, and each may hold sequences that are the encoding of no text at all.

* UTF-8 is core's `String.utf8EncodeChar`, lifted to lists (`utf8Encode`), with the
  strict decoder `utf8Decode?` that core's `String.fromUTF8?` gives.
* UTF-16 is written out here. `runes` cuts a sequence of code units into scalar values
  and *unpaired* surrogates; a sequence is `WellFormed` when it has none of the latter.

The byte and unit sequences are ordered lexicographically, which is how both worlds
compare their strings.
-/

namespace Syncraft.Text

/-! ### The order of bytes and code units -/

instance byteOrder : LinearOrder UInt8 where
  le_refl := UInt8.le_refl
  le_trans _ _ _ := UInt8.le_trans
  le_antisymm _ _ := UInt8.le_antisymm
  le_total := UInt8.le_total
  lt_iff_le_not_ge a b := by rw [UInt8.not_le]; exact ⟨fun h => ⟨UInt8.le_of_lt h, h⟩, And.right⟩
  toDecidableLE := inferInstance
  toDecidableEq := inferInstance
  toDecidableLT := inferInstance

instance unitOrder : LinearOrder UInt16 where
  le_refl := UInt16.le_refl
  le_trans _ _ _ := UInt16.le_trans
  le_antisymm _ _ := UInt16.le_antisymm
  le_total := UInt16.le_total
  lt_iff_le_not_ge a b := by
    simp only [UInt16.not_le]; exact ⟨fun h => ⟨UInt16.le_of_lt h, h⟩, And.right⟩
  toDecidableLE := inferInstance
  toDecidableEq := inferInstance
  toDecidableLT := inferInstance

/-- Membership in a list of byte sequences is decided by their equality. -/
instance bytesLawful : LawfulBEq (List UInt8) := inferInstance

/-! ### UTF-8 -/

/-- The UTF-8 bytes of a text. -/
def utf8Encode (cs : List Char) : List UInt8 := cs.flatMap String.utf8EncodeChar

/-- The text a byte sequence encodes, if it is valid UTF-8. -/
def utf8Decode? (bs : List UInt8) : Option (List Char) :=
  (String.fromUTF8? bs.toByteArray).map String.toList

@[simp] theorem utf8Encode_nil : utf8Encode [] = [] := rfl

theorem length_utf8Encode_le (cs : List Char) : (utf8Encode cs).length ≤ 4 * cs.length := by
  induction cs with
  | nil => exact Nat.le_refl _
  | cons c cs ih =>
      have hc : (String.utf8EncodeChar c).length ≤ 4 := by
        rw [String.length_utf8EncodeChar]
        exact c.utf8Size_le_four
      rw [utf8Encode] at ih ⊢
      rw [List.flatMap_cons, List.length_append, List.length_cons]
      omega

theorem utf8Encode_toByteArray (cs : List Char) :
    (utf8Encode cs).toByteArray = (String.ofList cs).toByteArray := by
  simp only [String.toByteArray_ofList]; rfl

/-- Decoding undoes encoding. -/
@[simp] theorem utf8Decode?_utf8Encode (cs : List Char) :
    utf8Decode? (utf8Encode cs) = some cs := by
  have hvalid : (utf8Encode cs).toByteArray.IsValidUTF8 := by
    simp only [utf8Encode_toByteArray]; exact (String.ofList cs).isValidUTF8
  have hstr : String.ofByteArray (utf8Encode cs).toByteArray hvalid = String.ofList cs :=
    String.toByteArray_inj.mp (utf8Encode_toByteArray cs)
  rw [utf8Decode?, String.fromUTF8?, dif_pos (by simpa using hvalid)]
  simp only [Option.map_some, String.fromUTF8, hstr, String.toList_ofList]

/-- Only the encoding of a text decodes to it. -/
theorem utf8Encode_of_decode {bs : List UInt8} {cs : List Char}
    (h : utf8Decode? bs = some cs) : utf8Encode cs = bs := by
  rw [utf8Decode?, Option.map_eq_some_iff] at h
  obtain ⟨s, hs, rfl⟩ := h
  simp only [String.fromUTF8?] at hs
  split at hs
  · next hv =>
      obtain rfl := Option.some.inj hs
      have := String.utf8Encode_toList (b := String.fromUTF8 bs.toByteArray (by simpa using hv))
      have hb : (utf8Encode (String.fromUTF8 bs.toByteArray (by simpa using hv)).toList).toByteArray
          = bs.toByteArray := this
      simpa using congrArg (fun b : ByteArray => b.data.toList) hb
  · cases hs

theorem utf8Encode_injective : Function.Injective utf8Encode := by
  intro cs ds h
  have := congrArg utf8Decode? h
  simpa using this

theorem utf8EncodeChar_ascii :
    ∀ n : Fin 128, String.utf8EncodeChar (Char.ofNat n) = [n.val.toUInt8] := by
  decide

/-- Bytes below 128 are the encoding of themselves. -/
theorem utf8Encode_ascii {bs : List UInt8} (h : ∀ b ∈ bs, b.toNat < 128) :
    utf8Encode (bs.map fun b => Char.ofNat b.toNat) = bs := by
  induction bs with
  | nil => rfl
  | cons b rest ih =>
      have hb := utf8EncodeChar_ascii ⟨b.toNat, h b List.mem_cons_self⟩
      have hrest := ih fun x hx => h x (List.mem_cons_of_mem _ hx)
      rw [utf8Encode] at hrest
      dsimp only at hb
      rw [List.map_cons, utf8Encode, List.flatMap_cons, hb, hrest]
      simp

/-! ### UTF-16 -/

/-- A leading (high) surrogate. -/
def isLead (u : UInt16) : Bool := 0xD800 ≤ u.toNat && u.toNat ≤ 0xDBFF

/-- A trailing (low) surrogate. -/
def isTrail (u : UInt16) : Bool := 0xDC00 ≤ u.toNat && u.toNat ≤ 0xDFFF

/-- The scalar value of a surrogate pair. -/
def pairChar (u v : UInt16) : Char :=
  Char.ofNat (0x10000 + (u.toNat - 0xD800) * 0x400 + (v.toNat - 0xDC00))

/-- What a code-unit sequence is made of. -/
inductive Rune where
  /-- A Unicode scalar value. -/
  | scalar (c : Char)
  /-- A surrogate that is not half of a pair. -/
  | unpaired (u : UInt16)
  deriving DecidableEq, Repr

/-- The rune of a code unit that is not the first half of a pair. -/
def Rune.ofUnit (u : UInt16) : Rune :=
  if isLead u || isTrail u then .unpaired u else .scalar (Char.ofNat u.toNat)

/-- Cut a code-unit sequence into scalar values and unpaired surrogates. -/
def runes : List UInt16 → List Rune
  | [] => []
  | [u] => [Rune.ofUnit u]
  | u :: v :: rest =>
    if isLead u && isTrail v then .scalar (pairChar u v) :: runes rest
    else Rune.ofUnit u :: runes (v :: rest)

/-- The code units of a scalar value. -/
def utf16EncodeChar (c : Char) : List UInt16 :=
  if c.toNat < 0x10000 then [UInt16.ofNat c.toNat]
  else [UInt16.ofNat (0xD800 + (c.toNat - 0x10000) / 0x400),
    UInt16.ofNat (0xDC00 + (c.toNat - 0x10000) % 0x400)]

/-- The code units of a rune. -/
def Rune.units : Rune → List UInt16
  | .scalar c => utf16EncodeChar c
  | .unpaired u => [u]

/-- The UTF-16 code units of a text. -/
def utf16Encode (cs : List Char) : List UInt16 := cs.flatMap utf16EncodeChar

/-- The character a rune is written as: U+FFFD stands in for an unpaired surrogate. -/
def Rune.toChar : Rune → Char
  | .scalar c => c
  | .unpaired _ => '\uFFFD'

/-- The text of a code-unit sequence, with U+FFFD for every unpaired surrogate. -/
def utf16Lossy (us : List UInt16) : List Char := (runes us).map Rune.toChar

/-- Is the rune a scalar value? -/
def Rune.isScalar : Rune → Bool
  | .scalar _ => true
  | .unpaired _ => false

/-- No unpaired surrogate: the sequence is the UTF-16 of a text. -/
def WellFormed (us : List UInt16) : Prop := ∀ r ∈ runes us, r.isScalar = true

instance (us : List UInt16) : Decidable (WellFormed us) :=
  inferInstanceAs (Decidable (∀ r ∈ runes us, r.isScalar = true))

@[simp] theorem utf16Encode_cons (c : Char) (cs : List Char) :
    utf16Encode (c :: cs) = utf16EncodeChar c ++ utf16Encode cs := rfl

theorem isLead_iff {u : UInt16} : isLead u = true ↔ 0xD800 ≤ u.toNat ∧ u.toNat ≤ 0xDBFF := by
  simp [isLead]

theorem isTrail_iff {u : UInt16} : isTrail u = true ↔ 0xDC00 ≤ u.toNat ∧ u.toNat ≤ 0xDFFF := by
  simp [isTrail]

/-- A scalar value is below the surrogates or above them. -/
theorem char_range (c : Char) : c.toNat < 0xD800 ∨ 0xDFFF < c.toNat ∧ c.toNat < 0x110000 :=
  c.valid

theorem toNat_charOfNat {n : Nat} (h : n < 0xD800 ∨ 0xDFFF < n ∧ n < 0x110000) :
    (Char.ofNat n).toNat = n := by
  rw [Char.ofNat, dif_pos h]
  rfl

/-- The units of a rune that stands for a single unit. -/
theorem units_ofUnit (u : UInt16) : (Rune.ofUnit u).units = [u] := by
  unfold Rune.ofUnit
  by_cases h : (isLead u || isTrail u) = true
  · rw [if_pos h]; rfl
  · rw [if_neg h]
    have hu : u.toNat < 0xD800 ∨ 0xDFFF < u.toNat ∧ u.toNat < 0x110000 := by
      have := u.toNat_lt
      simp only [Bool.or_eq_true, isLead_iff, isTrail_iff] at h
      omega
    have hlt : u.toNat < 0x10000 := u.toNat_lt
    simp only [Rune.units, utf16EncodeChar, toNat_charOfNat hu, if_pos hlt, UInt16.ofNat_toNat]

theorem toNat_pairChar {u v : UInt16} (hu : isLead u = true) (hv : isTrail v = true) :
    (pairChar u v).toNat = 0x10000 + (u.toNat - 0xD800) * 0x400 + (v.toNat - 0xDC00) := by
  simp only [isLead_iff] at hu
  simp only [isTrail_iff] at hv
  exact toNat_charOfNat (by omega)

/-- A pair's scalar value encodes back to the pair. -/
theorem utf16EncodeChar_pairChar {u v : UInt16} (hu : isLead u = true) (hv : isTrail v = true) :
    utf16EncodeChar (pairChar u v) = [u, v] := by
  have hn := toNat_pairChar hu hv
  simp only [isLead_iff] at hu
  simp only [isTrail_iff] at hv
  have hlead : 0xD800 + ((pairChar u v).toNat - 0x10000) / 0x400 = u.toNat := by omega
  have htrail : 0xDC00 + ((pairChar u v).toNat - 0x10000) % 0x400 = v.toNat := by omega
  rw [utf16EncodeChar, if_neg (by omega), hlead, htrail, UInt16.ofNat_toNat, UInt16.ofNat_toNat]

/-- Cutting into runes loses nothing. -/
theorem units_runes (us : List UInt16) : (runes us).flatMap Rune.units = us := by
  induction us using runes.induct with
  | case1 => rfl
  | case2 u => simp [runes, units_ofUnit]
  | case3 u v rest h ih =>
      simp only [Bool.and_eq_true] at h
      rw [runes, if_pos (by simp [h]), List.flatMap_cons, ih, Rune.units,
        utf16EncodeChar_pairChar h.1 h.2]
      rfl
  | case4 u v rest h ih =>
      rw [runes, if_neg h, List.flatMap_cons, ih, units_ofUnit]
      rfl

theorem length_runes_le (us : List UInt16) : (runes us).length ≤ us.length := by
  induction us using runes.induct with
  | case1 => exact Nat.le_refl _
  | case2 u => exact Nat.le_refl _
  | case3 u v rest h ih =>
      rw [runes, if_pos h, List.length_cons, List.length_cons, List.length_cons]
      omega
  | case4 u v rest h ih =>
      rw [runes, if_neg h, List.length_cons, List.length_cons]
      exact Nat.succ_le_succ ih

/-- A unit that starts no pair is cut off by itself. -/
theorem runes_cons {u : UInt16} (h : isLead u = false) (us : List UInt16) :
    runes (u :: us) = Rune.ofUnit u :: runes us := by
  cases us with
  | nil => rfl
  | cons v rest => simp [runes, h]

/-- An encoded scalar value is cut off whole, whatever follows. -/
theorem runes_utf16EncodeChar (c : Char) (us : List UInt16) :
    runes (utf16EncodeChar c ++ us) = .scalar c :: runes us := by
  have hrange := char_range c
  by_cases hc : c.toNat < 0x10000
  · have hu : (UInt16.ofNat c.toNat).toNat = c.toNat := by
      simp only [UInt16.toNat_ofNat']; exact Nat.mod_eq_of_lt hc
    have hl : isLead (UInt16.ofNat c.toNat) = false := by
      simp only [Bool.eq_false_iff, ne_eq, isLead_iff]; omega
    have ht : isTrail (UInt16.ofNat c.toNat) = false := by
      simp only [Bool.eq_false_iff, ne_eq, isTrail_iff]; omega
    rw [utf16EncodeChar, if_pos hc, List.singleton_append, runes_cons hl]
    simp only [Rune.ofUnit, hl, ht, hu, Bool.or_self, Bool.false_eq_true, if_false,
      Char.ofNat_toNat]
  · have hlead : (UInt16.ofNat (0xD800 + (c.toNat - 0x10000) / 0x400)).toNat
        = 0xD800 + (c.toNat - 0x10000) / 0x400 := by
      simp only [UInt16.toNat_ofNat']; omega
    have htrail : (UInt16.ofNat (0xDC00 + (c.toNat - 0x10000) % 0x400)).toNat
        = 0xDC00 + (c.toNat - 0x10000) % 0x400 := by
      simp only [UInt16.toNat_ofNat']; omega
    have hl : isLead (UInt16.ofNat (0xD800 + (c.toNat - 0x10000) / 0x400)) = true := by
      simp only [isLead_iff]; omega
    have ht : isTrail (UInt16.ofNat (0xDC00 + (c.toNat - 0x10000) % 0x400)) = true := by
      simp only [isTrail_iff]; omega
    have hpair : pairChar (UInt16.ofNat (0xD800 + (c.toNat - 0x10000) / 0x400))
        (UInt16.ofNat (0xDC00 + (c.toNat - 0x10000) % 0x400)) = c := by
      rw [pairChar, hlead, htrail]
      have : 0x10000 + (0xD800 + (c.toNat - 0x10000) / 0x400 - 0xD800) * 0x400
          + (0xDC00 + (c.toNat - 0x10000) % 0x400 - 0xDC00) = c.toNat := by omega
      rw [this, Char.ofNat_toNat]
    rw [utf16EncodeChar, if_neg hc]
    simp only [List.cons_append, List.nil_append, runes, hl, ht, Bool.and_self, if_true, hpair]

/-- The runes of an encoded text are its characters. -/
theorem runes_utf16Encode (cs : List Char) : runes (utf16Encode cs) = cs.map .scalar := by
  induction cs with
  | nil => rfl
  | cons c cs ih => rw [utf16Encode_cons, runes_utf16EncodeChar, ih, List.map_cons]

/-- Reading an encoded text gives the text. -/
@[simp] theorem utf16Lossy_utf16Encode (cs : List Char) : utf16Lossy (utf16Encode cs) = cs := by
  rw [utf16Lossy, runes_utf16Encode, List.map_map]
  exact List.map_id'' (fun _ => rfl) cs

theorem wellFormed_utf16Encode (cs : List Char) : WellFormed (utf16Encode cs) := by
  intro r hr
  simp only [runes_utf16Encode, List.mem_map] at hr
  obtain ⟨c, -, rfl⟩ := hr
  rfl

/-- A well-formed sequence is read without loss. -/
theorem utf16Encode_utf16Lossy {us : List UInt16} (h : WellFormed us) :
    utf16Encode (utf16Lossy us) = us := by
  have hunits : ∀ r ∈ runes us, utf16EncodeChar r.toChar = r.units := by
    intro r hr
    cases r with
    | scalar c => rfl
    | unpaired u => exact absurd (h _ hr) (by simp [Rune.isScalar])
  calc utf16Encode (utf16Lossy us)
      = (runes us).flatMap (fun r => utf16EncodeChar r.toChar) := by
        simp [utf16Encode, utf16Lossy, List.flatMap_map]
    _ = (runes us).flatMap Rune.units := List.flatMap_congr hunits
    _ = us := units_runes us

/-- Well-formedness is exactly survival of reading and writing back. -/
theorem wellFormed_iff {us : List UInt16} : WellFormed us ↔ utf16Encode (utf16Lossy us) = us :=
  ⟨utf16Encode_utf16Lossy, fun h => h ▸ wellFormed_utf16Encode _⟩

theorem utf16Encode_injective : Function.Injective utf16Encode := by
  intro cs ds h
  have := congrArg utf16Lossy h
  simpa using this

/-! ### ASCII -/

/-- The bytes of an ASCII text are its characters. -/
theorem utf8Encode_toNat {cs : List Char} (h : ∀ c ∈ cs, c.toNat < 128) :
    (utf8Encode cs).map UInt8.toNat = cs.map Char.toNat := by
  induction cs with
  | nil => rfl
  | cons c cs ih =>
      have hc := h c List.mem_cons_self
      have henc := utf8EncodeChar_ascii ⟨c.toNat, hc⟩
      have hrest := ih fun x hx => h x (List.mem_cons_of_mem _ hx)
      simp only [Char.ofNat_toNat] at henc
      rw [utf8Encode] at hrest
      rw [utf8Encode, List.flatMap_cons, henc, List.map_append, hrest]
      have : c.toNat.toUInt8.toNat = c.toNat := by
        simp only [Nat.toUInt8_eq, UInt8.toNat_ofNat']; omega
      simp [this]

/-- Bytes below 128 come from an ASCII text. -/
theorem ascii_of_utf8Encode {cs : List Char} (h : ∀ b ∈ utf8Encode cs, b.toNat < 128) :
    ∀ c ∈ cs, c.toNat < 128 := by
  intro c hc
  rw [← utf8Encode_injective (utf8Encode_ascii h)] at hc
  obtain ⟨b, hb, rfl⟩ := List.mem_map.mp hc
  have hlt := h b hb
  rw [toNat_charOfNat (by omega)]
  exact hlt

/-- The code units of an ASCII text are its characters. -/
theorem utf16Encode_toNat {cs : List Char} (h : ∀ c ∈ cs, c.toNat < 128) :
    (utf16Encode cs).map UInt16.toNat = cs.map Char.toNat := by
  induction cs with
  | nil => rfl
  | cons c cs ih =>
      have hc := h c List.mem_cons_self
      have hu : (UInt16.ofNat c.toNat).toNat = c.toNat := by
        simp only [UInt16.toNat_ofNat']; omega
      rw [utf16Encode_cons, utf16EncodeChar, if_pos (by omega), List.map_append,
        ih fun x hx => h x (List.mem_cons_of_mem _ hx)]
      simp [hu]

/-- Code units below 128 come from an ASCII text. -/
theorem ascii_of_utf16Encode {cs : List Char} (h : ∀ u ∈ utf16Encode cs, u.toNat < 128) :
    ∀ c ∈ cs, c.toNat < 128 := by
  intro c hc
  have hsub : ∀ u ∈ utf16EncodeChar c, u.toNat < 128 :=
    fun u hu => h u (List.mem_flatMap.mpr ⟨c, hc, hu⟩)
  have hrange := char_range c
  unfold utf16EncodeChar at hsub
  split at hsub
  · next hlt =>
      have hu := hsub _ List.mem_cons_self
      simp only [UInt16.toNat_ofNat'] at hu
      omega
  · have hu := hsub _ List.mem_cons_self
    simp only [UInt16.toNat_ofNat'] at hu
    omega

/-! ### ASCII in a text -/

/-- A byte below 128 stands for its character only. -/
theorem ascii_mem_utf8EncodeChar {c : Char} {b : UInt8} (hb : b.toNat < 128) :
    b ∈ String.utf8EncodeChar c ↔ c.toNat = b.toNat := by
  constructor
  · intro h
    have hrange := char_range c
    have hval : c.val.toNat = c.toNat := rfl
    unfold String.utf8EncodeChar at h
    dsimp only at h
    rw [hval] at h
    split_ifs at h
    all_goals simp only [List.mem_cons, List.not_mem_nil, or_false, ← UInt8.toNat_inj,
      UInt8.toNat_ofNat'] at h
    all_goals omega
  · intro h
    have henc := utf8EncodeChar_ascii ⟨c.toNat, h ▸ hb⟩
    dsimp only at henc
    rw [Char.ofNat_toNat] at henc
    rw [henc, List.mem_singleton, ← UInt8.toNat_inj, Nat.toUInt8_eq, UInt8.toNat_ofNat']
    omega

theorem ascii_mem_utf8Encode {cs : List Char} {b : UInt8} (hb : b.toNat < 128) :
    b ∈ utf8Encode cs ↔ ∃ c ∈ cs, c.toNat = b.toNat := by
  simp only [utf8Encode, List.mem_flatMap, ascii_mem_utf8EncodeChar hb]

/-- A unit below 128 stands for its character only. -/
theorem ascii_mem_utf16EncodeChar {c : Char} {u : UInt16} (hu : u.toNat < 128) :
    u ∈ utf16EncodeChar c ↔ c.toNat = u.toNat := by
  have hrange := char_range c
  unfold utf16EncodeChar
  split_ifs
  all_goals simp only [List.mem_cons, List.not_mem_nil, or_false, ← UInt16.toNat_inj,
    UInt16.toNat_ofNat']
  all_goals omega

/-- No surrogate is below 128. -/
theorem ascii_not_unpaired {us : List UInt16} {u : UInt16} (hu : u.toNat < 128) :
    Rune.unpaired u ∉ runes us := by
  have hunit : ∀ v, Rune.unpaired u ≠ Rune.ofUnit v := by
    intro v h
    unfold Rune.ofUnit at h
    split at h
    · next hs =>
        cases h
        rw [Bool.or_eq_true, isLead_iff, isTrail_iff] at hs
        omega
    · cases h
  induction us using runes.induct with
  | case1 => exact List.not_mem_nil
  | case2 v => simpa [runes] using hunit v
  | case3 v w rest h ih => simpa [runes, h] using ih
  | case4 v w rest h ih =>
      rw [runes, if_neg h, List.mem_cons, not_or]
      exact ⟨hunit v, ih⟩

/-- Reading neither adds nor hides a character below 128. -/
theorem ascii_mem_utf16Lossy {us : List UInt16} {u : UInt16} (hu : u.toNat < 128) :
    (∃ c ∈ utf16Lossy us, c.toNat = u.toNat) ↔ u ∈ us := by
  have hlossy : (∃ c ∈ utf16Lossy us, c.toNat = u.toNat) ↔
      ∃ r ∈ runes us, r.toChar.toNat = u.toNat := by
    simp only [utf16Lossy, List.mem_map, exists_exists_and_eq_and]
  rw [hlossy]
  conv_rhs => rw [← units_runes us, List.mem_flatMap]
  refine exists_congr fun r => and_congr_right fun hr => ?_
  cases r with
  | scalar c => exact (ascii_mem_utf16EncodeChar hu).symm
  | unpaired v =>
      have hv : v ≠ u := fun h => ascii_not_unpaired hu (h ▸ hr)
      have hfffd : ¬ 65533 = u.toNat := by omega
      simp [Rune.toChar, Rune.units, hv.symm, hfffd]

theorem zero_mem_utf8Encode {cs : List Char} : 0 ∈ utf8Encode cs ↔ '\x00' ∈ cs := by
  rw [ascii_mem_utf8Encode (by decide)]
  constructor
  · rintro ⟨c, hc, hzero⟩
    have hchar : c = '\x00' := by rw [← Char.ofNat_toNat c, hzero]; rfl
    exact hchar ▸ hc
  · exact fun h => ⟨_, h, rfl⟩

/-- Reading neither adds nor hides U+0000. -/
theorem zero_mem_utf16Lossy {us : List UInt16} : '\x00' ∈ utf16Lossy us ↔ 0 ∈ us := by
  rw [← @ascii_mem_utf16Lossy us 0 (by decide)]
  constructor
  · exact fun h => ⟨_, h, rfl⟩
  · rintro ⟨c, hc, hzero⟩
    have hchar : c = '\x00' := by rw [← Char.ofNat_toNat c, hzero]; rfl
    exact hchar ▸ hc

end Syncraft.Text
