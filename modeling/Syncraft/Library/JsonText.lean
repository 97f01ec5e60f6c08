import Syncraft.Library.Text

/-!
# Syncraft.Library.JsonText

**JSON string literals between two programs.** A literal is what stands between the quotes:
characters written out, and escapes, each of which denotes one UTF-16 code unit. `scan` cuts
a literal into such items. From there on the two readers part: a program with UTF-16 strings
takes the code units as they are (`unitsOf`), one with UTF-8 strings has to pair the
surrogates first, and reads an unpaired one as U+FFFD (`bytesOf`).

The two writers differ as well in what they escape (`unitsLiteral`, `bytesLiteral`).
A UTF-16 program reads back what it wrote (`unitsOf_unitsLiteral`), and so what it compares as
JSON text it compares as strings (`unitsLiteral_injective`). Between the two programs only
unpaired surrogates are lost (`bytesOf_unitsLiteral`, `unitsOf_bytesLiteral`).
-/

namespace Syncraft.JsonText

open Text

/-- The content of a JSON string, as written between its quotes. -/
abbrev Literal := List Char

/-- One item of a literal. -/
inductive Item where
  /-- A character written out. -/
  | raw (c : Char)
  /-- The code unit an escape denotes. -/
  | escape (u : UInt16)
  deriving DecidableEq, Repr

/-! ### Hexadecimal digits -/

/-- A digit below 16, in lower case. -/
def hexChar (n : Nat) : Char := if n < 10 then Char.ofNat (48 + n) else Char.ofNat (87 + n)

/-- The value of a digit, in either case. -/
def hexValue (c : Char) : Option Nat :=
  if '0' ≤ c ∧ c ≤ '9' then some (c.toNat - 48)
  else if 'a' ≤ c ∧ c ≤ 'f' then some (c.toNat - 87)
  else if 'A' ≤ c ∧ c ≤ 'F' then some (c.toNat - 55)
  else none

theorem hexValue_hexChar {n : Nat} (h : n < 16) : hexValue (hexChar n) = some n := by
  have hall : ∀ k : Fin 16, hexValue (hexChar k) = some k.val := by decide
  exact hall ⟨n, h⟩

/-- The code unit of four digits. -/
def hex4 (a b c d : Char) : Option UInt16 := do
  let a ← hexValue a
  let b ← hexValue b
  let c ← hexValue c
  let d ← hexValue d
  return UInt16.ofNat (a * 4096 + b * 256 + c * 16 + d)

/-- `\uXXXX` -/
def escape4 (u : UInt16) : Literal :=
  ['\\', 'u', hexChar (u.toNat / 4096), hexChar (u.toNat / 256 % 16), hexChar (u.toNat / 16 % 16),
    hexChar (u.toNat % 16)]

theorem hex4_digits (u : UInt16) :
    hex4 (hexChar (u.toNat / 4096)) (hexChar (u.toNat / 256 % 16)) (hexChar (u.toNat / 16 % 16))
      (hexChar (u.toNat % 16)) = some u := by
  have hu := u.toNat_lt
  have hsum : u.toNat / 4096 * 4096 + u.toNat / 256 % 16 * 256 + u.toNat / 16 % 16 * 16 +
      u.toNat % 16 = u.toNat := by omega
  rw [hex4, hexValue_hexChar (by omega), hexValue_hexChar (by omega), hexValue_hexChar (by omega),
    hexValue_hexChar (by omega)]
  show some (UInt16.ofNat _) = some u
  rw [hsum, UInt16.ofNat_toNat]

/-! ### Reading a literal -/

/-- The code unit that `\c` denotes. -/
def shortEscape (c : Char) : Option UInt16 :=
  if c = '"' ∨ c = '\\' ∨ c = '/' then some (UInt16.ofNat c.toNat)
  else if c = 'b' then some 0x8
  else if c = 'f' then some 0xC
  else if c = 'n' then some 0xA
  else if c = 'r' then some 0xD
  else if c = 't' then some 0x9
  else none

/-- Cut a literal into items. -/
def scan : Literal → Option (List Item)
  | [] => some []
  | c :: rest =>
    if c = '\\' then
      match rest with
      | [] => none
      | k :: rest =>
        if k = 'u' then
          match rest with
          | a :: b :: c :: d :: rest => do
            let u ← hex4 a b c d
            let items ← scan rest
            return .escape u :: items
          | _ => none
        else do
          let u ← shortEscape k
          let items ← scan rest
          return .escape u :: items
    else if c = '"' ∨ c.toNat < 0x20 then none
    else (scan rest).map (.raw c :: ·)

theorem scan_raw {c : Char} (hb : c ≠ '\\') (hq : c ≠ '"') (hc : 0x20 ≤ c.toNat) (rest : Literal) :
    scan (c :: rest) = (scan rest).map (.raw c :: ·) := by
  rw [scan.eq_def]
  dsimp only
  rw [if_neg hb, if_neg (by simp only [hq, false_or]; omega)]

theorem scan_short {k : Char} {u : UInt16} (hk : k ≠ 'u') (h : shortEscape k = some u)
    (rest : Literal) : scan ('\\' :: k :: rest) = (scan rest).map (.escape u :: ·) := by
  rw [scan.eq_def]
  dsimp only
  rw [if_pos rfl, if_neg hk, h]
  cases scan rest <;> rfl

theorem scan_escape4 (u : UInt16) (rest : Literal) :
    scan (escape4 u ++ rest) = (scan rest).map (.escape u :: ·) := by
  rw [escape4, scan.eq_def]
  dsimp only [List.cons_append, List.nil_append]
  rw [if_pos rfl, if_pos rfl, hex4_digits]
  cases scan rest <;> rfl

/-- The code units of an item. -/
def Item.units : Item → List UInt16
  | .raw c => utf16EncodeChar c
  | .escape u => [u]

/-- The code units of a list of items. -/
def units (items : List Item) : List UInt16 := items.flatMap Item.units

@[simp] theorem units_raw (c : Char) (items : List Item) :
    units (.raw c :: items) = utf16EncodeChar c ++ units items := rfl

@[simp] theorem units_escape (u : UInt16) (items : List Item) :
    units (.escape u :: items) = u :: units items := rfl

/-- The characters of a list of items: escaped surrogates that are halves of a pair are put
together, and U+FFFD stands in for the others. -/
def chars : List Item → List Char
  | [] => []
  | .raw c :: rest => c :: chars rest
  | [.escape u] => [(Rune.ofUnit u).toChar]
  | .escape u :: .raw c :: rest => (Rune.ofUnit u).toChar :: c :: chars rest
  | .escape u :: .escape v :: rest =>
    if isLead u && isTrail v then pairChar u v :: chars rest
    else (Rune.ofUnit u).toChar :: chars (.escape v :: rest)

/-- A literal read into a UTF-16 string. -/
def unitsOf (s : Literal) : Option (List UInt16) := (scan s).map units

/-- A literal read into a UTF-8 string. -/
def bytesOf (s : Literal) : Option (List UInt8) :=
  (scan s).map fun items => utf8Encode (chars items)

/-- A code unit before a whole character is never half of a pair. -/
theorem runes_unit_char (u : UInt16) (c : Char) (us : List UInt16) :
    runes (u :: (utf16EncodeChar c ++ us)) = Rune.ofUnit u :: .scalar c :: runes us := by
  have hrange := char_range c
  have hrest := runes_utf16EncodeChar c us
  -- The first unit of a character is no trailing surrogate.
  have hhead : ∃ v vs, utf16EncodeChar c ++ us = v :: vs ∧ isTrail v = false := by
    by_cases hc : c.toNat < 0x10000
    · refine ⟨UInt16.ofNat c.toNat, us, by rw [utf16EncodeChar, if_pos hc]; rfl, ?_⟩
      have hu : (UInt16.ofNat c.toNat).toNat = c.toNat := by
        simp only [UInt16.toNat_ofNat']; exact Nat.mod_eq_of_lt hc
      simp only [Bool.eq_false_iff, ne_eq, isTrail_iff]
      omega
    · refine ⟨UInt16.ofNat (0xD800 + (c.toNat - 0x10000) / 0x400), _,
        by rw [utf16EncodeChar, if_neg hc]; rfl, ?_⟩
      have hu : (UInt16.ofNat (0xD800 + (c.toNat - 0x10000) / 0x400)).toNat =
          0xD800 + (c.toNat - 0x10000) / 0x400 := by
        simp only [UInt16.toNat_ofNat']; omega
      simp only [Bool.eq_false_iff, ne_eq, isTrail_iff]
      omega
  obtain ⟨v, vs, hv, ht⟩ := hhead
  rw [hv] at hrest ⊢
  rw [runes, if_neg (by simp [ht]), hrest]

/-- The two readers agree, up to unpaired surrogates. -/
theorem chars_eq (items : List Item) : chars items = utf16Lossy (units items) := by
  induction items using chars.induct with
  | case1 => rfl
  | case2 c rest ih =>
      rw [chars, ih, units_raw, utf16Lossy, utf16Lossy, runes_utf16EncodeChar]
      rfl
  | case3 u => rfl
  | case4 u c rest ih =>
      rw [chars, ih, units_escape, units_raw, utf16Lossy, utf16Lossy, runes_unit_char]
      rfl
  | case5 u v rest h ih =>
      rw [chars, if_pos h, ih, units_escape, units_escape, utf16Lossy, utf16Lossy, runes, if_pos h]
      rfl
  | case6 u v rest h ih =>
      rw [chars, if_neg h, ih, units_escape u, units_escape, utf16Lossy, utf16Lossy, runes, if_neg h]
      rfl

/-- What a UTF-8 program makes of a literal follows from what a UTF-16 program makes of it. -/
theorem bytesOf_of_unitsOf {s : Literal} {us : List UInt16} (h : unitsOf s = some us) :
    bytesOf s = some (utf8Encode (utf16Lossy us)) := by
  rw [unitsOf, Option.map_eq_some_iff] at h
  obtain ⟨items, hs, rfl⟩ := h
  rw [bytesOf, hs, Option.map_some, chars_eq]

/-! ### Writing a literal -/

/-- A control character, with its short escape where it has one. -/
def controlLiteral (c : Char) : Literal :=
  if c.toNat = 0x8 then ['\\', 'b']
  else if c.toNat = 0x9 then ['\\', 't']
  else if c.toNat = 0xA then ['\\', 'n']
  else if c.toNat = 0xC then ['\\', 'f']
  else if c.toNat = 0xD then ['\\', 'r']
  else escape4 (UInt16.ofNat c.toNat)

/-- A rune, as a UTF-16 program writes it. -/
def runeLiteral : Rune → Literal
  | .unpaired u => escape4 u
  | .scalar c =>
    if c.toNat < 0x20 then controlLiteral c
    else if c = '"' ∨ c = '\\' then ['\\', c]
    else [c]

/-- A UTF-16 string, as its program writes it. -/
def unitsLiteral (us : List UInt16) : Literal := (runes us).flatMap runeLiteral

/-- Cut a byte sequence into characters and bytes that are part of none. -/
def utf8Runes (bs : List UInt8) : List (Option Char) :=
  match bs with
  | [] => []
  | b :: rest =>
    match (b :: rest).toByteArray.utf8DecodeChar? 0 with
    | some c => some c :: utf8Runes (rest.drop (c.utf8Size - 1))
    | none => none :: utf8Runes rest
  termination_by bs.length
  decreasing_by
  · simp only [List.length_drop, List.length_cons]; omega
  · simp only [List.length_cons]; omega

/-- A character, as a UTF-8 program writes it for a reader that may be a browser. A byte
that is part of no character is written as U+FFFD. -/
def charLiteral : Option Char → Literal
  | none => ['\uFFFD']
  | some c =>
    if c.toNat < 0x20 then controlLiteral c
    else if c = '"' ∨ c = '\\' then ['\\', c]
    else if c = '<' ∨ c = '>' ∨ c = '&' ∨ c.toNat = 0x2028 ∨ c.toNat = 0x2029 then
      escape4 (UInt16.ofNat c.toNat)
    else [c]

/-- A UTF-8 string, as its program writes it. -/
def bytesLiteral (bs : List UInt8) : Literal := (utf8Runes bs).flatMap charLiteral

/-! ### Round trips -/

/-- A literal is read item by item: `w`, whatever follows it, gives the code units `us`. -/
def Reads (w : Literal) (us : List UInt16) : Prop :=
  ∃ item : Item, item.units = us ∧ ∀ rest, scan (w ++ rest) = (scan rest).map (item :: ·)

theorem utf16EncodeChar_small {c : Char} (h : c.toNat < 0x10000) :
    utf16EncodeChar c = [UInt16.ofNat c.toNat] := by
  rw [utf16EncodeChar, if_pos h]

theorem reads_escape4 {c : Char} (h : c.toNat < 0x10000) :
    Reads (escape4 (UInt16.ofNat c.toNat)) (utf16EncodeChar c) :=
  ⟨.escape (UInt16.ofNat c.toNat), (utf16EncodeChar_small h).symm, scan_escape4 _⟩

theorem reads_short {c k : Char} (h : c.toNat < 0x10000) (hk : k ≠ 'u')
    (hs : shortEscape k = some (UInt16.ofNat c.toNat)) : Reads ['\\', k] (utf16EncodeChar c) :=
  ⟨.escape (UInt16.ofNat c.toNat), (utf16EncodeChar_small h).symm, scan_short hk hs⟩

theorem reads_raw {c : Char} (hb : c ≠ '\\') (hq : c ≠ '"') (hc : 0x20 ≤ c.toNat) :
    Reads [c] (utf16EncodeChar c) :=
  ⟨.raw c, rfl, scan_raw hb hq hc⟩

theorem reads_control {c : Char} (h : c.toNat < 0x20) :
    Reads (controlLiteral c) (utf16EncodeChar c) := by
  have hlt : c.toNat < 0x10000 := by omega
  unfold controlLiteral
  split
  · next hc => exact reads_short hlt (by decide) (by rw [hc]; decide)
  split
  · next hc => exact reads_short hlt (by decide) (by rw [hc]; decide)
  split
  · next hc => exact reads_short hlt (by decide) (by rw [hc]; decide)
  split
  · next hc => exact reads_short hlt (by decide) (by rw [hc]; decide)
  split
  · next hc => exact reads_short hlt (by decide) (by rw [hc]; decide)
  · exact reads_escape4 hlt

/-- A quote or a backslash, behind a backslash. -/
theorem reads_quoted {c : Char} (h : c = '"' ∨ c = '\\') : Reads ['\\', c] (utf16EncodeChar c) := by
  rcases h with rfl | rfl
  · exact reads_short (by decide) (by decide) (by decide)
  · exact reads_short (by decide) (by decide) (by decide)

theorem reads_runeLiteral (r : Rune) : Reads (runeLiteral r) r.units := by
  cases r with
  | unpaired u => exact ⟨.escape u, rfl, scan_escape4 u⟩
  | scalar c =>
      rw [runeLiteral, Rune.units]
      split
      · next hc => exact reads_control hc
      split
      · next hc => exact reads_quoted hc
      · next hlt hc =>
          simp only [not_or] at hc
          exact reads_raw hc.2 hc.1 (by omega)

theorem reads_charLiteral (c : Char) : Reads (charLiteral (some c)) (utf16EncodeChar c) := by
  rw [charLiteral]
  split
  · next hc => exact reads_control hc
  split
  · next hc => exact reads_quoted hc
  split
  · next hc =>
      refine reads_escape4 ?_
      rcases hc with rfl | rfl | rfl | hc | hc
      · decide
      · decide
      · decide
      · omega
      · omega
  · next hlt hc _ =>
      simp only [not_or] at hc
      exact reads_raw hc.2 hc.1 (by omega)

/-- Literals that are read one by one are read in a row. -/
theorem unitsOf_flatMap {β : Type} {f : β → Literal} {g : β → List UInt16}
    (h : ∀ x, Reads (f x) (g x)) (xs : List β) : unitsOf (xs.flatMap f) = some (xs.flatMap g) := by
  induction xs with
  | nil => rfl
  | cons x xs ih =>
      obtain ⟨item, hunits, hscan⟩ := h x
      rw [unitsOf, Option.map_eq_some_iff] at ih
      obtain ⟨items, hitems, hus⟩ := ih
      rw [unitsOf, List.flatMap_cons, hscan, hitems, List.flatMap_cons, ← hus, ← hunits]
      rfl

/-- A UTF-16 program reads back what it wrote. -/
@[simp] theorem unitsOf_unitsLiteral (us : List UInt16) : unitsOf (unitsLiteral us) = some us := by
  have h := unitsOf_flatMap reads_runeLiteral (runes us)
  rwa [units_runes] at h

theorem unitsLiteral_injective : Function.Injective unitsLiteral := by
  intro us vs h
  have := congrArg unitsOf h
  simpa using this

/-- **From UTF-16 to UTF-8**, unpaired surrogates become U+FFFD and nothing else changes. -/
@[simp] theorem bytesOf_unitsLiteral (us : List UInt16) :
    bytesOf (unitsLiteral us) = some (utf8Encode (utf16Lossy us)) :=
  bytesOf_of_unitsOf (unitsOf_unitsLiteral us)

/-- An encoded text is cut into its characters. -/
theorem utf8Runes_utf8Encode (cs : List Char) : utf8Runes (utf8Encode cs) = cs.map some := by
  induction cs with
  | nil => rw [utf8Encode_nil, utf8Runes, List.map_nil]
  | cons c cs ih =>
      have hdec : (utf8Encode (c :: cs)).toByteArray.utf8DecodeChar? 0 = some c :=
        List.utf8DecodeChar?_utf8Encode_cons
      have hlen := String.length_utf8EncodeChar c
      have hcat : utf8Encode (c :: cs) = String.utf8EncodeChar c ++ utf8Encode cs := rfl
      rw [hcat] at hdec ⊢
      cases hb : String.utf8EncodeChar c with
      | nil =>
          have := Char.utf8Size_pos c
          rw [hb, List.length_nil] at hlen
          omega
      | cons b tail =>
          rw [hb] at hdec hlen
          simp only [List.length_cons] at hlen
          simp only [List.cons_append] at hdec ⊢
          rw [utf8Runes, hdec]
          dsimp only
          rw [← hlen, Nat.add_sub_cancel, List.drop_left, ih, List.map_cons]

/-- **From UTF-8 to UTF-16** a text arrives unchanged. -/
@[simp] theorem unitsOf_bytesLiteral (cs : List Char) :
    unitsOf (bytesLiteral (utf8Encode cs)) = some (utf16Encode cs) := by
  rw [bytesLiteral, utf8Runes_utf8Encode, List.flatMap_map]
  exact unitsOf_flatMap reads_charLiteral cs

/-! ### Any bytes -/

/-- The code units that are read of a character, or of a byte that is part of none. -/
def readUnits : Option Char → List UInt16
  | none => [0xFFFD]
  | some c => utf16EncodeChar c

/-- Whatever a UTF-8 program writes can be read. -/
theorem unitsOf_bytes (bs : List UInt8) :
    unitsOf (bytesLiteral bs) = some ((utf8Runes bs).flatMap readUnits) := by
  have hreads : ∀ c : Option Char, Reads (charLiteral c) (readUnits c) := by
    intro c
    cases c with
    | none => exact ⟨.raw '\uFFFD', rfl, scan_raw (by decide) (by decide) (by decide)⟩
    | some c => exact reads_charLiteral c
  exact unitsOf_flatMap hreads (utf8Runes bs)

theorem exists_unitsOf_bytesLiteral (bs : List UInt8) : ∃ us, unitsOf (bytesLiteral bs) = some us :=
  ⟨_, unitsOf_bytes bs⟩

/-- A character that bytes begin with is encoded by the first of them. -/
theorem bytes_of_decode {b : UInt8} {rest : List UInt8} {c : Char}
    (h : (b :: rest).toByteArray.utf8DecodeChar? 0 = some c) :
    b :: rest = String.utf8EncodeChar c ++ rest.drop (c.utf8Size - 1) := by
  obtain ⟨l, hl⟩ := ByteArray.exists_of_utf8DecodeChar?_eq_some h
  have hbytes : b :: rest = String.utf8EncodeChar c ++ l.data.toList := by
    have hlist := congrArg (fun x : ByteArray => x.data.toList) hl
    simpa using hlist
  have hlen := String.length_utf8EncodeChar c
  cases hc : String.utf8EncodeChar c with
  | nil =>
      have := Char.utf8Size_pos c
      rw [hc, List.length_nil] at hlen
      omega
  | cons x tail =>
      rw [hc] at hbytes hlen
      obtain ⟨rfl, hrest⟩ := List.cons.inj (hbytes.trans List.cons_append)
      rw [List.length_cons] at hlen
      rw [hrest, ← hlen, Nat.add_sub_cancel, List.drop_left, List.cons_append]

/-- A character has no more code units than bytes. -/
theorem length_utf16EncodeChar_le (c : Char) : (utf16EncodeChar c).length ≤ c.utf8Size := by
  have hpos := Char.utf8Size_pos c
  by_cases hc : c.toNat < 0x10000
  · rw [utf16EncodeChar_small hc]
    exact hpos
  · have hsize : 2 ≤ c.utf8Size := by
      have hval : c.val.toNat = c.toNat := rfl
      unfold Char.utf8Size
      dsimp only
      split_ifs with h
      · rw [UInt32.le_iff_toNat_le, hval] at h
        exact absurd h (by simp only [UInt32.toNat_ofNatLT]; omega)
      all_goals omega
    rw [utf16EncodeChar, if_neg hc]
    exact hsize

/-- A text that is read has no more code units than it had bytes. -/
theorem length_readUnits_le (bs : List UInt8) :
    ((utf8Runes bs).flatMap readUnits).length ≤ bs.length := by
  induction bs using utf8Runes.induct with
  | case1 => simp [utf8Runes]
  | case2 b rest c hc ih =>
      rw [utf8Runes, hc]
      have hbytes := congrArg List.length (bytes_of_decode hc)
      have hunits := length_utf16EncodeChar_le c
      rw [List.length_append, String.length_utf8EncodeChar] at hbytes
      simp only [List.flatMap_cons, List.length_append, readUnits]
      omega
  | case3 b rest hc ih =>
      rw [utf8Runes, hc]
      simp only [List.flatMap_cons, List.length_append, readUnits, List.length_cons, List.length_nil]
      omega

theorem readUnits_ne_nil (c : Option Char) : readUnits c ≠ [] := by
  cases c with
  | none => exact List.cons_ne_nil _ _
  | some c =>
      rw [readUnits, utf16EncodeChar]
      split <;> exact List.cons_ne_nil _ _

/-- Something is read of a text that is not empty. -/
theorem flatMap_readUnits_ne_nil {bs : List UInt8} (h : bs ≠ []) :
    (utf8Runes bs).flatMap readUnits ≠ [] := by
  cases bs with
  | nil => exact absurd rfl h
  | cons b rest =>
      rw [utf8Runes]
      split <;> exact fun hnil => readUnits_ne_nil _ (List.append_eq_nil_iff.mp hnil).1

/-- An ASCII unit that is read was a byte. -/
theorem byte_of_unit {bs : List UInt8} {u : UInt16} (hu : u ∈ (utf8Runes bs).flatMap readUnits)
    (hascii : u.toNat < 128) : ∃ b ∈ bs, b.toNat = u.toNat := by
  induction bs using utf8Runes.induct with
  | case1 =>
      rw [utf8Runes] at hu
      cases hu
  | case2 b rest c hc ih =>
      rw [utf8Runes, hc, List.flatMap_cons, List.mem_append] at hu
      have hbytes := bytes_of_decode hc
      rcases hu with hu | hu
      · have hchar := (ascii_mem_utf16EncodeChar hascii).mp hu
        have hbyte : (UInt8.ofNat u.toNat).toNat = u.toNat := by
          rw [UInt8.toNat_ofNat']
          omega
        have hmem : UInt8.ofNat u.toNat ∈ String.utf8EncodeChar c :=
          (ascii_mem_utf8EncodeChar (by omega)).mpr (hchar.trans hbyte.symm)
        exact ⟨_, by rw [hbytes]; exact List.mem_append_left _ hmem, hbyte⟩
      · obtain ⟨x, hx, hxu⟩ := ih hu
        exact ⟨x, by rw [hbytes]; exact List.mem_append_right _ hx, hxu⟩
  | case3 b rest hc ih =>
      rw [utf8Runes, hc, List.flatMap_cons, List.mem_append] at hu
      rcases hu with hu | hu
      · rw [List.mem_singleton.mp hu] at hascii
        exact absurd hascii (by decide)
      · obtain ⟨x, hx, hxu⟩ := ih hu
        exact ⟨x, List.mem_cons_of_mem _ hx, hxu⟩

end Syncraft.JsonText
