import Mathlib.Algebra.Group.Int.Defs
import Mathlib.Data.List.Basic
import Syncraft.Library.JsonText

/-!
# Syncraft.Library.Json

**JSON documents over UTF-16.** A document is written without white space (`encode`) and read
by recursive descent (`decode`). Reading is given fuel for the nesting; a text as long as the
document is fuel enough, so that what was written is read back (`decode_encode`).

A number is kept as it was written, a mantissa and a power of ten. Objects list their members
in order, and where a key is repeated the last one counts (`member`).
-/

namespace Syncraft

/-- A string, or a whole text, in UTF-16. -/
abbrev Json.Text := List UInt16

/-- The number `mantissa * 10 ^ exponent`. -/
structure Json.Number where
  mantissa : Int
  exponent : Int
  deriving DecidableEq, Repr

/-- A document. -/
inductive Json where
  | null
  | bool (b : Bool)
  | num (n : Json.Number)
  | str (s : Json.Text)
  | arr (elements : List Json)
  | obj (members : List (Json.Text × Json))

namespace Json

open Text JsonText

/-- A whole number. -/
def int (i : Int) : Json := .num { mantissa := i, exponent := 0 }

/-- The value under a key. -/
def member (members : List (Text × Json)) (key : Text) : Option Json := members.reverse.lookup key

/-- Is the double nearest to the number 1? -/
def Number.isOne (n : Number) : Bool :=
  let scale : Int := 10 ^ n.exponent.natAbs
  let above := if n.exponent < 0 then n.mantissa else n.mantissa * scale
  let below := if n.exponent < 0 then scale else 1
  decide ((2 ^ 54 - 1) * below ≤ 2 ^ 54 * above) && decide (2 ^ 53 * above ≤ (2 ^ 53 + 1) * below)

/-! ### Writing -/

/-- A decimal digit. -/
def digit (n : Nat) : UInt16 := UInt16.ofNat (48 + n)

/-- A natural number in decimal. -/
def natText (n : Nat) : Text := if n < 10 then [digit n] else natText (n / 10) ++ [digit (n % 10)]

/-- An integer in decimal. -/
def intText (i : Int) : Text := if i < 0 then 0x2D :: natText i.natAbs else natText i.natAbs

/-- A number. One that is not written as an integer gets its exponent. -/
def Number.text (n : Number) : Text :=
  intText n.mantissa ++ if n.exponent = 0 then [] else 0x65 :: intText n.exponent

/-- A string between its quotes. -/
def quote (s : Text) : Text := 0x22 :: (utf16Encode (unitsLiteral s) ++ [0x22])

/-- `true` -/
def trueText : Text := [0x74, 0x72, 0x75, 0x65]

/-- `false` -/
def falseText : Text := [0x66, 0x61, 0x6C, 0x73, 0x65]

/-- `null` -/
def nullText : Text := [0x6E, 0x75, 0x6C, 0x6C]

mutual

/-- A document, without white space. -/
def encode : Json → Text
  | .null => nullText
  | .bool b => if b then trueText else falseText
  | .num n => n.text
  | .str s => quote s
  | .arr [] => [0x5B, 0x5D]
  | .arr (j :: js) => 0x5B :: (encode j ++ encodeElements js)
  | .obj [] => [0x7B, 0x7D]
  | .obj ((k, j) :: ms) => 0x7B :: (quote k ++ 0x3A :: (encode j ++ encodeMembers ms))

/-- The elements after the first, and the bracket. -/
def encodeElements : List Json → Text
  | [] => [0x5D]
  | j :: js => 0x2C :: (encode j ++ encodeElements js)

/-- The members after the first, and the brace. -/
def encodeMembers : List (Text × Json) → Text
  | [] => [0x7D]
  | (k, j) :: ms => 0x2C :: (quote k ++ 0x3A :: (encode j ++ encodeMembers ms))

end

/-! ### Reading -/

/-- White space between tokens. -/
def isSpace (u : UInt16) : Bool := u == 0x20 || u == 0x9 || u == 0xA || u == 0xD

/-- Skip white space. -/
def skip (s : Text) : Text := s.dropWhile isSpace

/-- Is the unit a digit? -/
def isDigit (u : UInt16) : Bool := 0x30 ≤ u.toNat && u.toNat ≤ 0x39

/-- The number that digits stand for. -/
def natOf (ds : Text) : Nat := ds.foldl (fun n d => 10 * n + (d.toNat - 48)) 0

/-- Digits, at least one. -/
def scanDigits (s : Text) : Option (Text × Text) :=
  if s.takeWhile isDigit = [] then none else some (s.takeWhile isDigit, s.dropWhile isDigit)

/-- The digits after the point, where there is one. -/
def scanFraction (s : Text) : Option (Text × Text) :=
  match s with
  | c :: rest => if c = 0x2E then scanDigits rest else some ([], s)
  | [] => some ([], [])

/-- A sign and digits. -/
def scanSigned (s : Text) : Option (Int × Text) :=
  match s with
  | c :: rest =>
    if c = 0x2D then (scanDigits rest).map fun p => (-(natOf p.1 : Int), p.2)
    else if c = 0x2B then (scanDigits rest).map fun p => ((natOf p.1 : Int), p.2)
    else (scanDigits s).map fun p => ((natOf p.1 : Int), p.2)
  | [] => none

/-- The exponent, where there is one. -/
def scanExponent (s : Text) : Option (Int × Text) :=
  match s with
  | c :: rest => if c = 0x65 ∨ c = 0x45 then scanSigned rest else some (0, s)
  | [] => some (0, [])

/-- A number without its sign. No digit may follow a leading zero. -/
def scanUnsigned (s : Text) : Option (Nat × Int × Text) := do
  let (whole, s) ← scanDigits s
  if whole.head? = some 0x30 ∧ whole.length ≠ 1 then none
  else
    let (fraction, s) ← scanFraction s
    let (exponent, s) ← scanExponent s
    return (natOf (whole ++ fraction), exponent - fraction.length, s)

/-- A number. -/
def scanNumber (s : Text) : Option (Number × Text) :=
  match s with
  | [] => none
  | c :: rest =>
    if c = 0x2D then
      (scanUnsigned rest).map fun (m, e, rest) => ({ mantissa := -m, exponent := e }, rest)
    else (scanUnsigned s).map fun (m, e, rest) => ({ mantissa := m, exponent := e }, rest)

/-- The character of a unit that is no surrogate. -/
def unitChar (u : UInt16) : Char := Char.ofNat u.toNat

/-- A string, after its opening quote. -/
def scanString : Text → Option (Text × Text)
  | [] => none
  | c :: rest =>
    if c = 0x22 then some ([], rest)
    else if c = 0x5C then
      match rest with
      | [] => none
      | k :: rest =>
        if k = 0x75 then
          match rest with
          | a :: b :: c :: d :: rest => do
            let u ← hex4 (unitChar a) (unitChar b) (unitChar c) (unitChar d)
            let (s, rest) ← scanString rest
            return (u :: s, rest)
          | _ => none
        else do
          let u ← shortEscape (unitChar k)
          let (s, rest) ← scanString rest
          return (u :: s, rest)
    else if c.toNat < 0x20 then none
    else (scanString rest).map fun (s, rest) => (c :: s, rest)

/-- A keyword. -/
def scanWord (word : Text) (j : Json) (s : Text) : Option (Json × Text) :=
  if word.isPrefixOf s then some (j, s.drop word.length) else none

/-- One token of punctuation. -/
def expect (token : UInt16) (s : Text) : Option Text :=
  match skip s with
  | [] => none
  | c :: rest => if c = token then some rest else none

/-- A key and its colon. -/
def scanKey (s : Text) : Option (Text × Text) := do
  let s ← expect 0x22 s
  let (k, s) ← scanString s
  let s ← expect 0x3A s
  return (k, s)

mutual

/-- A value. -/
def value : Nat → Text → Option (Json × Text)
  | 0, _ => none
  | n + 1, s =>
    match skip s with
    | [] => none
    | c :: rest =>
      if c = 0x22 then (scanString rest).map fun (s, rest) => (.str s, rest)
      else if c = 0x5B then
        match expect 0x5D rest with
        | some rest => some (.arr [], rest)
        | none => do
          let (j, rest) ← value n rest
          let (js, rest) ← elements n rest
          return (.arr (j :: js), rest)
      else if c = 0x7B then
        match expect 0x7D rest with
        | some rest => some (.obj [], rest)
        | none => do
          let (k, rest) ← scanKey rest
          let (j, rest) ← value n rest
          let (ms, rest) ← members n rest
          return (.obj ((k, j) :: ms), rest)
      else if c = 0x74 then scanWord trueText (.bool true) (c :: rest)
      else if c = 0x66 then scanWord falseText (.bool false) (c :: rest)
      else if c = 0x6E then scanWord nullText .null (c :: rest)
      else (scanNumber (c :: rest)).map fun (n, rest) => (.num n, rest)

/-- The elements after the first. -/
def elements : Nat → Text → Option (List Json × Text)
  | 0, _ => none
  | n + 1, s =>
    match expect 0x5D s with
    | some rest => some ([], rest)
    | none => do
      let rest ← expect 0x2C s
      let (j, rest) ← value n rest
      let (js, rest) ← elements n rest
      return (j :: js, rest)

/-- The members after the first. -/
def members : Nat → Text → Option (List (Text × Json) × Text)
  | 0, _ => none
  | n + 1, s =>
    match expect 0x7D s with
    | some rest => some ([], rest)
    | none => do
      let rest ← expect 0x2C s
      let (k, rest) ← scanKey rest
      let (j, rest) ← value n rest
      let (ms, rest) ← members n rest
      return ((k, j) :: ms, rest)

end

/-- `jsonDecode`: a value, and nothing but white space after it. -/
def decode (s : Text) : Option Json := do
  let (j, rest) ← value (s.length + 1) s
  if skip rest = [] then some j else none

/-! ### A document is a text -/

/-- The units are those of a text: no surrogate is unpaired. -/
def IsText (s : Text) : Prop := ∃ cs, utf16Encode cs = s

theorem IsText.append {s s' : Text} (h : IsText s) (h' : IsText s') : IsText (s ++ s') := by
  obtain ⟨cs, rfl⟩ := h
  obtain ⟨cs', rfl⟩ := h'
  exact ⟨cs ++ cs', List.flatMap_append⟩

theorem isText_ascii {s : Text} (h : ∀ u ∈ s, u.toNat < 0x80) : IsText s := by
  refine ⟨s.map fun u => Char.ofNat u.toNat, ?_⟩
  induction s with
  | nil => rfl
  | cons u s ih =>
      have hu := h u List.mem_cons_self
      have hchar : (Char.ofNat u.toNat).toNat = u.toNat := toNat_charOfNat (Or.inl (by omega))
      rw [List.map_cons, utf16Encode_cons, ih fun v hv => h v (List.mem_cons_of_mem _ hv),
        utf16EncodeChar_small (by omega), hchar, UInt16.ofNat_toNat]
      rfl

/-- A text whose units can be checked one by one. -/
theorem isText_of_all {s : Text} (h : s.all (fun u => decide (u.toNat < 0x80)) = true) : IsText s :=
  isText_ascii fun u hu => of_decide_eq_true (List.all_eq_true.mp h u hu)

theorem IsText.cons {u : UInt16} {s : Text} (hu : u.toNat < 0x80) (h : IsText s) :
    IsText (u :: s) := by
  have hone : IsText [u] := isText_ascii fun v hv => List.mem_singleton.mp hv ▸ hu
  exact hone.append h

theorem isText_quote (s : Text) : IsText (quote s) := by
  have hend : IsText [0x22] := isText_of_all (by decide)
  have hliteral : IsText (utf16Encode (unitsLiteral s)) := ⟨_, rfl⟩
  exact (hliteral.append hend).cons (by decide)

theorem digit_toNat {n : Nat} (h : n < 10) : (digit n).toNat = 48 + n := by
  have hall : ∀ k : Fin 10, (digit k).toNat = 48 + k.val := by decide
  exact hall ⟨n, h⟩

theorem isText_natText (n : Nat) : IsText (natText n) := by
  have hdigit : ∀ k, k < 10 → IsText [digit k] := by
    intro k hk
    refine isText_ascii fun u hu => ?_
    rw [List.mem_singleton.mp hu, digit_toNat hk]
    omega
  induction n using natText.induct with
  | case1 n h =>
      rw [natText, if_pos h]
      exact hdigit n h
  | case2 n h ih =>
      rw [natText, if_neg h]
      exact ih.append (hdigit _ (Nat.mod_lt n (by decide)))

theorem isText_intText (i : Int) : IsText (intText i) := by
  rw [intText]
  split
  · exact (isText_natText _).cons (by decide)
  · exact isText_natText _

theorem isText_number (n : Number) : IsText n.text := by
  rw [Number.text]
  refine (isText_intText _).append ?_
  split
  · exact ⟨[], rfl⟩
  · exact (isText_intText _).cons (by decide)

mutual

/-- **What is written is a text.** -/
theorem isText_encode : ∀ j : Json, IsText (encode j)
  | .null => by rw [encode]; exact isText_of_all (by decide)
  | .bool true => by rw [encode]; exact isText_of_all (by decide)
  | .bool false => by rw [encode]; exact isText_of_all (by decide)
  | .num n => by rw [encode]; exact isText_number n
  | .str s => by rw [encode]; exact isText_quote s
  | .arr [] => by rw [encode]; exact isText_of_all (by decide)
  | .arr (j :: js) => by
      rw [encode]
      exact ((isText_encode j).append (isText_elements js)).cons (by decide)
  | .obj [] => by rw [encode]; exact isText_of_all (by decide)
  | .obj ((k, j) :: ms) => by
      have hvalue := (isText_encode j).append (isText_members ms)
      rw [encode]
      exact ((isText_quote k).append (hvalue.cons (by decide))).cons (by decide)

theorem isText_elements : ∀ js : List Json, IsText (encodeElements js)
  | [] => by rw [encodeElements]; exact isText_of_all (by decide)
  | j :: js => by
      rw [encodeElements]
      exact ((isText_encode j).append (isText_elements js)).cons (by decide)

theorem isText_members : ∀ ms : List (Text × Json), IsText (encodeMembers ms)
  | [] => by rw [encodeMembers]; exact isText_of_all (by decide)
  | (k, j) :: ms => by
      have hvalue := (isText_encode j).append (isText_members ms)
      rw [encodeMembers]
      exact ((isText_quote k).append (hvalue.cons (by decide))).cons (by decide)

end

/-! ### Numbers are read back -/

/-- What follows a value that is not the last: punctuation, which no number continues with. -/
def Closes (rest : Text) : Prop := ∀ c ∈ rest.head?, c = 0x2C ∨ c = 0x5D ∨ c = 0x7D

theorem isDigit_digit {n : Nat} (h : n < 10) : isDigit (digit n) = true := by
  simp only [isDigit, digit_toNat h, Bool.and_eq_true, decide_eq_true_eq]
  omega

theorem natText_digits (n : Nat) : ∀ d ∈ natText n, isDigit d = true := by
  induction n using natText.induct with
  | case1 n h =>
      rw [natText, if_pos h]
      intro d hd
      rw [List.mem_singleton.mp hd]
      exact isDigit_digit h
  | case2 n h ih =>
      rw [natText, if_neg h]
      intro d hd
      rcases List.mem_append.mp hd with hd | hd
      · exact ih d hd
      · rw [List.mem_singleton.mp hd]
        exact isDigit_digit (Nat.mod_lt n (by decide))

theorem natText_ne_nil (n : Nat) : natText n ≠ [] := by
  rw [natText]
  split <;> simp

theorem natOf_append (ds : Text) (d : UInt16) :
    natOf (ds ++ [d]) = 10 * natOf ds + (d.toNat - 48) := by
  simp [natOf]

theorem natOf_natText (n : Nat) : natOf (natText n) = n := by
  induction n using natText.induct with
  | case1 n h =>
      rw [natText, if_pos h]
      simp [natOf, digit_toNat h]
  | case2 n h ih =>
      have hmod : n % 10 < 10 := Nat.mod_lt n (by decide)
      rw [natText, if_neg h, natOf_append, ih, digit_toNat hmod]
      omega

/-- A number of two digits or more does not begin with a zero. -/
theorem natText_head {n : Nat} (h : (natText n).head? = some 0x30) : (natText n).length = 1 := by
  induction n using natText.induct with
  | case1 n hlt =>
      rw [natText, if_pos hlt]
      rfl
  | case2 n hge ih =>
      exfalso
      rw [natText, if_neg hge, List.head?_append_of_ne_nil _ (natText_ne_nil _)] at h
      have hlen := ih h
      -- The digits before the last stand for 0, yet `n` is at least 10.
      obtain ⟨d, hd⟩ := List.length_eq_one_iff.mp hlen
      rw [hd] at h
      obtain rfl := Option.some.inj h
      have hzero := natOf_natText (n / 10)
      rw [hd] at hzero
      have : natOf [0x30] = 0 := by decide
      omega

/-- No digit comes next. -/
def NoDigit (rest : Text) : Prop := ∀ c ∈ rest.head?, isDigit c = false

theorem Closes.noDigit {rest : Text} (h : Closes rest) : NoDigit rest := by
  intro c hc
  rcases h c hc with rfl | rfl | rfl <;> decide

theorem takeWhile_noDigit {rest : Text} (h : NoDigit rest) :
    rest.takeWhile isDigit = [] ∧ rest.dropWhile isDigit = rest := by
  cases rest with
  | nil => exact ⟨rfl, rfl⟩
  | cons c rest =>
      have hc := h c rfl
      simp [hc]

theorem scanDigits_natText (n : Nat) {rest : Text} (h : NoDigit rest) :
    scanDigits (natText n ++ rest) = some (natText n, rest) := by
  obtain ⟨htake, hdrop⟩ := takeWhile_noDigit h
  have hds := natText_digits n
  rw [scanDigits, List.takeWhile_append_of_pos hds, List.dropWhile_append_of_pos hds, htake, hdrop,
    List.append_nil, if_neg (natText_ne_nil n)]

/-- Decimal digits come first, so an integer does not begin with a sign it has not. -/
theorem natText_cons (n : Nat) : ∃ d ds, natText n = d :: ds ∧ isDigit d = true := by
  obtain ⟨d, ds, h⟩ := List.exists_cons_of_ne_nil (natText_ne_nil n)
  exact ⟨d, ds, h, natText_digits n d (h ▸ List.mem_cons_self)⟩

theorem isDigit_ne {d c : UInt16} (hd : isDigit d = true) (hc : isDigit c = false) : d ≠ c := by
  rintro rfl
  rw [hd] at hc
  cases hc

theorem scanSigned_intText (i : Int) {rest : Text} (h : NoDigit rest) :
    scanSigned (intText i ++ rest) = some (i, rest) := by
  have hscan := scanDigits_natText i.natAbs h
  rw [intText]
  by_cases hneg : i < 0
  · rw [if_pos hneg, List.cons_append, scanSigned, if_pos rfl, hscan, Option.map_some,
      natOf_natText]
    congr 2
    omega
  · obtain ⟨d, ds, hd, hdigit⟩ := natText_cons i.natAbs
    rw [hd, List.cons_append] at hscan
    rw [if_neg hneg, hd, List.cons_append, scanSigned, if_neg (isDigit_ne hdigit (by decide)),
      if_neg (isDigit_ne hdigit (by decide)), hscan, Option.map_some, ← hd, natOf_natText]
    congr 2
    omega

/-- The exponent of a number is read back, or that there is none. -/
theorem scanExponent_text (e : Int) {rest : Text} (h : Closes rest) :
    scanExponent ((if e = 0 then [] else 0x65 :: intText e) ++ rest) = some (e, rest) := by
  by_cases he : e = 0
  · rw [if_pos he, List.nil_append, he]
    cases rest with
    | nil => rfl
    | cons c rest =>
        rw [scanExponent, if_neg]
        rcases h c rfl with rfl | rfl | rfl <;> decide
  · rw [if_neg he, List.cons_append, scanExponent, if_pos (Or.inl rfl)]
    exact scanSigned_intText e h.noDigit

theorem scanUnsigned_text (n : Nat) (e : Int) {rest : Text} (h : Closes rest) :
    scanUnsigned (natText n ++ ((if e = 0 then [] else 0x65 :: intText e) ++ rest)) =
      some (n, e, rest) := by
  have hexp := scanExponent_text e h
  have hnext : ∀ c ∈ ((if e = 0 then [] else 0x65 :: intText e) ++ rest).head?,
      isDigit c = false ∧ c ≠ 0x2E := by
    intro c hc
    by_cases he : e = 0
    · rw [if_pos he, List.nil_append] at hc
      rcases h c hc with rfl | rfl | rfl <;> decide
    · rw [if_neg he, List.cons_append] at hc
      obtain rfl := Option.some.inj hc
      decide
  generalize (if e = 0 then [] else 0x65 :: intText e) ++ rest = tail at hexp hnext
  have hfraction : scanFraction tail = some ([], tail) := by
    cases tail with
    | nil => rfl
    | cons c tail => rw [scanFraction, if_neg (hnext c rfl).2]
  have hzero : ¬ ((natText n).head? = some 0x30 ∧ (natText n).length ≠ 1) := by
    rintro ⟨hhead, hlen⟩
    exact hlen (natText_head hhead)
  rw [scanUnsigned, scanDigits_natText n fun c hc => (hnext c hc).1]
  simp [hzero, hfraction, hexp, natOf_natText]

/-- **Numbers are read back.** -/
theorem scanNumber_text (n : Number) {rest : Text} (h : Closes rest) :
    scanNumber (n.text ++ rest) = some (n, rest) := by
  obtain ⟨m, e⟩ := n
  have hscan := scanUnsigned_text m.natAbs e h
  rw [Number.text, intText, List.append_assoc]
  by_cases hneg : m < 0
  · have habs : -(m.natAbs : Int) = m := by omega
    rw [if_pos hneg, List.cons_append, scanNumber, if_pos rfl, hscan, Option.map_some]
    simp only [habs]
  · obtain ⟨d, ds, hd, hdigit⟩ := natText_cons m.natAbs
    rw [hd, List.cons_append] at hscan
    have habs : (m.natAbs : Int) = m := by omega
    rw [if_neg hneg, hd, List.cons_append, scanNumber, if_neg (isDigit_ne hdigit (by decide)),
      hscan, Option.map_some]
    simp only [habs]

/-! ### Strings are read back -/

/-- The text is read as the units, whatever follows it in the string. -/
def Scans (w us : Text) : Prop :=
  ∀ rest, scanString (w ++ rest) = (scanString rest).map fun p => (us ++ p.1, p.2)

theorem Scans.nil : Scans [] [] := by
  intro rest
  cases h : scanString rest <;> simp [h]

theorem Scans.append {w w' us us' : Text} (h : Scans w us) (h' : Scans w' us') :
    Scans (w ++ w') (us ++ us') := by
  intro rest
  rw [List.append_assoc, h, h', Option.map_map]
  congr 1
  funext p
  simp

/-- A unit that stands for itself. -/
theorem scans_unit {u : UInt16} (hq : u ≠ 0x22) (hb : u ≠ 0x5C) (hc : ¬ u.toNat < 0x20) :
    Scans [u] [u] := by
  intro rest
  rw [List.singleton_append, scanString.eq_def]
  dsimp only
  rw [if_neg hq, if_neg hb, if_neg hc]
  rfl

theorem scans_units {us : Text} (h : ∀ u ∈ us, u ≠ 0x22 ∧ u ≠ 0x5C ∧ ¬ u.toNat < 0x20) :
    Scans us us := by
  induction us with
  | nil => exact Scans.nil
  | cons u us ih =>
      obtain ⟨hq, hb, hc⟩ := h u List.mem_cons_self
      exact (scans_unit hq hb hc).append (ih fun v hv => h v (List.mem_cons_of_mem _ hv))

theorem toNat_unit {c : Char} (h : c.toNat < 0x10000) : (UInt16.ofNat c.toNat).toNat = c.toNat :=
  UInt16.toNat_ofNat_of_lt' h

theorem unitChar_ofNat {c : Char} (h : c.toNat < 0x80) : unitChar (UInt16.ofNat c.toNat) = c := by
  rw [unitChar, toNat_unit (by omega), Char.ofNat_toNat]

/-- An ASCII text has a unit for each character. -/
theorem utf16Encode_ascii {cs : List Char} (h : ∀ c ∈ cs, c.toNat < 0x80) :
    utf16Encode cs = cs.map fun c => UInt16.ofNat c.toNat := by
  induction cs with
  | nil => rfl
  | cons c cs ih =>
      have hc := h c List.mem_cons_self
      rw [utf16Encode_cons, utf16EncodeChar_small (by omega),
        ih fun d hd => h d (List.mem_cons_of_mem _ hd)]
      rfl

theorem hexChar_ascii {n : Nat} (h : n < 16) : (hexChar n).toNat < 0x80 := by
  have hall : ∀ k : Fin 16, (hexChar k).toNat < 0x80 := by decide
  exact hall ⟨n, h⟩

theorem escape4_ascii (u : UInt16) : ∀ c ∈ escape4 u, c.toNat < 0x80 := by
  have hu := u.toNat_lt
  intro c hc
  simp only [escape4, List.mem_cons, List.not_mem_nil, or_false] at hc
  rcases hc with rfl | rfl | rfl | rfl | rfl | rfl
  · decide
  · decide
  · exact hexChar_ascii (by omega)
  · exact hexChar_ascii (by omega)
  · exact hexChar_ascii (by omega)
  · exact hexChar_ascii (by omega)

theorem scans_escape4 (u : UInt16) : Scans (utf16Encode (escape4 u)) [u] := by
  intro rest
  have hascii := escape4_ascii u
  rw [utf16Encode_ascii hascii]
  simp only [escape4, List.forall_mem_cons] at hascii
  obtain ⟨-, -, h₁, h₂, h₃, h₄, -⟩ := hascii
  simp only [escape4, List.map_cons, List.map_nil, List.cons_append, List.nil_append]
  rw [scanString.eq_def]
  dsimp only
  rw [if_neg (by decide), if_pos (by decide), if_pos (by decide), unitChar_ofNat h₁,
    unitChar_ofNat h₂, unitChar_ofNat h₃, unitChar_ofNat h₄, hex4_digits]
  cases scanString rest <;> rfl

theorem scans_short {c k : Char} (hk : k ≠ 'u') (hascii : k.toNat < 0x80)
    (hc : c.toNat < 0x10000) (h : shortEscape k = some (UInt16.ofNat c.toNat)) :
    Scans (utf16Encode ['\\', k]) (utf16EncodeChar c) := by
  intro rest
  have hku : UInt16.ofNat k.toNat ≠ 0x75 := by
    intro heq
    refine hk (Char.toNat_inj.mp ?_)
    have := congrArg UInt16.toNat heq
    rwa [toNat_unit (by omega)] at this
  rw [utf16Encode_ascii (by simp [hascii]), utf16EncodeChar_small hc]
  simp only [List.map_cons, List.map_nil, List.cons_append, List.nil_append]
  rw [scanString.eq_def]
  dsimp only
  rw [if_neg (by decide), if_pos (by decide), if_neg hku, unitChar_ofNat hascii, h]
  cases scanString rest <;> rfl

theorem scans_control {c : Char} (h : c.toNat < 0x20) :
    Scans (utf16Encode (controlLiteral c)) (utf16EncodeChar c) := by
  have hlt : c.toNat < 0x10000 := by omega
  unfold controlLiteral
  split
  · next hc => exact scans_short (by decide) (by decide) hlt (by rw [hc]; decide)
  split
  · next hc => exact scans_short (by decide) (by decide) hlt (by rw [hc]; decide)
  split
  · next hc => exact scans_short (by decide) (by decide) hlt (by rw [hc]; decide)
  split
  · next hc => exact scans_short (by decide) (by decide) hlt (by rw [hc]; decide)
  split
  · next hc => exact scans_short (by decide) (by decide) hlt (by rw [hc]; decide)
  · rw [utf16EncodeChar_small hlt]
    exact scans_escape4 _

/-- The units of a character that needs no escape. -/
theorem scans_raw {c : Char} (hq : c ≠ '"') (hb : c ≠ '\\') (hc : ¬ c.toNat < 0x20) :
    Scans (utf16EncodeChar c) (utf16EncodeChar c) := by
  refine scans_units fun u hu => ?_
  rw [utf16EncodeChar] at hu
  split at hu
  · next hlt =>
      obtain rfl := List.mem_singleton.mp hu
      rw [← toNat_unit hlt] at hc
      refine ⟨fun h => hq ?_, fun h => hb ?_, hc⟩
      · have := congrArg UInt16.toNat h
        rw [toNat_unit hlt] at this
        exact Char.toNat_inj.mp this
      · have := congrArg UInt16.toNat h
        rw [toNat_unit hlt] at this
        exact Char.toNat_inj.mp this
  · -- Surrogates are above all that is escaped.
    have hrange := char_range c
    have hbig : 0xD800 ≤ u.toNat := by
      simp only [List.mem_cons, List.not_mem_nil, or_false] at hu
      rcases hu with rfl | rfl
      · rw [UInt16.toNat_ofNat_of_lt' (show _ < 65536 by omega)]
        omega
      · rw [UInt16.toNat_ofNat_of_lt' (show _ < 65536 by omega)]
        omega
    refine ⟨?_, ?_, by omega⟩ <;> rintro rfl <;> exact absurd hbig (by decide)

theorem scans_runeLiteral (r : Rune) : Scans (utf16Encode (runeLiteral r)) r.units := by
  cases r with
  | unpaired u => exact scans_escape4 u
  | scalar c =>
      rw [runeLiteral, Rune.units]
      split
      · next hc => exact scans_control hc
      split
      · next hc =>
          rcases hc with rfl | rfl
          · exact scans_short (by decide) (by decide) (by decide) (by decide)
          · exact scans_short (by decide) (by decide) (by decide) (by decide)
      · next hlt hc =>
          simp only [not_or] at hc
          rw [utf16Encode_cons, utf16Encode, List.flatMap_nil, List.append_nil]
          exact scans_raw hc.1 hc.2 hlt

/-- **Strings are read back.** -/
theorem scanString_quoted (s rest : Text) :
    scanString (utf16Encode (unitsLiteral s) ++ 0x22 :: rest) = some (s, rest) := by
  have hrunes : ∀ rs : List Rune,
      Scans (utf16Encode (rs.flatMap runeLiteral)) (rs.flatMap Rune.units) := by
    intro rs
    induction rs with
    | nil => exact Scans.nil
    | cons r rs ih =>
        rw [List.flatMap_cons, List.flatMap_cons, utf16Encode, List.flatMap_append]
        exact (scans_runeLiteral r).append ih
  have hs := hrunes (runes s)
  rw [units_runes] at hs
  have hend : scanString (0x22 :: rest) = some ([], rest) := by
    rw [scanString.eq_def]
    exact if_pos rfl
  rw [unitsLiteral, hs, hend, Option.map_some, List.append_nil]

/-! ### Documents are read back -/

theorem skip_cons {c : UInt16} (h : isSpace c = false) (rest : Text) :
    skip (c :: rest) = c :: rest := by
  rw [skip, List.dropWhile_cons, h]
  rfl

theorem expect_self {c : UInt16} (h : isSpace c = false) (rest : Text) :
    expect c (c :: rest) = some rest := by
  rw [expect, skip_cons h]
  exact if_pos rfl

theorem expect_other {token c : UInt16} (h : isSpace c = false) (hne : c ≠ token) (rest : Text) :
    expect token (c :: rest) = none := by
  rw [expect, skip_cons h]
  exact if_neg hne

/-- How a value begins: not with white space, nor with a bracket that closes. -/
theorem encode_cons (j : Json) :
    ∃ c cs, encode j = c :: cs ∧ isSpace c = false ∧ c ≠ 0x5D := by
  cases j with
  | null => exact ⟨_, _, by rw [encode]; rfl, by decide, by decide⟩
  | bool b =>
      cases b with
      | true => exact ⟨_, _, by rw [encode]; rfl, by decide, by decide⟩
      | false => exact ⟨_, _, by rw [encode]; rfl, by decide, by decide⟩
  | num n =>
      obtain ⟨d, ds, hd, hdigit⟩ := natText_cons n.mantissa.natAbs
      have hspace : isSpace d = false := by
        simp only [isSpace, Bool.or_eq_false_iff, beq_eq_false_iff_ne]
        exact ⟨⟨⟨isDigit_ne hdigit (by decide), isDigit_ne hdigit (by decide)⟩,
          isDigit_ne hdigit (by decide)⟩, isDigit_ne hdigit (by decide)⟩
      rw [encode, Number.text, intText]
      by_cases hneg : n.mantissa < 0
      · rw [if_pos hneg]
        exact ⟨_, _, rfl, by decide, by decide⟩
      · rw [if_neg hneg, hd]
        exact ⟨_, _, rfl, hspace, isDigit_ne hdigit (by decide)⟩
  | str s => exact ⟨_, _, by rw [encode, quote], by decide, by decide⟩
  | arr js =>
      cases js with
      | nil => exact ⟨_, _, by rw [encode], by decide, by decide⟩
      | cons j js => exact ⟨_, _, by rw [encode], by decide, by decide⟩
  | obj ms =>
      cases ms with
      | nil => exact ⟨_, _, by rw [encode], by decide, by decide⟩
      | cons m ms => exact ⟨_, _, by rw [encode], by decide, by decide⟩

theorem closes_elements (js : List Json) (rest : Text) : Closes (encodeElements js ++ rest) := by
  intro c hc
  cases js with
  | nil =>
      rw [encodeElements] at hc
      exact Or.inr (Or.inl (Option.some.inj hc).symm)
  | cons j js =>
      rw [encodeElements] at hc
      exact Or.inl (Option.some.inj hc).symm

theorem closes_members (ms : List (Text × Json)) (rest : Text) :
    Closes (encodeMembers ms ++ rest) := by
  intro c hc
  cases ms with
  | nil =>
      rw [encodeMembers] at hc
      exact Or.inr (Or.inr (Option.some.inj hc).symm)
  | cons m ms =>
      obtain ⟨k, j⟩ := m
      rw [encodeMembers] at hc
      exact Or.inl (Option.some.inj hc).symm

theorem scanKey_quote (k rest : Text) :
    scanKey (quote k ++ 0x3A :: rest) = some (k, rest) := by
  have hopen : expect 0x22 (quote k ++ 0x3A :: rest) =
      some (utf16Encode (unitsLiteral k) ++ 0x22 :: 0x3A :: rest) := by
    rw [quote, List.cons_append, List.append_assoc]
    exact expect_self (by decide) _
  have hcolon : expect 0x3A (0x3A :: rest) = some rest := expect_self (by decide) rest
  simp [scanKey, hopen, scanString_quoted, hcolon]

theorem scanWord_append (word : Text) (j : Json) (rest : Text) :
    scanWord word j (word ++ rest) = some (j, rest) := by
  rw [scanWord, if_pos (by simp), List.drop_left]

/-- The character a number begins with is none of those that begin other values. -/
theorem value_number (n : Nat) (num : Number) {rest : Text} (h : Closes rest) :
    value (n + 1) (num.text ++ rest) = some (.num num, rest) := by
  have hscan := scanNumber_text num h
  obtain ⟨c, cs, hc, hspace, -⟩ := encode_cons (.num num)
  rw [encode] at hc
  have hfirst : isDigit c = true ∨ c = 0x2D := by
    obtain ⟨d, ds, hd, hdigit⟩ := natText_cons num.mantissa.natAbs
    rw [Number.text, intText] at hc
    split at hc
    · exact Or.inr (List.head_eq_of_cons_eq hc).symm
    · rw [hd] at hc
      exact Or.inl (List.head_eq_of_cons_eq hc ▸ hdigit)
  have hne : ∀ token : UInt16, isDigit token = false → token ≠ 0x2D → c ≠ token := by
    intro token ht hminus
    rcases hfirst with hd | rfl
    · exact isDigit_ne hd ht
    · exact fun heq => hminus heq.symm
  rw [hc, List.cons_append] at hscan ⊢
  rw [value, skip_cons hspace]
  dsimp only
  rw [if_neg (hne _ (by decide) (by decide)), if_neg (hne _ (by decide) (by decide)),
    if_neg (hne _ (by decide) (by decide)), if_neg (hne _ (by decide) (by decide)),
    if_neg (hne _ (by decide) (by decide)), if_neg (hne _ (by decide) (by decide)), hscan]
  rfl

mutual

/-- A value is read back, given as much fuel as its text is long. -/
theorem value_encode : ∀ (j : Json) (n : Nat) (rest : Text), (encode j).length ≤ n → Closes rest →
    value n (encode j ++ rest) = some (j, rest)
  | j, 0, _, hn, _ => by
      obtain ⟨c, cs, hc, -, -⟩ := encode_cons j
      rw [hc] at hn
      cases hn
  | .null, n + 1, rest, _, _ => by
      rw [encode, value]
      exact scanWord_append nullText .null rest
  | .bool true, n + 1, rest, _, _ => by
      rw [encode, value]
      exact scanWord_append trueText (.bool true) rest
  | .bool false, n + 1, rest, _, _ => by
      rw [encode, value]
      exact scanWord_append falseText (.bool false) rest
  | .num number, n + 1, rest, _, h => by
      rw [encode]
      exact value_number n number h
  | .str s, n + 1, rest, _, _ => by
      rw [encode, value, quote, List.cons_append, skip_cons (by decide)]
      dsimp only
      rw [if_pos rfl, List.append_assoc, List.singleton_append, scanString_quoted]
      rfl
  | .arr [], n + 1, rest, _, _ => by
      rw [encode, value, List.cons_append, skip_cons (by decide)]
      dsimp only
      rw [if_neg (by decide), if_pos rfl, List.singleton_append, expect_self (by decide)]
  | .arr (j :: js), n + 1, rest, hn, _ => by
      rw [encode] at hn ⊢
      simp only [List.length_cons, List.length_append] at hn
      have hj := value_encode j n _ (by omega) (closes_elements js rest)
      have hjs := elements_encode js n rest (by omega)
      obtain ⟨c, cs, hc, hspace, hbracket⟩ := encode_cons j
      have hnone : expect 0x5D (encode j ++ (encodeElements js ++ rest)) = none := by
        rw [hc, List.cons_append]
        exact expect_other hspace hbracket _
      rw [value, List.cons_append, skip_cons (by decide)]
      dsimp only
      rw [if_neg (by decide), if_pos rfl, List.append_assoc, hnone]
      simp [hj, hjs]
  | .obj [], n + 1, rest, _, _ => by
      rw [encode, value, List.cons_append, skip_cons (by decide)]
      dsimp only
      rw [if_neg (by decide), if_neg (by decide), if_pos rfl, List.singleton_append,
        expect_self (by decide)]
  | .obj ((k, j) :: ms), n + 1, rest, hn, _ => by
      rw [encode] at hn ⊢
      simp only [List.length_cons, List.length_append] at hn
      have hj := value_encode j n _ (by omega) (closes_members ms rest)
      have hms := members_encode ms n rest (by omega)
      have hk := scanKey_quote k (encode j ++ (encodeMembers ms ++ rest))
      have hnone : expect 0x7D (quote k ++ 0x3A :: (encode j ++ (encodeMembers ms ++ rest))) = none := by
        rw [quote, List.cons_append]
        exact expect_other (by decide) (by decide) _
      rw [value, List.cons_append, skip_cons (by decide)]
      dsimp only
      rw [if_neg (by decide), if_neg (by decide), if_pos rfl, List.append_assoc, List.cons_append,
        List.append_assoc, hnone]
      simp [hk, hj, hms]

theorem elements_encode : ∀ (js : List Json) (n : Nat) (rest : Text),
    (encodeElements js).length ≤ n → elements n (encodeElements js ++ rest) = some (js, rest)
  | js, 0, _, hn => by
      cases js with
      | nil => rw [encodeElements] at hn; cases hn
      | cons j js => rw [encodeElements] at hn; cases hn
  | [], n + 1, rest, _ => by
      rw [encodeElements, elements, List.singleton_append, expect_self (by decide)]
  | j :: js, n + 1, rest, hn => by
      rw [encodeElements] at hn ⊢
      simp only [List.length_cons, List.length_append] at hn
      have hj := value_encode j n _ (by omega) (closes_elements js rest)
      have hjs := elements_encode js n rest (by omega)
      rw [elements, List.cons_append, expect_other (by decide) (by decide)]
      simp [expect_self (show isSpace 0x2C = false by decide), hj, hjs]

theorem members_encode : ∀ (ms : List (Text × Json)) (n : Nat) (rest : Text),
    (encodeMembers ms).length ≤ n → members n (encodeMembers ms ++ rest) = some (ms, rest)
  | ms, 0, _, hn => by
      cases ms with
      | nil => rw [encodeMembers] at hn; cases hn
      | cons m ms => obtain ⟨k, j⟩ := m; rw [encodeMembers] at hn; cases hn
  | [], n + 1, rest, _ => by
      rw [encodeMembers, members, List.singleton_append, expect_self (by decide)]
  | (k, j) :: ms, n + 1, rest, hn => by
      rw [encodeMembers] at hn ⊢
      simp only [List.length_cons, List.length_append] at hn
      have hj := value_encode j n _ (by omega) (closes_members ms rest)
      have hms := members_encode ms n rest (by omega)
      have hk := scanKey_quote k (encode j ++ (encodeMembers ms ++ rest))
      rw [members, List.cons_append, expect_other (by decide) (by decide)]
      simp [expect_self (show isSpace 0x2C = false by decide), hk, hj, hms]

end

/-- **A document is read back.** -/
@[simp] theorem decode_encode (j : Json) : decode (encode j) = some j := by
  have h := value_encode j ((encode j).length + 1) [] (by omega) fun c hc => by cases hc
  rw [List.append_nil] at h
  rw [decode, h]
  rfl

/-! ### Sizes -/

/-- An escape is six units, and no rune needs more. -/
theorem length_runeLiteral_le (r : Rune) :
    (utf16Encode (runeLiteral r)).length ≤ 6 * r.units.length := by
  have hescape : ∀ u, (utf16Encode (escape4 u)).length = 6 := fun u => by
    rw [utf16Encode_ascii (escape4_ascii u), List.length_map]
    rfl
  cases r with
  | unpaired u => exact (hescape u).le
  | scalar c =>
      have hpos : 1 ≤ (utf16EncodeChar c).length := by
        rw [utf16EncodeChar]
        split <;> simp
      rw [runeLiteral, Rune.units]
      split
      · have hcontrol : (utf16Encode (controlLiteral c)).length ≤ 6 := by
          unfold controlLiteral
          split_ifs
          case neg => exact (hescape _).le
          all_goals decide
        omega
      split
      · next hc =>
          have hquoted : (utf16Encode ['\\', c]).length = 2 := by
            rcases hc with rfl | rfl <;> rfl
          omega
      · rw [utf16Encode_cons, utf16Encode, List.flatMap_nil, List.append_nil]
        omega

theorem length_quote_le (s : Text) : (quote s).length ≤ 6 * s.length + 2 := by
  have hrunes : ∀ rs : List Rune,
      (utf16Encode (rs.flatMap runeLiteral)).length ≤ 6 * (rs.flatMap Rune.units).length := by
    intro rs
    induction rs with
    | nil => exact Nat.le_refl _
    | cons r rs ih =>
        have hr := length_runeLiteral_le r
        rw [utf16Encode] at hr ih ⊢
        rw [List.flatMap_cons, List.flatMap_cons, List.flatMap_append, List.length_append,
          List.length_append]
        omega
  have hs := hrunes (runes s)
  rw [units_runes] at hs
  rw [quote, unitsLiteral, List.length_cons, List.length_append, List.length_singleton]
  omega

/-- A text that needs no escapes stands between the quotes as it is. -/
theorem quote_plain {cs : List Char} (h : ∀ c ∈ cs, ¬ c.toNat < 0x20 ∧ c ≠ '"' ∧ c ≠ '\\') :
    quote (utf16Encode cs) = 0x22 :: (utf16Encode cs ++ [0x22]) := by
  have hplain : ∀ c ∈ cs, runeLiteral (.scalar c) = [c] := by
    intro c hc
    obtain ⟨hcontrol, hq, hb⟩ := h c hc
    rw [runeLiteral, if_neg hcontrol, if_neg (not_or.mpr ⟨hq, hb⟩)]
  have hliteral : unitsLiteral (utf16Encode cs) = cs := by
    rw [unitsLiteral, runes_utf16Encode, List.flatMap_map, List.flatMap_congr hplain]
    exact List.flatMap_singleton' cs
  rw [quote, hliteral]

theorem length_array_le {js : List Json} {n : Nat} (h : ∀ j ∈ js, (encode j).length ≤ n) :
    (encode (.arr js)).length ≤ js.length * (n + 1) + 2 := by
  have helements : ∀ js : List Json, (∀ j ∈ js, (encode j).length ≤ n) →
      (encodeElements js).length ≤ js.length * (n + 1) + 1 := by
    intro js h
    induction js with
    | nil => simp [encodeElements]
    | cons j js ih =>
        have hj := h j List.mem_cons_self
        have hjs := ih fun j hj => h j (List.mem_cons_of_mem _ hj)
        rw [encodeElements, List.length_cons, List.length_append, List.length_cons, Nat.succ_mul]
        omega
  cases js with
  | nil => simp [encode]
  | cons j js =>
      have hj := h j List.mem_cons_self
      have hjs := helements js fun j hj => h j (List.mem_cons_of_mem _ hj)
      rw [encode, List.length_cons, List.length_append, List.length_cons, Nat.succ_mul]
      omega

end Json

end Syncraft
