import Syncraft.Domain.Model

/-!
# Syncraft.Domain.Validate

`internal/domain/validate.go`: the syntax of an ID, the table of fields, and `Validate`.
`Valid` is what it accepts, one field a check; every later module reads acceptance off
`validate_ok_iff`.
-/

namespace Syncraft.Domain

open Text

/-! ### The ID pattern

`^[0-9a-f]{8}-[0-9a-f]{4}-[0-9a-f]{4}-[0-9a-f]{4}-[0-9a-f]{12}$`. Both programs hold the
same pattern, the server over bytes and the field application over UTF-16 units; it is
matched here over the numbers of either. -/

/-- `[0-9a-f]` -/
def hexDigit (n : Nat) : Bool := (48 ≤ n && n ≤ 57) || (97 ≤ n && n ≤ 102)

/-- `[0-9a-f]{n}` at the front of a string: the rest of it. -/
def hexRun : Nat → List Nat → Option (List Nat)
  | 0, s => some s
  | n + 1, c :: s => if hexDigit c then hexRun n s else none
  | _ + 1, [] => none

/-- `-` at the front of a string: the rest of it. -/
def hyphen : List Nat → Option (List Nat)
  | 45 :: s => some s
  | _ => none

/-- Match the whole ID pattern. -/
def uuidPattern (s : List Nat) : Bool :=
  ((((((((hexRun 8 s).bind hyphen).bind (hexRun 4)).bind hyphen).bind (hexRun 4)).bind
    hyphen).bind (hexRun 4)).bind hyphen).bind (hexRun 12) == some []

/-- The characters an ID is made of. -/
def idChar (n : Nat) : Prop := hexDigit n = true ∨ n = 45

theorem idChar_lt {n : Nat} (h : idChar n) : n < 128 := by
  rcases h with h | rfl
  · simp only [hexDigit, Bool.or_eq_true, Bool.and_eq_true, decide_eq_true_eq] at h
    omega
  · decide

theorem hexRun_chars {n : Nat} {s t : List Nat} (h : hexRun n s = some t)
    (ht : ∀ c ∈ t, idChar c) : ∀ c ∈ s, idChar c := by
  induction n generalizing s with
  | zero => obtain rfl := Option.some.inj h; exact ht
  | succ n ih =>
      cases s with
      | nil => cases h
      | cons c s =>
          rw [hexRun] at h
          by_cases hc : hexDigit c = true
          · rw [if_pos hc] at h
            intro d hd
            rcases List.mem_cons.mp hd with rfl | hd
            · exact Or.inl hc
            · exact ih h d hd
          · rw [if_neg hc] at h; cases h

theorem hyphen_chars {s t : List Nat} (h : hyphen s = some t) (ht : ∀ c ∈ t, idChar c) :
    ∀ c ∈ s, idChar c := by
  unfold hyphen at h
  split at h
  · obtain rfl := Option.some.inj h
    intro d hd
    rcases List.mem_cons.mp hd with rfl | hd
    · exact Or.inr rfl
    · exact ht d hd
  · cases h

theorem hexRun_length {n : Nat} {s t : List Nat} (h : hexRun n s = some t) :
    s.length = n + t.length := by
  induction n generalizing s with
  | zero =>
      obtain rfl := Option.some.inj h
      exact (Nat.zero_add _).symm
  | succ n ih =>
      cases s with
      | nil => cases h
      | cons c s =>
          rw [hexRun] at h
          split at h
          · rw [List.length_cons, ih h]
            omega
          · cases h

theorem hyphen_length {s t : List Nat} (h : hyphen s = some t) : s.length = 1 + t.length := by
  unfold hyphen at h
  split at h
  · obtain rfl := Option.some.inj h
    rw [List.length_cons, Nat.add_comm]
  · cases h

/-- An ID is 36 characters long. -/
theorem uuidPattern_length {s : List Nat} (h : uuidPattern s = true) : s.length = 36 := by
  simp only [uuidPattern, beq_iff_eq, Option.bind_eq_some_iff] at h
  obtain ⟨t₈, ⟨t₇, ⟨t₆, ⟨t₅, ⟨t₄, ⟨t₃, ⟨t₂, ⟨t₁, h₁, h₂⟩, h₃⟩, h₄⟩, h₅⟩, h₆⟩, h₇⟩, h₈⟩, h₉⟩ := h
  have hrest := hexRun_length h₉
  rw [hexRun_length h₁, hyphen_length h₂, hexRun_length h₃, hyphen_length h₄, hexRun_length h₅,
    hyphen_length h₆, hexRun_length h₇, hyphen_length h₈, hrest, List.length_nil]

/-- An ID is hexadecimal digits and hyphens, hence ASCII. -/
theorem uuidPattern_chars {s : List Nat} (h : uuidPattern s = true) : ∀ c ∈ s, idChar c := by
  simp only [uuidPattern, beq_iff_eq, Option.bind_eq_some_iff] at h
  obtain ⟨s₈, ⟨s₇, ⟨s₆, ⟨s₅, ⟨s₄, ⟨s₃, ⟨s₂, ⟨s₁, h₁, h₂⟩, h₃⟩, h₄⟩, h₅⟩, h₆⟩, h₇⟩, h₈⟩, h₉⟩ := h
  have g₈ := hexRun_chars h₉ (by simp)
  have g₆ := hexRun_chars h₇ (hyphen_chars h₈ g₈)
  have g₄ := hexRun_chars h₅ (hyphen_chars h₆ g₆)
  have g₂ := hexRun_chars h₃ (hyphen_chars h₄ g₄)
  exact hexRun_chars h₁ (hyphen_chars h₂ g₂)

/-- `ValidID` -/
def validID (s : GoString) : Bool := uuidPattern (s.map UInt8.toNat)

/-! ### Validation -/

/-- The fields of a record and the most bytes each may hold. -/
def fields : List (GoString × Nat) :=
  [(go "title", 200), (go "site", 200), (go "notes", 16000), (go "status", 20),
    (go "priority", 20), (go "archived", 5), (go "check.safety", 5),
    (go "check.equipment", 5), (go "check.access", 5)]

/-- `utf8.ValidString` -/
def validString (s : GoString) : Bool := (utf8Decode? s).isSome

/-- The Unicode property White_Space. -/
def whiteSpace (c : Char) : Bool :=
  (0x9 ≤ c.toNat && c.toNat ≤ 0xD) || c.toNat == 0x20 || c.toNat == 0x85 || c.toNat == 0xA0 ||
    c.toNat == 0x1680 || (0x2000 ≤ c.toNat && c.toNat ≤ 0x200A) || c.toNat == 0x2028 ||
    c.toNat == 0x2029 || c.toNat == 0x202F || c.toNat == 0x205F || c.toNat == 0x3000

/-- Valid UTF-8 without U+0000. -/
def plainText (s : GoString) : Bool := validString s && !s.contains 0

theorem validID_lt {s : GoString} (h : validID s = true) : ∀ b ∈ s, b.toNat < 128 :=
  fun _ hb => idChar_lt (uuidPattern_chars h _ (List.mem_map_of_mem hb))

theorem validString_of_validID {s : GoString} (h : validID s = true) : validString s = true := by
  unfold validString
  rw [← utf8Encode_ascii (validID_lt h), utf8Decode?_utf8Encode]
  rfl

/-- An ID is plain text. -/
theorem plainText_of_validID {s : GoString} (h : validID s = true) : plainText s = true := by
  have hzero : (0 : UInt8) ∉ s := by
    intro hz
    rcases uuidPattern_chars h _ (List.mem_map_of_mem hz) with h | h
    · simp [hexDigit] at h
    · simp at h
  rw [plainText, validString_of_validID h]
  simpa using hzero

/-- Drop what satisfies `p` from both ends. -/
def trimBoth {β : Type} (p : β → Bool) (xs : List β) : List β :=
  ((xs.dropWhile p).reverse.dropWhile p).reverse

/-- `strings.TrimSpace` on a valid string. A string that is not UTF-8 is left alone: it
holds a byte that is no space, and `Validate` has turned it away before. -/
def trimSpace (s : GoString) : GoString :=
  match utf8Decode? s with
  | some cs => utf8Encode (trimBoth whiteSpace cs)
  | none => s

/-- The loop over `op.Parents`: well-formed, not the operation itself, not `seen` before. -/
def parentsValid (id : GoString) : List GoString → List GoString → Bool
  | _, [] => true
  | seen, p :: rest =>
    if !validID p || p == id || seen.contains p then false
    else parentsValid id (p :: seen) rest

/-- `Validate` -/
def validate (op : Operation GoString) : Except Err Unit :=
  let limit := fields.lookup op.field
  if !validID op.id || !validID op.record || limit.isNone || !validString op.value ||
      decide (op.value.length > limit.getD 0) || decide (op.parents.length > 100) then
    .error .invalid
  else if (op.field == go "title" || op.field == go "site") && trimSpace op.value == [] then
    .error .invalid
  else if op.field == go "status" && op.value != go "draft" && op.value != go "in_progress" &&
      op.value != go "complete" then
    .error .invalid
  else if op.field == go "priority" && op.value != go "normal" && op.value != go "high" &&
      op.value != go "critical" then
    .error .invalid
  else if (op.field == go "archived" || (go "check.").isPrefixOf op.field) &&
      op.value != go "true" && op.value != go "false" then
    .error .invalid
  else if parentsValid op.id [] op.parents then .ok ()
  else .error .invalid

/-- What `Validate` accepts. -/
structure Valid (op : Operation GoString) : Prop where
  id : validID op.id = true
  record : validID op.record = true
  /-- The field is known and the value within its limit. -/
  limit : ∃ n, fields.lookup op.field = some n ∧ op.value.length ≤ n
  utf8 : validString op.value = true
  count : op.parents.length ≤ 100
  /-- A title and a site are not blank. -/
  text : op.field = go "title" ∨ op.field = go "site" → trimSpace op.value ≠ []
  status : op.field = go "status" →
    op.value = go "draft" ∨ op.value = go "in_progress" ∨ op.value = go "complete"
  priority : op.field = go "priority" →
    op.value = go "normal" ∨ op.value = go "high" ∨ op.value = go "critical"
  checkbox : op.field = go "archived" ∨ (go "check.").isPrefixOf op.field = true →
    op.value = go "true" ∨ op.value = go "false"
  parents : ∀ p ∈ op.parents, validID p = true ∧ p ≠ op.id
  nodup : op.parents.Nodup

theorem parentsValid_iff {id : GoString} {ps : List GoString} {seen : List GoString} :
    parentsValid id seen ps = true ↔
      (∀ p ∈ ps, validID p = true ∧ p ≠ id) ∧ ps.Nodup ∧ ∀ p ∈ ps, p ∉ seen := by
  induction ps generalizing seen with
  | nil => simp [parentsValid]
  | cons p rest ih =>
      rw [parentsValid]
      by_cases hbad : (!validID p || p == id || seen.contains p) = true
      · rw [if_pos hbad]
        simp only [Bool.or_eq_true, Bool.not_eq_true', beq_iff_eq, List.contains_iff_mem] at hbad
        constructor
        · intro h; cases h
        · rintro ⟨hall, -, hseen⟩
          obtain ⟨hv, hid⟩ := hall p List.mem_cons_self
          have hns := hseen p List.mem_cons_self
          rcases hbad with (hbad | hbad) | hbad
          · rw [hv] at hbad; cases hbad
          · exact absurd hbad hid
          · exact absurd hbad hns
      · rw [if_neg hbad, ih]
        simp only [Bool.or_eq_true, Bool.not_eq_true', beq_iff_eq, List.contains_iff_mem,
          not_or, Bool.not_eq_false] at hbad
        obtain ⟨⟨hv, hid⟩, hns⟩ := hbad
        simp only [List.mem_cons, List.nodup_cons, forall_eq_or_imp, not_or]
        constructor
        · rintro ⟨hall, hnd, hout⟩
          exact ⟨⟨⟨hv, hid⟩, hall⟩, ⟨fun hp => (hout p hp).1 rfl, hnd⟩, hns,
            fun q hq => (hout q hq).2⟩
        · rintro ⟨⟨-, hall⟩, ⟨hp, hnd⟩, -, hout⟩
          exact ⟨hall, hnd, fun q hq => ⟨fun hqp => hp (hqp ▸ hq), hout q hq⟩⟩

/-- `Validate` accepts exactly the valid operations. -/
theorem validate_ok_iff {op : Operation GoString} : validate op = .ok () ↔ Valid op := by
  constructor
  · intro h
    unfold validate at h
    dsimp only at h
    split at h; · cases h
    next h₁ =>
    split at h; · cases h
    next h₂ =>
    split at h; · cases h
    next h₃ =>
    split at h; · cases h
    next h₄ =>
    split at h; · cases h
    next h₅ =>
    split at h
    next h₆ =>
      simp only [Bool.or_eq_true, Bool.not_eq_true', Option.isNone_iff_eq_none, decide_eq_true_eq,
        not_or, Bool.not_eq_false, Nat.not_lt] at h₁
      obtain ⟨⟨⟨⟨⟨hid, hrec⟩, hfield⟩, hutf⟩, hlen⟩, hcount⟩ := h₁
      obtain ⟨n, hn⟩ := Option.ne_none_iff_exists'.mp hfield
      rw [hn, Option.getD_some] at hlen
      obtain ⟨hps, hnd, -⟩ := parentsValid_iff.mp h₆
      refine ⟨hid, hrec, ⟨n, hn, hlen⟩, hutf, hcount, ?_, ?_, ?_, ?_, hps, hnd⟩
      · intro hf ht; exact h₂ (by simp [hf, ht])
      · intro hf
        by_contra hv
        simp only [not_or] at hv
        exact h₃ (by simp [hf, hv])
      · intro hf
        by_contra hv
        simp only [not_or] at hv
        exact h₄ (by simp [hf, hv])
      · intro hf
        by_contra hv
        simp only [not_or] at hv
        exact h₅ (by simpa [hv] using hf)
    next => cases h
  · intro h
    obtain ⟨n, hn, hlen⟩ := h.limit
    unfold validate
    dsimp only
    rw [if_neg, if_neg, if_neg, if_neg, if_neg, if_pos]
    · exact parentsValid_iff.mpr ⟨h.parents, h.nodup, by simp⟩
    · intro hbad
      simp only [Bool.and_eq_true, Bool.or_eq_true, beq_iff_eq, bne_iff_ne] at hbad
      rcases h.checkbox hbad.1.1 with hv | hv
      · exact hbad.1.2 hv
      · exact hbad.2 hv
    · intro hbad
      simp only [Bool.and_eq_true, beq_iff_eq, bne_iff_ne] at hbad
      obtain ⟨⟨⟨hf, h₁⟩, h₂⟩, h₃⟩ := hbad
      rcases h.priority hf with hv | hv | hv
      · exact h₁ hv
      · exact h₂ hv
      · exact h₃ hv
    · intro hbad
      simp only [Bool.and_eq_true, beq_iff_eq, bne_iff_ne] at hbad
      obtain ⟨⟨⟨hf, h₁⟩, h₂⟩, h₃⟩ := hbad
      rcases h.status hf with hv | hv | hv
      · exact h₁ hv
      · exact h₂ hv
      · exact h₃ hv
    · intro hbad
      simp only [Bool.and_eq_true, Bool.or_eq_true, beq_iff_eq] at hbad
      exact h.text hbad.1 hbad.2
    · simp [h.id, h.record, h.utf8, hn, hlen, h.count]

/-- An operation is turned away with one error only. -/
theorem validate_error {op : Operation GoString} {e : Err} (h : validate op = .error e) :
    e = .invalid := by
  unfold validate at h
  dsimp only at h
  repeat' split at h
  all_goals first | cases h; rfl | cases h

instance (op : Operation GoString) : Decidable (Valid op) :=
  decidable_of_iff (validate op = .ok ()) validate_ok_iff

end Syncraft.Domain
