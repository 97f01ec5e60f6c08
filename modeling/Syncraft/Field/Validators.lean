import Mathlib.Data.List.TakeWhile
import Mathlib.Data.Set.List
import Syncraft.Field.Operation

/-!
# Syncraft.Field.Validators

Two validators for one operation: `Validate` of the server over UTF-8, the constructor of the
field application over UTF-16. They are compared on operations whose strings are texts
(`List Char`), which either side holds in its own encoding (`utf8Op`, `utf16Op`).

What the field application accepts the server accepts (`valid_of_accepted`). The converse has
one exception: Dart's `trim` removes the byte order mark and Go's `TrimSpace` does not, so a
title or site made of white space and byte order marks is blank for one and not for the
other. `Poison` describes those operations, and `valid_not_accepted_iff` says there are no
others.
-/

namespace Syncraft.Field

open Text
open Domain (validID validate Valid validate_ok_iff trimSpace whiteSpace trimBoth uuidPattern
  uuidPattern_chars idChar_lt validString)

/-- The operation as the server holds it. -/
def utf8Op (o : Domain.Operation (List Char)) : Domain.Operation GoString := o.map utf8Encode

/-- The operation as the field application holds it. -/
def utf16Op (o : Domain.Operation (List Char)) : Domain.Operation DartString := o.map utf16Encode

@[simp] theorem utf8Op_id (o : Domain.Operation (List Char)) :
    (utf8Op o).id = utf8Encode o.id := rfl

@[simp] theorem utf8Op_record (o : Domain.Operation (List Char)) :
    (utf8Op o).record = utf8Encode o.record := rfl

@[simp] theorem utf8Op_field (o : Domain.Operation (List Char)) :
    (utf8Op o).field = utf8Encode o.field := rfl

@[simp] theorem utf8Op_value (o : Domain.Operation (List Char)) :
    (utf8Op o).value = utf8Encode o.value := rfl

@[simp] theorem utf8Op_parents (o : Domain.Operation (List Char)) :
    (utf8Op o).parents = o.parents.map utf8Encode := rfl

@[simp] theorem utf16Op_id (o : Domain.Operation (List Char)) :
    (utf16Op o).id = utf16Encode o.id := rfl

@[simp] theorem utf16Op_record (o : Domain.Operation (List Char)) :
    (utf16Op o).record = utf16Encode o.record := rfl

@[simp] theorem utf16Op_field (o : Domain.Operation (List Char)) :
    (utf16Op o).field = utf16Encode o.field := rfl

@[simp] theorem utf16Op_value (o : Domain.Operation (List Char)) :
    (utf16Op o).value = utf16Encode o.value := rfl

@[simp] theorem utf16Op_parents (o : Domain.Operation (List Char)) :
    (utf16Op o).parents = o.parents.map utf16Encode := rfl

/-! ### IDs -/

/-- The ID pattern over a text. -/
def textID (cs : List Char) : Bool := uuidPattern (cs.map Char.toNat)

theorem validID_utf8Encode (cs : List Char) : validID (utf8Encode cs) = textID cs := by
  rw [Bool.eq_iff_iff, validID, textID]
  constructor
  · intro h
    have hlt : ∀ b ∈ utf8Encode cs, b.toNat < 128 :=
      fun b hb => idChar_lt (uuidPattern_chars h _ (List.mem_map_of_mem hb))
    rwa [utf8Encode_toNat (ascii_of_utf8Encode hlt)] at h
  · intro h
    rwa [utf8Encode_toNat fun c hc => idChar_lt (uuidPattern_chars h _ (List.mem_map_of_mem hc))]

theorem idPattern_utf16Encode (cs : List Char) : idPattern (utf16Encode cs) = textID cs := by
  rw [Bool.eq_iff_iff, idPattern, textID]
  constructor
  · intro h
    have hlt : ∀ u ∈ utf16Encode cs, u.toNat < 128 :=
      fun u hu => idChar_lt (uuidPattern_chars h _ (List.mem_map_of_mem hu))
    rwa [utf16Encode_toNat (ascii_of_utf16Encode hlt)] at h
  · intro h
    rwa [utf16Encode_toNat fun c hc => idChar_lt (uuidPattern_chars h _ (List.mem_map_of_mem hc))]

/-! ### Fields and choices -/

/-- The table of fields, as both programs write it down. -/
def textFields : List (List Char × Nat) :=
  [("title".toList, 200), ("site".toList, 200), ("notes".toList, 16000), ("status".toList, 20),
    ("priority".toList, 20), ("archived".toList, 5), ("check.safety".toList, 5),
    ("check.equipment".toList, 5), ("check.access".toList, 5)]

theorem lookup_map {σ τ υ : Type} [BEq σ] [LawfulBEq σ] [BEq τ] [LawfulBEq τ] {f : σ → τ}
    (hf : Function.Injective f) (table : List (σ × υ)) (k : σ) :
    (table.map fun p => (f p.1, p.2)).lookup (f k) = table.lookup k := by
  induction table with
  | nil => rfl
  | cons p table ih =>
      obtain ⟨k', v⟩ := p
      rw [List.map_cons, List.lookup_cons, List.lookup_cons, ih]
      by_cases h : k = k'
      · simp [h]
      · have h' : f k ≠ f k' := fun he => h (hf he)
        rw [beq_false_of_ne h, beq_false_of_ne h']

theorem mem_of_lookup {σ τ : Type} [BEq σ] [LawfulBEq σ] {table : List (σ × τ)} {k : σ} {v : τ}
    (h : table.lookup k = some v) : k ∈ table.map Prod.fst := by
  obtain ⟨l, l', hl, -⟩ := List.lookup_eq_some_iff.mp h
  simp [hl]

theorem fields_lookup (cs : List Char) :
    Domain.fields.lookup (utf8Encode cs) = textFields.lookup cs :=
  lookup_map utf8Encode_injective textFields cs

theorem fieldLimits_lookup (cs : List Char) :
    fieldLimits.lookup (utf16Encode cs) = textFields.lookup cs :=
  lookup_map utf16Encode_injective textFields cs

@[simp] theorem utf8Length_utf16Encode (cs : List Char) :
    utf8Length (utf16Encode cs) = (utf8Encode cs).length := by
  rw [utf8Length, utf16Lossy_utf16Encode]

theorem validString_utf8Encode (cs : List Char) : validString (utf8Encode cs) = true := by
  rw [validString, utf8Decode?_utf8Encode]; rfl

theorem utf8_eq_iff {cs : List Char} {s : String} : utf8Encode cs = go s ↔ cs = s.toList :=
  utf8Encode_injective.eq_iff

theorem utf16_eq_iff {cs : List Char} {s : String} : utf16Encode cs = dart s ↔ cs = s.toList :=
  utf16Encode_injective.eq_iff

/-- A field in the table is a checkbox for both programs, or for neither. -/
theorem check_field {cs : List Char} {n : Nat} (h : textFields.lookup cs = some n) :
    (go "check.").isPrefixOf (utf8Encode cs) = "check.".toList.isPrefixOf cs ∧
      (dart "check.").isPrefixOf (utf16Encode cs) = "check.".toList.isPrefixOf cs := by
  have hall : ∀ f ∈ textFields.map Prod.fst,
      (go "check.").isPrefixOf (utf8Encode f) = "check.".toList.isPrefixOf f ∧
        (dart "check.").isPrefixOf (utf16Encode f) = "check.".toList.isPrefixOf f := by
    decide
  exact hall cs (mem_of_lookup h)

/-! ### Blank texts -/

theorem trimBoth_eq_nil {β : Type} {p : β → Bool} {xs : List β} :
    trimBoth p xs = [] ↔ ∀ x ∈ xs, p x = true := by
  rw [trimBoth, List.reverse_eq_nil_iff, List.dropWhile_eq_nil_iff]
  constructor
  · intro h x hx
    -- What `dropWhile` leaves starts with an element that stays.
    have hnil : xs.dropWhile p = [] := by
      by_contra hne
      obtain ⟨y, ys, hy⟩ := List.exists_cons_of_ne_nil hne
      have hhead := List.head_dropWhile_not p hne
      have := h y (by rw [hy]; simp)
      simp [hy, this] at hhead
    exact List.dropWhile_eq_nil_iff.mp hnil x hx
  · intro h x hx
    simp only [List.mem_reverse] at hx
    exact h x ((List.dropWhile_sublist p).subset hx)

/-- What `trim` removes of a text: white space and the byte order mark. -/
def textTrimmed (c : Char) : Bool := whiteSpace c || c == '\uFEFF'

/-- White space is within the first plane. -/
theorem whiteSpace_lt {c : Char} (h : whiteSpace c = true) : c.toNat < 0x3001 := by
  simp only [whiteSpace, Bool.or_eq_true, Bool.and_eq_true, decide_eq_true_eq, beq_iff_eq] at h
  omega

/-- A character is trimmed when its code units are. -/
theorem trimmed_units (c : Char) :
    (∀ u ∈ utf16EncodeChar c, trimmed u = true) ↔ textTrimmed c = true := by
  have hrange := char_range c
  have hmark : c = '\uFEFF' ↔ c.toNat = 0xFEFF := by
    rw [← Char.toNat_inj]; rfl
  by_cases hc : c.toNat < 0x10000
  · have hu : (UInt16.ofNat c.toNat).toNat = c.toNat := by
      simp only [UInt16.toNat_ofNat']; exact Nat.mod_eq_of_lt hc
    have hbom : UInt16.ofNat c.toNat = 0xFEFF ↔ c.toNat = 0xFEFF := by
      rw [← UInt16.toNat_inj, hu]; rfl
    rw [utf16EncodeChar, if_pos hc]
    simp only [List.mem_singleton, forall_eq, trimmed, textTrimmed, hu, Char.ofNat_toNat,
      Bool.or_eq_true, beq_iff_eq, hbom, hmark]
  · rw [utf16EncodeChar, if_neg hc]
    have hlead : (UInt16.ofNat (0xD800 + (c.toNat - 0x10000) / 0x400)).toNat =
        0xD800 + (c.toNat - 0x10000) / 0x400 := by
      simp only [UInt16.toNat_ofNat']; omega
    constructor
    · intro h
      have hfirst := h _ List.mem_cons_self
      -- A surrogate is no character, and no white space either.
      have hzero : Char.ofNat (0xD800 + (c.toNat - 0x10000) / 0x400) = Char.ofNat 0 := by
        rw [Char.ofNat, dif_neg (by unfold Nat.isValidChar; omega)]
        rfl
      rw [trimmed, hlead, hzero, Bool.or_eq_true, beq_iff_eq, ← UInt16.toNat_inj, hlead] at hfirst
      rcases hfirst with hfirst | hfirst
      · exact absurd hfirst (by decide)
      · have hm : (0xFEFF : UInt16).toNat = 0xFEFF := rfl
        rw [hm] at hfirst
        omega
    · intro h
      rw [textTrimmed, Bool.or_eq_true, beq_iff_eq, hmark] at h
      rcases h with h | h
      · have := whiteSpace_lt h
        omega
      · omega

/-- A text is blank for the field application. -/
theorem trim_eq_nil (cs : List Char) :
    trim (utf16Encode cs) = [] ↔ ∀ c ∈ cs, textTrimmed c = true := by
  rw [trim, trimBoth_eq_nil]
  constructor
  · intro h c hc
    exact (trimmed_units c).mp fun u hu => h u (List.mem_flatMap.mpr ⟨c, hc, hu⟩)
  · intro h u hu
    obtain ⟨c, hc, huc⟩ := List.mem_flatMap.mp hu
    exact (trimmed_units c).mpr (h c hc) u huc

/-- A text is blank for the server. -/
theorem trimSpace_eq_nil (cs : List Char) :
    trimSpace (utf8Encode cs) = [] ↔ ∀ c ∈ cs, whiteSpace c = true := by
  have hnil : ∀ ds : List Char, utf8Encode ds = [] ↔ ds = [] :=
    fun ds => ⟨fun h => utf8Encode_injective h, fun h => by rw [h]; rfl⟩
  rw [trimSpace, utf8Decode?_utf8Encode]
  dsimp only
  rw [hnil, trimBoth_eq_nil]

/-! ### The comparison -/

/-- What the two validators check, on texts. They differ in what makes a value `blank`. -/
structure WellMade (blank : Char → Bool) (o : Domain.Operation (List Char)) : Prop where
  id : textID o.id = true
  record : textID o.record = true
  limit : ∃ n, textFields.lookup o.field = some n ∧ (utf8Encode o.value).length ≤ n
  count : o.parents.length ≤ 100
  text : o.field = "title".toList ∨ o.field = "site".toList → ¬ ∀ c ∈ o.value, blank c = true
  status : o.field = "status".toList →
    o.value = "draft".toList ∨ o.value = "in_progress".toList ∨ o.value = "complete".toList
  priority : o.field = "priority".toList →
    o.value = "normal".toList ∨ o.value = "high".toList ∨ o.value = "critical".toList
  checkbox : o.field = "archived".toList ∨ "check.".toList.isPrefixOf o.field = true →
    o.value = "true".toList ∨ o.value = "false".toList
  parents : ∀ p ∈ o.parents, textID p = true ∧ p ≠ o.id
  nodup : o.parents.Nodup

/-- `Validate`, on texts. -/
theorem valid_utf8Op {o : Domain.Operation (List Char)} :
    Valid (utf8Op o) ↔ WellMade whiteSpace o := by
  have hfield : Domain.fields.lookup (utf8Op o).field = textFields.lookup o.field :=
    fields_lookup o.field
  have hparents : (∀ p ∈ (utf8Op o).parents, validID p = true ∧ p ≠ (utf8Op o).id) ↔
      ∀ p ∈ o.parents, textID p = true ∧ p ≠ o.id := by
    simp [validID_utf8Encode, utf8Encode_injective.eq_iff]
  constructor
  · intro h
    obtain ⟨n, hn, hlen⟩ := h.limit
    rw [hfield] at hn
    exact {
      id := by simpa [validID_utf8Encode] using h.id
      record := by simpa [validID_utf8Encode] using h.record
      limit := ⟨n, hn, hlen⟩
      count := by simpa using h.count
      text := by simpa only [utf8Op_field, utf8Op_value, utf8_eq_iff, ne_eq, trimSpace_eq_nil] using h.text
      status := by simpa only [utf8Op_field, utf8Op_value, utf8_eq_iff] using h.status
      priority := by simpa only [utf8Op_field, utf8Op_value, utf8_eq_iff] using h.priority
      checkbox := by
        simpa only [utf8Op_field, utf8Op_value, utf8_eq_iff, (check_field hn).1] using h.checkbox
      parents := hparents.mp h.parents
      nodup := by simpa [List.nodup_map_iff utf8Encode_injective] using h.nodup }
  · intro h
    obtain ⟨n, hn, hlen⟩ := h.limit
    exact {
      id := by simpa [validID_utf8Encode] using h.id
      record := by simpa [validID_utf8Encode] using h.record
      limit := ⟨n, hfield.trans hn, hlen⟩
      utf8 := validString_utf8Encode o.value
      count := by simpa using h.count
      text := by simpa only [utf8Op_field, utf8Op_value, utf8_eq_iff, ne_eq, trimSpace_eq_nil] using h.text
      status := by simpa only [utf8Op_field, utf8Op_value, utf8_eq_iff] using h.status
      priority := by simpa only [utf8Op_field, utf8Op_value, utf8_eq_iff] using h.priority
      checkbox := by
        simpa only [utf8Op_field, utf8Op_value, utf8_eq_iff, (check_field hn).1] using h.checkbox
      parents := hparents.mpr h.parents
      nodup := by simpa [List.nodup_map_iff utf8Encode_injective] using h.nodup }

theorem exists_utf8Encode {s : GoString} (h : validString s = true) : ∃ cs, utf8Encode cs = s := by
  obtain ⟨cs, hcs⟩ := Option.isSome_iff_exists.mp h
  exact ⟨cs, utf8Encode_of_decode hcs⟩

/-- `Validate` accepts texts only. -/
theorem exists_utf8Op {q : Domain.Operation GoString} (h : Valid q) : ∃ o, utf8Op o = q := by
  have hfields : ∀ f ∈ Domain.fields.map Prod.fst, validString f = true := by decide
  obtain ⟨n, hn, -⟩ := h.limit
  obtain ⟨id, hid⟩ := exists_utf8Encode (Domain.validString_of_validID h.id)
  obtain ⟨record, hrecord⟩ := exists_utf8Encode (Domain.validString_of_validID h.record)
  obtain ⟨field, hfield⟩ := exists_utf8Encode (hfields _ (mem_of_lookup hn))
  obtain ⟨value, hvalue⟩ := exists_utf8Encode h.utf8
  have hparents : q.parents ∈ Set.range (List.map utf8Encode) := by
    simp only [Set.range_list_map]
    exact fun p hp => exists_utf8Encode (Domain.validString_of_validID (h.parents p hp).1)
  obtain ⟨parents, hparents⟩ := hparents
  refine ⟨{ id, record, field, value, parents }, ?_⟩
  rw [utf8Op, Domain.Operation.map, hid, hrecord, hfield, hvalue, hparents]

/-- The constructor, on texts. -/
theorem accepted_utf16Op {o : Domain.Operation (List Char)} :
    Accepted (utf16Op o) ↔ WellMade textTrimmed o := by
  have hfield : fieldLimits.lookup (utf16Op o).field = textFields.lookup o.field :=
    fieldLimits_lookup o.field
  have hlength : utf8Length (utf16Op o).value = (utf8Encode o.value).length :=
    utf8Length_utf16Encode o.value
  have hparents : (∀ p ∈ (utf16Op o).parents, idPattern p = true ∧ p ≠ (utf16Op o).id) ↔
      ∀ p ∈ o.parents, textID p = true ∧ p ≠ o.id := by
    simp [idPattern_utf16Encode, utf16Encode_injective.eq_iff]
  constructor
  · intro h
    obtain ⟨n, hn, hlen⟩ := h.limit
    rw [hfield] at hn
    exact {
      id := by simpa [idPattern_utf16Encode] using h.id
      record := by simpa [idPattern_utf16Encode] using h.record
      limit := ⟨n, hn, hlength ▸ hlen⟩
      count := by simpa using h.count
      text := by simpa only [utf16Op_field, utf16Op_value, utf16_eq_iff, ne_eq, trim_eq_nil] using h.text
      status := by simpa only [utf16Op_field, utf16Op_value, utf16_eq_iff] using h.status
      priority := by simpa only [utf16Op_field, utf16Op_value, utf16_eq_iff] using h.priority
      checkbox := by
        simpa only [utf16Op_field, utf16Op_value, utf16_eq_iff, (check_field hn).2] using h.checkbox
      parents := hparents.mp h.parents
      nodup := by simpa [List.nodup_map_iff utf16Encode_injective] using h.nodup }
  · intro h
    obtain ⟨n, hn, hlen⟩ := h.limit
    exact {
      id := by simpa [idPattern_utf16Encode] using h.id
      record := by simpa [idPattern_utf16Encode] using h.record
      limit := ⟨n, hfield.trans hn, hlength ▸ hlen⟩
      count := by simpa using h.count
      text := by simpa only [utf16Op_field, utf16Op_value, utf16_eq_iff, ne_eq, trim_eq_nil] using h.text
      status := by simpa only [utf16Op_field, utf16Op_value, utf16_eq_iff] using h.status
      priority := by simpa only [utf16Op_field, utf16Op_value, utf16_eq_iff] using h.priority
      checkbox := by
        simpa only [utf16Op_field, utf16Op_value, utf16_eq_iff, (check_field hn).2] using h.checkbox
      parents := hparents.mpr h.parents
      nodup := by simpa [List.nodup_map_iff utf16Encode_injective] using h.nodup }

/-- **What the field application accepts, the server accepts.** -/
theorem valid_of_accepted {o : Domain.Operation (List Char)} (h : Accepted (utf16Op o)) :
    Valid (utf8Op o) := by
  have hw := accepted_utf16Op.mp h
  refine valid_utf8Op.mpr { hw with text := fun hf hblank => hw.text hf fun c hc => ?_ }
  rw [textTrimmed, hblank c hc, Bool.true_or]

/-- A title or site that is well made but for its value, which holds white space and byte
order marks only, and at least one of the latter. -/
structure Poison (o : Domain.Operation (List Char)) : Prop where
  id : textID o.id = true
  record : textID o.record = true
  field : o.field = "title".toList ∨ o.field = "site".toList
  size : (utf8Encode o.value).length ≤ 200
  blank : ∀ c ∈ o.value, textTrimmed c = true
  mark : '\uFEFF' ∈ o.value
  count : o.parents.length ≤ 100
  parents : ∀ p ∈ o.parents, textID p = true ∧ p ≠ o.id
  nodup : o.parents.Nodup

/-- **What the server accepts and the field application does not.** -/
theorem valid_not_accepted_iff {o : Domain.Operation (List Char)} :
    Valid (utf8Op o) ∧ ¬ Accepted (utf16Op o) ↔ Poison o := by
  simp only [valid_utf8Op, accepted_utf16Op]
  constructor
  · rintro ⟨hv, hna⟩
    -- Only the blank check can make the difference.
    have htext : ¬ (o.field = "title".toList ∨ o.field = "site".toList →
        ¬ ∀ c ∈ o.value, textTrimmed c = true) :=
      fun ht => hna { hv with text := ht }
    simp only [Classical.not_imp, not_not] at htext
    obtain ⟨hf, hblank⟩ := htext
    have hmark : '\uFEFF' ∈ o.value := by
      by_contra hno
      refine hv.text hf fun c hc => ?_
      have hc' := hblank c hc
      rw [textTrimmed, Bool.or_eq_true, beq_iff_eq] at hc'
      rcases hc' with hc' | rfl
      · exact hc'
      · exact absurd hc hno
    have hsize : (utf8Encode o.value).length ≤ 200 := by
      obtain ⟨n, hn, hlen⟩ := hv.limit
      have hlimit : textFields.lookup o.field = some 200 := by
        rcases hf with hf | hf <;> rw [hf] <;> decide
      rw [hlimit] at hn
      exact Option.some.inj hn ▸ hlen
    exact ⟨hv.id, hv.record, hf, hsize, hblank, hmark, hv.count, hv.parents, hv.nodup⟩
  · intro h
    refine ⟨?_, fun ha => ha.text h.field h.blank⟩
    have hother : o.field ≠ "status".toList ∧ o.field ≠ "priority".toList ∧
        o.field ≠ "archived".toList ∧ "check.".toList.isPrefixOf o.field = false ∧
        textFields.lookup o.field = some 200 := by
      rcases h.field with hf | hf <;> rw [hf] <;> decide
    obtain ⟨h₁, h₂, h₃, h₄, h₅⟩ := hother
    exact {
      id := h.id
      record := h.record
      limit := ⟨200, h₅, h.size⟩
      count := h.count
      text := fun _ hblank => absurd (hblank _ h.mark) (by decide)
      status := fun hf => absurd hf h₁
      priority := fun hf => absurd hf h₂
      checkbox := fun hf => by
        rcases hf with hf | hf
        · exact absurd hf h₃
        · rw [h₄] at hf; cases hf
      parents := h.parents
      nodup := h.nodup }

end Syncraft.Field
