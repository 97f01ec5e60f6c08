import Mathlib.Data.List.Dedup
import Syncraft.Library.JsonText
import Syncraft.Domain.Merge

/-!
# Syncraft.Field.Operation

`lib/domain/operation.dart`: the operation of the field application, which only its checking
constructor can build; its JSON; `equivalent`; and `frontier`.

A Dart `String` is its UTF-16 code units (`DartString`). The map that `toJson` returns is the
bare record, and its JSON text is the record with every string as a literal between quotes:
the braces, commas and keys around the literals are the same for every operation. Reading
stored text back gives the operation with its parents sorted (`fromJson_toJson`), and
comparing texts is comparing operations up to parent order (`equivalent_iff`).
-/

namespace Syncraft

open Text JsonText CausalLog

/-- A Dart string: any sequence of code units. -/
abbrev DartString := List UInt16

/-- The code units of a source literal. -/
def dart (s : String) : DartString := utf16Encode s.toList

namespace Field

open Domain (sortStrings sortStrings_perm sortStrings_eq_iff uuidPattern whiteSpace trimBoth ofField)

/-- What the code of the field application throws. -/
inductive Exn where
  /-- A `FormatException` of its own, with the text the user sees. -/
  | format (message : String)
  /-- An `ApiFailure`: the server answered with a status outside 200 to 299. -/
  | api (status : Nat) (message : DartString)
  /-- A violated constraint of the local database. -/
  | database
  /-- Anything else: no connection, a timeout, a body that is not the JSON expected. -/
  | other
  deriving DecidableEq, Repr

/-! ### The constructor -/

/-- `fieldLimits` -/
def fieldLimits : List (DartString × Nat) :=
  [(dart "title", 200), (dart "site", 200), (dart "notes", 16000), (dart "status", 20),
    (dart "priority", 20), (dart "archived", 5), (dart "check.safety", 5),
    (dart "check.equipment", 5), (dart "check.access", 5)]

/-- `idPattern.hasMatch` -/
def idPattern (s : DartString) : Bool := uuidPattern (s.map UInt16.toNat)

/-- `utf8.encode(s).length`. The encoder writes U+FFFD for an unpaired surrogate. -/
def utf8Length (s : DartString) : Nat := (utf8Encode (utf16Lossy s)).length

/-- What `trim` removes: White_Space and the byte order mark. All of it is below the
surrogates, so a code unit shows it. -/
def trimmed (u : UInt16) : Bool := whiteSpace (Char.ofNat u.toNat) || u == 0xFEFF

/-- `trim` -/
def trim (s : DartString) : DartString := trimBoth trimmed s

/-- The checks of the constructor `Operation`. -/
def check (o : Domain.Operation DartString) : Except Exn Unit :=
  let limit := fieldLimits.lookup o.field
  if !idPattern o.id || !idPattern o.record || limit.isNone ||
      decide (utf8Length o.value > limit.getD 0) || decide (o.parents.length > 100) ||
      decide (o.parents.dedup.length ≠ o.parents.length) ||
      o.parents.any (fun p => !idPattern p || p == o.id) then
    .error (.format "Invalid operation")
  else if (o.field == dart "title" || o.field == dart "site") && trim o.value == [] then
    .error (.format "A value is required")
  else if o.field == dart "status" &&
      !([dart "draft", dart "in_progress", dart "complete"].contains o.value) then
    .error (.format "Invalid status")
  else if o.field == dart "priority" &&
      !([dart "normal", dart "high", dart "critical"].contains o.value) then
    .error (.format "Invalid priority")
  else if (o.field == dart "archived" || (dart "check.").isPrefixOf o.field) &&
      !([dart "true", dart "false"].contains o.value) then
    .error (.format "Invalid checkbox")
  else .ok ()

/-- What the constructor accepts. -/
structure Accepted (o : Domain.Operation DartString) : Prop where
  id : idPattern o.id = true
  record : idPattern o.record = true
  /-- The field is known and the value within its limit. -/
  limit : ∃ n, fieldLimits.lookup o.field = some n ∧ utf8Length o.value ≤ n
  count : o.parents.length ≤ 100
  /-- A title and a site are not blank. -/
  text : o.field = dart "title" ∨ o.field = dart "site" → trim o.value ≠ []
  status : o.field = dart "status" →
    o.value = dart "draft" ∨ o.value = dart "in_progress" ∨ o.value = dart "complete"
  priority : o.field = dart "priority" →
    o.value = dart "normal" ∨ o.value = dart "high" ∨ o.value = dart "critical"
  checkbox : o.field = dart "archived" ∨ (dart "check.").isPrefixOf o.field = true →
    o.value = dart "true" ∨ o.value = dart "false"
  parents : ∀ p ∈ o.parents, idPattern p = true ∧ p ≠ o.id
  nodup : o.parents.Nodup

/-- A set made of a list is as long as the list when nothing occurs twice. -/
theorem dedup_length_iff {σ : Type} [DecidableEq σ] {xs : List σ} :
    xs.dedup.length = xs.length ↔ xs.Nodup := by
  rw [← List.dedup_eq_self]
  exact ⟨(List.dedup_sublist xs).eq_of_length, congrArg List.length⟩

/-- The constructor accepts exactly the operations described. -/
theorem check_ok_iff {o : Domain.Operation DartString} : check o = .ok () ↔ Accepted o := by
  have hlist : ∀ (f : DartString) (vs : List DartString),
      (o.field == f && !vs.contains o.value) = true ↔ o.field = f ∧ o.value ∉ vs := by simp
  constructor
  · intro h
    unfold check at h
    dsimp only at h
    split at h; · cases h
    next h₁ =>
    split at h; · cases h
    next h₂ =>
    split at h; · cases h
    next h₃ =>
    split at h; · cases h
    next h₄ =>
    split at h; · cases h
    next h₅ =>
    simp only [Bool.or_eq_true, Bool.not_eq_true', Option.isNone_iff_eq_none, decide_eq_true_eq,
      not_or, Bool.not_eq_false, Nat.not_lt, not_not, List.any_eq_true, beq_iff_eq, not_exists,
      not_and] at h₁
    obtain ⟨⟨⟨⟨⟨⟨hid, hrec⟩, hfield⟩, hlen⟩, hcount⟩, hnd⟩, hps⟩ := h₁
    obtain ⟨n, hn⟩ := Option.ne_none_iff_exists'.mp hfield
    rw [hn, Option.getD_some] at hlen
    refine ⟨hid, hrec, ⟨n, hn, hlen⟩, hcount, ?_, ?_, ?_, ?_, fun p hp => hps p hp,
      dedup_length_iff.mp hnd⟩
    · intro hf ht; exact h₂ (by simp [hf, ht])
    · intro hf
      by_contra hv
      exact h₃ ((hlist _ _).mpr ⟨hf, by simpa using hv⟩)
    · intro hf
      by_contra hv
      exact h₄ ((hlist _ _).mpr ⟨hf, by simpa using hv⟩)
    · intro hf
      by_contra hv
      refine h₅ ?_
      simp only [Bool.and_eq_true, Bool.or_eq_true, beq_iff_eq]
      exact ⟨hf, by simpa using hv⟩
  · intro h
    obtain ⟨n, hn, hlen⟩ := h.limit
    unfold check
    dsimp only
    rw [if_neg, if_neg, if_neg, if_neg, if_neg]
    · intro hbad
      simp only [Bool.and_eq_true, Bool.or_eq_true, beq_iff_eq] at hbad
      have hv := h.checkbox hbad.1
      simp [hv] at hbad
    · intro hbad
      rw [hlist] at hbad
      have hv := h.priority hbad.1
      simp [hv] at hbad
    · intro hbad
      rw [hlist] at hbad
      have hv := h.status hbad.1
      simp [hv] at hbad
    · intro hbad
      simp only [Bool.and_eq_true, Bool.or_eq_true, beq_iff_eq] at hbad
      exact h.text hbad.1 hbad.2
    · have hps : o.parents.any (fun p => !idPattern p || p == o.id) = false := by
        simp only [List.any_eq_false]
        intro p hp
        obtain ⟨hv, hne⟩ := h.parents p hp
        simp [hv, hne]
      simp [h.id, h.record, hn, hlen, h.count, dedup_length_iff.mpr h.nodup, hps]

instance (o : Domain.Operation DartString) : Decidable (Accepted o) :=
  decidable_of_iff (check o = .ok ()) check_ok_iff

-- From here on the checks are known by `check_ok_iff`, and never run inside a proof.
attribute [local irreducible] check

/-- `Operation`: a record the constructor has accepted. -/
structure Operation extends Domain.Operation DartString where
  accepted : Accepted toOperation

@[ext] theorem Operation.ext {a b : Operation} (h : a.toOperation = b.toOperation) : a = b := by
  cases a; cases b; cases h; rfl

instance : DecidableEq Operation := fun a b =>
  decidable_of_iff (a.toOperation = b.toOperation) ⟨Operation.ext, congrArg Operation.toOperation⟩

/-- The constructor. -/
def Operation.new (o : Domain.Operation DartString) : Except Exn Operation :=
  match h : check o with
  | .ok () => .ok ⟨o, check_ok_iff.mp h⟩
  | .error e => .error e

theorem Operation.new_ok {o : Domain.Operation DartString} (h : Accepted o) :
    Operation.new o = .ok ⟨o, h⟩ := by
  have hc := check_ok_iff.mpr h
  unfold Operation.new
  split
  · rfl
  · next e he => rw [hc] at he; cases he

/-- Inverting the constructor. -/
theorem Operation.of_new {o : Domain.Operation DartString} {a : Operation}
    (h : Operation.new o = .ok a) : a.toOperation = o := by
  unfold Operation.new at h
  split at h
  · cases h; rfl
  · cases h

/-! ### JSON -/

/-- `Operation.fromJson`, on a map that holds the five keys. A missing list of parents is
read as an empty one. -/
def fromJson (json : Domain.Operation DartString) : Except Exn Operation := Operation.new json

/-- `toJson` -/
def Operation.toJson (o : Operation) : Domain.Operation DartString :=
  { o.toOperation with parents := sortStrings o.parents }

/-- `jsonEncode` -/
def jsonEncode (json : Domain.Operation DartString) : Domain.Operation Literal :=
  json.map unitsLiteral

/-- `jsonDecode` -/
def jsonDecode (text : Domain.Operation Literal) : Option (Domain.Operation DartString) :=
  text.traverse unitsOf

/-- `equivalent` -/
def Operation.equivalent (a b : Operation) : Bool := jsonEncode a.toJson == jsonEncode b.toJson

theorem jsonEncode_injective : Function.Injective jsonEncode := by
  intro a b h
  obtain ⟨ai, ar, af, av, ap⟩ := a
  obtain ⟨bi, br, bf, bv, bp⟩ := b
  simp only [jsonEncode, Domain.Operation.map, Domain.Operation.mk.injEq] at h ⊢
  obtain ⟨h₁, h₂, h₃, h₄, h₅⟩ := h
  exact ⟨unitsLiteral_injective h₁, unitsLiteral_injective h₂, unitsLiteral_injective h₃,
    unitsLiteral_injective h₄, List.map_injective_iff.mpr unitsLiteral_injective h₅⟩

/-- Rewriting every string forth and back. -/
theorem traverse_map {σ τ υ : Type} {f : σ → τ} {g : τ → Option υ} {k : σ → υ}
    {o : Domain.Operation σ} (h : ∀ s ∈ o.strings, g (f s) = some (k s)) :
    (o.map f).traverse g = some (o.map k) := by
  simp only [Domain.Operation.strings, List.forall_mem_cons] at h
  obtain ⟨h₁, h₂, h₃, h₄, h₅⟩ := h
  have hps : (o.parents.map f).mapM g = some (o.parents.map k) := by
    generalize o.parents = ps at h₅
    induction ps with
    | nil => rfl
    | cons p ps ih =>
        have hp := h₅ p List.mem_cons_self
        have hrest := ih fun q hq => h₅ q (List.mem_cons_of_mem _ hq)
        rw [List.map_cons, List.mapM_cons, hp, hrest]
        rfl
  simp [Domain.Operation.traverse, Domain.Operation.map, h₁, h₂, h₃, h₄, hps]

@[simp] theorem jsonDecode_jsonEncode (json : Domain.Operation DartString) :
    jsonDecode (jsonEncode json) = some json := by
  have h := traverse_map (f := unitsLiteral) (g := unitsOf) (k := id) (o := json)
    fun s _ => unitsOf_unitsLiteral s
  rw [jsonDecode, jsonEncode, h]
  simp [Domain.Operation.map]

/-- `equivalent` compares everything but the order of the parents. -/
theorem equivalent_iff {a b : Operation} :
    a.equivalent b = true ↔ a.id = b.id ∧ a.record = b.record ∧ a.field = b.field ∧
      a.value = b.value ∧ a.parents.Perm b.parents := by
  simp only [Operation.equivalent, beq_iff_eq, jsonEncode_injective.eq_iff, Operation.toJson,
    Operation.toJson, Domain.Operation.mk.injEq, sortStrings_eq_iff]

/-- Operations are the nodes of a causal log. -/
instance : CausalNode Operation DartString where
  key o := o.id
  parents o := o.parents
  same := Operation.equivalent
  sameScope a b := a.record == b.record && a.field == b.field
  same_refl a := equivalent_iff.mpr ⟨rfl, rfl, rfl, rfl, List.Perm.refl _⟩
  same_symm h := by
    obtain ⟨h₁, h₂, h₃, h₄, h₅⟩ := equivalent_iff.mp h
    exact equivalent_iff.mpr ⟨h₁.symm, h₂.symm, h₃.symm, h₄.symm, h₅.symm⟩
  same_trans h h' := by
    obtain ⟨h₁, h₂, h₃, h₄, h₅⟩ := equivalent_iff.mp h
    obtain ⟨g₁, g₂, g₃, g₄, g₅⟩ := equivalent_iff.mp h'
    exact equivalent_iff.mpr
      ⟨h₁.trans g₁, h₂.trans g₂, h₃.trans g₃, h₄.trans g₄, h₅.trans g₅⟩
  scope_trans h h' := by
    simp only [Bool.and_eq_true, beq_iff_eq] at h h' ⊢
    exact ⟨h.1.trans h'.1, h.2.trans h'.2⟩
  key_of_same h := (equivalent_iff.mp h).1
  scope_of_same h := by
    obtain ⟨-, h₂, h₃, -, -⟩ := equivalent_iff.mp h
    simp only [h₂, h₃, beq_self_eq_true, Bool.and_self]
  parents_of_same h _ := (equivalent_iff.mp h).2.2.2.2.mem_iff

theorem same_iff {a b : Operation} : Same a b ↔ a.equivalent b = true := Iff.rfl

theorem key_eq (o : Operation) : CausalNode.key o = o.id := rfl

theorem sameScope_iff {a b : Operation} :
    SameScope a b ↔ a.record = b.record ∧ a.field = b.field := by
  show (a.record == b.record && a.field == b.field) = true ↔ _
  simp only [Bool.and_eq_true, beq_iff_eq]

/-! ### Stored operations -/

/-- The order of the parents does not matter to the constructor. -/
theorem Accepted.of_perm {o : Domain.Operation DartString} (h : Accepted o) {ps : List DartString}
    (hp : ps.Perm o.parents) : Accepted { o with parents := ps } :=
  { id := h.id, record := h.record, limit := h.limit, count := hp.length_eq ▸ h.count,
    text := h.text, status := h.status, priority := h.priority, checkbox := h.checkbox
    parents := fun p hm => h.parents p (hp.mem_iff.mp hm)
    nodup := hp.nodup_iff.mpr h.nodup }

/-- The operation as it comes back from the local database: `toJson` has sorted its
parents. -/
def Operation.stored (o : Operation) : Operation :=
  ⟨o.toJson, o.accepted.of_perm (sortStrings_perm o.parents)⟩

/-- Reading back what `toJson` has written. -/
theorem fromJson_toJson (o : Operation) : fromJson o.toJson = .ok o.stored :=
  Operation.new_ok o.stored.accepted

@[simp] theorem stored_id (o : Operation) : o.stored.id = o.id := rfl

theorem same_stored (o : Operation) : Same o o.stored :=
  equivalent_iff.mpr ⟨rfl, rfl, rfl, rfl, (sortStrings_perm o.parents).symm⟩

/-- Equivalent operations have one JSON text. -/
theorem toJson_of_same {a b : Operation} (h : Same a b) : a.toJson = b.toJson :=
  jsonEncode_injective (beq_iff_eq.mp h)

/-- Equivalent operations are stored as one. -/
theorem stored_of_same {a b : Operation} (h : Same a b) : a.stored = b.stored :=
  Operation.ext (toJson_of_same h)

@[simp] theorem stored_stored (o : Operation) : o.stored.stored = o.stored :=
  (stored_of_same (same_stored o)).symm

/-! ### Frontier -/

/-- `frontier` -/
def frontier (operations : List Operation) (record field : DartString) : List Operation :=
  CausalLog.frontier operations fun o => ofField record field o.toOperation

end Field

end Syncraft
