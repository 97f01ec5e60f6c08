import Syncraft.Library.Ancestry
import Syncraft.Field.Inspection
import Syncraft.Field.Replica
import Syncraft.Field.Wire
import Syncraft.Store.MemoryInvariant

/-!
# Syncraft.Field.Agreement

The merge rules of the field application and of the server, side by side: `addAll` of a
replica against `ValidateBatch` and `Push`, `equivalent` against `Equivalent`, and the two
functions called `frontier`. The same operations are held in UTF-16 on one side and in UTF-8
on the other (`Operation.bytes`), which a causal log does not notice as long as values are
well formed (`inBytes`).

The rules agree on every batch (`batches_agree`), and either frontier is made of the causally
maximal operations of its field (`frontier_maximal`).
-/

namespace Syncraft.Field

open Text CausalLog
open Domain (ofField Valid sortStrings sortStrings_perm uuidPattern_chars idChar_lt validateBatch
  validateBatch_iff)

/-! ### The same operation in bytes -/

/-- The operation in UTF-8, with its parents in the order they are in. -/
def Operation.bytes (o : Operation) : Domain.Operation GoString := o.toOperation.map Field.toGo

/-- Sent, an operation has its parents sorted. -/
theorem same_bytes (o : Operation) : Same o.bytes o.toGo :=
  Domain.equivalent_iff.mpr ⟨rfl, rfl, rfl, rfl, ((sortStrings_perm o.parents).map toGo).symm⟩

/-- The server admits it. -/
theorem valid_bytes (o : Operation) : Valid o.bytes := (valid_toGo o).of_same (same_bytes o).symm

theorem same_bytes_iff {a b : Operation} (ha : WellFormed a.value) (hb : WellFormed b.value) :
    Same a.bytes b.bytes ↔ Same a b := by
  rw [← same_toGo_iff ha hb]
  constructor
  · intro h
    exact ((same_bytes a).symm.trans h).trans (same_bytes b)
  · intro h
    exact ((same_bytes a).trans h).trans (same_bytes b).symm

theorem mem_bytes_parents {o : Operation} {p : GoString} :
    p ∈ o.bytes.parents ↔ ∃ q ∈ o.parents, toGo q = p := List.mem_map

/-- **Either encoding makes the same causal log.** -/
theorem inBytes : Embedding Operation.bytes toGo fun o : Operation => WellFormed o.value where
  key _ := rfl
  parents _ _ := mem_bytes_parents
  key_inj := wire.key_inj
  parent_inj := wire.parent_inj
  scope := wire.scope
  same _ _ := same_bytes_iff

/-! ### Batches -/

open Store in
/-- **Client and server agree on which batches are causally valid.** Of existing operations
loaded in causal order and a batch of 1 to 100, `addAll` takes the batch exactly when
`ValidateBatch` does. The replica then holds what the space holds after `Push` by any active
device, in the same order; a throw leaves it as it was. `equivalent` and `Equivalent` agree. -/
theorem batches_agree {existing batch : List Operation} (hc : Causal existing)
    (hexisting : ∀ o ∈ existing, WellFormed o.value) (hbatch : ∀ o ∈ batch, WellFormed o.value)
    (hsize : 1 ≤ batch.length ∧ batch.length ≤ 100) :
    ∃ r : Replica, Replica.empty.addAll existing = .ok r ∧ r.operations = existing ∧
      ((r.tryAddAll batch).1 = .ok () ↔
        validateBatch (fun id => find (existing.map Operation.bytes) id)
          (batch.map Operation.bytes) = .ok ()) ∧
      ((r.tryAddAll batch).1 = .ok () → ∀ (s : Space) (device actor : GoString),
        s.ops = existing.map Operation.bytes → s.active device actor = true →
          ∃ cursor s', s.push device actor (batch.map Operation.bytes) = (.ok cursor, s') ∧
            s'.ops = (r.tryAddAll batch).2.operations.map Operation.bytes) ∧
      ((r.tryAddAll batch).1 ≠ .ok () → (r.tryAddAll batch).2 = r) ∧
      ∀ a b : Operation, WellFormed a.value → WellFormed b.value →
        a.equivalent b = Domain.equivalent a.bytes b.bytes := by
  have hmap := inBytes.admitAll_map hexisting hbatch
  have hknows : Domain.Knows (fun id => find (existing.map Operation.bytes) id)
      (existing.map Operation.bytes) (Domain.Mentions (batch.map Operation.bytes)) := fun _ _ => rfl
  have hvalid : ∀ o ∈ batch.map Operation.bytes, Valid o := by
    intro o ho
    obtain ⟨x, -, rfl⟩ := List.mem_map.mp ho
    exact valid_bytes x
  have hbs : Domain.BatchSize (batch.map Operation.bytes) := by
    rw [Domain.BatchSize, List.length_map]
    omega
  have hiff := validateBatch_iff hknows
  refine ⟨⟨existing, hc⟩, Replica.addAll_ok_iff.mpr hc.admitAll_eq, rfl, ?_, ?_, ?_, ?_⟩
  · rw [hiff, hmap]
    constructor
    · intro hok
      have hadm : admitAll existing batch = .ok _ := Replica.tryAddAll_completed hok
      rw [hadm]
      exact ⟨hbs, hvalid, _, rfl⟩
    · rintro ⟨-, -, log, hlog⟩
      cases hadm : admitAll existing batch with
      | error e => rw [hadm] at hlog; cases hlog
      | ok log' =>
          obtain ⟨r', htry, -⟩ := Replica.tryAddAll_admitted (r := ⟨existing, hc⟩) hadm
          rw [htry]
  · intro hok s device actor hops hactive
    have hadm : admitAll existing batch = .ok _ := Replica.tryAddAll_completed hok
    rw [hadm, ← hops] at hmap
    have hcausal : Causal s.ops := hops ▸ inBytes.causal_map.mpr hc
    obtain ⟨fresh, hfresh, hpush⟩ := Space.push_ok hcausal hactive hbs hvalid hmap
    refine ⟨_, _, hpush, ?_⟩
    rw [Space.ops_acceptAll, ← hfresh]
  · exact Replica.tryAddAll_threw
  · intro a b ha hb
    exact (Bool.eq_iff_iff.mpr (same_bytes_iff ha hb)).symm

/-! ### A title with two corrections -/

def gate : Operation :=
  ⟨{ id := dart "0b000000-0000-4000-8000-00000000000a"
     record := dart "0c000000-0000-4000-8000-000000000002"
     field := dart "title", value := dart "Gate", parents := [] }, by decide⟩

def north : Operation :=
  ⟨{ gate.toOperation with
     id := dart "0b000000-0000-4000-8000-00000000000b"
     value := dart "North gate", parents := [gate.id] }, by decide⟩

def south : Operation :=
  ⟨{ gate.toOperation with
     id := dart "0b000000-0000-4000-8000-00000000000c"
     value := dart "South gate", parents := [gate.id] }, by decide⟩

theorem northTitles_causal : Causal [gate, north] := by
  have hfirst : Causal [gate] := Causal.snoc Causal.nil rfl fun p hp => by cases hp
  exact Causal.snoc hfirst (by decide) (by decide)

theorem southTitles_causal : Causal [gate, south] := by
  have hfirst : Causal [gate] := Causal.snoc Causal.nil rfl fun p hp => by cases hp
  exact Causal.snoc hfirst (by decide) (by decide)

/-- Both corrections. -/
def gateTitles : List Operation := [gate, north, south]

theorem gateTitles_causal : Causal gateTitles :=
  Causal.snoc northTitles_causal (by decide) (by decide)

/-- A batch with one replay and one new correction is taken by both sides. -/
theorem batches_agree_run : ∃ r : Replica, r.operations = [gate, north] ∧
    ((r.tryAddAll [gate, south]).1 = .ok () ↔
      validateBatch (fun id => find ([gate, north].map Operation.bytes) id)
        ([gate, south].map Operation.bytes) = .ok ()) := by
  obtain ⟨r, -, hr, hiff, -⟩ := @batches_agree _ [gate, south] northTitles_causal
    (by decide) (by decide) (by decide)
  exact ⟨r, hr, hiff⟩

/-! ### Frontiers -/

theorem respectsScope (record field : DartString) :
    RespectsScope fun o : Operation => ofField record field o.toOperation := by
  intro a b h
  obtain ⟨hr, hf⟩ := sameScope_iff.mp h
  simp only [ofField, hr, hf]

theorem respectsScope_bytes (record field : GoString) :
    RespectsScope (ofField record field : Domain.Operation GoString → Bool) := by
  intro a b h
  obtain ⟨hr, hf⟩ := Domain.sameScope_iff.mp h
  simp only [ofField, hr, hf]

/-- Only an ASCII string is read as one. -/
theorem toGo_eq_ascii {s t : DartString} (ht : ∀ u ∈ t, u.toNat < 128) :
    toGo s = toGo t ↔ s = t := by
  constructor
  · intro h
    have htext : utf16Lossy s = utf16Lossy t := utf8Encode_injective h
    have hwf := wellFormed_ascii ht
    have hchars : ∀ c ∈ utf16Lossy t, c.toNat < 128 := by
      refine ascii_of_utf16Encode ?_
      rwa [utf16Encode_utf16Lossy hwf]
    -- U+FFFD, which stands in for unpaired surrogates, is not ASCII.
    have hs : WellFormed s := by
      intro r hr
      cases r with
      | scalar c => rfl
      | unpaired u =>
          have hmem : '\uFFFD' ∈ utf16Lossy s := List.mem_map.mpr ⟨_, hr, rfl⟩
          exact absurd (hchars _ (htext ▸ hmem)) (by decide)
    exact (toGo_inj hs hwf).mp h
  · exact congrArg toGo

theorem ascii_id {s : DartString} (h : idPattern s = true) : ∀ u ∈ s, u.toNat < 128 :=
  fun _ hu => idChar_lt (uuidPattern_chars h _ (List.mem_map_of_mem hu))

theorem ascii_field {s : DartString} {n : Nat} (h : fieldLimits.lookup s = some n) :
    ∀ u ∈ s, u.toNat < 128 := by
  have hall : (fieldLimits.map Prod.fst).all
      (fun f => f.all fun u => decide (u.toNat < 128)) = true := by decide
  have hs := List.all_eq_true.mp hall s (mem_of_lookup h)
  exact fun u hu => of_decide_eq_true (List.all_eq_true.mp hs u hu)

/-- An operation belongs to the same field on both sides. -/
theorem ofField_bytes (record field : DartString) (o : Operation) :
    ofField (toGo record) (toGo field) o.bytes = ofField record field o.toOperation := by
  obtain ⟨n, hn, -⟩ := o.accepted.limit
  have hrecord : (toGo o.record = toGo record) ↔ o.record = record :=
    eq_comm.trans ((toGo_eq_ascii (ascii_id o.accepted.record)).trans eq_comm)
  have hfield : (toGo o.field = toGo field) ↔ o.field = field :=
    eq_comm.trans ((toGo_eq_ascii (ascii_field hn)).trans eq_comm)
  rw [Bool.eq_iff_iff]
  simp only [ofField, Bool.and_eq_true, beq_iff_eq]
  exact and_congr hrecord hfield

/-- The bytes of an ASCII string are its units. -/
theorem toGo_toNat {s : DartString} (h : ∀ u ∈ s, u.toNat < 128) :
    (toGo s).map UInt8.toNat = s.map UInt16.toNat := by
  have hs := utf16Encode_utf16Lossy (wellFormed_ascii h)
  have hchars : ∀ c ∈ utf16Lossy s, c.toNat < 128 := ascii_of_utf16Encode (hs.symm ▸ h)
  rw [toGo, utf8Encode_toNat hchars, ← utf16Encode_toNat hchars, hs]

/-- IDs are in the same order on both sides. -/
theorem toGo_lt {s t : DartString} (hs : idPattern s = true) (ht : idPattern t = true)
    (h : s < t) : toGo s < toGo t := by
  have hnat : s.map UInt16.toNat < t.map UInt16.toNat := List.map_lt (fun _ _ hxy => hxy) h
  rw [← toGo_toNat (ascii_id hs), ← toGo_toNat (ascii_id ht)] at hnat
  rcases lt_trichotomy (toGo s) (toGo t) with hlt | heq | hgt
  · exact hlt
  · rw [heq] at hnat
    exact absurd hnat (lt_irrefl _)
  · have hback : (toGo t).map UInt8.toNat < (toGo s).map UInt8.toNat :=
      List.map_lt (fun _ _ hxy => hxy) hgt
    exact absurd hnat (lt_asymm hback)

/-- Two lists in increasing order with the same elements are one. -/
theorem eq_of_increasing {σ : Type} [LinearOrder σ] {xs ys : List σ} (hx : xs.Pairwise (· < ·))
    (hy : ys.Pairwise (· < ·)) (h : ∀ a, a ∈ xs ↔ a ∈ ys) : xs = ys := by
  have hperm : xs.Perm ys := by
    refine (List.perm_ext_iff_of_nodup ?_ ?_).mpr h
    · exact hx.imp ne_of_lt
    · exact hy.imp ne_of_lt
  exact hperm.eq_of_pairwise (fun a b _ _ hab hba => absurd hab (lt_asymm hba)) hx hy

/-- **The two functions return the same IDs.** -/
theorem frontier_bytes {ops : List Operation} (hc : Causal ops) (record field : DartString) :
    (frontier ops record field).map (fun o => toGo o.id) =
      (Domain.frontier (ops.map Operation.bytes) (toGo record) (toGo field)).map
        Domain.Operation.id := by
  refine eq_of_increasing ?_ ?_ fun id => ?_
  · have hids : ((frontier ops record field).map fun o => o.id).Pairwise (· < ·) :=
      frontier_keys_lt hc.nodup _
    rw [List.pairwise_map] at hids ⊢
    refine hids.imp fun {a b} hab => ?_
    exact toGo_lt a.accepted.id b.accepted.id hab
  · exact frontier_keys_lt (inBytes.causal_map.mpr hc).nodup _
  · have hmem (b : Domain.Operation GoString) :
        b ∈ Domain.frontier (ops.map Operation.bytes) (toGo record) (toGo field) ↔
          ∃ a ∈ frontier ops record field, a.bytes = b :=
      inBytes.mem_frontier (ofField_bytes record field)
    simp only [List.mem_map]
    constructor
    · rintro ⟨o, ho, rfl⟩
      exact ⟨o.bytes, (hmem _).mpr ⟨o, ho, rfl⟩, rfl⟩
    · rintro ⟨b, hb, rfl⟩
      obtain ⟨o, ho, rfl⟩ := (hmem b).mp hb
      exact ⟨o, ho, rfl⟩

/-! ### Conflicts -/

/-- A set of a list has two elements when the list has two that differ. -/
theorem toSet_length {σ : Type} [DecidableEq σ] {xs : List σ} :
    (toSet xs).length > 1 ↔ ∃ x ∈ xs, ∃ y ∈ xs, x ≠ y := by
  have hn := toSet_nodup xs
  have hmem : ∀ x, x ∈ toSet xs ↔ x ∈ xs := fun x => mem_toSet
  generalize toSet xs = set at hn hmem
  constructor
  · intro hlen
    rcases set with _ | ⟨x, _ | ⟨y, rest⟩⟩
    · simp at hlen
    · simp at hlen
    · refine ⟨x, (hmem x).mp List.mem_cons_self, y, (hmem y).mp (by simp), fun hxy => ?_⟩
      subst hxy
      simp at hn
  · rintro ⟨x, hx, y, hy, hxy⟩
    rw [← hmem] at hx hy
    by_contra hlen
    rcases set with _ | ⟨z, _ | ⟨z', rest⟩⟩
    · cases hx
    · exact hxy ((List.mem_singleton.mp hx).trans (List.mem_singleton.mp hy).symm)
    · simp at hlen

/-- Two maximal operations of the field, neither made after the other, have different values. -/
def Contested (ops : List Operation) (record field : DartString) : Prop :=
  ∃ a b, Maximal ops (fun o => ofField record field o.toOperation) a ∧
    Maximal ops (fun o => ofField record field o.toOperation) b ∧
    ¬ Descends ops a b ∧ ¬ Descends ops b a ∧ a.value ≠ b.value

theorem mem_conflicts {ops : List Operation} (hc : Causal ops) {record field : DartString} :
    field ∈ (Inspection.of ops record).conflicts ↔ Contested ops record field := by
  have htips := hc.tips (respectsScope record field)
  have hmem : field ∈ (Inspection.of ops record).conflicts ↔
      field ∈ fieldLimits.map Prod.fst ∧
        (toSet ((frontier ops record field).map fun o => o.value)).length > 1 := by
    simp only [Inspection.conflicts, Inspection.of, (sortStrings_perm _).mem_iff, List.mem_map,
      List.mem_filter, decide_eq_true_eq]
    constructor
    · rintro ⟨-, ⟨⟨f, hf, rfl⟩, hlen⟩, rfl⟩
      exact ⟨⟨f, hf, rfl⟩, hlen⟩
    · rintro ⟨⟨f, hf, rfl⟩, hlen⟩
      exact ⟨_, ⟨⟨f, hf, rfl⟩, hlen⟩, rfl⟩
  rw [hmem, toSet_length]
  simp only [List.mem_map, exists_exists_and_eq_and]
  constructor
  · rintro ⟨-, a, ha, b, hb, hne⟩
    have ha' := (htips.mem a).mp ha
    have hb' := (htips.mem b).mp hb
    exact ⟨a, b, ha', hb', ha'.2.2 b, hb'.2.2 a, hne⟩
  · rintro ⟨a, b, ha, hb, -, -, hne⟩
    refine ⟨?_, a, (htips.mem a).mpr ha, b, (htips.mem b).mpr hb, hne⟩
    -- The field of an operation is one of the table.
    obtain ⟨n, hn, -⟩ := a.accepted.limit
    have hin := ha.2.1
    simp only [ofField, Bool.and_eq_true, beq_iff_eq] at hin
    exact List.mem_map.mp (hin.2 ▸ mem_of_lookup hn)

/-- **The frontier is the set of causally maximal operations.** For any causal list, in any
order, either function returns them in increasing order of their IDs, the two return the same
IDs, and an inspection lists a field as a conflict exactly when two of them, unrelated as they
are, have different values. -/
theorem frontier_maximal :
    (∀ ops : List (Domain.Operation GoString), Causal ops → ∀ record field : GoString,
      Tips ops (ofField record field) (Domain.frontier ops record field) ∧
      ∀ ops', ops.Perm ops' → Domain.frontier ops' record field = Domain.frontier ops record field) ∧
    ∀ ops : List Operation, Causal ops → ∀ record field : DartString,
      Tips ops (fun o => ofField record field o.toOperation) (frontier ops record field) ∧
      (∀ ops', ops.Perm ops' → frontier ops' record field = frontier ops record field) ∧
      (frontier ops record field).map (fun o => toGo o.id) =
        (Domain.frontier (ops.map Operation.bytes) (toGo record) (toGo field)).map
          Domain.Operation.id ∧
      ∀ (lower : DartString → DartString), ∀ i ∈ Inspection.project lower ops,
        field ∈ i.conflicts ↔ Contested ops i.id field := by
  constructor
  · intro ops hc record field
    refine ⟨hc.tips (respectsScope_bytes record field), fun ops' hperm => ?_⟩
    exact (frontier_perm hperm hc.nodup _).symm
  · intro ops hc record field
    refine ⟨hc.tips (respectsScope record field), fun ops' hperm => ?_, frontier_bytes hc _ _, ?_⟩
    · exact (frontier_perm hperm hc.nodup _).symm
    · intro lower i hi
      rw [Inspection.project, List.mem_insertionSort] at hi
      obtain ⟨id, -, rfl⟩ := List.mem_map.mp hi
      exact mem_conflicts hc

/-- Both corrections of the title are shown, and the title is a conflict. -/
theorem frontier_maximal_run : Contested gateTitles gate.record gate.field := by
  have hmem := (frontier_maximal.2 gateTitles gateTitles_causal gate.record gate.field).2.2.2 id
  have hproject : Inspection.of gateTitles gate.record ∈ Inspection.project id gateTitles := by
    rw [Inspection.project, List.mem_insertionSort]
    exact List.mem_map_of_mem (by decide)
  exact (hmem _ hproject).mp (by decide)

end Syncraft.Field
