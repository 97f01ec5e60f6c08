import Syncraft.Library.Join
import Syncraft.Field.Agreement

/-!
# Syncraft.Field.Resolution

What becomes of a field's frontier when work is resolved and when replicas are merged.

`WorkspaceController.edit` saves an operation whose parents are the IDs it was shown. It takes
the place of what was shown, on every replica it reaches, whatever has arrived meanwhile
(`resolution_supersedes`). `merge` adds the operations of another replica. As sets of
operations, told apart by `equivalent`, replicas are joined by it (`merge_join`).
-/

namespace Syncraft.Field

open JsonText CausalLog
open Domain (ofField)

/-! ### Resolution -/

/-- A field's own operations share its scope. -/
theorem sameScope_of_field {o r : Operation}
    (h : ofField r.record r.field o.toOperation = true) : SameScope o r := by
  simpa [ofField, sameScope_iff] using h

theorem sameScope_of_field_bytes {o r : Domain.Operation GoString}
    (h : ofField r.record r.field o = true) : SameScope o r := by
  simpa [ofField, Domain.sameScope_iff] using h

/-- An operation belongs to no field but its own. -/
theorem ofField_other {σ : Type} [DecidableEq σ] {r : Domain.Operation σ} {record field : σ}
    (h : ¬ (record = r.record ∧ field = r.field)) : ofField record field r = false := by
  rw [Bool.eq_false_iff]
  intro hin
  simp only [ofField, Bool.and_eq_true, beq_iff_eq] at hin
  exact h ⟨hin.1.symm, hin.2.symm⟩

theorem ofField_self {σ : Type} [DecidableEq σ] (r : Domain.Operation σ) :
    ofField r.record r.field r = true := by
  simp [ofField]

theorem ofField_of_same (record field : DartString) (a b : Operation) (h : Same a b) :
    ofField record field a.toOperation = ofField record field b.toOperation :=
  respectsScope record field a b h.scope

/-- **Resolution supersedes what was observed and nothing else.** `seen` is what the dialog
showed, `log` what is there when the resolution `r` arrives, and `after` a list with `r` in it
at any place. Any other replica that holds the same operations shows the same frontiers. -/
theorem resolution_supersedes :
    (∀ (seen log : List Operation) (r : Operation), Causal seen → Causal log →
      (∀ o ∈ seen, o ∈ log) → (∀ o ∈ log, o.id ≠ r.id) →
      (∀ p, p ∈ r.parents ↔ p ∈ (frontier seen r.record r.field).map fun o => o.id) →
      Causal (log ++ [r]) ∧ ∀ after, after.Perm (log ++ [r]) →
        Resolved seen log after r (fun o => ofField r.record r.field o.toOperation) ∧
        (∀ record field, ¬ (record = r.record ∧ field = r.field) →
          frontier after record field = frontier log record field) ∧
        ∀ other, Causal other → (∀ o, Held other o ↔ Held after o) → ∀ record field,
          (frontier other record field).map (fun o => o.id) =
            (frontier after record field).map fun o => o.id) ∧
    ∀ (seen log : List (Domain.Operation GoString)) (r : Domain.Operation GoString),
      Causal seen → Causal log → (∀ o ∈ seen, o ∈ log) → (∀ o ∈ log, o.id ≠ r.id) →
      (∀ p, p ∈ r.parents ↔ p ∈ (Domain.frontier seen r.record r.field).map fun o => o.id) →
      Causal (log ++ [r]) ∧ ∀ after, after.Perm (log ++ [r]) →
        Resolved seen log after r (ofField r.record r.field) ∧
        (∀ record field, ¬ (record = r.record ∧ field = r.field) →
          Domain.frontier after record field = Domain.frontier log record field) ∧
        ∀ other, Causal other → (∀ o, Held other o ↔ Held after o) → ∀ record field,
          (Domain.frontier other record field).map (fun o => o.id) =
            (Domain.frontier after record field).map fun o => o.id := by
  constructor
  · intro seen log r _ hc hsub hnew hparents
    have hlast := hc.snoc_resolution hsub hnew hparents fun o => sameScope_of_field
    refine ⟨hlast, fun after hafter => ?_⟩
    have hn := (hafter.map CausalNode.key).nodup_iff.mpr hlast.nodup
    refine ⟨hc.resolved hsub (ofField_self r.toOperation) hnew hparents hafter, ?_, ?_⟩
    · intro record field hother
      exact frontier_other (ofField_other hother) hn hafter
    · intro other ho hheld record field
      exact frontier_keys_of_held ho.nodup hn hheld (ofField_of_same record field)
  · intro seen log r _ hc hsub hnew hparents
    have hlast := hc.snoc_resolution hsub hnew hparents fun o => sameScope_of_field_bytes
    refine ⟨hlast, fun after hafter => ?_⟩
    have hn := (hafter.map CausalNode.key).nodup_iff.mpr hlast.nodup
    refine ⟨hc.resolved hsub (ofField_self r) hnew hparents hafter, ?_, ?_⟩
    · intro record field hother
      exact frontier_other (ofField_other hother) hn hafter
    · intro other ho hheld record field
      exact frontier_keys_of_held ho.nodup hn hheld (Domain.ofField_same record field)

/-- A title made after the south one. -/
def resolved : Operation :=
  ⟨{ gate.toOperation with
     id := dart "0b000000-0000-4000-8000-00000000000d"
     value := dart "Delivery gate", parents := [south.id] }, by decide⟩

/-- The south title is resolved by somebody who has not seen the north one. -/
theorem resolution_supersedes_run :
    north ∈ frontier (gateTitles ++ [resolved]) resolved.record resolved.field ∧
      south ∉ frontier (gateTitles ++ [resolved]) resolved.record resolved.field := by
  have hparents : resolved.parents =
      (frontier [gate, south] resolved.record resolved.field).map fun o => o.id := by
    decide
  obtain ⟨-, hall⟩ := resolution_supersedes.1 [gate, south] gateTitles resolved
    southTitles_causal gateTitles_causal (by decide) (by decide)
    fun p => by rw [hparents]
  obtain ⟨⟨-, hgone, hsurvives⟩, -, -⟩ := hall _ (List.Perm.refl _)
  exact ⟨hsurvives north (by decide) (by decide),
    hgone south (by simp) (by decide)⟩

/-! ### Merge -/

/-- The JSON text that `equivalent` compares. -/
def Operation.canonical (o : Operation) : Domain.Operation Literal := jsonEncode o.toJson

/-- The operations of a list as a set, told apart by `equivalent`. -/
def contents (ops : List Operation) : Set (Domain.Operation Literal) :=
  {c | ∃ o ∈ ops, o.canonical = c}

theorem same_iff_canonical {a b : Operation} : Same a b ↔ a.canonical = b.canonical := by
  rw [same_iff, Operation.equivalent, beq_iff_eq, Operation.canonical, Operation.canonical]

theorem canonical_mem_contents {ops : List Operation} {o : Operation} :
    o.canonical ∈ contents ops ↔ Held ops o :=
  exists_congr fun _ => and_congr_right fun _ => same_iff_canonical.symm

/-- Sets of operations are compared by the operations they hold. -/
theorem contents_eq {ops : List Operation} {set : Set (Domain.Operation Literal)}
    (hset : ∀ c ∈ set, ∃ o : Operation, o.canonical = c)
    (h : ∀ o : Operation, Held ops o ↔ o.canonical ∈ set) : contents ops = set := by
  ext c
  constructor
  · rintro ⟨o, ho, rfl⟩
    exact (h o).mp ⟨o, ho, Same.refl o⟩
  · intro hc
    obtain ⟨o, rfl⟩ := hset c hc
    exact canonical_mem_contents.mpr ((h o).mpr hc)

theorem contents_canonical {ops : List Operation} {c : Domain.Operation Literal}
    (h : c ∈ contents ops) : ∃ o : Operation, o.canonical = c := by
  obtain ⟨o, -, ho⟩ := h
  exact ⟨o, ho⟩

/-- Two replicas bind no ID to different contents. -/
def Replica.Compatible (a b : Replica) : Prop :=
  ∀ x ∈ a.operations, ∀ y ∈ b.operations, x.id = y.id → x.equivalent y = true

instance (a b : Replica) : Decidable (a.Compatible b) :=
  inferInstanceAs (Decidable (∀ x ∈ a.operations, ∀ y ∈ b.operations, x.id = y.id → _ = true))

/-- What a merge makes of compatible replicas. -/
theorem Replica.tryMerge_ok {a b : Replica} (h : a.Compatible b) :
    ∃ m, a.tryMerge b = (.ok (), m) ∧ admitAll a.operations b.operations = .ok m.operations := by
  obtain ⟨log, hlog⟩ := admitAll_join a.causal b.causal h
  obtain ⟨m, htry, rfl⟩ := Replica.tryAddAll_admitted hlog
  exact ⟨m, htry, hlog⟩

/-- A replica merged into itself stays as it is. -/
theorem Replica.tryMerge_self (a : Replica) : a.tryMerge a = (.ok (), a) := by
  have hreplay : admitAll a.operations a.operations = .ok a.operations :=
    admitAll_replay fun o ho => ⟨o, a.causal.find_of_mem ho, Same.refl o⟩
  obtain ⟨m, htry, hm⟩ := Replica.tryAddAll_admitted hreplay
  rw [Replica.tryMerge, htry, Replica.ext hm]

/-- A merge that is refused. -/
theorem Replica.tryMerge_conflict {a b : Replica} (h : ¬ a.Compatible b) :
    a.tryMerge b = (.error (.format "Immutable operation ID collision"), a) :=
  Replica.tryAddAll_rejected (admitAll_incompatible a.causal b.causal h)

/-- The operations after a merge are the union. -/
theorem contents_merge {a b m : Replica}
    (h : admitAll a.operations b.operations = .ok m.operations) :
    contents m.operations = contents a.operations ∪ contents b.operations := by
  refine contents_eq ?_ fun o => ?_
  · rintro c (hc | hc) <;> exact contents_canonical hc
  · rw [held_admitAll h, Set.mem_union, canonical_mem_contents, canonical_mem_contents]

/-- The frontiers after a merge. -/
theorem contents_frontier_merge {a b m : Replica} (hab : a.Compatible b)
    (h : admitAll a.operations b.operations = .ok m.operations) (record field : DartString) :
    contents (frontier m.operations record field) =
      {c | c ∈ contents (frontier a.operations record field) ∧
        (c ∈ contents (frontier b.operations record field) ∨ c ∉ contents b.operations)} ∪
      {c | c ∈ contents (frontier b.operations record field) ∧
        (c ∈ contents (frontier a.operations record field) ∨ c ∉ contents a.operations)} := by
  refine contents_eq ?_ fun o => ?_
  · rintro c (⟨hc, -⟩ | ⟨hc, -⟩) <;> exact contents_canonical hc
  · have hjoin := held_frontier_join a.causal b.causal hab h (ofField_of_same record field) (x := o)
    simp only [Set.mem_union, Set.mem_ofPred_eq, canonical_mem_contents]
    exact hjoin

/-- **Merging replicas is a join.** Replicas that bind no ID to different contents merge, into
the union of their operations; on sets of operations, merging is commutative, associative and
idempotent; and a merged frontier is made of what both sides show and of what one side shows
and the other has never seen. Other replicas are refused, and nothing changes. -/
theorem merge_join (a b : Replica) :
    (a.Compatible b → ∃ m, a.tryMerge b = (.ok (), m) ∧
      contents m.operations = contents a.operations ∪ contents b.operations ∧
      (∃ m', b.tryMerge a = (.ok (), m') ∧ contents m'.operations = contents m.operations) ∧
      a.tryMerge a = (.ok (), a) ∧
      (∀ c : Replica, a.Compatible c → b.Compatible c →
        ∃ bc left right, m.tryMerge c = (.ok (), left) ∧ b.tryMerge c = (.ok (), bc) ∧
          a.tryMerge bc = (.ok (), right) ∧ contents left.operations = contents right.operations) ∧
      ∀ record field, contents (frontier m.operations record field) =
        {c | c ∈ contents (frontier a.operations record field) ∧
          (c ∈ contents (frontier b.operations record field) ∨ c ∉ contents b.operations)} ∪
        {c | c ∈ contents (frontier b.operations record field) ∧
          (c ∈ contents (frontier a.operations record field) ∨ c ∉ contents a.operations)}) ∧
    (¬ a.Compatible b →
      a.tryMerge b = (.error (.format "Immutable operation ID collision"), a)) := by
  refine ⟨fun hab => ?_, Replica.tryMerge_conflict⟩
  have hba : b.Compatible a := CausalLog.Compatible.symm hab
  obtain ⟨m, htry, hm⟩ := Replica.tryMerge_ok hab
  have hunion := contents_merge hm
  refine ⟨m, htry, hunion, ?_, ?_, ?_, contents_frontier_merge hab hm⟩
  · obtain ⟨m', htry', hm'⟩ := Replica.tryMerge_ok hba
    exact ⟨m', htry', by rw [contents_merge hm', hunion, Set.union_comm]⟩
  · exact a.tryMerge_self
  · intro c hac hbc
    have hmc : m.Compatible c := CausalLog.Compatible.join hm hac hbc
    obtain ⟨left, hleft, hl⟩ := Replica.tryMerge_ok hmc
    obtain ⟨bc, htbc, hbc'⟩ := Replica.tryMerge_ok hbc
    have habc : bc.Compatible a :=
      CausalLog.Compatible.join hbc' hba (CausalLog.Compatible.symm hac)
    obtain ⟨right, hright, hr⟩ := Replica.tryMerge_ok (CausalLog.Compatible.symm habc)
    refine ⟨bc, left, right, hleft, htbc, hright, ?_⟩
    rw [contents_merge hl, contents_merge hr, hunion, contents_merge hbc', Set.union_assoc]

/-- Two inspectors who have corrected a title merge their replicas. -/
theorem merge_join_run :
    ∃ m, Replica.tryMerge ⟨_, northTitles_causal⟩ ⟨_, southTitles_causal⟩ = (.ok (), m) ∧
      contents m.operations = contents [gate, north] ∪ contents [gate, south] := by
  obtain ⟨m, htry, hunion, -⟩ :=
    (merge_join ⟨_, northTitles_causal⟩ ⟨_, southTitles_causal⟩).1 (by decide)
  exact ⟨m, htry, hunion⟩

end Syncraft.Field
