import Mathlib.Data.List.Dedup
import Syncraft.Library.Frontier
import Syncraft.Field.Operation

/-!
# Syncraft.Field.Inspection

`lib/domain/inspection.dart`: what the field application shows of its operations. A projection
depends on which operations there are and not on the order they are in
(`Inspection.of_perm`, `project_perm`).
-/

namespace Syncraft.Field

open CausalLog Domain

/-- A Dart set made of a list lists each element once, where it first occurs. -/
def toSet {σ : Type} [DecidableEq σ] (xs : List σ) : List σ := xs.reverse.dedup.reverse

theorem mem_toSet {σ : Type} [DecidableEq σ] {xs : List σ} {x : σ} : x ∈ toSet xs ↔ x ∈ xs := by
  simp [toSet]

theorem toSet_nodup {σ : Type} [DecidableEq σ] (xs : List σ) : (toSet xs).Nodup :=
  List.nodup_reverse.mpr (List.nodup_dedup _)

/-- `Inspection`: the frontier of every field of a record. -/
structure Inspection where
  id : DartString
  fields : List (DartString × List Operation)
  deriving DecidableEq

namespace Inspection

/-- `value` -/
def value (i : Inspection) (field fallback : DartString) : DartString :=
  match (i.fields.lookup field).bind List.head? with
  | some o => o.value
  | none => fallback

/-- `title` -/
def title (i : Inspection) : DartString := i.value (dart "title") (dart "Untitled inspection")

/-- `site` -/
def site (i : Inspection) : DartString := i.value (dart "site") (dart "Unspecified site")

/-- `status` -/
def status (i : Inspection) : DartString := i.value (dart "status") (dart "draft")

/-- `priority` -/
def priority (i : Inspection) : DartString := i.value (dart "priority") (dart "normal")

/-- `archived` -/
def archived (i : Inspection) : Bool :=
  match i.fields.lookup (dart "archived") with
  | some ops => ops.any fun o => o.value == dart "true"
  | none => false

/-- `conflicts` -/
def conflicts (i : Inspection) : List DartString :=
  sortStrings ((i.fields.filter fun e => decide ((toSet (e.2.map fun o => o.value)).length > 1)).map
    Prod.fst)

/-- `checked` -/
def checked (i : Inspection) : Nat :=
  ([dart "check.safety", dart "check.equipment", dart "check.access"].filter fun f =>
    i.value f [] == dart "true" && !i.conflicts.contains f).length

/-- The inspection of one record, as `project` builds it. -/
def of (ops : List Operation) (id : DartString) : Inspection :=
  { id, fields := fieldLimits.map fun f => (f.1, frontier ops id f.1) }

/-- `project`. `lower` is Dart's `toLowerCase`. Inspections of one title stand in the order
their records first occur in; Dart's sort promises no order for them. -/
def project (lower : DartString → DartString) (ops : List Operation) : List Inspection :=
  ((toSet (ops.map fun o => o.record)).map (of ops)).insertionSort
    fun a b => lower a.title ≤ lower b.title

/-- Of a record, the order of the operations does not show. -/
theorem of_perm {ops ops' : List Operation} (hperm : ops.Perm ops')
    (hn : (ops.map fun o => o.id).Nodup) : of ops = of ops' := by
  have hfrontier : ∀ record field : DartString, frontier ops record field = frontier ops' record field :=
    fun record field => frontier_perm hperm hn _
  funext id
  simp only [of, hfrontier]

/-- **Projections do not depend on the order of arrival.** -/
theorem project_perm {ops ops' : List Operation} (hperm : ops.Perm ops')
    (hn : (ops.map fun o => o.id).Nodup) (lower : DartString → DartString) :
    (project lower ops).Perm (project lower ops') := by
  have hrecords : (toSet (ops.map fun o => o.record)).Perm (toSet (ops'.map fun o => o.record)) := by
    refine (List.perm_ext_iff_of_nodup (toSet_nodup _) (toSet_nodup _)).mpr fun r => ?_
    simp only [mem_toSet]
    exact (hperm.map _).mem_iff
  rw [project, project, of_perm hperm hn]
  exact (List.perm_insertionSort _ _).trans
    ((hrecords.map _).trans (List.perm_insertionSort _ _).symm)

end Inspection

end Syncraft.Field
