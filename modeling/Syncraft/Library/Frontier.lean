import Mathlib.Data.List.Sort
import Syncraft.Library.CausalLog

/-!
# Syncraft.Library.Frontier

**Frontiers of a causal log.** Within a scope, the frontier is made of the nodes that no
node of the scope names as a parent, in the order of their keys. It depends on which nodes
the log holds and not on the order it holds them in (`frontier_perm`), and its keys do
not even depend on which of several `Same` nodes is held (`frontier_keys`).
-/

namespace Syncraft.CausalLog

open CausalNode (key parents)

universe u v

variable {α : Type u} {ι : Type v} [CausalNode α ι]

/-- The keys that nodes of the scope name as parents. -/
def superseded (log : List α) (inScope : α → Bool) : List ι := (log.filter inScope).flatMap parents

theorem mem_superseded {log : List α} {inScope : α → Bool} {k : ι} :
    k ∈ superseded log inScope ↔ ∃ b ∈ log, inScope b = true ∧ k ∈ parents b := by
  simp only [superseded, List.mem_flatMap, List.mem_filter, and_assoc]

variable [LinearOrder ι]

/-- Nodes are compared by their keys. -/
def keyLe (a b : α) : Prop := key a ≤ key b

instance : DecidableRel (keyLe (α := α)) := fun a b => inferInstanceAs (Decidable (key a ≤ key b))

instance : Std.Total (keyLe (α := α)) := ⟨fun a b => le_total (key a) (key b)⟩

instance : IsTrans α keyLe := ⟨fun _ _ _ => le_trans⟩

/-- The nodes of the scope that no node of it supersedes, by key. -/
def frontier (log : List α) (inScope : α → Bool) : List α :=
  ((log.filter inScope).filter (fun a => !(superseded log inScope).contains (key a))).insertionSort
    keyLe

theorem mem_frontier {log : List α} {inScope : α → Bool} {a : α} :
    a ∈ frontier log inScope ↔
      a ∈ log ∧ inScope a = true ∧ ∀ b ∈ log, inScope b = true → key a ∉ parents b := by
  rw [frontier, List.mem_insertionSort, List.mem_filter, List.mem_filter, Bool.not_eq_true',
    List.contains_eq_mem, decide_eq_false_iff_not, mem_superseded, and_assoc]
  simp only [not_exists, not_and]

/-- A frontier is in the order of its keys. -/
theorem frontier_sorted (log : List α) (inScope : α → Bool) :
    (frontier log inScope).Pairwise keyLe :=
  List.pairwise_insertionSort _ _

theorem frontier_keys_nodup {log : List α} (h : (log.map key).Nodup) (inScope : α → Bool) :
    ((frontier log inScope).map key).Nodup := by
  have hsub : (((log.filter inScope).filter fun a =>
      !(superseded log inScope).contains (key a)).map key).Nodup :=
    h.sublist ((List.filter_sublist.trans List.filter_sublist).map key)
  exact ((List.perm_insertionSort _ _).map key).nodup_iff.mpr hsub

/-- Two frontiers with the same keys in them list the same keys. -/
theorem frontier_keys_eq {log log' : List α} {inScope inScope' : α → Bool}
    (hn : (log.map key).Nodup) (hn' : (log'.map key).Nodup)
    (h : ∀ k, k ∈ (frontier log inScope).map key ↔ k ∈ (frontier log' inScope').map key) :
    (frontier log inScope).map key = (frontier log' inScope').map key := by
  refine List.Perm.eq_of_pairwise (fun a b _ _ (h : a ≤ b) => le_antisymm h) ?_ ?_ ?_
  · exact List.pairwise_map.mpr (frontier_sorted log inScope)
  · exact List.pairwise_map.mpr (frontier_sorted log' inScope')
  · exact (List.perm_ext_iff_of_nodup (frontier_keys_nodup hn _) (frontier_keys_nodup hn' _)).mpr h

/-- The order a log holds its nodes in does not show in its frontiers. -/
theorem frontier_perm {log log' : List α} (hperm : log.Perm log') (hn : (log.map key).Nodup)
    (inScope : α → Bool) : frontier log inScope = frontier log' inScope := by
  have hsup : ∀ k : ι, k ∈ superseded log inScope ↔ k ∈ superseded log' inScope := by
    intro k
    simp only [mem_superseded, hperm.mem_iff]
  have hfil : (log.filter inScope).filter (fun a => !(superseded log inScope).contains (key a)) =
      (log.filter inScope).filter (fun a => !(superseded log' inScope).contains (key a)) :=
    List.filter_congr fun a _ => by simp only [List.contains_eq_mem, hsup]
  have hp : (frontier log inScope).Perm (frontier log' inScope) := by
    unfold frontier
    rw [hfil]
    exact (List.perm_insertionSort _ _).trans
      (((hperm.filter _).filter _).trans (List.perm_insertionSort _ _).symm)
  refine List.Perm.eq_of_pairwise ?_ (frontier_sorted _ _) (frontier_sorted _ _) hp
  intro a b ha hb hab hba
  have hb' := hp.mem_iff.mpr hb
  exact List.inj_on_of_nodup_map (frontier_keys_nodup hn inScope) ha hb' (le_antisymm hab hba)

/-- **Frontiers are stable under retransmission.** Two logs that hold the same nodes up to
`Same`, each once, have the same frontier keys in every scope that `Same` respects. -/
theorem frontier_keys {log log' : List α} (hn : (log.map key).Nodup) (hn' : (log'.map key).Nodup)
    (hsub : ∀ a ∈ log, ∃ b ∈ log', Same a b) (hsub' : ∀ b ∈ log', ∃ a ∈ log, Same b a)
    {inScope : α → Bool} (hscope : ∀ a b : α, Same a b → inScope a = inScope b) :
    (frontier log inScope).map key = (frontier log' inScope).map key := by
  -- Either side's frontier nodes are, up to `Same`, frontier nodes of the other.
  have half : ∀ {l l' : List α}, (∀ a ∈ l, ∃ b ∈ l', Same a b) → (∀ b ∈ l', ∃ a ∈ l, Same b a) →
      ∀ k, k ∈ (frontier l inScope).map key → k ∈ (frontier l' inScope).map key := by
    intro l l' hll' hl'l k hk
    obtain ⟨a, ha, rfl⟩ := List.mem_map.mp hk
    obtain ⟨hmem, hin, hmax⟩ := mem_frontier.mp ha
    obtain ⟨a', hmem', hsame⟩ := hll' a hmem
    have hkey := CausalNode.key_of_same hsame
    refine List.mem_map.mpr ⟨a', mem_frontier.mpr ⟨hmem', ?_, ?_⟩, hkey.symm⟩
    · rw [← hscope a a' hsame]; exact hin
    · intro b' hb' hbin hpar
      obtain ⟨b, hb, hbb⟩ := hl'l b' hb'
      refine hmax b hb ?_ ?_
      · rw [← hscope b' b hbb]; exact hbin
      · rw [hkey]
        exact (CausalNode.parents_of_same hbb _).mp hpar
  exact frontier_keys_eq hn hn' fun k => ⟨half hsub hsub' k, half hsub' hsub k⟩

end Syncraft.CausalLog
