import Mathlib.Data.Finset.Basic
import Mathlib.Logic.Relation

/-!
# Syncraft.Library.Descent

What some steps can lead to. A goal can be reached if something can be done towards it in every
state (`reaches_by_descent`), and several goals if each can be reached without losing those that
have been (`reaches_all`).
-/

namespace Syncraft.Library

variable {σ : Type*} {δ : Type} {R : σ → σ → Prop} {P Q : σ → Prop}

/-- **A goal that gets nearer is reached.** `m` says how far it is. -/
theorem reaches_by_descent (m : σ → Nat)
    (h : ∀ s, P s → ∃ t, Relation.ReflTransGen R s t ∧ P t ∧ (Q t ∨ m t < m s)) {s : σ} (hs : P s) :
    ∃ t, Relation.ReflTransGen R s t ∧ P t ∧ Q t := by
  induction hn : m s using Nat.strongRecOn generalizing s with
  | ind n ih =>
      obtain ⟨t, hst, ht, hgoal | hless⟩ := h s hs
      · exact ⟨t, hst, ht, hgoal⟩
      · obtain ⟨u, htu, hu, hgoal⟩ := ih (m t) (hn ▸ hless) ht rfl
        exact ⟨u, hst.trans htu, hu, hgoal⟩

/-- **Goals that do not get in each other's way are reached together.** -/
theorem reaches_all [DecidableEq δ] (goal : δ → σ → Prop) (is : Finset δ)
    (h : ∀ i ∈ is, ∀ s, P s → ∃ t, Relation.ReflTransGen R s t ∧ P t ∧ goal i t ∧
      ∀ j, goal j s → goal j t) {s : σ} (hs : P s) :
    ∃ t, Relation.ReflTransGen R s t ∧ P t ∧ ∀ i ∈ is, goal i t := by
  induction is using Finset.induction with
  | empty => exact ⟨s, .refl, hs, fun i hi => absurd hi (Finset.notMem_empty i)⟩
  | insert i rest _ ih =>
      obtain ⟨t, hst, ht, hreached⟩ := ih fun j hj => h j (Finset.mem_insert_of_mem hj)
      obtain ⟨u, htu, hu, hgoal, hkept⟩ := h i (Finset.mem_insert_self i rest) t ht
      refine ⟨u, hst.trans htu, hu, fun j hj => ?_⟩
      rcases Finset.mem_insert.mp hj with rfl | hj
      · exact hgoal
      · exact hkept j (hreached j hj)

end Syncraft.Library
