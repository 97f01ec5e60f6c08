import Mathlib.Data.List.Basic
import Mathlib.Data.List.Induction
import Mathlib.Data.List.Sort

/-!
# Syncraft.Library.Numbered

**Lists that number their elements from one.** Logs give every entry the next number, and
readers ask for what comes after a number: on a numbered list that is a `drop`, whether the
list is cut by position or filtered by number.
-/

namespace Syncraft

variable {β : Type} {f : β → Nat}

/-- The elements are numbered 1, 2, 3, … in order. -/
def Numbered (f : β → Nat) (xs : List β) : Prop := ∀ (i : Nat) (h : i < xs.length), f xs[i] = i + 1

theorem Numbered.nil : Numbered f [] := fun i h => absurd h (Nat.not_lt_zero i)

/-- The next element gets the next number. -/
theorem Numbered.snoc {xs : List β} {x : β} (h : Numbered f xs) (hx : f x = xs.length + 1) :
    Numbered f (xs ++ [x]) := by
  intro i hi
  by_cases hlt : i < xs.length
  · rw [List.getElem_append_left hlt]
    exact h i hlt
  · have hil : i = xs.length := by simp at hi; omega
    subst hil
    simpa using hx

theorem Numbered.init {xs ys : List β} (h : Numbered f (xs ++ ys)) : Numbered f xs := by
  intro i hi
  have := h i (by simp; omega)
  rwa [List.getElem_append_left hi] at this

/-- Inverting a numbered list at its end. -/
theorem Numbered.last {xs : List β} {x : β} (h : Numbered f (xs ++ [x])) : f x = xs.length + 1 := by
  have := h xs.length (by simp)
  simpa using this

theorem Numbered.map {γ : Type} {g : γ → Nat} {c : β → γ} {xs : List β} (h : Numbered f xs)
    (hc : ∀ x ∈ xs, g (c x) = f x) : Numbered g (xs.map c) := by
  intro i hi
  rw [List.getElem_map, hc _ (List.getElem_mem _)]
  exact h i (by simpa using hi)

/-- The numbers are 1 to the length. -/
theorem Numbered.numbers {xs : List β} (h : Numbered f xs) :
    xs.map f = List.range' 1 xs.length := by
  refine List.ext_getElem (by simp) fun i hi hi' => ?_
  rw [List.getElem_map, h i (by simpa using hi), List.getElem_range']
  omega

theorem Numbered.le_length {xs : List β} (h : Numbered f xs) {x : β} (hx : x ∈ xs) :
    f x ≤ xs.length := by
  obtain ⟨i, hi, rfl⟩ := List.getElem_of_mem hx
  rw [h i hi]
  exact hi

/-- What comes after a number is what is left once that many are dropped. -/
theorem Numbered.filter_lt {xs : List β} (h : Numbered f xs) (a : Nat) :
    xs.filter (fun x => a < f x) = xs.drop a := by
  induction xs using List.reverseRecOn with
  | nil => simp
  | append_singleton xs x ih =>
      rw [List.filter_append, ih h.init, List.drop_append, List.filter_singleton, h.last]
      by_cases ha : a ≤ xs.length
      · have hz : a - xs.length = 0 := Nat.sub_eq_zero_of_le ha
        simp [Nat.lt_succ_of_le ha, hz]
      · have hn : ¬ a < xs.length + 1 := by omega
        have hd : ([x].drop (a - xs.length)) = [] := List.drop_eq_nil_of_le (by simp; omega)
        simp [hn, hd]

/-- A numbered list, or what is left of one, is in the order of its numbers. -/
theorem Numbered.drop_sorted {xs : List β} (h : Numbered f xs) (a : Nat) :
    (xs.drop a).insertionSort (fun x y => f x ≤ f y) = xs.drop a := by
  refine List.Pairwise.insertionSort_eq ?_
  refine List.Pairwise.sublist (List.drop_sublist a xs) (List.pairwise_iff_getElem.mpr ?_)
  intro i j hi hj hij
  rw [h i hi, h j hj]
  omega

end Syncraft
