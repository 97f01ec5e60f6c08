import Mathlib.Data.List.AList
import Mathlib.Order.Lattice
import Mathlib.Order.Monotone.Basic
import Mathlib.Tactic.Common

/-!
# Syncraft.Library.FixedWindow

Counting in fixed windows. A window opens at the first time that is counted after the window
before has ended, takes up to `limit` times, and ends at the `deadline` of its start. How many
times fall between any `t` and its deadline? No more than two windows take part, so at most
twice the limit (`Windows.countP_le`). Times are of any linear order, and deadlines come in the
order of their starts.

The second half is about tables whose entries expire: `keep` leaves out the entries that do
not satisfy a condition.
-/

namespace Syncraft.Library

/-! ### One counter -/

section Windows

variable {T : Type} [LinearOrder T]

/-- The times counted, the start of the last window, and how many times it has taken. -/
inductive Windows (deadline : T → T) (limit : Nat) : List T → T → Nat → Prop where
  | first (t : T) : 0 < limit → Windows deadline limit [t] t 1
  | same {times : List T} {start t : T} {n : Nat} : Windows deadline limit times start n →
      start ≤ t → t ≤ deadline start → n < limit → Windows deadline limit (times ++ [t]) start (n + 1)
  | next {times : List T} {start t : T} {n : Nat} : Windows deadline limit times start n →
      deadline start < t → 0 < limit → Windows deadline limit (times ++ [t]) t 1

namespace Windows

variable {deadline : T → T} {limit : Nat} {times : List T} {start : T} {n : Nat}

theorem count_le (h : Windows deadline limit times start n) : n ≤ limit := by
  cases h with
  | first _ hl | next _ _ hl => exact hl
  | same _ _ _ hn => exact hn

theorem le_deadline (hd : ∀ t, t ≤ deadline t) (h : Windows deadline limit times start n) :
    ∀ a ∈ times, a ≤ deadline start := by
  induction h with
  | first t _ => simpa using hd t
  | same _ _ hle _ ih => simpa [or_imp, forall_and, hle] using ih
  | @next _ _ t _ _ hlt _ ih =>
      have hold : ∀ a ∈ _, a ≤ deadline t := fun a ha => (ih a ha).trans (hlt.le.trans (hd t))
      simpa [or_imp, forall_and, hd t] using hold

/-- The last window has taken the times since its start. -/
theorem countP_since (hd : ∀ t, t ≤ deadline t) (h : Windows deadline limit times start n) :
    times.countP (fun a => start ≤ a) = n := by
  induction h with
  | first t _ => simp
  | same _ hle _ _ ih => simp [List.countP_append, ih, hle]
  | @next times _ t _ hw hlt _ _ =>
      have hnone : times.countP (fun a => t ≤ a) = 0 := by
        rw [List.countP_eq_zero]
        intro a ha
        simpa using (le_deadline hd hw a ha).trans_lt hlt
      simp [List.countP_append, hnone]

/-- Of the times before the last window, those whose deadline it has come to are of one window. -/
theorem countP_before (hm : Monotone deadline) (hd : ∀ t, t ≤ deadline t)
    (h : Windows deadline limit times start n) :
    times.countP (fun a => a < start ∧ start ≤ deadline a) ≤ limit := by
  induction h with
  | first t _ => simp
  | same _ hle _ _ ih =>
      rw [List.countP_append]
      simpa [hle.not_gt] using ih
  | @next times start t _ hw hlt _ _ =>
      -- They lie in the window that has just ended.
      have hsub : times.countP (fun a => a < t ∧ t ≤ deadline a) ≤
          times.countP (fun a => start ≤ a) := by
        apply List.countP_mono_left
        intro a _ ha
        simp only [decide_eq_true_eq] at ha ⊢
        by_contra hlt'
        exact absurd (ha.2.trans (hm (not_le.mp hlt').le)) hlt.not_ge
      rw [countP_since hd hw] at hsub
      simpa [List.countP_append] using hsub.trans hw.count_le

omit [LinearOrder T] in
/-- What satisfies one of two conditions is counted under one of them. -/
theorem countP_le_add {p q r : T → Bool} (times : List T)
    (h : ∀ a ∈ times, p a = true → q a = true ∨ r a = true) :
    times.countP p ≤ times.countP q + times.countP r := by
  induction times with
  | nil => simp
  | cons a times ih =>
      have hrest := ih fun b hb => h b (List.mem_cons_of_mem _ hb)
      have ha := h a List.mem_cons_self
      simp only [List.countP_cons]
      cases hp : p a
      · simp only [Bool.false_eq_true, if_false]
        omega
      · rcases ha hp with hq | hr
        · simp only [hq, if_true]
          omega
        · simp only [hr, if_true]
          omega

/-- Times up to a deadline that the last window has come to are of that window or of the one
before. -/
theorem countP_le_of_le (hm : Monotone deadline) (hd : ∀ t, t ≤ deadline t)
    (h : Windows deadline limit times start n) {t : T} (ht : start ≤ deadline t) :
    times.countP (fun a => t ≤ a ∧ a ≤ deadline t) ≤ 2 * limit := by
  have hsplit : times.countP (fun a => t ≤ a ∧ a ≤ deadline t) ≤
      times.countP (fun a => start ≤ a) +
        times.countP (fun a => a < start ∧ start ≤ deadline a) := by
    apply countP_le_add
    intro a _ ha
    simp only [decide_eq_true_eq] at ha ⊢
    rcases le_or_gt start a with hle | hlt
    · exact .inl hle
    · exact .inr ⟨hlt, ht.trans (hm ha.1)⟩
  rw [countP_since hd h] at hsplit
  have hlast := h.count_le
  have hbefore := countP_before hm hd h
  omega

/-- **Two windows.** Between a time and its deadline at most twice the limit is counted. -/
theorem countP_le (hm : Monotone deadline) (hd : ∀ t, t ≤ deadline t)
    (h : Windows deadline limit times start n) (t : T) :
    times.countP (fun a => t ≤ a ∧ a ≤ deadline t) ≤ 2 * limit := by
  -- A window that begins after the deadline takes no part: the ones before it decide.
  have hout {times : List T} {s a : T} (ha : s ≤ a) (hlt : deadline t < s) :
      (times ++ [a]).countP (fun a => t ≤ a ∧ a ≤ deadline t) =
        times.countP (fun a => t ≤ a ∧ a ≤ deadline t) := by
    simp [List.countP_append, (hlt.trans_le ha).not_ge]
  induction h with
  | first a hl =>
      rcases le_or_gt a (deadline t) with hle | hlt
      · exact countP_le_of_le hm hd (.first a hl) hle
      · simp [hlt.not_ge]
  | @same _ start _ _ hw hle hdead hn ih =>
      rcases le_or_gt start (deadline t) with hreach | hlt
      · exact countP_le_of_le hm hd (.same hw hle hdead hn) hreach
      · rw [hout hle hlt]
        exact ih
  | @next _ _ a _ hw hdead hl ih =>
      rcases le_or_gt a (deadline t) with hreach | hlt
      · exact countP_le_of_le hm hd (.next hw hdead hl) hreach
      · rw [hout le_rfl hlt]
        exact ih

end Windows

end Windows

/-! ### Entries that expire -/

section Keep

variable {K V : Type}

/-- Leave out the entries whose value does not satisfy the condition. -/
def keep (p : V → Bool) (t : AList fun _ : K => V) : AList fun _ : K => V where
  entries := t.entries.filter fun e => p e.2
  nodupKeys := t.nodupKeys.sublist List.filter_sublist

/-- How many entries a table has. -/
def size (t : AList fun _ : K => V) : Nat := t.keys.length

theorem size_keep_le (p : V → Bool) (t : AList fun _ : K => V) : size (keep p t) ≤ size t :=
  ((List.filter_sublist).map Sigma.fst).length_le

variable [DecidableEq K]

theorem lookup_keep (p : V → Bool) (t : AList fun _ : K => V) (k : K) :
    (keep p t).lookup k = (t.lookup k).filter p := by
  ext v
  rw [Option.filter_eq_some_iff, ← Option.mem_def, ← Option.mem_def, AList.mem_lookup_iff,
    AList.mem_lookup_iff]
  simp [keep]

theorem size_insert_of_mem {t : AList fun _ : K => V} {k : K} (v : V) (h : k ∈ t) :
    size (t.insert k v) = size t := by
  have hmem := AList.mem_keys.mp h
  have hpos := List.length_pos_of_mem hmem
  rw [size, AList.keys_insert, List.length_cons, List.length_erase_of_mem hmem, size]
  omega

theorem size_insert_le (t : AList fun _ : K => V) (k : K) (v : V) :
    size (t.insert k v) ≤ size t + 1 := by
  rw [size, AList.keys_insert, List.length_cons]
  exact Nat.succ_le_succ List.length_erase_le

end Keep

end Syncraft.Library
