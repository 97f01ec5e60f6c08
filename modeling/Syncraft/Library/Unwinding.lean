import Mathlib.Data.List.Basic

/-!
# Syncraft.Library.Unwinding

Noninterference of a machine that answers requests, by unwinding. An observer sees the answers
to its own requests, and a part of the state. If a request of another leaves that part alone
(`unseen`), and a request of its own makes of two states that look alike two that look alike,
with answers that look alike (`seen`), then runs that agree on the observer's requests look
alike to it, whatever the others have asked in between (`Observer.Unwinds.noninterference`).
-/

namespace Syncraft.Library

variable {σ ρ α : Type}

/-- Answer requests one after the other, and list the answers. -/
def answers (step : ρ → σ → α × σ) : σ → List ρ → List (ρ × α)
  | _, [] => []
  | s, r :: rest => (r, (step r s).1) :: answers step (step r s).2 rest

/-- The state after some requests. -/
def after (step : ρ → σ → α × σ) (s : σ) (rs : List ρ) : σ := rs.foldl (fun s r => (step r s).2) s

/-- An observer: which requests are its own, what it sees of an answer to one of them, and which
states look alike to it. -/
structure Observer (σ ρ α ω : Type) where
  mine : ρ → Bool
  sees : ρ → α → ω
  alike : σ → σ → Prop

/-- What the observer sees of a run. -/
def Observer.view {ω : Type} (o : Observer σ ρ α ω) (xs : List (ρ × α)) : List ω :=
  (xs.filter fun x => o.mine x.1).map fun x => o.sees x.1 x.2

/-- The conditions of the unwinding. -/
structure Observer.Unwinds {ω : Type} (o : Observer σ ρ α ω) (step : ρ → σ → α × σ) : Prop where
  refl : ∀ s, o.alike s s
  symm : ∀ s t, o.alike s t → o.alike t s
  trans : ∀ s t u, o.alike s t → o.alike t u → o.alike s u
  /-- Requests of others leave what is seen alone. -/
  unseen : ∀ r s, o.mine r = false → o.alike s (step r s).2
  /-- Own requests make of states alike states alike, and answers alike. -/
  seen : ∀ r s t, o.mine r = true → o.alike s t →
    o.sees r (step r s).1 = o.sees r (step r t).1 ∧ o.alike (step r s).2 (step r t).2

variable {ω : Type} {o : Observer σ ρ α ω} {step : ρ → σ → α × σ}

/-- A run looks like the run of the observer's own requests alone. -/
theorem Observer.Unwinds.purge (h : o.Unwinds step) {s t : σ} (hst : o.alike s t) (rs : List ρ) :
    o.view (answers step s rs) = o.view (answers step t (rs.filter o.mine)) ∧
      o.alike (after step s rs) (after step t (rs.filter o.mine)) := by
  induction rs generalizing s t with
  | nil => exact ⟨rfl, hst⟩
  | cons r rest ih =>
      by_cases hr : o.mine r = true
      · obtain ⟨hsees, hnext⟩ := h.seen r s t hr hst
        obtain ⟨hview, hafter⟩ := ih hnext
        rw [List.filter_cons_of_pos hr]
        refine ⟨?_, hafter⟩
        simp only [answers, Observer.view, List.filter_cons, hr, if_true, List.map_cons, hsees]
        exact congrArg _ hview
      · simp only [Bool.not_eq_true] at hr
        rw [List.filter_cons_of_neg (by rw [hr]; exact Bool.false_ne_true)]
        -- The request is another's: what is seen of the state is what it was.
        obtain ⟨hview, hafter⟩ := ih (h.trans _ _ _ (h.symm _ _ (h.unseen r s hr)) hst)
        refine ⟨?_, hafter⟩
        simp only [answers, Observer.view, List.filter_cons, hr, Bool.false_eq_true, if_false]
        exact hview

/-- **Noninterference.** Runs that agree on the observer's requests look alike to it. -/
theorem Observer.Unwinds.noninterference (h : o.Unwinds step) (s : σ) {rs rs' : List ρ}
    (hrs : rs.filter o.mine = rs'.filter o.mine) :
    o.view (answers step s rs) = o.view (answers step s rs') ∧
      o.alike (after step s rs) (after step s rs') := by
  obtain ⟨hview, hafter⟩ := h.purge (h.refl s) rs
  obtain ⟨hview', hafter'⟩ := h.purge (h.refl s) rs'
  rw [hrs] at hview hafter
  exact ⟨hview.trans hview'.symm, h.trans _ _ _ hafter (h.symm _ _ hafter')⟩

end Syncraft.Library
