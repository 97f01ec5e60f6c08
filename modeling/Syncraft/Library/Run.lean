import Mathlib.Data.List.Basic

/-!
# Syncraft.Library.Run

Runs of a labelled transition system, with the list of their labels, and four rules for them:
an invariant holds after every run (`Run.invariant`), a reflexive and transitive relation that
every step respects holds between the ends of a run (`Run.related`), what only certain labels
can end holds until one of them occurs (`Run.holds_unless`), and what exactly the allowed labels
keep holds throughout exactly the allowed runs (`Run.allows_iff`).
-/

namespace Syncraft.Library

variable {σ ε : Type}

/-- The steps under the labels lead from the first state to the last. -/
inductive Run (step : σ → ε → σ → Prop) : σ → List ε → σ → Prop where
  | nil (s : σ) : Run step s [] s
  | cons {s t u : σ} {e : ε} {es : List ε} : step s e t → Run step t es u → Run step s (e :: es) u

namespace Run

variable {step : σ → ε → σ → Prop} {s t u : σ} {e : ε} {es fs : List ε}

theorem single (h : step s e t) : Run step s [e] t := .cons h (.nil t)

/-- The run of a function. -/
theorem foldl (f : σ → ε → σ) (s : σ) (es : List ε) :
    Run (fun s e t => f s e = t) s es (es.foldl f s) := by
  induction es generalizing s with
  | nil => exact .nil s
  | cons e es ih => exact .cons rfl (ih (f s e))

/-- Is each label allowed in the state in which it occurs? -/
def allows (f : σ → ε → σ) (allowed : σ → ε → Bool) : σ → List ε → Bool
  | _, [] => true
  | s, e :: es => allowed s e && allows f allowed (f s e) es

/-- The run of a function whose labels are allowed. -/
theorem foldl_allowed {f : σ → ε → σ} {allowed : σ → ε → Bool} {s : σ} {es : List ε}
    (h : allows f allowed s es = true) :
    Run (fun s e t => f s e = t ∧ allowed s e = true) s es (es.foldl f s) := by
  induction es generalizing s with
  | nil => exact .nil s
  | cons e es ih =>
      rw [allows, Bool.and_eq_true] at h
      exact .cons ⟨rfl, h.1⟩ (ih h.2)

/-- **Allowed throughout is kept throughout**, if in every state with the invariant and the
property the labels that keep the property are those allowed. -/
theorem allows_iff {f : σ → ε → σ} {allowed : σ → ε → Bool} {I P : σ → Prop} {s : σ} {es : List ε}
    (hI : ∀ s e, I s → I (f s e)) (hP : ∀ s e, I s → P s → (allowed s e = true ↔ P (f s e)))
    (hs : I s) (hp : P s) :
    allows f allowed s es = true ↔ ∀ fs, fs <+: es → P (fs.foldl f s) := by
  induction es generalizing s with
  | nil =>
      constructor
      · intro _ fs hfs
        rw [List.prefix_nil.mp hfs]
        exact hp
      · exact fun _ => rfl
  | cons e es ih =>
      rw [allows, Bool.and_eq_true]
      constructor
      · rintro ⟨he, hes⟩ fs hfs
        have hp' : P (f s e) := (hP s e hs hp).mp he
        cases fs with
        | nil => exact hp
        | cons e' fs =>
            obtain ⟨rfl, hfs'⟩ := List.cons_prefix_cons.mp hfs
            exact (ih (hI s _ hs) hp').mp hes fs hfs'
      · intro hall
        have hp' : P (f s e) :=
          hall [e] (List.cons_prefix_cons.mpr ⟨rfl, List.nil_prefix⟩)
        refine ⟨(hP s e hs hp).mpr hp', (ih (hI s e hs) hp').mpr fun fs hfs => ?_⟩
        exact hall (e :: fs) (List.cons_prefix_cons.mpr ⟨rfl, hfs⟩)

theorem append (h : Run step s es t) (h' : Run step t fs u) : Run step s (es ++ fs) u := by
  induction h with
  | nil => exact h'
  | cons hstep _ ih => exact .cons hstep (ih h')

/-- What every step preserves, every run preserves. -/
theorem invariant {P : σ → Prop} (hstep : ∀ s e t, P s → step s e t → P t)
    (h : Run step s es t) (hs : P s) : P t := by
  induction h with
  | nil => exact hs
  | cons hst _ ih => exact ih (hstep _ _ _ hs hst)

/-- What every step does to a state that satisfies the invariant, a run does. -/
theorem related {P : σ → Prop} {R : σ → σ → Prop} (hP : ∀ s e t, P s → step s e t → P t)
    (hrefl : ∀ s, R s s) (htrans : ∀ s t u, R s t → R t u → R s u)
    (hR : ∀ s e t, P s → step s e t → R s t) (h : Run step s es t) (hs : P s) : R s t := by
  induction h with
  | nil => exact hrefl _
  | cons hst _ ih => exact htrans _ _ _ (hR _ _ _ hs hst) (ih (hP _ _ _ hs hst))

/-- What holds unless a label of one kind occurs. -/
theorem holds_unless {P : σ → Prop} {Q : ε → Prop}
    (hstep : ∀ s e t, P s → step s e t → Q e ∨ P t) (h : Run step s es t) (hs : P s) :
    (∃ e ∈ es, Q e) ∨ P t := by
  induction h with
  | nil => exact .inr hs
  | cons hst _ ih =>
      rcases hstep _ _ _ hs hst with hq | ht
      · exact .inl ⟨_, List.mem_cons_self, hq⟩
      · rcases ih ht with ⟨e, he, hq⟩ | hu
        · exact .inl ⟨e, List.mem_cons_of_mem _ he, hq⟩
        · exact .inr hu

end Run

end Syncraft.Library
