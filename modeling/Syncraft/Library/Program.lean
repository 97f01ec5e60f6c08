import Mathlib.Logic.Function.Basic
import Mathlib.Logic.Relation

/-!
# Syncraft.Library.Program

Programs that make calls to a service, one after the other. Each call is atomic, and between
two calls of a program other programs may make theirs.

A program is judged by the calls it can make, whatever the service answers (`Makes`). If every
program only makes calls of one kind, what all calls of that kind keep, every interleaving keeps
(`Running.Later.store`), and what a program ensures of its result while others make such calls
(`Ensures`), it ensures in every interleaving (`Running.Step.ensures`). A program run with nothing
else going on is one of the interleavings (`run_steps`).
-/

namespace Syncraft.Library

universe u

/-- A program. `F β` are the calls that are answered by a `β`. -/
inductive Program (F : Type → Type u) (α : Type) : Type (max 1 u) where
  | done (a : α)
  | call {β : Type} (c : F β) (next : β → Program F α)

/-- A service: what it answers to a call, and its state afterwards. -/
structure Service (σ : Type) (F : Type → Type u) where
  answer : {β : Type} → F β → σ → β × σ

namespace Program

variable {σ : Type} {F : Type → Type u} {α β : Type}

/-- Run one program and then another. -/
def bind : Program F α → (α → Program F β) → Program F β
  | done a, f => f a
  | call c next, f => call c fun b => (next b).bind f

instance : Monad (Program F) where
  pure := done
  bind := bind

/-- Make one call. -/
def ask (c : F β) : Program F β := call c done

/-- Run a program with nothing else going on. -/
def run (S : Service σ F) : Program F α → σ → α × σ
  | done a, s => (a, s)
  | call c next, s => (next (S.answer c s).1).run S (S.answer c s).2

@[simp] theorem run_pure (S : Service σ F) (a : α) (s : σ) :
    (pure a : Program F α).run S s = (a, s) := rfl

@[simp] theorem run_ask (S : Service σ F) (c : F β) (s : σ) : (ask c).run S s = S.answer c s := rfl

@[simp] theorem run_bind (S : Service σ F) (x : Program F α) (f : α → Program F β) (s : σ) :
    (x >>= f).run S s = (f (x.run S s).1).run S (x.run S s).2 := by
  show (x.bind f).run S s = _
  induction x generalizing s with
  | done a => rfl
  | call c next ih => exact ih (S.answer c s).1 (S.answer c s).2

/-- Every call that the program can make is one of `P`. -/
def Makes (P : (β : Type) → F β → Prop) : Program F α → Prop
  | done _ => True
  | call c next => P _ c ∧ ∀ b, (next b).Makes P

variable {P Q : (β : Type) → F β → Prop}

@[simp] theorem makes_pure (a : α) : (pure a : Program F α).Makes P := trivial

theorem makes_ask {c : F β} (h : P β c) : (ask c).Makes P := ⟨h, fun _ => trivial⟩

theorem Makes.bind {x : Program F α} {f : α → Program F β} (hx : x.Makes P)
    (hf : ∀ a, (f a).Makes P) : (x >>= f).Makes P := by
  show (x.bind f).Makes P
  induction x with
  | done a => exact hf a
  | call c next ih => exact ⟨hx.1, fun b => ih b (hx.2 b)⟩

/-- Whatever the service answers, the result is one of `Q`. -/
def Returns (Q : α → Prop) : Program F α → Prop
  | done a => Q a
  | call _ next => ∀ b, (next b).Returns Q

/-- A sequence whose second part depends on what the first can return. -/
theorem Makes.bind_returns {Q : α → Prop} {x : Program F α} {f : α → Program F β}
    (hx : x.Makes P) (hreturns : x.Returns Q) (hf : ∀ a, Q a → (f a).Makes P) :
    (x >>= f).Makes P := by
  show (x.bind f).Makes P
  induction x with
  | done a => exact hf a hreturns
  | call c next ih => exact ⟨hx.1, fun b => ih b (hx.2 b) (hreturns b)⟩

theorem Makes.mono (h : ∀ β c, P β c → Q β c) {x : Program F α} (hx : x.Makes P) : x.Makes Q := by
  induction x with
  | done a => trivial
  | call c next ih => exact ⟨h _ c hx.1, fun b => ih b (hx.2 b)⟩

/-- What every call of `P` keeps, a run of the program keeps. -/
theorem Makes.run {S : Service σ F} {R : σ → Prop}
    (hR : ∀ β (c : F β) s, P β c → R s → R (S.answer c s).2) {x : Program F α} (hx : x.Makes P)
    {s : σ} (hs : R s) : R (x.run S s).2 := by
  induction x generalizing s with
  | done a => exact hs
  | call c next ih => exact ih _ (hx.2 _) (hR _ c s hx.1 hs)

/-- Two states that the calls of `P` cannot tell apart, and keep so, give one result. -/
theorem Makes.run_same {S : Service σ F} {R : σ → σ → Prop}
    (hR : ∀ β (c : F β) s t, P β c → R s t →
      (S.answer c s).1 = (S.answer c t).1 ∧ R (S.answer c s).2 (S.answer c t).2)
    {x : Program F α} (hx : x.Makes P) {s t : σ} (hst : R s t) :
    (x.run S s).1 = (x.run S t).1 ∧ R (x.run S s).2 (x.run S t).2 := by
  induction x generalizing s t with
  | done a => exact ⟨rfl, hst⟩
  | call c next ih =>
      obtain ⟨hanswer, hnext⟩ := hR _ c s t hx.1 hst
      simp only [Program.run, hanswer]
      exact ih _ (hx.2 _) hnext

/-- What the program returns is as `Q` says, of the state it returns in, if before each of its
calls the service goes on as `R` allows. -/
def Ensures (S : Service σ F) (R : σ → σ → Prop) (Q : α → σ → Prop) : Program F α → σ → Prop
  | done a, s => Q a s
  | call c next, s => ∀ s', R s s' → (next (S.answer c s').1).Ensures S R Q (S.answer c s').2

section Ensures

variable {S : Service σ F} {R : σ → σ → Prop} {Q : α → σ → Prop}

theorem ensures_ask {c : F α} {s : σ} (h : ∀ s', R s s' → Q (S.answer c s').1 (S.answer c s').2) :
    (ask c).Ensures S R Q s := h

/-- What is true of every result. -/
theorem ensures_of_forall (h : ∀ a s, Q a s) (x : Program F α) (s : σ) : x.Ensures S R Q s := by
  induction x generalizing s with
  | done a => exact h a s
  | call c next ih => exact fun s' _ => ih _ _

theorem Ensures.bind {Q' : β → σ → Prop} {x : Program F α} {f : α → Program F β} {s : σ}
    (hx : x.Ensures S R Q s) (hf : ∀ a s, Q a s → (f a).Ensures S R Q' s) :
    (x >>= f).Ensures S R Q' s := by
  show (x.bind f).Ensures S R Q' s
  induction x generalizing s with
  | done a => exact hf a s hx
  | call c next ih => exact fun s' hs' => ih _ (hx s' hs')

/-- A program whose calls are of `R` returns in a state that `R` leads to. -/
theorem Makes.ensures {P : (β : Type) → F β → Prop} (htrans : ∀ s t u, R s t → R t u → R s u)
    (hR : ∀ β (c : F β) s, P β c → R s (S.answer c s).2) {q : α → Prop} {x : Program F α}
    (hx : x.Makes P) (hreturns : x.Returns q) {s t : σ} (hst : R s t) :
    x.Ensures S R (fun a u => q a ∧ R s u) t := by
  induction x generalizing t with
  | done a => exact ⟨hreturns, hst⟩
  | call c next ih =>
      intro t' ht'
      have hanswer := htrans _ _ _ (htrans _ _ _ hst ht') (hR _ c t' hx.1)
      exact ih _ (hx.2 _) (hreturns _) hanswer

/-- What others do does not matter, if it is of `R`. -/
theorem Ensures.later (htrans : ∀ s t u, R s t → R t u → R s u)
    (hstable : ∀ a s t, Q a s → R s t → Q a t) {x : Program F α} {s t : σ}
    (hx : x.Ensures S R Q s) (hst : R s t) : x.Ensures S R Q t := by
  cases x with
  | done a => exact hstable a s t hx hst
  | call c next => exact fun s' hs' => hx s' (htrans s t s' hst hs')

end Ensures

end Program

/-! ### Interleavings -/

section Interleaving

variable {ι σ : Type} [DecidableEq ι] {F : Type → Type u} {α : Type}

/-- The state of the service, and what every session is running. -/
structure Running (ι σ : Type) (F : Type → Type u) (α : Type) : Type (max 1 u) where
  store : σ
  sessions : ι → Option (Program F α)

/-- A service nobody is using. -/
def Running.new (s : σ) : Running ι σ F α := { store := s, sessions := fun _ => none }

/-- One step of one session. `starts` are the programs that may be started. -/
inductive Running.Step (S : Service σ F) (starts : Program F α → Prop) (g : Running ι σ F α) :
    Running ι σ F α → Prop where
  | start (i : ι) (x : Program F α) : g.sessions i = none → starts x →
      Step S starts g { g with sessions := Function.update g.sessions i (some x) }
  | call (i : ι) {β : Type} (c : F β) (next : β → Program F α) :
      g.sessions i = some (.call c next) →
      Step S starts g
        { store := (S.answer c g.store).2
          sessions := Function.update g.sessions i (some (next (S.answer c g.store).1)) }
  | finish (i : ι) (a : α) : g.sessions i = some (.done a) →
      Step S starts g { g with sessions := Function.update g.sessions i none }

/-- What some steps make of `g`. -/
def Running.Later (S : Service σ F) (starts : Program F α → Prop) (g g' : Running ι σ F α) : Prop :=
  Relation.ReflTransGen (Running.Step S starts) g g'

variable {S : Service σ F} {starts : Program F α → Prop} {P : (β : Type) → F β → Prop}

/-- The sessions will only make calls of `P`. -/
def Running.Makes (P : (β : Type) → F β → Prop) (g : Running ι σ F α) : Prop :=
  ∀ i x, g.sessions i = some x → x.Makes P

omit [DecidableEq ι] in
theorem Running.new_makes (s : σ) : (Running.new s : Running ι σ F α).Makes P :=
  fun _ _ h => by cases h

theorem Running.Step.makes (hstarts : ∀ x, starts x → x.Makes P) {g g' : Running ι σ F α}
    (h : Running.Step S starts g g') (hg : g.Makes P) : g'.Makes P := by
  -- A session that goes on to `y` is all that changes.
  have hupdate : ∀ (i : ι) (y : Option (Program F α)), (∀ x, y = some x → x.Makes P) →
      ∀ j x, Function.update g.sessions i y j = some x → x.Makes P := by
    intro i y hy j x hx
    by_cases hj : j = i
    · subst hj
      rw [Function.update_self] at hx
      exact hy x hx
    · rw [Function.update_of_ne hj] at hx
      exact hg j x hx
  cases h with
  | start i x hidle hx =>
      refine hupdate i (some x) fun y hy => ?_
      obtain rfl := Option.some.inj hy
      exact hstarts x hx
  | call i c next hcall =>
      refine hupdate i _ fun y hy => ?_
      obtain rfl := Option.some.inj hy
      exact (hg i _ hcall).2 _
  | finish i a hdone => exact hupdate i none fun _ h => by cases h

/-- One step leaves the service as it is, or makes one call. -/
theorem Running.Step.store {g g' : Running ι σ F α} (h : Running.Step S starts g g')
    (hg : g.Makes P) :
    g'.store = g.store ∨ ∃ (β : Type) (c : F β), P β c ∧ g'.store = (S.answer c g.store).2 := by
  cases h with
  | start i x hidle hx => exact Or.inl rfl
  | call i c next hcall => exact Or.inr ⟨_, c, (hg i _ hcall).1, rfl⟩
  | finish i a hdone => exact Or.inl rfl

/-- **What every call keeps, every interleaving keeps.** `R` relates the service to what it was
at the start. -/
theorem Running.Later.store (hstarts : ∀ x, starts x → x.Makes P) {g g' : Running ι σ F α}
    (h : Running.Later S starts g g') (hg : g.Makes P) {R : σ → Prop}
    (hR : ∀ β (c : F β) s, P β c → R s → R (S.answer c s).2) (hs : R g.store) :
    g'.Makes P ∧ R g'.store := by
  induction h with
  | refl => exact ⟨hg, hs⟩
  | tail _ hstep ih =>
      refine ⟨hstep.makes hstarts ih.1, ?_⟩
      rcases hstep.store ih.1 with heq | ⟨β, c, hc, heq⟩
      · rw [heq]; exact ih.2
      · rw [heq]; exact hR β c _ hc ih.2

/-- The sessions ensure `Q`. -/
def Running.Ensures (S : Service σ F) (R : σ → σ → Prop) (Q : α → σ → Prop) (g : Running ι σ F α) :
    Prop :=
  ∀ i x, g.sessions i = some x → x.Ensures S R Q g.store

omit [DecidableEq ι] in
theorem Running.new_ensures {R : σ → σ → Prop} {Q : α → σ → Prop} (s : σ) :
    (Running.new s : Running ι σ F α).Ensures S R Q :=
  fun _ _ h => by cases h

/-- **What a program ensures on its own, it ensures in every interleaving** with programs whose
calls are of `R`. -/
theorem Running.Step.ensures {R : σ → σ → Prop} {Q : α → σ → Prop} (hrefl : ∀ s, R s s)
    (htrans : ∀ s t u, R s t → R t u → R s u) (hstable : ∀ a s t, Q a s → R s t → Q a t)
    (hR : ∀ β (c : F β) s, P β c → R s (S.answer c s).2) {g g' : Running ι σ F α}
    (hstarts : ∀ x, starts x → x.Ensures S R Q g.store) (h : Running.Step S starts g g')
    (hmakes : g.Makes P) (hg : g.Ensures S R Q) : R g.store g'.store ∧ g'.Ensures S R Q := by
  -- The other sessions still ensure what they did.
  have hupdate : ∀ (i : ι) (y : Option (Program F α)) (t : σ), R g.store t →
      (∀ x, y = some x → x.Ensures S R Q t) →
      ∀ j x, Function.update g.sessions i y j = some x → x.Ensures S R Q t := by
    intro i y t ht hy j x hx
    by_cases hj : j = i
    · subst hj
      rw [Function.update_self] at hx
      exact hy x hx
    · rw [Function.update_of_ne hj] at hx
      exact (hg j x hx).later htrans hstable ht
  cases h with
  | start i x hidle hx =>
      refine ⟨hrefl _, hupdate i (some x) _ (hrefl _) fun y hy => ?_⟩
      obtain rfl := Option.some.inj hy
      exact hstarts x hx
  | call i c next hcall =>
      have hstep := hR _ c g.store (hmakes i _ hcall).1
      refine ⟨hstep, hupdate i _ _ hstep fun y hy => ?_⟩
      obtain rfl := Option.some.inj hy
      exact hg i _ hcall _ (hrefl _)
  | finish i a hdone => exact ⟨hrefl _, hupdate i none _ (hrefl _) fun _ h => by cases h⟩

/-- A program that nothing else steps into comes to its result. -/
theorem run_answers {i : ι} {x : Program F α} (hx : starts x) {g : Running ι σ F α}
    (hidle : g.sessions i = none) :
    Running.Later S starts g
      { store := (x.run S g.store).2
        sessions := Function.update g.sessions i (some (.done (x.run S g.store).1)) } := by
  have finish : ∀ (y : Program F α) (s : σ), Running.Later S starts
      { store := s, sessions := Function.update g.sessions i (some y) }
      { store := (y.run S s).2
        sessions := Function.update g.sessions i (some (.done (y.run S s).1)) } := by
    intro y
    induction y with
    | done a => exact fun s => Relation.ReflTransGen.refl
    | call c next ih =>
        intro s
        have hstep : Running.Step S starts
            { store := s, sessions := Function.update g.sessions i (some (.call c next)) } _ :=
          Running.Step.call i c next (Function.update_self _ _ _)
        simp only [Function.update_idem] at hstep
        exact Relation.ReflTransGen.head hstep (ih _ _)
  exact Relation.ReflTransGen.head (Running.Step.start i x hidle hx) (finish x g.store)

/-- Such a run is one of the interleavings. -/
theorem run_steps {i : ι} {x : Program F α} (hx : starts x) {g : Running ι σ F α}
    (hidle : g.sessions i = none) :
    Running.Later S starts g { g with store := (x.run S g.store).2 } := by
  have hstep : Running.Step S starts
      { store := (x.run S g.store).2
        sessions := Function.update g.sessions i (some (.done (x.run S g.store).1)) } _ :=
    Running.Step.finish i _ (Function.update_self _ _ _)
  simp only [Function.update_idem] at hstep
  rw [← hidle, Function.update_eq_self] at hstep
  exact (run_answers hx hidle).tail hstep

end Interleaving

end Syncraft.Library
