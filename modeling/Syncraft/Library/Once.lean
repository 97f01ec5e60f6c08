import Syncraft.Library.Program

/-!
# Syncraft.Library.Once

Programs that take effect once. Such a program makes calls that only look, and at most one other
call; what it returns goes with the answer to that one (`Program.Once`). In every interleaving of
such programs a session that ends has made one effective call or none, and its result goes
with what that call was answered at its moment (`Running.finished`).
-/

namespace Syncraft.Library

universe u

namespace Program

variable {F : Type → Type u} {α β : Type}

/-- The program makes quiet calls, and then perhaps another one. A program that makes none returns
what `without` allows. After the other call it makes quiet calls again, and returns what `after`
allows for the call and its answer. -/
def Once (quiet : (β : Type) → F β → Bool) (without : α → Prop)
    (after : (β : Type) → F β → β → α → Prop) : Program F α → Prop
  | done a => without a
  | call c next =>
    (quiet _ c = true ∧ ∀ b, (next b).Once quiet without after) ∨
      quiet _ c = false ∧
        ∀ b, (next b).Makes (fun β c => quiet β c = true) ∧ (next b).Returns (after _ c b)

variable {quiet : (β : Type) → F β → Bool} {without : α → Prop}
  {after : (β : Type) → F β → β → α → Prop}

/-- A call that takes effect, and what the program makes of the answer. -/
theorem once_ask {c : F β} {f : β → Program F α} (hc : quiet β c = false)
    (h : ∀ b, (f b).Makes (fun β c => quiet β c = true) ∧ (f b).Returns (after β c b)) :
    (ask c >>= f).Once quiet without after := Or.inr ⟨hc, h⟩

/-- What comes before looks only. -/
theorem Once.bind {x : Program F β} {f : β → Program F α} {Q : β → Prop}
    (hx : x.Makes fun β c => quiet β c = true) (hreturns : x.Returns Q)
    (hf : ∀ b, Q b → (f b).Once quiet without after) : (x >>= f).Once quiet without after := by
  show (x.bind f).Once quiet without after
  induction x with
  | done b => exact hf b hreturns
  | call c next ih => exact Or.inl ⟨hx.1, fun b => ih b (hx.2 b) (hreturns b)⟩

/-- A program that only looks. -/
theorem once_of_makes {x : Program F α} (hx : x.Makes fun β c => quiet β c = true)
    (hreturns : x.Returns without) : x.Once quiet without after := by
  induction x with
  | done a => exact hreturns
  | call c next ih => exact Or.inl ⟨hx.1, fun b => ih b (hx.2 b) (hreturns b)⟩

theorem Makes.and {P Q : (β : Type) → F β → Prop} {x : Program F α} (hP : x.Makes P)
    (hQ : x.Makes Q) : x.Makes fun β c => P β c ∧ Q β c := by
  induction x with
  | done a => trivial
  | call c next ih => exact ⟨⟨hP.1, hQ.1⟩, fun b => ih b (hP.2 b) (hQ.2 b)⟩

/-- What is true of every result. -/
theorem returns_of_forall {Q : α → Prop} (h : ∀ a, Q a) (x : Program F α) : x.Returns Q := by
  induction x with
  | done a => exact h a
  | call c next ih => exact fun b => ih b

theorem Returns.mono {P Q : α → Prop} (h : ∀ a, P a → Q a) {x : Program F α} (hx : x.Returns P) :
    x.Returns Q := by
  induction x with
  | done a => exact h a hx
  | call c next ih => exact fun b => ih b (hx b)

theorem Returns.run {σ : Type} {P : α → Prop} {x : Program F α} (hx : x.Returns P)
    (S : Service σ F) (s : σ) : P (x.run S s).1 := by
  induction x generalizing s with
  | done a => exact hx
  | call c next ih => exact ih _ (hx _) _

theorem Returns.map {P : α → Prop} {Q : β → Prop} {f : α → β} (h : ∀ a, P a → Q (f a))
    {x : Program F α} (hx : x.Returns P) : (x >>= fun a => pure (f a)).Returns Q := by
  show (x.bind fun a => pure (f a)).Returns Q
  induction x with
  | done a => exact h a hx
  | call c next ih => exact fun b => ih b (hx b)

/-- What is made of the result. -/
theorem Once.map {without' : β → Prop} {after' : (γ : Type) → F γ → γ → β → Prop} {f : α → β}
    (hwithout : ∀ a, without a → without' (f a))
    (hafter : ∀ γ (c : F γ) b a, after γ c b a → after' γ c b (f a)) {x : Program F α}
    (hx : x.Once quiet without after) :
    (x >>= fun a => pure (f a)).Once quiet without' after' := by
  show (x.bind fun a => pure (f a)).Once quiet without' after'
  induction x with
  | done a => exact hwithout a hx
  | call c next ih =>
      rcases hx with ⟨hquiet, hnext⟩ | ⟨hquiet, hnext⟩
      · exact Or.inl ⟨hquiet, fun b => ih b (hnext b)⟩
      · exact Or.inr ⟨hquiet, fun b => ⟨(hnext b).1.bind fun _ => trivial,
          (hnext b).2.map (hafter _ c b)⟩⟩

end Program

/-! ### Interleavings of programs that requests start -/

section Interleaving

variable {ι σ ρ : Type} [DecidableEq ι] {F : Type → Type u} {α : Type}

/-- What happens while requests are served: one is taken up in a session, a session makes a call,
a session ends with a result. -/
inductive Running.Event (ι ρ : Type) (F : Type → Type u) (α : Type) : Type (max 1 u) where
  | start (i : ι) (r : ρ)
  | call (i : ι) {β : Type} (c : F β)
  | finish (i : ι) (a : α)

/-- The steps of `Running.Step`, with what happens. `program` is what a request starts. -/
inductive Running.Happens (S : Service σ F) (program : ρ → Program F α) (g : Running ι σ F α) :
    Running.Event ι ρ F α → Running ι σ F α → Prop where
  | start (i : ι) (r : ρ) : g.sessions i = none →
      Happens S program g (.start i r)
        { g with sessions := Function.update g.sessions i (some (program r)) }
  | call (i : ι) {β : Type} (c : F β) (next : β → Program F α) :
      g.sessions i = some (.call c next) →
      Happens S program g (.call i c)
        { store := (S.answer c g.store).2
          sessions := Function.update g.sessions i (some (next (S.answer c g.store).1)) }
  | finish (i : ι) (a : α) : g.sessions i = some (.done a) →
      Happens S program g (.finish i a) { g with sessions := Function.update g.sessions i none }

/-- They are steps of sessions that these programs start. -/
theorem Running.Happens.step {S : Service σ F} {program : ρ → Program F α} {g g' : Running ι σ F α}
    {e : Running.Event ι ρ F α} (h : Running.Happens S program g e g') :
    Running.Step S (fun x => ∃ r, x = program r) g g' := by
  cases h with
  | start i r hidle => exact .start i (program r) hidle ⟨r, rfl⟩
  | call i c next hcall => exact .call i c next hcall
  | finish i a hdone => exact .finish i a hdone

/-- A call, and the state of the service in which it was made. -/
structure Moment (σ : Type) (F : Type → Type u) : Type (max 1 u) where
  {β : Type}
  call : F β
  store : σ

/-- What the service has answered. -/
def Moment.answer (S : Service σ F) (m : Moment σ F) : m.β := (S.answer m.call m.store).1

/-- The service after the call. -/
def Moment.later (S : Service σ F) (m : Moment σ F) : σ := (S.answer m.call m.store).2

/-- A request that is being served, with the calls made for it. -/
structure Serviced (σ ρ : Type) (F : Type → Type u) : Type (max 1 u) where
  request : ρ
  calls : List (Moment σ F)

/-- The calls that take effect. -/
def Serviced.effects (quiet : (β : Type) → F β → Bool) (x : Serviced σ ρ F) : List (Moment σ F) :=
  x.calls.filter fun m => !quiet m.β m.call

/-- An interleaving, with what every session has done for the request it is at. -/
structure Witnessed (ι σ ρ : Type) (F : Type → Type u) (α : Type) : Type (max 1 u) where
  running : Running ι σ F α
  serviced : ι → Option (Serviced σ ρ F)

/-- Nobody is being served. -/
def Witnessed.new (s : σ) : Witnessed ι σ ρ F α :=
  { running := Running.new s, serviced := fun _ => none }

/-- What is noted of an event. -/
def Witnessed.note (h : Witnessed ι σ ρ F α) :
    Running.Event ι ρ F α → ι → Option (Serviced σ ρ F)
  | .start i r => Function.update h.serviced i (some { request := r, calls := [] })
  | .call i c =>
    Function.update h.serviced i ((h.serviced i).map fun x =>
      { x with calls := x.calls ++ [{ call := c, store := h.running.store }] })
  | .finish _ _ => h.serviced

theorem Witnessed.note_start (h : Witnessed ι σ ρ F α) (i : ι) (r : ρ) :
    h.note (.start i r) i = some { request := r, calls := [] } := Function.update_self _ _ _

theorem Witnessed.note_call (h : Witnessed ι σ ρ F α) (i : ι) {β : Type} (c : F β) :
    h.note (.call i c) i = (h.serviced i).map fun x =>
      { x with calls := x.calls ++ [{ call := c, store := h.running.store }] } :=
  Function.update_self _ _ _

theorem Witnessed.note_start_of_ne (h : Witnessed ι σ ρ F α) {i j : ι} (hj : j ≠ i) (r : ρ) :
    h.note (.start i r) j = h.serviced j := Function.update_of_ne hj _ _

theorem Witnessed.note_call_of_ne (h : Witnessed ι σ ρ F α) {i j : ι} (hj : j ≠ i) {β : Type}
    (c : F β) : h.note (.call i c) j = h.serviced j := Function.update_of_ne hj _ _

/-- The steps of an interleaving that is being watched. -/
inductive Witnessed.Step (S : Service σ F) (program : ρ → Program F α) (h : Witnessed ι σ ρ F α) :
    Running.Event ι ρ F α → Witnessed ι σ ρ F α → Prop where
  | step {e : Running.Event ι ρ F α} {g : Running ι σ F α} :
      Running.Happens S program h.running e g → Step S program h e { running := g, serviced := h.note e }

/-- What some steps lead to. -/
def Witnessed.Reachable (S : Service σ F) (program : ρ → Program F α) (s : σ)
    (h : Witnessed ι σ ρ F α) : Prop :=
  Relation.ReflTransGen (fun h h' => ∃ e, Witnessed.Step S program h e h') (Witnessed.new s) h

variable {S : Service σ F} {program : ρ → Program F α} {quiet : (β : Type) → F β → Bool}
  {without : ρ → α → Prop} {after : ρ → (β : Type) → F β → β → α → Prop}

/-- A result that goes with what has been done. -/
def Serviced.Accounts (S : Service σ F) (quiet : (β : Type) → F β → Bool) (without : ρ → α → Prop)
    (after : ρ → (β : Type) → F β → β → α → Prop) (x : Serviced σ ρ F) (a : α) : Prop :=
  (x.effects quiet = [] ∧ without x.request a) ∨
    ∃ m, x.effects quiet = [m] ∧ after x.request m.β m.call (m.answer S) a

/-- Where a session stands: it has taken no effect yet, or one, and the rest goes with it. -/
def Serviced.Stands (S : Service σ F) (quiet : (β : Type) → F β → Bool) (without : ρ → α → Prop)
    (after : ρ → (β : Type) → F β → β → α → Prop) (x : Serviced σ ρ F) (p : Program F α) : Prop :=
  (x.effects quiet = [] ∧ p.Once quiet (without x.request) (after x.request)) ∨
    ∃ m, x.effects quiet = [m] ∧ p.Makes (fun β c => quiet β c = true) ∧
      p.Returns (after x.request m.β m.call (m.answer S))

theorem Serviced.effects_append (x : Serviced σ ρ F) (m : Moment σ F) :
    Serviced.effects quiet { x with calls := x.calls ++ [m] } =
      x.effects quiet ++ if quiet m.β m.call = true then [] else [m] := by
  unfold effects
  rw [List.filter_append]
  cases h : quiet m.β m.call <;> simp [h]

/-- A session makes a call. -/
theorem Serviced.Stands.call {x : Serviced σ ρ F} {β : Type} {c : F β} {next : β → Program F α}
    (h : x.Stands S quiet without after (.call c next)) (s : σ) :
    Serviced.Stands S quiet without after { x with calls := x.calls ++ [{ call := c, store := s }] }
      (next (S.answer c s).1) := by
  have happend : Serviced.effects quiet { x with calls := x.calls ++ [{ call := c, store := s }] } =
      x.effects quiet ++ _ := x.effects_append { call := c, store := s }
  rcases h with ⟨hnone, ⟨hquiet, hnext⟩ | ⟨hquiet, hnext⟩⟩ | ⟨m, hone, ⟨hquiet, hmakes⟩, hreturns⟩
  · refine Or.inl ⟨?_, hnext _⟩
    rw [happend, if_pos hquiet, List.append_nil, hnone]
  · refine Or.inr ⟨{ call := c, store := s }, ?_, hnext _⟩
    rw [happend, if_neg (by rw [hquiet]; exact Bool.false_ne_true), hnone, List.nil_append]
  · refine Or.inr ⟨m, ?_, hmakes _, hreturns _⟩
    rw [happend, if_pos hquiet, List.append_nil, hone]

/-- A session ends. -/
theorem Serviced.Stands.done {x : Serviced σ ρ F} {a : α}
    (h : x.Stands S quiet without after (.done a)) : x.Accounts S quiet without after a := by
  rcases h with ⟨hnone, hwithout⟩ | ⟨m, hone, -, hafter⟩
  · exact Or.inl ⟨hnone, hwithout⟩
  · exact Or.inr ⟨m, hone, hafter⟩

/-- Every session stands where what it has done puts it. -/
def Witnessed.Inv (S : Service σ F) (quiet : (β : Type) → F β → Bool) (without : ρ → α → Prop)
    (after : ρ → (β : Type) → F β → β → α → Prop) (h : Witnessed ι σ ρ F α) : Prop :=
  ∀ i p, h.running.sessions i = some p →
    ∃ x, h.serviced i = some x ∧ x.Stands S quiet without after p

/-- What a session that moves has done is noted; the others stand where they did. -/
theorem Witnessed.Inv.update {h : Witnessed ι σ ρ F α} (hi : h.Inv S quiet without after) {i : ι}
    {s : σ} {next : Option (Program F α)} {noted : ι → Option (Serviced σ ρ F)}
    (hnoted : ∀ j, j ≠ i → noted j = h.serviced j)
    (hnext : ∀ p, next = some p → ∃ x, noted i = some x ∧ x.Stands S quiet without after p) :
    Witnessed.Inv S quiet without after
      { running := { store := s, sessions := Function.update h.running.sessions i next },
        serviced := noted } := by
  intro j p hp
  dsimp only at hp
  by_cases hj : j = i
  · subst hj
    rw [Function.update_self] at hp
    exact hnext p hp
  · rw [Function.update_of_ne hj] at hp
    obtain ⟨x, hx, hstands⟩ := hi j p hp
    exact ⟨x, (hnoted j hj).trans hx, hstands⟩

theorem Witnessed.Inv.step (honce : ∀ r, (program r).Once quiet (without r) (after r))
    {h h' : Witnessed ι σ ρ F α} {e : Running.Event ι ρ F α} (hi : h.Inv S quiet without after)
    (hstep : Witnessed.Step S program h e h') : h'.Inv S quiet without after := by
  obtain ⟨hhappens⟩ := hstep
  cases hhappens with
  | start i r hidle =>
      refine hi.update (fun j hj => h.note_start_of_ne hj r) fun p hp => ?_
      obtain rfl := Option.some.inj hp
      exact ⟨_, h.note_start i r, Or.inl ⟨rfl, honce r⟩⟩
  | call i c next hcall =>
      obtain ⟨x, hx, hstands⟩ := hi i _ hcall
      refine hi.update (fun j hj => h.note_call_of_ne hj c) fun p hp => ?_
      obtain rfl := Option.some.inj hp
      refine ⟨_, (h.note_call i c).trans ?_, hstands.call h.running.store⟩
      rw [hx]
      rfl
  | finish i a hdone => exact hi.update (fun _ _ => rfl) fun _ hp => by cases hp

theorem Witnessed.Reachable.inv (honce : ∀ r, (program r).Once quiet (without r) (after r)) {s : σ}
    {h : Witnessed ι σ ρ F α} (hr : Witnessed.Reachable S program s h) :
    h.Inv S quiet without after := by
  induction hr with
  | refl => exact fun _ _ hp => by cases hp
  | tail _ hstep ih =>
      obtain ⟨e, hstep⟩ := hstep
      exact ih.step honce hstep

/-- **Every result goes with what its session has done**, in every interleaving. -/
theorem Witnessed.finished (honce : ∀ r, (program r).Once quiet (without r) (after r)) {s : σ}
    {h h' : Witnessed ι σ ρ F α} (hr : Witnessed.Reachable S program s h) {i : ι} {a : α}
    (hstep : Witnessed.Step S program h (.finish i a) h') :
    ∃ x, h.serviced i = some x ∧ x.Accounts S quiet without after a := by
  obtain ⟨hhappens⟩ := hstep
  cases hhappens with
  | finish i a hdone =>
      obtain ⟨x, hx, hstands⟩ := hr.inv honce i _ hdone
      exact ⟨x, hx, hstands.done⟩

/-! ### What calls keep -/

section Grown

variable {P : (β : Type) → F β → Prop} {R : σ → σ → Prop} {s : σ}

/-- The service has gone on from where it was at the start, and after every call noted. -/
structure Witnessed.Grown (P : (β : Type) → F β → Prop) (R : σ → σ → Prop) (s : σ)
    (h : Witnessed ι σ ρ F α) (S : Service σ F) : Prop where
  makes : h.running.Makes P
  start : R s h.running.store
  calls : ∀ i x, h.serviced i = some x → ∀ m ∈ x.calls,
    P m.β m.call ∧ R s m.store ∧ R (m.later S) h.running.store

/-- If every call of `P` takes the service on as `R` says, so does every interleaving. -/
theorem Witnessed.Reachable.grown (hrefl : ∀ s, R s s) (htrans : ∀ s t u, R s t → R t u → R s u)
    (hR : ∀ β (c : F β) s, P β c → R s (S.answer c s).2) (hmakes : ∀ r, (program r).Makes P)
    {h : Witnessed ι σ ρ F α} (hr : Witnessed.Reachable S program s h) : h.Grown P R s S := by
  induction hr with
  | refl => exact ⟨Running.new_makes s, hrefl s, fun _ _ hx => by cases hx⟩
  | @tail h h' _ hstep ih =>
      obtain ⟨e, ⟨hhappens⟩⟩ := hstep
      have hstarts : ∀ x, (∃ r, x = program r) → x.Makes P := by
        rintro x ⟨r, rfl⟩
        exact hmakes r
      have hsessions := hhappens.step.makes hstarts ih.makes
      cases hhappens with
      | start i r hidle =>
          refine ⟨hsessions, ih.start, fun j x hx m hm => ?_⟩
          by_cases hj : j = i
          · subst hj
            obtain rfl := Option.some.inj ((h.note_start j r).symm.trans hx)
            cases hm
          · exact ih.calls j x ((h.note_start_of_ne hj r).symm.trans hx) m hm
      | @call i β c next hcall =>
          have hP : P β c := (ih.makes i _ hcall).1
          have hlater : R h.running.store (S.answer c h.running.store).2 := hR β c _ hP
          refine ⟨hsessions, htrans _ _ _ ih.start hlater, fun j x hx m hm => ?_⟩
          by_cases hj : j = i
          · subst hj
            obtain ⟨y, hy, rfl⟩ := Option.map_eq_some_iff.mp ((h.note_call j c).symm.trans hx)
            rcases List.mem_append.mp hm with hm | hm
            · obtain ⟨hP', hstart, hgrown⟩ := ih.calls j y hy m hm
              exact ⟨hP', hstart, htrans _ _ _ hgrown hlater⟩
            · obtain rfl := List.mem_singleton.mp hm
              exact ⟨hP, ih.start, hrefl _⟩
          · obtain ⟨hP', hstart, hgrown⟩ :=
              ih.calls j x ((h.note_call_of_ne hj c).symm.trans hx) m hm
            exact ⟨hP', hstart, htrans _ _ _ hgrown hlater⟩
      | finish i a hdone => exact ⟨hsessions, ih.start, ih.calls⟩

end Grown

end Interleaving

end Syncraft.Library
