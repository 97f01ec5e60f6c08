import Mathlib.Logic.Function.Basic
import Syncraft.Library.Run
import Syncraft.Field.Inspection
import Syncraft.Field.StoreRun

/-!
# Syncraft.Field.Refresh

`refresh` of `lib/domain/workspace_controller.dart`, cut at its awaits. Any number of them run at
once, among saves, pages and other calls of the store, and each goes by the generation it was
started with. What they publish never goes back: `published_in_order`.
-/

namespace Syncraft.Field.WorkspaceController

open Library (Run)
open LocalStore (Call)

/-! ### The controller -/

/-- `operations`, `inspections` and `pending` -/
structure View where
  operations : List Operation
  inspections : List Inspection
  pending : Nat
  deriving DecidableEq

/-- A `refresh`, at one of its awaits. -/
inductive Refresh where
  /-- Of `operations`. -/
  | reading
  /-- Of `pendingCount`. -/
  | counting (result : List Operation)
  /-- Both are done. -/
  | resuming (result : List Operation) (count : Nat)

/-- `result`, once it is there. -/
def Refresh.result : Refresh → Option (List Operation)
  | .reading => none
  | .counting result => some result
  | .resuming result _ => some result

/-- A controller over its store. A `refresh` is found under its generation. `published` is what
has been published, each under the generation of its `refresh`. -/
structure Session where
  store : LocalStore
  view : View
  disposed : Bool
  generation : Nat
  refreshes : Nat → Option Refresh
  published : List (Nat × View)

/-- What can happen. -/
inductive Event where
  /-- A call of the store: a save, a page, … -/
  | call (c : Call)
  /-- `refresh`, after an edit or from `_onSync`. -/
  | refresh
  /-- The refresh of the generation gets what it awaits. -/
  | resume (generation : Nat)
  /-- What it awaits throws. -/
  | throws (generation : Nat)
  | dispose

namespace Session

/-- A controller just made. -/
def new (store : LocalStore) : Session :=
  { store, view := { operations := [], inspections := [], pending := 0 }, disposed := false,
    generation := 0, refreshes := fun _ => none, published := [] }

/-- The refresh of a generation goes on, or ends. -/
def set (s : Session) (generation : Nat) (r : Option Refresh) : Session :=
  { s with refreshes := Function.update s.refreshes generation r }

@[simp] theorem set_refreshes (s : Session) (g : Nat) (r : Option Refresh) :
    (s.set g r).refreshes = Function.update s.refreshes g r := rfl

/-- The end of `refresh`. -/
def finish (lower : DartString → DartString) (s : Session) (generation : Nat)
    (result : List Operation) (count : Nat) : Session :=
  let s := s.set generation none
  if s.disposed ∨ generation ≠ s.generation then s
  else
    let view :=
      { operations := result, inspections := Inspection.project lower result, pending := count }
    { s with view, published := s.published ++ [(generation, view)] }

/-- A refresh gets what it awaits. -/
def resume (lower : DartString → DartString) (s : Session) (generation : Nat) : Session :=
  match s.refreshes generation with
  | none => s
  | some .reading =>
    match s.store.operations with
    | .ok result => s.set generation (some (.counting result))
    | .error _ => s.set generation none
  | some (.counting result) => s.set generation (some (.resuming result s.store.pendingCount))
  | some (.resuming result count) => s.finish lower generation result count

/-- What an event does. -/
def step (lower : DartString → DartString) (sha256 : List UInt8 → DartString) (s : Session) :
    Event → Session
  | .call c => { s with store := s.store.after sha256 c }
  | .refresh =>
    { s with generation := s.generation + 1 }.set (s.generation + 1) (some .reading)
  | .resume generation => s.resume lower generation
  | .throws generation => s.set generation none
  | .dispose => { s with disposed := true }

/-- The steps of a session. -/
def Step (lower : DartString → DartString) (sha256 : List UInt8 → DartString) (s : Session)
    (e : Event) (t : Session) : Prop := s.step lower sha256 e = t

/-! ### What a step can do -/

/-- What a refresh has read. -/
def Holds (s : Session) (g : Nat) (result : List Operation) : Prop :=
  ∃ r, s.refreshes g = some r ∧ r.result = some result

/-- The session after a refresh has published. -/
def publish (lower : DartString → DartString) (s : Session) (g : Nat) (result : List Operation)
    (count : Nat) : Session :=
  let view :=
    { operations := result, inspections := Inspection.project lower result, pending := count }
  { s.set g none with view, published := s.published ++ [(g, view)] }

/-- **Everything a `resume` can do.** Nothing is published but by the refresh of the latest
generation, and not after `dispose`. -/
theorem resume_cases (lower : DartString → DartString) (s : Session) (g : Nat) :
    (∃ r, s.resume lower g = s.set g r ∧ ∀ q result, r = some q → q.result = some result →
      result = s.store.ops ∨ s.Holds g result) ∨
    ∃ result count, s.Holds g result ∧ s.disposed = false ∧ g = s.generation ∧
      s.resume lower g = s.publish lower g result count := by
  have hsame : s.set g (s.refreshes g) = s := by rw [set, Function.update_eq_self]
  rw [resume]
  cases h : s.refreshes g with
  | none =>
      rw [h] at hsame
      exact .inl ⟨none, hsame.symm, fun q _ hq => by cases hq⟩
  | some r =>
      cases r with
      | reading =>
          dsimp only
          rw [LocalStore.operations_eq]
          refine .inl ⟨_, rfl, fun q result hq hresult => .inl ?_⟩
          obtain rfl := Option.some.inj hq
          exact (Option.some.inj hresult).symm
      | counting result =>
          refine .inl ⟨_, rfl, fun q result' hq hresult => .inr ⟨_, h, ?_⟩⟩
          obtain rfl := Option.some.inj hq
          exact hresult
      | resuming result count =>
          dsimp only
          rw [finish]
          dsimp only
          split
          · exact .inl ⟨none, rfl, fun q _ hq => by cases hq⟩
          · next hlive =>
              rw [not_or, not_not] at hlive
              exact .inr ⟨result, count, ⟨_, h, rfl⟩, Bool.eq_false_iff.mpr hlive.1, hlive.2, rfl⟩

/-- A refresh holds what it held, unless it went on. -/
theorem holds_set {s : Session} {g g' : Nat} {r : Option Refresh} {result : List Operation}
    (h : (s.set g r).Holds g' result) :
    g' = g ∧ (∃ q, r = some q ∧ q.result = some result) ∨ g' ≠ g ∧ s.Holds g' result := by
  obtain ⟨q, hq, hresult⟩ := h
  rw [set_refreshes] at hq
  by_cases hg : g' = g
  · rw [hg, Function.update_self] at hq
    exact .inl ⟨hg, q, hq, hresult⟩
  · rw [Function.update_of_ne hg] at hq
    exact .inr ⟨hg, q, hq, hresult⟩

/-! ### The order of what is published -/

/-- What holds at all times. -/
structure InOrder (lower : DartString → DartString) (s : Session) : Prop where
  kept : s.store.Kept
  /-- What has been read or published is a part of the table. -/
  read : ∀ g result, s.Holds g result → result <+: s.store.ops
  stored : ∀ p ∈ s.published, p.2.operations <+: s.store.ops
  /-- The latest refresh has read after everything was published. -/
  latest : ∀ p ∈ s.published, ∀ result, s.Holds s.generation result → p.2.operations <+: result
  chain : s.published.Pairwise fun p q => p.2.operations <+: q.2.operations
  projected : ∀ p ∈ s.published, p.2.inspections = Inspection.project lower p.2.operations
  shown : s.view = (s.published.getLast?.map Prod.snd).getD (new s.store).view

section Steps

variable {lower : DartString → DartString} {sha256 : List UInt8 → DartString} {s t : Session}

theorem InOrder.new {store : LocalStore} (hk : store.Kept) : InOrder lower (Session.new store) where
  kept := hk
  read := fun _ _ ⟨_, hq, _⟩ => by cases hq
  stored := List.forall_mem_nil _
  latest := List.forall_mem_nil _
  chain := List.Pairwise.nil
  projected := List.forall_mem_nil _
  shown := rfl

/-- A refresh goes on: what it holds now is the table, or what it held. -/
theorem InOrder.set (h : InOrder lower s) {g : Nat} {r : Option Refresh}
    (hr : ∀ q result, r = some q → q.result = some result →
      result = s.store.ops ∨ s.Holds g result) : InOrder lower (s.set g r) := by
  have hheld : ∀ g' result, (s.set g r).Holds g' result →
      result = s.store.ops ∨ s.Holds g' result := by
    intro g' result hholds
    rcases holds_set hholds with ⟨rfl, q, hq, hresult⟩ | ⟨-, hold⟩
    · exact hr q result hq hresult
    · exact .inr hold
  exact
    { h with
      read := fun g' result hholds => by
        rcases hheld g' result hholds with rfl | hold
        · exact List.prefix_refl _
        · exact h.read g' result hold
      latest := fun p hp result hholds => by
        rcases hheld _ result hholds with rfl | hold
        · exact h.stored p hp
        · exact h.latest p hp result hold }

/-- A refresh that starts has read nothing. -/
theorem InOrder.refresh (h : InOrder lower s) :
    InOrder lower ({ s with generation := s.generation + 1 }.set (s.generation + 1)
      (some .reading)) := by
  have hheld : ∀ {g result},
      ({ s with generation := s.generation + 1 }.set (s.generation + 1) (some .reading)).Holds
        g result → g ≠ s.generation + 1 ∧ s.Holds g result := by
    intro g result hholds
    rcases holds_set hholds with ⟨-, q, hq, hresult⟩ | hold
    · obtain rfl := Option.some.inj hq
      cases hresult
    · exact hold
  exact
    { h with
      read := fun g result hholds => h.read g result (hheld hholds).2
      latest := fun p hp result hholds => absurd rfl (hheld hholds).1 }

/-- The latest refresh publishes. -/
theorem InOrder.publish (h : InOrder lower s) {result : List Operation}
    (hholds : s.Holds s.generation result) (count : Nat) :
    InOrder lower (s.publish lower s.generation result count) := by
  have hended : ∀ {g r}, (s.publish lower s.generation result count).Holds g r →
      g ≠ s.generation ∧ s.Holds g r := by
    intro g r hr
    rcases holds_set hr with ⟨-, q, hq, -⟩ | hold
    · cases hq
    · exact hold
  constructor
  case kept => exact h.kept
  case read => exact fun g r hr => h.read g r (hended hr).2
  case stored =>
    intro p hp
    rcases List.mem_append.mp hp with hp | hp
    · exact h.stored p hp
    · obtain rfl := List.mem_singleton.mp hp
      exact h.read _ _ hholds
  case latest => exact fun p hp r hr => absurd rfl (hended hr).1
  case chain =>
    refine List.pairwise_append.mpr ⟨h.chain, List.pairwise_singleton _ _, fun p hp q hq => ?_⟩
    obtain rfl := List.mem_singleton.mp hq
    exact h.latest p hp result hholds
  case projected =>
    intro p hp
    rcases List.mem_append.mp hp with hp | hp
    · exact h.projected p hp
    · obtain rfl := List.mem_singleton.mp hp
      rfl
  case shown =>
    show _ = ((s.published ++ [_]).getLast?.map Prod.snd).getD _
    rw [List.getLast?_append_of_ne_nil _ (List.cons_ne_nil _ _)]
    rfl

/-- Whatever happens to the store, it keeps what has been read. -/
theorem InOrder.call (h : InOrder lower s) (c : Call) :
    InOrder lower { s with store := s.store.after sha256 c } where
  kept := h.kept.after c
  read := fun g result hholds => (h.read g result hholds).trans (h.kept.grows c)
  stored := fun p hp => (h.stored p hp).trans (h.kept.grows c)
  latest := h.latest
  chain := h.chain
  projected := h.projected
  shown := h.shown

/-- Every step keeps the order. -/
theorem InOrder.step (h : InOrder lower s) {e : Event} (hstep : Step lower sha256 s e t) :
    InOrder lower t := by
  obtain rfl := hstep
  cases e with
  | call c => exact h.call c
  | refresh => exact h.refresh
  | resume g =>
      show InOrder lower (s.resume lower g)
      rcases s.resume_cases lower g with ⟨r, heq, hr⟩ | ⟨result, count, hholds, -, rfl, heq⟩
      · rw [heq]
        exact h.set hr
      · rw [heq]
        exact h.publish hholds count
  | throws g => exact h.set fun q _ hq => by cases hq
  | dispose => exact { h with }

/-- What a session publishes in some steps: nothing for generations that were overtaken, and
nothing when it is disposed. -/
structure Publishes (s t : Session) : Prop where
  generation : s.generation ≤ t.generation
  disposed : s.disposed = true → t.disposed = true
  published : ∃ later, t.published = s.published ++ later ∧ (∀ p ∈ later, s.generation ≤ p.1) ∧
    (s.disposed = true → later = [])

theorem Publishes.refl (s : Session) : Publishes s s :=
  ⟨le_rfl, id, [], (List.append_nil _).symm, List.forall_mem_nil _, fun _ => rfl⟩

theorem Publishes.trans {u : Session} (h : Publishes s t) (h' : Publishes t u) : Publishes s u := by
  obtain ⟨later, hlater, hgen, hnone⟩ := h.published
  obtain ⟨later', hlater', hgen', hnone'⟩ := h'.published
  refine ⟨h.generation.trans h'.generation, fun hd => h'.disposed (h.disposed hd), later ++ later',
    by rw [hlater', hlater, List.append_assoc], fun p hp => ?_, fun hd => ?_⟩
  · rcases List.mem_append.mp hp with hp | hp
    · exact hgen p hp
    · exact h.generation.trans (hgen' p hp)
  · rw [hnone hd, hnone' (h.disposed hd), List.append_nil]

theorem Publishes.step {e : Event} (hstep : Step lower sha256 s e t) : Publishes s t := by
  obtain rfl := hstep
  have hnone : ∀ t : Session, s.generation ≤ t.generation →
      (s.disposed = true → t.disposed = true) → t.published = s.published → Publishes s t :=
    fun t hg hd hp => ⟨hg, hd, [], by rw [hp, List.append_nil], List.forall_mem_nil _, fun _ => rfl⟩
  cases e with
  | call c => exact hnone _ le_rfl id rfl
  | refresh => exact hnone _ (Nat.le_succ _) id rfl
  | resume g =>
      show Publishes s (s.resume lower g)
      rcases s.resume_cases lower g with ⟨r, heq, -⟩ | ⟨result, count, -, hlive, rfl, heq⟩
      · rw [heq]
        exact hnone _ le_rfl id rfl
      · rw [heq]
        refine ⟨le_rfl, id, [_], rfl, fun p hp => ?_, fun hd => ?_⟩
        · obtain rfl := List.mem_singleton.mp hp
          exact le_rfl
        · rw [hlive] at hd
          cases hd
  | throws g => exact hnone _ le_rfl id rfl
  | dispose => exact hnone _ le_rfl (fun _ => rfl) rfl

/-- **What is shown does not go back.** In every run over a database that keeps the constraints of
its schema, however refreshes, saves and pages come: each list that is published extends those
published before it, and is published and shown with its projection. From any point of the run on,
refreshes that were overtaken publish nothing, and after `dispose` none does. -/
theorem published_in_order {store : LocalStore} (hk : store.Kept) {es : List Event}
    (h : Run (Step lower sha256) (new store) es s) :
    s.published.Pairwise (fun p q => p.2.operations <+: q.2.operations) ∧
    (∀ p ∈ s.published, p.2.inspections = Inspection.project lower p.2.operations) ∧
    s.view = (s.published.getLast?.map Prod.snd).getD (new store).view ∧
    ∀ {es' t}, Run (Step lower sha256) s es' t →
      ∃ later, t.published = s.published ++ later ∧ (∀ p ∈ later, s.generation ≤ p.1) ∧
        (s.disposed = true → later = []) := by
  have horder : InOrder lower s := h.invariant (fun _ _ _ hs hstep => hs.step hstep) (.new hk)
  refine ⟨horder.chain, horder.projected, horder.shown, fun hrun => ?_⟩
  have hpublishes : Publishes s _ := hrun.related (P := fun _ => True) (fun _ _ _ _ _ => trivial)
    .refl (fun _ _ _ => .trans) (fun _ _ _ _ => .step) trivial
  exact hpublishes.published

end Steps

/-- A refresh reads, an edit is saved, and a second refresh overtakes the first. -/
def overtaking : List Event :=
  [.refresh, .resume 1, .call (.save [gate] fun _ => dart "now"), .refresh, .resume 2, .resume 2,
    .resume 2, .resume 1, .resume 1]

/-- Only the second one publishes. -/
theorem published_in_order_run :
    let s := overtaking.foldl (step id fun _ => []) (new LocalStore.new)
    s.published.map (fun p => (p.1, p.2.pending)) = [(2, 1)] ∧
      s.published.Pairwise fun p q => p.2.operations <+: q.2.operations :=
  ⟨by decide +kernel, (published_in_order LocalStore.kept_new (Run.foldl _ _ overtaking)).1⟩

end Session

end Syncraft.Field.WorkspaceController
