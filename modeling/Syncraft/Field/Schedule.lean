import Mathlib.Logic.Relation
import Syncraft.Field.Pausing
import Syncraft.Field.Refusal

/-!
# Syncraft.Field.Schedule

`_schedule` of `sync/sync_engine.dart`, and the timer. A `login` goes on to `_schedule` when the
`synchronize` it has called is over, and so does the callback of the timer; in between, other
events come. A `synchronize` whose guard fails is over at once.

The timer may be armed again after a logout, by a call that was on its way; it then does nothing.
But it never goes missing: as long as a user is logged in, there will be another `synchronize`
(`synchronizes_again`).
-/

namespace Syncraft.Field

open Engine (Event Single)

/-- The seconds until the next `synchronize`. -/
def delay (failures : Nat) : Nat :=
  if failures = 0 then 15 else min (max (5 * 2 ^ min failures 6) 5) 300

/-- An engine with its timer. -/
structure Timed where
  engine : Engine
  /-- The seconds of `_timer`, while it is active. -/
  timer : Option Nat
  /-- The calls that will go on to `_schedule`; is the `synchronize` that is under way theirs? -/
  callers : List Bool
  /-- Has a login come to its end, and no logout since? -/
  entered : Bool

namespace Timed

/-- The application has been started. -/
def new (base : DartString) (store : LocalStore) : Timed :=
  { engine := Engine.new base store, timer := none, callers := [], entered := false }

/-- `logout` and `dispose` cancel the timer. -/
def stops : Event → Bool
  | .logout | .dispose => true
  | _ => false

/-- Does the event bring a login to its `synchronize`? -/
def enters (s : Engine) : Event → Bool
  | .enter i _ _ =>
    match s.logins[i]? with
    | some { phase := .bound, .. } => true
    | _ => false
  | _ => false

/-- Who waits, once nothing is under way any more. -/
def awaiting (callers : List Bool) (s : Engine) : List Bool :=
  if s.busy then callers else callers.map fun _ => false

/-- A `synchronize` is called, by one that goes on to `_schedule`. -/
def call (callers : List Bool) (s s' : Engine) : List Bool := callers ++ [!s.busy && s'.busy]

/-- The timer has fired: its callback calls `synchronize`. -/
def fired (s : Timed) : Timed :=
  { s with
    engine := s.engine.synchronize, timer := none
    callers := call s.callers s.engine s.engine.synchronize }

inductive Step (p : Platform) (s : Timed) : Timed → Prop where
  | event (e : Event) : enters s.engine e = false →
      Step p s
        { s with
          engine := s.engine.step p e
          timer := if stops e then none else s.timer
          callers := awaiting s.callers (s.engine.step p e)
          entered := s.entered && !stops e }
  | enter (e : Event) : enters s.engine e = true →
      Step p s
        { s with
          engine := s.engine.step p e
          callers := call s.callers s.engine (s.engine.step p e), entered := true }
  /-- The timer. -/
  | fire (d : Nat) : s.timer = some d → Step p s s.fired
  /-- `_schedule` -/
  | schedule (i : Nat) : s.callers[i]? = some false →
      Step p s
        { s with
          callers := s.callers.eraseIdx i
          timer := if s.engine.disposed then none else some (delay s.engine.failures) }

/-- A state that some steps lead to. -/
def Later (p : Platform) (s s' : Timed) : Prop := Relation.ReflTransGen (Step p) s s'

def Reachable (p : Platform) (s : Timed) : Prop := ∃ base store, Later p (new base store) s

/-- What holds of the timer. -/
structure Inv (s : Timed) : Prop where
  single : s.engine.Single
  timer : ∀ d, s.timer = some d → s.engine.disposed = false ∧ ∃ failures, d = delay failures
  /-- Who waits for a `synchronize` waits for the one that is under way. -/
  callers : true ∈ s.callers → s.engine.busy = true
  /-- The timer is active, or somebody will arm it. -/
  entered : s.entered = true → s.engine.disposed = false → s.timer ≠ none ∨ s.callers ≠ []

theorem delay_range (failures : Nat) : 10 ≤ delay failures ∧ delay failures ≤ 300 := by
  rw [delay]
  split
  · decide
  · next hne =>
      have hpow : 2 ^ 1 ≤ 2 ^ min failures 6 := Nat.pow_le_pow_right (by decide) (by omega)
      omega

section Engines

variable {p : Platform} {s : Engine}

@[simp] theorem synchronize_disposed (s : Engine) : s.synchronize.disposed = s.disposed := by
  obtain ⟨busy, error, runs, heq⟩ := s.synchronize_eq
  rw [heq]

/-- Only `dispose` disposes. -/
theorem step_disposed (h : s.Single) {e : Event} (he : e ≠ .dispose) (p : Platform) :
    (s.step p e).disposed = s.disposed := by
  cases e with
  | call | logout | login => rfl
  | dispose => exact absurd rfl he
  | synchronize => exact synchronize_disposed s
  | setPaused value =>
      obtain ⟨busy, paused, error, runs, heq⟩ := s.setPaused_eq value
      rw [Engine.step, heq]
  | run i o =>
      cases hi : s.runs[i]? with
      | none => rw [Engine.step, hi]
      | some phase =>
          obtain ⟨-, -, ⟨store, next, -, heq⟩ | ⟨-, heq⟩ | ⟨e, -, heq⟩⟩ := Engine.run_cases h hi p o
          · rw [heq]
          · rw [heq]
          · rw [heq]
            rfl
  | enter i o uuid =>
      cases hi : s.logins[i]? with
      | none => rw [Engine.step, hi]
      | some l =>
          rcases Engine.enter_cases hi p o uuid with ⟨-, heq⟩ | ⟨-, store, token, device, logins, heq⟩
          · rw [heq]
            exact synchronize_disposed _
          · rw [heq]

theorem single_step (h : s.Single) (e : Event) (p : Platform) : (s.step p e).Single :=
  Single.step h (p := p) (t := s.step p e) rfl

end Engines

section Steps

variable {p : Platform} {s s' : Timed}

theorem Inv.new (base : DartString) (store : LocalStore) : Inv (new base store) where
  single := Single.new base store
  timer _ h := by cases h
  callers h := by cases h
  entered h := by cases h

/-- Who has called waits for a `synchronize` that is under way. -/
theorem busy_of_call {callers : List Bool} {s s' : Engine}
    (h : true ∈ callers → s.busy = true) (hkeeps : s.busy = true → s'.busy = true)
    (hmem : true ∈ call callers s s') : s'.busy = true := by
  rcases List.mem_append.mp hmem with hmem | hmem
  · exact hkeeps (h hmem)
  · have hstarted := List.mem_singleton.mp hmem
    exact (Bool.and_eq_true _ _ ▸ hstarted.symm).2

theorem synchronize_busy {s : Engine} (h : s.busy = true) : s.synchronize.busy = true := by
  rw [Engine.synchronize, h]
  exact h

/-- What the end of a login does. -/
theorem enters_eq {s : Engine} {e : Event} (he : enters s e = true) (p : Platform) :
    ∃ logins, s.step p e =
      { ({ s with connected := true, error := none } : Engine).synchronize with logins } := by
  cases e with
  | enter i o uuid =>
      rw [enters] at he
      split at he
      · next hl =>
          rcases Engine.enter_cases hl p o uuid with ⟨-, heq⟩ | ⟨hnot, -⟩
          · exact ⟨_, heq⟩
          · exact absurd rfl hnot
      · cases he
  | _ => cases he

/-- It does not end a `synchronize`. -/
theorem enters_busy {s : Engine} {e : Event} (he : enters s e = true) (h : s.busy = true) :
    (s.step p e).busy = true := by
  obtain ⟨logins, heq⟩ := enters_eq he p
  rw [heq]
  exact synchronize_busy (s := { s with connected := true, error := none }) h

theorem enters_disposed {s : Engine} {e : Event} (he : enters s e = true) (p : Platform) :
    (s.step p e).disposed = s.disposed := by
  obtain ⟨logins, heq⟩ := enters_eq he p
  rw [heq]
  exact synchronize_disposed _

theorem Inv.step (h : Inv s) (hstep : Step p s s') : Inv s' := by
  cases hstep with
  | event e he =>
      have hdisposed : stops e = false → (s.engine.step p e).disposed = s.engine.disposed := by
        intro hstops
        exact step_disposed h.single (by rintro rfl; cases hstops) p
      exact
        { single := single_step h.single e p
          timer := fun d hd => by
            dsimp only at hd
            split at hd
            · cases hd
            · next hstops =>
                rw [hdisposed (Bool.not_eq_true _ ▸ hstops)]
                exact h.timer d hd
          callers := fun hmem => by
            dsimp only [awaiting] at hmem
            split at hmem
            · next hbusy => exact hbusy
            · obtain ⟨_, -, hfalse⟩ := List.mem_map.mp hmem
              cases hfalse
          entered := fun hentered hnot => by
            rw [Bool.and_eq_true, Bool.not_eq_true'] at hentered
            rw [hdisposed hentered.2] at hnot
            dsimp only [awaiting]
            rw [hentered.2, if_neg Bool.false_ne_true]
            refine (h.entered hentered.1 hnot).imp_right fun hne => ?_
            split
            · exact hne
            · simpa using hne }
  | enter e he =>
      exact
        { single := single_step h.single e p
          timer := fun d hd => by
            rw [enters_disposed he]
            exact h.timer d hd
          callers := busy_of_call h.callers (enters_busy he)
          entered := fun _ _ => .inr (by simp [call]) }
  | fire d hd =>
      exact
        { single := h.single.synchronize
          timer := fun _ h => by cases h
          callers := busy_of_call h.callers synchronize_busy
          entered := fun _ _ => .inr (by simp [fired, call]) }
  | schedule i hi =>
      exact
        { single := h.single
          timer := fun d hd => by
            dsimp only at hd
            split at hd
            · cases hd
            · next hdisposed =>
                exact ⟨Bool.not_eq_true _ ▸ hdisposed, _, (Option.some.inj hd).symm⟩
          callers := fun hmem => h.callers (List.mem_of_mem_eraseIdx hmem)
          entered := fun _ hnot => by
            left
            dsimp only at hnot ⊢
            rw [hnot]
            exact Option.some_ne_none _ }

theorem Later.inv (hlater : Later p s s') (h : Inv s) : Inv s' := by
  induction hlater with
  | refl => exact h
  | tail _ hstep ih => exact ih.step hstep

/-! ### The next `synchronize` -/

/-- A `synchronize` that is under way can end. -/
theorem exists_idle (p : Platform) (h : Inv s) :
    ∃ s', Later p s s' ∧ s'.engine.runs = [] ∧ s'.engine.paused = s.engine.paused ∧
      s'.engine.disposed = s.engine.disposed ∧ s'.entered = s.entered ∧
      (s'.engine.connected = s.engine.connected ∨
        s'.engine.connected = false ∧ ∃ phase ∈ s.engine.runs, phase.refused = true) := by
  induction he : s.engine using Engine.lost_induction p generalizing s with
  | idle e hruns => exact ⟨s, .refl, he ▸ hruns, by rw [he], by rw [he], rfl, .inl (by rw [he])⟩
  | lost e phase hget ih =>
    subst he
    have hstep : Step p s _ := .event (.run 0 .lost) rfl
    have hi := h.step hstep
    simp only [stops, Bool.not_false, Bool.and_true] at hstep hi
    obtain ⟨s', hlater, hruns, hpaused, hdisposed, hentered, hconnected⟩ := ih hi rfl
    refine ⟨s', .head hstep hlater, hruns, ?_⟩
    have hmem : phase ∈ s.engine.runs := List.mem_of_getElem? hget
    obtain ⟨-, -, ⟨store, next, hadvance, heq⟩ | ⟨-, heq⟩ | ⟨e, rfl, heq⟩⟩ :=
      Engine.run_cases h.single hget p .lost
    · rw [heq] at hpaused hdisposed hconnected
      refine ⟨hpaused, hdisposed, hentered, hconnected.imp_right fun ⟨hoff, x, hx, hrefused⟩ => ?_⟩
      obtain rfl := List.mem_singleton.mp hx
      exact ⟨hoff, phase, hmem, (Engine.advance_lost hadvance).2 ▸ hrefused⟩
    · rw [heq] at hpaused hdisposed hconnected
      refine ⟨hpaused, hdisposed, hentered, hconnected.imp_right fun ⟨_, x, hx, _⟩ => ?_⟩
      cases hx
    · rw [heq] at hpaused hdisposed hconnected
      refine ⟨hpaused, hdisposed, hentered, ?_⟩
      rcases hconnected with hsame | ⟨-, x, hx, -⟩
      · replace hsame : s'.engine.connected = (s.engine.connected && !e.unauthorized) := hsame
        cases hrefused : e.unauthorized with
        | false => exact .inl (by rw [hsame, hrefused, Bool.not_false, Bool.and_true])
        | true =>
            exact .inr ⟨by rw [hsame, hrefused, Bool.not_true, Bool.and_false], .caught e, hmem,
              hrefused⟩
      · cases hx

/-- `_schedule` is reached, or has been. -/
theorem exists_armed (p : Platform) (h : Inv s) (hruns : s.engine.runs = [])
    (hentered : s.entered = true) (hnot : s.engine.disposed = false) :
    ∃ s' d, Later p s s' ∧ s'.engine = s.engine ∧ s'.timer = some d := by
  cases ht : s.timer with
  | some d => exact ⟨s, d, .refl, rfl, ht⟩
  | none =>
      have hne := (h.entered hentered hnot).resolve_left (absurd ht)
      obtain ⟨caller, rest, hcallers⟩ := List.exists_cons_of_ne_nil hne
      -- Nobody waits for a `synchronize` any more.
      have hready : caller = false := by
        cases hcaller : caller with
        | false => rfl
        | true =>
            have hbusy := h.callers (by rw [hcallers, hcaller]; exact List.mem_cons_self)
            rw [h.single.not_busy hruns] at hbusy
            cases hbusy
      refine ⟨_, delay s.engine.failures, .single (.schedule 0 (by rw [hcallers, hready]; rfl)), rfl, ?_⟩
      rw [hnot]
      rfl

/-- When the timer fires and nothing stands in the way, a `synchronize` begins, and the callback
waits for it. -/
theorem fired_begins (h : Inv s) {d : Nat} (hd : s.timer = some d) (hruns : s.engine.runs = [])
    (hpaused : s.engine.paused = false) (hconnected : s.engine.connected = true) :
    s.fired.engine.runs = [.pushing 0] ∧ true ∈ s.fired.callers := by
  have hidle := h.single.not_busy hruns
  have hguard : (s.engine.busy || s.engine.paused || !s.engine.connected ||
      s.engine.disposed) = false := by
    rw [hidle, hpaused, hconnected, (h.timer d hd).1]
    rfl
  have hbegun : s.engine.synchronize =
      { s.engine with busy := true, error := none, runs := [.pushing 0] } := by
    rw [Engine.synchronize, hguard, hruns]
    rfl
  constructor
  · show s.engine.synchronize.runs = _
    rw [hbegun]
  · show true ∈ call s.callers s.engine s.engine.synchronize
    simp [call, hbegun, hidle]

/-- **There is always another `synchronize`.** The timer is active only while the application is
there, for 10 to 300 seconds; and whenever it fires with no `synchronize` under way, one begins,
unless the user has paused or the application is not connected. As long as a user is logged in,
whatever has happened, the timer is active or comes to be while no `synchronize` is under way, and
one that is under way can come to its end: it then leaves the application connected as it was,
unless the server has turned the session away. -/
theorem synchronizes_again (h : Reachable p s) :
    (∀ d, s.timer = some d → s.engine.disposed = false ∧ 10 ≤ d ∧ d ≤ 300 ∧ Step p s s.fired ∧
      (s.engine.runs = [] → s.engine.paused = false → s.engine.connected = true →
        s.fired.engine.runs = [.pushing 0] ∧ true ∈ s.fired.callers)) ∧
    (s.entered = true → s.engine.disposed = false →
      (s.engine.runs = [] → ∃ t d, Later p s t ∧ t.engine = s.engine ∧ t.timer = some d) ∧
      ∃ t d, Later p s t ∧ t.timer = some d ∧ t.engine.runs = [] ∧
        t.engine.paused = s.engine.paused ∧
        (t.engine.connected = s.engine.connected ∨
          t.engine.connected = false ∧ ∃ phase ∈ s.engine.runs, phase.refused = true) ∧
        (t.engine.paused = false → t.engine.connected = true →
          Step p t t.fired ∧ t.fired.engine.runs = [.pushing 0])) := by
  obtain ⟨base, store, hlater⟩ := h
  have hi := Later.inv hlater (Inv.new base store)
  refine ⟨fun d hd => ?_, fun hentered hnot => ⟨fun hruns => ?_, ?_⟩⟩
  · obtain ⟨hdisposed, failures, rfl⟩ := hi.timer d hd
    obtain ⟨hmin, hmax⟩ := delay_range failures
    exact ⟨hdisposed, hmin, hmax, .fire _ hd, fired_begins hi hd⟩
  · exact exists_armed p hi hruns hentered hnot
  · obtain ⟨u, hsu, hnone, hpaused, hdisposed, hentered', hconnected⟩ := exists_idle p hi
    have hiu := Later.inv hsu hi
    obtain ⟨t, d, hut, heq, hd⟩ :=
      exists_armed p hiu hnone (hentered'.trans hentered) (hdisposed.trans hnot)
    have hruns : t.engine.runs = [] := by
      rw [heq]
      exact hnone
    refine ⟨t, d, hsu.trans hut, hd, hruns, ?_, ?_, fun hrun hon => ⟨.fire d hd, ?_⟩⟩
    · rw [heq, hpaused]
    · rw [heq]
      exact hconnected
    · exact (fired_begins (Later.inv hut hiu) hd hruns hrun hon).1

end Steps

/-! ### A run -/

/-- What an event does. -/
def after (p : Platform) (s : Timed) (e : Event) : Timed :=
  if enters s.engine e then
    { s with
      engine := s.engine.step p e
      callers := call s.callers s.engine (s.engine.step p e), entered := true }
  else
    { s with
      engine := s.engine.step p e
      timer := if stops e then none else s.timer
      callers := awaiting s.callers (s.engine.step p e)
      entered := s.entered && !stops e }

theorem after_step (p : Platform) (s : Timed) (e : Event) : Step p s (s.after p e) := by
  cases he : enters s.engine e with
  | true =>
      rw [after, he, if_pos rfl]
      exact .enter e he
  | false =>
      rw [after, he, if_neg Bool.false_ne_true]
      exact .event e he

theorem later_events (p : Platform) (s : Timed) (es : List Event) :
    Later p s (es.foldl (after p) s) := by
  induction es generalizing s with
  | nil => exact .refl
  | cons e rest ih => exact .head (after_step p s e) (ih _)

/-- A user has logged in, and the first `synchronize` is under way. It can end, the timer comes to
be active, and when it fires the next one begins. -/
theorem synchronizes_again_run :
    let s := Engine.connecting.foldl (after Engine.plain) (new Engine.localhost LocalStore.new)
    s.engine.busy = true ∧ ∃ t d, Later Engine.plain s t ∧ t.timer = some d ∧
      t.engine.runs = [] ∧ Step Engine.plain t t.fired ∧ t.fired.engine.runs = [.pushing 0] := by
  intro s
  have hs : Reachable Engine.plain s := ⟨_, _, later_events _ _ _⟩
  have hstate : s.engine.busy = true ∧ s.entered = true ∧ s.engine.disposed = false ∧
      s.engine.paused = false ∧ s.engine.connected = true ∧
      (s.engine.runs.all fun phase => !phase.refused) = true := by decide +kernel
  obtain ⟨hbusy, hentered, hdisposed, hpaused, hconnected, haccepted⟩ := hstate
  obtain ⟨t, d, hlater, hd, hruns, hpaused', hconnected', hbegins⟩ :=
    ((synchronizes_again hs).2 hentered hdisposed).2
  have hon : t.engine.connected = true := by
    rcases hconnected' with heq | ⟨-, phase, hphase, hrefused⟩
    · exact heq.trans hconnected
    · have hnot := List.all_eq_true.mp haccepted phase hphase
      rw [hrefused] at hnot
      cases hnot
  obtain ⟨hstep, hrun⟩ := hbegins (hpaused'.trans hpaused) hon
  exact ⟨hbusy, t, d, hlater, hd, hruns, hstep, hrun⟩

end Timed

end Syncraft.Field
