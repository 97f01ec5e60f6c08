import Syncraft.Field.Engine

/-!
# Syncraft.Field.Refusal

What ends a session. `synchronize` clears the token for an `ApiFailure` with status 401 or 403. Such
an error comes of a response (`refused_of_error`), and of nothing else: no code of the device that a
`synchronize` runs throws one by itself (`Unrefused`).

Without a response a `synchronize` that is under way comes to its end, wherever it stands, and does
not come to be refused (`lost_induction`, `advance_lost`).
-/

namespace Syncraft.Field

open LocalStore (ok_of_bind)

/-! ### Errors of the device -/

/-- Whatever it throws, it does not end the session. -/
def Unrefused {α : Type} (x : Except Exn α) : Prop := ∀ e, x = .error e → e.unauthorized = false

namespace Unrefused

variable {α β : Type}

theorem ok (a : α) : Unrefused (.ok a : Except Exn α) := by
  intro e h
  cases h

theorem error {e : Exn} (h : e.unauthorized = false) : Unrefused (.error e : Except Exn α) := by
  intro e' he
  obtain rfl := Except.error.inj he
  exact h

theorem bind {x : Except Exn α} {f : α → Except Exn β} (hx : Unrefused x)
    (hf : ∀ a, Unrefused (f a)) : Unrefused (x >>= f) := by
  cases x with
  | error e => exact error (hx e rfl)
  | ok a => exact hf a

theorem mapM {f : α → Except Exn β} (hf : ∀ a, Unrefused (f a)) (xs : List α) :
    Unrefused (xs.mapM f) := by
  induction xs with
  | nil => exact ok []
  | cons x xs ih =>
      rw [List.mapM_cons]
      exact (hf x).bind fun y => ih.bind fun ys => ok (y :: ys)

theorem check (o : Domain.Operation DartString) : Unrefused (check o) := by
  unfold Field.check
  dsimp only
  split
  · exact error rfl
  split
  · exact error rfl
  split
  · exact error rfl
  split
  · exact error rfl
  split
  · exact error rfl
  · exact ok ()

attribute [local irreducible] Field.check

theorem fromJson (o : Domain.Operation DartString) : Unrefused (fromJson o) := by
  intro e he
  replace he : Operation.new o = .error e := he
  unfold Operation.new at he
  split at he
  · cases he
  · next e' hcheck =>
      cases he
      exact check o e hcheck

theorem addAll (r : Replica) (incoming : List Operation) : Unrefused (r.addAll incoming) := by
  intro e he
  have heq := r.addAll_eq incoming
  rw [he] at heq
  cases hadmits : CausalLog.admitAll r.operations incoming with
  | ok log => rw [hadmits] at heq; cases heq
  | error rejection =>
      rw [hadmits] at heq
      obtain rfl := Except.error.inj heq
      cases rejection <;> rfl

theorem checkSequence (expected : Int) (entries : List PageEntry) :
    Unrefused (LocalStore.checkSequence expected entries) := by
  induction entries generalizing expected with
  | nil => exact ok expected
  | cons e rest ih =>
      rw [LocalStore.checkSequence]
      split
      · exact error rfl
      · exact ih (expected + 1)

theorem updateRow (id : DartString) (actor created : Option DartString) (s : LocalStore) :
    Unrefused (s.updateRow id actor created) := by
  unfold LocalStore.updateRow
  split
  · exact ok _
  · split
    · exact error rfl
    · exact ok _

theorem applyLoop (xs : List (Operation × PageEntry)) (s : LocalStore) :
    Unrefused (LocalStore.applyLoop xs s) := by
  induction xs generalizing s with
  | nil => exact ok s
  | cons x rest ih => exact (updateRow _ _ _ _).bind ih

theorem applyPage (s : LocalStore) (page : Page) : Unrefused (s.applyPage page) := by
  have hreplica : Unrefused s.replica := by
    rw [LocalStore.replica, LocalStore.operations_eq]
    exact (ok _).bind (addAll _)
  unfold LocalStore.applyPage
  dsimp only
  split
  · exact error rfl
  refine (checkSequence _ _).bind fun expected => ?_
  split
  · exact error rfl
  refine (mapM (fun e : PageEntry => fromJson e.operation) _).bind fun incoming => ?_
  refine hreplica.bind fun r => (addAll r incoming).bind fun _ => ?_
  exact (applyLoop _ _).bind fun _ => ok _

theorem asMap (j : Option Json) : Unrefused (RecoveryBundle.asMap j) := by
  rw [RecoveryBundle.asMap.eq_def]
  split
  · exact ok _
  · exact error rfl

theorem asList (j : Option Json) : Unrefused (RecoveryBundle.asList j) := by
  rw [RecoveryBundle.asList.eq_def]
  split
  · exact ok _
  · exact error rfl

theorem asString (j : Option Json) : Unrefused (RecoveryBundle.asString j) := by
  rw [RecoveryBundle.asString.eq_def]
  split
  · exact ok _
  · exact error rfl

theorem fieldsOf (j : Json) : Unrefused (RecoveryBundle.fieldsOf j) := by
  have hparents : ∀ j, Unrefused (RecoveryBundle.parentsOf j) := by
    intro j
    rw [RecoveryBundle.parentsOf.eq_def]
    split
    · exact ok []
    · exact ok []
    · exact (asList _).bind fun elements => mapM (fun j => asString (some j)) elements
  refine (asMap _).bind fun json => (asString _).bind fun id => (asString _).bind fun record => ?_
  refine (asString _).bind fun field => (asString _).bind fun value => ?_
  exact (hparents _).bind fun parents => ok _

theorem columnOf (p : Platform) (j : Option Json) : Unrefused (p.columnOf j) := by
  rw [Platform.columnOf.eq_def]
  split
  · exact ok none
  · exact ok none
  · split
    · exact ok _
    · exact error rfl

theorem entryOf (p : Platform) (j : Json) : Unrefused (p.entryOf j) := by
  refine (asMap _).bind fun entry => (fieldsOf _).bind fun operation => ?_
  exact (columnOf p _).bind fun actor => (columnOf p _).bind fun created => ok _

theorem pageOf (p : Platform) (j : Json) : Unrefused (p.pageOf j) := by
  refine (asMap _).bind fun page => (asList _).bind fun entries => ?_
  have hentries := mapM (entryOf p) entries
  dsimp only
  split
  · split
    · exact (ok _).bind fun cursor => hentries.bind fun _ => ok _
    · exact (error rfl).bind fun cursor => hentries.bind fun _ => ok _
  · exact (error rfl).bind fun cursor => hentries.bind fun _ => ok _

theorem hashOf (j : Json) : Unrefused (Platform.hashOf j) :=
  (asMap _).bind fun _ => ok _

end Unrefused

/-! ### Outcomes -/

/-- A status of success, and a body of JSON. -/
def Outcome.succeeded : Outcome → Bool
  | .response status body => decide (200 ≤ status ∧ status < 300) && (Json.decode body).isSome
  | .lost => false

/-- A status of 401 or 403, and a body of JSON. -/
def Outcome.refused : Outcome → Bool
  | .response status body => decide (status = 401 ∨ status = 403) && (Json.decode body).isSome
  | .lost => false

section Results

variable {p : Platform} {o : Outcome}

theorem succeeded_iff : o.succeeded = true ↔ ∃ json, p.result o = .ok json := by
  cases o with
  | lost => simp [Outcome.succeeded, Platform.result]
  | response status body =>
      rw [Outcome.succeeded, Platform.result, Bool.and_eq_true, decide_eq_true_eq]
      cases Json.decode body with
      | none => exact ⟨fun h => absurd h.2 (by simp), by simp⟩
      | some json =>
          dsimp only
          split
          · next hstatus => exact ⟨fun h => absurd h.1 (by omega), by simp⟩
          · next hstatus => exact ⟨fun _ => ⟨json, rfl⟩, fun _ => ⟨by omega, rfl⟩⟩

/-- The errors that end the session are the responses that refuse. -/
theorem refused_of_error {e : Exn} (h : p.result o = .error e) : e.unauthorized = o.refused := by
  cases o with
  | lost =>
      cases h
      rfl
  | response status body =>
      rw [Outcome.refused]
      rw [Platform.result] at h
      cases hdecode : Json.decode body with
      | none =>
          rw [hdecode] at h
          cases h
          rw [Option.isSome_none, Bool.and_false]
          rfl
      | some json =>
          rw [hdecode] at h
          dsimp only at h
          split at h
          · cases h
            rw [Exn.unauthorized, Option.isSome_some, Bool.and_true, Bool.decide_or]
            rfl
          · cases h

/-- What was read does not refuse. -/
theorem refused_of_ok {json : Json} (h : p.result o = .ok json) : o.refused = false := by
  have hsucceeded := succeeded_iff.mpr ⟨json, h⟩
  cases o with
  | lost => rfl
  | response status body =>
      rw [Outcome.succeeded, Bool.and_eq_true, decide_eq_true_eq] at hsucceeded
      rw [Outcome.refused, decide_eq_false (by omega), Bool.false_and]

variable {α : Type} {f : Json → Except Exn α}

/-- A response that is read further by code that does not refuse. -/
theorem refused_of_bind_error (hf : ∀ json, Unrefused (f json)) {e : Exn}
    (h : p.result o >>= f = .error e) : e.unauthorized = o.refused := by
  cases hresult : p.result o with
  | error e' =>
      rw [hresult] at h
      obtain rfl := Except.error.inj h
      exact refused_of_error hresult
  | ok json =>
      rw [hresult] at h
      rw [refused_of_ok hresult]
      exact hf json e h

theorem refused_of_bind_ok {a : α} (h : p.result o >>= f = .ok a) : o.refused = false := by
  obtain ⟨json, hresult, -⟩ := ok_of_bind h
  exact refused_of_ok hresult

end Results

/-! ### A `synchronize` that is refused -/

/-- Is there an error that ends the session? -/
def Engine.Phase.refused : Engine.Phase → Bool
  | .recording _ e | .caught e => e.unauthorized
  | _ => false

/-! ### When nothing comes back -/

namespace Engine

/-- How far a `synchronize` is from its end, if nothing comes back. -/
def Phase.rank : Phase → Nat
  | .caught _ => 0
  | .got _ | .sent _ _ | .recording _ _ => 1
  | .posted _ _ | .getting _ _ | .sending _ => 2
  | .posting _ _ | .uploading | .marking _ _ => 3
  | .pulling _ => 4
  | .pushing _ | .applying _ _ => 5
  | .acknowledging _ _ => 6

/-- It gets nearer, and does not come to be refused. -/
theorem advance_lost {p : Platform} {s t : Engine} {phase next : Phase}
    (h : s.advance p .lost phase = (t, some next)) :
    next.rank < phase.rank ∧ next.refused = phase.refused := by
  have hnext : ∀ {u : Engine} {x : Phase}, (u, some x) = (t, some next) → x = next :=
    fun heq => Option.some.inj (Prod.mk.inj heq).2
  cases phase with
  | pushing round =>
      rw [advance] at h
      split at h
      · rw [LocalStore.pending_eq] at h
        obtain rfl := hnext h
        split <;> exact ⟨by simp [Phase.rank], rfl⟩
      · obtain rfl := hnext h
        exact ⟨by simp [Phase.rank], rfl⟩
  | pulling round =>
      obtain rfl := hnext h
      split <;> exact ⟨by simp [Phase.rank], rfl⟩
  | applying round page =>
      rw [advance] at h
      split at h
      · obtain rfl := hnext h
        split <;> exact ⟨by simp [Phase.rank], rfl⟩
      · next e happly =>
          obtain rfl := hnext h
          exact ⟨by simp [Phase.rank], Unrefused.applyPage s.store page e happly⟩
  | sending rows =>
      cases rows with
      | nil => cases h
      | cons row rest =>
          obtain rfl := hnext h
          exact ⟨by simp [Phase.rank], rfl⟩
  | caught e => cases h
  | _ =>
      obtain rfl := hnext h
      exact ⟨by simp [Phase.rank], rfl⟩

/-- **What is shown by letting what is under way end.** It holds where no `synchronize` is, and
before a step in which nothing comes back if it holds after it. -/
theorem lost_induction (p : Platform) {P : Engine → Prop} (idle : ∀ s, s.runs = [] → P s)
    (lost : ∀ s phase, s.runs[0]? = some phase → P (s.step p (.run 0 .lost)) → P s) (s : Engine) :
    P s := by
  -- By induction on the steps that are left, at most.
  induction hn : (s.runs.map fun phase => phase.rank + 1).sum using Nat.strongRecOn generalizing s with
  | ind n ih =>
      cases hruns : s.runs with
      | nil => exact idle s hruns
      | cons phase rest =>
          have hget : s.runs[0]? = some phase := by rw [hruns]; rfl
          refine lost s phase hget (ih _ ?_ _ rfl)
          rw [run_eq hget]
          rcases advance_cases p .lost s phase with ⟨store, next, heq⟩ | ⟨-, heq⟩ | ⟨e, -, heq⟩
          · have hnearer := (advance_lost heq).1
            rw [heq, withRun, ← hn, hruns]
            simp only [List.set_cons_zero, List.map_cons, List.sum_cons]
            omega
          · rw [heq, withRun, ← hn, hruns]
            simp only [List.eraseIdx_cons_zero, List.map_cons, List.sum_cons]
            omega
          · rw [heq, withRun, ← hn]
            show ((s.runs.eraseIdx 0).map fun phase => phase.rank + 1).sum < _
            rw [hruns]
            simp only [List.eraseIdx_cons_zero, List.map_cons, List.sum_cons]
            omega

end Engine

end Syncraft.Field
