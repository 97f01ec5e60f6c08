import Syncraft.Field.Operation

/-!
# Syncraft.Field.Replica

`lib/domain/replica.dart`. A replica holds operations in the order they were added; adding is
admission to a causal log (`addAll_eq`), so what a replica holds is causal by construction.

The `MapCrdt` the replica fills beside its map is left out: nothing modelled reads it, and its
`putAll` and `merge` complete.
-/

namespace Syncraft.Field

open CausalLog

/-- The loop of `addAll` over the incoming operations. `staged` is a Dart map, which lists
its entries in the order they were put in. -/
def addLoop (staged : List Operation) : List Operation → Except Exn (List Operation)
  | [] => .ok staged
  | op :: rest =>
    match find staged op.id with
    | some existing =>
      if existing.equivalent op then addLoop staged rest
      else .error (.format "Immutable operation ID collision")
    | none =>
      if op.parents.all (fun parent =>
          match find staged parent with
          | some previous => previous.record == op.record && previous.field == op.field
          | none => false) then
        addLoop (staged ++ [op]) rest
      else .error (.format "Missing or invalid causal parent")

/-- What `addAll` throws. -/
def rejectionExn : Rejection → Exn
  | .conflict => .format "Immutable operation ID collision"
  | .orphan => .format "Missing or invalid causal parent"

/-- The loop is admission. -/
theorem addLoop_eq (staged incoming : List Operation) :
    addLoop staged incoming = (admitAll staged incoming).mapError rejectionExn := by
  induction incoming generalizing staged with
  | nil => rfl
  | cons op rest ih =>
      rw [addLoop]
      cases hf : find staged op.id with
      | some existing =>
          dsimp only
          by_cases hs : existing.equivalent op = true
          · rw [if_pos hs, ih, admitAll_cons_ok (admitOne_replay hf hs)]
          · rw [if_neg hs, admitAll_cons_error (admitOne_conflict hf hs)]
            rfl
      | none =>
          dsimp only
          have hadm : op.parents.all (fun parent =>
              match find staged parent with
              | some previous => previous.record == op.record && previous.field == op.field
              | none => false) = true ↔ Admissible staged op := by
            simp only [List.all_eq_true]
            refine forall₂_congr fun p _ => ?_
            cases find staged p with
            | none => simp
            | some q => simp [sameScope_iff]
          by_cases ha : Admissible staged op
          · rw [if_pos (hadm.mpr ha), ih, admitAll_cons_ok (admitOne_fresh hf ha)]
          · rw [if_neg (mt hadm.mp ha), admitAll_cons_error (admitOne_orphan hf ha)]
            rfl

theorem addLoop_ok_iff {staged incoming r : List Operation} :
    addLoop staged incoming = .ok r ↔ admitAll staged incoming = .ok r := by
  simp only [addLoop_eq]
  cases admitAll staged incoming with
  | ok l => simp [Except.mapError]
  | error e => simp [Except.mapError]

/-- A replica: causally ordered operations, each ID once. -/
structure Replica where
  operations : List Operation
  causal : Causal operations

/-- `Replica()` -/
def Replica.empty : Replica := { operations := [], causal := Causal.nil }

/-- `addAll` -/
def Replica.addAll (r : Replica) (incoming : List Operation) : Except Exn Replica :=
  match h : addLoop r.operations incoming with
  | .ok staged => .ok { operations := staged, causal := admitAll_causal r.causal (addLoop_ok_iff.mp h) }
  | .error e => .error e

/-- `addAll` returns what admission makes of the replica. -/
theorem Replica.addAll_eq (r : Replica) (incoming : List Operation) :
    (r.addAll incoming).map Replica.operations =
      (admitAll r.operations incoming).mapError rejectionExn := by
  rw [← addLoop_eq]
  unfold Replica.addAll
  split
  · next h => exact h.symm
  · next h => exact h.symm

theorem Replica.addAll_ok_iff {r r' : Replica} {incoming : List Operation} :
    r.addAll incoming = .ok r' ↔ admitAll r.operations incoming = .ok r'.operations := by
  rw [← addLoop_ok_iff]
  unfold Replica.addAll
  split
  · next l h =>
      constructor
      · intro he
        obtain rfl := Except.ok.inj he
        exact h
      · intro he
        obtain rfl := Except.ok.inj (h.symm.trans he)
        rfl
  · next e h =>
      constructor
      · intro he; cases he
      · intro he; exact absurd (h.symm.trans he) (by simp)

/-- Operations with an ID each load as they are. -/
theorem Replica.operations_of_addAll {ops : List Operation} {r : Replica}
    (h : Replica.empty.addAll ops = .ok r) (hn : (ops.map fun o => o.id).Nodup) :
    r.operations = ops := by
  have hall := admitAll_unseen (Replica.addAll_ok_iff.mp h)
  have hself : unseen (Replica.empty.operations.map CausalNode.key) ops = ops :=
    unseen_eq_self hn fun _ _ => List.not_mem_nil
  rw [hself] at hall
  exact hall

/-- `addAll`, on the replica it is called on: what it completes with, and the replica
afterwards. The loop works on `staged`, a copy, and a throw leaves it unused. -/
def Replica.tryAddAll (r : Replica) (incoming : List Operation) : Except Exn Unit × Replica :=
  match r.addAll incoming with
  | .ok staged => (.ok (), staged)
  | .error e => (.error e, r)

/-- `merge` -/
def Replica.tryMerge (r remote : Replica) : Except Exn Unit × Replica :=
  r.tryAddAll remote.operations

@[ext] theorem Replica.ext {r r' : Replica} (h : r.operations = r'.operations) : r = r' := by
  cases r; cases r'; cases h; rfl

/-- Everything `addAll` can do to a replica. -/
theorem Replica.tryAddAll_cases (r : Replica) (incoming : List Operation) :
    (∃ r', admitAll r.operations incoming = .ok r'.operations ∧
      r.tryAddAll incoming = (.ok (), r')) ∨
    ∃ e, admitAll r.operations incoming = .error e ∧
      r.tryAddAll incoming = (.error (rejectionExn e), r) := by
  have heq := r.addAll_eq incoming
  rw [Replica.tryAddAll]
  cases ha : r.addAll incoming with
  | ok r' => exact Or.inl ⟨r', Replica.addAll_ok_iff.mp ha, rfl⟩
  | error e =>
      rw [ha] at heq
      cases hadm : admitAll r.operations incoming with
      | ok log => rw [hadm] at heq; cases heq
      | error e' =>
          rw [hadm] at heq
          obtain rfl := Except.error.inj heq
          exact Or.inr ⟨e', rfl, rfl⟩

section TryAddAll

variable {r : Replica} {incoming : List Operation}

/-- What is admitted is taken. -/
theorem Replica.tryAddAll_admitted {log : List Operation}
    (h : admitAll r.operations incoming = .ok log) :
    ∃ r', r.tryAddAll incoming = (.ok (), r') ∧ r'.operations = log := by
  rcases r.tryAddAll_cases incoming with ⟨r', hr', htry⟩ | ⟨e, he, -⟩
  · exact ⟨r', htry, Except.ok.inj (hr'.symm.trans h)⟩
  · rw [he] at h
    cases h

/-- What is rejected changes nothing. -/
theorem Replica.tryAddAll_rejected {e : Rejection}
    (h : admitAll r.operations incoming = .error e) :
    r.tryAddAll incoming = (.error (rejectionExn e), r) := by
  rcases r.tryAddAll_cases incoming with ⟨r', hr', -⟩ | ⟨e', he', htry⟩
  · rw [hr'] at h
    cases h
  · obtain rfl := Except.error.inj (he'.symm.trans h)
    exact htry

/-- An `addAll` that completed. -/
theorem Replica.tryAddAll_completed (h : (r.tryAddAll incoming).1 = .ok ()) :
    admitAll r.operations incoming = .ok (r.tryAddAll incoming).2.operations := by
  rcases r.tryAddAll_cases incoming with ⟨r', hr', htry⟩ | ⟨e, -, htry⟩
  · rw [htry]
    exact hr'
  · rw [htry] at h
    cases h

/-- An `addAll` that threw. -/
theorem Replica.tryAddAll_threw (h : (r.tryAddAll incoming).1 ≠ .ok ()) :
    (r.tryAddAll incoming).2 = r := by
  rcases r.tryAddAll_cases incoming with ⟨r', -, htry⟩ | ⟨e, -, htry⟩
  · rw [htry] at h
    exact absurd rfl h
  · rw [htry]

end TryAddAll

end Syncraft.Field
