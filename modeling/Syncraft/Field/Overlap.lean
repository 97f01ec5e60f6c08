import Syncraft.Library.Run
import Syncraft.Field.Agreement

/-!
# Syncraft.Field.Overlap

Calls of `addAll` and `merge` on one replica that do not wait for each other. `addAll` stages a
copy of the map, awaits the CRDT package, and then puts the copy in the map's place. What another
call has added in between is lost with it (`overlap_loses_operation`), unless the copy has it as
well: `overlap_safe_iff` says that no operation is lost, and no ID taken twice, exactly as long
as this is so. Calls that are awaited one by one are the calls of `Replica` (`awaited_alone`).

The package is left out as it is in `Replica`; what it does with its own map is not read. A call
of it can fail, which ends the call that awaits it (`Event.throws`).
-/

namespace Syncraft.Field

open CausalLog
open Library (Run)

/-- What a call is waiting for. -/
inductive Wait where
  /-- `addAll` awaits `putAll`. It was called on the replica `before`, and has staged `staged`. -/
  | putting (before staged : Replica)
  /-- `merge` awaits the merge of the package; its `addAll` has completed. -/
  | merging

/-- A call of `addAll`, or of `merge` with a replica that has these operations. -/
structure Pending where
  incoming : List Operation
  merges : Bool
  wait : Wait

/-- What the call will put in the map's place is from what was accepted and what it was given; what
it has brought was accepted. -/
def Pending.Traced (accepted : List Operation) (call : Pending) : Prop :=
  match call.wait with
  | .putting before staged =>
    before.addAll call.incoming = .ok staged ∧ ∀ op ∈ before.operations, op ∈ accepted
  | .merging => ∀ op ∈ call.incoming, op ∈ accepted

theorem Pending.Traced.mono {accepted accepted' : List Operation} {call : Pending}
    (h : call.Traced accepted) (hgrows : ∀ op ∈ accepted, op ∈ accepted') :
    call.Traced accepted' := by
  rw [Pending.Traced] at h ⊢
  cases hw : call.wait with
  | putting before staged =>
      rw [hw] at h
      exact ⟨h.1, fun op hop => hgrows op (h.2 op hop)⟩
  | merging =>
      rw [hw] at h
      exact fun op hop => hgrows op (h op hop)

/-- A replica, the calls under way on it, and beside them what has come of the calls before. -/
structure SharedReplica where
  replica : Replica
  calls : List Pending
  /-- What the replica had at first, and what every `addAll` that has completed was given, on its
  own or in a `merge`. -/
  accepted : List Operation
  /-- What each call that has completed was given. -/
  completed : List (List Operation)

namespace SharedReplica

/-- No call is under way. -/
def new (r : Replica) : SharedReplica :=
  { replica := r, calls := [], accepted := r.operations, completed := [] }

/-- What the call awaits completes. `addAll` then puts its copy in the place of the map, whatever
the map has by now; on its own it has completed, and in a `merge` the package is next. -/
def resume (s : SharedReplica) (i : Nat) : SharedReplica :=
  match s.calls[i]? with
  | none => s
  | some call =>
    match call.wait with
    | .putting _ staged =>
      let s := { s with replica := staged, accepted := s.accepted ++ call.incoming }
      if call.merges then { s with calls := s.calls.set i { call with wait := .merging } }
      else { s with calls := s.calls.eraseIdx i, completed := s.completed ++ [call.incoming] }
    | .merging =>
      { s with calls := s.calls.eraseIdx i, completed := s.completed ++ [call.incoming] }

/-- A call has staged its copy. -/
def stage (s : SharedReplica) (incoming : List Operation) (merges : Bool) (staged : Replica) :
    SharedReplica :=
  { s with calls := s.calls ++ [{ incoming, merges, wait := .putting s.replica staged }] }

/-- `addAll`, or the `addAll` of `merge`, up to its await. Without additions there is none, and
it goes on at once. -/
def call (s : SharedReplica) (incoming : List Operation) (merges : Bool) : SharedReplica :=
  match s.replica.addAll incoming with
  | .error _ => s
  | .ok staged =>
    let additions := staged.operations.drop s.replica.operations.length
    if additions.isEmpty then (s.stage incoming merges staged).resume s.calls.length
    else s.stage incoming merges staged

/-- What can happen to the replica. -/
inductive Event where
  | addAll (incoming : List Operation)
  | merge (remote : Replica)
  /-- What the call awaits completes. -/
  | resume (i : Nat)
  /-- What the call awaits throws, and with it the call. -/
  | throws (i : Nat)

def step (s : SharedReplica) : Event → SharedReplica
  | .addAll incoming => s.call incoming false
  | .merge remote => s.call remote.operations true
  | .resume i => s.resume i
  | .throws i => { s with calls := s.calls.eraseIdx i }

/-- When `addAll` goes on after its await, whatever the replica has by now was in it when
`addAll` was called, or is in what it was given. -/
def covers (s : SharedReplica) : Event → Bool
  | .resume i =>
    match s.calls[i]? with
    | some { incoming, wait := .putting before _, .. } =>
      decide (∀ op ∈ s.replica.operations, Held before.operations op ∨ Held incoming op)
    | _ => true
  | _ => true

/-- Nothing is lost, and no ID is taken twice. -/
structure Safe (s : SharedReplica) : Prop where
  accepted : ∀ op ∈ s.accepted, Held s.replica.operations op
  completed : ∀ incoming ∈ s.completed, ∀ op ∈ incoming, Held s.replica.operations op
  agree : ∀ a ∈ s.accepted, ∀ b ∈ s.accepted, a.id = b.id → a.equivalent b = true

/-! ### Where operations come from -/

/-- Whatever the replica has, and whatever a call has brought, is among what was accepted. -/
structure Traced (s : SharedReplica) : Prop where
  replica : ∀ op ∈ s.replica.operations, op ∈ s.accepted
  calls : ∀ call ∈ s.calls, call.Traced s.accepted
  completed : ∀ incoming ∈ s.completed, ∀ op ∈ incoming, op ∈ s.accepted

section Steps

variable {s : SharedReplica} {incoming : List Operation} {merges : Bool} {staged : Replica}
  {i : Nat}

/-- Everything a call can do when what it awaits completes. -/
theorem resume_cases {call : Pending} (hi : s.calls[i]? = some call) :
    (∃ before staged calls completed, call.wait = .putting before staged ∧
      s.resume i =
        { replica := staged, calls, accepted := s.accepted ++ call.incoming, completed } ∧
      (calls = s.calls.set i { call with wait := .merging } ∧ completed = s.completed ∨
        calls = s.calls.eraseIdx i ∧ completed = s.completed ++ [call.incoming])) ∨
    call.wait = .merging ∧
      s.resume i =
        { s with calls := s.calls.eraseIdx i, completed := s.completed ++ [call.incoming] } := by
  rw [resume, hi]
  dsimp only
  cases hw : call.wait with
  | putting before staged =>
      refine Or.inl ⟨before, staged, ?_⟩
      cases call.merges with
      | true => exact ⟨_, _, rfl, rfl, Or.inl ⟨rfl, rfl⟩⟩
      | false => exact ⟨_, _, rfl, rfl, Or.inr ⟨rfl, rfl⟩⟩
  | merging => exact Or.inr ⟨rfl, rfl⟩

/-- Everything a new call can do before it waits. -/
theorem call_cases (s : SharedReplica) (incoming : List Operation) (merges : Bool) :
    (∃ e, s.replica.addAll incoming = .error e) ∧ s.call incoming merges = s ∨
      ∃ staged, s.replica.addAll incoming = .ok staged ∧
        (s.call incoming merges = s.stage incoming merges staged ∨
          s.call incoming merges = (s.stage incoming merges staged).resume s.calls.length) := by
  rw [call]
  cases hadd : s.replica.addAll incoming with
  | error e => exact Or.inl ⟨⟨e, rfl⟩, rfl⟩
  | ok staged =>
      refine Or.inr ⟨staged, rfl, ?_⟩
      dsimp only
      split
      · exact Or.inr rfl
      · exact Or.inl rfl

theorem Traced.stage (h : Traced s) (hadd : s.replica.addAll incoming = .ok staged) :
    Traced (s.stage incoming merges staged) :=
  { replica := h.replica
    calls := by
      intro call hcall
      rcases List.mem_append.mp hcall with hcall | hcall
      · exact h.calls call hcall
      · obtain rfl := List.mem_singleton.mp hcall
        exact ⟨hadd, h.replica⟩
    completed := h.completed }

/-- The copy is put in the map's place: it has what was there before the call, and what came
with it. -/
theorem Traced.puts (h : Traced s) {before : Replica} (hadd : before.addAll incoming = .ok staged)
    (hbefore : ∀ op ∈ before.operations, op ∈ s.accepted) :
    Traced { s with replica := staged, accepted := s.accepted ++ incoming } := by
  have hgrows : ∀ op ∈ s.accepted, op ∈ s.accepted ++ incoming :=
    fun op => List.mem_append_left _
  constructor
  case replica =>
    intro op hop
    rcases mem_of_admitAll (Replica.addAll_ok_iff.mp hadd) hop with hop | hop
    · exact hgrows op (hbefore op hop)
    · exact List.mem_append_right _ hop
  case calls => exact fun call hcall => (h.calls call hcall).mono hgrows
  case completed => exact fun given hgiven op hop => hgrows op (h.completed given hgiven op hop)

/-- A call completes. -/
theorem Traced.completes (h : Traced s) (hincoming : ∀ op ∈ incoming, op ∈ s.accepted) (i : Nat) :
    Traced { s with calls := s.calls.eraseIdx i, completed := s.completed ++ [incoming] } :=
  { replica := h.replica
    calls := fun call hcall => h.calls call (List.mem_of_mem_eraseIdx hcall)
    completed :=
      List.forall_mem_append.mpr ⟨h.completed, List.forall_mem_singleton.mpr hincoming⟩ }

/-- A `merge` goes on to the package. -/
theorem Traced.goesOn (h : Traced s) {call : Pending}
    (hincoming : ∀ op ∈ call.incoming, op ∈ s.accepted) (i : Nat) :
    Traced { s with calls := s.calls.set i { call with wait := .merging } } :=
  { replica := h.replica
    calls := by
      intro other hother
      rcases List.mem_or_eq_of_mem_set hother with hother | rfl
      · exact h.calls other hother
      · exact hincoming
    completed := h.completed }

theorem Traced.resume (h : Traced s) (i : Nat) : Traced (s.resume i) := by
  cases hi : s.calls[i]? with
  | none =>
      rw [SharedReplica.resume, hi]
      exact h
  | some call =>
      have hcall := h.calls call (List.mem_of_getElem? hi)
      rcases resume_cases hi with
        ⟨before, staged, calls, completed, hwait, heq, hrest⟩ | ⟨hwait, heq⟩
      · rw [Pending.Traced, hwait] at hcall
        have hputs := h.puts hcall.1 hcall.2
        have hincoming : ∀ op ∈ call.incoming, op ∈ s.accepted ++ call.incoming :=
          fun op => List.mem_append_right _
        rw [heq]
        rcases hrest with ⟨rfl, rfl⟩ | ⟨rfl, rfl⟩
        · exact hputs.goesOn hincoming i
        · exact hputs.completes hincoming i
      · rw [Pending.Traced, hwait] at hcall
        rw [heq]
        exact h.completes hcall i

theorem Traced.call (h : Traced s) (incoming : List Operation) (merges : Bool) :
    Traced (s.call incoming merges) := by
  rcases s.call_cases incoming merges with ⟨-, heq⟩ | ⟨staged, hadd, heq | heq⟩
  · rwa [heq]
  · rw [heq]
    exact h.stage hadd
  · rw [heq]
    exact (h.stage hadd).resume _

theorem Traced.step (h : Traced s) (e : Event) : Traced (s.step e) := by
  cases e with
  | addAll incoming => exact h.call incoming false
  | merge remote => exact h.call remote.operations true
  | resume i => exact h.resume i
  | throws i =>
      exact { h with calls := fun call hcall => h.calls call (List.mem_of_mem_eraseIdx hcall) }

/-! ### What is lost -/

/-- It is enough that the replica has what was accepted. -/
theorem Traced.safe_iff (h : Traced s) :
    Safe s ↔ ∀ op ∈ s.accepted, Held s.replica.operations op := by
  constructor
  · exact Safe.accepted
  · intro hall
    refine ⟨hall, fun incoming hin op hop => hall op (h.completed incoming hin op hop), ?_⟩
    exact fun a ha b hb hid => s.replica.causal.same_of_held (hall a ha) (hall b hb) hid

/-- **A copy may take the map's place exactly when it covers it.** -/
theorem Traced.resume_safe_iff (h : Traced s) (hs : Safe s) (i : Nat) :
    s.covers (.resume i) = true ↔ Safe (s.resume i) := by
  rw [(h.resume i).safe_iff, covers]
  cases hi : s.calls[i]? with
  | none =>
      rw [SharedReplica.resume, hi]
      exact iff_of_true rfl hs.accepted
  | some call =>
      have hcall := h.calls call (List.mem_of_getElem? hi)
      obtain ⟨incoming, merges, wait⟩ := call
      rcases resume_cases hi with
        ⟨before, staged, calls, completed, rfl, heq, -⟩ | ⟨rfl, heq⟩
      · have hadmits := Replica.addAll_ok_iff.mp hcall.1
        simp only [heq, decide_eq_true_eq, ← held_admitAll hadmits]
        constructor
        · intro hcov op hop
          rcases List.mem_append.mp hop with hop | hop
          · exact (hs.accepted op hop).trans hcov
          · exact (held_admitAll hadmits).mpr (.inr (Held.of_mem hop))
        · exact fun hall op hop => hall op (List.mem_append_left _ (h.replica op hop))
      · rw [heq]
        exact iff_of_true rfl hs.accepted

theorem stage_self : (s.stage incoming merges staged).calls[s.calls.length]? =
    some { incoming, merges, wait := .putting s.replica staged } :=
  List.getElem?_concat_length

/-- A copy made just now covers the map. -/
theorem covers_stage_self (s : SharedReplica) (incoming : List Operation) (merges : Bool)
    (staged : Replica) :
    (s.stage incoming merges staged).covers (.resume s.calls.length) = true := by
  rw [covers, stage_self]
  exact decide_eq_true fun op hop => .inl (Held.of_mem hop)

theorem Safe.call (h : Traced s) (hs : Safe s) (incoming : List Operation) (merges : Bool) :
    Safe (s.call incoming merges) := by
  rcases s.call_cases incoming merges with ⟨-, heq⟩ | ⟨staged, hadd, heq | heq⟩
  · rwa [heq]
  · rw [heq]
    exact ⟨hs.accepted, hs.completed, hs.agree⟩
  · rw [heq]
    have hstaged : Safe (s.stage incoming merges staged) :=
      ⟨hs.accepted, hs.completed, hs.agree⟩
    exact ((h.stage hadd).resume_safe_iff hstaged _).mp (covers_stage_self s incoming merges staged)

theorem step_safe_iff (h : Traced s) (hs : Safe s) (e : Event) :
    s.covers e = true ↔ Safe (s.step e) := by
  cases e with
  | addAll incoming => exact iff_of_true rfl (hs.call h incoming false)
  | merge remote => exact iff_of_true rfl (hs.call h remote.operations true)
  | resume i => exact h.resume_safe_iff hs i
  | throws i => exact iff_of_true rfl ⟨hs.accepted, hs.completed, hs.agree⟩

end Steps

theorem Traced.new (r : Replica) : Traced (new r) :=
  { replica := fun _ hop => hop
    calls := List.forall_mem_nil _
    completed := List.forall_mem_nil _ }

theorem Safe.new (r : Replica) : Safe (new r) :=
  (Traced.new r).safe_iff.mpr fun _ hop => Held.of_mem hop

/-- **Overlapping calls lose nothing exactly when every copy covers the map it replaces.** Of any
calls of `addAll` and `merge` on any replica, in any order of starting, going on and failing:
after every step all operations accepted so far are held, those of the completed calls with
them, and none has the ID of another with other content, if and only if, whenever an `addAll`
went on after its await, all the replica had by then was in it when that `addAll` was called or
was given to it. -/
theorem overlap_safe_iff (r : Replica) (es : List Event) :
    Run.allows step covers (new r) es = true ↔
      ∀ es₁, es₁ <+: es → Safe (es₁.foldl step (new r)) :=
  Run.allows_iff (fun _ e h => h.step e) (fun _ e h hs => step_safe_iff h hs e) (Traced.new r)
    (Safe.new r)

/-- The site of the same inspection. -/
def harbour : Operation :=
  ⟨{ gate.toOperation with
     id := dart "0b000000-0000-4000-8000-00000000000d"
     field := dart "site", value := dart "Harbour" }, by decide⟩

/-- Another title under the ID of the first. -/
def pier : Operation := ⟨{ gate.toOperation with value := dart "Pier" }, by decide⟩

/-- The two are added to an empty replica, the second while the first awaits the package. -/
def overlapping (first second : Operation) : SharedReplica :=
  [.addAll [first], .addAll [second], .resume 0, .resume 0].foldl step (new .empty)

/-- Both calls complete. The title is lost, and a second title is accepted under its ID. -/
theorem overlap_loses_operation :
    ((overlapping gate harbour).completed = [[gate], [harbour]] ∧
      (overlapping gate harbour).calls.isEmpty = true ∧
      ¬ Held (overlapping gate harbour).replica.operations gate) ∧
    (overlapping gate pier).completed = [[gate], [pier]] ∧ gate.id = pier.id ∧
      gate.equivalent pier = false := by
  decide

/-! ### One call at a time -/

/-- A call and all it awaits, with nothing in between. -/
def awaited (e : Event) : List Event := [e, .resume 0, .resume 0]

/-- The call on a replica of its own. -/
def alone (r : Replica) : Event → Replica
  | .addAll incoming => (r.tryAddAll incoming).2
  | .merge remote => (r.tryMerge remote).2
  | .resume _ | .throws _ => r

section Awaited

variable {s : SharedReplica}

theorem resume_idle (h : s.calls = []) (i : Nat) :
    s.resume i = s ∧ s.covers (.resume i) = true := by
  simp [resume, covers, h]

/-- A call that was staged on its own goes on, and completes at the latest the next time. -/
theorem stage_alone (h : s.calls = []) (incoming : List Operation) (merges : Bool)
    (staged : Replica) :
    let t := (s.stage incoming merges staged).resume 0
    t.covers (.resume 0) = true ∧ (t.resume 0).calls = [] ∧ (t.resume 0).replica = staged := by
  cases merges with
  | true => simp [stage, resume, covers, h]
  | false => simp [stage, resume, covers, h]

theorem call_awaited (h : s.calls = []) (incoming : List Operation) (merges : Bool) :
    let t := s.call incoming merges
    t.covers (.resume 0) = true ∧ (t.resume 0).covers (.resume 0) = true ∧
      ((t.resume 0).resume 0).calls = [] ∧
      ((t.resume 0).resume 0).replica = (s.replica.tryAddAll incoming).2 := by
  rcases s.call_cases incoming merges with ⟨⟨e, hadd⟩, heq⟩ | ⟨staged, hadd, heq | heq⟩
  · obtain ⟨hresume, hcovers⟩ := resume_idle h 0
    simp [heq, hresume, hcovers, h, Replica.tryAddAll, hadd]
  · obtain ⟨hcovers, hcalls, hreplica⟩ := stage_alone h incoming merges staged
    have hfirst := covers_stage_self s incoming merges staged
    rw [h] at hfirst
    simp only [heq, Replica.tryAddAll, hadd]
    exact ⟨hfirst, hcovers, hcalls, hreplica⟩
  · obtain ⟨hcovers, hcalls, hreplica⟩ := stage_alone h incoming merges staged
    rw [h] at heq
    obtain ⟨hresume, hidle⟩ := resume_idle hcalls 0
    simp only [heq, Replica.tryAddAll, hadd, List.length_nil, hresume]
    exact ⟨hcovers, hidle, hcalls, hreplica⟩

/-- **Awaited calls** cover what they replace, and come to the calls on the replica alone. -/
theorem awaited_alone (h : s.calls = []) (es : List Event) :
    Run.allows step covers s (es.flatMap awaited) = true ∧
      ((es.flatMap awaited).foldl step s).replica = es.foldl alone s.replica := by
  induction es generalizing s with
  | nil => exact ⟨rfl, rfl⟩
  | cons e es ih =>
      have hone : s.covers e = true ∧ (s.step e).covers (.resume 0) = true ∧
          ((s.step e).resume 0).covers (.resume 0) = true ∧
          (((s.step e).resume 0).resume 0).calls = [] ∧
          (((s.step e).resume 0).resume 0).replica = alone s.replica e := by
        cases e with
        | addAll incoming => exact ⟨rfl, call_awaited h incoming false⟩
        | merge remote => exact ⟨rfl, call_awaited h remote.operations true⟩
        | resume i =>
            obtain ⟨hstep, hcovers⟩ := resume_idle h i
            obtain ⟨hzero, hcovers₀⟩ := resume_idle h 0
            rw [step, hstep, hzero, hzero]
            exact ⟨hcovers, hcovers₀, hcovers₀, h, rfl⟩
        | throws i =>
            obtain ⟨hzero, hcovers₀⟩ := resume_idle h 0
            have hstep : s.step (.throws i) = s := by
              obtain ⟨replica, calls, accepted, completed⟩ := s
              obtain rfl := h
              rfl
            rw [hstep, hzero, hzero]
            exact ⟨rfl, hcovers₀, hcovers₀, h, rfl⟩
      obtain ⟨h₁, h₂, h₃, hcalls, hreplica⟩ := hone
      obtain ⟨hallows, hfold⟩ := ih hcalls
      rw [hreplica] at hfold
      refine ⟨?_, hfold⟩
      show (s.covers e && ((s.step e).covers (.resume 0) &&
        (((s.step e).resume 0).covers (.resume 0) && _))) = true
      rw [h₁, h₂, h₃]
      exact hallows

end Awaited

end SharedReplica

end Syncraft.Field
