import Syncraft.Field.Recoverable
import Syncraft.Field.Resolution

/-!
# Syncraft.Field.WorkspaceController

`lib/domain/workspace_controller.dart`: the edits the user makes. `edit` names the versions
its author has observed, which an operation can do for a hundred of them. The number of versions
a field can have is not bounded: `edit_resolves_iff` says when an edit that has observed them all
goes through.
-/

namespace Syncraft.Field.WorkspaceController

open CausalLog
open Domain (ofField)

/-! ### Edits -/

/-- `edit`, up to the refresh. `uuid` is a fresh ID. -/
def edit (s : LocalStore) (record field value : DartString) (observed : List DartString)
    (uuid : DartString) (now : Operation → DartString) : Except Exn LocalStore := do
  let op ← Operation.new { id := uuid, record, field, value, parents := observed }
  s.save [op] now

/-- `archive`: an inspection that was projected has the field. -/
def archive (s : LocalStore) (record : Inspection) (value : Bool) (uuid : DartString)
    (now : Operation → DartString) : Except Exn LocalStore :=
  match record.fields.lookup (dart "archived") with
  | some ops =>
    edit s record.id (dart "archived") (if value then dart "true" else dart "false")
      (ops.map fun o => o.id) uuid now
  | none => .error .other

/-- The IDs of a field's frontier. -/
def observed (s : LocalStore) (record field : DartString) : List DartString :=
  (frontier s.ops record field).map fun o => o.id

/-! ### The constructor -/

theorem new_error_of_count {o : Domain.Operation DartString} (h : 100 < o.parents.length) :
    Operation.new o = .error (.format "Invalid operation") := by
  have hcheck : check o = .error (.format "Invalid operation") := by
    unfold check
    dsimp only
    rw [if_pos]
    simp [h]
  unfold Operation.new
  split
  · next hok => rw [hcheck] at hok; cases hok
  · next e he =>
      rw [hcheck] at he
      rw [Except.error.inj he]

/-- The members of a frontier can be named by an operation with a new ID. -/
theorem accepted_observed {s : LocalStore} (hc : Causal s.ops) {uuid record field value : DartString}
    (hvalid : Accepted { id := uuid, record, field, value, parents := [] }) (hnew : uuid ∉ s.ids)
    (hcount : (observed s record field).length ≤ 100) :
    Accepted { id := uuid, record, field, value, parents := observed s record field } where
  id := hvalid.id
  record := hvalid.record
  limit := hvalid.limit
  count := hcount
  text := hvalid.text
  status := hvalid.status
  priority := hvalid.priority
  checkbox := hvalid.checkbox
  parents := by
    intro p hp
    obtain ⟨o, ho, rfl⟩ := List.mem_map.mp hp
    have hmem := (mem_frontier.mp ho).1
    refine ⟨o.accepted.id, ?_⟩
    rintro rfl
    exact hnew (s.ids_eq ▸ List.mem_map_of_mem hmem)
  nodup := frontier_keys_nodup hc.nodup _

/-! ### Resolution -/

/-- An operation that names the whole frontier is all of the frontier it leads to. -/
theorem frontier_resolved {log : List Operation} (hc : Causal log) {r : Operation}
    (hnew : ∀ o ∈ log, o.id ≠ r.id)
    (hparents : ∀ p, p ∈ r.parents ↔ p ∈ (frontier log r.record r.field).map fun o => o.id) :
    Causal (log ++ [r]) ∧ frontier (log ++ [r]) r.record r.field = [r] := by
  have hlast := hc.snoc_resolution (fun _ h => h) hnew hparents fun o => sameScope_of_field
  have hresolved := hc.resolved (fun _ h => h) (ofField_self r.toOperation) hnew hparents
    (List.Perm.refl (log ++ [r]))
  refine ⟨hlast, List.perm_singleton.mp ?_⟩
  have hnodup : (frontier (log ++ [r]) r.record r.field).Nodup :=
    (frontier_keys_nodup hlast.nodup _).of_map _
  refine (List.perm_ext_iff_of_nodup hnodup (List.nodup_singleton r)).mpr fun a => ?_
  rw [List.mem_singleton]
  -- Nothing of what was seen is left.
  refine (hresolved.mem a).trans ⟨fun h => ?_, fun h => .inr h⟩
  exact h.resolve_left fun hseen => hseen.2 hseen.1

/-- What an edit that has observed the whole frontier comes to. -/
structure Resolves (s s' : LocalStore) (record field value uuid : DartString) : Prop where
  /-- The operation is stored, and it is the frontier. -/
  frontier : ∃ op, frontier s'.ops record field = [op] ∧ op ∈ s'.ops ∧ op.id = uuid ∧
    op.record = record ∧ op.field = field ∧ op.value = value ∧
    ∀ p, p ∈ op.parents ↔ p ∈ observed s record field
  /-- It is queued, after what was. -/
  outbox : s'.outbox.map Queued.id = s.outbox.map Queued.id ++ [uuid]
  /-- Nothing else is stored. -/
  operations : s.ops <+: s'.ops ∧ s'.ops.length = s.ops.length + 1

theorem edit_resolves {s : LocalStore} (hk : s.Kept) (hc : Causal s.ops)
    {uuid record field value : DartString}
    (hvalid : Accepted { id := uuid, record, field, value, parents := [] }) (hnew : uuid ∉ s.ids)
    (now : Operation → DartString) (hcount : (observed s record field).length ≤ 100) :
    ∃ s', edit s record field value (observed s record field) uuid now = .ok s' ∧
      Resolves s s' record field value uuid := by
  have hop := accepted_observed hc hvalid hnew hcount
  have hnewop : Operation.new _ = .ok ⟨_, hop⟩ := Operation.new_ok hop
  generalize hr : (⟨_, hop⟩ : Operation) = op at hnewop
  have hid : op.id = uuid := by rw [← hr]
  have hrecord : op.record = record := by rw [← hr]
  have hfield : op.field = field := by rw [← hr]
  have hvalue : op.value = value := by rw [← hr]
  have hparents : op.parents = observed s record field := by rw [← hr]
  have hfresh : ∀ o ∈ s.ops, o.id ≠ op.stored.id := by
    rintro o ho heq
    rw [stored_id, hid] at heq
    exact hnew (heq ▸ s.ids_eq ▸ List.mem_map_of_mem ho)
  have hnames : ∀ p, p ∈ op.stored.parents ↔ p ∈ observed s record field := fun p =>
    (Domain.sortStrings_perm op.parents).mem_iff.trans (by rw [hparents])
  have hresolved := frontier_resolved hc (r := op.stored) hfresh (by
    show ∀ p, p ∈ op.stored.parents ↔ p ∈ (frontier s.ops op.record op.field).map fun o => o.id
    rw [hrecord, hfield]
    exact hnames)
  have hcausal : Causal (s.ops ++ [op].map Operation.stored) := hresolved.1
  have hsave := LocalStore.save_fresh hk hc (LocalStore.causal_stored_iff.mp hcausal) now
  refine ⟨s.add now [op], ?_, ?_⟩
  · rw [edit, hnewop]
    exact hsave
  · have hops : (s.add now [op]).ops = s.ops ++ [op.stored] := LocalStore.ops_add now [op] s
    refine ⟨⟨op.stored, ?_, ?_, hid, hrecord, hfield, hvalue, hnames⟩, ?_, ?_⟩
    · have hfrontier : frontier (s.ops ++ [op.stored]) op.record op.field = [op.stored] :=
        hresolved.2
      rwa [hrecord, hfield, ← hops] at hfrontier
    · rw [hops]
      exact List.mem_append_right _ List.mem_cons_self
    · rw [LocalStore.outbox_ids_add, List.map_singleton, hid]
    · rw [hops, List.length_append]
      exact ⟨List.prefix_append _ _, rfl⟩

/-- With more than a hundred versions the constructor throws. -/
theorem edit_error {s : LocalStore} {record field : DartString}
    (hmany : 100 < (frontier s.ops record field).length) (value uuid : DartString)
    (now : Operation → DartString) :
    edit s record field value (observed s record field) uuid now =
      .error (.format "Invalid operation") := by
  have hcount : 100 < (observed s record field).length := by rwa [observed, List.length_map]
  rw [edit, new_error_of_count hcount]
  rfl

/-- **Edits.** On a device that has saved edits and applied the server's pages, an edit that has
observed all versions of a field goes through, and is then its only version, if and only if
there are at most a hundred of them. -/
theorem edit_resolves_iff {sha256 : List UInt8 → DartString} {s : LocalStore}
    (hs : LocalStore.Reachable sha256 LocalStore.Call.Complete s)
    {uuid record field value : DartString}
    (hvalid : Accepted { id := uuid, record, field, value, parents := [] }) (hnew : uuid ∉ s.ids)
    (now : Operation → DartString) :
    (∃ s', edit s record field value (observed s record field) uuid now = .ok s' ∧
      Resolves s s' record field value uuid) ↔ (frontier s.ops record field).length ≤ 100 := by
  have hlength : (observed s record field).length = (frontier s.ops record field).length :=
    List.length_map _
  constructor
  · rintro ⟨s', hedit, -⟩
    by_contra hmany
    rw [edit_error (not_le.mp hmany)] at hedit
    cases hedit
  · intro hcount
    exact edit_resolves hs.kept hs.causal hvalid hnew now (hlength ▸ hcount)

/-! ### A hundred and one versions -/

/-- Edits of one title that have not seen each other: all of them are its versions. -/
theorem length_frontier_edited (n : Nat) :
    (frontier (LocalStore.edited n).ops gate.record gate.field).length = n := by
  rw [LocalStore.ops_edited, frontier, CausalLog.frontier]
  have hscope : ∀ o ∈ LocalStore.edits n, ofField gate.record gate.field o.toOperation = true := by
    intro o ho
    obtain ⟨m, -, rfl⟩ := List.mem_map.mp ho
    have hedit : (LocalStore.edit m).toOperation =
        { gate.toOperation with id := Text.utf16Encode (LocalStore.editID m) } := rfl
    rw [hedit]
    simp [ofField]
  have hnone : superseded (LocalStore.edits n)
      (fun o => ofField gate.record gate.field o.toOperation) = [] := by
    refine List.eq_nil_iff_forall_not_mem.mpr fun p hp => ?_
    obtain ⟨o, ho, -, hparent⟩ := mem_superseded.mp hp
    obtain ⟨m, -, rfl⟩ := List.mem_map.mp ho
    have hroot : (LocalStore.edit m).parents = [] := rfl
    have hmem : p ∈ (LocalStore.edit m).parents := hparent
    rw [hroot] at hmem
    cases hmem
  rw [hnone, List.filter_eq_self.mpr hscope, List.length_insertionSort,
    List.filter_eq_self.mpr (by simp), LocalStore.length_edits]

/-- With a hundred and one versions of a title there is no edit that resolves them. -/
theorem edit_unresolvable :
    LocalStore.new.save (LocalStore.edits 101) LocalStore.morning = .ok (LocalStore.edited 101) ∧
      edit (LocalStore.edited 101) gate.record gate.field gate.value
        (observed (LocalStore.edited 101) gate.record gate.field)
        (dart "0c000000-0000-4000-8000-000000000001") LocalStore.morning =
        .error (.format "Invalid operation") := by
  refine ⟨LocalStore.save_edits (by decide), edit_error ?_ _ _ _⟩
  rw [length_frontier_edited]
  decide

/-- Two versions are resolved. -/
theorem edit_resolves_iff_run : ∃ s',
    edit (LocalStore.edited 2) gate.record gate.field gate.value
      (observed (LocalStore.edited 2) gate.record gate.field)
      (dart "0c000000-0000-4000-8000-000000000001") LocalStore.morning = .ok s' ∧
    Resolves (LocalStore.edited 2) s' gate.record gate.field gate.value
      (dart "0c000000-0000-4000-8000-000000000001") := by
  have hs : LocalStore.Reachable (fun _ => []) LocalStore.Call.Complete (LocalStore.edited 2) := by
    have hcall : LocalStore.new.call (fun _ => [])
        (.save (LocalStore.edits 2) LocalStore.morning) = .ok (LocalStore.edited 2) :=
      LocalStore.save_edits (by decide)
    rw [← LocalStore.after_ok hcall]
    exact LocalStore.Reachable.new.call _ trivial
  have hnew : dart "0c000000-0000-4000-8000-000000000001" ∉ (LocalStore.edited 2).ids := by
    rw [LocalStore.ids_eq, LocalStore.ops_edited]
    decide
  refine (edit_resolves_iff hs ?_ hnew LocalStore.morning).mpr ?_
  · decide
  · rw [length_frontier_edited]
    decide

end Syncraft.Field.WorkspaceController
