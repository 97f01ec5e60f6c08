import Syncraft.Library.JsonBytes
import Syncraft.Field.Recoverable

/-!
# Syncraft.Field.PushBody

The body of the push request that `synchronize` builds from `pending`, and its size. The limits
of an operation are checked on bytes without escapes, that of a request on bytes with them:
`push_body_fits_iff` says which batches the server's `decode` can take.
-/

namespace Syncraft.Field

open Text
open LocalStore (editID)

/-- What `pending` returns. -/
def LocalStore.batch (s : LocalStore) : List Operation :=
  (s.ops.filter fun o => s.queued o.id).take 100

/-- `jsonEncode({'operations': …})`, in UTF-8. -/
def pushBody (batch : List Operation) : List UInt8 :=
  toGo (Json.obj [(dart "operations",
    .arr (batch.map fun o => RecoveryBundle.operationJson o.toJson))]).encode

/-- The limit of the server's `decode`. -/
def bodyLimit : Nat := 2 * 1024 * 1024

/-- The bytes of an operation in a push: those of its value, one or more for every character of it
that JSON escapes, 39 for a parent, and the rest. -/
def pushBytes (o : Operation) : Nat :=
  128 + o.field.length + utf8Length o.value + Json.escapes o.value + (39 * o.parents.length - 1)

/-! ### The size of an operation -/

theorem bytes_id {s : DartString} (h : idPattern s = true) : Json.bytes (Json.quote s) = 38 := by
  have hlength := Domain.uuidPattern_length h
  rw [List.length_map] at hlength
  rw [Json.bytes_quote_plain, hlength]
  intro u hu
  have hchar := Domain.uuidPattern_chars h _ (List.mem_map_of_mem hu)
  simp only [Domain.idChar, Domain.hexDigit, Bool.or_eq_true, Bool.and_eq_true,
    decide_eq_true_eq] at hchar
  refine ⟨by omega, by omega, ?_, ?_⟩
  · rintro rfl
    exact absurd hchar (by decide)
  · rintro rfl
    exact absurd hchar (by decide)

theorem bytes_field {s : DartString} {n : Nat} (h : fieldLimits.lookup s = some n) :
    Json.bytes (Json.quote s) = s.length + 2 := by
  have hall : (fieldLimits.map Prod.fst).all (fun f => f.all fun u =>
      decide (0x20 ≤ u.toNat ∧ u.toNat < 0x80 ∧ u ≠ 0x22 ∧ u ≠ 0x5C)) = true := by decide
  rw [List.all_eq_true] at hall
  have hf := List.all_eq_true.mp (hall s (mem_of_lookup h))
  exact Json.bytes_quote_plain fun u hu => of_decide_eq_true (hf u hu)

/-- A list of parents. -/
theorem bytes_parents {ps : List DartString} (h : ∀ p ∈ ps, idPattern p = true) :
    Json.bytes (Json.arr (ps.map .str)).encode = 39 * ps.length - 1 + 2 := by
  have hsum : ((ps.map Json.str).map fun j => Json.bytes j.encode + 1).sum = 39 * ps.length := by
    have hall : ∀ p ∈ ps, Json.bytes (Json.str p).encode + 1 = 39 := by
      intro p hp
      rw [Json.encode, bytes_id (h p hp)]
    have hmap : (ps.map Json.str).map (fun j => Json.bytes j.encode + 1) = ps.map fun _ => 39 := by
      rw [List.map_map]
      exact List.map_congr_left hall
    rw [hmap, List.map_const', List.sum_replicate_nat, Nat.mul_comm]
  rw [Json.bytes_array, hsum]

theorem bytes_operation (o : Operation) :
    Json.bytes (RecoveryBundle.operationJson o.toJson).encode = pushBytes o := by
  obtain ⟨n, hfield, -⟩ := o.accepted.limit
  have hperm := Domain.sortStrings_perm o.parents
  have hparents := bytes_parents fun p hp =>
    (o.accepted.parents p (hperm.mem_iff.mp hp)).1
  rw [hperm.length_eq] at hparents
  have hid := bytes_id o.accepted.id
  have hrecord := bytes_id o.accepted.record
  have hname := bytes_field hfield
  have hkeys : Json.bytes (Json.quote (dart "id")) = 4 ∧
      Json.bytes (Json.quote (dart "record")) = 8 ∧ Json.bytes (Json.quote (dart "field")) = 7 ∧
      Json.bytes (Json.quote (dart "value")) = 7 ∧
      Json.bytes (Json.quote (dart "parents")) = 9 := by decide
  obtain ⟨h₁, h₂, h₃, h₄, h₅⟩ := hkeys
  have hvalue := Json.bytes_quote o.value
  have hutf8 : Json.bytes o.value = utf8Length o.value := rfl
  rw [RecoveryBundle.operationJson, Json.bytes_object]
  simp only [List.map_cons, List.map_nil, List.sum_cons, List.sum_nil, Operation.toJson, h₁, h₂, h₃,
    h₄, h₅, hparents]
  simp only [Json.encode, hid, hrecord, hname, hvalue, hutf8, pushBytes]
  omega

/-- The size of a body: the operations, the commas and the frame. -/
theorem length_pushBody (batch : List Operation) :
    (pushBody batch).length = (batch.map fun o => pushBytes o + 1).sum - 1 + 17 := by
  have hkey : Json.bytes (Json.quote (dart "operations")) = 12 := by decide
  have hmap : (batch.map fun o => RecoveryBundle.operationJson o.toJson).map
      (fun j => Json.bytes j.encode + 1) = batch.map fun o => pushBytes o + 1 := by
    rw [List.map_map]
    exact List.map_congr_left fun o _ => congrArg (· + 1) (bytes_operation o)
  have harray := Json.bytes_array (batch.map fun o => RecoveryBundle.operationJson o.toJson)
  rw [hmap] at harray
  show Json.bytes (Json.obj _).encode = _
  rw [Json.bytes_object]
  simp only [List.map_cons, List.map_nil, List.sum_cons, List.sum_nil, hkey, harray]
  omega

/-! ### Which batches fit -/

/-- The bytes of an operation in a push, with its comma, were there nothing to escape. -/
def plainBytes (o : Operation) : Nat :=
  129 + o.field.length + utf8Length o.value + (39 * o.parents.length - 1)

/-- The bytes that a batch leaves for the escapes of its values. -/
def room (batch : List Operation) : Nat := bodyLimit - ((batch.map plainBytes).sum + 16)

/-- The bytes that escaping adds to the values of a batch. -/
def escapeBytes (batch : List Operation) : Nat := (batch.map fun o => Json.escapes o.value).sum

theorem plainBytes_le (o : Operation) : plainBytes o ≤ 20033 := by
  obtain ⟨n, hfield, hvalue⟩ := o.accepted.limit
  have hall : fieldLimits.all (fun f => decide (f.1.length + f.2 ≤ 16005)) = true := by
    decide
  obtain ⟨l, l', htable, -⟩ := List.lookup_eq_some_iff.mp hfield
  have hmem : (o.field, n) ∈ fieldLimits := by simp [htable]
  have hsum := of_decide_eq_true (List.all_eq_true.mp hall _ hmem)
  dsimp only at hsum
  have hcount := o.accepted.count
  rw [plainBytes]
  omega

/-- A hundred operations are about two million bytes at most. -/
theorem plainBytes_sum_le {batch : List Operation} (h : batch.length ≤ 100) :
    (batch.map plainBytes).sum ≤ 2003300 := by
  have hsum : ∀ ops : List Operation, (ops.map plainBytes).sum ≤ 20033 * ops.length := by
    intro ops
    induction ops with
    | nil => simp
    | cons o ops ih =>
        have ho := plainBytes_le o
        simp only [List.map_cons, List.sum_cons, List.length_cons]
        omega
  have hbatch := hsum batch
  omega

theorem length_pushBody_eq {batch : List Operation} (h : batch ≠ []) :
    (pushBody batch).length = (batch.map plainBytes).sum + escapeBytes batch + 16 := by
  have hsplit : ∀ ops : List Operation, (ops.map fun o => pushBytes o + 1).sum =
      (ops.map plainBytes).sum + escapeBytes ops := by
    intro ops
    induction ops with
    | nil => rfl
    | cons o ops ih =>
        simp only [escapeBytes, List.map_cons, List.sum_cons, pushBytes, plainBytes] at ih ⊢
        omega
  have hpos : 0 < (batch.map plainBytes).sum := by
    obtain ⟨o, ops, rfl⟩ := List.exists_cons_of_ne_nil h
    simp only [List.map_cons, List.sum_cons, plainBytes]
    omega
  rw [length_pushBody, hsplit]
  omega

/-- The body fits if and only if its escapes do. -/
theorem length_pushBody_le_iff {batch : List Operation} (h : batch.length ≤ 100) :
    (pushBody batch).length ≤ bodyLimit ↔ escapeBytes batch ≤ room batch := by
  have hplain := plainBytes_sum_le h
  by_cases hnil : batch = []
  · subst hnil
    decide
  · rw [length_pushBody_eq hnil, room, bodyLimit]
    omega

/-! ### A batch that does not fit -/

/-- A body over the limit is refused, whatever is in it. -/
theorem decode_eq_none {α : Type} (read : List UInt8 → Option α) {r : Api.Request}
    (h : bodyLimit < r.body.length) : Api.Server.decode read r = none :=
  if_pos h

/-- After a failed push the same batch is pending. -/
theorem batch_failed (s : LocalStore) (ids : List DartString) (error : DartString) :
    (s.failed ids error).batch = s.batch := by
  have hqueued : ∀ id, (s.failed ids error).queued id = s.queued id := by
    intro id
    simp [LocalStore.queued, LocalStore.failed, List.any_map, Function.comp_def]
  simp only [LocalStore.batch, hqueued]
  rfl

/-- **Push bodies.** The body of a push is at most 2 MiB if and only if what escaping adds to the
values of the batch fits in the room the batch leaves, which is never less than 93,836
bytes. A body over the limit is refused, and the same batch is pending after that. -/
theorem push_body_fits_iff (s : LocalStore) :
    ((pushBody s.batch).length ≤ bodyLimit ↔ escapeBytes s.batch ≤ room s.batch) ∧
    93836 ≤ room s.batch ∧
    (¬ escapeBytes s.batch ≤ room s.batch →
      (∀ (read : List UInt8 → Option (List (Domain.Operation GoString))) (r : Api.Request),
        r.body = pushBody s.batch → Api.Server.decode read r = none) ∧
      ∀ error, (s.failed (s.batch.map fun o => o.id) error).batch = s.batch) := by
  have hcount : s.batch.length ≤ 100 := List.length_take_le _ _
  have hfits := length_pushBody_le_iff hcount
  refine ⟨hfits, ?_, fun hnot => ⟨fun read r hr => decode_eq_none read ?_, batch_failed s _⟩⟩
  · have hplain := plainBytes_sum_le hcount
    rw [room, bodyLimit]
    omega
  · rw [hr]
    exact not_le.mp (mt hfits.mp hnot)

/-- Text that is nothing but line breaks. -/
def breaks (n : Nat) : DartString := List.replicate n 0xA

theorem breaks_eq (n : Nat) : breaks n = utf16Encode (List.replicate n '\n') := by
  induction n with
  | zero => rfl
  | succ n ih =>
      rw [breaks, List.replicate_succ, List.replicate_succ, utf16Encode_cons, ← ih]
      rfl

theorem utf8Length_breaks (n : Nat) : utf8Length (breaks n) = n := by
  have hascii : ∀ c ∈ List.replicate n '\n', c.toNat < 0x80 := by
    intro c hc
    rw [List.eq_of_mem_replicate hc]
    decide
  rw [utf8Length, breaks_eq, utf16Lossy_utf16Encode, Json.length_utf8Encode_ascii hascii,
    List.length_replicate]

theorem escapes_breaks (n : Nat) : Json.escapes (breaks n) = n := by
  rw [Json.escapes, breaks_eq, runes_utf16Encode, List.map_replicate, List.map_replicate,
    List.sum_replicate_nat]
  exact Nat.mul_one n

theorem accepted_note (n : Nat) : Accepted
    { id := utf16Encode (editID n), record := utf16Encode (editID (1000 + n)),
      field := dart "notes", value := breaks 16000, parents := [] } := by
  have hlimit : fieldLimits.lookup (dart "notes") = some 16000 := by decide
  have hother : dart "notes" ≠ dart "title" ∧ dart "notes" ≠ dart "site" ∧
      dart "notes" ≠ dart "status" ∧ dart "notes" ≠ dart "priority" ∧
      dart "notes" ≠ dart "archived" ∧ (dart "check.").isPrefixOf (dart "notes") = false := by
    decide
  obtain ⟨h₁, h₂, h₃, h₄, h₅, h₆⟩ := hother
  constructor
  case id => exact (idPattern_utf16Encode _).trans (LocalStore.textID_editID n)
  case record => exact (idPattern_utf16Encode _).trans (LocalStore.textID_editID _)
  case limit => exact ⟨16000, hlimit, (utf8Length_breaks 16000).le⟩
  case count => exact Nat.zero_le _
  case text => exact fun h => absurd h (not_or.mpr ⟨h₁, h₂⟩)
  case status => exact fun h => absurd h h₃
  case priority => exact fun h => absurd h h₄
  case checkbox => exact fun h => absurd h (not_or.mpr ⟨h₅, by rw [h₆]; exact Bool.false_ne_true⟩)
  case parents => exact List.forall_mem_nil _
  case nodup => exact List.nodup_nil

/-- The first notes of an inspection. -/
def note (n : Nat) : Operation := ⟨_, accepted_note n⟩

def notes (n : Nat) : List Operation := (List.range n).map note

/-- A database in which the notes of some inspections have been set. -/
def noted (n : Nat) : LocalStore := LocalStore.new.add LocalStore.morning (notes n)

theorem notes_roots {n : Nat} : ∀ o ∈ notes n, o.parents = [] := by
  intro o ho
  obtain ⟨m, -, rfl⟩ := List.mem_map.mp ho
  rfl

theorem ids_notes (n : Nat) :
    ((notes n).map fun o => o.id) = (LocalStore.edits n).map fun o => o.id := by
  have hnote : ∀ m, (note m).id = utf16Encode (editID m) := fun _ => rfl
  have hedit : ∀ m, (LocalStore.edit m).id = utf16Encode (editID m) := fun _ => rfl
  rw [notes, LocalStore.edits, List.map_map, List.map_map]
  refine List.map_congr_left fun m _ => ?_
  rw [Function.comp_apply, Function.comp_apply, hnote, hedit]

theorem save_notes {n : Nat} (hn : n ≤ 10 ^ 12) :
    LocalStore.new.save (notes n) LocalStore.morning = .ok (noted n) :=
  LocalStore.save_new
    (LocalStore.causal_roots (ids_notes n ▸ LocalStore.ids_edits_nodup hn) notes_roots) _

/-- All of it is pending. -/
theorem batch_noted {n : Nat} (hn : n ≤ 100) : (noted n).batch = notes n := by
  have hops : (noted n).ops = notes n := LocalStore.ops_add_roots notes_roots _
  have hqueued : ∀ o ∈ notes n, (noted n).queued o.id = true := by
    intro o ho
    rw [LocalStore.queued_iff, noted, LocalStore.outbox_ids_add]
    exact List.mem_append_right _ (List.mem_map_of_mem ho)
  have hlength : (notes n).length ≤ 100 := by rwa [notes, List.length_map, List.length_range]
  rw [LocalStore.batch, hops, List.filter_eq_self.mpr hqueued, List.take_of_length_le hlength]

/-- Sixty-six inspections whose notes are line breaks are more than a push can carry. -/
theorem push_body_too_long :
    LocalStore.new.save (notes 66) LocalStore.morning = .ok (noted 66) ∧
      bodyLimit < (pushBody (noted 66).batch).length := by
  have hfield : (dart "notes").length = 5 := by decide
  have hplain : ∀ o ∈ notes 66, plainBytes o = 16134 := by
    intro o ho
    obtain ⟨m, -, rfl⟩ := List.mem_map.mp ho
    rw [plainBytes, note, utf8Length_breaks, hfield, List.length_nil]
  have hescape : ∀ o ∈ notes 66, Json.escapes o.value = 16000 := by
    intro o ho
    obtain ⟨m, -, rfl⟩ := List.mem_map.mp ho
    exact escapes_breaks 16000
  have hlength : (notes 66).length = 66 := by rw [notes, List.length_map, List.length_range]
  have hne : notes 66 ≠ [] := by
    intro h
    rw [h] at hlength
    cases hlength
  refine ⟨save_notes (by decide), ?_⟩
  rw [batch_noted (by decide), length_pushBody_eq hne, escapeBytes, List.map_congr_left hplain,
    List.map_congr_left hescape, List.map_const', List.map_const', List.sum_replicate_nat,
    List.sum_replicate_nat, hlength, bodyLimit]
  decide

end Syncraft.Field
