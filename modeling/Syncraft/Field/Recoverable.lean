import Syncraft.Api.Isolation
import Syncraft.Api.Uploads
import Syncraft.Field.ApiClient
import Syncraft.Field.StoreRun

/-!
# Syncraft.Field.Recoverable

Which bundles that were exported can be restored. Whatever the writers of the store have put into
it, `restore` takes every attachment back (`Reachable.exportable`) and every operation, as long as
the table is in causal order. But it takes ten thousand operations at most, which `export` does not
look at: `bundle_restores_iff` says exactly when a bundle is taken back.
-/

namespace Syncraft.Field

open CausalLog Text
open RecoveryBundle (Restorable Attaches exportBytes restoreBytes)

namespace LocalStore

/-- A call as it is made: a generated ID is an ID, and what `fetch` stores are a listed row of the
record asked for and a download, both of attachments that a handler of the server has accepted. -/
def Call.Genuine (S : Api.Server) : Call → Prop
  | .add _ _ _ _ uuid => idPattern uuid = true
  | .storeFetched record row data =>
      (∃ a, S.Accepts a ∧ a.record = toGo record ∧ ApiClient.receiveAttachment a = some row) ∧
        ∃ a, S.Accepts a ∧ a.data = data
  | _ => True

/-! ### Attachments -/

theorem mediaType_of_fromGo {g : GoString} {s : DartString} (hg : g ∈ Api.mediaTypes)
    (h : fromGo g = some s) : s ∈ RecoveryBundle.mediaTypes := by
  have hread : ∀ t : String, fromGo (go t) = some (dart t) := fun t => fromGo_text _
  simp only [Api.mediaTypes, List.mem_cons, List.not_mem_nil, or_false] at hg
  rcases hg with rfl | rfl | rfl | rfl
  all_goals
    obtain rfl := Option.some.inj ((hread _).symm.trans h)
    simp [RecoveryBundle.mediaTypes]

theorem name_of_fromGo {g : GoString} {s : DartString} (h : fromGo g = some s)
    (hg : g ≠ [] ∧ g.length ≤ 200 ∧ g.any Api.forbidden = false) :
    s ≠ [] ∧ s.length ≤ 200 ∧ s.any RecoveryBundle.forbidden = false := by
  obtain ⟨hne, hlen, hascii⟩ := units_of_fromGo h
  refine ⟨hne hg.1, Nat.le_trans hlen hg.2.1, List.any_eq_false.mpr fun u hu hbad => ?_⟩
  -- A forbidden unit would have been a forbidden byte.
  have hcases : u.toNat = 0x2F ∨ u.toNat = 0x5C ∨ u.toNat = 0xD ∨ u.toNat = 0xA := by
    simp only [RecoveryBundle.forbidden, Bool.or_eq_true, beq_iff_eq] at hbad
    rcases hbad with ((rfl | rfl) | rfl) | rfl <;> decide
  obtain ⟨b, hb, hbu⟩ := hascii u hu (by omega)
  refine List.any_eq_false.mp hg.2.2 b hb ?_
  simp only [Api.forbidden, Bool.or_eq_true, beq_iff_eq, ← UInt8.toNat_inj, hbu, UInt8.reduceToNat]
  omega

theorem idPattern_of_fromGo {g : GoString} {s : DartString} (hg : Domain.validID g = true)
    (h : fromGo g = some s) : idPattern s = true := by
  have hascii : ∀ b ∈ g, b.toNat < 128 := fun b hb =>
    Domain.idChar_lt (Domain.uuidPattern_chars hg _ (List.mem_map_of_mem hb))
  rw [← Text.utf8Encode_ascii hascii] at h hg
  rw [fromGo_text] at h
  obtain rfl := Option.some.inj h
  rw [idPattern_utf16Encode, ← validID_utf8Encode]
  exact hg

theorem idPattern_of_toGo {s : DartString} (h : Domain.validID (toGo s) = true) :
    idPattern s = true := by
  have hid := idPattern_of_fromGo h (fromGo_text _)
  have hsame : toGo s = toGo (utf16Encode (utf16Lossy s)) := by
    rw [toGo, toGo, utf16Lossy_utf16Encode]
  rwa [(toGo_eq_ascii (ascii_id hid)).mp hsame]

/-- **What handlers have accepted, a restore accepts**, when it has come through a `fetch`. -/
theorem restorable_of_accepted {S : Api.Server} {sha256 : List UInt8 → DartString}
    {record : DartString} {row : AttachmentStore.RemoteRow} {data : List UInt8}
    (h : Call.Genuine S (.storeFetched record row data)) (hhash : row.sha256 = sha256 data) :
    Restorable sha256
      { id := row.id, record, name := row.name, mediaType := row.type, sha256 := row.sha256,
        content := data, uploaded := true } := by
  obtain ⟨⟨a, ⟨r, id, hup⟩, hrecord, hrow⟩, b, ⟨r', id', hup'⟩, rfl⟩ := h
  have hlisted := Api.Server.uploaded_ok hup
  have hloaded := Api.Server.uploaded_ok hup'
  obtain ⟨hid, hname, htype, -, -⟩ := ApiClient.receiveAttachment_some hrow
  exact
    { id := idPattern_of_fromGo (hlisted.id.1 ▸ hlisted.id.2) hid
      record := idPattern_of_toGo (hrecord ▸ hlisted.record.1 ▸ hlisted.record.2)
      nonempty := hloaded.data.1 ▸ hloaded.data.2.1
      size := hloaded.data.1 ▸ hloaded.data.2.2
      hash := hhash
      media := mediaType_of_fromGo hlisted.media htype
      name := name_of_fromGo hname hlisted.name }

/-- The attachments would all pass the checks of a restore. -/
structure Exportable (sha256 : List UInt8 → DartString) (s : LocalStore) : Prop where
  rows : ∀ r ∈ s.attachments, Restorable sha256 r
  unique : (s.attachments.map AttachmentRow.id).Nodup

theorem Exportable.attaches {sha256 : List UInt8 → DartString} {s s' : LocalStore}
    (h : Exportable sha256 s) (ha : Attaches sha256 s s') : Exportable sha256 s' := by
  obtain ⟨added, hadded, hrows⟩ := ha.rows
  refine ⟨fun r hr => ?_, ha.unique h.unique⟩
  rcases List.mem_append.mp (hadded ▸ hr) with hr | hr
  · exact h.rows r hr
  · exact (hrows r hr).1

theorem Exportable.marked {sha256 : List UInt8 → DartString} {s : LocalStore}
    (h : Exportable sha256 s) (id : DartString) :
    Exportable sha256 (AttachmentStore.markUploaded id s) := by
  constructor
  · intro r hr
    obtain ⟨x, hx, rfl⟩ := List.mem_map.mp hr
    have hold := h.rows x hx
    split
    · exact { hold with }
    · exact hold
  · rw [AttachmentStore.markUploaded_ids]
    exact h.unique

theorem Exportable.inserted {sha256 : List UInt8 → DartString} {s s' : LocalStore}
    (h : Exportable sha256 s) {row : AttachmentRow} (hrow : Restorable sha256 row)
    (hinsert : RecoveryBundle.insertAttachment row s = .ok s') : Exportable sha256 s' := by
  have hunique := RecoveryBundle.insertAttachment_nodup hinsert h.unique
  obtain ⟨-, rfl⟩ := AttachmentStore.insertAttachment_ok hinsert
  refine ⟨fun r hr => ?_, hunique⟩
  rcases List.mem_append.mp hr with hr | hr
  · exact h.rows r hr
  · obtain rfl := List.mem_singleton.mp hr
    exact hrow

/-- Every call keeps the attachments such as a restore accepts. -/
theorem Exportable.after {S : Api.Server} {sha256 : List UInt8 → DartString} {s : LocalStore}
    (hk : Kept s) (h : Exportable sha256 s) {c : Call} (hc : c.Genuine S) :
    Exportable sha256 (s.after sha256 c) := by
  cases hcall : s.call sha256 c with
  | error e => rwa [after_error hcall]
  | ok s' =>
      rw [after_ok hcall]
      have hattaches : c.Offline → Exportable sha256 s' := fun hoffline =>
        h.attaches (call_attaches hk hoffline hcall)
      cases c with
      | confirmUpload row hash =>
          obtain ⟨-, rfl⟩ := AttachmentStore.confirmUpload_ok hcall
          exact h.marked row.id
      | storeFetched record row data =>
          obtain ⟨hhash, hinsert⟩ := AttachmentStore.storeFetched_ok hcall
          exact h.inserted (restorable_of_accepted hc hhash) hinsert
      | add record name media bytes uuid => exact hattaches hc
      | _ => exact hattaches trivial

/-- **Every attachment that is ever stored can be restored.** -/
theorem Reachable.exportable {S : Api.Server} {sha256 : List UInt8 → DartString} {s : LocalStore}
    (h : Reachable sha256 (Call.Genuine S) s) : Exportable sha256 s := by
  induction h with
  | new => exact ⟨List.forall_mem_nil _, List.nodup_nil⟩
  | call c hs hc ih => exact ih.after hs.kept hc

/-! ### Restoring what was exported -/

/-- What `export` puts into a bundle. -/
def payload (s : LocalStore) : Payload :=
  { operations := s.ops.map Operation.toJson, attachments := s.attachments }

/-- The bundle of the store, whatever its size. -/
def bundle (sha256 : List UInt8 → DartString) (s : LocalStore) : List UInt8 :=
  Field.toGo (Json.obj
    (RecoveryBundle.envelope sha256 (RecoveryBundle.payloadJson s.payload).encode)).encode

theorem exportBytes_eq (sha256 : List UInt8 → DartString) (s : LocalStore) :
    exportBytes sha256 s =
      if (s.bundle sha256).length > RecoveryBundle.maxBytes then
        .error (.format "Recovery bundle exceeds 50 MiB")
      else .ok (s.bundle sha256) := by
  rw [exportBytes, RecoveryBundle.exportBundle, operations_eq]
  rfl

/-- An export that returned has written the payload, within the limit. -/
theorem export_ok {sha256 : List UInt8 → DartString} {s : LocalStore} {bytes : List UInt8}
    (h : exportBytes sha256 s = .ok bytes) :
    RecoveryBundle.contentOf sha256 bytes = .ok (RecoveryBundle.payloadJson s.payload).encode ∧
      bytes.length ≤ RecoveryBundle.maxBytes := by
  rw [exportBytes_eq] at h
  split at h
  · cases h
  next hsize =>
  obtain rfl := Except.ok.inj h
  exact ⟨RecoveryBundle.contentOf_envelope sha256 _, Nat.not_lt.mp hsize⟩

theorem read_payload (s : LocalStore) : s.payload.operations.mapM fromJson = .ok s.ops := by
  refine mapM_ok_iff.mpr ?_
  rw [payload, ops]
  simp only [List.map_map]
  refine List.map_congr_left fun r _ => ?_
  show fromJson r.op.stored.toJson = .ok r.op.stored
  rw [fromJson_toJson, stored_stored]

/-- What a restore of the store leaves behind in a database that held nothing. -/
structure Restored (s s' : LocalStore) (uuid : DartString) : Prop where
  operations : s'.ops = s.ops
  outbox : s'.outbox.map Queued.id = s.ids
  attachments : s'.attachments = s.attachments.map fun r => { r with uploaded := false }
  cursor : s'.storedCursor = none
  device : s'.device = some uuid

section Restoring

variable {sha256 : List UInt8 → DartString} {s t : LocalStore}

/-- A payload in causal order is restored. -/
theorem restore_payload (hs : Exportable sha256 s) (hcount : s.ops.length ≤ 10000)
    (hc : Causal s.ops) (ht : Kept t) (hops : t.ops = []) (hattachments : t.attachments = [])
    (now : Operation → DartString) :
    RecoveryBundle.restore sha256 t s.payload now = .ok { t.add now s.ops with
      attachments := s.attachments.map fun r => { r with uploaded := false }
      device := none, storedCursor := none } := by
  have hlength : ¬ s.payload.operations.length > 10000 := by
    rw [payload, List.length_map]
    exact Nat.not_lt.mpr hcount
  have hadds : Replica.empty.addAll s.ops = .ok { operations := s.ops, causal := hc } :=
    Replica.addAll_ok_iff.mpr hc.admitAll_eq
  have hchecked : s.payload.attachments.mapM (RecoveryBundle.checkAttachment sha256) =
      .ok (s.attachments.map fun r => { r with uploaded := false }) := by
    refine mapM_ok_iff.mpr ?_
    rw [List.map_map]
    exact List.map_congr_left fun r hr => RecoveryBundle.checkAttachment_ok (hs.rows r hr)
  have hids := ids_nil hops
  have hrows : t.rows = [] := List.map_eq_nil_iff.mp hids
  have hloop := RecoveryBundle.operationLoop_new ht.outbox now hc.nodup
    fun o _ => by rw [hids]; exact List.not_mem_nil
  have hunique : ((s.attachments.map fun r => { r with uploaded := false }).map
      AttachmentRow.id).Nodup := by
    rw [List.map_map]
    exact hs.unique
  have hinsert := RecoveryBundle.attachmentLoop_new (s := t.add now s.ops) hunique
    fun row _ x hx => by
      have hnone : x ∈ t.attachments := hx
      rw [hattachments] at hnone
      cases hnone
  have hnone : (t.add now s.ops).attachments = [] := hattachments
  rw [RecoveryBundle.restore, operations_eq, ok_bind, if_neg (not_not.mpr hops),
    if_neg hlength, read_payload, ok_bind, hadds, ok_bind, hchecked,
    ok_bind, RecoveryBundle.transaction, if_neg (not_not.mpr hrows), hloop,
    ok_bind, hinsert, hnone, List.nil_append]
  rfl

/-- A payload of more than ten thousand operations is refused. -/
theorem restore_many {payload : Payload} (hops : t.ops = [])
    (hlength : payload.operations.length > 10000) (now : Operation → DartString) :
    RecoveryBundle.restore sha256 t payload now = .error (.format "Too many operations") := by
  rw [RecoveryBundle.restore, operations_eq, ok_bind, if_neg (not_not.mpr hops),
    if_pos hlength]

/-- A payload that was restored had ten thousand operations at most, in causal order. -/
theorem payload_of_restore (ht : Kept t) {s' : LocalStore} {now : Operation → DartString}
    (h : RecoveryBundle.restore sha256 t s.payload now = .ok s') :
    s.ops.length ≤ 10000 ∧ Causal s.ops := by
  obtain ⟨ops, attachments, hdone⟩ := RecoveryBundle.restore_ok ht.outbox h
  obtain rfl := Except.ok.inj ((read_payload s).symm.trans hdone.read)
  refine ⟨Nat.not_lt.mp fun hmany => ?_, hdone.causal⟩
  have hops : t.ops = [] := by rw [LocalStore.ops, hdone.empty]; rfl
  have hlength : s.payload.operations.length > 10000 := by
    rwa [payload, List.length_map]
  rw [restore_many hops hlength] at h
  cases h

end Restoring

/-- **When an exported bundle can be restored.** However the store came about, and into any
database without operations and attachments: all of it comes back exactly when there are ten
thousand operations at most and they are in causal order. -/
theorem bundle_restores_iff {S : Api.Server} {sha256 : List UInt8 → DartString} {s t : LocalStore}
    (h : Reachable sha256 (Call.Genuine S) s) (ht : Kept t) (hops : t.ops = [])
    (hattachments : t.attachments = []) {bytes : List UInt8}
    (hexport : exportBytes sha256 s = .ok bytes) (now : Operation → DartString)
    (uuid : DartString) :
    (∃ t', restoreBytes sha256 t bytes now uuid = .ok (s.ops.length, t') ∧ Restored s t' uuid) ↔
      s.ops.length ≤ 10000 ∧ Causal s.ops := by
  have hs := h.exportable
  obtain ⟨hcontent, hsize⟩ := export_ok hexport
  have hrestore := RecoveryBundle.restoreBytes_eq hsize hcontent hs.rows t now uuid
  constructor
  · rintro ⟨t', hok, -⟩
    rw [hrestore] at hok
    cases hpayload : RecoveryBundle.restore sha256 t s.payload now with
    | error e => rw [hpayload] at hok; cases hok
    | ok t₁ => exact payload_of_restore ht hpayload
  · rintro ⟨hcount, hc⟩
    rw [hrestore, restore_payload hs hcount hc ht hops hattachments now]
    have hlength : s.payload.operations.length = s.ops.length := List.length_map _
    rw [hlength]
    refine ⟨_, rfl, ?_⟩
    have hids := ids_nil hops
    have houtbox : t.outbox.map Queued.id = [] := by
      refine List.eq_nil_iff_forall_not_mem.mpr fun id hid => ?_
      have := ht.outbox id hid
      rw [hids] at this
      cases this
    constructor
    case operations =>
      show (t.add now s.ops).ops = s.ops
      rw [ops_add, hops, List.nil_append, ops, List.map_map]
      exact List.map_congr_left fun r _ => stored_stored r.op
    case outbox =>
      show (t.add now s.ops).outbox.map Queued.id = s.ids
      rw [outbox_ids_add, houtbox, List.nil_append, ids_eq]
    all_goals rfl

/-! ### Ten thousand edits and one -/

/-- The last `k` decimal digits. -/
def digits : Nat → Nat → List Char
  | 0, _ => []
  | k + 1, n => digits k (n / 10) ++ [JsonText.hexChar (n % 10)]

theorem length_digits (k n : Nat) : (digits k n).length = k := by
  induction k generalizing n with
  | zero => rfl
  | succ k ih => rw [digits, List.length_append, ih, List.length_singleton]

theorem digits_range {k n : Nat} : ∀ c ∈ digits k n, 48 ≤ c.toNat ∧ c.toNat ≤ 57 := by
  induction k generalizing n with
  | zero => exact List.forall_mem_nil _
  | succ k ih =>
      intro c hc
      rcases List.mem_append.mp hc with hc | hc
      · exact ih c hc
      · have hall : ∀ d : Fin 10,
            48 ≤ (JsonText.hexChar d).toNat ∧ (JsonText.hexChar d).toNat ≤ 57 := by decide
        rw [List.mem_singleton.mp hc]
        exact hall ⟨n % 10, Nat.mod_lt _ (by decide)⟩

theorem digits_inj {k n m : Nat} (h : digits k n = digits k m) : n % 10 ^ k = m % 10 ^ k := by
  induction k generalizing n m with
  | zero => rw [Nat.pow_zero, Nat.mod_one, Nat.mod_one]
  | succ k ih =>
      obtain ⟨hinit, hlast⟩ := List.append_inj' h rfl
      have hdigit : n % 10 = m % 10 := by
        have hvalue := congrArg JsonText.hexValue (List.singleton_inj.mp hlast)
        rw [JsonText.hexValue_hexChar (by omega), JsonText.hexValue_hexChar (by omega)] at hvalue
        exact Option.some.inj hvalue
      rw [Nat.pow_succ', Nat.mod_mul, Nat.mod_mul, hdigit, ih hinit]

/-- An ID that ends in a number. -/
def editID (n : Nat) : List Char :=
  ['0', 'a', '0', '0', '0', '0', '0', '0', '-', '0', '0', '0', '0', '-', '4', '0', '0', '0', '-',
    '8', '0', '0', '0', '-'] ++ digits 12 n

theorem hexRun_all {k : Nat} {s : List Nat} (hlength : s.length = k)
    (h : ∀ c ∈ s, Domain.hexDigit c = true) : Domain.hexRun k s = some [] := by
  subst hlength
  induction s with
  | nil => rfl
  | cons c s ih =>
      rw [List.length_cons, Domain.hexRun, if_pos (h c List.mem_cons_self)]
      exact ih fun d hd => h d (List.mem_cons_of_mem _ hd)

theorem textID_editID (n : Nat) : textID (editID n) = true := by
  have hrun : Domain.hexRun 12 ((digits 12 n).map Char.toNat) = some [] := by
    refine hexRun_all (by rw [List.length_map, length_digits]) fun c hc => ?_
    obtain ⟨d, hd, rfl⟩ := List.mem_map.mp hc
    have hrange := digits_range d hd
    simp [Domain.hexDigit, hrange]
  show (Domain.hexRun 12 ((digits 12 n).map Char.toNat) == some []) = true
  rw [hrun]
  rfl

/-- The title of the record, once more. -/
def edit (n : Nat) : Operation :=
  ⟨{ gate.toOperation with id := utf16Encode (editID n) },
   { gate.accepted with
     id := (idPattern_utf16Encode _).trans (textID_editID n)
     parents := List.forall_mem_nil _ }⟩

def edits (n : Nat) : List Operation := (List.range n).map edit

theorem editID_ne {n m : Nat} (hlt : n < m) (hm : m < 10 ^ 12) : (edit n).id ≠ (edit m).id := by
  intro h
  have hdigits := List.append_cancel_left (utf16Encode_injective h)
  have hmod := digits_inj hdigits
  rw [Nat.mod_eq_of_lt (by omega), Nat.mod_eq_of_lt hm] at hmod
  omega

/-- Operations that name no parents, under IDs of their own. -/
theorem causal_roots {ops : List Operation} (hn : (ops.map fun o => o.id).Nodup)
    (hp : ∀ o ∈ ops, o.parents = []) : Causal ops := by
  induction ops using List.reverseRecOn with
  | nil => exact Causal.nil
  | append_singleton ops o ih =>
      rw [List.map_append, List.map_singleton, List.nodup_append] at hn
      have hrest := ih hn.1 fun a ha => hp a (List.mem_append_left _ ha)
      refine Causal.snoc hrest (find_eq_none.mpr fun a ha => ?_) fun q hq => ?_
      · exact hn.2.2 a.id (List.mem_map_of_mem ha) o.id List.mem_cons_self
      · have hnone : o.parents = [] := hp o (List.mem_append_right _ List.mem_cons_self)
        have hmem : q ∈ o.parents := hq
        rw [hnone] at hmem
        cases hmem

theorem ids_edits_nodup {n : Nat} (hn : n ≤ 10 ^ 12) : ((edits n).map fun o => o.id).Nodup := by
  rw [edits, List.map_map]
  refine List.Nodup.map_on (fun a ha b hb hab => ?_) List.nodup_range
  have ha := List.mem_range.mp ha
  have hb := List.mem_range.mp hb
  rcases Nat.lt_trichotomy a b with hlt | heq | hgt
  · exact absurd hab (editID_ne hlt (by omega))
  · exact heq
  · exact absurd hab.symm (editID_ne hgt (by omega))

theorem causal_edits {n : Nat} (hn : n ≤ 10 ^ 12) : Causal (edits n) := by
  refine causal_roots (ids_edits_nodup hn) fun o ho => ?_
  obtain ⟨m, -, rfl⟩ := List.mem_map.mp ho
  rfl

/-- The time of every edit. -/
def morning (_ : Operation) : DartString := dart "2026-01-01T08:00:00.000Z"

/-- A database in which the title has been set so often. -/
def edited (n : Nat) : LocalStore := new.add morning (edits n)

/-- Saving what can come next. -/
theorem save_fresh {s : LocalStore} (hk : Kept s) (hc : Causal s.ops) {batch : List Operation}
    (hall : Causal (s.ops ++ batch)) (now : Operation → DartString) :
    s.save batch now = .ok (s.add now batch) := by
  have hadmits : admitAll s.ops batch = .ok (s.ops ++ batch) := by
    rw [← admitAll_append hc.admitAll_eq, hall.admitAll_eq]
  have hn := hall.nodup
  rw [List.map_append, List.nodup_append] at hn
  have hunseen : unseen s.ids batch = batch := by
    refine unseen_eq_self hn.2.1 fun o ho hid => ?_
    rw [ids_eq] at hid
    exact hn.2.2 _ hid _ (List.mem_map_of_mem ho) rfl
  rw [save_eq hc hk.outbox, hadmits, hunseen]

/-- Saving in a new database what can be there. -/
theorem save_new {ops : List Operation} (hc : Causal ops) (now : Operation → DartString) :
    new.save ops now = .ok (new.add now ops) :=
  save_fresh kept_new Causal.nil hc now

theorem save_edits {n : Nat} (hn : n ≤ 10 ^ 12) : new.save (edits n) morning = .ok (edited n) :=
  save_new (causal_edits hn) morning

/-- Without parents there is nothing to sort. -/
theorem toJson_root {o : Operation} (h : o.parents = []) : o.toJson = o.toOperation := by
  have hnone : Domain.sortStrings o.parents = [] :=
    List.perm_nil.mp (h ▸ Domain.sortStrings_perm o.parents)
  rw [Operation.toJson, hnone, ← h]

/-- A new database holds what has been saved in it. -/
theorem ops_add_roots {ops : List Operation} (hp : ∀ o ∈ ops, o.parents = [])
    (now : Operation → DartString) : (new.add now ops).ops = ops := by
  have hstored : ∀ o ∈ ops, o.stored = o := fun o ho => Operation.ext (toJson_root (hp o ho))
  rw [ops_add, List.map_congr_left hstored, List.map_id']
  rfl

theorem toJson_edit (n : Nat) : (edit n).toJson = (edit n).toOperation := toJson_root rfl

theorem ops_edited (n : Nat) : (edited n).ops = edits n := by
  refine ops_add_roots (fun o ho => ?_) morning
  obtain ⟨m, -, rfl⟩ := List.mem_map.mp ho
  rfl

theorem length_edits (n : Nat) : (edits n).length = n := by
  rw [edits, List.length_map, List.length_range]

theorem reachable_edited (S : Api.Server) (sha256 : List UInt8 → DartString) {n : Nat}
    (hn : n ≤ 10 ^ 12) : Reachable sha256 (Call.Genuine S) (edited n) := by
  have hsave : Reachable sha256 (Call.Genuine S) (new.after sha256 (.save (edits n) morning)) :=
    Reachable.new.call _ trivial
  have hcall : new.call sha256 (.save (edits n) morning) = .ok (edited n) := save_edits hn
  rwa [after_ok hcall] at hsave

/-- An ID needs no escapes. -/
theorem length_quote_id {cs : List Char} (h : textID cs = true) :
    (Json.quote (utf16Encode cs)).length = cs.length + 2 := by
  have hchars : ∀ c ∈ cs, Domain.idChar c.toNat := fun c hc =>
    Domain.uuidPattern_chars h _ (List.mem_map_of_mem hc)
  have hplain : ∀ c ∈ cs, ¬ c.toNat < 0x20 ∧ c ≠ '"' ∧ c ≠ '\\' := by
    intro c hc
    have hchar := hchars c hc
    simp only [Domain.idChar, Domain.hexDigit, Bool.or_eq_true, Bool.and_eq_true,
      decide_eq_true_eq] at hchar
    refine ⟨by omega, ?_, ?_⟩
    · rintro rfl
      exact absurd hchar (by decide)
    · rintro rfl
      exact absurd hchar (by decide)
  have hascii : ∀ c ∈ cs, c.toNat < 0x80 := fun c hc => Domain.idChar_lt (hchars c hc)
  rw [Json.quote_plain hplain, Json.utf16Encode_ascii hascii, List.length_cons, List.length_append,
    List.length_map]
  rfl

theorem length_edit (n : Nat) :
    (RecoveryBundle.operationJson (edit n).toJson).encode.length ≤ 137 := by
  have hid : (Json.quote (edit n).id).length = 38 := by
    have hlength : (editID n).length = 36 := by
      rw [editID, List.length_append, length_digits 12 n]
      decide
    rw [show (edit n).id = utf16Encode (editID n) from rfl, length_quote_id (textID_editID n),
      hlength]
  have hrecord : (Json.quote gate.record).length = 38 := by decide
  have hvalue : (Json.quote gate.value).length = 6 := by decide
  have hfield : (Json.quote gate.field).length = 7 := by decide
  have hkeys : (Json.quote (dart "id")).length = 4 ∧ (Json.quote (dart "record")).length = 8 ∧
      (Json.quote (dart "field")).length = 7 ∧ (Json.quote (dart "value")).length = 7 ∧
      (Json.quote (dart "parents")).length = 9 := by decide
  obtain ⟨h₁, h₂, h₃, h₄, h₅⟩ := hkeys
  rw [toJson_edit]
  show (Json.obj [(dart "id", .str (edit n).id), (dart "record", .str gate.record),
    (dart "field", .str gate.field), (dart "value", .str gate.value),
    (dart "parents", .arr [])]).encode.length ≤ 137
  simp only [Json.encode, Json.encodeMembers, List.length_cons, List.length_append, List.length_nil,
    hid, hrecord, hvalue, hfield, h₁, h₂, h₃, h₄, h₅]
  decide

theorem length_payload_edited (n : Nat) :
    (RecoveryBundle.payloadJson (edited n).payload).encode.length ≤ n * 138 + 40 := by
  have hoperations : (Json.arr ((edited n).payload.operations.map
      RecoveryBundle.operationJson)).encode.length ≤ n * 138 + 2 := by
    have hall : ∀ j ∈ (edited n).payload.operations.map RecoveryBundle.operationJson,
        j.encode.length ≤ 137 := by
      intro j hj
      rw [payload, ops_edited] at hj
      simp only [edits, List.map_map] at hj
      obtain ⟨m, -, rfl⟩ := List.mem_map.mp hj
      exact length_edit m
    have hcount :
        ((edited n).payload.operations.map RecoveryBundle.operationJson).length = n := by
      rw [List.length_map, payload, List.length_map, ops_edited, length_edits]
    have h := Json.length_array_le hall
    rwa [hcount] at h
  have hkeys : (Json.quote (dart "operations")).length = 12 ∧
      (Json.quote (dart "attachments")).length = 13 := by decide
  obtain ⟨h₁, h₂⟩ := hkeys
  show (Json.obj [
    (dart "operations", .arr ((edited n).payload.operations.map RecoveryBundle.operationJson)),
    (dart "attachments", .arr [])]).encode.length ≤ _
  rw [Json.encode, Json.encodeMembers, Json.encodeMembers]
  simp only [Json.encode, List.length_cons, List.length_append, List.length_nil, h₁, h₂]
  omega

/-- Escapes make six units of one at most, and UTF-8 four bytes of one. -/
theorem length_bundle_le {sha256 : List UInt8 → DartString}
    (hsha : ∀ data, (sha256 data).length ≤ 64) (s : LocalStore) :
    (s.bundle sha256).length ≤
      24 * (RecoveryBundle.payloadJson s.payload).encode.length + 1800 := by
  have hkeys : (Json.quote (dart "version")).length = 9 ∧ (Json.quote (dart "sha256")).length = 8 ∧
      (Json.quote (dart "payload")).length = 9 := by decide
  obtain ⟨h₁, h₂, h₃⟩ := hkeys
  have hone : (Json.int 1).encode.length = 1 := by decide +kernel
  rw [bundle]
  generalize (RecoveryBundle.payloadJson s.payload).encode = content
  have hhash := hsha (Field.toGo content)
  have hquoted := Json.length_quote_le (sha256 (Field.toGo content))
  have hcontent := Json.length_quote_le content
  refine Nat.le_trans (length_toGo_le _) ?_
  rw [RecoveryBundle.envelope, Json.encode, Json.encodeMembers, Json.encodeMembers,
    Json.encodeMembers]
  simp only [Json.encode, List.length_cons, List.length_append, List.length_nil, h₁, h₂, h₃, hone]
  omega

/-- Ten thousand edits and one are far from the limit of an export. -/
theorem export_edited {sha256 : List UInt8 → DartString}
    (hsha : ∀ data, (sha256 data).length ≤ 64) {n : Nat} (hn : n ≤ 10001) :
    exportBytes sha256 (edited n) = .ok ((edited n).bundle sha256) := by
  have hpayload := length_payload_edited n
  have hbundle := length_bundle_le hsha (edited n)
  rw [exportBytes_eq, if_neg]
  rw [RecoveryBundle.maxBytes]
  omega

/-- The SHA-256 of the payload of two edits. -/
def twoHash : DartString := dart "cf821df5797e20f0c4833a85229f53943663d38dab7248f57e2f4b3eba5ffc96"

/-- The SHA-256 of the payload of 10001 edits. -/
def manyHash : DartString := dart "c87f475be921821c7ae45250df157cece82eb0b3fe5380504bbe5873adb571a9"

/-- Two edits are exported and restored. `sha256` is right about the payload there is. -/
theorem bundle_restores_iff_run : ∃ bytes t',
    exportBytes (fun _ => twoHash) (edited 2) = .ok bytes ∧
      restoreBytes (fun _ => twoHash) new bytes morning gate.id = .ok (2, t') ∧
        Restored (edited 2) t' gate.id := by
  have hexport := @export_edited (fun _ => twoHash) (fun _ => by decide) 2 (by decide)
  have hc : Causal (edited 2).ops := (ops_edited 2).symm ▸ causal_edits (by decide)
  have hlength : (edited 2).ops.length = 2 := by rw [ops_edited, length_edits]
  have hiff := bundle_restores_iff (reachable_edited Api.demo (fun _ => twoHash) (by decide))
    kept_new rfl rfl hexport morning gate.id
  rw [hlength] at hiff
  obtain ⟨t', hrestore, hrestored⟩ := hiff.mpr ⟨by decide, hc⟩
  exact ⟨_, t', hexport, hrestore, hrestored⟩

/-- **A bundle that is not taken back.** The title of one record has been set 10001 times;
the export succeeds, and its restore into a new database is refused. -/
theorem edited_not_restored :
    (∀ S, Reachable (fun _ => manyHash) (Call.Genuine S) (edited 10001)) ∧
      ∃ bytes, exportBytes (fun _ => manyHash) (edited 10001) = .ok bytes ∧ ∀ now uuid,
        restoreBytes (fun _ => manyHash) new bytes now uuid =
          .error (.format "Too many operations") := by
  have hexport := @export_edited (fun _ => manyHash) (fun _ => by decide) 10001 (by decide)
  refine ⟨fun S => reachable_edited S _ (by decide), _, hexport, fun now uuid => ?_⟩
  obtain ⟨hcontent, hsize⟩ := export_ok hexport
  have hlength : (edited 10001).payload.operations.length > 10000 := by
    rw [payload, List.length_map, ops_edited, length_edits]
    decide
  rw [RecoveryBundle.restoreBytes_eq hsize hcontent (List.forall_mem_nil _),
    restore_many rfl hlength]
  rfl

end LocalStore

end Syncraft.Field
