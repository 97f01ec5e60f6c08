import Mathlib.Data.List.Infix
import Syncraft.Library.Join
import Syncraft.Field.Agreement
import Syncraft.Field.AttachmentStore

/-!
# Syncraft.Field.StoreRun

Runs of the local store: any calls of its writers, one after the other, each of which returns
or throws. A transaction that throws is rolled back (`LocalStore.after`).

With pages whose entries name their actor and time, as the server's do, the table stays a
causal log, so nothing that is stored can make a later call fail (`local_store_invariant`).
With other pages it need not: `INSERT OR IGNORE` leaves such an entry out while the cursor moves
past it. `page_applied_whole_iff` says for which pages the loss does not happen.
-/

namespace Syncraft.Field

open CausalLog

namespace LocalStore

/-- A call of a writer, with what it reads of the clock, the generator of IDs and the server. -/
inductive Call where
  | save (batch : List Operation) (now : Operation → DartString)
  | acknowledge (ids : List DartString)
  | failed (ids : List DartString) (error : DartString)
  | applyPage (page : Page)
  | restore (bytes : List UInt8) (now : Operation → DartString) (uuid : DartString)
  | deviceId (uuid : DartString)
  | add (record name media : DartString) (bytes : List UInt8) (uuid : DartString)
  | confirmUpload (row : AttachmentRow) (sha256 : Option DartString)
  | storeFetched (record : DartString) (row : AttachmentStore.RemoteRow) (data : List UInt8)

/-- A page whose entries all name their actor and time. -/
def Call.Complete : Call → Prop
  | .applyPage page => ∀ e ∈ page.entries, e.Complete
  | _ => True

instance (e : PageEntry) : Decidable e.Complete := inferInstanceAs (Decidable (_ ∧ _))

/-- What a call returns. -/
def call (sha256 : List UInt8 → DartString) (s : LocalStore) : Call → Except Exn LocalStore
  | .save batch now => s.save batch now
  | .acknowledge ids => .ok (s.acknowledge ids)
  | .failed ids error => .ok (s.failed ids error)
  | .applyPage page => s.applyPage page
  | .restore bytes now uuid =>
    (RecoveryBundle.restoreBytes sha256 s bytes now uuid).map Prod.snd
  | .deviceId uuid => .ok (s.deviceId uuid).2
  | .add record name media bytes uuid => AttachmentStore.add sha256 s record name media bytes uuid
  | .confirmUpload row hash => AttachmentStore.confirmUpload row hash s
  | .storeFetched record row data => AttachmentStore.storeFetched sha256 record row data s

/-- The database after a call. A throw rolls the transaction back. -/
def after (sha256 : List UInt8 → DartString) (s : LocalStore) (c : Call) : LocalStore :=
  match s.call sha256 c with
  | .ok s' => s'
  | .error _ => s

theorem after_ok {sha256 : List UInt8 → DartString} {s s' : LocalStore} {c : Call}
    (h : s.call sha256 c = .ok s') : s.after sha256 c = s' := by
  rw [after, h]

theorem after_error {sha256 : List UInt8 → DartString} {s : LocalStore} {c : Call} {e : Exn}
    (h : s.call sha256 c = .error e) : s.after sha256 c = s := by
  rw [after, h]

/-- The stores that the allowed calls lead to. -/
inductive Reachable (sha256 : List UInt8 → DartString) (allowed : Call → Prop) :
    LocalStore → Prop where
  | new : Reachable sha256 allowed new
  | call {s : LocalStore} (c : Call) : Reachable sha256 allowed s → allowed c →
      Reachable sha256 allowed (s.after sha256 c)

/-! ### What every call keeps -/

/-- IDs are unique, and the outbox refers to them. -/
structure Kept (s : LocalStore) : Prop where
  ids : s.ids.Nodup
  outbox : s.OutboxStored

theorem kept_new : Kept new := ⟨List.nodup_nil, fun _ hid => by cases hid⟩

/-- A table that loads is in causal order. -/
theorem causal_of_replica {s : LocalStore} (hn : s.ids.Nodup) {r : Replica}
    (h : s.replica = .ok r) :
    ∃ hc : Causal s.ops, r = { operations := s.ops, causal := hc } := by
  rw [replica, operations_eq] at h
  have hall := Replica.operations_of_addAll h (ids_eq s ▸ hn)
  exact ⟨hall ▸ r.causal, Replica.ext hall⟩

/-- What is admitted to the table keeps it in causal order. -/
theorem causal_unseen {s : LocalStore} (hc : Causal s.ops) {batch r : List Operation}
    (h : admitAll s.ops batch = .ok r) : Causal (s.ops ++ unseen s.ids batch) := by
  have hlog := admitAll_unseen h
  have hkeys : s.ops.map CausalNode.key = s.ids := (ids_eq s).symm
  rw [hkeys] at hlog
  exact hlog ▸ admitAll_causal hc h

/-- Operations that were added, as they are read back. -/
theorem alike_stored (log fresh : List Operation) :
    Alike (log ++ fresh) (log ++ fresh.map Operation.stored) := by
  refine List.rel_append (Alike.refl log) (List.forall₂_map_right_iff.mpr ?_)
  exact List.forall₂_same.mpr fun o _ => same_stored o

theorem causal_stored_iff {log fresh : List Operation} :
    Causal (log ++ fresh.map Operation.stored) ↔ Causal (log ++ fresh) :=
  ⟨fun h => h.of_alike (alike_stored log fresh).symm, fun h => h.of_alike (alike_stored log fresh)⟩

/-- The operations of a page's complete entries, in their order. -/
def completeOps (xs : List (Operation × PageEntry)) : List Operation :=
  (xs.filter fun x => decide x.2.Complete).map Prod.fst

/-- An entry without actor or time meets a row: the table's, or that of an earlier entry. -/
def Meets (ids : List DartString) (xs : List (Operation × PageEntry)) : Prop :=
  ∃ before x later, xs = before ++ x :: later ∧ ¬ x.2.Complete ∧
    (x.1.id ∈ ids ∨ ∃ o ∈ completeOps before, o.id = x.1.id)

theorem meets_cons {ids : List DartString} {x : Operation × PageEntry}
    {xs : List (Operation × PageEntry)} :
    Meets ids (x :: xs) ↔ ¬ x.2.Complete ∧ x.1.id ∈ ids ∨
      Meets (if x.2.Complete then ids ++ [x.1.id] else ids) xs := by
  constructor
  · rintro ⟨before, y, later, heq, hy, hmeets⟩
    cases before with
    | nil =>
        obtain ⟨rfl, rfl⟩ := List.cons.inj heq
        rcases hmeets with hid | ⟨o, ho, -⟩
        · exact Or.inl ⟨hy, hid⟩
        · cases ho
    | cons b before =>
        obtain ⟨rfl, rfl⟩ := List.cons.inj heq
        refine Or.inr ⟨before, y, later, rfl, hy, ?_⟩
        split
        · next hx =>
            rcases hmeets with hid | ⟨o, ho, hoy⟩
            · exact Or.inl (List.mem_append_left _ hid)
            · simp only [completeOps, List.filter_cons, hx, decide_true, if_true, List.map_cons,
                List.mem_cons] at ho
              rcases ho with rfl | ho
              · exact Or.inl (hoy ▸ List.mem_append_right _ (List.mem_singleton_self _))
              · exact Or.inr ⟨o, ho, hoy⟩
        · next hx =>
            rcases hmeets with hid | ⟨o, ho, hoy⟩
            · exact Or.inl hid
            · simp only [completeOps, List.filter_cons, hx, decide_false, Bool.false_eq_true,
                if_false] at ho
              exact Or.inr ⟨o, ho, hoy⟩
  · rintro (⟨hx, hid⟩ | ⟨before, y, later, rfl, hy, hmeets⟩)
    · exact ⟨[], x, xs, rfl, hx, Or.inl hid⟩
    · refine ⟨x :: before, y, later, rfl, hy, ?_⟩
      by_cases hx : x.2.Complete
      · rw [if_pos hx] at hmeets
        simp only [completeOps, List.filter_cons, hx, decide_true, if_true, List.map_cons]
        rcases hmeets with hid | ⟨o, ho, hoy⟩
        · rcases List.mem_append.mp hid with hid | hid
          · exact Or.inl hid
          · exact Or.inr ⟨x.1, List.mem_cons_self, (List.mem_singleton.mp hid).symm⟩
        · exact Or.inr ⟨o, List.mem_cons_of_mem _ ho, hoy⟩
      · rw [if_neg hx] at hmeets
        simp only [completeOps, List.filter_cons, hx, decide_false, Bool.false_eq_true, if_false]
        exact hmeets

theorem meets_congr {ids ids' : List DartString} (h : ∀ id, id ∈ ids ↔ id ∈ ids')
    (xs : List (Operation × PageEntry)) : Meets ids xs ↔ Meets ids' xs := by
  simp only [Meets, h]

/-- An entry without actor or time is left out, unless its row is there. -/
theorem applyEntry_incomplete {s : LocalStore} {op : Operation} {e : PageEntry}
    (he : ¬ e.Complete) :
    (s.insertOrIgnore op e.actor e.created).updateRow op.id e.actor e.created =
      if op.id ∈ s.ids then .error .database else .ok s := by
  have hrow : (if s.hasRow op.id = true then Except.error Exn.database else Except.ok s) =
      if op.id ∈ s.ids then .error .database else .ok s := by
    simp only [hasRow_iff]
  cases hactor : e.actor with
  | none => exact hrow
  | some actor =>
      cases hcreated : e.created with
      | none => exact hrow
      | some created => exact absurd ⟨by simp [hactor], by simp [hcreated]⟩ he

/-- **Everything the loop of `applyPage` can do.** It throws at an entry without actor or time
whose row is there; otherwise it adds what is unseen of the complete entries. -/
theorem applyLoop_cases (xs : List (Operation × PageEntry)) (s : LocalStore) :
    (Meets s.ids xs ∧ ∃ e, applyLoop xs s = .error e) ∨
      ¬ Meets s.ids xs ∧ ∃ rows, applyLoop xs s = .ok { s with rows } ∧
        rows.map (fun r => r.op.stored) =
          s.ops ++ (unseen s.ids (completeOps xs)).map Operation.stored := by
  induction xs generalizing s with
  | nil =>
      refine Or.inr ⟨?_, s.rows, rfl, by simp [completeOps, unseen, ops]⟩
      rintro ⟨before, x, later, heq, -⟩
      simp at heq
  | cons x rest ih =>
      obtain ⟨op, e⟩ := x
      simp only [meets_cons]
      by_cases he : e.Complete
      · -- A complete entry is stored, if it is not there yet.
        obtain ⟨rows, hstep, hrows⟩ := applyEntry_eq s op he
        have hops : ops { s with rows } = s.ops ++ (unseen s.ids [op]).map Operation.stored := hrows
        have hids : ids { s with rows } = s.ids ++ (unseen s.ids [op]).map fun o => o.id := by
          rw [ids_eq, hops, ids_eq]
          simp
        have hmem : ∀ id, id ∈ ids { s with rows } ↔ id ∈ s.ids ++ [op.id] := by
          intro id
          rw [hids]
          by_cases hop : op.id ∈ s.ids
          · simp only [unseen, key_eq, hop, if_true, List.map_nil, List.append_nil, List.mem_append,
              List.mem_singleton]
            constructor
            · exact Or.inl
            · rintro (h | rfl)
              · exact h
              · exact hop
          · simp [unseen, key_eq, hop]
        have hunseen : s.ops ++ (unseen s.ids (completeOps ((op, e) :: rest))).map Operation.stored =
            ops { s with rows } ++
              (unseen (ids { s with rows }) (completeOps rest)).map Operation.stored := by
          have hcons : completeOps ((op, e) :: rest) = op :: completeOps rest := by
            simp [completeOps, he]
          rw [hcons, hops, hids]
          by_cases hop : op.id ∈ s.ids
          · simp [unseen, key_eq, hop]
          · simp [unseen, key_eq, hop]
        have hloop : applyLoop ((op, e) :: rest) s = applyLoop rest { s with rows } := by
          rw [applyLoop, hstep]
          rfl
        have hfirst : ¬ (¬ e.Complete ∧ op.id ∈ s.ids) := fun h => h.1 he
        rw [hloop, hunseen, if_pos he, or_iff_right hfirst, ← meets_congr hmem]
        exact ih { s with rows }
      · have hcons : completeOps ((op, e) :: rest) = completeOps rest := by simp [completeOps, he]
        rw [applyLoop, applyEntry_incomplete he, if_neg he, hcons]
        by_cases hop : op.id ∈ s.ids
        · rw [if_pos hop]
          exact Or.inl ⟨Or.inl ⟨he, hop⟩, _, rfl⟩
        · have hfirst : ¬ (¬ e.Complete ∧ op.id ∈ s.ids) := fun h => hop h.2
          rw [if_neg hop, or_iff_right hfirst]
          exact ih s

/-- The checks `applyPage` makes before it stores anything. -/
structure Checks (s : LocalStore) (page : Page) (incoming r : List Operation) : Prop where
  cursor : ¬ (page.cursor < s.cursor ∨ page.entries = [] ∧ page.cursor ≠ s.cursor)
  sequence : checkSequence s.cursor page.entries = .ok page.cursor
  read : page.entries.mapM (fun e => fromJson e.operation) = .ok incoming
  causal : Causal s.ops
  admits : admitAll s.ops incoming = .ok r

/-- **Everything `applyPage` can do.** -/
theorem applyPage_ok_iff {s s' : LocalStore} (hn : s.ids.Nodup) {page : Page} :
    s.applyPage page = .ok s' ↔ ∃ incoming r s₁, s.Checks page incoming r ∧
      applyLoop (incoming.zip page.entries) s = .ok s₁ ∧
      s' = { s₁ with storedCursor := some page.cursor } := by
  constructor
  · intro h
    rw [applyPage] at h
    split at h; · cases h
    next hcursor =>
    obtain ⟨expected, hsequence, h⟩ := ok_of_bind h
    split at h; · cases h
    next hnext =>
    obtain ⟨incoming, hread, h⟩ := ok_of_bind h
    obtain ⟨r, hr, h⟩ := ok_of_bind h
    obtain ⟨hc, rfl⟩ := causal_of_replica hn hr
    obtain ⟨r', hr', h⟩ := ok_of_bind h
    obtain ⟨s₁, hloop, h⟩ := ok_of_bind h
    refine ⟨incoming, r'.operations, s₁, ?_, hloop, (Except.ok.inj h).symm⟩
    exact ⟨hcursor, not_not.mp hnext ▸ hsequence, hread, hc, Replica.addAll_ok_iff.mp hr'⟩
  · rintro ⟨incoming, r, s₁, hchecks, hloop, rfl⟩
    obtain ⟨r', hr'⟩ : ∃ r', Replica.addAll ⟨s.ops, hchecks.causal⟩ incoming = .ok r' := by
      rcases addAll_loaded hchecks.causal incoming with ⟨e, he, -⟩ | ⟨-, r', -, hr'⟩
      · rw [hchecks.admits] at he; cases he
      · exact ⟨r', hr'⟩
    rw [applyPage, if_neg hchecks.cursor, hchecks.sequence]
    show (if page.cursor ≠ page.cursor then _ else _) = _
    rw [if_neg (by simp), hchecks.read, replica_eq hchecks.causal]
    show (Replica.addAll _ _ >>= fun _ => _) = _
    rw [hr']
    show (applyLoop _ _ >>= fun _ => _) = _
    rw [hloop]
    rfl

/-! ### What a call adds -/

/-- A call has stored operations that were not there, and queued nothing else. -/
structure Adds (s s' : LocalStore) (fresh : List Operation) : Prop where
  ops : s'.ops = s.ops ++ fresh.map Operation.stored
  new : (fresh.map fun o => o.id).Nodup ∧ ∀ o ∈ fresh, o.id ∉ s.ids
  outbox : ∀ id ∈ s'.outbox.map Queued.id, id ∈ s.outbox.map Queued.id ∨ id ∈ fresh.map fun o => o.id

/-- A call that leaves the operations alone. -/
theorem Adds.none {s s' : LocalStore} (hrows : s'.rows = s.rows)
    (houtbox : ∀ id ∈ s'.outbox.map Queued.id, id ∈ s.outbox.map Queued.id) : Adds s s' [] where
  ops := by simp [LocalStore.ops, hrows]
  new := ⟨List.nodup_nil, fun _ ho => by cases ho⟩
  outbox id hid := Or.inl (houtbox id hid)

/-- What is unseen is new. -/
theorem Adds.unseen {s s' : LocalStore} {batch : List Operation}
    (hops : s'.ops = s.ops ++ (unseen s.ids batch).map Operation.stored)
    (houtbox : ∀ id ∈ s'.outbox.map Queued.id,
      id ∈ s.outbox.map Queued.id ∨ id ∈ (unseen s.ids batch).map fun o => o.id) :
    Adds s s' (unseen s.ids batch) where
  ops := hops
  new := ⟨unseen_nodup s.ids batch, fun o ho => (unseen_subset o ho).2⟩
  outbox := houtbox

theorem Adds.ids {s s' : LocalStore} {fresh : List Operation} (h : Adds s s' fresh) :
    s'.ids = s.ids ++ fresh.map fun o => o.id := by
  rw [ids_eq, ids_eq, h.ops]
  simp

theorem Adds.kept {s s' : LocalStore} {fresh : List Operation} (h : Adds s s' fresh)
    (hk : Kept s) : Kept s' where
  ids := by
    rw [h.ids]
    refine List.nodup_append.mpr ⟨hk.ids, h.new.1, fun id hid id' hid' heq => ?_⟩
    obtain ⟨o, ho, rfl⟩ := List.mem_map.mp hid'
    exact h.new.2 o ho (heq ▸ hid)
  outbox id hid := by
    rw [h.ids, List.mem_append]
    exact (h.outbox id hid).imp_left (hk.outbox id)

/-- Contents are written once: those that were there stay the first ones. -/
theorem Adds.contents {s s' : LocalStore} {fresh : List Operation} (h : Adds s s' fresh) :
    s.rows.map (fun r => (r.id, r.content)) <+: s'.rows.map fun r => (r.id, r.content) := by
  have hcontents : ∀ t : LocalStore, t.rows.map (fun r => (r.id, r.content)) =
      t.ops.map fun o => (o.id, jsonEncode o.toJson) := by
    intro t
    simp only [LocalStore.ops, List.map_map]
    refine List.map_congr_left fun r _ => ?_
    show (r.op.id, jsonEncode r.op.toJson) = (r.op.stored.id, jsonEncode r.op.stored.toJson)
    rw [stored_id, ← toJson_of_same (same_stored r.op)]
  rw [hcontents, hcontents, h.ops, List.map_append]
  exact List.prefix_append _ _

/-- A `save` that returned found a causal log, and the batch was admitted to it. -/
theorem save_ok {s s' : LocalStore} (hk : Kept s) {batch : List Operation}
    {now : Operation → DartString} (h : s.save batch now = .ok s') :
    Causal (s.ops ++ unseen s.ids batch) ∧ s' = s.add now (unseen s.ids batch) := by
  have hload := h
  rw [save] at hload
  obtain ⟨r, hr, -⟩ := ok_of_bind hload
  obtain ⟨hc, -⟩ := causal_of_replica hk.ids hr
  rw [save_eq hc hk.outbox] at h
  cases hadmits : admitAll s.ops batch with
  | error e => rw [hadmits] at h; cases h
  | ok log =>
      rw [hadmits] at h
      exact ⟨causal_unseen hc hadmits, (Except.ok.inj h).symm⟩

/-- A page that is stored: it adds what is unseen of its complete entries. -/
theorem applyPage_stored {s : LocalStore} (hk : Kept s) {page : Page} {incoming r : List Operation}
    (hchecks : s.Checks page incoming r) (hmeets : ¬ Meets s.ids (incoming.zip page.entries)) :
    ∃ s', s.applyPage page = .ok s' ∧
      s'.ops = s.ops ++
        (unseen s.ids (completeOps (incoming.zip page.entries))).map Operation.stored ∧
      s'.outbox = s.outbox ∧ s'.cursor = page.cursor := by
  rcases applyLoop_cases (incoming.zip page.entries) s with ⟨hm, -⟩ | ⟨-, rows, hloop, hrows⟩
  · exact absurd hm hmeets
  · exact ⟨{ s with rows, storedCursor := some page.cursor },
      (applyPage_ok_iff hk.ids).mpr ⟨incoming, r, _, hchecks, hloop, rfl⟩, hrows, rfl, rfl⟩

/-- A page that was applied has passed the checks, and met no row with an entry that lacks its
actor or time. -/
theorem applyPage_checked {s s' : LocalStore} (hk : Kept s) {page : Page}
    (h : s.applyPage page = .ok s') :
    ∃ incoming r, s.Checks page incoming r ∧ ¬ Meets s.ids (incoming.zip page.entries) := by
  obtain ⟨incoming, r, s₁, hchecks, hloop, -⟩ := (applyPage_ok_iff hk.ids).mp h
  refine ⟨incoming, r, hchecks, fun hmeets => ?_⟩
  rcases applyLoop_cases (incoming.zip page.entries) s with ⟨-, e, herror⟩ | ⟨hnot, -⟩
  · rw [hloop] at herror; cases herror
  · exact hnot hmeets

/-- A page that was applied has changed rows and the cursor. -/
theorem applyPage_result {s s' : LocalStore} (hk : Kept s) {page : Page}
    (h : s.applyPage page = .ok s') :
    ∃ rows, s' = { s with rows, storedCursor := some page.cursor } := by
  obtain ⟨incoming, r, s₁, -, hloop, rfl⟩ := (applyPage_ok_iff hk.ids).mp h
  rcases applyLoop_cases (incoming.zip page.entries) s with ⟨-, e, herror⟩ | ⟨-, rows, hrows, -⟩
  · rw [hloop] at herror
    cases herror
  · obtain rfl := Except.ok.inj (hloop.symm.trans hrows)
    exact ⟨rows, rfl⟩

theorem call_restore {sha256 : List UInt8 → DartString} {s s' : LocalStore} {bytes : List UInt8}
    {now : Operation → DartString} {uuid : DartString}
    (h : s.call sha256 (.restore bytes now uuid) = .ok s') :
    ∃ n, RecoveryBundle.restoreBytes sha256 s bytes now uuid = .ok (n, s') := by
  rw [call] at h
  cases hr : RecoveryBundle.restoreBytes sha256 s bytes now uuid with
  | error e =>
      rw [hr] at h
      cases h
  | ok result =>
      rw [hr] at h
      obtain rfl := Except.ok.inj h
      exact ⟨result.1, rfl⟩

/-- A restore that returned has stored and queued a causal list of operations. -/
theorem restore_adds {sha256 : List UInt8 → DartString} {s s' : LocalStore} (hk : Kept s)
    {bytes : List UInt8} {now : Operation → DartString} {uuid : DartString} {n : Nat}
    (h : RecoveryBundle.restoreBytes sha256 s bytes now uuid = .ok (n, s')) :
    ∃ ops, Adds s s' ops ∧ Causal ops ∧ s.ops = [] := by
  obtain ⟨ops, attachments, hrows, hc, rfl⟩ := RecoveryBundle.restoreBytes_result hk.outbox h
  have hempty : s.ids = [] := by rw [ids, hrows]; rfl
  refine ⟨ops, ?_, hc, by rw [LocalStore.ops, hrows]; rfl⟩
  exact
    { ops := ops_add now ops s
      new := ⟨hc.nodup, fun o _ => by rw [hempty]; exact List.not_mem_nil⟩
      outbox := fun id hid => List.mem_append.mp ((outbox_ids_add now ops s) ▸ hid) }

theorem zip_fst {incoming : List Operation} {page : Page}
    (hread : page.entries.mapM (fun e => fromJson e.operation) = .ok incoming) :
    (incoming.zip page.entries).map Prod.fst = incoming := by
  exact List.map_fst_zip (length_of_mapM hread).le

/-- Of a page whose entries are complete, every operation counts. -/
theorem completeOps_eq {incoming : List Operation} {page : Page}
    (hread : page.entries.mapM (fun e => fromJson e.operation) = .ok incoming)
    (h : ∀ e ∈ page.entries, e.Complete) : completeOps (incoming.zip page.entries) = incoming := by
  have hall : (incoming.zip page.entries).filter (fun x => decide x.2.Complete) =
      incoming.zip page.entries :=
    List.filter_eq_self.mpr fun x hx => decide_eq_true (h _ (List.of_mem_zip hx).2)
  rw [completeOps, hall, zip_fst hread]

/-- What the checks admitted of a page, after the table. -/
theorem Checks.log {s : LocalStore} {page : Page} {incoming r : List Operation}
    (h : s.Checks page incoming r) : Causal (s.ops ++ unseen s.ids incoming) :=
  causal_unseen h.causal h.admits

/-- **What every call does to the operations**: it adds some the table did not hold, and where
pages are complete, they keep the table in causal order. -/
theorem call_adds {sha256 : List UInt8 → DartString} {s s' : LocalStore} (hk : Kept s) {c : Call}
    (h : s.call sha256 c = .ok s') :
    ∃ fresh, Adds s s' fresh ∧ (c.Complete → Causal s.ops → Causal (s.ops ++ fresh)) := by
  have hsame : c.Complete → Causal s.ops → Causal (s.ops ++ []) := by
    intro _ hc
    rwa [List.append_nil]
  cases c with
  | save batch now =>
      obtain ⟨hc, rfl⟩ := save_ok hk h
      refine ⟨_, Adds.unseen (ops_add now _ s) fun id hid => ?_, fun _ _ => hc⟩
      exact List.mem_append.mp ((outbox_ids_add now _ s) ▸ hid)
  | acknowledge ids =>
      obtain rfl := Except.ok.inj h
      exact ⟨[], Adds.none rfl fun id hid => (List.filter_sublist.map Queued.id).subset hid, hsame⟩
  | failed ids error =>
      obtain rfl := Except.ok.inj h
      refine ⟨[], Adds.none rfl fun id hid => ?_, hsame⟩
      simpa [LocalStore.failed, Function.comp_def] using hid
  | applyPage page =>
      obtain ⟨incoming, r, hchecks, hmeets⟩ := applyPage_checked hk h
      obtain ⟨s'', h', hops, houtbox, -⟩ := applyPage_stored hk hchecks hmeets
      obtain rfl := Except.ok.inj (h.symm.trans h')
      refine ⟨_, Adds.unseen hops fun id hid => Or.inl (houtbox ▸ hid), fun hcomplete _ => ?_⟩
      rw [completeOps_eq hchecks.read hcomplete]
      exact hchecks.log
  | restore bytes now uuid =>
      obtain ⟨n, hr⟩ := call_restore h
      obtain ⟨ops, hadds, hc, hempty⟩ := restore_adds hk hr
      exact ⟨ops, hadds, fun _ _ => by rwa [hempty]⟩
  | deviceId uuid =>
      obtain rfl := Except.ok.inj h
      refine ⟨[], Adds.none ?_ ?_, hsame⟩
      · rw [LocalStore.deviceId]; split <;> rfl
      · rw [LocalStore.deviceId]; split <;> exact fun _ hid => hid
  | add record name media bytes uuid =>
      obtain ⟨row, -, -, -, -, -, hinsert⟩ := AttachmentStore.add_ok h
      obtain ⟨-, rfl⟩ := AttachmentStore.insertAttachment_ok hinsert
      exact ⟨[], Adds.none rfl fun _ hid => hid, hsame⟩
  | confirmUpload row hash =>
      obtain ⟨-, rfl⟩ := AttachmentStore.confirmUpload_ok h
      exact ⟨[], Adds.none rfl fun _ hid => hid, hsame⟩
  | storeFetched record row data =>
      obtain ⟨-, hinsert⟩ := AttachmentStore.storeFetched_ok h
      obtain ⟨-, rfl⟩ := AttachmentStore.insertAttachment_ok hinsert
      exact ⟨[], Adds.none rfl fun _ hid => hid, hsame⟩

/-- A call that does not wait for the server. A generated ID is an ID. -/
def Call.Offline : Call → Prop
  | .add _ _ _ _ uuid => idPattern uuid = true
  | .confirmUpload _ _ => False
  | .storeFetched _ _ _ => False
  | _ => True

/-- **What every call does to the attachments**, unless it waits for the server. -/
theorem call_attaches {sha256 : List UInt8 → DartString} {s s' : LocalStore} (hk : Kept s)
    {c : Call}
    (hc : c.Offline) (h : s.call sha256 c = .ok s') : RecoveryBundle.Attaches sha256 s s' := by
  cases c with
  | save batch now =>
      obtain ⟨-, rfl⟩ := save_ok hk h
      exact .none rfl
  | acknowledge ids =>
      obtain rfl := Except.ok.inj h
      exact .none rfl
  | failed ids error =>
      obtain rfl := Except.ok.inj h
      exact .none rfl
  | applyPage page =>
      obtain ⟨rows, rfl⟩ := applyPage_result hk h
      exact .none rfl
  | restore bytes now uuid =>
      obtain ⟨n, hr⟩ := call_restore h
      exact RecoveryBundle.restoreBytes_attaches hk.outbox hr
  | deviceId uuid =>
      obtain rfl := Except.ok.inj h
      refine .none ?_
      rw [LocalStore.deviceId]
      split <;> rfl
  | add record name media bytes uuid =>
      obtain ⟨row, rfl, -, -, huploaded, hrestorable, hinsert⟩ := AttachmentStore.add_ok h
      obtain ⟨-, rfl⟩ := AttachmentStore.insertAttachment_ok hinsert
      refine ⟨⟨[row], rfl, fun r hr => ?_⟩, RecoveryBundle.insertAttachment_nodup hinsert⟩
      obtain rfl := List.mem_singleton.mp hr
      exact ⟨hrestorable hc, huploaded⟩
  | confirmUpload row hash => exact hc.elim
  | storeFetched record row data => exact hc.elim

/-- The IDs that a call takes from the generator for the device. -/
def Call.generated : Call → List DartString
  | .restore _ _ uuid => [uuid]
  | .deviceId uuid => [uuid]
  | _ => []

/-- **What every call does to the metadata**: it keeps the account, and the device ID but for a new
one from the generator. -/
theorem call_metadata {sha256 : List UInt8 → DartString} {s s' : LocalStore} (hk : Kept s)
    {c : Call} (h : s.call sha256 c = .ok s') :
    s'.account = s.account ∧ (s'.device = s.device ∨ ∃ id ∈ c.generated, s'.device = some id) := by
  cases c with
  | save batch now =>
      obtain ⟨-, rfl⟩ := save_ok hk h
      exact ⟨rfl, .inl rfl⟩
  | acknowledge ids | failed ids error =>
      obtain rfl := Except.ok.inj h
      exact ⟨rfl, .inl rfl⟩
  | applyPage page =>
      obtain ⟨rows, rfl⟩ := applyPage_result hk h
      exact ⟨rfl, .inl rfl⟩
  | restore bytes now uuid =>
      obtain ⟨n, hr⟩ := call_restore h
      obtain ⟨ops, attachments, -, -, rfl⟩ := RecoveryBundle.restoreBytes_result hk.outbox hr
      exact ⟨rfl, .inr ⟨uuid, List.mem_cons_self, rfl⟩⟩
  | deviceId uuid =>
      obtain rfl := Except.ok.inj h
      rw [LocalStore.deviceId]
      split
      · exact ⟨rfl, .inl rfl⟩
      · exact ⟨rfl, .inr ⟨uuid, List.mem_cons_self, rfl⟩⟩
  | add record name media bytes uuid =>
      obtain ⟨row, -, -, -, -, -, hinsert⟩ := AttachmentStore.add_ok h
      obtain ⟨-, rfl⟩ := AttachmentStore.insertAttachment_ok hinsert
      exact ⟨rfl, .inl rfl⟩
  | confirmUpload row hash =>
      obtain ⟨-, rfl⟩ := AttachmentStore.confirmUpload_ok h
      exact ⟨rfl, .inl rfl⟩
  | storeFetched record row data =>
      obtain ⟨-, hinsert⟩ := AttachmentStore.storeFetched_ok h
      obtain ⟨-, rfl⟩ := AttachmentStore.insertAttachment_ok hinsert
      exact ⟨rfl, .inl rfl⟩

theorem Kept.after_metadata {sha256 : List UInt8 → DartString} {s : LocalStore} (hk : Kept s)
    (c : Call) :
    (s.after sha256 c).account = s.account ∧
      ((s.after sha256 c).device = s.device ∨
        ∃ id ∈ c.generated, (s.after sha256 c).device = some id) := by
  cases h : s.call sha256 c with
  | error e => rw [after_error h]; exact ⟨rfl, .inl rfl⟩
  | ok s' =>
      rw [after_ok h]
      exact call_metadata hk h

theorem Kept.call {sha256 : List UInt8 → DartString} {s s' : LocalStore} (hk : Kept s) {c : Call}
    (h : s.call sha256 c = .ok s') : Kept s' := by
  obtain ⟨fresh, hadds, -⟩ := call_adds hk h
  exact hadds.kept hk

/-- Every call keeps what is kept. -/
theorem Kept.after {sha256 : List UInt8 → DartString} {s : LocalStore} (hk : Kept s) (c : Call) :
    Kept (s.after sha256 c) := by
  cases h : s.call sha256 c with
  | error e => rw [after_error h]; exact hk
  | ok s' =>
      rw [after_ok h]
      exact hk.call h

/-- Operations are only appended. -/
theorem Kept.grows {sha256 : List UInt8 → DartString} {s : LocalStore} (hk : Kept s) (c : Call) :
    s.ops <+: (s.after sha256 c).ops := by
  cases h : s.call sha256 c with
  | error e => rw [after_error h]
  | ok s' =>
      rw [after_ok h]
      obtain ⟨fresh, hadds, -⟩ := call_adds hk h
      exact ⟨_, hadds.ops.symm⟩

/-- Whatever pages the server sends, IDs stay unique and the outbox within the table. -/
theorem Reachable.kept {sha256 : List UInt8 → DartString} {allowed : Call → Prop} {s : LocalStore}
    (h : Reachable sha256 allowed s) : Kept s := by
  induction h with
  | new => exact kept_new
  | call c hs hc ih => exact ih.after c

/-- With complete pages the table stays in causal order. -/
theorem Reachable.causal {sha256 : List UInt8 → DartString} {s : LocalStore}
    (h : Reachable sha256 Call.Complete s) : Causal s.ops := by
  induction h with
  | new => exact Causal.nil
  | @call s c hs hcomplete ih =>
      cases h : s.call sha256 c with
      | error e => rw [after_error h]; exact ih
      | ok s' =>
          obtain ⟨fresh, hadds, hc⟩ := call_adds hs.kept h
          rw [after_ok h, hadds.ops, causal_stored_iff]
          exact hc hcomplete ih

/-! ### The invariant -/

/-- What holds of the local store at all times. -/
structure Invariant (sha256 : List UInt8 → DartString) (s : LocalStore) : Prop where
  /-- IDs are unique. -/
  unique : s.ids.Nodup
  /-- Parents come earlier, and are of the same record and field. -/
  ordered : ∀ (i : Nat) (hi : i < s.ops.length), ∀ p ∈ s.ops[i].parents,
    ∃ (j : Nat) (hj : j < s.ops.length), j < i ∧ s.ops[j].id = p ∧
      s.ops[j].record = s.ops[i].record ∧ s.ops[j].field = s.ops[i].field
  /-- The table loads, and what is loaded is the table. -/
  loads : ∃ r, s.operations = .ok s.ops ∧ Replica.empty.addAll s.ops = .ok r ∧ r.operations = s.ops ∧
    -- A batch or a page that the loaded replica takes does not fail.
    (∀ batch now r', r.addAll batch = .ok r' → ∃ s', s.save batch now = .ok s') ∧
    ∀ (page : Page) incoming r', (∀ e ∈ page.entries, e.Complete) →
      checkSequence s.cursor page.entries = .ok page.cursor →
      page.entries.mapM (fun e => fromJson e.operation) = .ok incoming →
      r.addAll incoming = .ok r' → ∃ s', s.applyPage page = .ok s'
  /-- What is queued is an operation. -/
  outbox : ∀ q ∈ s.outbox, q.id ∈ s.ids
  /-- Rows are only appended, and what they hold is never changed. -/
  grows : ∀ c : Call,
    s.rows.map (fun r => (r.id, r.content)) <+:
      (s.after sha256 c).rows.map fun r => (r.id, r.content)
  /-- A call that throws changes nothing. -/
  throws : ∀ (c : Call) e, s.call sha256 c = .error e →
    (s.after sha256 c).rows = s.rows ∧ (s.after sha256 c).outbox = s.outbox ∧
      (s.after sha256 c).cursor = s.cursor

/-- Sequence numbers that end at the page's cursor leave nothing else to check of it. -/
theorem cursor_of_sequence {s : LocalStore} {page : Page}
    (h : checkSequence s.cursor page.entries = .ok page.cursor) :
    ¬ (page.cursor < s.cursor ∨ page.entries = [] ∧ page.cursor ≠ s.cursor) := by
  obtain ⟨-, hcursor⟩ := checkSequence_ok_iff.mp h
  rintro (hlt | ⟨hempty, hne⟩)
  · omega
  · rw [hempty] at hcursor
    exact hne (by simpa using hcursor)

/-- A page of complete entries meets no row. -/
theorem not_meets {ids : List DartString} {incoming : List Operation} {page : Page}
    (h : ∀ e ∈ page.entries, e.Complete) : ¬ Meets ids (incoming.zip page.entries) := by
  rintro ⟨before, x, later, heq, hx, -⟩
  have hmem : x ∈ incoming.zip page.entries := by rw [heq]; simp
  exact hx (h _ (List.of_mem_zip hmem).2)

/-- A page that the loaded replica takes is stored. -/
theorem applyPage_total {s : LocalStore} (hk : Kept s) {r r' : Replica} (hr : s.replica = .ok r)
    {page : Page} {incoming : List Operation} (hcomplete : ∀ e ∈ page.entries, e.Complete)
    (hsequence : checkSequence s.cursor page.entries = .ok page.cursor)
    (hread : page.entries.mapM (fun e => fromJson e.operation) = .ok incoming)
    (hadds : r.addAll incoming = .ok r') : ∃ s', s.applyPage page = .ok s' := by
  obtain ⟨hc, rfl⟩ := causal_of_replica hk.ids hr
  have hchecks : s.Checks page incoming r'.operations :=
    { cursor := cursor_of_sequence hsequence, sequence := hsequence, read := hread, causal := hc,
      admits := Replica.addAll_ok_iff.mp hadds }
  obtain ⟨s', hs', -⟩ := applyPage_stored hk hchecks (not_meets hcomplete)
  exact ⟨s', hs'⟩

/-- **The invariant of the local store.** It holds after any calls, returning or throwing, when
pages name the actor and the time of their entries. -/
theorem local_store_invariant {sha256 : List UInt8 → DartString} {s : LocalStore}
    (h : Reachable sha256 Call.Complete s) : Invariant sha256 s := by
  have hk := h.kept
  have hc := h.causal
  have hload := replica_eq hc
  constructor
  case unique => exact hk.ids
  case ordered =>
    intro i hi p hp
    obtain ⟨j, hj, hlt, hid, hscope⟩ := hc.parent_before hi hp
    exact ⟨j, hj, hlt, hid, sameScope_iff.mp hscope⟩
  case loads =>
    have hadd := hload
    rw [replica, operations_eq] at hadd
    refine ⟨_, operations_eq s, hadd, rfl, ?_, ?_⟩
    · intro batch now r' hr'
      have hadmits := Replica.addAll_ok_iff.mp hr'
      exact ⟨_, by rw [save_eq hc hk.outbox, hadmits]⟩
    · intro page incoming r' hcomplete hsequence hread hr'
      exact applyPage_total hk hload hcomplete hsequence hread hr'
  case outbox => exact fun q hq => hk.outbox q.id (List.mem_map_of_mem hq)
  case grows =>
    intro c
    cases hcall : s.call sha256 c with
    | error e => rw [after_error hcall]
    | ok s' =>
        rw [after_ok hcall]
        obtain ⟨fresh, hadds, -⟩ := call_adds hk hcall
        exact hadds.contents
  case throws =>
    intro c e hcall
    rw [after_error hcall]
    exact ⟨rfl, rfl, rfl⟩

/-- After a save, a page that repeats an operation and brings another, and a page with a gap. -/
theorem local_store_invariant_run : Invariant (fun _ => dart "hash")
    (((new.after (fun _ => dart "hash") (.save [gate] fun _ => dart "now")).after
      (fun _ => dart "hash") (.applyPage
        { entries := [
            { sequence := some 1, actor := some (dart "ada"), created := some (dart "noon"),
              operation := gate.toJson },
            { sequence := some 2, actor := some (dart "bo"), created := some (dart "one"),
              operation := north.toJson }]
          cursor := 2, more := false })).after
      (fun _ => dart "hash") (.applyPage
        { entries := [{ sequence := some 4, actor := some (dart "bo"), created := some (dart "two"),
                        operation := south.toJson }]
          cursor := 4, more := false })) := by
  refine local_store_invariant (((Reachable.new.call _ trivial).call _ ?_).call _ ?_)
  · simp [Call.Complete, PageEntry.Complete]
  · simp [Call.Complete, PageEntry.Complete]

/-! ### Pages that lose operations -/

/-- What a page leaves behind, as it should: every operation is in the table, the cursor has
moved over the page, the outbox is as it was and the table loads. -/
structure Applied (s s' : LocalStore) (page : Page) : Prop where
  present : ∀ e ∈ page.entries, ∃ o, fromJson e.operation = .ok o ∧ ∃ x ∈ s'.ops, x.equivalent o = true
  cursor : s'.cursor = s.cursor + page.entries.length
  sequence : ∀ (i : Nat) (h : i < page.entries.length),
    page.entries[i].sequence = some (s.cursor + i + 1)
  outbox : s'.outbox = s.outbox
  loads : ∃ r, s'.replica = .ok r

/-- The page is refused by the checks, or by the row that an entry without actor or time meets;
or every such entry comes again complete, and the complete entries alone are in causal order
after the table. -/
def Whole (s : LocalStore) (page : Page) : Prop :=
  ∀ incoming r, s.Checks page incoming r →
    let xs := incoming.zip page.entries
    Meets s.ids xs ∨
      (∀ x ∈ xs, ¬ x.2.Complete → ∃ o ∈ completeOps xs, o.id = x.1.id) ∧
        ∃ r', admitAll s.ops (completeOps xs) = .ok r'

/-- A complete entry counts. -/
theorem mem_completeOps {xs : List (Operation × PageEntry)} {x : Operation × PageEntry}
    (hx : x ∈ xs) (hc : x.2.Complete) : x.1 ∈ completeOps xs :=
  List.mem_map_of_mem (List.mem_filter.mpr ⟨hx, decide_eq_true hc⟩)

theorem completeOps_subset {incoming : List Operation} {page : Page}
    (hread : page.entries.mapM (fun e => fromJson e.operation) = .ok incoming) {o : Operation}
    (ho : o ∈ completeOps (incoming.zip page.entries)) : o ∈ incoming := by
  obtain ⟨x, hx, rfl⟩ := List.mem_map.mp ho
  exact zip_fst hread ▸ List.mem_map_of_mem (List.mem_filter.mp hx).1

section Stored

variable {s s' : LocalStore} {page : Page} {incoming r : List Operation}

/-- What the page and the table hold of one ID is equivalent. -/
theorem Checks.same (h : s.Checks page incoming r) {a x : Operation} (ha : a ∈ incoming)
    (hx : x ∈ s.ops ∨ x ∈ completeOps (incoming.zip page.entries)) (hid : x.id = a.id) : Same x a :=
  same_of_admitted h.causal h.admits ha (hx.imp_right (completeOps_subset h.read)) hid

/-- The table loads when the complete entries alone are admitted to it. -/
theorem loads_iff (hk' : Kept s') (h : s.Checks page incoming r)
    (hops : s'.ops = s.ops ++
      (unseen s.ids (completeOps (incoming.zip page.entries))).map Operation.stored) :
    (∃ r', s'.replica = .ok r') ↔
      ∃ r', admitAll s.ops (completeOps (incoming.zip page.entries)) = .ok r' := by
  have hkeys : s.ops.map CausalNode.key = s.ids := (ids_eq s).symm
  constructor
  · rintro ⟨r', hr'⟩
    obtain ⟨hc, -⟩ := causal_of_replica hk'.ids hr'
    rw [hops, causal_stored_iff, ← hkeys] at hc
    exact ⟨_, admitAll_of_causal hc fun a ha x hx hid =>
      h.same (completeOps_subset h.read ha) hx hid⟩
  · rintro ⟨r', hr'⟩
    have hc : Causal s'.ops := by
      rw [hops, causal_stored_iff]
      exact causal_unseen h.causal hr'
    exact ⟨_, replica_eq hc⟩

/-- An operation of the page is present when the table or a complete entry has its ID. -/
theorem present_iff (h : s.Checks page incoming r)
    (hops : s'.ops = s.ops ++
      (unseen s.ids (completeOps (incoming.zip page.entries))).map Operation.stored)
    {o : Operation} (ho : o ∈ incoming) :
    (∃ x ∈ s'.ops, x.equivalent o = true) ↔
      o.id ∈ s.ids ∨ ∃ a ∈ completeOps (incoming.zip page.entries), a.id = o.id := by
  constructor
  · rintro ⟨x, hx, hxo⟩
    have hid := (equivalent_iff.mp hxo).1
    rw [hops, List.mem_append] at hx
    rcases hx with hx | hx
    · left
      rw [ids_eq, ← hid]
      exact List.mem_map_of_mem hx
    · obtain ⟨a, ha, rfl⟩ := List.mem_map.mp hx
      exact Or.inr ⟨a, (unseen_subset a ha).1, hid⟩
  · -- Whatever has the ID in the table afterwards is equivalent.
    have hpresent : o.id ∈ s'.ids → ∃ x ∈ s'.ops, x.equivalent o = true := by
      intro hid
      rw [ids_eq] at hid
      obtain ⟨x, hx, hxo⟩ := List.mem_map.mp hid
      refine ⟨x, hx, ?_⟩
      rw [hops, List.mem_append] at hx
      rcases hx with hx | hx
      · exact h.same ho (Or.inl hx) hxo
      · obtain ⟨a, ha, rfl⟩ := List.mem_map.mp hx
        exact (same_stored a).symm.trans (h.same ho (Or.inr (unseen_subset a ha).1) hxo)
    have hids : s'.ids = s.ids ++
        (unseen s.ids (completeOps (incoming.zip page.entries))).map fun o => o.id := by
      rw [ids_eq s', hops, List.map_append, ← ids_eq s, List.map_map]
      rfl
    rw [hids, List.mem_append] at hpresent
    rintro (hid | ⟨a, ha, hao⟩)
    · exact hpresent (Or.inl hid)
    · by_cases hmem : o.id ∈ s.ids
      · exact hpresent (Or.inl hmem)
      · have hkey : CausalNode.key a = o.id := hao
        exact hpresent (Or.inr (hkey ▸ unseen_covers ha (hkey ▸ hmem)))

/-- The page is left behind as it should, when its complete entries carry the others. -/
theorem applied_iff (hk' : Kept s') (h : s.Checks page incoming r)
    (hmeets : ¬ Meets s.ids (incoming.zip page.entries))
    (hops : s'.ops = s.ops ++
      (unseen s.ids (completeOps (incoming.zip page.entries))).map Operation.stored)
    (houtbox : s'.outbox = s.outbox) (hcursor : s'.cursor = page.cursor) :
    Applied s s' page ↔
      (∀ x ∈ incoming.zip page.entries, ¬ x.2.Complete →
        ∃ o ∈ completeOps (incoming.zip page.entries), o.id = x.1.id) ∧
      ∃ r', admitAll s.ops (completeOps (incoming.zip page.entries)) = .ok r' := by
  have hentry : ∀ {x : Operation × PageEntry}, x ∈ incoming.zip page.entries →
      fromJson x.2.operation = .ok x.1 := of_mem_zip h.read
  obtain ⟨hsequence, hnext⟩ := checkSequence_ok_iff.mp h.sequence
  constructor
  · intro happlied
    refine ⟨fun x hx hnot => ?_, (loads_iff hk' h hops).mp happlied.loads⟩
    obtain ⟨o, ho, hpresent⟩ := happlied.present x.2 (List.of_mem_zip hx).2
    obtain rfl := Except.ok.inj ((hentry hx).symm.trans ho)
    rcases (present_iff h hops (List.of_mem_zip hx).1).mp hpresent with hid | hid
    · -- An entry without actor or time whose ID the table has would have made the page fail.
      obtain ⟨before, later, heq⟩ := List.append_of_mem hx
      exact absurd ⟨before, x, later, heq, hnot, Or.inl hid⟩ hmeets
    · exact hid
  · rintro ⟨hcarried, hadmits⟩
    refine
      { present := fun e he => ?_, cursor := hcursor.trans hnext, sequence := hsequence,
        outbox := houtbox, loads := (loads_iff hk' h hops).mpr hadmits }
    have hsnd : (incoming.zip page.entries).map Prod.snd = page.entries :=
      List.map_snd_zip (length_of_mapM h.read).ge
    rw [← hsnd] at he
    obtain ⟨x, hx, rfl⟩ := List.mem_map.mp he
    refine ⟨x.1, hentry hx, (present_iff h hops (List.of_mem_zip hx).1).mpr (Or.inr ?_)⟩
    by_cases hc : x.2.Complete
    · exact ⟨x.1, mem_completeOps hx hc, rfl⟩
    · exact hcarried x hx hc

end Stored

/-- **When a page is applied whole.** In every state, whatever pages came before: `applyPage`
throws and changes nothing, or leaves the page behind as it should, exactly when the page is
`Whole`. -/
theorem page_applied_whole_iff {sha256 : List UInt8 → DartString} {s : LocalStore}
    (h : Reachable sha256 (fun _ => True) s) (page : Page) :
    ((∃ e, s.applyPage page = .error e) ∧ s.after sha256 (.applyPage page) = s ∨
      ∃ s', s.applyPage page = .ok s' ∧ Applied s s' page) ↔ Whole s page := by
  have hk := h.kept
  constructor
  · intro hwhole incoming r hchecks
    by_cases hmeets : Meets s.ids (incoming.zip page.entries)
    · exact Or.inl hmeets
    right
    obtain ⟨s', hs', hops, houtbox, hcursor⟩ := applyPage_stored hk hchecks hmeets
    have hafter : s.after sha256 (.applyPage page) = s' := after_ok hs'
    have hk' : Kept s' := hafter ▸ hk.after _
    rcases hwhole with ⟨⟨e, he⟩, -⟩ | ⟨s'', hs'', happlied⟩
    · rw [hs'] at he; cases he
    · obtain rfl := Except.ok.inj (hs'.symm.trans hs'')
      exact (applied_iff hk' hchecks hmeets hops houtbox hcursor).mp happlied
  · intro hwhole
    cases hcall : s.applyPage page with
    | error e => exact Or.inl ⟨⟨e, rfl⟩, after_error (c := .applyPage page) hcall⟩
    | ok s' =>
        right
        obtain ⟨incoming, r, hchecks, hmeets⟩ := applyPage_checked hk hcall
        obtain ⟨s'', hs'', hops, houtbox, hcursor⟩ := applyPage_stored hk hchecks hmeets
        obtain rfl := Except.ok.inj (hcall.symm.trans hs'')
        have hafter : s.after sha256 (.applyPage page) = s' := after_ok hcall
        have hk' : Kept s' := hafter ▸ hk.after _
        refine ⟨s', rfl, (applied_iff hk' hchecks hmeets hops houtbox hcursor).mpr ?_⟩
        exact (hwhole incoming r hchecks).resolve_left hmeets

/-- A page whose first entry has no actor, and whose second entry builds on the first. -/
def orphaned : Page :=
  { entries := [
      { sequence := some 1, actor := none, created := some (dart "noon"), operation := gate.toJson },
      { sequence := some 2, actor := some (dart "bo"), created := some (dart "one"),
        operation := north.toJson }]
    cursor := 2, more := false }

/-- The page is accepted, the first operation is lost, and the table does not load any more. -/
theorem applyPage_orphaned :
    (new.applyPage orphaned).map (fun s => (s.ops, s.cursor, s.replica.map Replica.operations)) =
      .ok ([north], 2, .error (.format "Missing or invalid causal parent")) := by
  decide +kernel

theorem orphaned_spoils (h : (∃ e, new.applyPage orphaned = .error e) ∨
    ∃ s', new.applyPage orphaned = .ok s' ∧ Applied new s' orphaned) : False := by
  have heval := applyPage_orphaned
  rcases h with ⟨e, he⟩ | ⟨s', hs', happlied⟩
  · rw [he] at heval
    cases heval
  · rw [hs'] at heval
    obtain ⟨r, hr⟩ := happlied.loads
    have hload := congrArg (fun t => t.2.2) (Except.ok.inj heval)
    dsimp only at hload
    rw [hr] at hload
    cases hload

theorem page_loses_operation :
    ¬ ((∃ e, new.applyPage orphaned = .error e) ∧
        new.after (fun _ => []) (.applyPage orphaned) = new ∨
      ∃ s', new.applyPage orphaned = .ok s' ∧ Applied new s' orphaned) :=
  fun h => orphaned_spoils (h.imp_left And.left)

/-- The page is not `Whole`. -/
theorem page_applied_whole_iff_run : ¬ Whole new orphaned := by
  intro hwhole
  have h := (@page_applied_whole_iff (fun _ => []) new Reachable.new orphaned).mpr hwhole
  exact orphaned_spoils (h.imp_left And.left)

end LocalStore

end Syncraft.Field
