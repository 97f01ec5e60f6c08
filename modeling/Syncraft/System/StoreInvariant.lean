import Syncraft.System.System

/-!
# Syncraft.System.StoreInvariant

What ties a device's store to the server log (`StoreInv`), and that every method of the store
keeps it. The log appears as the list of its operations, `log`.

Operations are compared as they are stored. Since an ID is never used for two contents, an
ID determines the stored operation (`Made.eq_of_id`), on the devices and, through `toGo`, on the
server; the results of the causal log library, which hold up to `Same`, hold exactly here.
-/

namespace Syncraft.System

open Syncraft.Field CausalLog

variable {made : Operation → Prop}

/-! ### Edits, as they are stored -/

/-- The operation is an edit, as it is stored. -/
def Made (made : Operation → Prop) (o : Operation) : Prop := ∃ e, made e ∧ e.stored = o

theorem Made.of_made {e : Operation} (h : made e) : Made made e.stored := ⟨e, h, rfl⟩

theorem Made.stored_eq {o : Operation} (h : Made made o) : o.stored = o := by
  obtain ⟨e, -, rfl⟩ := h
  exact stored_stored e

theorem Made.wellFormed (he : Edits made) {o : Operation} (h : Made made o) :
    Text.WellFormed o.value := by
  obtain ⟨e, hm, rfl⟩ := h
  exact he.survives e hm

/-- An ID determines the operation. -/
theorem Made.eq_of_id (he : Edits made) {a b : Operation} (ha : Made made a) (hb : Made made b)
    (h : a.id = b.id) : a = b := by
  obtain ⟨e, hm, rfl⟩ := ha
  obtain ⟨e', hm', rfl⟩ := hb
  exact stored_of_same (he.distinct e e' hm hm' h)

/-- So does the ID the server knows it by. -/
theorem Made.eq_of_toGo (he : Edits made) {a b : Operation} (ha : Made made a) (hb : Made made b)
    (h : a.toGo = b.toGo) : a = b :=
  ha.eq_of_id he hb ((toGo_inj a.id_wellFormed b.id_wellFormed).mp
    (congrArg Domain.Operation.id h))

theorem Made.same_iff (he : Edits made) {a b : Operation} (ha : Made made a) (hb : Made made b) :
    Same a b ↔ a.id = b.id :=
  ⟨fun h => (equivalent_iff.mp h).1, fun h => ha.eq_of_id he hb h ▸ Same.refl a⟩

/-- The device's form of what the server holds. -/
theorem exists_local {log : List (Domain.Operation GoString)}
    (h : ∀ q ∈ log, ∃ o, Made made o ∧ o.toGo = q) :
    ∃ ops : List Operation, ops.map Operation.toGo = log ∧ ∀ o ∈ ops, Made made o := by
  induction log with
  | nil => exact ⟨[], rfl, by simp⟩
  | cons q log ih =>
      obtain ⟨o, ho, rfl⟩ := h q List.mem_cons_self
      obtain ⟨ops, rfl, hops⟩ := ih fun x hx => h x (List.mem_cons_of_mem _ hx)
      refine ⟨o :: ops, rfl, fun x hx => ?_⟩
      rcases List.mem_cons.mp hx with rfl | hx
      · exact ho
      · exact hops x hx

/-! ### Causal lists of edits -/

/-- A causal list of edits covers another when it holds its members. -/
theorem covers_of_subset {l l' : List Operation} (hc : Causal l') (h : ∀ o ∈ l, o ∈ l') :
    Covers l l' := by
  intro k x hx
  have hmem := h x (mem_of_find hx)
  have hfind := hc.find_of_mem hmem
  rw [key_of_find hx] at hfind
  exact ⟨x, hfind, Same.refl x⟩

/-- Lists of edits agree about every edit. -/
theorem agrees_of_made (he : Edits made) {l : List Operation} (hl : ∀ o ∈ l, Made made o)
    {a : Operation} (ha : Made made a) : Agrees l a := by
  intro y hy
  exact ((hl y (mem_of_find hy)).same_iff he ha).mpr (key_of_find hy)

/-- What a list of edits holds once it has admitted a batch: its own members, and the batch's
as they are stored. -/
theorem stored_mem_of_admitted (he : Edits made) {l r batch : List Operation}
    (hl : ∀ o ∈ l, Made made o) (h : admitAll l batch = .ok r)
    (hbatch : ∀ o ∈ batch, Made made o.stored) {o : Operation} (ho : o ∈ batch) :
    o.stored ∈ l ++ (unseen (l.map fun x => x.id) batch).map Operation.stored := by
  obtain ⟨x, hx, -⟩ := admitAll_holds h ho
  have hr : r = l ++ unseen (l.map fun x => x.id) batch := admitAll_unseen h
  have hmem := mem_of_find hx
  have hid : x.id = o.id := key_of_find hx
  rw [hr, List.mem_append] at hmem
  simp only [List.mem_append]
  rcases hmem with hmem | hmem
  · have : o.stored = x := (hbatch o ho).eq_of_id he (hl x hmem) hid.symm
    exact Or.inl (this ▸ hmem)
  · have hxb := (unseen_subset x hmem).1
    have : o.stored = x.stored := (hbatch o ho).eq_of_id he (hbatch x hxb) hid.symm
    exact Or.inr (this ▸ List.mem_map_of_mem hmem)

/-- Adding what is unseen, as it is stored, keeps a list causal. -/
theorem causal_stored {l r batch : List Operation} (hc : Causal l) (h : admitAll l batch = .ok r) :
    Causal (l ++ (unseen (l.map fun x => x.id) batch).map Operation.stored) := by
  have hr : r = l ++ unseen (l.map fun x => x.id) batch := admitAll_unseen h
  have hcr := admitAll_causal hc h
  rw [hr] at hcr
  refine hcr.of_alike (List.rel_append (Alike.refl l) ?_)
  simp only [List.forall₂_map_right_iff]
  exact List.forall₂_same.mpr fun o _ => same_stored o

/-- Edits that follow, in a causal list, on edits that are held are admitted. -/
theorem admits_rest (he : Edits made) {l before incoming : List Operation} (hl : Causal l)
    (hmade : ∀ o ∈ l, Made made o) (hcausal : Causal (before ++ incoming))
    (hin : ∀ o ∈ incoming, Made made o) (hsub : ∀ o ∈ before, o ∈ l) :
    ∃ r, admitAll l incoming = .ok r := by
  obtain ⟨mid, hmid, hrest⟩ := admitAll_cut hcausal.admitAll_eq
  have hbefore := (hcausal.of_extends (List.prefix_append _ _)).admitAll_eq
  rw [hbefore] at hmid
  obtain rfl := Except.ok.inj hmid
  rcases admitAll_later (covers_of_subset hl hsub) hrest with ⟨⟨r, hr, -⟩, -⟩ | ⟨-, a, ha, hnot⟩
  · exact ⟨r, hr⟩
  · exact absurd (agrees_of_made he hmade (hin a ha)) hnot

/-! ### The invariant of a store -/

/-- The store holds edits in causal order; each of them is queued or on the server; and
everything the server has numbered up to the cursor is held. -/
structure StoreInv (made : Operation → Prop) (log : List (Domain.Operation GoString))
    (s : LocalStore) : Prop where
  causal : Causal s.ops
  made : ∀ o ∈ s.ops, Made made o
  outbox : s.OutboxStored
  pushed : ∀ o ∈ s.ops, o.id ∈ s.outbox.map Queued.id ∨ o.toGo ∈ log
  cursor : ∃ c : Nat, s.cursor = c ∧ c ≤ log.length ∧ ∀ q ∈ log.take c, ∃ o ∈ s.ops, o.toGo = q

theorem StoreInv.new (made : Operation → Prop) : StoreInv made [] LocalStore.new where
  causal := Causal.nil
  made _ h := absurd h List.not_mem_nil
  outbox _ h := absurd h List.not_mem_nil
  pushed _ h := absurd h List.not_mem_nil
  cursor := ⟨0, rfl, Nat.le_refl 0, fun _ h => absurd h (by simp)⟩

/-- The invariant is about operations, outbox and cursor only. -/
theorem StoreInv.congr {log : List (Domain.Operation GoString)} {s s' : LocalStore}
    (h : StoreInv made log s) (hops : s'.ops = s.ops)
    (hout : s'.outbox.map Queued.id = s.outbox.map Queued.id) (hcur : s'.cursor = s.cursor) :
    StoreInv made log s' where
  causal := hops ▸ h.causal
  made := hops ▸ h.made
  outbox id hid := by
    rw [LocalStore.ids_eq, hops, ← LocalStore.ids_eq]
    exact h.outbox id (hout ▸ hid)
  pushed := by rw [hops, hout]; exact h.pushed
  cursor := by rw [hops, hcur]; exact h.cursor

/-- The server log grows. -/
theorem StoreInv.grow {log log' : List (Domain.Operation GoString)} {s : LocalStore}
    (h : StoreInv made log s) (hgrow : log <+: log') : StoreInv made log' s where
  causal := h.causal
  made := h.made
  outbox := h.outbox
  pushed o ho := (h.pushed o ho).imp_right fun hq => hgrow.subset hq
  cursor := by
    obtain ⟨c, hc, hle, hall⟩ := h.cursor
    obtain ⟨t, rfl⟩ := hgrow
    refine ⟨c, hc, by simp only [List.length_append]; omega, ?_⟩
    rw [List.take_append_of_le_length hle]
    exact hall

/-- A cursor of a store without operations has not moved. -/
theorem StoreInv.cursor_empty {log : List (Domain.Operation GoString)} {s : LocalStore}
    (h : StoreInv made log s) (hs : s.rows = []) : s.cursor = 0 := by
  obtain ⟨c, hc, hle, hall⟩ := h.cursor
  rw [hc]
  cases hl : log.take c with
  | nil =>
      have hlen := congrArg List.length hl
      simp only [List.length_take, List.length_nil] at hlen
      omega
  | cons q rest =>
      obtain ⟨o, ho, -⟩ := hall q (by rw [hl]; exact List.mem_cons_self)
      simp [LocalStore.ops, hs] at ho

/-- A store that has grown by what it admitted keeps the invariant, when what is new is queued
or on the server. -/
theorem StoreInv.extend {log : List (Domain.Operation GoString)} {s s' : LocalStore}
    (h : StoreInv made log s) {batch r : List Operation} (hadmits : admitAll s.ops batch = .ok r)
    (hbatch : ∀ o ∈ batch, Made made o.stored)
    (hops : s'.ops = s.ops ++ (unseen s.ids batch).map Operation.stored) (hout : s'.OutboxStored)
    (hkept : ∀ id ∈ s.outbox.map Queued.id, id ∈ s'.outbox.map Queued.id)
    (hnew : ∀ o ∈ unseen s.ids batch, o.id ∈ s'.outbox.map Queued.id ∨ o.toGo ∈ log)
    (hcursor : ∃ c : Nat, s'.cursor = c ∧ c ≤ log.length ∧
      ∀ q ∈ log.take c, ∃ o ∈ s'.ops, o.toGo = q) :
    StoreInv made log s' where
  causal := by
    rw [hops, LocalStore.ids_eq s]
    exact causal_stored h.causal hadmits
  made o ho := by
    rw [hops, List.mem_append] at ho
    rcases ho with ho | ho
    · exact h.made o ho
    · obtain ⟨x, hx, rfl⟩ := List.mem_map.mp ho
      exact hbatch x (unseen_subset x hx).1
  outbox := hout
  pushed o ho := by
    rw [hops, List.mem_append] at ho
    rcases ho with ho | ho
    · exact (h.pushed o ho).imp_left (hkept o.id)
    · obtain ⟨x, hx, rfl⟩ := List.mem_map.mp ho
      simp only [stored_id, toGo_stored]
      exact hnew x hx
  cursor := hcursor

/-- **A save** keeps the invariant, and stores what it was given. -/
theorem StoreInv.save (he : Edits made) {log : List (Domain.Operation GoString)} {s s' : LocalStore}
    (h : StoreInv made log s) {batch : List Operation} {now : Operation → DartString}
    (hbatch : ∀ o ∈ batch, Made made o.stored) (hok : s.save batch now = .ok s') :
    StoreInv made log s' ∧ s'.cursor = s.cursor ∧ s.ops <+: s'.ops ∧
      ∀ o ∈ batch, o.stored ∈ s'.ops := by
  rw [LocalStore.save_eq h.causal h.outbox] at hok
  cases ha : admitAll s.ops batch with
  | error e => rw [ha] at hok; cases hok
  | ok r =>
      rw [ha] at hok
      obtain rfl := Except.ok.inj hok
      have hops : (s.add now (unseen s.ids batch)).ops =
          s.ops ++ (unseen s.ids batch).map Operation.stored := LocalStore.ops_add ..
      have hgrow : s.ops <+: (s.add now (unseen s.ids batch)).ops := hops ▸ List.prefix_append _ _
      refine ⟨?_, rfl, hgrow, fun o ho => ?_⟩
      · refine h.extend ha hbatch hops (h.outbox.add now _) (fun id hid => ?_) (fun o ho => ?_) ?_
        · simp only [LocalStore.outbox_ids_add]
          exact List.mem_append_left _ hid
        · simp only [LocalStore.outbox_ids_add]
          exact Or.inl (List.mem_append_right _ (List.mem_map_of_mem ho))
        · obtain ⟨c, hc, hle, hall⟩ := h.cursor
          refine ⟨c, hc, hle, fun q hq => ?_⟩
          obtain ⟨o, ho, hoq⟩ := hall q hq
          exact ⟨o, hgrow.subset ho, hoq⟩
      · rw [hops, LocalStore.ids_eq s]
        exact stored_mem_of_admitted he h.made ha hbatch ho

/-- **An acknowledgement** keeps the invariant when the server holds what it removes. -/
theorem StoreInv.acknowledge (he : Edits made) {log : List (Domain.Operation GoString)}
    {s : LocalStore} (h : StoreInv made log s) {batch : List Operation}
    (hbatch : ∀ o ∈ batch, Made made o ∧ o.toGo ∈ log) :
    StoreInv made log (s.acknowledge (batch.map fun o => o.id)) where
  causal := h.causal
  made := h.made
  outbox id hid := by
    obtain ⟨q, hq, rfl⟩ := List.mem_map.mp hid
    exact h.outbox _ (List.mem_map_of_mem (List.mem_filter.mp hq).1)
  pushed o ho := by
    rcases h.pushed o ho with hq | hlog
    · by_cases hmem : o.id ∈ batch.map fun x => x.id
      · obtain ⟨x, hx, hid⟩ := List.mem_map.mp hmem
        obtain ⟨hxm, hxl⟩ := hbatch x hx
        exact Or.inr (hxm.eq_of_id he (h.made o ho) hid ▸ hxl)
      · obtain ⟨q, hq, hid⟩ := List.mem_map.mp hq
        refine Or.inl (List.mem_map.mpr ⟨q, List.mem_filter.mpr ⟨hq, ?_⟩, hid⟩)
        rw [hid, Bool.not_eq_true', List.contains_eq_mem, decide_eq_false_iff_not]
        exact hmem
    · exact Or.inr hlog
  cursor := h.cursor

/-- Recording a failure changes neither operations nor what is queued. -/
theorem StoreInv.failed {log : List (Domain.Operation GoString)} {s : LocalStore}
    (h : StoreInv made log s) (ids : List DartString) (text : DartString) :
    StoreInv made log (s.failed ids text) :=
  h.congr rfl (by simp [LocalStore.failed, Function.comp_def]) rfl

theorem StoreInv.deviceId {log : List (Domain.Operation GoString)} {s : LocalStore}
    (h : StoreInv made log s) (uuid : DartString) : StoreInv made log (s.deviceId uuid).2 := by
  unfold LocalStore.deviceId
  split
  · exact h
  · exact h.congr rfl rfl rfl

/-- **A restore** of edits keeps the invariant, and leaves the cursor where it was. -/
theorem StoreInv.restore {log : List (Domain.Operation GoString)} {s s' : LocalStore}
    (h : StoreInv made log s) {sha256 : List UInt8 → DartString} {payload : Payload}
    {now : Operation → DartString} {ops : List Operation} (hmade : ∀ o ∈ ops, Made made o)
    (hpayload : payload.operations = ops.map Operation.toJson)
    (hok : RecoveryBundle.restore sha256 s payload now = .ok s') :
    StoreInv made log s' ∧ s'.cursor = s.cursor ∧ s.rows = [] := by
  obtain ⟨ops', attachments, ⟨hrows, hops', hc, -, -, rfl⟩⟩ :=
    RecoveryBundle.restore_ok h.outbox hok
  -- The bundle is read as it was exported.
  have hread : payload.operations.mapM fromJson = .ok ops := by
    rw [hpayload]
    refine LocalStore.mapM_ok_iff.mpr ?_
    simp only [List.map_map]
    refine List.map_congr_left fun o ho => ?_
    exact (fromJson_toJson o).trans (congrArg _ (hmade o ho).stored_eq)
  rw [hread] at hops'
  obtain rfl := Except.ok.inj hops'
  have hempty : s.ops = [] := by simp [LocalStore.ops, hrows]
  have hstored : ops.map Operation.stored = ops := by
    refine (List.map_congr_left fun o ho => (hmade o ho).stored_eq).trans (List.map_id _)
  have hnew : (s.add now ops).ops = ops := by
    rw [LocalStore.ops_add, hempty, hstored, List.nil_append]
  refine ⟨⟨hnew.symm ▸ hc, hnew.symm ▸ hmade, h.outbox.add now ops, ?_, ?_⟩, ?_, hrows⟩
  · intro o ho
    have ho' : o ∈ ops := by
      have : o ∈ (s.add now ops).ops := ho
      rwa [hnew] at this
    refine Or.inl ?_
    show o.id ∈ (s.add now ops).outbox.map Queued.id
    simp only [LocalStore.outbox_ids_add]
    exact List.mem_append_right _ (List.mem_map_of_mem ho')
  · exact ⟨0, rfl, Nat.zero_le _, fun q hq => by simp at hq⟩
  · rw [h.cursor_empty hrows]
    rfl

/-! ### Pages -/

/-- The page is the part of the log after `c` and up to `stop`. -/
structure Slice (entries : List Domain.Entry) (c stop : Nat) (page : Domain.Page) : Prop where
  le : c ≤ stop
  bound : stop ≤ entries.length
  entries : page.entries = (entries.take stop).drop c
  cursor : page.cursor = stop

/-- It still is when the log has grown. -/
theorem Slice.grow {entries entries' : List Domain.Entry} {c stop : Nat} {page : Domain.Page}
    (h : Slice entries c stop page) (hgrow : entries <+: entries') : Slice entries' c stop page := by
  obtain ⟨t, rfl⟩ := hgrow
  have hb := h.bound
  exact {
    le := h.le
    bound := by simp only [List.length_append]; omega
    entries := by rw [List.take_append_of_le_length hb]; exact h.entries
    cursor := h.cursor }

/-- What a pull returns. -/
theorem slice_of_pull {server : Store.Space} {after limit : Int} {page : Domain.Page}
    (h : server.pull after limit = .ok page) :
    ∃ c stop : Nat, after = c ∧ Slice server.entries c stop page := by
  unfold Store.Space.pull at h
  split at h
  · cases h
  · next hguard =>
      obtain rfl := Except.ok.inj h
      refine ⟨after.toNat, min (after.toNat + limit.toNat) server.entries.length, by omega, ?_⟩
      exact { le := by omega, bound := by omega, entries := rfl, cursor := rfl }

variable (created : Domain.Entry → DartString)

/-- An entry that holds an edit, as the device decodes it. -/
theorem receiveEntry_eq (he : Edits made) {e : Domain.Entry} {o : Operation} (ho : Made made o)
    (h : e.operation = o.toGo) :
    ∃ actor, receiveEntry created e =
      some { sequence := some e.sequence, actor := some actor, created := some (created e),
             operation := o.toJson } := by
  obtain ⟨actor, hactor⟩ := JsonText.exists_unitsOf_bytesLiteral e.actor
  exact ⟨actor, by rw [receiveEntry, hactor, h, jsonDecode_toGo (ho.wellFormed he)]; rfl⟩

/-- Entries that hold edits are decoded, and their operations read. -/
theorem receiveEntries_eq (he : Edits made) {es : List Domain.Entry} {ops : List Operation}
    (hops : ∀ o ∈ ops, Made made o) (h : es.map Domain.Entry.operation = ops.map Operation.toGo) :
    ∃ rs, es.mapM (receiveEntry created) = some rs ∧ (∀ r ∈ rs, r.Complete) ∧
      rs.map PageEntry.sequence = es.map (fun e => some (e.sequence : Int)) ∧
      rs.map (fun r => fromJson r.operation) = ops.map .ok := by
  induction es generalizing ops with
  | nil =>
      obtain rfl := List.map_eq_nil_iff.mp h.symm
      exact ⟨[], rfl, by simp, rfl, rfl⟩
  | cons e es ih =>
      obtain ⟨o, ops, rfl⟩ := List.exists_cons_of_ne_nil (l := ops) (by rintro rfl; cases h)
      simp only [List.map_cons, List.cons.injEq] at h
      have ho := hops o List.mem_cons_self
      obtain ⟨actor, hentry⟩ := receiveEntry_eq created he ho h.1
      obtain ⟨rs, hrs, hcomplete, hsequence, hread⟩ :=
        ih (fun x hx => hops x (List.mem_cons_of_mem _ hx)) h.2
      have hnew : fromJson o.toJson = .ok o :=
        (fromJson_toJson o).trans (congrArg _ ho.stored_eq)
      refine ⟨_, by rw [List.mapM_cons, hentry, hrs]; rfl, ?_, ?_, ?_⟩
      · intro r hr
        rcases List.mem_cons.mp hr with rfl | hr
        · exact ⟨rfl, rfl⟩
        · exact hcomplete r hr
      · rw [List.map_cons, List.map_cons, hsequence]
      · rw [List.map_cons, List.map_cons, hread, hnew]

/-- What a device makes of such a page: `before` is the log up to `c`, and `incoming` is what
the page brings. -/
structure Received (made : Operation → Prop) (log : List (Domain.Operation GoString)) (c stop : Nat)
    (received : Page) (before incoming : List Operation) : Prop where
  held : before.map Operation.toGo = log.take c
  brought : (before ++ incoming).map Operation.toGo = log.take stop
  made : ∀ o ∈ before ++ incoming, Made made o
  causal : Causal (before ++ incoming)
  cursor : received.cursor = stop
  length : received.entries.length = stop - c
  sequence : ∀ (i : Nat) (hi : i < received.entries.length),
    received.entries[i].sequence = some ((c : Int) + i + 1)
  complete : ∀ e ∈ received.entries, e.Complete
  read : received.entries.map (fun e => fromJson e.operation) = incoming.map .ok

/-- A page of the log, as the device decodes it. -/
theorem receivePage_eq (he : Edits made) {server : Store.Space} (hi : server.Inv)
    (hlog : ∀ q ∈ server.ops, ∃ o, Made made o ∧ o.toGo = q) {c stop : Nat} {page : Domain.Page}
    (h : Slice server.entries c stop page) :
    ∃ (received : Page) (before incoming : List Operation),
      receivePage created page = some received ∧
      Received made server.ops c stop received before incoming := by
  obtain ⟨ops, hops, hmade⟩ := exists_local hlog
  have hle := h.le
  have hbound := h.bound
  have hcat : ops.take c ++ (ops.take stop).drop c = ops.take stop := by
    have htake : ops.take c = (ops.take stop).take c := by
      rw [List.take_take, Nat.min_eq_left hle]
    rw [htake, List.take_append_drop]
  have hin : ∀ o ∈ (ops.take stop).drop c, Made made o :=
    fun o ho => hmade o (List.mem_of_mem_take (List.mem_of_mem_drop ho))
  have hentries : page.entries.map Domain.Entry.operation =
      ((ops.take stop).drop c).map Operation.toGo := by
    rw [h.entries, List.map_drop, List.map_take, List.map_drop, List.map_take, hops]
    rfl
  obtain ⟨rs, hrs, hcomplete, hsequence, hread⟩ := receiveEntries_eq created he hin hentries
  have hlen : rs.length = stop - c := by
    have := congrArg List.length hsequence
    rw [List.length_map, List.length_map, h.entries, List.length_drop, List.length_take] at this
    omega
  have hcausal : Causal (ops.take stop) := by
    refine Causal.of_extends (wire.causal_map.mp ?_) (List.take_prefix _ _)
    rw [hops]
    exact hi.causal
  refine ⟨{ entries := rs, cursor := page.cursor, more := page.more }, ops.take c,
    (ops.take stop).drop c, by rw [receivePage, hrs]; rfl, ?_⟩
  refine { held := ?_, brought := ?_, made := ?_, causal := hcat.symm ▸ hcausal,
           cursor := congrArg _ h.cursor, length := hlen, sequence := ?_, complete := hcomplete,
           read := hread }
  · rw [List.map_take, hops]
  · rw [hcat, List.map_take, hops]
  · rw [hcat]
    exact fun o ho => hmade o (List.mem_of_mem_take ho)
  · intro i hlt
    replace hlt : i < rs.length := hlt
    have hget := congrArg (fun l => l[i]?) hsequence
    have hpage : i < page.entries.length := by
      rw [h.entries, List.length_drop, List.length_take]; omega
    simp only [List.getElem?_map, List.getElem?_eq_getElem hlt, List.getElem?_eq_getElem hpage,
      Option.map_some, Option.some.injEq] at hget
    rw [hget]
    -- Entry `i` of the page is entry `c + i` of the log.
    have hseq : page.entries[i].sequence = c + i + 1 := by
      have hidx : c + i < server.entries.length := by omega
      have hentry : page.entries[i] = server.entries[c + i] := by
        simp only [h.entries, List.getElem_drop, List.getElem_take]
      rw [hentry, hi.sequence _ hidx]
    rw [hseq]
    push_cast
    rfl

/-- Edits the server has numbered up to the cursor are held. -/
theorem StoreInv.holds_before (he : Edits made) {log : List (Domain.Operation GoString)}
    {s : LocalStore} (h : StoreInv made log s) {c : Nat} (hc : s.cursor = c)
    {before : List Operation} (hmade : ∀ o ∈ before, Made made o)
    (hbefore : before.map Operation.toGo = log.take c) : ∀ o ∈ before, o ∈ s.ops := by
  intro o ho
  obtain ⟨c', hc', -, hall⟩ := h.cursor
  obtain rfl : c' = c := Int.ofNat.inj (hc'.symm.trans hc)
  obtain ⟨x, hx, hxo⟩ := hall o.toGo (hbefore ▸ List.mem_map_of_mem ho)
  exact (h.made x hx).eq_of_toGo he (hmade o ho) hxo ▸ hx

/-- **A page for the current cursor is applied**, whatever the device has saved meanwhile, and
keeps the invariant. -/
theorem StoreInv.apply (he : Edits made) {server : Store.Space} (hi : server.Inv)
    (hlog : ∀ q ∈ server.ops, ∃ o, Made made o ∧ o.toGo = q) {s : LocalStore}
    (h : StoreInv made server.ops s) {c stop : Nat} {page : Domain.Page} (hc : s.cursor = c)
    (hslice : Slice server.entries c stop page) {received : Page}
    (hreceived : receivePage created page = some received) :
    ∃ s', s.applyPage received = .ok s' ∧ StoreInv made server.ops s' ∧ s'.cursor = stop ∧
      s.ops <+: s'.ops ∧ s'.outbox = s.outbox := by
  obtain ⟨received', before, incoming, hrec, hpage⟩ := receivePage_eq created he hi hlog hslice
  obtain rfl := Option.some.inj (hreceived.symm.trans hrec)
  have hin : ∀ o ∈ incoming, Made made o := fun o ho => hpage.made o (List.mem_append_right _ ho)
  have hstored : ∀ o ∈ incoming, Made made o.stored :=
    fun o ho => (hin o ho).stored_eq.symm ▸ hin o ho
  -- The log up to the cursor is held, so what follows in the log is admitted.
  have hheld := h.holds_before he hc (fun o ho => hpage.made o (List.mem_append_left _ ho)) hpage.held
  obtain ⟨r, hr⟩ := admits_rest he h.causal h.made hpage.causal hin hheld
  have hcur : received.cursor = s.cursor + received.entries.length := by
    have hle := hslice.le
    rw [hpage.cursor, hc, hpage.length]
    omega
  obtain ⟨s', happly, hops, hout, hcur'⟩ := LocalStore.applyPage_ok h.causal
    (by rw [hc]; exact hpage.sequence) hcur hpage.complete hpage.read hr
  have hstop : s'.cursor = stop := hcur'.trans hpage.cursor
  have hgrow : s.ops <+: s'.ops := hops ▸ List.prefix_append _ _
  refine ⟨s', happly, ?_, hstop, hgrow, hout⟩
  refine h.extend hr hstored hops (fun id hid => ?_) (fun id hid => hout ▸ hid) (fun o ho => ?_) ?_
  · rw [hout] at hid
    simp only [LocalStore.ids_eq]
    exact (hgrow.map _).subset (LocalStore.ids_eq s ▸ h.outbox id hid)
  · have hmem : o.toGo ∈ server.ops.take stop :=
      hpage.brought ▸ List.mem_map_of_mem (List.mem_append_right _ (unseen_subset o ho).1)
    exact Or.inr (List.mem_of_mem_take hmem)
  · refine ⟨stop, hstop, ?_, fun q hq => ?_⟩
    · simp only [Store.Space.ops, List.length_map]
      exact hslice.bound
    · rw [← hpage.brought] at hq
      obtain ⟨o, ho, rfl⟩ := List.mem_map.mp hq
      refine ⟨o, ?_, rfl⟩
      rcases List.mem_append.mp ho with ho | ho
      · exact hgrow.subset (hheld o ho)
      · rw [hops, LocalStore.ids_eq s, ← (hin o ho).stored_eq]
        exact stored_mem_of_admitted he h.made hr hstored ho

end Syncraft.System
