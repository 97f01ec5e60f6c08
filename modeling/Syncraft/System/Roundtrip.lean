import Syncraft.Field.LocalStore
import Syncraft.Field.Wire
import Syncraft.Store.PostgresRefinement

/-!
# Syncraft.System.Roundtrip

One edit, from the device that made it through an adapter and back (`roundTrip`). Two values do
not survive the trip. An unpaired surrogate comes back as U+FFFD, and the device that has made
the edit can then not apply the page that brings it back (`returned_collides`). And PostgreSQL
stores no U+0000 in a `jsonb` column, so that the push fails every time (`push_nul`). All other
values survive (`edit_survives_iff`).
-/

namespace Syncraft.System

open Syncraft.Field Text CausalLog
open Domain (Valid validID plainText Err)
open Store (Call Result Space Rows Memory Postgres Pg)

/-! ### The trip -/

section

variable {σ : Type} (call : σ → Call → Except Err Result × σ)

/-- The handler of a push, over an adapter: the cursor it answers, and what it leaves. -/
def pushed (s : σ) (device actor : GoString) (q : Domain.Operation GoString) : Option (Nat × σ) :=
  match call s (.write (.push device actor [q])) with
  | (.ok (.cursor n), s') => some (n, s')
  | _ => none

/-- The handler of a pull, over an adapter. -/
def pulled (s : σ) (after : Int) : Option Domain.Page :=
  match (call s (.read (.pull after 100))).1 with
  | .ok (.page page) => some page
  | _ => none

/-- The edit is encoded, decoded by the handler, pushed, pulled from the cursor before it,
encoded, decoded and read. -/
def roundTrip (s : σ) (device actor : GoString) (o : Operation) : Option Operation := do
  let q ← Api.decodeOperation (jsonEncode o.toJson)
  let (n, s') ← pushed call s device actor q
  let page ← pulled call s' (n - 1)
  let e ← page.entries.head?
  let json ← jsonDecode (Api.encodeOperation e.operation)
  (fromJson json).toOption

/-- The trip succeeds, and what comes back is equivalent to the edit. -/
def Survives (s : σ) (device actor : GoString) (o : Operation) : Prop :=
  ∃ back ∈ roundTrip call s device actor o, o.equivalent back = true

end

/-- What comes back: unpaired surrogates have become U+FFFD. -/
def returned (o : Operation) : Operation := ⟨utf16Op o.text, accepted_text o⟩

/-- It is the edit when its value is well formed. -/
theorem equivalent_returned {o : Operation} :
    o.equivalent (returned o) = true ↔ WellFormed o.value := by
  have hvalue : (returned o).toOperation =
      { o.toJson with value := utf16Encode (utf16Lossy o.value) } := utf16Op_text o
  rw [equivalent_iff, hvalue, wellFormed_iff]
  constructor
  · rintro ⟨-, -, -, h, -⟩
    exact h.symm
  · exact fun h => ⟨rfl, rfl, rfl, h.symm, (Domain.sortStrings_perm o.parents).symm⟩

theorem jsonDecode_returned (o : Operation) :
    jsonDecode (Api.encodeOperation o.toGo) = some (returned o).toOperation := by
  simp only [toGo_eq, jsonDecode_encodeOperation]
  rfl

/-- An adapter that stores the edit and returns it. -/
theorem roundTrip_eq {σ : Type} {call : σ → Call → Except Err Result × σ} {s s' : σ}
    {device actor : GoString} {o : Operation} {n : Nat} {page : Domain.Page} {e : Domain.Entry}
    (hpush : call s (.write (.push device actor [o.toGo])) = (.ok (.cursor n), s'))
    (hpull : (call s' (.read (.pull (n - 1) 100))).1 = .ok (.page page))
    (hpage : page.entries.head? = some e) (he : e.operation = o.toGo) :
    roundTrip call s device actor o = some (returned o) := by
  have hread : fromJson (returned o).toOperation = .ok (returned o) :=
    Operation.new_ok (returned o).accepted
  simp only [roundTrip, decodeOperation_sent, pushed, pulled, hpush, hpull, hpage, he,
    jsonDecode_returned, hread, Option.bind_eq_bind, Option.bind_some]
  rfl

/-! ### Through the in-memory adapter -/

/-- The entry that holds a new edit. -/
def newEntry (s : Space) (device actor : GoString) (o : Operation) : Domain.Entry :=
  { sequence := s.entries.length + 1, device, actor, operation := o.toGo }

/-- The page that brings it. -/
def newPage (s : Space) (device actor : GoString) (o : Operation) : Domain.Page :=
  { entries := [newEntry s device actor o], cursor := s.entries.length + 1, more := false }

/-- A new edit is stored. -/
theorem push_new {s : Space} (hi : s.Inv) {device actor : GoString}
    (hact : s.active device actor = true) {o : Operation} (hnew : find s.ops o.toGo.id = none)
    (hparents : Admissible s.ops o.toGo) :
    s.push device actor [o.toGo] =
      (.ok (s.entries.length + 1), Space.accept device actor s o.toGo) := by
  have hadm : admitAll s.ops [o.toGo] = .ok (s.ops ++ [o.toGo]) := by
    rw [admitAll_cons_ok (admitOne_fresh hnew hparents)]
    rfl
  obtain ⟨fresh, hfresh, hpush⟩ := Space.push_ok hi.causal hact ⟨by simp, by simp⟩
    (by simpa using valid_toGo o) hadm
  obtain rfl := List.append_cancel_left hfresh
  rw [hpush]
  simp [Space.ops, Space.acceptAll]

/-- A new edit is returned. -/
theorem pull_new (s : Space) (device actor : GoString) (o : Operation) :
    (Space.accept device actor s o.toGo).pull ((s.entries.length + 1 : Nat) - 1) 100 =
      .ok (newPage s device actor o) := by
  have hall : (s.entries ++ [newEntry s device actor o]).take (s.entries.length + 1) =
      s.entries ++ [newEntry s device actor o] := List.take_of_length_le (by simp)
  have hentries : ((s.entries ++ [newEntry s device actor o]).take (s.entries.length + 1)).drop
      s.entries.length = [newEntry s device actor o] := by rw [hall, List.drop_left]
  have hlen : (s.entries ++ [newEntry s device actor o]).length = s.entries.length + 1 := by simp
  unfold newEntry at hlen
  unfold Space.pull
  rw [Space.accept_entries, if_neg (by rw [hlen]; omega)]
  simpa [newPage, newEntry] using hentries

theorem roundTrip_memory {s : Space} (hi : s.Inv) {device actor : GoString}
    (hact : s.active device actor = true) {o : Operation} (hnew : find s.ops o.toGo.id = none)
    (hparents : Admissible s.ops o.toGo) :
    roundTrip Space.call s device actor o = some (returned o) := by
  have hpush : s.call (.write (.push device actor [o.toGo])) =
      (.ok (.cursor (s.entries.length + 1)), Space.accept device actor s o.toGo) := by
    rw [Space.call, Space.write, push_new hi hact hnew hparents]
    rfl
  have hpull : ((Space.accept device actor s o.toGo).call
      (.read (.pull ((s.entries.length + 1 : Nat) - 1) 100))).1 =
      .ok (.page (newPage s device actor o)) := by
    rw [Space.call, Space.read, pull_new s device actor o]
    rfl
  exact roundTrip_eq (e := newEntry s device actor o) hpush hpull rfl rfl

/-! ### Through the PostgreSQL adapter -/

/-- PostgreSQL stores no U+0000 in a `jsonb` column. -/
def RejectsNul (pg : Pg) : Prop :=
  ∀ o : Domain.Operation GoString, (∃ s ∈ o.strings, 0 ∈ s) → pg.jsonb o = none

/-- The server reads U+0000 as U+0000. -/
theorem zero_mem_toGo {s : DartString} : 0 ∈ toGo s ↔ 0 ∈ s := by
  rw [toGo, zero_mem_utf8Encode, zero_mem_utf16Lossy]

/-- An edit without U+0000 is plain text to the server. -/
theorem plainText_toGo {o : Operation} (h : 0 ∉ o.value) :
    ∀ s ∈ o.toGo.strings, plainText s = true := by
  have hv := valid_toGo o
  have hfields : ∀ f ∈ Domain.fields.map Prod.fst, plainText f = true := by decide
  obtain ⟨n, hn, -⟩ := hv.limit
  have hvalue : plainText o.toGo.value = true := by
    have hzero : (0 : UInt8) ∉ o.toGo.value := mt zero_mem_toGo.mp h
    rw [plainText, hv.utf8]
    simpa using hzero
  simp only [Domain.Operation.strings, List.forall_mem_cons]
  exact ⟨Domain.plainText_of_validID hv.id, Domain.plainText_of_validID hv.record,
    hfields _ (mem_of_lookup hn), hvalue, fun p hp => Domain.plainText_of_validID (hv.parents p hp).1⟩

theorem ok_of_agree {α : Type} {a : α} {x : Except Err α} (h : Store.Agree (.ok a) x) :
    x = .ok a := by
  cases x with
  | ok b => exact congrArg _ (Eq.symm h)
  | error e => exact h.elim

section

variable {pg : Pg} (hpg : pg.Documented) {w : GoString} (hw : plainText w = true)
  {s : Space} {r : Rows} (h : Store.Refines s r) {device actor : GoString}
  (hdevice : validID device = true) (hact : s.active device actor = true) {o : Operation}
  (hnew : find s.ops o.toGo.id = none) (hparents : Admissible s.ops o.toGo)

include hpg hw h hdevice hact hnew hparents

theorem roundTrip_rows (hi : s.Inv) (hactor : plainText actor = true) (hnul : 0 ∉ o.value) :
    roundTrip (Rows.call pg w) r device actor o = some (returned o) := by
  have hpush := push_new hi hact hnew hparents
  have hwrite : s.write (.push device actor [o.toGo]) =
      (.ok (.cursor (s.entries.length + 1)), Space.accept device actor s o.toGo) := by
    rw [Space.write, hpush]
    rfl
  have hplain : ∀ q ∈ [o.toGo], ∀ x ∈ q.strings, plainText x = true := by
    simpa using plainText_toGo hnul
  obtain ⟨hagree, href⟩ :=
    Store.Postgres.write_refines hpg hw hi h (c := .push device actor [o.toGo])
      ⟨hdevice, hactor, hplain⟩
  rw [hwrite] at hagree href
  have hinv := Space.push_inv hi device actor [o.toGo]
  rw [hpush] at hinv
  have hread := Store.Postgres.read_refines hpg hw hinv href
    (c := .pull ((s.entries.length + 1 : Nat) - 1) 100) trivial
  rw [Space.read, pull_new s device actor o] at hread
  exact roundTrip_eq (e := newEntry s device actor o)
    (Prod.ext (ok_of_agree hagree) rfl) (ok_of_agree hread) rfl rfl

/-- **A push with U+0000 in it fails, every time**, and leaves the rows as they were. -/
theorem push_nul (hreject : RejectsNul pg) (hnul : 0 ∈ o.value) :
    r.call pg w (.write (.push device actor [o.toGo])) = (.error .internal, r) := by
  obtain ⟨r', hr', href, -⟩ := h.ensure
  have hv : ∀ q ∈ [o.toGo], Valid q := by simpa using valid_toGo o
  have hjson : pg.jsonb o.toGo = none := by
    refine hreject _ ⟨o.toGo.value, ?_, zero_mem_toGo.mpr hnul⟩
    simp [Domain.Operation.strings]
  -- The batch passes every check, and then its one insertion fails.
  obtain ⟨known, hload, hknown⟩ := Store.Postgres.load_run hpg href hv
  have hvalid : Domain.validateBatch known [o.toGo] = .ok () := by
    rw [Domain.validateBatch_eq hknown ⟨by simp, by simp⟩ hv,
      admitAll_cons_ok (admitOne_fresh hnew hparents)]
    rfl
  have hfresh : known o.toGo.id = none := by
    rw [hknown _ ⟨o.toGo, List.mem_cons_self, Or.inl rfl⟩]
    exact hnew
  have hinsert : (RowLock.Tx.exec (Store.Postgres.insertOperation pg o.toGo device actor)).run r' =
      .error .internal := by
    refine RowLock.Tx.run_exec_error ?_
    unfold Store.Postgres.insertOperation
    rw [hpg.uuid _ (hv _ List.mem_cons_self).id, hpg.uuid _ hdevice, hjson]
  have hpush : (Store.Postgres.push pg device actor [o.toGo]).run r' = .error .internal := by
    unfold Store.Postgres.push
    rw [RowLock.Tx.run_bind, RowLock.Tx.run_ask, Store.Postgres.active_eq hpg href hdevice, hact]
    dsimp only
    rw [Bool.not_true, if_neg Bool.false_ne_true, if_neg (by simp), RowLock.Tx.run_bind_ok hload,
      hvalid]
    dsimp only
    rw [Store.Postgres.insertAll, hfresh]
    dsimp only
    exact RowLock.Tx.run_bind_error (RowLock.Tx.run_bind_error hinsert _) _
  have htext : (!pg.text w) = false := by rw [hpg.text w hw]; rfl
  rw [Rows.call, Rows.write, hr', Store.Postgres.body, htext, if_neg Bool.false_ne_true,
    RowLock.Tx.run_bind_error hpush]
  rfl

theorem roundTrip_nul (hreject : RejectsNul pg) (hnul : 0 ∈ o.value) :
    roundTrip (Rows.call pg w) r device actor o = none := by
  have hpush := push_nul hpg hw h hdevice hact hnew hparents hreject hnul
  simp only [roundTrip, decodeOperation_sent, pushed, hpush, Option.bind_eq_bind, Option.bind_some,
    Option.bind_none]

end

/-! ### On the device -/

/-- **An edit that has changed on its way stops its author**: the page that brings it back is
never applied. -/
theorem returned_collides {s : LocalStore} (hc : Causal s.ops) {o : Operation}
    (ho : o.stored ∈ s.ops)
    (hnot : ¬ WellFormed o.value) {page : Page} {e : PageEntry} (he : e ∈ page.entries)
    (hread : fromJson e.operation = .ok (returned o)) (s' : LocalStore) :
    s.applyPage page ≠ .ok s' := by
  intro h
  have hid : o.stored.id = (returned o).id := by
    have := congrArg Domain.Operation.id (utf16Op_text o)
    exact this.symm
  have hsame : Same o (returned o) :=
    (same_stored o).trans (LocalStore.applyPage_agrees hc h he hread ho hid)
  exact hnot (equivalent_returned.mp hsame)

/-! ### Results -/

/-- The edit is new to the log, and its parents are in it, of its own record and field. -/
structure Fits (s : Space) (o : Operation) : Prop where
  new : ∀ q ∈ s.ops, q.id ≠ o.toGo.id
  parents : ∀ p ∈ o.toGo.parents, ∃ q ∈ s.ops,
    q.id = p ∧ q.record = o.toGo.record ∧ q.field = o.toGo.field

theorem Fits.find {s : Space} {o : Operation} (h : Fits s o) : find s.ops o.toGo.id = none :=
  find_eq_none.mpr h.new

theorem Fits.admissible {s : Space} {o : Operation} (h : Fits s o) (hi : s.Inv) :
    Admissible s.ops o.toGo := by
  intro p hp
  obtain ⟨q, hq, rfl, hscope⟩ := h.parents p hp
  exact ⟨q, hi.causal.find_of_mem hq, Domain.sameScope_iff.mpr hscope⟩

/-- What comes back decides. -/
theorem survives_iff {σ : Type} {call : σ → Call → Except Err Result × σ} {s : σ}
    {device actor : GoString} {o : Operation}
    (h : roundTrip call s device actor o = some (returned o)) :
    Survives call s device actor o ↔ WellFormed o.value := by
  rw [Survives, h, ← equivalent_returned]
  simp

/-- The tablet is registered. -/
def registered : List (GoString × Call) := [(go "site-a", .write (.register Store.tablet))]

theorem registered_wellFormed : ∀ wc ∈ registered, plainText wc.1 = true ∧ wc.2.WellFormed := by
  simp only [registered, List.forall_mem_singleton]
  exact ⟨by decide, by decide, by decide, by decide, rfl⟩

theorem registered_active :
    (Memory.new.after registered (go "site-a")).active Store.tablet.id Store.tablet.actor = true := by
  decide

/-- A first note of a record. -/
def note (value : DartString) : Domain.Operation DartString :=
  { id := dart "0b000000-0000-4000-8000-000000000005"
    record := dart "0c000000-0000-4000-8000-000000000001"
    field := dart "notes", value, parents := [] }

def plainNote : Operation := ⟨note (dart "Seal intact"), by decide⟩

/-- Its value is half of a surrogate pair. -/
def loneNote : Operation := ⟨note [0xD83D], by decide⟩

/-- Its value is U+0000. -/
def nulNote : Operation := ⟨note [0], by decide⟩

/-- A note fits a log that is still empty. -/
theorem fits_registered {o : Operation} (h : o.parents = []) :
    Fits (Memory.new.after registered (go "site-a")) o := by
  have hops : (Memory.new.after registered (go "site-a")).ops = [] := by decide
  constructor
  · rw [hops]
    exact fun q hq => by cases hq
  · intro p hp
    obtain ⟨q, hq, -⟩ := mem_toGo_parents.mp hp
    rw [h] at hq
    cases hq

theorem standard_rejectsNul : RejectsNul Pg.standard := by
  rintro o ⟨s, hs, hzero⟩
  refine if_neg fun hall => ?_
  have hplain := List.all_eq_true.mp hall s hs
  simp [plainText, hzero] at hplain

/-- **An edit survives exactly when its value does.** Through the in-memory adapter, the value
must hold no unpaired surrogate; through the PostgreSQL adapter, no U+0000 either. -/
theorem edit_survives_iff (o : Operation) (device actor : GoString) :
    (∀ s : Space, s.Reachable → s.active device actor = true → Fits s o →
      (Survives Space.call s device actor o ↔ WellFormed o.value)) ∧
    ∀ (pg : Pg) (calls : List (GoString × Call)) (w : GoString), pg.Documented → RejectsNul pg →
      (∀ wc ∈ calls, plainText wc.1 = true ∧ wc.2.WellFormed) → plainText w = true →
      validID device = true → plainText actor = true →
      (Memory.new.after calls w).active device actor = true → Fits (Memory.new.after calls w) o →
      (Survives (Rows.call pg w) (Postgres.new.after pg calls w) device actor o ↔
        WellFormed o.value ∧ 0 ∉ o.value) := by
  constructor
  · intro s hs hact hfits
    exact survives_iff (roundTrip_memory hs.inv hact hfits.find (hfits.admissible hs.inv))
  · intro pg calls w hpg hreject hcalls hw hdevice hactor hact hfits
    obtain ⟨hi, href⟩ := Store.after_refines hpg hcalls w
    have hparents := hfits.admissible hi
    by_cases hnul : 0 ∈ o.value
    · have htrip := roundTrip_nul hpg hw href hdevice hact hfits.find hparents hreject hnul
      rw [Survives, htrip]
      simp [hnul]
    · rw [survives_iff (roundTrip_rows hpg hw href hdevice hact hfits.find hparents hi hactor hnul)]
      simp [hnul]

/-- A plain note survives either adapter. -/
theorem edit_survives_run :
    Survives Space.call Store.started Store.tablet.id Store.tablet.actor plainNote ∧
      Survives (Rows.call Pg.standard (go "site-a"))
        (Postgres.new.after Pg.standard registered (go "site-a")) Store.tablet.id
        Store.tablet.actor plainNote := by
  have hwell : WellFormed plainNote.value := wellFormed_dart _
  have hfits := fits_registered (o := plainNote) rfl
  obtain ⟨hmemory, hpostgres⟩ := edit_survives_iff plainNote Store.tablet.id Store.tablet.actor
  constructor
  · exact (hmemory Store.started Store.started_reachable registered_active hfits).mpr hwell
  · exact (hpostgres Pg.standard registered (go "site-a") Store.Pg.standard_documented
      standard_rejectsNul registered_wellFormed (by decide) (by decide)
      (by decide) registered_active hfits).mpr ⟨hwell, by decide⟩

/-- **Not every edit survives**: half a surrogate pair is changed, and U+0000 is refused. -/
theorem edits_do_not_survive :
    ¬ Survives Space.call (Memory.new.after registered (go "site-a")) Store.tablet.id
        Store.tablet.actor loneNote ∧
      ¬ Survives (Rows.call Pg.standard (go "site-a"))
        (Postgres.new.after Pg.standard registered (go "site-a")) Store.tablet.id
        Store.tablet.actor nulNote := by
  obtain ⟨hi, href⟩ := Store.after_refines Store.Pg.standard_documented registered_wellFormed
    (go "site-a")
  constructor
  · have hfits := fits_registered (o := loneNote) rfl
    rw [survives_iff (roundTrip_memory hi registered_active hfits.find (hfits.admissible hi))]
    decide
  · have hfits := fits_registered (o := nulNote) rfl
    have htrip := roundTrip_nul Store.Pg.standard_documented (w := go "site-a") (by decide)
      href (by decide) registered_active hfits.find (hfits.admissible hi)
      standard_rejectsNul (by decide)
    rw [Survives, htrip]
    simp

end Syncraft.System
