import Syncraft.Field.Pausing
import Syncraft.Field.Refusal

/-!
# Syncraft.Field.Effects

What a `synchronize` does, over whole runs of the application. `History` notes what the other parts
of the application have stored and what the requests have brought; from it follows what the outbox
is to hold at any time (`due`). `Accounted` is the invariant, and `Fits` is its part about the
`synchronize` that is under way: where it stands goes with the last answer it has got.
-/

namespace Syncraft.Field

open LocalStore (Call)

namespace Engine

open Library (Run)

/-! ### The history -/

/-- What a request of a `synchronize` has brought. -/
inductive Answer where
  | push (batch : List Operation) (o : Outcome)
  | pull (o : Outcome)
  | upload (o : Outcome)

def Answer.outcome : Answer → Outcome
  | .push _ o | .pull o | .upload o => o

/-- The request that is out, with its outcome. -/
def Phase.answered (o : Outcome) : Phase → Option Answer
  | .posted _ batch => some (.push batch o)
  | .got _ => some (.pull o)
  | .sent _ _ => some (.upload o)
  | _ => none

/-- What has happened: the IDs of the operations that calls have stored, what the requests have
brought, and what the last request of the `synchronize` that is under way has. -/
structure History where
  saved : List DartString
  answers : List Answer
  last : Option Answer

/-- Nothing has. -/
def History.none : History := { saved := [], answers := [], last := .none }

/-- An event, noted. -/
def observe (p : Platform) (s : Engine × History) (e : Event) : Engine × History :=
  let t := s.1.step p e
  match e with
  | .call _ => (t, { s.2 with saved := s.2.saved ++ t.store.ids.drop s.1.store.ids.length })
  | .run i o =>
    match s.1.runs[i]?.bind (Phase.answered o) with
    | some a => (t, { s.2 with answers := s.2.answers ++ [a], last := some a })
    | .none => (t, { s.2 with last := if t.runs.isEmpty then .none else s.2.last })
  | _ => (t, s.2)

/-- The methods that only `synchronize` calls are not called by anyone else. -/
def Event.outside : Event → Bool
  | .call (.acknowledge _) | .call (.failed _ _) | .call (.applyPage _)
  | .call (.confirmUpload _ _) => false
  | _ => true

/-- The IDs of a push that has succeeded. -/
def Answer.acknowledges : Answer → List DartString
  | .push batch o => if o.succeeded then ids batch else []
  | _ => []

/-- Is it a push of the ID that has failed? -/
def Answer.fails (id : DartString) : Answer → Bool
  | .push batch o => !o.succeeded && (ids batch).contains id
  | _ => false

/-- What an answer leaves of an outbox: without what it acknowledges, and with what it counts. -/
def Answer.leaves (a : Answer) (queue : List (DartString × Nat)) : List (DartString × Nat) :=
  (queue.filter fun x => !a.acknowledges.contains x.1).map
    fun x => (x.1, x.2 + if a.fails x.1 then 1 else 0)

/-- The IDs that were pushed with success. -/
def acknowledged (answers : List Answer) : List DartString := answers.flatMap Answer.acknowledges

/-- How many pushes of the ID have failed. -/
def attempts (answers : List Answer) (id : DartString) : Nat := answers.countP (Answer.fails id)

/-- Each ID of the outbox, with its attempts. -/
def entries (store : LocalStore) : List (DartString × Nat) :=
  store.outbox.map fun q => (q.id, q.attempts)

/-- What the outbox is to hold: what it held and what was saved since, without what was pushed with
success, each with the pushes of it that have failed. -/
def due (store : LocalStore) (h : History) : List (DartString × Nat) :=
  let queued := entries store ++ h.saved.map fun id => (id, 0)
  let left := queued.filter fun (id, _) => !(acknowledged h.answers).contains id
  left.map fun (id, n) => (id, n + attempts h.answers id)

/-- What the store becomes with the method that the call is about to call after a push. -/
def settle (p : Platform) (store : LocalStore) : Phase → LocalStore
  | .recording batch e => store.failed (ids batch) (p.describe e)
  | .acknowledging _ batch => store.acknowledge (ids batch)
  | _ => store

/-- The store, when the answer to a push that has come has been dealt with. -/
def settled (p : Platform) (s : Engine) : LocalStore :=
  match s.runs with
  | [phase] => settle p s.store phase
  | _ => s.store

/-! ### The outbox that is due -/

section Due

variable {store : LocalStore} {h : History}

theorem due_answer (a : Answer) (last : Option Answer) :
    due store { h with answers := h.answers ++ [a], last } = a.leaves (due store h) := by
  have hacknowledged : acknowledged (h.answers ++ [a]) =
      acknowledged h.answers ++ a.acknowledges := by
    rw [acknowledged, List.flatMap_append, List.flatMap_singleton]
    rfl
  have hattempts : ∀ id, attempts (h.answers ++ [a]) id =
      attempts h.answers id + if a.fails id then 1 else 0 := by
    intro id
    rw [attempts, List.countP_append, List.countP_singleton]
    rfl
  simp only [due, Answer.leaves, hacknowledged, hattempts]
  rw [List.filter_map, List.filter_filter, List.map_map]
  have hfilter : ∀ xs : List (DartString × Nat),
      (xs.filter fun x => !(acknowledged h.answers ++ a.acknowledges).contains x.1) =
        xs.filter fun x => !a.acknowledges.contains x.1 && !(acknowledged h.answers).contains x.1 := by
    intro xs
    refine List.filter_congr fun x _ => ?_
    rw [List.contains_append, Bool.not_or, Bool.and_comm]
  rw [hfilter]
  refine List.map_congr_left fun x _ => ?_
  dsimp only [Function.comp]
  rw [Nat.add_assoc]

/-- What is saved is due, when no push has had it. -/
theorem due_saved {fresh : List DartString}
    (hfresh : ∀ id ∈ fresh, ∀ a ∈ h.answers, id ∉ a.acknowledges ∧ a.fails id = false) :
    due store { h with saved := h.saved ++ fresh } =
      due store h ++ fresh.map fun id => (id, 0) := by
  have hkeep : (fresh.map fun id => ((id, 0) : DartString × Nat)).filter
      (fun x => !(acknowledged h.answers).contains x.1) = fresh.map fun id => (id, 0) := by
    refine List.filter_eq_self.mpr fun x hx => ?_
    obtain ⟨id, hid, rfl⟩ := List.mem_map.mp hx
    rw [Bool.not_eq_true', ← Bool.not_eq_true, List.contains_iff_mem, acknowledged,
      List.mem_flatMap]
    rintro ⟨a, ha, hmem⟩
    exact (hfresh id hid a ha).1 hmem
  have hattempts : ∀ id ∈ fresh, attempts h.answers id = 0 := by
    intro id hid
    refine List.countP_eq_zero.mpr fun a ha => ?_
    rw [(hfresh id hid a ha).2]
    exact Bool.false_ne_true
  simp only [due]
  rw [List.map_append, ← List.append_assoc, List.filter_append, hkeep, List.map_append,
    List.map_map]
  congr 1
  refine List.map_congr_left fun id hid => ?_
  dsimp only [Function.comp]
  rw [hattempts id hid]

end Due

/-! ### A `synchronize` that goes on -/

/-- The batch that is being pushed. -/
def Phase.batch : Phase → List Operation
  | .posting _ batch | .posted _ batch | .recording batch _ | .acknowledging _ batch => batch
  | _ => []

/-- Where a `synchronize` can stand after the last of its answers, when the outbox is to hold the
queue. -/
structure Fits (p : Platform) (store : LocalStore) (queue : List (DartString × Nat))
    (last : Option Answer) (phase : Phase) : Prop where
  outbox : entries (settle p store phase) = queue
  unique : (ids phase.batch).Nodup
  stored : ∀ id ∈ ids phase.batch, id ∈ store.ids
  refused : phase.refused = last.any fun a => a.outcome.refused
  page : ∀ round page, phase = .applying round page →
    ∃ o, last = some (.pull o) ∧ p.result o >>= p.pageOf = .ok page

section Advance

variable {p : Platform} {s : Engine} {store store' : LocalStore}
  {queue : List (DartString × Nat)} {last : Option Answer} {o : Outcome} {phase : Phase}

/-- Where nothing is being pushed or applied. -/
theorem Fits.free (houtbox : entries (settle p store phase) = queue)
    (hrefused : phase.refused = last.any fun a => a.outcome.refused) (hbatch : phase.batch = [])
    (hpage : ∀ round page, phase ≠ .applying round page) : Fits p store queue last phase where
  outbox := houtbox
  unique := by rw [hbatch]; exact List.nodup_nil
  stored := by rw [hbatch]; exact List.forall_mem_nil _
  refused := hrefused
  page round page heq := absurd heq (hpage round page)

/-- What is pending is in the table, each ID once. -/
theorem pending_ids (hk : store.Kept) {batch : List Operation} (h : store.pending = .ok batch) :
    (ids batch).Nodup ∧ ∀ id ∈ ids batch, id ∈ store.ids := by
  rw [LocalStore.pending_eq] at h
  obtain rfl := Except.ok.inj h
  have hsublist : (ids ((store.ops.filter fun o => store.queued o.id).take 100)).Sublist store.ids := by
    rw [LocalStore.ids_eq]
    exact ((List.take_sublist _ _).trans List.filter_sublist).map _
  exact ⟨hk.ids.sublist hsublist, fun id hid => hsublist.subset hid⟩

/-- A push that succeeds takes its batch out. -/
theorem entries_acknowledge (store : LocalStore) (batch : List Operation) (ho : o.succeeded = true) :
    entries (store.acknowledge (ids batch)) = (Answer.push batch o).leaves (entries store) := by
  simp [entries, LocalStore.acknowledge, Answer.leaves, Answer.acknowledges, Answer.fails, ho,
    List.filter_map, Function.comp_def]

/-- A push that fails counts as an attempt of its batch. -/
theorem entries_failed (store : LocalStore) {batch : List Operation} (hunique : (ids batch).Nodup)
    (text : DartString) (ho : o.succeeded = false) :
    entries (store.failed (ids batch) text) = (Answer.push batch o).leaves (entries store) := by
  simp [entries, LocalStore.failed, Answer.leaves, Answer.acknowledges, Answer.fails, ho,
    Function.comp_def, hunique.count]

/-- Other answers leave it alone. -/
theorem leaves_other {a : Answer} (hacknowledges : a.acknowledges = [])
    (hfails : ∀ id, a.fails id = false) (queue : List (DartString × Nat)) :
    a.leaves queue = queue := by
  simp [Answer.leaves, hacknowledges, hfails]

/-- A call fits where it stands, if it has not ended. -/
def Goes (p : Platform) (queue : List (DartString × Nat)) (last : Option Answer) :
    Engine × Option Phase → Prop
  | (t, some next) => Fits p t.store queue last next
  | (_, .none) => True

/-- **One step of a `synchronize`**, case by case. -/
theorem Fits.advance (h : Fits p s.store queue last phase) (hk : s.store.Kept) (o : Outcome) :
    Goes p ((phase.answered o).elim queue fun a => a.leaves queue) ((phase.answered o).or last)
      (s.advance p o phase) := by
  have hpull : (Answer.pull o).leaves queue = queue := leaves_other rfl (fun _ => rfl) queue
  have hupload : (Answer.upload o).leaves queue = queue := leaves_other rfl (fun _ => rfl) queue
  cases phase with
  | pushing round =>
      have hrefused : false = last.any fun a => a.outcome.refused := h.refused
      rw [Engine.advance]
      split
      · split
        · next batch hpending =>
            obtain ⟨hunique, hstored⟩ := pending_ids hk hpending
            show Fits p s.store queue last _
            split
            · exact .free h.outbox hrefused rfl (by simp)
            · exact ⟨h.outbox, hunique, hstored, hrefused, by simp⟩
        · next e hpending =>
            rw [LocalStore.pending_eq] at hpending
            cases hpending
      · exact Fits.free h.outbox hrefused rfl (by simp)
  | posting round batch => exact Fits.mk h.outbox h.unique h.stored h.refused (by simp)
  | posted round batch =>
      have houtbox : entries s.store = queue := h.outbox
      rw [Engine.advance]
      split
      · next json hresult =>
          have ho : o.succeeded = true := succeeded_iff.mpr ⟨json, hresult⟩
          have hrefused : false = o.refused := (refused_of_ok hresult).symm
          refine Fits.mk ?_ h.unique h.stored hrefused (by simp)
          exact houtbox ▸ entries_acknowledge s.store batch ho
      · next e hresult =>
          have ho : o.succeeded = false := by
            rw [Bool.eq_false_iff, Ne, succeeded_iff (p := p), hresult]
            simp
          refine Fits.mk ?_ h.unique h.stored (refused_of_error hresult) (by simp)
          exact houtbox ▸ entries_failed s.store h.unique (p.describe e) ho
  | pulling round =>
      show Fits p s.store queue last _
      split <;> exact .free h.outbox h.refused rfl (by simp)
  | got round =>
      have houtbox : entries s.store = (Answer.pull o).leaves queue := h.outbox.trans hpull.symm
      rw [Engine.advance]
      split
      · next page hpage =>
          have hrefused : false = o.refused := (refused_of_bind_ok hpage).symm
          refine Fits.mk houtbox List.nodup_nil (List.forall_mem_nil _) hrefused ?_
          intro round' page' heq
          obtain ⟨rfl, rfl⟩ := Phase.applying.inj heq
          exact ⟨o, rfl, hpage⟩
      · next e hpage =>
          exact Fits.free houtbox (refused_of_bind_error (Unrefused.pageOf p) hpage) rfl (by simp)
  | applying round page =>
      have hrefused : false = last.any fun a => a.outcome.refused := h.refused
      rw [Engine.advance]
      split
      · next store happly =>
          obtain ⟨rows, rfl⟩ := LocalStore.applyPage_result hk happly
          show Fits p _ queue last _
          split <;> exact .free h.outbox hrefused rfl (by simp)
      · next e happly =>
          exact Fits.free h.outbox ((Unrefused.applyPage _ _ e happly).trans hrefused) rfl (by simp)
  | sending rows =>
      cases rows with
      | nil => exact True.intro
      | cons row rest => exact Fits.free h.outbox h.refused rfl (by simp)
  | sent row rest =>
      have houtbox : entries s.store = (Answer.upload o).leaves queue := h.outbox.trans hupload.symm
      rw [Engine.advance]
      split
      · next hash hhash =>
          have hrefused : false = o.refused := (refused_of_bind_ok hhash).symm
          split <;> exact Fits.free houtbox hrefused rfl (by simp)
      · next e hhash =>
          exact Fits.free houtbox (refused_of_bind_error Unrefused.hashOf hhash) rfl (by simp)
  | caught e => exact True.intro
  | _ => exact Fits.free h.outbox h.refused rfl (by simp)

/-- What was saved since, and no push has had. -/
theorem Fits.saved (h : Fits p store queue last phase) {fresh : List DartString}
    (hids : store'.ids = store.ids ++ fresh) (hnew : ∀ id ∈ fresh, id ∉ store.ids)
    (houtbox : entries store' = entries store ++ fresh.map fun id => (id, 0)) :
    Fits p store' (queue ++ fresh.map fun id => (id, 0)) last phase := by
  have hbatch : ∀ batch, phase.batch = batch → ∀ id ∈ fresh, id ∉ ids batch := by
    rintro batch rfl id hid hmem
    exact hnew id hid (h.stored id hmem)
  refine ⟨?_, h.unique, fun id hid => hids ▸ List.mem_append_left _ (h.stored id hid), h.refused,
    h.page⟩
  rw [← h.outbox]
  cases phase with
  | recording batch e =>
      have hmap : ∀ store : LocalStore, entries (store.failed (ids batch) (p.describe e)) =
          (entries store).map fun x => (x.1, x.2 + (ids batch).count x.1) := by
        intro store
        simp [entries, LocalStore.failed, Function.comp_def]
      show entries (store'.failed _ _) = entries (store.failed _ _) ++ _
      rw [hmap, hmap, houtbox, List.map_append, List.map_map]
      congr 1
      refine List.map_congr_left fun id hid => ?_
      dsimp only [Function.comp]
      rw [List.count_eq_zero.mpr (hbatch batch rfl id hid)]
  | acknowledging round batch =>
      have hfilter : ∀ store : LocalStore, entries (store.acknowledge (ids batch)) =
          (entries store).filter fun x => !(ids batch).contains x.1 := by
        intro store
        rw [entries, entries, List.filter_map]
        rfl
      show entries (store'.acknowledge _) = entries (store.acknowledge _) ++ _
      rw [hfilter, hfilter, houtbox, List.filter_append]
      congr 1
      refine List.filter_eq_self.mpr fun x hx => ?_
      obtain ⟨id, hid, rfl⟩ := List.mem_map.mp hx
      simpa using hbatch batch rfl id hid
  | _ => exact houtbox

end Advance

/-! ### The other parts of the application -/

/-- **What the calls of others do**: what they store they queue, and but for a restore they leave
the cursor. -/
theorem call_queues {sha256 : List UInt8 → DartString} {store store' : LocalStore}
    (hk : store.Kept) {c : Call} (hc : (Event.call c).outside = true)
    (h : store.call sha256 c = .ok store') :
    (∃ fresh, store'.ids = store.ids ++ fresh ∧ (∀ id ∈ fresh, id ∉ store.ids) ∧
      entries store' = entries store ++ fresh.map fun id => (id, 0)) ∧
      (store'.storedCursor = store.storedCursor ∨
        ∃ bytes now uuid, c = .restore bytes now uuid) := by
  have hadd : ∀ (now : Operation → DartString) (ops : List Operation),
      entries (store.add now ops) = entries store ++ (ops.map fun o => o.id).map fun id => (id, 0) := by
    intro now ops
    simp [entries, LocalStore.add]
  have hsame : ∀ store' : LocalStore, store'.rows = store.rows → store'.outbox = store.outbox →
      ∃ fresh, store'.ids = store.ids ++ fresh ∧ (∀ id ∈ fresh, id ∉ store.ids) ∧
        entries store' = entries store ++ fresh.map fun id => (id, 0) := by
    intro store' hrows houtbox
    refine ⟨[], ?_, List.forall_mem_nil _, ?_⟩
    · rw [LocalStore.ids, LocalStore.ids, hrows, List.append_nil]
    · rw [entries, entries, houtbox, List.map_nil, List.append_nil]
  cases c with
  | save batch now =>
      obtain ⟨hcausal, rfl⟩ := LocalStore.save_ok hk h
      refine ⟨⟨_, LocalStore.ids_add now _ store, ?_, hadd now _⟩, .inl rfl⟩
      intro id hid
      obtain ⟨op, hop, rfl⟩ := List.mem_map.mp hid
      exact (CausalLog.unseen_subset op hop).2
  | restore bytes now uuid =>
      obtain ⟨n, hr⟩ := LocalStore.call_restore h
      obtain ⟨ops, attachments, hrows, -, rfl⟩ := RecoveryBundle.restoreBytes_result hk.outbox hr
      have hempty : store.ids = [] := by rw [LocalStore.ids, hrows]; rfl
      refine ⟨⟨_, LocalStore.ids_add now ops store, ?_, hadd now ops⟩, .inr ⟨_, _, _, rfl⟩⟩
      rw [hempty]
      exact fun _ _ => List.not_mem_nil
  | deviceId uuid =>
      obtain rfl := Except.ok.inj h
      rw [LocalStore.deviceId]
      split <;> exact ⟨hsame _ rfl rfl, .inl rfl⟩
  | add record name media bytes uuid =>
      obtain ⟨row, -, -, -, -, -, hinsert⟩ := AttachmentStore.add_ok h
      obtain ⟨-, rfl⟩ := AttachmentStore.insertAttachment_ok hinsert
      exact ⟨hsame _ rfl rfl, .inl rfl⟩
  | storeFetched record row data =>
      obtain ⟨-, hinsert⟩ := AttachmentStore.storeFetched_ok h
      obtain ⟨-, rfl⟩ := AttachmentStore.insertAttachment_ok hinsert
      exact ⟨hsame _ rfl rfl, .inl rfl⟩
  | acknowledge | failed | applyPage | confirmUpload => cases hc

/-- What a login does to the store between two awaits. -/
theorem enter_store (p : Platform) (s : Engine) (i : Nat) (o : Outcome) (uuid : DartString) :
    ∃ device account, (s.step p (.enter i o uuid)).store = { s.store with device, account } := by
  cases hi : s.logins[i]? with
  | none =>
      rw [step, hi]
      exact ⟨_, _, rfl⟩
  | some l =>
      rw [enter_eq hi, withLogin_store, advanceLogin]
      cases l.phase with
      | read existing | posted | registering =>
          dsimp only
          split <;> exact ⟨_, _, rfl⟩
      | identifying =>
          dsimp only
          rw [LocalStore.deviceId]
          split <;> exact ⟨_, _, rfl⟩
      | bound =>
          obtain ⟨busy, error, runs, heq⟩ :=
            synchronize_eq { s with connected := true, error := none }
          dsimp only
          rw [heq]
          exact ⟨_, _, rfl⟩
      | _ => exact ⟨_, _, rfl⟩

/-! ### Whole runs -/

/-- What holds at any time: the outbox is what is due, and the `synchronize` that is under way fits
the last of its answers. -/
structure Accounted (p : Platform) (store : LocalStore) (s : Engine × History) : Prop where
  single : Single s.1
  kept : s.1.store.Kept
  answered : ∀ id, id ∉ s.1.store.ids → ∀ a ∈ s.2.answers, id ∉ a.acknowledges ∧ a.fails id = false
  idle : s.1.runs = [] → entries s.1.store = due store s.2 ∧ s.2.last = none
  under : ∀ phase, s.1.runs = [phase] → Fits p s.1.store (due store s.2) s.2.last phase

section Runs

variable {p : Platform} {store : LocalStore} {s t : Engine × History}

theorem Accounted.new (base : DartString) (hk : store.Kept) :
    Accounted p store (new base store, History.none) where
  single := .new base store
  kept := hk
  answered _ _ := List.forall_mem_nil _
  idle _ := ⟨by simp [due, acknowledged, attempts, History.none, Engine.new], rfl⟩
  under _ h := absurd h.symm (List.cons_ne_nil _ _)

/-- What leaves the calls that are under way, the operations and the outbox alone. -/
theorem Accounted.keep (h : Accounted p store s) (hbusy : t.1.busy = s.1.busy)
    (hruns : t.1.runs = s.1.runs)
    (hstore : ∃ device account, t.1.store = { s.1.store with device, account })
    (hhistory : t.2 = s.2) : Accounted p store t := by
  obtain ⟨device, account, hstore⟩ := hstore
  have hids : t.1.store.ids = s.1.store.ids := by rw [hstore]; rfl
  have houtbox : entries t.1.store = entries s.1.store := by rw [hstore]; rfl
  constructor
  case single =>
    rw [Single, hbusy, hruns]
    exact h.single
  case kept =>
    rw [hstore]
    exact ⟨h.kept.ids, h.kept.outbox⟩
  case answered =>
    rw [hids, hhistory]
    exact h.answered
  case idle =>
    rw [hruns, houtbox, hhistory]
    exact h.idle
  case under =>
    intro phase hphase
    have hfits := h.under phase (hruns ▸ hphase)
    have hsaved : Fits p t.1.store (due store s.2 ++ ([] : List DartString).map fun id => (id, 0))
        s.2.last phase :=
      hfits.saved (by rw [hids, List.append_nil]) (List.forall_mem_nil _)
        (by rw [houtbox, List.map_nil, List.append_nil])
    rw [List.map_nil, List.append_nil] at hsaved
    rwa [hhistory]

/-- A `synchronize` that starts. -/
theorem Accounted.synchronize (h : Accounted p store s) :
    Accounted p store (s.1.synchronize, s.2) := by
  rcases s.1.synchronize_cases with heq | ⟨hbusy, -, -, heq⟩
  · rwa [heq]
  · have hnone : s.1.runs = [] := by
      rcases h.single with ⟨-, hruns⟩ | ⟨hbusy', -⟩
      · exact hruns
      · rw [hbusy] at hbusy'
        cases hbusy'
    have hsingle := h.single.synchronize
    rw [heq] at hsingle ⊢
    obtain ⟨houtbox, hlast⟩ := h.idle hnone
    refine ⟨hsingle, h.kept, h.answered, fun hruns => ?_, fun phase hruns => ?_⟩
    · dsimp only at hruns
      rw [hnone] at hruns
      cases hruns
    · dsimp only at hruns
      rw [hnone] at hruns
      obtain rfl := (List.cons.inj hruns).1
      exact .free houtbox (by rw [hlast]; rfl) rfl (by simp)

/-- A call of another part of the application. -/
theorem Accounted.call (h : Accounted p store s) {c : Call} (hc : (Event.call c).outside = true) :
    Accounted p store (observe p s (.call c)) := by
  have hsingle : Single (s.1.step p (.call c)) := h.single
  have hkept : (s.1.store.after p.sha256 c).Kept := h.kept.after c
  obtain ⟨fresh, hids, hnew, houtbox⟩ : ∃ fresh,
      (s.1.store.after p.sha256 c).ids = s.1.store.ids ++ fresh ∧
        (∀ id ∈ fresh, id ∉ s.1.store.ids) ∧ entries (s.1.store.after p.sha256 c) =
          entries s.1.store ++ fresh.map fun id => (id, 0) := by
    cases hcall : s.1.store.call p.sha256 c with
    | error e =>
        rw [LocalStore.after_error hcall]
        exact ⟨[], by simp⟩
    | ok store' =>
        rw [LocalStore.after_ok hcall]
        exact (call_queues h.kept hc hcall).1
  have hobserve : observe p s (.call c) = ({ s.1 with store := s.1.store.after p.sha256 c },
      { s.2 with saved := s.2.saved ++ fresh }) := by
    have hdrop : (s.1.store.after p.sha256 c).ids.drop s.1.store.ids.length = fresh := by
      rw [hids, List.drop_left]
    rw [← hdrop]
    rfl
  have hdue : due store { s.2 with saved := s.2.saved ++ fresh } =
      due store s.2 ++ fresh.map fun id => (id, 0) :=
    due_saved fun id hid => h.answered id (hnew id hid)
  rw [hobserve]
  refine ⟨hsingle, hkept, fun id hid => ?_, fun hruns => ?_, fun phase hruns => ?_⟩
  · exact h.answered id fun hmem => hid (hids ▸ List.mem_append_left _ hmem)
  · obtain ⟨hold, hlast⟩ := h.idle hruns
    exact ⟨by rw [hdue, houtbox, hold], hlast⟩
  · rw [hdue]
    exact (h.under phase hruns).saved hids hnew houtbox

/-- An answer is about the batch that was pushed. -/
theorem Phase.of_answered {o : Outcome} {phase : Phase} {a : Answer}
    (h : phase.answered o = some a) {id : DartString} (hid : id ∉ ids phase.batch) :
    id ∉ a.acknowledges ∧ a.fails id = false := by
  cases phase with
  | posted round batch =>
      obtain rfl := Option.some.inj h
      refine ⟨fun hmem => ?_, ?_⟩
      · rw [Answer.acknowledges] at hmem
        split at hmem
        · exact hid hmem
        · cases hmem
      · have hbatch : id ∉ ids batch := hid
        have hcontains : (ids batch).contains id = false := by simpa using hbatch
        rw [Answer.fails, hcontains, Bool.and_false]
  | got | sent =>
      obtain rfl := Option.some.inj h
      exact ⟨List.not_mem_nil, rfl⟩
  | _ => cases h

/-- Operations stay. -/
theorem ops_step (hk : s.1.store.Kept) (e : Event) :
    s.1.store.ops <+: (s.1.step p e).store.ops := by
  rcases step_store p s.1 e with heq | ⟨c, heq⟩ | ⟨i, o, uuid, l, -, -, -, heq⟩
  · rw [heq]
  · rw [heq]
    exact hk.grows c
  · rw [heq]
    exact List.prefix_rfl

theorem ids_step (hk : s.1.store.Kept) (e : Event) {id : DartString} (hid : id ∈ s.1.store.ids) :
    id ∈ (s.1.step p e).store.ids := by
  rw [LocalStore.ids_eq] at hid ⊢
  exact ((ops_step hk e).map fun o => o.id).subset hid

/-- A `synchronize` that ends. -/
theorem Accounted.ends (h : Accounted p store s) {i : Nat} {o : Outcome} {phase : Phase}
    (hi : s.1.runs[i]? = some phase) (hanswered : phase.answered o = none)
    (houtbox : entries s.1.store = due store s.2)
    (hstore : (s.1.step p (.run i o)).store = s.1.store)
    (hruns : (s.1.step p (.run i o)).runs = []) : Accounted p store (observe p s (.run i o)) := by
  have hsingle : Single (s.1.step p (.run i o)) := h.single.step rfl
  have hkept : (s.1.step p (.run i o)).store.Kept := kept_step h.kept rfl
  have hobserve : observe p s (.run i o) =
      (s.1.step p (.run i o), { s.2 with last := none }) := by
    simp only [observe, hi, Option.bind_some, hanswered, hruns, List.isEmpty_nil, if_true]
  rw [hobserve]
  constructor
  case single => exact hsingle
  case kept => exact hkept
  case answered =>
    rw [hstore]
    exact h.answered
  case idle =>
    rw [hstore]
    exact fun _ => ⟨houtbox, rfl⟩
  case under =>
    rw [hruns]
    simp

/-- A `synchronize` that goes on. -/
theorem Accounted.run (h : Accounted p store s) (i : Nat) (o : Outcome) :
    Accounted p store (observe p s (.run i o)) := by
  have hsingle : Single (s.1.step p (.run i o)) := h.single.step rfl
  have hkept : (s.1.step p (.run i o)).store.Kept := kept_step h.kept rfl
  have hids : ∀ id, id ∉ (s.1.step p (.run i o)).store.ids → id ∉ s.1.store.ids :=
    fun id hid hmem => hid (ids_step h.kept _ hmem)
  cases hi : s.1.runs[i]? with
  | none =>
      have hsame : s.1.step p (.run i o) = s.1 := by rw [step, hi]
      have hlast : (if s.1.runs.isEmpty then none else s.2.last) = s.2.last := by
        split
        · next hempty => exact (h.idle (List.isEmpty_iff.mp hempty)).2.symm
        · rfl
      have hobserve : observe p s (.run i o) = s := by
        simp only [observe, hsame, hi, Option.bind_none, hlast]
      rwa [hobserve]
  | some phase =>
      obtain ⟨-, hone, hcases⟩ := run_cases h.single hi p o
      have hfits := h.under phase hone
      rcases hcases with ⟨store', next, hadvance, heq⟩ | ⟨rfl, heq⟩ | ⟨e, rfl, heq⟩
      · have hnext := hfits.advance h.kept o
        rw [hadvance] at hnext
        cases hanswered : phase.answered o with
        | some a =>
            have hobserve : observe p s (.run i o) = ({ s.1 with store := store', runs := [next] },
                { s.2 with answers := s.2.answers ++ [a], last := some a }) := by
              simp only [observe, heq, hi, Option.bind_some, hanswered]
            rw [heq] at hsingle hkept hids
            rw [hanswered] at hnext
            rw [hobserve]
            refine ⟨hsingle, hkept, fun id hid a' ha' => ?_, by simp, fun phase' hphase' => ?_⟩
            · rcases List.mem_append.mp ha' with hold | hnew
              · exact h.answered id (hids id hid) a' hold
              · obtain rfl := List.mem_singleton.mp hnew
                exact Phase.of_answered hanswered fun hmem => hids id hid (hfits.stored id hmem)
            · obtain rfl := (List.cons.inj hphase').1
              rw [due_answer]
              exact hnext
        | none =>
            have hobserve : observe p s (.run i o) =
                ({ s.1 with store := store', runs := [next] }, s.2) := by
              simp only [observe, heq, hi, Option.bind_some, hanswered]
              rfl
            rw [heq] at hsingle hkept hids
            rw [hanswered] at hnext
            rw [hobserve]
            refine ⟨hsingle, hkept, fun id hid => h.answered id (hids id hid), by simp, ?_⟩
            intro phase' hphase'
            obtain rfl := (List.cons.inj hphase').1
            exact hnext
      · exact h.ends hi rfl hfits.outbox (by rw [heq]) (by rw [heq])
      · exact h.ends hi rfl hfits.outbox (by rw [heq]; rfl) (by rw [heq])

/-- **Every event keeps the accounts.** -/
theorem Accounted.step (h : Accounted p store s) {e : Event} (he : e.outside = true)
    (hstep : observe p s e = t) : Accounted p store t := by
  obtain rfl := hstep
  have hstore : ∃ device account, s.1.store = { s.1.store with device, account } := ⟨_, _, rfl⟩
  cases e with
  | call c => exact h.call he
  | synchronize => exact h.synchronize
  | setPaused value =>
      cases value with
      | true => exact h.keep rfl rfl hstore rfl
      | false =>
          have hkeep : Accounted p store ({ s.1 with paused := false }, s.2) :=
            h.keep rfl rfl hstore rfl
          exact hkeep.synchronize
  | logout | login | dispose => exact h.keep rfl rfl hstore rfl
  | run i o => exact h.run i o
  | enter i o uuid =>
      have hstore := enter_store p s.1 i o uuid
      cases hi : s.1.logins[i]? with
      | none =>
          have hsame : s.1.step p (.enter i o uuid) = s.1 := by rw [Engine.step, hi]
          have hobserve : observe p s (.enter i o uuid) = s := congrArg (·, s.2) hsame
          rwa [hobserve]
      | some l =>
          rcases enter_cases hi p o uuid with ⟨-, heq⟩ | ⟨-, store', token, device, logins, heq⟩
          · have hkeep : Accounted p store ({ s.1 with connected := true, error := none }, s.2) :=
              h.keep rfl rfl ⟨_, _, rfl⟩ rfl
            have hobserve : observe p s (.enter i o uuid) = (_, s.2) := congrArg (·, s.2) heq
            rw [hobserve]
            exact hkeep.synchronize.keep rfl rfl ⟨_, _, rfl⟩ rfl
          · have hobserve : observe p s (.enter i o uuid) = (_, s.2) := congrArg (·, s.2) heq
            rw [heq] at hstore
            rw [hobserve]
            exact h.keep rfl rfl hstore rfl

/-! ### Effects -/

/-- Is the call in the push loop? -/
def Phase.pushes : Phase → Bool
  | .pushing _ | .posting _ _ | .posted _ _ | .recording _ _ | .acknowledging _ _ => true
  | _ => false

/-- Has the last request of the call been refused? -/
def History.refused (h : History) : Bool := h.last.any fun a => a.outcome.refused

/-- The page of the last request, a pull, has been applied. -/
def Applied (p : Platform) (s : Engine × History) (t : Engine) : Prop :=
  ∃ round page o, s.1.runs = [.applying round page] ∧ s.2.last = some (.pull o) ∧
    p.result o >>= p.pageOf = .ok page ∧ s.1.store.applyPage page = .ok t.store ∧
    t.store.storedCursor = some page.cursor

/-- What an event may do. -/
structure Effects (p : Platform) (s : Engine × History) (e : Event) (t : Engine) : Prop where
  /-- The cursor becomes that of a page that was pulled and applied. But for a restore nothing else
  moves it. -/
  cursor : t.store.storedCursor = s.1.store.storedCursor ∨ (∃ i o, e = .run i o ∧ Applied p s t) ∨
    ∃ bytes now uuid, e = .call (.restore bytes now uuid)
  /-- What is stored stays. -/
  stored : s.1.store.ops <+: t.store.ops
  /-- In the push loop rows stay as they are. -/
  rows : ∀ i o, e = .run i o → (∀ phase ∈ s.1.runs, phase.pushes = true) →
    t.store.rows = s.1.store.rows
  /-- A call that ends with a refusal ends the session. -/
  refused : ∀ i o, e = .run i o → s.1.runs ≠ [] → t.runs = [] → s.2.refused = true →
    t.connected = false ∧ t.token = none
  /-- A call that goes on, or ends otherwise, leaves the session. -/
  unrefused : ∀ i o, e = .run i o → t.runs ≠ [] ∨ s.2.refused = false →
    t.connected = s.1.connected ∧ t.token = s.1.token

/-- What a `synchronize` does to the rows and to the cursor between two awaits. -/
theorem advance_rows {s : Engine} (hk : s.store.Kept) (o : Outcome) (phase : Phase) :
    ((s.advance p o phase).1.store.storedCursor = s.store.storedCursor ∧
      (s.advance p o phase).1.store.rows = s.store.rows) ∨
    ∃ round page, phase = .applying round page ∧
      s.store.applyPage page = .ok (s.advance p o phase).1.store ∧
      (s.advance p o phase).1.store.storedCursor = some page.cursor := by
  cases phase with
  | pushing round =>
      rw [advance]
      split
      · split <;> exact .inl ⟨rfl, rfl⟩
      · exact .inl ⟨rfl, rfl⟩
  | posted round batch | got round =>
      rw [advance]
      split <;> exact .inl ⟨rfl, rfl⟩
  | applying round page =>
      rw [advance]
      split
      · next store happly =>
          obtain ⟨rows, hstore⟩ := LocalStore.applyPage_result hk happly
          exact .inr ⟨round, page, rfl, happly, by rw [hstore]⟩
      · exact .inl ⟨rfl, rfl⟩
  | sending rows => cases rows <;> exact .inl ⟨rfl, rfl⟩
  | sent row rest =>
      rw [advance]
      split
      · split <;> exact .inl ⟨rfl, rfl⟩
      · exact .inl ⟨rfl, rfl⟩
  | _ => exact .inl ⟨rfl, rfl⟩

/-- A `synchronize` that goes on has only its effects. -/
theorem Accounted.run_effects (h : Accounted p store s) (i : Nat) (o : Outcome) :
    Effects p s (.run i o) (s.1.step p (.run i o)) := by
  have hstored := ops_step (p := p) h.kept (.run i o)
  cases hi : s.1.runs[i]? with
  | none =>
      have hsame : s.1.step p (.run i o) = s.1 := by rw [Engine.step, hi]
      rw [hsame]
      exact ⟨.inl rfl, List.prefix_rfl, fun _ _ _ _ => rfl,
        fun _ _ _ hruns hnone => absurd hnone hruns, fun _ _ _ _ => ⟨rfl, rfl⟩⟩
  | some phase =>
      obtain ⟨-, hone, hcases⟩ := run_cases h.single hi p o
      have hfits := h.under phase hone
      rcases hcases with ⟨store', next, hadvance, heq⟩ | ⟨rfl, heq⟩ | ⟨e, rfl, heq⟩
      · have hmoves := advance_rows (p := p) h.kept o phase
        rw [hadvance] at hmoves
        rw [heq] at hstored ⊢
        rcases hmoves with ⟨hcursor, hrows⟩ | ⟨round, page, rfl, happly, hcursor⟩
        · exact ⟨.inl hcursor, hstored, fun _ _ _ _ => hrows,
            fun _ _ _ _ hnone => absurd hnone (List.cons_ne_nil _ _), fun _ _ _ _ => ⟨rfl, rfl⟩⟩
        · obtain ⟨o', hlast, hpage⟩ := hfits.page round page rfl
          refine ⟨.inr (.inl ⟨i, o, rfl, round, page, o', hone, hlast, hpage, happly, hcursor⟩),
            hstored, fun _ _ _ hpushes => ?_,
            fun _ _ _ _ hnone => absurd hnone (List.cons_ne_nil _ _), fun _ _ _ _ => ⟨rfl, rfl⟩⟩
          have hfalse := hpushes _ (hone ▸ List.mem_cons_self)
          cases hfalse
      · have hrefused : s.2.refused = false := hfits.refused.symm
        rw [heq] at hstored ⊢
        refine ⟨.inl rfl, hstored, fun _ _ _ _ => rfl, fun _ _ _ _ _ hyes => ?_,
          fun _ _ _ _ => ⟨rfl, rfl⟩⟩
        rw [hrefused] at hyes
        cases hyes
      · have hrefused : e.unauthorized = s.2.refused := hfits.refused
        rw [heq] at hstored ⊢
        refine ⟨.inl rfl, hstored, fun _ _ _ _ => rfl, fun _ _ _ _ _ hyes => ?_,
          fun _ _ _ hnot => ?_⟩
        · simp [fail, hrefused, hyes]
        · have hno : s.2.refused = false := hnot.resolve_left fun hne => hne rfl
          simp [fail, hrefused, hno]

/-- Events that are not a step of a `synchronize`. -/
theorem Accounted.effects (h : Accounted p store s) {e : Event} (he : e.outside = true) :
    Effects p s e (s.1.step p e) := by
  have hstored := ops_step (p := p) h.kept e
  have hother : (∀ i o, e ≠ .run i o) → ((s.1.step p e).store.storedCursor =
      s.1.store.storedCursor ∨ ∃ bytes now uuid, e = .call (.restore bytes now uuid)) →
      Effects p s e (s.1.step p e) := by
    intro hrun hcursor
    exact ⟨hcursor.imp_right .inr, hstored, fun i o heq => absurd heq (hrun i o),
      fun i o heq => absurd heq (hrun i o), fun i o heq => absurd heq (hrun i o)⟩
  cases e with
  | run i o => exact h.run_effects i o
  | call c =>
      refine hother (by simp) ?_
      show (s.1.store.after p.sha256 c).storedCursor = _ ∨ _
      cases hcall : s.1.store.call p.sha256 c with
      | error e =>
          rw [LocalStore.after_error hcall]
          exact .inl rfl
      | ok store' =>
          rw [LocalStore.after_ok hcall]
          rcases (call_queues h.kept he hcall).2 with hsame | ⟨bytes, now, uuid, rfl⟩
          · exact .inl hsame
          · exact .inr ⟨bytes, now, uuid, rfl⟩
  | synchronize =>
      obtain ⟨busy, error, runs, heq⟩ := s.1.synchronize_eq
      have hstep : s.1.step p .synchronize = { s.1 with busy, error, runs } := heq
      exact hother (by simp) (.inl (by rw [hstep]))
  | setPaused value =>
      obtain ⟨busy, paused, error, runs, heq⟩ := s.1.setPaused_eq value
      have hstep : s.1.step p (.setPaused value) = { s.1 with busy, paused, error, runs } := heq
      exact hother (by simp) (.inl (by rw [hstep]))
  | enter i o uuid =>
      obtain ⟨device, account, hstore⟩ := enter_store p s.1 i o uuid
      exact hother (by simp) (.inl (by rw [hstore]))
  | logout | login | dispose => exact hother (by simp) (.inl rfl)

/-- **A `synchronize` has only its documented effects.** After any events that do not call the
engine's own methods of the store: at most one `synchronize` is under way, and `busy` says whether;
the outbox holds what it held and what was saved since, without the pushes that have succeeded, and
with an attempt for each push that has failed, once the answer at hand has been dealt with; and the
next event has only its effects. -/
theorem synchronize_effects {base : DartString} (hk : store.Kept) {es : List Event}
    (h : Run (fun s e t => observe p s e = t ∧ e.outside = true) (new base store, History.none) es s) :
    Single s.1 ∧ entries (settled p s.1) = due store s.2 ∧
      ∀ e, e.outside = true → Effects p s e (s.1.step p e) := by
  have haccounted : Accounted p store s := h.invariant
    (fun _ _ _ hs hstep => hs.step hstep.2 hstep.1) (.new base hk)
  refine ⟨haccounted.single, ?_, fun e he => haccounted.effects he⟩
  rcases haccounted.single with ⟨-, hruns⟩ | ⟨-, phase, hruns⟩
  · rw [settled, hruns]
    exact (haccounted.idle hruns).1
  · rw [settled, hruns]
    exact (haccounted.under phase hruns).outbox

end Runs

/-- The push of an edit gets lost; meanwhile another edit is saved. -/
def failing : List Event :=
  .call (.save [gate] fun _ => dart "now") :: connecting ++
    [.run 0 .lost, .run 0 .lost, .call (.save [north] fun _ => dart "now"), .run 0 .lost]

/-- The first edit is to stay with an attempt, and the second without one. -/
theorem synchronize_effects_run :
    let s := failing.foldl (observe plain) (new localhost LocalStore.new, History.none)
    due LocalStore.new s.2 = [(gate.id, 1), (north.id, 0)] ∧ Single s.1 ∧
      entries (settled plain s.1) = due LocalStore.new s.2 ∧
      ∀ e, e.outside = true → Effects plain s e (s.1.step plain e) := by
  have hrun := @Run.foldl_allowed _ _ (observe plain) (fun _ e => e.outside)
    (new localhost LocalStore.new, History.none) failing (by decide +kernel)
  exact ⟨by decide +kernel, synchronize_effects LocalStore.kept_new hrun⟩

end Engine

end Syncraft.Field
