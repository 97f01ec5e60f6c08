import Syncraft.Field.Effects
import Syncraft.Field.Projection

/-!
# Syncraft.Field.Queue

What waits to be pushed, in the order in which it is: the operations of the table that are in the
outbox. A batch is the first hundred of them; an acknowledgement drops them (`queue_acknowledge`),
and a page does not touch them (`queue_grown`). A `synchronize` that hears nothing any more ends,
and leaves queued what was not answered (`lost_ends`).
-/

namespace Syncraft.Field

open CausalLog

namespace LocalStore

variable {s s' : LocalStore}

/-- The operations that are queued, in the order of the table. -/
def queue (s : LocalStore) : List Operation := s.ops.filter fun o => s.queued o.id

theorem pending_queue (s : LocalStore) : s.pending = .ok (s.queue.take 100) := pending_eq s

theorem mem_queue {o : Operation} : o ∈ s.queue ↔ o ∈ s.ops ∧ o.id ∈ s.outbox.map Queued.id := by
  rw [queue, List.mem_filter, queued_iff]

theorem queue_nodup (hk : s.Kept) : (s.queue.map fun o => o.id).Nodup := by
  have hsublist : (s.queue.map fun o => o.id).Sublist s.ids := by
    rw [ids_eq]
    exact List.filter_sublist.map _
  exact hk.ids.sublist hsublist

/-- Nothing is left of the outbox, when nothing is queued. -/
theorem queue_eq_nil (hk : s.Kept) : s.queue = [] ↔ s.outbox = [] := by
  constructor
  · intro hnone
    by_contra hne
    obtain ⟨q, rest, houtbox⟩ := List.exists_cons_of_ne_nil hne
    have hq : q.id ∈ s.outbox.map Queued.id := by
      rw [houtbox]
      exact List.mem_cons_self
    have hid := hk.outbox q.id hq
    rw [ids_eq] at hid
    obtain ⟨o, ho, heq⟩ := List.mem_map.mp hid
    have hmem : o ∈ s.queue := mem_queue.mpr ⟨ho, heq ▸ hq⟩
    rw [hnone] at hmem
    cases hmem
  · intro hnone
    refine List.eq_nil_iff_forall_not_mem.mpr fun o ho => ?_
    have hmem := (mem_queue.mp ho).2
    rw [hnone] at hmem
    cases hmem

/-- What is left of a list without the first so many, by their keys. -/
theorem filter_take {α β : Type} [BEq β] [LawfulBEq β] {key : α → β} {xs : List α}
    (hn : (xs.map key).Nodup) (n : Nat) :
    (xs.filter fun x => !((xs.take n).map key).contains (key x)) = xs.drop n := by
  have hcut : (xs.take n ++ xs.drop n).filter (fun x => !((xs.take n).map key).contains (key x)) =
      xs.drop n := by
    have hparts : ((xs.take n).map key ++ (xs.drop n).map key).Nodup := by
      rw [← List.map_append, List.take_append_drop]
      exact hn
    have hdisjoint := (List.nodup_append.mp hparts).2.2
    have hfirst : (xs.take n).filter (fun x => !((xs.take n).map key).contains (key x)) = [] := by
      refine List.filter_eq_nil_iff.mpr fun x hx => ?_
      simp only [Bool.not_eq_true', Bool.not_eq_false, List.contains_iff_mem]
      exact List.mem_map_of_mem hx
    have hlast : (xs.drop n).filter (fun x => !((xs.take n).map key).contains (key x)) =
        xs.drop n := by
      refine List.filter_eq_self.mpr fun x hx => ?_
      simp only [Bool.not_eq_true', List.contains_eq_mem, decide_eq_false_iff_not]
      exact fun hmem => hdisjoint _ hmem _ (List.mem_map_of_mem hx) rfl
    rw [List.filter_append, hfirst, hlast, List.nil_append]
  rwa [List.take_append_drop] at hcut

/-- **An acknowledgement drops its batch from the queue.** -/
theorem queue_acknowledge (hk : s.Kept) (n : Nat) :
    (s.acknowledge (Engine.ids (s.queue.take n))).queue = s.queue.drop n := by
  rw [← filter_take (queue_nodup hk) n, queue, queue, List.filter_filter]
  refine List.filter_congr fun o _ => ?_
  rw [Bool.eq_iff_iff]
  simp only [queued_iff, acknowledge, List.mem_map, List.mem_filter, Bool.and_eq_true,
    Engine.ids]
  constructor
  · intro hmem
    obtain ⟨q, ⟨hq, hnot⟩, hid⟩ := hmem
    exact ⟨hid ▸ hnot, q, hq, hid⟩
  · intro hmem
    obtain ⟨hnot, q, hq, hid⟩ := hmem
    exact ⟨q, ⟨hq, hid.symm ▸ hnot⟩, hid⟩

/-- What a page adds is not queued. -/
theorem queue_grown (hk : s.Kept) (hk' : s'.Kept) (hout : s'.outbox = s.outbox)
    (hgrow : s.ops <+: s'.ops) : s'.queue = s.queue := by
  obtain ⟨fresh, hfresh⟩ := hgrow
  have hids : (s.ids ++ fresh.map fun o => o.id).Nodup := by
    have hn := hk'.ids
    rwa [ids_eq, ← hfresh, List.map_append, ← ids_eq] at hn
  have hqueued : ∀ id, s'.queued id = s.queued id := fun id => by rw [queued, queued, hout]
  have hnone : (fresh.filter fun o => s.queued o.id) = [] := by
    refine List.filter_eq_nil_iff.mpr fun o ho hq => ?_
    have hold := hk.outbox _ (queued_iff.mp hq)
    exact (List.nodup_append.mp hids).2.2 _ hold _ (List.mem_map_of_mem ho) rfl
  simp only [queue, hqueued]
  rw [← hfresh, List.filter_append, hnone, List.append_nil]

theorem queue_applyPage (hk : s.Kept) {page : Page} (h : s.applyPage page = .ok s') :
    s'.queue = s.queue := by
  obtain ⟨incoming, r, hchecks, hmeets⟩ := applyPage_checked hk h
  obtain ⟨stored, hstored, hops, hout, -⟩ := applyPage_stored hk hchecks hmeets
  obtain rfl := Except.ok.inj (h.symm.trans hstored)
  have hcall : s.call (fun _ => []) (.applyPage page) = .ok s' := h
  exact queue_grown hk (hk.call hcall) hout ⟨_, hops.symm⟩

/-- A failure leaves its batch queued. -/
theorem queue_failed (s : LocalStore) (ids : List DartString) (error : DartString) :
    (s.failed ids error).queue = s.queue := by
  refine List.filter_congr fun o _ => ?_
  rw [Bool.eq_iff_iff, queued_iff, queued_iff, failed, List.map_map]
  rfl

theorem queue_acknowledge_sublist (s : LocalStore) (ids : List DartString) :
    (s.acknowledge ids).queue.Sublist s.queue := by
  refine List.monotone_filter_right _ fun o ho => ?_
  rw [queued_iff] at ho ⊢
  exact List.map_subset _ (List.filter_subset_self _) ho

end LocalStore

/-! ### While a `synchronize` is under way -/

namespace Engine

variable {p : Platform} {e : Engine} {store store' : LocalStore} {phase next : Phase} {o : Outcome}

/-- The engine, while its `synchronize` stands somewhere. -/
def during (e : Engine) (store : LocalStore) (phase : Phase) : Engine :=
  { e with store, busy := true, runs := [phase] }

/-- The engine when the `synchronize` has ended, with a token that is still good. -/
structure Rests (e e' : Engine) : Prop where
  token : e'.token = e.token
  device : e'.device = e.device
  paused : e'.paused = e.paused
  connected : e'.connected = e.connected
  disposed : e'.disposed = e.disposed
  runs : e'.runs = []

theorem step_during
    (h : (during e store phase).advance p o phase = (during e store' phase, some next)) :
    (during e store phase).step p (.run 0 o) = during e store' next := by
  show withRun 0 ((during e store phase).advance p o phase) = _
  rw [h]
  rfl

theorem advance_pushing {round : Nat} (hround : round < 100) (hne : store.queue ≠ []) :
    (during e store (.pushing round)).advance p o (.pushing round) =
      (during e store (.pushing round), some (.posting round (store.queue.take 100))) := by
  have hbatch : (store.queue.take 100).isEmpty = false := by
    rw [List.isEmpty_eq_false_iff, ne_eq, List.take_eq_nil_iff]
    simp [hne]
  have hpending : (during e store (.pushing round)).store.pending = .ok (store.queue.take 100) :=
    store.pending_queue
  rw [advance, if_pos hround, hpending]
  dsimp only
  rw [hbatch, if_neg Bool.false_ne_true]

theorem advance_pushed {round : Nat} (h : round < 100 → store.queue = []) :
    (during e store (.pushing round)).advance p o (.pushing round) =
      (during e store (.pushing round), some (.pulling 0)) := by
  rw [advance]
  split
  · next hround =>
      have hpending : (during e store (.pushing round)).store.pending = .ok (store.queue.take 100) :=
        store.pending_queue
      rw [hpending, h hround]
      rfl
  · rfl

/-- When nothing comes back, what is left to push stays what it was. -/
theorem settle_lost {s t : Engine} (hk : s.store.Kept)
    (h : s.advance p .lost phase = (t, some next)) :
    (settle p t.store next).queue = (settle p s.store phase).queue := by
  have hparts : ∀ {u : Engine} {x : Phase}, (u, some x) = (t, some next) → u = t ∧ x = next :=
    fun heq => (Prod.mk.inj heq).imp_right Option.some.inj
  cases phase with
  | pushing round =>
      rw [advance] at h
      split at h
      · rw [LocalStore.pending_eq] at h
        obtain ⟨rfl, rfl⟩ := hparts h
        split <;> rfl
      · obtain ⟨rfl, rfl⟩ := hparts h
        rfl
  | posted round batch =>
      obtain ⟨rfl, rfl⟩ := hparts h
      exact LocalStore.queue_failed _ _ _
  | pulling round =>
      obtain ⟨rfl, rfl⟩ := hparts h
      split <;> rfl
  | applying round page =>
      rw [advance] at h
      split at h
      · next store happly =>
          obtain ⟨rfl, rfl⟩ := hparts h
          have hqueue := LocalStore.queue_applyPage hk happly
          split <;> exact hqueue
      · obtain ⟨rfl, rfl⟩ := hparts h
        rfl
  | sending rows =>
      cases rows with
      | nil => cases h
      | cons row rest =>
          obtain ⟨rfl, rfl⟩ := hparts h
          rfl
  | caught e => cases h
  | _ =>
      obtain ⟨rfl, rfl⟩ := hparts h
      rfl

/-- What is left to push is queued. -/
theorem settled_sublist (p : Platform) (s : Engine) : (settled p s).queue.Sublist s.store.queue := by
  unfold settled
  split
  · next phase hphase =>
      unfold settle
      split
      · rw [LocalStore.queue_failed]
      · exact LocalStore.queue_acknowledge_sublist _ _
      · exact .refl _
  · exact .refl _

/-- **A `synchronize` that is under way can end**, with a token that is still good unless the server
has turned it away. Only what was answered is gone from the queue. -/
theorem lost_ends (p : Platform) {s : Engine} (h : Single s) (hk : s.store.Kept)
    (haccepted : ∀ phase ∈ s.runs, phase.refused = false) :
    ∃ n, Rests s ((List.replicate n (Event.run 0 .lost)).foldl (step p) s) ∧
      ((List.replicate n (Event.run 0 .lost)).foldl (step p) s).store.queue =
        (settled p s).queue := by
  induction s using lost_induction p with
  | idle s hruns =>
      refine ⟨0, ⟨rfl, rfl, rfl, rfl, rfl, hruns⟩, ?_⟩
      rw [settled, hruns]
      rfl
  | lost s phase hget ih =>
      obtain ⟨hbusy, hone, hcases⟩ := run_cases h hget p .lost
      have hsettled : settled p s = settle p s.store phase := by rw [settled, hone]
      have hphase := haccepted phase (List.mem_of_getElem? hget)
      have hkept : (s.step p (.run 0 .lost)).store.Kept := kept_step hk (p := p) rfl
      have hsingle : Single (s.step p (.run 0 .lost)) := h.step (p := p) (e := .run 0 .lost) rfl
      rcases hcases with ⟨store, next, hadvance, heq⟩ | ⟨rfl, heq⟩ | ⟨e, rfl, heq⟩
      · obtain ⟨n, hrests, hqueue⟩ := ih hsingle hkept fun x hx => by
          rw [heq] at hx
          obtain rfl := List.mem_singleton.mp hx
          rw [(advance_lost hadvance).2, hphase]
        refine ⟨n + 1, ?_⟩
        rw [List.replicate_succ, List.foldl_cons]
        refine ⟨?_, ?_⟩
        · rw [heq] at hrests ⊢
          exact ⟨hrests.token, hrests.device, hrests.paused, hrests.connected, hrests.disposed,
            hrests.runs⟩
        · rw [hqueue, hsettled, ← settle_lost hk hadvance, heq]
          rfl
      · refine ⟨1, ?_⟩
        show Rests s (s.step p (.run 0 .lost)) ∧ (s.step p (.run 0 .lost)).store.queue = _
        rw [heq, hsettled]
        exact ⟨⟨rfl, rfl, rfl, rfl, rfl, rfl⟩, rfl⟩
      · refine ⟨1, ?_⟩
        show Rests s (s.step p (.run 0 .lost)) ∧ (s.step p (.run 0 .lost)).store.queue = _
        rw [heq, hsettled]
        replace hphase : e.unauthorized = false := hphase
        refine ⟨⟨?_, rfl, rfl, ?_, rfl, rfl⟩, rfl⟩
        · show (if e.unauthorized then none else s.token) = s.token
          rw [hphase, if_neg Bool.false_ne_true]
        · show (s.connected && !e.unauthorized) = s.connected
          rw [hphase, Bool.not_false, Bool.and_true]

/-- **Uploads can be put off.** Where they begin, the `synchronize` can end. -/
theorem uploading_ends (p : Platform) (e : Engine) (store : LocalStore) :
    ∃ n, Rests e ((List.replicate n (Event.run 0 .lost)).foldl (step p) (during e store .uploading)) ∧
      ((List.replicate n (Event.run 0 .lost)).foldl (step p) (during e store .uploading)).store =
        store := by
  have hsending : (during e store .uploading).step p (.run 0 .lost) =
      during e store (.sending (AttachmentStore.pendingUploads store)) := rfl
  cases hrows : AttachmentStore.pendingUploads store with
  | nil =>
      refine ⟨2, ?_⟩
      simp only [List.replicate, List.foldl_cons, List.foldl_nil, hsending, hrows]
      exact ⟨⟨rfl, rfl, rfl, rfl, rfl, rfl⟩, rfl⟩
  | cons row rest =>
      refine ⟨4, ?_⟩
      simp only [List.replicate, List.foldl_cons, List.foldl_nil, hsending, hrows]
      refine ⟨⟨rfl, rfl, rfl, ?_, rfl, rfl⟩, rfl⟩
      show (e.connected && !Exn.other.unauthorized) = e.connected
      rw [show Exn.other.unauthorized = false from rfl, Bool.not_false, Bool.and_true]

end Engine

end Syncraft.Field
