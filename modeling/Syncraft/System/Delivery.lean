import Syncraft.System.Progress

/-!
# Syncraft.System.Delivery

What the system does for the edits of its users, in every reachable state: none is lost and
none is stored twice (`no_edit_lost`), and what a device has queued can be pushed
(`pending_pushable`).
-/

namespace Syncraft.System

open Syncraft.Field CausalLog

/-! ### A run -/

def craneTitle : Operation :=
  ⟨{ id := dart "0b000000-0000-4000-8000-000000000001"
     record := dart "0c000000-0000-4000-8000-000000000001"
     field := dart "title", value := dart "Crane", parents := [] }, by decide +kernel⟩

def towerTitle : Operation :=
  ⟨{ craneTitle.toOperation with
     id := dart "0b000000-0000-4000-8000-000000000002"
     value := dart "Tower crane", parents := [craneTitle.id] }, by decide +kernel⟩

/-- A title and its correction. -/
def titles : List Operation := [craneTitle, towerTitle]

/-- A yard where these are the only edits beside the demonstration's. -/
def yard : Setting where
  made o := o ∈ titles ∨ ∃ ops, demoSeed = .ok ops ∧ o ∈ ops
  sha256 _ := []
  created _ := dart "2026-01-01T00:00:00Z"

theorem yard_edits : Edits yard.made := by
  have hrow : ∀ o, yard.made o → o.toOperation ∈ titles.map Operation.toOperation ++ demoRows := by
    rintro o (ho | ⟨ops, hops, ho⟩)
    · exact List.mem_append_left _ (List.mem_map_of_mem ho)
    · exact List.mem_append_right _ (demoSeed_rows hops ▸ List.mem_map_of_mem ho)
  have hids : ((titles.map Operation.toOperation ++ demoRows).map Domain.Operation.id).Nodup := by
    decide +kernel
  refine ⟨fun a b ha hb hid => ?_, ?_, fun ops hops o ho => Or.inr ⟨ops, hops, ho⟩⟩
  · obtain rfl := Operation.ext (List.inj_on_of_nodup_map hids (hrow a ha) (hrow b hb) hid)
    exact same_iff.mp (Same.refl a)
  · rintro o (ho | ⟨ops, hops, ho⟩)
    · have hall : ∀ o ∈ titles, Text.WellFormed o.value := by decide +kernel
      exact hall o ho
    · exact demoSeed_wellFormed hops o ho

theorem titles_causal : Causal titles := by
  have hfirst : Causal [craneTitle] := Causal.snoc Causal.nil rfl fun p hp => by cases hp
  exact Causal.snoc hfirst (by decide +kernel) (by decide +kernel)

theorem titles_stored : titles.map Operation.stored = titles := rfl

/-- The store of a new device that has saved them. -/
def written : LocalStore := LocalStore.new.add (fun _ => dart "2026-01-01T00:00:00Z") titles

theorem written_ops : written.ops = titles := by
  rw [written, LocalStore.ops_add, titles_stored]
  rfl

theorem save_titles :
    LocalStore.new.save titles (fun _ => dart "2026-01-01T00:00:00Z") = .ok written := by
  have hunseen : unseen LocalStore.new.ids titles = titles :=
    unseen_eq_self titles_causal.nodup fun _ _ h => by cases h
  have hempty : Causal LocalStore.new.ops := Causal.nil
  have hadmits : admitAll LocalStore.new.ops titles = .ok titles := titles_causal.admitAll_eq
  rw [LocalStore.save_eq hempty (fun _ h => by cases h), hunseen, hadmits]
  rfl

theorem written_pending : written.pending = .ok titles := by
  have hqueued : ∀ o ∈ titles, written.queued o.id = true := by
    intro o ho
    rw [LocalStore.queued_iff, written, LocalStore.outbox_ids_add]
    exact List.mem_append_right _ (List.mem_map_of_mem ho)
  rw [LocalStore.pending_eq, written_ops, List.filter_eq_self.mpr hqueued]
  rfl

/-- The server, once the tablet is registered. -/
theorem started_admits :
    admitAll Store.started.ops (titles.map Operation.toGo) = .ok (titles.map Operation.toGo) :=
  (wire.causal_map.mpr titles_causal).admitAll_eq

theorem started_active : Store.started.active Store.tablet.id Store.tablet.actor = true := by
  decide +kernel

/-- The server once the tablet is registered, and the author's device once the titles are
saved and a synchronization has begun. -/
theorem yard_begins :
    ∃ s : System Bool, Reachable yard s ∧ s.server = Store.started ∧ s.saved false = titles ∧
      s.phones = Function.update (fun _ => Phone.new) false
        { Phone.new with store := written, connected := true, phase := .pushing 0 } := by
  have h₁ : Step yard (new : System Bool) _ := .other (.register Store.tablet) rfl (by simp)
  have h₂ := Relation.ReflTransGen.tail (.single h₁)
    (Step.save false titles _ written (fun o ho => Or.inl ho) save_titles)
  have h₃ := h₂.tail (Step.phone false _ _ (.connect true))
  have h₄ := h₃.tail (Step.phone false _ _ (.start (by simp [System.store, new, Phone.new])
    (by simp [System.store, new, Phone.new]) (by simp)))
  exact ⟨_, h₄, rfl, rfl, by simp [System.store, new, Phone.new]⟩

/-- The author's device has posted the titles and the server has stored them; the answer is
on its way. -/
theorem yard_posted :
    ∃ (s : System Bool) (k n : Nat), Reachable yard s ∧ s.saved false = titles ∧
      s.server.ops = titles.map Operation.toGo ∧ (k, .cursor n) ∈ s.replies ∧
      s.phones = Function.update (fun _ => Phone.new) false
        { Phone.new with store := written, connected := true, phase := .posted 0 titles k } := by
  obtain ⟨s, hs, hserver, hsaved, hphones⟩ := yard_begins
  have hpending : (s.phones false).store.pending = .ok titles := by
    rw [hphones]; exact written_pending
  obtain ⟨s', k, n, hrun, hphones', hsaved', hreply, -, hlog⟩ :=
    push_sent yard_edits (Reachable.inv yard_edits hs) (by simp [hphones]) (by decide : 0 < 100)
      hpending (by simp [titles]) (hserver ▸ started_active)
  rw [hserver, started_admits] at hlog
  refine ⟨s', k, n, hs.trans hrun, by rw [hsaved', hsaved], (Except.ok.inj hlog).symm, hreply, ?_⟩
  rw [hphones', hphones, Function.update_idem]
  simp

/-! ### Results -/

variable {δ : Type} {w : Setting}

/-- The server's copy of an operation is equivalent to it. -/
theorem held_of_mem {s : Store.Space} {o : Operation} (h : o.toGo ∈ s.ops) :
    ∃ q ∈ s.ops, Domain.equivalent q o.toGo = true :=
  ⟨o.toGo, h, Domain.same_iff.mp (Same.refl _)⟩

/-- What `acknowledge` is about to remove is on the server. -/
theorem Inv.acknowledged (he : Edits w.made) {s : System δ} (hi : Inv w s) {i : δ} {round : Nat}
    {batch : List Operation} (hp : (s.phones i).phase = .acknowledging round batch) {o : Operation}
    (ho : o ∈ (s.phones i).store.ops) (hid : o.id ∈ batch.map fun x => x.id) :
    o.toGo ∈ s.server.ops := by
  obtain ⟨x, hx, hxo⟩ := List.mem_map.mp hid
  obtain ⟨hmade, hlog⟩ := (hi.phase i).at hp x hx
  exact hmade.eq_of_id he ((hi.store i).made o ho) hxo ▸ hlog

variable [DecidableEq δ]

/-- **No edit is lost or duplicated.** What a device has saved or restored stays in its table;
it is in the outbox, or the server holds an equivalent operation; an acknowledgement removes
from the outbox only what the server holds; and no ID is in the server log twice. -/
theorem no_edit_lost (he : Edits w.made) {s : System δ} (h : Reachable w s) :
    (∀ i, ∀ o ∈ s.saved i, ∃ x ∈ (s.phones i).store.ops, o.equivalent x = true) ∧
      (∀ i, ∀ o ∈ s.saved i, (s.phones i).store.queued o.id = true ∨
        ∃ q ∈ s.server.ops, Domain.equivalent q o.toGo = true) ∧
      (∀ i round batch, (s.phones i).phase = .acknowledging round batch →
        ∀ o ∈ (s.phones i).store.ops, o.id ∈ batch.map (fun x => x.id) →
          ∃ q ∈ s.server.ops, Domain.equivalent q o.toGo = true) ∧
      (s.server.ops.map Domain.Operation.id).Nodup := by
  have hi := Reachable.inv he h
  refine ⟨fun i o ho => ⟨o.stored, hi.saved i o ho, same_stored o⟩, fun i o ho => ?_,
    fun i round batch hp o ho hid => held_of_mem (hi.acknowledged he hp ho hid),
    hi.server.causal.nodup⟩
  have hpushed := hi.pushed (hi.saved i o ho)
  simp only [toGo_stored, stored_id] at hpushed
  exact hpushed.imp_right held_of_mem

/-- The author's device has given its push up, although the server has stored it. -/
theorem no_edit_lost_run :
    ∃ s : System Bool, (s.phones false).phase = .recording titles .other ∧
      s.server.ops = titles.map Operation.toGo ∧ s.saved false = titles ∧
      (∀ o ∈ s.saved false, ∃ x ∈ (s.phones false).store.ops, o.equivalent x = true) ∧
      (s.server.ops.map Domain.Operation.id).Nodup := by
  obtain ⟨s, k, n, hs, hsaved, hlog, -, hphones⟩ := yard_posted
  have hlost := hs.tail (Step.phone false _ _ (.lost 0 titles k (by simp [hphones])))
  obtain ⟨hkept, -, -, hnodup⟩ := no_edit_lost yard_edits hlost
  refine ⟨_, ?_, ?_, ?_, hkept false, hnodup⟩
  · simp
  · exact hlog
  · exact hsaved

/-- **A queued edit stays pushable.** `pending` returns a batch that is empty or that
`ValidateBatch` accepts against the server log; each parent is in the log or earlier in the
batch, for the same record and field. -/
theorem pending_pushable (he : Edits w.made) {s : System δ} (h : Reachable w s) (i : δ) :
    ∃ batch, (s.phones i).store.pending = .ok batch ∧
      (batch = [] ∨ Domain.validateBatch (Store.Space.knownOf s.server.entries)
        (batch.map Operation.toGo) = .ok ()) ∧
      ∀ (k : Nat) (o : Operation), batch[k]? = some o → ∀ p ∈ o.parents,
        ∃ q, (q ∈ s.server.ops ∨ q ∈ (batch.take k).map Operation.toGo) ∧ q.id = toGo p ∧
          q.record = o.toGo.record ∧ q.field = o.toGo.field := by
  have hi := Reachable.inv he h
  have hp := LocalStore.pending_eq (s.phones i).store
  refine ⟨_, hp, ?_, fun k o ho p hpar => ?_⟩
  · exact or_iff_not_imp_left.mpr fun hne => hi.pending_accepted he hp hne
  · obtain ⟨r, hr⟩ := hi.pending_admitted he hp
    obtain ⟨q, hq, hkey, hscope⟩ := admitAll_parents hi.server.causal hr
      (by rw [List.getElem?_map, ho]; rfl) (mem_toGo_parents.mpr ⟨p, hpar, rfl⟩)
    obtain ⟨hrec, hfield⟩ := Domain.sameScope_iff.mp hscope
    exact ⟨q, by rwa [List.map_take], hkey, hrec, hfield⟩

/-- The titles can be pushed when the author's device begins to synchronize. -/
theorem pending_pushable_run :
    ∃ s : System Bool, (s.phones false).store.pending = .ok titles ∧
      Domain.validateBatch (Store.Space.knownOf s.server.entries)
        (titles.map Operation.toGo) = .ok () := by
  obtain ⟨s, hs, -, -, hphones⟩ := yard_begins
  have hp : (s.phones false).store.pending = .ok titles := by rw [hphones]; exact written_pending
  obtain ⟨batch, hbatch, hvalid, -⟩ := pending_pushable yard_edits hs false
  obtain rfl := Except.ok.inj (hp.symm.trans hbatch)
  exact ⟨s, hp, hvalid.resolve_left (by simp [titles])⟩

end Syncraft.System
