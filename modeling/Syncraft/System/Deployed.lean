import Syncraft.System.Convergence
import Syncraft.System.Rounds

/-!
# Syncraft.System.Deployed

What holds of the deployment because it holds of the system: edits are kept (`edits_kept`), and
devices that are up to date agree (`devices_agree`).
-/

namespace Syncraft.Deployment

open Domain Library Api CausalLog
open Syncraft.Field
open Syncraft.Field.LocalStore (Call)
open Syncraft.System (held_of_mem)

variable {δ ι : Type} {F : Setting} {d : Deployment δ ι}

variable [DecidableEq δ] [DecidableEq ι]

/-- **Edits are kept.** Whatever the network, the server's other users and the application do: what
a device has saved or restored is in its table, and waits in its outbox unless the server holds it;
what an engine is about to take out of the outbox the server holds; and the server holds nothing
twice, and nothing that no device has made. -/
theorem edits_kept (hF : F.Sound) (h : Reachable F d) :
    (∀ i, ∀ o ∈ d.saved i, ∃ x ∈ (d.engines i).store.ops, o.equivalent x = true ∧
        ((d.engines i).store.queued x.id = true ∨
          ∃ q ∈ (d.space F).ops, Domain.equivalent q o.toGo = true)) ∧
      (∀ i round batch, .acknowledging round batch ∈ (d.engines i).runs →
        ∀ o ∈ (d.engines i).store.ops, o.id ∈ Engine.ids batch →
          ∃ q ∈ (d.space F).ops, Domain.equivalent q o.toGo = true) ∧
      ((d.space F).ops.map Domain.Operation.id).Nodup ∧
      ∀ q ∈ (d.space F).ops, ∃ o, F.made o ∧ Domain.equivalent q o.toGo = true := by
  obtain ⟨s, hi, hshows, hserver, hstores⟩ := h.inv hF
  rw [← hserver]
  refine ⟨fun i o ho => ?_, fun i round batch hphase o ho hid => ?_, hi.server.causal.nodup,
    fun q hq => ?_⟩
  · have hmem := hi.saved i o (hshows.saved ▸ ho)
    have hpushed := hi.pushed hmem
    rw [toGo_stored] at hpushed
    rw [hstores] at hmem hpushed
    exact ⟨o.stored, hmem, same_stored o, hpushed.imp_right held_of_mem⟩
  · have hshown : (s.phones i).phase = .acknowledging round batch := hshows.phase hphase
    rw [← hstores] at ho
    exact held_of_mem (hi.acknowledged hF.edits hshown ho hid)
  · obtain ⟨o, ⟨e, he, rfl⟩, rfl⟩ := hi.log q hq
    refine ⟨e, he, ?_⟩
    rw [toGo_stored]
    exact Domain.same_iff.mp (Same.refl _)

/-- The two titles of the author are in its table, when its push has left. -/
theorem edits_kept_run :
    ∃ d : Deployment Bool Unit, Reachable site d ∧ d.saved false = System.titles ∧
      ∀ o ∈ System.titles, ∃ x ∈ (d.engines false).store.ops, o.equivalent x = true := by
  obtain ⟨d, hd, hsaved, -⟩ := site_posted
  refine ⟨d, hd, hsaved, fun o ho => ?_⟩
  obtain ⟨x, hx, hsame, -⟩ := (edits_kept site_sound hd).1 false o (hsaved ▸ ho)
  exact ⟨x, hx, hsame⟩

/-- **Devices that are up to date agree.** A page that a device is about to apply is applied; what
the server has numbered up to a device's cursor is in its table; and two devices that have nothing
queued and have pulled everything hold the same operations and show the same. -/
theorem devices_agree (hF : F.Sound) (h : Reachable F d) :
    (∀ i round page, .applying round page ∈ (d.engines i).runs →
        ∃ store, (d.engines i).store.applyPage page = .ok store) ∧
      (∀ i, ∀ e ∈ (d.space F).entries, (e.sequence : Int) ≤ (d.engines i).store.cursor →
        ∃ o ∈ (d.engines i).store.ops, Domain.equivalent e.operation o.toGo = true) ∧
      ∀ i j, (d.engines i).store.outbox = [] → (d.engines j).store.outbox = [] →
        (d.engines i).store.cursor = (d.space F).entries.length →
        (d.engines j).store.cursor = (d.space F).entries.length →
          (d.engines i).store.ops.Perm (d.engines j).store.ops ∧
          (∀ record field, frontier (d.engines i).store.ops record field =
            frontier (d.engines j).store.ops record field) ∧
          ∀ record, Inspection.of (d.engines i).store.ops record =
            Inspection.of (d.engines j).store.ops record := by
  obtain ⟨s, hi, hshows, hserver, hstores⟩ := h.inv hF
  simp only [← hserver, ← hstores]
  refine ⟨fun i round page hphase => ?_, fun i e he hle => ?_, fun i j hi' hj' hci hcj => ?_⟩
  · have hshown : (s.phones i).phase = .applying round page := hshows.phase hphase
    obtain ⟨c, stop, page', hc, hslice, hreceived⟩ := (hi.phase i).at hshown
    obtain ⟨received, store, hreceived', happly, -⟩ := hi.page_applied hF.edits hc hslice
    obtain rfl := Option.some.inj (hreceived.symm.trans hreceived')
    exact ⟨store, happly⟩
  · obtain ⟨o, ho, hoe⟩ := hi.replayed he hle
    exact ⟨o, ho, hoe ▸ Domain.same_iff.mp (Same.refl _)⟩
  · have hperm := hi.perm hF.edits hi' hj' hci hcj
    have hnodup := (hi.store i).causal.nodup
    exact ⟨hperm, fun record field => frontier_perm hperm hnodup _,
      fun record => congrFun (Inspection.of_perm hperm hnodup) record⟩

/-- The author's device pushes its two titles, and the other one pulls them. -/
theorem devices_agree_run :
    ∃ d : Deployment Bool Unit, Reachable site d ∧
      (d.engines false).store.ops.Perm (d.engines true).store.ops ∧
      ∀ o ∈ System.titles, o.stored ∈ (d.engines true).store.ops := by
  obtain ⟨d₀, hd₀, hsaved, hserver, hauthor, hreader⟩ := site_joined
  have hidle : d₀.server.sessions () = none := by
    rw [hserver]
    rfl
  have hlength : (d₀.space site).entries.length = 0 := by
    rw [space, hserver]
    decide +kernel
  have hqueue : (d₀.engines false).store.queue.length = 2 := by
    rw [hauthor]
    show author.store.queue.length = 2
    rw [author_queue]
    rfl
  have honline := site_online hserver hauthor hreader
  obtain ⟨d₁, h₁, hcaught₁⟩ := (honline false).catches_up site_sound hd₀ hidle (by
    rw [hlength, hqueue]
    show 2 < 2 ^ 53
    decide)
  have hd₁ : Reachable site d₁ := hd₀.trans h₁.onward.steps
  have htotal := h₁.total
  rw [hcaught₁.1, hlength, hqueue] at htotal
  -- The other device has nothing to push, so that the author's is still up to date.
  have hothers : d₁.engines true = reader := by
    rw [h₁.onward.others true (by decide), hreader]
  have hnone : (d₁.engines true).store.queue = [] := by
    rw [hothers]
    rfl
  obtain ⟨d₂, h₂, hcaught₂⟩ := ((honline true).later h₁.onward (by decide)).catches_up site_sound hd₁
    (h₁.onward.sessions ▸ hidle) (by
      rw [hnone]
      exact lt_of_le_of_lt htotal (by decide))
  have hd₂ : Reachable site d₂ := hd₁.trans h₂.onward.steps
  have hsame : d₂.engines false = d₁.engines false := h₂.onward.others false (by decide)
  have hspace := (h₂.quiet hnone).2
  have hperm : (d₂.engines false).store.ops.Perm (d₂.engines true).store.ops := by
    refine ((devices_agree site_sound hd₂).2.2 false true ?_ ?_ ?_ ?_).1
    · rw [hsame]
      exact (LocalStore.queue_eq_nil (hd₁.kept site_sound false)).mp hcaught₁.1
    · exact (LocalStore.queue_eq_nil (hd₂.kept site_sound true)).mp hcaught₂.1
    · rw [hsame, hspace]
      exact hcaught₁.2
    · exact hcaught₂.2
  have hsaved₂ : d₂.saved false = System.titles := by
    rw [h₂.onward.saved, h₁.onward.saved, hsaved]
  exact ⟨d₂, hd₂, hperm, fun o ho => hperm.subset (hd₂.holds site_sound (hsaved₂.symm ▸ ho))⟩

end Syncraft.Deployment
