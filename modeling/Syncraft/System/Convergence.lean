import Syncraft.Field.Inspection
import Syncraft.System.Delivery

/-!
# Syncraft.System.Convergence

Replay has no gaps and devices converge (`devices_converge`). A device that has pulled the
whole log and queued nothing holds exactly what the log holds (`Inv.synced`), so two such devices
hold the same operations, in whatever order they came; and what the application shows does not
depend on the order.
-/

namespace Syncraft.System

open Syncraft.Field CausalLog

variable {δ : Type} {w : Setting}

/-- An entry up to the cursor is in the table. -/
theorem Inv.replayed {s : System δ} (hi : Inv w s) {i : δ} {e : Domain.Entry}
    (he : e ∈ s.server.entries) (hle : (e.sequence : Int) ≤ (s.phones i).store.cursor) :
    ∃ o ∈ (s.phones i).store.ops, o.toGo = e.operation := by
  obtain ⟨c, hc, -, hall⟩ := (hi.store i).cursor
  obtain ⟨k, hk, rfl⟩ := List.getElem_of_mem he
  have hseq := hi.server.sequence k hk
  refine hall _ (List.mem_take_iff_getElem.mpr ⟨k, ?_, ?_⟩)
  · simp only [Store.Space.ops, List.length_map]
    omega
  · simp [Store.Space.ops]

/-- With nothing queued and nothing to pull, the table holds what the log holds. -/
theorem Inv.synced {s : System δ} (hi : Inv w s) {i : δ} (hout : (s.phones i).store.outbox = [])
    (hcursor : (s.phones i).store.cursor = s.server.entries.length) (q : Domain.Operation GoString) :
    q ∈ s.server.ops ↔ ∃ o ∈ (s.phones i).store.ops, o.toGo = q := by
  constructor
  · intro hq
    obtain ⟨c, hc, -, hall⟩ := (hi.store i).cursor
    have hlen : c = s.server.ops.length := by
      simp only [Store.Space.ops, List.length_map]
      omega
    exact hall q (by rwa [hlen, List.take_length])
  · rintro ⟨o, ho, rfl⟩
    rcases (hi.store i).pushed o ho with hq | hlog
    · rw [hout] at hq; cases hq
    · exact hlog

/-- Two devices that are up to date hold the same operations. -/
theorem Inv.perm (he : Edits w.made) {s : System δ} (hi : Inv w s) {i j : δ}
    (hi' : (s.phones i).store.outbox = []) (hj' : (s.phones j).store.outbox = [])
    (hci : (s.phones i).store.cursor = s.server.entries.length)
    (hcj : (s.phones j).store.cursor = s.server.entries.length) :
    (s.phones i).store.ops.Perm (s.phones j).store.ops := by
  have hnodup : ∀ k, (s.phones k).store.ops.Nodup := fun k =>
    List.Nodup.of_map _ (hi.store k).causal.nodup
  have hsub : ∀ {a b : δ}, (∀ q ∈ s.server.ops, ∃ o ∈ (s.phones b).store.ops, o.toGo = q) →
      (∀ o ∈ (s.phones a).store.ops, o.toGo ∈ s.server.ops) →
      ∀ o ∈ (s.phones a).store.ops, o ∈ (s.phones b).store.ops := by
    intro a b hb ha o ho
    obtain ⟨x, hx, hxo⟩ := hb _ (ha o ho)
    exact ((hi.store b).made x hx).eq_of_toGo he ((hi.store a).made o ho) hxo ▸ hx
  have hsi := hi.synced hi' hci
  have hsj := hi.synced hj' hcj
  refine (List.perm_ext_iff_of_nodup (hnodup i) (hnodup j)).mpr fun o => ⟨?_, ?_⟩
  · exact hsub (fun q => (hsj q).mp) (fun x hx => (hsi _).mpr ⟨x, hx, rfl⟩) o
  · exact hsub (fun q => (hsi q).mp) (fun x hx => (hsj _).mpr ⟨x, hx, rfl⟩) o

variable [DecidableEq δ]

/-- **Replay is gap-free, and devices converge.** What the server has numbered up to a device's
cursor is in its table, and what is in its table is on the server or queued. A page the server
returns for the device's cursor is decoded and applied, also when it has been on its way for a
while. Devices that have queued nothing and pulled everything hold the same operations and show
the same inspections. -/
theorem devices_converge (he : Edits w.made) {s : System δ} (h : Reachable w s) :
    (∀ i, (∀ e ∈ s.server.entries, (e.sequence : Int) ≤ (s.phones i).store.cursor →
        ∃ o ∈ (s.phones i).store.ops, Domain.equivalent e.operation o.toGo = true) ∧
      ∀ o ∈ (s.phones i).store.ops, (∃ q ∈ s.server.ops, Domain.equivalent q o.toGo = true) ∨
        (s.phones i).store.queued o.id = true) ∧
    (∀ i limit page, s.server.pull (s.phones i).store.cursor limit = .ok page ∨
        (∃ k, s.requests[k]? = some (.pull (s.phones i).store.cursor) ∧
          (k, .page page) ∈ s.replies) →
      ∃ received store, receivePage w.created page = some received ∧
        (s.phones i).store.applyPage received = .ok store) ∧
    (∀ i (limit : Int), 1 ≤ limit → limit ≤ 200 →
      ∃ page, s.server.pull (s.phones i).store.cursor limit = .ok page) ∧
    ∀ i j, (s.phones i).store.outbox = [] → (s.phones j).store.outbox = [] →
      (s.phones i).store.cursor = s.server.entries.length →
      (s.phones j).store.cursor = s.server.entries.length →
        (s.phones i).store.ops.Perm (s.phones j).store.ops ∧
        (∀ record field, frontier (s.phones i).store.ops record field =
          frontier (s.phones j).store.ops record field) ∧
        (∀ record, Inspection.of (s.phones i).store.ops record =
          Inspection.of (s.phones j).store.ops record) ∧
        ∀ lower, (Inspection.project lower (s.phones i).store.ops).Perm
          (Inspection.project lower (s.phones j).store.ops) := by
  have hi := Reachable.inv he h
  refine ⟨fun i => ⟨fun e hmem hle => ?_, fun o ho => ?_⟩, fun i limit page hpage => ?_,
    fun i limit h₁ h₂ => ?_, fun i j hi' hj' hci hcj => ?_⟩
  · obtain ⟨o, ho, hoe⟩ := hi.replayed hmem hle
    exact ⟨o, ho, hoe ▸ Domain.same_iff.mp (Same.refl _)⟩
  · exact (hi.pushed ho).symm.imp_left held_of_mem
  · obtain ⟨c, stop, hc, hslice⟩ : ∃ c stop : Nat, (s.phones i).store.cursor = c ∧
        Slice s.server.entries c stop page := by
      rcases hpage with hpull | ⟨k, hreq, hreply⟩
      · exact slice_of_pull hpull
      · obtain ⟨c, stop, hreq', hslice⟩ := hi.pages k page hreply
        rw [hreq] at hreq'
        exact ⟨c, stop, Request.pull.inj (Option.some.inj hreq'), hslice⟩
    obtain ⟨received, store, hrec, happly, -⟩ := hi.page_applied he hc hslice
    exact ⟨received, store, hrec, happly⟩
  · obtain ⟨c, hc, hle⟩ := hi.cursor_le i
    obtain ⟨page, hpull, -⟩ := pull_slice hle h₁ h₂
    exact ⟨page, by rw [hc, hpull]⟩
  · have hperm := hi.perm he hi' hj' hci hcj
    have hnodup := (hi.store i).causal.nodup
    exact ⟨hperm, fun record field => frontier_perm hperm hnodup _,
      fun record => congrFun (Inspection.of_perm hperm hnodup) record,
      fun lower => Inspection.project_perm hperm hnodup lower⟩

/-- Once the server has the titles, the outbox of the author's device is empty. -/
theorem written_sent : (written.acknowledge (titles.map fun o => o.id)).outbox = [] := rfl

/-- The author's device and another one synchronize, one after the other. -/
theorem devices_converge_run :
    ∃ s : System Bool, s.server.entries.length = 2 ∧
      (s.phones false).store.ops.Perm (s.phones true).store.ops ∧
      ∀ record, Inspection.of (s.phones false).store.ops record =
        Inspection.of (s.phones true).store.ops record := by
  obtain ⟨s₀, hs₀, hserver, -, hphones₀⟩ := yard_begins
  have hpending : (s₀.phones false).store.pending = .ok titles := by
    rw [hphones₀]; exact written_pending
  obtain ⟨s₁, hrun₁, hphones₁, -, hlog⟩ := push_round yard_edits (Reachable.inv yard_edits hs₀)
    (by simp [hphones₀]) (by decide : 0 < 100) hpending (by simp [titles]) (hserver ▸ started_active)
  have hs₁ := hs₀.trans hrun₁
  rw [hserver, started_admits] at hlog
  have hlen : s₁.server.entries.length = 2 := by
    have := congrArg List.length (Except.ok.inj hlog)
    simp only [Store.Space.ops, List.length_map] at this
    exact this.symm
  -- The author's device pulls.
  obtain ⟨s₂, store, hrun₂, hserver₂, hphones₂, hcursor, hout⟩ :=
    catch_up yard_edits (Reachable.inv yard_edits hs₁) (i := false) (by simp [hphones₁])
      (by decide : 1 < 100) (by simp [hphones₁, hphones₀, written_sent])
      (by rw [hlen, hphones₁, hphones₀]; exact (by decide : (2 : Int) ≤ 0 + 100))
  have hs₂ := hs₁.trans hrun₂
  have hother : s₂.phones true = Phone.new := by simp [hphones₂, hphones₁, hphones₀]
  -- The other device is connected and pulls.
  have hs₃ := hs₂.tail (Step.phone true _ _ (.connect true))
  have hs₄ := hs₃.tail (Step.phone true _ _ (.start (by simp [hother, Phone.new])
    (by simp [hother, Phone.new]) (by simp)))
  obtain ⟨s₅, store', hrun₅, hserver₅, hphones₅, hcursor', hout'⟩ :=
    catch_up yard_edits (Reachable.inv yard_edits hs₄) (i := true) (by simp)
      (by decide : 0 < 100) (by simp [hother, Phone.new, LocalStore.new])
      (by simp only [hserver₂, hlen, hother, Function.update_self]; decide)
  have hs₅ := hs₄.trans hrun₅
  have hlen₅ : s₅.server.entries.length = 2 := by rw [hserver₅, hserver₂, hlen]
  obtain ⟨hperm, -, hview, -⟩ := (devices_converge yard_edits hs₅).2.2.2 false true
    (by simp [hphones₅, hphones₂, hout]) (by simp [hphones₅, hout'])
    (by simp [hphones₅, hphones₂, hcursor, hlen, hlen₅])
    (by simp [hphones₅, hcursor', hserver₂, hlen, hlen₅])
  exact ⟨s₅, hlen₅, hperm, hview⟩

end Syncraft.System
