import Mathlib.Data.Fintype.BigOperators
import Syncraft.System.Convergence
import Syncraft.System.Rounds

/-!
# Syncraft.System.CatchUp

There is always a way back to agreement. Whatever has happened, and wherever a `synchronize` stands,
as long as the devices are online: if they push first and pull then, one after the other, they all
come to hold and to show the same (`all_catch_up`).
-/

namespace Syncraft.Deployment

open Domain Library Api
open Syncraft.Field

variable {δ ι : Type} [DecidableEq δ] [DecidableEq ι] {F : Setting} {is : Finset δ} {now : δ → Nat}
  {c : δ → Claims} {j : ι} {d d' : Deployment δ ι}

/-- What all of them still have to push. -/
def queued (is : Finset δ) (d : Deployment δ ι) : Nat :=
  ∑ i ∈ is, (d.engines i).store.queue.length

/-- Some of the devices have gone on, one after the other. -/
structure Gathering (F : Setting) (is : Finset δ) (now : δ → Nat) (c : δ → Claims) (j : ι)
    (d d' : Deployment δ ι) : Prop where
  steps : Relation.ReflTransGen (Step F) d d'
  others : ∀ k, k ∉ is → d'.engines k = d.engines k
  saved : d'.saved = d.saved
  idle : d'.server.sessions j = none
  online : ∀ i ∈ is, Online F d' i (now i) (c i)
  total : (d'.space F).entries.length + queued is d' ≤ (d.space F).entries.length + queued is d

omit [DecidableEq ι] in
/-- What one of them has to push is a part of what all have. -/
theorem queued_eq {i : δ} (hi : i ∈ is) (d : Deployment δ ι) :
    queued is d = (d.engines i).store.queue.length + queued (is.erase i) d :=
  (Finset.add_sum_erase is (fun i => (d.engines i).store.queue.length) hi).symm

/-- One device catches up, and the others stay as they are. -/
theorem Gathering.one (hF : F.Sound) (hd : Reachable F d)
    (hexact : Exact ((d.space F).entries.length + queued is d))
    (h : Gathering F is now c j d d') {i : δ} (hi : i ∈ is) :
    ∃ d'', Relation.ReflTransGen (Step F) d' d'' ∧ Gathering F is now c j d d'' ∧ CaughtUp F i d'' ∧
      (∀ k, k ≠ i → d''.engines k = d'.engines k) ∧
      ((d'.engines i).store.queue = [] → d''.space F = d'.space F) := by
  have htotal := h.total
  have hparts := queued_eq hi d'
  obtain ⟨d'', hcatching, hcaught⟩ := (h.online i hi).catches_up hF (hd.trans h.steps) h.idle
    (lt_of_le_of_lt (by omega) hexact)
  have honward := hcatching.onward
  have hrest : queued (is.erase i) d'' = queued (is.erase i) d' :=
    Finset.sum_congr rfl fun k hk => by rw [honward.others k (Finset.ne_of_mem_erase hk)]
  have hless := hcatching.total
  have hparts' := queued_eq hi d''
  refine ⟨d'', honward.steps, ⟨h.steps.trans honward.steps, fun k hk => ?_, ?_, ?_, fun k hk => ?_, ?_⟩,
    hcaught, honward.others, fun hnone => (hcatching.quiet hnone).2⟩
  · rw [honward.others k fun heq => hk (heq ▸ hi), h.others k hk]
  · rw [honward.saved, h.saved]
  · rw [honward.sessions, h.idle]
  · by_cases hik : k = i
    · subst hik
      exact hcatching.online
    · exact (h.online k hk).later honward hik
  · omega

/-- They all push what they have queued. -/
theorem Gathering.pushed (hF : F.Sound) (hd : Reachable F d)
    (hexact : Exact ((d.space F).entries.length + queued is d))
    (h : Gathering F is now c j d d') :
    ∃ d'', Relation.ReflTransGen (Step F) d' d'' ∧ Gathering F is now c j d d'' ∧
      ∀ i ∈ is, (d''.engines i).store.queue = [] := by
  refine reaches_all (fun i s => (s.engines i).store.queue = []) is (fun i hi s hs => ?_) h
  obtain ⟨t, hst, ht, hcaught, hothers, -⟩ := hs.one hF hd hexact hi
  refine ⟨t, hst, ht, hcaught.1, fun k hk => ?_⟩
  by_cases hki : k = i
  · rw [hki]
    exact hcaught.1
  · rw [hothers k hki]
    exact hk

/-- When nothing is queued any more, they all pull. -/
theorem Gathering.pulled (hF : F.Sound) (hd : Reachable F d)
    (hexact : Exact ((d.space F).entries.length + queued is d))
    (h : Gathering F is now c j d d') (hnone : ∀ i ∈ is, (d'.engines i).store.queue = []) :
    ∃ d'', Relation.ReflTransGen (Step F) d' d'' ∧ Gathering F is now c j d d'' ∧
      ∀ i ∈ is, CaughtUp F i d'' := by
  have hnext : ∀ i ∈ is, ∀ s, (Gathering F is now c j d s ∧ ∀ i ∈ is, (s.engines i).store.queue = []) →
      ∃ t, Relation.ReflTransGen (Step F) s t ∧
        (Gathering F is now c j d t ∧ ∀ i ∈ is, (t.engines i).store.queue = []) ∧ CaughtUp F i t ∧
        ∀ k, CaughtUp F k s → CaughtUp F k t := by
    intro i hi s hs
    obtain ⟨t, hst, ht, hcaught, hothers, hquiet⟩ := hs.1.one hF hd hexact hi
    have hkept : ∀ k, k = i ∨ t.engines k = s.engines k := fun k =>
      (eq_or_ne k i).imp_right (hothers k)
    refine ⟨t, hst, ⟨ht, fun k hk => ?_⟩, hcaught, fun k hk => ?_⟩
    · rcases hkept k with rfl | hsame
      · exact hcaught.1
      · rw [hsame]
        exact hs.2 k hk
    · rcases hkept k with rfl | hsame
      · exact hcaught
      · rw [CaughtUp, hsame, hquiet (hs.2 i hi)]
        exact hk
  obtain ⟨d'', hsteps, ⟨hgathering, -⟩, hcaught⟩ := reaches_all (CaughtUp F) is hnext ⟨h, hnone⟩
  exact ⟨d'', hsteps, hgathering, hcaught⟩

/-- **There is always a way back to agreement.** From every state that the deployment can get to:
if some devices are online, and nothing else happens for a while, what is under way can end, and
they all come to have nothing queued and nothing to pull; then each of them holds what any of them
had saved, and all of them hold the same operations and show the same. -/
theorem all_catch_up (hF : F.Sound) (hd : Reachable F d) (hidle : d.server.sessions j = none)
    (honline : ∀ i ∈ is, Online F d i (now i) (c i))
    (hexact : Exact ((d.space F).entries.length + queued is d)) :
    ∃ d', Relation.ReflTransGen (Step F) d d' ∧ (∀ k, k ∉ is → d'.engines k = d.engines k) ∧
      (∀ i ∈ is, (d'.engines i).store.outbox = [] ∧
        (d'.engines i).store.cursor = (d'.space F).entries.length) ∧
      ∀ i ∈ is, ∀ k ∈ is,
        (∀ o ∈ d.saved i, ∃ x ∈ (d'.engines k).store.ops, o.equivalent x = true) ∧
        (d'.engines i).store.ops.Perm (d'.engines k).store.ops ∧
        (∀ record field, frontier (d'.engines i).store.ops record field =
          frontier (d'.engines k).store.ops record field) ∧
        ∀ record, Inspection.of (d'.engines i).store.ops record =
          Inspection.of (d'.engines k).store.ops record := by
  obtain ⟨d₁, hsteps₁, h₁, hnone⟩ := Gathering.pushed (F := F) (j := j) hF hd hexact
    ⟨.refl, fun _ _ => rfl, rfl, hidle, honline, le_rfl⟩
  obtain ⟨d₂, hsteps₂, h₂, hcaught⟩ := h₁.pulled hF hd hexact hnone
  have hd₂ : Reachable F d₂ := hd.trans h₂.steps
  obtain ⟨s, hi, -, hserver, hstores⟩ := Reachable.inv hF hd₂
  have hdone : ∀ i ∈ is, (d₂.engines i).store.outbox = [] ∧
      (d₂.engines i).store.cursor = (d₂.space F).entries.length := fun i hmem =>
    ⟨(LocalStore.queue_eq_nil (hd₂.kept hF i)).mp (hcaught i hmem).1, (hcaught i hmem).2⟩
  refine ⟨d₂, h₂.steps, h₂.others, hdone, fun i hmem k hmem' => ?_⟩
  have hperm : (d₂.engines i).store.ops.Perm (d₂.engines k).store.ops := by
    have hboth := And.intro (hdone i hmem) (hdone k hmem')
    rw [← hserver, ← hstores i, ← hstores k] at hboth
    rw [← hstores i, ← hstores k]
    exact hi.perm hF.edits hboth.1.1 hboth.2.1 hboth.1.2 hboth.2.2
  have hnodup : ((d₂.engines i).store.ops.map fun o => o.id).Nodup := by
    rw [← hstores i]
    exact (hi.store i).causal.nodup
  refine ⟨fun o ho => ⟨o.stored, ?_, same_stored o⟩, hperm,
    fun record field => CausalLog.frontier_perm hperm hnodup _,
    fun record => congrFun (Inspection.of_perm hperm hnodup) record⟩
  exact hperm.subset (hd₂.holds hF (h₂.saved.symm ▸ ho))

/-- The author's device, its push on the way, and the other one. -/
theorem all_catch_up_run :
    ∃ d d' : Deployment Bool Unit, Reachable site d ∧
      (d.engines false).runs = [.posted 0 System.titles] ∧
      Relation.ReflTransGen (Step site) d d' ∧ (d'.engines false).store.outbox = [] ∧
      ∀ o ∈ System.titles, ∃ x ∈ (d'.engines true).store.ops, o.equivalent x = true := by
  obtain ⟨d, hd, hsaved, hserver, hauthor, hreader⟩ := site_joined
  have hidle : d.server.sessions () = none := by
    rw [hserver]
    rfl
  have hlength : (d.space site).entries.length = 0 := by
    rw [space, hserver]
    decide +kernel
  have hqueued : queued Finset.univ d = 2 := by
    rw [queued, Fintype.sum_bool, hauthor, hreader]
    show reader.store.queue.length + author.store.queue.length = 2
    rw [author_queue]
    rfl
  have honline : ∀ i ∈ Finset.univ, Online site d i 0 ada :=
    fun i _ => site_online hserver hauthor hreader i
  obtain ⟨d', hsteps, -, hdone, hsame⟩ := all_catch_up site_sound hd hidle honline (by
      rw [hlength, hqueued]
      show 2 < 2 ^ 53
      decide)
  refine ⟨d, d', hd, by rw [hauthor], hsteps, (hdone false (Finset.mem_univ _)).1,
    fun o ho => ?_⟩
  exact (hsame false (Finset.mem_univ _) true (Finset.mem_univ _)).1 o (hsaved.symm ▸ ho)

end Syncraft.Deployment
