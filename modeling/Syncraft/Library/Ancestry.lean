import Mathlib.Logic.Relation
import Syncraft.Library.CausalMap
import Syncraft.Library.Frontier

/-!
# Syncraft.Library.Ancestry

**Descent in a causal log.** A node descends from another through one or more parent links.
In a causal log descent goes forward only, so it has no cycles, and following it from any node
ends at one that nothing descends from. A frontier is computed from direct parents alone;
`Causal.tips` says that it is made of exactly these maximal nodes.

`Causal.resolved` is about a node made after everything a log showed, when other work has
come in meanwhile: it replaces what was shown, and nothing else.
-/

namespace Syncraft.CausalLog

open CausalNode (key parents)

universe u v u' v'

variable {α : Type u} {ι : Type v} [CausalNode α ι]

/-! ### Descent -/

/-- `b` is held, and names `a` as a parent. -/
def Link (log : List α) (a b : α) : Prop := b ∈ log ∧ key a ∈ parents b

/-- `b` descends from `a`, through one or more links. -/
def Descends (log : List α) (a b : α) : Prop := Relation.TransGen (Link log) a b

/-- Without links there is no descent. -/
theorem no_link_iff {log : List α} {a : α} :
    (∀ b, ¬ Link log a b) ↔ ∀ b, ¬ Descends log a b := by
  constructor
  · intro h b hd
    obtain ⟨c, hl, -⟩ := Relation.TransGen.head'_iff.mp hd
    exact h c hl
  · intro h b hl
    exact h b (Relation.TransGen.single hl)

section Order

variable [DecidableEq ι]

/-- Where a log holds the node's key. -/
def position (log : List α) (a : α) : Nat := (log.map key).idxOf (key a)

theorem Causal.position_getElem {log : List α} (hc : Causal log) {i : Nat} (hi : i < log.length) :
    position log log[i] = i := by
  have h := hc.nodup.idxOf_getElem i (by simpa using hi)
  simpa [position] using h

theorem position_lt {log : List α} {a : α} (ha : a ∈ log) : position log a < log.length := by
  have h := List.idxOf_lt_length_of_mem (List.mem_map_of_mem (f := key) ha)
  simpa [position] using h

/-- Links go forward. -/
theorem Causal.link_lt {log : List α} (hc : Causal log) {a b : α} (h : Link log a b) :
    position log a < position log b := by
  obtain ⟨hb, hp⟩ := h
  obtain ⟨i, hi, rfl⟩ := List.getElem_of_mem hb
  obtain ⟨j, hj, hji, hkey, -⟩ := hc.parent_before hi hp
  have ha : position log a = j := by
    rw [← hc.position_getElem hj, position, position, hkey]
  rw [ha, hc.position_getElem hi]
  exact hji

/-- A link stays in its scope. -/
theorem Causal.link_scope {log : List α} (hc : Causal log) {a b : α} (ha : a ∈ log)
    (h : Link log a b) : SameScope a b := by
  obtain ⟨q, hq, hs⟩ := hc.admissible h.1 (key a) h.2
  obtain rfl := Option.some.inj ((hc.find_of_mem ha).symm.trans hq)
  exact hs

end Order

/-! ### Frontiers are the maximal nodes -/

/-- The choice of nodes does not tell apart what shares a scope. -/
def RespectsScope (inScope : α → Bool) : Prop :=
  ∀ a b : α, SameScope a b → inScope a = inScope b

/-- A node of the scope that nothing descends from. -/
def Maximal (log : List α) (inScope : α → Bool) (a : α) : Prop :=
  a ∈ log ∧ inScope a = true ∧ ∀ b, ¬ Descends log a b

variable [LinearOrder ι]

/-- The keys of a frontier are in strictly increasing order. -/
theorem frontier_keys_lt {log : List α} (hn : (log.map key).Nodup) (inScope : α → Bool) :
    ((frontier log inScope).map key).Pairwise (· < ·) := by
  have hle : ((frontier log inScope).map key).Pairwise (· ≤ ·) :=
    List.pairwise_map.mpr (frontier_sorted log inScope)
  exact (hle.and (frontier_keys_nodup hn inScope)).imp fun h => lt_of_le_of_ne h.1 h.2

/-- What the tips of a scope are: the nodes nothing descends from, in the order of their
keys. Every node of the scope is a tip or has a tip among its descendants. -/
structure Tips (log : List α) (inScope : α → Bool) (tips : List α) : Prop where
  mem (a : α) : a ∈ tips ↔ Maximal log inScope a
  increasing : (tips.map key).Pairwise (· < ·)
  nonempty : (∃ a ∈ log, inScope a = true) → tips ≠ []
  unrelated : ∀ a ∈ tips, ∀ b ∈ tips, ¬ Descends log a b
  covers : ∀ a ∈ log, inScope a = true → ∃ b ∈ tips, a = b ∨ Descends log a b

variable [DecidableEq ι]

/-- Nothing links to a node of the frontier, in any scope. -/
theorem Causal.mem_frontier_iff {log : List α} (hc : Causal log) {inScope : α → Bool}
    (hs : RespectsScope inScope) {a : α} : a ∈ frontier log inScope ↔
      a ∈ log ∧ inScope a = true ∧ ∀ b, ¬ Link log a b := by
  rw [mem_frontier]
  refine and_congr_right fun ha => and_congr_right fun hin => ?_
  constructor
  · intro hmax b hl
    exact hmax b hl.1 ((hs a b (hc.link_scope ha hl)).symm.trans hin) hl.2
  · intro hmax b hb _ hp
    exact hmax b ⟨hb, hp⟩

/-- **Every node leads to the frontier.** The induction is on what the log holds after the
node: a link goes forward, so it leaves less. -/
theorem Causal.exists_frontier {log : List α} (hc : Causal log) {inScope : α → Bool}
    (hs : RespectsScope inScope) {a : α} (ha : a ∈ log) (hin : inScope a = true) :
    ∃ b ∈ frontier log inScope, a = b ∨ Descends log a b := by
  induction hn : log.length - position log a using Nat.strong_induction_on generalizing a with
  | _ n ih =>
      by_cases hmax : ∀ b, ¬ Link log a b
      · exact ⟨a, (hc.mem_frontier_iff hs).mpr ⟨ha, hin, hmax⟩, Or.inl rfl⟩
      · push Not at hmax
        obtain ⟨c, hl⟩ := hmax
        have hlt := hc.link_lt hl
        have hcl := position_lt hl.1
        have hcin := (hs a c (hc.link_scope ha hl)).symm.trans hin
        obtain ⟨b, hb, hcb⟩ := ih (log.length - position log c) (by omega) hl.1 hcin rfl
        refine ⟨b, hb, Or.inr ?_⟩
        rcases hcb with rfl | hcb
        · exact Relation.TransGen.single hl
        · exact Relation.TransGen.head hl hcb

/-- **A frontier is made of the maximal nodes of its scope.** -/
theorem Causal.tips {log : List α} (hc : Causal log) {inScope : α → Bool}
    (hs : RespectsScope inScope) : Tips log inScope (frontier log inScope) where
  mem a := by rw [hc.mem_frontier_iff hs, no_link_iff, Maximal]
  increasing := frontier_keys_lt hc.nodup inScope
  nonempty := by
    rintro ⟨a, ha, hin⟩ hnil
    obtain ⟨b, hb, -⟩ := hc.exists_frontier hs ha hin
    rw [hnil] at hb
    cases hb
  unrelated a ha b _ := no_link_iff.mp ((hc.mem_frontier_iff hs).mp ha).2.2 b
  covers a ha hin := hc.exists_frontier hs ha hin

omit [DecidableEq ι] in
/-- The frontier of a log's image is the image of its frontier. -/
theorem Embedding.mem_frontier {β : Type u'} {κ : Type v'} [CausalNode β κ] [LinearOrder κ]
    {f : α → β} {g : ι → κ} {dom : α → Prop} (h : Embedding f g dom) {log : List α}
    {inScope : α → Bool} {inScope' : β → Bool} (hscope : ∀ a, inScope' (f a) = inScope a) {b : β} :
    b ∈ frontier (log.map f) inScope' ↔ ∃ a ∈ frontier log inScope, f a = b := by
  have hparent : ∀ a c : α, CausalNode.key (f a) ∈ CausalNode.parents (f c) ↔
      CausalNode.key a ∈ CausalNode.parents c := by
    intro a c
    rw [h.key, h.parents]
    constructor
    · rintro ⟨q, hq, hk⟩
      rwa [h.parent_inj a c q hq hk.symm]
    · intro hp
      exact ⟨_, hp, rfl⟩
  have hiff : ∀ a, a ∈ log → (f a ∈ frontier (log.map f) inScope' ↔ a ∈ frontier log inScope) := by
    intro a ha
    simp only [CausalLog.mem_frontier, List.forall_mem_map, hscope, hparent,
      List.mem_map_of_mem ha, ha, true_and]
  constructor
  · intro hb
    obtain ⟨a, ha, rfl⟩ := List.mem_map.mp (CausalLog.mem_frontier.mp hb).1
    exact ⟨a, (hiff a ha).mp hb, rfl⟩
  · rintro ⟨a, ha, rfl⟩
    exact (hiff a (CausalLog.mem_frontier.mp ha).1).mpr ha

/-! ### Resolving what was seen -/

/-- What `r` does to a frontier that showed `seen` when `r` was made, and shows `log` when it
arrives: it takes the place of what was seen. -/
structure Resolved (seen log after : List α) (r : α) (inScope : α → Bool) : Prop where
  mem (a : α) : a ∈ frontier after inScope ↔
    a ∈ frontier log inScope ∧ a ∉ frontier seen inScope ∨ a = r
  superseded : ∀ a ∈ seen, inScope a = true → a ∉ frontier after inScope
  survives : ∀ a ∈ frontier log inScope, a ∉ seen → a ∈ frontier after inScope

omit [DecidableEq ι] in
/-- A node of a shorter log that a longer one shows is shown by the shorter one. -/
theorem frontier_of_subset {seen log : List α} {inScope : α → Bool} (hsub : ∀ a ∈ seen, a ∈ log)
    {a : α} (ha : a ∈ seen) (hf : a ∈ frontier log inScope) : a ∈ frontier seen inScope := by
  obtain ⟨-, hin, hmax⟩ := mem_frontier.mp hf
  exact mem_frontier.mpr ⟨ha, hin, fun b hb => hmax b (hsub b hb)⟩

/-- A resolution is admissible wherever its parents are. -/
theorem Causal.snoc_resolution {seen log : List α} (hc : Causal log)
    (hsub : ∀ a ∈ seen, a ∈ log) {r : α} {inScope : α → Bool} (hnew : ∀ a ∈ log, key a ≠ key r)
    (hparents : ∀ k, k ∈ parents r ↔ k ∈ (frontier seen inScope).map key)
    (hscope : ∀ a, inScope a = true → SameScope a r) : Causal (log ++ [r]) := by
  refine Causal.snoc hc (find_eq_none.mpr hnew) fun p hp => ?_
  obtain ⟨s, hs, rfl⟩ := List.mem_map.mp ((hparents p).mp hp)
  obtain ⟨hmem, hin, -⟩ := mem_frontier.mp hs
  exact ⟨s, hc.find_of_mem (hsub s hmem), hscope s hin⟩

/-- **A resolution supersedes what was seen and nothing else.** -/
theorem Causal.resolved {seen log after : List α} (hc : Causal log)
    (hsub : ∀ a ∈ seen, a ∈ log) {r : α} {inScope : α → Bool} (hin : inScope r = true)
    (hnew : ∀ a ∈ log, key a ≠ key r)
    (hparents : ∀ k, k ∈ parents r ↔ k ∈ (frontier seen inScope).map key)
    (hafter : after.Perm (log ++ [r])) : Resolved seen log after r inScope := by
  have hmem : ∀ a, a ∈ after ↔ a ∈ log ∨ a = r := by
    intro a
    rw [hafter.mem_iff, List.mem_append, List.mem_singleton]
  have hseen : ∀ a ∈ log, key a ∈ parents r → a ∈ frontier seen inScope := by
    intro a ha hp
    obtain ⟨s, hs, hkey⟩ := List.mem_map.mp ((hparents _).mp hp)
    have hsl := hsub s (mem_frontier.mp hs).1
    rwa [List.inj_on_of_nodup_map hc.nodup hsl ha hkey] at hs
  have hrlog : ∀ b ∈ log, key r ∉ parents b := by
    intro b hb hp
    obtain ⟨q, hq, -⟩ := hc.admissible hb _ hp
    exact hnew q (mem_of_find hq) (key_of_find hq)
  have hself : key r ∉ parents r := by
    intro hp
    obtain ⟨s, hs, hkey⟩ := List.mem_map.mp ((hparents _).mp hp)
    exact hnew s (hsub s (mem_frontier.mp hs).1) hkey
  have hchar : ∀ a, a ∈ frontier after inScope ↔
      a ∈ frontier log inScope ∧ a ∉ frontier seen inScope ∨ a = r := by
    intro a
    constructor
    · intro hf
      obtain ⟨ha, hina, hmax⟩ := mem_frontier.mp hf
      rcases (hmem a).mp ha with ha | rfl
      · refine Or.inl ⟨?_, fun hs => ?_⟩
        · exact mem_frontier.mpr ⟨ha, hina, fun b hb => hmax b ((hmem b).mpr (Or.inl hb))⟩
        · exact hmax r ((hmem r).mpr (Or.inr rfl)) hin
            ((hparents _).mpr (List.mem_map_of_mem hs))
      · exact Or.inr rfl
    · rintro (⟨hf, hs⟩ | rfl)
      · obtain ⟨ha, hina, hmax⟩ := mem_frontier.mp hf
        refine mem_frontier.mpr ⟨(hmem a).mpr (Or.inl ha), hina, fun b hb hbin hp => ?_⟩
        rcases (hmem b).mp hb with hb | rfl
        · exact hmax b hb hbin hp
        · exact hs (hseen a ha hp)
      · refine mem_frontier.mpr ⟨(hmem a).mpr (Or.inr rfl), hin, fun b hb _ hp => ?_⟩
        rcases (hmem b).mp hb with hb | rfl
        · exact hrlog b hb hp
        · exact hself hp
  refine { mem := hchar, superseded := ?_, survives := ?_ }
  · intro a ha hina hf
    rcases (hchar a).mp hf with ⟨hlog, hs⟩ | rfl
    · exact hs (frontier_of_subset hsub ha hlog)
    · exact hnew a (hsub a ha) rfl
  · intro a hf hs
    exact (hchar a).mpr (Or.inl ⟨hf, fun h => hs (mem_frontier.mp h).1⟩)

omit [DecidableEq ι] in
/-- A node leaves the frontiers of other scopes as they were. -/
theorem frontier_other {log after : List α} {r : α} {inScope : α → Bool} (hout : inScope r = false)
    (hn : (after.map key).Nodup) (hafter : after.Perm (log ++ [r])) :
    frontier after inScope = frontier log inScope := by
  rw [frontier_perm hafter hn]
  have hfil : (log ++ [r]).filter inScope = log.filter inScope := by simp [hout]
  rw [frontier, frontier, superseded, superseded, hfil]

end Syncraft.CausalLog
