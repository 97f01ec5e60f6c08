import Syncraft.Library.Ancestry

/-!
# Syncraft.Library.Join

**Joining causal logs.** Two logs that give no key different contents can be joined by admitting
one into the other. The join holds what either holds (`held_admitAll`), and its frontier is the
one a multi-value register promises (`held_frontier_join`): a node that both logs show, or
that one shows and the other has never seen. Nodes are compared up to `Same`.
-/

namespace Syncraft.CausalLog

open CausalNode (key parents)

universe u v

variable {α : Type u} {ι : Type v} [CausalNode α ι]

/-- No key has different contents in the two logs. -/
def Compatible (a b : List α) : Prop := ∀ x ∈ a, ∀ y ∈ b, key x = key y → Same x y

theorem Compatible.symm {a b : List α} (h : Compatible a b) : Compatible b a :=
  fun x hx y hy hk => (h y hy x hx hk.symm).symm

/-- A node of the scope names the key as a parent. -/
def Superseded (log : List α) (inScope : α → Bool) (k : ι) : Prop :=
  ∃ y ∈ log, inScope y = true ∧ k ∈ parents y

section Join

variable [DecidableEq ι]

theorem agrees_iff {log : List α} (hc : Causal log) {a : α} :
    Agrees log a ↔ ∀ x ∈ log, key x = key a → Same x a := by
  constructor
  · intro h x hx hk
    exact h x (hk ▸ hc.find_of_mem hx)
  · intro h y hy
    exact h y (mem_of_find hy) (key_of_find hy)

/-- **Compatible logs join.** -/
theorem admitAll_join {a b : List α} (ha : Causal a) (hb : Causal b) (h : Compatible a b) :
    ∃ r, admitAll a b = .ok r := by
  have hcov : Covers [] a := fun k x hx => by cases hx
  rcases admitAll_later hcov hb.admitAll_eq with ⟨⟨r, hr, -⟩, -⟩ | ⟨-, y, hy, hnot⟩
  · exact ⟨r, hr⟩
  · exact absurd ((agrees_iff ha).mpr fun x hx hk => h x hx y hy hk) hnot

/-- Logs that are not are refused as a conflict. -/
theorem admitAll_incompatible {a b : List α} (ha : Causal a) (hb : Causal b)
    (h : ¬ Compatible a b) : admitAll a b = .error .conflict := by
  have hcov : Covers [] a := fun k x hx => by cases hx
  rcases admitAll_later hcov hb.admitAll_eq with ⟨-, hag⟩ | ⟨hcon, -⟩
  · exact absurd (fun x hx y hy hk => (agrees_iff ha).mp (hag y hy) x hx hk) h
  · exact hcon

/-- What is compatible with both sides is compatible with their join. -/
theorem Compatible.join {a b c r : List α} (h : admitAll a b = .ok r)
    (hac : Compatible a c) (hbc : Compatible b c) : Compatible r c := by
  intro x hx y hy hk
  rcases mem_of_admitAll h hx with hx | hx
  · exact hac x hx y hy hk
  · exact hbc x hx y hy hk

/-- A join supersedes what either side supersedes. -/
theorem superseded_join {a b r : List α} (h : admitAll a b = .ok r)
    {inScope : α → Bool} (hscope : ∀ x y : α, Same x y → inScope x = inScope y) {k : ι} :
    Superseded r inScope k ↔ Superseded a inScope k ∨ Superseded b inScope k := by
  constructor
  · rintro ⟨y, hy, hin, hp⟩
    rcases mem_of_admitAll h hy with hy | hy
    · exact Or.inl ⟨y, hy, hin, hp⟩
    · exact Or.inr ⟨y, hy, hin, hp⟩
  · rintro (⟨y, hy, hin, hp⟩ | ⟨y, hy, hin, hp⟩)
    · exact ⟨y, (admitAll_grows h).subset hy, hin, hp⟩
    · obtain ⟨z, hz, hs⟩ := admitAll_holds h hy
      exact ⟨z, mem_of_find hz, (hscope z y hs).trans hin,
        (CausalNode.parents_of_same hs k).mpr hp⟩

/-- What a log has never seen, it does not supersede: parents are held. -/
theorem Causal.held_of_superseded {a b : List α} (hb : Causal b) (hab : Compatible a b)
    {inScope : α → Bool} {x : α} (hx : Held a x) (h : Superseded b inScope (key x)) :
    Held b x := by
  obtain ⟨y, hy, -, hp⟩ := h
  obtain ⟨q, hq, -⟩ := hb.admissible hy _ hp
  obtain ⟨z, hz, hs⟩ := hx
  have hsame := hab z hz q (mem_of_find hq) ((CausalNode.key_of_same hs).trans (key_of_find hq).symm)
  exact ⟨q, mem_of_find hq, hsame.symm.trans hs⟩

/-- Nodes that one batch has brought in agree with all that is held then. -/
theorem same_of_admitted {log r batch : List α} (hc : Causal log) (h : admitAll log batch = .ok r)
    {a x : α} (ha : a ∈ batch) (hx : x ∈ log ∨ x ∈ batch) (hk : key x = key a) : Same x a := by
  obtain ⟨y, hy, hya⟩ := admitAll_holds h ha
  rcases hx with hx | hx
  · have hfind := find_of_extends (admitAll_grows h) (hc.find_of_mem hx)
    rw [hk, hy] at hfind
    exact Option.some.inj hfind ▸ hya
  · obtain ⟨z, hz, hzx⟩ := admitAll_holds h hx
    rw [hk, hy] at hz
    obtain rfl := Option.some.inj hz
    exact hzx.symm.trans hya

/-- A batch whose new nodes extend the log causally is admitted. -/
theorem admitAll_of_causal {log batch : List α}
    (hc : Causal (log ++ unseen (log.map key) batch))
    (hag : ∀ a ∈ batch, ∀ x, x ∈ log ∨ x ∈ batch → key x = key a → Same x a) :
    admitAll log batch = .ok (log ++ unseen (log.map key) batch) := by
  induction batch generalizing log with
  | nil => simp [admitAll, unseen]
  | cons a rest ih =>
      have hrest : ∀ b ∈ rest, ∀ x, x ∈ log ∨ x ∈ rest → key x = key b → Same x b :=
        fun b hb x hx => hag b (List.mem_cons_of_mem _ hb) x (hx.imp_right (List.mem_cons_of_mem _))
      by_cases hseen : key a ∈ log.map key
      · have hskip : unseen (log.map key) (a :: rest) = unseen (log.map key) rest := by
          rw [unseen, if_pos hseen]
        obtain ⟨x, hx⟩ := mem_map_key.mp hseen
        have hsame := hag a List.mem_cons_self x (Or.inl (mem_of_find hx)) (key_of_find hx)
        rw [hskip] at hc ⊢
        rw [admitAll_cons_ok (admitOne_replay hx hsame)]
        exact ih hc hrest
      · have hadd : log ++ unseen (log.map key) (a :: rest) =
            (log ++ [a]) ++ unseen ((log ++ [a]).map key) rest := by
          rw [unseen, if_neg hseen]
          simp
        rw [hadd] at hc ⊢
        obtain ⟨hf, hadm⟩ := (hc.of_extends (List.prefix_append _ _)).last
        rw [admitAll_cons_ok (admitOne_fresh hf hadm)]
        refine ih hc fun b hb x hx hk => ?_
        have hx' : x ∈ log ∨ x ∈ a :: rest := by
          simp only [List.mem_append, List.mem_singleton] at hx
          rcases hx with (hx | rfl) | hx
          · exact Or.inl hx
          · exact Or.inr List.mem_cons_self
          · exact Or.inr (List.mem_cons_of_mem _ hx)
        exact hag b (List.mem_cons_of_mem _ hb) x hx' hk

end Join

section Frontier

variable [LinearOrder ι]

/-- Logs that hold the same nodes show the same keys. -/
theorem frontier_keys_of_held {log log' : List α} (hn : (log.map key).Nodup)
    (hn' : (log'.map key).Nodup) (h : ∀ a, Held log a ↔ Held log' a) {inScope : α → Bool}
    (hscope : ∀ a b : α, Same a b → inScope a = inScope b) :
    (frontier log inScope).map key = (frontier log' inScope).map key := by
  refine frontier_keys hn hn' (fun a ha => ?_) (fun b hb => ?_) hscope
  · obtain ⟨x, hx, hs⟩ := (h a).mp ⟨a, ha, Same.refl a⟩
    exact ⟨x, hx, hs.symm⟩
  · obtain ⟨x, hx, hs⟩ := (h b).mpr ⟨b, hb, Same.refl b⟩
    exact ⟨x, hx, hs.symm⟩

/-- A frontier holds what the log holds and nothing supersedes. -/
theorem held_frontier {log : List α} {inScope : α → Bool}
    (hscope : ∀ a b : α, Same a b → inScope a = inScope b) {x : α} :
    Held (frontier log inScope) x ↔
      Held log x ∧ inScope x = true ∧ ¬ Superseded log inScope (key x) := by
  constructor
  · rintro ⟨y, hy, hs⟩
    obtain ⟨hmem, hin, hmax⟩ := mem_frontier.mp hy
    refine ⟨⟨y, hmem, hs⟩, (hscope y x hs) ▸ hin, ?_⟩
    rintro ⟨z, hz, hzin, hp⟩
    exact hmax z hz hzin (CausalNode.key_of_same hs ▸ hp)
  · rintro ⟨⟨y, hy, hs⟩, hin, hnot⟩
    refine ⟨y, mem_frontier.mpr ⟨hy, (hscope y x hs) ▸ hin, fun z hz hzin hp => ?_⟩, hs⟩
    exact hnot ⟨z, hz, hzin, CausalNode.key_of_same hs ▸ hp⟩

variable [DecidableEq ι]

/-- **The frontier of a join.** It shows what both sides show, and what one side shows and
the other has never seen. -/
theorem held_frontier_join {a b r : List α} (ha : Causal a) (hb : Causal b)
    (hab : Compatible a b) (h : admitAll a b = .ok r) {inScope : α → Bool}
    (hscope : ∀ x y : α, Same x y → inScope x = inScope y) {x : α} :
    Held (frontier r inScope) x ↔
      Held (frontier a inScope) x ∧ (Held (frontier b inScope) x ∨ ¬ Held b x) ∨
        Held (frontier b inScope) x ∧ (Held (frontier a inScope) x ∨ ¬ Held a x) := by
  have hleft : Held a x → Superseded b inScope (key x) → Held b x := hb.held_of_superseded hab
  have hright : Held b x → Superseded a inScope (key x) → Held a x :=
    ha.held_of_superseded hab.symm
  simp only [held_frontier hscope, held_admitAll h, superseded_join h hscope]
  tauto

end Frontier

end Syncraft.CausalLog
