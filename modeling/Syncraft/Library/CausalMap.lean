import Mathlib.Data.List.Induction
import Syncraft.Library.CausalLog

/-!
# Syncraft.Library.CausalMap

**Causal logs seen from two sides.** The same nodes may be held in two forms, such as a
program's own and its peer's. An `Embedding` rewrites one form into the other without
confusing keys, parents or scopes; where it does not confuse contents either (`dom`), a log
and its image admit the same batches (`admitAll_map`), and one is causal when the other is
(`causal_map`).

`admitAll_filter` is about two logs that share their nodes: what one holds and the other
lacks can be sent over in order.
-/

namespace Syncraft.CausalLog

open CausalNode (key parents)

universe u v u' v'

section Embedding

variable {α : Type u} {ι : Type v} [CausalNode α ι] {β : Type u'} {κ : Type v'} [CausalNode β κ]

/-- `f` rewrites nodes and `g` their keys. -/
structure Embedding (f : α → β) (g : ι → κ) (dom : α → Prop) : Prop where
  key (a : α) : key (f a) = g (key a)
  parents (a : α) (p : κ) : p ∈ parents (f a) ↔ ∃ q ∈ parents a, g q = p
  /-- Two nodes keep their keys apart. -/
  key_inj (a b : α) : g (CausalNode.key a) = g (CausalNode.key b) →
    CausalNode.key a = CausalNode.key b
  /-- A node's key and another's parent are kept apart as well. -/
  parent_inj (a b : α) (p : ι) : p ∈ CausalNode.parents b → g (CausalNode.key a) = g p →
    CausalNode.key a = p
  scope (a b : α) : SameScope (f a) (f b) ↔ SameScope a b
  same (a b : α) : dom a → dom b → (Same (f a) (f b) ↔ Same a b)

variable [DecidableEq ι] [DecidableEq κ] {f : α → β} {g : ι → κ} {dom : α → Prop}

theorem find_map {k : ι} (hk : ∀ a : α, key (f a) = g k ↔ key a = k) (log : List α) :
    find (log.map f) (g k) = (find log k).map f := by
  rw [find, find, List.find?_map]
  congr 2
  funext a
  simp [hk]

/-- Looking up a node's key. -/
theorem Embedding.find_key (h : Embedding f g dom) (log : List α) (a : α) :
    find (log.map f) (CausalNode.key (f a)) = (find log (CausalNode.key a)).map f := by
  rw [h.key]
  refine find_map (fun b => ?_) log
  rw [h.key]
  exact ⟨h.key_inj b a, congrArg g⟩

/-- Looking up a parent. -/
theorem Embedding.find_parent (h : Embedding f g dom) (log : List α) {a : α} {p : ι}
    (hp : p ∈ CausalNode.parents a) : find (log.map f) (g p) = (find log p).map f := by
  refine find_map (fun b => ?_) log
  rw [h.key]
  exact ⟨h.parent_inj b a p hp, congrArg g⟩

theorem Embedding.admissible (h : Embedding f g dom) {log : List α} {a : α} :
    Admissible (log.map f) (f a) ↔ Admissible log a := by
  constructor
  · intro hadm p hp
    obtain ⟨q, hq, hs⟩ := hadm (g p) ((h.parents a _).mpr ⟨p, hp, rfl⟩)
    rw [h.find_parent log hp] at hq
    obtain ⟨b, hb, rfl⟩ := Option.map_eq_some_iff.mp hq
    exact ⟨b, hb, (h.scope b a).mp hs⟩
  · intro hadm p hp
    obtain ⟨q, hq, rfl⟩ := (h.parents a p).mp hp
    obtain ⟨b, hb, hs⟩ := hadm q hq
    refine ⟨f b, ?_, (h.scope b a).mpr hs⟩
    rw [h.find_parent log hq, hb]
    rfl

theorem Embedding.admitOne_map (h : Embedding f g dom) {log : List α} {a : α}
    (hlog : ∀ b ∈ log, dom b) (ha : dom a) :
    admitOne (log.map f) (f a) = (admitOne log a).map (List.map f) := by
  have hfind := h.find_key log a
  cases hf : find log (CausalNode.key a) with
  | some old =>
      rw [hf] at hfind
      have hsame := h.same old a (hlog old (mem_of_find hf)) ha
      by_cases hs : Same old a
      · rw [admitOne_replay hf hs, admitOne_replay hfind (hsame.mpr hs)]
        rfl
      · rw [admitOne_conflict hf hs, admitOne_conflict hfind (mt hsame.mp hs)]
        rfl
  | none =>
      rw [hf] at hfind
      by_cases hadm : Admissible log a
      · rw [admitOne_fresh hf hadm, admitOne_fresh hfind (h.admissible.mpr hadm)]
        simp [Except.map]
      · rw [admitOne_orphan hf hadm, admitOne_orphan hfind (mt h.admissible.mp hadm)]
        rfl

/-- **A log and its image admit the same batches**, with results that are images too. -/
theorem Embedding.admitAll_map (h : Embedding f g dom) {log batch : List α}
    (hlog : ∀ b ∈ log, dom b) (hbatch : ∀ a ∈ batch, dom a) :
    admitAll (log.map f) (batch.map f) = (admitAll log batch).map (List.map f) := by
  induction batch generalizing log with
  | nil => rfl
  | cons a rest ih =>
      have hone := h.admitOne_map hlog (hbatch a List.mem_cons_self)
      simp only [List.map_cons]
      cases ha : admitOne log a with
      | error e =>
          rw [ha] at hone
          rw [admitAll_cons_error ha, admitAll_cons_error hone]
          rfl
      | ok mid =>
          rw [ha] at hone
          rw [admitAll_cons_ok ha, admitAll_cons_ok hone]
          refine ih (fun b hb => ?_) fun b hb => hbatch b (List.mem_cons_of_mem _ hb)
          rcases admitOne_ok ha with ⟨-, -, -, rfl⟩ | ⟨-, -, rfl⟩
          · exact hlog b hb
          · rcases List.mem_append.mp hb with hb | hb
            · exact hlog b hb
            · rw [List.mem_singleton.mp hb]
              exact hbatch a List.mem_cons_self

/-- One side is causal when the other is. -/
theorem Embedding.causal_map (h : Embedding f g dom) {log : List α} :
    Causal (log.map f) ↔ Causal log := by
  induction log using List.reverseRecOn with
  | nil => exact ⟨fun _ => Causal.nil, fun _ => Causal.nil⟩
  | append_singleton log a ih =>
      have hfind := h.find_key log a
      simp only [List.map_append, List.map_singleton]
      constructor
      · intro hc
        obtain ⟨hnone, hadm⟩ := hc.last
        rw [hfind, Option.map_eq_none_iff] at hnone
        exact Causal.snoc (ih.mp (hc.of_extends (List.prefix_append _ _))) hnone
          (h.admissible.mp hadm)
      · intro hc
        obtain ⟨hnone, hadm⟩ := hc.last
        refine Causal.snoc (ih.mpr (hc.of_extends (List.prefix_append _ _))) ?_
          (h.admissible.mpr hadm)
        rw [hfind, hnone]
        rfl

end Embedding

section Filter

variable {α : Type u} {ι : Type v} [CausalNode α ι] [DecidableEq ι]

/-- **Sending over what is missing.** Of a causal log, the nodes selected are admitted in
their order by any log that holds the others and disagrees about none. -/
theorem admitAll_filter {log tbl : List α} {sel : α → Bool} (hc : Causal tbl)
    (hheld : ∀ a ∈ tbl, sel a = false → ∃ x, find log (key a) = some x ∧ Same x a)
    (hag : ∀ a ∈ tbl, Agrees log a) :
    ∃ r, admitAll log (tbl.filter sel) = .ok r ∧ Covers tbl r := by
  induction hc with
  | nil => exact ⟨log, rfl, fun k x hx => by cases hx⟩
  | @snoc tbl a hc hf hadm ih =>
      obtain ⟨r, hr, hcov⟩ := ih (fun b hb => hheld b (List.mem_append_left _ hb))
        fun b hb => hag b (List.mem_append_left _ hb)
      have hmem : a ∈ tbl ++ [a] := List.mem_append_right _ (List.mem_singleton_self a)
      -- Once the node itself is held, the longer log is covered.
      have covers : ∀ {r' : List α}, r <+: r' → (∃ x, find r' (key a) = some x ∧ Same x a) →
          Covers (tbl ++ [a]) r' := by
        rintro r' hpre ⟨x, hx, hxa⟩ k y hy
        rcases find_snoc hy with hy | ⟨-, rfl, rfl⟩
        · obtain ⟨z, hz, hyz⟩ := hcov k y hy
          exact ⟨z, find_of_extends hpre hz, hyz⟩
        · exact ⟨x, hx, hxa.symm⟩
      rw [List.filter_append, admitAll_append hr]
      cases hsel : sel a with
      | false =>
          obtain ⟨x, hx, hxa⟩ := hheld a hmem hsel
          have hnil : [a].filter sel = [] := by simp [hsel]
          rw [hnil]
          exact ⟨r, rfl, covers List.prefix_rfl ⟨x, find_of_extends (admitAll_grows hr) hx, hxa⟩⟩
      | true =>
          have hone : [a].filter sel = [a] := by simp [hsel]
          have hok : ∃ r', admitOne r a = .ok r' := by
            cases hfr : find r (key a) with
            | none => exact ⟨_, admitOne_fresh hfr (hcov.admissible hadm)⟩
            | some y =>
                refine ⟨_, admitOne_replay hfr ?_⟩
                rcases admitAll_find hr hfr with hlog | hbatch
                · exact hag a hmem y hlog
                · exact absurd (key_of_find hfr)
                    (find_eq_none.mp hf y (List.mem_filter.mp hbatch).1)
          obtain ⟨r', hr'⟩ := hok
          rw [hone, admitAll_cons_ok hr']
          exact ⟨r', rfl, covers (admitOne_grows hr') (admitOne_holds hr')⟩

end Filter

end Syncraft.CausalLog
