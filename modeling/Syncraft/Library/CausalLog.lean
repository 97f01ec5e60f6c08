import Mathlib.Data.List.Basic
import Mathlib.Data.List.Forall2
import Mathlib.Logic.Relation

/-!
# Syncraft.Library.CausalLog

**Grow-only causal logs.** A node has a key, names the keys of its parents, and lives in
a scope. A log admits a node in one of two ways: a node it already holds under that key
is a *replay* and changes nothing; a node with a new key is appended, provided every
parent is already held, in the node's own scope. Anything else is rejected: other content
under a held key is a `conflict`, a missing or foreign parent an `orphan`.

`Same` says when two nodes are one node sent twice. It may be coarser than equality (a
sender may list the parents in another order), so results are stated up to `Same`:

* `admitAll_causal`: admission keeps the log causal (`Causal`);
* `held_admitAll`: the log then holds what it held before and what it was sent;
* `admitAll_later`: what one log admits, every log that covers it admits as well, unless
  a key has been given other content in between;
* `admitAll_commute`: two batches one log admits can be admitted in either order;
* `admitAll_sends`: replays mixed into a stream of nodes change nothing.
-/

namespace Syncraft.CausalLog

universe u v

/-- A node of a causal log: its key, its parents' keys, and when two nodes are the same
node sent twice or share a scope. -/
class CausalNode (α : Type u) (ι : outParam (Type v)) where
  /-- The key the node is held under. -/
  key : α → ι
  /-- The keys of the nodes this one was made after. -/
  parents : α → List ι
  /-- The two are one node, sent twice. -/
  same : α → α → Bool
  /-- The two live in one scope. -/
  sameScope : α → α → Bool
  same_refl (a : α) : same a a = true
  same_symm {a b : α} : same a b = true → same b a = true
  same_trans {a b c : α} : same a b = true → same b c = true → same a c = true
  scope_trans {a b c : α} : sameScope a b = true → sameScope b c = true → sameScope a c = true
  key_of_same {a b : α} : same a b = true → key a = key b
  scope_of_same {a b : α} : same a b = true → sameScope a b = true
  parents_of_same {a b : α} : same a b = true → ∀ p, p ∈ parents a ↔ p ∈ parents b

open CausalNode (key parents)

variable {α : Type u} {ι : Type v} [CausalNode α ι]

/-- The two are one node, sent twice. -/
def Same (a b : α) : Prop := CausalNode.same a b = true

/-- The two live in one scope. -/
def SameScope (a b : α) : Prop := CausalNode.sameScope a b = true

instance (a b : α) : Decidable (Same a b) := inferInstanceAs (Decidable (_ = true))

instance (a b : α) : Decidable (SameScope a b) := inferInstanceAs (Decidable (_ = true))

theorem Same.refl (a : α) : Same a a := CausalNode.same_refl a

theorem Same.symm {a b : α} (h : Same a b) : Same b a := CausalNode.same_symm h

theorem Same.trans {a b c : α} (h : Same a b) (h' : Same b c) : Same a c :=
  CausalNode.same_trans h h'

theorem Same.scope {a b : α} (h : Same a b) : SameScope a b := CausalNode.scope_of_same h

theorem SameScope.trans {a b c : α} (h : SameScope a b) (h' : SameScope b c) : SameScope a c :=
  CausalNode.scope_trans h h'

/-- The log holds the node, up to `Same`. -/
def Held (log : List α) (a : α) : Prop := ∃ x ∈ log, Same x a

instance (log : List α) (a : α) : Decidable (Held log a) :=
  inferInstanceAs (Decidable (∃ x ∈ log, Same x a))

theorem Held.of_mem {log : List α} {a : α} (h : a ∈ log) : Held log a := ⟨a, h, Same.refl a⟩

/-- What a log holds, every log that holds all of its nodes holds. -/
theorem Held.trans {log log' : List α} {a : α} (h : Held log a) (h' : ∀ x ∈ log, Held log' x) :
    Held log' a := by
  obtain ⟨x, hx, hxa⟩ := h
  obtain ⟨y, hy, hyx⟩ := h' x hx
  exact ⟨y, hy, hyx.trans hxa⟩

/-- The two logs list the same nodes in the same order, up to `Same`. -/
def Alike (log log' : List α) : Prop := List.Forall₂ Same log log'

theorem Alike.refl (log : List α) : Alike log log :=
  List.forall₂_same.mpr fun a _ => Same.refl a

theorem Alike.symm {log log' : List α} (h : Alike log log') : Alike log' log :=
  List.Forall₂.flip (List.Forall₂.imp (fun _ _ hab => hab.symm) h)

theorem Alike.trans {l₁ l₂ l₃ : List α} (h : Alike l₁ l₂) (h' : Alike l₂ l₃) :
    Alike l₁ l₃ := by
  induction h generalizing l₃ with
  | nil => cases h'; exact List.Forall₂.nil
  | cons hab _ ih =>
      cases h' with
      | cons hbc htail => exact List.Forall₂.cons (hab.trans hbc) (ih htail)

variable [DecidableEq ι]

/-! ### Lookup -/

/-- The node a log holds under a key. -/
def find (log : List α) (k : ι) : Option α := log.find? (fun a => key a = k)

theorem find_append (log log' : List α) (k : ι) :
    find (log ++ log') k = (find log k).or (find log' k) :=
  List.find?_append

theorem key_of_find {log : List α} {k : ι} {a : α} (h : find log k = some a) : key a = k := by
  simpa using List.find?_some h

theorem mem_of_find {log : List α} {k : ι} {a : α} (h : find log k = some a) : a ∈ log :=
  List.mem_of_find?_eq_some h

theorem find_eq_none {log : List α} {k : ι} : find log k = none ↔ ∀ a ∈ log, key a ≠ k := by
  simp [find]

/-- What a log holds, every extension of it holds. -/
theorem find_of_extends {log log' : List α} (h : log <+: log') {k : ι} {a : α}
    (hf : find log k = some a) : find log' k = some a := by
  obtain ⟨t, rfl⟩ := h
  rw [find_append, hf, Option.some_or]

theorem find_append_of_none {log : List α} {k : ι} (h : find log k = none) (log' : List α) :
    find (log ++ log') k = find log' k := by
  rw [find_append, h, Option.none_or]

theorem find_snoc_self {log : List α} {a : α} (h : find log (key a) = none) :
    find (log ++ [a]) (key a) = some a := by
  rw [find_append_of_none h]
  simp [find]

/-- Inverting a lookup after an append: the node was there before, or is the new one. -/
theorem find_snoc {log : List α} {a x : α} {k : ι} (h : find (log ++ [a]) k = some x) :
    find log k = some x ∨ find log k = none ∧ key a = k ∧ x = a := by
  cases hf : find log k with
  | some y =>
      rw [find_append, hf, Option.some_or] at h
      exact Or.inl h
  | none =>
      rw [find_append_of_none hf] at h
      have hmem := mem_of_find h
      simp only [List.mem_singleton] at hmem
      subst hmem
      exact Or.inr ⟨rfl, key_of_find h, rfl⟩

/-! ### Admission -/

/-- Every parent is held, in the node's own scope. -/
def Admissible (log : List α) (a : α) : Prop :=
  ∀ p ∈ parents a, ∃ q ∈ find log p, SameScope q a

instance (log : List α) (a : α) : Decidable (Admissible log a) :=
  inferInstanceAs (Decidable (∀ p ∈ parents a, ∃ q ∈ find log p, SameScope q a))

/-- Why a node is turned away. -/
inductive Rejection where
  /-- Its key already holds other content. -/
  | conflict
  /-- A parent is missing or lives in another scope. -/
  | orphan
  deriving DecidableEq, Repr

/-- Admit one node: replay, append, or reject. -/
def admitOne (log : List α) (a : α) : Except Rejection (List α) :=
  match find log (key a) with
  | some old => if Same old a then .ok log else .error .conflict
  | none => if Admissible log a then .ok (log ++ [a]) else .error .orphan

/-- Admit a batch in order, stopping at the first rejection. -/
def admitAll (log : List α) : List α → Except Rejection (List α)
  | [] => .ok log
  | a :: rest =>
    match admitOne log a with
    | .ok log' => admitAll log' rest
    | .error e => .error e

theorem admitAll_cons_ok {log log' : List α} {a : α} (h : admitOne log a = .ok log')
    (rest : List α) : admitAll log (a :: rest) = admitAll log' rest := by
  simp only [admitAll, h]

theorem admitAll_cons_error {log : List α} {a : α} {e : Rejection} (h : admitOne log a = .error e)
    (rest : List α) : admitAll log (a :: rest) = .error e := by
  simp only [admitAll, h]

/-- Invert an admitted batch at its first node. -/
theorem admitAll_cons {log r : List α} {a : α} {rest : List α}
    (h : admitAll log (a :: rest) = .ok r) :
    ∃ log', admitOne log a = .ok log' ∧ admitAll log' rest = .ok r := by
  cases ha : admitOne log a with
  | error e => rw [admitAll_cons_error ha] at h; cases h
  | ok log' => exact ⟨log', rfl, by rwa [admitAll_cons_ok ha] at h⟩

/-- A batch cut in two is admitted one part after the other. -/
theorem admitAll_append {log mid : List α} {b₁ : List α} (h : admitAll log b₁ = .ok mid)
    (b₂ : List α) : admitAll log (b₁ ++ b₂) = admitAll mid b₂ := by
  induction b₁ generalizing log with
  | nil => cases h; rfl
  | cons a rest ih =>
      obtain ⟨log', ha, hrest⟩ := admitAll_cons h
      rw [List.cons_append, admitAll_cons_ok ha]
      exact ih hrest

/-- Invert an admitted batch at any cut. -/
theorem admitAll_cut {log r : List α} {b₁ b₂ : List α} (h : admitAll log (b₁ ++ b₂) = .ok r) :
    ∃ mid, admitAll log b₁ = .ok mid ∧ admitAll mid b₂ = .ok r := by
  induction b₁ generalizing log with
  | nil => exact ⟨log, rfl, h⟩
  | cons a rest ih =>
      obtain ⟨log', ha, hrest⟩ := admitAll_cons h
      rw [admitAll_cons_ok ha]
      exact ih hrest

/-- Everything an admission can have done. -/
theorem admitOne_ok {log log' : List α} {a : α} (h : admitOne log a = .ok log') :
    (∃ old, find log (key a) = some old ∧ Same old a ∧ log' = log) ∨
      find log (key a) = none ∧ Admissible log a ∧ log' = log ++ [a] := by
  unfold admitOne at h
  cases hf : find log (key a) with
  | some old =>
      rw [hf] at h
      dsimp only at h
      by_cases hs : Same old a
      · rw [if_pos hs] at h
        exact Or.inl ⟨old, rfl, hs, (Except.ok.inj h).symm⟩
      · rw [if_neg hs] at h; cases h
  | none =>
      rw [hf] at h
      dsimp only at h
      by_cases hadm : Admissible log a
      · rw [if_pos hadm] at h
        exact Or.inr ⟨rfl, hadm, (Except.ok.inj h).symm⟩
      · rw [if_neg hadm] at h; cases h

/-- A replay changes nothing. -/
theorem admitOne_replay {log : List α} {a old : α} (hf : find log (key a) = some old)
    (hs : Same old a) : admitOne log a = .ok log := by
  unfold admitOne
  rw [hf]
  exact if_pos hs

theorem admitOne_fresh {log : List α} {a : α} (hf : find log (key a) = none)
    (hadm : Admissible log a) : admitOne log a = .ok (log ++ [a]) := by
  unfold admitOne
  rw [hf]
  exact if_pos hadm

theorem admitOne_conflict {log : List α} {a old : α} (hf : find log (key a) = some old)
    (hs : ¬ Same old a) : admitOne log a = .error .conflict := by
  unfold admitOne
  rw [hf]
  exact if_neg hs

theorem admitOne_orphan {log : List α} {a : α} (hf : find log (key a) = none)
    (hadm : ¬ Admissible log a) : admitOne log a = .error .orphan := by
  unfold admitOne
  rw [hf]
  exact if_neg hadm

theorem admitOne_grows {log log' : List α} {a : α} (h : admitOne log a = .ok log') :
    log <+: log' := by
  rcases admitOne_ok h with ⟨-, -, -, rfl⟩ | ⟨-, -, rfl⟩
  · exact List.prefix_rfl
  · exact List.prefix_append _ _

/-- Logs only grow. -/
theorem admitAll_grows {log r : List α} {batch : List α} (h : admitAll log batch = .ok r) :
    log <+: r := by
  induction batch generalizing log with
  | nil => cases h; exact List.prefix_rfl
  | cons a rest ih =>
      obtain ⟨log', ha, hrest⟩ := admitAll_cons h
      exact (admitOne_grows ha).trans (ih hrest)

/-- The node just admitted is held, up to `Same`. -/
theorem admitOne_holds {log log' : List α} {a : α} (h : admitOne log a = .ok log') :
    ∃ x, find log' (key a) = some x ∧ Same x a := by
  rcases admitOne_ok h with ⟨old, hf, hs, rfl⟩ | ⟨hf, -, rfl⟩
  · exact ⟨old, hf, hs⟩
  · exact ⟨a, find_snoc_self hf, Same.refl a⟩

/-- Every node of an admitted batch is held, up to `Same`. -/
theorem admitAll_holds {log r : List α} {batch : List α} (h : admitAll log batch = .ok r)
    {a : α} (ha : a ∈ batch) : ∃ x, find r (key a) = some x ∧ Same x a := by
  induction batch generalizing log with
  | nil => cases ha
  | cons b rest ih =>
      obtain ⟨log', hb, hrest⟩ := admitAll_cons h
      rcases List.mem_cons.mp ha with rfl | ha
      · obtain ⟨x, hx, hs⟩ := admitOne_holds hb
        exact ⟨x, find_of_extends (admitAll_grows hrest) hx, hs⟩
      · exact ih hrest ha

/-- What a log holds after a batch, it held before or was sent in the batch. -/
theorem admitAll_find {log r : List α} {batch : List α} (h : admitAll log batch = .ok r)
    {k : ι} {x : α} (hx : find r k = some x) : find log k = some x ∨ x ∈ batch := by
  induction batch generalizing log with
  | nil => cases h; exact Or.inl hx
  | cons b rest ih =>
      obtain ⟨log', hb, hrest⟩ := admitAll_cons h
      rcases ih hrest with hlog | hmem
      · rcases admitOne_ok hb with ⟨-, -, -, rfl⟩ | ⟨-, -, rfl⟩
        · exact Or.inl hlog
        · rcases find_snoc hlog with hlog | ⟨-, -, rfl⟩
          · exact Or.inl hlog
          · exact Or.inr List.mem_cons_self
      · exact Or.inr (List.mem_cons_of_mem _ hmem)

/-- A batch of nodes the log already holds changes nothing. -/
theorem admitAll_replay {log : List α} {batch : List α}
    (h : ∀ a ∈ batch, ∃ old, find log (key a) = some old ∧ Same old a) :
    admitAll log batch = .ok log := by
  induction batch with
  | nil => rfl
  | cons a rest ih =>
      obtain ⟨old, hf, hs⟩ := h a List.mem_cons_self
      rw [admitAll_cons_ok (admitOne_replay hf hs)]
      exact ih fun b hb => h b (List.mem_cons_of_mem _ hb)

/-- Of a batch, the nodes whose keys are new. -/
def unseen (known : List ι) : List α → List α
  | [] => []
  | a :: rest =>
    if key a ∈ known then unseen known rest else a :: unseen (known ++ [key a]) rest

theorem mem_map_key {log : List α} {k : ι} : k ∈ log.map key ↔ ∃ a, find log k = some a := by
  constructor
  · intro h
    cases hf : find log k with
    | some a => exact ⟨a, rfl⟩
    | none =>
        obtain ⟨a, ha, hk⟩ := List.mem_map.mp h
        exact absurd hk (find_eq_none.mp hf a ha)
  · rintro ⟨a, ha⟩
    exact List.mem_map.mpr ⟨a, mem_of_find ha, key_of_find ha⟩

/-- **What an admitted batch adds** is what is new in it. -/
theorem admitAll_unseen {log r : List α} {batch : List α} (h : admitAll log batch = .ok r) :
    r = log ++ unseen (log.map key) batch := by
  induction batch generalizing log with
  | nil => cases h; simp [unseen]
  | cons a rest ih =>
      obtain ⟨log', ha, hrest⟩ := admitAll_cons h
      rw [unseen, ih hrest]
      rcases admitOne_ok ha with ⟨old, hf, -, rfl⟩ | ⟨hf, -, rfl⟩
      · rw [if_pos (mem_map_key.mpr ⟨old, hf⟩)]
      · have hnew : ¬ key a ∈ log.map key := by
          simp only [mem_map_key]
          rintro ⟨b, hb⟩
          rw [hf] at hb; cases hb
        rw [if_neg hnew, List.map_append, List.map_singleton, List.append_assoc]
        rfl

theorem unseen_subset {known : List ι} {batch : List α} :
    ∀ a ∈ unseen known batch, a ∈ batch ∧ key a ∉ known := by
  induction batch generalizing known with
  | nil => simp [unseen]
  | cons b rest ih =>
      intro a ha
      rw [unseen] at ha
      by_cases hb : key b ∈ known
      · rw [if_pos hb] at ha
        obtain ⟨hmem, hk⟩ := ih a ha
        exact ⟨List.mem_cons_of_mem _ hmem, hk⟩
      · rw [if_neg hb, List.mem_cons] at ha
        rcases ha with rfl | ha
        · exact ⟨List.mem_cons_self, hb⟩
        · obtain ⟨hmem, hk⟩ := ih a ha
          exact ⟨List.mem_cons_of_mem _ hmem, fun h => hk (List.mem_append_left _ h)⟩

/-- Every node in the log after a batch was there before or was sent in the batch. -/
theorem mem_of_admitAll {log r : List α} {batch : List α} (h : admitAll log batch = .ok r) {x : α}
    (hx : x ∈ r) : x ∈ log ∨ x ∈ batch := by
  rw [admitAll_unseen h, List.mem_append] at hx
  exact hx.imp_right fun hx => (unseen_subset x hx).1

/-- **What is held after an admitted batch** is what was held and what was sent. -/
theorem held_admitAll {log r : List α} {batch : List α} (h : admitAll log batch = .ok r) {a : α} :
    Held r a ↔ Held log a ∨ Held batch a := by
  constructor
  · rintro ⟨x, hx, hxa⟩
    exact (mem_of_admitAll h hx).imp (fun hx => ⟨x, hx, hxa⟩) fun hx => ⟨x, hx, hxa⟩
  · rintro (hlog | hbatch)
    · exact hlog.trans fun x hx => Held.of_mem ((admitAll_grows h).subset hx)
    · refine hbatch.trans fun x hx => ?_
      obtain ⟨y, hy, hyx⟩ := admitAll_holds h hx
      exact ⟨y, mem_of_find hy, hyx⟩

theorem unseen_nodup (known : List ι) (batch : List α) : ((unseen known batch).map key).Nodup := by
  induction batch generalizing known with
  | nil => exact List.nodup_nil
  | cons b rest ih =>
      rw [unseen]
      split
      · exact ih known
      · rw [List.map_cons, List.nodup_cons]
        refine ⟨fun hmem => ?_, ih _⟩
        obtain ⟨a, ha, hk⟩ := List.mem_map.mp hmem
        exact (unseen_subset a ha).2 (hk ▸ List.mem_append_right _ (List.mem_singleton_self _))

/-- Of a batch, every new key is kept. -/
theorem unseen_covers {known : List ι} {batch : List α} {a : α} (ha : a ∈ batch)
    (hnew : key a ∉ known) : key a ∈ (unseen known batch).map key := by
  induction batch generalizing known with
  | nil => cases ha
  | cons b rest ih =>
      rw [unseen]
      by_cases hb : key b ∈ known
      · rw [if_pos hb]
        rcases List.mem_cons.mp ha with rfl | ha
        · exact absurd hb hnew
        · exact ih ha hnew
      · rw [if_neg hb, List.map_cons, List.mem_cons]
        by_cases hk : key a = key b
        · exact Or.inl hk
        · rcases List.mem_cons.mp ha with rfl | ha
          · exact absurd rfl hk
          · refine Or.inr (ih ha fun hmem => ?_)
            rcases List.mem_append.mp hmem with hmem | hmem
            · exact hnew hmem
            · exact hk (List.mem_singleton.mp hmem)

/-- A batch in which everything is new, and once. -/
theorem unseen_eq_self {known : List ι} {batch : List α} (hn : (batch.map key).Nodup)
    (hd : ∀ a ∈ batch, key a ∉ known) : unseen known batch = batch := by
  induction batch generalizing known with
  | nil => rfl
  | cons b rest ih =>
      simp only [List.map_cons, List.nodup_cons] at hn
      rw [unseen, if_neg (hd b List.mem_cons_self), ih hn.2]
      intro a ha hk
      rcases List.mem_append.mp hk with hk | hk
      · exact hd a (List.mem_cons_of_mem _ ha) hk
      · exact hn.1 (List.mem_singleton.mp hk ▸ List.mem_map_of_mem ha)

/-! ### Causal logs -/

/-- A log built by admission alone: fresh keys, and parents that are already there. -/
inductive Causal : List α → Prop where
  | nil : Causal []
  | snoc {log : List α} {a : α} : Causal log → find log (key a) = none → Admissible log a →
      Causal (log ++ [a])

theorem admitOne_causal {log log' : List α} {a : α} (hc : Causal log)
    (h : admitOne log a = .ok log') :
    Causal log' := by
  rcases admitOne_ok h with ⟨-, -, -, rfl⟩ | ⟨hf, hadm, rfl⟩
  · exact hc
  · exact Causal.snoc hc hf hadm

/-- Admission keeps a log causal. -/
theorem admitAll_causal {log r : List α} {batch : List α} (hc : Causal log)
    (h : admitAll log batch = .ok r) : Causal r := by
  induction batch generalizing log with
  | nil => cases h; exact hc
  | cons a rest ih =>
      obtain ⟨log', ha, hrest⟩ := admitAll_cons h
      exact ih (admitOne_causal hc ha) hrest

/-- A causal log is admitted whole by the empty log. -/
theorem Causal.admitAll_eq {log : List α} (hc : Causal log) : admitAll [] log = .ok log := by
  induction hc with
  | nil => rfl
  | snoc hc hf hadm ih =>
      rw [admitAll_append ih, admitAll_cons_ok (admitOne_fresh hf hadm)]
      rfl

theorem Causal.nodup {log : List α} (hc : Causal log) : (log.map key).Nodup := by
  induction hc with
  | nil => exact List.nodup_nil
  | @snoc log a hc hf hadm ih =>
      simp only [List.map_append, List.map_singleton, List.nodup_append]
      refine ⟨ih, by simp, ?_⟩
      rintro k hk k' hk' rfl
      simp only [List.mem_singleton] at hk'
      obtain ⟨x, hx, hxk⟩ := List.mem_map.mp hk
      exact find_eq_none.mp hf x hx (hxk.trans hk')

/-- In a causal log a node is found under its own key. -/
theorem Causal.find_of_mem {log : List α} (hc : Causal log) {a : α} (ha : a ∈ log) :
    find log (key a) = some a := by
  induction hc with
  | nil => cases ha
  | @snoc log b hc hf hadm ih =>
      rcases List.mem_append.mp ha with ha | ha
      · exact find_of_extends (List.prefix_append _ _) (ih ha)
      · simp only [List.mem_singleton] at ha
        subst ha
        exact find_snoc_self hf

/-- Two nodes a causal log holds under one key are the same. -/
theorem Causal.same_of_held {log : List α} (hc : Causal log) {a b : α} (ha : Held log a)
    (hb : Held log b) (hk : key a = key b) : Same a b := by
  obtain ⟨x, hx, hxa⟩ := ha
  obtain ⟨y, hy, hyb⟩ := hb
  have hxy : x = y := by
    have hkey : key x = key y :=
      ((CausalNode.key_of_same hxa).trans hk).trans (CausalNode.key_of_same hyb).symm
    have hfind := hc.find_of_mem hx
    rw [hkey, hc.find_of_mem hy] at hfind
    exact (Option.some.inj hfind).symm
  exact hxa.symm.trans (hxy ▸ hyb)

/-- The last node of a causal log was fresh and admissible. -/
theorem Causal.last {log : List α} {a : α} (hc : Causal (log ++ [a])) :
    find log (key a) = none ∧ Admissible log a := by
  generalize hl : log ++ [a] = l at hc
  cases hc with
  | nil => simp at hl
  | snoc hc hf hadm =>
      obtain ⟨rfl, hab⟩ := List.append_inj' hl rfl
      obtain rfl := List.head_eq_of_cons_eq hab
      exact ⟨hf, hadm⟩

/-- Each parent stands strictly earlier, in the same scope. -/
theorem Causal.parent_before {log : List α} (hc : Causal log) {i : Nat} (hi : i < log.length)
    {p : ι} (hp : p ∈ parents log[i]) :
    ∃ (j : Nat) (hj : j < log.length), j < i ∧ key log[j] = p ∧ SameScope log[j] log[i] := by
  induction hc with
  | nil => cases hi
  | @snoc log a hc hf hadm ih =>
      by_cases hlt : i < log.length
      · rw [List.getElem_append_left hlt] at hp
        obtain ⟨j, hj, hji, hk, hs⟩ := ih hlt hp
        refine ⟨j, by simp; omega, hji, ?_, ?_⟩
        · rw [List.getElem_append_left hj]; exact hk
        · rw [List.getElem_append_left hj, List.getElem_append_left hlt]; exact hs
      · have hil : i = log.length := by simp at hi; omega
        subst hil
        simp only [List.getElem_append_right (Nat.le_refl _), Nat.sub_self,
          List.getElem_singleton] at hp ⊢
        obtain ⟨q, hq, hs⟩ := hadm p hp
        obtain ⟨j, hj, hget⟩ := List.getElem_of_mem (mem_of_find hq)
        refine ⟨j, by simp; omega, hj, ?_, ?_⟩
        · rw [List.getElem_append_left hj, hget]; exact key_of_find hq
        · rw [List.getElem_append_left hj, hget]; exact hs

/-- The parents of a node a causal log holds are held, in its scope. -/
theorem Causal.admissible {log : List α} (hc : Causal log) {a : α} (ha : a ∈ log) :
    Admissible log a := by
  intro p hp
  obtain ⟨i, hi, rfl⟩ := List.getElem_of_mem ha
  obtain ⟨j, hj, -, hk, hs⟩ := hc.parent_before hi hp
  exact ⟨log[j], hk ▸ hc.find_of_mem (List.getElem_mem hj), hs⟩

/-- A prefix of a causal log is causal. -/
theorem Causal.of_extends {log log' : List α} (hc : Causal log') (h : log <+: log') :
    Causal log := by
  induction hc with
  | nil => rw [List.prefix_nil.mp h]; exact Causal.nil
  | snoc hc hf hadm ih =>
      rcases List.prefix_concat_iff.mp h with rfl | h
      · exact Causal.snoc hc hf hadm
      · exact ih h

/-! ### Logs that hold as much -/

/-- `log'` holds everything `log` does, up to `Same`. -/
def Covers (log log' : List α) : Prop :=
  ∀ k x, find log k = some x → ∃ y, find log' k = some y ∧ Same x y

theorem Covers.of_extends {log log' : List α} (h : log <+: log') : Covers log log' :=
  fun _ x hx => ⟨x, find_of_extends h hx, Same.refl x⟩

/-- Every node of a causal log that is covered is held, up to `Same`. -/
theorem Covers.mem {log log' : List α} (h : Covers log log') (hc : Causal log) {a : α}
    (ha : a ∈ log) : ∃ b ∈ log', Same a b := by
  obtain ⟨b, hb, hab⟩ := h _ a (hc.find_of_mem ha)
  exact ⟨b, mem_of_find hb, hab⟩

theorem Covers.admissible {log log' : List α} (h : Covers log log') {a : α}
    (hadm : Admissible log a) : Admissible log' a := by
  intro p hp
  obtain ⟨q, hq, hs⟩ := hadm p hp
  obtain ⟨q', hq', hqq⟩ := h p q hq
  exact ⟨q', hq', hqq.symm.scope.trans hs⟩

/-- The log holds no other content under the node's key. -/
def Agrees (log : List α) (a : α) : Prop := ∀ y, find log (key a) = some y → Same y a

/-- The step of `admitAll_later`. `base` is the later log before the batch began: what the
later log has gained since, the earlier one has gained as well. -/
theorem admitOne_later {base log log' r : List α} {a : α} (hcov : Covers log log')
    (hgain : ∀ k y, find log' k = some y →
      find base k = some y ∨ ∃ x, find log k = some x ∧ Same x y)
    (h : admitOne log a = .ok r) :
    (∃ r', admitOne log' a = .ok r' ∧ Covers r r' ∧ ∀ k y, find r' k = some y →
        find base k = some y ∨ ∃ x, find r k = some x ∧ Same x y) ∨
      admitOne log' a = .error .conflict ∧ ¬ Agrees base a := by
  have hpre := admitOne_grows h
  have hgain' : ∀ k y, find log' k = some y →
      find base k = some y ∨ ∃ x, find r k = some x ∧ Same x y := by
    intro k y hy
    rcases hgain k y hy with hb | ⟨x, hx, hxy⟩
    · exact Or.inl hb
    · exact Or.inr ⟨x, find_of_extends hpre hx, hxy⟩
  obtain ⟨x, hx, hxa⟩ := admitOne_holds h
  cases hf : find log' (key a) with
  | some y =>
      by_cases hs : Same y a
      · -- The later log has the node already: the earlier one may gain it, nothing else.
        refine Or.inl ⟨log', admitOne_replay hf hs, ?_, hgain'⟩
        rcases admitOne_ok h with ⟨-, -, -, rfl⟩ | ⟨-, -, rfl⟩
        · exact hcov
        · intro k z hz
          rcases find_snoc hz with hz | ⟨-, rfl, rfl⟩
          · exact hcov k z hz
          · exact ⟨y, hf, hs.symm⟩
      · refine Or.inr ⟨admitOne_conflict hf hs, fun hag => ?_⟩
        rcases hgain' _ y hf with hb | ⟨x', hx', hxy⟩
        · exact hs (hag y hb)
        · rw [hx] at hx'
          obtain rfl := Option.some.inj hx'
          exact hs (hxy.symm.trans hxa)
  | none =>
      -- Fresh for the later log, hence for the earlier one.
      rcases admitOne_ok h with ⟨old, hold, -, -⟩ | ⟨hnone, hadm, rfl⟩
      · obtain ⟨y, hy, -⟩ := hcov _ old hold
        rw [hf] at hy; cases hy
      · refine Or.inl ⟨log' ++ [a], admitOne_fresh hf (hcov.admissible hadm), ?_, ?_⟩
        · intro k z hz
          rcases find_snoc hz with hz | ⟨-, rfl, rfl⟩
          · obtain ⟨y, hy, hzy⟩ := hcov k z hz
            exact ⟨y, find_of_extends (List.prefix_append _ _) hy, hzy⟩
          · exact ⟨z, find_snoc_self hf, Same.refl z⟩
        · intro k y hy
          rcases find_snoc hy with hy | ⟨-, rfl, rfl⟩
          · exact hgain' k y hy
          · exact Or.inr ⟨x, hx, hxa⟩

/-- **What one log admits, a log that covers it admits too**, unless a key of the batch
holds other content there: then, and only then, the batch is a conflict. -/
theorem admitAll_later {log log' r : List α} {batch : List α} (hcov : Covers log log')
    (h : admitAll log batch = .ok r) :
    (∃ r', admitAll log' batch = .ok r' ∧ Covers r r') ∧ (∀ a ∈ batch, Agrees log' a) ∨
      admitAll log' batch = .error .conflict ∧ ∃ a ∈ batch, ¬ Agrees log' a := by
  -- The induction runs over the batch with both logs growing; `base` stays behind.
  have run : ∀ (batch : List α) {log cur : List α}, Covers log cur →
      (∀ k y, find cur k = some y → find log' k = some y ∨ ∃ x, find log k = some x ∧ Same x y) →
      admitAll log batch = .ok r →
      (∃ r', admitAll cur batch = .ok r' ∧ Covers r r') ∨
        admitAll cur batch = .error .conflict ∧ ∃ a ∈ batch, ¬ Agrees log' a := by
    intro batch
    induction batch with
    | nil => intro log cur hcov _ h; cases h; exact Or.inl ⟨cur, rfl, hcov⟩
    | cons a rest ih =>
        intro log cur hcov hgain h
        obtain ⟨mid, ha, hrest⟩ := admitAll_cons h
        rcases admitOne_later hcov hgain ha with ⟨cur', hcur, hcov', hgain'⟩ | ⟨hcon, hag⟩
        · rw [admitAll_cons_ok hcur]
          rcases ih hcov' hgain' hrest with hok | ⟨hcon, b, hb, hag⟩
          · exact Or.inl hok
          · exact Or.inr ⟨hcon, b, List.mem_cons_of_mem _ hb, hag⟩
        · exact Or.inr ⟨admitAll_cons_error hcon rest, a, List.mem_cons_self, hag⟩
  rcases run batch hcov (fun k y hy => Or.inl hy) h with ⟨r', hr', hcov'⟩ | hcon
  · refine Or.inl ⟨⟨r', hr', hcov'⟩, fun a ha y hy => ?_⟩
    obtain ⟨x, hx, hxa⟩ := admitAll_holds hr' ha
    rw [find_of_extends (admitAll_grows hr') hy] at hx
    obtain rfl := Option.some.inj hx
    exact hxa
  · exact Or.inr hcon

/-- Two batches that one log admits, and that do not disagree about a key, are admitted
one after the other. -/
theorem admitAll_after {log r₁ r₂ : List α} {b₁ b₂ : List α} (h₁ : admitAll log b₁ = .ok r₁)
    (h₂ : admitAll log b₂ = .ok r₂)
    (hag : ∀ a ∈ b₁, ∀ b ∈ b₂, key a = key b → Same a b) :
    ∃ r, admitAll r₁ b₂ = .ok r ∧ Covers r₂ r := by
  rcases admitAll_later (Covers.of_extends (admitAll_grows h₁)) h₂ with ⟨hok, -⟩ | ⟨-, b, hb, hnot⟩
  · exact hok
  · exfalso
    refine hnot fun y hy => ?_
    rcases admitAll_find h₁ hy with hlog | hmem
    · obtain ⟨x, hx, hxb⟩ := admitAll_holds h₂ hb
      rw [find_of_extends (admitAll_grows h₂) hlog] at hx
      obtain rfl := Option.some.inj hx
      exact hxb
    · exact hag y hmem b hb (key_of_find hy)

/-- **Independent batches commute** up to `Same`. -/
theorem admitAll_commute {log r₁ r₂ : List α} {b₁ b₂ : List α} (h₁ : admitAll log b₁ = .ok r₁)
    (h₂ : admitAll log b₂ = .ok r₂)
    (hag : ∀ a ∈ b₁, ∀ b ∈ b₂, key a = key b → Same a b) :
    ∃ r₁₂ r₂₁, admitAll r₁ b₂ = .ok r₁₂ ∧ admitAll r₂ b₁ = .ok r₂₁ ∧
      Covers r₁₂ r₂₁ ∧ Covers r₂₁ r₁₂ := by
  obtain ⟨r₁₂, h₁₂, -⟩ := admitAll_after h₁ h₂ hag
  obtain ⟨r₂₁, h₂₁, -⟩ := admitAll_after h₂ h₁ fun b hb a ha hk => (hag a ha b hb hk.symm).symm
  -- Either result is held by the other: its nodes are from the log or from a batch.
  have covers : ∀ {b b' : List α} {s t u v : List α}, admitAll log b = .ok s →
      admitAll s b' = .ok t → admitAll log b' = .ok u → admitAll u b = .ok v → Covers t v := by
    intro b b' s t u v hb hb' hu hv k x hx
    have holds : ∀ y, y ∈ b ∨ y ∈ b' → ∃ z, find v (key y) = some z ∧ Same z y := by
      rintro y (hy | hy)
      · exact admitAll_holds hv hy
      · obtain ⟨z, hz, hzy⟩ := admitAll_holds hu hy
        exact ⟨z, find_of_extends (admitAll_grows hv) hz, hzy⟩
    have sent : x ∈ b ∨ x ∈ b' → ∃ y, find v k = some y ∧ Same x y := by
      intro hxb
      obtain ⟨z, hz, hzx⟩ := holds x hxb
      exact ⟨z, key_of_find hx ▸ hz, hzx.symm⟩
    rcases admitAll_find hb' hx with hs | hmem
    · rcases admitAll_find hb hs with hlog | hmem
      · have hpre := (admitAll_grows hu).trans (admitAll_grows hv)
        exact ⟨x, find_of_extends hpre hlog, Same.refl x⟩
      · exact sent (Or.inl hmem)
    · exact sent (Or.inr hmem)
  exact ⟨r₁₂, r₂₁, h₁₂, h₂₁, covers h₁ h₁₂ h₂ h₂₁, covers h₂ h₂₁ h₁ h₁₂⟩

/-! ### Replays in a stream -/

theorem Alike.find {log log' : List α} (h : Alike log log') (k : ι) :
    (∃ x y, find log k = some x ∧ find log' k = some y ∧ Same x y) ∨
      find log k = none ∧ find log' k = none := by
  induction h with
  | nil => exact Or.inr ⟨rfl, rfl⟩
  | @cons a b log log' hab _ ih =>
      have hkey := CausalNode.key_of_same hab
      by_cases hk : key a = k
      · refine Or.inl ⟨a, b, ?_, ?_, hab⟩
        · exact List.find?_cons_of_pos (by simpa using hk)
        · exact List.find?_cons_of_pos (by simpa using hkey ▸ hk)
      · have hb : ¬ key b = k := hkey ▸ hk
        have hfa : CausalLog.find (a :: log) k = CausalLog.find log k :=
          List.find?_cons_of_neg (by simpa using hk)
        have hfb : CausalLog.find (b :: log') k = CausalLog.find log' k :=
          List.find?_cons_of_neg (by simpa using hb)
        rw [hfa, hfb]
        exact ih

theorem Alike.covers {log log' : List α} (h : Alike log log') : Covers log log' := by
  intro k x hx
  rcases h.find k with ⟨x', y, hx', hy, hxy⟩ | ⟨hnone, -⟩
  · rw [hx] at hx'
    obtain rfl := Option.some.inj hx'
    exact ⟨y, hy, hxy⟩
  · rw [hx] at hnone; cases hnone

theorem Admissible.of_same {log : List α} {a b : α} (h : Admissible log a) (hs : Same a b) :
    Admissible log b := by
  intro p hp
  obtain ⟨q, hq, hqa⟩ := h p ((CausalNode.parents_of_same hs p).mpr hp)
  exact ⟨q, hq, hqa.trans hs.scope⟩

/-- In a batch that is admitted, each parent of a node is in the log or earlier in the batch,
in the node's scope. -/
theorem admitAll_parents {log r batch : List α} (hc : Causal log) (h : admitAll log batch = .ok r)
    {k : Nat} {a : α} (ha : batch[k]? = some a) {p : ι} (hp : p ∈ parents a) :
    ∃ q, (q ∈ log ∨ q ∈ batch.take k) ∧ key q = p ∧ SameScope q a := by
  obtain ⟨hk, rfl⟩ := List.getElem?_eq_some_iff.mp ha
  rw [← List.take_append_drop k batch, List.drop_eq_getElem_cons hk] at h
  obtain ⟨mid, hmid, hrest⟩ := admitAll_cut h
  obtain ⟨mid', hone, -⟩ := admitAll_cons hrest
  have hadm : Admissible mid batch[k] := by
    rcases admitOne_ok hone with ⟨old, hf, hs, -⟩ | ⟨-, hadm, -⟩
    · exact ((admitAll_causal hc hmid).admissible (mem_of_find hf)).of_same hs
    · exact hadm
  obtain ⟨q, hq, hs⟩ := hadm p hp
  exact ⟨q, (admitAll_find hmid hq).imp_left mem_of_find, key_of_find hq, hs⟩

/-- Alike logs admit the same nodes, and stay similar. -/
theorem admitOne_similar {log log' r : List α} {a a' : α} (hsim : Alike log log')
    (hs : Same a a') (h : admitOne log a = .ok r) :
    ∃ r', admitOne log' a' = .ok r' ∧ Alike r r' := by
  have hkey := CausalNode.key_of_same hs
  rcases admitOne_ok h with ⟨old, hold, hsa, rfl⟩ | ⟨hnone, hadm, rfl⟩
  · obtain ⟨y, hy, hoy⟩ := hsim.covers _ old hold
    exact ⟨log', admitOne_replay (hkey ▸ hy) ((hoy.symm.trans hsa).trans hs), hsim⟩
  · rcases hsim.find (key a) with ⟨x, -, hx, -, -⟩ | ⟨-, hnone'⟩
    · rw [hnone] at hx; cases hx
    · refine ⟨log' ++ [a'], admitOne_fresh (hkey ▸ hnone') ?_, ?_⟩
      · exact (hsim.covers.admissible hadm).of_same hs
      · exact List.rel_append hsim (List.Forall₂.cons hs List.Forall₂.nil)

/-- A log alike to a causal one is causal. -/
theorem Causal.of_alike {log log' : List α} (hc : Causal log) (h : Alike log log') :
    Causal log' := by
  induction hc generalizing log' with
  | nil => cases h; exact Causal.nil
  | @snoc log a hc hf hadm ih =>
      have h₁ : Alike log (log'.take log.length) :=
        Alike.symm (List.forall₂_take_append log' log [a] h.symm)
      have h₂ : Alike [a] (log'.drop log.length) :=
        Alike.symm (List.forall₂_drop_append log' log [a] h.symm)
      obtain ⟨a', rest, hs, hrest, hdrop⟩ := List.forall₂_cons_left_iff.mp h₂
      obtain rfl := List.forall₂_nil_left_iff.mp hrest
      have hcat := List.take_append_drop log.length log'
      rw [hdrop] at hcat
      rw [← hcat]
      have hkey := CausalNode.key_of_same hs
      refine Causal.snoc (ih h₁) ?_ ((h₁.covers.admissible hadm).of_same hs)
      rcases h₁.find (key a) with ⟨x, -, hx, -, -⟩ | ⟨-, hnone⟩
      · rw [hf] at hx; cases hx
      · exact hkey ▸ hnone

/-- A stream that sends `ops` in order, each node perhaps in another form of the same,
with replays of nodes already `held` put in anywhere. -/
inductive Sends : (held ops sent : List α) → Prop where
  | done (held : List α) : Sends held [] []
  | next {held ops sent : List α} {a a' : α} : Same a a' → Sends (a :: held) ops sent →
      Sends held (a :: ops) (a' :: sent)
  | again {held ops sent : List α} {b c : α} : c ∈ held → Same c b → Sends held ops sent →
      Sends held ops (b :: sent)

omit [DecidableEq ι] in
/-- Everything a stream sends is held, or is to be sent, up to `Same`. -/
theorem Sends.mem {held ops sent : List α} (h : Sends held ops sent) {b : α} (hb : b ∈ sent) :
    ∃ a, (a ∈ held ∨ a ∈ ops) ∧ Same a b := by
  induction h with
  | done held => cases hb
  | @next held ops sent a a' hs _ ih =>
      rcases List.mem_cons.mp hb with rfl | hb
      · exact ⟨a, Or.inr List.mem_cons_self, hs⟩
      · obtain ⟨x, hx, hxb⟩ := ih hb
        rcases hx with hx | hx
        · rcases List.mem_cons.mp hx with rfl | hx
          · exact ⟨x, Or.inr List.mem_cons_self, hxb⟩
          · exact ⟨x, Or.inl hx, hxb⟩
        · exact ⟨x, Or.inr (List.mem_cons_of_mem _ hx), hxb⟩
  | @again held ops sent b' c hc hs _ ih =>
      rcases List.mem_cons.mp hb with rfl | hb
      · exact ⟨c, Or.inl hc, hs⟩
      · exact ih hb

/-- **Replays change nothing.** A stream that sends `ops` with replays mixed in is admitted
whenever `ops` is, with a similar log at the end. -/
theorem admitAll_sends {held ops sent : List α} (hsend : Sends held ops sent) {log log' r : List α}
    (hsim : Alike log log') (hheld : ∀ c ∈ held, ∃ x, find log (key c) = some x ∧ Same x c)
    (h : admitAll log ops = .ok r) : ∃ r', admitAll log' sent = .ok r' ∧ Alike r r' := by
  induction hsend generalizing log log' with
  | done held => cases h; exact ⟨log', rfl, hsim⟩
  | @next held ops sent a a' hs _ ih =>
      obtain ⟨mid, ha, hrest⟩ := admitAll_cons h
      obtain ⟨mid', ha', hsim'⟩ := admitOne_similar hsim hs ha
      rw [admitAll_cons_ok ha']
      refine ih hsim' (fun c hc => ?_) hrest
      rcases List.mem_cons.mp hc with rfl | hc
      · exact admitOne_holds ha
      · obtain ⟨x, hx, hxc⟩ := hheld c hc
        exact ⟨x, find_of_extends (admitOne_grows ha) hx, hxc⟩
  | @again held ops sent b c hc hs _ ih =>
      obtain ⟨x, hx, hxc⟩ := hheld c hc
      obtain ⟨y, hy, hxy⟩ := hsim.covers _ x hx
      have hkey := CausalNode.key_of_same hs
      rw [admitAll_cons_ok (admitOne_replay (hkey ▸ hy) ((hxy.symm.trans hxc).trans hs))]
      exact ih hsim hheld h

end Syncraft.CausalLog
