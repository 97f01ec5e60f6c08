import Mathlib.Data.List.AList
import Mathlib.Data.List.Dedup
import Mathlib.Data.List.Sort

/-!
# Syncraft.Library.Keyed

**Lists that hold one element for each key.** A table with a primary key and a map from keys
answer the same lookups; then they hold the same elements (`values_perm`), and list them alike
once sorted by key (`insertionSort_eq_of_perm`).
-/

namespace Syncraft.Library

variable {κ β : Type} {key : β → κ}

section Find

variable [BEq κ] [LawfulBEq κ]

/-- Where keys are unique, looking one up finds the element that has it. -/
theorem find_eq_some_iff {l : List β} (hn : (l.map key).Nodup) {k : κ} {b : β} :
    l.find? (fun x => key x == k) = some b ↔ b ∈ l ∧ key b = k := by
  constructor
  · intro h
    exact ⟨List.mem_of_find?_eq_some h, by simpa using List.find?_some h⟩
  · rintro ⟨hb, rfl⟩
    cases hx : l.find? fun x => key x == key b with
    | none => simpa using List.find?_eq_none.mp hx b hb
    | some x =>
        have hkey : key x = key b := by simpa using List.find?_some hx
        rw [List.inj_on_of_nodup_map hn (List.mem_of_find?_eq_some hx) hb hkey]

/-- Two lists that answer every lookup alike hold the same. -/
theorem perm_of_find {l l' : List β} (hn : (l.map key).Nodup) (hn' : (l'.map key).Nodup)
    (h : ∀ k, l.find? (fun x => key x == k) = l'.find? fun x => key x == k) : l.Perm l' := by
  refine (List.perm_ext_iff_of_nodup hn.of_map hn'.of_map).mpr fun b => ?_
  have half : ∀ {l : List β}, (l.map key).Nodup →
      (b ∈ l ↔ l.find? (fun x => key x == key b) = some b) := by
    intro l hn
    rw [find_eq_some_iff hn]
    exact ⟨fun hb => ⟨hb, rfl⟩, And.left⟩
  rw [half hn, half hn', h]

end Find

section Values

variable [DecidableEq κ]

/-- The elements of a map in which each is under its own key. -/
theorem values_keys {m : AList fun _ : κ => β} (h : ∀ k b, m.lookup k = some b → key b = k) :
    (m.entries.map fun e => e.2).map key = m.keys := by
  rw [List.map_map]
  refine List.map_congr_left fun e he => h e.1 e.2 ?_
  exact AList.mem_lookup_iff.mpr he

/-- They are looked up in the map. -/
theorem values_find [BEq κ] [LawfulBEq κ] {m : AList fun _ : κ => β}
    (h : ∀ k b, m.lookup k = some b → key b = k) (k : κ) :
    (m.entries.map fun e => e.2).find? (fun x => key x == k) = m.lookup k := by
  have hn : ((m.entries.map fun e => e.2).map key).Nodup := values_keys h ▸ m.keys_nodup
  refine Option.ext fun b => ?_
  rw [find_eq_some_iff hn]
  constructor
  · rintro ⟨hb, rfl⟩
    obtain ⟨e, he, rfl⟩ := List.mem_map.mp hb
    have hlookup : m.lookup e.1 = some e.2 := AList.mem_lookup_iff.mpr he
    rw [h _ _ hlookup, hlookup]
  · intro hb
    exact ⟨List.mem_map.mpr ⟨_, AList.mem_lookup_iff.mp hb, rfl⟩, h k b hb⟩

/-- A map and a list that answer every lookup alike hold the same. -/
theorem values_perm [BEq κ] [LawfulBEq κ] {m : AList fun _ : κ => β} {l : List β}
    (hn : (l.map key).Nodup) (h : ∀ k, m.lookup k = l.find? fun x => key x == k) :
    (m.entries.map fun e => e.2).Perm l := by
  have hown : ∀ k b, m.lookup k = some b → key b = k := by
    intro k b hb
    rw [h] at hb
    exact ((find_eq_some_iff hn).mp hb).2
  have hn' : ((m.entries.map fun e => e.2).map key).Nodup := values_keys hown ▸ m.keys_nodup
  exact perm_of_find hn' hn fun k => (values_find hown k).trans (h k)

end Values

/-- Sorted by key, the order they were held in does not show. -/
theorem insertionSort_eq_of_perm [LinearOrder κ] {l l' : List β} (hn : (l.map key).Nodup)
    (hp : l.Perm l') :
    l.insertionSort (fun a b => key a ≤ key b) = l'.insertionSort fun a b => key a ≤ key b := by
  have hsorted : (l.insertionSort fun a b => key a ≤ key b).Perm
      (l'.insertionSort fun a b => key a ≤ key b) :=
    (List.perm_insertionSort _ l).trans (hp.trans (List.perm_insertionSort _ l').symm)
  refine hsorted.eq_of_pairwise ?_ (List.pairwise_insertionSort _ _) (List.pairwise_insertionSort _ _)
  intro a b ha hb hab hba
  have ha' : a ∈ l := (List.mem_insertionSort _).mp ha
  have hb' : b ∈ l := hp.mem_iff.mpr ((List.mem_insertionSort _).mp hb)
  exact List.inj_on_of_nodup_map hn ha' hb' (le_antisymm hab hba)

end Syncraft.Library
