import Syncraft.Library.Frontier
import Syncraft.Domain.Validate

/-!
# Syncraft.Domain.Merge

`internal/domain/merge.go`: `Equivalent`, `Frontier` and `ValidateBatch`.

Operations are nodes of a causal log (`Syncraft.Library.CausalLog`) whose `Same` is
`Equivalent`, and `ValidateBatch` is admission to such a log preceded by `Validate`:
`validateBatch_iff` and `validateBatch_eq` say so, and the stores use nothing else about it.
-/

namespace Syncraft.Domain

open Text CausalLog

/-! ### Equivalent -/

/-- `sort.Strings` on a copy, for any string type. -/
def sortStrings {σ : Type} [LinearOrder σ] (xs : List σ) : List σ := xs.insertionSort (· ≤ ·)

theorem sortStrings_perm {σ : Type} [LinearOrder σ] (xs : List σ) : (sortStrings xs).Perm xs :=
  List.perm_insertionSort _ _

theorem sortStrings_eq_iff {σ : Type} [LinearOrder σ] {xs ys : List σ} :
    sortStrings xs = sortStrings ys ↔ xs.Perm ys := by
  constructor
  · intro h
    exact (sortStrings_perm xs).symm.trans (h ▸ sortStrings_perm ys)
  · intro h
    exact List.Perm.eq_of_pairwise (fun a b _ _ (h : a ≤ b) => le_antisymm h)
      (List.pairwise_insertionSort _ _) (List.pairwise_insertionSort _ _)
      ((sortStrings_perm xs).trans (h.trans (sortStrings_perm ys).symm))

/-- `Equivalent`: parent order does not count. -/
def equivalent (a b : Operation GoString) : Bool :=
  if a.id != b.id || a.record != b.record || a.field != b.field || a.value != b.value then false
  else sortStrings a.parents == sortStrings b.parents

theorem equivalent_iff {a b : Operation GoString} :
    equivalent a b = true ↔ a.id = b.id ∧ a.record = b.record ∧ a.field = b.field ∧
      a.value = b.value ∧ a.parents.Perm b.parents := by
  unfold equivalent
  split
  · next h =>
      simp only [Bool.or_eq_true, bne_iff_ne] at h
      constructor
      · intro hf; cases hf
      · rintro ⟨h₁, h₂, h₃, h₄, -⟩
        rcases h with ((h | h) | h) | h
        · exact absurd h₁ h
        · exact absurd h₂ h
        · exact absurd h₃ h
        · exact absurd h₄ h
  · next h =>
      simp only [Bool.or_eq_true, bne_iff_ne, not_or, not_not] at h
      obtain ⟨⟨⟨h₁, h₂⟩, h₃⟩, h₄⟩ := h
      simp only [beq_iff_eq, sortStrings_eq_iff, h₁, h₂, h₃, h₄, true_and]

/-- Operations are the nodes of a causal log. -/
instance : CausalNode (Operation GoString) GoString where
  key := Operation.id
  parents := Operation.parents
  same := equivalent
  sameScope a b := a.record == b.record && a.field == b.field
  same_refl a := equivalent_iff.mpr ⟨rfl, rfl, rfl, rfl, List.Perm.refl _⟩
  same_symm h := by
    obtain ⟨h₁, h₂, h₃, h₄, h₅⟩ := equivalent_iff.mp h
    exact equivalent_iff.mpr ⟨h₁.symm, h₂.symm, h₃.symm, h₄.symm, h₅.symm⟩
  same_trans h h' := by
    obtain ⟨h₁, h₂, h₃, h₄, h₅⟩ := equivalent_iff.mp h
    obtain ⟨g₁, g₂, g₃, g₄, g₅⟩ := equivalent_iff.mp h'
    exact equivalent_iff.mpr
      ⟨h₁.trans g₁, h₂.trans g₂, h₃.trans g₃, h₄.trans g₄, h₅.trans g₅⟩
  scope_trans h h' := by
    simp only [Bool.and_eq_true, beq_iff_eq] at h h' ⊢
    exact ⟨h.1.trans h'.1, h.2.trans h'.2⟩
  key_of_same h := (equivalent_iff.mp h).1
  scope_of_same h := by
    obtain ⟨-, h₂, h₃, -, -⟩ := equivalent_iff.mp h
    simp only [h₂, h₃, beq_self_eq_true, Bool.and_self]
  parents_of_same h _ := (equivalent_iff.mp h).2.2.2.2.mem_iff

theorem same_iff {a b : Operation GoString} : Same a b ↔ equivalent a b = true := Iff.rfl

theorem key_eq (o : Operation GoString) : CausalNode.key o = o.id := rfl

theorem parents_eq (o : Operation GoString) : CausalNode.parents o = o.parents := rfl

theorem sameScope_iff {a b : Operation GoString} :
    SameScope a b ↔ a.record = b.record ∧ a.field = b.field := by
  show (a.record == b.record && a.field == b.field) = true ↔ _
  simp only [Bool.and_eq_true, beq_iff_eq]

/-- Validity does not depend on the order of the parents. -/
theorem Valid.of_same {a b : Operation GoString} (h : Valid a) (hs : Same a b) : Valid b := by
  obtain ⟨h₁, h₂, h₃, h₄, h₅⟩ := equivalent_iff.mp hs
  exact {
    id := h₁ ▸ h.id
    record := h₂ ▸ h.record
    limit := h₃ ▸ h₄ ▸ h.limit
    utf8 := h₄ ▸ h.utf8
    count := h₅.length_eq ▸ h.count
    text := h₃ ▸ h₄ ▸ h.text
    status := h₃ ▸ h₄ ▸ h.status
    priority := h₃ ▸ h₄ ▸ h.priority
    checkbox := h₃ ▸ h₄ ▸ h.checkbox
    parents := fun p hp => h₁ ▸ h.parents p (h₅.mem_iff.mpr hp)
    nodup := h₅.nodup_iff.mp h.nodup }

/-! ### Frontier -/

/-- An operation of the given record and field. -/
def ofField {σ : Type} [DecidableEq σ] (record field : σ) (o : Operation σ) : Bool :=
  o.record == record && o.field == field

/-- `Frontier`: the operations of a field that no operation of it names as a parent. -/
def frontier (ops : List (Operation GoString)) (record field : GoString) :
    List (Operation GoString) :=
  CausalLog.frontier ops (ofField record field)

theorem ofField_same (record field : GoString) (a b : Operation GoString) (h : Same a b) :
    ofField record field a = ofField record field b := by
  obtain ⟨-, h₂, h₃, -, -⟩ := equivalent_iff.mp h
  rw [ofField, ofField, h₂, h₃]

/-! ### ValidateBatch -/

-- `Validate` is known by `validate_ok_iff` from here on, and never run inside a proof.
attribute [local irreducible] validate

/-- A Go map from IDs to operations, of which only lookups and insertions are used. -/
abbrev OpMap := GoString → Option (Operation GoString)

/-- `known[o.ID] = o` -/
def OpMap.put (known : OpMap) (o : Operation GoString) : OpMap :=
  fun id => if id = o.id then some o else known id

/-- The parent check: known, and of the same record and field. -/
def parentKnown (known : OpMap) (o : Operation GoString) (p : GoString) : Bool :=
  match known p with
  | some parent => parent.record == o.record && parent.field == o.field
  | none => false

/-- The loop of `ValidateBatch`. -/
def validateLoop (known : OpMap) : List (Operation GoString) → Except Err Unit
  | [] => .ok ()
  | o :: rest =>
    match validate o with
    | .error e => .error e
    | .ok () =>
      match known o.id with
      | some old => if equivalent old o then validateLoop known rest else .error .conflict
      | none =>
        if o.parents.all (parentKnown known o) then validateLoop (known.put o) rest
        else .error .invalid

/-- `ValidateBatch` -/
def validateBatch (existing : OpMap) (batch : List (Operation GoString)) : Except Err Unit :=
  if batch.length = 0 ∨ batch.length > 100 then .error .invalid
  else validateLoop existing batch

/-- The map knows, among the IDs of `rel`, exactly what the log holds. -/
def Knows (known : OpMap) (log : List (Operation GoString)) (rel : GoString → Prop) : Prop :=
  ∀ id, rel id → known id = find log id

/-- The IDs a batch looks up: its own and its parents'. -/
def Mentions (batch : List (Operation GoString)) (id : GoString) : Prop :=
  ∃ o ∈ batch, id = o.id ∨ id ∈ o.parents

theorem Mentions.tail {o : Operation GoString} {rest : List (Operation GoString)} {id : GoString}
    (h : Mentions rest id) : Mentions (o :: rest) id := by
  obtain ⟨x, hx, hid⟩ := h
  exact ⟨x, List.mem_cons_of_mem _ hx, hid⟩

theorem Knows.put {known : OpMap} {log : List (Operation GoString)} {rel : GoString → Prop}
    {o : Operation GoString} (h : Knows known log rel) (hf : find log o.id = none) :
    Knows (known.put o) (log ++ [o]) rel := by
  intro id hid
  unfold OpMap.put
  by_cases hio : id = o.id
  · subst hio
    rw [if_pos rfl]
    exact (find_snoc_self hf).symm
  · rw [if_neg hio, h id hid, find_append]
    have hnone : find [o] id = none := find_eq_none.mpr fun a ha hk => by
      simp only [List.mem_singleton] at ha
      subst ha
      exact hio hk.symm
    rw [hnone, Option.or_none]

/-- The parent check is admissibility, on a map that knows the parents. -/
theorem parentKnown_all_iff {known : OpMap} {log : List (Operation GoString)}
    {rel : GoString → Prop} {o : Operation GoString} (hk : Knows known log rel)
    (hrel : ∀ p ∈ o.parents, rel p) :
    o.parents.all (parentKnown known o) = true ↔ Admissible log o := by
  have hp : ∀ p ∈ o.parents,
      (parentKnown known o p = true ↔ ∃ q ∈ find log p, SameScope q o) := by
    intro p hp
    unfold parentKnown
    rw [hk p (hrel p hp)]
    cases hf : find log p with
    | none => simp
    | some q => simp [sameScope_iff]
  simp only [List.all_eq_true]
  exact forall₂_congr hp

/-- How `ValidateBatch` reports a rejection. -/
def rejectionErr : Rejection → Err
  | .conflict => .conflict
  | .orphan => .invalid

/-- On valid operations the loop is admission, and reports its rejections. -/
theorem validateLoop_eq {batch : List (Operation GoString)} (hv : ∀ o ∈ batch, Valid o)
    {known : OpMap} {log : List (Operation GoString)} {rel : GoString → Prop}
    (hk : Knows known log rel) (hrel : ∀ id, Mentions batch id → rel id) :
    validateLoop known batch =
      match admitAll log batch with
      | .ok _ => .ok ()
      | .error e => .error (rejectionErr e) := by
  induction batch generalizing known log with
  | nil => rfl
  | cons o rest ih =>
      have hvo := validate_ok_iff.mpr (hv o List.mem_cons_self)
      have hrest : ∀ x ∈ rest, Valid x := fun x hx => hv x (List.mem_cons_of_mem _ hx)
      have hrel' : ∀ id, Mentions rest id → rel id := fun id hid => hrel id hid.tail
      have hid : known o.id = find log o.id := hk _ (hrel _ ⟨o, List.mem_cons_self, Or.inl rfl⟩)
      rw [validateLoop, hvo, hid]
      cases hf : find log o.id with
      | some old =>
          dsimp only
          by_cases hs : equivalent old o = true
          · rw [if_pos hs, admitAll_cons_ok (admitOne_replay hf hs)]
            exact ih hrest hk hrel'
          · rw [if_neg hs, admitAll_cons_error (admitOne_conflict hf hs)]
            rfl
      | none =>
          dsimp only
          have hadm := parentKnown_all_iff (o := o) hk
            fun p hp => hrel p ⟨o, List.mem_cons_self, Or.inr hp⟩
          by_cases ha : Admissible log o
          · rw [if_pos (hadm.mpr ha), admitAll_cons_ok (admitOne_fresh hf ha)]
            exact ih hrest (hk.put hf) hrel'
          · rw [if_neg (mt hadm.mp ha), admitAll_cons_error (admitOne_orphan hf ha)]
            rfl

/-- A loop that reports success met valid operations only. -/
theorem valid_of_validateLoop {batch : List (Operation GoString)} {known : OpMap}
    (h : validateLoop known batch = .ok ()) : ∀ o ∈ batch, Valid o := by
  induction batch generalizing known with
  | nil => simp
  | cons o rest ih =>
      rw [validateLoop] at h
      split at h
      · cases h
      · next hvo =>
          have htail : ∃ known', validateLoop known' rest = .ok () := by
            split at h
            · split at h
              · exact ⟨_, h⟩
              · cases h
            · split at h
              · exact ⟨_, h⟩
              · cases h
          obtain ⟨known', htail⟩ := htail
          intro x hx
          rcases List.mem_cons.mp hx with rfl | hx
          · exact validate_ok_iff.mp hvo
          · exact ih htail x hx

/-- A batch within the size limits. -/
def BatchSize (batch : List (Operation GoString)) : Prop :=
  0 < batch.length ∧ batch.length ≤ 100

instance (batch : List (Operation GoString)) : Decidable (BatchSize batch) :=
  inferInstanceAs (Decidable (_ ∧ _))

/-- **`ValidateBatch` accepts** a batch of 1 to 100 valid operations that the log admits. -/
theorem validateBatch_iff {known : OpMap} {log : List (Operation GoString)}
    {batch : List (Operation GoString)} (hk : Knows known log (Mentions batch)) :
    validateBatch known batch = .ok () ↔
      BatchSize batch ∧ (∀ o ∈ batch, Valid o) ∧ ∃ r, admitAll log batch = .ok r := by
  unfold validateBatch
  by_cases hsize : batch.length = 0 ∨ batch.length > 100
  · rw [if_pos hsize]
    constructor
    · intro h; cases h
    · rintro ⟨⟨h₁, h₂⟩, -⟩; omega
  · rw [if_neg hsize]
    have hbs : BatchSize batch := by unfold BatchSize; omega
    constructor
    · intro h
      have hv := valid_of_validateLoop h
      refine ⟨hbs, hv, ?_⟩
      rw [validateLoop_eq hv hk fun _ => id] at h
      cases ha : admitAll log batch with
      | ok r => exact ⟨r, rfl⟩
      | error e => rw [ha] at h; cases h
    · rintro ⟨-, hv, r, hr⟩
      rw [validateLoop_eq hv hk fun _ => id, hr]

/-- What `ValidateBatch` reports on valid operations. -/
theorem validateBatch_eq {known : OpMap} {log : List (Operation GoString)}
    {batch : List (Operation GoString)} (hk : Knows known log (Mentions batch))
    (hsize : BatchSize batch) (hv : ∀ o ∈ batch, Valid o) :
    validateBatch known batch =
      match admitAll log batch with
      | .ok _ => .ok ()
      | .error e => .error (rejectionErr e) := by
  unfold validateBatch
  rw [if_neg (by unfold BatchSize at hsize; omega)]
  exact validateLoop_eq hv hk fun _ => id

/-- A batch is turned away as invalid or as a conflict. -/
theorem validateBatch_error {known : OpMap} {batch : List (Operation GoString)} {e : Err}
    (h : validateBatch known batch = .error e) : e = .invalid ∨ e = .conflict := by
  have loop : ∀ {batch : List (Operation GoString)} {known : OpMap},
      validateLoop known batch = .error e → e = .invalid ∨ e = .conflict := by
    intro batch
    induction batch with
    | nil => intro known h; cases h
    | cons o rest ih =>
        intro known h
        rw [validateLoop] at h
        split at h
        · next hvo =>
            obtain rfl := validate_error hvo
            cases h
            exact Or.inl rfl
        · split at h
          · split at h
            · exact ih h
            · cases h; exact Or.inr rfl
          · split at h
            · exact ih h
            · cases h; exact Or.inl rfl
  unfold validateBatch at h
  split at h
  · cases h; exact Or.inl rfl
  · exact loop h

end Syncraft.Domain
