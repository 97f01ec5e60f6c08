import Syncraft.Store.Methods

/-!
# Syncraft.Store.Attachments

Attachments of a workspace of the in-memory adapter: they are stored once, under their own ID,
and never change.
-/

namespace Syncraft.Store

open Domain

/-- The two have the same record, name, type and hash. -/
def SameAttachment (old a : Attachment) : Prop :=
  old.record = a.record ∧ old.name = a.name ∧ old.type = a.type ∧ old.sha256 = a.sha256

instance (old a : Attachment) : Decidable (SameAttachment old a) := inferInstanceAs (Decidable (_ ∧ _))

namespace Space

/-- A workspace holds what it held, and besides only attachments of `puts`, each under its ID. -/
structure Grows (puts : Attachment → Prop) (s s' : Space) : Prop where
  kept : ∀ {id a}, s.attachments.lookup id = some a → s'.attachments.lookup id = some a
  new : ∀ {id a}, s'.attachments.lookup id = some a →
    s.attachments.lookup id = some a ∨ a.id = id ∧ puts a

variable {puts : Attachment → Prop}

theorem Grows.refl (s : Space) : s.Grows puts s := ⟨id, Or.inl⟩

theorem Grows.trans {s s' s'' : Space} (h : s.Grows puts s') (h' : s'.Grows puts s'') :
    s.Grows puts s'' where
  kept ha := h'.kept (h.kept ha)
  new ha := by
    rcases h'.new ha with ha | ha
    · exact h.new ha
    · exact Or.inr ha

theorem Grows.of_eq {s s' : Space} (h : s'.attachments = s.attachments) : s.Grows puts s' where
  kept ha := by rwa [h]
  new ha := Or.inl (by rwa [h] at ha)

/-- What a workspace that nobody had used holds. -/
theorem Grows.held {s : Space} (h : Space.new.Grows puts s) {id : GoString} {a : Attachment}
    (ha : s.attachments.lookup id = some a) : a.id = id ∧ puts a := by
  rcases h.new ha with hnone | hput
  · cases hnone
  · exact hput

/-- **A repeated upload** of an active device succeeds when nothing but the data could differ, and
changes nothing in any case. -/
theorem putAttachment_again {s : Space} {device actor : GoString} {a old : Attachment}
    (hactive : s.active device actor = true) (hold : s.attachments.lookup a.id = some old) :
    s.putAttachment device actor a =
      (if SameAttachment old a then .ok () else .error .conflict, s) := by
  have hguard : ¬ (!s.active device actor) = true := by simp [hactive]
  rw [putAttachment, if_neg hguard, hold]
  dsimp only
  by_cases hsame : SameAttachment old a
  · rw [if_pos hsame, if_neg (by simp [hsame.1, hsame.2.1, hsame.2.2.1, hsame.2.2.2])]
  · rw [if_neg hsame, if_pos]
    by_contra hne
    simp only [Bool.or_eq_true, bne_iff_ne, ne_eq, not_or, not_not] at hne
    exact hsame ⟨hne.1.1.2, hne.1.2, hne.2, hne.1.1.1⟩

/-- A put attachment is there. -/
theorem putAttachment_ok {s : Space} {device actor : GoString} {a : Attachment}
    (h : (s.putAttachment device actor a).1 = .ok ()) :
    ∃ x, (s.putAttachment device actor a).2.attachments.lookup a.id = some x ∧
      SameAttachment x a := by
  by_cases hactive : s.active device actor = true
  · cases hold : s.attachments.lookup a.id with
    | some old =>
        rw [putAttachment_again hactive hold] at h ⊢
        by_cases hsame : SameAttachment old a
        · exact ⟨old, hold, hsame⟩
        · rw [if_neg hsame] at h
          cases h
    | none =>
        have hguard : ¬ (!s.active device actor) = true := by simp [hactive]
        rw [putAttachment, if_neg hguard, hold]
        exact ⟨a, AList.lookup_insert _, rfl, rfl, rfl, rfl⟩
  · have hguard : (!s.active device actor) = true := by simp [hactive]
    rw [putAttachment, if_pos hguard] at h
    cases h

theorem putAttachment_grows (s : Space) (device actor : GoString) {a : Attachment} (ha : puts a) :
    s.Grows puts (s.putAttachment device actor a).2 := by
  rw [putAttachment]
  split
  · exact Grows.refl s
  cases hold : s.attachments.lookup a.id with
  | some old =>
      dsimp only
      split
      · exact Grows.refl s
      · exact Grows.refl s
  | none =>
      constructor
      · intro id x hx
        have hne : id ≠ a.id := by
          rintro rfl
          rw [hold] at hx
          cases hx
        exact (AList.lookup_insert_ne hne).trans hx
      · intro id x hx
        by_cases hid : id = a.id
        · subst hid
          obtain rfl := Option.some.inj ((AList.lookup_insert _).symm.trans hx)
          exact Or.inr ⟨rfl, ha⟩
        · exact Or.inl ((AList.lookup_insert_ne hid).symm.trans hx)

theorem pushLoop_attachments (device actor : GoString) (known : OpMap)
    (batch : List (Operation GoString)) (s : Space) :
    (pushLoop device actor known batch s).attachments = s.attachments := by
  induction batch generalizing known s with
  | nil => rfl
  | cons o rest ih =>
      rw [pushLoop]
      cases known o.id with
      | some _ => exact ih known s
      | none => exact ih _ _

theorem push_attachments (s : Space) (device actor : GoString) (batch : List (Operation GoString)) :
    (s.push device actor batch).2.attachments = s.attachments := by
  rw [push]
  split
  · rfl
  dsimp only
  split
  · rfl
  · exact pushLoop_attachments _ _ _ _ _

/-- What every method does to the attachments. -/
theorem answer_grows (s : Space) {β : Type} {c : Method β} (hc : c.Within puts) :
    s.Grows puts (s.answer c).2 := by
  cases c with
  | register d =>
      refine Grows.of_eq ?_
      show (s.register d).2.attachments = s.attachments
      rw [register]
      split
      · split <;> rfl
      · rfl
  | revoke id actor =>
      refine Grows.of_eq ?_
      show (s.revoke id actor).2.attachments = s.attachments
      rw [revoke]
      split
      · rfl
      · split <;> rfl
  | push device actor batch =>
      refine Grows.of_eq ?_
      show (s.push device actor batch).2.attachments = s.attachments
      exact push_attachments s device actor batch
  | putAttachment device actor a => exact putAttachment_grows s device actor hc
  | _ => exact Grows.refl s

/-- A list has attachments of the record, without their data. -/
theorem mem_listAttachments {s : Space} {record : GoString} {a : Attachment}
    (h : a ∈ s.listAttachments record) :
    ∃ id x, s.attachments.lookup id = some x ∧ x.record = record ∧ a = { x with data := [] } := by
  rw [listAttachments, List.mem_insertionSort, List.mem_map] at h
  obtain ⟨x, hx, rfl⟩ := h
  obtain ⟨hmem, hrecord⟩ := List.mem_filter.mp hx
  obtain ⟨e, he, rfl⟩ := List.mem_map.mp hmem
  exact ⟨e.1, e.2, AList.mem_lookup_iff.mpr he, beq_iff_eq.mp hrecord, rfl⟩

end Space

end Syncraft.Store
