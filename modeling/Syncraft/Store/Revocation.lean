import Syncraft.Store.Methods

/-!
# Syncraft.Store.Revocation

What a revoked device can still do to a workspace of the in-memory adapter: nothing. Each method
checks the device again inside its critical section, so it does not matter what the caller had
found out before.
-/

namespace Syncraft.Store

open Domain CausalLog

namespace Space

/-- The entries that a device has pushed. -/
def pushedBy (s : Space) (device : GoString) : List Entry :=
  s.entries.filter fun e => e.device == device

/-- Accepted operations are stored under the device and the actor. -/
theorem acceptAll_entries (device actor : GoString) (s : Space)
    (fresh : List (Operation GoString)) :
    ∃ added, (acceptAll device actor s fresh).entries = s.entries ++ added ∧
      ∀ e ∈ added, e.device = device ∧ e.actor = actor := by
  induction fresh generalizing s with
  | nil => exact ⟨[], by simp, fun _ he => by cases he⟩
  | cons o rest ih =>
      obtain ⟨added, hentries, hadded⟩ := ih (accept device actor s o)
      refine ⟨_ :: added, by rw [accept_entries, List.append_assoc] at hentries; exact hentries, ?_⟩
      intro e he
      rcases List.mem_cons.mp he with rfl | he
      · exact ⟨rfl, rfl⟩
      · exact hadded e he

/-- A `Push` appends entries of its device and actor, and nothing but entries and audit events
changes. -/
theorem push_entries {s : Space} (hc : Causal s.ops) (device actor : GoString)
    (batch : List (Operation GoString)) :
    (s.push device actor batch).2.devices = s.devices ∧
      ∃ added, (s.push device actor batch).2.entries = s.entries ++ added ∧
        ∀ e ∈ added, e.device = device ∧ e.actor = actor ∧ s.active device actor = true := by
  rcases push_cases hc device actor batch with ⟨e, h⟩ | ⟨fresh, hactive, -, -, -, h⟩
  · rw [h]
    exact ⟨rfl, [], by simp, fun _ he => by cases he⟩
  · rw [h]
    obtain ⟨added, hentries, hadded⟩ := acceptAll_entries device actor s fresh
    exact ⟨acceptAll_devices _ _ _ _, added, hentries,
      fun e he => ⟨(hadded e he).1, (hadded e he).2, hactive⟩⟩

theorem isRevoked_iff {s : Space} {id : GoString} :
    s.isRevoked id = true ↔ ∃ d, s.devices.lookup id = some d ∧ d.revoked = true := by
  unfold isRevoked
  cases s.devices.lookup id with
  | none => simp
  | some d => simp

/-- A revoked device is not active, for any actor. -/
theorem not_active {s : Space} {id : GoString} (h : s.isRevoked id = true) (actor : GoString) :
    s.active id actor = false := by
  obtain ⟨d, hd, hrevoked⟩ := isRevoked_iff.mp h
  simp [active, hd, hrevoked]

/-! ### Who has written -/

/-- What is new in a workspace carries a device and an actor: the entries both, the devices and the
audit the actor. -/
structure Signed (device actor : GoString) (s s' : Space) : Prop where
  entries : ∃ added, s'.entries = s.entries ++ added ∧
    ∀ e ∈ added, e.device = device ∧ e.actor = actor
  devices : ∀ id d, s'.devices.lookup id = some d → s.devices.lookup id = none → d.actor = actor
  audit : ∃ added, s'.audit = s.audit ++ added ∧ ∀ a ∈ added, a.actor = actor

theorem Signed.refl (device actor : GoString) (s : Space) : Signed device actor s s where
  entries := ⟨[], by simp, fun _ he => by cases he⟩
  devices id d h h' := by rw [h] at h'; cases h'
  audit := ⟨[], by simp, fun _ ha => by cases ha⟩

/-- One event is recorded, and what is registered is the actor's. -/
theorem Signed.log {device actor action target : GoString} {s s' : Space}
    (hentries : s'.entries = s.entries) (haudit : s'.audit = s.audit)
    (hdevices : ∀ id d, s'.devices.lookup id = some d → s.devices.lookup id = none →
      d.actor = actor) : Signed device actor s (s'.log actor action target) where
  entries := ⟨[], by simp [hentries], fun _ he => by cases he⟩
  devices := hdevices
  audit := ⟨_, by rw [log_audit, haudit], fun a ha => by rw [List.mem_singleton.mp ha]⟩

theorem acceptAll_audit (device actor : GoString) (s : Space) (fresh : List (Operation GoString)) :
    ∃ added, (acceptAll device actor s fresh).audit = s.audit ++ added ∧
      ∀ a ∈ added, a.actor = actor := by
  induction fresh generalizing s with
  | nil => exact ⟨[], by simp, fun _ ha => by cases ha⟩
  | cons o rest ih =>
      obtain ⟨added, haudit, hadded⟩ := ih (accept device actor s o)
      refine ⟨_ :: added, by rw [accept_audit, List.append_assoc] at haudit; exact haudit, ?_⟩
      intro a ha
      rcases List.mem_cons.mp ha with rfl | ha
      · rfl
      · exact hadded a ha

theorem register_signed (s : Space) (device : GoString) (d : Device) :
    Signed device d.actor s (s.register d).2 := by
  unfold register
  split
  · split <;> exact Signed.refl _ _ _
  · refine Signed.log rfl rfl fun id x hx hnone => ?_
    simp only [lookup_insert] at hx
    split at hx
    · rw [← Option.some.inj hx]
    · rw [hx] at hnone
      cases hnone

theorem revoke_signed (s : Space) (device id actor : GoString) :
    Signed device actor s (s.revoke id actor).2 := by
  unfold revoke
  split
  · exact Signed.refl _ _ _
  next d hd =>
  split
  · exact Signed.refl _ _ _
  · refine Signed.log rfl rfl fun id' x hx hnone => ?_
    simp only [lookup_insert] at hx
    split at hx
    · next hid =>
        rw [hid, hd] at hnone
        cases hnone
    · rw [hx] at hnone
      cases hnone

theorem push_signed {s : Space} (hc : Causal s.ops) (device actor : GoString)
    (batch : List (Operation GoString)) : Signed device actor s (s.push device actor batch).2 := by
  rcases push_cases hc device actor batch with ⟨e, h⟩ | ⟨fresh, -, -, -, -, h⟩
  · rw [h]
    exact Signed.refl _ _ _
  · rw [h]
    exact
      { entries := acceptAll_entries device actor s fresh
        devices := fun id d hd hnone => by
          rw [acceptAll_devices, hnone] at hd
          cases hd
        audit := acceptAll_audit device actor s fresh }

theorem putAttachment_signed (s : Space) (device actor : GoString) (a : Attachment) :
    Signed device actor s (s.putAttachment device actor a).2 := by
  unfold putAttachment
  split
  · exact Signed.refl _ _ _
  split
  · split <;> exact Signed.refl _ _ _
  · refine Signed.log rfl rfl fun id d hd hnone => ?_
    dsimp only at hd
    rw [hnone] at hd
    cases hd

/-- What is in the audit stays, and comes first. -/
theorem write_audit {s : Space} (hi : s.Inv) (c : Write) : s.audit <+: (s.write c).2.audit := by
  have first : ∀ {device actor : GoString} {s' : Space}, Signed device actor s s' →
      s.audit <+: s'.audit := fun h => by
    obtain ⟨added, haudit, -⟩ := h.audit
    exact ⟨added, haudit.symm⟩
  cases c with
  | register d => exact first (register_signed s [] d)
  | revoke id actor => exact first (revoke_signed s [] id actor)
  | push device actor batch => exact first (push_signed hi.causal device actor batch)
  | putAttachment device actor a => exact first (putAttachment_signed s device actor a)

/-! ### One call -/

theorem putAttachment_keeps (s : Space) (device actor : GoString) (a : Attachment) :
    (s.putAttachment device actor a).2.devices = s.devices ∧
      (s.putAttachment device actor a).2.entries = s.entries := by
  unfold putAttachment
  split
  · exact ⟨rfl, rfl⟩
  · split
    · split <;> exact ⟨rfl, rfl⟩
    · exact ⟨rfl, rfl⟩

/-- A device stays registered, with its actor; and it stays revoked, as it is. -/
theorem write_device {s : Space} (hi : s.Inv) (c : Write) {id : GoString} {d : Device}
    (h : s.devices.lookup id = some d) :
    ∃ d', (s.write c).2.devices.lookup id = some d' ∧ d'.actor = d.actor ∧
      (d.revoked = true → d' = d) := by
  have hsame : ∀ {s' : Space}, s'.devices = s.devices → ∃ d', s'.devices.lookup id = some d' ∧
      d'.actor = d.actor ∧ (d.revoked = true → d' = d) :=
    fun heq => ⟨d, heq ▸ h, rfl, fun _ => rfl⟩
  cases c with
  | register x =>
      simp only [write, register]
      cases hx : s.devices.lookup x.id with
      | some old =>
          dsimp only
          split <;> exact hsame rfl
      | none =>
          have hne : id ≠ x.id := by
            rintro rfl
            rw [h] at hx; cases hx
          exact ⟨d, by simp [hne, h], rfl, fun _ => rfl⟩
  | revoke x actor =>
      simp only [write, revoke]
      cases hx : s.devices.lookup x with
      | none => exact hsame rfl
      | some old =>
          by_cases hrevoked : old.revoked = true
          · simp only [hrevoked, if_true]
            exact hsame rfl
          · simp only [hrevoked, Bool.false_eq_true, if_false]
            by_cases hid : id = x
            · subst hid
              rw [h] at hx
              obtain rfl := Option.some.inj hx
              refine ⟨{ d with revoked := true }, by simp, rfl, fun hr => ?_⟩
              exact absurd hr hrevoked
            · exact ⟨d, by simp [hid, h], rfl, fun _ => rfl⟩
  | push device actor batch => exact hsame (push_entries hi.causal device actor batch).1
  | putAttachment device actor a => exact hsame (putAttachment_keeps s device actor a).1

/-- Nothing is appended for a revoked device. -/
theorem write_pushedBy {s : Space} (hi : s.Inv) (c : Write) {id : GoString}
    (h : s.isRevoked id = true) : (s.write c).2.pushedBy id = s.pushedBy id := by
  cases c with
  | register x =>
      simp only [write, register]
      split
      · split <;> rfl
      · rfl
  | revoke x actor =>
      simp only [write, revoke]
      split
      · rfl
      · split <;> rfl
  | push device actor batch =>
      obtain ⟨-, added, hentries, hadded⟩ := push_entries hi.causal device actor batch
      simp only [write, pushedBy, hentries, List.filter_append]
      -- Whatever was appended is of an active device.
      have hnone : added.filter (fun e => e.device == id) = [] := by
        refine List.filter_eq_nil_iff.mpr fun e he heq => ?_
        obtain ⟨hdevice, -, hactive⟩ := hadded e he
        rw [← hdevice, beq_iff_eq.mp heq, not_active h] at hactive
        cases hactive
      rw [hnone, List.append_nil]
  | putAttachment device actor a =>
      exact congrArg (List.filter _) (putAttachment_keeps s device actor a).2

/-- Once `Revoke` has returned, the device is revoked. -/
theorem revoke_takes_effect {s : Space} {id actor : GoString} (h : (s.revoke id actor).1 = .ok ()) :
    (s.revoke id actor).2.isRevoked id = true := by
  rw [isRevoked_iff]
  unfold revoke at h ⊢
  cases hd : s.devices.lookup id with
  | none => rw [hd] at h; cases h
  | some d =>
      by_cases hrevoked : d.revoked = true
      · exact ⟨d, by simp [hrevoked, hd]⟩
      · exact ⟨{ d with revoked := true }, by simp [hrevoked]⟩

/-- Through a revoked device every method is refused, and changes nothing. -/
structure Refused (s : Space) (id : GoString) : Prop where
  push : ∀ actor batch, s.push id actor batch = (.error .forbidden, s)
  putAttachment : ∀ actor a, s.putAttachment id actor a = (.error .forbidden, s)
  register : ∀ d : Device, d.id = id → s.register d = (.error .forbidden, s)

theorem refused {s : Space} {id : GoString} (h : s.isRevoked id = true) : s.Refused id where
  push actor batch := by simp [Space.push, not_active h]
  putAttachment actor a := by simp [Space.putAttachment, not_active h]
  register d hd := by
    obtain ⟨old, hold, hrevoked⟩ := isRevoked_iff.mp h
    rw [Space.register, hd, hold]
    simp [hrevoked]

/-! ### Runs -/

/-- **What later calls leave of a device.** -/
theorem Later.device {s s' : Space} (h : s.Later s') (hi : s.Inv) {id : GoString} {d : Device}
    (hd : s.devices.lookup id = some d) :
    ∃ d', s'.devices.lookup id = some d' ∧ d'.actor = d.actor ∧ (d.revoked = true → d' = d) := by
  induction h with
  | refl => exact ⟨d, hd, rfl, fun _ => rfl⟩
  | @tail t t' hst hstep ih =>
      obtain ⟨d₁, hd₁, hactor₁, hrevoked₁⟩ := ih
      cases hstep with
      | write c hc =>
          obtain ⟨d₂, hd₂, hactor₂, hrevoked₂⟩ := write_device (Later.inv hst hi) c hd₁
          refine ⟨d₂, hd₂, hactor₂.trans hactor₁, fun hrevoked => ?_⟩
          have heq := hrevoked₁ hrevoked
          exact (hrevoked₂ (heq ▸ hrevoked)).trans heq

/-- Revocation is permanent. -/
theorem Later.isRevoked {s s' : Space} (h : s.Later s') (hi : s.Inv) {id : GoString}
    (hr : s.isRevoked id = true) : s'.isRevoked id = true := by
  obtain ⟨d, hd, hrevoked⟩ := isRevoked_iff.mp hr
  obtain ⟨d', hd', -, heq⟩ := h.device hi hd
  exact isRevoked_iff.mpr ⟨d', hd', (heq hrevoked) ▸ hrevoked⟩

/-- After a revocation the entries of the device are what they were. -/
theorem Later.pushedBy {s s' : Space} (h : s.Later s') (hi : s.Inv) {id : GoString}
    (hr : s.isRevoked id = true) : s'.pushedBy id = s.pushedBy id := by
  induction h with
  | refl => rfl
  | @tail t t' hst hstep ih =>
      cases hstep with
      | write c hc =>
          rw [write_pushedBy (Later.inv hst hi) c (Later.isRevoked hst hi hr), ih]

end Space

end Syncraft.Store
