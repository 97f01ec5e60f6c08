import Syncraft.Store.PostgresConcurrency
import Syncraft.Store.Revocation

/-!
# Syncraft.Store.PostgresRevocation

What a revoked device can still do to a workspace of the PostgreSQL adapter: nothing, whatever
transactions run at the same time. Each write reads the device again under the lock of the
workspace's row.

A device is named by a text that PostgreSQL reads as its `uuid`; the rows hold the `uuid`.
-/

namespace Syncraft.Store

open Domain RowLock

namespace Rows

/-- What a statement leaves of the devices and of what is theirs. `device` is the one device
that operations may be added for; of the audit, only events other than revocations are added. -/
structure Respects (device : Option GoString) (r r' : Rows) : Prop where
  /-- A device keeps its actor, and stays revoked as it is. -/
  devices : ∀ x ∈ r.devices, ∃ y ∈ r'.devices, y.id = x.id ∧ y.actor = x.actor ∧
    (x.revoked = true → y = x)
  unique : (r.devices.map DeviceRow.id).Nodup → (r'.devices.map DeviceRow.id).Nodup
  operations : ∃ added, r'.operations = r.operations ++ added ∧ ∀ o ∈ added, some o.device = device
  audit : ∀ t, Space.audited r'.auditEvents deviceRevoked t = Space.audited r.auditEvents deviceRevoked t

theorem Respects.refl {device : Option GoString} (r : Rows) : r.Respects device r where
  devices x hx := ⟨x, hx, rfl, rfl, fun _ => rfl⟩
  unique h := h
  operations := ⟨[], by simp, fun _ ho => by cases ho⟩
  audit _ := rfl

theorem devices_trans {r₁ r₂ r₃ : Rows}
    (h : ∀ x ∈ r₁.devices, ∃ y ∈ r₂.devices, y.id = x.id ∧ y.actor = x.actor ∧
      (x.revoked = true → y = x))
    (h' : ∀ x ∈ r₂.devices, ∃ y ∈ r₃.devices, y.id = x.id ∧ y.actor = x.actor ∧
      (x.revoked = true → y = x)) :
    ∀ x ∈ r₁.devices, ∃ y ∈ r₃.devices, y.id = x.id ∧ y.actor = x.actor ∧
      (x.revoked = true → y = x) := by
  intro x hx
  obtain ⟨y, hy, hid, hactor, hrevoked⟩ := h x hx
  obtain ⟨z, hz, hid', hactor', hrevoked'⟩ := h' y hy
  refine ⟨z, hz, hid'.trans hid, hactor'.trans hactor, fun hr => ?_⟩
  have heq := hrevoked hr
  exact (hrevoked' (heq ▸ hr)).trans heq

theorem Respects.trans {device : Option GoString} (r₁ r₂ r₃ : Rows) (h : r₁.Respects device r₂)
    (h' : r₂.Respects device r₃) : r₁.Respects device r₃ where
  devices := devices_trans h.devices h'.devices
  unique hn := h'.unique (h.unique hn)
  operations := by
    obtain ⟨added, hops, hadded⟩ := h.operations
    obtain ⟨added', hops', hadded'⟩ := h'.operations
    refine ⟨added ++ added', by rw [hops', hops, List.append_assoc], fun o ho => ?_⟩
    exact (List.mem_append.mp ho).elim (hadded o) (hadded' o)
  audit t := (h'.audit t).trans (h.audit t)

/-- A statement that leaves devices, operations and audit alone. -/
theorem Respects.of_eq {device : Option GoString} {r r' : Rows} (hdevices : r'.devices = r.devices)
    (hops : r'.operations = r.operations) (haudit : r'.auditEvents = r.auditEvents) :
    r.Respects device r' where
  devices x hx := ⟨x, hdevices ▸ hx, rfl, rfl, fun _ => rfl⟩
  unique h := hdevices ▸ h
  operations := ⟨[], by simp [hops], fun _ ho => by cases ho⟩
  audit t := by rw [haudit]

/-- The operations that a device has pushed. -/
def pushedBy (r : Rows) (device : GoString) : List OperationRow :=
  r.operations.filter fun o => o.device == device

end Rows

namespace Postgres

open Rows (Respects)

variable {pg : Pg} {device : Option GoString}

/-! ### Statements -/

theorem logAudit_respects (actor target : GoString) {action : GoString}
    (h : action ≠ deviceRevoked) :
    (logAudit pg actor action target).Keeps (Respects device) := by
  refine Tx.Keeps.exec fun r δ hδ => ?_
  split at hδ
  · cases hδ
  split at hδ
  · obtain rfl := Except.ok.inj hδ
    exact Respects.refl r
  split at hδ
  · cases hδ
  obtain rfl := Except.ok.inj hδ
  have hkeep : r.Respects device r := Respects.refl r
  exact { hkeep with audit := fun t => by simp [Space.audited_snoc, h] }

theorem insertDevice_respects (d : Device) :
    (Tx.exec (insertDevice pg d)).Keeps (Respects device) := by
  refine Tx.Keeps.exec fun r δ hδ => ?_
  unfold insertDevice at hδ
  split at hδ
  · cases hδ
  next id hid =>
  split at hδ
  · cases hδ
  next hchecks =>
  obtain rfl := Except.ok.inj hδ
  have hnew : ∀ x ∈ r.devices, x.id ≠ id := by
    intro x hx heq
    refine hchecks ?_
    simp only [Bool.or_eq_true, List.any_eq_true]
    exact Or.inr ⟨x, hx, beq_iff_eq.mpr heq⟩
  exact
    { devices := fun x hx => ⟨x, List.mem_append_left _ hx, rfl, rfl, fun _ => rfl⟩
      unique := fun hn => by
        simp only [List.map_append, List.map_singleton]
        refine List.nodup_append.mpr ⟨hn, List.nodup_singleton _, fun a ha b hb heq => ?_⟩
        obtain ⟨x, hx, rfl⟩ := List.mem_map.mp ha
        exact hnew x hx (heq.trans (List.mem_singleton.mp hb))
      operations := ⟨[], by simp, fun _ ho => by cases ho⟩
      audit := fun _ => rfl }

theorem revokeDevice_respects (id : GoString) :
    (Tx.exec (revokeDevice pg id)).Keeps (Respects device) := by
  refine Tx.Keeps.exec fun r δ hδ => ?_
  unfold revokeDevice at hδ
  split at hδ
  · cases hδ
  next id hid =>
  obtain rfl := Except.ok.inj hδ
  have hids : (r.devices.map fun d => if d.id = id then { d with revoked := true } else d).map
      DeviceRow.id = r.devices.map DeviceRow.id := by
    rw [List.map_map]
    refine List.map_congr_left fun d _ => ?_
    dsimp only [Function.comp]
    split <;> rfl
  exact
    { devices := fun x hx => by
        refine ⟨_, List.mem_map_of_mem hx, ?_, ?_, fun hr => ?_⟩
        · split <;> rfl
        · split <;> rfl
        · split
          · rw [← hr]
          · rfl
      unique := fun hn => by rw [hids]; exact hn
      operations := ⟨[], by simp, fun _ ho => by cases ho⟩
      audit := fun _ => rfl }

theorem insertAttachment_respects (a : Attachment) :
    (Tx.exec (insertAttachment pg a)).Keeps (Respects device) := by
  refine Tx.Keeps.exec fun r δ hδ => ?_
  unfold insertAttachment at hδ
  split at hδ
  · split at hδ
    · cases hδ
    · obtain rfl := Except.ok.inj hδ
      exact Respects.of_eq rfl rfl rfl
  · cases hδ

theorem insertOperation_respects (o : Operation GoString) (dev actor : GoString) :
    (Tx.exec (insertOperation pg o dev actor)).Keeps (Respects (pg.uuid dev)) := by
  refine Tx.Keeps.exec fun r δ hδ => ?_
  unfold insertOperation at hδ
  split at hδ
  · next id dev' content w hid hdev hcontent hw =>
      split at hδ
      · cases hδ
      · obtain rfl := Except.ok.inj hδ
        have hkeep : r.Respects (pg.uuid dev) r := Respects.refl r
        exact
          { hkeep with
            operations := ⟨_, rfl, fun x hx => by rw [List.mem_singleton.mp hx, hdev]⟩ }
  · obtain rfl := Except.ok.inj hδ
    exact Respects.refl r
  · cases hδ

/-! ### Devices -/

/-- A device that was found. -/
theorem deviceRow_ok {id : GoString} {r : Rows} {d : DeviceRow} (h : deviceRow pg id r = .ok d) :
    pg.uuid id = some d.id ∧ d ∈ r.devices := by
  unfold deviceRow at h
  split at h
  · cases h
  next uuid huuid =>
  split at h
  · next x hx =>
      obtain rfl := Except.ok.inj h
      have hid : x.id = uuid := by simpa using List.find?_some hx
      exact ⟨hid ▸ huuid, List.mem_of_find?_eq_some hx⟩
  · cases h

/-- Where IDs are unique, a device is found under every text of its ID. -/
theorem deviceRow_of_mem {id : GoString} {r : Rows} {d : DeviceRow}
    (hn : (r.devices.map DeviceRow.id).Nodup) (hd : d ∈ r.devices) (hid : pg.uuid id = some d.id) :
    deviceRow pg id r = .ok d := by
  have hfind : r.devices.find? (fun x => x.id == d.id) = some d := by
    cases hx : r.devices.find? fun x => x.id == d.id with
    | none => simpa using List.find?_eq_none.mp hx d hd
    | some x =>
        have hxid : x.id = d.id := by simpa using List.find?_some hx
        rw [List.inj_on_of_nodup_map hn (List.mem_of_find?_eq_some hx) hd hxid]
  simp only [deviceRow, hid, hfind]

/-- A revoked device is not active, for any actor and under any text of its ID. -/
theorem active_eq_false {id actor : GoString} {r : Rows} {d : DeviceRow}
    (hn : (r.devices.map DeviceRow.id).Nodup) (hd : d ∈ r.devices) (hid : pg.uuid id = some d.id)
    (hrevoked : d.revoked = true) : active pg id actor r = false := by
  simp [active, deviceRow_of_mem hn hd hid, hrevoked]

/-- What an audit statement does. -/
theorem logAudit_rows {actor action target : GoString} {r r' : Rows}
    (h : (logAudit pg actor action target).run r = .ok ((), r')) :
    r'.devices = r.devices ∧ r'.operations = r.operations ∧
      (r'.auditEvents = r.auditEvents ∨
        ∃ n, r'.auditEvents = r.auditEvents ++ [{ sequence := n, actor, action, target }]) := by
  unfold logAudit Tx.exec at h
  rw [Tx.run] at h
  split at h
  · next δ hδ =>
      obtain ⟨-, rfl⟩ := Prod.mk.inj (Except.ok.inj h)
      split at hδ
      · cases hδ
      split at hδ
      · obtain rfl := Except.ok.inj hδ
        exact ⟨rfl, rfl, Or.inl rfl⟩
      split at hδ
      · cases hδ
      obtain rfl := Except.ok.inj hδ
      exact ⟨rfl, rfl, Or.inr ⟨_, rfl⟩⟩
  · cases h

end Postgres

namespace Rows

variable {pg : Pg}

/-- The devices of a workspace, and the audit of their revocations. -/
structure Registered (pg : Pg) (r : Rows) : Prop where
  unique : (r.devices.map DeviceRow.id).Nodup
  /-- A revocation is recorded once. -/
  once : ∀ t, Space.audited r.auditEvents deviceRevoked t ≤ 1
  /-- A recorded revocation has taken effect. -/
  effect : ∀ t, Space.audited r.auditEvents deviceRevoked t ≠ 0 →
    ∃ d ∈ r.devices, pg.uuid t = some d.id ∧ d.revoked = true

theorem new_registered : new.Registered pg where
  unique := List.nodup_nil
  once _ := Nat.zero_le _
  effect _ h := absurd rfl h

/-- What a transaction leaves of the devices. -/
structure Holds (r r' : Rows) : Prop where
  devices : ∀ x ∈ r.devices, ∃ y ∈ r'.devices, y.id = x.id ∧ y.actor = x.actor ∧
    (x.revoked = true → y = x)
  pushed : ∀ x ∈ r.devices, x.revoked = true → r'.pushedBy x.id = r.pushedBy x.id

theorem Holds.refl (r : Rows) : r.Holds r where
  devices x hx := ⟨x, hx, rfl, rfl, fun _ => rfl⟩
  pushed _ _ _ := rfl

theorem Holds.trans {r₁ r₂ r₃ : Rows} (h : r₁.Holds r₂) (h' : r₂.Holds r₃) : r₁.Holds r₃ where
  devices := devices_trans h.devices h'.devices
  pushed x hx hr := by
    obtain ⟨y, hy, -, -, hrevoked⟩ := h.devices x hx
    obtain rfl := hrevoked hr
    exact (h'.pushed y hy hr).trans (h.pushed y hx hr)

/-- Statements that add operations for no revoked device. -/
theorem Respects.holds {device : Option GoString} {r r' : Rows} (h : r.Respects device r')
    (hdevice : ∀ x ∈ r.devices, x.revoked = true → some x.id ≠ device) : r.Holds r' where
  devices := h.devices
  pushed x hx hr := by
    obtain ⟨added, hops, hadded⟩ := h.operations
    have hnone : added.filter (fun o => o.device == x.id) = [] := by
      refine List.filter_eq_nil_iff.mpr fun o ho heq => hdevice x hx hr ?_
      rw [← hadded o ho, beq_iff_eq.mp heq]
    rw [pushedBy, hops, List.filter_append, hnone, List.append_nil]
    rfl

/-- Statements that record no revocation. -/
theorem Registered.of_respects {device : Option GoString} {r r' : Rows} (hr : r.Registered pg)
    (h : r.Respects device r') : r'.Registered pg where
  unique := h.unique hr.unique
  once t := by rw [h.audit]; exact hr.once t
  effect t ht := by
    rw [h.audit] at ht
    obtain ⟨d, hd, huuid, hrevoked⟩ := hr.effect t ht
    obtain ⟨y, hy, -, -, heq⟩ := h.devices d hd
    obtain rfl := heq hrevoked
    exact ⟨y, hy, huuid, hrevoked⟩

end Rows

namespace Postgres

open Rows (Respects Registered Holds)

variable {pg : Pg}

/-- The update marks the device. -/
theorem revokeDevice_marks {id : GoString} {r r' : Rows} {d : DeviceRow}
    (h : (Tx.exec (revokeDevice pg id)).run r = .ok ((), r')) (huuid : pg.uuid id = some d.id)
    (hd : d ∈ r.devices) : { d with revoked := true } ∈ r'.devices := by
  unfold Tx.exec revokeDevice at h
  rw [Tx.run, huuid] at h
  obtain ⟨-, rfl⟩ := Prod.mk.inj (Except.ok.inj h)
  refine List.mem_map.mpr ⟨d, hd, ?_⟩
  rw [if_pos rfl]

/-- Recording a revocation: it was not recorded before, as the device was not revoked. -/
theorem revoke_registered {r r₁ r' : Rows} {id actor : GoString} {d : DeviceRow}
    (hr : r.Registered pg) (hr₁ : r₁.Registered pg) (huuid : pg.uuid id = some d.id)
    (hd : d ∈ r.devices) (hnot : d.revoked = false) (hmarked : { d with revoked := true } ∈ r₁.devices)
    (hsame : ∀ t, Space.audited r₁.auditEvents deviceRevoked t =
      Space.audited r.auditEvents deviceRevoked t)
    (hdevices : r'.devices = r₁.devices)
    (haudit : r'.auditEvents = r₁.auditEvents ∨ ∃ n, r'.auditEvents =
      r₁.auditEvents ++ [{ sequence := n, actor, action := deviceRevoked, target := id }]) :
    r'.Registered pg := by
  have hzero : Space.audited r₁.auditEvents deviceRevoked id = 0 := by
    by_contra hne
    rw [hsame] at hne
    obtain ⟨x, hx, hxid, hrevoked⟩ := hr.effect id hne
    rw [huuid] at hxid
    obtain rfl := List.inj_on_of_nodup_map hr.unique hx hd (Option.some.inj hxid).symm
    rw [hnot] at hrevoked
    cases hrevoked
  refine ⟨by rw [hdevices]; exact hr₁.unique, fun t => ?_, fun t ht => ?_⟩
  · rcases haudit with heq | ⟨n, heq⟩
    · rw [heq]; exact hr₁.once t
    · rw [heq, Space.audited_snoc]
      by_cases ht : id = t
      · subst ht
        rw [hzero]
        simp
      · simpa [ht] using hr₁.once t
  · rw [hdevices]
    by_cases hid : id = t
    · subst hid
      exact ⟨_, hmarked, huuid, rfl⟩
    · refine hr₁.effect t ?_
      rcases haudit with heq | ⟨n, heq⟩
      · rwa [heq] at ht
      · rw [heq, Space.audited_snoc] at ht
        simpa [hid] using ht

/-- `Revoke`, committed: the device is revoked, and that is recorded if it was not before. -/
theorem revoke_holds {id actor : GoString} {r r' : Rows} (hr : r.Registered pg)
    (h : (revoke pg id actor).run r = .ok ((), r')) :
    (r'.Registered pg ∧ r.Holds r') ∧
      ∃ x ∈ r'.devices, pg.uuid id = some x.id ∧ x.revoked = true := by
  unfold revoke at h
  rw [Tx.run_bind_ok (Tx.run_ask _ _)] at h
  split at h
  · cases h
  next d hd =>
  obtain ⟨huuid, hmem⟩ := deviceRow_ok hd
  split at h
  · next hrevoked =>
      obtain ⟨-, rfl⟩ := Prod.mk.inj (Except.ok.inj h)
      exact ⟨⟨hr, Holds.refl r⟩, d, hmem, huuid, hrevoked⟩
  next hnot =>
  obtain ⟨u, r₁, h₁, h₂⟩ := Tx.run_bind_inv h
  have hkeeps : (Tx.exec (revokeDevice pg id)).Keeps (Respects none) := revokeDevice_respects id
  have hstep := hkeeps.run Respects.refl Respects.trans h₁
  have hreg₁ := hr.of_respects hstep
  have hholds := hstep.holds fun x _ _ => by simp
  obtain ⟨hdevices, hops, haudit⟩ := logAudit_rows h₂
  have hmarked := revokeDevice_marks h₁ huuid hmem
  have hreg := revoke_registered hr hreg₁ huuid hmem (by simpa using hnot) hmarked hstep.audit
    hdevices haudit
  refine ⟨⟨hreg, fun x hx => hdevices ▸ hholds.devices x hx, fun x hx hrev => ?_⟩,
    { d with revoked := true }, hdevices ▸ hmarked, huuid, rfl⟩
  rw [Rows.pushedBy, hops]
  exact hholds.pushed x hx hrev

/-! ### Transactions -/

/-- A push through a device that is not active gives up. -/
theorem push_forbidden {id actor : GoString} {r : Rows} (h : active pg id actor r = false)
    (batch : List (Operation GoString)) : (push pg id actor batch).run r = .error .forbidden := by
  rw [push, Tx.run_bind_ok (Tx.run_ask _ _), h, if_pos (by simp)]
  rfl

theorem putAttachment_forbidden {id actor : GoString} {r : Rows} (h : active pg id actor r = false)
    (a : Attachment) : (putAttachment pg id actor a).run r = .error .forbidden := by
  rw [putAttachment, Tx.run_bind_ok (Tx.run_ask _ _), h, if_pos (by simp)]
  rfl

theorem register_forbidden {d : Device} {r : Rows} {old : DeviceRow}
    (h : deviceRow pg d.id r = .ok old) (hrevoked : old.revoked = true) :
    (register pg d).run r = .error .forbidden := by
  rw [register, Tx.run_bind_ok (Tx.run_ask _ _), h]
  simp only [hrevoked, Bool.or_true, if_true]
  rfl

/-- **What a write leaves of the devices.** -/
theorem body_holds {w : GoString} {c : Write} {r r' : Rows} {a : Result} (hr : r.Registered pg)
    (h : (body pg w c).run r = .ok (a, r')) : r'.Registered pg ∧ r.Holds r' := by
  have hnone : ∀ x ∈ r.devices, x.revoked = true → some x.id ≠ none := fun _ _ _ h => by cases h
  -- None of the actions recorded on the way is a revocation.
  obtain ⟨-, haccepted, -, hregistered, -, hstored⟩ := Space.actions_ne
  unfold body at h
  split at h
  · cases h
  cases c with
  | register d =>
      obtain ⟨u, r₁, h₁, h₂⟩ := Tx.run_bind_inv h
      obtain ⟨-, rfl⟩ := Prod.mk.inj (Except.ok.inj h₂)
      have hkeeps : (Postgres.register pg d).Keeps (Respects none) :=
        register_keeps Respects.refl (insertDevice_respects d) (logAudit_respects _ _ hregistered)
      have hstep := hkeeps.run Respects.refl Respects.trans h₁
      exact ⟨hr.of_respects hstep, hstep.holds hnone⟩
  | revoke id actor =>
      obtain ⟨u, r₁, h₁, h₂⟩ := Tx.run_bind_inv h
      obtain ⟨-, rfl⟩ := Prod.mk.inj (Except.ok.inj h₂)
      exact (revoke_holds hr h₁).1
  | push dev actor batch =>
      obtain ⟨n, r₁, h₁, h₂⟩ := Tx.run_bind_inv h
      obtain ⟨-, rfl⟩ := Prod.mk.inj (Except.ok.inj h₂)
      have hkeeps : (push pg dev actor batch).Keeps (Respects (pg.uuid dev)) :=
        push_keeps Respects.refl (fun o => insertOperation_respects o dev actor)
          (fun t => logAudit_respects _ t haccepted.symm) batch
      have hstep := hkeeps.run Respects.refl Respects.trans h₁
      refine ⟨hr.of_respects hstep, hstep.holds fun x hx hrevoked hid => ?_⟩
      rw [push_forbidden (active_eq_false hr.unique hx hid.symm hrevoked)] at h₁
      cases h₁
  | putAttachment dev actor b =>
      obtain ⟨u, r₁, h₁, h₂⟩ := Tx.run_bind_inv h
      obtain ⟨-, rfl⟩ := Prod.mk.inj (Except.ok.inj h₂)
      have hkeeps : (Postgres.putAttachment pg dev actor b).Keeps (Respects none) :=
        putAttachment_keeps Respects.refl dev (insertAttachment_respects b)
          (logAudit_respects _ _ hstored.symm)
      have hstep := hkeeps.run Respects.refl Respects.trans h₁
      exact ⟨hr.of_respects hstep, hstep.holds hnone⟩

/-- Inserting the row of the workspace leaves its devices alone. -/
theorem ensure_respects (w : GoString) (r : Rows) :
    r.Respects none ((workload pg w).ensure r) := by
  unfold Workload.ensure
  split
  · exact Respects.refl r
  · exact Respects.of_eq rfl rfl rfl

theorem later_holds {w : GoString} {r r' : Rows} (h : Later (workload pg w) r r')
    (hr : r.Registered pg) : r'.Registered pg ∧ r.Holds r' := by
  refine h.keeps (P := fun t => t.Registered pg ∧ r.Holds t) ⟨hr, Holds.refl r⟩ ?_
  rintro t t' ⟨ht, hholds⟩ ⟨c, a, hrun⟩
  have hensure : t.Respects none ((workload pg w).ensure t) := ensure_respects w t
  obtain ⟨ht', hholds'⟩ := body_holds (ht.of_respects hensure) hrun
  exact ⟨ht', hholds.trans ((hensure.holds fun _ _ _ h => by cases h).trans hholds')⟩

end Postgres

namespace Rows

open Postgres

variable {pg : Pg}

/-- Through a revoked device every write fails, and changes nothing. `id` is any text of its
ID. -/
structure Refused (pg : Pg) (w : GoString) (r : Rows) (id : GoString) : Prop where
  push : ∀ actor batch, ∃ e, r.write pg w (.push id actor batch) = (.error e, r)
  putAttachment : ∀ actor a, ∃ e, r.write pg w (.putAttachment id actor a) = (.error e, r)
  register : ∀ d : Device, d.id = id → ∃ e, r.write pg w (.register d) = (.error e, r)

theorem write_error {w : GoString} {c : Write} {r : Rows} {e : Err}
    (h : (body pg w c).run (if r.workspace.isSome then r else r.create) = .error e) :
    r.write pg w c = (.error e, r) := by
  rw [write, h]
  rfl

theorem refused {w : GoString} {r : Rows} (hr : r.Registered pg) {x : DeviceRow}
    (hx : x ∈ r.devices) (hrevoked : x.revoked = true) {id : GoString} (hid : pg.uuid id = some x.id) :
    r.Refused pg w id := by
  -- The row of the workspace is inserted first, if it is not there.
  obtain ⟨r₀, hr₀, hdevices⟩ : ∃ r₀, (if r.workspace.isSome then r else r.create) = r₀ ∧
      r₀.devices = r.devices := by
    split
    · exact ⟨r, rfl, rfl⟩
    · exact ⟨r.create, rfl, rfl⟩
  have hn : (r₀.devices.map DeviceRow.id).Nodup := hdevices ▸ hr.unique
  have hx₀ : x ∈ r₀.devices := hdevices ▸ hx
  have fails : ∀ c : Write, (∃ e, (body pg w c).run r₀ = .error e) →
      ∃ e, r.write pg w c = (.error e, r) := by
    rintro c ⟨e, he⟩
    exact ⟨e, write_error (by rw [hr₀, he])⟩
  refine ⟨fun actor batch => fails _ ?_, fun actor a => fails _ ?_, fun d hd => fails _ ?_⟩
  · unfold body
    split
    · exact ⟨_, rfl⟩
    · exact ⟨_, Tx.run_bind_error (push_forbidden (active_eq_false hn hx₀ hid hrevoked) batch) _⟩
  · unfold body
    split
    · exact ⟨_, rfl⟩
    · exact ⟨_, Tx.run_bind_error
        (putAttachment_forbidden (active_eq_false hn hx₀ hid hrevoked) a) _⟩
  · unfold body
    split
    · exact ⟨_, rfl⟩
    · exact ⟨_, Tx.run_bind_error
        (register_forbidden (deviceRow_of_mem hn hx₀ (hd ▸ hid)) hrevoked) _⟩

/-- Once `Revoke` has returned, the device is revoked. -/
theorem revoke_takes_effect {w id actor : GoString} {r : Rows} (hr : r.Registered pg)
    (h : (r.write pg w (.revoke id actor)).1 = .ok .done) :
    ∃ x ∈ (r.write pg w (.revoke id actor)).2.devices, pg.uuid id = some x.id ∧ x.revoked = true := by
  unfold write at h ⊢
  have hens : (if r.workspace.isSome then r else r.create) = (workload pg w).ensure r := rfl
  rw [hens] at h ⊢
  cases hrun : (body pg w (.revoke id actor)).run ((workload pg w).ensure r) with
  | error e => rw [hrun] at h; cases h
  | ok res =>
      obtain ⟨a, r'⟩ := res
      unfold body at hrun
      split at hrun
      · cases hrun
      obtain ⟨u, r₁, h₁, h₂⟩ := Tx.run_bind_inv hrun
      obtain ⟨-, rfl⟩ := Prod.mk.inj (Except.ok.inj h₂)
      exact (revoke_holds (hr.of_respects (ensure_respects w r)) h₁).2

end Rows

end Syncraft.Store
