import Syncraft.Library.Keyed
import Syncraft.Store.Methods
import Syncraft.Store.PostgresRefinement
import Syncraft.Store.PostgresRevocation

/-!
# Syncraft.Store.Listings

The two methods that list what a workspace holds, on both adapters. The in-memory adapter goes
through its maps and sorts; PostgreSQL answers one statement, and stops at 500 rows. The rows hold
one device and one attachment for each ID (`Rows.Registered`, `Rows.Attached`), so up to there the
two list the same.
-/

namespace Syncraft.Store

open Domain Library RowLock

namespace Rows

/-- The primary key of the table. -/
def Attached (r : Rows) : Prop := (r.attachments.map AttachmentRow.id).Nodup

/-- What a statement leaves of it. -/
def KeepsAttached (r r' : Rows) : Prop := r.Attached → r'.Attached

theorem KeepsAttached.trans (r₁ r₂ r₃ : Rows) (h : r₁.KeepsAttached r₂) (h' : r₂.KeepsAttached r₃) :
    r₁.KeepsAttached r₃ := fun hr => h' (h hr)

end Rows

namespace Postgres

variable {pg : Pg}

/-! ### One attachment for each ID -/

theorem logAudit_attached (actor action target : GoString) :
    (logAudit pg actor action target).Keeps Rows.KeepsAttached := by
  refine Tx.Keeps.exec fun r δ h hr => ?_
  split at h
  · cases h
  split at h
  · obtain rfl := Except.ok.inj h
    exact hr
  split at h
  · cases h
  obtain rfl := Except.ok.inj h
  exact hr

theorem insertDevice_attached (d : Device) :
    (Tx.exec (insertDevice pg d)).Keeps Rows.KeepsAttached := by
  refine Tx.Keeps.exec fun r δ h hr => ?_
  unfold insertDevice at h
  split at h
  · cases h
  split at h
  · cases h
  obtain rfl := Except.ok.inj h
  exact hr

theorem revokeDevice_attached (id : GoString) :
    (Tx.exec (revokeDevice pg id)).Keeps Rows.KeepsAttached := by
  refine Tx.Keeps.exec fun r δ h hr => ?_
  unfold revokeDevice at h
  split at h
  · cases h
  obtain rfl := Except.ok.inj h
  exact hr

theorem insertOperation_attached (o : Operation GoString) (device actor : GoString) :
    (Tx.exec (insertOperation pg o device actor)).Keeps Rows.KeepsAttached := by
  refine Tx.Keeps.exec fun r δ h hr => ?_
  unfold insertOperation at h
  split at h
  · split at h
    · cases h
    · obtain rfl := Except.ok.inj h
      exact hr
  · obtain rfl := Except.ok.inj h
    exact hr
  · cases h

/-- The primary key is checked where a row is added. -/
theorem insertAttachment_attached (a : Attachment) :
    (Tx.exec (insertAttachment pg a)).Keeps Rows.KeepsAttached := by
  refine Tx.Keeps.exec fun r δ h hr => ?_
  unfold insertAttachment at h
  split at h
  · next id record hid hrecord =>
      split at h
      · cases h
      next hchecks =>
      obtain rfl := Except.ok.inj h
      have hnew : ∀ x ∈ r.attachments, x.id ≠ id := by
        intro x hx heq
        refine hchecks ?_
        simp only [Bool.or_eq_true, List.any_eq_true]
        exact Or.inr ⟨x, hx, beq_iff_eq.mpr heq⟩
      show ((r.attachments ++ [_]).map AttachmentRow.id).Nodup
      rw [List.map_append, List.map_singleton]
      refine List.nodup_append.mpr ⟨hr, List.nodup_singleton _, fun b hb c hc heq => ?_⟩
      obtain ⟨x, hx, rfl⟩ := List.mem_map.mp hb
      exact hnew x hx (heq.trans (List.mem_singleton.mp hc))
  · cases h

/-- A call keeps the primary keys. -/
theorem call_keyed {w : GoString} {r : Rows} {c : Call} (hr : r.Registered pg) (ha : r.Attached) :
    (r.call pg w c).2.Registered pg ∧ (r.call pg w c).2.Attached := by
  cases c with
  | read c => exact ⟨hr, ha⟩
  | write c =>
      have hens : ((workload pg w).ensure r).Registered pg ∧ ((workload pg w).ensure r).Attached := by
        refine ⟨hr.of_respects (ensure_respects w r), ?_⟩
        unfold Workload.ensure
        split <;> exact ha
      have hcall : (r.call pg w (.write c)).2 =
          (r.finish ((body pg w c).run ((workload pg w).ensure r))).2 := rfl
      rw [hcall]
      cases hrun : (body pg w c).run ((workload pg w).ensure r) with
      | error e => exact ⟨hr, ha⟩
      | ok res =>
          obtain ⟨a, r'⟩ := res
          have hkeeps := (body_keeps (fun _ h => h) logAudit_attached insertDevice_attached
            revokeDevice_attached insertOperation_attached insertAttachment_attached w c).run
            (fun _ h => h) Rows.KeepsAttached.trans hrun
          exact ⟨(body_holds hens.1 hrun).1, hkeeps hens.2⟩

theorem after_keyed (calls : List (GoString × Call)) (w : GoString) :
    (Postgres.new.after pg calls w).Registered pg ∧ (Postgres.new.after pg calls w).Attached := by
  have run : ∀ (calls : List (GoString × Call)) (db : Postgres),
      (∀ w, (db w).Registered pg ∧ (db w).Attached) →
      ∀ w, (db.after pg calls w).Registered pg ∧ (db.after pg calls w).Attached := by
    intro calls
    induction calls with
    | nil => intro db h; exact h
    | cons wc rest ih =>
        intro db h
        refine ih (db.call pg wc.1 wc.2).2 fun w' => ?_
        unfold Postgres.call
        by_cases hw : w' = wc.1
        · subst hw
          simp only [Function.update_self]
          exact call_keyed (h _).1 (h _).2
        · simp only [Function.update_of_ne hw]
          exact h w'
  exact run calls Postgres.new (fun _ => ⟨Rows.new_registered, List.nodup_nil⟩) w

/-! ### What both adapters list -/

section Lists

variable {s : Space} {r : Rows} (h : Refines s r)

include h

theorem devices_perm (hr : r.Registered pg) :
    (s.devices.entries.map fun e => e.2).Perm (r.devices.map DeviceRow.toDevice) := by
  have hn : ((r.devices.map DeviceRow.toDevice).map Device.id).Nodup := by
    rw [List.map_map]
    exact hr.unique
  refine values_perm hn fun id => ?_
  rw [h.devices id, List.find?_map]
  rfl

theorem attachments_perm (ha : r.Attached) :
    (s.attachments.entries.map fun e => e.2).Perm
      (r.attachments.map AttachmentRow.toAttachment) := by
  have hn : ((r.attachments.map AttachmentRow.toAttachment).map Attachment.id).Nodup := by
    rw [List.map_map]
    exact ha
  refine values_perm hn fun id => ?_
  rw [h.attachments id, List.find?_map]
  rfl

end Lists

/-- What `Attachments` answers is the start of what the in-memory method does. -/
theorem listAttachments_run (hpg : pg.Documented) {w : GoString} (hw : plainText w = true)
    {s : Space} {r : Rows} (h : Refines s r) (ha : r.Attached) {record : GoString}
    (hrecord : validID record = true) :
    (listAttachments pg w record).run r = .ok ((s.listAttachments record).take 500) := by
  have htext : (!pg.text w) = false := by rw [hpg.text w hw]; rfl
  let bare (a : AttachmentRow) : Attachment := { a.toAttachment with data := [] }
  let rows := r.attachments.filter fun a => a.record == record
  have hrun : (listAttachments pg w record).run r =
      .ok (((rows.insertionSort fun a b => a.id ≤ b.id).take 500).map bare) := by
    simp only [listAttachments, htext, if_neg Bool.false_ne_true, attachmentsOf,
      hpg.uuid record hrecord]
    rfl
  have hperm : (((s.attachments.entries.map fun e => e.2).filter fun a => a.record == record).map
      fun a => { a with data := [] }).Perm (rows.map bare) := by
    refine (((attachments_perm h ha).filter _).map _).trans (List.Perm.of_eq ?_)
    rw [List.filter_map, List.map_map]
    rfl
  have hn : ((rows.map bare).map Attachment.id).Nodup := by
    rw [List.map_map]
    exact ha.sublist (List.filter_sublist.map _)
  have hsort : (rows.insertionSort fun a b => a.id ≤ b.id).map bare =
      (rows.map bare).insertionSort fun a b => a.id ≤ b.id :=
    List.map_insertionSort _ _ bare rows fun _ _ _ _ => Iff.rfl
  rw [hrun, List.map_take, hsort]
  exact congrArg (fun l => Except.ok (List.take 500 l)) (insertionSort_eq_of_perm hn hperm.symm)

/-- What `Devices` answers is the start of what the in-memory method does, in the order in which
the devices were registered. -/
theorem listDevices_run (hpg : pg.Documented) {w : GoString} (hw : plainText w = true)
    {s : Space} {r : Rows} (h : Refines s r) (hr : r.Registered pg) (created : GoString → Nat) :
    (listDevices pg created w).run r = .ok ((s.listDevices.insertionSort fun a b =>
      toLex (created a.id, a.id) ≤ toLex (created b.id, b.id)).take 500) := by
  have htext : (!pg.text w) = false := by rw [hpg.text w hw]; rfl
  have hrun : (listDevices pg created w).run r = .ok ((devicesBy created r).map DeviceRow.toDevice) := by
    simp only [listDevices, htext, if_neg Bool.false_ne_true]
    rfl
  have hperm : (r.devices.map DeviceRow.toDevice).Perm s.listDevices :=
    (devices_perm h hr).symm.trans (List.perm_insertionSort _ _).symm
  have hn : ((r.devices.map DeviceRow.toDevice).map fun d => toLex (created d.id, d.id)).Nodup := by
    refine List.Nodup.of_map (fun k => (ofLex k).2) ?_
    rw [List.map_map, List.map_map]
    exact hr.unique
  have hsort : (r.devices.insertionSort fun a b =>
        toLex (created a.id, a.id) ≤ toLex (created b.id, b.id)).map DeviceRow.toDevice =
      (r.devices.map DeviceRow.toDevice).insertionSort fun a b =>
        toLex (created a.id, a.id) ≤ toLex (created b.id, b.id) :=
    List.map_insertionSort _ _ _ _ fun _ _ _ _ => Iff.rfl
  rw [hrun, devicesBy, List.map_take, hsort]
  exact congrArg (fun l => Except.ok (List.take 500 l)) (insertionSort_eq_of_perm hn hperm)

end Postgres

open Postgres

/-- **The adapters list the same.** After every sequence of well-formed calls, run on both from
empty, PostgreSQL lists the first 500 of what the in-memory adapter does: of the attachments of a
record by ID, and of the devices by the time of their registration and then by ID. -/
theorem listings_agree {pg : Pg} (hpg : pg.Documented) (calls : List (GoString × Call))
    (hcalls : ∀ wc ∈ calls, plainText wc.1 = true ∧ wc.2.WellFormed) {w : GoString}
    (hw : plainText w = true) :
    (∀ record, validID record = true →
      (listAttachments pg w record).run (Postgres.new.after pg calls w) =
        .ok (((Memory.new.after calls w).listAttachments record).take 500)) ∧
    ∀ created : GoString → Nat,
      (listDevices pg created w).run (Postgres.new.after pg calls w) =
        .ok (((Memory.new.after calls w).listDevices.insertionSort fun a b =>
          toLex (created a.id, a.id) ≤ toLex (created b.id, b.id)).take 500) := by
  obtain ⟨-, href⟩ := after_refines hpg hcalls w
  obtain ⟨hregistered, hattached⟩ : (Postgres.new.after pg calls w).Registered pg ∧
      (Postgres.new.after pg calls w).Attached := after_keyed calls w
  refine ⟨fun record hrecord => ?_, fun created => ?_⟩
  · exact listAttachments_run hpg hw href hattached hrecord
  · exact listDevices_run hpg hw href hregistered created

/-- A text file of one byte, for the crane. -/
def gateFile (id : GoString) : Attachment :=
  { id, record := firstEdit.record, name := go "gate.txt", type := go "text/plain",
    sha256 := go "ca978112", size := 1, data := [97] }

/-- The tablet registers and puts two files, the second with the smaller ID. -/
theorem listings_agree_run :
    let first := gateFile (go "0d000000-0000-4000-8000-000000000001")
    let second := gateFile (go "0d000000-0000-4000-8000-000000000002")
    (listAttachments Pg.standard (go "site-a") firstEdit.record).run
        (Postgres.new.after Pg.standard
          ([.write (.register tablet), .write (.putAttachment tablet.id tablet.actor second),
            .write (.putAttachment tablet.id tablet.actor first)].map fun c => (go "site-a", c))
          (go "site-a")) =
      .ok [{ first with data := [] }, { second with data := [] }] := by
  intro first second
  have hw : plainText (go "site-a") = true := by decide
  have hrecord : validID firstEdit.record = true := by decide
  have hname : plainText (go "gate.txt") = true := by decide
  have htype : plainText (go "text/plain") = true := by decide
  have hhash : plainText (go "ca978112") = true := by decide
  have hput : ∀ id, validID id = true →
      (Call.write (.putAttachment tablet.id tablet.actor (gateFile id))).WellFormed := fun id h =>
    ⟨by decide, by decide, h, hrecord, hname, htype, hhash, Nat.le_add_left 1 5242879, rfl⟩
  refine ((listings_agree Pg.standard_documented _ ?_ hw).1 firstEdit.record hrecord).trans ?_
  · simp only [List.map_cons, List.map_nil, List.mem_cons, List.not_mem_nil, or_false,
      forall_eq_or_imp, forall_eq]
    exact ⟨⟨hw, by decide, by decide, by decide, rfl⟩, ⟨hw, hput _ (by decide)⟩, hw,
      hput _ (by decide)⟩
  · rfl

end Syncraft.Store
