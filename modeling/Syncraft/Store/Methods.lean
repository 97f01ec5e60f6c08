import Syncraft.Library.Program
import Syncraft.Store.MemoryInvariant

/-!
# Syncraft.Store.Methods

The interface of `internal/store/store.go`, as calls of a program, and how the in-memory adapter
answers them. Besides the methods of `Syncraft.Store.Memory` these are the two that
list what a workspace holds.
-/

namespace Syncraft.Store

open Domain Library

/-- A method with its arguments, and what it returns. -/
inductive Method : Type → Type where
  | register (d : Device) : Method (Except Err Unit)
  | devices : Method (Except Err (List Device))
  | device (id : GoString) : Method (Except Err Device)
  | revoke (id actor : GoString) : Method (Except Err Unit)
  | push (device actor : GoString) (batch : List (Operation GoString)) : Method (Except Err Nat)
  | pull (after limit : Int) : Method (Except Err Page)
  | audit (after limit : Int) : Method (Except Err (List Audit))
  | putAttachment (device actor : GoString) (a : Attachment) : Method (Except Err Unit)
  | getAttachment (id : GoString) : Method (Except Err Attachment)
  | attachments (record : GoString) : Method (Except Err (List Attachment))

/-- The handlers register a device unrevoked. -/
def Method.Handled {β : Type} : Method β → Prop
  | .register d => d.revoked = false
  | _ => True

/-- Besides, the attachments they put are among `puts`. -/
def Method.Within {β : Type} (puts : Attachment → Prop) : Method β → Prop
  | .register d => d.revoked = false
  | .putAttachment _ _ a => puts a
  | _ => True

theorem Method.Within.handled {β : Type} {puts : Attachment → Prop} {c : Method β}
    (h : c.Within puts) : c.Handled := by
  cases c with
  | register d => exact h
  | _ => trivial

theorem Method.Within.mono {β : Type} {puts puts' : Attachment → Prop}
    (hputs : ∀ a, puts a → puts' a) {c : Method β} (h : c.Within puts) : c.Within puts' := by
  cases c with
  | register d => exact h
  | putAttachment device actor a => exact hputs a h
  | _ => trivial

namespace Space

/-- `Devices` -/
def listDevices (s : Space) : List Device :=
  (s.devices.entries.map fun e => e.2).insertionSort fun a b => a.id ≤ b.id

/-- `Attachments`: of one record, without their data. -/
def listAttachments (s : Space) (record : GoString) : List Attachment :=
  ((s.attachments.entries.map fun e => e.2).filter fun a => a.record == record).map
    (fun a => { a with data := [] }) |>.insertionSort fun a b => a.id ≤ b.id

/-- Answer a method. -/
def answer {β : Type} : Method β → Space → β × Space
  | .register d, s => s.register d
  | .devices, s => (.ok s.listDevices, s)
  | .device id, s => (s.device id, s)
  | .revoke id actor, s => s.revoke id actor
  | .push device actor batch, s => s.push device actor batch
  | .pull after limit, s => (s.pull after limit, s)
  | .audit after limit, s => (s.auditPage after limit, s)
  | .putAttachment device actor a, s => s.putAttachment device actor a
  | .getAttachment id, s => (s.getAttachment id, s)
  | .attachments record, s => (.ok (s.listAttachments record), s)

/-- A method writes or leaves the workspace as it is. -/
theorem answer_later (s : Space) {β : Type} {c : Method β} (hc : c.Handled) :
    s.Later (s.answer c).2 := by
  cases c with
  | register d => exact Relation.ReflTransGen.single (Step.write (.register d) hc)
  | revoke id actor => exact Relation.ReflTransGen.single (Step.write (.revoke id actor) trivial)
  | push device actor batch =>
      exact Relation.ReflTransGen.single (Step.write (.push device actor batch) trivial)
  | putAttachment device actor a =>
      exact Relation.ReflTransGen.single (Step.write (.putAttachment device actor a) trivial)
  | _ => exact Relation.ReflTransGen.refl

end Space

/-- Answer a method in a workspace. -/
def Memory.answer (m : Memory) (w : GoString) {β : Type} (c : Method β) : β × Memory :=
  (((m w).answer c).1, Function.update m w ((m w).answer c).2)

theorem Memory.answer_self (m : Memory) (w : GoString) {β : Type} (c : Method β) :
    (m.answer w c).2 w = ((m w).answer c).2 := Function.update_self _ _ _

theorem Memory.answer_of_ne (m : Memory) {w w' : GoString} (h : w' ≠ w) {β : Type} (c : Method β) :
    (m.answer w c).2 w' = m w' := Function.update_of_ne h _ _

end Syncraft.Store
