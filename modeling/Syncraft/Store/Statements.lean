import Syncraft.Store.Postgres

/-!
# Syncraft.Store.Statements

What the statements of the PostgreSQL adapter keep, its writes keep: a relation that every
statement of a write stays within, the whole body stays within. Each lemma asks only for the
statements its body runs, so that what holds of some writes alone (no revocation is recorded,
operations are inserted for one device) goes through the same bodies.
-/

namespace Syncraft.Store.Postgres

open Domain RowLock

variable {pg : Pg} {R : Rows → Rows → Prop}

section Statements

variable (hrefl : ∀ r, R r r)

include hrefl

/-- The statements of `load` only read. -/
theorem loadIDs_keeps (known : OpMap) (ids : List GoString) : (loadIDs pg known ids).Keeps R := by
  induction ids generalizing known with
  | nil => trivial
  | cons id rest ih =>
      rw [loadIDs]
      split
      · exact ih known
      · refine Tx.Keeps.bind (Tx.Keeps.ask hrefl _) fun found => ?_
        split
        · exact ih _
        · exact ih known
        · trivial

theorem load_keeps (known : OpMap) (batch : List (Operation GoString)) :
    (load pg known batch).Keeps R := by
  induction batch generalizing known with
  | nil => trivial
  | cons o rest ih =>
      simp only [load_cons]
      cases validate o with
      | error e => exact trivial
      | ok u => exact Tx.Keeps.bind (loadIDs_keeps hrefl known _) fun known' => ih known'

omit hrefl in
theorem insertAll_keeps {device actor : GoString}
    (hoperation : ∀ o, (Tx.exec (insertOperation pg o device actor)).Keeps R)
    (hlog : ∀ target, (logAudit pg actor operationAccepted target).Keeps R) (known : OpMap)
    (batch : List (Operation GoString)) : (insertAll pg device actor known batch).Keeps R := by
  induction batch generalizing known with
  | nil => trivial
  | cons o rest ih =>
      rw [insertAll]
      split
      · exact ih known
      · refine Tx.Keeps.bind (hoperation o) fun _ => ?_
        exact Tx.Keeps.bind (hlog _) fun _ => ih _

theorem register_keeps {d : Device} (hdevice : (Tx.exec (insertDevice pg d)).Keeps R)
    (hlog : (logAudit pg d.actor deviceRegistered d.id).Keeps R) : (register pg d).Keeps R := by
  refine Tx.Keeps.bind (Tx.Keeps.ask hrefl _) fun found => ?_
  split
  · split <;> trivial
  · exact Tx.Keeps.bind hdevice fun _ => hlog
  · trivial

theorem revoke_keeps {id actor : GoString} (hrevoke : (Tx.exec (revokeDevice pg id)).Keeps R)
    (hlog : (logAudit pg actor deviceRevoked id).Keeps R) : (revoke pg id actor).Keeps R := by
  refine Tx.Keeps.bind (Tx.Keeps.ask hrefl _) fun found => ?_
  split
  · trivial
  · split
    · trivial
    · exact Tx.Keeps.bind hrevoke fun _ => hlog

theorem push_keeps {device actor : GoString}
    (hoperation : ∀ o, (Tx.exec (insertOperation pg o device actor)).Keeps R)
    (hlog : ∀ target, (logAudit pg actor operationAccepted target).Keeps R)
    (batch : List (Operation GoString)) : (push pg device actor batch).Keeps R := by
  refine Tx.Keeps.bind (Tx.Keeps.ask hrefl _) fun ok => ?_
  split
  · trivial
  · split
    · trivial
    · refine Tx.Keeps.bind (load_keeps hrefl _ _) fun known => ?_
      split
      · trivial
      · refine Tx.Keeps.bind (insertAll_keeps hoperation hlog _ _) fun _ => ?_
        refine Tx.Keeps.bind (Tx.Keeps.ask hrefl _) fun n => ?_
        split <;> trivial

theorem putAttachment_keeps (device : GoString) {actor : GoString} {a : Attachment}
    (hattachment : (Tx.exec (insertAttachment pg a)).Keeps R)
    (hlog : (logAudit pg actor attachmentStored a.id).Keeps R) :
    (putAttachment pg device actor a).Keeps R := by
  refine Tx.Keeps.bind (Tx.Keeps.ask hrefl _) fun ok => ?_
  split
  · trivial
  · refine Tx.Keeps.bind (Tx.Keeps.ask hrefl _) fun found => ?_
    split
    · split <;> trivial
    · exact Tx.Keeps.bind hattachment fun _ => hlog
    · trivial

/-- What the five statements that write keep, every write keeps. -/
theorem body_keeps (hlog : ∀ actor action target, (logAudit pg actor action target).Keeps R)
    (hdevice : ∀ d, (Tx.exec (insertDevice pg d)).Keeps R)
    (hrevoke : ∀ id, (Tx.exec (revokeDevice pg id)).Keeps R)
    (hoperation : ∀ o device actor, (Tx.exec (insertOperation pg o device actor)).Keeps R)
    (hattachment : ∀ a, (Tx.exec (insertAttachment pg a)).Keeps R) (w : GoString) (c : Write) :
    (body pg w c).Keeps R := by
  unfold body
  split
  · trivial
  · cases c with
    | register d => exact Tx.Keeps.bind (register_keeps hrefl (hdevice d) (hlog _ _ _)) fun _ => trivial
    | revoke id actor =>
        exact Tx.Keeps.bind (revoke_keeps hrefl (hrevoke id) (hlog _ _ _)) fun _ => trivial
    | push device actor batch =>
        exact Tx.Keeps.bind (push_keeps hrefl (fun o => hoperation o _ _) (fun t => hlog _ _ t) batch)
          fun _ => trivial
    | putAttachment device actor a =>
        exact Tx.Keeps.bind (putAttachment_keeps hrefl device (hattachment a) (hlog _ _ _))
          fun _ => trivial

end Statements

end Syncraft.Store.Postgres
