import Syncraft.Library.Numbered
import Syncraft.Store.Memory

/-!
# Syncraft.Store.MemoryInvariant

What holds of a workspace of the in-memory adapter after any sequence of calls: the log is
causal and counts from one, and the audit records exactly what was stored.

`Inv` is the inductive invariant; `write_inv` carries it over one write and
`Space.Reachable.inv` over a run. `Consistent` is what a reader of the log and of the audit
relies on, and follows from it.
-/

namespace Syncraft.Store

open Domain CausalLog

/-! ### Runs -/

/-- One write to a workspace. -/
inductive Space.Step (s : Space) : Space → Prop where
  | write (c : Write) : c.Handled → Space.Step s (s.write c).2

/-- `s'` is what some writes make of `s`. -/
def Space.Later (s s' : Space) : Prop := Relation.ReflTransGen Space.Step s s'

/-- A workspace after some writes. -/
def Space.Reachable (s : Space) : Prop := Space.Later Space.new s

/-- One write to the adapter, in any workspace. -/
inductive Memory.Step (m : Memory) : Memory → Prop where
  | write (w : GoString) (c : Write) : c.Handled → Memory.Step m (m.call w (.write c)).2

/-- The adapter after some writes. -/
def Memory.Reachable (m : Memory) : Prop := Relation.ReflTransGen Memory.Step Memory.new m

/-- A write to the adapter is a write to one workspace. -/
theorem Memory.Step.space {m m' : Memory} (h : m.Step m') (w : GoString) :
    (m w).Later (m' w) := by
  cases h with
  | write w' c hc =>
      by_cases hw : w = w'
      · subst hw
        have : (m.call w (.write c)).2 w = ((m w).write c).2 := Function.update_self _ _ _
        rw [this]
        exact Relation.ReflTransGen.single (Space.Step.write c hc)
      · have : (m.call w' (.write c)).2 w = m w := Function.update_of_ne hw _ _
        rw [this]
        exact Relation.ReflTransGen.refl

theorem Memory.Reachable.space {m : Memory} (h : m.Reachable) (w : GoString) :
    (m w).Reachable := by
  induction h with
  | refl => exact Relation.ReflTransGen.refl
  | tail _ hstep ih => exact ih.trans (hstep.space w)

namespace Space

/-! ### Errors change nothing -/

theorem write_error {s : Space} {c : Write} {e : Err} (h : (s.write c).1 = .error e) :
    (s.write c).2 = s := by
  cases c with
  | register d =>
      simp only [write, register] at h ⊢
      split
      · split <;> rfl
      · next hd => simp [hd, Except.map] at h
  | revoke id actor =>
      simp only [write, revoke] at h ⊢
      split
      · rfl
      · next d hd =>
          split
          · rfl
          · next hr => simp [hd, hr, Except.map] at h
  | push device actor batch =>
      simp only [write, push] at h ⊢
      split
      · rfl
      · next ha =>
          split
          · rfl
          · next hv => simp [ha, hv, Except.map] at h
  | putAttachment device actor a =>
      simp only [write, putAttachment] at h ⊢
      split
      · rfl
      · next ha =>
          split
          · split <;> rfl
          · next hl => simp [ha, hl, Except.map] at h

/-- **A call that reports an error leaves the workspace as it was.** -/
theorem call_error {s : Space} {c : Call} {e : Err} (h : (s.call c).1 = .error e) :
    (s.call c).2 = s := by
  cases c with
  | write c => exact write_error h
  | read c => rfl

/-! ### The invariant -/

/-- How many audit events name the action and the target. -/
def audited (audit : List Audit) (action target : GoString) : Nat :=
  audit.countP fun a => a.action == action && a.target == target

/-- The audit events of accepted operations, as actor and operation. -/
def acceptances (audit : List Audit) : List (GoString × GoString) :=
  (audit.filter fun a => a.action == operationAccepted).map fun a => (a.actor, a.target)

/-- The device is registered and revoked. -/
def isRevoked (s : Space) (id : GoString) : Bool :=
  match s.devices.lookup id with
  | some d => d.revoked
  | none => false

theorem audited_snoc (audit : List Audit) (e : Audit) (action target : GoString) :
    audited (audit ++ [e]) action target =
      audited audit action target + if e.action = action ∧ e.target = target then 1 else 0 := by
  simp [audited, List.countP_append, List.countP_singleton]

theorem acceptances_snoc (audit : List Audit) (e : Audit) :
    acceptances (audit ++ [e]) =
      acceptances audit ++ if e.action = operationAccepted then [(e.actor, e.target)] else [] := by
  by_cases h : e.action = operationAccepted
  · simp [acceptances, h]
  · simp [acceptances, h]

/-- Looking up what was just inserted, or something else. -/
theorem lookup_insert {β : Type} (m : AList (fun _ : GoString => β)) (id : GoString) (b : β)
    (x : GoString) : (m.insert id b).lookup x = if x = id then some b else m.lookup x := by
  by_cases h : x = id
  · subst h
    rw [if_pos rfl, AList.lookup_insert]
  · rw [if_neg h, AList.lookup_insert_ne h]

/-- The inductive invariant of a workspace. -/
structure Inv (s : Space) : Prop where
  causal : Causal s.ops
  sequence : Numbered Entry.sequence s.entries
  valid : ∀ o ∈ s.ops, Valid o
  /-- An entry was pushed by a device of its actor. -/
  owner : ∀ e ∈ s.entries, ∃ d, s.devices.lookup e.device = some d ∧ d.actor = e.actor
  auditSequence : Numbered Audit.sequence s.audit
  accepted : acceptances s.audit = s.entries.map fun e => (e.actor, e.operation.id)
  registered : ∀ id, audited s.audit deviceRegistered id = if (s.devices.lookup id).isSome then 1 else 0
  revoked : ∀ id, audited s.audit deviceRevoked id = if s.isRevoked id then 1 else 0
  stored : ∀ id,
    audited s.audit attachmentStored id = if (s.attachments.lookup id).isSome then 1 else 0
  actions : ∀ a ∈ s.audit, a.action = operationAccepted ∨ a.action = deviceRegistered ∨
    a.action = deviceRevoked ∨ a.action = attachmentStored

theorem new_inv : new.Inv where
  causal := Causal.nil
  sequence := Numbered.nil
  valid _ h := absurd h List.not_mem_nil
  owner _ h := absurd h List.not_mem_nil
  auditSequence := Numbered.nil
  accepted := rfl
  registered _ := rfl
  revoked _ := rfl
  stored _ := rfl
  actions _ h := absurd h List.not_mem_nil

/-- The four actions are four. -/
theorem actions_ne : deviceRegistered ≠ operationAccepted ∧ deviceRevoked ≠ operationAccepted ∧
    attachmentStored ≠ operationAccepted ∧ deviceRegistered ≠ deviceRevoked ∧
    deviceRegistered ≠ attachmentStored ∧ deviceRevoked ≠ attachmentStored := by
  decide

/-- Logging an action other than an acceptance keeps what the invariant says about the log
and about the order of the audit. The three counts are the caller's. -/
theorem Inv.log {s s' : Space} {actor action target : GoString} (hi : s.Inv)
    (hentries : s'.entries = s.entries) (haudit : s'.audit = s.audit)
    (hact : action = deviceRegistered ∨ action = deviceRevoked ∨ action = attachmentStored)
    (howner : ∀ e ∈ s.entries, ∃ d, s'.devices.lookup e.device = some d ∧ d.actor = e.actor)
    (hreg : ∀ id, audited s.audit deviceRegistered id +
        (if action = deviceRegistered ∧ target = id then 1 else 0) =
      if (s'.devices.lookup id).isSome then 1 else 0)
    (hrev : ∀ id, audited s.audit deviceRevoked id +
        (if action = deviceRevoked ∧ target = id then 1 else 0) =
      if s'.isRevoked id then 1 else 0)
    (hsto : ∀ id, audited s.audit attachmentStored id +
        (if action = attachmentStored ∧ target = id then 1 else 0) =
      if (s'.attachments.lookup id).isSome then 1 else 0) :
    (s'.log actor action target).Inv := by
  have hops : (s'.log actor action target).ops = s.ops := by
    rw [ops, ops, log_entries, hentries]
  have hne : action ≠ operationAccepted := by
    obtain ⟨h₁, h₂, h₃, -⟩ := actions_ne
    rcases hact with rfl | rfl | rfl
    · exact h₁
    · exact h₂
    · exact h₃
  refine ⟨hops ▸ hi.causal, ?_, hops ▸ hi.valid, ?_, ?_, ?_, ?_, ?_, ?_, ?_⟩
  · simp only [log_entries, hentries]; exact hi.sequence
  · simp only [log_entries, hentries, log_devices]; exact howner
  · simp only [log_audit, haudit]
    exact hi.auditSequence.snoc rfl
  · rw [log_audit, haudit, acceptances_snoc, if_neg hne, List.append_nil, log_entries, hentries]
    exact hi.accepted
  · intro id; rw [log_audit, haudit, audited_snoc]; exact hreg id
  · intro id; rw [log_audit, haudit, audited_snoc]; exact hrev id
  · intro id; rw [log_audit, haudit, audited_snoc]; exact hsto id
  · intro a ha
    rw [log_audit, haudit, List.mem_append, List.mem_singleton] at ha
    rcases ha with ha | rfl
    · exact hi.actions a ha
    · exact Or.inr hact

theorem register_inv {s : Space} (hi : s.Inv) {d : Device} (hd : d.revoked = false) :
    (s.register d).2.Inv := by
  obtain ⟨-, -, -, hne₁, hne₂, -⟩ := actions_ne
  unfold register
  cases hl : s.devices.lookup d.id with
  | some old => dsimp only; split <;> exact hi
  | none =>
      refine hi.log rfl rfl (Or.inl rfl) ?_ ?_ ?_ ?_
      · intro e he
        obtain ⟨x, hx, hxa⟩ := hi.owner e he
        have hxd : e.device ≠ d.id := by intro h; rw [h, hl] at hx; cases hx
        exact ⟨x, by rw [lookup_insert, if_neg hxd, hx], hxa⟩
      · intro id
        rw [hi.registered, lookup_insert]
        by_cases h : id = d.id
        · subst h; simp [hl]
        · simp [h, Ne.symm h]
      · intro id
        rw [if_neg fun h => hne₁ h.1, Nat.add_zero, hi.revoked]
        unfold isRevoked
        simp only [lookup_insert]
        by_cases h : id = d.id
        · subst h; simp [hl, hd]
        · rw [if_neg h]
      · intro id
        rw [if_neg fun h => hne₂ h.1, Nat.add_zero, hi.stored]

theorem revoke_inv {s : Space} (hi : s.Inv) (id actor : GoString) :
    (s.revoke id actor).2.Inv := by
  obtain ⟨-, -, -, hne₁, -, hne₂⟩ := actions_ne
  unfold revoke
  cases hl : s.devices.lookup id with
  | none => exact hi
  | some d =>
      dsimp only
      by_cases hr : d.revoked = true
      · rw [if_pos hr]; exact hi
      · rw [if_neg hr]
        refine hi.log rfl rfl (Or.inr (Or.inl rfl)) ?_ ?_ ?_ ?_
        · intro e he
          obtain ⟨x, hx, hxa⟩ := hi.owner e he
          by_cases h : e.device = id
          · rw [h, hl] at hx
            obtain rfl := Option.some.inj hx
            exact ⟨{ d with revoked := true }, by rw [lookup_insert, if_pos h], hxa⟩
          · exact ⟨x, by rw [lookup_insert, if_neg h, hx], hxa⟩
        · intro x
          rw [if_neg fun h => hne₁ h.1.symm, Nat.add_zero, hi.registered, lookup_insert]
          by_cases h : x = id
          · subst h; simp [hl]
          · rw [if_neg h]
        · intro x
          rw [hi.revoked]
          unfold isRevoked
          simp only [lookup_insert]
          by_cases h : x = id
          · subst h; simp [hl, hr]
          · simp [h, Ne.symm h]
        · intro x
          rw [if_neg fun h => hne₂ h.1, Nat.add_zero, hi.stored]

theorem putAttachment_inv {s : Space} (hi : s.Inv) (device actor : GoString) (a : Attachment) :
    (s.putAttachment device actor a).2.Inv := by
  obtain ⟨-, -, -, -, hne₁, hne₂⟩ := actions_ne
  unfold putAttachment
  split
  · exact hi
  · cases hl : s.attachments.lookup a.id with
    | some old => dsimp only; split <;> exact hi
    | none =>
        refine hi.log rfl rfl (Or.inr (Or.inr rfl)) hi.owner ?_ ?_ ?_
        · intro id
          rw [if_neg fun h => hne₁ h.1.symm, Nat.add_zero, hi.registered]
        · intro id
          rw [if_neg fun h => hne₂ h.1.symm, Nat.add_zero, hi.revoked]
          rfl
        · intro id
          rw [hi.stored, lookup_insert]
          by_cases h : id = a.id
          · subst h; simp [hl]
          · simp [h, Ne.symm h]

/-- Storing one operation that the log admits. -/
theorem accept_inv {s : Space} (hi : s.Inv) {device actor : GoString}
    {o : Operation GoString} (hact : s.active device actor = true) (hv : Valid o)
    (hf : find s.ops o.id = none) (hadm : Admissible s.ops o) : (accept device actor s o).Inv := by
  obtain ⟨hne₁, hne₂, hne₃, -⟩ := actions_ne
  refine ⟨?_, ?_, ?_, ?_, ?_, ?_, ?_, ?_, ?_, ?_⟩
  · simp only [ops_accept]; exact Causal.snoc hi.causal hf hadm
  · simp only [accept_entries]
    exact hi.sequence.snoc rfl
  · intro x hx
    simp only [ops_accept, List.mem_append, List.mem_singleton] at hx
    rcases hx with hx | rfl
    · exact hi.valid x hx
    · exact hv
  · intro e he
    simp only [accept_entries, List.mem_append, List.mem_singleton] at he
    simp only [accept_devices]
    rcases he with he | rfl
    · exact hi.owner e he
    · obtain ⟨d, hd, -, hda⟩ := active_iff.mp hact
      exact ⟨d, hd, hda⟩
  · simp only [accept_audit]
    exact hi.auditSequence.snoc rfl
  · rw [accept_audit, acceptances_snoc, if_pos rfl, accept_entries, List.map_append, hi.accepted,
      List.map_singleton]
  · intro id
    rw [accept_audit, audited_snoc, if_neg fun h => hne₁ h.1.symm]
    exact hi.registered id
  · intro id
    rw [accept_audit, audited_snoc, if_neg fun h => hne₂ h.1.symm]
    exact hi.revoked id
  · intro id
    rw [accept_audit, audited_snoc, if_neg fun h => hne₃ h.1.symm]
    exact hi.stored id
  · intro a ha
    simp only [accept_audit, List.mem_append, List.mem_singleton] at ha
    rcases ha with ha | rfl
    · exact hi.actions a ha
    · exact Or.inl rfl

/-- Storing what an admitted batch adds. -/
theorem acceptAll_inv {s : Space} (hi : s.Inv) {device actor : GoString}
    {fresh : List (Operation GoString)} (hact : s.active device actor = true)
    (hv : ∀ o ∈ fresh, Valid o) (hc : Causal (s.ops ++ fresh)) :
    (acceptAll device actor s fresh).Inv := by
  induction fresh generalizing s with
  | nil => exact hi
  | cons o rest ih =>
      have hcat : s.ops ++ o :: rest = (s.ops ++ [o]) ++ rest := by simp
      rw [hcat] at hc
      have hpre := hc.of_extends (List.prefix_append _ _)
      obtain ⟨hf, hadm⟩ := hpre.last
      refine ih (accept_inv hi hact (hv o List.mem_cons_self) hf hadm) ?_ ?_ ?_
      · simp only [accept_active]; exact hact
      · exact fun x hx => hv x (List.mem_cons_of_mem _ hx)
      · simp only [ops_accept]; exact hc

theorem push_inv {s : Space} (hi : s.Inv) (device actor : GoString)
    (batch : List (Operation GoString)) : (s.push device actor batch).2.Inv := by
  rcases push_cases hi.causal device actor batch with ⟨e, h⟩ | ⟨fresh, hact, -, hv, hadm, h⟩
  · rw [h]; exact hi
  · rw [h]
    refine acceptAll_inv hi hact (fun o ho => ?_) (admitAll_causal hi.causal hadm)
    -- What a batch adds, the batch contained.
    have hc := admitAll_causal hi.causal hadm
    have hmem : o ∈ s.ops ++ fresh := List.mem_append_right _ ho
    rcases mem_of_admitAll hadm hmem with hold | hnew
    · have hnd := hc.nodup
      simp only [List.map_append, List.nodup_append] at hnd
      exact absurd rfl (hnd.2.2 _ (List.mem_map_of_mem hold) _ (List.mem_map_of_mem ho))
    · exact hv o hnew

/-- **One write keeps the invariant.** -/
theorem write_inv {s : Space} (hi : s.Inv) {c : Write} (hc : c.Handled) : (s.write c).2.Inv := by
  cases c with
  | register d => exact register_inv hi hc
  | revoke id actor => exact revoke_inv hi id actor
  | push device actor batch => exact push_inv hi device actor batch
  | putAttachment device actor a => exact putAttachment_inv hi device actor a

theorem Later.inv {s s' : Space} (h : s.Later s') (hi : s.Inv) : s'.Inv := by
  induction h with
  | refl => exact hi
  | tail _ hstep ih =>
      cases hstep with
      | write c hc => exact write_inv ih hc

/-- Every reachable workspace satisfies the invariant. -/
theorem Reachable.inv {s : Space} (h : s.Reachable) : s.Inv := Later.inv h new_inv

/-! ### What readers of the log rely on -/

/-- One stored operation names another as its parent. -/
def ParentOf (s : Space) (e e' : Entry) : Prop :=
  e ∈ s.entries ∧ e' ∈ s.entries ∧ e.operation.id ∈ e'.operation.parents

/-- The log is numbered without gaps, holds every operation once and every parent before
its child, and names devices of the actors; the audit is numbered without gaps and records
exactly what is stored. -/
structure Consistent (s : Space) : Prop where
  sequence : ∀ (i : Nat) (h : i < s.entries.length), s.entries[i].sequence = i + 1
  distinct : (s.entries.map fun e => e.operation.id).Nodup
  valid : ∀ e ∈ s.entries, validate e.operation = .ok ()
  /-- Each parent is stored at a smaller sequence, in the same field of the same record. -/
  parents : ∀ e ∈ s.entries, ∀ p ∈ e.operation.parents, ∃ e' ∈ s.entries,
    e'.operation.id = p ∧ e'.sequence < e.sequence ∧
      e'.operation.record = e.operation.record ∧ e'.operation.field = e.operation.field
  acyclic : ∀ e, ¬ Relation.TransGen s.ParentOf e e
  owner : ∀ e ∈ s.entries, ∃ d, s.devices.lookup e.device = some d ∧ d.actor = e.actor
  auditSequence : ∀ (i : Nat) (h : i < s.audit.length), s.audit[i].sequence = i + 1
  accepted : acceptances s.audit = s.entries.map fun e => (e.actor, e.operation.id)
  registered : ∀ id, audited s.audit deviceRegistered id = if (s.devices.lookup id).isSome then 1 else 0
  revoked : ∀ id, audited s.audit deviceRevoked id = if s.isRevoked id then 1 else 0
  stored : ∀ id,
    audited s.audit attachmentStored id = if (s.attachments.lookup id).isSome then 1 else 0
  actions : ∀ a ∈ s.audit, a.action = operationAccepted ∨ a.action = deviceRegistered ∨
    a.action = deviceRevoked ∨ a.action = attachmentStored

/-- Each parent of a stored operation is stored before it. -/
theorem Inv.parent_before {s : Space} (hi : s.Inv) {e : Entry} (he : e ∈ s.entries)
    {p : GoString} (hp : p ∈ e.operation.parents) :
    ∃ e' ∈ s.entries, e'.operation.id = p ∧ e'.sequence < e.sequence ∧
      e'.operation.record = e.operation.record ∧ e'.operation.field = e.operation.field := by
  obtain ⟨i, hlt, rfl⟩ := List.getElem_of_mem he
  have hlt' : i < s.ops.length := by simpa [ops] using hlt
  obtain ⟨j, hj, hji, hk, hs⟩ := hi.causal.parent_before hlt' (p := p)
    (by simpa [ops, parents_eq] using hp)
  have hj' : j < s.entries.length := by simpa [ops] using hj
  obtain ⟨hrec, hfield⟩ := sameScope_iff.mp hs
  refine ⟨s.entries[j], List.getElem_mem hj', by simpa [ops, key_eq] using hk, ?_, ?_, ?_⟩
  · rw [hi.sequence i hlt, hi.sequence j hj']; omega
  · simpa [ops] using hrec
  · simpa [ops] using hfield

/-- No operation ID occurs twice. -/
theorem Inv.distinct {s : Space} (hi : s.Inv) :
    (s.entries.map fun e => e.operation.id).Nodup := by
  have hnd := hi.causal.nodup
  rwa [ops, List.map_map] at hnd

/-- Entries of one operation ID are one entry. -/
theorem Inv.eq_of_id {s : Space} (hi : s.Inv) {e e' : Entry} (he : e ∈ s.entries)
    (he' : e' ∈ s.entries) (h : e.operation.id = e'.operation.id) : e = e' := by
  exact List.inj_on_of_nodup_map hi.distinct he he' h

theorem Inv.consistent {s : Space} (hi : s.Inv) : s.Consistent := by
  have before : ∀ {e e'}, s.ParentOf e e' → e.sequence < e'.sequence := by
    rintro e e' ⟨he, he', hp⟩
    obtain ⟨x, hx, hid, hlt, -⟩ := hi.parent_before he' hp
    rwa [hi.eq_of_id hx he hid] at hlt
  have descends : ∀ {e e'}, Relation.TransGen s.ParentOf e e' → e.sequence < e'.sequence := by
    intro e e' h
    induction h with
    | single h => exact before h
    | tail _ h ih => exact ih.trans (before h)
  exact {
    sequence := hi.sequence
    distinct := hi.distinct
    valid := fun e he => validate_ok_iff.mpr (hi.valid _ (List.mem_map_of_mem he))
    parents := fun e he p hp => hi.parent_before he hp
    acyclic := fun e h => Nat.lt_irrefl _ (descends h)
    owner := hi.owner
    auditSequence := hi.auditSequence
    accepted := hi.accepted
    registered := hi.registered
    revoked := hi.revoked
    stored := hi.stored
    actions := hi.actions }

end Space

/-! ### A workspace in use -/

/-- A device as the handler registers it. -/
def tablet : Device :=
  { id := go "0a000000-0000-4000-8000-000000000001", name := go "Tablet", actor := go "inspector",
    revoked := false }

/-- An edit that names the parents given. -/
def titleEdit (id value : GoString) (parents : List GoString) : Operation GoString :=
  { id, record := go "0c000000-0000-4000-8000-000000000001", field := go "title", value, parents }

def firstEdit : Operation GoString :=
  titleEdit (go "0b000000-0000-4000-8000-000000000001") (go "Crane") []

def secondEdit : Operation GoString :=
  titleEdit (go "0b000000-0000-4000-8000-000000000002") (go "Tower crane") [firstEdit.id]

/-- The workspace once the tablet is registered. -/
def started : Space := (Space.new.write (.register tablet)).2

theorem started_reachable : started.Reachable :=
  Relation.ReflTransGen.single (Space.Step.write (.register tablet) rfl)

/-- **The log and the audit of every workspace are consistent after any calls**, and a call
that reports an error changes no workspace. -/
theorem memory_log_consistent {m : Memory} (h : m.Reachable) (w : GoString) :
    (m w).Consistent ∧
      ∀ (w' : GoString) (c : Call) (e : Err), (m.call w' c).1 = .error e → (m.call w' c).2 = m := by
  refine ⟨(h.space w).inv.consistent, fun w' c e he => ?_⟩
  have hs : ((m w').call c).2 = m w' := Space.call_error he
  unfold Memory.call
  dsimp only
  rw [hs, Function.update_eq_self]

/-- The adapter after the tablet has registered and pushed a chain of two edits. -/
theorem memory_log_consistent_run :
    ∃ (m : Memory) (w : GoString), (m w).entries.length = 2 ∧ (m w).Consistent := by
  let w := go "site-a"
  let push := Write.push tablet.id tablet.actor [firstEdit, secondEdit]
  let m₁ := (Memory.new.call w (.write (.register tablet))).2
  let m₂ := (m₁.call w (.write push)).2
  have hreach : m₂.Reachable :=
    (Relation.ReflTransGen.single (Memory.Step.write w (.register tablet) rfl)).tail
      (Memory.Step.write w push trivial)
  exact ⟨m₂, w, by decide, (memory_log_consistent hreach w).1⟩

end Syncraft.Store
