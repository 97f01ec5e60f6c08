import Syncraft.Store.Page

/-!
# Syncraft.Store.PostgresRefinement

The PostgreSQL adapter refines the in-memory one: run serially, with well-formed IDs and
plain text, the two answer every sequence of calls alike.

`Refines` relates a workspace to its rows. Reads are compared row by row; the writes are run
statement by statement, and the one with an argument in it is `Push`: its map holds only what
the batch mentions (`load_run`), which is all that `ValidateBatch` looks at
(`validateBatch_eq`).
-/

namespace Syncraft.Store

open Domain CausalLog RowLock

/-! ### What is assumed -/

/-- What PostgreSQL and its driver are documented to do with well-formed values. -/
structure Pg.Documented (pg : Pg) : Prop where
  text : ∀ s, plainText s = true → pg.text s = true
  /-- The canonical form of a `uuid` is lower case with hyphens. -/
  uuid : ∀ s, validID s = true → pg.uuid s = some s
  /-- Content comes back as it was marshalled. -/
  jsonb : ∀ o : Operation GoString, (∀ s ∈ o.strings, plainText s = true) → pg.jsonb o = some o

/-- The IDs outside a batch are well formed, the strings are plain text, and an attachment
is within the limit and of the size it says. Its data is a slice that is there, however short:
a list of bytes has no nil, which the driver would send as NULL and the column refuses. -/
def Write.WellFormed : Write → Prop
  | .register d =>
    validID d.id = true ∧ plainText d.name = true ∧ plainText d.actor = true ∧ d.revoked = false
  | .revoke id actor => validID id = true ∧ plainText actor = true
  | .push device actor batch =>
    validID device = true ∧ plainText actor = true ∧ ∀ o ∈ batch, ∀ s ∈ o.strings, plainText s = true
  | .putAttachment device actor a =>
    validID device = true ∧ plainText actor = true ∧ validID a.id = true ∧
      validID a.record = true ∧ plainText a.name = true ∧ plainText a.type = true ∧
      plainText a.sha256 = true ∧ a.data.length ≤ 5242880 ∧ a.size = a.data.length

def Read.WellFormed : Read → Prop
  | .device id => validID id = true
  | .getAttachment id => validID id = true
  | _ => True

def Call.WellFormed : Call → Prop
  | .write c => c.WellFormed
  | .read c => c.WellFormed

/-- The answers agree: one success, or two failures that are alike in being forbidden. -/
def Agree {α : Type} : Except Err α → Except Err α → Prop
  | .ok a, .ok b => a = b
  | .error e, .error e' => e = .forbidden ↔ e' = .forbidden
  | _, _ => False

/-! ### The relation -/

def DeviceRow.toDevice (d : DeviceRow) : Device :=
  { id := d.id, name := d.name, actor := d.actor, revoked := d.revoked }

def AttachmentRow.toAttachment (a : AttachmentRow) : Attachment :=
  { id := a.id, record := a.record, name := a.name, type := a.mediaType, sha256 := a.sha256,
    size := a.content.length, data := a.content }

/-- The rows hold the workspace. -/
structure Refines (s : Space) (r : Rows) : Prop where
  devices : ∀ id, s.devices.lookup id =
    (r.devices.find? fun d => d.id == id).map DeviceRow.toDevice
  attachments : ∀ id, s.attachments.lookup id =
    (r.attachments.find? fun a => a.id == id).map AttachmentRow.toAttachment
  entries : s.entries = r.log
  ids : ∀ o ∈ r.operations, o.id = o.content.id
  audit : s.audit = r.auditEvents
  counters : ∀ w, r.workspace = some w →
    w.sequence = r.operations.length ∧ w.auditSequence = r.auditEvents.length
  absent : r.workspace = none → r.operations = [] ∧ r.auditEvents = []

theorem new_refines : Refines Space.new Rows.new where
  devices _ := rfl
  attachments _ := rfl
  entries := rfl
  ids _ h := absurd h List.not_mem_nil
  audit := rfl
  counters _ h := by cases h
  absent _ := ⟨rfl, rfl⟩

/-- The row of the workspace is there once a transaction has begun. -/
theorem Refines.ensure {s : Space} {r : Rows} (h : Refines s r) :
    ∃ r', (if r.workspace.isSome then r else r.create) = r' ∧ Refines s r' ∧
      r'.workspace.isSome = true := by
  by_cases hp : r.workspace.isSome = true
  · exact ⟨r, by rw [if_pos hp], h, hp⟩
  · have hnone : r.workspace = none := by simpa using hp
    obtain ⟨hops, haud⟩ := h.absent hnone
    refine ⟨r.create, by rw [if_neg hp], ?_, rfl⟩
    exact {
      devices := h.devices
      attachments := h.attachments
      entries := h.entries
      ids := h.ids
      audit := h.audit
      counters := fun w hw => by
        cases hw
        exact ⟨by simp [Rows.create, hops], by simp [Rows.create, haud]⟩
      absent := fun hw => by cases hw }

theorem Refines.ops {s : Space} {r : Rows} (h : Refines s r) :
    s.ops = r.operations.map OperationRow.content := by
  rw [Space.ops, h.entries, Rows.log, List.map_map]
  rfl

theorem Refines.length {s : Space} {r : Rows} (h : Refines s r) :
    s.entries.length = r.operations.length := by
  rw [h.entries, Rows.log, List.length_map]

/-- The table is numbered as the log is. -/
theorem Refines.numbered {s : Space} {r : Rows} (h : Refines s r) (hi : s.Inv) :
    Numbered OperationRow.sequence r.operations := by
  have hn := hi.sequence
  rw [h.entries] at hn
  intro i hlt
  have := hn i (by simpa [Rows.log] using hlt)
  simpa [Rows.log, OperationRow.toEntry] using this

namespace Postgres

variable {pg : Pg}

/-! ### Statements that read -/

theorem deviceRow_eq (hpg : pg.Documented) {s : Space} {r : Rows} (h : Refines s r) {id : GoString}
    (hid : validID id = true) :
    (deviceRow pg id r).map DeviceRow.toDevice = s.device id := by
  unfold deviceRow Space.device
  rw [hpg.uuid id hid, h.devices id]
  dsimp only
  cases r.devices.find? fun d => d.id == id with
  | none => rfl
  | some d => rfl

theorem attachmentRow_eq (hpg : pg.Documented) {s : Space} {r : Rows} (h : Refines s r)
    {id : GoString} (hid : validID id = true) :
    (attachmentRow pg id r).map AttachmentRow.toAttachment = s.getAttachment id := by
  unfold attachmentRow Space.getAttachment
  rw [hpg.uuid id hid, h.attachments id]
  dsimp only
  cases r.attachments.find? fun a => a.id == id with
  | none => rfl
  | some a => rfl

/-- The row found under an ID has that ID. -/
theorem id_of_deviceRow (hpg : pg.Documented) {r : Rows} {id : GoString} {d : DeviceRow}
    (hid : validID id = true) (h : deviceRow pg id r = .ok d) : d.id = id := by
  unfold deviceRow at h
  rw [hpg.uuid id hid] at h
  dsimp only at h
  cases hf : r.devices.find? fun d => d.id == id with
  | none => rw [hf] at h; cases h
  | some x =>
      rw [hf] at h
      obtain rfl := Except.ok.inj h
      simpa using List.find?_some hf

theorem id_of_attachmentRow (hpg : pg.Documented) {r : Rows} {id : GoString} {a : AttachmentRow}
    (hid : validID id = true) (h : attachmentRow pg id r = .ok a) : a.id = id := by
  unfold attachmentRow at h
  rw [hpg.uuid id hid] at h
  dsimp only at h
  cases hf : r.attachments.find? fun a => a.id == id with
  | none => rw [hf] at h; cases h
  | some x =>
      rw [hf] at h
      obtain rfl := Except.ok.inj h
      simpa using List.find?_some hf

/-- The guard is the guard. -/
theorem active_eq (hpg : pg.Documented) {s : Space} {r : Rows} (h : Refines s r)
    {device actor : GoString} (hid : validID device = true) :
    active pg device actor r = s.active device actor := by
  unfold active deviceRow Space.active
  rw [hpg.uuid device hid, h.devices device]
  dsimp only
  cases r.devices.find? fun d => d.id == device with
  | none => rfl
  | some d =>
      show (!(d.revoked || d.actor != actor)) = (!d.revoked && d.actor == actor)
      cases d.revoked <;> simp [bne]

/-- The content stored under an ID is what the log holds under it. -/
theorem operationContent_eq (hpg : pg.Documented) {s : Space} {r : Rows} (h : Refines s r)
    {id : GoString} (hid : validID id = true) :
    operationContent pg id r =
      match find s.ops id with
      | some o => .ok o
      | none => .error .notFound := by
  have hfind : find s.ops id =
      (r.operations.find? fun o => o.id == id).map OperationRow.content := by
    have hids := h.ids
    rw [h.ops]
    generalize r.operations = rows at hids
    induction rows with
    | nil => rfl
    | cons o rest ih =>
        have hrest := ih fun x hx => hids x (List.mem_cons_of_mem _ hx)
        have ho := hids o List.mem_cons_self
        simp only [find, List.map_cons, List.find?_cons, key_eq, ← ho] at hrest ⊢
        by_cases hk : o.id = id
        · simp [hk]
        · rw [decide_eq_false hk, beq_false_of_ne hk]
          exact hrest
  unfold operationContent
  rw [hpg.uuid id hid, hfind]
  dsimp only
  cases r.operations.find? fun o => o.id == id with
  | none => rfl
  | some o => rfl

/-! ### Statements that write -/

/-- `logAudit` does what `log` does. -/
theorem logAudit_run (hpg : pg.Documented) {s : Space} {r : Rows} (h : Refines s r)
    (hn : Numbered Audit.sequence s.audit) (hrow : r.workspace.isSome = true)
    {actor target : GoString} (action : GoString) (hactor : plainText actor = true)
    (htarget : plainText target = true) :
    ∃ r', (logAudit pg actor action target).run r = .ok ((), r') ∧
      Refines (s.log actor action target) r' ∧ r'.workspace.isSome = true := by
  obtain ⟨w, hw⟩ := Option.isSome_iff_exists.mp hrow
  obtain ⟨hseq, haud⟩ := h.counters w hw
  rw [h.audit] at hn
  have hfresh : (r.auditEvents.any fun a => a.sequence == w.auditSequence + 1) = false := by
    simp only [List.any_eq_false]
    intro a ha
    have := hn.le_length ha
    simp only [beq_iff_eq]
    omega
  refine ⟨_, Tx.run_exec_ok (δ := fun r =>
    { r with
      workspace := r.workspace.map fun x => { x with auditSequence := w.auditSequence + 1 }
      auditEvents := r.auditEvents ++
        [{ sequence := w.auditSequence + 1, actor, action, target }] }) ?_, ?_, ?_⟩
  · dsimp only
    rw [if_neg (by simp [hpg.text _ hactor, hpg.text _ htarget]), hw]
    dsimp only
    rw [hfresh]
    rfl
  · exact {
      devices := h.devices
      attachments := h.attachments
      entries := h.entries
      ids := h.ids
      audit := by rw [Space.log_audit, h.audit, haud]
      counters := fun v hv => by
        simp only [hw, Option.map_some, Option.some.injEq] at hv
        subst hv
        exact ⟨hseq, by simp [haud]⟩
      absent := fun hv => by simp [hw] at hv }
  · simp [hw]

/-- A list searched for what was just appended, or for something else. -/
theorem find?_snoc {β : Type} (key : β → GoString) {xs : List β} {x : β}
    (hnew : xs.find? (fun y => key y == key x) = none) (id : GoString) :
    (xs ++ [x]).find? (fun y => key y == id) =
      if id = key x then some x else xs.find? fun y => key y == id := by
  simp only [List.find?_append]
  by_cases h : id = key x
  · subst h
    rw [if_pos rfl, hnew, Option.none_or, List.find?_cons_of_pos (by simp)]
  · rw [if_neg h, List.find?_cons_of_neg (by simpa using Ne.symm h), List.find?_nil, Option.or_none]

theorem insertDevice_run (hpg : pg.Documented) {s : Space} {r : Rows} (h : Refines s r)
    (hrow : r.workspace.isSome = true) {d : Device} (hid : validID d.id = true)
    (hname : plainText d.name = true) (hactor : plainText d.actor = true)
    (hrevoked : d.revoked = false) (hnew : s.devices.lookup d.id = none) :
    ∃ r', (Tx.exec (insertDevice pg d)).run r = .ok ((), r') ∧
      Refines { s with devices := s.devices.insert d.id d } r' ∧ r'.workspace.isSome = true := by
  have hfind : (r.devices.find? fun x => x.id == d.id) = none := by
    have := h.devices d.id
    rw [hnew] at this
    exact Option.map_eq_none_iff.mp this.symm
  let row : DeviceRow := { id := d.id, actor := d.actor, name := d.name, revoked := false }
  refine ⟨_, Tx.run_exec_ok (δ := fun r => { r with devices := r.devices ++ [row] }) ?_, ?_, hrow⟩
  · have hany : (r.devices.any fun x => x.id == d.id) = false := by
      simp only [List.any_eq_false]
      exact List.find?_eq_none.mp hfind
    obtain ⟨w, hw⟩ := Option.isSome_iff_exists.mp hrow
    unfold insertDevice
    rw [hpg.uuid _ hid]
    dsimp only
    rw [if_neg (by simp [hpg.text _ hactor, hpg.text _ hname, hw, hany])]
  · refine { h with devices := fun id => ?_ }
    have hsnoc := find?_snoc DeviceRow.id (x := row) hfind id
    dsimp only at hsnoc ⊢
    rw [hsnoc, Space.lookup_insert]
    split
    · have hto : d = row.toDevice := by
        show d = { id := d.id, name := d.name, actor := d.actor, revoked := false }
        rw [← hrevoked]
      rw [Option.map_some, ← hto]
    · exact h.devices id

theorem revokeDevice_run (hpg : pg.Documented) {s : Space} {r : Rows} (h : Refines s r)
    (hrow : r.workspace.isSome = true) {id : GoString} (hid : validID id = true) {d : Device}
    (hd : s.devices.lookup id = some d) :
    ∃ r', (Tx.exec (revokeDevice pg id)).run r = .ok ((), r') ∧
      Refines { s with devices := s.devices.insert id { d with revoked := true } } r' ∧
      r'.workspace.isSome = true := by
  let upd : DeviceRow → DeviceRow := fun x => if x.id = id then { x with revoked := true } else x
  refine ⟨_, Tx.run_exec_ok (δ := fun r => { r with devices := r.devices.map upd }) ?_, ?_, hrow⟩
  · unfold revokeDevice
    rw [hpg.uuid _ hid]
  · refine { h with devices := fun x => ?_ }
    have hkey : ∀ y, (upd y).id = y.id := by
      intro y
      by_cases hy : y.id = id
      · simp [upd, hy]
      · simp [upd, hy]
    have hfind : ((r.devices.map upd).find? fun y => y.id == x) =
        (r.devices.find? fun y => y.id == x).map upd := by
      have hp : ((fun y : DeviceRow => y.id == x) ∘ upd) = fun y => y.id == x := by
        funext y
        simp [hkey]
      rw [List.find?_map, hp]
    dsimp only
    rw [hfind, Space.lookup_insert]
    have hx := h.devices x
    by_cases he : x = id
    · subst he
      rw [if_pos rfl]
      rw [hd] at hx
      obtain ⟨row, hrow', hto⟩ := Option.map_eq_some_iff.mp hx.symm
      have hrid : row.id = x := by simpa using List.find?_some hrow'
      rw [hrow', Option.map_some, Option.map_some, ← hto]
      simp [upd, hrid, DeviceRow.toDevice]
    · rw [if_neg he, hx]
      cases hf : r.devices.find? fun y => y.id == x with
      | none => rfl
      | some row =>
          have hrid : row.id = x := by simpa using List.find?_some hf
          have : upd row = row := by simp [upd, hrid, he]
          rw [Option.map_some, Option.map_some, Option.map_some, this]

theorem insertAttachment_run (hpg : pg.Documented) {s : Space} {r : Rows} (h : Refines s r)
    (hrow : r.workspace.isSome = true) {a : Attachment} (hid : validID a.id = true)
    (hrec : validID a.record = true) (hname : plainText a.name = true)
    (htype : plainText a.type = true) (hsha : plainText a.sha256 = true)
    (hlen : a.data.length ≤ 5242880) (hsize : a.size = a.data.length)
    (hnew : s.attachments.lookup a.id = none) :
    ∃ r', (Tx.exec (insertAttachment pg a)).run r = .ok ((), r') ∧
      Refines { s with attachments := s.attachments.insert a.id a } r' ∧
      r'.workspace.isSome = true := by
  have hfind : (r.attachments.find? fun x => x.id == a.id) = none := by
    have := h.attachments a.id
    rw [hnew] at this
    exact Option.map_eq_none_iff.mp this.symm
  let row : AttachmentRow :=
    { id := a.id, record := a.record, name := a.name, mediaType := a.type, sha256 := a.sha256,
      content := a.data }
  refine ⟨_, Tx.run_exec_ok (δ := fun r => { r with attachments := r.attachments ++ [row] }) ?_, ?_,
    hrow⟩
  · have hany : (r.attachments.any fun x => x.id == a.id) = false := by
      simp only [List.any_eq_false]
      exact List.find?_eq_none.mp hfind
    obtain ⟨w, hw⟩ := Option.isSome_iff_exists.mp hrow
    unfold insertAttachment
    rw [hpg.uuid _ hid, hpg.uuid _ hrec]
    dsimp only
    rw [if_neg (by simp [hpg.text _ hname, hpg.text _ htype, hpg.text _ hsha, hw, hany, hlen])]
  · refine { h with attachments := fun id => ?_ }
    have hsnoc := find?_snoc AttachmentRow.id (x := row) hfind id
    dsimp only at hsnoc ⊢
    rw [hsnoc, Space.lookup_insert]
    split
    · have hto : a = row.toAttachment := by
        show a = { a with size := a.data.length }
        rw [← hsize]
      rw [Option.map_some, ← hto]
    · exact h.attachments id

/-! ### The loops of `Push` -/

/-- The map holds only what the log holds. -/
def Sound (known : OpMap) (log : List (Operation GoString)) : Prop :=
  ∀ id o, known id = some o → find log id = some o

/-- Loading makes the map know the IDs. -/
theorem loadIDs_run (hpg : pg.Documented) {s : Space} {r : Rows} (h : Refines s r) {known : OpMap}
    {rel : GoString → Prop} (hsound : Sound known s.ops) (hk : Knows known s.ops rel)
    {ids : List GoString} (hids : ∀ id ∈ ids, validID id = true) :
    ∃ known', (loadIDs pg known ids).run r = .ok (known', r) ∧ Sound known' s.ops ∧
      Knows known' s.ops fun id => rel id ∨ id ∈ ids := by
  induction ids generalizing known rel with
  | nil => exact ⟨known, rfl, hsound, fun id hid => hk id (by simpa using hid)⟩
  | cons id rest ih =>
      have hrest : ∀ x ∈ rest, validID x = true := fun x hx => hids x (List.mem_cons_of_mem _ hx)
      -- Whatever happens at `id`, the map then knows `id` as well.
      have next : ∀ {known₁ : OpMap}, Sound known₁ s.ops →
          (∀ x, rel x ∨ x = id → known₁ x = find s.ops x) →
          (loadIDs pg known (id :: rest)).run r = (loadIDs pg known₁ rest).run r →
          ∃ known', (loadIDs pg known (id :: rest)).run r = .ok (known', r) ∧
            Sound known' s.ops ∧ Knows known' s.ops fun x => rel x ∨ x ∈ id :: rest := by
        intro known₁ hsound₁ hk₁ hrun
        obtain ⟨known', hload, hsound', hk'⟩ := ih hsound₁ hk₁ hrest
        refine ⟨known', hrun.trans hload, hsound', fun x hx => hk' x ?_⟩
        rcases hx with hx | hx
        · exact Or.inl (Or.inl hx)
        · rcases List.mem_cons.mp hx with hx | hx
          · exact Or.inl (Or.inr hx)
          · exact Or.inr hx
      have hrun := operationContent_eq hpg h (hids id List.mem_cons_self)
      cases hkid : known id with
      | some o =>
          refine next hsound (fun x hx => ?_) (by rw [loadIDs, hkid])
          rcases hx with hx | rfl
          · exact hk x hx
          · rw [hkid, hsound _ o hkid]
      | none =>
          cases hf : find s.ops id with
          | some o =>
              rw [hf] at hrun
              refine @next (fun x => if x = id then some o else known x) ?_ ?_ ?_
              · intro x y hxy
                dsimp only at hxy
                by_cases hx : x = id
                · rw [if_pos hx] at hxy
                  rw [hx, ← hxy, hf]
                · rw [if_neg hx] at hxy
                  exact hsound x y hxy
              · intro x hx
                by_cases he : x = id
                · rw [if_pos he, he, hf]
                · rw [if_neg he]
                  exact hk x (hx.resolve_right he)
              · rw [loadIDs, hkid]
                dsimp only
                rw [Tx.run_bind, Tx.run_ask, hrun]
          | none =>
              rw [hf] at hrun
              refine next hsound (fun x hx => ?_) ?_
              · rcases hx with hx | rfl
                · exact hk x hx
                · rw [hkid, hf]
              · rw [loadIDs, hkid]
                dsimp only
                rw [Tx.run_bind, Tx.run_ask, hrun]

theorem validIDs_of_valid {o : Operation GoString} (hv : Valid o) :
    ∀ id ∈ o.id :: o.parents, validID id = true := by
  intro id hid
  rcases List.mem_cons.mp hid with rfl | hid
  · exact hv.id
  · exact (hv.parents id hid).1

/-- **The first loop of `Push`** makes the map know what the batch mentions. -/
theorem load_run (hpg : pg.Documented) {s : Space} {r : Rows} (h : Refines s r)
    {batch : List (Operation GoString)} (hv : ∀ o ∈ batch, Valid o) :
    ∃ known, (load pg (fun _ => none) batch).run r = .ok (known, r) ∧
      Knows known s.ops (Mentions batch) := by
  -- The induction carries what the map knows already.
  have loop : ∀ (batch : List (Operation GoString)) {known : OpMap} {rel : GoString → Prop},
      Sound known s.ops → Knows known s.ops rel → (∀ o ∈ batch, Valid o) →
      ∃ known', (load pg known batch).run r = .ok (known', r) ∧
        Knows known' s.ops fun id => rel id ∨ Mentions batch id := by
    intro batch
    induction batch with
    | nil =>
        intro known rel _ hk _
        refine ⟨known, rfl, fun id hid => hk id ?_⟩
        rcases hid with hid | ⟨o, ho, -⟩
        · exact hid
        · cases ho
    | cons o rest ih =>
        intro known rel hsound hk hv
        have hvo := hv o List.mem_cons_self
        obtain ⟨known₁, hrun, hsound₁, hk₁⟩ := loadIDs_run hpg h hsound hk (validIDs_of_valid hvo)
        obtain ⟨known', hload, hk'⟩ := ih hsound₁ hk₁ fun x hx => hv x (List.mem_cons_of_mem _ hx)
        refine ⟨known', ?_, fun id hid => hk' id ?_⟩
        · rw [load_cons, validate_ok_iff.mpr hvo]
          dsimp only
          rw [Tx.run_bind_ok hrun]
          exact hload
        · rcases hid with hid | ⟨x, hx, hxid⟩
          · exact Or.inl (Or.inl hid)
          · rcases List.mem_cons.mp hx with rfl | hx
            · exact Or.inl (Or.inr (List.mem_cons.mpr hxid))
            · exact Or.inr ⟨x, hx, hxid⟩
  obtain ⟨known, hrun, hk⟩ := @loop batch (fun _ => none) (fun _ => False)
    (fun _ _ h => by cases h) (fun _ h => h.elim) hv
  exact ⟨known, hrun, fun id hid => hk id (Or.inr hid)⟩

/-- A batch with an invalid operation in it is turned away by the first loop. -/
theorem load_invalid (hpg : pg.Documented) {s : Space} {r : Rows} (h : Refines s r)
    {batch : List (Operation GoString)} (hv : ∃ o ∈ batch, ¬ Valid o) :
    (load pg (fun _ => none) batch).run r = .error .invalid := by
  have loop : ∀ (batch : List (Operation GoString)) {known : OpMap}, Sound known s.ops →
      (∃ o ∈ batch, ¬ Valid o) → (load pg known batch).run r = .error .invalid := by
    intro batch
    induction batch with
    | nil => intro known _ hv; obtain ⟨o, ho, -⟩ := hv; cases ho
    | cons o rest ih =>
        intro known hsound hv
        simp only [load_cons]
        cases hvo : validate o with
        | error e =>
            obtain rfl := validate_error hvo
            rfl
        | ok u =>
            have hvalid := validate_ok_iff.mp hvo
            obtain ⟨known₁, hrun, hsound₁, -⟩ := loadIDs_run hpg h hsound
              (fun _ h => h.elim : Knows known s.ops fun _ => False) (validIDs_of_valid hvalid)
            dsimp only
            rw [Tx.run_bind_ok hrun]
            obtain ⟨x, hx, hbad⟩ := hv
            rcases List.mem_cons.mp hx with rfl | hx
            · exact absurd hvalid hbad
            · exact ih hsound₁ ⟨x, hx, hbad⟩
  exact loop batch (fun _ _ h => by cases h) hv

/-- Inserting one operation does what `accept` does. -/
theorem insertOperation_run (hpg : pg.Documented) {s : Space} {r : Rows} (hi : s.Inv)
    (h : Refines s r) (hrow : r.workspace.isSome = true) {device actor : GoString}
    {o : Operation GoString} (hdevice : validID device = true) (hactor : plainText actor = true)
    (hact : s.active device actor = true) (hv : Valid o)
    (htext : ∀ x ∈ o.strings, plainText x = true) (hf : find s.ops o.id = none) :
    ∃ r', (do
        Tx.exec (insertOperation pg o device actor)
        logAudit pg actor operationAccepted o.id : Tx Rows Err Unit).run r = .ok ((), r') ∧
      Refines (Space.accept device actor s o) r' ∧ r'.workspace.isSome = true := by
  obtain ⟨w, hw⟩ := Option.isSome_iff_exists.mp hrow
  obtain ⟨hseq, haud⟩ := h.counters w hw
  have hn := h.numbered hi
  have hfresh : (r.operations.any fun x => x.id == o.id || x.sequence == w.sequence + 1) = false := by
    simp only [List.any_eq_false]
    intro x hx
    have hle := hn.le_length hx
    have hne : x.id ≠ o.id := by
      intro he
      have hmem : x.content ∈ s.ops := h.ops ▸ List.mem_map_of_mem hx
      exact find_eq_none.mp hf _ hmem ((h.ids x hx).symm.trans he)
    simp only [Bool.or_eq_true, beq_iff_eq, not_or]
    exact ⟨hne, by omega⟩
  have hdev : (r.devices.any fun d => d.id == device) = true := by
    obtain ⟨d, hd, -, -⟩ := Space.active_iff.mp hact
    rw [h.devices device] at hd
    obtain ⟨row, hrow', -⟩ := Option.map_eq_some_iff.mp hd
    simp only [List.any_eq_true]
    exact ⟨row, List.mem_of_find?_eq_some hrow', by simpa using List.find?_some hrow'⟩
  let row : OperationRow :=
    { id := o.id, sequence := w.sequence + 1, device, actor, content := o }
  let insert : Rows → Rows := fun r =>
    { r with
      workspace := r.workspace.map fun x => { x with sequence := w.sequence + 1 }
      operations := r.operations ++ [row] }
  have hins : (Tx.exec (insertOperation pg o device actor)).run r = .ok ((), insert r) := by
    refine Tx.run_exec_ok ?_
    unfold insertOperation
    rw [hpg.uuid _ hv.id, hpg.uuid _ hdevice, hpg.jsonb o htext, hw]
    dsimp only
    rw [if_neg (by simp [hpg.text _ hactor, hfresh, hdev])]
  have hmid : Refines
      { s with entries := s.entries ++
          [{ sequence := s.entries.length + 1, device, actor, operation := o }] } (insert r) := {
    devices := h.devices
    attachments := h.attachments
    entries := by
      show s.entries ++ _ = (r.operations ++ [row]).map OperationRow.toEntry
      rw [List.map_append, List.map_singleton, h.length, ← hseq, h.entries]
      rfl
    ids := fun x hx => by
      rcases List.mem_append.mp hx with hx | hx
      · exact h.ids x hx
      · simp only [List.mem_singleton] at hx
        subst hx
        rfl
    audit := h.audit
    counters := fun v hv' => by
      simp only [insert, hw, Option.map_some, Option.some.injEq] at hv'
      subst hv'
      exact ⟨by simp [insert, hseq], haud⟩
    absent := fun hv' => by simp [insert, hw] at hv' }
  obtain ⟨r', hlog, hr', hrow'⟩ := logAudit_run hpg hmid hi.auditSequence (by simp [insert, hw])
    operationAccepted hactor (plainText_of_validID hv.id)
  exact ⟨r', by rw [Tx.run_bind_ok hins]; exact hlog, hr', hrow'⟩

/-- **The second loop of `Push`** stores what admission appends. -/
theorem insertAll_run (hpg : pg.Documented) {device actor : GoString}
    (hdevice : validID device = true) (hactor : plainText actor = true)
    {batch : List (Operation GoString)} {s : Space} {r : Rows} {known : OpMap}
    {res : List (Operation GoString)} (hi : s.Inv) (h : Refines s r)
    (hrow : r.workspace.isSome = true) (hact : s.active device actor = true)
    (hv : ∀ o ∈ batch, Valid o) (htext : ∀ o ∈ batch, ∀ x ∈ o.strings, plainText x = true)
    (hk : Knows known s.ops (Mentions batch)) (hadm : admitAll s.ops batch = .ok res) :
    ∃ fresh r', res = s.ops ++ fresh ∧
      (insertAll pg device actor known batch).run r = .ok ((), r') ∧
      Refines (Space.acceptAll device actor s fresh) r' ∧ r'.workspace.isSome = true := by
  induction batch generalizing s r known with
  | nil =>
      cases hadm
      exact ⟨[], r, by simp, rfl, h, hrow⟩
  | cons o rest ih =>
      have hrest : ∀ x ∈ rest, Valid x := fun x hx => hv x (List.mem_cons_of_mem _ hx)
      have htext' : ∀ x ∈ rest, ∀ y ∈ x.strings, plainText y = true :=
        fun x hx => htext x (List.mem_cons_of_mem _ hx)
      obtain ⟨mid, ho, hmid⟩ := admitAll_cons hadm
      rw [insertAll, hk o.id ⟨o, List.mem_cons_self, Or.inl rfl⟩]
      rcases admitOne_ok ho with ⟨old, hf, -, rfl⟩ | ⟨hf, hadmissible, rfl⟩
      · simp only [key_eq] at hf
        rw [hf]
        exact ih hi h hrow hact hrest htext' (fun id hid => hk id hid.tail) hmid
      · simp only [key_eq] at hf
        rw [hf]
        have hvo := hv o List.mem_cons_self
        obtain ⟨r₁, hrun, hr₁, hrow₁⟩ := insertOperation_run hpg hi h hrow hdevice hactor hact hvo
          (htext o List.mem_cons_self) hf
        have hknown : Knows (known.put o) (Space.accept device actor s o).ops (Mentions rest) := by
          simp only [Space.ops_accept]
          exact Knows.put (fun id hid => hk id hid.tail) hf
        obtain ⟨fresh, r', hres, hloop, hr', hrow'⟩ := ih
          (Space.accept_inv hi hact hvo hf hadmissible) hr₁ hrow₁
          (by simp only [Space.accept_active]; exact hact) hrest htext' hknown
          (by simp only [Space.ops_accept]; exact hmid)
        simp only [Space.ops_accept, List.append_assoc] at hres
        refine ⟨o :: fresh, r', hres, ?_, hr', hrow'⟩
        obtain ⟨u, s', hexec, hlog⟩ := Tx.run_bind_inv hrun
        dsimp only
        rw [Tx.run_bind_ok hexec, Tx.run_bind_ok hlog]
        exact hloop

/-! ### The writes -/

/-- A body, run in the rows of a workspace, ends as the in-memory method does. -/
def Simulates {α : Type} (out : Except Err α × Space) (res : Except Err (α × Rows)) : Prop :=
  match res with
  | .ok (a, r') => out.1 = .ok a ∧ Refines out.2 r'
  | .error e => ∃ e', out.1 = .error e' ∧ (e' = .forbidden ↔ e = .forbidden)

theorem register_simulates (hpg : pg.Documented) {s : Space} {r : Rows} (hi : s.Inv)
    (h : Refines s r) (hrow : r.workspace.isSome = true) {d : Device}
    (hd : (Write.register d).WellFormed) : Simulates (s.register d) ((register pg d).run r) := by
  obtain ⟨hid, hname, hactor, hrevoked⟩ := hd
  have hdev := deviceRow_eq hpg h hid
  unfold Space.device at hdev
  unfold register Space.register
  rw [Tx.run_bind, Tx.run_ask]
  dsimp only
  cases hl : s.devices.lookup d.id with
  | some old =>
      rw [hl] at hdev
      cases hr : deviceRow pg d.id r with
      | error e => rw [hr] at hdev; cases hdev
      | ok row =>
          rw [hr] at hdev
          obtain rfl := Except.ok.inj hdev
          dsimp only
          by_cases hbad : (row.actor != d.actor || row.revoked) = true
          · rw [if_pos hbad, if_pos (show (row.toDevice.actor != d.actor ||
              row.toDevice.revoked) = true from hbad)]
            exact ⟨.forbidden, rfl, Iff.rfl⟩
          · rw [if_neg hbad, if_neg (show ¬ (row.toDevice.actor != d.actor ||
              row.toDevice.revoked) = true from hbad)]
            exact ⟨rfl, h⟩
  | none =>
      rw [hl] at hdev
      cases hr : deviceRow pg d.id r with
      | ok row => rw [hr] at hdev; cases hdev
      | error e =>
          rw [hr] at hdev
          obtain rfl : e = .notFound := by cases hdev; rfl
          dsimp only
          obtain ⟨r₁, hins, hr₁, hrow₁⟩ := insertDevice_run hpg h hrow hid hname hactor hrevoked hl
          obtain ⟨r₂, hlog, hr₂, -⟩ := logAudit_run hpg hr₁ hi.auditSequence hrow₁ deviceRegistered
            hactor (plainText_of_validID hid)
          rw [Tx.run_bind_ok hins, hlog]
          exact ⟨rfl, hr₂⟩

theorem revoke_simulates (hpg : pg.Documented) {s : Space} {r : Rows} (hi : s.Inv)
    (h : Refines s r) (hrow : r.workspace.isSome = true) {id actor : GoString}
    (hw : (Write.revoke id actor).WellFormed) :
    Simulates (s.revoke id actor) ((revoke pg id actor).run r) := by
  obtain ⟨hid, hactor⟩ := hw
  have hdev := deviceRow_eq hpg h hid
  unfold Space.device at hdev
  unfold revoke Space.revoke
  rw [Tx.run_bind, Tx.run_ask]
  dsimp only
  cases hl : s.devices.lookup id with
  | none =>
      rw [hl] at hdev
      cases hr : deviceRow pg id r with
      | ok row => rw [hr] at hdev; cases hdev
      | error e =>
          rw [hr] at hdev
          obtain rfl : e = .notFound := by cases hdev; rfl
          exact ⟨.notFound, rfl, Iff.rfl⟩
  | some d =>
      rw [hl] at hdev
      cases hr : deviceRow pg id r with
      | error e => rw [hr] at hdev; cases hdev
      | ok row =>
          rw [hr] at hdev
          obtain rfl := Except.ok.inj hdev
          dsimp only
          by_cases hrev : row.revoked = true
          · rw [if_pos hrev, if_pos (show row.toDevice.revoked = true from hrev)]
            exact ⟨rfl, h⟩
          · rw [if_neg hrev, if_neg (show ¬ row.toDevice.revoked = true from hrev)]
            obtain ⟨r₁, hupd, hr₁, hrow₁⟩ := revokeDevice_run hpg h hrow hid hl
            obtain ⟨r₂, hlog, hr₂, -⟩ := logAudit_run hpg hr₁ hi.auditSequence hrow₁ deviceRevoked
              hactor (plainText_of_validID hid)
            rw [Tx.run_bind_ok hupd, hlog]
            exact ⟨rfl, hr₂⟩

theorem putAttachment_simulates (hpg : pg.Documented) {s : Space} {r : Rows} (hi : s.Inv)
    (h : Refines s r) (hrow : r.workspace.isSome = true) {device actor : GoString}
    {a : Attachment} (hw : (Write.putAttachment device actor a).WellFormed) :
    Simulates (s.putAttachment device actor a) ((putAttachment pg device actor a).run r) := by
  obtain ⟨hdevice, hactor, hid, hrec, hname, htype, hsha, hlen, hsize⟩ := hw
  have hatt := attachmentRow_eq hpg h hid
  unfold Space.getAttachment at hatt
  unfold putAttachment Space.putAttachment
  rw [Tx.run_bind, Tx.run_ask, active_eq hpg h hdevice]
  dsimp only
  by_cases hact : s.active device actor = true
  · rw [hact, Bool.not_true, if_neg Bool.false_ne_true, if_neg Bool.false_ne_true, Tx.run_bind,
      Tx.run_ask]
    dsimp only
    cases hl : s.attachments.lookup a.id with
    | some old =>
        rw [hl] at hatt
        cases hr : attachmentRow pg a.id r with
        | error e => rw [hr] at hatt; cases hatt
        | ok row =>
            rw [hr] at hatt
            obtain rfl := Except.ok.inj hatt
            dsimp only
            by_cases hbad : (row.sha256 != a.sha256 || row.record != a.record ||
                row.name != a.name || row.mediaType != a.type) = true
            · rw [if_pos hbad, if_pos (show (row.toAttachment.sha256 != a.sha256 ||
                row.toAttachment.record != a.record || row.toAttachment.name != a.name ||
                row.toAttachment.type != a.type) = true from hbad)]
              exact ⟨.conflict, rfl, Iff.rfl⟩
            · rw [if_neg hbad, if_neg (show ¬ (row.toAttachment.sha256 != a.sha256 ||
                row.toAttachment.record != a.record || row.toAttachment.name != a.name ||
                row.toAttachment.type != a.type) = true from hbad)]
              exact ⟨rfl, h⟩
    | none =>
        rw [hl] at hatt
        cases hr : attachmentRow pg a.id r with
        | ok row => rw [hr] at hatt; cases hatt
        | error e =>
            rw [hr] at hatt
            obtain rfl : e = .notFound := by cases hatt; rfl
            dsimp only
            obtain ⟨r₁, hins, hr₁, hrow₁⟩ := insertAttachment_run hpg h hrow hid hrec hname htype
              hsha hlen hsize hl
            obtain ⟨r₂, hlog, hr₂, -⟩ := logAudit_run hpg hr₁ hi.auditSequence hrow₁
              attachmentStored hactor (plainText_of_validID hid)
            rw [Tx.run_bind_ok hins, hlog]
            exact ⟨rfl, hr₂⟩
  · simp only [Bool.not_eq_true] at hact
    rw [hact, Bool.not_false, if_pos rfl, if_pos rfl]
    exact ⟨.forbidden, rfl, Iff.rfl⟩

/-- A batch that `ValidateBatch` rejects against the full log is rejected by both, if not with
one error. -/
theorem push_rejected {s : Space} {device actor : GoString} (hact : s.active device actor = true)
    {batch : List (Operation GoString)}
    (hbad : validateBatch (Space.knownOf s.entries) batch ≠ .ok ()) {e : Err} (hne : e ≠ .forbidden) :
    Simulates (s.push device actor batch) (.error e) := by
  cases hval : validateBatch (Space.knownOf s.entries) batch with
  | ok u => exact absurd hval hbad
  | error e₀ =>
      have hne₀ : e₀ ≠ .forbidden := by
        rcases validateBatch_error hval with rfl | rfl
        · decide
        · decide
      refine ⟨e₀, ?_, iff_of_false hne₀ hne⟩
      unfold Space.push
      rw [hact, if_neg (by simp)]
      dsimp only
      rw [hval]

/-- **`Postgres.Push` accepts exactly the batches `Memory.Push` accepts.** -/
theorem push_simulates (hpg : pg.Documented) {s : Space} {r : Rows} (hi : s.Inv)
    (h : Refines s r) (hrow : r.workspace.isSome = true) {device actor : GoString}
    {batch : List (Operation GoString)} (hw : (Write.push device actor batch).WellFormed) :
    Simulates (s.push device actor batch) ((push pg device actor batch).run r) := by
  obtain ⟨hdevice, hactor, htext⟩ := hw
  have hmem := Space.knownOf_knows hi.causal
  unfold push
  rw [Tx.run_bind, Tx.run_ask, active_eq hpg h hdevice]
  dsimp only
  by_cases hact : s.active device actor = true
  · rw [hact, Bool.not_true, if_neg Bool.false_ne_true]
    by_cases hsize : batch.length = 0 ∨ batch.length > 100
    · rw [if_pos hsize]
      refine push_rejected hact (fun hval => ?_) (by decide)
      have := ((validateBatch_iff (hmem _)).mp hval).1
      unfold BatchSize at this
      omega
    · rw [if_neg hsize]
      have hbs : BatchSize batch := by unfold BatchSize; omega
      by_cases hv : ∀ o ∈ batch, Valid o
      · obtain ⟨known, hload, hk⟩ := load_run hpg h hv
        rw [Tx.run_bind_ok hload]
        cases hadm : admitAll s.ops batch with
        | error e =>
            have hval := validateBatch_eq hk hbs hv
            rw [hadm] at hval
            dsimp only at hval
            rw [hval]
            refine push_rejected hact (fun hval' => ?_) (by cases e <;> decide)
            obtain ⟨-, -, res, hres⟩ := (validateBatch_iff (hmem _)).mp hval'
            have hcontra : admitAll s.ops batch = .ok res := hres
            rw [hadm] at hcontra
            cases hcontra
        | ok res =>
            have hval := validateBatch_eq hk hbs hv
            rw [hadm] at hval
            dsimp only at hval
            rw [hval]
            dsimp only
            obtain ⟨fresh, r', hres, hins, hr', hrow'⟩ := insertAll_run hpg hdevice hactor hi h hrow
              hact hv htext hk hadm
            obtain ⟨fresh', hres', hpush⟩ := Space.push_ok hi.causal hact hbs hv hadm
            obtain rfl : fresh' = fresh := List.append_cancel_left (hres'.symm.trans hres)
            rw [Tx.run_bind_ok hins, Tx.run_bind, Tx.run_ask, hpush]
            obtain ⟨w, hw⟩ := Option.isSome_iff_exists.mp hrow'
            have hlatest : latest r' = some res.length := by
              have hlen : res.length = r'.operations.length := by
                rw [hres, ← Space.ops_acceptAll device actor, hr'.ops, List.length_map]
              rw [latest, hw, Option.map_some, (hr'.counters w hw).1, hlen]
            rw [hlatest]
            exact ⟨rfl, hr'⟩
      · have hbad : ∃ o ∈ batch, ¬ Valid o := by
          by_contra hall
          exact hv fun o ho => by_contra fun hno => hall ⟨o, ho, hno⟩
        rw [Tx.run_bind_error (load_invalid hpg h hbad)]
        refine push_rejected hact (fun hval => ?_) (by decide)
        exact hv ((validateBatch_iff (hmem _)).mp hval).2.1
  · simp only [Bool.not_eq_true] at hact
    rw [hact, Bool.not_false, if_pos rfl]
    refine ⟨.forbidden, ?_, Iff.rfl⟩
    unfold Space.push
    rw [hact]
    rfl

/-- A write whose body simulates the method: the answers agree, and what is committed, or
left after a rollback, holds the workspace. -/
theorem simulates_write {α : Type} {s : Space} {r r' : Rows} (h : Refines s r)
    {out : Except Err α × Space} {x : Tx Rows Err α} (f : α → Result)
    (hsim : Simulates out (x.run r')) (herr : ∀ e, out.1 = .error e → out.2 = s) :
    Agree (out.1.map f) (r.finish ((x >>= fun a => pure (f a)).run r')).1 ∧
      Refines out.2 (r.finish ((x >>= fun a => pure (f a)).run r')).2 := by
  unfold Simulates at hsim
  cases hx : x.run r' with
  | ok ar =>
      obtain ⟨a, r''⟩ := ar
      rw [hx] at hsim
      obtain ⟨hout, hr⟩ := hsim
      rw [Tx.run_bind_ok hx, hout]
      exact ⟨rfl, hr⟩
  | error e =>
      rw [hx] at hsim
      obtain ⟨e', hout, hiff⟩ := hsim
      rw [Tx.run_bind_error hx, hout, herr e' hout]
      exact ⟨hiff, h⟩

/-- **Writes refine.** -/
theorem write_refines (hpg : pg.Documented) {w : GoString} (hw : plainText w = true) {s : Space}
    {r : Rows} (hi : s.Inv) (h : Refines s r) {c : Write} (hc : c.WellFormed) :
    Agree (s.write c).1 (r.write pg w c).1 ∧ Refines (s.write c).2 (r.write pg w c).2 := by
  obtain ⟨r', hr', href, hrow⟩ := h.ensure
  have herr := fun e => Space.write_error (s := s) (c := c) (e := e)
  have htext : (!pg.text w) = false := by rw [hpg.text w hw]; rfl
  unfold Rows.write
  rw [hr']
  unfold body
  rw [htext, if_neg Bool.false_ne_true]
  cases c with
  | register d =>
      refine simulates_write h (fun _ => Result.done) (register_simulates hpg hi href hrow hc) ?_
      exact fun e he => herr e (by simp [Space.write, he, Except.map])
  | revoke id actor =>
      refine simulates_write h (fun _ => Result.done) (revoke_simulates hpg hi href hrow hc) ?_
      exact fun e he => herr e (by simp [Space.write, he, Except.map])
  | push device actor batch =>
      refine simulates_write h Result.cursor (push_simulates hpg hi href hrow hc) ?_
      exact fun e he => herr e (by simp [Space.write, he, Except.map])
  | putAttachment device actor a =>
      refine simulates_write h (fun _ => Result.done) (putAttachment_simulates hpg hi href hrow hc) ?_
      exact fun e he => herr e (by simp [Space.write, he, Except.map])

/-! ### The reads -/

theorem pull_refines (hpg : pg.Documented) {w : GoString} (hw : plainText w = true) {s : Space}
    {r : Rows} (hi : s.Inv) (h : Refines s r) (after limit : Int) :
    Agree (s.pull after limit) ((pull pg w after limit).run r) := by
  have hn := h.numbered hi
  have hlen : (latest r).getD 0 = s.entries.length := by
    rw [latest, h.length]
    cases hrow : r.workspace with
    | none => rw [(h.absent hrow).1]; rfl
    | some v => exact (h.counters v hrow).1
  have htext : (!pg.text w) = false := by rw [hpg.text w hw]; rfl
  -- The page of the table, where both return one.
  have page : 0 ≤ after → after ≤ s.entries.length → 1 ≤ limit → limit ≤ 200 → ∀ p,
      ExactPage r.log after.toNat limit.toNat p → Agree (s.pull after limit) (.ok p) := by
    intro h₁ h₂ h₃ h₄ p hp
    obtain ⟨q, hq⟩ := Space.pull_ok_iff.mpr ⟨h₁, h₂, h₃, h₄⟩
    have hexact := Space.pull_exact hi hq
    rw [h.entries] at hexact
    rw [hq]
    exact hexact.unique hp
  have invalid : ¬ (0 ≤ after ∧ after ≤ s.entries.length ∧ 1 ≤ limit ∧ limit ≤ 200) →
      Agree (s.pull after limit) (.error .invalid) := by
    intro hbad
    unfold Space.pull
    rw [if_pos (by omega)]
    exact Iff.rfl
  unfold pull
  dsimp only
  by_cases hguard : after < 0 ∨ limit < 1 ∨ limit > 200
  · rw [if_pos hguard]
    exact invalid (by omega)
  · rw [if_neg hguard, htext, if_neg Bool.false_ne_true, Query.run]
    cases hl : latest r with
    | none =>
        rw [hl, Option.getD_none] at hlen
        have hempty : r.log = [] := by
          rw [← h.entries]
          exact List.length_eq_zero_iff.mp hlen.symm
        dsimp only
        by_cases hz : after = 0
        · rw [if_neg (by omega)]
          refine page (by omega) (by omega) (by omega) (by omega) _ ?_
          rw [hempty]
          exact ⟨by simp, by simp, by simp⟩
        · rw [if_pos hz]
          exact invalid (by omega)
    | some n =>
        rw [hl, Option.getD_some] at hlen
        dsimp only
        by_cases hgt : after > n
        · rw [if_pos hgt]
          exact invalid (by omega)
        · rw [if_neg hgt]
          exact page (by omega) (by omega) (by omega) (by omega) _ (collect_exact hn _ _)

theorem audit_refines (hpg : pg.Documented) {w : GoString} (hw : plainText w = true) {s : Space}
    {r : Rows} (hi : s.Inv) (h : Refines s r) (after limit : Int) :
    Agree (s.auditPage after limit) ((audit pg w after limit).run r) := by
  have hn := hi.auditSequence
  rw [h.audit] at hn
  have htext : (!pg.text w) = false := by rw [hpg.text w hw]; rfl
  unfold Space.auditPage audit
  by_cases hguard : after < 0 ∨ limit < 1 ∨ limit > 200
  · rw [if_pos hguard, if_pos hguard]
    exact Iff.rfl
  · rw [if_neg hguard, if_neg hguard, htext, if_neg Bool.false_ne_true]
    show (s.audit.take _).drop _ = auditAfter after.toNat limit.toNat r
    rw [auditAfter_eq hn, h.audit]
    by_cases hle : after.toNat ≤ r.auditEvents.length
    · rw [Nat.min_eq_right hle, List.take_drop, ← List.take_take, List.take_length]
    · have hdrop : r.auditEvents.drop after.toNat = [] := List.drop_eq_nil_of_le (by omega)
      rw [hdrop, List.take_nil, List.drop_eq_nil_of_le]
      simp only [List.length_take]
      omega

/-- **Reads refine.** -/
theorem read_refines (hpg : pg.Documented) {w : GoString} (hw : plainText w = true) {s : Space}
    {r : Rows} (hi : s.Inv) (h : Refines s r) {c : Read} (hc : c.WellFormed) :
    Agree (s.read c) ((query pg w c).run r) := by
  have htext : (!pg.text w) = false := by rw [hpg.text w hw]; rfl
  have map : ∀ {α : Type} {a b : Except Err α} (f : α → Result), Agree a b →
      Agree (a.map f) (b.map f) := by
    intro α a b f hab
    cases a with
    | ok x =>
        cases b with
        | ok y => exact congrArg f hab
        | error e => exact hab
    | error e =>
        cases b with
        | ok y => exact hab
        | error e' => exact hab
  cases c with
  | pull after limit =>
      rw [query, Query.run_map]
      exact map _ (pull_refines hpg hw hi h after limit)
  | audit after limit =>
      rw [query, Query.run_map]
      exact map _ (audit_refines hpg hw hi h after limit)
  | device id =>
      have hid : validID id = true := hc
      rw [query, Query.run_map]
      refine map _ ?_
      rw [device, htext, if_neg Bool.false_ne_true, ← deviceRow_eq hpg h hid]
      show Agree _ ((deviceRow pg id r).map fun d =>
        ({ id, name := d.name, actor := d.actor, revoked := d.revoked } : Device))
      cases hd : deviceRow pg id r with
      | error e => exact Iff.rfl
      | ok d =>
          have hdid := id_of_deviceRow hpg hid hd
          subst hdid
          exact rfl
  | getAttachment id =>
      have hid : validID id = true := hc
      rw [query, Query.run_map]
      refine map _ ?_
      rw [getAttachment, htext, if_neg Bool.false_ne_true, ← attachmentRow_eq hpg h hid]
      show Agree _ ((attachmentRow pg id r).map fun a =>
        ({ id, record := a.record, name := a.name, type := a.mediaType, sha256 := a.sha256,
           size := a.content.length, data := a.content } : Attachment))
      cases ha : attachmentRow pg id r with
      | error e => exact Iff.rfl
      | ok a =>
          have haid := id_of_attachmentRow hpg hid ha
          subst haid
          exact rfl

end Postgres

/-! ### Runs -/

/-- Answer calls, each in its workspace, one after the other. -/
def Memory.run (m : Memory) : List (GoString × Call) → List (Except Err Result)
  | [] => []
  | (w, c) :: rest => (m.call w c).1 :: Memory.run (m.call w c).2 rest

/-- Answer calls, each in its workspace, one after the other. -/
def Postgres.run (pg : Pg) (db : Postgres) : List (GoString × Call) → List (Except Err Result)
  | [] => []
  | (w, c) :: rest => (Postgres.call pg db w c).1 :: Postgres.run pg (Postgres.call pg db w c).2 rest

/-- The step of the simulation, over all workspaces. -/
theorem call_refines {pg : Pg} (hpg : pg.Documented) {m : Memory} {db : Postgres}
    (h : ∀ w, (m w).Inv ∧ Refines (m w) (db w)) {w : GoString} (hw : plainText w = true) {c : Call}
    (hc : c.WellFormed) :
    Agree (m.call w c).1 (db.call pg w c).1 ∧
      ∀ w', ((m.call w c).2 w').Inv ∧ Refines ((m.call w c).2 w') ((db.call pg w c).2 w') := by
  obtain ⟨hi, href⟩ := h w
  have hcall : Agree ((m w).call c).1 ((db w).call pg w c).1 ∧ ((m w).call c).2.Inv ∧
      Refines ((m w).call c).2 ((db w).call pg w c).2 := by
    cases c with
    | write c =>
        obtain ⟨hagree, hfinal⟩ := Postgres.write_refines hpg hw hi href hc
        refine ⟨hagree, Space.write_inv hi ?_, hfinal⟩
        cases c with
        | register d => exact hc.2.2.2
        | revoke id actor => trivial
        | push device actor batch => trivial
        | putAttachment device actor a => trivial
    | read c => exact ⟨Postgres.read_refines hpg hw hi href hc, hi, href⟩
  obtain ⟨hagree, hi', href'⟩ := hcall
  refine ⟨hagree, fun w' => ?_⟩
  unfold Memory.call Postgres.call
  dsimp only
  by_cases hww : w' = w
  · subst hww
    simp only [Function.update_self]
    exact ⟨hi', href'⟩
  · rw [Function.update_of_ne hww, Function.update_of_ne hww]
    exact h w'

/-- The adapter after some calls. -/
def Memory.after (m : Memory) (calls : List (GoString × Call)) : Memory :=
  calls.foldl (fun m wc => (m.call wc.1 wc.2).2) m

/-- The adapter after some calls. -/
def Postgres.after (pg : Pg) (db : Postgres) (calls : List (GoString × Call)) : Postgres :=
  calls.foldl (fun db wc => (db.call pg wc.1 wc.2).2) db

/-- After the same calls, the rows hold the workspaces. -/
theorem after_refines {pg : Pg} (hpg : pg.Documented) {calls : List (GoString × Call)}
    (hcalls : ∀ wc ∈ calls, plainText wc.1 = true ∧ wc.2.WellFormed) (w : GoString) :
    (Memory.new.after calls w).Inv ∧
      Refines (Memory.new.after calls w) (Postgres.new.after pg calls w) := by
  have run : ∀ (calls : List (GoString × Call)) {m : Memory} {db : Postgres},
      (∀ w, (m w).Inv ∧ Refines (m w) (db w)) →
      (∀ wc ∈ calls, plainText wc.1 = true ∧ wc.2.WellFormed) →
      ∀ w, (m.after calls w).Inv ∧ Refines (m.after calls w) (db.after pg calls w) := by
    intro calls
    induction calls with
    | nil => intro m db h _; exact h
    | cons wc rest ih =>
        intro m db h hcalls
        obtain ⟨hw, hc⟩ := hcalls wc List.mem_cons_self
        exact ih (call_refines hpg h hw hc).2 fun x hx => hcalls x (List.mem_cons_of_mem _ hx)
  exact run calls (fun _ => ⟨Space.new_inv, new_refines⟩) hcalls w

/-- **The PostgreSQL adapter refines the in-memory adapter.** From empty, every sequence of
well-formed calls is answered alike: the same successes with the same contents, and failures
that are forbidden on one when they are on the other. -/
theorem postgres_refines_memory {pg : Pg} (hpg : pg.Documented) (calls : List (GoString × Call))
    (hcalls : ∀ wc ∈ calls, plainText wc.1 = true ∧ wc.2.WellFormed) :
    List.Forall₂ Agree (Memory.new.run calls) (Postgres.new.run pg calls) := by
  have run : ∀ (calls : List (GoString × Call)) {m : Memory} {db : Postgres},
      (∀ w, (m w).Inv ∧ Refines (m w) (db w)) →
      (∀ wc ∈ calls, plainText wc.1 = true ∧ wc.2.WellFormed) →
      List.Forall₂ Agree (m.run calls) (db.run pg calls) := by
    intro calls
    induction calls with
    | nil => intro m db _ _; exact List.Forall₂.nil
    | cons wc rest ih =>
        intro m db h hcalls
        obtain ⟨w, c⟩ := wc
        obtain ⟨hw, hc⟩ := hcalls (w, c) List.mem_cons_self
        obtain ⟨hagree, hnext⟩ := call_refines hpg h hw hc
        exact List.Forall₂.cons hagree
          (ih hnext fun x hx => hcalls x (List.mem_cons_of_mem _ hx))
  exact run calls (fun _ => ⟨Space.new_inv, new_refines⟩) hcalls

/-- The standard database does as documented. -/
theorem Pg.standard_documented : Pg.standard.Documented where
  text _ h := h
  uuid s h := by
    have hsame : (s.map fun b => if 65 ≤ b && b ≤ 70 then b + 32 else b) = s := by
      refine (List.map_congr_left fun b hb => ?_).trans (List.map_id s)
      have hb' := uuidPattern_chars h b.toNat (List.mem_map_of_mem hb)
      have hno : (decide (65 ≤ b) && decide (b ≤ 70)) = false := by
        simp only [Bool.and_eq_false_iff, decide_eq_false_iff_not, UInt8.le_iff_toNat_le,
          UInt8.reduceToNat]
        rcases hb' with hb' | hb'
        · simp only [hexDigit, Bool.or_eq_true, Bool.and_eq_true, decide_eq_true_eq] at hb'
          omega
        · omega
      rw [hno]
      rfl
    show (if validID _ = true then some _ else none) = some s
    rw [hsame, if_pos h]
  jsonb o h := if_pos (List.all_eq_true.mpr h)

/-- A device registers, pushes an edit, sends it again with a second one, and reads both. -/
theorem postgres_refines_memory_run :
    List.Forall₂ Agree
      (Memory.new.run ([.write (.register tablet),
        .write (.push tablet.id tablet.actor [firstEdit]),
        .write (.push tablet.id tablet.actor [firstEdit, secondEdit]),
        .read (.pull 0 100)].map fun c => (go "site-a", c)))
      (Postgres.new.run Pg.standard ([.write (.register tablet),
        .write (.push tablet.id tablet.actor [firstEdit]),
        .write (.push tablet.id tablet.actor [firstEdit, secondEdit]),
        .read (.pull 0 100)].map fun c => (go "site-a", c))) := by
  refine postgres_refines_memory Pg.standard_documented _ ?_
  have hw : plainText (go "site-a") = true := by decide
  simp only [List.map_cons, List.map_nil, List.mem_cons, List.not_mem_nil, or_false,
    forall_eq_or_imp, forall_eq]
  refine ⟨⟨hw, ?_⟩, ⟨hw, ?_⟩, ⟨hw, ?_⟩, hw, trivial⟩
  · exact ⟨by decide, by decide, by decide, rfl⟩
  · exact ⟨by decide, by decide, by decide⟩
  · exact ⟨by decide, by decide, by decide⟩

end Syncraft.Store
