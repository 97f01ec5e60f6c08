import Mathlib.Data.List.AList
import Mathlib.Data.List.Induction
import Mathlib.Logic.Function.Basic
import Syncraft.Store.Store

/-!
# Syncraft.Store.Memory

The in-memory adapter, `internal/store/memory.go`. A method takes the space it works on and
returns its result with the space it leaves behind, so that "an error changes nothing" is a
theorem about each method and not a convention. Maps keyed by ID are association lists.

Every method holds the mutex from its first line to its last, so calls are atomic.
-/

namespace Syncraft.Store

open Domain CausalLog

/-- One workspace. -/
structure Space where
  devices : AList (fun _ : GoString => Device)
  entries : List Entry
  audit : List Audit
  attachments : AList (fun _ : GoString => Attachment)

namespace Space

/-- A workspace nobody has used. -/
def new : Space := { devices := ∅, entries := [], audit := [], attachments := ∅ }

/-- `log` -/
def log (s : Space) (actor action target : GoString) : Space :=
  { s with audit := s.audit ++ [{ sequence := s.audit.length + 1, actor, action, target }] }

/-- `Register` -/
def register (s : Space) (d : Device) : Except Err Unit × Space :=
  match s.devices.lookup d.id with
  | some old => if old.actor != d.actor || old.revoked then (.error .forbidden, s) else (.ok (), s)
  | none =>
    let s' := { s with devices := s.devices.insert d.id d }
    (.ok (), s'.log d.actor deviceRegistered d.id)

/-- `Device` -/
def device (s : Space) (id : GoString) : Except Err Device :=
  match s.devices.lookup id with
  | some d => .ok d
  | none => .error .notFound

/-- `Revoke` -/
def revoke (s : Space) (id actor : GoString) : Except Err Unit × Space :=
  match s.devices.lookup id with
  | none => (.error .notFound, s)
  | some d =>
    if d.revoked then (.ok (), s)
    else
      let s' := { s with devices := s.devices.insert id { d with revoked := true } }
      (.ok (), s'.log actor deviceRevoked id)

/-- The guard of `Push` and `PutAttachment`: the device exists, is not revoked, and is the
actor's. -/
def active (s : Space) (device actor : GoString) : Bool :=
  match s.devices.lookup device with
  | some d => !d.revoked && d.actor == actor
  | none => false

/-- `known`, filled from the entries. -/
def knownOf (entries : List Entry) : OpMap :=
  entries.foldl (fun known e => known.put e.operation) (fun _ => none)

/-- Store one operation and its audit event. -/
def accept (device actor : GoString) (s : Space) (o : Operation GoString) : Space :=
  let e : Entry := { sequence := s.entries.length + 1, device, actor, operation := o }
  let s' := { s with entries := s.entries ++ [e] }
  s'.log actor operationAccepted o.id

/-- The second loop of `Push`: store what is not known yet. -/
def pushLoop (device actor : GoString) : OpMap → List (Operation GoString) → Space → Space
  | _, [], s => s
  | known, o :: rest, s =>
    match known o.id with
    | some _ => pushLoop device actor known rest s
    | none => pushLoop device actor (known.put o) rest (accept device actor s o)

/-- `Push` -/
def push (s : Space) (device actor : GoString) (batch : List (Operation GoString)) :
    Except Err Nat × Space :=
  if !s.active device actor then (.error .forbidden, s)
  else
    let known := knownOf s.entries
    match validateBatch known batch with
    | .error e => (.error e, s)
    | .ok () =>
      let s' := pushLoop device actor known batch s
      (.ok s'.entries.length, s')

/-- `Pull` -/
def pull (s : Space) (after limit : Int) : Except Err Page :=
  if after < 0 ∨ after > s.entries.length ∨ limit < 1 ∨ limit > 200 then .error .invalid
  else
    let stop := min (after.toNat + limit.toNat) s.entries.length
    .ok { entries := (s.entries.take stop).drop after.toNat, cursor := stop,
          more := decide (stop < s.entries.length) }

/-- `Audit` -/
def auditPage (s : Space) (after limit : Int) : Except Err (List Audit) :=
  if after < 0 ∨ limit < 1 ∨ limit > 200 then .error .invalid
  else
    let start := min s.audit.length after.toNat
    let stop := min (start + limit.toNat) s.audit.length
    .ok ((s.audit.take stop).drop start)

/-- `PutAttachment` -/
def putAttachment (s : Space) (device actor : GoString) (a : Attachment) :
    Except Err Unit × Space :=
  if !s.active device actor then (.error .forbidden, s)
  else
    match s.attachments.lookup a.id with
    | some old =>
      if old.sha256 != a.sha256 || old.record != a.record || old.name != a.name ||
          old.type != a.type then (.error .conflict, s)
      else (.ok (), s)
    | none =>
      let s' := { s with attachments := s.attachments.insert a.id a }
      (.ok (), s'.log actor attachmentStored a.id)

/-- `GetAttachment` -/
def getAttachment (s : Space) (id : GoString) : Except Err Attachment :=
  match s.attachments.lookup id with
  | some a => .ok a
  | none => .error .notFound

/-- Answer a call that may change the workspace. -/
def write (s : Space) : Write → Except Err Result × Space
  | .register d => ((s.register d).1.map fun _ => .done, (s.register d).2)
  | .revoke id actor => ((s.revoke id actor).1.map fun _ => .done, (s.revoke id actor).2)
  | .push device actor batch =>
    ((s.push device actor batch).1.map .cursor, (s.push device actor batch).2)
  | .putAttachment device actor a =>
    ((s.putAttachment device actor a).1.map fun _ => .done, (s.putAttachment device actor a).2)

/-- Answer a call that only reads. -/
def read (s : Space) : Read → Except Err Result
  | .device id => (s.device id).map .device
  | .pull after limit => (s.pull after limit).map .page
  | .audit after limit => (s.auditPage after limit).map .audit
  | .getAttachment id => (s.getAttachment id).map .attachment

/-- Answer one call. -/
def call (s : Space) : Call → Except Err Result × Space
  | .write c => s.write c
  | .read c => (s.read c, s)

end Space

/-- The adapter: a space for every workspace. `Memory.space` makes a missing one on first
use, so a workspace that was never named is an empty one. -/
abbrev Memory := GoString → Space

/-- `NewMemory` -/
def Memory.new : Memory := fun _ => Space.new

/-- Answer a call in a workspace. -/
def Memory.call (m : Memory) (w : GoString) (c : Call) : Except Err Result × Memory :=
  (((m w).call c).1, Function.update m w ((m w).call c).2)

namespace Space

/-! ### What the log holds -/

/-- The operations of the log, in order. -/
def ops (s : Space) : List (Operation GoString) := s.entries.map Entry.operation

@[simp] theorem log_devices (s : Space) (a b c : GoString) :
    (s.log a b c).devices = s.devices := rfl

@[simp] theorem log_entries (s : Space) (a b c : GoString) :
    (s.log a b c).entries = s.entries := rfl

@[simp] theorem log_audit (s : Space) (a b c : GoString) :
    (s.log a b c).audit =
      s.audit ++ [{ sequence := s.audit.length + 1, actor := a, action := b, target := c }] := rfl

@[simp] theorem accept_devices (d a : GoString) (s : Space) (o : Operation GoString) :
    (accept d a s o).devices = s.devices := rfl

@[simp] theorem accept_entries (d a : GoString) (s : Space) (o : Operation GoString) :
    (accept d a s o).entries = s.entries ++
      [{ sequence := s.entries.length + 1, device := d, actor := a, operation := o }] := rfl

@[simp] theorem accept_audit (d a : GoString) (s : Space) (o : Operation GoString) :
    (accept d a s o).audit = s.audit ++
      [{ sequence := s.audit.length + 1, actor := a, action := operationAccepted, target := o.id }] :=
  rfl

@[simp] theorem ops_accept (d a : GoString) (s : Space) (o : Operation GoString) :
    (accept d a s o).ops = s.ops ++ [o] := by
  simp [ops]

@[simp] theorem accept_active (d a : GoString) (s : Space) (o : Operation GoString) :
    (accept d a s o).active = s.active := rfl

/-- Store the operations one after the other. -/
def acceptAll (device actor : GoString) (s : Space) (fresh : List (Operation GoString)) : Space :=
  fresh.foldl (accept device actor) s

@[simp] theorem acceptAll_nil (d a : GoString) (s : Space) : acceptAll d a s [] = s := rfl

theorem acceptAll_append (d a : GoString) (s : Space) (xs ys : List (Operation GoString)) :
    acceptAll d a s (xs ++ ys) = acceptAll d a (acceptAll d a s xs) ys :=
  List.foldl_append

@[simp] theorem acceptAll_devices (d a : GoString) (s : Space) (fresh : List (Operation GoString)) :
    (acceptAll d a s fresh).devices = s.devices := by
  induction fresh generalizing s with
  | nil => rfl
  | cons o rest ih => exact ih (accept d a s o)

@[simp] theorem ops_acceptAll (d a : GoString) (s : Space) (fresh : List (Operation GoString)) :
    (acceptAll d a s fresh).ops = s.ops ++ fresh := by
  induction fresh generalizing s with
  | nil => simp
  | cons o rest ih =>
      have := ih (accept d a s o)
      simp only [ops_accept, List.append_assoc] at this
      exact this

@[simp] theorem acceptAll_active (d a : GoString) (s : Space) (fresh : List (Operation GoString)) :
    (acceptAll d a s fresh).active = s.active := by
  funext d' a'
  unfold active
  simp only [acceptAll_devices]

theorem active_iff {s : Space} {device actor : GoString} :
    s.active device actor = true ↔
      ∃ d, s.devices.lookup device = some d ∧ d.revoked = false ∧ d.actor = actor := by
  unfold active
  cases s.devices.lookup device with
  | none => simp
  | some d => simp

/-! ### Push is admission -/

/-- `known` is the lookup in the log. -/
theorem knownOf_knows {entries : List Entry} (hc : Causal (entries.map Entry.operation))
    (rel : GoString → Prop) : Knows (knownOf entries) (entries.map Entry.operation) rel := by
  induction entries using List.reverseRecOn with
  | nil => intro id _; rfl
  | append_singleton entries e ih =>
      simp only [List.map_append, List.map_singleton] at hc ⊢
      have hpre := hc.of_extends (List.prefix_append _ _)
      have hnone : find (entries.map Entry.operation) e.operation.id = none := by
        have hnd := hc.nodup
        simp only [List.map_append, List.map_singleton, List.nodup_append] at hnd
        exact find_eq_none.mpr fun o ho hk =>
          hnd.2.2 _ (List.mem_map_of_mem ho) _ (List.mem_singleton_self _) hk
      have : knownOf (entries ++ [e]) = (knownOf entries).put e.operation := by
        unfold knownOf
        simp only [List.foldl_append]
        rfl
      rw [this]
      exact (ih hpre).put hnone

/-- The second loop stores exactly what admission appends. -/
theorem pushLoop_eq (device actor : GoString) {batch : List (Operation GoString)} {known : OpMap}
    {s : Space} {r : List (Operation GoString)} (hk : Knows known s.ops fun _ => True)
    (h : admitAll s.ops batch = .ok r) :
    ∃ fresh, r = s.ops ++ fresh ∧ pushLoop device actor known batch s = acceptAll device actor s fresh := by
  induction batch generalizing known s with
  | nil =>
      cases h
      exact ⟨[], by simp, rfl⟩
  | cons o rest ih =>
      obtain ⟨mid, ho, hrest⟩ := admitAll_cons h
      rw [pushLoop, hk _ trivial]
      rcases admitOne_ok ho with ⟨old, hf, -, rfl⟩ | ⟨hf, -, rfl⟩
      · simp only [key_eq] at hf
        rw [hf]
        exact ih hk hrest
      · simp only [key_eq] at hf
        rw [hf]
        have hknown : Knows (known.put o) (accept device actor s o).ops fun _ => True := by
          simp only [ops_accept]; exact hk.put hf
        obtain ⟨fresh, hr, hloop⟩ := ih hknown (by simp only [ops_accept]; exact hrest)
        simp only [ops_accept, List.append_assoc] at hr
        exact ⟨o :: fresh, hr, hloop⟩

/-- **`Push`, accepted.** A batch of 1 to 100 valid operations that the log admits is stored
by an active device, and only what the log did not hold is stored. -/
theorem push_ok {s : Space} {device actor : GoString} {batch : List (Operation GoString)}
    {r : List (Operation GoString)} (hc : Causal s.ops) (hact : s.active device actor = true)
    (hsize : BatchSize batch) (hv : ∀ o ∈ batch, Valid o) (h : admitAll s.ops batch = .ok r) :
    ∃ fresh, r = s.ops ++ fresh ∧
      s.push device actor batch = (.ok r.length, acceptAll device actor s fresh) := by
  obtain ⟨fresh, hr, hloop⟩ := pushLoop_eq device actor (knownOf_knows hc _) h
  have hval : validateBatch (knownOf s.entries) batch = .ok () :=
    (validateBatch_iff (knownOf_knows hc _)).mpr ⟨hsize, hv, r, h⟩
  refine ⟨fresh, hr, ?_⟩
  have hlen : (acceptAll device actor s fresh).entries.length = r.length := by
    have := congrArg List.length (ops_acceptAll device actor s fresh)
    rw [← hr, ops, List.length_map] at this
    exact this
  unfold push
  rw [hact, if_neg (by simp)]
  dsimp only
  rw [hval, hloop, ← hlen]

/-- **Everything a `Push` can do.** It reports an error and changes nothing, or it stores
what the log did not hold. -/
theorem push_cases {s : Space} (hc : Causal s.ops) (device actor : GoString)
    (batch : List (Operation GoString)) :
    (∃ e, s.push device actor batch = (.error e, s)) ∨
      ∃ fresh, s.active device actor = true ∧ BatchSize batch ∧ (∀ o ∈ batch, Valid o) ∧
        admitAll s.ops batch = .ok (s.ops ++ fresh) ∧
        s.push device actor batch =
          (.ok (s.ops ++ fresh).length, acceptAll device actor s fresh) := by
  by_cases hact : s.active device actor = true
  · cases hval : validateBatch (knownOf s.entries) batch with
    | error e =>
        refine Or.inl ⟨e, ?_⟩
        unfold push
        rw [hact, if_neg (by simp)]
        dsimp only
        rw [hval]
    | ok u =>
        obtain ⟨hsize, hv, r, hr⟩ := (validateBatch_iff (knownOf_knows hc _)).mp hval
        obtain ⟨fresh, rfl, hpush⟩ := push_ok hc hact hsize hv hr
        exact Or.inr ⟨fresh, hact, hsize, hv, hr, hpush⟩
  · refine Or.inl ⟨.forbidden, ?_⟩
    unfold push
    rw [if_pos (by simpa using hact)]

/-- Inverting an accepted `Push`. -/
theorem push_accepted {s s' : Space} {device actor : GoString} {batch : List (Operation GoString)}
    {n : Nat} (hc : Causal s.ops) (h : s.push device actor batch = (.ok n, s')) :
    s.active device actor = true ∧ BatchSize batch ∧ (∀ o ∈ batch, Valid o) ∧
      admitAll s.ops batch = .ok s'.ops ∧ s'.active = s.active := by
  rcases push_cases hc device actor batch with ⟨e, he⟩ | ⟨fresh, hact, hsize, hv, hadm, hpush⟩
  · rw [he] at h; cases h
  · rw [hpush] at h
    obtain rfl := (Prod.mk.inj h).2
    exact ⟨hact, hsize, hv, by simp only [ops_acceptAll]; exact hadm, acceptAll_active _ _ _ _⟩

/-- A batch that the log admits is accepted, and the log is what admission makes of it. -/
theorem push_accepts {s : Space} {device actor : GoString} {batch : List (Operation GoString)}
    {r : List (Operation GoString)} (hc : Causal s.ops) (hact : s.active device actor = true)
    (hsize : BatchSize batch) (hv : ∀ o ∈ batch, Valid o) (h : admitAll s.ops batch = .ok r) :
    ∃ n s', s.push device actor batch = (.ok n, s') ∧ s'.ops = r := by
  obtain ⟨fresh, rfl, hpush⟩ := push_ok hc hact hsize hv h
  exact ⟨_, _, hpush, ops_acceptAll _ _ _ _⟩

/-- A batch that the log rejects is reported, and nothing is stored. -/
theorem push_rejects {s : Space} {device actor : GoString} {batch : List (Operation GoString)}
    {e : Rejection} (hc : Causal s.ops) (hact : s.active device actor = true)
    (hsize : BatchSize batch) (hv : ∀ o ∈ batch, Valid o) (h : admitAll s.ops batch = .error e) :
    s.push device actor batch = (.error (rejectionErr e), s) := by
  have hval : validateBatch (knownOf s.entries) batch = .error (rejectionErr e) := by
    rw [@validateBatch_eq _ s.ops batch (knownOf_knows hc _) hsize hv, h]
  unfold push
  rw [hact, if_neg (by simp)]
  dsimp only
  rw [hval]

end Space

end Syncraft.Store
