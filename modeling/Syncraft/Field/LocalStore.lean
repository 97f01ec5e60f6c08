import Syncraft.Field.Replica

/-!
# Syncraft.Field.LocalStore

`lib/data/local_store.dart`, over the tables of `lib/data/database_schema.dart`. A method is a
transaction: it returns the store it leaves behind, or throws and leaves the store as it was.

Rows of `operations` are listed by position. A row is written from an operation, its `id` and
its `content` are computed from it, and reading it decodes the content (`Row.decode`). The
table `metadata` is a field for each of the three keys the code uses; the cursor, which is
stored in decimal, is the number.

Each method has one lemma that says all it does: `save_eq`, `pending_eq`, `applyPage_eq`. The
two that add operations add what is `unseen`.
-/

namespace Syncraft.Field

open CausalLog

/-! ### The tables -/

/-- A row of `operations`. -/
structure Row where
  op : Operation
  actor : DartString
  created : DartString
  deriving DecidableEq

/-- `id` -/
def Row.id (r : Row) : DartString := r.op.id

/-- `content` -/
def Row.content (r : Row) : Domain.Operation JsonText.Literal := jsonEncode r.op.toJson

/-- `Operation.fromJson(jsonDecode(content))` -/
def Row.decode (r : Row) : Except Exn Operation :=
  match jsonDecode r.content with
  | some json => fromJson json
  | none => .error .other

@[simp] theorem Row.decode_eq (r : Row) : r.decode = .ok r.op.stored := by
  simp only [Row.decode, Row.content, jsonDecode_jsonEncode]
  exact fromJson_toJson r.op

/-- A row of `outbox`. -/
structure Queued where
  id : DartString
  attempts : Nat
  error : Option DartString
  deriving DecidableEq

/-- A row of `attachments`. -/
structure AttachmentRow where
  id : DartString
  record : DartString
  name : DartString
  mediaType : DartString
  sha256 : DartString
  content : List UInt8
  uploaded : Bool
  deriving DecidableEq

/-- The local database. -/
structure LocalStore where
  rows : List Row
  outbox : List Queued
  attachments : List AttachmentRow
  device : Option DartString
  account : Option DartString
  storedCursor : Option Int
  deriving DecidableEq

/-- An entry of a page, decoded. A `sequence` that is no integer, and an `actor` or `created`
that is `null` or missing, are `none`. -/
structure PageEntry where
  sequence : Option Int
  actor : Option DartString
  created : Option DartString
  operation : Domain.Operation DartString
  deriving DecidableEq

/-- The entry names its actor and its time, as the server's always do. -/
def PageEntry.Complete (e : PageEntry) : Prop := e.actor.isSome = true ∧ e.created.isSome = true

/-- A page, decoded. -/
structure Page where
  entries : List PageEntry
  cursor : Int
  more : Bool
  deriving DecidableEq

namespace LocalStore

/-- A database just created. -/
def new : LocalStore :=
  { rows := [], outbox := [], attachments := [], device := none, account := none,
    storedCursor := none }

/-! ### Statements -/

/-- Is there a row of `operations` with the ID? -/
def hasRow (s : LocalStore) (id : DartString) : Bool := s.rows.any fun r => r.id == id

/-- Is the ID in the outbox? -/
def queued (s : LocalStore) (id : DartString) : Bool := s.outbox.any fun q => q.id == id

/-- `INSERT INTO operations`: the ID is unique. -/
def insertRow (r : Row) (s : LocalStore) : Except Exn LocalStore :=
  if s.hasRow r.id then .error .database else .ok { s with rows := s.rows ++ [r] }

/-- `INSERT INTO outbox`: the ID is the primary key and refers to an operation. -/
def insertOutbox (id : DartString) (s : LocalStore) : Except Exn LocalStore :=
  if s.queued id || !s.hasRow id then .error .database
  else .ok { s with outbox := s.outbox ++ [{ id, attempts := 0, error := none }] }

/-- `INSERT OR IGNORE INTO operations`: a row that violates a constraint, which `NULL` in
`actor` or `created` does as well, is left out. -/
def insertOrIgnore (op : Operation) (actor created : Option DartString) (s : LocalStore) :
    LocalStore :=
  match actor, created with
  | some actor, some created =>
    if s.hasRow op.id then s else { s with rows := s.rows ++ [{ op, actor, created }] }
  | _, _ => s

/-- `UPDATE operations SET actor=…, created=… WHERE id=…`: `NULL` is refused for a row that is
there. -/
def updateRow (id : DartString) (actor created : Option DartString) (s : LocalStore) :
    Except Exn LocalStore :=
  match actor, created with
  | some actor, some created =>
    .ok { s with rows := s.rows.map fun r => if r.id = id then { r with actor, created } else r }
  | _, _ => if s.hasRow id then .error .database else .ok s

/-! ### Methods -/

/-- `operations` -/
def operations (s : LocalStore) : Except Exn (List Operation) := s.rows.mapM Row.decode

/-- The replica that `save` and `applyPage` start from. -/
def replica (s : LocalStore) : Except Exn Replica := do
  let ops ← s.operations
  Replica.empty.addAll ops

/-- The loop of `save`. `now` is the clock, read for each row. -/
def saveLoop (now : Operation → DartString) : List Operation → LocalStore → Except Exn LocalStore
  | [], s => .ok s
  | op :: rest, s =>
    if s.hasRow op.id then saveLoop now rest s
    else do
      let s ← s.insertRow { op, actor := dart "local", created := now op }
      let s ← s.insertOutbox op.id
      saveLoop now rest s

/-- `save` -/
def save (s : LocalStore) (batch : List Operation) (now : Operation → DartString) :
    Except Exn LocalStore := do
  let replica ← s.replica
  let _ ← replica.addAll batch
  saveLoop now batch s

/-- `pending` -/
def pending (s : LocalStore) : Except Exn (List Operation) :=
  ((s.rows.filter fun r => s.queued r.id).take 100).mapM Row.decode

/-- `pendingCount` -/
def pendingCount (s : LocalStore) : Nat := s.outbox.length

/-- `acknowledge` -/
def acknowledge (s : LocalStore) (ids : List DartString) : LocalStore :=
  { s with outbox := s.outbox.filter fun q => !ids.contains q.id }

/-- `failed` -/
def failed (s : LocalStore) (ids : List DartString) (error : DartString) : LocalStore :=
  { s with
    outbox := s.outbox.map fun q =>
      { q with
        attempts := q.attempts + ids.count q.id
        error := if ids.contains q.id then some (error.take 500) else q.error } }

/-- `cursor` -/
def cursor (s : LocalStore) : Int := s.storedCursor.getD 0

/-- `deviceId`. `uuid` is a fresh ID. -/
def deviceId (s : LocalStore) (uuid : DartString) : DartString × LocalStore :=
  match s.device with
  | some id => (id, s)
  | none => (uuid, { s with device := some uuid })

/-- The loop of `applyPage` over the sequence numbers. -/
def checkSequence : Int → List PageEntry → Except Exn Int
  | expected, [] => .ok expected
  | expected, e :: rest =>
    if e.sequence ≠ some (expected + 1) then .error (.format "Noncontiguous sync page")
    else checkSequence (expected + 1) rest

/-- The loop of `applyPage` that stores the page. -/
def applyLoop : List (Operation × PageEntry) → LocalStore → Except Exn LocalStore
  | [], s => .ok s
  | (op, e) :: rest, s => do
    let s ← (s.insertOrIgnore op e.actor e.created).updateRow op.id e.actor e.created
    applyLoop rest s

/-- `applyPage` -/
def applyPage (s : LocalStore) (page : Page) : Except Exn LocalStore :=
  let next := page.cursor
  let previous := s.cursor
  if next < previous ∨ page.entries = [] ∧ next ≠ previous then
    .error (.format "Invalid sync cursor")
  else do
    let expected ← checkSequence previous page.entries
    if expected ≠ next then .error (.format "Page cursor mismatch")
    else do
      let incoming ← page.entries.mapM fun e => fromJson e.operation
      let replica ← s.replica
      let _ ← replica.addAll incoming
      let s ← applyLoop (incoming.zip page.entries) s
      return { s with storedCursor := some next }

/-! ### What the methods do -/

/-- The operations in the table, as they are read. -/
def ops (s : LocalStore) : List Operation := s.rows.map fun r => r.op.stored

/-- The IDs in the table. -/
def ids (s : LocalStore) : List DartString := s.rows.map Row.id

theorem ids_eq (s : LocalStore) : s.ids = s.ops.map fun o => o.id := by
  simp [ids, ops, Row.id]

theorem ids_nil {s : LocalStore} (h : s.ops = []) : s.ids = [] := by
  rw [ids_eq, h]
  rfl

@[simp] theorem hasRow_iff {s : LocalStore} {id : DartString} :
    s.hasRow id = true ↔ id ∈ s.ids := by
  simp [hasRow, ids]

@[simp] theorem queued_iff {s : LocalStore} {id : DartString} :
    s.queued id = true ↔ id ∈ s.outbox.map Queued.id := by
  simp [queued]

/-- Inverting the first of two steps. -/
theorem ok_of_bind {α β : Type} {x : Except Exn α} {f : α → Except Exn β} {b : β}
    (h : x >>= f = .ok b) : ∃ a, x = .ok a ∧ f a = .ok b := by
  cases x with
  | error e => cases h
  | ok a => exact ⟨a, rfl, h⟩

theorem ok_bind {α β : Type} (a : α) (f : α → Except Exn β) : (Except.ok a >>= f) = f a := rfl

/-- Converting a list succeeds when every element does. -/
theorem mapM_ok_iff {α β : Type} {f : α → Except Exn β} {xs : List α} {ys : List β} :
    xs.mapM f = .ok ys ↔ xs.map f = ys.map .ok := by
  induction xs generalizing ys with
  | nil =>
      rw [List.mapM_nil, List.map_nil, eq_comm (a := []), List.map_eq_nil_iff]
      exact ⟨fun h => (Except.ok.inj h).symm, fun h => h ▸ rfl⟩
  | cons x xs ih =>
      simp only [List.mapM_cons]
      constructor
      · intro h
        obtain ⟨y, hy, h⟩ := ok_of_bind h
        obtain ⟨rest, hrest, h⟩ := ok_of_bind h
        obtain rfl := Except.ok.inj h
        rw [List.map_cons, List.map_cons, hy, ih.mp hrest]
      · intro h
        obtain ⟨y, rest, rfl⟩ := List.exists_cons_of_ne_nil (l := ys) (by rintro rfl; cases h)
        simp only [List.map_cons, List.cons.injEq] at h
        rw [h.1, ih.mpr h.2]
        rfl

theorem length_of_mapM {α β : Type} {f : α → Except Exn β} {xs : List α} {ys : List β}
    (h : xs.mapM f = .ok ys) : ys.length = xs.length := by
  have hlength := congrArg List.length (mapM_ok_iff.mp h)
  rw [List.length_map, List.length_map] at hlength
  exact hlength.symm

/-- What a list was converted to, next to what was converted. -/
theorem of_mem_zip {α β : Type} {f : α → Except Exn β} {xs : List α} {ys : List β}
    (h : xs.mapM f = .ok ys) {p : β × α} (hp : p ∈ ys.zip xs) : f p.2 = .ok p.1 := by
  have hmap := mapM_ok_iff.mp h
  clear h
  induction xs generalizing ys with
  | nil =>
      rw [List.zip_nil_right] at hp
      cases hp
  | cons x xs ih =>
      cases ys with
      | nil => cases hp
      | cons y ys =>
          rw [List.map_cons, List.map_cons, List.cons.injEq] at hmap
          rcases List.mem_cons.mp hp with rfl | hp
          · exact hmap.1
          · exact ih hp hmap.2

theorem mapM_decode (rows : List Row) :
    rows.mapM Row.decode = .ok (rows.map fun r => r.op.stored) :=
  mapM_ok_iff.mpr (by simp)

@[simp] theorem operations_eq (s : LocalStore) : s.operations = .ok s.ops := mapM_decode s.rows

/-- **What `pending` returns**: the first hundred operations that are in the outbox. -/
theorem pending_eq (s : LocalStore) :
    s.pending = .ok ((s.ops.filter fun o => s.queued o.id).take 100) := by
  rw [pending, mapM_decode, ops, List.filter_map, ← List.map_take]
  rfl

/-- A table in causal order loads as it is. -/
theorem replica_eq {s : LocalStore} (hc : Causal s.ops) :
    s.replica = .ok { operations := s.ops, causal := hc } := by
  rw [replica, operations_eq]
  exact Replica.addAll_ok_iff.mpr hc.admitAll_eq

/-- Adding to the replica that was loaded. -/
theorem addAll_loaded {ops : List Operation} (hc : Causal ops) (incoming : List Operation) :
    (∃ e, admitAll ops incoming = .error e ∧
      Replica.addAll { operations := ops, causal := hc } incoming = .error (rejectionExn e)) ∨
    ∃ r r', admitAll ops incoming = .ok r ∧
      Replica.addAll { operations := ops, causal := hc } incoming = .ok r' := by
  have heq := Replica.addAll_eq { operations := ops, causal := hc } incoming
  dsimp only at heq
  cases ha : admitAll ops incoming with
  | error e =>
      rw [ha] at heq
      cases hr : Replica.addAll { operations := ops, causal := hc } incoming with
      | error e' => rw [hr] at heq; exact Or.inl ⟨e, rfl, congrArg _ (Except.error.inj heq)⟩
      | ok r' => rw [hr] at heq; cases heq
  | ok r =>
      rw [ha] at heq
      cases hr : Replica.addAll { operations := ops, causal := hc } incoming with
      | error e' => rw [hr] at heq; cases heq
      | ok r' => exact Or.inr ⟨r, r', rfl, rfl⟩

/-- Store and queue operations the table does not hold. -/
def add (now : Operation → DartString) (fresh : List Operation) (s : LocalStore) : LocalStore :=
  { s with
    rows := s.rows ++ fresh.map fun op => { op, actor := dart "local", created := now op }
    outbox := s.outbox ++ fresh.map fun op => { id := op.id, attempts := 0, error := none } }

@[simp] theorem ops_add (now : Operation → DartString) (fresh : List Operation) (s : LocalStore) :
    (s.add now fresh).ops = s.ops ++ fresh.map Operation.stored := by
  simp [ops, add]

@[simp] theorem ids_add (now : Operation → DartString) (fresh : List Operation) (s : LocalStore) :
    (s.add now fresh).ids = s.ids ++ fresh.map fun o => o.id := by
  simp [ids, add, Row.id]

@[simp] theorem outbox_ids_add (now : Operation → DartString) (fresh : List Operation)
    (s : LocalStore) : (s.add now fresh).outbox.map Queued.id =
      s.outbox.map Queued.id ++ fresh.map fun o => o.id := by
  simp [add, Function.comp_def]

theorem add_add (now : Operation → DartString) (xs ys : List Operation) (s : LocalStore) :
    (s.add now xs).add now ys = s.add now (xs ++ ys) := by
  simp [add]

/-- The outbox refers to operations of the table. -/
def OutboxStored (s : LocalStore) : Prop := ∀ id ∈ s.outbox.map Queued.id, id ∈ s.ids

theorem OutboxStored.add {s : LocalStore} (h : s.OutboxStored) (now : Operation → DartString)
    (fresh : List Operation) : (s.add now fresh).OutboxStored := by
  intro id hid
  simp only [outbox_ids_add, List.mem_append] at hid
  simp only [ids_add, List.mem_append]
  exact hid.imp_left (h id)

/-- Both inserts succeed for an operation the table does not hold. -/
theorem insert_new {s : LocalStore} (h : s.OutboxStored) {op : Operation} (hnew : op.id ∉ s.ids)
    (now : Operation → DartString) :
    (s.insertRow { op, actor := dart "local", created := now op }).bind (insertOutbox op.id) =
      .ok (s.add now [op]) := by
  have hrow : s.hasRow op.id = false := by rw [Bool.eq_false_iff, ne_eq, hasRow_iff]; exact hnew
  have hq : s.queued op.id = false := by
    simp only [Bool.eq_false_iff, ne_eq, queued_iff]; exact fun hq => hnew (h _ hq)
  have hq' : queued { s with rows := s.rows ++ [{ op, actor := dart "local", created := now op }] }
      op.id = false := hq
  have hrow' : hasRow { s with rows := s.rows ++ [{ op, actor := dart "local", created := now op }] }
      op.id = true := by simp [ids, Row.id]
  have hr : insertRow { op, actor := dart "local", created := now op } s =
      .ok { s with rows := s.rows ++ [{ op, actor := dart "local", created := now op }] } := by
    rw [insertRow, if_neg]
    rw [show ({ op, actor := dart "local", created := now op } : Row).id = op.id from rfl, hrow]
    simp
  rw [hr]
  show insertOutbox op.id _ = _
  rw [insertOutbox, hq', hrow', if_neg (by simp)]
  rfl

/-- The loop of `save` adds what is unseen. -/
theorem saveLoop_eq {s : LocalStore} (h : s.OutboxStored) (batch : List Operation)
    (now : Operation → DartString) :
    saveLoop now batch s = .ok (s.add now (unseen s.ids batch)) := by
  induction batch generalizing s with
  | nil => simp [saveLoop, unseen, add]
  | cons op rest ih =>
      rw [saveLoop, unseen, key_eq]
      by_cases hmem : op.id ∈ s.ids
      · rw [if_pos (hasRow_iff.mpr hmem), if_pos hmem, ih h]
      · rw [if_neg (mt hasRow_iff.mp hmem), if_neg hmem]
        have hins := insert_new h hmem now
        have hids : (s.add now [op]).ids = s.ids ++ [op.id] := by simp
        calc ((s.insertRow { op, actor := dart "local", created := now op }).bind fun s =>
              (s.insertOutbox op.id).bind fun s => saveLoop now rest s)
            = ((s.insertRow { op, actor := dart "local", created := now op }).bind
                (insertOutbox op.id)).bind (saveLoop now rest) := by
              cases s.insertRow { op, actor := dart "local", created := now op } <;> rfl
          _ = saveLoop now rest (s.add now [op]) := by rw [hins]; rfl
          _ = .ok ((s.add now [op]).add now (unseen (s.ids ++ [op.id]) rest)) := by
              rw [ih (h.add now [op]), hids]
          _ = .ok (s.add now (op :: unseen (s.ids ++ [op.id]) rest)) := by simp only [add_add]; rfl

/-- **Everything a `save` can do.** It throws what the replica throws and changes nothing, or
it stores and queues what is unseen. -/
theorem save_eq {s : LocalStore} (hc : Causal s.ops) (h : s.OutboxStored) (batch : List Operation)
    (now : Operation → DartString) :
    s.save batch now =
      match admitAll s.ops batch with
      | .ok _ => .ok (s.add now (unseen s.ids batch))
      | .error e => .error (rejectionExn e) := by
  have hload := replica_eq hc
  rcases addAll_loaded hc batch with ⟨e, ha, hr⟩ | ⟨r, r', ha, hr⟩
  · rw [save, hload, ha]
    show (Replica.addAll _ _ >>= fun _ => _) = _
    rw [hr]
    rfl
  · rw [save, hload, ha]
    show (Replica.addAll _ _ >>= fun _ => _) = _
    rw [hr]
    exact saveLoop_eq h batch now

/-- One step of the loop of `applyPage`: the operation is there afterwards, and nothing but
rows has changed. -/
theorem applyEntry_eq (s : LocalStore) (op : Operation) {e : PageEntry} (he : e.Complete) :
    ∃ rows, (s.insertOrIgnore op e.actor e.created).updateRow op.id e.actor e.created =
        .ok { s with rows } ∧
      rows.map (fun r => r.op.stored) = s.ops ++ (unseen s.ids [op]).map Operation.stored := by
  obtain ⟨actor, hactor⟩ := Option.isSome_iff_exists.mp he.1
  obtain ⟨created, hcreated⟩ := Option.isSome_iff_exists.mp he.2
  have hops : ∀ rows : List Row,
      (rows.map fun r => if r.id = op.id then { r with actor, created } else r).map
        (fun r => r.op.stored) = rows.map fun r => r.op.stored := by
    intro rows
    simp only [List.map_map]
    refine List.map_congr_left fun r _ => ?_
    dsimp only [Function.comp]
    split <;> rfl
  rw [hactor, hcreated, unseen, key_eq]
  by_cases hmem : op.id ∈ s.ids
  · rw [insertOrIgnore, if_pos (hasRow_iff.mpr hmem), if_pos hmem]
    exact ⟨_, rfl, by rw [hops]; simp [unseen, ops]⟩
  · rw [insertOrIgnore, if_neg (mt hasRow_iff.mp hmem), if_neg hmem]
    exact ⟨_, rfl, by rw [hops]; simp [unseen, ops]⟩

/-- The loop of `applyPage` adds what is unseen. -/
theorem applyLoop_eq (s : LocalStore) (xs : List (Operation × PageEntry))
    (hxs : ∀ x ∈ xs, x.2.Complete) :
    ∃ rows, applyLoop xs s = .ok { s with rows } ∧
      rows.map (fun r => r.op.stored) =
        s.ops ++ (unseen s.ids (xs.map Prod.fst)).map Operation.stored := by
  induction xs generalizing s with
  | nil => exact ⟨s.rows, rfl, by simp [unseen, ops]⟩
  | cons x rest ih =>
      obtain ⟨op, e⟩ := x
      obtain ⟨rows, hstep, hrows⟩ := applyEntry_eq s op (hxs _ List.mem_cons_self)
      have hrest := ih { s with rows } fun x hx => hxs x (List.mem_cons_of_mem _ hx)
      obtain ⟨rows', hloop, hrows'⟩ := hrest
      refine ⟨rows', ?_, ?_⟩
      · rw [applyLoop, hstep]
        exact hloop
      · have hops : ops { s with rows } = s.ops ++ (unseen s.ids [op]).map Operation.stored := hrows
        have hids : ids { s with rows } = s.ids ++ (unseen s.ids [op]).map fun o => o.id := by
          rw [ids_eq, hops, ids_eq]
          simp
        rw [hrows', hops, hids, List.map_cons]
        by_cases hmem : op.id ∈ s.ids
        · simp [hmem, unseen, key_eq]
        · simp [hmem, unseen, key_eq]

/-- Sequence numbers that follow on each other. -/
theorem checkSequence_ok_iff {expected next : Int} {entries : List PageEntry} :
    checkSequence expected entries = .ok next ↔
      (∀ (i : Nat) (h : i < entries.length), entries[i].sequence = some (expected + i + 1)) ∧
        next = expected + entries.length := by
  induction entries generalizing expected with
  | nil => simp [checkSequence, eq_comm]
  | cons e rest ih =>
      rw [checkSequence]
      by_cases he : e.sequence = some (expected + 1)
      · rw [if_neg (by simp [he]), ih]
        constructor
        · rintro ⟨hall, rfl⟩
          refine ⟨fun i hi => ?_, by simp; omega⟩
          cases i with
          | zero => simpa using he
          | succ i =>
              have := hall i (by simpa using hi)
              rw [List.getElem_cons_succ, this]
              push_cast
              congr 1
              omega
        · rintro ⟨hall, rfl⟩
          refine ⟨fun i hi => ?_, by simp; omega⟩
          have := hall (i + 1) (by simpa using hi)
          simp only [List.getElem_cons_succ] at this
          rw [this]
          push_cast
          congr 1
          omega
      · rw [if_pos he]
        constructor
        · intro h; cases h
        · rintro ⟨hall, -⟩
          have h₀ := hall 0 (by simp)
          simp only [List.getElem_cons_zero] at h₀
          simp [h₀] at he

/-- **A page that is applied.** Its sequence numbers follow on the cursor, its operations are
read, and the replica takes them. -/
theorem applyPage_ok {s : LocalStore} (hc : Causal s.ops) {page : Page}
    {incoming r : List Operation} (hsequence : ∀ (i : Nat) (h : i < page.entries.length),
      page.entries[i].sequence = some (s.cursor + i + 1))
    (hcursor : page.cursor = s.cursor + page.entries.length)
    (hcomplete : ∀ e ∈ page.entries, e.Complete)
    (hread : page.entries.map (fun e => fromJson e.operation) = incoming.map .ok)
    (hadmits : admitAll s.ops incoming = .ok r) :
    ∃ s', s.applyPage page = .ok s' ∧
      s'.ops = s.ops ++ (unseen s.ids incoming).map Operation.stored ∧
      s'.outbox = s.outbox ∧ s'.cursor = page.cursor := by
  have hguard : ¬ (page.cursor < s.cursor ∨ page.entries = [] ∧ page.cursor ≠ s.cursor) := by
    rw [hcursor]
    rintro (h | ⟨h, hne⟩)
    · omega
    · rw [h] at hne
      simp at hne
  have hlen : page.entries.length = incoming.length := by
    have := congrArg List.length hread
    simpa using this
  have hload := replica_eq hc
  obtain ⟨r', hr'⟩ : ∃ r', Replica.addAll { operations := s.ops, causal := hc } incoming = .ok r' := by
    rcases addAll_loaded hc incoming with ⟨e, ha, -⟩ | ⟨_, r', -, hr'⟩
    · rw [hadmits] at ha; cases ha
    · exact ⟨r', hr'⟩
  have hfst : (incoming.zip page.entries).map Prod.fst = incoming := by
    rw [List.map_fst_zip (by omega)]
  obtain ⟨rows, hloop, hrows⟩ := applyLoop_eq s (incoming.zip page.entries)
    fun x hx => hcomplete _ (List.of_mem_zip hx).2
  rw [hfst] at hrows
  refine ⟨{ s with rows, storedCursor := some page.cursor }, ?_, hrows, rfl, rfl⟩
  rw [applyPage, if_neg hguard, checkSequence_ok_iff.mpr ⟨hsequence, hcursor⟩]
  show (if page.cursor ≠ page.cursor then _ else _) = _
  rw [if_neg (by simp), mapM_ok_iff.mpr hread, hload]
  show (Replica.addAll _ _ >>= fun _ => _) = _
  rw [hr']
  show (applyLoop _ _ >>= fun _ => _) = _
  rw [hloop]
  rfl

/-- Inverting `applyPage`: the page was read, and the replica has taken it. -/
theorem applyPage_inv {s s' : LocalStore} {page : Page} (h : s.applyPage page = .ok s') :
    ∃ incoming r r', page.entries.map (fun e => fromJson e.operation) = incoming.map .ok ∧
      s.replica = .ok r ∧ Replica.addAll r incoming = .ok r' := by
  rw [applyPage] at h
  split at h; · cases h
  obtain ⟨expected, -, h⟩ := ok_of_bind h
  split at h; · cases h
  obtain ⟨incoming, hread, h⟩ := ok_of_bind h
  obtain ⟨r, hr, h⟩ := ok_of_bind h
  obtain ⟨r', hr', -⟩ := ok_of_bind h
  exact ⟨incoming, r, r', mapM_ok_iff.mp hread, hr, hr'⟩

/-- A page that was applied was read, entry by entry. -/
theorem applyPage_reads {s s' : LocalStore} {page : Page} (h : s.applyPage page = .ok s') :
    ∀ e ∈ page.entries, ∃ o, fromJson e.operation = .ok o := by
  obtain ⟨incoming, -, -, hread, -⟩ := applyPage_inv h
  intro e he
  have hmem : fromJson e.operation ∈ incoming.map Except.ok := hread ▸ List.mem_map_of_mem he
  obtain ⟨o, -, ho⟩ := List.mem_map.mp hmem
  exact ⟨o, ho.symm⟩

/-- Nothing it brought contradicts the table. -/
theorem applyPage_agrees {s s' : LocalStore} (hc : Causal s.ops) {page : Page}
    (h : s.applyPage page = .ok s') {e : PageEntry} (he : e ∈ page.entries) {o x : Operation}
    (ho : fromJson e.operation = .ok o) (hx : x ∈ s.ops) (hid : x.id = o.id) :
    x.equivalent o = true := by
  obtain ⟨incoming, r, r', hread, hr, hr'⟩ := applyPage_inv h
  obtain rfl := Except.ok.inj ((replica_eq hc).symm.trans hr)
  have hmem : Except.ok o ∈ incoming.map (Except.ok : Operation → Except Exn Operation) :=
    hread ▸ ho ▸ List.mem_map_of_mem he
  obtain ⟨o', ho', heq⟩ := List.mem_map.mp hmem
  obtain rfl := Except.ok.inj heq
  have hadmits := Replica.addAll_ok_iff.mp hr'
  -- What is held under the ID afterwards is what was held before.
  obtain ⟨y, hy, hyo⟩ := admitAll_holds hadmits ho'
  have hold := find_of_extends (admitAll_grows hadmits) (hc.find_of_mem hx)
  rw [key_eq, hid, ← key_eq, hy] at hold
  obtain rfl := Option.some.inj hold
  exact hyo

end LocalStore

end Syncraft.Field
