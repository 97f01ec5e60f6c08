import Syncraft.Field.Refresh
import Syncraft.Field.WorkspaceController

/-!
# Syncraft.Field.Screen

The screen over `lib/domain/workspace_controller.dart`: the list with its filters, new inspections,
and the details of an inspection (`lib/ui/inspection_detail.dart`, `lib/ui/conflict_panel.dart`,
`lib/ui/edit_field.dart`), where fields are edited.

Details and dialogs keep the inspection that they were built with, whatever is saved, arrives and is
published meanwhile. An edit made there takes the place of what its user saw, and of nothing else
(`edit_supersedes_seen`); and what is shown stays until it is named by somebody who has seen it
(`shown_until_named`).
-/

namespace Syncraft.Field.WorkspaceController

open CausalLog
open Library (Run)
open Domain (ofField)
open LocalStore (Call)

/-! ### The list -/

/-- What the list is filtered by. -/
structure Filters where
  query : DartString
  status : DartString
  priority : DartString
  showArchived : Bool
  conflictsOnly : Bool

/-- As they are at first, and after `clearFilters`. -/
def Filters.cleared : Filters :=
  { query := [], status := dart "all", priority := dart "all", showArchived := false,
    conflictsOnly := false }

/-- `filter`: what is not given stays. -/
def Filters.filter (f : Filters) (text state urgency : Option DartString)
    (archived conflicts : Option Bool) : Filters :=
  { query := text.getD f.query, status := state.getD f.status,
    priority := urgency.getD f.priority, showArchived := archived.getD f.showArchived,
    conflictsOnly := conflicts.getD f.conflictsOnly }

/-- `filtered`. `lower` is Dart's `toLowerCase`. -/
def filtered (lower : DartString → DartString) (f : Filters) (inspections : List Inspection) :
    List Inspection :=
  inspections.filter fun r =>
    r.archived == f.showArchived &&
    (f.status == dart "all" || r.status == f.status) &&
    (f.priority == dart "all" || r.priority == f.priority) &&
    (!f.conflictsOnly || !r.conflicts.isEmpty) &&
    decide (lower (trim f.query) <:+:
      lower (r.title ++ dart " " ++ r.site ++ dart " " ++ r.value (dart "notes") []))

/-- `selected` -/
def selected (inspections : List Inspection) (selectedId : Option DartString) : Option Inspection :=
  inspections.find? fun r => some r.id == selectedId

/-! ### Edits -/

/-- `edit`, of an inspection that was projected: `record.fields[field]!` are the versions that the
user has seen. -/
def editShown (s : LocalStore) (record : Inspection) (field value uuid : DartString)
    (now : Operation → DartString) : Except Exn LocalStore :=
  match record.fields.lookup field with
  | some versions => edit s record.id field value (versions.map fun o => o.id) uuid now
  | none => .error .other

/-- The fields that a new inspection is given. -/
def entries (title site : DartString) : List (DartString × DartString) :=
  [(dart "title", trim title), (dart "site", trim site), (dart "status", dart "draft"),
    (dart "priority", dart "normal")]

/-- `create`, up to the refresh. `id` is a fresh ID, and `uuid` one for each field. -/
def create (s : LocalStore) (title site id : DartString) (uuid : DartString → DartString)
    (now : Operation → DartString) : Except Exn LocalStore := do
  let batch ← (entries title site).mapM fun e =>
    Operation.new { id := uuid e.1, record := id, field := e.1, value := e.2, parents := [] }
  s.save batch now

/-! ### The screen -/

/-- What the user sees and works with. -/
structure Screen where
  session : Session
  filters : Filters
  selectedId : Option DartString
  /-- The inspections that details were built with. -/
  details : List Inspection

namespace Screen

/-- What can happen. -/
inductive Event where
  /-- A refresh goes on, or another part of the application calls the store. -/
  | session (e : WorkspaceController.Event)
  | filter (text state urgency : Option DartString) (archived conflicts : Option Bool)
  | clearFilters
  | select (id : Option DartString)
  /-- The details of the selected inspection are built. -/
  | build
  /-- A field is edited in details that were built, or in a dialog that was opened there. -/
  | edit (record : Inspection) (field value uuid : DartString) (now : Operation → DartString)
  | archive (record : Inspection) (value : Bool) (uuid : DartString) (now : Operation → DartString)
  | create (title site id : DartString) (uuid : DartString → DartString)
      (now : Operation → DartString)

/-- The application has been started. -/
def new (store : LocalStore) : Screen :=
  { session := Session.new store, filters := .cleared, selectedId := none, details := [] }

/-- A save has returned, or thrown. -/
def saved (s : Screen) : Except Exn LocalStore → Screen
  | .ok store => { s with session := { s.session with store } }
  | .error _ => s

/-- What an event does. The refresh that follows on a save is an event of the session. -/
def step (lower : DartString → DartString) (sha256 : List UInt8 → DartString) (s : Screen) :
    Event → Screen
  | .session e => { s with session := s.session.step lower sha256 e }
  | .filter text state urgency archived conflicts =>
    { s with filters := s.filters.filter text state urgency archived conflicts }
  | .clearFilters => { s with filters := .cleared }
  | .select id => { s with selectedId := id }
  | .build =>
    { s with details := s.details ++ (selected s.session.view.inspections s.selectedId).toList }
  | .edit record field value uuid now =>
    s.saved (editShown s.session.store record field value uuid now)
  | .archive record value uuid now => s.saved (archive s.session.store record value uuid now)
  | .create title site id uuid now => s.saved (create s.session.store title site id uuid now)

/-- Pages are complete, as the server's are, and what is edited was built. -/
def Event.Allowed (s : Screen) : Event → Prop
  | .session (.call c) => c.Complete
  | .edit record _ _ _ _ | .archive record _ _ _ => record ∈ s.details
  | _ => True

/-- The steps of a screen. -/
def Step (lower : DartString → DartString) (sha256 : List UInt8 → DartString) (s : Screen)
    (e : Event) (t : Screen) : Prop := s.step lower sha256 e = t ∧ e.Allowed s

end Screen

/-! ### What an edit saves -/

theorem edit_call {sha256 : List UInt8 → DartString} {s s' : LocalStore}
    {record field value uuid : DartString} {observed : List DartString} {now : Operation → DartString}
    (h : edit s record field value observed uuid now = .ok s') :
    ∃ op, op.toOperation = { id := uuid, record, field, value, parents := observed } ∧
      s.call sha256 (.save [op] now) = .ok s' := by
  rw [edit] at h
  obtain ⟨op, hop, hsave⟩ := LocalStore.ok_of_bind h
  exact ⟨op, Operation.of_new hop, hsave⟩

theorem editShown_call {sha256 : List UInt8 → DartString} {s s' : LocalStore} {record : Inspection}
    {field value uuid : DartString} {now : Operation → DartString}
    (h : editShown s record field value uuid now = .ok s') :
    ∃ versions op, record.fields.lookup field = some versions ∧
      op.parents = versions.map (fun o => o.id) ∧ s.call sha256 (.save [op] now) = .ok s' := by
  unfold editShown at h
  split at h
  · next versions hversions =>
      obtain ⟨op, hop, hcall⟩ := edit_call h
      exact ⟨versions, op, hversions, by rw [hop], hcall⟩
  · cases h

theorem archive_eq (s : LocalStore) (record : Inspection) (value : Bool) (uuid : DartString)
    (now : Operation → DartString) :
    archive s record value uuid now =
      editShown s record (dart "archived") (if value then dart "true" else dart "false") uuid now :=
  rfl

theorem create_call {sha256 : List UInt8 → DartString} {s s' : LocalStore}
    {title site id : DartString} {uuid : DartString → DartString} {now : Operation → DartString}
    (h : create s title site id uuid now = .ok s') :
    ∃ batch, (∀ o ∈ batch, o.parents = []) ∧ s.call sha256 (.save batch now) = .ok s' := by
  rw [create] at h
  obtain ⟨batch, hbatch, hsave⟩ := LocalStore.ok_of_bind h
  refine ⟨batch, fun o ho => ?_, hsave⟩
  have hmem := List.mem_map_of_mem (f := Except.ok (ε := Exn)) ho
  rw [← LocalStore.mapM_ok_iff.mp hbatch] at hmem
  obtain ⟨e, -, he⟩ := List.mem_map.mp hmem
  rw [Operation.of_new he]

/-! ### What details were built with -/

theorem Session.resume_store {lower : DartString → DartString} (s : Session) (g : Nat) :
    (s.resume lower g).store = s.store := by
  rcases s.resume_cases lower g with ⟨r, heq, -⟩ | ⟨result, count, -, -, -, heq⟩
  · rw [heq]
    rfl
  · rw [heq]
    rfl

namespace Screen

variable {lower : DartString → DartString} {sha256 : List UInt8 → DartString} {s t : Screen}
  {e : Event}

/-- What holds at all times: an inspection that details were built with shows a part of the table,
from its beginning. -/
structure Sound (lower : DartString → DartString) (sha256 : List UInt8 → DartString) (s : Screen) :
    Prop where
  store : LocalStore.Reachable sha256 Call.Complete s.session.store
  order : Session.InOrder lower s.session
  details : ∀ i ∈ s.details, ∃ seen, seen <+: s.session.store.ops ∧ i = Inspection.of seen i.id

theorem Sound.new {store : LocalStore} (h : LocalStore.Reachable sha256 Call.Complete store) :
    Sound lower sha256 (new store) where
  store := h
  order := .new h.kept
  details := List.forall_mem_nil _

/-- What is listed shows a part of the table. -/
theorem Sound.listed (h : Sound lower sha256 s) {i : Inspection}
    (hi : i ∈ s.session.view.inspections) :
    ∃ seen, seen <+: s.session.store.ops ∧ i = Inspection.of seen i.id := by
  rw [h.order.shown] at hi
  cases hlast : s.session.published.getLast? with
  | none =>
      rw [hlast] at hi
      cases hi
  | some p =>
      rw [hlast] at hi
      have hp : p ∈ s.session.published := List.mem_of_getLast? hlast
      have hmem : i ∈ Inspection.project lower p.2.operations := h.order.projected p hp ▸ hi
      rw [Inspection.project, List.mem_insertionSort] at hmem
      obtain ⟨id, -, rfl⟩ := List.mem_map.mp hmem
      exact ⟨p.2.operations, h.order.stored p hp, rfl⟩

/-- A save that has returned or thrown is a call of the session, or nothing. -/
theorem saved_cases (lower : DartString → DartString) {r : Except Exn LocalStore}
    (hr : ∀ s', r = .ok s' → ∃ batch now, s.session.store.call sha256 (.save batch now) = .ok s') :
    (s.saved r).session = s.session ∨ ∃ e, (s.saved r).session = s.session.step lower sha256 e ∧
      ∀ c, e = .call c → c.Complete := by
  cases r with
  | error e => exact .inl rfl
  | ok s' =>
      obtain ⟨batch, now, hcall⟩ := hr s' rfl
      refine .inr ⟨.call (.save batch now), ?_, fun c hc => ?_⟩
      · show _ = { s.session with store := s.session.store.after sha256 (.save batch now) }
        rw [LocalStore.after_ok hcall]
        rfl
      · obtain rfl := WorkspaceController.Event.call.inj hc
        trivial

/-- **What a step does to the session**: an event of its own, or nothing. -/
theorem session_cases (hstep : Step lower sha256 s e t) :
    t.session = s.session ∨ ∃ e', t.session = s.session.step lower sha256 e' ∧
      ∀ c, e' = .call c → c.Complete := by
  obtain ⟨rfl, hallowed⟩ := hstep
  cases e with
  | session e =>
      refine .inr ⟨e, rfl, fun c hc => ?_⟩
      obtain rfl := hc
      exact hallowed
  | edit record field value uuid now =>
      refine saved_cases lower fun s' hs' => ?_
      obtain ⟨-, op, -, -, hcall⟩ := editShown_call hs'
      exact ⟨[op], now, hcall⟩
  | archive record value uuid now =>
      refine saved_cases lower fun s' hs' => ?_
      rw [archive_eq] at hs'
      obtain ⟨-, op, -, -, hcall⟩ := editShown_call hs'
      exact ⟨[op], now, hcall⟩
  | create title site id uuid now =>
      refine saved_cases lower fun s' hs' => ?_
      obtain ⟨batch, -, hcall⟩ := create_call hs'
      exact ⟨batch, now, hcall⟩
  | filter | clearFilters | select | build => exact .inl rfl

/-- Details that were built are kept, and those that are built show what is listed. -/
theorem details_cases (hstep : Step lower sha256 s e t) :
    ∀ i ∈ t.details, i ∈ s.details ∨ i ∈ s.session.view.inspections := by
  obtain ⟨rfl, -⟩ := hstep
  have hsaved : ∀ r, ∀ i ∈ (s.saved r).details,
      i ∈ s.details ∨ i ∈ s.session.view.inspections := by
    intro r
    cases r with
    | error e => exact fun i hi => .inl hi
    | ok s' => exact fun i hi => .inl hi
  cases e with
  | build =>
      intro i hi
      rcases List.mem_append.mp hi with hi | hi
      · exact .inl hi
      · exact .inr (List.mem_of_find?_eq_some (Option.mem_toList.mp hi))
  | edit | archive | create => exact hsaved _
  | session | filter | clearFilters | select => exact fun i hi => .inl hi

/-- The store, when an event has happened to the session. -/
theorem Sound.store_step (h : Sound lower sha256 s) {e : WorkspaceController.Event}
    (hcomplete : ∀ c, e = .call c → c.Complete) :
    LocalStore.Reachable sha256 Call.Complete (s.session.step lower sha256 e).store ∧
      s.session.store.ops <+: (s.session.step lower sha256 e).store.ops := by
  cases e with
  | call c => exact ⟨h.store.call c (hcomplete c rfl), h.order.kept.grows c⟩
  | refresh | throws | dispose => exact ⟨h.store, List.prefix_refl _⟩
  | resume g =>
      show LocalStore.Reachable sha256 Call.Complete (s.session.resume lower g).store ∧
        _ <+: (s.session.resume lower g).store.ops
      rw [Session.resume_store]
      exact ⟨h.store, List.prefix_refl _⟩

theorem Sound.step (h : Sound lower sha256 s) (hstep : Step lower sha256 s e t) :
    Sound lower sha256 t := by
  have hsession : LocalStore.Reachable sha256 Call.Complete t.session.store ∧
      Session.InOrder lower t.session ∧ s.session.store.ops <+: t.session.store.ops := by
    rcases session_cases hstep with heq | ⟨e', heq, hcomplete⟩
    · rw [heq]
      exact ⟨h.store, h.order, List.prefix_refl _⟩
    · have hstore := h.store_step hcomplete
      rw [← heq] at hstore
      exact ⟨hstore.1, h.order.step heq.symm, hstore.2⟩
  refine ⟨hsession.1, hsession.2.1, fun i hi => ?_⟩
  obtain ⟨seen, hseen, heq⟩ := (details_cases hstep i hi).elim (h.details i) h.listed
  exact ⟨seen, hseen.trans hsession.2.2, heq⟩

end Screen

/-! ### Edits take the place of what was seen -/

/-- What an edit comes to: it takes the place of the versions that its user has seen. -/
structure Supersedes (s s' : LocalStore) (record field value uuid : DartString)
    (versions : List Operation) : Prop where
  stored : ∃ op, s'.ops = s.ops ++ [op] ∧ op.id = uuid ∧ op.record = record ∧ op.field = field ∧
    op.value = value ∧
    ∀ a, a ∈ frontier s'.ops record field ↔ a ∈ frontier s.ops record field ∧ a ∉ versions ∨ a = op
  /-- It is queued, after what was. -/
  outbox : s'.outbox.map Queued.id = s.outbox.map Queued.id ++ [uuid]
  others : ∀ record' field', ¬ (record' = record ∧ field' = field) →
    frontier s'.ops record' field' = frontier s.ops record' field'

/-- The versions that were seen can be named by an operation with a new ID. -/
theorem accepted_seen {s : LocalStore} (hc : Causal s.ops) {seen : List Operation}
    (hseen : seen <+: s.ops) {uuid record field value : DartString}
    (hvalid : Accepted { id := uuid, record, field, value, parents := [] }) (hnew : uuid ∉ s.ids)
    (hcount : (frontier seen record field).length ≤ 100) :
    Accepted
      { id := uuid, record, field, value,
        parents := (frontier seen record field).map fun o => o.id } :=
  { hvalid with
    count := by
      rw [List.length_map]
      exact hcount
    parents := by
      intro p hp
      obtain ⟨o, ho, rfl⟩ := List.mem_map.mp hp
      have hmem := hseen.subset (mem_frontier.mp ho).1
      refine ⟨o.accepted.id, fun heq => hnew ?_⟩
      rw [← show o.id = uuid from heq, s.ids_eq]
      exact List.mem_map_of_mem hmem
    nodup := frontier_keys_nodup (hc.nodup.sublist (hseen.sublist.map _)) _ }

theorem edit_seen {s : LocalStore} (hk : s.Kept) (hc : Causal s.ops) {seen : List Operation}
    (hseen : seen <+: s.ops) {record field value uuid : DartString}
    (hvalid : Accepted { id := uuid, record, field, value, parents := [] }) (hnew : uuid ∉ s.ids)
    (hcount : (frontier seen record field).length ≤ 100) (now : Operation → DartString) :
    ∃ s', edit s record field value ((frontier seen record field).map fun o => o.id) uuid now =
        .ok s' ∧ Supersedes s s' record field value uuid (frontier seen record field) := by
  obtain ⟨op, hop⟩ : ∃ op : Operation, op.toOperation =
      { id := uuid, record, field, value, parents := (frontier seen record field).map fun o => o.id } :=
    ⟨⟨_, accepted_seen hc hseen hvalid hnew hcount⟩, rfl⟩
  have hnewop : Operation.new op.toOperation = .ok op := Operation.new_ok op.accepted
  rw [hop] at hnewop
  have hid : op.stored.id = uuid := congrArg Domain.Operation.id hop
  have hrecord : op.stored.record = record := congrArg Domain.Operation.record hop
  have hfield : op.stored.field = field := congrArg Domain.Operation.field hop
  have hvalue : op.stored.value = value := congrArg Domain.Operation.value hop
  have hfresh : ∀ o ∈ s.ops, o.id ≠ op.stored.id := by
    intro o ho heq
    exact hnew (hid ▸ heq ▸ s.ids_eq ▸ List.mem_map_of_mem ho)
  have hparents : ∀ p, p ∈ op.stored.parents ↔
      p ∈ (frontier seen op.stored.record op.stored.field).map fun o => o.id := by
    intro p
    rw [hrecord, hfield]
    refine (Domain.sortStrings_perm op.parents).mem_iff.trans ?_
    rw [show op.parents = _ from congrArg Domain.Operation.parents hop]
  have hcausal : Causal (s.ops ++ [op].map Operation.stored) :=
    hc.snoc_resolution (fun _ ho => hseen.subset ho) hfresh hparents fun o => sameScope_of_field
  have hsave : s.save [op] now = .ok (s.add now [op]) :=
    LocalStore.save_fresh hk hc (LocalStore.causal_stored_iff.mp hcausal) now
  have hops : (s.add now [op]).ops = s.ops ++ [op.stored] := LocalStore.ops_add now [op] s
  have hresolved := hc.resolved (fun _ ho => hseen.subset ho) (ofField_self op.stored.toOperation)
    hfresh hparents (List.Perm.refl (s.ops ++ [op.stored]))
  refine ⟨s.add now [op], ?_, ⟨op.stored, hops, hid, hrecord, hfield, hvalue, fun a => ?_⟩, ?_, ?_⟩
  · rw [edit, hnewop]
    exact hsave
  · have hmem := hresolved.mem a
    rw [hrecord, hfield] at hmem
    rw [hops]
    exact hmem
  · rw [LocalStore.outbox_ids_add, List.map_singleton]
    exact congrArg (fun id => _ ++ [id]) hid
  · intro record' field' hother
    rw [hops]
    exact frontier_other (ofField_other fun h => hother ⟨h.1.trans hrecord, h.2.trans hfield⟩)
      hcausal.nodup (List.Perm.refl _)

namespace Screen

variable {lower : DartString → DartString} {sha256 : List UInt8 → DartString} {s t : Screen}
  {store : LocalStore} {es : List Event}

theorem Sound.run (hs : LocalStore.Reachable sha256 Call.Complete store)
    (h : Run (Step lower sha256) (Screen.new store) es s) : Sound lower sha256 s :=
  h.invariant (fun _ _ _ hs hstep => hs.step hstep) (.new hs)

/-- What details show of a field. -/
theorem versions_of {i : Inspection} {seen : List Operation} (hi : i = Inspection.of seen i.id)
    {field : DartString} {versions : List Operation} (h : i.fields.lookup field = some versions) :
    versions = frontier seen i.id field := by
  obtain ⟨before, after, hfields, -⟩ := List.lookup_eq_some_iff.mp h
  have hmem : (field, versions) ∈ i.fields := by
    rw [hfields]
    exact List.mem_append_right _ List.mem_cons_self
  rw [hi] at hmem
  obtain ⟨f, -, heq⟩ := List.mem_map.mp hmem
  obtain ⟨rfl, rfl⟩ := Prod.mk.inj heq
  rfl

/-- **An edit takes the place of what its user saw.** Whatever has been saved, has arrived and has
been published since the details were built: the edit goes through if and only if the user saw a
hundred versions at most; and whenever it goes through, the field shows the edit, and those versions
that the user had not seen, and no other field changes. -/
theorem edit_supersedes_seen (hs : LocalStore.Reachable sha256 Call.Complete store)
    (h : Run (Step lower sha256) (Screen.new store) es s) {i : Inspection} (hi : i ∈ s.details)
    {field value uuid : DartString} {versions : List Operation}
    (hversions : i.fields.lookup field = some versions)
    (hvalid : Accepted { id := uuid, record := i.id, field, value, parents := [] })
    (hnew : uuid ∉ s.session.store.ids) (now : Operation → DartString) :
    ((∃ s', editShown s.session.store i field value uuid now = .ok s') ↔ versions.length ≤ 100) ∧
      ∀ s', editShown s.session.store i field value uuid now = .ok s' →
        Supersedes s.session.store s' i.id field value uuid versions := by
  have hsound := Sound.run hs h
  obtain ⟨seen, hseen, heq⟩ := hsound.details i hi
  obtain rfl := versions_of heq hversions
  rw [editShown, hversions]
  dsimp only
  have hfew : ∀ s', edit s.session.store i.id field value
      ((frontier seen i.id field).map fun o => o.id) uuid now = .ok s' →
      (frontier seen i.id field).length ≤ 100 := by
    intro s' hok
    by_contra hmany
    rw [edit, new_error_of_count (by rw [List.length_map]; exact not_le.mp hmany)] at hok
    cases hok
  have hgoes := fun hcount : (frontier seen i.id field).length ≤ 100 =>
    edit_seen hsound.store.kept hsound.store.causal hseen hvalid hnew hcount now
  refine ⟨⟨fun h => h.elim hfew, fun hcount => ?_⟩, fun s' hok => ?_⟩
  · obtain ⟨s', hok, -⟩ := hgoes hcount
    exact ⟨s', hok⟩
  · obtain ⟨t, ht, hsupersedes⟩ := hgoes (hfew s' hok)
    rw [hok] at ht
    obtain rfl := Except.ok.inj ht
    exact hsupersedes

/-- A database in which a title has been set. -/
theorem edited_reachable (n : Nat) (hn : n ≤ 10 ^ 12) :
    LocalStore.Reachable (fun _ => []) Call.Complete (LocalStore.edited n) := by
  have hcall : LocalStore.new.call (fun _ => []) (.save (LocalStore.edits n) LocalStore.morning) =
      .ok (LocalStore.edited n) := LocalStore.save_edits hn
  rw [← LocalStore.after_ok hcall]
  exact LocalStore.Reachable.new.call _ trivial

/-- The details show one title, and meanwhile another one comes. -/
def glimpse : List Event :=
  [.session .refresh, .session (.resume 1), .session (.resume 1), .session (.resume 1),
    .select (some gate.record), .build,
    .session (.call (.save (LocalStore.edits 2) LocalStore.morning))]

theorem glimpse_run (store : LocalStore) :
    Run (Step id fun _ => []) (Screen.new store) glimpse
      (glimpse.foldl (step id fun _ => []) (Screen.new store)) :=
  .cons ⟨rfl, trivial⟩ (.cons ⟨rfl, trivial⟩ (.cons ⟨rfl, trivial⟩ (.cons ⟨rfl, trivial⟩
    (.cons ⟨rfl, trivial⟩ (.cons ⟨rfl, trivial⟩ (.cons ⟨rfl, trivial⟩ (.nil _)))))))

/-- An edit that takes the place of the one leaves the other. -/
theorem edit_supersedes_seen_run : ∃ s',
    editShown (glimpse.foldl (step id fun _ => []) (Screen.new (LocalStore.edited 1))).session.store
      (Inspection.of (LocalStore.edits 1) gate.record) (dart "title") gate.value
      (dart "0c000000-0000-4000-8000-000000000001") LocalStore.morning = .ok s' ∧
    LocalStore.edit 1 ∈ frontier s'.ops gate.record (dart "title") := by
  have hi : Inspection.of (LocalStore.edits 1) gate.record ∈
      (glimpse.foldl (step id fun _ => []) (Screen.new (LocalStore.edited 1))).details := by
    decide +kernel
  have hversions : (Inspection.of (LocalStore.edits 1) gate.record).fields.lookup (dart "title") =
      some [LocalStore.edit 0] := by decide +kernel
  have hvalid : Accepted
      { id := dart "0c000000-0000-4000-8000-000000000001", record := gate.record,
        field := dart "title", value := gate.value, parents := [] } := by decide
  have hnew : dart "0c000000-0000-4000-8000-000000000001" ∉
      (glimpse.foldl (step id fun _ => []) (Screen.new (LocalStore.edited 1))).session.store.ids := by
    decide +kernel
  obtain ⟨hgoes, hall⟩ := edit_supersedes_seen (edited_reachable 1 (by decide))
    (glimpse_run (LocalStore.edited 1)) hi hversions hvalid hnew LocalStore.morning
  obtain ⟨s', hedit⟩ := hgoes.mpr (by decide)
  obtain ⟨op, -, -, -, -, -, hmem⟩ := (hall s' hedit).stored
  exact ⟨s', hedit, (hmem _).mpr (.inl (by decide +kernel))⟩

end Screen

/-! ### What is shown stays until it is named -/

/-- Does a call bring an operation that names the ID? -/
def CallNames (c : Call) (id : DartString) : Prop :=
  match c with
  | .save batch _ => ∃ o ∈ batch, id ∈ o.parents
  | .applyPage page => ∃ e ∈ page.entries, id ∈ e.operation.parents
  | _ => False

/-- A bundle is restored where there is nothing; otherwise an operation that a call adds names what
the call does. -/
theorem names_of_call {sha256 : List UInt8 → DartString} {s s' : LocalStore} (hk : s.Kept)
    {c : Call} (h : s.call sha256 c = .ok s') :
    s.ops = [] ∨ ∃ fresh, s'.ops = s.ops ++ fresh ∧ ∀ o ∈ fresh, ∀ p ∈ o.parents, CallNames c p := by
  have hsame : s'.rows = s.rows → s.ops = [] ∨ ∃ fresh, s'.ops = s.ops ++ fresh ∧
      ∀ o ∈ fresh, ∀ p ∈ o.parents, CallNames c p := by
    intro hrows
    exact .inr ⟨[], by rw [LocalStore.ops, hrows, List.append_nil, LocalStore.ops], List.forall_mem_nil _⟩
  cases c with
  | save batch now =>
      obtain ⟨-, rfl⟩ := LocalStore.save_ok hk h
      refine .inr ⟨_, LocalStore.ops_add now _ s, fun o ho p hp => ?_⟩
      obtain ⟨b, hb, rfl⟩ := List.mem_map.mp ho
      exact ⟨b, (unseen_subset b hb).1, (Domain.sortStrings_perm b.parents).subset hp⟩
  | applyPage page =>
      obtain ⟨incoming, r, hchecks, hmeets⟩ := LocalStore.applyPage_checked hk h
      obtain ⟨s'', h', hops, -⟩ := LocalStore.applyPage_stored hk hchecks hmeets
      obtain rfl := Except.ok.inj (h.symm.trans h')
      refine .inr ⟨_, hops, fun o ho p hp => ?_⟩
      obtain ⟨b, hb, rfl⟩ := List.mem_map.mp ho
      obtain ⟨x, hx, rfl⟩ := List.mem_map.mp (unseen_subset b hb).1
      have hzip := List.mem_of_mem_filter hx
      refine ⟨x.2, (List.of_mem_zip hzip).2, ?_⟩
      rw [← Operation.of_new (LocalStore.of_mem_zip hchecks.read hzip)]
      exact (Domain.sortStrings_perm x.1.parents).subset hp
  | restore bytes now uuid =>
      obtain ⟨n, hr⟩ := LocalStore.call_restore h
      obtain ⟨ops, -, -, hempty⟩ := LocalStore.restore_adds hk hr
      exact .inl hempty
  | acknowledge | failed =>
      obtain rfl := Except.ok.inj h
      exact hsame rfl
  | deviceId uuid =>
      obtain rfl := Except.ok.inj h
      refine hsame ?_
      rw [LocalStore.deviceId]
      split <;> rfl
  | add record name media bytes uuid =>
      obtain ⟨row, -, -, -, -, -, hinsert⟩ := AttachmentStore.add_ok h
      obtain ⟨-, rfl⟩ := AttachmentStore.insertAttachment_ok hinsert
      exact hsame rfl
  | confirmUpload row hash =>
      obtain ⟨-, rfl⟩ := AttachmentStore.confirmUpload_ok h
      exact hsame rfl
  | storeFetched record row data =>
      obtain ⟨-, hinsert⟩ := AttachmentStore.storeFetched_ok h
      obtain ⟨-, rfl⟩ := AttachmentStore.insertAttachment_ok hinsert
      exact hsame rfl

/-- What a call does not name stays in its frontier. -/
theorem frontier_after {sha256 : List UInt8 → DartString} {s : LocalStore} (hk : s.Kept) {c : Call}
    {record field : DartString} {o : Operation} (ho : o ∈ frontier s.ops record field) :
    CallNames c o.id ∨ o ∈ frontier (s.after sha256 c).ops record field := by
  cases h : s.call sha256 c with
  | error e =>
      rw [LocalStore.after_error h]
      exact .inr ho
  | ok s' =>
      rw [LocalStore.after_ok h]
      obtain ⟨hmem, hin, hmax⟩ := mem_frontier.mp ho
      rcases names_of_call hk h with hempty | ⟨fresh, hops, hnames⟩
      · rw [hempty] at hmem
        cases hmem
      · by_cases hnamed : CallNames c o.id
        · exact .inl hnamed
        · rw [hops]
          refine .inr (mem_frontier.mpr ⟨List.mem_append_left _ hmem, hin, fun b hb hbin hp => ?_⟩)
          rcases List.mem_append.mp hb with hb | hb
          · exact hmax b hb hbin hp
          · exact hnamed (hnames b hb _ hp)

namespace Screen

variable {lower : DartString → DartString} {sha256 : List UInt8 → DartString} {s t : Screen}
  {store : LocalStore} {es : List Event}

/-- Is the ID among the versions that the details show? -/
def Observed (record : Inspection) (field id : DartString) : Prop :=
  ∃ versions, record.fields.lookup field = some versions ∧ id ∈ versions.map fun o => o.id

/-- Does an event bring an operation that names the ID? A user names what the details show. -/
def Event.Names (e : Event) (id : DartString) : Prop :=
  match e with
  | .session (.call c) => CallNames c id
  | .edit record field _ _ _ => Observed record field id
  | .archive record _ _ _ => Observed record (dart "archived") id
  | _ => False

/-- A save that does not name an operation leaves it in its frontier. -/
theorem frontier_saved (h : Sound lower sha256 s) {record field : DartString} {o : Operation}
    (ho : o ∈ frontier s.session.store.ops record field) {r : Except Exn LocalStore} {P : Prop}
    (hr : ∀ s', r = .ok s' → ∃ batch now, s.session.store.call sha256 (.save batch now) = .ok s' ∧
      ((∃ x ∈ batch, o.id ∈ x.parents) → P)) :
    P ∨ o ∈ frontier (s.saved r).session.store.ops record field := by
  cases r with
  | error e => exact .inr ho
  | ok s' =>
      obtain ⟨batch, now, hcall, hP⟩ := hr s' rfl
      have hafter : CallNames (.save batch now) o.id ∨
          o ∈ frontier (s.session.store.after sha256 (.save batch now)).ops record field :=
        frontier_after h.store.kept ho
      rw [LocalStore.after_ok hcall] at hafter
      exact hafter.imp_left hP

theorem frontier_edited (h : Sound lower sha256 s) {record field : DartString} {o : Operation}
    (ho : o ∈ frontier s.session.store.ops record field) (i : Inspection)
    (edited value uuid : DartString) (now : Operation → DartString) :
    Observed i edited o.id ∨
      o ∈ frontier (s.saved (editShown s.session.store i edited value uuid now)).session.store.ops
        record field := by
  refine frontier_saved h ho fun s' hs' => ?_
  obtain ⟨versions, op, hversions, hparents, hcall⟩ := editShown_call hs'
  refine ⟨[op], now, hcall, fun hnamed => ?_⟩
  obtain ⟨x, hx, hp⟩ := hnamed
  obtain rfl := List.mem_singleton.mp hx
  exact ⟨versions, hversions, hparents ▸ hp⟩

theorem frontier_step {e : Event} (h : Sound lower sha256 s) (hstep : Step lower sha256 s e t)
    {record field : DartString} {o : Operation}
    (ho : o ∈ frontier s.session.store.ops record field) :
    e.Names o.id ∨ o ∈ frontier t.session.store.ops record field := by
  obtain ⟨rfl, -⟩ := hstep
  cases e with
  | session e =>
      cases e with
      | call c => exact frontier_after h.store.kept ho
      | refresh | throws | dispose => exact .inr ho
      | resume g =>
          refine .inr ?_
          show o ∈ frontier (s.session.resume lower g).store.ops record field
          rw [Session.resume_store]
          exact ho
  | edit i edited value uuid now => exact frontier_edited h ho i edited value uuid now
  | archive i value uuid now => exact frontier_edited h ho i (dart "archived") _ uuid now
  | create title site id uuid now =>
      refine (frontier_saved h ho fun s' hs' => ?_).imp_left False.elim
      obtain ⟨batch, hnone, hcall⟩ := create_call hs'
      refine ⟨batch, now, hcall, fun hnamed => ?_⟩
      obtain ⟨x, hx, hp⟩ := hnamed
      rw [hnone x hx] at hp
      cases hp
  | filter | clearFilters | select | build => exact .inr ho

/-- **What is shown stays until somebody names it who has seen it.** A version of a field goes only
when a user edits the field in details that show the version, or when an operation arrives that
names it. -/
theorem shown_until_named (hs : LocalStore.Reachable sha256 Call.Complete store)
    (h : Run (Step lower sha256) (Screen.new store) es s) {es' : List Event}
    (h' : Run (Step lower sha256) s es' t) {record field : DartString} {o : Operation}
    (ho : o ∈ frontier s.session.store.ops record field) :
    (∃ e ∈ es', e.Names o.id) ∨ o ∈ frontier t.session.store.ops record field := by
  have hrun := h'.holds_unless (Q := fun e => e.Names o.id)
    (P := fun s => Sound lower sha256 s ∧ o ∈ frontier s.session.store.ops record field)
    (fun s e t hs hstep => (frontier_step hs.1 hstep hs.2).imp_right fun ht => ⟨hs.1.step hstep, ht⟩)
    ⟨Sound.run hs h, ho⟩
  exact hrun.imp_right And.right

/-- The title that was set first is shown beside the one that came. -/
theorem shown_until_named_run :
    LocalStore.edit 0 ∈
      frontier (glimpse.foldl (step id fun _ => []) (Screen.new (LocalStore.edited 1))).session.store.ops
        gate.record gate.field := by
  refine (shown_until_named (edited_reachable 1 (by decide)) (.nil _)
    (glimpse_run (LocalStore.edited 1)) (by decide +kernel)).resolve_left fun hnamed => ?_
  obtain ⟨e, he, hnames⟩ := hnamed
  simp only [glimpse, List.mem_cons, List.not_mem_nil, or_false] at he
  rcases he with rfl | rfl | rfl | rfl | rfl | rfl | rfl
  · exact hnames
  · exact hnames
  · exact hnames
  · exact hnames
  · exact hnames
  · exact hnames
  · obtain ⟨o, ho, hp⟩ := hnames
    obtain ⟨n, -, rfl⟩ := List.mem_map.mp ho
    cases hp

end Screen

end Syncraft.Field.WorkspaceController
