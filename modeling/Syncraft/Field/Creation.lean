import Syncraft.Field.Screen

/-!
# Syncraft.Field.Creation

`create` of `lib/domain/workspace_controller.dart`. A new inspection is stored whole or not at all.
From the next refresh on it is in the list, and it is found there as it was entered, as long as
nobody has changed it (`created_shown`).
-/

namespace Syncraft.Field.WorkspaceController

open CausalLog
open Library (Run)
open Domain (ofField)
open LocalStore (Call)

/-! ### What refreshes read -/

namespace Session

/-- There are no refreshes of generations to come. -/
structure Bounded (s : Session) : Prop where
  refreshes : ∀ g, s.generation < g → s.refreshes g = none
  published : ∀ p ∈ s.published, p.1 ≤ s.generation

/-- Refreshes that were started after a generation have read the operations. -/
structure Recent (base : List Operation) (generation : Nat) (s : Session) : Prop where
  store : base <+: s.store.ops
  read : ∀ g result, generation < g → s.Holds g result → base <+: result
  published : ∀ p ∈ s.published, generation < p.1 → base <+: p.2.operations

variable {lower : DartString → DartString} {sha256 : List UInt8 → DartString} {s : Session}
  {base : List Operation} {generation : Nat}

theorem Bounded.new (store : LocalStore) : Bounded (Session.new store) where
  refreshes _ _ := rfl
  published := List.forall_mem_nil _

theorem Bounded.set (h : Bounded s) {g : Nat} {r : Option Refresh}
    (hr : g ≤ s.generation ∨ r = none) : Bounded (s.set g r) where
  refreshes g' hg' := by
    rw [set_refreshes]
    by_cases hg : g' = g
    · subst hg
      rw [Function.update_self]
      exact hr.resolve_left (not_le.mpr hg')
    · rw [Function.update_of_ne hg]
      exact h.refreshes g' hg'
  published := h.published

theorem Bounded.step (h : Bounded s) (e : WorkspaceController.Event) :
    Bounded (s.step lower sha256 e) := by
  cases e with
  | call | dispose => exact { h with }
  | refresh =>
      constructor
      · intro g hg
        show Function.update s.refreshes (s.generation + 1) _ g = none
        have hlt : s.generation + 1 < g := hg
        rw [Function.update_of_ne hlt.ne']
        exact h.refreshes g ((Nat.lt_succ_self _).trans hlt)
      · exact fun p hp => (h.published p hp).trans (Nat.le_succ _)
  | throws g => exact h.set (.inr rfl)
  | resume g =>
      show Bounded (s.resume lower g)
      by_cases hg : g ≤ s.generation
      · rcases s.resume_cases lower g with ⟨r, heq, -⟩ | ⟨result, count, -, -, hlatest, heq⟩
        · rw [heq]
          exact h.set (.inl hg)
        · rw [heq]
          have hset : Bounded (s.set g none) := h.set (.inr rfl)
          refine { hset with published := fun p hp => ?_ }
          rcases List.mem_append.mp hp with hp | hp
          · exact h.published p hp
          · rw [List.mem_singleton.mp hp]
            exact hg
      · rw [Session.resume, h.refreshes g (not_le.mp hg)]
        exact h

/-- Whatever refreshes there are, they are not of generations to come. -/
theorem Recent.start (h : Bounded s) : Recent s.store.ops s.generation s where
  store := List.prefix_refl _
  read := by
    intro g result hg hholds
    obtain ⟨r, hr, -⟩ := hholds
    rw [h.refreshes g hg] at hr
    cases hr
  published p hp hlt := absurd hlt (not_lt.mpr (h.published p hp))

theorem Recent.grow (h : Recent base generation s) {store : LocalStore}
    (hgrow : s.store.ops <+: store.ops) : Recent base generation { s with store } :=
  { h with store := h.store.trans hgrow }

theorem Recent.set (h : Recent base generation s) {g : Nat} {r : Option Refresh}
    (hr : ∀ q result, r = some q → q.result = some result →
      result = s.store.ops ∨ s.Holds g result) : Recent base generation (s.set g r) where
  store := h.store
  published := h.published
  read := by
    intro g' result hlt hholds
    rcases holds_set hholds with ⟨rfl, q, hq, hresult⟩ | ⟨-, hold⟩
    · rcases hr q result hq hresult with rfl | hold
      · exact h.store
      · exact h.read _ result hlt hold
    · exact h.read g' result hlt hold

theorem Recent.step (h : Recent base generation s) (hk : s.store.Kept)
    (e : WorkspaceController.Event) : Recent base generation (s.step lower sha256 e) := by
  cases e with
  | call c => exact h.grow (hk.grows c)
  | refresh =>
      have hset : Recent base generation (s.set (s.generation + 1) (some .reading)) := by
        refine h.set fun q result hq hresult => ?_
        obtain rfl := Option.some.inj hq
        cases hresult
      exact { hset with }
  | throws g => exact h.set fun q _ hq => by cases hq
  | dispose => exact { h with }
  | resume g =>
      show Recent base generation (s.resume lower g)
      rcases s.resume_cases lower g with ⟨r, heq, hr⟩ | ⟨result, count, hholds, -, -, heq⟩
      · rw [heq]
        exact h.set hr
      · rw [heq]
        have hset : Recent base generation (s.set g none) := h.set fun q _ hq => by cases hq
        refine { hset with published := fun p hp hlt => ?_ }
        rcases List.mem_append.mp hp with hp | hp
        · exact h.published p hp hlt
        · obtain rfl := List.mem_singleton.mp hp
          exact h.read g result hlt hholds

end Session

namespace Screen

variable {lower : DartString → DartString} {sha256 : List UInt8 → DartString} {s t : Screen}
  {store : LocalStore} {es : List Event} {base : List Operation} {generation : Nat}

theorem bounded_run (h : Run (Step lower sha256) (Screen.new store) es s) : s.session.Bounded := by
  refine h.invariant (P := fun s => s.session.Bounded) (fun s e t hs hstep => ?_) (.new store)
  rcases session_cases hstep with heq | ⟨e', heq, -⟩
  · rw [heq]
    exact hs
  · rw [heq]
    exact hs.step e'

theorem recent_run (h : Sound lower sha256 s) (hrecent : s.session.Recent base generation)
    (hrun : Run (Step lower sha256) s es t) : t.session.Recent base generation := by
  have hall := hrun.invariant
    (P := fun s => Sound lower sha256 s ∧ s.session.Recent base generation)
    (fun s e t hs hstep => ⟨hs.1.step hstep, ?_⟩) ⟨h, hrecent⟩
  · exact hall.2
  · rcases session_cases hstep with heq | ⟨e', heq, -⟩
    · rw [heq]
      exact hs.2
    · rw [heq]
      exact hs.2.step hs.1.order.kept e'

end Screen

/-! ### A new inspection -/

/-- The operations that `create` makes. -/
def Creates (title site id : DartString) (uuid : DartString → DartString) (created : List Operation) :
    Prop :=
  created.map Operation.toOperation = (entries title site).map fun e =>
    { id := uuid e.1, record := id, field := e.1, value := e.2, parents := [] }

section Created

variable {title site id : DartString} {uuid : DartString → DartString} {created : List Operation}

theorem Creates.of_mem (h : Creates title site id uuid created) {o : Operation} (ho : o ∈ created) :
    ∃ e ∈ entries title site, o.toOperation =
      { id := uuid e.1, record := id, field := e.1, value := e.2, parents := [] } := by
  have hmem := List.mem_map_of_mem (f := Operation.toOperation) ho
  rw [h] at hmem
  obtain ⟨e, he, heq⟩ := List.mem_map.mp hmem
  exact ⟨e, he, heq.symm⟩

/-- An operation without parents is stored as it is. -/
theorem stored_root {o : Operation} (h : o.parents = []) : o.stored = o := by
  refine Operation.ext ?_
  show { o.toOperation with parents := Domain.sortStrings o.parents } = o.toOperation
  rw [h]
  show { o.toOperation with parents := [] } = o.toOperation
  rw [← h]

theorem Creates.stored (h : Creates title site id uuid created) :
    created.map Operation.stored = created := by
  refine (List.map_congr_left fun o ho => ?_).trans (List.map_id _)
  obtain ⟨e, -, heq⟩ := h.of_mem ho
  exact stored_root (by rw [heq])

/-- Where nothing else is known of the inspection, each field shows what it was given. -/
theorem Creates.mem_iff (h : Creates title site id uuid created) {ops : List Operation}
    (hsub : ∀ o ∈ created, o ∈ ops) (honly : ∀ o ∈ ops, o.record = id → o ∈ created)
    (field : DartString) (a : Operation) :
    a ∈ frontier ops id field ↔ a ∈ created ∧ a.field = field := by
  have hroot : ∀ o ∈ created, o.record = id ∧ o.parents = [] := by
    intro o ho
    obtain ⟨e, -, heq⟩ := h.of_mem ho
    rw [heq]
    exact ⟨rfl, rfl⟩
  have hscope : ∀ o : Operation, ofField id field o.toOperation = true ↔
      o.record = id ∧ o.field = field := by
    intro o
    simp [ofField]
  rw [Field.frontier, mem_frontier, hscope]
  constructor
  · intro ha
    exact ⟨honly a ha.1 ha.2.1.1, ha.2.1.2⟩
  · intro ha
    refine ⟨hsub a ha.1, ⟨(hroot a ha.1).1, ha.2⟩, fun b hb hbin hp => ?_⟩
    have hb' := honly b hb ((hscope b).mp hbin).1
    have hnone : b.parents = [] := (hroot b hb').2
    have hmem : a.id ∈ b.parents := hp
    rw [hnone] at hmem
    cases hmem

theorem entries_inj {e e' : DartString × DartString} (he : e ∈ entries title site)
    (he' : e' ∈ entries title site) (h : e.1 = e'.1) : e = e' := by
  have hn : ((entries title site).map Prod.fst).Nodup := by
    show [dart "title", dart "site", dart "status", dart "priority"].Nodup
    decide
  exact List.inj_on_of_nodup_map hn he he' h

/-- A field that was given shows what it was given. -/
theorem Creates.shown (h : Creates title site id uuid created) {ops : List Operation}
    (hn : (ops.map fun o => o.id).Nodup) (hsub : ∀ o ∈ created, o ∈ ops)
    (honly : ∀ o ∈ ops, o.record = id → o ∈ created) {e : DartString × DartString}
    (he : e ∈ entries title site) : ∃ o, frontier ops id e.1 = [o] ∧ o.value = e.2 := by
  have hmem : ({ id := uuid e.1, record := id, field := e.1, value := e.2, parents := [] } :
      Domain.Operation DartString) ∈ created.map Operation.toOperation := by
    rw [h]
    exact List.mem_map_of_mem he
  obtain ⟨o, ho, heq⟩ := List.mem_map.mp hmem
  refine ⟨o, List.perm_singleton.mp ?_, by rw [heq]⟩
  refine (List.perm_ext_iff_of_nodup ((frontier_keys_nodup hn _).of_map _)
    (List.nodup_singleton o)).mpr fun a => ?_
  rw [List.mem_singleton]
  refine (h.mem_iff hsub honly e.1 a).trans ⟨fun ha => ?_, fun ha => ?_⟩
  · obtain ⟨e', he', heq'⟩ := h.of_mem ha.1
    have hfield : e'.1 = e.1 := by rw [← ha.2, heq']
    rw [entries_inj he' he hfield] at heq'
    exact Operation.ext (heq'.trans heq.symm)
  · rw [ha]
    exact ⟨ho, by rw [heq]⟩

/-- Any other field is blank. -/
theorem Creates.blank (h : Creates title site id uuid created) {ops : List Operation}
    (hsub : ∀ o ∈ created, o ∈ ops) (honly : ∀ o ∈ ops, o.record = id → o ∈ created)
    {field : DartString} (hfield : ∀ e ∈ entries title site, e.1 ≠ field) :
    frontier ops id field = [] := by
  refine List.eq_nil_iff_forall_not_mem.mpr fun a ha => ?_
  obtain ⟨hmem, heq⟩ := (h.mem_iff hsub honly field a).mp ha
  obtain ⟨e, he, hop⟩ := h.of_mem hmem
  exact hfield e he (by rw [← heq, hop])

/-- What an inspection shows of a field. -/
theorem lookup_of (ops : List Operation) (record : DartString) {field : DartString}
    (hfield : field ∈ fieldLimits.map Prod.fst) :
    (Inspection.of ops record).fields.lookup field = some (frontier ops record field) := by
  have hall : ∀ table : List (DartString × Nat), field ∈ table.map Prod.fst →
      (table.map fun f => (f.1, frontier ops record f.1)).lookup field =
        some (frontier ops record field) := by
    intro table
    induction table with
    | nil => exact fun hmem => by cases hmem
    | cons f rest ih =>
        intro hmem
        rw [List.map_cons, List.lookup_cons]
        by_cases hf : field = f.1
        · subst hf
          rw [beq_self_eq_true]
        · rw [beq_false_of_ne hf]
          exact ih ((List.mem_cons.mp hmem).resolve_left hf)
  exact hall fieldLimits hfield

/-- The inspection as it was entered. -/
structure Entered (title site : DartString) (i : Inspection) : Prop where
  title : i.title = trim title
  site : i.site = trim site
  status : i.status = dart "draft"
  priority : i.priority = dart "normal"
  notes : i.value (dart "notes") [] = []
  archived : i.archived = false
  conflicts : i.conflicts = []

theorem Creates.entered (h : Creates title site id uuid created) {ops : List Operation}
    (hc : Causal ops) (hsub : ∀ o ∈ created, o ∈ ops)
    (honly : ∀ o ∈ ops, o.record = id → o ∈ created) :
    Entered title site (Inspection.of ops id) := by
  have hvalue : ∀ field value fallback, (field, value) ∈ entries title site →
      field ∈ fieldLimits.map Prod.fst → (Inspection.of ops id).value field fallback = value := by
    intro field value fallback he hfield
    obtain ⟨o, hfrontier, hvalue⟩ := h.shown hc.nodup hsub honly he
    rw [Inspection.value, lookup_of ops id hfield, hfrontier]
    exact hvalue
  have hblank : ∀ field, field ∈ fieldLimits.map Prod.fst → (∀ e ∈ entries title site, e.1 ≠ field) →
      (Inspection.of ops id).fields.lookup field = some [] := by
    intro field hfield hnone
    rw [lookup_of ops id hfield, h.blank hsub honly hnone]
  constructor
  case title => exact hvalue _ _ _ (by simp [entries]) (by decide)
  case site => exact hvalue _ _ _ (by simp [entries]) (by decide)
  case status => exact hvalue _ _ _ (by simp [entries]) (by decide)
  case priority => exact hvalue _ _ _ (by simp [entries]) (by decide)
  case notes =>
    rw [Inspection.value, hblank (dart "notes") (by decide) (by simp [entries]; decide)]
    rfl
  case archived =>
    rw [Inspection.archived, hblank (dart "archived") (by decide) (by simp [entries]; decide)]
    rfl
  case conflicts =>
    refine List.eq_nil_iff_forall_not_mem.mpr fun field hfield => ?_
    obtain ⟨a, b, ha, hb, -, -, hne⟩ := (mem_conflicts hc).mp hfield
    have hsame : ∀ {o}, Maximal ops (fun o => ofField id field o.toOperation) o →
        o ∈ created ∧ o.field = field := by
      intro o ho
      have hin := ho.2.1
      simp only [ofField, Bool.and_eq_true, beq_iff_eq] at hin
      exact ⟨honly o ho.1 hin.1, hin.2⟩
    obtain ⟨e, he, heq⟩ := h.of_mem (hsame ha).1
    obtain ⟨e', he', heq'⟩ := h.of_mem (hsame hb).1
    have hfields : e.1 = e'.1 := by
      rw [show e.1 = a.field by rw [heq], show e'.1 = b.field by rw [heq'], (hsame ha).2, (hsame hb).2]
    rw [entries_inj he he' hfields] at heq
    exact hne (by rw [heq, heq'])

end Created

/-! ### `create` -/

/-- Operations without parents can come after any log. -/
theorem causal_roots {log created : List Operation} (hc : Causal log)
    (hnew : ∀ o ∈ created, ∀ x ∈ log, x.id ≠ o.id) (hn : (created.map fun o => o.id).Nodup)
    (hroot : ∀ o ∈ created, o.parents = []) : Causal (log ++ created) := by
  induction created generalizing log with
  | nil => rwa [List.append_nil]
  | cons o rest ih =>
      rw [List.map_cons, List.nodup_cons] at hn
      have hsnoc : Causal (log ++ [o]) := by
        refine hc.snoc (find_eq_none.mpr (hnew o List.mem_cons_self)) fun p hp => ?_
        have hnone : o.parents = [] := hroot o List.mem_cons_self
        have hmem : p ∈ o.parents := hp
        rw [hnone] at hmem
        cases hmem
      rw [List.append_cons]
      refine ih hsnoc (fun x hx y hy => ?_) hn.2 fun x hx => hroot x (List.mem_cons_of_mem _ hx)
      rcases List.mem_append.mp hy with hy | hy
      · exact hnew x (List.mem_cons_of_mem _ hx) y hy
      · rw [List.mem_singleton.mp hy]
        intro heq
        exact hn.1 (heq ▸ List.mem_map_of_mem hx)

/-- The constructor takes all of the operations, or throws at one of them. -/
theorem mapM_new_iff {α : Type} (g : α → Domain.Operation DartString) (xs : List α) :
    (∃ ops, xs.mapM (fun x => Operation.new (g x)) = .ok ops) ↔ ∀ x ∈ xs, Accepted (g x) := by
  constructor
  · intro h x hx
    obtain ⟨ops, hops⟩ := h
    have hmem := List.mem_map_of_mem (f := fun x => Operation.new (g x)) hx
    rw [LocalStore.mapM_ok_iff.mp hops] at hmem
    obtain ⟨o, -, ho⟩ := List.mem_map.mp hmem
    rw [← Operation.of_new ho.symm]
    exact o.accepted
  · intro h
    have hall : xs.map (fun x => Operation.new (g x)) =
        (xs.pmap (fun x hx => (⟨g x, hx⟩ : Operation)) h).map .ok := by
      rw [List.map_pmap, ← List.pmap_eq_map h]
      exact List.pmap_congr_left xs fun x _ hx _ => Operation.new_ok hx
    exact ⟨_, LocalStore.mapM_ok_iff.mpr hall⟩

theorem toOperation_of_mapM {α : Type} {g : α → Domain.Operation DartString} {xs : List α}
    {ops : List Operation} (h : xs.mapM (fun x => Operation.new (g x)) = .ok ops) :
    ops.map Operation.toOperation = xs.map g := by
  have hmap := LocalStore.mapM_ok_iff.mp h
  clear h
  induction xs generalizing ops with
  | nil =>
      rw [List.map_nil, eq_comm, List.map_eq_nil_iff] at hmap
      rw [hmap]
      rfl
  | cons x rest ih =>
      cases ops with
      | nil => cases hmap
      | cons o ops =>
          rw [List.map_cons, List.map_cons, List.cons.injEq] at hmap
          rw [List.map_cons, List.map_cons, ih hmap.2, Operation.of_new hmap.1]

/-- The operations of a new inspection are all saved. -/
theorem save_created {s : LocalStore} (hk : s.Kept) (hc : Causal s.ops) {title site id : DartString}
    {uuid : DartString → DartString} (hnew : ∀ e ∈ entries title site, uuid e.1 ∉ s.ids)
    (hdistinct : ((entries title site).map fun e => uuid e.1).Nodup) {created : List Operation}
    (h : Creates title site id uuid created) (now : Operation → DartString) :
    s.save created now = .ok (s.add now created) := by
  have hcausal : Causal (s.ops ++ created) := by
    refine causal_roots hc (fun o ho x hx heq => ?_) ?_ fun o ho => ?_
    · obtain ⟨e, he, hop⟩ := h.of_mem ho
      refine hnew e he ?_
      rw [s.ids_eq, show uuid e.1 = o.id by rw [hop], ← heq]
      exact List.mem_map_of_mem hx
    · have hids : created.map (fun o => o.id) = (entries title site).map fun e => uuid e.1 := by
        have hmap := congrArg (List.map Domain.Operation.id) h
        rwa [List.map_map, List.map_map] at hmap
      rw [hids]
      exact hdistinct
    · obtain ⟨e, -, hop⟩ := h.of_mem ho
      rw [hop]
  exact LocalStore.save_fresh hk hc hcausal now

namespace Screen

variable {lower : DartString → DartString} {sha256 : List UInt8 → DartString} {s t : Screen}
  {store : LocalStore} {es : List Event}

/-- An inspection as it was entered is in the list, as long as the list is not filtered. -/
theorem mem_filtered (hlower : lower [] = []) {title site : DartString} {i : Inspection}
    {inspections : List Inspection} (hi : i ∈ inspections) (h : Entered title site i) :
    i ∈ filtered lower .cleared inspections := by
  refine List.mem_filter.mpr ⟨hi, ?_⟩
  have htrim : trim [] = [] := rfl
  simp [Filters.cleared, h.archived, htrim, hlower]

/-- What was published with the operations of a new inspection lists it. -/
theorem listed_new (hlower : lower [] = []) (h : Sound lower sha256 s) {title site id : DartString}
    {uuid : DartString → DartString} {created : List Operation}
    (hcreates : Creates title site id uuid created) {p : Nat × View} (hp : p ∈ s.session.published)
    (hsub : ∀ o ∈ created, o ∈ p.2.operations) :
    (∀ o ∈ created, o ∈ p.2.operations) ∧
      ((∀ o ∈ p.2.operations, o.record = id → o ∈ created) →
        ∃ i ∈ filtered lower .cleared p.2.inspections, i.id = id ∧ Entered title site i) := by
  refine ⟨hsub, fun honly => ?_⟩
  have hcausal : Causal p.2.operations := h.store.causal.of_extends (h.order.stored p hp)
  have hentered := hcreates.entered hcausal hsub honly
  refine ⟨Inspection.of p.2.operations id, mem_filtered hlower ?_ hentered, rfl, hentered⟩
  rw [h.order.projected p hp, Inspection.project, List.mem_insertionSort]
  refine List.mem_map_of_mem (mem_toSet.mpr ?_)
  -- It is the inspection of the operation that gave it its status.
  have hmem : ({ id := uuid (dart "status"), record := id, field := dart "status",
                 value := dart "draft", parents := [] } : Domain.Operation DartString) ∈
      created.map Operation.toOperation := by
    have hstatus : (dart "status", dart "draft") ∈ entries title site := by simp [entries]
    rw [hcreates]
    exact List.mem_map_of_mem hstatus
  obtain ⟨o, ho, hop⟩ := List.mem_map.mp hmem
  rw [show id = o.record by rw [hop]]
  exact List.mem_map_of_mem (hsub o ho)

/-- **A new inspection comes to be listed.** Whatever the state: `create` goes through if and only
if its values are valid. Then its operations are stored and queued together; whatever happens next,
all that a later refresh publishes has them; and there the list, unless it is filtered, shows the
inspection as it was entered, as long as nothing else of it has been saved and has arrived. -/
theorem created_shown (hlower : lower [] = [])
    (hs : LocalStore.Reachable sha256 Call.Complete store)
    (h : Run (Step lower sha256) (Screen.new store) es s) {title site id : DartString}
    {uuid : DartString → DartString}
    (hnew : ∀ e ∈ entries title site, uuid e.1 ∉ s.session.store.ids)
    (hdistinct : ((entries title site).map fun e => uuid e.1).Nodup) (now : Operation → DartString) :
    ((∃ s', create s.session.store title site id uuid now = .ok s') ↔
      ∀ e ∈ entries title site,
        Accepted { id := uuid e.1, record := id, field := e.1, value := e.2, parents := [] }) ∧
    ∀ s', create s.session.store title site id uuid now = .ok s' →
      ∃ created, Creates title site id uuid created ∧
        s'.ops = s.session.store.ops ++ created ∧
        s'.outbox.map Queued.id =
          s.session.store.outbox.map Queued.id ++ created.map (fun o => o.id) ∧
        ∀ es' t, Run (Step lower sha256) (s.step lower sha256 (.create title site id uuid now)) es' t →
          ∀ p ∈ t.session.published, s.session.generation < p.1 →
            (∀ o ∈ created, o ∈ p.2.operations) ∧
            ((∀ o ∈ p.2.operations, o.record = id → o ∈ created) →
              ∃ i ∈ filtered lower .cleared p.2.inspections, i.id = id ∧ Entered title site i) := by
  have hsound := Sound.run hs h
  have hsaves : ∀ created, Creates title site id uuid created →
      s.session.store.save created now = .ok (s.session.store.add now created) := fun _ hcreates =>
    save_created hsound.store.kept hsound.store.causal hnew hdistinct hcreates now
  constructor
  · rw [← mapM_new_iff]
    constructor
    · intro hok
      obtain ⟨s', hcreate⟩ := hok
      obtain ⟨batch, hbatch, -⟩ := LocalStore.ok_of_bind hcreate
      exact ⟨batch, hbatch⟩
    · intro hok
      obtain ⟨created, hcreated⟩ := hok
      rw [create, hcreated]
      exact ⟨_, hsaves created (toOperation_of_mapM hcreated)⟩
  · intro s' hcreate
    obtain ⟨created, hcreated, hsave⟩ := LocalStore.ok_of_bind hcreate
    have hcreates : Creates title site id uuid created := toOperation_of_mapM hcreated
    obtain rfl := Except.ok.inj ((hsaves created hcreates).symm.trans hsave)
    have hops : (s.session.store.add now created).ops = s.session.store.ops ++ created := by
      rw [LocalStore.ops_add, hcreates.stored]
    refine ⟨created, hcreates, hops, LocalStore.outbox_ids_add now created _, ?_⟩
    intro es' t hrun p hp hlt
    have hstep : Step lower sha256 s (.create title site id uuid now)
        (s.step lower sha256 (.create title site id uuid now)) := ⟨rfl, trivial⟩
    have hsound' := hsound.step hstep
    have hsession : (s.step lower sha256 (.create title site id uuid now)).session =
        { s.session with store := s.session.store.add now created } := by
      rw [step, hcreate]
      rfl
    have hrecent : t.session.Recent (s.session.store.ops ++ created) s.session.generation := by
      refine recent_run hsound' ?_ hrun
      have hbounded := bounded_run h
      have hstart : Session.Bounded { s.session with store := s.session.store.add now created } :=
        { hbounded with }
      rw [hsession, ← hops]
      exact .start hstart
    have hlater : Sound lower sha256 t :=
      hrun.invariant (fun _ _ _ hs hstep => hs.step hstep) hsound'
    exact listed_new hlower hlater hcreates hp
      fun o ho => (hrecent.published p hp hlt).subset (List.mem_append_right _ ho)

/-- The IDs of the operations of a new inspection. -/
def drawn (field : DartString) : DartString :=
  ([(dart "title", dart "0b000000-0000-4000-8000-000000000001"),
    (dart "site", dart "0b000000-0000-4000-8000-000000000002"),
    (dart "status", dart "0b000000-0000-4000-8000-000000000003")].lookup field).getD
      (dart "0b000000-0000-4000-8000-000000000004")

/-- A refresh runs. -/
def founding : List Event :=
  [.session .refresh, .session (.resume 1), .session (.resume 1), .session (.resume 1)]

/-- A gate is created on a device that holds nothing. -/
theorem created_shown_run :
    ∃ (t : Screen) (p : Nat × View), p ∈ t.session.published ∧
      ∃ i ∈ filtered id .cleared p.2.inspections,
        i.id = gate.record ∧ Entered (dart " Gate") (dart "Quay") i := by
  have hs : LocalStore.Reachable (fun _ => []) Call.Complete LocalStore.new := .new
  have hstart : Run (Step id fun _ => []) (Screen.new LocalStore.new) [] _ := .nil _
  have hnew : ∀ e ∈ entries (dart " Gate") (dart "Quay"),
      drawn e.1 ∉ (Screen.new LocalStore.new).session.store.ids := by decide
  have hdistinct : ((entries (dart " Gate") (dart "Quay")).map fun e => drawn e.1).Nodup := by decide
  have hvalid : ∀ e ∈ entries (dart " Gate") (dart "Quay"), Accepted
      { id := drawn e.1, record := gate.record, field := e.1, value := e.2, parents := [] } := by
    decide
  let s := (Screen.new LocalStore.new).step id (fun _ => [])
    (.create (dart " Gate") (dart "Quay") gate.record drawn LocalStore.morning)
  have hrun : Run (Step id fun _ => []) s founding (founding.foldl (step id fun _ => []) s) :=
    .cons ⟨rfl, trivial⟩ (.cons ⟨rfl, trivial⟩ (.cons ⟨rfl, trivial⟩ (.cons ⟨rfl, trivial⟩
      (.nil _))))
  obtain ⟨p, hp, hlt, hmade⟩ : ∃ p ∈ (founding.foldl (step id fun _ => []) s).session.published,
      0 < p.1 ∧ Creates (dart " Gate") (dart "Quay") gate.record drawn p.2.operations := by
    unfold Creates
    decide +kernel
  obtain ⟨hiff, hlisted⟩ :=
    created_shown rfl hs hstart hnew hdistinct LocalStore.morning
  obtain ⟨s', hcreate⟩ := hiff.mpr hvalid
  obtain ⟨created, hcreates, -, -, hlater⟩ := hlisted s' hcreate
  have heq : p.2.operations = created :=
    List.map_injective_iff.mpr (fun _ _ => Operation.ext) (hmade.trans hcreates.symm)
  obtain ⟨-, hshown⟩ := hlater founding _ hrun p hp hlt
  exact ⟨_, p, hp, hshown fun o ho _ => heq ▸ ho⟩

end Screen

end Syncraft.Field.WorkspaceController
