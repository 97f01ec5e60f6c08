import Syncraft.Field.Decoding
import Syncraft.Field.Pausing
import Syncraft.Field.Requests
import Syncraft.Library.Pager
import Syncraft.Store.Revocation

/-!
# Syncraft.Field.AuditPanel

`_AuditPanelState` of `ui/audit_panel.dart`: `load` with its request, against the audit of the
workspace, to which others add meanwhile. The server's store is the in-memory adapter.

The panel is a reader of the audit (`Syncraft.Library.Pager`), and so it shows a part of it from the
beginning, without gaps; and once it offers no more, all of it as of the last load
(`audit_shown`).
-/

namespace Syncraft.Field

open Domain Store Library
open RecoveryBundle (asList asMap)

/-- `_AuditPanelState` -/
structure AuditPanel where
  rows : List Json
  busy : Bool
  more : Bool
  error : Option Exn

namespace AuditPanel

/-- The panel as it is opened. `initState` loads. -/
def new : AuditPanel := { rows := [], busy := false, more := true, error := none }

/-- `rows.isEmpty ? 0 : rows.last['sequence']`, as text. -/
def after (p : Platform) (s : AuditPanel) : Except Exn DartString :=
  match s.rows.getLast? with
  | none => .ok (Json.intText 0)
  | some row => do
    let members ← asMap (some row)
    return p.text ((Json.member members (dart "sequence")).getD .null)

/-- `load`, with what comes of its request. -/
def finish (s : AuditPanel) (r : Except Exn Json) : AuditPanel :=
  match r >>= fun json => asList (some json) with
  | .ok result =>
    { rows := s.rows ++ result, more := result.length == 100, error := none, busy := false }
  | .error e => { s with error := some e, busy := false }

/-- `load`, up to the request, and the `after` that it is sent with. -/
def load (p : Platform) (s : AuditPanel) : AuditPanel × Option DartString :=
  if s.busy then (s, none)
  else
    match s.after p with
    | .ok text => ({ s with busy := true }, some text)
    | .error e => (s.finish (.error e), none)

end AuditPanel

/-- The request of `get('/api/v1/audit?after=…')`. -/
def ApiClient.audit (c : Carried) (after : DartString) : Api.Request :=
  { request c .audit with after := toGo after }

/-- An event. `created` is its stamp. -/
def auditJson (created : Audit → DartString) (a : Audit) : Json :=
  .obj [(dart "sequence", .int a.sequence), (dart "actor", .str (textOf a.actor)),
    (dart "action", .str (textOf a.action)), (dart "target", .str (textOf a.target)),
    (dart "created", .str (created a))]

/-- The platform writes integers in decimal. -/
def Platform.Prints (p : Platform) : Prop := ∀ n : Nat, Exact n → p.text (.int n) = Json.intText n

/-! ### The panel and the workspace -/

/-- A panel that is open. -/
structure Viewing where
  space : Space
  panel : AuditPanel
  /-- The request that is out. -/
  sent : Option Api.Request
  /-- The answers to it. -/
  answers : List (List Audit)
  /-- How long the audit was when the request was sent. -/
  since : Nat

namespace Viewing

/-- The panel is opened. -/
def new (space : Space) : Viewing :=
  { space, panel := AuditPanel.new, sent := none, answers := [], since := 0 }

inductive Step (p : Platform) (created : Audit → DartString) (s : Viewing) : Viewing → Prop where
  /-- A handler writes. -/
  | write (c : Write) : c.Handled → Step p created s { s with space := (s.space.write c).2 }
  /-- `initState`, or a button: it is there while there is more, and not while the panel is busy. -/
  | load (carried : Carried) : s.panel.more = true → s.panel.busy = false →
      Step p created s
        { s with
          panel := (s.panel.load p).1, sent := (s.panel.load p).2.map (ApiClient.audit carried)
          answers := [], since := s.space.audit.length }
  /-- The handler of the request has come to the store. -/
  | answer (r : Api.Request) (after : Int) (rows : List Audit) : s.sent = some r →
      Api.cursor r = .ok after → s.space.auditPage after 100 = .ok rows →
      Step p created s { s with answers := s.answers ++ [rows] }
  /-- The rows come, in numbers that a double holds. -/
  | shown (r : Api.Request) (rows : List Audit) (o : Outcome) : s.sent = some r →
      rows ∈ s.answers → (∀ a ∈ rows, Exact a.sequence) →
      p.result o = .ok (.arr (rows.map (auditJson created))) →
      Step p created s { s with panel := s.panel.finish (p.result o), sent := none }
  /-- An error, or nothing in time. -/
  | failed (r : Api.Request) (o : Outcome) (e : Exn) : s.sent = some r → p.result o = .error e →
      Step p created s { s with panel := s.panel.finish (p.result o), sent := none }

/-- A state of the panel and the workspace. -/
def Reachable (p : Platform) (created : Audit → DartString) (s : Viewing) : Prop :=
  ∃ space, space.Reachable ∧ Relation.ReflTransGen (Step p created) (new space) s

/-! ### The audit -/

/-- `Audit` answers with a page. -/
theorem auditPage_eq {s : Space} {n : Nat} {rows : List Audit}
    (h : s.auditPage (n : Int) 100 = .ok rows) : rows = page 100 s.audit n := by
  rw [Space.auditPage, if_neg (by omega)] at h
  obtain rfl := Except.ok.inj h
  show (s.audit.take (min (min s.audit.length n + 100) s.audit.length)).drop
    (min s.audit.length n) = (s.audit.drop n).take 100
  by_cases hle : n ≤ s.audit.length
  · rw [Nat.min_eq_right hle, List.take_drop, ← List.take_take, List.take_length]
  · have hdrop : s.audit.drop n = [] := List.drop_eq_nil_of_le (by omega)
    rw [hdrop, List.take_nil, List.drop_eq_nil_of_le]
    rw [List.length_take]
    omega

/-! ### What the panel shows -/

/-- The state of a reader of the audit. -/
structure Shows (p : Platform) (created : Audit → DartString) (s : Viewing) (t : Pager Audit) :
    Prop where
  store : s.space.Inv
  log : t.log = s.space.audit
  rows : s.panel.rows = t.rows.map (auditJson created)
  more : s.panel.more = t.more
  busy : s.panel.busy = t.reading
  sent : s.sent.isSome = t.reading
  after : ∀ r, s.sent = some r → r.after = ApiClient.decimal t.rows.length
  pages : s.answers = t.pages
  since : s.since = t.asked
  /-- The last row tells how many there are. -/
  exact : ∀ a ∈ t.rows, Exact a.sequence

variable {p : Platform} {created : Audit → DartString} {s s' : Viewing} {t t' : Pager Audit}

theorem new_shows {space : Space} (h : space.Reachable) :
    Shows p created (new space) (Pager.new space.audit) where
  store := h.inv
  log := rfl
  rows := rfl
  more := rfl
  busy := rfl
  sent := rfl
  after _ h := by cases h
  pages := rfl
  since := rfl
  exact _ h := by cases h

/-- The number of the last row is the number of rows. -/
theorem last_sequence {log rows : List Audit} (hn : Numbered Audit.sequence log) (h : rows <+: log)
    {a : Audit} (ha : rows.getLast? = some a) : a.sequence = rows.length := by
  obtain ⟨rest, rfl⟩ := h
  obtain ⟨init, rfl⟩ := List.getLast?_eq_some_iff.mp ha
  rw [hn.init.last, List.length_append, List.length_singleton]

/-- What is asked for comes after the rows. -/
theorem Shows.load (hp : p.Prints) (h : Shows p created s t) (hi : Pager.Inv 100 t)
    (hbusy : s.panel.busy = false) :
    s.panel.load p = ({ s.panel with busy := true }, some (Json.intText t.rows.length)) := by
  have hafter : s.panel.after p = .ok (Json.intText t.rows.length) := by
    rw [AuditPanel.after, h.rows, List.getLast?_map]
    cases ha : t.rows.getLast? with
    | none =>
        rw [List.getLast?_eq_none_iff.mp ha]
        rfl
    | some a =>
        have hn : Numbered Audit.sequence t.log := h.log ▸ h.store.auditSequence
        have hseq := last_sequence hn hi.rows ha
        show Except.ok (p.text (.int a.sequence)) = _
        rw [hp _ (h.exact a (List.mem_of_getLast? ha)), hseq]
  rw [AuditPanel.load, hbusy, hafter]
  rfl

/-- The request has left. -/
theorem Shows.asked (h : Shows p created s t) (c : Carried) :
    Shows p created
      { s with
        panel := { s.panel with busy := true }
        sent := some (ApiClient.audit c (Json.intText t.rows.length)), answers := []
        since := s.space.audit.length }
      { t with reading := true, pages := [], asked := t.log.length } :=
  { h with
    busy := rfl
    sent := rfl
    after := fun r hr => by
      obtain rfl := Option.some.inj hr
      rfl
    pages := rfl
    since := by rw [h.log] }

/-- It has failed. -/
theorem Shows.failed (h : Shows p created s t) (e : Exn) :
    Shows p created { s with panel := s.panel.finish (.error e), sent := none }
      { t with reading := false } :=
  { h with busy := rfl, sent := rfl, after := fun _ hr => by cases hr }

/-- The rows have come. -/
theorem Shows.shown (h : Shows p created s t) {rows : List Audit}
    (hexact : ∀ a ∈ rows, Exact a.sequence) :
    Shows p created
      { s with panel := s.panel.finish (.ok (.arr (rows.map (auditJson created)))), sent := none }
      { t with rows := t.rows ++ rows, more := decide (rows.length = 100), reading := false } :=
  { h with
    rows := by
      show s.panel.rows ++ rows.map (auditJson created) = _
      rw [h.rows, List.map_append]
    more := by
      show ((rows.map (auditJson created)).length == 100) = _
      rw [List.length_map]
      rfl
    busy := rfl
    sent := rfl
    after := fun _ hr => by cases hr
    exact := fun a ha => (List.mem_append.mp ha).elim (h.exact a) (hexact a) }

theorem Shows.step (hp : p.Prints) (h : Shows p created s t) (hi : Pager.Inv 100 t)
    (hstep : Step p created s s') : ∃ t', Pager.Step 100 t t' ∧ Shows p created s' t' := by
  cases hstep with
  | write c hc =>
      refine ⟨_, .grow (s.space.write c).2.audit (h.log ▸ Space.write_audit h.store c), ?_⟩
      exact { h with store := Space.write_inv h.store hc, log := rfl }
  | load carried hmore hbusy =>
      refine ⟨_, .ask (h.busy ▸ hbusy) (h.more ▸ hmore), ?_⟩
      rw [h.load hp hi hbusy]
      exact h.asked carried
  | answer r after rows hr hcursor hrows =>
      have hreading : t.reading = true := by rw [← h.sent, hr]; rfl
      refine ⟨_, .answer hreading, { h with pages := ?_ }⟩
      obtain rfl := ApiClient.cursor_pull (h.after r hr) hcursor
      rw [auditPage_eq hrows, h.log, h.pages]
  | shown r rows o hr hrows hexact ho =>
      have hreading : t.reading = true := by rw [← h.sent, hr]; rfl
      rw [ho]
      exact ⟨_, .turn rows hreading (h.pages ▸ hrows), h.shown hexact⟩
  | failed r o e hr ho =>
      have hreading : t.reading = true := by rw [← h.sent, hr]; rfl
      rw [ho]
      exact ⟨_, .fail hreading, h.failed e⟩

/-- The panel is a reader of the audit. -/
theorem Reachable.shows (hp : p.Prints) (h : Reachable p created s) :
    ∃ t, Pager.Inv 100 t ∧ Shows p created s t := by
  obtain ⟨space, hspace, hsteps⟩ := h
  induction hsteps with
  | refl => exact ⟨_, Pager.Inv.new _, new_shows hspace⟩
  | tail _ hstep ih =>
      obtain ⟨t, hi, hshows⟩ := ih
      obtain ⟨t', hstep', hshows'⟩ := hshows.step hp hi hstep
      exact ⟨t', hi.step hstep', hshows'⟩

/-- What a reader does while the log stays as it is, the panel can do. -/
theorem Shows.follow (hp : p.Prints) (h : Shows p created s t) (hi : Pager.Inv 100 t)
    (hexact : Exact t.log.length) (hstep : Pager.Step 100 t t') (hlog : t'.log = t.log) :
    ∃ s', Relation.ReflTransGen (Step p created) s s' ∧ s'.space = s.space ∧
      Shows p created s' t' := by
  have hsent : t.reading = true → ∃ r, s.sent = some r :=
    fun hr => Option.isSome_iff_exists.mp (h.sent.trans hr)
  cases hstep with
  | grow log hgrow =>
      obtain rfl : log = t.log := hlog
      exact ⟨s, .refl, rfl, h⟩
  | ask hreading hmore =>
      have hbusy : s.panel.busy = false := h.busy.trans hreading
      let c : Carried := { authorization := [], device := [], origin := [], limited := false, now := 0 }
      refine ⟨_, .single (.load c (h.more.trans hmore) hbusy), rfl, ?_⟩
      rw [h.load hp hi hbusy]
      exact h.asked c
  | answer hreading =>
      obtain ⟨r, hr⟩ := hsent hreading
      have hsmall : t.rows.length < 2 ^ 63 :=
        hi.rows.length_le.trans_lt (Nat.lt_trans hexact (by decide))
      have hcursor := ApiClient.cursor_decimal (h.after r hr) hsmall
      obtain ⟨rows, hrows⟩ : ∃ rows, s.space.auditPage t.rows.length 100 = .ok rows := by
        rw [Space.auditPage, if_neg (by omega)]
        exact ⟨_, rfl⟩
      refine ⟨_, .single (.answer r _ rows hr hcursor hrows), rfl, { h with pages := ?_ }⟩
      rw [auditPage_eq hrows, h.log, h.pages]
  | turn rows hreading hrows =>
      obtain ⟨r, hr⟩ := hsent hreading
      have hsequences : ∀ a ∈ rows, Exact a.sequence := by
        intro a ha
        obtain ⟨log, hprefix, -, -, rfl⟩ := hi.pages hreading rows hrows
        have hmem : a ∈ t.log := hprefix.subset (List.mem_of_mem_drop (List.mem_of_mem_take ha))
        have hn : Numbered Audit.sequence t.log := h.log ▸ h.store.auditSequence
        exact (hn.le_length hmem).trans_lt hexact
      let json : Json := .arr (rows.map (auditJson created))
      have hresult : p.result (.response 200 json.encode) = .ok json :=
        result_ok (Json.decode_encode json) (by decide)
      refine ⟨_, .single (.shown r rows _ hr (h.pages ▸ hrows) hsequences hresult), rfl, ?_⟩
      rw [hresult]
      exact h.shown hsequences
  | fail hreading =>
      obtain ⟨r, hr⟩ := hsent hreading
      exact ⟨_, .single (.failed r .lost .other hr rfl), rfl, h.failed .other⟩

/-- Step after step. -/
theorem Shows.follows (hp : p.Prints) (h : Shows p created s t) (hi : Pager.Inv 100 t)
    (hexact : Exact t.log.length)
    (hsteps : Relation.ReflTransGen (fun t t' => Pager.Step 100 t t' ∧ t'.log = t.log) t t') :
    ∃ s', Relation.ReflTransGen (Step p created) s s' ∧ s'.space = s.space ∧
      Shows p created s' t' := by
  have hall : Pager.Inv 100 t' ∧ t'.log = t.log ∧ ∃ s', Relation.ReflTransGen (Step p created) s s' ∧
      s'.space = s.space ∧ Shows p created s' t' := by
    induction hsteps with
    | refl => exact ⟨hi, rfl, s, .refl, rfl, h⟩
    | tail _ hstep ih =>
        obtain ⟨hi', hlog, s₁, hsteps₁, hspace₁, hshows₁⟩ := ih
        obtain ⟨s₂, hsteps₂, hspace₂, hshows₂⟩ :=
          hshows₁.follow hp hi' (hlog ▸ hexact) hstep.1 hstep.2
        exact ⟨hi'.step hstep.1, hstep.2.trans hlog, s₂, hsteps₁.trans hsteps₂,
          hspace₂.trans hspace₁, hshows₂⟩
  exact hall.2.2

/-- **The panel shows the audit from its beginning.** Whatever is written meanwhile, and whatever
the network loses: the rows are the first so many events, in order and none twice; once there is no
more to load they include all that there was when the last load began; and as long as there is, and
the panel is not busy, the whole audit can be loaded. -/
theorem audit_shown (hp : p.Prints) (h : Reachable p created s) :
    s.panel.rows = (s.space.audit.take s.panel.rows.length).map (auditJson created) ∧
      (s.panel.more = false → s.since ≤ s.panel.rows.length) ∧
      (s.panel.more = true → s.panel.busy = false → Exact s.space.audit.length →
        ∃ s', Relation.ReflTransGen (Step p created) s s' ∧ s'.space = s.space ∧
          s'.panel.rows = s.space.audit.map (auditJson created) ∧ s'.panel.more = false) := by
  obtain ⟨t, hi, hshows⟩ := h.shows hp
  have hlength : s.panel.rows.length = t.rows.length := by rw [hshows.rows, List.length_map]
  refine ⟨?_, fun hmore => ?_, fun hmore hbusy hexact => ?_⟩
  · rw [hlength, hshows.rows, ← hshows.log, ← List.prefix_iff_eq_take.mp hi.rows]
  · rw [hlength, hshows.since]
    exact hi.last (hshows.more.symm.trans hmore)
  · obtain ⟨t', hsteps, hlog, hrows, hmore'⟩ := Pager.exists_read (by decide : 0 < 100) hi
      (hshows.busy.symm.trans hbusy) (hshows.more.symm.trans hmore)
    obtain ⟨s', hsteps', hspace, hshows'⟩ :=
      hshows.follows hp hi (hshows.log ▸ hexact) hsteps
    refine ⟨s', hsteps', hspace, ?_, hshows'.more.trans hmore'⟩
    rw [hshows'.rows, hrows, hshows.log]

/-- A platform that writes numbers, too. -/
def written : Platform :=
  { Engine.plain with
    text := fun j =>
      match j with
      | .str s => s
      | j => j.encode }

theorem written_prints : written.Prints := fun _ _ => List.append_nil _

/-- The first load is answered with the tablet's registration, and the response is lost; meanwhile an
edit has been pushed. Then both events come to be shown. -/
theorem audit_shown_run :
    let created : Audit → DartString := fun _ => dart "2026-01-01T00:00:00Z"
    ∃ s s', Relation.ReflTransGen (Step written created) (new started) s ∧ s.since = 1 ∧
      s.space.audit.length = 2 ∧ s.panel.rows = [] ∧ s.panel.error.isSome = true ∧
      Relation.ReflTransGen (Step written created) s s' ∧
      s'.panel.rows = s.space.audit.map (auditJson created) ∧ s'.panel.more = false := by
  intro created
  let c : Carried := { authorization := [], device := [], origin := [], limited := false, now := 0 }
  have h₁ : Relation.ReflTransGen (Step written created) (new started) _ := .single (.load c rfl rfl)
  let r := ApiClient.audit c (Json.intText 0)
  have hcursor : Api.cursor r = .ok 0 := ApiClient.cursor_decimal rfl (by decide)
  have h₂ := h₁.tail (.answer r 0 started.audit rfl hcursor rfl)
  have h₃ := h₂.tail (.write (.push tablet.id tablet.actor [firstEdit]) trivial)
  have h₄ := h₃.tail (.failed r .lost .other rfl rfl)
  have hlength : (started.write (.push tablet.id tablet.actor [firstEdit])).2.audit.length = 2 := by
    decide
  obtain ⟨s', hsteps, -, hrows, hmore⟩ := (audit_shown written_prints ⟨started, started_reachable, h₄⟩).2.2
    rfl rfl (lt_of_eq_of_lt hlength (by decide))
  exact ⟨_, s', h₄, rfl, hlength, rfl, rfl, hsteps, hrows, hmore⟩

end Viewing

end Syncraft.Field
