import Syncraft.Store.Page
import Syncraft.Store.Statements

/-!
# Syncraft.Store.PostgresConcurrency

Concurrent calls to the PostgreSQL adapter, in one workspace: any number of writes, each a
transaction behind the workspace's row lock, and any number of reads that take no lock. The
sequences committed are 1 to n at every moment, every page is the page of what was committed
at its last statement, and a client that follows the cursors misses nothing.
-/

namespace Syncraft.Store

open Domain RowLock

/-! ### Writes keep the numbering -/

namespace Rows

/-- What a statement does to the log: it only grows, and stays numbered if the counter was
right. -/
structure Grows (r r' : Rows) : Prop where
  present : r.workspace.isSome = true → r'.workspace.isSome = true
  operations : r.operations <+: r'.operations
  sequence : Numbered OperationRow.sequence r.operations →
    (∀ w, r.workspace = some w → w.sequence = r.operations.length) →
    Numbered OperationRow.sequence r'.operations ∧
      ∀ w, r'.workspace = some w → w.sequence = r'.operations.length

theorem Grows.refl (r : Rows) : r.Grows r := ⟨id, List.prefix_rfl, fun h h' => ⟨h, h'⟩⟩

theorem Grows.trans (r₁ r₂ r₃ : Rows) (h : r₁.Grows r₂) (h' : r₂.Grows r₃) : r₁.Grows r₃ where
  present hp := h'.present (h.present hp)
  operations := h.operations.trans h'.operations
  sequence hn hw := h'.sequence (h.sequence hn hw).1 (h.sequence hn hw).2

/-- A statement that leaves the log and its counter alone. -/
theorem Grows.of_eq {r r' : Rows} (hops : r'.operations = r.operations)
    (hw : r'.workspace.map WorkspaceRow.sequence = r.workspace.map WorkspaceRow.sequence) :
    r.Grows r' where
  present hp := by
    rw [← Option.isSome_map (f := WorkspaceRow.sequence), hw, Option.isSome_map]
    exact hp
  operations := hops ▸ List.prefix_rfl
  sequence hn hc := by
    rw [hops]
    refine ⟨hn, fun w hw' => ?_⟩
    rw [hw', Option.map_some] at hw
    obtain ⟨v, hv, hvw⟩ := Option.map_eq_some_iff.mp hw.symm
    rw [← hvw]
    exact hc v hv

end Rows

namespace Postgres

variable {pg : Pg}

open Rows (Grows)

theorem insertOperation_grows (o : Operation GoString) (device actor : GoString) :
    (Tx.exec (insertOperation pg o device actor)).Keeps Grows := by
  refine Tx.Keeps.exec fun r δ h => ?_
  unfold insertOperation at h
  split at h
  · next w _ _ _ hw =>
      split at h
      · cases h
      · obtain rfl := Except.ok.inj h
        refine ⟨fun _ => by simp [hw], List.prefix_append _ _, fun hn hc => ⟨?_, ?_⟩⟩
        · exact hn.snoc (by rw [hc w hw])
        · intro v hv
          simp only [hw, Option.map_some, Option.some.injEq] at hv
          subst hv
          simp [hc w hw]
  · obtain rfl := Except.ok.inj h
    exact Grows.refl r
  · cases h

theorem logAudit_grows (actor action target : GoString) :
    (logAudit pg actor action target).Keeps Grows := by
  refine Tx.Keeps.exec fun r δ h => ?_
  split at h
  · cases h
  · split at h
    · obtain rfl := Except.ok.inj h
      exact Grows.refl r
    · next w hw =>
        split at h
        · cases h
        · obtain rfl := Except.ok.inj h
          exact Grows.of_eq rfl (by simp [hw])

theorem insertDevice_grows (d : Device) : (Tx.exec (insertDevice pg d)).Keeps Grows := by
  refine Tx.Keeps.exec fun r δ h => ?_
  unfold insertDevice at h
  split at h
  · cases h
  · split at h
    · cases h
    · obtain rfl := Except.ok.inj h
      exact Grows.of_eq rfl rfl

theorem revokeDevice_grows (id : GoString) : (Tx.exec (revokeDevice pg id)).Keeps Grows := by
  refine Tx.Keeps.exec fun r δ h => ?_
  unfold revokeDevice at h
  split at h
  · cases h
  · obtain rfl := Except.ok.inj h
    exact Grows.of_eq rfl rfl

theorem insertAttachment_grows (a : Attachment) :
    (Tx.exec (insertAttachment pg a)).Keeps Grows := by
  refine Tx.Keeps.exec fun r δ h => ?_
  unfold insertAttachment at h
  split at h
  · split at h
    · cases h
    · obtain rfl := Except.ok.inj h
      exact Grows.of_eq rfl rfl
  · cases h

/-- **Every statement of every write keeps the numbering.** -/
theorem body_grows (w : GoString) (c : Write) : (body pg w c).Keeps Grows :=
  body_keeps Grows.refl logAudit_grows insertDevice_grows revokeDevice_grows insertOperation_grows
    insertAttachment_grows w c

theorem body_run {w : GoString} {c : Write} {r r' : Rows} {a : Result}
    (h : (body pg w c).run r = .ok (a, r')) : r.Grows r' :=
  (body_grows w c).run Grows.refl Grows.trans h

/-! ### The workload -/

/-- The writes and reads of one workspace, behind the lock of its row. -/
def workload (pg : Pg) (w : GoString) :
    Workload Rows Err Result Write Read (Except Err Result) where
  present r := r.workspace.isSome
  create := Rows.create
  body := body pg w
  query := query pg w
  present_create _ := rfl
  present_run hp h := (body_run h).present hp

/-- The log is numbered from one, and the counter is its length. -/
structure Counted (r : Rows) : Prop where
  sequence : Numbered OperationRow.sequence r.operations
  counter : ∀ w, r.workspace = some w → w.sequence = r.operations.length
  absent : r.workspace = none → r.operations = []

theorem new_counted : Counted Rows.new :=
  ⟨Numbered.nil, fun _ h => by (cases h), fun _ => rfl⟩

theorem Counted.ensure (pg : Pg) (w : GoString) {r : Rows} (h : Counted r) :
    Counted ((workload pg w).ensure r) ∧ r.operations = ((workload pg w).ensure r).operations := by
  unfold Workload.ensure
  split
  · exact ⟨h, rfl⟩
  · next hp =>
      have hnone : r.workspace = none := by
        simpa [workload] using hp
      refine ⟨⟨h.sequence, fun v hv => ?_, fun hv => ?_⟩, rfl⟩
      · cases hv
        show 0 = r.operations.length
        rw [h.absent hnone]
        rfl
      · cases hv

/-- One transaction extends a counted log. -/
theorem serial_counted {pg : Pg} {w : GoString} {r r' : Rows} (hc : Counted r)
    (h : Serial (workload pg w) r r') : Counted r' ∧ r.operations <+: r'.operations := by
  obtain ⟨c, a, hrun⟩ := h
  obtain ⟨hens, hops⟩ := hc.ensure pg w
  have hgrows := body_run hrun
  obtain ⟨hn, hw⟩ := hgrows.sequence hens.sequence hens.counter
  refine ⟨⟨hn, hw, fun hnone => ?_⟩, hops ▸ hgrows.operations⟩
  have hp := hgrows.present ((workload pg w).present_ensure r)
  rw [hnone] at hp
  cases hp

theorem later_counted {pg : Pg} {w : GoString} {r r' : Rows} (h : Later (workload pg w) r r')
    (hc : Counted r) : Counted r' ∧ r.operations <+: r'.operations := by
  refine h.keeps (P := fun t => Counted t ∧ r.operations <+: t.operations)
    ⟨hc, List.prefix_rfl⟩ fun t t' ht hstep => ?_
  obtain ⟨hc', hpre⟩ := serial_counted ht.1 hstep
  exact ⟨hc', ht.2.trans hpre⟩

/-! ### Pulls -/

/-- An answer a reader of the workspace got. -/
abbrev Reply := Answer Rows Read (Except Err Result)

/-- The answer is a page, for the cursor and limit given. -/
structure Pulled (x : Reply) (after limit : Int) (p : Page) : Prop where
  request : x.request = .pull after limit
  reply : x.reply = .ok (.page p)

/-- Inverting a pull that was answered with a page: the workspace had no row, or the second
statement read the page. -/
theorem pull_page {w : GoString} {after limit : Int} {trail : List Rows} {p : Page}
    (h : (query pg w (.pull after limit)).after trail = some (.ret (.ok (.page p)))) :
    pg.text w = true ∧ 0 ≤ after ∧ 1 ≤ limit ∧ limit ≤ 200 ∧
      ((∃ r, trail = [r] ∧ latest r = none ∧ after = 0 ∧
          p = { entries := [], cursor := 0, more := false }) ∨
        ∃ r₁ r₂ n, trail = [r₁, r₂] ∧ latest r₁ = some n ∧ after ≤ n ∧
          p = collect limit.toNat { entries := [], cursor := after.toNat, more := false }
            (operationsAfter after.toNat (limit.toNat + 1) r₂)) := by
  obtain ⟨b, hb, hbp⟩ := Query.after_map_ret h
  have hok : b = .ok p := by
    cases b with
    | ok q => cases hbp; rfl
    | error e => cases hbp
  subst hok
  unfold pull at hb
  dsimp only at hb
  split at hb
  · next => cases trail <;> cases hb
  · next hguard =>
      split at hb
      · cases trail <;> cases hb
      · next hw =>
          refine ⟨by simpa using hw, by omega, by omega, by omega, ?_⟩
          cases trail with
          | nil => simp only [Query.after_nil] at hb; cases hb
          | cons r₁ trail =>
              simp only [Query.after] at hb
              cases hl : latest r₁ with
              | none =>
                  rw [hl] at hb
                  dsimp only at hb
                  split at hb
                  · cases trail <;> cases hb
                  · next hz =>
                      have hz : after = 0 := by omega
                      cases trail with
                      | nil =>
                          cases hb
                          exact Or.inl ⟨r₁, rfl, hl, hz, by rw [hz]; rfl⟩
                      | cons t ts => cases hb
              | some n =>
                  rw [hl] at hb
                  dsimp only at hb
                  split at hb
                  · cases trail <;> cases hb
                  · next hle =>
                      cases trail with
                      | nil => cases hb
                      | cons r₂ trail =>
                          simp only [Query.after] at hb
                          cases trail with
                          | nil =>
                              cases hb
                              exact Or.inr ⟨r₁, r₂, n, rfl, hl, by omega, rfl⟩
                          | cons t ts => cases hb

/-- A pull within the limits is answered with a page unless its cursor is beyond the log its
first statement read. -/
theorem pull_reply {w : GoString} {after limit : Int} {trail : List Rows}
    {b : Except Err Result} (h : (query pg w (.pull after limit)).after trail = some (.ret b))
    (hw : pg.text w = true) (hafter : 0 ≤ after) (hlimit : 1 ≤ limit ∧ limit ≤ 200)
    (hcursor : ∀ r, trail.head? = some r → after ≤ (latest r).getD 0) : ∃ p, b = .ok (.page p) := by
  obtain ⟨c, hc, rfl⟩ := Query.after_map_ret h
  unfold pull at hc
  dsimp only at hc
  rw [if_neg (by omega), if_neg (by simp [hw])] at hc
  cases trail with
  | nil => simp only [Query.after_nil] at hc; cases hc
  | cons r₁ trail =>
      have hle := hcursor r₁ rfl
      simp only [Query.after] at hc
      cases hl : latest r₁ with
      | none =>
          rw [hl] at hc hle
          simp only [Option.getD_none] at hle
          dsimp only at hc
          rw [if_neg (by omega)] at hc
          cases trail with
          | nil => cases hc; exact ⟨_, rfl⟩
          | cons t ts => cases hc
      | some n =>
          rw [hl] at hc hle
          simp only [Option.getD_some] at hle
          dsimp only at hc
          rw [if_neg (by omega)] at hc
          cases trail with
          | nil => cases hc
          | cons r₂ trail =>
              simp only [Query.after] at hc
              cases trail with
              | nil => cases hc; exact ⟨_, rfl⟩
              | cons t ts => cases hc

/-- A client that follows the cursors: it pulls at `after`, and again at the cursor of each
page until a page says there is no more. `seen` is what was committed at the last statement
of its last pull. -/
inductive Drains (answers : List Reply) : (after : Nat) → (received : List Entry) →
    (seen : Rows) → Prop where
  | last {x : Reply} {after : Nat} {limit : Int} {p : Page} {seen : Rows} : x ∈ answers →
      Pulled x after limit p → p.more = false → x.trail.getLast? = some seen →
      Drains answers after p.entries seen
  | next {x : Reply} {after : Nat} {limit : Int} {p : Page} {received : List Entry}
      {seen : Rows} : x ∈ answers → Pulled x after limit p → p.more = true →
      Drains answers p.cursor received seen → Drains answers after (p.entries ++ received) seen

section Reachable

variable {ι : Type} [DecidableEq ι] {w : GoString}
  {d : Db ι Rows Err Result Write Read (Except Err Result)}

/-- Every state a reader saw was counted, and its log is one the log has come from. -/
theorem seen_counted (h : Reachable (workload pg w) Rows.new d) {x : Reply} (hx : x ∈ d.answers)
    {r : Rows} (hr : r ∈ x.trail) : Counted r ∧ r.log <+: d.committed.log := by
  obtain ⟨-, htrail⟩ := h.inv.answers x hx
  have hc := (later_counted (htrail.from hr) new_counted).1
  exact ⟨hc, (later_counted (htrail.to hr) hc).2.map _⟩

theorem Counted.latest {r : Rows} (h : Counted r) : (latest r).getD 0 = r.log.length := by
  unfold Postgres.latest Rows.log
  cases hw : r.workspace with
  | none => simp [h.absent hw]
  | some v => simp [h.counter v hw]

theorem Counted.numbered {r : Rows} (h : Counted r) : Numbered Entry.sequence r.log :=
  h.sequence.map fun _ _ => rfl

/-- **Every page is exact** for the log its last statement read. -/
theorem page_exact (h : Reachable (workload pg w) Rows.new d) {x : Reply} (hx : x ∈ d.answers)
    {after limit : Int} {p : Page} (hp : Pulled x after limit p) :
    0 ≤ after ∧ ∃ seen, x.trail.getLast? = some seen ∧ after ≤ seen.log.length ∧
      ExactPage seen.log after.toNat limit.toNat p := by
  obtain ⟨hafter, htrail⟩ := h.inv.answers x hx
  rw [hp.request, hp.reply] at hafter
  have counted : ∀ r ∈ x.trail, Counted r := fun r hr => (seen_counted h hx hr).1
  obtain ⟨-, hpos, -, -, hpage⟩ := pull_page hafter
  refine ⟨hpos, ?_⟩
  rcases hpage with ⟨r, ht, hl, rfl, rfl⟩ | ⟨r₁, r₂, n, ht, hl, hle, rfl⟩
  · have hc := counted r (by rw [ht]; exact List.mem_singleton_self r)
    have hempty : r.log.length = 0 := by rw [← hc.latest, hl]; rfl
    have hnil : r.log = [] := List.length_eq_zero_iff.mp hempty
    refine ⟨r, by rw [ht]; rfl, by omega, ?_⟩
    rw [hnil]
    exact ⟨by simp, by simp, by simp⟩
  · have hc₁ := counted r₁ (by rw [ht]; exact List.mem_cons_self)
    have hc₂ := counted r₂ (by rw [ht]; exact List.mem_cons_of_mem _ List.mem_cons_self)
    have hlater : Later (workload pg w) r₁ r₂ := by
      have := htrail.pairwise
      rw [ht, List.pairwise_cons] at this
      exact this.1 r₂ (List.mem_singleton_self r₂)
    have hgrow : r₁.log.length ≤ r₂.log.length :=
      ((later_counted hlater hc₁).2.map OperationRow.toEntry).length_le
    have hn : n = r₁.log.length := by rw [← hc₁.latest, hl]; rfl
    exact ⟨r₂, by rw [ht]; rfl, by omega, collect_exact hc₂.sequence _ _⟩

/-- **A pull is answered with a page**, within the limits and from a cursor up to the log that
its first statement read. -/
theorem pull_answered (h : Reachable (workload pg w) Rows.new d) {x : Reply} (hx : x ∈ d.answers)
    {after limit : Int} (hreq : x.request = .pull after limit) (hw : pg.text w = true)
    (hafter : 0 ≤ after) (hlimit : 1 ≤ limit ∧ limit ≤ 200)
    (hcursor : ∀ r, x.trail.head? = some r → after ≤ r.log.length) :
    ∃ p, x.reply = .ok (.page p) := by
  obtain ⟨hquery, -⟩ := h.inv.answers x hx
  rw [hreq] at hquery
  refine pull_reply hquery hw hafter hlimit fun r hr => ?_
  rw [(seen_counted h hx (List.mem_of_mem_head? hr)).1.latest]
  exact hcursor r hr

/-- **A cursor from an earlier page is not rejected.** -/
theorem cursor_accepted (h : Reachable (workload pg w) Rows.new d) {x y : Reply}
    (hx : x ∈ d.answers) (hy : y ∈ d.answers.take x.started) {after limit limit' : Int}
    {p : Page} (hp : Pulled y after limit p) (hreq : x.request = .pull p.cursor limit')
    (hlimit : 1 ≤ limit' ∧ limit' ≤ 200) : ∃ p', x.reply = .ok (.page p') := by
  have hy' := List.mem_of_mem_take hy
  obtain ⟨-, seen, hseen, hle, hexact⟩ := page_exact h hy' hp
  have hmem : seen ∈ y.trail := List.mem_of_getLast? hseen
  have hcursor := hexact.cursor_eq (seen_counted h hy' hmem).1.numbered (by omega)
  obtain ⟨hafter', -⟩ := h.inv.answers y hy'
  rw [hp.request, hp.reply] at hafter'
  refine pull_answered h hx hreq (pull_page hafter').1 (by omega) hlimit fun r hr => ?_
  -- `y` read `seen` before `x` began, so `x` reads a log at least as long.
  have hlater := h.inv.ordered x hx r (List.mem_of_mem_head? hr) y hy seen hmem
  have hgrow := ((later_counted hlater (seen_counted h hy' hmem).1).2.map
    OperationRow.toEntry).length_le
  have : seen.log.length ≤ r.log.length := hgrow
  omega

/-- **A client that follows the cursors receives every entry once, in order.** -/
theorem drains_all (h : Reachable (workload pg w) Rows.new d) {after : Nat}
    {received : List Entry} {seen : Rows} (hd : Drains d.answers after received seen) :
    after ≤ seen.log.length ∧ seen.log <+: d.committed.log ∧
      received = seen.log.drop after := by
  induction hd with
  | @last x after limit p seen hx hp hmore hseen =>
      obtain ⟨-, seen', hseen', hle, hexact⟩ := page_exact h hx hp
      rw [hseen] at hseen'
      obtain rfl := Option.some.inj hseen'
      refine ⟨by omega, (seen_counted h hx (List.mem_of_getLast? hseen)).2, ?_⟩
      have hall : ¬ min (after + limit.toNat) seen.log.length < seen.log.length := by
        intro hlt
        rw [hexact.more.mpr hlt] at hmore
        cases hmore
      rw [hexact.entries, Int.toNat_natCast, List.take_of_length_le (by omega)]
  | @next x after limit p received seen hx hp hmore hrest ih =>
      obtain ⟨hcur, hpre, hrec⟩ := ih
      obtain ⟨-, seen', hseen', hle, hexact⟩ := page_exact h hx hp
      have hmem := List.mem_of_getLast? hseen'
      obtain ⟨hc', hpre'⟩ := seen_counted h hx hmem
      have hcursor := hexact.cursor_eq hc'.numbered (by omega)
      have hlt := hexact.more.mp hmore
      simp only [Int.toNat_natCast] at hcursor hlt
      have hpage : p.entries = (seen.log.take p.cursor).drop after := by
        rw [hexact.entries, Int.toNat_natCast, ← hcursor]
        congr 1
        -- Both logs are the start of what is committed now.
        rw [List.prefix_iff_eq_take.mp hpre', List.prefix_iff_eq_take.mp hpre, List.take_take,
          List.take_take]
        congr 1
        omega
      refine ⟨by omega, hpre, ?_⟩
      rw [hpage, hrec]
      have hsplit : seen.log.drop after =
          ((seen.log.take p.cursor) ++ (seen.log.drop p.cursor)).drop after := by
        simp only [List.take_append_drop]
      rw [hsplit, List.drop_append_of_le_length]
      simp only [List.length_take]
      omega

end Reachable

/-- **No cursor gap.** However writes and reads of a workspace interleave, the committed
sequences are 1 to n; every page is exact for the log its last statement read, which is the
start of every later log; a pull of 1 to 200 entries, from 0 or from a cursor up to the log its
first statement read, is answered with a page, if PostgreSQL takes the name of the workspace for a
text; a cursor taken from a page is accepted by every later pull; and a client that pulls from 0
until there is no more has received every entry committed before the last statement of its last
pull, once and in order. -/
theorem no_cursor_gap {ι : Type} [DecidableEq ι] (w : GoString)
    {d : Db ι Rows Err Result Write Read (Except Err Result)}
    (h : Reachable (workload pg w) Rows.new d) :
    d.committed.log.map Entry.sequence = List.range' 1 d.committed.log.length ∧
      (∀ x ∈ d.answers, ∀ after limit p, Pulled x after limit p →
        0 ≤ after ∧ ∃ seen, x.trail.getLast? = some seen ∧ seen.log <+: d.committed.log ∧
          ExactPage seen.log after.toNat limit.toNat p) ∧
      (pg.text w = true → ∀ x ∈ d.answers, ∀ after limit, x.request = .pull after limit →
        0 ≤ after → 1 ≤ limit ∧ limit ≤ 200 →
        (∀ r, x.trail.head? = some r → after ≤ r.log.length) → ∃ p, x.reply = .ok (.page p)) ∧
      (∀ x ∈ d.answers, ∀ y ∈ d.answers.take x.started, ∀ after limit limit' p,
        Pulled y after limit p → x.request = .pull p.cursor limit' → 1 ≤ limit' ∧ limit' ≤ 200 →
        ∃ p', x.reply = .ok (.page p')) ∧
      ∀ received seen, Drains d.answers 0 received seen →
        received = seen.log ∧ seen.log <+: d.committed.log := by
  have hc := (later_counted h.inv.serial new_counted).1
  refine ⟨hc.numbered.numbers, ?_, ?_, ?_, ?_⟩
  · intro x hx after limit p hp
    obtain ⟨hpos, seen, hseen, -, hexact⟩ := page_exact h hx hp
    exact ⟨hpos, seen, hseen, (seen_counted h hx (List.mem_of_getLast? hseen)).2, hexact⟩
  · intro hw x hx after limit hreq hafter hlimit hcursor
    exact pull_answered h hx hreq hw hafter hlimit hcursor
  · intro x hx y hy after limit limit' p hp hreq hlimit
    exact cursor_accepted h hx hy hp hreq hlimit
  · intro received seen hd
    obtain ⟨-, hpre, hrec⟩ := drains_all h hd
    exact ⟨by rw [hrec, List.drop_zero], hpre⟩

/-- A write with nothing else going on is one of the runs. -/
theorem write_steps {ι : Type} [DecidableEq ι] {w : GoString} {i : ι}
    {d : Db ι Rows Err Result Write Read (Except Err Result)} (hidle : d.sessions i = .idle)
    (hfree : d.holder = none) (c : Write) :
    Relation.ReflTransGen (Step (workload pg w)) d
      { d with committed := (d.committed.write pg w c).2 } := by
  unfold Rows.write
  cases hrun : (body pg w c).run
      (if d.committed.workspace.isSome then d.committed else d.committed.create) with
  | ok ar =>
      obtain ⟨a, r'⟩ := ar
      exact serial_steps (W := workload pg w) hidle hfree hrun
  | error e => exact Relation.ReflTransGen.refl

/-- Two edits are pushed and read back, page by page: the first page says that there is more, the
second starts at its cursor and ends the log. -/
theorem no_cursor_gap_run :
    let entry (sequence : Nat) (o : Operation GoString) : Entry :=
      { sequence, device := tablet.id, actor := tablet.actor, operation := o }
    ∃ d : Db Unit Rows Err Result Write Read (Except Err Result),
      d.answers.map (fun x => (x.request, x.reply)) =
        [(.pull 0 1, .ok (.page { entries := [entry 1 firstEdit], cursor := 1, more := true })),
          (.pull 1 1, .ok (.page { entries := [entry 2 secondEdit], cursor := 2, more := false }))] ∧
      d.committed.log.map Entry.sequence = List.range' 1 2 ∧
      ∃ p, d.answers.head?.map Answer.reply = some (.ok (.page p)) := by
  intro entry
  let w := go "site-a"
  let r₁ := (Rows.new.write Pg.standard w (.register tablet)).2
  let r₂ := (r₁.write Pg.standard w (.push tablet.id tablet.actor [firstEdit, secondEdit])).2
  have hwrites : Reachable (workload Pg.standard w) Rows.new
      ({ Db.new Rows.new with committed := r₂ } :
        Db Unit Rows Err Result Write Read (Except Err Result)) :=
    (write_steps (i := ()) rfl rfl (.register tablet)).trans
      (write_steps (i := ()) rfl rfl (.push tablet.id tablet.actor [firstEdit, secondEdit]))
  obtain ⟨t₁, hfirst⟩ := query_steps (W := workload Pg.standard w) (i := ()) (.pull 0 1)
    (d := { Db.new Rows.new with committed := r₂ }) rfl
  obtain ⟨t₂, hsecond⟩ := query_steps (W := workload Pg.standard w) (i := ()) (.pull 1 1)
    (d := { Db.new Rows.new with committed := r₂, answers := _ }) rfl
  have hreach := (hwrites.trans hfirst).trans hsecond
  have hlen : r₂.log.length = 2 := by decide
  have hanswer₁ : (query Pg.standard w (.pull 0 1)).run r₂ =
      .ok (.page { entries := [entry 1 firstEdit], cursor := 1, more := true }) := by decide
  have hanswer₂ : (query Pg.standard w (.pull 1 1)).run r₂ =
      .ok (.page { entries := [entry 2 secondEdit], cursor := 2, more := false }) := by decide
  obtain ⟨hsequence, -, hpage, -⟩ := no_cursor_gap w hreach
  refine ⟨_, ?_, hsequence.trans (congrArg (List.range' 1) hlen), ?_⟩
  · rw [← hanswer₁, ← hanswer₂]
    rfl
  · obtain ⟨p, hp⟩ := hpage (by decide) _ List.mem_cons_self 0 1 rfl (Int.le_refl 0)
      ⟨Int.le_refl 1, by decide⟩ fun r _ => Int.natCast_nonneg _
    exact ⟨p, congrArg some hp⟩

end Postgres

end Syncraft.Store
