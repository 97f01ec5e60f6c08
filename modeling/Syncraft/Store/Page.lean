import Syncraft.Store.MemoryInvariant
import Syncraft.Store.Postgres

/-!
# Syncraft.Store.Page

What a page of a log is (`ExactPage`), and that both adapters return it: the in-memory one
cuts its list (`pull_exact`), the PostgreSQL one filters, sorts and limits a table and stops
one row late (`collect_exact`). A page is determined by its log, cursor and limit.
-/

namespace Syncraft.Store

open Domain CausalLog RowLock

/-- The page of `log` for the cursor `after`: the entries `after+1` to
`min (after+limit) n`, the last of them as cursor, and whether there are more. -/
structure ExactPage (log : List Entry) (after limit : Nat) (p : Page) : Prop where
  entries : p.entries = (log.take (min (after + limit) log.length)).drop after
  cursor : p.cursor = (p.entries.getLast?.map Entry.sequence).getD after
  more : p.more = true ↔ min (after + limit) log.length < log.length

theorem ExactPage.unique {log : List Entry} {after limit : Nat} {p p' : Page}
    (h : ExactPage log after limit p) (h' : ExactPage log after limit p') : p = p' := by
  have hentries : p.entries = p'.entries := h.entries.trans h'.entries.symm
  have hcursor : p.cursor = p'.cursor := by rw [h.cursor, h'.cursor, hentries]
  have hmore : p.more = p'.more := Bool.eq_iff_iff.mpr (h.more.trans h'.more.symm)
  cases p
  cases p'
  simp_all

/-- On a numbered log, the cursor of a page is where the page ends. -/
theorem ExactPage.cursor_eq {log : List Entry} {after limit : Nat} {p : Page}
    (h : ExactPage log after limit p) (hn : Numbered Entry.sequence log)
    (hafter : after ≤ log.length) : p.cursor = min (after + limit) log.length := by
  rw [h.cursor]
  have hlen : p.entries.length = min (after + limit) log.length - after := by
    rw [h.entries, List.length_drop, List.length_take]
    omega
  cases hp : p.entries.getLast? with
  | none =>
      simp only [List.getLast?_eq_none_iff] at hp
      rw [hp, List.length_nil] at hlen
      simp only [Option.map_none, Option.getD_none]
      omega
  | some e =>
      have hne : p.entries ≠ [] := by intro h; rw [h] at hp; cases hp
      have hpos : 0 < p.entries.length := List.length_pos_iff.mpr hne
      rw [List.getLast?_eq_getElem?, hlen, h.entries, List.getElem?_drop,
        List.getElem?_take_of_lt (by omega)] at hp
      obtain ⟨hlt, rfl⟩ := List.getElem?_eq_some_iff.mp hp
      simp only [Option.map_some, Option.getD_some]
      rw [hn _ hlt]
      omega

namespace Space

/-- The in-memory adapter returns the page of its log. -/
theorem pull_exact {s : Space} (hi : s.Inv) {after limit : Int} {p : Page}
    (h : s.pull after limit = .ok p) :
    ExactPage s.entries after.toNat limit.toNat p := by
  unfold pull at h
  split at h
  · cases h
  · next hguard =>
      obtain rfl := (Except.ok.inj h).symm
      simp only [not_or, not_lt, gt_iff_lt] at hguard
      have hafter : after.toNat ≤ s.entries.length := by omega
      have hexact : ExactPage s.entries after.toNat limit.toNat
          { entries := (s.entries.take (min (after.toNat + limit.toNat) s.entries.length)).drop
              after.toNat
            cursor := (((s.entries.take (min (after.toNat + limit.toNat) s.entries.length)).drop
              after.toNat).getLast?.map Entry.sequence).getD after.toNat
            more := decide (min (after.toNat + limit.toNat) s.entries.length < s.entries.length) } :=
        ⟨rfl, rfl, decide_eq_true_iff⟩
      have hcursor := hexact.cursor_eq hi.sequence hafter
      exact ⟨rfl, hcursor.symm.trans hexact.cursor, decide_eq_true_iff⟩

/-- When the in-memory adapter returns a page. -/
theorem pull_ok_iff {s : Space} {after limit : Int} :
    (∃ p, s.pull after limit = .ok p) ↔
      0 ≤ after ∧ after ≤ s.entries.length ∧ 1 ≤ limit ∧ limit ≤ 200 := by
  unfold pull
  split
  · next h =>
      constructor
      · rintro ⟨p, hp⟩; cases hp
      · omega
  · next h => exact ⟨fun _ => by omega, fun _ => ⟨_, rfl⟩⟩

end Space

/-! ### The table -/

/-- A row of `operations` as the entry it is returned as. -/
def OperationRow.toEntry (o : OperationRow) : Entry :=
  { sequence := o.sequence, device := o.device, actor := o.actor, operation := o.content }

/-- The log the table holds. -/
def Rows.log (r : Rows) : List Entry := r.operations.map OperationRow.toEntry

namespace Postgres

/-- What the loop of `Pull` makes of the rows. -/
theorem collect_eq (limit : Nat) (out : Page) (rows : List OperationRow)
    (h : out.entries.length ≤ limit) :
    collect limit out rows =
      { entries := out.entries ++ (rows.take (limit - out.entries.length)).map OperationRow.toEntry
        cursor := ((rows.take (limit - out.entries.length)).getLast?.map
          OperationRow.sequence).getD out.cursor
        more := out.more || decide (limit - out.entries.length < rows.length) } := by
  induction rows generalizing out with
  | nil => simp [collect]
  | cons row rest ih =>
      rw [collect]
      by_cases hfull : out.entries.length = limit
      · rw [if_pos hfull]
        simp [hfull]
      · rw [if_neg hfull, ih]
        · obtain ⟨k, hk⟩ : ∃ k, limit - out.entries.length = k + 1 :=
            ⟨limit - out.entries.length - 1, by omega⟩
          have hk' : limit - (out.entries.length + 1) = k := by omega
          simp only [List.length_append, List.length_cons, List.length_nil, Nat.zero_add, hk, hk',
            List.take_succ_cons, List.map_cons, List.append_assoc, List.singleton_append,
            Nat.add_lt_add_iff_right, List.getLast?_cons, Option.map_some, Option.getD_some]
          cases (rest.take k).getLast? with
          | none => rfl
          | some last => rfl
        · simp only [List.length_append, List.length_singleton]
          omega

/-- On a numbered table the rows after a number are the rest of the table. -/
theorem operationsAfter_eq {r : Rows} (hn : Numbered OperationRow.sequence r.operations)
    (after limit : Nat) : operationsAfter after limit r = (r.operations.drop after).take limit := by
  rw [operationsAfter, hn.filter_lt after, hn.drop_sorted after]

theorem auditAfter_eq {r : Rows} (hn : Numbered Audit.sequence r.auditEvents)
    (after limit : Nat) : auditAfter after limit r = (r.auditEvents.drop after).take limit := by
  rw [auditAfter, hn.filter_lt after, hn.drop_sorted after]

/-- **The PostgreSQL adapter returns the page of its table.** -/
theorem collect_exact {r : Rows} (hn : Numbered OperationRow.sequence r.operations)
    (after limit : Nat) :
    ExactPage r.log after limit
      (collect limit { entries := [], cursor := after, more := false }
        (operationsAfter after (limit + 1) r)) := by
  have htake : ((r.operations.drop after).take (limit + 1)).take limit =
      (r.operations.take (min (after + limit) r.operations.length)).drop after := by
    rw [List.take_take, Nat.min_eq_left (Nat.le_succ limit), List.take_drop,
      ← List.take_take, List.take_length]
  rw [collect_eq _ _ _ (Nat.zero_le _), operationsAfter_eq hn]
  simp only [List.length_nil, Nat.sub_zero, List.nil_append, htake, Bool.false_or]
  refine ⟨?_, ?_, ?_⟩
  · simp [Rows.log, List.map_drop, List.map_take]
  · simp only [List.getLast?_map, Option.map_map]
    rfl
  · simp only [Rows.log, List.length_map, List.length_take, List.length_drop, decide_eq_true_eq]
    omega

end Postgres

end Syncraft.Store
