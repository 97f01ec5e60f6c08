import Mathlib.Data.List.Basic
import Mathlib.Logic.Relation

/-!
# Syncraft.Library.Pager

**Reading a log page by page while it grows.** A reader has some rows and asks for those that come
after them; an answer is a page of the log as it was at some moment since, and it may not come. A
page that is not full is taken for the last one.

The rows are always a prefix of the log (`Inv`), and the log is read to its end if it stays as it
is (`exists_read`).
-/

namespace Syncraft.Library

variable {α : Type}

/-- The page of a log that comes after `n` rows. -/
def page (limit : Nat) (log : List α) (n : Nat) : List α := (log.drop n).take limit

theorem append_page_initial (limit : Nat) {rows log : List α} (h : rows <+: log) :
    rows ++ page limit log rows.length <+: log := by
  obtain ⟨rest, rfl⟩ := h
  rw [page, List.drop_left]
  exact (List.prefix_append_right_inj rows).mpr (List.take_prefix limit rest)

/-- A page that is not full is the last. -/
theorem append_page_eq {limit : Nat} {rows log : List α} (h : rows <+: log)
    (hshort : (page limit log rows.length).length ≠ limit) :
    rows ++ page limit log rows.length = log := by
  obtain ⟨rest, rfl⟩ := h
  rw [page, List.drop_left] at hshort ⊢
  rw [List.length_take] at hshort
  rw [List.take_of_length_le (by omega)]

/-- A reader, and the log. -/
structure Pager (α : Type) where
  log : List α
  rows : List α
  /-- Was the last page full? -/
  more : Bool
  /-- A page is awaited. -/
  reading : Bool
  /-- The answers to the question that is open. -/
  pages : List (List α)
  /-- How long the log was when the last question was asked. -/
  asked : Nat

namespace Pager

/-- Nothing has been read. -/
def new (log : List α) : Pager α :=
  { log, rows := [], more := true, reading := false, pages := [], asked := 0 }

inductive Step (limit : Nat) (s : Pager α) : Pager α → Prop where
  | grow (log : List α) : s.log <+: log → Step limit s { s with log }
  | ask : s.reading = false → s.more = true →
      Step limit s { s with reading := true, pages := [], asked := s.log.length }
  | answer : s.reading = true →
      Step limit s { s with pages := s.pages ++ [page limit s.log s.rows.length] }
  | turn (p : List α) : s.reading = true → p ∈ s.pages →
      Step limit s
        { s with rows := s.rows ++ p, more := decide (p.length = limit), reading := false }
  | fail : s.reading = true → Step limit s { s with reading := false }

/-- What has been read. -/
structure Inv (limit : Nat) (s : Pager α) : Prop where
  rows : s.rows <+: s.log
  asked : s.asked ≤ s.log.length
  pages : s.reading = true → ∀ p ∈ s.pages, ∃ log, log <+: s.log ∧ s.rows <+: log ∧
    s.asked ≤ log.length ∧ p = page limit log s.rows.length
  reading : s.reading = true → s.more = true
  /-- What was there when the last question was asked has been read. -/
  last : s.more = false → s.asked ≤ s.rows.length

variable {limit : Nat} {s s' : Pager α}

theorem Inv.new (log : List α) : Inv limit (new log) where
  rows := List.nil_prefix
  asked := Nat.zero_le _
  pages h := by cases h
  reading h := by cases h
  last h := by cases h

theorem Inv.step (h : Inv limit s) (hstep : Step limit s s') : Inv limit s' := by
  cases hstep with
  | grow log hgrow =>
      refine
        { h with
          rows := h.rows.trans hgrow
          asked := Nat.le_trans h.asked hgrow.length_le
          pages := fun hr p hp => ?_ }
      obtain ⟨old, hold, hrest⟩ := h.pages hr p hp
      exact ⟨old, hold.trans hgrow, hrest⟩
  | ask hreading hmore =>
      exact
        { rows := h.rows
          asked := Nat.le_refl _
          pages := fun _ p hp => by cases hp
          reading := fun _ => hmore
          last := fun hlast => absurd (hmore.symm.trans hlast) (by decide) }
  | answer hreading =>
      refine { h with pages := fun hr p hp => ?_ }
      rcases List.mem_append.mp hp with hp | hp
      · exact h.pages hr p hp
      · obtain rfl := List.mem_singleton.mp hp
        exact ⟨s.log, List.prefix_rfl, h.rows, h.asked, rfl⟩
  | turn p hreading hp =>
      obtain ⟨log, hlog, hrows, hasked, rfl⟩ := h.pages hreading p hp
      exact
        { rows := (append_page_initial limit hrows).trans hlog
          asked := h.asked
          pages := fun hr => by cases hr
          reading := fun hr => by cases hr
          last := fun hmore => by
            rw [append_page_eq hrows (of_decide_eq_false hmore)]
            exact hasked }
  | fail hreading =>
      exact
        { rows := h.rows
          asked := h.asked
          pages := fun hr => by cases hr
          reading := fun hr => by cases hr
          last := h.last }

/-- **The log is read to its end**, if it stays as it is and the answers come. -/
theorem exists_read (hlimit : 0 < limit) (h : Inv limit s) (hreading : s.reading = false)
    (hmore : s.more = true) :
    ∃ s', Relation.ReflTransGen (fun t t' => Step limit t t' ∧ t'.log = t.log) s s' ∧
      s'.log = s.log ∧ s'.rows = s.log ∧ s'.more = false := by
  -- By induction on what has not been read; each full page takes from it.
  induction hn : s.log.length - s.rows.length using Nat.strongRecOn generalizing s with
  | ind n ih =>
      let p := page limit s.log s.rows.length
      let asking : Pager α := { s with reading := true, pages := [], asked := s.log.length }
      let answered : Pager α := { asking with pages := [p] }
      let turned : Pager α :=
        { answered with rows := s.rows ++ p, more := decide (p.length = limit), reading := false }
      have h₁ : Step limit s asking := .ask hreading hmore
      have h₂ : Step limit asking answered := .answer rfl
      have h₃ : Step limit answered turned := .turn p rfl (List.mem_singleton_self p)
      have hsteps : Relation.ReflTransGen (fun t t' => Step limit t t' ∧ t'.log = t.log) s turned :=
        .tail (.tail (.single ⟨h₁, rfl⟩) ⟨h₂, rfl⟩) ⟨h₃, rfl⟩
      by_cases hfull : p.length = limit
      · have hprefix := (append_page_initial limit h.rows).length_le
        rw [List.length_append] at hprefix
        change s.rows.length + p.length ≤ _ at hprefix
        have hless : s.log.length - (s.rows ++ p).length < n := by
          rw [List.length_append]
          omega
        obtain ⟨s', hmoreSteps, hlog, hrest⟩ :=
          ih _ hless (((h.step h₁).step h₂).step h₃) rfl (decide_eq_true hfull) rfl
        exact ⟨s', hsteps.trans hmoreSteps, hlog, hrest⟩
      · exact ⟨turned, hsteps, rfl, append_page_eq h.rows hfull, decide_eq_false hfull⟩

end Pager

end Syncraft.Library
