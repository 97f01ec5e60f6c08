import Syncraft.Field.SyncEngine
import Syncraft.Store.MemoryInvariant

/-!
# Syncraft.System.Poison

The server's `Validate` and the constructor of the field application agree about every operation
but one kind (`validators_agree_iff`): a title or site made of white space and byte order marks,
which the constructor takes for blank and `Validate` does not. Once such an operation is in a
log, no device can read on (`unreadable_stops_page`).
-/

namespace Syncraft.System

open Syncraft.Field Text
open Domain (Valid validate validate_ok_iff)

/-! ### Reading a log -/

/-- The device can read the operation. -/
def Readable (q : Domain.Operation GoString) : Prop :=
  ∃ json o, jsonDecode (Api.encodeOperation q) = some json ∧ fromJson json = .ok o

theorem fromJson_ok_iff {json : Domain.Operation DartString} :
    (∃ o, fromJson json = .ok o) ↔ Accepted json := by
  constructor
  · rintro ⟨o, ho⟩
    exact Operation.of_new ho ▸ o.accepted
  · intro h
    exact ⟨_, Operation.new_ok h⟩

theorem readable_utf8Op {o : Domain.Operation (List Char)} :
    Readable (utf8Op o) ↔ Accepted (utf16Op o) := by
  rw [Readable, jsonDecode_encodeOperation, ← fromJson_ok_iff]
  simp

/-- **What the server admits is readable unless it is poison.** -/
theorem readable_iff {o : Domain.Operation (List Char)} (h : Valid (utf8Op o)) :
    Readable (utf8Op o) ↔ ¬ Poison o := by
  rw [readable_utf8Op, ← valid_not_accepted_iff, not_and, not_not]
  exact ⟨fun ha _ => ha, fun ha => ha h⟩

/-- **A log can be read when there is no poison in it.** -/
theorem log_readable_iff {s : Store.Space} (h : s.Reachable) :
    (∀ q ∈ s.ops, Readable q) ↔ ∀ o, utf8Op o ∈ s.ops → ¬ Poison o := by
  constructor
  · intro hall o ho
    exact (readable_iff (h.inv.valid _ ho)).mp (hall _ ho)
  · intro hno q hq
    obtain ⟨o, rfl⟩ := exists_utf8Op (h.inv.valid q hq)
    exact (readable_iff (h.inv.valid _ hq)).mpr (hno o hq)

theorem exists_of_mapM {α β : Type} {f : α → Option β} {xs : List α} {ys : List β}
    (h : xs.mapM f = some ys) {x : α} (hx : x ∈ xs) : ∃ y ∈ ys, f x = some y := by
  induction xs generalizing ys with
  | nil => cases hx
  | cons a rest ih =>
      rw [List.mapM_cons, Option.bind_eq_bind, Option.bind_eq_some_iff] at h
      obtain ⟨y, hy, h⟩ := h
      simp only [Option.bind_eq_bind, Option.bind_eq_some_iff] at h
      obtain ⟨zs, hzs, h⟩ := h
      obtain rfl := Option.some.inj h
      rcases List.mem_cons.mp hx with rfl | hx
      · exact ⟨y, List.mem_cons_self, hy⟩
      · obtain ⟨z, hz, hxz⟩ := ih hzs hx
        exact ⟨z, List.mem_cons_of_mem _ hz, hxz⟩

/-- **A page with an operation that cannot be read is never applied.** -/
theorem unreadable_stops_page {created : Domain.Entry → DartString} {page : Domain.Page}
    {received : Page} (hrec : receivePage created page = some received) {e : Domain.Entry}
    (he : e ∈ page.entries) (hnot : ¬ Readable e.operation) (s s' : LocalStore) :
    s.applyPage received ≠ .ok s' := by
  intro happly
  rw [receivePage, Option.bind_eq_bind, Option.bind_eq_some_iff] at hrec
  obtain ⟨entries, hentries, hreceived⟩ := hrec
  obtain rfl := Option.some.inj hreceived
  obtain ⟨r, hr, her⟩ := exists_of_mapM hentries he
  obtain ⟨o, ho⟩ := LocalStore.applyPage_reads happly r hr
  -- The entry was decoded, so its operation was.
  rw [receiveEntry, Option.bind_eq_bind, Option.bind_eq_some_iff] at her
  obtain ⟨actor, -, her⟩ := her
  simp only [Option.bind_eq_bind, Option.bind_eq_some_iff] at her
  obtain ⟨json, hjson, her⟩ := her
  obtain rfl := Option.some.inj her
  exact hnot ⟨json, o, hjson, ho⟩

/-! ### A title that is a byte order mark -/

def markTitle : Domain.Operation (List Char) :=
  { id := "0b000000-0000-4000-8000-000000000009".toList
    record := "0c000000-0000-4000-8000-000000000001".toList
    field := "title".toList, value := ['\uFEFF'], parents := [] }

/-- The workspace once the tablet has pushed it. -/
def marked : Store.Space :=
  (Store.started.push Store.tablet.id Store.tablet.actor [utf8Op markTitle]).2

theorem marked_reachable : marked.Reachable :=
  Store.started_reachable.tail
    (Store.Space.Step.write (.push Store.tablet.id Store.tablet.actor [utf8Op markTitle]) trivial)

theorem marked_ops : marked.ops = [utf8Op markTitle] := by decide

theorem valid_markTitle : validate (utf8Op markTitle) = .ok () := by decide

theorem check_markTitle : check (utf16Op markTitle) = .error (.format "A value is required") := by
  decide

theorem not_readable_markTitle : ¬ Readable (utf8Op markTitle) := by
  rw [readable_utf8Op, ← check_ok_iff, check_markTitle]
  exact fun h => by cases h

/-! ### Results -/

/-- **The validators agree exactly on what is not poison**, and an entry of a log is read exactly
when it is not poison. -/
theorem validators_agree_iff (o : Domain.Operation (List Char)) :
    ((validate (utf8Op o) = .ok () ↔ check (utf16Op o) = .ok ()) ↔ ¬ Poison o) ∧
      ∀ s : Store.Space, s.Reachable → utf8Op o ∈ s.ops → (Readable (utf8Op o) ↔ ¬ Poison o) := by
  refine ⟨?_, fun s hs hmem => readable_iff (hs.inv.valid _ hmem)⟩
  rw [validate_ok_iff, check_ok_iff, ← valid_not_accepted_iff]
  constructor
  · exact fun h hno => hno.2 (h.mp hno.1)
  · exact fun h => ⟨fun hv => not_not.mp fun ha => h ⟨hv, ha⟩, valid_of_accepted⟩

/-- The log of the workspace that took the title holds an entry no device can read. -/
theorem validators_agree_run :
    marked.Reachable ∧ utf8Op markTitle ∈ marked.ops ∧ ¬ Readable (utf8Op markTitle) := by
  have hmem : utf8Op markTitle ∈ marked.ops := by simp only [marked_ops]; exact List.mem_cons_self
  have hpoison : Poison markTitle := by
    refine valid_not_accepted_iff.mp ⟨validate_ok_iff.mp valid_markTitle, ?_⟩
    rw [← readable_utf8Op]
    exact not_readable_markTitle
  refine ⟨marked_reachable, hmem, fun hread => ?_⟩
  exact ((validators_agree_iff markTitle).2 marked marked_reachable hmem).mp hread hpoison

/-- **The validators do not agree**: the server stores a title that the constructor refuses, and
no device can apply the page that brings it. -/
theorem mark_title_stops_page :
    (¬ ∀ o : Domain.Operation (List Char),
      validate (utf8Op o) = .ok () ↔ check (utf16Op o) = .ok ()) ∧
    ∃ page, marked.pull 0 100 = .ok page ∧ ∀ created received s s',
      receivePage created page = some received → LocalStore.applyPage s received ≠ .ok s' := by
  constructor
  · intro h
    have hcheck := (h markTitle).mp valid_markTitle
    simp only [check_markTitle] at hcheck
    cases hcheck
  · obtain ⟨e, he⟩ : ∃ e, marked.entries = [e] := List.length_eq_one_iff.mp (by decide)
    have hop : e.operation = utf8Op markTitle := by
      have hops := marked_ops
      rw [Store.Space.ops, he] at hops
      exact (List.cons.inj hops).1
    refine ⟨{ entries := [e], cursor := 1, more := false }, ?_, fun created received s s' hrec => ?_⟩
    · rw [Store.Space.pull, he]
      rfl
    · exact unreadable_stops_page hrec List.mem_cons_self (hop ▸ not_readable_markTitle) s s'

end Syncraft.System
