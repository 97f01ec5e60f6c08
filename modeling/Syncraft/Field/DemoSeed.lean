import Syncraft.Field.LocalStore

/-!
# Syncraft.Field.DemoSeed

`lib/data/demo_seed.dart`: four inspections with fixed IDs, the same on every device.
-/

namespace Syncraft.Field

/-- `n.toString().padLeft(12, '0')` -/
def padded (n : Nat) : List Char :=
  let digits := Nat.toDigits 10 n
  List.replicate (12 - digits.length) '0' ++ digits

/-- `records` -/
def demoRecords : List (List String) :=
  [["Pump station inspection", "North waterworks", "in_progress", "high",
      "Pressure gauge fluctuates during startup. Photograph seal and confirm isolation."],
    ["Emergency access review", "Riverside depot", "draft", "critical",
      "Confirm the east service gate is accessible before the evening delivery."],
    ["Cold room handover", "Harbor stores", "complete", "normal",
      "Temperature remained stable through the observation window."],
    ["Roof drainage survey", "Central library", "in_progress", "normal",
      "Inspect debris around the south outlet after rain."]]

/-- Record, field and value of every operation, in the order of the loops. -/
def demoEdits : List (List Char × String × String) :=
  demoRecords.zipIdx.flatMap fun (values, i) =>
    let record := "10000000-0000-4000-8000-".toList ++ padded (i + 1)
    (["title", "site", "status", "priority", "notes"].zip values).map (fun (f, v) => (record, f, v)) ++
      ["check.safety", "check.equipment", "check.access"].map fun f =>
        (record, f, if i = 2 then "true" else "false")

/-- What the constructor is called with, numbered by `sequence`. -/
def demoRows : List (Domain.Operation DartString) :=
  demoEdits.zipIdx.map fun ((record, field, value), i) =>
    { id := Text.utf16Encode ("20000000-0000-4000-8000-".toList ++ padded (i + 1))
      record := Text.utf16Encode record, field := dart field, value := dart value, parents := [] }

/-- `operations` -/
def demoSeed : Except Exn (List Operation) := demoRows.mapM Operation.new

/-- `loadDemo` -/
def loadDemo (s : LocalStore) (now : Operation → DartString) : Except Exn LocalStore := do
  let existing ← s.operations
  if existing ≠ [] then return s
  let operations ← demoSeed
  s.save operations now

/-- The constructor accepts the demonstration. -/
theorem demoSeed_ok : ∃ ops, demoSeed = .ok ops ∧ ops.length = 32 := by
  have h : (demoSeed.toOption.map List.length) = some 32 := by decide +kernel
  cases hs : demoSeed with
  | error e => rw [hs] at h; cases h
  | ok ops =>
      rw [hs] at h
      exact ⟨ops, rfl, Option.some.inj h⟩

/-- The operations are what the constructor was called with. -/
theorem demoSeed_rows {ops : List Operation} (h : demoSeed = .ok ops) :
    ops.map Operation.toOperation = demoRows := by
  have read : ∀ {rows : List (Domain.Operation DartString)} {ops : List Operation},
      rows.map Operation.new = ops.map .ok → ops.map Operation.toOperation = rows := by
    intro rows
    induction rows with
    | nil =>
        intro ops h
        rw [List.map_eq_nil_iff.mp h.symm]
        rfl
    | cons row rows ih =>
        intro ops h
        obtain ⟨o, ops, rfl⟩ := List.exists_cons_of_ne_nil (l := ops) (by rintro rfl; cases h)
        simp only [List.map_cons, List.cons.injEq] at h
        rw [List.map_cons, Operation.of_new h.1, ih h.2]
  exact read (LocalStore.mapM_ok_iff.mp h)

/-- Their values are texts. -/
theorem demoSeed_wellFormed {ops : List Operation} (h : demoSeed = .ok ops) :
    ∀ o ∈ ops, Text.WellFormed o.value := by
  intro o ho
  have hmem : o.toOperation ∈ demoRows := demoSeed_rows h ▸ List.mem_map_of_mem ho
  obtain ⟨row, -, hrow⟩ := List.mem_map.mp hmem
  rw [← hrow]
  exact Text.wellFormed_utf16Encode _

end Syncraft.Field
