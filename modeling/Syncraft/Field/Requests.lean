import Syncraft.Field.PushBody

/-!
# Syncraft.Field.Requests

The push and the pull as they leave the device: `post('/api/v1/sync/push', …)` and
`get('/api/v1/sync/pull?after=…')`. The server reads of them what was put in (`cursor_pull`,
`readPush_pushBody`).
-/

namespace Syncraft.Field

open Text

namespace ApiClient

/-- `'$i'` -/
def decimal (i : Int) : GoString := toGo (Json.intText i)

/-- The request of `post('/api/v1/sync/push', …)`. -/
def push (c : Carried) (batch : List Operation) : Api.Request :=
  { request c .push with body := pushBody batch }

/-- The request of `get('/api/v1/sync/pull?after=…')`. -/
def pull (c : Carried) (after : Int) : Api.Request :=
  { request c .pull with after := decimal after }

/-! ### The cursor -/

theorem natText_range {n : Nat} : ∀ u ∈ Json.natText n, 0x30 ≤ u.toNat ∧ u.toNat ≤ 0x39 := by
  intro u hu
  simpa [Json.isDigit] using Json.natText_digits n u hu

/-- Digits in ASCII are read as the number that they stand for. -/
theorem digits_of_natText {s : GoString} {n : Nat}
    (h : s.map UInt8.toNat = (Json.natText n).map UInt16.toNat) : Api.digits s = some n := by
  have hne : s ≠ [] := by
    rintro rfl
    exact Json.natText_ne_nil n (List.map_eq_nil_iff.mp h.symm)
  have hrange : ∀ b ∈ s, 0x30 ≤ b.toNat ∧ b.toNat ≤ 0x39 := by
    intro b hb
    have hmem : b.toNat ∈ (Json.natText n).map UInt16.toNat := h ▸ List.mem_map_of_mem hb
    obtain ⟨u, hu, heq⟩ := List.mem_map.mp hmem
    exact heq ▸ natText_range u hu
  have hvalue : s.foldl (fun n b => 10 * n + (b.toNat - 0x30)) 0 = n := by
    calc s.foldl (fun n b => 10 * n + (b.toNat - 0x30)) 0
        = (s.map UInt8.toNat).foldl (fun n d => 10 * n + (d - 0x30)) 0 := by rw [List.foldl_map]
      _ = (Json.natText n).foldl (fun n d => 10 * n + (d.toNat - 48)) 0 := by
          rw [h, List.foldl_map]
      _ = n := Json.natOf_natText n
  rw [Api.digits, if_neg, hvalue]
  rintro (hnil | hany)
  · exact hne hnil
  · obtain ⟨b, hb, hout⟩ := List.any_eq_true.mp hany
    simp only [Bool.or_eq_true, decide_eq_true_eq, UInt8.lt_iff_toNat_lt] at hout
    have := hrange b hb
    rcases hout with hlow | hhigh
    · exact absurd hlow (Nat.not_lt.mpr this.1)
    · exact absurd hhigh (Nat.not_lt.mpr this.2)

theorem toGo_intText (i : Int) :
    (decimal i).map UInt8.toNat = (Json.intText i).map UInt16.toNat := by
  refine toGo_toNat fun u hu => ?_
  have hdigits : ∀ u ∈ Json.natText i.natAbs, u.toNat < 128 := fun u hu => by
    have := natText_range u hu
    omega
  rw [Json.intText] at hu
  split at hu
  · rcases List.mem_cons.mp hu with rfl | hu
    · decide
    · exact hdigits u hu
  · exact hdigits u hu

/-- `ParseInt` reads an integer that fits into 64 bits, and no other. -/
theorem parseInt_decimal (i : Int) : Api.parseInt (decimal i) =
    (some i).filter fun n => -9223372036854775808 ≤ n && n ≤ 9223372036854775807 := by
  have htext := toGo_intText i
  rw [Json.intText] at htext
  -- `map` reads the number as an integer.
  have hread : ∀ {s : GoString} {n : Nat} (f : Int → Int), Api.digits s = some n →
      (do
        let a ← Api.digits s
        pure (a : Int)).map f = some (f n) := by
    intro s n f hs
    rw [hs]
    rfl
  unfold Api.parseInt
  by_cases hneg : i < 0
  · rw [if_pos hneg] at htext
    obtain ⟨b, rest, heq, hb, hrest⟩ := List.map_eq_cons_iff.mp htext
    obtain rfl : b = 0x2D := UInt8.toNat_inj.mp hb
    have habs : -(i.natAbs : Int) = i := by omega
    rw [heq]
    exact congrArg (Option.filter _) ((hread _ (digits_of_natText hrest)).trans (by rw [habs]))
  · rw [if_neg hneg] at htext
    have habs : (i.natAbs : Int) = i := by omega
    have hfirst : ∀ b rest, decimal i = b :: rest → 0x30 ≤ b.toNat := by
      intro b rest heq
      have hmem : b.toNat ∈ (Json.natText i.natAbs).map UInt16.toNat := by
        rw [← htext, heq]
        exact List.mem_cons_self
      obtain ⟨u, hu, hub⟩ := List.mem_map.mp hmem
      exact hub ▸ (natText_range u hu).1
    dsimp only
    split
    · next rest heq => exact absurd (hfirst _ rest heq) (by decide)
    · next rest heq => exact absurd (hfirst _ rest heq) (by decide)
    · rw [hread _ (digits_of_natText htext), habs]

theorem decimal_ne_nil (i : Int) : decimal i ≠ [] := by
  intro hnil
  -- A number has a digit.
  have htext := toGo_intText i
  rw [hnil, Json.intText] at htext
  split at htext
  · cases htext
  · exact Json.natText_ne_nil _ (List.map_eq_nil_iff.mp htext.symm)

/-- **The cursor that the server reads is the one that was sent.** -/
theorem cursor_pull {r : Api.Request} {after n : Int} (hafter : r.after = decimal after)
    (h : Api.cursor r = .ok n) : n = after := by
  rw [Api.cursor, hafter, if_neg (decimal_ne_nil after), parseInt_decimal] at h
  split at h
  · next m hm =>
      obtain rfl := Option.some.inj (Option.filter_eq_some_iff.mp hm).1
      split at h
      · cases h
      · exact (Except.ok.inj h).symm
  · cases h

/-- The server reads it, unless it is too large. -/
theorem cursor_decimal {r : Api.Request} {n : Nat} (hafter : r.after = decimal n)
    (hn : n < 2 ^ 63) : Api.cursor r = .ok n := by
  have hrange : (-9223372036854775808 ≤ (n : Int) && (n : Int) ≤ 9223372036854775807) = true := by
    simp only [Bool.and_eq_true, decide_eq_true_eq]
    omega
  rw [Api.cursor, hafter, if_neg (decimal_ne_nil n), parseInt_decimal, Option.filter_some, hrange]
  exact if_neg (by omega)

end ApiClient

/-! ### The batch -/

/-- The JSON of a push. -/
def pushJson (batch : List Operation) : Json :=
  .obj [(dart "operations", .arr (batch.map fun o : Operation => RecoveryBundle.operationJson o.toJson))]

/-- What the server makes of a document. -/
def operationsOf (json : Json) : Option (List (Domain.Operation GoString)) := do
  let document ← (RecoveryBundle.asMap (some json)).toOption
  let elements ← (RecoveryBundle.asList (Json.member document (dart "operations"))).toOption
  let operations ← (elements.mapM RecoveryBundle.fieldsOf).toOption
  return operations.map fun o => o.map toGo

theorem operationsOf_pushJson (batch : List Operation) :
    operationsOf (pushJson batch) = some (batch.map Operation.toGo) := by
  have hfields : (batch.map fun o : Operation => RecoveryBundle.operationJson o.toJson).mapM
      RecoveryBundle.fieldsOf = .ok (batch.map Operation.toJson) := by
    rw [LocalStore.mapM_ok_iff, List.map_map, List.map_map]
    exact List.map_congr_left fun o _ => RecoveryBundle.fieldsOf_json o.toJson
  show (do
    let operations ← ((batch.map fun o : Operation => RecoveryBundle.operationJson o.toJson).mapM
      RecoveryBundle.fieldsOf).toOption
    return operations.map fun o : Domain.Operation DartString => o.map toGo) = _
  rw [hfields]
  show some ((batch.map Operation.toJson).map _) = _
  rw [List.map_map]
  rfl

/-- A JSON document with `operations`, as the server decodes it: unpaired surrogates are
replaced. -/
def readPush (body : List UInt8) : Option (List (Domain.Operation GoString)) := do
  let text ← (RecoveryBundle.utf8Text body).toOption
  let json ← Json.decode text
  operationsOf json

/-- **The batch that the server reads is the one that was sent.** -/
theorem readPush_pushBody (batch : List Operation) :
    readPush (pushBody batch) = some (batch.map Operation.toGo) := by
  have hhead : (pushJson batch).encode.head? ≠ some 0xFEFF := by
    rw [pushJson, Json.encode]
    simp only [List.head?_cons, ne_eq, Option.some.injEq]
    decide
  have htext : RecoveryBundle.utf8Text (pushBody batch) = .ok (pushJson batch).encode :=
    RecoveryBundle.utf8Text_encode hhead
  rw [readPush, htext]
  simp only [Except.toOption, Option.bind_eq_bind, Option.bind_some, Json.decode_encode,
    operationsOf_pushJson]

end Syncraft.Field
