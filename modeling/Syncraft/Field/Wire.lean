import Syncraft.Library.CausalMap
import Syncraft.Field.Validators

/-!
# Syncraft.Field.Wire

An operation between the field application and the server. It travels as JSON: pushed by
`SyncEngine.synchronize`, decoded by the handlers of `internal/api/server.go`, and encoded by
them again in a page.

The server reads an operation as `Operation.toGo`, whatever its value (`decodeOperation_sent`),
and admits it (`valid_toGo`). What the server holds in UTF-8 comes back as the same text
(`jsonDecode_encodeOperation`), so an operation whose value is well formed comes back as it
was stored on the device (`received`). On those operations the field application and the
server mean the same by a causal log (`wire`).
-/

namespace Syncraft

open Text JsonText CausalLog

namespace Api

/-- `decode`, an operation of a push request. -/
def decodeOperation (text : Domain.Operation Literal) : Option (Domain.Operation GoString) :=
  text.traverse bytesOf

/-- `write`, the operation of an entry. -/
def encodeOperation (o : Domain.Operation GoString) : Domain.Operation Literal := o.map bytesLiteral

end Api

namespace Field

open Domain (sortStrings sortStrings_perm uuidPattern_chars idChar_lt Valid equivalent)

/-! ### From the device to the server -/

/-- A string as the server reads it: U+FFFD stands in for an unpaired surrogate. -/
def toGo (s : DartString) : GoString := utf8Encode (utf16Lossy s)

theorem length_toGo_le (s : DartString) : (toGo s).length ≤ 4 * s.length := by
  have hchars : (utf16Lossy s).length ≤ s.length := by
    rw [utf16Lossy, List.length_map]
    exact length_runes_le s
  have hbytes := length_utf8Encode_le (utf16Lossy s)
  rw [toGo]
  omega

/-- The operation as the server reads it. -/
def Operation.toGo (o : Operation) : Domain.Operation GoString := o.toJson.map Field.toGo

/-- The texts the server reads. -/
def Operation.text (o : Operation) : Domain.Operation (List Char) := o.toJson.map utf16Lossy

theorem toGo_eq (o : Operation) : o.toGo = utf8Op o.text := by
  simp [Operation.toGo, Operation.text, utf8Op, Domain.Operation.map, Function.comp_def, toGo]

/-- What the push handler decodes. -/
theorem decodeOperation_sent (o : Operation) :
    Api.decodeOperation (jsonEncode o.toJson) = some o.toGo :=
  traverse_map fun s _ => bytesOf_unitsLiteral s

/-- A sequence of ASCII units is well formed. -/
theorem wellFormed_ascii {us : List UInt16} (h : ∀ u ∈ us, u.toNat < 128) : WellFormed us := by
  induction us with
  | nil => simp [WellFormed, runes]
  | cons u us ih =>
      have hu := h u List.mem_cons_self
      have hlead : isLead u = false := by
        simp only [Bool.eq_false_iff, ne_eq, isLead_iff]; omega
      have htrail : isTrail u = false := by
        simp only [Bool.eq_false_iff, ne_eq, isTrail_iff]; omega
      intro r hr
      rw [runes_cons hlead, List.mem_cons] at hr
      rcases hr with rfl | hr
      · simp [Rune.ofUnit, hlead, htrail, Rune.isScalar]
      · exact ih (fun v hv => h v (List.mem_cons_of_mem _ hv)) r hr

theorem wellFormed_id {s : DartString} (h : idPattern s = true) : WellFormed s :=
  wellFormed_ascii fun _ hu => idChar_lt (uuidPattern_chars h _ (List.mem_map_of_mem hu))

theorem wellFormed_dart (s : String) : WellFormed (dart s) := wellFormed_utf16Encode _

theorem wellFormed_field {s : DartString} {n : Nat} (h : fieldLimits.lookup s = some n) :
    WellFormed s := by
  have hall : ∀ f ∈ fieldLimits.map Prod.fst, WellFormed f := by
    intro f hf
    simp only [fieldLimits, List.map_cons, List.map_nil, List.mem_cons, List.not_mem_nil,
      or_false] at hf
    rcases hf with rfl | rfl | rfl | rfl | rfl | rfl | rfl | rfl | rfl <;>
      exact wellFormed_dart _
  exact hall s (mem_of_lookup h)

/-- Strings without unpaired surrogates are kept apart. -/
theorem toGo_inj {a b : DartString} (ha : WellFormed a) (hb : WellFormed b) :
    toGo a = toGo b ↔ a = b := by
  constructor
  · intro h
    have htext := utf8Encode_injective h
    rw [← utf16Encode_utf16Lossy ha, ← utf16Encode_utf16Lossy hb, htext]
  · exact congrArg toGo

theorem Operation.id_wellFormed (o : Operation) : WellFormed o.id := wellFormed_id o.accepted.id

theorem Operation.record_wellFormed (o : Operation) : WellFormed o.record :=
  wellFormed_id o.accepted.record

theorem Operation.field_wellFormed (o : Operation) : WellFormed o.field := by
  obtain ⟨n, hn, -⟩ := o.accepted.limit
  exact wellFormed_field hn

theorem Operation.parent_wellFormed (o : Operation) {p : DartString} (hp : p ∈ o.parents) :
    WellFormed p :=
  wellFormed_id (o.accepted.parents p hp).1

/-- The texts of an operation, in UTF-16: only its value can differ. -/
theorem utf16Op_text (o : Operation) :
    utf16Op o.text = { o.toJson with value := utf16Encode (utf16Lossy o.value) } := by
  have hps : ((sortStrings o.parents).map utf16Lossy).map utf16Encode = sortStrings o.parents := by
    simp only [List.map_map]
    refine (List.map_congr_left fun p hp => ?_).trans (List.map_id _)
    exact utf16Encode_utf16Lossy (o.parent_wellFormed ((sortStrings_perm _).mem_iff.mp hp))
  simp only [utf16Op, Operation.text, Operation.toJson, Domain.Operation.map,
    utf16Encode_utf16Lossy o.id_wellFormed, utf16Encode_utf16Lossy o.record_wellFormed,
    utf16Encode_utf16Lossy o.field_wellFormed, hps]

/-- A blank string has no unpaired surrogate: U+FFFD is not white space. -/
theorem wellFormed_of_blank {us : List UInt16} (h : trim (utf16Encode (utf16Lossy us)) = []) :
    WellFormed us := by
  intro r hr
  cases r with
  | scalar c => rfl
  | unpaired u =>
      have hmem : '\uFFFD' ∈ utf16Lossy us := List.mem_map.mpr ⟨_, hr, rfl⟩
      exact absurd ((trim_eq_nil _).mp h _ hmem) (by decide)

/-- Replacing unpaired surrogates leaves an operation acceptable. -/
theorem accepted_text (o : Operation) : Accepted (utf16Op o.text) := by
  have h : Accepted o.toJson := o.stored.accepted
  simp only [utf16Op_text]
  have hkeep : ∀ {s : DartString}, WellFormed s → o.value = s →
      utf16Encode (utf16Lossy o.value) = s := by
    rintro s hs rfl
    exact utf16Encode_utf16Lossy hs
  exact { h with
    limit := by
      obtain ⟨n, hn, hlen⟩ := h.limit
      exact ⟨n, hn, by simp only [utf8Length_utf16Encode]; exact hlen⟩
    text := by
      intro hf hblank
      refine h.text hf ?_
      have hv := utf16Encode_utf16Lossy (wellFormed_of_blank hblank)
      dsimp only at hblank
      rwa [hv] at hblank
    status := by
      intro hf
      rcases h.status hf with hv | hv | hv
      · exact Or.inl (hkeep (wellFormed_dart _) hv)
      · exact Or.inr (Or.inl (hkeep (wellFormed_dart _) hv))
      · exact Or.inr (Or.inr (hkeep (wellFormed_dart _) hv))
    priority := by
      intro hf
      rcases h.priority hf with hv | hv | hv
      · exact Or.inl (hkeep (wellFormed_dart _) hv)
      · exact Or.inr (Or.inl (hkeep (wellFormed_dart _) hv))
      · exact Or.inr (Or.inr (hkeep (wellFormed_dart _) hv))
    checkbox := by
      intro hf
      rcases h.checkbox hf with hv | hv
      · exact Or.inl (hkeep (wellFormed_dart _) hv)
      · exact Or.inr (hkeep (wellFormed_dart _) hv) }

/-- **The server admits every operation of the field application.** -/
theorem valid_toGo (o : Operation) : Valid o.toGo := by
  simp only [toGo_eq]
  exact valid_of_accepted (accepted_text o)

/-! ### From the server to the device -/

/-- What the device decodes of an operation the server holds. -/
theorem jsonDecode_encodeOperation (o : Domain.Operation (List Char)) :
    jsonDecode (Api.encodeOperation (utf8Op o)) = some (utf16Op o) := by
  have h := traverse_map (f := fun cs => bytesLiteral (utf8Encode cs)) (g := unitsOf)
    (k := utf16Encode) (o := o) fun cs _ => unitsOf_bytesLiteral cs
  rw [jsonDecode, Api.encodeOperation, utf8Op, utf16Op, ← h]
  simp [Domain.Operation.map, Function.comp_def]

/-- What the device decodes of its own operation. -/
theorem jsonDecode_toGo {o : Operation} (h : WellFormed o.value) :
    jsonDecode (Api.encodeOperation o.toGo) = some o.toJson := by
  rw [toGo_eq, jsonDecode_encodeOperation, utf16Op_text, utf16Encode_utf16Lossy h]
  rfl

/-- **A well-formed operation comes back as it was stored.** -/
theorem received {o : Operation} (h : WellFormed o.value) :
    (jsonDecode (Api.encodeOperation o.toGo)).map fromJson = some (.ok o.stored) := by
  rw [jsonDecode_toGo h, Option.map_some, fromJson_toJson]

/-! ### One causal log, held twice -/

theorem toGo_parents_nodup (o : Operation) : o.toGo.parents.Nodup := (valid_toGo o).nodup

theorem mem_toGo_parents {o : Operation} {p : GoString} :
    p ∈ o.toGo.parents ↔ ∃ q ∈ o.parents, toGo q = p := by
  show p ∈ (sortStrings o.parents).map toGo ↔ _
  simp only [List.mem_map]
  simp only [(sortStrings_perm o.parents).mem_iff]

/-- Two operations with well-formed values are one for the server when they are one for the
field application. -/
theorem same_toGo_iff {a b : Operation} (ha : WellFormed a.value) (hb : WellFormed b.value) :
    Same a.toGo b.toGo ↔ Same a b := by
  simp only [Domain.same_iff, Domain.equivalent_iff, same_iff, equivalent_iff]
  have hps : a.toGo.parents.Perm b.toGo.parents ↔ a.parents.Perm b.parents := by
    rw [List.perm_ext_iff_of_nodup (toGo_parents_nodup a) (toGo_parents_nodup b),
      List.perm_ext_iff_of_nodup a.accepted.nodup b.accepted.nodup]
    constructor
    · intro h p
      have half : ∀ {x y : Operation}, (∀ q, q ∈ x.toGo.parents → q ∈ y.toGo.parents) →
          p ∈ x.parents → p ∈ y.parents := by
        intro x y hxy hp
        obtain ⟨q, hq, hqp⟩ := mem_toGo_parents.mp (hxy _ (mem_toGo_parents.mpr ⟨p, hp, rfl⟩))
        rwa [(toGo_inj (y.parent_wellFormed hq) (x.parent_wellFormed hp)).mp hqp] at hq
      exact ⟨half fun q => (h q).mp, half fun q => (h q).mpr⟩
    · intro h q
      simp only [mem_toGo_parents]
      simp only [h]
  rw [hps]
  exact and_congr (toGo_inj a.id_wellFormed b.id_wellFormed)
    (and_congr (toGo_inj a.record_wellFormed b.record_wellFormed)
      (and_congr (toGo_inj a.field_wellFormed b.field_wellFormed)
        (and_congr (toGo_inj ha hb) Iff.rfl)))

/-- **The two programs agree on causal logs**, as long as values are well formed. -/
theorem wire : Embedding Operation.toGo toGo fun o : Operation => WellFormed o.value where
  key _ := rfl
  parents o p := mem_toGo_parents
  key_inj a b h := (toGo_inj a.id_wellFormed b.id_wellFormed).mp h
  parent_inj a b p hp h := (toGo_inj a.id_wellFormed (b.parent_wellFormed hp)).mp h
  scope a b := by
    simp only [Domain.sameScope_iff, sameScope_iff]
    exact and_congr (toGo_inj a.record_wellFormed b.record_wellFormed)
      (toGo_inj a.field_wellFormed b.field_wellFormed)
  same _ _ := same_toGo_iff

/-- Equivalent operations are sent as one. -/
theorem toGo_of_same {a b : Operation} (h : Same a b) : a.toGo = b.toGo := by
  rw [Operation.toGo, Operation.toGo, toJson_of_same h]

@[simp] theorem toGo_stored (o : Operation) : o.stored.toGo = o.toGo :=
  (toGo_of_same (same_stored o)).symm

end Field

end Syncraft
