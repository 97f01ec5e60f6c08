import Syncraft.Field.ApiClient
import Syncraft.Field.Engine

/-!
# Syncraft.Field.Decoding

What `synchronize` reads of the server's responses. `Platform.result` and `Platform.pageOf` say
what the engine makes of any JSON; here it is the JSON that `write` has made of a response, and the
page that is read is that of `receivePage` (`pageOf_pageJson`).

The numbers of a page have to be such that a double holds them: on the web there are no others.
-/

namespace Syncraft.Field

open Text JsonText

/-! ### The server's JSON -/

/-- A string of the server, as a device reads it. -/
def textOf (s : GoString) : DartString := (utf8Runes s).flatMap readUnits

theorem fromGo_eq (s : GoString) : fromGo s = some (textOf s) := unitsOf_bytes s

/-- What a device reads is a text: there are no unpaired surrogates. -/
theorem wellFormed_textOf (s : GoString) : WellFormed (textOf s) := by
  have hunits : textOf s = utf16Encode ((utf8Runes s).map fun c => c.getD '\uFFFD') := by
    rw [textOf, utf16Encode, List.flatMap_map]
    refine List.flatMap_congr fun c _ => ?_
    cases c with
    | none => rfl
    | some c => rfl
  rw [hunits]
  exact wellFormed_utf16Encode _

/-- An entry. `created` is its stamp. -/
def entryJson (created : Domain.Entry → DartString) (e : Domain.Entry) : Json :=
  .obj [(dart "sequence", .int e.sequence), (dart "device", .str (textOf e.device)),
    (dart "actor", .str (textOf e.actor)), (dart "created", .str (created e)),
    (dart "operation", RecoveryBundle.operationJson (e.operation.map textOf))]

/-- A page. -/
def pageJson (created : Domain.Entry → DartString) (page : Domain.Page) : Json :=
  .obj [(dart "entries", .arr (page.entries.map (entryJson created))),
    (dart "cursor", .int page.cursor), (dart "more", .bool page.more)]

/-- The JSON of the responses that `synchronize` reads. -/
def bodyJson (created : Domain.Entry → DartString) : Api.Body → Option Json
  | .cursor n => some (.obj [(dart "cursor", .int n)])
  | .page page => some (pageJson created page)
  | .error message => some (.obj [(dart "error", .str (dart message))])
  | _ => none

/-- A double holds the number. -/
def Exact (n : Nat) : Prop := n < 2 ^ 53

/-- A double holds every number of the page. -/
structure ExactPage (page : Domain.Page) : Prop where
  cursor : Exact page.cursor
  entries : ∀ e ∈ page.entries, Exact e.sequence

/-- The platform does with numbers and texts what Dart documents. -/
structure Platform.Sound (p : Platform) : Prop where
  asInt : ∀ n : Nat, Exact n → p.asInt { mantissa := n, exponent := 0 } = some (n : Int)
  sameInt : ∀ n : Nat, Exact n → p.sameInt { mantissa := n, exponent := 0 } = some (n : Int)
  column : ∀ s, WellFormed s → p.column (.str s) = some s
  text : ∀ s, p.text (.str s) = s

/-! ### Reading it -/

section Reading

variable {p : Platform} {created : Domain.Entry → DartString}

theorem jsonDecode_textOf (o : Domain.Operation GoString) :
    jsonDecode (Api.encodeOperation o) = some (o.map textOf) :=
  traverse_map fun s _ => unitsOf_bytes s

/-- What `receiveEntry` makes of an entry. -/
theorem receiveEntry_eq (created : Domain.Entry → DartString) (e : Domain.Entry) :
    receiveEntry created e = some
      { sequence := some e.sequence, actor := some (textOf e.actor), created := some (created e),
        operation := e.operation.map textOf } := by
  rw [receiveEntry, jsonDecode_textOf]
  show (do
    let actor ← fromGo e.actor
    _) = _
  rw [fromGo_eq]
  rfl

theorem entryOf_entryJson (hp : p.Sound) (hcreated : ∀ e, WellFormed (created e))
    {e : Domain.Entry} (he : Exact e.sequence) :
    p.entryOf (entryJson created e) = .ok
      { sequence := some e.sequence, actor := some (textOf e.actor), created := some (created e),
        operation := e.operation.map textOf } := by
  have hfields := RecoveryBundle.fieldsOf_json (e.operation.map textOf)
  have hsequence := hp.sameInt e.sequence he
  have hcolumn : ∀ s, WellFormed s → p.columnOf (some (.str s)) = .ok (some s) := by
    intro s hs
    simp only [Platform.columnOf, hp.column s hs]
  show (do
    let operation ← RecoveryBundle.fieldsOf (RecoveryBundle.operationJson (e.operation.map textOf))
    let actor ← p.columnOf (some (.str (textOf e.actor)))
    let created ← p.columnOf (some (.str (created e)))
    return { sequence := p.sameInt { mantissa := e.sequence, exponent := 0 }, actor, created,
             operation } : Except Exn PageEntry) = _
  rw [hfields, hsequence, hcolumn _ (wellFormed_textOf _), hcolumn _ (hcreated e)]
  rfl

/-- **The page that the engine reads is the one that was sent.** -/
theorem pageOf_pageJson (hp : p.Sound) (hcreated : ∀ e, WellFormed (created e))
    {page : Domain.Page} (hexact : ExactPage page) :
    ∃ received, p.pageOf (pageJson created page) = .ok received ∧
      receivePage created page = some received ∧ received.more = page.more := by
  let read (e : Domain.Entry) : PageEntry :=
    { sequence := some e.sequence, actor := some (textOf e.actor), created := some (created e),
      operation := e.operation.map textOf }
  have hentries : (page.entries.map (entryJson created)).mapM p.entryOf =
      .ok (page.entries.map read) := by
    rw [LocalStore.mapM_ok_iff, List.map_map, List.map_map]
    exact List.map_congr_left fun e he => entryOf_entryJson hp hcreated (hexact.entries e he)
  have hreceived : page.entries.mapM (receiveEntry created) = some (page.entries.map read) := by
    generalize page.entries = entries
    induction entries with
    | nil => rfl
    | cons e rest ih =>
        rw [List.mapM_cons, receiveEntry_eq, ih]
        rfl
  refine ⟨{ entries := page.entries.map read, cursor := page.cursor, more := page.more }, ?_, ?_, rfl⟩
  · have hmap : RecoveryBundle.asMap (some (pageJson created page)) = .ok
        [(dart "entries", .arr (page.entries.map (entryJson created))),
          (dart "cursor", .int page.cursor), (dart "more", .bool page.more)] := rfl
    have hcursor : Json.member
        [(dart "entries", .arr (page.entries.map (entryJson created))),
          (dart "cursor", .int page.cursor), (dart "more", .bool page.more)] (dart "cursor") =
        some (.num { mantissa := page.cursor, exponent := 0 }) := rfl
    rw [Platform.pageOf, hmap, LocalStore.ok_bind]
    dsimp only
    rw [hcursor]
    dsimp only
    rw [hp.asInt page.cursor hexact.cursor]
    show (do
      let entries ← (page.entries.map (entryJson created)).mapM p.entryOf
      return { entries, cursor := page.cursor, more := page.more } : Except Exn Page) = _
    rw [hentries]
    rfl
  · rw [receivePage, hreceived]
    rfl

/-- A response that succeeded. -/
theorem result_ok {status : Nat} {body : DartString} {json : Json} (hbody : Json.decode body = some json)
    (hstatus : 200 ≤ status ∧ status < 300) : p.result (.response status body) = .ok json := by
  rw [Platform.result, hbody]
  exact if_neg (by omega)

/-- A response that tells of an error. -/
theorem result_error (hp : p.Sound) {status : Nat} {body : DartString} {message : String}
    (hbody : Json.decode body = bodyJson created (.error message))
    (hstatus : ¬ (200 ≤ status ∧ status < 300)) :
    p.result (.response status body) = .error (.api status (dart message)) := by
  have hmessage : p.message (.obj [(dart "error", .str (dart message))]) = dart message :=
    hp.text (dart message)
  rw [Platform.result, hbody]
  dsimp only [bodyJson]
  rw [if_pos (by omega), hmessage]

/-- A body that is no JSON. -/
theorem result_garbled {status : Nat} {body : DartString} (hbody : Json.decode body = none) :
    p.result (.response status body) = .error .other := by
  rw [Platform.result, hbody]

end Reading

end Syncraft.Field
