import Syncraft.Field.Decoding

/-!
# Syncraft.Field.Projection

The engine with its credentials, logins and uploads does what the abstract device of
`Syncraft.Field.SyncEngine` does. `Engine.phone` forgets what that device has not got, and every
event of the engine is then some steps of the device, or none (`run_shown`, `event_shown`).
-/

namespace Syncraft.Field.Engine

open LocalStore (Call)

/-! ### The abstract device -/

/-- Where a `synchronize` stands. `k` is the number of the request that is out. -/
def Phase.shown (k : Nat) : Phase → Field.Phase
  | .pushing round => .pushing round
  | .posting round batch => .posting round batch
  | .posted round batch => .posted round batch k
  | .recording batch e => .recording batch e
  | .acknowledging round batch => .acknowledging round batch
  | .pulling round => .pulling round
  | .getting round after => .getting round after
  | .got round => .got round k
  | .applying round page => .applying round page
  | .uploading | .sending _ | .sent _ _ | .marking _ _ => .uploading
  | .caught e => .caught e

/-- What is under way. -/
def shown (k : Nat) : List Phase → Field.Phase
  | phase :: _ => phase.shown k
  | [] => .idle

/-- The engine as a device. `error` is the last error that it was cleared or set by a
`synchronize`. -/
def phone (s : Engine) (k : Nat) (error : Option Exn) : Phone :=
  { store := s.store, phase := shown k s.runs, paused := s.paused, connected := s.connected, error,
    failures := s.failures }

/-- The push or pull that leaves next. -/
def Phase.posts : Phase → Option Field.Request
  | .posting _ batch => some (pushRequest batch)
  | .getting _ after => some (.pull after)
  | _ => none

/-- The number of the request that is out, once the request that leaves next has got its own. -/
def Phase.number (k next : Nat) (phase : Phase) : Nat := if phase.posts.isSome then next else k

/-! ### Rounds -/

/-- The loops make a hundred rounds at most. -/
def Phase.Counted : Phase → Prop
  | .pushing round | .pulling round => round ≤ 100
  | .posting round _ | .posted round _ | .acknowledging round _ => round < 100
  | .getting round _ | .got round | .applying round _ => round < 100
  | _ => True

/-- At most one `synchronize` is under way, and its rounds are counted. -/
structure Sane (s : Engine) : Prop where
  single : Single s
  counted : ∀ phase ∈ s.runs, phase.Counted

variable {p : Platform} {s t : Engine} {o : Outcome}

theorem advance_counted {phase next : Phase} (h : phase.Counted)
    (hnext : (s.advance p o phase).2 = some next) : next.Counted := by
  cases phase with
  | pushing round =>
      rw [advance] at hnext
      split at hnext
      · next hround =>
          rw [LocalStore.pending_eq] at hnext
          obtain rfl := Option.some.inj hnext
          split
          · exact Nat.zero_le _
          · exact hround
      · obtain rfl := Option.some.inj hnext
        exact Nat.zero_le _
  | posting round batch | getting round after =>
      obtain rfl := Option.some.inj hnext
      exact h
  | posted round batch =>
      rw [advance] at hnext
      split at hnext
      · obtain rfl := Option.some.inj hnext
        exact h
      · obtain rfl := Option.some.inj hnext
        trivial
  | acknowledging round batch =>
      obtain rfl := Option.some.inj hnext
      exact h
  | pulling round =>
      obtain rfl := Option.some.inj hnext
      split
      · next hround => exact hround
      · trivial
  | got round =>
      rw [advance] at hnext
      split at hnext
      · obtain rfl := Option.some.inj hnext
        exact h
      · obtain rfl := Option.some.inj hnext
        trivial
  | applying round page =>
      rw [advance] at hnext
      split at hnext
      · obtain rfl := Option.some.inj hnext
        split
        · exact h
        · trivial
      · obtain rfl := Option.some.inj hnext
        trivial
  | sending rows =>
      cases rows with
      | nil => cases hnext
      | cons row rest =>
          obtain rfl := Option.some.inj hnext
          trivial
  | sent row rest =>
      rw [advance] at hnext
      split at hnext
      · split at hnext
        · obtain rfl := Option.some.inj hnext
          trivial
        · obtain rfl := Option.some.inj hnext
          trivial
      · obtain rfl := Option.some.inj hnext
        trivial
  | recording batch e | uploading | marking row rest =>
      obtain rfl := Option.some.inj hnext
      trivial
  | caught e => cases hnext

theorem Sane.synchronize (h : Sane s) : Sane s.synchronize := by
  refine ⟨h.single.synchronize, ?_⟩
  rcases s.synchronize_cases with heq | ⟨hbusy, -, -, heq⟩
  · rw [heq]
    exact h.counted
  · rw [heq]
    intro phase hphase
    have hone : phase ∈ s.runs ++ [Phase.pushing 0] := hphase
    rw [h.single.idle hbusy, List.nil_append, List.mem_singleton] at hone
    subst hone
    exact Nat.zero_le _

theorem Sane.step (h : Sane s) {e : Event} (hstep : Step p s e t) : Sane t := by
  refine ⟨h.single.step hstep, ?_⟩
  obtain rfl := hstep
  cases e with
  | call | logout | login | dispose => exact h.counted
  | synchronize => exact h.synchronize.counted
  | setPaused value =>
      show ∀ phase ∈ (s.setPaused value).runs, phase.Counted
      rw [setPaused]
      split
      · exact h.counted
      · exact (Sane.synchronize (s := { s with paused := false }) ⟨h.single, h.counted⟩).counted
  | run i o =>
      cases hi : s.runs[i]? with
      | none =>
          rw [Engine.step, hi]
          exact h.counted
      | some phase =>
          obtain ⟨-, hone, ⟨store, next, hadvance, heq⟩ | ⟨-, heq⟩ | ⟨e, -, heq⟩⟩ :=
            run_cases h.single hi p o
          · rw [heq]
            intro phase' hphase'
            obtain rfl := List.mem_singleton.mp hphase'
            have hnext : (s.advance p o phase).2 = some phase' := by rw [hadvance]
            exact advance_counted (h.counted phase (List.mem_of_getElem? hi)) hnext
          · rw [heq]
            exact List.forall_mem_nil _
          · rw [heq]
            exact List.forall_mem_nil _
  | enter i o uuid =>
      cases hi : s.logins[i]? with
      | none =>
          rw [Engine.step, hi]
          exact h.counted
      | some l =>
          rcases enter_cases hi p o uuid with ⟨-, heq⟩ | ⟨-, store, token, device, logins, heq⟩
          · rw [heq]
            exact (Sane.synchronize (s := { s with connected := true, error := none })
              ⟨h.single, h.counted⟩).counted
          · rw [heq]
            exact h.counted

theorem Sane.new (base : DartString) (store : LocalStore) : Sane (Engine.new base store) :=
  ⟨Single.new base store, List.forall_mem_nil _⟩

/-! ### A `synchronize` that goes on -/

/-- What the engine makes of the outcome of the request that is out. It is lost or cannot be read, or
it is an answer to request `k`. -/
def Phase.Hears (p : Platform) (created : Domain.Entry → DartString)
    (answered : Nat → Api.Reply → Prop) (k : Nat) (o : Outcome) : Phase → Prop
  | .posted _ _ => p.result o = .error .other ∨
      (∃ n json, answered k (.cursor n) ∧ p.result o = .ok json) ∨
      ∃ status message, answered k (.problem status message) ∧
        p.result o = .error (.api status (dart message))
  | .got _ => p.result o >>= p.pageOf = .error .other ∨
      (∃ page received, answered k (.page page) ∧ receivePage created page = some received ∧
        p.result o >>= p.pageOf = .ok received) ∨
      ∃ status message, answered k (.problem status message) ∧
        p.result o >>= p.pageOf = .error (.api status (dart message))
  | _ => True

section Shown

variable {created : Domain.Entry → DartString} {answered : Nat → Api.Reply → Prop} {k next : Nat}
  {error : Option Exn}

/-- **A `synchronize` that goes on is a step of the device**, or is not seen there: between two
uploads. -/
theorem run_shown (h : Sane s) {i : Nat} {phase : Phase} (hi : s.runs[i]? = some phase)
    (hears : phase.Hears p created answered k o) :
    phase.posts = none ∧ (s.step p (.run i o)).phone k error = s.phone k error ∨
      ∃ error', Phone.Step created answered next (s.phone k error)
        ((s.step p (.run i o)).phone (phase.number k next) error') phase.posts.toList := by
  obtain ⟨-, rfl, hone⟩ := h.single.only hi
  have hcounted := h.counted phase (List.mem_of_getElem? hi)
  have hphase : (s.phone k error).phase = phase.shown k := by
    rw [phone, hone]
    rfl
  -- What `withRun` makes of the only run.
  have hgoes : ∀ (store : LocalStore) (next' : Phase),
      withRun 0 ({ s with store }, some next') = { s with store, runs := [next'] } := by
    intro store next'
    rw [withRun, hone]
    rfl
  have hstays : ∀ next' : Phase, withRun 0 (s, some next') = { s with runs := [next'] } :=
    hgoes s.store
  rw [run_eq hi]
  cases phase with
  | pushing round =>
      right
      refine ⟨error, ?_⟩
      rw [advance]
      split
      · next hround =>
          cases hpending : s.store.pending with
          | ok batch =>
              dsimp only
              rw [hstays]
              by_cases hempty : batch = []
              · subst hempty
                exact Phone.Step.pushed round hphase hround hpending
              · have hcons : batch.isEmpty = false := by simpa using hempty
                rw [hcons]
                exact Phone.Step.pending round batch hphase hround hpending hempty
          | error e =>
              dsimp only
              rw [hstays]
              exact Phone.Step.pendingThrows round e hphase hround hpending
      · next hround =>
          obtain rfl : round = 100 := Nat.le_antisymm hcounted (Nat.not_lt.mp hround)
          rw [hstays]
          exact Phone.Step.pushedAll hphase
  | posting round batch =>
      right
      refine ⟨error, ?_⟩
      rw [advance, hstays]
      exact Phone.Step.post round batch hphase
  | posted round batch =>
      right
      refine ⟨error, ?_⟩
      rw [advance]
      rcases hears with hlost | ⟨n, json, hans, hok⟩ | ⟨status, message, hans, hproblem⟩
      · rw [hlost]
        dsimp only
        rw [hstays]
        exact Phone.Step.lost round batch k hphase
      · rw [hok]
        dsimp only
        rw [hstays]
        exact Phone.Step.accepted round batch k n hphase hans
      · rw [hproblem]
        dsimp only
        rw [hstays]
        exact Phone.Step.refused round batch k status message hphase hans
  | recording batch e =>
      right
      refine ⟨error, ?_⟩
      rw [advance, hgoes]
      exact Phone.Step.record batch e (p.describe e) hphase
  | acknowledging round batch =>
      right
      refine ⟨error, ?_⟩
      rw [advance, hgoes]
      exact Phone.Step.acknowledge round batch hphase
  | pulling round =>
      right
      refine ⟨error, ?_⟩
      rw [advance, hstays]
      split
      · next hround => exact Phone.Step.cursor round hphase hround
      · next hround =>
          obtain rfl : round = 100 := Nat.le_antisymm hcounted (Nat.not_lt.mp hround)
          exact Phone.Step.pulledAll hphase
  | getting round after =>
      right
      refine ⟨error, ?_⟩
      rw [advance, hstays]
      exact Phone.Step.get round after hphase
  | got round =>
      right
      refine ⟨error, ?_⟩
      rw [advance]
      rcases hears with hlost | ⟨page, received, hans, hreceived, hok⟩ |
        ⟨status, message, hans, hproblem⟩
      · rw [hlost]
        dsimp only
        rw [hstays]
        exact Phone.Step.lostPage round k hphase
      · rw [hok]
        dsimp only
        rw [hstays]
        exact Phone.Step.page round k page received hphase hans hreceived
      · rw [hproblem]
        dsimp only
        rw [hstays]
        exact Phone.Step.refusedPage round k status message hphase hans
  | applying round page =>
      right
      refine ⟨error, ?_⟩
      rw [advance]
      cases happly : s.store.applyPage page with
      | ok store =>
          dsimp only
          rw [hgoes]
          have hstep : Phone.Step created answered next (s.phone k error) _ [] :=
            .apply round page store hphase happly
          cases hmore : page.more with
          | true =>
              rw [hmore] at hstep
              exact hstep
          | false =>
              rw [hmore] at hstep
              exact hstep
      | error e =>
          dsimp only
          rw [hstays]
          exact Phone.Step.applyThrows round page e hphase happly
  | uploading =>
      left
      refine ⟨rfl, ?_⟩
      rw [advance, hstays]
      show Phone.mk _ _ _ _ _ _ = Phone.mk _ _ _ _ _ _
      rw [hone]
      rfl
  | sending rows =>
      cases rows with
      | nil =>
          right
          refine ⟨error, ?_⟩
          rw [advance, withRun]
          show Phone.Step created answered next (s.phone k error)
            (phone { s with failures := 0, busy := false, runs := s.runs.eraseIdx 0 } k error) []
          rw [hone]
          exact Phone.Step.uploaded hphase
      | cons row rest =>
          left
          refine ⟨rfl, ?_⟩
          rw [advance, hstays]
          show Phone.mk _ _ _ _ _ _ = Phone.mk _ _ _ _ _ _
          rw [hone]
          rfl
  | sent row rest =>
      rw [advance]
      split
      · split
        · right
          refine ⟨error, ?_⟩
          rw [hstays]
          exact Phone.Step.uploadThrows _ hphase
        · left
          refine ⟨rfl, ?_⟩
          rw [hstays]
          show Phone.mk _ _ _ _ _ _ = Phone.mk _ _ _ _ _ _
          rw [hone]
          rfl
      · right
        refine ⟨error, ?_⟩
        rw [hstays]
        exact Phone.Step.uploadThrows _ hphase
  | marking row rest =>
      right
      refine ⟨error, ?_⟩
      rw [advance, hgoes]
      have hstep : Phone.Step created answered next (s.phone k error) _ [] :=
        .attachments (AttachmentStore.markUploaded row.id s.store).attachments
      rw [phone, hone] at hstep
      rw [phone, hone]
      exact hstep
  | caught e =>
      right
      refine ⟨some e, ?_⟩
      rw [advance, withRun]
      show Phone.Step created answered next (s.phone k error)
        (phone { s.fail e with runs := s.runs.eraseIdx 0 } k (some e)) []
      rw [hone]
      exact Phone.Step.caught e hphase

/-! ### Everything else that happens -/

/-- Steps of the device that send nothing. -/
def Quiet (created : Domain.Entry → DartString) (answered : Nat → Api.Reply → Prop) (next : Nat)
    (p q : Phone) : Prop := Phone.Step created answered next p q []

/-- A `synchronize` that is called and does not return at once. -/
theorem synchronize_shown (h : Single s) : ∃ error',
    Relation.ReflTransGen (Quiet created answered next) (s.phone k error)
      (s.synchronize.phone k error') := by
  rcases s.synchronize_cases with heq | ⟨hbusy, hpaused, hconnected, heq⟩
  · exact ⟨error, by rw [heq]⟩
  · have hidle := h.idle hbusy
    have hphase : (s.phone k error).phase = .idle := by
      rw [phone, hidle]
      rfl
    refine ⟨none, .single ?_⟩
    rw [heq, hidle]
    exact Phone.Step.start hphase hpaused hconnected

/-- The events in which no `synchronize` goes on and nobody calls the store. -/
def Event.Outer : Event → Prop
  | .run _ _ | .call _ => False
  | _ => True

/-- **Logins, logouts and the user** take the device some steps on, in which nothing is sent. -/
theorem event_shown (h : Single s) {e : Event} (he : e.Outer) (p : Platform) : ∃ error',
    Relation.ReflTransGen (Quiet created answered next) (s.phone k error)
      ((s.step p e).phone k error') := by
  cases e with
  | run | call => cases he
  | synchronize => exact synchronize_shown h
  | logout => exact ⟨error, .single (Phone.Step.connect false)⟩
  | login | dispose => exact ⟨error, .refl⟩
  | setPaused value =>
      cases value with
      | true => exact ⟨error, .single (Phone.Step.pause true)⟩
      | false =>
          obtain ⟨error', hrest⟩ : ∃ error', Relation.ReflTransGen (Quiet created answered next)
              (phone { s with paused := false } k error) _ := synchronize_shown h
          exact ⟨error', .head (Phone.Step.pause false) hrest⟩
  | enter i o uuid =>
      cases hi : s.logins[i]? with
      | none =>
          rw [step, hi]
          exact ⟨error, .refl⟩
      | some l =>
          -- The other logins are not seen.
          have hlogins : ∀ r, (withLogin i l r).phone k = r.1.phone k := by
            rintro ⟨t, _ | phase⟩ <;> rfl
          rw [enter_eq hi, hlogins, advanceLogin]
          cases l.phase with
          | bound =>
              obtain ⟨error', hrest⟩ : ∃ error', Relation.ReflTransGen (Quiet created answered next)
                (phone { s with connected := true, error := none } k error) _ := synchronize_shown h
              exact ⟨error', .head (Phone.Step.connect true) hrest⟩
          | identifying => exact ⟨error, .single (Phone.Step.deviceId uuid)⟩
          | binding => exact ⟨error, .single (Phone.Step.bind _)⟩
          | read existing | posted | registering =>
              dsimp only
              split <;> exact ⟨error, .refl⟩
          | _ => exact ⟨error, .refl⟩

end Shown

end Syncraft.Field.Engine
