import Syncraft.Library.Run
import Syncraft.Field.Engine

/-!
# Syncraft.Field.Pausing

When pausing stops traffic. `synchronize` looks at `paused` and `connected` once, before its first
await; a pause that comes later is not seen. So requests leave in a paused application
(`sends_while_paused`), unless the user pauses and logs out only when no call has a request left
to make (`quiet_while_paused`).
-/

namespace Syncraft.Field.Engine

open Library (Run)

/-- Has the call a request left to make? -/
def Phase.remains : Phase → Bool
  | .recording _ _ | .sending [] | .sent _ [] | .marking _ [] | .caught _ => false
  | _ => true

/-- The user pauses and logs out only while no `synchronize` has a request left to make. -/
def considerate (s : Engine) : Event → Bool
  | .setPaused true | .logout => s.runs.all fun phase => !phase.remains
  | _ => true

/-- While a `synchronize` has requests left, the application is connected and not paused. -/
def Live (s : Engine) : Prop :=
  ∀ phase ∈ s.runs, phase.remains = true → s.paused = false ∧ s.connected = true

theorem Phase.remains_of_sends {phase : Phase} {r : Request} (h : phase.sends = some r) :
    phase.remains = true := by
  cases phase with
  | sending rows =>
      cases rows with
      | nil => cases h
      | cons row rest => rfl
  | posting | getting => rfl
  | _ => cases h

section Steps

variable {p : Platform} {s t : Engine}

/-- A call with no request left gets none. -/
theorem remains_of_advance {o : Outcome} {phase next : Phase} {s' : Engine}
    (h : s.advance p o phase = (s', some next)) (hnext : next.remains = true) :
    phase.remains = true := by
  cases phase with
  | recording batch e =>
      obtain rfl := Option.some.inj (congrArg Prod.snd h)
      exact hnext
  | sent row rest =>
      cases rest with
      | cons row rest => rfl
      | nil =>
          -- The last upload is out: it is marked, or caught.
          rw [advance] at h
          split at h
          · split at h
            · obtain rfl := Option.some.inj (congrArg Prod.snd h)
              exact hnext
            · obtain rfl := Option.some.inj (congrArg Prod.snd h)
              exact hnext
          · obtain rfl := Option.some.inj (congrArg Prod.snd h)
            exact hnext
  | marking row rest =>
      obtain rfl := Option.some.inj (congrArg Prod.snd h)
      cases rest with
      | nil => exact hnext
      | cons row rest => rfl
  | sending rows =>
      cases rows with
      | nil => cases h
      | cons row rest => rfl
  | caught e => cases h
  | _ => rfl

theorem Live.synchronize (h : Live s) : Live s.synchronize := by
  rcases s.synchronize_cases with heq | ⟨-, hpaused, hconnected, heq⟩
  · rwa [heq]
  · rw [heq]
    exact fun _ _ _ => ⟨hpaused, hconnected⟩

/-- Every step keeps it, unless the user pauses or logs out too early. -/
theorem Live.step (hs : Single s) (h : Live s) {e : Event} (he : s.considerate e = true)
    (hstep : Step p s e t) : Live t := by
  obtain rfl := hstep
  have hquiet : (s.runs.all fun phase => !phase.remains) = true →
      ∀ t : Engine, t.runs = s.runs → Live t := by
    intro hnone t hruns phase hphase hremains
    have hnot := List.all_eq_true.mp hnone phase (hruns ▸ hphase)
    rw [hremains] at hnot
    cases hnot
  cases e with
  | call | login | dispose => exact h
  | synchronize => exact h.synchronize
  | setPaused value =>
      cases value with
      | true => exact hquiet he _ rfl
      | false =>
          refine Live.synchronize (s := { s with paused := false }) fun phase hphase hremains => ?_
          exact ⟨rfl, (h phase hphase hremains).2⟩
  | logout => exact hquiet he _ rfl
  | run i o =>
      cases hi : s.runs[i]? with
      | none => rwa [Engine.step, hi]
      | some phase =>
          obtain ⟨-, hone, ⟨store, next, hadvance, heq⟩ | ⟨-, heq⟩ | ⟨e, -, heq⟩⟩ :=
            run_cases hs hi p o
          · rw [heq]
            intro phase' hphase' hremains
            obtain rfl := List.mem_singleton.mp hphase'
            exact h phase (hone ▸ List.mem_cons_self) (remains_of_advance hadvance hremains)
          · rw [heq]
            exact List.forall_mem_nil _
          · rw [heq]
            exact List.forall_mem_nil _
  | enter i o uuid =>
      cases hi : s.logins[i]? with
      | none => rwa [Engine.step, hi]
      | some l =>
          rcases enter_cases hi p o uuid with ⟨-, heq⟩ | ⟨-, store, token, device, logins, heq⟩
          · rw [heq]
            refine Live.synchronize (s := { s with connected := true, error := none })
              fun phase hphase hremains => ?_
            exact ⟨(h phase hphase hremains).1, rfl⟩
          · rw [heq]
            exact h

/-- **Pausing stops traffic when it is not too early.** In every run in which the user pauses and
logs out only while no `synchronize` has a request left to make, no request of a `synchronize`
leaves while the application is paused or not connected. -/
theorem quiet_while_paused {base : DartString} {store : LocalStore} {es : List Event}
    (h : Run (fun s e t => Step p s e t ∧ s.considerate e = true) (new base store) es s) {i : Nat}
    {o : Outcome} {r : Request} (hsends : s.sends (.run i o) = some r) :
    s.paused = false ∧ s.connected = true := by
  have hlive : Single s ∧ Live s := h.invariant (P := fun s => Single s ∧ Live s)
    (fun _ _ _ hs hstep => ⟨hs.1.step hstep.1, hs.2.step hs.1 hstep.2 hstep.1⟩)
    ⟨.new base store, List.forall_mem_nil _⟩
  obtain ⟨phase, hphase, hsend⟩ := Option.bind_eq_some_iff.mp hsends
  exact hlive.2 phase (List.mem_of_getElem? hphase) (Phase.remains_of_sends hsend)

end Steps

/-! ### Too early -/

/-- A platform on which whole numbers are integers and only strings are stored. -/
def plain : Platform :=
  { sha256 := fun _ => []
    asInt := fun n => if n.exponent = 0 then some n.mantissa else none
    sameInt := fun n => if n.exponent = 0 then some n.mantissa else none
    column := fun j => match j with | .str s => some s | _ => none
    text := fun j => match j with | .str s => s | _ => []
    describe := fun _ => dart "Exception" }

/-- The address of a server. -/
def localhost : DartString := dart "http://localhost:8091"

/-- A response with status 200. -/
def answer (body : String) : Outcome := .response 200 (dart body)

/-- A login from its start to its end. -/
def connecting : List Event :=
  [.login (dart "inspector") (dart "secret"), .enter 0 .lost [], .enter 0 .lost [],
    .enter 0 (answer "\x7b\"token\":\"t1\"\x7d") [], .enter 0 .lost gate.id, .enter 0 .lost [],
    .enter 0 (answer "\x7b\x7d") [], .enter 0 .lost [], .enter 0 .lost []]

/-- An edit is saved, the application connects, and the push is out. The user pauses and saves
another edit; the push succeeds. -/
def pausing : List Event :=
  .call (.save [gate] fun _ => dart "now") :: connecting ++
    [.run 0 .lost, .run 0 .lost, .setPaused true, .call (.save [north] fun _ => dart "now"),
      .run 0 (answer "\x7b\"cursor\":1\x7d"), .run 0 .lost, .run 0 .lost]

/-- The second edit leaves while the application is paused. -/
theorem sends_while_paused :
    let s := pausing.foldl (step plain) (new localhost LocalStore.new)
    Run (Step plain) (new localhost LocalStore.new) pausing s ∧ s.paused = true ∧
      s.sends (.run 0 .lost) = some (.push [north]) :=
  ⟨Run.foldl _ _ _, by decide +kernel⟩

/-- The application connects, and has nothing to push. -/
def pulling : List Event := connecting ++ [.run 0 .lost, .run 0 .lost]

/-- Connected and not paused, the pull leaves. -/
theorem quiet_while_paused_run :
    let s := pulling.foldl (step plain) (new localhost LocalStore.new)
    s.sends (.run 0 .lost) = some (.pull 0) ∧ s.paused = false ∧ s.connected = true := by
  have hrun := @Run.foldl_allowed _ _ (step plain) considerate (new localhost LocalStore.new)
    pulling (by decide +kernel)
  have hsends : (pulling.foldl (step plain) (new localhost LocalStore.new)).sends (.run 0 .lost) =
      some (.pull 0) := by decide +kernel
  exact ⟨hsends, quiet_while_paused hrun hsends⟩

end Syncraft.Field.Engine
