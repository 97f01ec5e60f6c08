import Syncraft.Field.Pausing

/-!
# Syncraft.Field.LiveHints

`LiveHints` of `sync/live_hints.dart`: `connect`, `_schedule` and `close`, at their awaits, with the
engine whose `synchronize` the hints call. The application calls `connect` once, after a login; the
other calls are the retry timer's.

There is one connection at most, or one attempt at it, or a timer for the next (`Single`); and unless
it is closed or finds the engine logged out, there is always one of the three (`hints_alive`), as
long as the socket before can be left: `connect` awaits that outside of its `try`.
-/

namespace Syncraft.Field

open Engine (Event)

/-- Where a call of `connect` stands. -/
inductive Connecting where
  /-- At `_subscription?.cancel()`. -/
  | cancelling
  /-- At `_channel?.sink.close()`. -/
  | closing
  /-- At `channel.ready`. -/
  | readying
  deriving DecidableEq, Repr

/-- `LiveHints`, with its engine. -/
structure LiveHints where
  engine : Engine
  /-- The first call of `connect` is to come. -/
  created : Bool
  /-- `_closed` -/
  closed : Bool
  /-- Is `_retry` active? -/
  retry : Bool
  /-- The calls of `connect` that are under way. -/
  connects : List Connecting
  /-- Does `_subscription` deliver events? -/
  listening : Bool
  /-- Has `connect` or `_schedule` found the engine logged out? -/
  quit : Bool
  /-- Has `cancel` or `close` of the socket before thrown in `connect`? -/
  broken : Bool

namespace LiveHints

/-- `LiveHints(engine)` -/
def new (engine : Engine) : LiveHints :=
  { engine, created := true, closed := false, retry := false, connects := [], listening := false,
    quit := false, broken := false }

/-- `connect`, up to its first await. It cancels the subscription. -/
def connect (s : LiveHints) : LiveHints :=
  if s.closed || !s.engine.connected then { s with quit := s.quit || !s.engine.connected }
  else { s with connects := s.connects ++ [.cancelling], listening := false }

/-- `_schedule` -/
def schedule (s : LiveHints) : LiveHints :=
  if !s.closed && s.engine.connected then { s with retry := true }
  else { s with retry := false, quit := s.quit || !s.engine.connected }

/-- `close`, up to its first await. -/
def close (s : LiveHints) : LiveHints := { s with closed := true, retry := false, listening := false }

/-- What is sent over the socket, and the hints that come, are not part of the state. -/
inductive Step (p : Platform) (s : LiveHints) : LiveHints → Prop where
  /-- Something else happens to the engine. -/
  | engine (e : Event) : Step p s { s with engine := s.engine.step p e }
  /-- The application connects. -/
  | start : s.created = true → Step p s { s with created := false }.connect
  /-- The timer fires. -/
  | fire : s.retry = true → Step p s { s with retry := false }.connect
  | cancelled (i : Nat) : s.connects[i]? = some .cancelling →
      Step p s { s with connects := s.connects.set i .closing }
  | closedOld (i : Nat) : s.connects[i]? = some .closing →
      Step p s { s with connects := s.connects.set i .readying }
  /-- Either throws, and `connect` with it. -/
  | threw (i : Nat) : s.connects[i]? = some .cancelling ∨ s.connects[i]? = some .closing →
      Step p s { s with connects := s.connects.eraseIdx i, broken := true }
  /-- The channel is ready. The token is sent, unless the hints are closed. -/
  | ready (i : Nat) : s.connects[i]? = some .readying →
      Step p s { s with connects := s.connects.eraseIdx i, listening := s.listening || !s.closed }
  /-- It has failed, or is not ready in time. -/
  | failed (i : Nat) : s.connects[i]? = some .readying →
      Step p s { s with connects := s.connects.eraseIdx i }.schedule
  /-- `sync-needed` -/
  | hint : s.listening = true → Step p s { s with engine := s.engine.synchronize }
  /-- An error, or the end of the stream. -/
  | done : s.listening = true → Step p s { s with listening := false }.schedule
  | close : Step p s s.close

/-- How many connections, attempts and timers there are. -/
def strands (s : LiveHints) : Nat :=
  s.created.toNat + s.retry.toNat + s.connects.length + s.listening.toNat

/-- The invariant. -/
structure Inv (s : LiveHints) : Prop where
  one : s.strands ≤ 1
  /-- It goes on until it is closed or finds the engine logged out, or `connect` throws. -/
  alive : s.closed = false → s.quit = false → s.broken = false → s.strands = 1
  /-- Once it is closed nothing is armed and nothing is heard. -/
  silent : s.closed = true → s.retry = false ∧ s.listening = false

/-- A state that some steps lead to. -/
def Later (p : Platform) (s s' : LiveHints) : Prop := Relation.ReflTransGen (Step p) s s'

variable {p : Platform} {s s' : LiveHints}

theorem Inv.new (engine : Engine) : Inv (new engine) where
  one := le_rfl
  alive _ _ _ := rfl
  silent h := by cases h

/-- A strand comes to `connect` when there is no other. -/
theorem Inv.connect (hnone : s.strands = 0) : Inv s.connect := by
  have hzero : s.created = false ∧ s.retry = false ∧ s.connects = [] ∧ s.listening = false := by
    simpa [strands, and_assoc] using hnone
  obtain ⟨hcreated, hretry, hconnects, hlistening⟩ := hzero
  rw [LiveHints.connect]
  split
  · next hguard =>
      exact
        { one := by
            show s.strands ≤ 1
            rw [hnone]
            exact Nat.zero_le 1
          alive := fun hclosed hquit _ => by
            dsimp only at hclosed hquit
            rw [hclosed, Bool.false_or] at hguard
            rw [hguard, Bool.or_true] at hquit
            cases hquit
          silent := fun _ => ⟨hretry, hlistening⟩ }
  · next hguard =>
      have hstrands : ({ s with connects := s.connects ++ [.cancelling], listening := false } :
          LiveHints).strands = 1 := by
        simp [strands, hcreated, hretry, hconnects]
      exact
        { one := hstrands.le
          alive := fun _ _ _ => hstrands
          silent := fun hclosed => by
            dsimp only at hclosed
            rw [hclosed] at hguard
            exact absurd rfl hguard }

/-- The same of `_schedule`. -/
theorem Inv.schedule (hnone : s.strands = 0) : Inv s.schedule := by
  have hzero : s.created = false ∧ s.retry = false ∧ s.connects = [] ∧ s.listening = false := by
    simpa [strands, and_assoc] using hnone
  obtain ⟨hcreated, hretry, hconnects, hlistening⟩ := hzero
  rw [LiveHints.schedule]
  split
  · next hguard =>
      rw [Bool.and_eq_true, Bool.not_eq_true'] at hguard
      have hstrands : ({ s with retry := true } : LiveHints).strands = 1 := by
        simp [strands, hcreated, hconnects, hlistening]
      exact
        { one := hstrands.le
          alive := fun _ _ _ => hstrands
          silent := fun hclosed => by
            dsimp only at hclosed
            rw [hguard.1] at hclosed
            cases hclosed }
  · next hguard =>
      have hstrands : ({ s with retry := false, quit := s.quit || !s.engine.connected } :
          LiveHints).strands = 0 := by
        simp [strands, hcreated, hconnects, hlistening]
      exact
        { one := by
            rw [hstrands]
            exact Nat.zero_le 1
          alive := fun hclosed hquit _ => by
            dsimp only at hclosed hquit
            have hoff : s.engine.connected = false := by simpa [hclosed] using hguard
            rw [hoff, Bool.not_false, Bool.or_true] at hquit
            cases hquit
          silent := fun _ => ⟨rfl, hlistening⟩ }

theorem Inv.step (h : Inv s) (hstep : Step p s s') : Inv s' := by
  have hone := h.one
  cases hstep with
  | engine e => exact { h with }
  | hint _ => exact { h with }
  | start hcreated =>
      refine Inv.connect ?_
      simp only [strands, hcreated] at hone ⊢
      simp only [Bool.toNat_true, Bool.toNat_false] at hone ⊢
      omega
  | fire hretry =>
      refine Inv.connect ?_
      simp only [strands, hretry] at hone ⊢
      simp only [Bool.toNat_true, Bool.toNat_false] at hone ⊢
      omega
  | cancelled i hi =>
      have hstrands : ({ s with connects := s.connects.set i .closing } : LiveHints).strands =
          s.strands := by
        simp [strands]
      exact ⟨hstrands ▸ h.one, fun hc hq hb => hstrands.trans (h.alive hc hq hb), h.silent⟩
  | closedOld i hi =>
      have hstrands : ({ s with connects := s.connects.set i .readying } : LiveHints).strands =
          s.strands := by
        simp [strands]
      exact ⟨hstrands ▸ h.one, fun hc hq hb => hstrands.trans (h.alive hc hq hb), h.silent⟩
  | threw i hi =>
      refine ⟨le_trans ?_ h.one, fun _ _ hb => Bool.noConfusion hb, h.silent⟩
      have := List.length_eraseIdx_le s.connects i
      simp only [strands]
      omega
  | ready i hi =>
      obtain ⟨hlt, -⟩ := List.getElem?_eq_some_iff.mp hi
      have hlength := List.length_eraseIdx_of_lt hlt
      have hlistening : s.listening = false := by
        cases hl : s.listening with
        | false => rfl
        | true =>
            rw [strands, hl, Bool.toNat_true] at hone
            omega
      have hstrands : ({ s with connects := s.connects.eraseIdx i
                                listening := s.listening || !s.closed } : LiveHints).strands ≤
          s.strands ∧ (s.closed = false →
            ({ s with connects := s.connects.eraseIdx i
                      listening := s.listening || !s.closed } : LiveHints).strands = s.strands) := by
        simp only [strands, hlistening, hlength, Bool.false_or]
        constructor
        · have := Bool.toNat_le (!s.closed)
          simp only [Bool.toNat_false]
          omega
        · intro hclosed
          rw [hclosed, Bool.not_false, Bool.toNat_true, Bool.toNat_false]
          omega
      refine ⟨hstrands.1.trans h.one, fun hc hq hb => (hstrands.2 hc).trans (h.alive hc hq hb),
        fun hc => ?_⟩
      dsimp only at hc ⊢
      rw [hlistening, hc]
      exact ⟨(h.silent hc).1, rfl⟩
  | failed i hi =>
      obtain ⟨hlt, -⟩ := List.getElem?_eq_some_iff.mp hi
      refine Inv.schedule ?_
      simp only [strands, List.length_eraseIdx_of_lt hlt] at hone ⊢
      omega
  | done hlistening =>
      refine Inv.schedule ?_
      simp only [strands, hlistening] at hone ⊢
      simp only [Bool.toNat_true, Bool.toNat_false] at hone ⊢
      omega
  | close =>
      refine ⟨le_trans ?_ h.one, fun hc => Bool.noConfusion hc, fun _ => ⟨rfl, rfl⟩⟩
      simp only [strands, LiveHints.close, Bool.toNat_false]
      omega

theorem Later.inv (hlater : Later p s s') (h : Inv s) : Inv s' := by
  induction hlater with
  | refl => exact h
  | tail _ hstep ih => exact ih.step hstep

/-- Hints that are closed stay so. -/
theorem Later.closed (hlater : Later p s s') (h : s.closed = true) : s'.closed = true := by
  induction hlater with
  | refl => exact h
  | @tail t t' _ hstep ih =>
      have hconnect : ∀ u : LiveHints, u.connect.closed = u.closed := by
        intro u
        rw [LiveHints.connect]
        split <;> rfl
      have hschedule : ∀ u : LiveHints, u.schedule.closed = u.closed := by
        intro u
        rw [LiveHints.schedule]
        split <;> rfl
      cases hstep with
      | start | fire => rw [hconnect]; exact ih
      | failed | done => rw [hschedule]; exact ih
      | close => rfl
      | _ => exact ih

/-- **Live hints neither multiply nor go missing.** In every state there is at most one of these: a
connection that is listened to, an attempt at one, a timer for the next. There is one until the hints
are closed or find the engine logged out, or the socket before cannot be left: `cancel` or `close`
throws. Once they are closed, no timer fires again and no hint is heard. -/
theorem hints_alive {engine : Engine} (h : Later p (new engine) s) :
    s.strands ≤ 1 ∧ (s.closed = false → s.quit = false → s.broken = false → s.strands = 1) ∧
      (s.closed = true → ∀ s', Later p s s' → s'.retry = false ∧ s'.listening = false) := by
  have hi := Later.inv h (Inv.new engine)
  exact ⟨hi.one, hi.alive, fun hc s' hlater => (Later.inv hlater hi).silent (Later.closed hlater hc)⟩

/-- An engine that has logged in. -/
def online : Engine :=
  { Engine.new Engine.localhost LocalStore.new with connected := true, token := some (dart "t1") }

/-- The socket is lost, and the timer is for the next one. -/
theorem hints_alive_run :
    ∃ s, Later Engine.plain (new online) s ∧ s.retry = true ∧ s.strands = 1 ∧ s.connects = [] := by
  have h₁ : Later Engine.plain (new online) _ := .single (.start rfl)
  have h₂ := h₁.tail (.cancelled 0 rfl)
  have h₃ := h₂.tail (.closedOld 0 rfl)
  have h₄ := h₃.tail (.ready 0 rfl)
  have h₅ := h₄.tail (.done rfl)
  exact ⟨_, h₅, rfl, (hints_alive h₅).2.1 rfl rfl rfl, rfl⟩

end LiveHints

end Syncraft.Field
