import Syncraft.Api.Isolation
import Syncraft.Store.PostgresRevocation

/-!
# Syncraft.Api.Revocation

Revocation is permanent, and effective on every write, however requests interleave: a handler
that has passed `identity` makes its call to the store later, and a device may have been revoked
in between. Both adapters are covered: the in-memory one under any interleaving of the handlers'
calls, the PostgreSQL one under any interleaving of the statements of its transactions and reads.
-/

namespace Syncraft.Api

open Domain Store Library
open Store.Postgres (workload later_holds)

/-- A server while it answers requests, one in each session. -/
abbrev Serving (ι : Type) := Running ι Backend Ask Response

/-- A handler that a request starts. -/
def Server.Starts (S : Server) (x : Handler Response) : Prop := ∃ r, x = S.handler r

/-- Methods as the handlers call them. -/
def Ask.Handled : (β : Type) → Ask β → Prop
  | _, .store _ c => c.Handled
  | _, _ => True

section Memory

variable {S : Server} {ι : Type} [DecidableEq ι] {g g' : Serving ι}

theorem starts_makes {x : Handler Response} (h : S.Starts x) : x.Makes Ask.Handled := by
  obtain ⟨r, rfl⟩ := h
  refine Server.handler_makes.mono fun β a ha => ?_
  cases a with
  | store w c => exact ha.2.handled
  | _ => trivial

/-- **Every interleaving of handlers** does to a workspace what some calls do to it. -/
theorem serving_later (h : Running.Later backend S.Starts g g') (hg : g.Makes Ask.Handled)
    (w : GoString) : g'.Makes Ask.Handled ∧ (g.store.store w).Later (g'.store.store w) := by
  refine h.store (fun x hx => starts_makes hx) hg
    (R := fun b => (g.store.store w).Later (b.store w)) (fun β a b ha hb => ?_)
    Relation.ReflTransGen.refl
  cases a with
  | store w' c =>
      by_cases hw : w = w'
      · subst hw
        show (g.store.store w).Later ((b.store.answer w c).2 w)
        rw [Memory.answer_self]
        exact hb.trans (Space.answer_later _ ha)
      · show (g.store.store w).Later ((b.store.answer w' c).2 w)
        rw [Memory.answer_of_ne _ hw]
        exact hb
  | _ => exact hb

theorem serving_inv (h : Running.Later backend S.Starts (Running.new Backend.new) g)
    (w : GoString) :
    g.Makes Ask.Handled ∧ (g.store.store w).Inv := by
  obtain ⟨hmakes, hlater⟩ := serving_later h (Running.new_makes _) w
  exact ⟨hmakes, hlater.inv Space.new_inv⟩

end Memory

/-- Whatever a handler has found out before: a call through the device is refused and changes
nothing. -/
structure Denied (w id : GoString) (b : Backend) : Prop where
  push : ∀ actor batch, backend.answer (.store w (.push id actor batch)) b = (.error .forbidden, b)
  upload : ∀ actor a,
    backend.answer (.store w (.putAttachment id actor a)) b = (.error .forbidden, b)
  register : ∀ d : Device, d.id = id →
    backend.answer (.store w (.register d)) b = (.error .forbidden, b)

theorem denied {w id : GoString} {b : Backend} (h : (b.store w).isRevoked id = true) :
    Denied w id b := by
  obtain ⟨hpush, hput, hregister⟩ := Space.refused h
  have hsame : ∀ {β : Type} (c : Method β) (x : β), (b.store w).answer c = (x, b.store w) →
      backend.answer (.store w c) b = (x, b) := by
    intro β c x hx
    show (((b.store w).answer c).1,
      { b with store := Function.update b.store w ((b.store w).answer c).2 }) = (x, b)
    rw [hx, Function.update_eq_self]
  exact
    { push := fun actor batch => hsame _ _ (hpush actor batch)
      upload := fun actor a => hsame _ _ (hput actor a)
      register := fun d hd => hsame _ _ (hregister d hd) }

/-- What holds of the device `id` of `w`, at a moment `g` and at any later one `g'`. -/
structure Permanent {ι : Type} (w id : GoString) (g g' : Serving ι) : Prop where
  /-- Its actor never changes. -/
  actor : ∀ d, (g.store.store w).devices.lookup id = some d →
    ∃ d', (g'.store.store w).devices.lookup id = some d' ∧ d'.actor = d.actor
  /-- Its revocation is recorded at most once. -/
  once : Space.audited (g.store.store w).audit deviceRevoked id ≤ 1
  /-- A `Revoke` that returns has taken effect. -/
  effect : ∀ actor, (backend.answer (.store w (.revoke id actor)) g.store).1 = .ok () →
    ((backend.answer (.store w (.revoke id actor)) g.store).2.store w).isRevoked id = true
  /-- Once it has, the device stays as it is, no entry is added for it, and every call through it
  is refused. -/
  revoked : (g.store.store w).isRevoked id = true →
    (g'.store.store w).devices.lookup id = (g.store.store w).devices.lookup id ∧
      (g'.store.store w).pushedBy id = (g.store.store w).pushedBy id ∧ Denied w id g'.store

theorem serving_permanent {S : Server} {ι : Type} [DecidableEq ι] {g g' : Serving ι}
    (h : Running.Later backend S.Starts (Running.new Backend.new) g)
    (h' : Running.Later backend S.Starts g g') (w id : GoString) : Permanent w id g g' := by
  obtain ⟨hmakes, hi⟩ := serving_inv h w
  have hlater := (serving_later h' hmakes w).2
  constructor
  case actor =>
    intro d hd
    obtain ⟨d', hd', hactor, -⟩ := hlater.device hi hd
    exact ⟨d', hd', hactor⟩
  case once =>
    rw [hi.revoked]
    split <;> simp
  case effect =>
    intro actor hok
    show ((g.store.store.answer w (.revoke id actor)).2 w).isRevoked id = true
    rw [Memory.answer_self]
    exact Space.revoke_takes_effect hok
  case revoked =>
    intro hr
    obtain ⟨d, hd, hrevoked⟩ := Space.isRevoked_iff.mp hr
    obtain ⟨d', hd', -, heq⟩ := hlater.device hi hd
    refine ⟨?_, hlater.pushedBy hi hr, denied (hlater.isRevoked hi hr)⟩
    rw [hd', hd, heq hrevoked]

/-- The same of the rows of a workspace, at a moment and at any later one. -/
structure PermanentRows (pg : Pg) (w : GoString) (r r' : Rows) : Prop where
  actor : ∀ x ∈ r.devices, ∃ y ∈ r'.devices, y.id = x.id ∧ y.actor = x.actor
  once : ∀ id, Space.audited r.auditEvents deviceRevoked id ≤ 1
  effect : ∀ id actor, (r.write pg w (.revoke id actor)).1 = .ok .done →
    ∃ x ∈ (r.write pg w (.revoke id actor)).2.devices, pg.uuid id = some x.id ∧ x.revoked = true
  revoked : ∀ x ∈ r.devices, x.revoked = true →
    x ∈ r'.devices ∧ r'.pushedBy x.id = r.pushedBy x.id ∧
      ∀ id, pg.uuid id = some x.id → r'.Refused pg w id

theorem rows_permanent {pg : Pg} {w : GoString} {r r' : Rows} (hr : r.Registered pg)
    (h : RowLock.Later (workload pg w) r r') : PermanentRows pg w r r' := by
  obtain ⟨hr', hholds⟩ := later_holds h hr
  constructor
  case actor =>
    intro x hx
    obtain ⟨y, hy, hid, hactor, -⟩ := hholds.devices x hx
    exact ⟨y, hy, hid, hactor⟩
  case once => exact hr.once
  case effect => exact fun id actor hok => Rows.revoke_takes_effect hr hok
  case revoked =>
    intro x hx hrevoked
    obtain ⟨y, hy, -, -, heq⟩ := hholds.devices x hx
    obtain rfl := heq hrevoked
    exact ⟨hy, hholds.pushed y hx hrevoked, fun id hid => Rows.refused hr' hy hrevoked hid⟩

/-- **Revocation is permanent.** In every run, with either adapter. -/
theorem revocation_permanent :
    (∀ (S : Server) {ι : Type} [DecidableEq ι] {g g' : Serving ι},
      Running.Later backend S.Starts (Running.new Backend.new) g →
      Running.Later backend S.Starts g g' → ∀ w id, Permanent w id g g') ∧
    ∀ (pg : Pg) (w : GoString) {ι : Type} [DecidableEq ι]
      {d d' : RowLock.Db ι Rows Err Result Write Read (Except Err Result)},
      RowLock.Reachable (workload pg w) Rows.new d →
      Relation.ReflTransGen (RowLock.Step (workload pg w)) d d' →
      PermanentRows pg w d.committed d'.committed := by
  refine ⟨fun S _ _ _ _ h h' w id => serving_permanent h h' w id, fun pg w _ _ d d' h h' => ?_⟩
  exact rows_permanent (later_holds h.inv.serial Rows.new_registered).1 (h.later h')

/-- A push that has passed `identity` when its device is revoked. -/
theorem revocation_permanent_run : ∃ g : Serving Bool,
    Running.Later backend demo.Starts (Running.new Backend.new) g ∧
      (∃ batch next, g.sessions true =
        some (.call (.store (go "site-a") (.push tablet.id (go "ada") batch)) next)) ∧
      Denied (go "site-a") tablet.id g.store := by
  let push := requestOf .push (go "ada") tablet.id
  let g₀ : Serving Bool := Running.new Backend.new
  have h₁ : Running.Later backend demo.Starts g₀ _ :=
    run_steps (i := false) (x := demo.handler (requestOf .register (go "ada") tablet.id)) ⟨_, rfl⟩ rfl
  have h₂ := h₁.tail (Running.Step.start true (demo.handler push) rfl ⟨_, rfl⟩)
  have h₃ := h₂.tail (Running.Step.call true _ _ (by rfl))
  have h₄ := h₃.tail (Running.Step.call true _ _ (by rfl))
  have h₅ := h₄.trans
    (run_steps (i := false) (x := demo.handler (requestOf (.revoke tablet.id) (go "ada") tablet.id))
      ⟨_, rfl⟩ rfl)
  refine ⟨_, h₅, ⟨[firstEdit], _, by rfl⟩, ?_⟩
  have hpermanent := revocation_permanent.1 demo h₅ Relation.ReflTransGen.refl (go "site-a") tablet.id
  exact (hpermanent.revoked (by decide)).2.2

end Syncraft.Api
