import Mathlib.Data.List.Pairwise
import Mathlib.Logic.Function.Basic
import Mathlib.Logic.Relation

/-!
# Syncraft.Library.RowLock

**Transactions behind one row lock.** Writers run statement after statement against the
committed state and their own writes, and commit or roll back; each takes the lock of one
row first, inserting the row if it is not there. Readers run a few statements without a
lock, each against what is committed at that moment.

Of the database it is assumed that a row lock is held to the end of the transaction, that
an uncommitted insert of a key blocks other inserts of it, that a commit is atomic, and that
a statement reads what is committed when it starts, with the transaction's own writes on
top. Every interleaving of the sessions' statements is a run (`Step`).

* `Reachable.inv`: what is committed is always what the committed transactions would have
  made one after the other (`Later`), and a reader saw such states in that order (`Trail`).
-/

namespace Syncraft.RowLock

/-! ### Transaction bodies -/

/-- A transaction body over rows `σ`: statements, then success or failure. A statement
reads the rows and either fails or changes them. -/
inductive Tx (σ ε α : Type) where
  | done (a : α)
  | fail (e : ε)
  | stmt (effect : σ → Except ε (σ → σ)) (next : σ → Tx σ ε α)

namespace Tx

variable {σ ε α β : Type}

/-- Run one body and then another. -/
def bind : Tx σ ε α → (α → Tx σ ε β) → Tx σ ε β
  | done a, f => f a
  | fail e, _ => fail e
  | stmt effect next, f => stmt effect fun s => (next s).bind f

instance : Monad (Tx σ ε) where
  pure := done
  bind := bind

/-- Run a body with nothing else going on. A failure rolls back. -/
def run : Tx σ ε α → σ → Except ε (α × σ)
  | done a, s => .ok (a, s)
  | fail e, _ => .error e
  | stmt effect next, s =>
    match effect s with
    | .ok δ => (next s).run (δ s)
    | .error e => .error e

/-- A statement that reads. -/
def ask (q : σ → α) : Tx σ ε α := stmt (fun _ => .ok id) fun s => done (q s)

/-- A statement that writes, or fails. -/
def exec (effect : σ → Except ε (σ → σ)) : Tx σ ε Unit := stmt effect fun _ => done ()

@[simp] theorem run_ask (q : σ → α) (s : σ) : (ask q : Tx σ ε α).run s = .ok (q s, s) := rfl

theorem run_exec_ok {effect : σ → Except ε (σ → σ)} {s : σ} {δ : σ → σ} (h : effect s = .ok δ) :
    (exec effect).run s = .ok ((), δ s) := by
  rw [exec, run, h]
  rfl

theorem run_exec_error {effect : σ → Except ε (σ → σ)} {s : σ} {e : ε} (h : effect s = .error e) :
    (exec effect).run s = .error e := by
  rw [exec, run, h]

/-- Run a sequence part by part. -/
theorem run_bind (x : Tx σ ε α) (f : α → Tx σ ε β) (s : σ) :
    (x >>= f).run s =
      match x.run s with
      | .ok (a, s') => (f a).run s'
      | .error e => .error e := by
  show (x.bind f).run s = _
  induction x generalizing s with
  | done a => rfl
  | fail e => rfl
  | stmt effect next ih =>
      rw [bind, run, run]
      cases effect s with
      | ok δ => exact ih s (δ s)
      | error e => rfl

/-- A sequence that starts with a body that succeeds. -/
theorem run_bind_ok {x : Tx σ ε α} {s s' : σ} {a : α} (h : x.run s = .ok (a, s'))
    (f : α → Tx σ ε β) : (x >>= f).run s = (f a).run s' := by
  rw [run_bind, h]

/-- A sequence that starts with a body that fails. -/
theorem run_bind_error {x : Tx σ ε α} {s : σ} {e : ε} (h : x.run s = .error e)
    (f : α → Tx σ ε β) : (x >>= f).run s = .error e := by
  rw [run_bind, h]

/-- Invert a sequence that succeeds. -/
theorem run_bind_inv {x : Tx σ ε α} {f : α → Tx σ ε β} {s t : σ} {b : β}
    (h : (x >>= f).run s = .ok (b, t)) :
    ∃ a s', x.run s = .ok (a, s') ∧ (f a).run s' = .ok (b, t) := by
  cases hx : x.run s with
  | ok r =>
      obtain ⟨a, s'⟩ := r
      rw [run_bind_ok hx] at h
      exact ⟨a, s', rfl, h⟩
  | error e => rw [run_bind_error hx] at h; cases h

/-- Every statement of the body changes the rows within `R`. -/
def Keeps (R : σ → σ → Prop) : Tx σ ε α → Prop
  | done _ => True
  | fail _ => True
  | stmt effect next => (∀ s δ, effect s = .ok δ → R s (δ s)) ∧ ∀ s, (next s).Keeps R

theorem Keeps.bind {R : σ → σ → Prop} {x : Tx σ ε α} {f : α → Tx σ ε β} (hx : x.Keeps R)
    (hf : ∀ a, (f a).Keeps R) : (x >>= f).Keeps R := by
  show (x.bind f).Keeps R
  induction x with
  | done a => exact hf a
  | fail e => trivial
  | stmt effect next ih => exact ⟨hx.1, fun s => ih s (hx.2 s)⟩

theorem Keeps.ask {R : σ → σ → Prop} (hrefl : ∀ s, R s s) (q : σ → α) :
    (ask q : Tx σ ε α).Keeps R :=
  ⟨fun s _ h => by cases h; exact hrefl s, fun _ => trivial⟩

theorem Keeps.exec {R : σ → σ → Prop} {effect : σ → Except ε (σ → σ)}
    (h : ∀ s δ, effect s = .ok δ → R s (δ s)) : (exec effect).Keeps R :=
  ⟨h, fun _ => trivial⟩

/-- A body whose every statement stays within `R` stays within `R`. -/
theorem Keeps.run {R : σ → σ → Prop} (hrefl : ∀ s, R s s)
    (htrans : ∀ s t u, R s t → R t u → R s u) {x : Tx σ ε α} (hx : x.Keeps R) {s s' : σ} {a : α}
    (h : x.run s = .ok (a, s')) : R s s' := by
  induction x generalizing s with
  | done b =>
      obtain ⟨-, rfl⟩ := Prod.mk.inj (Except.ok.inj h)
      exact hrefl s
  | fail e => cases h
  | stmt effect next ih =>
      simp only [Tx.run] at h
      cases he : effect s with
      | ok δ =>
          rw [he] at h
          exact htrans _ _ _ (hx.1 s δ he) (ih s (hx.2 s) h)
      | error e => rw [he] at h; cases h

end Tx

/-! ### Queries -/

/-- A query: statements that only read, each what is committed then. -/
inductive Query (σ β : Type) where
  | ret (b : β)
  | read (next : σ → Query σ β)

namespace Query

variable {σ β : Type}

/-- Run a query with nothing else going on. -/
def run : Query σ β → σ → β
  | ret b, _ => b
  | read next, s => (next s).run s

/-- Do something to the reply. -/
def map {γ : Type} (f : β → γ) : Query σ β → Query σ γ
  | ret b => ret (f b)
  | read next => read fun s => (next s).map f

/-- What is left of a query once its statements have read the states of the trail. -/
def after : Query σ β → List σ → Option (Query σ β)
  | q, [] => some q
  | ret _, _ :: _ => none
  | read next, s :: trail => (next s).after trail

@[simp] theorem after_nil (q : Query σ β) : q.after [] = some q := by
  cases q with
  | ret b => rfl
  | read next => rfl

theorem after_snoc {q rest : Query σ β} {trail : List σ} {next : σ → Query σ β}
    (h : q.after trail = some rest) (hrest : rest = read next) (s : σ) :
    q.after (trail ++ [s]) = some (next s) := by
  induction trail generalizing q with
  | nil =>
      simp only [after_nil] at h
      obtain rfl := Option.some.inj h
      subst hrest
      exact after_nil _
  | cons t trail ih =>
      cases q with
      | ret b => cases h
      | read more => exact ih h

theorem after_map {γ : Type} (f : β → γ) (q : Query σ β) (trail : List σ) :
    (q.map f).after trail = (q.after trail).map (Query.map f) := by
  induction trail generalizing q with
  | nil => simp
  | cons s trail ih =>
      cases q with
      | ret b => rfl
      | read next => exact ih (next s)

theorem run_map {γ : Type} (f : β → γ) (q : Query σ β) (s : σ) :
    (q.map f).run s = f (q.run s) := by
  induction q with
  | ret b => rfl
  | read next ih => exact ih s

/-- Invert the end of a query whose reply was changed. -/
theorem after_map_ret {γ : Type} {f : β → γ} {q : Query σ β} {trail : List σ} {c : γ}
    (h : (q.map f).after trail = some (ret c)) : ∃ b, q.after trail = some (ret b) ∧ f b = c := by
  simp only [after_map] at h
  obtain ⟨rest, hrest, hmap⟩ := Option.map_eq_some_iff.mp h
  cases rest with
  | ret b => exact ⟨b, hrest, by cases hmap; rfl⟩
  | read next => cases hmap

end Query

/-! ### Sessions -/

/-- The transactions and queries of a database whose writers lock one row. -/
structure Workload (σ ε α ω ρ β : Type) where
  /-- The row to lock is there. -/
  present : σ → Bool
  /-- Insert it. -/
  create : σ → σ
  body : ω → Tx σ ε α
  query : ρ → Query σ β
  present_create (s : σ) : present (create s) = true
  /-- No transaction deletes the row. -/
  present_run {w : ω} {a : α} {s s' : σ} : present s = true → (body w).run s = .ok (a, s') →
    present s' = true

/-- The answer to a query. `started` counts the answers given before the query began and
`trail` lists the states its statements read; both are kept for the proofs. -/
structure Answer (σ ρ β : Type) where
  request : ρ
  started : Nat
  trail : List σ
  reply : β

/-- What a session is doing. A locked transaction keeps what is left of its body and the
writes it has made. -/
inductive Session (σ ε α ω ρ β : Type) where
  | idle
  /-- The transaction has begun. -/
  | begun (w : ω)
  /-- The insert found the row in place and locked nothing. -/
  | ensured (w : ω)
  | locked (w : ω) (rest : Tx σ ε α) (writes : σ → σ)
  | reading (r : ρ) (started : Nat) (trail : List σ) (rest : Query σ β)

/-- The database: what is committed, who holds the row lock, what every session is doing,
and the answers given. -/
structure Db (ι σ ε α ω ρ β : Type) where
  committed : σ
  holder : Option ι
  sessions : ι → Session σ ε α ω ρ β
  answers : List (Answer σ ρ β)

variable {ι σ ε α ω ρ β : Type} [DecidableEq ι]

/-- A session goes on to something else. -/
def Db.goto (d : Db ι σ ε α ω ρ β) (i : ι) (x : Session σ ε α ω ρ β) : Db ι σ ε α ω ρ β :=
  { d with sessions := Function.update d.sessions i x }

/-- A database nobody is using. -/
def Db.new (s : σ) : Db ι σ ε α ω ρ β :=
  { committed := s, holder := none, sessions := fun _ => .idle, answers := [] }

/-- One step of one session. -/
inductive Step (W : Workload σ ε α ω ρ β) (d : Db ι σ ε α ω ρ β) : Db ι σ ε α ω ρ β → Prop where
  | begin (i : ι) (w : ω) : d.sessions i = .idle → Step W d (d.goto i (.begun w))
  /-- `INSERT … ON CONFLICT DO NOTHING` finds the row. -/
  | found (i : ι) (w : ω) : d.sessions i = .begun w → W.present d.committed = true →
      Step W d (d.goto i (.ensured w))
  /-- It inserts the row, which locks it. Another's uncommitted insert would make it wait. -/
  | insert (i : ι) (w : ω) : d.sessions i = .begun w → W.present d.committed = false →
      d.holder = none →
      Step W d { d.goto i (.locked w (W.body w) W.create) with holder := some i }
  /-- `SELECT … FOR UPDATE`, once nobody else holds the row. -/
  | lock (i : ι) (w : ω) : d.sessions i = .ensured w → d.holder = none →
      Step W d { d.goto i (.locked w (W.body w) id) with holder := some i }
  | stmt (i : ι) (w : ω) (effect : σ → Except ε (σ → σ)) (next : σ → Tx σ ε α) (writes δ : σ → σ) :
      d.sessions i = .locked w (.stmt effect next) writes →
      effect (writes d.committed) = .ok δ →
      Step W d (d.goto i (.locked w (next (writes d.committed)) (δ ∘ writes)))
  | commit (i : ι) (w : ω) (a : α) (writes : σ → σ) :
      d.sessions i = .locked w (.done a) writes →
      Step W d { d.goto i .idle with committed := writes d.committed, holder := none }
  /-- A statement failed, the body gave up, or the connection was lost. -/
  | rollback (i : ι) (w : ω) (rest : Tx σ ε α) (writes : σ → σ) :
      d.sessions i = .locked w rest writes →
      Step W d { d.goto i .idle with holder := none }
  /-- The connection was lost before the lock was taken, or while reading. -/
  | leave (i : ι) : (∀ w rest writes, d.sessions i ≠ .locked w rest writes) →
      Step W d (d.goto i .idle)
  | ask (i : ι) (r : ρ) : d.sessions i = .idle →
      Step W d (d.goto i (.reading r d.answers.length [] (W.query r)))
  | read (i : ι) (r : ρ) (k : Nat) (trail : List σ) (next : σ → Query σ β) :
      d.sessions i = .reading r k trail (.read next) →
      Step W d (d.goto i (.reading r k (trail ++ [d.committed]) (next d.committed)))
  | answer (i : ι) (r : ρ) (k : Nat) (trail : List σ) (b : β) :
      d.sessions i = .reading r k trail (.ret b) →
      Step W d { d.goto i .idle with
        answers := d.answers ++ [{ request := r, started := k, trail := trail, reply := b }] }

/-- A database after some steps, from the rows `s`. -/
def Reachable (W : Workload σ ε α ω ρ β) (s : σ) (d : Db ι σ ε α ω ρ β) : Prop :=
  Relation.ReflTransGen (Step W) (Db.new s) d

/-! ### Serial runs -/

/-- The rows once the row to lock is there. -/
def Workload.ensure (W : Workload σ ε α ω ρ β) (s : σ) : σ :=
  if W.present s then s else W.create s

/-- One transaction, run with nothing else going on, and committed. -/
def Serial (W : Workload σ ε α ω ρ β) (s s' : σ) : Prop :=
  ∃ w a, (W.body w).run (W.ensure s) = .ok (a, s')

/-- Some transactions, run one after the other, and committed. -/
def Later (W : Workload σ ε α ω ρ β) (s s' : σ) : Prop := Relation.ReflTransGen (Serial W) s s'

theorem Workload.present_ensure (W : Workload σ ε α ω ρ β) (s : σ) :
    W.present (W.ensure s) = true := by
  unfold Workload.ensure
  split
  · next h => exact h
  · exact W.present_create s

theorem Serial.present {W : Workload σ ε α ω ρ β} {s s' : σ} (h : Serial W s s') :
    W.present s' = true := by
  obtain ⟨w, a, hrun⟩ := h
  exact W.present_run (W.present_ensure s) hrun

/-- What a property of the rows needs to hold of every committed state. -/
theorem Later.keeps {W : Workload σ ε α ω ρ β} {P : σ → Prop} {s s' : σ} (h : Later W s s')
    (hs : P s) (hstep : ∀ t t', P t → Serial W t t' → P t') : P s' := by
  induction h with
  | refl => exact hs
  | tail _ h ih => exact hstep _ _ ih h

/-- States read one after the other, all from `s₀` on and no later than `s`. -/
def Trail (W : Workload σ ε α ω ρ β) (s₀ s : σ) (trail : List σ) : Prop :=
  (s₀ :: (trail ++ [s])).Pairwise (Later W)

theorem Trail.nil {W : Workload σ ε α ω ρ β} {s₀ s : σ} (h : Later W s₀ s) : Trail W s₀ s [] := by
  simpa [Trail] using h

theorem Trail.pairwise {W : Workload σ ε α ω ρ β} {s₀ s : σ} {trail : List σ}
    (h : Trail W s₀ s trail) : trail.Pairwise (Later W) := by
  unfold Trail at h
  simp only [List.pairwise_cons, List.pairwise_append] at h
  exact h.2.1

theorem Trail.from {W : Workload σ ε α ω ρ β} {s₀ s : σ} {trail : List σ}
    (h : Trail W s₀ s trail) {t : σ} (ht : t ∈ trail) : Later W s₀ t := by
  unfold Trail at h
  simp only [List.pairwise_cons] at h
  exact h.1 t (List.mem_append_left _ ht)

theorem Trail.to {W : Workload σ ε α ω ρ β} {s₀ s : σ} {trail : List σ}
    (h : Trail W s₀ s trail) {t : σ} (ht : t ∈ trail) : Later W t s := by
  unfold Trail at h
  simp only [List.pairwise_cons, List.pairwise_append] at h
  exact h.2.2.2 t ht s (List.mem_singleton_self s)

theorem Trail.last {W : Workload σ ε α ω ρ β} {s₀ s : σ} {trail : List σ}
    (h : Trail W s₀ s trail) : Later W s₀ s := by
  unfold Trail at h
  simp only [List.pairwise_cons] at h
  exact h.1 s (List.mem_append_right _ (List.mem_singleton_self s))

/-- A trail is still one once more has been committed. -/
theorem Trail.later {W : Workload σ ε α ω ρ β} {s₀ s s' : σ} {trail : List σ}
    (h : Trail W s₀ s trail) (hs : Later W s s') : Trail W s₀ s' trail := by
  have hto : ∀ t ∈ trail, Later W t s' := fun t ht => (h.to ht).trans hs
  have hfrom : ∀ t ∈ trail, Later W s₀ t := fun t ht => h.from ht
  unfold Trail
  rw [List.pairwise_cons, List.pairwise_append]
  refine ⟨fun t ht => ?_, h.pairwise, List.pairwise_singleton _ _, fun t ht u hu => ?_⟩
  · rcases List.mem_append.mp ht with ht | ht
    · exact hfrom t ht
    · simp only [List.mem_singleton] at ht; subst ht; exact h.last.trans hs
  · simp only [List.mem_singleton] at hu; subst hu; exact hto t ht

/-- Reading what is committed extends the trail. -/
theorem Trail.snoc {W : Workload σ ε α ω ρ β} {s₀ s : σ} {trail : List σ}
    (h : Trail W s₀ s trail) : Trail W s₀ s (trail ++ [s]) := by
  have hall := h.last
  unfold Trail at h ⊢
  simp only [List.pairwise_cons] at h ⊢
  refine ⟨fun t ht => ?_, ?_⟩
  · rcases List.mem_append.mp ht with ht | ht
    · exact h.1 t ht
    · simp only [List.mem_singleton] at ht; subst ht; exact hall
  · rw [List.pairwise_append]
    refine ⟨h.2, List.pairwise_singleton _ _, fun t ht u hu => ?_⟩
    simp only [List.mem_singleton] at hu
    subst hu
    rcases List.mem_append.mp ht with ht | ht
    · have hp := h.2
      simp only [List.pairwise_append] at hp
      exact hp.2.2 t ht u (List.mem_singleton_self u)
    · simp only [List.mem_singleton] at ht
      subst ht
      exact Relation.ReflTransGen.refl

/-! ### The invariant -/

/-- Every state the listed answers read is one that `s` comes after. -/
def After (W : Workload σ ε α ω ρ β) (answers : List (Answer σ ρ β)) (s : σ) : Prop :=
  ∀ x ∈ answers, ∀ t ∈ x.trail, Later W t s

/-- What holds between the steps, from the rows `s₀` on. -/
structure Inv (W : Workload σ ε α ω ρ β) (s₀ : σ) (d : Db ι σ ε α ω ρ β) : Prop where
  serial : Later W s₀ d.committed
  ensured : ∀ i w, d.sessions i = .ensured w → W.present d.committed = true
  /-- A locked transaction holds the lock, and has come as far as a run of its body with
  nothing else going on. -/
  locked : ∀ i w rest writes, d.sessions i = .locked w rest writes →
    d.holder = some i ∧ (W.body w).run (W.ensure d.committed) = rest.run (writes d.committed)
  reading : ∀ i r k trail rest, d.sessions i = .reading r k trail rest →
    k ≤ d.answers.length ∧ (W.query r).after trail = some rest ∧ Trail W s₀ d.committed trail ∧
      ∀ t ∈ trail, After W (d.answers.take k) t
  answers : ∀ x ∈ d.answers, (W.query x.request).after x.trail = some (.ret x.reply) ∧
    Trail W s₀ d.committed x.trail
  /-- What a query read, it read after everything the answers before it had read. -/
  ordered : ∀ x ∈ d.answers, ∀ t ∈ x.trail, After W (d.answers.take x.started) t
  started : ∀ x ∈ d.answers, x.started ≤ d.answers.length

omit [DecidableEq ι] in
theorem new_inv (W : Workload σ ε α ω ρ β) (s : σ) :
    Inv W s (Db.new s : Db ι σ ε α ω ρ β) where
  serial := Relation.ReflTransGen.refl
  ensured _ _ h := by cases h
  locked _ _ _ _ h := by cases h
  reading _ _ _ _ _ h := by cases h
  answers _ h := absurd h List.not_mem_nil
  ordered _ h := absurd h List.not_mem_nil
  started _ h := absurd h List.not_mem_nil

/-- Inverting what a session does after one session went on to something else. -/
theorem update_cases {γ : Type} {f : ι → γ} {i j : ι} {x y : γ}
    (h : Function.update f i x j = y) : j = i ∧ x = y ∨ j ≠ i ∧ f j = y := by
  by_cases hj : j = i
  · subst hj
    simp only [Function.update_self] at h
    exact Or.inl ⟨rfl, h⟩
  · rw [Function.update_of_ne hj] at h
    exact Or.inr ⟨hj, h⟩

omit [DecidableEq ι] in
/-- Nobody else can be locked. -/
theorem Inv.alone {W : Workload σ ε α ω ρ β} {s₀ : σ} {d : Db ι σ ε α ω ρ β} (hi : Inv W s₀ d)
    {i j : ι} {w w' : ω} {rest rest' : Tx σ ε α} {writes writes' : σ → σ}
    (h : d.sessions i = .locked w rest writes) (h' : d.sessions j = .locked w' rest' writes') :
    j = i := by
  have hh := (hi.locked i w rest writes h).1
  have hh' := (hi.locked j w' rest' writes' h').1
  rw [hh] at hh'
  exact (Option.some.inj hh').symm

/-- A session that goes on without touching the rows, the lock or the answers. -/
theorem Inv.goto {W : Workload σ ε α ω ρ β} {s₀ : σ} {d : Db ι σ ε α ω ρ β} (hi : Inv W s₀ d)
    {i : ι} {x : Session σ ε α ω ρ β}
    (hensured : ∀ w, x = .ensured w → W.present d.committed = true)
    (hlocked : ∀ w rest writes, x = .locked w rest writes → d.holder = some i ∧
      (W.body w).run (W.ensure d.committed) = rest.run (writes d.committed))
    (hreading : ∀ r k trail rest, x = .reading r k trail rest → k ≤ d.answers.length ∧
      (W.query r).after trail = some rest ∧ Trail W s₀ d.committed trail ∧
      ∀ t ∈ trail, After W (d.answers.take k) t) : Inv W s₀ (d.goto i x) := by
  refine ⟨hi.serial, ?_, ?_, ?_, hi.answers, hi.ordered, hi.started⟩
  · intro j w h
    replace h := update_cases h
    rcases h with ⟨rfl, h⟩ | ⟨-, h⟩
    · exact hensured w h
    · exact hi.ensured j w h
  · intro j w rest writes h
    replace h := update_cases h
    rcases h with ⟨rfl, h⟩ | ⟨-, h⟩
    · exact hlocked w rest writes h
    · exact hi.locked j w rest writes h
  · intro j r k trail rest h
    replace h := update_cases h
    rcases h with ⟨rfl, h⟩ | ⟨-, h⟩
    · exact hreading r k trail rest h
    · exact hi.reading j r k trail rest h

/-- A session that has just taken the lock. -/
theorem Inv.take {W : Workload σ ε α ω ρ β} {s₀ : σ} {d : Db ι σ ε α ω ρ β} (hi : Inv W s₀ d)
    {i : ι} {w : ω} {writes : σ → σ} (hfree : d.holder = none)
    (hwrites : writes d.committed = W.ensure d.committed) :
    Inv W s₀ { d.goto i (.locked w (W.body w) writes) with holder := some i } := by
  refine ⟨hi.serial, ?_, ?_, ?_, hi.answers, hi.ordered, hi.started⟩
  · intro j w' h
    replace h := update_cases h
    rcases h with ⟨rfl, h⟩ | ⟨-, h⟩
    · cases h
    · exact hi.ensured j w' h
  · intro j w' rest writes' h
    replace h := update_cases h
    rcases h with ⟨rfl, h⟩ | ⟨-, h⟩
    · cases h
      exact ⟨rfl, by show _ = (W.body w).run (writes d.committed); rw [hwrites]; rfl⟩
    · have := (hi.locked j w' rest writes' h).1
      rw [hfree] at this; cases this
  · intro j r k trail rest h
    replace h := update_cases h
    rcases h with ⟨rfl, h⟩ | ⟨-, h⟩
    · cases h
    · exact hi.reading j r k trail rest h

/-- The lock holder leaves, having committed `s'` or nothing. -/
theorem Inv.release {W : Workload σ ε α ω ρ β} {s₀ s' : σ} {d : Db ι σ ε α ω ρ β}
    (hi : Inv W s₀ d) {i : ι} {w : ω} {rest : Tx σ ε α} {writes : σ → σ}
    (hlocked : d.sessions i = .locked w rest writes)
    (hs : s' = d.committed ∨ Serial W d.committed s') :
    Inv W s₀ { d.goto i .idle with committed := s', holder := none } := by
  have hlater : Later W d.committed s' := by
    rcases hs with rfl | hs
    · exact Relation.ReflTransGen.refl
    · exact Relation.ReflTransGen.single hs
  refine ⟨hi.serial.trans hlater, ?_, ?_, ?_, ?_, hi.ordered, hi.started⟩
  · intro j w' h
    replace h := update_cases h
    rcases h with ⟨rfl, h⟩ | ⟨-, h⟩
    · cases h
    · rcases hs with rfl | hs
      · exact hi.ensured j w' h
      · exact hs.present
  · intro j w' rest' writes' h
    replace h := update_cases h
    rcases h with ⟨rfl, h⟩ | ⟨hj, h⟩
    · cases h
    · exact absurd (hi.alone hlocked h) hj
  · intro j r k trail rest' h
    replace h := update_cases h
    rcases h with ⟨rfl, h⟩ | ⟨-, h⟩
    · cases h
    · obtain ⟨hk, hafter, htrail, hord⟩ := hi.reading j r k trail rest' h
      exact ⟨hk, hafter, htrail.later hlater, hord⟩
  · intro x hx
    obtain ⟨hafter, htrail⟩ := hi.answers x hx
    exact ⟨hafter, htrail.later hlater⟩

omit [DecidableEq ι] in
/-- A query has been answered. -/
theorem Inv.answered {W : Workload σ ε α ω ρ β} {s₀ : σ} {d : Db ι σ ε α ω ρ β} (hi : Inv W s₀ d)
    {x : Answer σ ρ β} (hstarted : x.started ≤ d.answers.length)
    (hafter : (W.query x.request).after x.trail = some (.ret x.reply))
    (htrail : Trail W s₀ d.committed x.trail)
    (hordered : ∀ t ∈ x.trail, After W (d.answers.take x.started) t) :
    Inv W s₀ { d with answers := d.answers ++ [x] } := by
  have htake : ∀ n, n ≤ d.answers.length → (d.answers ++ [x]).take n = d.answers.take n :=
    fun n hn => List.take_append_of_le_length hn
  have hlen : ∀ n, n ≤ d.answers.length → n ≤ (d.answers ++ [x]).length :=
    fun n hn => Nat.le_trans hn (List.prefix_append _ _).length_le
  have hmem : ∀ {y}, y ∈ d.answers ++ [x] → y ∈ d.answers ∨ y = x := fun hy =>
    (List.mem_append.mp hy).imp_right List.mem_singleton.mp
  refine { hi with reading := ?_, answers := ?_, ordered := ?_, started := ?_ }
  · intro i r k trail rest h
    obtain ⟨hk, hrest⟩ := hi.reading i r k trail rest h
    exact ⟨hlen k hk, by rwa [htake k hk]⟩
  · intro y hy
    rcases hmem hy with hy | rfl
    · exact hi.answers y hy
    · exact ⟨hafter, htrail⟩
  · intro y hy
    rcases hmem hy with hy | rfl
    · rw [htake _ (hi.started y hy)]
      exact hi.ordered y hy
    · rw [htake _ hstarted]
      exact hordered
  · intro y hy
    rcases hmem hy with hy | rfl
    · exact hlen _ (hi.started y hy)
    · exact hlen _ hstarted

/-- **One step keeps the invariant.** -/
theorem step_inv {W : Workload σ ε α ω ρ β} {s₀ : σ} {d d' : Db ι σ ε α ω ρ β} (hi : Inv W s₀ d)
    (h : Step W d d') : Inv W s₀ d' := by
  cases h with
  | begin i w hidle =>
      exact hi.goto (fun _ h => by cases h) (fun _ _ _ h => by cases h) fun _ _ _ _ h => by cases h
  | found i w hbegun hpresent =>
      exact hi.goto (fun _ _ => hpresent) (fun _ _ _ h => by cases h) fun _ _ _ _ h => by cases h
  | insert i w hbegun habsent hfree =>
      refine hi.take hfree ?_
      rw [Workload.ensure, habsent]
      rfl
  | lock i w hensured hfree =>
      refine hi.take hfree ?_
      rw [Workload.ensure, hi.ensured i w hensured]
      rfl
  | stmt i w effect next writes δ hlocked heffect =>
      obtain ⟨hholder, hrun⟩ := hi.locked i w _ writes hlocked
      refine hi.goto (fun _ h => by cases h) (fun w' rest writes' h => ?_)
        fun _ _ _ _ h => by cases h
      cases h
      refine ⟨hholder, ?_⟩
      rw [hrun, Tx.run, heffect]
      rfl
  | commit i w a writes hlocked =>
      obtain ⟨-, hrun⟩ := hi.locked i w _ writes hlocked
      exact hi.release hlocked (Or.inr ⟨w, a, hrun⟩)
  | rollback i w rest writes hlocked => exact hi.release hlocked (Or.inl rfl)
  | leave i hnot =>
      exact hi.goto (fun _ h => by cases h) (fun _ _ _ h => by cases h) fun _ _ _ _ h => by cases h
  | ask i r hidle =>
      refine hi.goto (fun _ h => by cases h) (fun _ _ _ h => by cases h) fun r' k trail rest h => ?_
      cases h
      exact ⟨Nat.le_refl _, Query.after_nil _, Trail.nil hi.serial, fun t ht => absurd ht List.not_mem_nil⟩
  | read i r k trail next hreading =>
      obtain ⟨hk, hafter, htrail, hord⟩ := hi.reading i r k trail _ hreading
      refine hi.goto (fun _ h => by cases h) (fun _ _ _ h => by cases h) fun r' k' trail' rest h => ?_
      cases h
      refine ⟨hk, Query.after_snoc hafter rfl _, htrail.snoc, fun t ht => ?_⟩
      rcases List.mem_append.mp ht with ht | ht
      · exact hord t ht
      · -- What is committed now comes after everything the answers read.
        simp only [List.mem_singleton] at ht
        subst ht
        exact fun x hx u hu => (hi.answers x (List.mem_of_mem_take hx)).2.to hu
  | answer i r k trail b hreading =>
      obtain ⟨hk, hafter, htrail, hord⟩ := hi.reading i r k trail _ hreading
      have hidle : Inv W s₀ (d.goto i .idle) :=
        hi.goto (fun _ h => by cases h) (fun _ _ _ h => by cases h) fun _ _ _ _ h => by cases h
      exact hidle.answered hk hafter htrail hord

/-- **Committed states are serial, and readers see them in order.** -/
theorem Reachable.inv {W : Workload σ ε α ω ρ β} {s : σ} {d : Db ι σ ε α ω ρ β}
    (h : Reachable W s d) : Inv W s d := by
  induction h with
  | refl => exact new_inv W s
  | tail _ hstep ih => exact step_inv ih hstep

/-- A step commits nothing, or one transaction. -/
theorem Step.committed {W : Workload σ ε α ω ρ β} {s₀ : σ} {d d' : Db ι σ ε α ω ρ β}
    (h : Step W d d') (hi : Inv W s₀ d) :
    d'.committed = d.committed ∨ Serial W d.committed d'.committed := by
  cases h with
  | commit i w a writes hlocked => exact Or.inr ⟨w, a, (hi.locked i w _ writes hlocked).2⟩
  | _ => exact Or.inl rfl

/-- What is committed later, some transactions have made of what is committed now. -/
theorem Reachable.later {W : Workload σ ε α ω ρ β} {s₀ : σ} {d d' : Db ι σ ε α ω ρ β}
    (h : Reachable W s₀ d) (h' : Relation.ReflTransGen (Step W) d d') :
    Later W d.committed d'.committed := by
  induction h' with
  | refl => exact Relation.ReflTransGen.refl
  | tail hrest hstep ih =>
      rcases hstep.committed (Reachable.inv (h.trans hrest)) with heq | hserial
      · rw [heq]; exact ih
      · exact ih.tail hserial

/-! ### Nothing else going on

A transaction or a query that no other session steps into is one of the runs. -/

/-- A locked transaction can run on to its commit. -/
theorem run_steps {W : Workload σ ε α ω ρ β} {i : ι} {w : ω} {x : Tx σ ε α} {a : α} {s' : σ}
    {d : Db ι σ ε α ω ρ β} (writes : σ → σ) (h : d.sessions i = .locked w x writes)
    (hrun : x.run (writes d.committed) = .ok (a, s')) :
    Relation.ReflTransGen (Step W) d { d.goto i .idle with committed := s', holder := none } := by
  induction x generalizing d writes with
  | done b =>
      obtain ⟨rfl, rfl⟩ := Prod.mk.inj (Except.ok.inj hrun)
      exact Relation.ReflTransGen.single (Step.commit i w b writes h)
  | fail e => cases hrun
  | stmt effect next ih =>
      simp only [Tx.run] at hrun
      cases he : effect (writes d.committed) with
      | error e => rw [he] at hrun; cases hrun
      | ok δ =>
          rw [he] at hrun
          have hstep := Step.stmt (W := W) i w effect next writes δ h he
          have hrest := ih (writes d.committed) (δ ∘ writes)
            (d := d.goto i (.locked w (next (writes d.committed)) (δ ∘ writes)))
            (Function.update_self _ _ _) hrun
          refine (Relation.ReflTransGen.single hstep).trans ?_
          simpa only [Db.goto, Function.update_idem] using hrest

/-- An idle session can run a transaction to its commit. -/
theorem serial_steps {W : Workload σ ε α ω ρ β} {i : ι} {w : ω} {a : α} {s' : σ}
    {d : Db ι σ ε α ω ρ β} (hidle : d.sessions i = .idle) (hfree : d.holder = none)
    (hrun : (W.body w).run (W.ensure d.committed) = .ok (a, s')) :
    Relation.ReflTransGen (Step W) d { d with committed := s' } := by
  have hback : Function.update d.sessions i .idle = d.sessions := by
    rw [← hidle, Function.update_eq_self]
  have hbegin := Step.begin (W := W) i w hidle
  have hbegun : (d.goto i (.begun w)).sessions i = .begun w := Function.update_self _ _ _
  unfold Workload.ensure at hrun
  cases hp : W.present d.committed with
  | true =>
      rw [hp, if_pos rfl] at hrun
      have hfound := Step.found (W := W) i w hbegun hp
      have hlock := Step.lock (W := W) (d := (d.goto i (.begun w)).goto i (.ensured w)) i w
        (Function.update_self _ _ _) hfree
      have hrest := run_steps (W := W) id
        (d := { ((d.goto i (.begun w)).goto i (.ensured w)).goto i (.locked w (W.body w) id) with
                holder := some i })
        (Function.update_self _ _ _) hrun
      refine (((Relation.ReflTransGen.single hbegin).tail hfound).tail hlock).trans ?_
      simpa only [Db.goto, Function.update_idem, hback, hfree] using hrest
  | false =>
      rw [hp, if_neg Bool.false_ne_true] at hrun
      have hinsert := Step.insert (W := W) i w hbegun hp hfree
      have hrest := run_steps (W := W) W.create
        (d := { (d.goto i (.begun w)).goto i (.locked w (W.body w) W.create) with
                holder := some i })
        (Function.update_self _ _ _) hrun
      refine ((Relation.ReflTransGen.single hbegin).tail hinsert).trans ?_
      simpa only [Db.goto, Function.update_idem, hback, hfree] using hrest

/-- An idle session can run a query to its answer. -/
theorem query_steps {W : Workload σ ε α ω ρ β} {i : ι} (r : ρ) {d : Db ι σ ε α ω ρ β}
    (hidle : d.sessions i = .idle) :
    ∃ trail, Relation.ReflTransGen (Step W) d
      { d with answers := d.answers ++
          [{ request := r, started := d.answers.length, trail := trail,
             reply := (W.query r).run d.committed }] } := by
  have hback : Function.update d.sessions i .idle = d.sessions := by
    rw [← hidle, Function.update_eq_self]
  -- The reads, from wherever the query has come to.
  have reads : ∀ (q : Query σ β) (trail : List σ) (e : Db ι σ ε α ω ρ β),
      e.sessions i = .reading r d.answers.length trail q →
      ∃ trail' b, b = q.run e.committed ∧ Relation.ReflTransGen (Step W) e
        (e.goto i (.reading r d.answers.length trail' (.ret b))) := by
    intro q
    induction q with
    | ret b =>
        intro trail e he
        refine ⟨trail, b, rfl, ?_⟩
        have : e.goto i (.reading r d.answers.length trail (.ret b)) = e := by
          rw [Db.goto, ← he, Function.update_eq_self]
        rw [this]
    | read next ih =>
        intro trail e he
        have hstep := Step.read (W := W) i r d.answers.length trail next he
        obtain ⟨trail', b, hb, hrest⟩ := ih e.committed (trail ++ [e.committed])
          (e.goto i (.reading r d.answers.length (trail ++ [e.committed]) (next e.committed)))
          (Function.update_self _ _ _)
        refine ⟨trail', b, hb, (Relation.ReflTransGen.single hstep).trans ?_⟩
        simpa only [Db.goto, Function.update_idem] using hrest
  have hask := Step.ask (W := W) i r hidle
  obtain ⟨trail, b, hb, hreads⟩ := reads (W.query r) []
    (d.goto i (.reading r d.answers.length [] (W.query r))) (Function.update_self _ _ _)
  have hanswer := Step.answer (W := W)
    (d := (d.goto i (.reading r d.answers.length [] (W.query r))).goto i
      (.reading r d.answers.length trail (.ret b))) i r d.answers.length trail b
    (Function.update_self _ _ _)
  refine ⟨trail, ?_⟩
  have hall := ((Relation.ReflTransGen.single hask).trans hreads).tail hanswer
  subst hb
  simpa only [Db.goto, Function.update_idem, hback] using hall

end Syncraft.RowLock
