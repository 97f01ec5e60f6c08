import Syncraft.Field.Pausing

/-!
# Syncraft.Field.Binding

The account a store is bound to. `login` looks at the binding, talks to the server twice, and only
then sets the binding; the token is shared. Two logins can pass the look before either has set
the account, and then the store changes hands, and what one account has saved is pushed with the
token of the other (`account_replaced`).

`exclusive` is what keeps them apart: it says when a login may get its token, and when the token
may be cleared. In runs that keep to it the binding stays, and pushes carry a token of its account
(`account_kept`).
-/

namespace Syncraft.Field.Engine

open Library (Run)

/-! ### Tokens -/

/-- The tokens that were issued, each with the username it was asked for with. -/
abbrev Issued : Type := List (DartString × DartString)

/-- The token that an event brings. -/
def issues (p : Platform) (s : Engine) : Event → Issued
  | .enter i o _ =>
    match s.logins[i]? with
    | some { username, phase := .posted, .. } =>
      match p.result o >>= Platform.tokenOf with
      | .ok token => [(token, username)]
      | .error _ => []
    | _ => []
  | _ => []

/-- An event, with the token that it brings. -/
def record (p : Platform) (s : Engine × Issued) (e : Event) : Engine × Issued :=
  (s.1.step p e, s.2 ++ s.1.issues p e)

/-- No login but the one at the place has its token. -/
def alone (s : Engine) (i : Nat) : Bool := (s.logins.eraseIdx i).all fun l => !l.holding

/-- May the event happen? A login gets its token only when the store is not bound to another
account, and no login for another username has its token. The token is cleared only when no other
login has its token; by a registration that fails, only when the application is not connected. -/
def exclusive (p : Platform) (s : Engine × Issued) : Event → Bool
  | .enter i o _ =>
    match s.1.logins[i]? with
    | some { username, phase := .posted, .. } =>
      match p.result o >>= Platform.tokenOf with
      | .ok _ =>
        (s.1.store.account == none || s.1.store.account == some (s.1.bindingOf username)) &&
          (s.1.logins.eraseIdx i).all fun l => !l.holding || l.username == username
      | .error _ => true
    | some { phase := .registering, .. } =>
      match p.result o with
      | .ok _ => true
      | .error _ => !s.1.connected && s.1.alone i
    | _ => true
  | .run i _ =>
    match s.1.runs[i]? with
    | some (.caught e) => !e.unauthorized || s.1.logins.all fun l => !l.holding
    | _ => true
  | .logout => s.1.logins.all fun l => !l.holding
  | _ => true

/-- Whoever has a token has it for the account. -/
structure Bound (s : Engine × Issued) : Prop where
  kept : s.1.store.Kept
  same : ∀ l ∈ s.1.logins, ∀ l' ∈ s.1.logins, l.holding = true → l'.holding = true →
    l.username = l'.username
  account : ∀ l ∈ s.1.logins, l.holding = true → ∀ b, s.1.store.account = some b →
    b = s.1.bindingOf l.username
  token : ∀ l ∈ s.1.logins, l.holding = true →
    ∃ token, s.1.token = some token ∧ (token, l.username) ∈ s.2
  set : ∀ l ∈ s.1.logins, l.phase = .bound → s.1.store.account = some (s.1.bindingOf l.username)
  connected : s.1.connected = true → ∃ username token,
    s.1.store.account = some (s.1.bindingOf username) ∧ s.1.token = some token ∧
      (token, username) ∈ s.2

theorem mem_set_cases {α : Type} {xs : List α} {i : Nat} {x y : α} (h : y ∈ xs.set i x) :
    y = x ∨ y ∈ xs.eraseIdx i := by
  obtain ⟨j, hj⟩ := List.mem_iff_getElem?.mp h
  rw [List.getElem?_set] at hj
  split at hj
  · split at hj
    · exact .inl (Option.some.inj hj).symm
    · cases hj
  · next hne => exact .inr (List.mem_eraseIdx_iff_getElem?.mpr ⟨j, Ne.symm hne, hj⟩)

section Steps

variable {p : Platform} {s t : Engine × Issued}

theorem Bound.new (base : DartString) {store : LocalStore} (hk : store.Kept) :
    Bound (new base store, []) where
  kept := hk
  same := List.forall_mem_nil _
  account := List.forall_mem_nil _
  token := List.forall_mem_nil _
  set := List.forall_mem_nil _
  connected h := absurd h Bool.false_ne_true

/-- What touches neither the account, the token nor who has one keeps it. -/
theorem Bound.keep (h : Bound s) (hkept : t.1.store.Kept) (hbase : t.1.base = s.1.base)
    (haccount : t.1.store.account = s.1.store.account) (htoken : t.1.token = s.1.token)
    (hconnected : t.1.connected = true → s.1.connected = true) (hissued : ∀ x ∈ s.2, x ∈ t.2)
    (hlogins : ∀ l ∈ t.1.logins, l.holding = true → ∃ l₀ ∈ s.1.logins, l₀.holding = true ∧
      l₀.username = l.username ∧ (l.phase = .bound → l₀.phase = .bound)) : Bound t := by
  have hbinding : ∀ username, t.1.bindingOf username = s.1.bindingOf username := by
    intro username
    rw [bindingOf, bindingOf, hbase]
  constructor
  case kept => exact hkept
  case same =>
    intro l hl l' hl' hholding hholding'
    obtain ⟨l₀, hl₀, hh₀, hu₀, -⟩ := hlogins l hl hholding
    obtain ⟨l₁, hl₁, hh₁, hu₁, -⟩ := hlogins l' hl' hholding'
    rw [← hu₀, ← hu₁]
    exact h.same l₀ hl₀ l₁ hl₁ hh₀ hh₁
  case account =>
    intro l hl hholding b hb
    obtain ⟨l₀, hl₀, hh₀, hu₀, -⟩ := hlogins l hl hholding
    rw [hbinding, ← hu₀]
    exact h.account l₀ hl₀ hh₀ b (haccount ▸ hb)
  case token =>
    intro l hl hholding
    obtain ⟨l₀, hl₀, hh₀, hu₀, -⟩ := hlogins l hl hholding
    obtain ⟨token, ht, hmem⟩ := h.token l₀ hl₀ hh₀
    exact ⟨token, htoken ▸ ht, hissued _ (hu₀ ▸ hmem)⟩
  case set =>
    intro l hl hbound
    obtain ⟨l₀, hl₀, -, hu₀, hb₀⟩ := hlogins l hl (by rw [Login.holding, hbound])
    rw [haccount, hbinding, ← hu₀]
    exact h.set l₀ hl₀ (hb₀ hbound)
  case connected =>
    intro hc
    obtain ⟨username, token, ha, ht, hmem⟩ := h.connected (hconnected hc)
    exact ⟨username, token, by rw [haccount, hbinding, ha], htoken ▸ ht, hissued _ hmem⟩

/-- A token that is cleared while nobody has one, and nobody is connected. -/
theorem Bound.clear (hkept : t.1.store.Kept) (hconnected : t.1.connected = false)
    (hlogins : ∀ l ∈ t.1.logins, l.holding = false) : Bound t := by
  have hnone : ∀ l ∈ t.1.logins, l.holding = true → False := by
    intro l hl hholding
    rw [hlogins l hl] at hholding
    cases hholding
  constructor
  case kept => exact hkept
  case same => exact fun l hl _ _ hholding => (hnone l hl hholding).elim
  case account => exact fun l hl hholding => (hnone l hl hholding).elim
  case token => exact fun l hl hholding => (hnone l hl hholding).elim
  case set => exact fun l hl hbound => (hnone l hl (by rw [Login.holding, hbound])).elim
  case connected =>
    intro hc
    rw [hconnected] at hc
    cases hc

/-- What changes the store but for the account, and what says whether a `synchronize` is under
way. -/
theorem Bound.flags (h : Bound s) {e : Event} {store : LocalStore} {busy paused : Bool}
    {error : Option Exn} {failures : Nat} {runs : List Phase}
    (heq : s.1.step p e = { s.1 with store, busy, paused, error, failures, runs })
    (hkept : store.Kept) (haccount : store.account = s.1.store.account) : Bound (record p s e) := by
  rw [record, heq]
  exact h.keep hkept rfl haccount rfl id (fun x hx => List.mem_append_left _ hx)
    fun l hl hholding => ⟨l, hl, hholding, rfl, id⟩

theorem all_not_holding {logins : List Login} (h : (logins.all fun l => !l.holding) = true) :
    ∀ l ∈ logins, l.holding = false := by
  intro l hl
  have hnot := List.all_eq_true.mp h l hl
  rwa [Bool.not_eq_true'] at hnot

/-- A `synchronize` that goes on. -/
theorem Bound.run (h : Bound s) {i : Nat} {o : Outcome}
    (he : exclusive p s (.run i o) = true) : Bound (record p s (.run i o)) := by
  have hkept : (s.1.step p (.run i o)).store.Kept := kept_step h.kept rfl
  cases hi : s.1.runs[i]? with
  | none =>
      have hsame : s.1.step p (.run i o) = { s.1 with runs := s.1.runs } := by rw [step, hi]
      exact h.flags hsame h.kept rfl
  | some phase =>
      have hstep := run_eq hi p o
      have haccount : (s.1.step p (.run i o)).store.account = s.1.store.account := by
        rcases step_store p s.1 (.run i o) with heq | ⟨c, heq⟩ | ⟨_, _, _, _, hevent, -⟩
        · rw [heq]
        · rw [heq]
          exact (h.kept.after_metadata c).1
        · cases hevent
      rcases advance_cases p o s.1 phase with ⟨store, next, heq⟩ | ⟨-, heq⟩ | ⟨e, rfl, heq⟩
      · rw [heq, withRun] at hstep
        rw [hstep] at hkept haccount
        exact h.flags hstep hkept haccount
      · rw [heq, withRun] at hstep
        exact h.flags hstep h.kept rfl
      · rw [heq, withRun] at hstep
        cases hunauthorized : e.unauthorized with
        | true =>
            rw [exclusive, hi] at he
            dsimp only at he
            rw [hunauthorized, Bool.not_true, Bool.false_or] at he
            refine .clear hkept ?_ ?_
            · dsimp only [record]
              rw [hstep]
              simp [fail, hunauthorized]
            · dsimp only [record]
              rw [hstep]
              exact all_not_holding he
        | false =>
            have hfail : s.1.fail e = { s.1 with
                error := some e, failures := s.1.failures + 1, busy := false } := by
              simp [fail, hunauthorized]
            rw [hfail] at hstep
            exact h.flags hstep h.kept rfl

section Enter

variable {i : Nat} {l : Login} {o : Outcome} {uuid : DartString}

/-- A login that ends, or goes on as it was: with its token or without. -/
theorem Bound.goes (h : Bound s) (hi : s.1.logins[i]? = some l) {store : LocalStore}
    {device : Option DartString} {logins : List Login}
    (heq : s.1.step p (.enter i o uuid) = { s.1 with store, device, logins })
    (hkept : store.Kept) (haccount : store.account = s.1.store.account)
    (hlogins : logins = s.1.logins.eraseIdx i ∨ ∃ phase,
      logins = s.1.logins.set i { l with phase } ∧ phase ≠ .bound ∧
        ({ l with phase } : Login).holding = l.holding) : Bound (record p s (.enter i o uuid)) := by
  have hown : ∀ l' ∈ s.1.logins.eraseIdx i, l'.holding = true → ∃ l₀ ∈ s.1.logins,
      l₀.holding = true ∧ l₀.username = l'.username ∧ (l'.phase = .bound → l₀.phase = .bound) :=
    fun l' hl' hholding => ⟨l', List.mem_of_mem_eraseIdx hl', hholding, rfl, id⟩
  rw [record, heq]
  refine h.keep hkept rfl haccount rfl id (fun x hx => List.mem_append_left _ hx)
    fun l' hl' hholding => ?_
  rcases hlogins with rfl | ⟨phase, rfl, hbound, hsame⟩
  · exact hown l' hl' hholding
  · rcases mem_set_cases hl' with rfl | hother
    · exact ⟨l, List.mem_of_getElem? hi, hsame ▸ hholding, rfl, fun hb => absurd hb hbound⟩
    · exact hown l' hother hholding

/-- What is asked of a login that gets its token. -/
theorem exclusive_granted {username password : DartString}
    (hi : s.1.logins[i]? = some { username, password, phase := .posted }) {token : DartString}
    (htoken : p.result o >>= Platform.tokenOf = .ok token)
    (he : exclusive p s (.enter i o uuid) = true) :
    (s.1.store.account = none ∨ s.1.store.account = some (s.1.bindingOf username)) ∧
      ∀ l' ∈ s.1.logins.eraseIdx i, l'.holding = true → l'.username = username := by
  rw [exclusive, hi] at he
  dsimp only at he
  rw [htoken] at he
  dsimp only at he
  rw [Bool.and_eq_true, Bool.or_eq_true, beq_iff_eq, beq_iff_eq] at he
  refine ⟨he.1, fun l' hl' hholding => ?_⟩
  have hor := List.all_eq_true.mp he.2 l' hl'
  rw [hholding, Bool.not_true, Bool.false_or, beq_iff_eq] at hor
  exact hor

/-- A login gets its token. -/
theorem Bound.granted (h : Bound s) (hi : s.1.logins[i]? = some l) (hphase : l.phase = .posted)
    {token : DartString} (htoken : p.result o >>= Platform.tokenOf = .ok token)
    (he : exclusive p s (.enter i o uuid) = true) : Bound (record p s (.enter i o uuid)) := by
  obtain ⟨username, password, phase⟩ := l
  obtain rfl : phase = .posted := hphase
  obtain ⟨hbinding, hsame⟩ := exclusive_granted hi htoken he
  have hstep := enter_eq hi p o uuid
  rw [advanceLogin] at hstep
  dsimp only at hstep
  rw [htoken] at hstep
  have hissues : s.1.issues p (.enter i o uuid) = [(token, username)] := by
    rw [issues, hi]
    dsimp only
    rw [htoken]
  have hrecord : record p s (.enter i o uuid) =
      ({ s.1 with
          token := some token
          logins := s.1.logins.set i { username, password, phase := .identifying } },
        s.2 ++ [(token, username)]) := by
    rw [record, hstep, hissues]
    rfl
  have hnew : ∀ l' ∈ s.1.logins.set i { username, password, phase := .identifying },
      l'.holding = true → l'.username = username := by
    intro l' hl' hholding
    rcases mem_set_cases hl' with rfl | hother
    · rfl
    · exact hsame l' hother hholding
  have hhas : (token, username) ∈ s.2 ++ [(token, username)] :=
    List.mem_append_right _ (List.mem_singleton_self _)
  rw [hrecord]
  constructor
  case kept => exact h.kept
  case same =>
    intro l₁ h₁ l₂ h₂ hh₁ hh₂
    rw [hnew l₁ h₁ hh₁, hnew l₂ h₂ hh₂]
  case account =>
    intro l' hl' hholding b hb
    rw [hnew l' hl' hholding]
    rcases hbinding with hnone | hsome
    · exact absurd (hnone.symm.trans hb) (by simp)
    · exact Option.some.inj (hb.symm.trans hsome)
  case token =>
    intro l' hl' hholding
    rw [hnew l' hl' hholding]
    exact ⟨token, rfl, hhas⟩
  case set =>
    intro l' hl' hbound
    rcases mem_set_cases hl' with rfl | hother
    · cases hbound
    · exact h.set l' (List.mem_of_mem_eraseIdx hother) hbound
  case connected =>
    intro hc
    obtain ⟨username', -, ha, -⟩ := h.connected hc
    refine ⟨username, token, ?_, rfl, hhas⟩
    rcases hbinding with hnone | hsome
    · exact absurd (hnone.symm.trans ha) (by simp)
    · exact hsome

/-- A login sets the account. -/
theorem Bound.binds (h : Bound s) (hi : s.1.logins[i]? = some l) (hphase : l.phase = .binding) :
    Bound (record p s (.enter i o uuid)) := by
  have hl := List.mem_of_getElem? hi
  have hholding : l.holding = true := by rw [Login.holding, hphase]
  have hrecord : record p s (.enter i o uuid) =
      ({ s.1 with
          store := { s.1.store with account := some (s.1.bindingOf l.username) }
          logins := s.1.logins.set i { l with phase := .bound } },
        s.2 ++ s.1.issues p (.enter i o uuid)) := by
    rw [record, enter_eq hi, advanceLogin, hphase]
    rfl
  have hold : ∀ l' ∈ s.1.logins.set i { l with phase := .bound }, l'.holding = true →
      ∃ l₀ ∈ s.1.logins, l₀.holding = true ∧ l₀.username = l'.username := by
    intro l' hl' hh
    rcases mem_set_cases hl' with rfl | hother
    · exact ⟨l, hl, hholding, rfl⟩
    · exact ⟨l', List.mem_of_mem_eraseIdx hother, hh, rfl⟩
  have hname : ∀ l' ∈ s.1.logins.set i { l with phase := .bound }, l'.holding = true →
      l'.username = l.username := by
    intro l' hl' hh
    obtain ⟨l₀, hl₀, hh₀, hu₀⟩ := hold l' hl' hh
    rw [← hu₀]
    exact h.same l₀ hl₀ l hl hh₀ hholding
  rw [hrecord]
  constructor
  case kept => exact ⟨h.kept.ids, h.kept.outbox⟩
  case same =>
    intro l₁ h₁ l₂ h₂ hh₁ hh₂
    rw [hname l₁ h₁ hh₁, hname l₂ h₂ hh₂]
  case account =>
    intro l' hl' hh b hb
    rw [hname l' hl' hh]
    exact (Option.some.inj hb).symm
  case token =>
    intro l' hl' hh
    obtain ⟨l₀, hl₀, hh₀, hu₀⟩ := hold l' hl' hh
    obtain ⟨token, ht, hmem⟩ := h.token l₀ hl₀ hh₀
    exact ⟨token, ht, List.mem_append_left _ (hu₀ ▸ hmem)⟩
  case set =>
    intro l' hl' hbound
    rw [hname l' hl' (by rw [Login.holding, hbound])]
    rfl
  case connected =>
    intro hc
    obtain ⟨username, token, ha, ht, hmem⟩ := h.connected hc
    -- Whoever was connected was so for this account.
    have heq := h.account l hl hholding _ ha
    exact ⟨username, token, by rw [← heq]; rfl, ht, List.mem_append_left _ hmem⟩

/-- A login ends, and the application is connected. -/
theorem Bound.enters (h : Bound s) (hi : s.1.logins[i]? = some l) (hphase : l.phase = .bound) :
    Bound (record p s (.enter i o uuid)) := by
  have hl := List.mem_of_getElem? hi
  have hkept : (s.1.step p (.enter i o uuid)).store.Kept := kept_step h.kept rfl
  obtain ⟨busy, error, runs, hsynchronize⟩ :=
    synchronize_eq { s.1 with connected := true, error := none }
  have hstep : s.1.step p (.enter i o uuid) = { s.1 with
      connected := true, busy, error, runs, logins := s.1.logins.eraseIdx i } := by
    rw [enter_eq hi, advanceLogin, hphase]
    show withLogin i l (_, none) = _
    rw [hsynchronize]
    rfl
  have hissued : ∀ x ∈ s.2, x ∈ (record p s (.enter i o uuid)).2 :=
    fun x hx => List.mem_append_left _ hx
  have hbound := h.set l hl hphase
  obtain ⟨token, htoken, hmem⟩ := h.token l hl (by rw [Login.holding, hphase])
  have hconnected : Bound ({ s.1 with connected := true }, s.2) :=
    { h with connected := fun _ => ⟨l.username, token, hbound, htoken, hmem⟩ }
  refine hconnected.keep hkept ?_ ?_ ?_ (fun _ => rfl) hissued fun l' hl' hholding => ?_
  · dsimp only [record]
    rw [hstep]
  · dsimp only [record]
    rw [hstep]
  · dsimp only [record]
    rw [hstep]
  · refine ⟨l', ?_, hholding, rfl, id⟩
    dsimp only [record] at hl'
    rw [hstep] at hl'
    exact List.mem_of_mem_eraseIdx hl'

/-- A login that goes on. -/
theorem Bound.enter (h : Bound s) (he : exclusive p s (.enter i o uuid) = true) :
    Bound (record p s (.enter i o uuid)) := by
  cases hi : s.1.logins[i]? with
  | none =>
      have hsame : s.1.step p (.enter i o uuid) = { s.1 with runs := s.1.runs } := by rw [step, hi]
      exact h.flags hsame h.kept rfl
  | some l =>
      have hstep := enter_eq hi p o uuid
      rw [advanceLogin] at hstep
      have hgoes : ∀ phase, s.1.step p (.enter i o uuid) =
          { s.1 with logins := s.1.logins.set i { l with phase } } → phase ≠ .bound →
          ({ l with phase } : Login).holding = l.holding → Bound (record p s (.enter i o uuid)) :=
        fun phase heq hbound hsame => h.goes hi heq h.kept rfl (.inr ⟨phase, rfl, hbound, hsame⟩)
      have hends : s.1.step p (.enter i o uuid) = { s.1 with logins := s.1.logins.eraseIdx i } →
          Bound (record p s (.enter i o uuid)) :=
        fun heq => h.goes hi heq h.kept rfl (.inl rfl)
      cases hphase : l.phase with
      | reading =>
          rw [hphase] at hstep
          exact hgoes _ hstep (by simp) (by rw [Login.holding, Login.holding, hphase])
      | read existing =>
          rw [hphase] at hstep
          dsimp only at hstep
          split at hstep
          · exact hends hstep
          · exact hgoes _ hstep (by simp) (by rw [Login.holding, Login.holding, hphase])
      | posted =>
          rw [hphase] at hstep
          dsimp only at hstep
          cases htoken : p.result o >>= Platform.tokenOf with
          | ok token => exact h.granted hi hphase htoken he
          | error e =>
              rw [htoken] at hstep
              exact hends hstep
      | identifying =>
          rw [hphase] at hstep
          have hkept : (s.1.store.deviceId uuid).2.Kept :=
            @LocalStore.Kept.after p.sha256 _ h.kept (.deviceId uuid)
          have haccount : (s.1.store.deviceId uuid).2.account = s.1.store.account :=
            (@LocalStore.Kept.after_metadata p.sha256 _ h.kept (.deviceId uuid)).1
          exact h.goes hi hstep hkept haccount
            (.inr ⟨_, rfl, by simp, by rw [Login.holding, Login.holding, hphase]⟩)
      | identified id =>
          rw [hphase] at hstep
          exact h.goes hi hstep h.kept rfl
            (.inr ⟨_, rfl, by simp, by rw [Login.holding, Login.holding, hphase]⟩)
      | registering =>
          rw [hphase] at hstep
          dsimp only at hstep
          cases hresult : p.result o with
          | ok json =>
              rw [hresult] at hstep
              exact hgoes _ hstep (by simp) (by rw [Login.holding, Login.holding, hphase])
          | error e =>
              rw [hresult] at hstep
              obtain ⟨username, password, phase⟩ := l
              obtain rfl : phase = .registering := hphase
              rw [exclusive, hi] at he
              dsimp only at he
              rw [hresult] at he
              dsimp only at he
              rw [Bool.and_eq_true, Bool.not_eq_true'] at he
              rw [record, hstep]
              exact .clear h.kept he.1 (all_not_holding he.2)
      | binding => exact h.binds hi hphase
      | bound => exact h.enters hi hphase

end Enter

/-- **Every event that is allowed keeps who has which token.** -/
theorem Bound.step (h : Bound s) {e : Event} (he : exclusive p s e = true)
    (hstep : record p s e = t) : Bound t := by
  obtain rfl := hstep
  cases e with
  | call c =>
      have heq : s.1.step p (.call c) = { s.1 with store := s.1.store.after p.sha256 c } := rfl
      exact h.flags heq (h.kept.after c) (h.kept.after_metadata c).1
  | synchronize =>
      obtain ⟨busy, error, runs, heq⟩ := s.1.synchronize_eq
      have hstep : s.1.step p .synchronize = { s.1 with busy, error, runs } := heq
      exact h.flags hstep h.kept rfl
  | setPaused value =>
      obtain ⟨busy, paused, error, runs, heq⟩ := s.1.setPaused_eq value
      have hstep : s.1.step p (.setPaused value) = { s.1 with busy, paused, error, runs } := heq
      exact h.flags hstep h.kept rfl
  | logout => exact .clear h.kept rfl (all_not_holding he)
  | login username password =>
      refine h.keep h.kept rfl rfl rfl id (fun x hx => List.mem_append_left _ hx)
        fun l hl hholding => ?_
      rcases List.mem_append.mp hl with hl | hl
      · exact ⟨l, hl, hholding, rfl, id⟩
      · obtain rfl := List.mem_singleton.mp hl
        cases hholding
  | dispose =>
      exact h.keep h.kept rfl rfl rfl id (fun x hx => List.mem_append_left _ hx)
        fun l hl hholding => ⟨l, hl, hholding, rfl, id⟩
  | run i o => exact h.run he
  | enter i o uuid => exact h.enter he

/-- The binding stays. -/
theorem Bound.account_step (h : Bound s) {e : Event} (hstep : record p s e = t) {b : DartString}
    (hb : s.1.store.account = some b) : t.1.store.account = some b := by
  obtain rfl := hstep
  show (s.1.step p e).store.account = some b
  rcases step_store p s.1 e with heq | ⟨c, heq⟩ | ⟨i, o, uuid, l, -, hi, hphase, heq⟩
  · rw [heq, hb]
  · rw [heq, (h.kept.after_metadata c).1, hb]
  · -- A login sets the account only to what it is.
    have hholding : l.holding = true := by rw [Login.holding, hphase]
    rw [heq, h.account l (List.mem_of_getElem? hi) hholding b hb]

/-- The steps that are allowed. -/
def Exclusive (p : Platform) (s : Engine × Issued) (e : Event) (t : Engine × Issued) : Prop :=
  record p s e = t ∧ exclusive p s e = true

/-- **Logins that do not meet keep the store to its account.** In every run in which each event is
`exclusive`, an account that the store is bound to stays for good, and whatever is pushed while the
application is connected carries a token that was issued for that account. -/
theorem account_kept {base : DartString} {store : LocalStore} (hk : store.Kept) {es : List Event}
    (h : Run (Exclusive p) (new base store, []) es s) :
    (∀ b, s.1.store.account = some b →
      ∀ fs t, Run (Exclusive p) s fs t → t.1.store.account = some b) ∧
    ∀ i o batch, s.1.sends (.run i o) = some (.push batch) → s.1.connected = true →
      ∃ username token, s.1.store.account = some (s.1.bindingOf username) ∧
        s.1.token = some token ∧ (token, username) ∈ s.2 := by
  have hstep : ∀ s e t, Bound s → Exclusive p s e t → Bound t :=
    fun _ _ _ hs hevent => hs.step hevent.2 hevent.1
  have hbound : Bound s := h.invariant hstep (.new base hk)
  refine ⟨fun b hb fs t hrun => ?_, fun _ _ _ _ hconnected => hbound.connected hconnected⟩
  refine hrun.related (R := fun s t => s.1.store.account = some b → t.1.store.account = some b)
    hstep (fun _ hs => hs) ?_ ?_ hbound hb
  · intro s t u hst htu hs
    exact htu (hst hs)
  · intro s e t hs hevent
    exact hs.account_step hevent.1

end Steps

/-! ### Two logins that meet -/

/-- A store with an edit on which two users log in at once. The first has its token when the
response to the second arrives. -/
def meeting : List Event :=
  [.call (.save [gate] fun _ => dart "now"),
    .login (dart "ada") (dart "secret"), .login (dart "bob") (dart "secret"),
    .enter 0 .lost [], .enter 1 .lost [], .enter 0 .lost [], .enter 1 .lost [],
    .enter 0 (answer "\x7b\"token\":\"ta\"\x7d") [], .enter 0 .lost gate.id, .enter 0 .lost [],
    .enter 1 (answer "\x7b\"token\":\"tb\"\x7d") [],
    .enter 0 (answer "\x7b\x7d") [], .enter 0 .lost [], .enter 0 .lost [], .run 0 .lost]

/-- The second login goes on to its end. -/
def leaving : List Event :=
  [.enter 0 .lost gate.id, .enter 0 .lost [], .enter 0 (answer "\x7b\x7d") [], .enter 0 .lost []]

/-- The first login has bound the store, and its edit leaves with the token of the second. Then the
second login binds the store to its own account. -/
theorem account_replaced :
    let s := meeting.foldl (record plain) (new localhost LocalStore.new, [])
    let t := leaving.foldl (record plain) s
    Run (fun s e t => record plain s e = t) (new localhost LocalStore.new, []) meeting s ∧
      Run (fun s e t => record plain s e = t) s leaving t ∧
      s.1.store.account = some (s.1.bindingOf (dart "ada")) ∧
      s.1.sends (.run 0 .lost) = some (.push [gate]) ∧ s.1.connected = true ∧
      s.1.token = some (dart "tb") ∧ s.2 = [(dart "ta", dart "ada"), (dart "tb", dart "bob")] ∧
      t.1.store.account = some (t.1.bindingOf (dart "bob")) :=
  ⟨Run.foldl _ _ _, Run.foldl _ _ _, by decide +kernel⟩

/-- An edit is saved, and the application connects. -/
def entering : List Event := .call (.save [gate] fun _ => dart "now") :: connecting ++ [.run 0 .lost]

/-- The edit leaves with the token of the only login. -/
theorem account_kept_run :
    let s := entering.foldl (record plain) (new localhost LocalStore.new, [])
    s.1.sends (.run 0 .lost) = some (.push [gate]) ∧ s.1.connected = true ∧
      ∃ username token, s.1.store.account = some (s.1.bindingOf username) ∧
        s.1.token = some token ∧ (token, username) ∈ s.2 := by
  have hrun := @Run.foldl_allowed _ _ (record plain) (exclusive plain)
    (new localhost LocalStore.new, []) entering (by decide +kernel)
  have hsends : (entering.foldl (record plain) (new localhost LocalStore.new, [])).1.sends
      (.run 0 .lost) = some (.push [gate]) ∧
      (entering.foldl (record plain) (new localhost LocalStore.new, [])).1.connected = true := by
    decide +kernel
  exact ⟨hsends.1, hsends.2,
    (account_kept LocalStore.kept_new hrun).2 0 .lost [gate] hsends.1 hsends.2⟩

end Syncraft.Field.Engine
