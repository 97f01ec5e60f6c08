import Syncraft.System.StoreInvariant

/-!
# Syncraft.System.Invariant

The invariant of the whole system (`Inv`). It spans every device's store, what each engine is
about to do, the messages in flight and the server. One lemma for each kind of step carries
it (`phone_inv`, `push_inv`, …); `Reachable.inv` carries it over a run.

What holds of a message or of an engine refers to the server log only through "is in the log"
and "is a part of the log", which stay true when the log grows. That is why a push that commits
long after its device has given it up, or commits twice, breaks nothing.
-/

namespace Syncraft.System

open Syncraft.Field CausalLog

variable {δ : Type} {w : Setting}

/-! ### The invariant -/

/-- What holds of the place where an engine stands. -/
def PhaseInv (w : Setting) (requests : List Request) (server : Store.Space) (p : Phone) : Prop :=
  match p.phase with
  | .posting _ batch => ∀ o ∈ batch, Made w.made o
  | .posted _ batch k => (∀ o ∈ batch, Made w.made o) ∧ requests[k]? = some (pushRequest batch)
  | .acknowledging _ batch => ∀ o ∈ batch, Made w.made o ∧ o.toGo ∈ server.ops
  | .getting _ after => after = p.store.cursor
  | .got _ k => requests[k]? = some (.pull p.store.cursor)
  | .applying _ received => ∃ (c stop : Nat) (page : Domain.Page), p.store.cursor = c ∧
      Slice server.entries c stop page ∧ receivePage w.created page = some received
  | _ => True

/-- The invariant. -/
structure Inv (w : Setting) (s : System δ) : Prop where
  server : s.server.Inv
  /-- The log is made of edits. -/
  log : ∀ q ∈ s.server.ops, ∃ o, Made w.made o ∧ o.toGo = q
  store : ∀ i, StoreInv w.made s.server.ops (s.phones i).store
  phase : ∀ i, PhaseInv w s.requests s.server (s.phones i)
  saved : ∀ i, ∀ o ∈ s.saved i, o.stored ∈ (s.phones i).store.ops
  /-- A push request carries edits. -/
  pushes : ∀ r ∈ s.requests, ∀ body, r = .push body →
    ∃ batch, (∀ o ∈ batch, Made w.made o) ∧ r = pushRequest batch
  /-- A push that was answered is in the log. -/
  cursors : ∀ k n, (k, .cursor n) ∈ s.replies → ∃ batch,
    s.requests[k]? = some (pushRequest batch) ∧ ∀ o ∈ batch, o.toGo ∈ s.server.ops
  /-- A page is a part of the log, after the cursor asked for. -/
  pages : ∀ k page, (k, .page page) ∈ s.replies → ∃ c stop : Nat,
    s.requests[k]? = some (.pull c) ∧ Slice s.server.entries c stop page
  bundles : ∀ b ∈ s.bundles, ∃ ops : List Operation, (∀ o ∈ ops, Made w.made o) ∧
    b.operations = ops.map Operation.toJson

theorem new_inv : Inv w (new : System δ) where
  server := Store.Space.new_inv
  log _ h := absurd h List.not_mem_nil
  store _ := StoreInv.new w.made
  phase _ := trivial
  saved _ _ h := absurd h List.not_mem_nil
  pushes _ h := absurd h List.not_mem_nil
  cursors _ _ h := absurd h List.not_mem_nil
  pages _ _ h := absurd h List.not_mem_nil
  bundles _ h := absurd h List.not_mem_nil

/-! ### What grows -/

theorem getElem?_grows {β : Type} {xs ys : List β} (h : xs <+: ys) {k : Nat} {x : β}
    (hx : xs[k]? = some x) : ys[k]? = some x := by
  obtain ⟨t, rfl⟩ := h
  obtain ⟨hk, rfl⟩ := List.getElem?_eq_some_iff.mp hx
  rw [List.getElem?_append_left hk, List.getElem?_eq_getElem hk]

/-- The operations of a log that has grown. -/
theorem ops_grows {s s' : Store.Space} (h : s.entries <+: s'.entries) : s.ops <+: s'.ops := by
  obtain ⟨t, ht⟩ := h
  exact ⟨t.map Domain.Entry.operation, by rw [Store.Space.ops, Store.Space.ops, ← ht, List.map_append]⟩

/-- An engine is not affected by what others send and store. -/
theorem PhaseInv.grow {requests requests' : List Request} {server server' : Store.Space} {p : Phone}
    (h : PhaseInv w requests server p) (hreq : requests <+: requests')
    (hlog : server.entries <+: server'.entries) : PhaseInv w requests' server' p := by
  unfold PhaseInv at h ⊢
  cases hp : p.phase with
  | posting round batch => rw [hp] at h; exact h
  | posted round batch k => rw [hp] at h; exact ⟨h.1, getElem?_grows hreq h.2⟩
  | acknowledging round batch =>
      rw [hp] at h
      exact fun o ho => ⟨(h o ho).1, (ops_grows hlog).subset (h o ho).2⟩
  | getting round after => rw [hp] at h; exact h
  | got round k => rw [hp] at h; exact getElem?_grows hreq h
  | applying round page =>
      rw [hp] at h
      obtain ⟨c, stop, page, hc, hslice, hrec⟩ := h
      exact ⟨c, stop, page, hc, hslice.grow hlog, hrec⟩
  | _ => trivial

/-- It is not affected by changes of its own store that leave the cursor alone, either. -/
theorem PhaseInv.store {requests : List Request} {server : Store.Space} {p : Phone}
    (h : PhaseInv w requests server p) {store : LocalStore} (hc : store.cursor = p.store.cursor) :
    PhaseInv w requests server { p with store } := by
  unfold PhaseInv at h ⊢
  show match p.phase with
    | .posting _ batch => _
    | .posted _ batch k => _
    | .acknowledging _ batch => _
    | .getting _ after => after = store.cursor
    | .got _ k => requests[k]? = some (.pull store.cursor)
    | .applying _ received => ∃ (c stop : Nat) (page : Domain.Page), store.cursor = c ∧ _ ∧ _
    | _ => True
  rw [hc]
  exact h

/-- What it says where the engine stands. -/
theorem PhaseInv.at {requests : List Request} {server : Store.Space} {p : Phone}
    (h : PhaseInv w requests server p) {phase : Phase} (hp : p.phase = phase) :
    PhaseInv w requests server { p with phase } := by
  obtain rfl := hp
  exact h

/-! ### Steps of a device -/

/-- What is pending are edits. -/
theorem pending_made {log : List (Domain.Operation GoString)} {s : LocalStore}
    (h : StoreInv w.made log s) {batch : List Operation} (hp : s.pending = .ok batch) :
    ∀ o ∈ batch, Made w.made o := by
  simp only [LocalStore.pending_eq] at hp
  obtain rfl := Except.ok.inj hp
  exact fun o ho => h.made o (List.mem_filter.mp (List.mem_of_mem_take ho)).1

/-- Batches that make one request are the same operations to the server. -/
theorem toGo_of_pushRequest {a b : List Operation} (h : pushRequest a = pushRequest b) :
    a.map Operation.toGo = b.map Operation.toGo := by
  have hbody := Request.push.inj h
  have hjson : a.map Operation.toJson = b.map Operation.toJson := by
    refine List.map_injective_iff.mpr jsonEncode_injective ?_
    simp only [List.map_map]
    exact hbody
  have := congrArg (List.map fun j : Domain.Operation DartString => j.map toGo) hjson
  simp only [List.map_map] at this
  exact this

/-- The answer to a push says that its batch is in the log. -/
theorem Inv.accepted {s : System δ} (hi : Inv w s) {k n : Nat} {batch : List Operation}
    (hreq : s.requests[k]? = some (pushRequest batch)) (hans : (k, .cursor n) ∈ s.replies) :
    ∀ o ∈ batch, o.toGo ∈ s.server.ops := by
  obtain ⟨batch', hreq', hlog⟩ := hi.cursors k n hans
  rw [hreq] at hreq'
  have hsame := toGo_of_pushRequest (Option.some.inj hreq')
  intro o ho
  have hmem : o.toGo ∈ batch'.map Operation.toGo := hsame ▸ List.mem_map_of_mem ho
  obtain ⟨x, hx, hxo⟩ := List.mem_map.mp hmem
  exact hxo ▸ hlog x hx

/-- The answer to a pull is the part of the log after its cursor. -/
theorem Inv.page {s : System δ} (hi : Inv w s) {k : Nat} {after : Int} {page : Domain.Page}
    (hreq : s.requests[k]? = some (.pull after)) (hans : (k, .page page) ∈ s.replies) :
    ∃ c stop : Nat, after = c ∧ Slice s.server.entries c stop page := by
  obtain ⟨c, stop, hreq', hslice⟩ := hi.pages k page hans
  rw [hreq] at hreq'
  exact ⟨c, stop, Request.pull.inj (Option.some.inj hreq'), hslice⟩

/-- **One step of a device** keeps what holds of its store and its engine, and sends edits
only. -/
theorem phone_inv (he : Edits w.made) {s : System δ} (hi : Inv w s) {i : δ} {p : Phone}
    {sent : List Request}
    (h : Phone.Step w.created (fun k r => (k, r) ∈ s.replies) s.requests.length (s.phones i) p sent) :
    StoreInv w.made s.server.ops p.store ∧ PhaseInv w (s.requests ++ sent) s.server p ∧
      (s.phones i).store.ops <+: p.store.ops ∧
      ∀ r ∈ sent, ∀ body, r = .push body →
        ∃ batch, (∀ o ∈ batch, Made w.made o) ∧ r = pushRequest batch := by
  have hstore := hi.store i
  have hphase := hi.phase i
  have hnext : ∀ r : Request, (s.requests ++ [r])[s.requests.length]? = some r := by simp
  have hnone : ∀ r ∈ ([] : List Request), ∀ body, r = .push body →
      ∃ batch, (∀ o ∈ batch, Made w.made o) ∧ r = pushRequest batch := by simp
  have hgrow : PhaseInv w (s.requests ++ []) s.server (s.phones i) :=
    hphase.grow (List.prefix_append _ _) List.prefix_rfl
  cases h with
  | start => exact ⟨hstore, trivial, List.prefix_rfl, hnone⟩
  | pending round batch _ _ hpend _ =>
      exact ⟨hstore, pending_made hstore hpend, List.prefix_rfl, hnone⟩
  | pushed => exact ⟨hstore, trivial, List.prefix_rfl, hnone⟩
  | pushedAll => exact ⟨hstore, trivial, List.prefix_rfl, hnone⟩
  | pendingThrows => exact ⟨hstore, trivial, List.prefix_rfl, hnone⟩
  | post round batch hp =>
      have hmade : ∀ o ∈ batch, Made w.made o := hphase.at hp
      refine ⟨hstore, ⟨hmade, hnext _⟩, List.prefix_rfl, fun r hr body _ => ?_⟩
      simp only [List.mem_singleton] at hr
      exact ⟨batch, hmade, hr⟩
  | accepted round batch request n hp hans =>
      obtain ⟨hmade, hreq⟩ := hphase.at hp
      have hlog := hi.accepted hreq hans
      exact ⟨hstore, fun o ho => ⟨hmade o ho, hlog o ho⟩, List.prefix_rfl, hnone⟩
  | refused => exact ⟨hstore, trivial, List.prefix_rfl, hnone⟩
  | lost => exact ⟨hstore, trivial, List.prefix_rfl, hnone⟩
  | record batch e text => exact ⟨hstore.failed _ _, trivial, List.prefix_rfl, hnone⟩
  | acknowledge round batch hp =>
      exact ⟨hstore.acknowledge he (hphase.at hp), trivial, List.prefix_rfl, hnone⟩
  | cursor => exact ⟨hstore, rfl, List.prefix_rfl, hnone⟩
  | pulledAll => exact ⟨hstore, trivial, List.prefix_rfl, hnone⟩
  | get round after hp =>
      have hafter : after = (s.phones i).store.cursor := hphase.at hp
      refine ⟨hstore, ?_, List.prefix_rfl, fun r hr body hb => ?_⟩
      · show (s.requests ++ [Request.pull after])[s.requests.length]? = _
        rw [hnext, hafter]
      · simp only [List.mem_singleton] at hr
        rw [hr] at hb; cases hb
  | page round request page received hp hans hrec =>
      obtain ⟨c, stop, hc, hslice⟩ := hi.page (hphase.at hp) hans
      exact ⟨hstore, ⟨c, stop, page, hc, hslice, hrec⟩, List.prefix_rfl, hnone⟩
  | refusedPage => exact ⟨hstore, trivial, List.prefix_rfl, hnone⟩
  | lostPage => exact ⟨hstore, trivial, List.prefix_rfl, hnone⟩
  | apply round received store hp happly =>
      obtain ⟨c, stop, page, hc, hslice, hrec⟩ := hphase.at hp
      obtain ⟨store', hok, hinv, -, hpre, -⟩ := hstore.apply w.created he hi.server hi.log hc hslice hrec
      obtain rfl := Except.ok.inj (happly.symm.trans hok)
      refine ⟨hinv, ?_, hpre, hnone⟩
      show PhaseInv w _ _ { (s.phones i) with store, phase := _ }
      cases received.more <;> trivial
  | applyThrows => exact ⟨hstore, trivial, List.prefix_rfl, hnone⟩
  | uploaded => exact ⟨hstore, trivial, List.prefix_rfl, hnone⟩
  | uploadThrows => exact ⟨hstore, trivial, List.prefix_rfl, hnone⟩
  | caught => exact ⟨hstore, trivial, List.prefix_rfl, hnone⟩
  | pause => exact ⟨hstore, hgrow, List.prefix_rfl, hnone⟩
  | connect => exact ⟨hstore, hgrow, List.prefix_rfl, hnone⟩
  | deviceId uuid =>
      have hrows : ((s.phones i).store.deviceId uuid).2.ops = (s.phones i).store.ops ∧
          ((s.phones i).store.deviceId uuid).2.cursor = (s.phones i).store.cursor := by
        unfold LocalStore.deviceId
        split <;> exact ⟨rfl, rfl⟩
      exact ⟨hstore.deviceId uuid, hgrow.store hrows.2, hrows.1 ▸ List.prefix_rfl, hnone⟩
  | bind account => exact ⟨hstore.congr rfl rfl rfl, hgrow.store rfl, List.prefix_rfl, hnone⟩
  | attachments rows => exact ⟨hstore.congr rfl rfl rfl, hgrow.store rfl, List.prefix_rfl, hnone⟩
  | restart => exact ⟨hstore, trivial, List.prefix_rfl, hnone⟩

/-- Sending keeps what holds of requests, and of the answers to earlier ones. -/
theorem Inv.phone [DecidableEq δ] (he : Edits w.made) {s : System δ} (hi : Inv w s) {i : δ}
    {p : Phone} {sent : List Request}
    (h : Phone.Step w.created (fun k r => (k, r) ∈ s.replies) s.requests.length (s.phones i) p sent) :
    Inv w { s with phones := Function.update s.phones i p, requests := s.requests ++ sent } := by
  obtain ⟨hstore, hphase, hpre, hsent⟩ := phone_inv he hi h
  have hgrow := List.prefix_append s.requests sent
  refine ⟨hi.server, hi.log, fun j => ?_, fun j => ?_, fun j o ho => ?_, fun r hr => ?_,
    fun k n hk => ?_, fun k page hk => ?_, hi.bundles⟩
  · by_cases hj : j = i
    · subst hj; simpa using hstore
    · simpa [Function.update_of_ne hj] using hi.store j
  · by_cases hj : j = i
    · subst hj; simpa using hphase
    · simpa [Function.update_of_ne hj] using (hi.phase j).grow hgrow List.prefix_rfl
  · have hold := hi.saved j o ho
    by_cases hj : j = i
    · subst hj; simpa using hpre.subset hold
    · simpa [Function.update_of_ne hj] using hold
  · rcases List.mem_append.mp hr with hr | hr
    · exact hi.pushes r hr
    · exact hsent r hr
  · obtain ⟨batch, hreq, hlog⟩ := hi.cursors k n hk
    exact ⟨batch, getElem?_grows hgrow hreq, hlog⟩
  · obtain ⟨c, stop, hreq, hslice⟩ := hi.pages k page hk
    exact ⟨c, stop, getElem?_grows hgrow hreq, hslice⟩

/-! ### Saves and restores -/

/-- A device's store is replaced by one that holds as much and more, at the same cursor. -/
theorem Inv.stored [DecidableEq δ] {s : System δ} (hi : Inv w s) {i : δ} {store : LocalStore}
    {ops : List Operation} (hstore : StoreInv w.made s.server.ops store)
    (hcursor : store.cursor = (s.phones i).store.cursor)
    (hpre : (s.phones i).store.ops <+: store.ops) (hops : ∀ o ∈ ops, o.stored ∈ store.ops) :
    Inv w (s.store i store ops) := by
  refine ⟨hi.server, hi.log, fun j => ?_, fun j => ?_, fun j o ho => ?_, hi.pushes, hi.cursors,
    hi.pages, hi.bundles⟩
  · by_cases hj : j = i
    · subst hj; simpa [System.store] using hstore
    · simpa [System.store, Function.update_of_ne hj] using hi.store j
  · by_cases hj : j = i
    · subst hj; simpa [System.store] using (hi.phase j).store hcursor
    · simpa [System.store, Function.update_of_ne hj] using hi.phase j
  · by_cases hj : j = i
    · subst hj
      simp only [System.store, Function.update_self, List.mem_append] at ho ⊢
      exact ho.elim (fun ho => hpre.subset (hi.saved j o ho)) (hops o)
    · simp only [System.store, Function.update_of_ne hj] at ho ⊢
      exact hi.saved j o ho

theorem Inv.save [DecidableEq δ] (he : Edits w.made) {s : System δ} (hi : Inv w s) {i : δ}
    {batch : List Operation} {now : Operation → DartString} {store : LocalStore}
    (hbatch : ∀ o ∈ batch, w.made o) (h : (s.phones i).store.save batch now = .ok store) :
    Inv w (s.store i store batch) := by
  obtain ⟨hstore, hcursor, hpre, hops⟩ :=
    (hi.store i).save he (fun o ho => Made.of_made (hbatch o ho)) h
  exact hi.stored hstore hcursor hpre hops

theorem Inv.restore [DecidableEq δ] {s : System δ} (hi : Inv w s) {i : δ} {payload : Payload}
    {now : Operation → DartString} {store : LocalStore} (hmem : payload ∈ s.bundles)
    (h : RecoveryBundle.restore w.sha256 (s.phones i).store payload now = .ok store) :
    Inv w (s.store i store store.ops) := by
  obtain ⟨ops, hmade, hpayload⟩ := hi.bundles payload hmem
  obtain ⟨hstore, hcursor, hrows⟩ := (hi.store i).restore hmade hpayload h
  refine hi.stored hstore hcursor ?_ fun o ho => (hstore.made o ho).stored_eq.symm ▸ ho
  have hempty : (s.phones i).store.ops = [] := by simp [LocalStore.ops, hrows]
  rw [hempty]
  exact List.nil_prefix

theorem Inv.exportBundle {s : System δ} (hi : Inv w s) {i : δ} {payload : Payload}
    (h : RecoveryBundle.exportBundle (s.phones i).store = .ok payload) :
    Inv w { s with bundles := s.bundles ++ [payload] } := by
  refine { hi with bundles := fun b hb => ?_ }
  rcases List.mem_append.mp hb with hb | hb
  · exact hi.bundles b hb
  · simp only [RecoveryBundle.exportBundle, LocalStore.operations_eq] at h
    obtain rfl := Except.ok.inj h
    rw [List.mem_singleton.mp hb]
    exact ⟨_, (hi.store i).made, rfl⟩

/-! ### Steps of the server -/

/-- The log has grown, by edits. -/
theorem Inv.grow {s : System δ} (hi : Inv w s) {server : Store.Space} (hinv : server.Inv)
    (hgrow : s.server.entries <+: server.entries)
    (hlog : ∀ q ∈ server.ops, ∃ o, Made w.made o ∧ o.toGo = q) : Inv w { s with server } where
  server := hinv
  log := hlog
  store i := (hi.store i).grow (ops_grows hgrow)
  phase i := (hi.phase i).grow List.prefix_rfl hgrow
  saved := hi.saved
  pushes := hi.pushes
  cursors k n hk := by
    obtain ⟨batch, hreq, hall⟩ := hi.cursors k n hk
    exact ⟨batch, hreq, fun o ho => (ops_grows hgrow).subset (hall o ho)⟩
  pages k page hk := by
    obtain ⟨c, stop, hreq, hslice⟩ := hi.pages k page hk
    exact ⟨c, stop, hreq, hslice.grow hgrow⟩
  bundles := hi.bundles

/-- The server has given one more answer. -/
theorem Inv.reply {s : System δ} (hi : Inv w s) {k : Nat} {r : Api.Reply}
    (hcursor : ∀ n, r = .cursor n → ∃ batch,
      s.requests[k]? = some (pushRequest batch) ∧ ∀ o ∈ batch, o.toGo ∈ s.server.ops)
    (hpage : ∀ page, r = .page page → ∃ c stop : Nat,
      s.requests[k]? = some (.pull c) ∧ Slice s.server.entries c stop page) :
    Inv w { s with replies := s.replies ++ [(k, r)] } := by
  refine { hi with cursors := fun k' n hk => ?_, pages := fun k' page hk => ?_ }
  · rcases List.mem_append.mp hk with hk | hk
    · exact hi.cursors k' n hk
    · obtain ⟨rfl, hr⟩ := Prod.mk.inj (List.mem_singleton.mp hk)
      exact hcursor n hr.symm
  · rcases List.mem_append.mp hk with hk | hk
    · exact hi.pages k' page hk
    · obtain ⟨rfl, hr⟩ := Prod.mk.inj (List.mem_singleton.mp hk)
      exact hpage page hr.symm

theorem acceptAll_grows (device actor : GoString) (s : Store.Space)
    (fresh : List (Domain.Operation GoString)) :
    s.entries <+: (Store.Space.acceptAll device actor s fresh).entries := by
  induction fresh generalizing s with
  | nil => exact List.prefix_rfl
  | cons o rest ih =>
      refine List.IsPrefix.trans ?_ (ih (Store.Space.accept device actor s o))
      exact List.prefix_append _ _

/-- The handler decodes what the devices send. -/
theorem decode_pushed (batch : List Operation) :
    (batch.map fun o => jsonEncode o.toJson).mapM Api.decodeOperation =
      some (batch.map Operation.toGo) := by
  induction batch with
  | nil => rfl
  | cons o rest ih =>
      rw [List.map_cons, List.mapM_cons, decodeOperation_sent, ih]
      rfl

/-- **A push request that is handled** either changes nothing and is answered with a problem,
or its whole batch is in the log afterwards. -/
theorem push_handled {s : Store.Space} (hi : s.Inv) (batch : List Operation)
    (device actor : GoString) :
    ((Api.push s device actor (batch.map fun o => jsonEncode o.toJson)).2 = s ∧
      ∃ e, (Api.push s device actor (batch.map fun o => jsonEncode o.toJson)).1 = Api.problem e) ∨
    ∃ n s', Api.push s device actor (batch.map fun o => jsonEncode o.toJson) = (.cursor n, s') ∧
      s'.Inv ∧ s.entries <+: s'.entries ∧ admitAll s.ops (batch.map Operation.toGo) = .ok s'.ops := by
  have hinv := Store.Space.push_inv hi device actor (batch.map Operation.toGo)
  rw [Api.push, decode_pushed]
  rcases Store.Space.push_cases hi.causal device actor (batch.map Operation.toGo) with
    ⟨e, h⟩ | ⟨fresh, -, -, -, hadm, h⟩
  · dsimp only
    rw [h]
    exact Or.inl ⟨rfl, e, rfl⟩
  · dsimp only
    rw [h] at hinv ⊢
    refine Or.inr ⟨_, _, rfl, hinv, acceptAll_grows _ _ _ _, ?_⟩
    simp only [Store.Space.ops_acceptAll]
    exact hadm

theorem Inv.push (he : Edits w.made) {s : System δ} (hi : Inv w s) {k : Nat}
    {body : List (Domain.Operation JsonText.Literal)} (device actor : GoString)
    (hk : s.requests[k]? = some (.push body)) :
    Inv w { s with
      server := (Api.push s.server device actor body).2
      replies := s.replies ++ [(k, (Api.push s.server device actor body).1)] } := by
  obtain ⟨batch, hmade, hbody⟩ := hi.pushes _ (List.mem_of_getElem? hk) body rfl
  obtain rfl := Request.push.inj hbody
  rcases push_handled hi.server batch device actor with ⟨hserver, e, hreply⟩ |
    ⟨n, server, hpush, hinv, hgrow, hadm⟩
  · rw [hserver, hreply]
    refine hi.reply (fun n h => absurd h (Api.problem_ne_cursor e n)) fun p h => ?_
    exact absurd h (Api.problem_ne_page e p)
  · rw [hpush]
    have hlog : ∀ q ∈ server.ops, ∃ o, Made w.made o ∧ o.toGo = q := by
      intro q hq
      rcases mem_of_admitAll hadm hq with hold | hnew
      · exact hi.log q hold
      · obtain ⟨o, ho, rfl⟩ := List.mem_map.mp hnew
        exact ⟨o, hmade o ho, rfl⟩
    refine (hi.grow hinv hgrow hlog).reply (fun n _ => ⟨batch, hk, fun o ho => ?_⟩) fun p h => ?_
    · -- What the log holds under the ID is the operation itself.
      obtain ⟨x, hx, hsame⟩ := admitAll_holds hadm (List.mem_map_of_mem ho)
      obtain ⟨y, hy, rfl⟩ := hlog x (mem_of_find hx)
      have hyo := (same_toGo_iff (hy.wellFormed he) ((hmade o ho).wellFormed he)).mp hsame
      rw [← toGo_of_same hyo]
      exact mem_of_find hx
    · cases h

theorem Inv.pull {s : System δ} (hi : Inv w s) {k : Nat} {after : Int}
    (hk : s.requests[k]? = some (.pull after)) :
    Inv w { s with replies := s.replies ++ [(k, Api.pull s.server after)] } := by
  unfold Api.pull
  cases hp : s.server.pull after 100 with
  | error e =>
      exact hi.reply (fun n h => absurd h (Api.problem_ne_cursor e n)) fun p h =>
        absurd h (Api.problem_ne_page e p)
  | ok page =>
      refine hi.reply (fun n h => by cases h) fun p h => ?_
      cases h
      obtain ⟨c, stop, rfl, hslice⟩ := slice_of_pull hp
      exact ⟨c, stop, hk, hslice⟩

/-- Writes other than pushes leave the log alone. -/
theorem write_entries {s : Store.Space} {c : Store.Write}
    (hc : ∀ device actor batch, c ≠ .push device actor batch) : (s.write c).2.entries = s.entries := by
  cases c with
  | register d =>
      simp only [Store.Space.write, Store.Space.register]
      split
      · split <;> rfl
      · rfl
  | revoke id actor =>
      simp only [Store.Space.write, Store.Space.revoke]
      split
      · rfl
      · split <;> rfl
  | push device actor batch => exact absurd rfl (hc device actor batch)
  | putAttachment device actor a =>
      simp only [Store.Space.write, Store.Space.putAttachment]
      split
      · rfl
      · split
        · split <;> rfl
        · rfl

theorem Inv.other {s : System δ} (hi : Inv w s) {c : Store.Write} (hc : c.Handled)
    (hpush : ∀ device actor batch, c ≠ .push device actor batch) :
    Inv w { s with server := (s.server.write c).2 } := by
  have hentries := write_entries (s := s.server) hpush
  refine hi.grow (Store.Space.write_inv hi.server hc) (hentries ▸ List.prefix_rfl) fun q hq => ?_
  rw [Store.Space.ops, hentries] at hq
  exact hi.log q hq

/-! ### Runs -/

/-- **One step of the system keeps the invariant.** -/
theorem step_inv [DecidableEq δ] (he : Edits w.made) {s s' : System δ} (hi : Inv w s)
    (h : Step w s s') : Inv w s' := by
  cases h with
  | save i batch now store hbatch hok => exact hi.save he hbatch hok
  | seed i ops now store hseed hok => exact hi.save he (he.demo ops hseed) hok
  | exportBundle i payload hok => exact hi.exportBundle hok
  | restore i payload now store hmem hok => exact hi.restore hmem hok
  | phone i p sent hstep => exact hi.phone he hstep
  | push k body device actor hk => exact hi.push he device actor hk
  | pull k after hk => exact hi.pull hk
  | refuse k status message hk =>
      exact hi.reply (fun n h => by cases h) fun p h => by cases h
  | other c hc hpush => exact hi.other hc hpush

/-- **The invariant holds in every reachable state.** -/
theorem Reachable.inv [DecidableEq δ] (he : Edits w.made) {s : System δ} (h : Reachable w s) :
    Inv w s := by
  induction h with
  | refl => exact new_inv
  | tail _ hstep ih => exact step_inv he ih hstep

end Syncraft.System
