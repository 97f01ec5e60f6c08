import Syncraft.System.Invariant

/-!
# Syncraft.System.Progress

What a device gets done when nothing disturbs it. What it has pending is accepted by the server
as it stands (`Inv.pending_accepted`), so that a round of the push loop takes the batch to the
server and out of the outbox (`push_round`); a round of the pull loop brings the next page into
the table (`pull_round`).
-/

namespace Syncraft.System

open Syncraft.Field CausalLog

variable {δ : Type} {w : Setting}

/-! ### What is pending -/

/-- An operation in the table is queued, or the server holds it. -/
theorem Inv.pushed {s : System δ} (hi : Inv w s) {i : δ} {o : Operation}
    (ho : o ∈ (s.phones i).store.ops) :
    (s.phones i).store.queued o.id = true ∨ o.toGo ∈ s.server.ops :=
  ((hi.store i).pushed o ho).imp_left LocalStore.queued_iff.mpr

/-- What a device has pending is admitted by the log, whatever else the log holds. -/
theorem Inv.pending_admitted (he : Edits w.made) {s : System δ} (hi : Inv w s) {i : δ}
    {batch : List Operation} (hp : (s.phones i).store.pending = .ok batch) :
    ∃ r, admitAll s.server.ops (batch.map Operation.toGo) = .ok r := by
  have hstore := hi.store i
  obtain ⟨log, hlog, hmade⟩ := exists_local hi.log
  have hcausal : Causal log := wire.causal_map.mp (hlog.symm ▸ hi.server.causal)
  let queued (o : Operation) : Bool := (s.phones i).store.queued o.id
  -- The log holds, in the device's form, whatever is not queued.
  have hheld : ∀ o ∈ (s.phones i).store.ops, queued o = false →
      ∃ x, find log (CausalNode.key o) = some x ∧ Same x o := by
    intro o ho hq
    rcases hi.pushed ho with hqueued | hmem
    · exact absurd (hq.symm.trans hqueued) Bool.false_ne_true
    · rw [← hlog] at hmem
      obtain ⟨x, hx, hxo⟩ := List.mem_map.mp hmem
      obtain rfl := (hmade x hx).eq_of_toGo he (hstore.made o ho) hxo
      exact ⟨x, hcausal.find_of_mem hx, Same.refl x⟩
  obtain ⟨r, hr, -⟩ := admitAll_filter hstore.causal hheld
    fun o ho => agrees_of_made he hmade (hstore.made o ho)
  -- `LIMIT 100` cuts the queue, and what is left out comes later.
  rw [← List.take_append_drop 100 (List.filter queued _)] at hr
  obtain ⟨mid, hmid, -⟩ := admitAll_cut hr
  simp only [LocalStore.pending_eq] at hp
  obtain rfl := Except.ok.inj hp
  have hwell : ∀ o ∈ log, Text.WellFormed o.value := fun o ho => (hmade o ho).wellFormed he
  have hmap := wire.admitAll_map hwell fun o ho =>
    (pending_made hstore (LocalStore.pending_eq _) o ho).wellFormed he
  rw [hlog, hmid] at hmap
  exact ⟨_, hmap⟩

/-- A batch that is pending and not empty has a size the server takes. -/
theorem pending_size {s : LocalStore} {batch : List Operation} (h : s.pending = .ok batch)
    (hne : batch ≠ []) : Domain.BatchSize (batch.map Operation.toGo) := by
  have hlen : batch.length ≤ 100 := by
    simp only [LocalStore.pending_eq] at h
    obtain rfl := Except.ok.inj h
    simp only [List.length_take]
    exact Nat.min_le_left _ _
  simp only [Domain.BatchSize, List.length_map]
  exact ⟨List.length_pos_iff.mpr hne, hlen⟩

theorem valid_pushed (batch : List Operation) :
    ∀ q ∈ batch.map Operation.toGo, Domain.Valid q := by
  intro q hq
  obtain ⟨o, -, rfl⟩ := List.mem_map.mp hq
  exact valid_toGo o

/-- **`ValidateBatch` accepts what is pending.** -/
theorem Inv.pending_accepted (he : Edits w.made) {s : System δ} (hi : Inv w s) {i : δ}
    {batch : List Operation} (hp : (s.phones i).store.pending = .ok batch) (hne : batch ≠ []) :
    Domain.validateBatch (Store.Space.knownOf s.server.entries) (batch.map Operation.toGo) = .ok () :=
  (Domain.validateBatch_iff (Store.Space.knownOf_knows hi.server.causal _)).mpr
    ⟨pending_size hp hne, valid_pushed batch, hi.pending_admitted he hp⟩

/-! ### What a pull returns -/

/-- **A page for the current cursor is decoded and applied.** -/
theorem Inv.page_applied (he : Edits w.made) {s : System δ} (hi : Inv w s) {i : δ} {c stop : Nat}
    {page : Domain.Page} (hc : (s.phones i).store.cursor = c)
    (hslice : Slice s.server.entries c stop page) :
    ∃ received store, receivePage w.created page = some received ∧
      (s.phones i).store.applyPage received = .ok store ∧ store.cursor = stop ∧
      store.outbox = (s.phones i).store.outbox := by
  obtain ⟨received, -, -, hrec, -⟩ := receivePage_eq w.created he hi.server hi.log hslice
  obtain ⟨store, hok, -, hcursor, -, hout⟩ :=
    (hi.store i).apply w.created he hi.server hi.log hc hslice hrec
  exact ⟨received, store, hrec, hok, hcursor, hout⟩

/-- The server returns a page for every cursor a device can have. -/
theorem pull_slice {server : Store.Space} {c : Nat} (hc : c ≤ server.entries.length) {limit : Int}
    (h₁ : 1 ≤ limit) (h₂ : limit ≤ 200) :
    ∃ page, server.pull c limit = .ok page ∧
      Slice server.entries c (min (c + limit.toNat) server.entries.length) page ∧
      page.more = decide (min (c + limit.toNat) server.entries.length < server.entries.length) := by
  unfold Store.Space.pull
  rw [if_neg (by omega)]
  refine ⟨_, rfl, ?_, rfl⟩
  exact { le := by omega, bound := by omega, entries := rfl, cursor := rfl }

/-- The cursor of a device does not run ahead of the log. -/
theorem Inv.cursor_le {s : System δ} (hi : Inv w s) (i : δ) :
    ∃ c : Nat, (s.phones i).store.cursor = c ∧ c ≤ s.server.entries.length := by
  obtain ⟨c, hc, hle, -⟩ := (hi.store i).cursor
  simp only [Store.Space.ops, List.length_map] at hle
  exact ⟨c, hc, hle⟩

/-! ### Rounds -/

variable [DecidableEq δ]

/-- **What is pending reaches the server.** An active device that stands at the head of the
push loop posts what is pending, and the server stores it; the answer is on its way. -/
theorem push_sent (he : Edits w.made) {s : System δ} (hi : Inv w s) {i : δ} {round : Nat}
    (hphase : (s.phones i).phase = .pushing round) (hlt : round < 100) {batch : List Operation}
    (hp : (s.phones i).store.pending = .ok batch) (hne : batch ≠ []) {device actor : GoString}
    (hact : s.server.active device actor = true) :
    ∃ s' k n, Relation.ReflTransGen (Step w) s s' ∧
      s'.phones = Function.update s.phones i { s.phones i with phase := .posted round batch k } ∧
      s'.saved = s.saved ∧ (k, .cursor n) ∈ s'.replies ∧ s'.server.active = s.server.active ∧
      admitAll s.server.ops (batch.map Operation.toGo) = .ok s'.server.ops := by
  obtain ⟨r, hr⟩ := hi.pending_admitted he hp
  obtain ⟨fresh, rfl, hpush⟩ := Store.Space.push_ok hi.server.causal hact (pending_size hp hne)
    (valid_pushed batch) hr
  have hanswer : Api.push s.server device actor (batch.map fun o => jsonEncode o.toJson) =
      (.cursor (s.server.ops ++ fresh).length,
        Store.Space.acceptAll device actor s.server fresh) := by
    rw [Api.push, decode_pushed]
    dsimp only
    rw [hpush]
  have h₁ : Step w s _ := .phone i _ _ (.pending round batch hphase hlt hp hne)
  have h₂ := Relation.ReflTransGen.tail (.single h₁) (Step.phone i _ _ (.post round batch (by simp)))
  have h₃ := h₂.tail (Step.push s.requests.length (batch.map fun o => jsonEncode o.toJson) device
    actor (by simp [pushRequest]))
  refine ⟨_, s.requests.length, (s.server.ops ++ fresh).length, h₃, ?_, rfl, ?_, ?_, ?_⟩
  · simp
  · simp [hanswer]
  · simp [hanswer]
  · simp [hanswer, hr]

/-- **One round of the push loop**, undisturbed: the server holds the batch, and the outbox
does not. -/
theorem push_round (he : Edits w.made) {s : System δ} (hi : Inv w s) {i : δ} {round : Nat}
    (hphase : (s.phones i).phase = .pushing round) (hlt : round < 100) {batch : List Operation}
    (hp : (s.phones i).store.pending = .ok batch) (hne : batch ≠ []) {device actor : GoString}
    (hact : s.server.active device actor = true) :
    ∃ s', Relation.ReflTransGen (Step w) s s' ∧
      s'.phones = Function.update s.phones i
        { s.phones i with
          store := (s.phones i).store.acknowledge (batch.map fun o => o.id)
          phase := .pushing (round + 1) } ∧
      s'.server.active = s.server.active ∧
      admitAll s.server.ops (batch.map Operation.toGo) = .ok s'.server.ops := by
  obtain ⟨s₁, k, n, hrun, hphones, -, hreply, hactive, hlog⟩ :=
    push_sent he hi hphase hlt hp hne hact
  have h₁ := hrun.tail (Step.phone i _ _ (.accepted round batch k n (by simp [hphones]) hreply))
  have h₂ := h₁.tail (Step.phone i _ _ (.acknowledge round batch (by simp)))
  exact ⟨_, h₂, by simp [hphones], hactive, hlog⟩

/-- **One round of the pull loop**, undisturbed: the next page of the log is applied. -/
theorem pull_round (he : Edits w.made) {s : System δ} (hi : Inv w s) {i : δ} {round : Nat}
    (hphase : (s.phones i).phase = .pulling round) (hlt : round < 100) :
    ∃ s' store, Relation.ReflTransGen (Step w) s s' ∧ s'.server = s.server ∧
      s'.phones = Function.update s.phones i
        { s.phones i with
          store
          phase := if store.cursor < s.server.entries.length then .pulling (round + 1)
            else .uploading } ∧
      store.cursor = min ((s.phones i).store.cursor + 100) s.server.entries.length ∧
      store.outbox = (s.phones i).store.outbox := by
  obtain ⟨c, hc, hle⟩ := hi.cursor_le i
  obtain ⟨page, hpull, hslice, hmore⟩ := pull_slice hle (by decide : (1 : Int) ≤ 100) (by decide)
  obtain ⟨received, store, hrec, happly, hcursor, hout⟩ := hi.page_applied he hc hslice
  have hanswer : Api.pull s.server c = .page page := by rw [Api.pull, hpull]
  have hlast : received.more = decide (store.cursor < s.server.entries.length) := by
    rw [receivePage, Option.bind_eq_bind, Option.bind_eq_some_iff] at hrec
    obtain ⟨rs, -, hrs⟩ := hrec
    cases hrs
    rw [hmore, hcursor]
    exact decide_eq_decide.mpr (by omega)
  have h₁ : Step w s _ := .phone i _ _ (.cursor round hphase hlt)
  have h₂ := Relation.ReflTransGen.tail (.single h₁)
    (Step.phone i _ _ (.get round (s.phones i).store.cursor (by simp)))
  have h₃ := h₂.tail (Step.pull s.requests.length c (by simp [hc]))
  have h₄ := h₃.tail (Step.phone i _ _
    (.page round s.requests.length page received (by simp) (by simp [hanswer]) hrec))
  have h₅ := h₄.tail (Step.phone i _ _ (.apply round received store (by simp) (by simpa using happly)))
  refine ⟨_, store, h₅, rfl, ?_, by rw [hcursor, hc]; omega, hout⟩
  simp [hlast]

/-- **A device with nothing queued catches up**, undisturbed, when the rest of the log fits on a
page. -/
theorem catch_up (he : Edits w.made) {s : System δ} (hi : Inv w s) {i : δ} {round : Nat}
    (hphase : (s.phones i).phase = .pushing round) (hlt : round < 100)
    (hout : (s.phones i).store.outbox = [])
    (hpage : s.server.entries.length ≤ (s.phones i).store.cursor + 100) :
    ∃ s' store, Relation.ReflTransGen (Step w) s s' ∧ s'.server = s.server ∧
      s'.phones = Function.update s.phones i { s.phones i with store, phase := .uploading } ∧
      store.cursor = s.server.entries.length ∧ store.outbox = [] := by
  have hpending : (s.phones i).store.pending = .ok [] := by
    rw [LocalStore.pending_eq, List.filter_eq_nil_iff.mpr fun o _ => ?_, List.take_nil]
    rw [LocalStore.queued_iff, hout]
    exact List.not_mem_nil
  have h₁ : Step w s _ := .phone i _ _ (.pushed round hphase hlt hpending)
  obtain ⟨s', store, hrun, hserver, hphones, hcursor, hout'⟩ :=
    pull_round he (step_inv he hi h₁) (i := i) (by simp) (by decide : 0 < 100)
  simp only [Function.update_self, Function.update_idem] at hphones hcursor hout'
  rw [min_eq_right hpage] at hcursor
  refine ⟨s', store, .head h₁ hrun, hserver, ?_, hcursor, hout'.trans hout⟩
  rw [hphones, hcursor, if_neg (lt_irrefl _)]

end Syncraft.System
