import Syncraft.Store.MemoryInvariant

/-!
# Syncraft.Store.Replay

What a sender may rely on when it does not know which of its pushes arrived. Cutting a
stream of operations into other batches, and sending accepted operations again, gives the
same log (`retransmission_harmless`); pushes of other devices do not invalidate a batch
(`pushes_commute`). Both are the laws of causal logs, read through `push_ok`.
-/

namespace Syncraft.Store

open Domain CausalLog

namespace Space

/-- Push the batches one after the other; every one has to be accepted. -/
def pushAll (device actor : GoString) : List (List (Operation GoString)) → Space → Except Err Space
  | [], s => .ok s
  | b :: rest, s =>
    match s.push device actor b with
    | (.ok _, s') => pushAll device actor rest s'
    | (.error e, _) => .error e

/-- The batches send `ops` in order, cut anywhere, each operation with its parents in any
order, and with operations the log has accepted by then mixed in anywhere. -/
structure Cutting (s : Space) (ops : List (Operation GoString))
    (batches : List (List (Operation GoString))) : Prop where
  size : ∀ b ∈ batches, BatchSize b
  sends : Sends s.ops ops batches.flatten

/-- One operation, stored twice: under one sequence number, by one device and actor. -/
def SameEntry (e e' : Entry) : Prop :=
  e.sequence = e'.sequence ∧ e.device = e'.device ∧ e.actor = e'.actor ∧
    equivalent e.operation e'.operation = true

/-- The two hold the same entries in order, up to parent order, and the same audit. -/
def SameLog (s s' : Space) : Prop :=
  List.Forall₂ SameEntry s.entries s'.entries ∧ s.audit = s'.audit

theorem SameLog.refl (s : Space) : s.SameLog s :=
  ⟨List.forall₂_same.mpr fun e _ => ⟨rfl, rfl, rfl, Same.refl e.operation⟩, rfl⟩

/-! ### Pushing batch after batch -/

/-- Batches of valid operations that the log admits are accepted, one after the other. -/
theorem pushAll_ok {s : Space} {device actor : GoString}
    {batches : List (List (Operation GoString))} {r : List (Operation GoString)} (hi : s.Inv)
    (hact : s.active device actor = true) (hsize : ∀ b ∈ batches, BatchSize b)
    (hv : ∀ o ∈ batches.flatten, Valid o) (h : admitAll s.ops batches.flatten = .ok r) :
    ∃ fresh, r = s.ops ++ fresh ∧
      pushAll device actor batches s = .ok (acceptAll device actor s fresh) := by
  induction batches generalizing s with
  | nil =>
      cases h
      exact ⟨[], by simp, rfl⟩
  | cons b rest ih =>
      simp only [List.flatten_cons] at h hv
      obtain ⟨mid, hmid, hrest⟩ := admitAll_cut h
      obtain ⟨fresh, rfl, hpush⟩ := push_ok hi.causal hact (hsize b List.mem_cons_self)
        (fun o ho => hv o (List.mem_append_left _ ho)) hmid
      have hi' : (acceptAll device actor s fresh).Inv := by
        have := push_inv hi device actor b
        rwa [hpush] at this
      obtain ⟨more, hr, hall⟩ := ih hi' (by simp only [acceptAll_active]; exact hact)
        (fun x hx => hsize x (List.mem_cons_of_mem _ hx))
        (fun o ho => hv o (List.mem_append_right _ ho)) (by simp only [ops_acceptAll]; exact hrest)
      refine ⟨fresh ++ more, ?_, ?_⟩
      · rw [hr, ops_acceptAll, List.append_assoc]
      · rw [pushAll, hpush, acceptAll_append]
        exact hall

/-- Batches that were accepted are of valid operations that the log admits. -/
theorem pushAll_admitted {s s' : Space} {device actor : GoString}
    {batches : List (List (Operation GoString))} (hi : s.Inv)
    (h : pushAll device actor batches s = .ok s') :
    (∀ o ∈ batches.flatten, Valid o) ∧ ∃ r, admitAll s.ops batches.flatten = .ok r := by
  induction batches generalizing s with
  | nil => exact ⟨by simp, s.ops, rfl⟩
  | cons b rest ih =>
      rw [pushAll] at h
      rcases push_cases hi.causal device actor b with
        ⟨e, he⟩ | ⟨fresh, hact, hsize, hv, hadm, hpush⟩
      · rw [he] at h; cases h
      · rw [hpush] at h
        have hi' : (acceptAll device actor s fresh).Inv := by
          have := push_inv hi device actor b
          rwa [hpush] at this
        obtain ⟨hvrest, r, hr⟩ := ih hi' h
        simp only [ops_acceptAll] at hr
        simp only [List.flatten_cons]
        refine ⟨fun o ho => ?_, r, ?_⟩
        · rcases List.mem_append.mp ho with ho | ho
          · exact hv o ho
          · exact hvrest o ho
        · rw [admitAll_append hadm]; exact hr

/-- Storing similar operations gives the same log. -/
theorem SameLog.acceptAll {s s' : Space} {fresh fresh' : List (Operation GoString)}
    (h : s.SameLog s') (hsim : Alike fresh fresh') (device actor : GoString) :
    (acceptAll device actor s fresh).SameLog (acceptAll device actor s' fresh') := by
  induction hsim generalizing s s' with
  | nil => exact h
  | @cons o o' _ _ ho _ ih =>
      obtain ⟨hentries, haudit⟩ := h
      have hid := (equivalent_iff.mp ho).1
      refine ih ⟨?_, by rw [accept_audit, accept_audit, haudit, hid]⟩
      simp only [accept_entries]
      refine List.rel_append hentries (List.Forall₂.cons ?_ List.Forall₂.nil)
      exact ⟨by rw [hentries.length_eq], rfl, rfl, ho⟩

/-- Two streams that send the same operations are stored alike. -/
theorem cuttings_agree {s : Space} (hi : s.Inv) {device actor : GoString}
    (hact : s.active device actor = true) {ops : List (Operation GoString)}
    {r : List (Operation GoString)} (hv : ∀ o ∈ ops, Valid o) (h : admitAll s.ops ops = .ok r)
    {batches batches' : List (List (Operation GoString))} (hcut : s.Cutting ops batches)
    (hcut' : s.Cutting ops batches') :
    ∃ s₁ s₂, pushAll device actor batches s = .ok s₁ ∧ pushAll device actor batches' s = .ok s₂ ∧
      s₁.SameLog s₂ := by
  have one : ∀ {batches}, s.Cutting ops batches → ∃ fresh, Alike r (s.ops ++ fresh) ∧
      pushAll device actor batches s = .ok (Space.acceptAll device actor s fresh) := by
    intro batches hcut
    obtain ⟨r', hr', hsim⟩ := admitAll_sends hcut.sends (Alike.refl _)
      (fun c hc => ⟨c, hi.causal.find_of_mem hc, Same.refl c⟩) h
    have hvalid : ∀ o ∈ batches.flatten, Valid o := by
      intro o ho
      obtain ⟨a, ha, hs⟩ := hcut.sends.mem ho
      rcases ha with ha | ha
      · exact (hi.valid a ha).of_same hs
      · exact (hv a ha).of_same hs
    obtain ⟨fresh, rfl, hpush⟩ := pushAll_ok hi hact hcut.size hvalid hr'
    exact ⟨fresh, hsim, hpush⟩
  obtain ⟨fresh, hsim, hpush⟩ := one hcut
  obtain ⟨fresh', hsim', hpush'⟩ := one hcut'
  refine ⟨_, _, hpush, hpush', (SameLog.refl s).acceptAll ?_ device actor⟩
  have hdrop := List.forall₂_drop s.ops.length (hsim.symm.trans hsim')
  rwa [List.drop_left, List.drop_left] at hdrop

/-! ### Later states -/

/-- The log only grows. -/
theorem Later.ops_extends {s s' : Space} (h : s.Later s') (hi : s.Inv) : s.ops <+: s'.ops := by
  induction h with
  | refl => exact List.prefix_rfl
  | @tail t _ hst hstep ih =>
      have hit : t.Inv := Later.inv hst hi
      refine ih.trans ?_
      cases hstep with
      | write c hc =>
          cases c with
          | push device actor batch =>
              rcases push_cases hit.causal device actor batch with ⟨e, h⟩ | ⟨fresh, -, -, -, -, h⟩
              · simp only [write, h]; exact List.prefix_rfl
              · simp only [write, h, ops_acceptAll]; exact List.prefix_append _ _
          | register d =>
              simp only [write, register]
              split
              · split <;> exact List.prefix_rfl
              · exact List.prefix_rfl
          | revoke id actor =>
              simp only [write, revoke]
              split
              · exact List.prefix_rfl
              · split <;> exact List.prefix_rfl
          | putAttachment device actor a =>
              simp only [write, putAttachment]
              split
              · exact List.prefix_rfl
              · split
                · split <;> exact List.prefix_rfl
                · exact List.prefix_rfl

/-- A batch of stored operations is accepted and changes nothing. -/
theorem push_replay {s : Space} (hi : s.Inv) {device actor : GoString}
    (hact : s.active device actor = true) {batch : List (Operation GoString)}
    (hsize : BatchSize batch)
    (hstored : ∀ o ∈ batch, ∃ x ∈ s.ops, equivalent x o = true) :
    s.push device actor batch = (.ok s.entries.length, s) := by
  have hadm : admitAll s.ops batch = .ok s.ops := by
    refine admitAll_replay fun o ho => ?_
    obtain ⟨x, hx, hxo⟩ := hstored o ho
    have hfind := hi.causal.find_of_mem hx
    rw [key_eq, (equivalent_iff.mp hxo).1] at hfind
    exact ⟨x, hfind, hxo⟩
  have hv : ∀ o ∈ batch, Valid o := by
    intro o ho
    obtain ⟨x, hx, hxo⟩ := hstored o ho
    exact (hi.valid x hx).of_same hxo
  obtain ⟨fresh, hr, hpush⟩ := push_ok hi.causal hact hsize hv hadm
  obtain rfl : fresh = [] := by simpa using hr
  rw [hpush, acceptAll_nil, ops, List.length_map]

end Space

/-- **Retransmission and batch boundaries do not matter.** Operations that a device can push
one by one are stored alike however they are cut into batches and whatever accepted
operations are sent again in between; and stored operations can be sent again at any later
time, by any active device, without changing anything. -/
theorem retransmission_harmless {s : Space} (hs : s.Reachable) :
    (∀ (device actor : GoString) (ops : List (Operation GoString)) (s₀ : Space),
      s.active device actor = true →
      Space.pushAll device actor (ops.map fun o => [o]) s = .ok s₀ →
      ∀ batches batches', s.Cutting ops batches → s.Cutting ops batches' →
        ∃ s₁ s₂, Space.pushAll device actor batches s = .ok s₁ ∧
          Space.pushAll device actor batches' s = .ok s₂ ∧ s₁.SameLog s₂) ∧
      ∀ s', s.Later s' → ∀ (device actor : GoString) (batch : List (Operation GoString)),
        s'.active device actor = true → BatchSize batch →
        (∀ o ∈ batch, ∃ x ∈ s.ops, equivalent x o = true) →
        s'.push device actor batch = (.ok s'.entries.length, s') := by
  have hi := hs.inv
  constructor
  · intro device actor ops s₀ hact hall batches batches' hcut hcut'
    obtain ⟨hv, r, hr⟩ := Space.pushAll_admitted hi hall
    have hflat : (ops.map fun o => [o]).flatten = ops := by
      rw [← List.flatMap_def, List.flatMap_singleton']
    rw [hflat] at hv hr
    exact Space.cuttings_agree hi hact hv hr hcut hcut'
  · intro s' hlater device actor batch hact hsize hstored
    refine Space.push_replay (hlater.inv hi) hact hsize fun o ho => ?_
    obtain ⟨x, hx, hxo⟩ := hstored o ho
    exact ⟨x, (hlater.ops_extends hi).subset hx, hxo⟩

/-- The tablet pushes two edits at once; or the first, then the first again with the second. -/
theorem retransmission_harmless_run :
    ∃ s₁ s₂, Space.pushAll tablet.id tablet.actor [[firstEdit, secondEdit]] started = .ok s₁ ∧
      Space.pushAll tablet.id tablet.actor [[firstEdit], [firstEdit, secondEdit]] started =
        .ok s₂ ∧ s₁.SameLog s₂ := by
  have hact : started.active tablet.id tablet.actor = true := by decide
  have hall : ∃ s₀, Space.pushAll tablet.id tablet.actor
      ([firstEdit, secondEdit].map fun o => [o]) started = .ok s₀ := by
    have hok : (Space.pushAll tablet.id tablet.actor
      ([firstEdit, secondEdit].map fun o => [o]) started).isOk = true := by decide
    cases h : Space.pushAll tablet.id tablet.actor
      ([firstEdit, secondEdit].map fun o => [o]) started with
    | ok s₀ => exact ⟨s₀, rfl⟩
    | error e => rw [h] at hok; cases hok
  obtain ⟨s₀, hall⟩ := hall
  refine (retransmission_harmless started_reachable).1 _ _ _ s₀ hact hall _ _ ⟨?_, ?_⟩ ⟨?_, ?_⟩
  · decide
  · exact Sends.next (Same.refl _) (Sends.next (Same.refl _) (Sends.done _))
  · decide
  · exact Sends.next (Same.refl _) (Sends.again List.mem_cons_self (Same.refl _)
      (Sends.next (Same.refl _) (Sends.done _)))

/-- **Independent pushes commute, and queued work stays valid.** Two batches that are
accepted in one state, and give no ID two contents, are accepted in either order, with the
same operations and the same frontiers at the end. A batch is accepted in every later state
unless an ID of it holds other content there: then it is a conflict and nothing is stored. -/
theorem pushes_commute {s : Space} (hs : s.Reachable) {d₁ a₁ d₂ a₂ : GoString}
    {b₁ b₂ : List (Operation GoString)} {n₁ n₂ : Nat} {s₁ s₂ : Space}
    (h₁ : s.push d₁ a₁ b₁ = (.ok n₁, s₁)) (h₂ : s.push d₂ a₂ b₂ = (.ok n₂, s₂)) :
    ((∀ x ∈ b₁, ∀ y ∈ b₂, x.id = y.id → equivalent x y = true) →
      ∃ n₁₂ s₁₂ n₂₁ s₂₁, s₁.push d₂ a₂ b₂ = (.ok n₁₂, s₁₂) ∧ s₂.push d₁ a₁ b₁ = (.ok n₂₁, s₂₁) ∧
        (∀ x ∈ s₁₂.ops, ∃ y ∈ s₂₁.ops, equivalent x y = true) ∧
        (∀ x ∈ s₂₁.ops, ∃ y ∈ s₁₂.ops, equivalent x y = true) ∧
        ∀ record field, (frontier s₁₂.ops record field).map Operation.id =
          (frontier s₂₁.ops record field).map Operation.id) ∧
      ∀ s', s.Later s' → s'.active d₁ a₁ = true →
        ((∀ o ∈ b₁, ∀ x ∈ s'.ops, x.id = o.id → equivalent x o = true) →
          ∃ n s'', s'.push d₁ a₁ b₁ = (.ok n, s'')) ∧
        ((∃ o ∈ b₁, ∃ x ∈ s'.ops, x.id = o.id ∧ equivalent x o = false) →
          s'.push d₁ a₁ b₁ = (.error .conflict, s')) := by
  have hi := hs.inv
  obtain ⟨hact₁, hsize₁, hv₁, hadm₁, heq₁⟩ := Space.push_accepted hi.causal h₁
  obtain ⟨hact₂, hsize₂, hv₂, hadm₂, heq₂⟩ := Space.push_accepted hi.causal h₂
  have hc₁ := admitAll_causal hi.causal hadm₁
  have hc₂ := admitAll_causal hi.causal hadm₂
  constructor
  · intro hag
    obtain ⟨r₁₂, r₂₁, hr₁₂, hr₂₁, hcov, hcov'⟩ := admitAll_commute hadm₁ hadm₂ hag
    obtain ⟨n₁₂, s₁₂, hp₁₂, rfl⟩ := Space.push_accepts hc₁ (heq₁ ▸ hact₂) hsize₂ hv₂ hr₁₂
    obtain ⟨n₂₁, s₂₁, hp₂₁, rfl⟩ := Space.push_accepts hc₂ (heq₂ ▸ hact₁) hsize₁ hv₁ hr₂₁
    have hc₁₂ := admitAll_causal hc₁ hr₁₂
    have hc₂₁ := admitAll_causal hc₂ hr₂₁
    have hsub : ∀ x ∈ s₁₂.ops, ∃ y ∈ s₂₁.ops, Same x y := fun _ hx => hcov.mem hc₁₂ hx
    have hsub' : ∀ x ∈ s₂₁.ops, ∃ y ∈ s₁₂.ops, Same x y := fun _ hx => hcov'.mem hc₂₁ hx
    exact ⟨n₁₂, s₁₂, n₂₁, s₂₁, hp₁₂, hp₂₁, hsub, hsub', fun record field =>
      frontier_keys hc₁₂.nodup hc₂₁.nodup hsub hsub' (ofField_same record field)⟩
  · intro s' hlater hact
    have hi' := hlater.inv hi
    have hcov := Covers.of_extends (hlater.ops_extends hi)
    have held : ∀ {o x : Operation GoString}, x ∈ s'.ops → x.id = o.id →
        find s'.ops (CausalNode.key o) = some x := by
      intro o x hx hid
      have hfind := hi'.causal.find_of_mem hx
      rwa [key_eq, hid] at hfind
    rcases admitAll_later hcov hadm₁ with ⟨⟨r', hr', -⟩, hag⟩ | ⟨hcon, o, ho, hag⟩
    · obtain ⟨n, s'', hpush, -⟩ := Space.push_accepts hi'.causal hact hsize₁ hv₁ hr'
      refine ⟨fun _ => ⟨n, s'', hpush⟩, ?_⟩
      rintro ⟨o, ho, x, hx, hid, hne⟩
      have hsame : equivalent x o = true := hag o ho x (held hx hid)
      rw [hsame] at hne; cases hne
    · refine ⟨fun hall => ?_, fun _ => Space.push_rejects hi'.causal hact hsize₁ hv₁ hcon⟩
      exact absurd (fun x hx => hall o ho x (mem_of_find hx) (key_of_find hx)) hag

/-- Two edits of one title, made apart, are accepted in either order. -/
theorem pushes_commute_run :
    ∃ n s, ((started.push tablet.id tablet.actor [firstEdit]).2.push tablet.id tablet.actor
      [titleEdit (go "0b000000-0000-4000-8000-000000000003") (go "Derrick") []]) = (.ok n, s) := by
  have h₁ : started.push tablet.id tablet.actor [firstEdit] =
      (.ok 1, (started.push tablet.id tablet.actor [firstEdit]).2) := Prod.ext (by decide) rfl
  have h₂ : started.push tablet.id tablet.actor
      [titleEdit (go "0b000000-0000-4000-8000-000000000003") (go "Derrick") []] =
      (.ok 1, (started.push tablet.id tablet.actor
        [titleEdit (go "0b000000-0000-4000-8000-000000000003") (go "Derrick") []]).2) :=
    Prod.ext (by decide) rfl
  obtain ⟨n, s, -, -, h, -⟩ := (pushes_commute started_reachable h₁ h₂).1 (by decide)
  exact ⟨n, s, h⟩

end Syncraft.Store
