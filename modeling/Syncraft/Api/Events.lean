import Syncraft.Api.Hub
import Syncraft.Api.Isolation
import Syncraft.Store.Revocation

/-!
# Syncraft.Api.Events

`events` of `internal/api/events.go`, for all sockets at once. Handlers of other requests call the
store meanwhile, and `Notify` after a call that others should hear of. The store is the in-memory
adapter.

Whoever waits has been told of every change that was announced, or finds a token
(`hints_follow`). A session that has ended gets one more hint at most (`ended_silent`). The hub's
map holds the sockets' channels and no others (`listeners_of_sockets`).
-/

namespace Syncraft.Api

open Domain Store Library

/-- The first message of a socket, with the claims of its token. -/
structure Hello where
  claims : Claims
  device : GoString

/-- Where the handler of a socket stands. It has a channel from `subscribe` on. -/
inductive Socket where
  /-- The first message is awaited. -/
  | opened
  /-- `valid` is called. The reason is what the socket is closed with if it is not. -/
  | asking (hello : Hello) (ch : Option Chan) (reason : String)
  /-- `Device` has returned. -/
  | asked (hello : Hello) (ch : Option Chan) (reason : String) (found : Except Err Device)
  /-- `subscribe` is next. -/
  | admitted (hello : Hello)
  /-- A hint is being written. -/
  | sending (hello : Hello) (ch : Chan)
  /-- In the `select`. -/
  | waiting (hello : Hello) (ch : Chan)
  /-- The function that `subscribe` has returned is next. -/
  | leaving (hello : Hello) (ch : Chan) (reason : String)
  | closed (reason : String)

namespace Socket

/-- The channel, and the workspace it is for. -/
def channel : Socket → Option (GoString × Chan)
  | .asking hello (some ch) _ | .asked hello (some ch) _ _ | .sending hello ch | .waiting hello ch
  | .leaving hello ch _ => some (hello.claims.workspace, ch)
  | _ => none

/-- Is a hint being written? -/
def writes : Socket → Bool
  | .sending _ _ => true
  | _ => false

/-- Where a check leads to. -/
def after (hello : Hello) (ch : Option Chan) (reason : String) (valid : Bool) : Socket :=
  match valid, ch with
  | true, none => .admitted hello
  | true, some ch => .sending hello ch
  | false, none => .closed reason
  | false, some ch => .leaving hello ch reason

theorem channel_after (hello : Hello) (ch : Option Chan) (reason : String) (valid : Bool) :
    (after hello ch reason valid).channel = ch.map fun ch => (hello.claims.workspace, ch) := by
  cases valid <;> cases ch <;> rfl

theorem after_ne_waiting (hello : Hello) (ch : Option Chan) (reason : String) (valid : Bool)
    (hello' : Hello) (ch' : Chan) : after hello ch reason valid ≠ .waiting hello' ch' := by
  cases valid <;> cases ch <;> simp [after]

end Socket

/-- The handlers of these calls go on to `Notify`. -/
def announces {β : Type} : Method β → β → Bool
  | .push _ _ _, .ok _ => true
  | .revoke _ _, .ok _ => true
  | .putAttachment _ _ _, .ok _ => true
  | _, _ => false

/-- All sockets, with the store and the hub. Calls of the store are numbered. -/
structure Sockets where
  memory : Memory
  hub : Hub
  now : Nat
  sockets : List Socket
  /-- The hints that were written or tried to: by which socket, and after which call. -/
  hints : List (Nat × Nat)
  calls : Nat
  /-- Calls whose handler has not come to `Notify`. -/
  due : List (GoString × Nat)
  /-- The call that the `Notify` with the mutex is for. -/
  announcing : Nat
  /-- Calls whose `Notify` has returned. -/
  announced : List (GoString × Nat)

namespace Sockets

/-- The server has just been started. -/
def new : Sockets :=
  { memory := Memory.new, hub := Hub.new, now := 0, sockets := [], hints := [], calls := 0, due := [],
    announcing := 0, announced := [] }

/-- What the handler of a socket does next, and what it asks of the hub for that. -/
inductive Move (S : Server) (s : Sockets) : Socket → Option Hub.Event → Socket → Prop where
  | verified (token device : GoString) (claims : Claims) : S.verify token s.now = some claims →
      Move S s .opened none (.asking { claims, device } none "device denied")
  | refused (token : GoString) : S.verify token s.now = none →
      Move S s .opened none (.closed "authentication required")
  /-- No first message, or not JSON. -/
  | drop : Move S s .opened none (.closed "")
  | lookup (hello : Hello) (ch : Option Chan) (reason : String) :
      Move S s (.asking hello ch reason) none
        (.asked hello ch reason ((s.memory hello.claims.workspace).device hello.device))
  | clock (hello : Hello) (ch : Option Chan) (reason : String) (found : Except Err Device) :
      Move S s (.asked hello ch reason found) none
        (.after hello ch reason
          (Server.owns hello.claims found && decide (s.now < hello.claims.expires)))
  | subscribe (hello : Hello) :
      Move S s (.admitted hello) (some (.subscribe hello.claims.workspace))
        (.sending hello s.hub.made.length)
  | sent (hello : Hello) (ch : Chan) : Move S s (.sending hello ch) none (.waiting hello ch)
  | failed (hello : Hello) (ch : Chan) : Move S s (.sending hello ch) none (.leaving hello ch "")
  /-- `readCtx.Done()` -/
  | done (hello : Hello) (ch : Chan) : Move S s (.waiting hello ch) none (.leaving hello ch "")
  /-- `ticker.C` -/
  | tick (hello : Hello) (ch : Chan) :
      Move S s (.waiting hello ch) none (.asking hello (some ch) "session ended")
  | wake (hello : Hello) (ch : Chan) :
      Move S s (.waiting hello ch) (some (.receive ch)) (.asking hello (some ch) "device revoked")
  | remove (hello : Hello) (ch : Chan) (reason : String) :
      Move S s (.leaving hello ch reason) (some (.remove ch)) (.closed reason)

/-- The hub does what it is asked, if anything. -/
def Does (h : Hub) : Option Hub.Event → Hub → Prop
  | none, h' => h' = h
  | some e, h' => Hub.Step h e h'

inductive Step (S : Server) (s : Sockets) : Sockets → Prop where
  /-- A socket is accepted. -/
  | accept : Step S s { s with sockets := s.sockets ++ [.opened] }
  | move (i : Nat) (x y : Socket) (e : Option Hub.Event) (hub : Hub) : s.sockets[i]? = some x →
      Move S s x e y → Does s.hub e hub →
      Step S s
        { s with
          hub, sockets := s.sockets.set i y
          hints := s.hints ++ if x.writes then [(i, s.calls)] else [] }
  /-- A handler calls the store. -/
  | call {β : Type} (w : GoString) (c : Method β) : c.Handled →
      Step S s
        { s with
          memory := (s.memory.answer w c).2, calls := s.calls + 1
          due := s.due ++
            if announces c (s.memory.answer w c).1 then [(w, s.calls + 1)] else [] }
  /-- A handler has come to `Notify`. -/
  | notify (w : GoString) (n : Nat) (order : List Chan) (hub : Hub) : (w, n) ∈ s.due →
      Hub.Step s.hub (.notify w order) hub →
      Step S s { s with hub, due := s.due.erase (w, n), announcing := n }
  | send (hub : Hub) : Hub.Step s.hub .send hub → Step S s { s with hub }
  | unlock (w : GoString) (hub : Hub) : s.hub.notifying = some (w, []) →
      Hub.Step s.hub .unlock hub →
      Step S s { s with hub, announced := s.announced ++ [(w, s.announcing)] }
  /-- Time passes. -/
  | pass (now : Nat) : s.now ≤ now → Step S s { s with now }

/-- `s'` is what some steps make of `s`. -/
def Later (S : Server) (s s' : Sockets) : Prop := Relation.ReflTransGen (Step S) s s'

/-- A state that some steps lead to. -/
def Reachable (S : Server) (s : Sockets) : Prop := Later S new s

/-- The session is over: the token has expired, or the device is not the subject's, or revoked. -/
def Ended (s : Sockets) (hello : Hello) : Prop :=
  hello.claims.expires ≤ s.now ∨
    (s.memory hello.claims.workspace).active hello.device hello.claims.subject = false

/-! ### Channels -/

/-- The channels of the sockets, with their workspaces. -/
def channels (s : Sockets) : List (GoString × Chan) := s.sockets.filterMap Socket.channel

/-- A socket that moves has others before and after it. -/
theorem exists_around {sockets : List Socket} {i : Nat} {x : Socket} (h : sockets[i]? = some x) :
    ∃ before later, sockets = before ++ x :: later ∧ ∀ y, sockets.set i y = before ++ y :: later := by
  obtain ⟨hlt, rfl⟩ := List.getElem?_eq_some_iff.mp h
  refine ⟨sockets.take i, sockets.drop (i + 1), ?_, fun y => List.set_eq_take_cons_drop y hlt⟩
  rw [List.getElem_cons_drop hlt, List.take_append_drop]

/-- A handler keeps its channel, gets one from the hub, or gives it back. -/
inductive Channels (s : Sockets) (x : Socket) : Option Hub.Event → Socket → Prop where
  | kept (y : Socket) : y.channel = x.channel → Channels s x none y
  | received (y : Socket) (w : GoString) (ch : Chan) : x.channel = some (w, ch) →
      y.channel = x.channel → Channels s x (some (.receive ch)) y
  | subscribed (y : Socket) (w : GoString) : x.channel = none →
      y.channel = some (w, s.hub.made.length) → Channels s x (some (.subscribe w)) y
  | removed (y : Socket) (w : GoString) (ch : Chan) : x.channel = some (w, ch) → y.channel = none →
      Channels s x (some (.remove ch)) y

variable {S : Server} {s s' : Sockets} {x y : Socket} {e : Option Hub.Event}

theorem Move.channels (h : Move S s x e y) : Channels s x e y := by
  cases h with
  | verified | refused | drop | sent | failed | done | tick => exact .kept _ rfl
  | lookup hello ch reason => cases ch <;> exact .kept _ rfl
  | clock hello ch reason found =>
      refine .kept _ ?_
      rw [Socket.channel_after]
      cases ch <;> rfl
  | subscribe hello => exact .subscribed _ _ rfl rfl
  | wake hello ch => exact .received _ _ _ rfl rfl
  | remove hello ch reason => exact .removed _ _ _ rfl rfl

/-- The live channels of the hub are those of the sockets, one each. -/
structure Matched (s : Sockets) : Prop where
  hub : s.hub.Invariant
  live : ∀ w ch, s.hub.Live w ch ↔ (w, ch) ∈ s.channels
  nodup : s.channels.Nodup

theorem Matched.new : Matched new where
  hub := Hub.Invariant.new
  live w ch := by simp [Hub.Live, Sockets.new, Hub.new, channels]
  nodup := List.nodup_nil

/-- The channel that `subscribe` makes is a new one. -/
theorem live_subscribe {h h' : Hub} (hi : h.Invariant) {w : GoString}
    (hstep : Hub.Step h (.subscribe w) h') (v : GoString) (ch : Chan) :
    h'.Live v ch ↔ h.Live v ch ∨ (v, ch) = (w, h.made.length) := by
  have hi' := hi.step hstep
  cases hstep with
  | subscribe _ hn =>
      rw [← hi'.live, ← hi.live, inner_subscribe, Prod.mk.injEq]
      split
      · subst v
        rw [Finset.mem_insert, or_comm]
        simp
      · next hv => simp [hv]

theorem live_remove {h h' : Hub} (hi : h.Invariant) {ch : Chan} (hstep : Hub.Step h (.remove ch) h')
    {w : GoString} (hw : h.Live w ch) (v : GoString) (c : Chan) :
    h'.Live v c ↔ h.Live v c ∧ (v, c) ≠ (w, ch) := by
  have hi' := hi.step hstep
  cases hstep with
  | remove w' _ hn hw' =>
      obtain rfl := Option.some.inj (hw.1.symm.trans hw')
      rw [← hi'.live, ← hi.live, inner_remove, Ne, Prod.mk.injEq]
      split
      · subst v
        rw [Finset.mem_erase, and_comm]
        simp
      · next hv => simp [hv]

/-- A step of the hub that makes and removes no channel. -/
theorem Matched.hubStep (h : Matched s) {e : Hub.Event} {hub : Hub} (hstep : Hub.Step s.hub e hub)
    (hsame : hub.made = s.hub.made ∧ hub.removed = s.hub.removed) : Matched { s with hub } where
  hub := h.hub.step hstep
  live w ch := by
    rw [Hub.Live, hsame.1, hsame.2]
    exact h.live w ch
  nodup := h.nodup

/-- The handler of a socket moves. -/
theorem Matched.move (h : Matched s) {i : Nat} {hub : Hub} {hints : List (Nat × Nat)}
    (hx : s.sockets[i]? = some x) (hmove : Move S s x e y) (hdoes : Does s.hub e hub) :
    Matched { s with hub, sockets := s.sockets.set i y, hints } := by
  obtain ⟨before, later, heq, hset⟩ := exists_around hx
  have hlive := h.live
  have hnodup := h.nodup
  simp only [channels, heq, List.filterMap_append, List.filterMap_cons] at hlive hnodup
  have hnew : ∀ hub', hub'.Invariant →
      (∀ w ch, hub'.Live w ch ↔ (w, ch) ∈ (before ++ y :: later).filterMap Socket.channel) →
      ((before ++ y :: later).filterMap Socket.channel).Nodup →
      Matched { s with hub := hub', sockets := s.sockets.set i y, hints } := by
    intro hub' hinv hlive' hnodup'
    refine ⟨hinv, fun w ch => ?_, ?_⟩
    · rw [channels, hset]
      exact hlive' w ch
    · rw [channels, hset]
      exact hnodup'
  simp only [List.filterMap_append, List.filterMap_cons] at hnew
  cases hmove.channels with
  | kept _ hch =>
      obtain rfl := hdoes
      rw [← hch] at hlive hnodup
      exact hnew _ h.hub hlive hnodup
  | received _ w ch _ hch =>
      rw [← hch] at hlive hnodup
      have hinv := h.hub.step hdoes
      cases hdoes with
      | receive _ ht => exact hnew _ hinv hlive hnodup
  | subscribed _ w hnone hsome =>
      rw [hnone] at hlive hnodup
      rw [hsome] at hnew
      have hfresh : (w, s.hub.made.length) ∉
          before.filterMap Socket.channel ++ later.filterMap Socket.channel := by
        rw [← hlive]
        rintro ⟨hmade, -⟩
        rw [List.getElem?_eq_none le_rfl] at hmade
        cases hmade
      refine hnew _ (h.hub.step hdoes) (fun v ch => ?_) ?_
      · rw [live_subscribe h.hub hdoes, hlive, List.mem_append, List.mem_append, List.mem_cons]
        tauto
      · exact List.nodup_middle.mpr (List.nodup_cons.mpr ⟨hfresh, hnodup⟩)
  | removed _ w ch hsome hnone =>
      rw [hsome] at hlive hnodup
      rw [hnone] at hnew
      have hown : s.hub.Live w ch := (hlive w ch).mpr (List.mem_append_right _ List.mem_cons_self)
      obtain ⟨hnot, hrest⟩ := List.nodup_cons.mp (List.nodup_middle.mp hnodup)
      refine hnew _ (h.hub.step hdoes) (fun v c => ?_) hrest
      rw [live_remove h.hub hdoes hown, hlive, List.mem_append, List.mem_cons, ← or_assoc,
        or_right_comm, or_and_right, ← List.mem_append]
      constructor
      · rintro (⟨hmem, -⟩ | ⟨heq, hne⟩)
        · exact hmem
        · exact absurd heq hne
      · intro hmem
        exact .inl ⟨hmem, fun heq => hnot (heq ▸ hmem)⟩

theorem Matched.step (h : Matched s) (hstep : Step S s s') : Matched s' := by
  cases hstep with
  | accept =>
      have hsame : ({ s with sockets := s.sockets ++ [.opened] } : Sockets).channels = s.channels := by
        rw [channels, List.filterMap_append]
        exact List.append_nil _
      exact ⟨h.hub, fun w ch => hsame ▸ h.live w ch, hsame ▸ h.nodup⟩
  | move i x y e hub hx hmove hdoes => exact h.move hx hmove hdoes
  | call w c hc => exact ⟨h.hub, h.live, h.nodup⟩
  | notify w n order hub hdue hhub =>
      have hhub' := h.hubStep hhub (by cases hhub with | notify => exact ⟨rfl, rfl⟩)
      exact ⟨hhub'.hub, hhub'.live, hhub'.nodup⟩
  | send hub hhub => exact h.hubStep hhub (by cases hhub with | send => exact ⟨rfl, rfl⟩)
  | unlock w hub hn hhub =>
      have hhub' := h.hubStep hhub (by cases hhub with | unlock => exact ⟨rfl, rfl⟩)
      exact ⟨hhub'.hub, hhub'.live, hhub'.nodup⟩
  | pass now hle => exact ⟨h.hub, h.live, h.nodup⟩

theorem Reachable.matched (h : Reachable S s) : Matched s := by
  induction h with
  | refl => exact .new
  | tail _ hstep ih => exact ih.step hstep

/-- A channel is one socket's. -/
theorem Matched.own (hm : Matched s) {i j : Nat} {w v : GoString} {ch : Chan}
    (hi : s.sockets[i]? = some x) (hj : s.sockets[j]? = some y) (hx : x.channel = some (w, ch))
    (hy : y.channel = some (v, ch)) : i = j := by
  -- The channel tells its workspace, and so the two are the same.
  have hw := (hm.live w ch).mpr (List.mem_filterMap.mpr ⟨x, List.mem_of_getElem? hi, hx⟩)
  have hv := (hm.live v ch).mpr (List.mem_filterMap.mpr ⟨y, List.mem_of_getElem? hj, hy⟩)
  obtain rfl : w = v := Option.some.inj (hw.1.symm.trans hv.1)
  have hpair := List.pairwise_iff_getElem.mp (List.pairwise_filterMap.mp hm.nodup)
  obtain ⟨hi', rfl⟩ := List.getElem?_eq_some_iff.mp hi
  obtain ⟨hj', rfl⟩ := List.getElem?_eq_some_iff.mp hj
  rcases Nat.lt_trichotomy i j with hlt | heq | hlt
  · exact absurd rfl (hpair i j hi' hj' hlt _ hx _ hy)
  · exact heq
  · exact absurd rfl (hpair j i hj' hi' hlt _ hy _ hx)

/-! ### A run -/

/-- The device of a user. -/
def ours : Device := { tablet with actor := go "ada" }

/-- The first message of its socket. -/
def ada : Hello :=
  { claims := { workspace := go "site-a", role := go "editor", subject := go "ada", expires := 9 }
    device := ours.id }

/-- The hub with one listener. -/
def listening : Hub :=
  { Hub.new with listeners := Api.subscribe Hub.new.listeners (go "site-a") 0, made := [go "site-a"] }

/-- The device is registered, and nobody has called the store since. -/
def calm (sockets : List Socket) (hub : Hub) (hints : List (Nat × Nat)) : Sockets :=
  { new with
    memory := (Memory.new.answer (go "site-a") (.register ours)).2, calls := 1, sockets, hub, hints }

/-- The device waits. -/
theorem calm_waits : Reachable demo (calm [.waiting ada 0] listening [(0, 1)]) := by
  have h₁ : Step demo new (calm [] Hub.new []) := .call (go "site-a") (.register ours) rfl
  have h₂ : Step demo (calm [] Hub.new []) (calm [.opened] Hub.new []) := .accept
  have h₃ : Step demo (calm [.opened] Hub.new [])
      (calm [.asking ada none "device denied"] Hub.new []) :=
    .move 0 .opened _ none _ rfl (.verified (go "ada") ours.id ada.claims (by decide)) rfl
  have h₄ : Step demo (calm [.asking ada none "device denied"] Hub.new [])
      (calm [.asked ada none "device denied" (.ok ours)] Hub.new []) :=
    .move 0 _ _ none _ rfl (.lookup ada none "device denied") rfl
  have hclock : Move demo (calm [.asked ada none "device denied" (.ok ours)] Hub.new [])
      (.asked ada none "device denied" (.ok ours)) none (.admitted ada) :=
    .clock ada none "device denied" (.ok ours)
  have h₅ : Step demo (calm [.asked ada none "device denied" (.ok ours)] Hub.new [])
      (calm [.admitted ada] Hub.new []) :=
    .move 0 _ _ none _ rfl hclock rfl
  have h₆ : Step demo (calm [.admitted ada] Hub.new []) (calm [.sending ada 0] listening []) :=
    .move 0 _ _ (some _) _ rfl (.subscribe ada) (Hub.Step.subscribe (go "site-a") rfl)
  have h₇ : Step demo (calm [.sending ada 0] listening [])
      (calm [.waiting ada 0] listening [(0, 1)]) :=
    .move 0 _ _ none _ rfl (.sent ada 0) rfl
  exact .tail (.tail (.tail (.tail (.tail (.tail (.single h₁) h₂) h₃) h₄) h₅) h₆) h₇

/-- **No subscription leaks, and none is missing.** The map of the hub holds exactly the channels of
the sockets that are past `subscribe` and not closed, each of one socket, in the workspace of its
token; and no workspace without such a socket. -/
theorem listeners_of_sockets (h : Reachable S s) :
    (∀ w ch, ch ∈ inner s.hub.listeners w ↔
      ∃ x ∈ s.sockets, x.channel = some (w, ch)) ∧
    (∀ (i j : Nat) (x y : Socket) (w v : GoString) (ch : Chan), s.sockets[i]? = some x →
      s.sockets[j]? = some y → x.channel = some (w, ch) → y.channel = some (v, ch) → i = j) ∧
    ∀ w, (∀ x ∈ s.sockets, ∀ ch, x.channel ≠ some (w, ch)) → s.hub.listeners w = none := by
  have hm := h.matched
  have hlive : ∀ w ch, ch ∈ inner s.hub.listeners w ↔ ∃ x ∈ s.sockets, x.channel = some (w, ch) := by
    intro w ch
    rw [hm.hub.live, hm.live, channels, List.mem_filterMap]
  refine ⟨hlive, fun i j x y w v ch hi hj hx hy => ?_, fun w hnone => ?_⟩
  · exact hm.own hi hj hx hy
  · have hempty : inner s.hub.listeners w = ∅ := by
      refine Finset.eq_empty_of_forall_notMem fun ch hch => ?_
      obtain ⟨x, hx, hxch⟩ := (hlive w ch).mp hch
      exact hnone x hx ch hxch
    cases hw : s.hub.listeners w with
    | none => rfl
    | some chans =>
        rw [inner, hw, Option.getD_some] at hempty
        exact absurd (hempty ▸ hw) (hm.hub.trimmed w)

/-- The listener of the run is its socket's. -/
theorem listeners_of_sockets_run :
    0 ∈ inner (calm [.waiting ada 0] listening [(0, 1)]).hub.listeners (go "site-a") ∧
      (calm [.waiting ada 0] listening [(0, 1)]).hub.listeners (go "site-b") = none := by
  obtain ⟨hlive, -, hnone⟩ := listeners_of_sockets calm_waits
  refine ⟨(hlive _ _).mpr ⟨_, List.mem_singleton_self _, rfl⟩, hnone _ fun x hx ch hch => ?_⟩
  obtain rfl := List.mem_singleton.mp hx
  have hw : go "site-a" = go "site-b" := congrArg Prod.fst (Option.some.inj hch)
  exact absurd hw (by decide)

/-! ### Hints -/

/-- The socket has been hinted at the call, or at a later one. -/
def Hinted (s : Sockets) (i n : Nat) : Prop := ∃ m, (i, m) ∈ s.hints ∧ n ≤ m

/-- What those who wait have been told of. -/
structure Told (s : Sockets) : Prop where
  announcing : s.announcing ≤ s.calls
  due : ∀ w n, (w, n) ∈ s.due → n ≤ s.calls
  announced : ∀ w n, (w, n) ∈ s.announced → n ≤ s.calls
  /-- Who waits has a token, or has been told: of what was announced, and of what the loop of the
  `Notify` that is under way has come past with. -/
  waiting : ∀ i hello ch, s.sockets[i]? = some (.waiting hello ch) → s.hub.token ch = none →
    (∀ n, (hello.claims.workspace, n) ∈ s.announced → s.Hinted i n) ∧
      ∀ rest, s.hub.notifying = some (hello.claims.workspace, rest) → ch ∉ rest →
        s.Hinted i s.announcing

theorem Told.new : Told new where
  announcing := le_rfl
  due _ _ h := by cases h
  announced _ _ h := by cases h
  waiting _ _ _ h := by cases h

theorem Hinted.mono {i n : Nat} (h : s.Hinted i n) (hsub : s.hints ⊆ s'.hints) : s'.Hinted i n := by
  obtain ⟨m, hm, hle⟩ := h
  exact ⟨m, hsub hm, hle⟩

/-- After a set, a socket is the one that was set or an old one. -/
theorem set_cases {sockets : List Socket} {i j : Nat} {x y z : Socket} (hx : sockets[i]? = some x)
    (h : (sockets.set i y)[j]? = some z) : j = i ∧ z = y ∨ j ≠ i ∧ sockets[j]? = some z := by
  obtain ⟨hlt, -⟩ := List.getElem?_eq_some_iff.mp hx
  by_cases hj : j = i
  · subst hj
    rw [List.getElem?_set_self hlt] at h
    exact .inl ⟨rfl, (Option.some.inj h).symm⟩
  · rw [List.getElem?_set_ne (Ne.symm hj)] at h
    exact .inr ⟨hj, h⟩

/-- The tokens and the `Notify` that is under way are not those of a step of a socket, but for the
token it takes. -/
theorem Does.same {hub : Hub} (hm : Channels s x e y) (hdoes : Does s.hub e hub) :
    hub.notifying = s.hub.notifying ∧
      ∀ ch, (∀ w, x.channel ≠ some (w, ch)) → hub.token ch = s.hub.token ch := by
  cases hm with
  | kept y hch =>
      obtain rfl := hdoes
      exact ⟨rfl, fun _ _ => rfl⟩
  | received y w c hc hch =>
      cases hdoes with
      | receive _ ht =>
          refine ⟨rfl, fun ch hne => Function.update_of_ne ?_ _ _⟩
          rintro rfl
          exact hne w hc
  | subscribed y w hnone hsome =>
      cases hdoes with
      | subscribe _ hn => exact ⟨rfl, fun _ _ => rfl⟩
  | removed y w c hsome hnone =>
      cases hdoes with
      | remove w' _ hn hw => exact ⟨rfl, fun _ _ => rfl⟩

/-- Whoever waits has written a hint before. -/
theorem Move.waits {hello : Hello} {ch : Chan} (h : Move S s x e (.waiting hello ch)) :
    x = .sending hello ch := by
  generalize hy : Socket.waiting hello ch = y at h
  cases h with
  | sent => rw [Socket.waiting.injEq] at hy; rw [hy.1, hy.2]
  | clock hello' ch' reason found =>
      exact absurd hy.symm (Socket.after_ne_waiting _ _ _ _ _ _)
  | _ => cases hy

theorem Told.move (hm : Matched s) (h : Told s) {i : Nat} {hub : Hub} (hx : s.sockets[i]? = some x)
    (hmove : Move S s x e y) (hdoes : Does s.hub e hub) :
    Told { s with
      hub, sockets := s.sockets.set i y
      hints := s.hints ++ if x.writes then [(i, s.calls)] else [] } where
  announcing := h.announcing
  due := h.due
  announced := h.announced
  waiting j hello ch hj ht := by
    have hsub : s.hints ⊆ s.hints ++ if x.writes then [(i, s.calls)] else [] :=
      List.subset_append_left _ _
    rcases set_cases hx hj with ⟨rfl, rfl⟩ | ⟨hne, hj⟩
    · -- It has just been hinted, after every call that there was.
      obtain rfl := hmove.waits
      have hnow : ∀ n, n ≤ s.calls → ∃ m, (j, m) ∈ s.hints ++ [(j, s.calls)] ∧ n ≤ m :=
        fun n hn => ⟨s.calls, List.mem_append_right _ (List.mem_singleton_self _), hn⟩
      exact ⟨fun n hn => hnow n (h.announced _ n hn), fun _ _ _ => hnow _ h.announcing⟩
    · obtain ⟨hnotifying, htoken⟩ := hdoes.same hmove.channels
      have hother : ∀ w, x.channel ≠ some (w, ch) := fun w hw => hne (hm.own hj hx rfl hw)
      dsimp only at ht
      rw [htoken ch hother] at ht
      obtain ⟨hannounced, hloop⟩ := h.waiting j hello ch hj ht
      refine ⟨fun n hn => (hannounced n hn).mono hsub, fun rest hrest hnot => ?_⟩
      exact (hloop rest (hnotifying ▸ hrest) hnot).mono hsub

theorem Told.step (hm : Matched s) (h : Told s) (hstep : Step S s s') : Told s' := by
  cases hstep with
  | accept =>
      refine { h with waiting := fun i hello ch hi => h.waiting i hello ch ?_ }
      dsimp only at hi
      rw [List.getElem?_append] at hi
      split at hi
      · exact hi
      · have hopened := List.mem_singleton.mp (List.mem_of_getElem? hi)
        cases hopened
  | move i x y e hub hx hmove hdoes => exact h.move hm hx hmove hdoes
  | call w c hc =>
      exact
        { announcing := h.announcing.trans (Nat.le_succ _)
          due := fun v n hn => by
            rcases List.mem_append.mp hn with hn | hn
            · exact (h.due v n hn).trans (Nat.le_succ _)
            · split at hn
              · obtain ⟨-, rfl⟩ := Prod.mk.inj (List.mem_singleton.mp hn)
                exact le_rfl
              · cases hn
          announced := fun v n hn => (h.announced v n hn).trans (Nat.le_succ _)
          waiting := h.waiting }
  | notify w n order hub hdue hhub =>
      cases hhub with
      | notify _ _ hn _ hkeys =>
          refine
            { announcing := h.due w n hdue
              due := fun v m hm => h.due v m (List.mem_of_mem_erase hm)
              announced := h.announced
              waiting := fun i hello ch hi ht =>
                ⟨(h.waiting i hello ch hi ht).1, fun rest hrest hnot => ?_⟩ }
          -- The loop has to come to every channel that there is.
          obtain ⟨rfl, rfl⟩ := Prod.mk.inj (Option.some.inj hrest)
          refine absurd ?_ hnot
          rw [← List.mem_toFinset, hkeys, hm.hub.live, hm.live]
          exact List.mem_filterMap.mpr ⟨_, List.mem_of_getElem? hi, rfl⟩
  | send hub hhub =>
      cases hhub with
      | send w c rest hn =>
          refine { h with waiting := fun i hello ch hi ht => ?_ }
          have hboth : ch ≠ c ∧ s.hub.token ch = none := by
            constructor
            · rintro rfl
              exact Hub.trySend_ne_none _ w (.inl rfl) ht
            · by_contra htoken
              exact Hub.trySend_ne_none _ w (.inr htoken) ht
          obtain ⟨hannounced, hloop⟩ := h.waiting i hello ch hi hboth.2
          refine ⟨hannounced, fun rest' hrest hnot => ?_⟩
          obtain ⟨rfl, rfl⟩ := Prod.mk.inj (Option.some.inj hrest)
          exact hloop (c :: rest) hn fun hmem => (List.mem_cons.mp hmem).elim hboth.1 hnot
  | unlock w hub hn hhub =>
      cases hhub with
      | unlock _ _ =>
          refine
            { announcing := h.announcing
              due := h.due
              announced := fun v m hm => ?_
              waiting := fun i hello ch hi ht => ⟨fun m hm => ?_, fun _ hrest => by cases hrest⟩ }
          · rcases List.mem_append.mp hm with hm | hm
            · exact h.announced v m hm
            · obtain ⟨-, rfl⟩ := Prod.mk.inj (List.mem_singleton.mp hm)
              exact h.announcing
          · obtain ⟨hannounced, hloop⟩ := h.waiting i hello ch hi ht
            rcases List.mem_append.mp hm with hm | hm
            · exact hannounced m hm
            · obtain ⟨hw, rfl⟩ := Prod.mk.inj (List.mem_singleton.mp hm)
              exact hloop [] (hw ▸ hn) List.not_mem_nil
  | pass now hle => exact ⟨h.announcing, h.due, h.announced, h.waiting⟩

theorem Reachable.told (h : Reachable S s) : Told s := by
  induction h with
  | refl => exact .new
  | tail hs hstep ih => exact ih.step (Reachable.matched hs) hstep

/-- `valid` asks whether the device is the subject's and not revoked. -/
theorem owns_device (space : Space) (c : Claims) (device : GoString) :
    Server.owns c (space.device device) = space.active device c.subject := by
  rw [Space.device, Space.active]
  cases space.devices.lookup device with
  | none => rfl
  | some d => simp [Server.owns, bne]

/-- A socket can make its next move, if it asks nothing of the hub. -/
theorem exists_move {i : Nat} (hx : s.sockets[i]? = some x) (hmove : Move S s x none y) :
    ∃ s', Step S s s' ∧ s'.sockets[i]? = some y ∧ s'.memory = s.memory ∧ s'.now = s.now ∧
      s'.calls = s.calls ∧ s'.hints = s.hints ++ if x.writes then [(i, s.calls)] else [] := by
  obtain ⟨hlt, -⟩ := List.getElem?_eq_some_iff.mp hx
  exact ⟨_, .move i x y none s.hub hx hmove rfl, List.getElem?_set_self hlt, rfl, rfl, rfl, rfl⟩

/-- Whoever finds a token, and whose session has not ended, can go on to write a hint. -/
theorem exists_hint {i : Nat} {hello : Hello} {ch : Chan}
    (hx : s.sockets[i]? = some (.waiting hello ch)) (ht : s.hub.token ch ≠ none)
    (hvalid : ¬ s.Ended hello) : ∃ s', Later S s s' ∧ (i, s.calls) ∈ s'.hints := by
  obtain ⟨hlt, -⟩ := List.getElem?_eq_some_iff.mp hx
  obtain ⟨s₁, hstep₁, hx₁, hmemory₁, hnow₁, hcalls₁⟩ : ∃ s₁, Step S s s₁ ∧
      s₁.sockets[i]? = some (.asking hello (some ch) "device revoked") ∧ s₁.memory = s.memory ∧
      s₁.now = s.now ∧ s₁.calls = s.calls :=
    ⟨_, .move i _ _ _ _ hx (.wake hello ch) (.receive ch ht), List.getElem?_set_self hlt, rfl, rfl, rfl⟩
  obtain ⟨s₂, hstep₂, hx₂, -, hnow₂, hcalls₂, -⟩ :=
    exists_move (S := S) hx₁ (.lookup hello (some ch) "device revoked")
  obtain ⟨s₃, hstep₃, hx₃, -, -, hcalls₃, -⟩ := exists_move (S := S) hx₂ (.clock hello (some ch) _ _)
  -- The check succeeds.
  have hcheck : (Server.owns hello.claims
      ((s₁.memory hello.claims.workspace).device hello.device) &&
        decide (s₂.now < hello.claims.expires)) = true := by
    rw [Ended, not_or, Nat.not_le, Bool.not_eq_false] at hvalid
    rw [owns_device, hmemory₁, hvalid.2, hnow₂, hnow₁]
    exact decide_eq_true hvalid.1
  have hsending : s₃.sockets[i]? = some (.sending hello ch) := by
    rw [hx₃]
    exact congrArg (fun valid => some (Socket.after hello (some ch) "device revoked" valid)) hcheck
  obtain ⟨s₄, hstep₄, -, -, -, -, hhints₄⟩ := exists_move (S := S) hsending (.sent hello ch)
  have hcalls : s₃.calls = s.calls := hcalls₃.trans (hcalls₂.trans hcalls₁)
  refine ⟨s₄, (((Relation.ReflTransGen.single hstep₁).tail hstep₂).tail hstep₃).tail hstep₄, ?_⟩
  rw [hhints₄, hcalls]
  exact List.mem_append_right _ (List.mem_singleton_self _)

/-- **No change goes unnoticed.** When the handler of a push, an upload or a revocation has been
through `Notify`, and later a socket of the workspace waits, then it has been hinted after the
change; or there is a token for it, and it can go on to write a hint, unless its session has
ended. -/
theorem hints_follow (h : Reachable S s) {i n : Nat} {hello : Hello} {ch : Chan}
    (hx : s.sockets[i]? = some (.waiting hello ch))
    (hn : (hello.claims.workspace, n) ∈ s.announced) :
    s.Hinted i n ∨
      s.hub.token ch = some hello.claims.workspace ∧
        (¬ s.Ended hello → ∃ s', Later S s s' ∧ s'.Hinted i n) := by
  have htold := h.told
  have hm := h.matched
  cases ht : s.hub.token ch with
  | none => exact .inl ((htold.waiting i hello ch hx ht).1 n hn)
  | some w =>
      -- A token comes from the workspace of the channel.
      have hlive := (hm.live hello.claims.workspace ch).mpr
        (List.mem_filterMap.mpr ⟨_, List.mem_of_getElem? hx, rfl⟩)
      have hmade := hm.hub.token w ch ht
      rw [hlive.1] at hmade
      refine .inr ⟨hmade.symm, fun hvalid => ?_⟩
      obtain ⟨s', hlater, hmem⟩ := exists_hint hx (by rw [ht]; exact Option.some_ne_none w) hvalid
      exact ⟨s', hlater, s.calls, hmem, htold.announced _ n hn⟩

/-- An edit has been pushed, and announced. -/
def pushed : Sockets :=
  { calm [.waiting ada 0]
      { listening with token := Function.update (fun _ => none) 0 (some (go "site-a")) } [(0, 1)] with
    memory := ((calm [] listening []).memory.answer (go "site-a")
      (.push ours.id (go "ada") [firstEdit])).2
    calls := 2, announcing := 2, announced := [(go "site-a", 2)] }

theorem pushed_reachable : Reachable demo pushed := by
  have hpushed : announces (Method.push ours.id (go "ada") [firstEdit])
      ((calm [.waiting ada 0] listening [(0, 1)]).memory.answer (go "site-a")
        (.push ours.id (go "ada") [firstEdit])).1 = true := by decide +kernel
  have h₁ : Step demo (calm [.waiting ada 0] listening [(0, 1)]) _ :=
    .call (go "site-a") (Method.push ours.id (go "ada") [firstEdit]) trivial
  rw [hpushed] at h₁
  have hkeys : [0].toFinset = inner listening.listeners (go "site-a") := by decide
  have h₂ := (calm_waits.tail h₁).tail (.notify (go "site-a") 2 [0] _ (List.mem_singleton_self _)
    (.notify _ _ rfl (List.nodup_singleton 0) hkeys))
  have h₃ := h₂.tail (.send _ (.send (go "site-a") 0 [] rfl))
  exact h₃.tail (.unlock (go "site-a") _ rfl (.unlock _ rfl))

theorem pushed_valid : ¬ pushed.Ended ada := by
  have hactive : (pushed.memory (go "site-a")).active ours.id (go "ada") = true := by decide +kernel
  rintro (hexpired | hinactive)
  · exact absurd hexpired (by decide)
  · exact Bool.false_ne_true (hinactive.symm.trans hactive)

/-- An edit is pushed while the device of the run waits. -/
theorem hints_follow_run :
    pushed.hints = [(0, 1)] ∧ ∃ s', Later demo pushed s' ∧ ∃ m, (0, m) ∈ s'.hints ∧ 2 ≤ m := by
  refine ⟨rfl, ?_⟩
  rcases hints_follow pushed_reachable (rfl : pushed.sockets[0]? = some (.waiting ada 0))
    (List.mem_singleton_self (go "site-a", 2)) with ⟨m, hm, hle⟩ | ⟨-, hgo⟩
  · obtain ⟨-, rfl⟩ := Prod.mk.inj (List.mem_singleton.mp hm)
    exact absurd hle (by decide)
  · exact hgo pushed_valid

/-! ### The end of a session -/

/-- The device is registered, to the subject. -/
def Registered (m : Memory) (hello : Hello) : Prop :=
  ∃ d, (m hello.claims.workspace).devices.lookup hello.device = some d ∧
    d.actor = hello.claims.subject

/-- What has been found out about the device by now. -/
def Known (m : Memory) : Socket → Prop
  | .asking hello (some _) _ | .asked hello (some _) _ _ | .admitted hello | .sending hello _
  | .waiting hello _ | .leaving hello _ _ => Registered m hello
  | .asked hello none _ found => Server.owns hello.claims found = true → Registered m hello
  | _ => True

theorem registered_of_active {m : Memory} {hello : Hello}
    (h : (m hello.claims.workspace).active hello.device hello.claims.subject = true) :
    Registered m hello := by
  rw [Space.active] at h
  cases hd : (m hello.claims.workspace).devices.lookup hello.device with
  | none => rw [hd] at h; cases h
  | some d =>
      rw [hd, Bool.and_eq_true, beq_iff_eq] at h
      exact ⟨d, hd, h.2⟩

/-- Workspaces go on. -/
def Onward (m m' : Memory) : Prop := ∀ w, (m w).Inv ∧ (m w).Later (m' w)

theorem Registered.later {m m' : Memory} (hm : Onward m m') {hello : Hello}
    (h : Registered m hello) : Registered m' hello := by
  obtain ⟨d, hd, hactor⟩ := h
  obtain ⟨d', hd', hactor', -⟩ := (hm hello.claims.workspace).2.device (hm _).1 hd
  exact ⟨d', hd', hactor'.trans hactor⟩

theorem Known.later {m m' : Memory} (hm : Onward m m') (h : Known m x) : Known m' x := by
  cases x with
  | asking hello ch reason =>
      cases ch with
      | none => trivial
      | some ch => exact Registered.later hm h
  | asked hello ch reason found =>
      cases ch with
      | none => exact fun howns => (h howns).later hm
      | some ch => exact Registered.later hm h
  | admitted | sending | waiting | leaving => exact Registered.later hm h
  | opened | closed => trivial

theorem Move.known (hmove : Move S s x e y) (h : Known s.memory x) : Known s.memory y := by
  cases hmove with
  | verified | refused | drop | remove => trivial
  | lookup hello ch reason =>
      cases ch with
      | none =>
          intro howns
          rw [owns_device] at howns
          exact registered_of_active howns
      | some ch => exact h
  | clock hello ch reason found =>
      cases ch with
      | none =>
          cases hvalid : (Server.owns hello.claims found && decide (s.now < hello.claims.expires)) with
          | false => trivial
          | true => exact h (Bool.and_eq_true _ _ ▸ hvalid).1
      | some ch => cases (Server.owns hello.claims found && _) <;> exact h
  | _ => exact h

/-- The workspaces are as the store keeps them, and what the handlers have found out is so. -/
structure Kept (s : Sockets) : Prop where
  store : ∀ w, (s.memory w).Inv
  known : ∀ (i : Nat) x, s.sockets[i]? = some x → Known s.memory x

theorem Step.onward (hk : Kept s) (hstep : Step S s s') : Onward s.memory s'.memory := by
  intro w
  refine ⟨hk.store w, ?_⟩
  cases hstep with
  | call v c hc =>
      by_cases hw : w = v
      · subst hw
        dsimp only
        rw [Memory.answer_self]
        exact Space.answer_later _ hc
      · dsimp only
        rw [Memory.answer_of_ne _ hw]
        exact .refl
  | _ => exact .refl

theorem Kept.step (hk : Kept s) (hstep : Step S s s') : Kept s' := by
  have honward := hstep.onward hk
  refine ⟨fun w => (honward w).2.inv (hk.store w), fun j z hz => ?_⟩
  cases hstep with
  | accept =>
      dsimp only at hz
      rw [List.getElem?_append] at hz
      split at hz
      · exact hk.known j z hz
      · obtain rfl := List.mem_singleton.mp (List.mem_of_getElem? hz)
        trivial
  | move i x y e hub hx hmove hdoes =>
      rcases set_cases hx hz with ⟨rfl, rfl⟩ | ⟨-, hz⟩
      · exact hmove.known (hk.known _ x hx)
      · exact hk.known j z hz
  | _ => exact (hk.known j z hz).later honward

theorem Reachable.kept (h : Reachable S s) : Kept s := by
  induction h with
  | refl => exact ⟨fun _ => Space.new_inv, fun _ _ h => by cases h⟩
  | tail _ hstep ih => exact ih.step hstep

/-- The token has expired, or the device has been revoked. -/
def Lapsed (s : Sockets) (hello : Hello) : Prop :=
  hello.claims.expires ≤ s.now ∨
    (s.memory hello.claims.workspace).isRevoked hello.device = true

theorem Lapsed.ended {hello : Hello} (h : s.Lapsed hello) : s.Ended hello :=
  h.imp_right fun hrevoked => Space.not_active hrevoked _

/-- Where the device is the subject's, the session is over by no other cause. -/
theorem Ended.lapsed {hello : Hello} (hknown : Registered s.memory hello) (h : s.Ended hello) :
    s.Lapsed hello := by
  refine h.imp_right fun hinactive => ?_
  obtain ⟨d, hd, hactor⟩ := hknown
  rw [Space.isRevoked_iff]
  refine ⟨d, hd, ?_⟩
  rw [Space.active, hd] at hinactive
  simpa [hactor] using hinactive

theorem Lapsed.step (hk : Kept s) (hstep : Step S s s') {hello : Hello} (h : s.Lapsed hello) :
    s'.Lapsed hello := by
  have hnow : s.now ≤ s'.now := by
    cases hstep with
    | pass now hle => exact hle
    | _ => exact le_rfl
  have honward := hstep.onward hk hello.claims.workspace
  exact h.imp (fun hexpired => hexpired.trans hnow) (honward.2.isRevoked honward.1)

/-- A session that is over does not begin again. -/
theorem Ended.step (hk : Kept s) (hstep : Step S s s') {hello : Hello}
    (hknown : Registered s.memory hello) (h : s.Ended hello) : s'.Ended hello :=
  ((h.lapsed hknown).step hk hstep).ended

/-- The socket is closed, or its session over. Up to its first check, its device may not be
registered yet, and then the session is not over for that. -/
def Over (s : Sockets) : Socket → Prop
  | .opened => False
  | .asking hello none _ | .asked hello none _ _ => s.Lapsed hello
  | .asking hello (some _) _ | .asked hello (some _) _ _ | .admitted hello | .sending hello _
  | .waiting hello _ | .leaving hello _ _ => s.Ended hello
  | .closed _ => True

/-- No hint is on its way, nor is a check that succeeds. -/
def Silent (s : Sockets) : Socket → Prop
  | .admitted _ | .sending _ _ => False
  | .asked hello _ _ found => Server.owns hello.claims found = false ∨ hello.claims.expires ≤ s.now
  | _ => True

/-- The hints of one socket. -/
def hintsOf (s : Sockets) (i : Nat) : List (Nat × Nat) := s.hints.filter fun hint => hint.1 == i

theorem Over.step (hk : Kept s) (hknown : Known s.memory x) (hstep : Step S s s')
    (h : s.Over x) : s'.Over x := by
  cases x with
  | asking hello ch reason =>
      cases ch with
      | none => exact Lapsed.step hk hstep h
      | some ch => exact Ended.step hk hstep hknown h
  | asked hello ch reason found =>
      cases ch with
      | none => exact Lapsed.step hk hstep h
      | some ch => exact Ended.step hk hstep hknown h
  | admitted | sending | waiting | leaving => exact Ended.step hk hstep hknown h
  | opened | closed => exact h

theorem Silent.step (hstep : Step S s s') (h : s.Silent x) : s'.Silent x := by
  have hnow : s.now ≤ s'.now := by
    cases hstep with
    | pass now hle => exact hle
    | _ => exact le_rfl
  cases x with
  | asked hello ch reason found => exact h.imp_right fun hle => hle.trans hnow
  | _ => exact h

/-- A socket whose session is over moves on to silence. -/
theorem Over.move (hmove : Move S s x e y) (h : s.Over x) :
    s.Over y ∧ (x.writes = true ∨ s.Silent x → s.Silent y) := by
  cases hmove with
  | lookup hello ch reason =>
      have hended : s.Ended hello := by
        cases ch with
        | none => exact Lapsed.ended h
        | some ch => exact h
      refine ⟨by cases ch <;> exact h, fun _ => ?_⟩
      show Server.owns _ _ = false ∨ _
      rw [owns_device]
      exact hended.symm
  | clock hello ch reason found =>
      have hended : s.Ended hello := by
        cases ch with
        | none => exact Lapsed.ended h
        | some ch => exact h
      refine ⟨?_, fun hx => ?_⟩
      · cases (Server.owns hello.claims found && decide (s.now < hello.claims.expires)) with
        | false =>
            cases ch with
            | none => trivial
            | some ch => exact hended
        | true => cases ch <;> exact hended
      · have hfails : (Server.owns hello.claims found &&
            decide (s.now < hello.claims.expires)) = false := by
          rcases hx with hx | howns | hexpired
          · cases hx
          · rw [howns, Bool.false_and]
          · rw [decide_eq_false (Nat.not_lt.mpr hexpired), Bool.and_false]
        rw [hfails]
        cases ch <;> trivial
  | subscribe hello => exact ⟨h, fun hx => by rcases hx with hx | hx <;> cases hx⟩
  | verified | refused | drop => cases h
  | sent | failed | done | tick | wake => exact ⟨h, fun _ => trivial⟩
  | remove => exact ⟨trivial, fun _ => trivial⟩

/-- **One step of anybody**, for a socket whose session is over: it writes at most what it was
writing, and then it is silent. -/
theorem over_step (hk : Kept s) {i : Nat} (hx : s.sockets[i]? = some x) (h : s.Over x)
    (hstep : Step S s s') :
    ∃ y, s'.sockets[i]? = some y ∧ s'.Over y ∧
      (s'.hintsOf i = s.hintsOf i ∧ (s.Silent x → s'.Silent y) ∨
        ¬ s.Silent x ∧ s'.Silent y ∧ ∃ hint, s'.hintsOf i = s.hintsOf i ++ [hint]) := by
  have hsame := Over.step hk (hk.known i x hx) hstep h
  have hsilent : s.Silent x → s'.Silent x := Silent.step hstep
  obtain ⟨hlt, -⟩ := List.getElem?_eq_some_iff.mp hx
  cases hstep with
  | accept =>
      exact ⟨x, (List.getElem?_append_left hlt).trans hx, hsame, .inl ⟨rfl, hsilent⟩⟩
  | move j x' y e hub hx' hmove hdoes =>
      by_cases hj : j = i
      · subst hj
        obtain rfl := Option.some.inj (hx.symm.trans hx')
        obtain ⟨hover, hquiet⟩ := h.move hmove
        refine ⟨y, List.getElem?_set_self hlt, hover, ?_⟩
        cases hw : x.writes with
        | false =>
            refine .inl ⟨?_, fun hx => hquiet (.inr hx)⟩
            simp [hintsOf]
        | true =>
            refine .inr ⟨?_, hquiet (.inl hw), (j, s.calls), ?_⟩
            · cases x with
              | sending => exact id
              | _ => cases hw
            · simp [hintsOf]
      · refine ⟨x, (List.getElem?_set_ne hj).trans hx, hsame, .inl ⟨?_, hsilent⟩⟩
        rw [hintsOf, hintsOf, List.filter_append]
        split <;> simp [hj]
  | _ => exact ⟨x, hx, hsame, .inl ⟨rfl, hsilent⟩⟩

/-- **A session that has ended falls silent.** Once the token of a socket has expired or its device
has been revoked, whatever happens then, the socket writes one more hint at most, and that only if
the check had been made before; and none after that. -/
theorem ended_silent (h : Reachable S s) {i : Nat} (hx : s.sockets[i]? = some x) (hover : s.Over x)
    (hlater : Later S s s') :
    ∃ more, s'.hintsOf i = s.hintsOf i ++ more ∧ more.length ≤ 1 ∧ (s.Silent x → more = []) := by
  have hrun : ∃ y, s'.sockets[i]? = some y ∧ s'.Over y ∧
      (s'.hintsOf i = s.hintsOf i ∧ (s.Silent x → s'.Silent y) ∨
        ¬ s.Silent x ∧ s'.Silent y ∧ ∃ hint, s'.hintsOf i = s.hintsOf i ++ [hint]) := by
    induction hlater with
    | refl => exact ⟨x, hx, hover, .inl ⟨rfl, id⟩⟩
    | @tail t t' hst hstep ih =>
        obtain ⟨y, hy, hoverY, hsofar⟩ := ih
        obtain ⟨z, hz, hoverZ, hnext⟩ :=
          over_step (Reachable.kept (h.trans hst)) hy hoverY hstep
        refine ⟨z, hz, hoverZ, ?_⟩
        rcases hsofar with ⟨hhints, hsilent⟩ | ⟨hnot, hsilent, hint, hhints⟩
        · rcases hnext with ⟨hhints', hsilent'⟩ | ⟨hnot', hsilent', hint, hhints'⟩
          · exact .inl ⟨hhints'.trans hhints, fun hq => hsilent' (hsilent hq)⟩
          · exact .inr ⟨fun hq => hnot' (hsilent hq), hsilent', hint, by rw [hhints', hhints]⟩
        · rcases hnext with ⟨hhints', hsilent'⟩ | ⟨hnot', -, -⟩
          · exact .inr ⟨hnot, hsilent' hsilent, hint, by rw [hhints', hhints]⟩
          · exact absurd hsilent hnot'
  obtain ⟨y, -, -, ⟨hhints, -⟩ | ⟨hnot, -, hint, hhints⟩⟩ := hrun
  · exact ⟨[], by rw [hhints, List.append_nil], Nat.zero_le _, fun _ => rfl⟩
  · exact ⟨[hint], hhints, le_rfl, fun hq => absurd hq hnot⟩

/-- The run, when the token has expired. -/
def late (sockets : List Socket) : Sockets :=
  { calm sockets listening [(0, 1)] with now := 9 }

/-- The next tick ends it, with no further hint. -/
theorem ended_silent_run :
    Later demo (late [.waiting ada 0]) (late [.leaving ada 0 "session ended"]) ∧
      ∃ more, (late [.leaving ada 0 "session ended"]).hintsOf 0 = (late [.waiting ada 0]).hintsOf 0 ++ more ∧
        more = [] := by
  have hs : Reachable demo (late [.waiting ada 0]) := calm_waits.tail (.pass 9 (by decide))
  have h₁ : Step demo (late [.waiting ada 0]) (late [.asking ada (some 0) "session ended"]) :=
    .move 0 _ _ none _ rfl (.tick ada 0) rfl
  have h₂ : Step demo (late [.asking ada (some 0) "session ended"])
      (late [.asked ada (some 0) "session ended" (.ok ours)]) :=
    .move 0 _ _ none _ rfl (.lookup ada (some 0) "session ended") rfl
  have hclock : Move demo (late [.asked ada (some 0) "session ended" (.ok ours)])
      (.asked ada (some 0) "session ended" (.ok ours)) none (.leaving ada 0 "session ended") :=
    .clock ada (some 0) "session ended" (.ok ours)
  have h₃ : Step demo (late [.asked ada (some 0) "session ended" (.ok ours)])
      (late [.leaving ada 0 "session ended"]) :=
    .move 0 _ _ none _ rfl hclock rfl
  have hlater : Later demo (late [.waiting ada 0]) (late [.leaving ada 0 "session ended"]) :=
    ((Relation.ReflTransGen.single h₁).tail h₂).tail h₃
  have hover : (late [.waiting ada 0]).Over (.waiting ada 0) := Or.inl (by decide)
  obtain ⟨more, hmore, -, hnone⟩ := ended_silent (i := 0) hs rfl hover hlater
  exact ⟨hlater, more, hmore, hnone trivial⟩

end Sockets

end Syncraft.Api
