import Mathlib.Data.Finset.Card
import Syncraft.Domain.Model
import Syncraft.Library.Run

/-!
# Syncraft.Api.Hub

The hub of `internal/api/events.go`: `Notify`, `subscribe`, and the functions `subscribe`
returns. All of them hold the mutex while they run, but a listener that receives does not:
receives come between any two sends of the loop in `Notify`. So `subscribe` and a removal are
one step each, and a `Notify` is a step for the mutex, one for each channel of its loop, and one
to unlock.

A token carries nothing. The model remembers which workspace's `Notify` has sent it, which
workspace a channel was made for, and whose removal has been called.
-/

namespace Syncraft.Api

open Domain Library

/-! ### The map -/

/-- A channel of `subscribe`, by the number of its `make`. -/
abbrev Chan := Nat

/-- `map[string]map[chan struct{}]bool` -/
abbrev Listeners := GoString → Option (Finset Chan)

/-- `h.listeners[w]`, where no inner map reads like an empty one. -/
def inner (l : Listeners) (w : GoString) : Finset Chan := (l w).getD ∅

/-- What `subscribe` does to the map, with the channel it has made. -/
def subscribe (l : Listeners) (w : GoString) (ch : Chan) : Listeners :=
  let l := if (l w).isNone then Function.update l w (some ∅) else l
  Function.update l w (some (insert ch (inner l w)))

/-- What the function returned by `subscribe` does to the map. -/
def remove (l : Listeners) (w : GoString) (ch : Chan) : Listeners :=
  -- Deleting from an inner map that is missing does nothing.
  let l := if (l w).isNone then l else Function.update l w (some ((inner l w).erase ch))
  if (inner l w).card = 0 then Function.update l w none else l

theorem subscribe_eq (l : Listeners) (w : GoString) (ch : Chan) :
    subscribe l w ch = Function.update l w (some (insert ch (inner l w))) := by
  cases h : l w <;> simp [subscribe, inner, h]

theorem remove_eq (l : Listeners) (w : GoString) (ch : Chan) :
    remove l w ch = Function.update l w
      (if (inner l w).erase ch = ∅ then none else some ((inner l w).erase ch)) := by
  cases h : l w with
  | none => simp [remove, inner, h]
  | some chans =>
      by_cases he : chans.erase ch = ∅
      · simp [remove, inner, h, he]
      · simp only [remove, inner, h, Option.isNone_some, Bool.false_eq_true, if_false,
          Option.getD_some, Function.update_self, Finset.card_eq_zero, if_neg he]

/-- No inner map is empty. -/
def Trimmed (l : Listeners) : Prop := ∀ w, l w ≠ some ∅

theorem inner_update (l : Listeners) (w v : GoString) (chans : Option (Finset Chan)) :
    inner (Function.update l w chans) v = if v = w then chans.getD ∅ else inner l v := by
  by_cases hv : v = w
  · simp [inner, hv]
  · simp [inner, hv]

theorem inner_subscribe (l : Listeners) (w v : GoString) (ch : Chan) :
    inner (subscribe l w ch) v = if v = w then insert ch (inner l w) else inner l v := by
  rw [subscribe_eq, inner_update, Option.getD_some]

theorem inner_remove (l : Listeners) (w v : GoString) (ch : Chan) :
    inner (remove l w ch) v = if v = w then (inner l w).erase ch else inner l v := by
  rw [remove_eq, inner_update]
  by_cases he : (inner l w).erase ch = ∅
  · simp [he]
  · simp [he]

theorem Trimmed.update {l : Listeners} (hl : Trimmed l) (w : GoString)
    {chans : Option (Finset Chan)} (hc : chans ≠ some ∅) : Trimmed (Function.update l w chans) := by
  intro v
  by_cases hv : v = w
  · subst hv
    rwa [Function.update_self]
  · rw [Function.update_of_ne hv]
    exact hl v

theorem Trimmed.subscribe {l : Listeners} (hl : Trimmed l) (w : GoString) (ch : Chan) :
    Trimmed (subscribe l w ch) := by
  rw [subscribe_eq]
  exact hl.update w (by simp)

theorem Trimmed.remove {l : Listeners} (hl : Trimmed l) (w : GoString) (ch : Chan) :
    Trimmed (remove l w ch) := by
  rw [remove_eq]
  apply hl.update w
  by_cases he : (inner l w).erase ch = ∅ <;> simp [he]

/-! ### The hub and its steps -/

/-- The hub, with the buffers of its channels and the holder of its mutex. -/
structure Hub where
  listeners : Listeners
  /-- The buffer of a channel, of one place, and who has sent the token in it. -/
  token : Chan → Option GoString
  /-- The `Notify` that holds the mutex, and the channels its loop has not come to. -/
  notifying : Option (GoString × List Chan)
  /-- The workspace each channel was made for, in the order they were made. -/
  made : List GoString
  /-- The channels whose removal has been called. -/
  removed : Finset Chan

/-- `NewHub` -/
def Hub.new : Hub :=
  { listeners := fun _ => none, token := fun _ => none, notifying := none, made := [],
    removed := ∅ }

/-- A send in a `select` with a `default`. -/
def trySend (token : Chan → Option GoString) (w : GoString) (ch : Chan) : Chan → Option GoString :=
  if (token ch).isNone then Function.update token ch (some w) else token

namespace Hub

/-- What happens to a hub. -/
inductive Event where
  | subscribe (w : GoString)
  /-- The function that `subscribe` returned with the channel is called. -/
  | remove (ch : Chan)
  /-- `Notify` has locked the mutex. Its loop goes through the map in any order. -/
  | notify (w : GoString) (order : List Chan)
  /-- The next round of the loop. -/
  | send
  | unlock
  /-- The listener of the channel takes the token. -/
  | receive (ch : Chan)
  deriving DecidableEq, Repr

inductive Step (h : Hub) : Event → Hub → Prop where
  | subscribe (w : GoString) : h.notifying = none →
      Step h (.subscribe w)
        { h with listeners := Api.subscribe h.listeners w h.made.length, made := h.made ++ [w] }
  | remove (w : GoString) (ch : Chan) : h.notifying = none → h.made[ch]? = some w →
      Step h (.remove ch)
        { h with listeners := Api.remove h.listeners w ch, removed := insert ch h.removed }
  | notify (w : GoString) (order : List Chan) : h.notifying = none → order.Nodup →
      order.toFinset = inner h.listeners w →
      Step h (.notify w order) { h with notifying := some (w, order) }
  | send (w : GoString) (ch : Chan) (rest : List Chan) : h.notifying = some (w, ch :: rest) →
      Step h .send { h with token := trySend h.token w ch, notifying := some (w, rest) }
  | unlock (w : GoString) : h.notifying = some (w, []) →
      Step h .unlock { h with notifying := none }
  | receive (ch : Chan) : h.token ch ≠ none →
      Step h (.receive ch) { h with token := Function.update h.token ch none }

/-- The channel was made for the workspace and is not removed. -/
def Live (h : Hub) (w : GoString) (ch : Chan) : Prop := h.made[ch]? = some w ∧ ch ∉ h.removed

/-- The invariant of a hub. -/
structure Invariant (h : Hub) : Prop where
  trimmed : Trimmed h.listeners
  live : ∀ w ch, ch ∈ inner h.listeners w ↔ h.Live w ch
  token : ∀ w ch, h.token ch = some w → h.made[ch]? = some w
  notifying : ∀ w rest, h.notifying = some (w, rest) → ∀ ch ∈ rest, h.made[ch]? = some w
  removed : ∀ ch ∈ h.removed, ch < h.made.length

theorem Invariant.new : Invariant Hub.new where
  trimmed := by simp [Trimmed, Hub.new]
  live := by simp [Live, Hub.new, inner]
  token := by simp [Hub.new]
  notifying := by simp [Hub.new]
  removed := by simp [Hub.new]

/-- The channels made so far keep their workspaces. -/
theorem made_append {made : List GoString} {ch : Chan} {w : GoString} (h : made[ch]? = some w)
    (v : GoString) : (made ++ [v])[ch]? = some w := by
  rw [List.getElem?_append_left (List.getElem?_eq_some_iff.mp h).1]
  exact h

theorem Invariant.subscribe {h : Hub} (hi : h.Invariant) (w : GoString)
    (hn : h.notifying = none) :
    Invariant { h with listeners := Api.subscribe h.listeners w h.made.length,
                       made := h.made ++ [w] } where
  trimmed := hi.trimmed.subscribe w _
  live := by
    intro v ch
    rw [inner_subscribe]
    have hlive := hi.live v ch
    have hremoved := hi.removed ch
    simp only [Live] at hlive ⊢
    -- The channel is the new one, one made before, or none at all.
    rcases Nat.lt_trichotomy ch h.made.length with hlt | heq | hgt
    · rw [List.getElem?_append_left hlt, ← hlive]
      split
      · subst v
        simp [hlt.ne]
      · rfl
    · subst heq
      have hfresh : h.made.length ∉ inner h.listeners v := by simp [hlive]
      have hkept : h.made.length ∉ h.removed := fun hr => Nat.lt_irrefl _ (hremoved hr)
      by_cases hv : v = w
      · simp [hv, hkept]
      · simp [hv, hfresh, Ne.symm hv]
    · have hout : (h.made ++ [w])[ch]? = none := by
        rw [List.getElem?_eq_none_iff, List.length_append, List.length_singleton]
        omega
      have hold : h.made[ch]? = none := List.getElem?_eq_none hgt.le
      rw [hold] at hlive
      rw [hout]
      split
      · subst v
        simpa [hgt.ne'] using hlive
      · simpa using hlive
  token := fun v ch ht => made_append (hi.token v ch ht) w
  notifying := by simp [hn]
  removed := fun ch hr => by
    rw [List.length_append]
    exact Nat.lt_add_right _ (hi.removed ch hr)

theorem Invariant.remove {h : Hub} (hi : h.Invariant) {w : GoString} {ch : Chan}
    (hn : h.notifying = none) (hw : h.made[ch]? = some w) :
    Invariant { h with listeners := Api.remove h.listeners w ch,
                       removed := insert ch h.removed } where
  trimmed := hi.trimmed.remove w ch
  live := by
    intro v c
    rw [inner_remove]
    have hlive := hi.live v c
    simp only [Live, Finset.mem_insert, not_or] at hlive ⊢
    split
    · subst v
      rw [Finset.mem_erase, hlive]
      tauto
    · rename_i hv
      rw [hlive]
      -- The channel removed belongs to another workspace.
      have hne : h.made[c]? = some v → c ≠ ch := by
        rintro hc rfl
        exact hv (Option.some.inj (hc.symm.trans hw))
      tauto
  token := hi.token
  notifying := by simp [hn]
  removed := by
    intro c hc
    rcases Finset.mem_insert.mp hc with rfl | hc
    · exact (List.getElem?_eq_some_iff.mp hw).1
    · exact hi.removed c hc

/-- A `Notify` of the channel's own workspace may have sent to it. -/
theorem trySend_some {token : Chan → Option GoString} {w v : GoString} {ch c : Chan}
    (h : trySend token w ch c = some v) : token c = some v ∨ (c = ch ∧ v = w) := by
  unfold trySend at h
  split at h
  · by_cases hc : c = ch
    · subst hc
      rw [Function.update_self] at h
      exact .inr ⟨rfl, (Option.some.inj h).symm⟩
    · rw [Function.update_of_ne hc] at h
      exact .inl h
  · exact .inl h

/-- After a send the channel holds a token. -/
theorem trySend_ne_none (token : Chan → Option GoString) (w : GoString) {ch c : Chan}
    (h : c = ch ∨ token c ≠ none) : trySend token w ch c ≠ none := by
  by_cases hc : c = ch
  · subst hc
    cases ht : token c <;> simp [trySend, ht]
  · have hkept := h.resolve_left hc
    cases ht : token ch <;> simpa [trySend, ht, hc] using hkept

/-- **Invariant.** One step keeps it. -/
theorem Invariant.step {h h' : Hub} {e : Event} (hi : h.Invariant) (hs : Step h e h') :
    h'.Invariant := by
  cases hs with
  | subscribe w hn => exact hi.subscribe w hn
  | remove w ch hn hw => exact hi.remove hn hw
  | notify w order hn _ hkeys =>
      refine { hi with notifying := ?_ }
      intro v rest hr ch hch
      obtain ⟨rfl, rfl⟩ := Prod.mk.inj (Option.some.inj hr)
      rw [← List.mem_toFinset, hkeys] at hch
      exact ((hi.live _ ch).mp hch).1
  | send w ch rest hn =>
      have hmade := hi.notifying w (ch :: rest) hn
      refine { hi with token := ?_, notifying := ?_ }
      · intro v c ht
        rcases trySend_some ht with ht | ⟨rfl, rfl⟩
        · exact hi.token v c ht
        · exact hmade c List.mem_cons_self
      · intro v rest' hr c hc
        obtain ⟨rfl, rfl⟩ := Prod.mk.inj (Option.some.inj hr)
        exact hmade c (List.mem_cons_of_mem _ hc)
  | unlock w hn => exact { hi with notifying := by simp }
  | receive ch ht =>
      refine { hi with token := ?_ }
      intro v c hc
      by_cases hcc : c = ch
      · simp [hcc] at hc
      · exact hi.token v c (by simpa [hcc] using hc)

theorem Invariant.run {h h' : Hub} {es : List Event} (hi : h.Invariant) (hr : Run Step h es h') :
    h'.Invariant :=
  hr.invariant (fun _ _ _ => Invariant.step) hi

/-! ### Notify does not block -/

/-- The steps that the `Notify` holding the mutex has to make: its loop, and the unlock. -/
def left (h : Hub) : Nat :=
  match h.notifying with
  | none => 0
  | some (_, rest) => rest.length + 1

/-- A step of the `Notify` that holds the mutex. -/
def Event.ofNotify (e : Event) : Prop := e = .send ∨ e = .unlock

/-- Whatever the buffers hold, the loop goes on. -/
theorem exists_step_of_left {h : Hub} (hl : 0 < h.left) : ∃ e h', e.ofNotify ∧ Step h e h' := by
  unfold left at hl
  split at hl
  · cases hl
  · rename_i w rest hn
    cases rest with
    | nil => exact ⟨.unlock, _, .inr rfl, .unlock w hn⟩
    | cons ch rest => exact ⟨.send, _, .inl rfl, .send w ch rest hn⟩

/-- Nothing comes between two steps of the loop but receives, and these leave it where it is. -/
theorem Step.left {h h' : Hub} {e : Event} (hs : Step h e h') (hl : 0 < h.left) :
    (e.ofNotify ∧ h'.left + 1 = h.left) ∨ ∃ ch, e = .receive ch ∧ h'.left = h.left := by
  cases hs with
  | subscribe w hn => simp [Hub.left, hn] at hl
  | remove w ch hn _ => simp [Hub.left, hn] at hl
  | notify w order hn _ _ => simp [Hub.left, hn] at hl
  | send w ch rest hn => exact .inl ⟨.inl rfl, by simp [Hub.left, hn]⟩
  | unlock w hn => exact .inl ⟨.inr rfl, by simp [Hub.left, hn]⟩
  | receive ch _ => exact .inr ⟨ch, rfl, rfl⟩

/-- A `Notify` begins as soon as the mutex is free. -/
theorem exists_notify {h : Hub} (hn : h.notifying = none) (w : GoString) :
    ∃ order h', Step h (.notify w order) h' :=
  ⟨(inner h.listeners w).toList, _, .notify w _ hn (Finset.nodup_toList _) (Finset.toList_toFinset _)⟩

/-! ### Delivery -/

/-- A channel that the loop of a `Notify` has to come to gets its turn, and holds a token then. -/
theorem exists_send {w v : GoString} {ch : Chan} {chans : List Chan} {during : List Event} {s m : Hub}
    (hrun : Run Step s during m) (hn : s.notifying = some (w, chans)) (hch : ch ∈ chans)
    (hlock : Event.unlock ∉ during) (hm : m.notifying = some (v, [])) :
    ∃ before later u u' more, during = before ++ .send :: later ∧ Run Step s before u ∧
      u.notifying = some (w, ch :: more) ∧ Step u .send u' ∧ Run Step u' later m ∧
      u'.token ch ≠ none := by
  induction hrun generalizing chans with
  | nil =>
      obtain ⟨-, rfl⟩ := Prod.mk.inj (Option.some.inj (hn.symm.trans hm))
      cases hch
  | @cons s t m e es hs hrest ih =>
      have hlater : Event.unlock ∉ es := fun hmem => hlock (List.mem_cons_of_mem _ hmem)
      cases hs with
      | subscribe v hv => simp [hn] at hv
      | remove v c hv _ => simp [hn] at hv
      | notify v order hv _ _ => simp [hn] at hv
      | unlock v hv => exact absurd List.mem_cons_self hlock
      | send v c rest hv =>
          obtain ⟨rfl, rfl⟩ := Prod.mk.inj (Option.some.inj (hn.symm.trans hv))
          by_cases heq : ch = c
          · subst heq
            exact ⟨[], es, s, _, rest, rfl, .nil s, hn, .send w ch rest hn, hrest,
              trySend_ne_none s.token w (.inl rfl)⟩
          · have hmem : ch ∈ rest := (List.mem_cons.mp hch).resolve_left heq
            obtain ⟨before, later, u, u', more, rfl, hbefore, hu⟩ := ih rfl hmem hlater hm
            exact ⟨.send :: before, later, u, u', more, rfl, .cons (.send w c rest hn) hbefore, hu⟩
      | receive c hc =>
          obtain ⟨before, later, u, u', more, rfl, hbefore, hu⟩ := ih hn hch hlater hm
          exact ⟨.receive c :: before, later, u, u', more, rfl, .cons (.receive c hc) hbefore, hu⟩

/-- A token stays until it is received, also in the channel of a listener that has left. -/
theorem Step.token {ch : Chan} {h h' : Hub} {e : Event} (ht : h.token ch ≠ none)
    (hs : Step h e h') : e = .receive ch ∨ h'.token ch ≠ none := by
  cases hs with
  | subscribe | remove | notify | unlock => exact .inr ht
  | send w c rest hn => exact .inr (trySend_ne_none h.token w (.inr ht))
  | receive c _ =>
      by_cases hc : ch = c
      · exact .inl (by rw [hc])
      · exact .inr (by simpa [hc] using ht)

/-- A channel keeps the workspace it was made for. -/
theorem Step.made {w : GoString} {ch : Chan} {h h' : Hub} {e : Event}
    (hw : h.made[ch]? = some w) (hs : Step h e h') : h'.made[ch]? = some w := by
  cases hs with
  | subscribe v _ => exact made_append hw v
  | remove | notify | send | unlock | receive => exact hw

/-- The loop of a `Notify` has to come to every channel that is subscribed as it begins. -/
theorem mem_of_notify {w : GoString} {ch : Chan} {order : List Chan} {h s : Hub} (hi : h.Invariant)
    (hch : h.Live w ch) (hs : Step h (.notify w order) s) :
    s.notifying = some (w, order) ∧ ch ∈ order := by
  cases hs with
  | notify _ _ hn _ hkeys =>
      refine ⟨rfl, ?_⟩
      rw [← List.mem_toFinset, hkeys]
      exact (hi.live w ch).mpr hch

/-- **Hints.** In every state of a hub the map holds the live subscriptions and no empty inner
map, and a token in a channel comes from the channel's own workspace. A `Notify` begins when the
mutex is free, and then only receives come between its steps, all of which it can make. While it
runs it comes to every channel that was subscribed as it began, and from then on the channel holds a
token until the listener receives. -/
theorem hints_kept {es : List Event} {h : Hub} (hr : Run Step Hub.new es h) :
    (∀ w ch, ch ∈ inner h.listeners w ↔ h.Live w ch) ∧ (∀ w, h.listeners w ≠ some ∅) ∧
    (∀ w ch, h.token ch = some w → h.made[ch]? = some w) ∧
    (h.notifying = none → ∀ w, ∃ order h', Step h (.notify w order) h') ∧
    (0 < h.left → (∃ e h', e.ofNotify ∧ Step h e h') ∧
      ∀ e h', Step h e h' →
        (e.ofNotify ∧ h'.left + 1 = h.left) ∨ ∃ ch, e = .receive ch ∧ h'.left = h.left) ∧
    ∀ w order during after s m n last, Step h (.notify w order) s → Run Step s during m →
      Event.unlock ∉ during → Step m .unlock n → Run Step n after last →
      ∀ ch, h.Live w ch → ∃ before later u more, during = before ++ .send :: later ∧
        Run Step s before u ∧ u.notifying = some (w, ch :: more) ∧
        (Event.receive ch ∈ later ++ after ∨ last.token ch = some w) := by
  have hi := Invariant.new.run hr
  refine ⟨hi.live, hi.trimmed, hi.token, exists_notify, fun hl => ⟨exists_step_of_left hl,
    fun e h' hs => hs.left hl⟩, ?_⟩
  intro w order during after s m n last hs hduring hlock hunlock hafter ch hch
  obtain ⟨hn, hmem⟩ := mem_of_notify hi hch hs
  -- At the unlock the loop is through.
  obtain ⟨v, hm⟩ : ∃ v, m.notifying = some (v, []) := by
    cases hunlock with
    | unlock v hv => exact ⟨v, hv⟩
  obtain ⟨before, later, u, u', more, rfl, hbefore, hu, hsend, hlater, htoken⟩ :=
    exists_send hduring hn hmem hlock hm
  refine ⟨before, later, u, more, rfl, hbefore, hu, ?_⟩
  have hmade (h₀ h₁ : Hub) (es' : List Event) (hr' : Run Step h₀ es' h₁)
      (hw : h₀.made[ch]? = some w) : h₁.made[ch]? = some w :=
    hr'.invariant (P := fun h => h.made[ch]? = some w) (fun _ _ _ => Step.made) hw
  have hlast := (hlater.append (.cons hunlock hafter)).holds_unless
    (P := fun h => h.token ch ≠ none) (Q := fun e => e = .receive ch) (fun _ _ _ => Step.token)
    htoken
  rcases hlast with ⟨e, he, rfl⟩ | hlast
  · left
    rcases List.mem_append.mp he with he | he
    · exact List.mem_append_left _ he
    · rcases List.mem_cons.mp he with heq | he
      · cases heq
      · exact List.mem_append_right _ he
  · right
    have hall : Run Step h (.notify w order :: (before ++ .send :: later ++ .unlock :: after)) last :=
      .cons hs (hduring.append (.cons hunlock hafter))
    obtain ⟨v, hv⟩ := Option.ne_none_iff_exists'.mp hlast
    -- The token comes from the workspace the channel was made for.
    have hfrom := (hi.run hall).token v ch hv
    rw [hmade h last _ hall hch.1] at hfrom
    rw [hv, Option.some.inj hfrom]

/-- Two workspaces with a listener each: the one that is notified gets the token. -/
theorem hints_kept_run : ∃ h s last,
    Run Step Hub.new [.subscribe [0x61], .subscribe [0x62]] h ∧ Step h (.notify [0x61] [0]) s ∧
    Run Step s [.send, .unlock] last ∧
    (∃ before later u more, [Event.send] = before ++ .send :: later ∧ Run Step s before u ∧
      u.notifying = some ([0x61], 0 :: more) ∧
      (Event.receive 0 ∈ later ++ [] ∨ last.token 0 = some [0x61])) ∧ last.token 1 = none := by
  have hr : Run Step Hub.new [.subscribe [0x61], .subscribe [0x62]] _ :=
    .cons (.subscribe [0x61] rfl) (.cons (.subscribe [0x62] rfl) (.nil _))
  have hkeys : [0].toFinset = inner (Api.subscribe (Api.subscribe Hub.new.listeners [0x61] 0)
      [0x62] 1) [0x61] := by decide
  have hs := Step.notify (h := { Hub.new with
    listeners := Api.subscribe (Api.subscribe Hub.new.listeners [0x61] 0) [0x62] 1
    made := [[0x61], [0x62]] }) [0x61] [0] rfl (List.nodup_singleton 0) hkeys
  refine ⟨_, _, _, hr, hs, .cons (.send [0x61] 0 [] rfl) (.cons (.unlock [0x61] rfl) (.nil _)), ?_,
    rfl⟩
  exact (hints_kept hr).2.2.2.2.2 _ _ _ _ _ _ _ _ hs (.single (.send [0x61] 0 [] rfl)) (by decide)
    (.unlock [0x61] rfl) (.nil _) 0 ⟨rfl, by decide⟩

end Hub

end Syncraft.Api
