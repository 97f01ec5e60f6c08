import Syncraft.Api.Confinement
import Syncraft.Store.Attachments

/-!
# Syncraft.Api.Uploads

What the answers to `upload` and `attachments` say of the store is so when they are given, and stays
so: whatever other requests do meanwhile, attachments only get more (`handler_ensures`).
-/

namespace Syncraft.Api

open Domain Store Library Program

/-- Some request brings the attachment, and its handler accepts it. -/
def Server.Accepts (S : Server) (a : Attachment) : Prop := ∃ r, S.Uploads r a

/-- Calls as handlers make them. -/
def Ask.Of (S : Server) : (β : Type) → Ask β → Prop
  | _, .store _ c => c.Within S.Accepts
  | _, _ => True

/-- In every workspace attachments only get more. -/
def Backend.Grows (S : Server) (b b' : Backend) : Prop :=
  ∀ w, (b.store w).Grows S.Accepts (b'.store w)

variable {S : Server} {r : Request}

theorem handler_of : (S.handler r).Makes (Ask.Of S) := by
  refine Server.handler_makes.mono fun β a ha => ?_
  cases a with
  | store w c => exact ha.2.mono fun x hx => ⟨r, hx⟩
  | _ => trivial

theorem grows_refl (b : Backend) : b.Grows S b := fun _ => Space.Grows.refl _

theorem grows_trans (b b' b'' : Backend) (h : b.Grows S b') (h' : b'.Grows S b'') : b.Grows S b'' :=
  fun w => (h w).trans (h' w)

theorem answer_grows (β : Type) (a : Ask β) (b : Backend) (ha : Ask.Of S β a) :
    b.Grows S (backend.answer a b).2 := by
  cases a with
  | store w c =>
      intro w'
      show (b.store w').Grows S.Accepts ((b.store.answer w c).2 w')
      by_cases hw : w' = w
      · subst hw
        rw [Memory.answer_self]
        exact Space.answer_grows _ ha
      · rw [Memory.answer_of_ne _ hw]
        exact Space.Grows.refl _
  | _ => exact grows_refl b

/-- What the response says of the store is so. -/
structure Truthful (S : Server) (r : Request) (response : Response) (b : Backend) : Prop where
  /-- An upload that succeeded is held, for the record it was for and with the hash reported. -/
  uploaded : ∀ id a, r.route = .upload id → response.body = .attachment a →
    ∃ c, S.claims r = some c ∧ ∃ x, (b.store c.workspace).attachments.lookup id = some x ∧
      x.record = r.record ∧ x.sha256 = a.sha256
  /-- What is listed is held, for the record asked for. -/
  listed : ∀ rows, r.route = .attachments → response.body = .attachments rows →
    ∃ c, S.claims r = some c ∧ ∀ a ∈ rows, ∃ x,
      (b.store c.workspace).attachments.lookup a.id = some x ∧
        x.record = r.queryRecord ∧ x.sha256 = a.sha256

theorem Truthful.later {response : Response} {b b' : Backend} (h : Truthful S r response b)
    (hlater : b.Grows S b') : Truthful S r response b' where
  uploaded id a hroute hbody := by
    obtain ⟨c, hc, x, hx, hsame⟩ := h.uploaded id a hroute hbody
    exact ⟨c, hc, x, (hlater c.workspace).kept hx, hsame⟩
  listed rows hroute hbody := by
    obtain ⟨c, hc, hrows⟩ := h.listed rows hroute hbody
    refine ⟨c, hc, fun a ha => ?_⟩
    obtain ⟨x, hx, hsame⟩ := hrows a ha
    exact ⟨x, (hlater c.workspace).kept hx, hsame⟩

/-- An error says nothing of the store. -/
theorem truthful_error {response : Response} {message : String}
    (h : response.body = .error message) (b : Backend) : Truthful S r response b where
  uploaded _ _ _ hbody := by rw [h] at hbody; cases hbody
  listed _ _ hbody := by rw [h] at hbody; cases hbody

theorem failure_body (e : Err) : (failure e).body = .error e.message := by
  cases e <;> rfl

namespace Server

variable {start b : Backend}

/-- `identity` returns an error, or the claims of the request. -/
theorem identity_ensures (edit device : Bool)
    (hclaims : S.claims r = S.verify (trimBearer r.authorization) r.now) (hb : start.Grows S b) :
    (S.identity r edit device).Ensures backend (Backend.Grows S)
      (fun res b => ((∃ response message, res = .error response ∧ response.body = .error message) ∨
        ∃ c, res = .ok c ∧ S.claims r = some c) ∧ start.Grows S b) b := by
  have hmakes : (S.identity r edit device).Makes (Ask.Of S) := by
    refine (@identity_makes S r True S.Accepts edit device).mono fun β a ha => ?_
    cases a with
    | store w c => exact ha.2
    | _ => trivial
  refine hmakes.ensures grows_trans answer_grows ?_ hb
  unfold identity
  split
  · exact Or.inl ⟨_, _, rfl, rfl⟩
  next c hc =>
  split
  · exact Or.inl ⟨_, _, rfl, failure_body _⟩
  split
  · intro found
    show Returns _ (if owns c found = true then _ else _)
    split
    · exact Or.inr ⟨c, rfl, hclaims.trans hc⟩
    · exact Or.inl ⟨_, _, rfl, failure_body _⟩
  · exact Or.inr ⟨c, rfl, hclaims.trans hc⟩

/-- A handler that passes `identity` and goes on with the claims. -/
theorem ensures_after_identity {edit device : Bool} {next : Claims → Handler Response}
    (hclaims : S.claims r = S.verify (trimBearer r.authorization) r.now) (hb : start.Grows S b)
    (h : ∀ c b, S.claims r = some c → start.Grows S b →
      (next c).Ensures backend (Backend.Grows S) (Truthful S r) b) :
    ((S.identity r edit device) >>= fun res => match res with
      | .error response => pure response
      | .ok c => next c).Ensures backend (Backend.Grows S) (Truthful S r) b := by
  refine (identity_ensures edit device hclaims hb).bind fun res b' hres => ?_
  obtain ⟨⟨response, message, rfl, hbody⟩ | ⟨c, rfl, hc⟩, hb'⟩ := hres
  · exact truthful_error hbody b'
  · exact h c b' hc hb'

theorem uploaded_error {id : GoString} {response : Response}
    (h : S.uploaded r id = .error response) :
    ∃ message, response.body = .error message := by
  rw [uploaded] at h
  split at h
  · exact ⟨_, Except.error.inj h ▸ failure_body _⟩
  split at h
  · exact ⟨_, Except.error.inj h ▸ failure_body _⟩
  split at h
  · exact ⟨_, Except.error.inj h ▸ failure_body _⟩
  split at h
  · exact ⟨_, Except.error.inj h ▸ failure_body _⟩
  split at h
  · obtain rfl := Except.error.inj h
    exact ⟨_, rfl⟩
  · cases h

/-- **Everything an upload brings has passed these checks.** -/
structure Checked (S : Server) (r : Request) (id : GoString) (a : Attachment) : Prop where
  id : a.id = id ∧ validID id = true
  record : a.record = r.record ∧ validID r.record = true
  name : a.name ≠ [] ∧ a.name.length ≤ 200 ∧ a.name.any forbidden = false
  media : a.type ∈ mediaTypes
  data : a.data = r.body ∧ r.body ≠ [] ∧ r.body.length ≤ 5 * 1024 * 1024
  size : a.size = r.body.length
  hash : a.sha256 = S.packages.sha256 r.body

theorem uploaded_ok {id : GoString} {a : Attachment} (h : S.uploaded r id = .ok a) :
    Checked S r id a := by
  rw [uploaded] at h
  split at h
  · cases h
  next name hname =>
  split at h
  · cases h
  next hchecks =>
  split at h
  · cases h
  next media hmedia =>
  split at h
  · cases h
  next htype =>
  split at h
  · cases h
  next hbody =>
  obtain rfl := Except.ok.inj h
  simp only [Bool.or_eq_true, Bool.not_eq_true', decide_eq_true_eq, not_or, Bool.not_eq_false,
    Nat.not_lt, List.isEmpty_iff, Bool.not_eq_true] at hchecks
  obtain ⟨⟨⟨⟨hid, hrecord⟩, hempty⟩, hlength⟩, hforbidden⟩ := hchecks
  simp only [Bool.not_eq_true', List.contains_iff_mem, Bool.not_eq_false] at htype
  rw [not_or, Nat.not_lt] at hbody
  exact
    { id := ⟨rfl, hid⟩, record := ⟨rfl, hrecord⟩, name := ⟨hempty, hlength, hforbidden⟩,
      media := htype, data := ⟨rfl, hbody.2, hbody.1⟩, size := rfl, hash := rfl }

theorem upload_ensures {id : GoString} (hroute : r.route = .upload id) (hb : start.Grows S b) :
    (S.upload r id).Ensures backend (Backend.Grows S) (Truthful S r) b := by
  have hclaims : S.claims r = S.verify (trimBearer r.authorization) r.now := by
    rw [claims, hroute]
  refine ensures_after_identity hclaims hb fun c b' hc _ => ?_
  split
  · next response hresponse =>
      obtain ⟨message, hbody⟩ := uploaded_error hresponse
      exact truthful_error hbody b'
  next a ha =>
  have hchecked := uploaded_ok ha
  refine (ensures_ask (Q := fun res b => res = .ok () → ∃ x,
    (b.store c.workspace).attachments.lookup id = some x ∧
      x.record = r.record ∧ x.sha256 = a.sha256) fun b'' _ hok => ?_).bind fun res b'' hres => ?_
  · obtain ⟨x, hx, hsame⟩ := Space.putAttachment_ok hok
    refine ⟨x, ?_, hsame.1.trans hchecked.record.1, hsame.2.2.2⟩
    show ((b''.store.answer c.workspace _).2 c.workspace).attachments.lookup id = some x
    rw [Memory.answer_self, ← hchecked.id.1]
    exact hx
  · split
    · exact truthful_error (failure_body _) b''
    · constructor
      · intro id' a' hroute' hbody
        obtain rfl := Route.upload.inj (hroute.symm.trans hroute')
        obtain rfl := Body.attachment.inj hbody
        exact ⟨c, hc, hres rfl⟩
      · intro rows hroute' hbody
        cases hbody

theorem attachments_ensures (hroute : r.route = .attachments) (hstart : Backend.new.Grows S start)
    (hb : start.Grows S b) :
    (S.attachments r).Ensures backend (Backend.Grows S) (Truthful S r) b := by
  have hclaims : S.claims r = S.verify (trimBearer r.authorization) r.now := by
    rw [claims, hroute]
  refine ensures_after_identity hclaims hb fun c b' hc hb' => ?_
  split
  · exact truthful_error (failure_body _) b'
  refine (ensures_ask (Q := fun res b => ∀ rows, res = .ok rows → ∀ a ∈ rows, ∃ x,
    (b.store c.workspace).attachments.lookup a.id = some x ∧
      x.record = r.queryRecord ∧ x.sha256 = a.sha256) fun b'' hb'' rows hrows a ha => ?_).bind
    fun res b'' hres => ?_
  · -- What is listed is held, and under its own ID.
    obtain rfl := Except.ok.inj hrows
    obtain ⟨id, x, hx, hrecord, rfl⟩ := Space.mem_listAttachments ha
    have hheld := (grows_trans _ _ _ (grows_trans _ _ _ hstart hb') hb'' c.workspace).held hx
    refine ⟨x, ?_, hrecord, rfl⟩
    show ((b''.store.answer c.workspace _).2 c.workspace).attachments.lookup x.id = some x
    rw [Memory.answer_self, hheld.1]
    exact hx
  · split
    · exact truthful_error (failure_body _) b''
    · constructor
      · intro id a hroute' hbody
        cases hbody
      · intro rows hroute' hbody
        obtain rfl := Body.attachments.inj hbody
        exact ⟨c, hc, hres _ rfl⟩

/-- **A handler's answer is truthful**, whatever other requests do meanwhile. -/
theorem handler_ensures (r : Request) (hstart : Backend.new.Grows S b) :
    (S.handler r).Ensures backend (Backend.Grows S) (Truthful S r) b := by
  refine (ensures_ask (Q := fun _ b' => b.Grows S b') fun b' hb' => hb').bind fun _ b' hb' => ?_
  split
  · exact truthful_error rfl b'
  split
  · constructor
    · intro _ _ _ hbody; cases hbody
    · intro _ _ hbody; cases hbody
  split
  · exact truthful_error rfl b'
  unfold mux
  cases hroute : r.route with
  | upload id => exact upload_ensures hroute hb'
  | attachments => exact attachments_ensures hroute hstart hb'
  | _ =>
      -- The other routes have no attachments to speak of.
      refine ensures_of_forall (fun response b => ?_) _ _
      constructor
      · intro id a hroute' hbody
        rw [hroute] at hroute'
        cases hroute'
      · intro rows hroute' hbody
        rw [hroute] at hroute'
        cases hroute'

end Server

end Syncraft.Api
