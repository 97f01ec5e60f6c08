import Mathlib.Data.List.MinMax
import Syncraft.Api.Server
import Syncraft.Library.FixedWindow

/-!
# Syncraft.Api.RateLimiter

The middleware of `internal/api/middleware.go` with its table of buckets. The mutex is held from
the loop that prunes the table to the decision, so a request is one step. Times are nanoseconds.

Every key is counted in fixed windows (`Syncraft.Library.FixedWindow`): `Tracks` relates the
table to what has been let through, and the bounds are read off it.
-/

namespace Syncraft.Api

open Domain Library

/-! ### The middleware -/

/-- `net.SplitHostPort`: the host, which is empty when there is an error. -/
def splitHost (hostport : GoString) : GoString :=
  match hostport.reverse.idxOf? 0x3A with
  | none => []
  | some fromEnd =>
    let i := hostport.length - 1 - fromEnd
    if hostport.head? = some 0x5B then
      match hostport.idxOf? 0x5D with
      | none => []
      | some close =>
        if close + 1 ≠ i then []
        else if 0x5B ∈ hostport.drop 1 ∨ 0x5D ∈ hostport.drop (close + 1) then []
        else (hostport.take close).drop 1
    else if 0x3A ∈ hostport.take i ∨ 0x5B ∈ hostport ∨ 0x5D ∈ hostport then []
    else hostport.take i

/-- `RemoteAddr`, which `net/http` sets to the IP address and the port of the connection. -/
structure RemoteAddr where
  text : GoString
  /-- There is no slash in an address. -/
  plain : 0x2F ∉ text

/-- What the middleware reads of a request. -/
structure Arrival where
  origin : GoString
  method : GoString
  path : GoString
  remote : RemoteAddr
  now : Nat

/-- `bucket` -/
structure Bucket where
  start : Nat
  count : Nat
  deriving DecidableEq, Repr

/-- `map[string]bucket` -/
abbrev Buckets := AList fun _ : GoString => Bucket

/-- `time.Minute` -/
def minute : Nat := 60000000000

/-- What the middleware makes of a request. -/
inductive Verdict where
  | denied
  | preflight
  | blocked
  /-- The request goes on to the mux. -/
  | next
  deriving DecidableEq, Repr

namespace Arrival

variable (a : Arrival)

/-- A path other than the two of the health checks. -/
def rated : Bool := a.path ≠ go "/health/live" && a.path ≠ go "/health/ready"

def login : Bool := a.path = go "/api/v1/login"

def host : GoString := splitHost a.remote.text

def key : GoString := if a.login then a.host ++ go "/login" else a.host

def limit : Nat := if a.login then 20 else 600

end Arrival

/-- A bucket that the loop leaves in the table. -/
def Bucket.current (now : Nat) (b : Bucket) : Bool := !(now - b.start > minute)

/-- The middleware between `Lock` and `Unlock`: whether the request is blocked, and the table. -/
def charge (key : GoString) (limit now : Nat) (buckets : Buckets) : Bool × Buckets :=
  let buckets := keep (Bucket.current now) buckets
  let found := buckets.lookup key
  let b := found.getD { start := now, count := 0 }
  if b.count ≥ limit || (found.isNone && size buckets ≥ 5000) then (true, buckets)
  else (false, buckets.insert key { b with count := b.count + 1 })

/-- `middleware` -/
def middleware (origins : List GoString) (a : Arrival) (buckets : Buckets) : Verdict × Buckets :=
  if !(a.origin = [] || a.origin ∈ origins) then (.denied, buckets)
  else if a.method = go "OPTIONS" then (.preflight, buckets)
  else if a.rated then
    match charge a.key a.limit a.now buckets with
    | (true, buckets) => (.blocked, buckets)
    | (false, buckets) => (.next, buckets)
  else (.next, buckets)

/-- The requests seen, with the verdicts, and the table. -/
structure Limiter where
  log : List (Arrival × Verdict)
  buckets : Buckets

def Limiter.new : Limiter := { log := [], buckets := ∅ }

def Limiter.step (origins : List GoString) (s : Limiter) (a : Arrival) : Limiter :=
  { log := s.log ++ [(a, (middleware origins a s.buckets).1)]
    buckets := (middleware origins a s.buckets).2 }

/-- The state after some requests. -/
def Limiter.run (origins : List GoString) (as : List Arrival) : Limiter :=
  as.foldl (Limiter.step origins) Limiter.new

/-- The requests that were let through and counted under a key: their times. -/
def counted (k : GoString) (log : List (Arrival × Verdict)) : List Nat :=
  (log.filter fun x => x.2 = .next ∧ x.1.rated ∧ x.1.key = k).map fun x => x.1.now

/-- The limit that goes with a key. -/
def limitOf (k : GoString) : Nat := if go "/login" <:+ k then 20 else 600

/-! ### Keys -/

/-- A host is part of the address. -/
theorem mem_of_mem_splitHost {b : UInt8} {s : GoString} (h : b ∈ splitHost s) : b ∈ s := by
  unfold splitHost at h
  split at h
  · simp at h
  · dsimp only at h
    split at h
    · split at h
      · simp at h
      · split at h
        · simp at h
        · split at h
          · simp at h
          · exact List.mem_of_mem_take (List.mem_of_mem_drop h)
    · split at h
      · simp at h
      · exact List.mem_of_mem_take h

theorem slash_mem_login : (0x2F : UInt8) ∈ go "/login" := by decide

theorem slash_notMem_host (a : Arrival) : 0x2F ∉ a.host :=
  fun h => a.remote.plain (mem_of_mem_splitHost h)

/-- A key ends like that of a login if and only if it is one. -/
theorem login_iff (a : Arrival) : a.login = true ↔ go "/login" <:+ a.key := by
  unfold Arrival.key
  split
  · rename_i h
    simp [h]
  · rename_i h
    refine ⟨fun hl => absurd hl h, fun hs => ?_⟩
    exact absurd (List.IsSuffix.subset hs slash_mem_login) (slash_notMem_host a)

theorem limit_eq (a : Arrival) : a.limit = limitOf a.key := by
  unfold Arrival.limit limitOf
  by_cases h : a.login = true
  · rw [if_pos h, if_pos ((login_iff a).mp h)]
  · rw [if_neg h, if_neg (mt (login_iff a).mpr h)]

/-- A login and another request have different keys, whatever their hosts. -/
theorem key_ne {a b : Arrival} (h : a.login ≠ b.login) : a.key ≠ b.key := by
  intro hk
  have hiff : a.login = true ↔ b.login = true := by rw [login_iff, login_iff, hk]
  exact h (Bool.eq_iff_iff.mpr hiff)

theorem limitOf_pos (k : GoString) : 0 < limitOf k := by
  unfold limitOf
  split <;> decide

/-! ### One request -/

theorem current_iff (now : Nat) (b : Bucket) : b.current now = true ↔ now ≤ b.start + minute := by
  simp only [Bucket.current, gt_iff_lt, Bool.not_eq_true', decide_eq_false_iff_not, not_lt]
  omega

/-- The bucket a request finds: it is current, or there is none. -/
theorem lookup_current (now : Nat) (buckets : Buckets) (k : GoString) :
    (keep (Bucket.current now) buckets).lookup k = (buckets.lookup k).filter (Bucket.current now) :=
  lookup_keep _ _ _

/-- What `charge` does: it blocks, because of the bucket or of the table, or counts. -/
theorem charge_cases (key : GoString) (limit now : Nat) (buckets : Buckets) :
    let live := keep (Bucket.current now) buckets
    (∃ b, live.lookup key = some b ∧ limit ≤ b.count ∧
        charge key limit now buckets = (true, live)) ∨
      (live.lookup key = none ∧ (limit = 0 ∨ 5000 ≤ size live) ∧
        charge key limit now buckets = (true, live)) ∨
      (∃ b, live.lookup key = some b ∧ b.count < limit ∧
        charge key limit now buckets =
          (false, live.insert key { b with count := b.count + 1 })) ∨
      (live.lookup key = none ∧ 0 < limit ∧ size live < 5000 ∧
        charge key limit now buckets = (false, live.insert key { start := now, count := 1 })) := by
  intro live
  cases hfound : live.lookup key with
  | some b =>
      by_cases hb : limit ≤ b.count
      · exact .inl ⟨b, rfl, hb, by simp [charge, live, hfound, hb]⟩
      · exact .inr (.inr (.inl ⟨b, rfl, not_le.mp hb, by simp [charge, live, hfound, hb]⟩))
  | none =>
      by_cases hfull : limit = 0 ∨ 5000 ≤ size live
      · exact .inr (.inl ⟨rfl, hfull, by simp [charge, live, hfound, hfull]⟩)
      · have hpass := hfull
        rw [not_or, not_le] at hfull
        exact .inr (.inr (.inr ⟨rfl, Nat.pos_of_ne_zero hfull.1, hfull.2,
          by simp [charge, live, hfound, hpass]⟩))

/-! ### One key -/

/-- The times counted for a key, and its bucket, at a moment. -/
inductive Tracked (limit now : Nat) : List Nat → Option Bucket → Prop where
  | fresh : Tracked limit now [] none
  | live {times : List Nat} {b : Bucket} : Windows (· + minute) limit times b.start b.count →
      b.start ≤ now → Tracked limit now times (some b)
  | ended {times : List Nat} {start n : Nat} : Windows (· + minute) limit times start n →
      start + minute < now → Tracked limit now times none

namespace Tracked

variable {limit now : Nat} {times : List Nat}

/-- Time passes, and a bucket that is not current is deleted. -/
theorem prune {found : Option Bucket} {later : Nat} (h : Tracked limit now times found)
    (hl : now ≤ later) : Tracked limit later times (found.filter (Bucket.current later)) := by
  cases h with
  | fresh => exact .fresh
  | ended hw he => exact .ended hw (he.trans_le hl)
  | @live _ b hw hs =>
      by_cases hc : b.current later = true
      · rw [Option.filter_some_pos hc]
        exact .live hw (hs.trans hl)
      · rw [Option.filter_some_neg (Bool.not_eq_true _ ▸ hc)]
        rw [current_iff, not_le] at hc
        exact .ended hw hc

/-- A request opens a window. -/
theorem opened (h : Tracked limit now times none) (hl : 0 < limit) :
    Tracked limit now (times ++ [now]) (some { start := now, count := 1 }) := by
  cases h with
  | fresh => exact .live (.first now hl) le_rfl
  | ended hw he => exact .live (.next hw he hl) le_rfl

/-- A request joins the window. -/
theorem joined {b : Bucket} (h : Tracked limit now times (some b)) (hc : b.current now = true)
    (hb : b.count < limit) :
    Tracked limit now (times ++ [now]) (some { b with count := b.count + 1 }) := by
  cases h with
  | live hw hs => exact .live (.same hw hs ((current_iff now b).mp hc) hb) hs

theorem count_le {b : Bucket} (h : Tracked limit now times (some b)) : b.count ≤ limit := by
  cases h with
  | live hw _ => exact hw.count_le

theorem start_le {b : Bucket} (h : Tracked limit now times (some b)) : b.start ≤ now := by
  cases h with
  | live _ hs => exact hs

theorem le_add_minute (t : Nat) : t ≤ t + minute := Nat.le_add_right t minute

/-- The window has taken as many requests as the bucket says. -/
theorem countP_since {b : Bucket} (h : Tracked limit now times (some b)) :
    times.countP (fun a => b.start ≤ a) = b.count := by
  cases h with
  | live hw _ => exact Windows.countP_since le_add_minute hw

theorem countP_le {found : Option Bucket} (h : Tracked limit now times found) (t : Nat) :
    times.countP (fun a => t ≤ a ∧ a ≤ t + minute) ≤ 2 * limit := by
  have hm : Monotone fun u : Nat => u + minute := fun _ _ h => Nat.add_le_add_right h minute
  cases h with
  | fresh => simp
  | live hw _ => exact Windows.countP_le hm le_add_minute hw t
  | ended hw _ => exact Windows.countP_le hm le_add_minute hw t

end Tracked

/-! ### Any run -/

/-- The table at a moment is that of the requests let through. -/
structure Limiter.Tracks (now : Nat) (s : Limiter) : Prop where
  size : size s.buckets ≤ 5000
  key : ∀ k, Tracked (limitOf k) now (counted k s.log) (s.buckets.lookup k)

theorem counted_append (k : GoString) (log : List (Arrival × Verdict)) (a : Arrival) (v : Verdict) :
    counted k (log ++ [(a, v)]) =
      if v = .next ∧ a.rated ∧ a.key = k then counted k log ++ [a.now] else counted k log := by
  unfold counted
  rw [List.filter_append, List.map_append]
  split
  · rename_i h
    simp [h]
  · rename_i h
    simp [h]

/-- What the middleware does with a request that does not come to the table, and with one that
does. -/
theorem middleware_cases (origins : List GoString) (a : Arrival) (buckets : Buckets) :
    (∃ v, v ≠ .blocked ∧ ¬ (v = .next ∧ a.rated = true) ∧
        middleware origins a buckets = (v, buckets)) ∨
      (a.rated = true ∧ middleware origins a buckets =
        (if (charge a.key a.limit a.now buckets).1 then .blocked else .next,
          (charge a.key a.limit a.now buckets).2)) := by
  unfold middleware
  split
  · exact .inl ⟨.denied, by simp⟩
  · split
    · exact .inl ⟨.preflight, by simp⟩
    · split
      · rename_i hr
        right
        refine ⟨hr, ?_⟩
        split <;> rename_i h <;> simp [h]
      · rename_i hr
        exact .inl ⟨.next, by simp [hr]⟩

/-- A request that comes to the table keeps it in order, whatever becomes of the request. -/
theorem Limiter.Tracks.charge {s : Limiter} {a : Arrival} {v : Verdict} {now : Nat}
    (h : s.Tracks now) (hnow : now ≤ a.now) (hr : a.rated = true)
    (hv : v = if (Api.charge a.key a.limit a.now s.buckets).1 then .blocked else .next) :
    Limiter.Tracks a.now { log := s.log ++ [(a, v)],
                           buckets := (Api.charge a.key a.limit a.now s.buckets).2 } := by
  have hlive := fun k => (h.key k).prune hnow
  simp only [← lookup_current] at hlive
  have hsize := (size_keep_le (Bucket.current a.now) s.buckets).trans h.size
  rcases charge_cases a.key a.limit a.now s.buckets with
    ⟨b, _, _, hcharge⟩ | ⟨_, _, hcharge⟩ | ⟨b, hfound, hb, hcharge⟩ | ⟨hfound, hl, hroom, hcharge⟩
  · rw [hcharge] at hv ⊢
    refine ⟨hsize, fun k => ?_⟩
    rw [counted_append, if_neg (by simp [hv])]
    exact hlive k
  · rw [hcharge] at hv ⊢
    refine ⟨hsize, fun k => ?_⟩
    rw [counted_append, if_neg (by simp [hv])]
    exact hlive k
  · rw [hcharge] at hv ⊢
    refine ⟨?_, fun k => ?_⟩
    · rw [size_insert_of_mem _ (AList.lookup_isSome.mp (by rw [hfound]; rfl))]
      exact hsize
    · rw [counted_append]
      by_cases hk : a.key = k
      · subst hk
        rw [if_pos ⟨hv, hr, rfl⟩, AList.lookup_insert]
        have hkey := hlive a.key
        rw [hfound] at hkey
        have hcur := (Option.filter_eq_some_iff.mp ((lookup_current _ _ _).symm.trans hfound)).2
        exact hkey.joined hcur (limit_eq a ▸ hb)
      · rw [if_neg fun hall => hk hall.2.2, AList.lookup_insert_ne (Ne.symm hk)]
        exact hlive k
  · rw [hcharge] at hv ⊢
    refine ⟨(size_insert_le _ _ _).trans hroom, fun k => ?_⟩
    rw [counted_append]
    by_cases hk : a.key = k
    · subst hk
      rw [if_pos ⟨hv, hr, rfl⟩, AList.lookup_insert]
      have hkey := hlive a.key
      rw [hfound] at hkey
      exact hkey.opened (limitOf_pos _)
    · rw [if_neg fun hall => hk hall.2.2, AList.lookup_insert_ne (Ne.symm hk)]
      exact hlive k

theorem Tracked.later {limit now later : Nat} {times : List Nat} {found : Option Bucket}
    (h : Tracked limit now times found) (hl : now ≤ later) : Tracked limit later times found := by
  cases h with
  | fresh => exact .fresh
  | live hw hs => exact .live hw (hs.trans hl)
  | ended hw he => exact .ended hw (he.trans_le hl)

/-- **One request.** -/
theorem Limiter.Tracks.step {s : Limiter} {now : Nat} (h : s.Tracks now) (origins : List GoString)
    (a : Arrival) (hnow : now ≤ a.now) : (s.step origins a).Tracks a.now := by
  unfold Limiter.step
  rcases middleware_cases origins a s.buckets with ⟨v, _, hv, hm⟩ | ⟨hr, hm⟩
  · rw [hm]
    refine ⟨h.size, fun k => ?_⟩
    rw [counted_append, if_neg fun hall => hv ⟨hall.1, hall.2.1⟩]
    exact (h.key k).later hnow
  · rw [hm]
    exact h.charge hnow hr rfl

theorem Limiter.Tracks.new (now : Nat) : Limiter.new.Tracks now where
  size := Nat.zero_le _
  key := fun _ => .fresh

theorem Limiter.Tracks.later {s : Limiter} {now later : Nat} (h : s.Tracks now)
    (hl : now ≤ later) : s.Tracks later :=
  ⟨h.size, fun k => (h.key k).later hl⟩

theorem Limiter.run_append (origins : List GoString) (as : List Arrival) (a : Arrival) :
    Limiter.run origins (as ++ [a]) = (Limiter.run origins as).step origins a := by
  rw [Limiter.run, List.foldl_append]
  rfl

/-- **Any run.** Requests that come in the order of their times keep the table in order. -/
theorem Limiter.tracks_run (origins : List GoString) {as : List Arrival}
    (h : as.Pairwise fun a b => a.now ≤ b.now) {now : Nat} (hnow : ∀ a ∈ as, a.now ≤ now) :
    (Limiter.run origins as).Tracks now := by
  induction as using List.reverseRecOn generalizing now with
  | nil => exact .new now
  | append_singleton as a ih =>
      obtain ⟨has, -, hlast⟩ := List.pairwise_append.mp h
      have hbefore := ih has fun b hb => hlast b hb a List.mem_cons_self
      rw [Limiter.run_append]
      exact (hbefore.step origins a le_rfl).later (hnow a (List.mem_append_right _ List.mem_cons_self))

/-! ### Refusals, and keys that are not charged -/

/-- The table holds 5000 unexpired keys other than this one. -/
def Full (now : Nat) (k : GoString) (buckets : Buckets) : Prop :=
  ∃ keys : List GoString, keys.Nodup ∧ keys.length = 5000 ∧ k ∉ keys ∧
    ∀ other ∈ keys, ∃ b, buckets.lookup other = some b ∧ now ≤ b.start + minute

theorem full_of_size {now : Nat} {k : GoString} {buckets : Buckets}
    (hk : (keep (Bucket.current now) buckets).lookup k = none) (hs : size buckets ≤ 5000)
    (hlive : 5000 ≤ size (keep (Bucket.current now) buckets)) : Full now k buckets := by
  have hle := (size_keep_le (Bucket.current now) buckets).trans hs
  refine ⟨(keep (Bucket.current now) buckets).keys, AList.keys_nodup _, le_antisymm hle hlive,
    fun hmem => AList.lookup_eq_none.mp hk (AList.mem_keys.mpr hmem), fun other ho => ?_⟩
  obtain ⟨b, hb⟩ := Option.isSome_iff_exists.mp (AList.lookup_isSome.mpr (AList.mem_keys.mpr ho))
  rw [lookup_current, Option.filter_eq_some_iff] at hb
  exact ⟨b, hb.1, (current_iff now b).mp hb.2⟩

/-- A request is blocked because its key's window is used up, or because the table is full. -/
theorem Limiter.Tracks.blocked {s : Limiter} {now : Nat} (h : s.Tracks now) (origins : List GoString)
    {a : Arrival} (hnow : now ≤ a.now) (hb : (middleware origins a s.buckets).1 = .blocked) :
    (∃ b, s.buckets.lookup a.key = some b ∧ b.start ≤ a.now ∧ a.now ≤ b.start + minute ∧
      (counted a.key s.log).countP (fun u => b.start ≤ u) = a.limit) ∨
    Full a.now a.key s.buckets := by
  rcases middleware_cases origins a s.buckets with ⟨v, hv, _, hm⟩ | ⟨_, hm⟩
  · rw [hm] at hb
    exact absurd hb hv
  rw [hm] at hb
  rcases charge_cases a.key a.limit a.now s.buckets with
    ⟨b, hfound, hcount, _⟩ | ⟨hfound, hfull, _⟩ | ⟨b, _, _, hcharge⟩ | ⟨_, _, _, hcharge⟩
  · rw [lookup_current, Option.filter_eq_some_iff] at hfound
    have hkey := h.key a.key
    rw [hfound.1] at hkey
    refine .inl ⟨b, hfound.1, ?_, (current_iff _ b).mp hfound.2, ?_⟩
    · exact hkey.start_le.trans hnow
    · rw [hkey.countP_since]
      exact le_antisymm (limit_eq a ▸ hkey.count_le) hcount
  · have hpos : a.limit ≠ 0 := limit_eq a ▸ (limitOf_pos _).ne'
    exact .inr (full_of_size hfound h.size (hfull.resolve_left hpos))
  · simp [hcharge] at hb
  · simp [hcharge] at hb

/-- A request leaves the bucket of every other key, unless it has expired. -/
theorem lookup_middleware (origins : List GoString) (a : Arrival) (buckets : Buckets)
    {k : GoString} (hk : k ≠ a.key) :
    (middleware origins a buckets).2.lookup k = buckets.lookup k ∨
      (middleware origins a buckets).2.lookup k =
        (buckets.lookup k).filter (Bucket.current a.now) := by
  rcases middleware_cases origins a buckets with ⟨v, _, _, hm⟩ | ⟨_, hm⟩
  · rw [hm]
    exact .inl rfl
  · rw [hm, ← lookup_current]
    right
    rcases charge_cases a.key a.limit a.now buckets with
      ⟨_, _, _, hcharge⟩ | ⟨_, _, hcharge⟩ | ⟨_, _, _, hcharge⟩ | ⟨_, _, _, hcharge⟩
    · rw [hcharge]
    · rw [hcharge]
    · rw [hcharge, AList.lookup_insert_ne hk]
    · rw [hcharge, AList.lookup_insert_ne hk]

/-- **Bounds.** After any requests in the order of their times: a stored count is at most the
limit of its key, and there are at most 5000 buckets; in a minute at most twice the limit is let
through for a key; a request is blocked only if its key's current window has taken the limit,
or if there are 5000 other unexpired keys; and between logins and other requests nothing is
charged across, from whichever hosts they come. -/
theorem limiter_bounds (origins : List GoString) {as : List Arrival}
    (h : as.Pairwise fun a b => a.now ≤ b.now) :
    (∀ k b, (Limiter.run origins as).buckets.lookup k = some b → b.count ≤ limitOf k) ∧
    size (Limiter.run origins as).buckets ≤ 5000 ∧
    (∀ k t, (counted k (Limiter.run origins as).log).countP (fun u => t ≤ u ∧ u ≤ t + minute) ≤
      2 * limitOf k) ∧
    (∀ a, (∀ b ∈ as, b.now ≤ a.now) →
      (middleware origins a (Limiter.run origins as).buckets).1 = .blocked →
      (∃ b, (Limiter.run origins as).buckets.lookup a.key = some b ∧ b.start ≤ a.now ∧
        a.now ≤ b.start + minute ∧
        (counted a.key (Limiter.run origins as).log).countP (fun u => b.start ≤ u) = a.limit) ∨
      Full a.now a.key (Limiter.run origins as).buckets) ∧
    (∀ a b : Arrival, a.login ≠ b.login →
      (middleware origins a (Limiter.run origins as).buckets).2.lookup b.key =
          (Limiter.run origins as).buckets.lookup b.key ∨
        (middleware origins a (Limiter.run origins as).buckets).2.lookup b.key =
          ((Limiter.run origins as).buckets.lookup b.key).filter (Bucket.current a.now)) ∧
    ∀ a : Arrival, a.limit = limitOf a.key := by
  -- A moment after all requests.
  obtain ⟨now, hnow⟩ : ∃ now, ∀ a ∈ as, a.now ≤ now :=
    ⟨(as.map Arrival.now).foldr max 0,
      fun a ha => List.le_max_of_le' 0 (List.mem_map_of_mem ha) le_rfl⟩
  have htracks := Limiter.tracks_run origins h hnow
  refine ⟨fun k b hb => ?_, htracks.size, fun k t => (htracks.key k).countP_le t,
    fun a ha hb => (Limiter.tracks_run origins h ha).blocked origins le_rfl hb,
    fun a b hab => lookup_middleware origins a _ (key_ne hab).symm, limit_eq⟩
  have hkey := htracks.key k
  rw [hb] at hkey
  exact hkey.count_le

/-- An address of the private network. -/
def privateAddr : RemoteAddr := { text := go "10.0.0.7:40112", plain := by decide }

/-- A login and a pull of one host, a minute apart: each has its own bucket. -/
theorem limiter_bounds_run : ∃ as : List Arrival, as.length = 2 ∧
    (counted (go "10.0.0.7/login") (Limiter.run [] as).log).countP
      (fun u => 0 ≤ u ∧ u ≤ 0 + minute) ≤ 2 * 20 ∧
    counted (go "10.0.0.7/login") (Limiter.run [] as).log = [0] ∧
    counted (go "10.0.0.7") (Limiter.run [] as).log = [minute] := by
  have hbounds := @limiter_bounds []
    [⟨[], go "POST", go "/api/v1/login", privateAddr, 0⟩,
      ⟨[], go "GET", go "/api/v1/sync/pull", privateAddr, minute⟩] (by simp)
  exact ⟨_, rfl, hbounds.2.2.1 (go "10.0.0.7/login") 0, by decide, by decide⟩

/-! ### The handler -/

/-- What the middleware answers itself. -/
def Verdict.response : Verdict → Option Response
  | .denied => some { status := 403, body := .error "origin denied" }
  | .preflight => some { status := 204, body := .empty }
  | .blocked => some { status := 429, body := .error "request rate exceeded" }
  | .next => none

/-- The handler of the server answers by the verdict of the middleware. -/
theorem handler_of_middleware (S : Server) (r : Request) (a : Arrival) (buckets : Buckets)
    (ho : r.origin = a.origin) (hm : r.options = decide (a.method = go "OPTIONS"))
    (hl : r.limited = (a.rated && (charge a.key a.limit a.now buckets).1)) :
    S.handler r = (do
      Program.ask .countRequest
      match (middleware S.origins a buckets).1.response with
      | some response => return response
      | none => S.mux r) := by
  unfold Server.handler middleware
  rw [ho, hm, hl]
  by_cases hallowed : a.origin ≠ [] ∧ a.origin ∉ S.origins
  · simp [hallowed, Verdict.response]
  · by_cases hopt : a.method = go "OPTIONS"
    · simp [hallowed, hopt, Verdict.response]
    · cases hr : a.rated with
      | false => simp [hallowed, hopt, Verdict.response]
      | true =>
          rcases hc : charge a.key a.limit a.now buckets with ⟨blocked, rest⟩
          cases blocked <;> simp [hallowed, hopt, Verdict.response]

end Syncraft.Api
