import AutomlApi.Library.Dict
import AutomlApi.Library.Runs
import AutomlApi.Library.Sliding
import Mathlib.Data.Rat.Floor

/-! The rate limiter. A key has a bucket of its own while the table has room for one, and
shares the overflow bucket else. A bucket holds the times of the calls that were charged to
it, and is pruned once they are all too old. -/

namespace AutomlApi.Hardening

open Sliding (expire recent)

/-- `_OVERFLOW_KEY`. -/
def overflowKey : String := "__overflow__"

/-- The parameters of a limiter, as the settings and the constructor check them. -/
structure RateLimiter where
  limit : ℕ
  windowSeconds : ℚ
  maxBuckets : ℕ
  one_le : 1 ≤ limit
  two_le : 2 ≤ maxBuckets

abbrev Buckets := Dict String (List ℚ)

/-- `int(x)`. -/
def truncate (x : ℚ) : ℤ := if 0 ≤ x then ⌊x⌋ else ⌈x⌉

/-- `not bucket or bucket[-1] <= cutoff`. -/
def stale (cutoff : ℚ) (bucket : List ℚ) : Bool := bucket.getLast?.all (· ≤ cutoff)

/-- `_prune`. -/
def prune (cutoff : ℚ) (buckets : Buckets) : Buckets :=
  let kept : Buckets := buckets.filter fun (key, bucket) => key = overflowKey ∨ ¬ stale cutoff bucket
  kept.set overflowKey (expire cutoff ((kept.get overflowKey).getD []))

namespace RateLimiter

variable (l : RateLimiter)

/-- The bucket that a call is charged to, under its key, and the table that has it. -/
def charge (cutoff : ℚ) (key : String) (buckets : Buckets) : String × Buckets :=
  if buckets.has key then (key, buckets)
  else
    let buckets := prune cutoff buckets
    if buckets.length < l.maxBuckets then (key, buckets.setDefault key []) else (overflowKey, buckets)

/-- `_buckets` and `_requests`. -/
structure State where
  buckets : Buckets := [(overflowKey, [])]
  requests : ℕ := 0

def retryAfter (now oldest : ℚ) : ℤ := max 1 (truncate (l.windowSeconds - (now - oldest)) + 1)

/-- The part of `allow` from its comparison on, at the bucket of the call. -/
def respond (s : State) (now : ℚ) (name : String) (buckets : Buckets) (bucket : List ℚ) : (Bool × ℤ) × State :=
  if h : l.limit ≤ bucket.length then
    let oldest := bucket.head (List.ne_nil_of_length_pos (l.one_le.trans h))
    ((false, l.retryAfter now oldest), ⟨buckets.set name bucket, s.requests⟩)
  else
    let buckets := buckets.set name (bucket ++ [now])
    let requests := s.requests + 1
    ((true, 0), ⟨if requests % 512 = 0 then prune (now - l.windowSeconds) buckets else buckets, requests⟩)

/-- `allow`, with the answer and the new state. -/
def allow (s : State) (key : String) (now : ℚ) : (Bool × ℤ) × State :=
  let cutoff := now - l.windowSeconds
  let (name, buckets) := l.charge cutoff key s.buckets
  l.respond s now name buckets (expire cutoff ((buckets.get name).getD []))

end RateLimiter

/-! ### The buckets -/

/-- The bucket of a name. -/
def content (buckets : Buckets) (name : String) : List ℚ := (buckets.get name).getD []

/-- A table of buckets in order, each below the limit, with the overflow bucket. -/
structure Tidy (limit : ℕ) (buckets : Buckets) : Prop where
  nodup : (buckets.map Prod.fst).Nodup
  overflow : buckets.has overflowKey
  sorted : ∀ name, (content buckets name).Pairwise (· ≤ ·)
  limited : ∀ name, (content buckets name).length ≤ limit

variable {limit : ℕ} {buckets : Buckets} {cutoff : ℚ}

theorem content_of_not_has {name : String} (h : ¬ buckets.has name) : content buckets name = [] := by
  rw [content, Option.not_isSome_iff_eq_none.mp h]
  rfl

theorem content_set (buckets : Buckets) (name other : String) (bucket : List ℚ) :
    content (buckets.set name bucket) other = if other = name then bucket else content buckets other := by
  unfold content
  rw [Dict.get_set]
  split <;> rfl

theorem Tidy.set (h : Tidy limit buckets) {name : String} {bucket : List ℚ} (hsorted : bucket.Pairwise (· ≤ ·))
    (hlimited : bucket.length ≤ limit) : Tidy limit (buckets.set name bucket) where
  nodup := Dict.nodup_set h.nodup name bucket
  overflow := by rw [Dict.has_set, h.overflow, Bool.or_true]
  sorted other := by
    rw [content_set]
    split
    · exact hsorted
    · exact h.sorted other
  limited other := by
    rw [content_set]
    split
    · exact hlimited
    · exact h.limited other

/-- The entries that a prune keeps. -/
def kept (cutoff : ℚ) (buckets : Buckets) : Buckets :=
  buckets.filter fun (key, bucket) => key = overflowKey ∨ ¬ stale cutoff bucket

theorem prune_eq (cutoff : ℚ) (buckets : Buckets) :
    prune cutoff buckets = (kept cutoff buckets).set overflowKey (expire cutoff (content (kept cutoff buckets) overflowKey)) :=
  rfl

theorem get_kept (h : (buckets.map Prod.fst).Nodup) (cutoff : ℚ) (name : String) : (kept cutoff buckets).get name =
    (buckets.get name).filter fun bucket => name = overflowKey ∨ ¬ stale cutoff bucket :=
  Dict.get_filter h _ name

/-- A bucket is kept whole, or is dropped when it holds nothing recent. -/
theorem content_kept (h : Tidy limit buckets) (name : String) :
    content (kept cutoff buckets) name = content buckets name ∨
      content (kept cutoff buckets) name = [] ∧ recent cutoff (content buckets name) = [] := by
  have hsorted := h.sorted name
  unfold content at hsorted ⊢
  rw [get_kept h.nodup]
  cases hget : buckets.get name with
  | none => exact .inl rfl
  | some bucket =>
    rw [hget] at hsorted
    by_cases hkeep : name = overflowKey ∨ ¬ stale cutoff bucket
    · left
      rw [Option.filter_some, if_pos (decide_eq_true hkeep)]
    · right
      refine ⟨by rw [Option.filter_some, if_neg (by simpa using hkeep)]; rfl, ?_⟩
      push Not at hkeep
      exact Sliding.recent_eq_nil_of_last hsorted hkeep.2

theorem tidy_kept (h : Tidy limit buckets) : Tidy limit (kept cutoff buckets) where
  nodup := Dict.nodup_filter h.nodup _
  overflow := by
    obtain ⟨bucket, hbucket⟩ := Option.isSome_iff_exists.mp h.overflow
    rw [Dict.has, get_kept h.nodup, hbucket]
    simp
  sorted name := by
    rcases content_kept h name with hname | ⟨hname, -⟩
    · rw [hname]
      exact h.sorted name
    · rw [hname]
      exact .nil
  limited name := by
    rcases content_kept h name with hname | ⟨hname, -⟩
    · rw [hname]
      exact h.limited name
    · rw [hname]
      exact Nat.zero_le _

theorem Tidy.expired (h : Tidy limit buckets) (name : String) :
    Tidy limit (buckets.set name (expire cutoff (content buckets name))) :=
  h.set ((h.sorted name).sublist (Sliding.expire_sublist ..))
    (((Sliding.expire_sublist ..).length_le).trans (h.limited name))

theorem tidy_prune (h : Tidy limit buckets) : Tidy limit (prune cutoff buckets) := by
  rw [prune_eq]
  exact (tidy_kept h).expired overflowKey

theorem recent_expired (h : Tidy limit buckets) {c : ℚ} (hc : cutoff ≤ c) (name other : String) :
    recent c (content (buckets.set name (expire cutoff (content buckets name))) other) = recent c (content buckets other) := by
  rw [content_set]
  split
  · next hname => rw [hname, Sliding.expire_eq_recent (h.sorted name), Sliding.recent_recent hc]
  · rfl

/-- Nothing recent is pruned. -/
theorem recent_prune (h : Tidy limit buckets) {c : ℚ} (hc : cutoff ≤ c) (name : String) :
    recent c (content (prune cutoff buckets) name) = recent c (content buckets name) := by
  rw [prune_eq, recent_expired (tidy_kept h) hc]
  rcases content_kept h name with hname | ⟨hname, hnone⟩
  · rw [hname]
  · rw [hname, ← Sliding.recent_recent hc (content buckets name), hnone]

theorem length_prune_le (h : Tidy limit buckets) : (prune cutoff buckets).length ≤ buckets.length := by
  rw [prune_eq, Dict.length_set_of_has (tidy_kept h).overflow]
  exact List.length_filter_le ..

theorem has_of_prune (h : Tidy limit buckets) {name : String} (hname : (prune cutoff buckets).has name) : buckets.has name := by
  rw [prune_eq, Dict.has_set] at hname
  rcases Bool.or_eq_true_iff.mp hname with hname | hname
  · exact of_decide_eq_true hname ▸ h.overflow
  · rw [Dict.has, get_kept h.nodup] at hname
    obtain ⟨bucket, hbucket⟩ := Option.isSome_iff_exists.mp hname
    exact Dict.has_of_get (Option.filter_eq_some_iff.mp hbucket).1

end AutomlApi.Hardening
