import AutomlApi.Hardening.RateLimiter

/-! What the rate limiter allows, over its calls at times in order. Each bucket is capped. A
key is capped as long as it does not come from the overflow bucket to one of its own while
calls of it are recent there: its own bucket does not know of them. -/

namespace AutomlApi.Hardening

open Sliding (expire recent)

variable {l : RateLimiter} {buckets : Buckets} {cutoff now : ℚ} {key : String}

/-! ### One call -/

/-- What `charge` answers: a bucket that is there, and a table that has lost nothing recent. -/
structure Charged (l : RateLimiter) (cutoff : ℚ) (key : String) (buckets : Buckets) (name : String)
    (buckets' : Buckets) : Prop where
  tidy : Tidy l.limit buckets'
  has : buckets'.has name
  bounded : buckets.length ≤ l.maxBuckets → buckets'.length ≤ l.maxBuckets
  recent : ∀ c, cutoff ≤ c → ∀ other, recent c (content buckets' other) = recent c (content buckets other)
  old : ∀ other, buckets'.has other → other = name ∨ buckets.has other
  own : name = key ∨ name = overflowKey ∧ ¬ buckets.has key

theorem charged (h : Tidy l.limit buckets) (cutoff : ℚ) (key : String) :
    Charged l cutoff key buckets (l.charge cutoff key buckets).1 (l.charge cutoff key buckets).2 := by
  unfold RateLimiter.charge
  have hpruned : Tidy l.limit (prune cutoff buckets) := tidy_prune h
  split
  · next hkey => exact ⟨h, hkey, id, fun _ _ _ => rfl, fun _ => .inr, .inl rfl⟩
  next hkey =>
  simp only
  split
  · next hroom =>
    have hfresh : ¬ (prune cutoff buckets).has key := fun hhas => hkey (has_of_prune h hhas)
    have hset : (prune cutoff buckets).setDefault key [] = (prune cutoff buckets).set key [] := if_neg hfresh
    refine ⟨?_, ?_, fun _ => ?_, fun c hc other => ?_, fun other hother => ?_, .inl rfl⟩
    · rw [hset]
      exact hpruned.set .nil (Nat.zero_le _)
    · rw [hset, Dict.has_set, decide_eq_true rfl, Bool.true_or]
    · rw [hset]
      exact (Dict.length_set_le ..).trans hroom
    · rw [hset, content_set, ← recent_prune h hc other]
      split
      · next hother => rw [hother, content_of_not_has hfresh]
      · rfl
    · rw [hset, Dict.has_set] at hother
      rcases Bool.or_eq_true_iff.mp hother with hother | hother
      · exact .inl (of_decide_eq_true hother)
      · exact .inr (has_of_prune h hother)
  · exact ⟨hpruned, hpruned.overflow, (length_prune_le h).trans, fun c hc => recent_prune h hc,
      fun other hother => .inr (has_of_prune h hother), .inr ⟨rfl, hkey⟩⟩

/-- What a call answers, by what is recent in the bucket that it is charged to. -/
structure Answered (l : RateLimiter) (s : RateLimiter.State) (key : String) (now : ℚ) (name : String)
    (answer : Bool × ℤ) (t : RateLimiter.State) : Prop where
  tidy : Tidy l.limit t.buckets
  bounded : s.buckets.length ≤ l.maxBuckets → t.buckets.length ≤ l.maxBuckets
  refused : answer.1 = false → ∃ oldest, (recent (now - l.windowSeconds) (content s.buckets name)).head? = some oldest ∧
    answer.2 = l.retryAfter now oldest
  allowed : answer.1 ↔ (recent (now - l.windowSeconds) (content s.buckets name)).length < l.limit
  recent : ∀ c, now - l.windowSeconds ≤ c → ∀ other, recent c (content t.buckets other) =
    recent c (content s.buckets other ++ if other = name ∧ answer.1 then [now] else [])
  old : ∀ other, t.buckets.has other → other = name ∨ s.buckets.has other

/-- The bucket that a call of a limiter is charged to. -/
def RateLimiter.charged (l : RateLimiter) (s : RateLimiter.State) (key : String) (now : ℚ) : String :=
  (l.charge (now - l.windowSeconds) key s.buckets).1

theorem answered_respond {s : RateLimiter.State} {name : String} (h : Tidy l.limit s.buckets)
    (hcharged : Charged l (now - l.windowSeconds) key s.buckets name buckets)
    (hnow : ∀ t ∈ recent (now - l.windowSeconds) (content s.buckets name), t ≤ now) :
    Answered l s key now name (l.respond s now name buckets (expire (now - l.windowSeconds) ((buckets.get name).getD []))).1
      (l.respond s now name buckets (expire (now - l.windowSeconds) ((buckets.get name).getD []))).2 := by
  have hbucket : expire (now - l.windowSeconds) ((buckets.get name).getD []) =
      recent (now - l.windowSeconds) (content s.buckets name) := by
    rw [← hcharged.recent _ le_rfl name]
    exact Sliding.expire_eq_recent (hcharged.tidy.sorted name)
  have hold : ∀ {other bucket}, (buckets.set name bucket).has other → other = name ∨ s.buckets.has other := by
    intro other bucket hother
    rw [Dict.has_set] at hother
    rcases Bool.or_eq_true_iff.mp hother with hother | hother
    · exact .inl (of_decide_eq_true hother)
    · exact hcharged.old other hother
  have hsorted : (recent (now - l.windowSeconds) (content s.buckets name)).Pairwise (· ≤ ·) :=
    (h.sorted name).sublist (List.filter_sublist ..)
  have hlength : ∀ bucket, (buckets.set name bucket).length = buckets.length :=
    Dict.length_set_of_has hcharged.has
  have hrecent : ∀ c, now - l.windowSeconds ≤ c → ∀ other added, recent c (content (buckets.set name
      (recent (now - l.windowSeconds) (content s.buckets name) ++ added)) other) =
        recent c (content s.buckets other ++ if other = name then added else []) := by
    intro c hc other added
    rw [content_set]
    split
    · next hother => rw [Sliding.recent_append, Sliding.recent_recent hc, Sliding.recent_append, hother]
    · rw [List.append_nil]
      exact hcharged.recent c hc other
  rw [hbucket]
  unfold RateLimiter.respond
  split
  · next hfull =>
    refine ⟨?_, fun hbounded => ?_, fun _ => ⟨_, List.head?_eq_some_head _, rfl⟩, ?_, fun c hc other => ?_, fun _ => hold⟩
    · exact hcharged.tidy.set hsorted ((List.length_filter_le ..).trans (h.limited name))
    · exact (hlength _).le.trans (hcharged.bounded hbounded)
    · simpa using hfull
    · simpa using hrecent c hc other []
  · next hroom =>
    have htidy : Tidy l.limit (buckets.set name (recent (now - l.windowSeconds) (content s.buckets name) ++ [now])) := by
      refine hcharged.tidy.set ?_ ?_
      · exact List.pairwise_append.mpr ⟨hsorted, List.pairwise_singleton .., fun t ht u hu =>
          List.mem_singleton.mp hu ▸ hnow t ht⟩
      · rw [List.length_append, List.length_singleton]
        omega
    simp only
    split
    · refine ⟨tidy_prune htidy, fun hbounded => ?_, nofun, ?_, fun c hc other => ?_, fun other hother => ?_⟩
      · exact (length_prune_le htidy).trans ((hlength _).le.trans (hcharged.bounded hbounded))
      · simpa using hroom
      · rw [recent_prune htidy hc]
        simpa using hrecent c hc other [now]
      · exact hold (has_of_prune htidy hother)
    · refine ⟨htidy, fun hbounded => ?_, nofun, ?_, fun c hc other => ?_, fun _ => hold⟩
      · exact (hlength _).le.trans (hcharged.bounded hbounded)
      · simpa using hroom
      · simpa using hrecent c hc other [now]

theorem answered {s : RateLimiter.State} (h : Tidy l.limit s.buckets) (key : String)
    (hnow : ∀ name, ∀ t ∈ recent (now - l.windowSeconds) (content s.buckets name), t ≤ now) :
    Answered l s key now (l.charged s key now) (l.allow s key now).1 (l.allow s key now).2 :=
  answered_respond h (charged h (now - l.windowSeconds) key) (hnow _)

/-! ### Histories -/

/-- A call that was allowed, and the bucket that it was charged to. -/
structure Call where
  key : String
  time : ℚ
  bucket : String
  deriving DecidableEq

/-- A limiter with the time of its last call, and its allowed calls. -/
structure System where
  now : ℚ
  state : RateLimiter.State := {}
  calls : List Call := []

namespace System

/-- The times of the allowed calls of a key. -/
def times (s : System) (key : String) : List ℚ := (s.calls.filter (·.key = key)).map (·.time)

/-- The times of the calls that were charged to a bucket. -/
def charges (s : System) (name : String) : List ℚ := (s.calls.filter (·.bucket = name)).map (·.time)

def step (l : RateLimiter) (s : System) (e : String × ℚ) : Option System :=
  some {
    now := e.2
    state := (l.allow s.state e.1 e.2).2
    calls := s.calls ++ if (l.allow s.state e.1 e.2).1.1 then [⟨e.1, e.2, l.charged s.state e.1 e.2⟩] else [] }

/-- The key is not the reserved one, and time does not go back. -/
def Ordered (s : System) (e : String × ℚ) : Prop := e.1 ≠ overflowKey ∧ s.now ≤ e.2

/-- And a key gets a bucket of its own only when no call of it is recent in the overflow
bucket. -/
def Settled (l : RateLimiter) (s : System) (e : String × ℚ) : Prop :=
  s.Ordered e ∧ (¬ s.state.buckets.has e.1 → l.charged s.state e.1 e.2 = e.1 →
    ∀ call ∈ s.calls, call.key = e.1 → call.bucket = overflowKey → call.time ≤ e.2 - l.windowSeconds)

instance (s : System) (e : String × ℚ) : Decidable (s.Ordered e) := inferInstanceAs (Decidable (_ ∧ _))

instance (l : RateLimiter) (s : System) (e : String × ℚ) : Decidable (s.Settled l e) := inferInstanceAs (Decidable (_ ∧ _))

/-- The buckets hold what was charged to them, but for what no later call can find recent. -/
structure Inv (l : RateLimiter) (s : System) : Prop where
  tidy : Tidy l.limit s.state.buckets
  bounded : s.state.buckets.length ≤ l.maxBuckets
  past : ∀ call ∈ s.calls, call.time ≤ s.now
  named : ∀ call ∈ s.calls, call.key ≠ overflowKey ∧ (call.bucket = call.key ∨ call.bucket = overflowKey)
  recent : ∀ c, s.now - l.windowSeconds ≤ c → ∀ name, recent c (content s.state.buckets name) = recent c (s.charges name)

/-- A key with a bucket of its own has no recent call in the overflow bucket. -/
def Apart (l : RateLimiter) (s : System) : Prop := ∀ call ∈ s.calls, s.state.buckets.has call.key →
  call.bucket = overflowKey → call.time ≤ s.now - l.windowSeconds

variable {s t : System} {e : String × ℚ}

theorem mem_charges {name : String} {time : ℚ} :
    time ∈ s.charges name ↔ ∃ call ∈ s.calls, call.bucket = name ∧ call.time = time := by
  simp [charges, and_assoc]

theorem length_recent_times (s : System) (c : ℚ) (key : String) :
    (recent c (s.times key)).length = s.calls.countP fun call => call.key = key ∧ c < call.time := by
  simp only [recent, times, ← List.countP_eq_length_filter, List.countP_map, List.countP_filter]
  exact List.countP_congr fun call _ => by simp [and_comm]

theorem length_recent_charges (s : System) (c : ℚ) (name : String) :
    (recent c (s.charges name)).length = s.calls.countP fun call => call.bucket = name ∧ c < call.time := by
  simp only [recent, charges, ← List.countP_eq_length_filter, List.countP_map, List.countP_filter]
  exact List.countP_congr fun call _ => by simp [and_comm]

theorem content_init (name : String) : content ({} : RateLimiter.State).buckets name = [] := by
  by_cases hname : overflowKey = name
  · subst hname
    rfl
  · rw [content, Dict.get_cons, if_neg hname]
    rfl

theorem inv_init (l : RateLimiter) (now : ℚ) : Inv l { now := now } where
  tidy := {
    nodup := List.nodup_singleton _
    overflow := rfl
    sorted := fun name => by
      rw [content_init]
      exact .nil
    limited := fun name => by
      rw [content_init]
      exact Nat.zero_le _ }
  bounded := (show 1 ≤ 2 by decide).trans l.two_le
  past := nofun
  named := nofun
  recent c _ name := congrArg _ (content_init name)

theorem apart_init (l : RateLimiter) (now : ℚ) : Apart l { now := now } := nofun

theorem Inv.answered (h : Inv l s) {now : ℚ} (hnow : s.now ≤ now) (key : String) :
    Answered l s.state key now (l.charged s.state key now) (l.allow s.state key now).1 (l.allow s.state key now).2 := by
  refine Hardening.answered h.tidy key fun name t ht => ?_
  rw [h.recent _ (sub_le_sub_right hnow _)] at ht
  obtain ⟨call, hcall, -, rfl⟩ := mem_charges.mp (List.mem_of_mem_filter ht)
  exact (h.past call hcall).trans hnow

theorem Inv.charged (h : Inv l s) (key : String) (now : ℚ) :
    l.charged s.state key now = key ∨ l.charged s.state key now = overflowKey ∧ ¬ s.state.buckets.has key :=
  (Hardening.charged h.tidy _ key).own

theorem mem_calls_step (h : s.step l e = some t) {call : Call} (hcall : call ∈ t.calls) :
    call ∈ s.calls ∨ call = ⟨e.1, e.2, l.charged s.state e.1 e.2⟩ := by
  cases h
  refine (List.mem_append.mp hcall).imp_right fun hcall => ?_
  split at hcall
  · exact List.mem_singleton.mp hcall
  · cases hcall

theorem charges_step (h : s.step l e = some t) (name : String) : t.charges name =
    s.charges name ++ if name = l.charged s.state e.1 e.2 ∧ (l.allow s.state e.1 e.2).1.1 then [e.2] else [] := by
  cases h
  simp only [charges, List.filter_append, List.map_append]
  congr 1
  by_cases hallowed : (l.allow s.state e.1 e.2).1.1
  · by_cases hname : name = l.charged s.state e.1 e.2 <;> simp [hallowed, hname, eq_comm]
  · simp [hallowed]

theorem inv_step (h : Inv l s) (hordered : s.Ordered e) (hstep : s.step l e = some t) : Inv l t := by
  have hanswered := h.answered hordered.2 e.1
  have hnow : t.now = e.2 := by cases hstep; rfl
  have hstate : t.state = (l.allow s.state e.1 e.2).2 := by cases hstep; rfl
  refine ⟨hstate ▸ hanswered.tidy, hstate ▸ hanswered.bounded h.bounded, fun call hcall => ?_, fun call hcall => ?_,
    fun c hc name => ?_⟩
  · rw [hnow]
    rcases mem_calls_step hstep hcall with hcall | rfl
    · exact (h.past call hcall).trans hordered.2
    · exact le_rfl
  · rcases mem_calls_step hstep hcall with hcall | rfl
    · exact h.named call hcall
    · exact ⟨hordered.1, (h.charged e.1 e.2).imp_right And.left⟩
  · rw [hnow] at hc
    rw [hstate, hanswered.recent c hc, charges_step hstep, Sliding.recent_append, Sliding.recent_append,
      h.recent c ((sub_le_sub_right hordered.2 _).trans hc)]

theorem apart_step (h : Inv l s) (hapart : Apart l s) (hsettled : s.Settled l e) (hstep : s.step l e = some t) :
    Apart l t := by
  have hanswered := h.answered hsettled.1.2 e.1
  have hnow : t.now = e.2 := by cases hstep; rfl
  have hstate : t.state = (l.allow s.state e.1 e.2).2 := by cases hstep; rfl
  intro call hcall hhas hbucket
  rw [hnow]
  rw [hstate] at hhas
  rcases mem_calls_step hstep hcall with hcall | rfl
  · by_cases hbefore : s.state.buckets.has call.key
    · exact (hapart call hcall hbefore hbucket).trans (sub_le_sub_right hsettled.1.2 _)
    · -- the bucket is new, and is that of the call's own key
      have hkey : call.key = l.charged s.state e.1 e.2 := (hanswered.old _ hhas).resolve_right hbefore
      have hown : l.charged s.state e.1 e.2 = e.1 := by
        refine (h.charged e.1 e.2).resolve_right fun hoverflow => ?_
        exact (h.named call hcall).1 (hkey.trans hoverflow.1)
      exact hsettled.2 (hown ▸ hkey ▸ hbefore) hown call hcall (hkey.trans hown) hbucket
  · -- charged to the overflow bucket, the key has none of its own
    obtain hown | ⟨-, hnone⟩ := h.charged e.1 e.2
    · exact absurd (hown.symm.trans hbucket) hsettled.1.1
    · rcases hanswered.old _ hhas with hkey | hbefore
      · exact absurd (hkey.trans hbucket) hsettled.1.1
      · exact absurd hbefore hnone

/-- The recent calls of a key are in the bucket that its next call is charged to. -/
theorem charged_alike (h : Inv l s) (hapart : Apart l s) (hsettled : s.Settled l e) {call : Call} (hcall : call ∈ s.calls)
    (hkey : call.key = e.1) (hrecent : e.2 - l.windowSeconds < call.time) :
    call.bucket = l.charged s.state e.1 e.2 := by
  have hlater := sub_le_sub_right hsettled.1.2 l.windowSeconds
  rcases h.charged e.1 e.2 with hown | ⟨hoverflow, hnone⟩
  · refine ((h.named call hcall).2.resolve_right fun hbucket => ?_).trans (hkey.trans hown.symm)
    by_cases hhas : s.state.buckets.has e.1
    · exact absurd hrecent (((hapart call hcall (hkey ▸ hhas) hbucket).trans hlater).not_gt)
    · exact absurd hrecent (hsettled.2 hhas hown call hcall hkey hbucket).not_gt
  · refine ((h.named call hcall).2.resolve_left fun hbucket => ?_).trans hoverflow.symm
    have hempty := h.recent _ hlater e.1
    rw [content_of_not_has hnone, Sliding.recent_nil] at hempty
    exact absurd hrecent ((Sliding.recent_eq_nil_iff.mp hempty.symm) _
      (mem_charges.mpr ⟨call, hcall, hbucket.trans hkey, rfl⟩)).not_gt

theorem capped_step (h : Inv l s) (hapart : Apart l s) (hsettled : s.Settled l e) (hstep : s.step l e = some t)
    {key : String} (hcapped : Sliding.Capped l.windowSeconds l.limit (s.times key)) :
    Sliding.Capped l.windowSeconds l.limit (t.times key) := by
  have hanswered := h.answered hsettled.1.2 e.1
  cases hstep
  simp only [times, List.filter_append, List.map_append]
  split
  · next hallowed =>
    by_cases hkey : e.1 = key
    · subst hkey
      have hroom : (recent (e.2 - l.windowSeconds) (s.times e.1)).length < l.limit := by
        refine lt_of_le_of_lt ?_ (hanswered.allowed.mp hallowed)
        rw [h.recent _ (sub_le_sub_right hsettled.1.2 _), length_recent_times, length_recent_charges]
        refine List.countP_mono_left fun call hcall hrecent => ?_
        obtain ⟨hkey, hrecent⟩ := of_decide_eq_true hrecent
        exact decide_eq_true ⟨charged_alike h hapart hsettled hcall hkey hrecent, hrecent⟩
      simpa [times] using hcapped.snoc hroom
    · simpa [times, hkey] using hcapped
  · simpa [times] using hcapped

/-! ### Refused calls -/

theorem le_retryAfter (l : RateLimiter) (now oldest : ℚ) : oldest ≤ now + l.retryAfter now oldest - l.windowSeconds := by
  have hle : l.windowSeconds - (now - oldest) ≤ l.retryAfter now oldest := by
    unfold RateLimiter.retryAfter truncate
    rw [Int.cast_max]
    split
    · refine le_max_of_le_right ?_
      rw [Int.cast_add, Int.cast_one]
      exact (Int.lt_floor_add_one _).le
    · next hneg =>
      refine le_max_of_le_left ?_
      rw [Int.cast_one]
      linarith
  linarith

theorem retryAfter_pos (l : RateLimiter) (now oldest : ℚ) : (0 : ℚ) < l.retryAfter now oldest := by
  have hone : 1 ≤ l.retryAfter now oldest := le_max_left _ _
  exact_mod_cast hone

/-- A refused call finds as many calls as the limit in the window before it. -/
theorem full_of_refused (h : Inv l s) (hordered : s.Ordered e) (hrefused : (l.allow s.state e.1 e.2).1.1 = false) :
    l.limit ≤ (recent (e.2 - l.windowSeconds) (s.charges (l.charged s.state e.1 e.2))).length := by
  have hanswered := h.answered hordered.2 e.1
  rw [← h.recent _ (sub_le_sub_right hordered.2 _)]
  refine not_lt.mp fun hroom => ?_
  rw [hanswered.allowed.mpr hroom] at hrefused
  cases hrefused

/-- A refused call is allowed when it is made again after the time it was told. -/
theorem allowed_of_refused (h : Inv l s) (hordered : s.Ordered e) (hrefused : (l.allow s.state e.1 e.2).1.1 = false) :
    (l.allow (l.allow s.state e.1 e.2).2 e.1 (e.2 + (l.allow s.state e.1 e.2).1.2)).1.1 := by
  have hanswered := h.answered hordered.2 e.1
  have hfull := full_of_refused h hordered hrefused
  rw [← h.recent _ (sub_le_sub_right hordered.2 _)] at hfull
  obtain ⟨oldest, hhead, hretry⟩ := hanswered.refused hrefused
  have hpos := retryAfter_pos l e.2 oldest
  have hle := le_retryAfter l e.2 oldest
  rw [← hretry] at hpos hle
  have hkept : ∀ c, e.2 - l.windowSeconds ≤ c → ∀ name,
      recent c (content (l.allow s.state e.1 e.2).2.buckets name) = recent c (content s.state.buckets name) := by
    intro c hc name
    simpa [hrefused] using hanswered.recent c hc name
  generalize (l.allow s.state e.1 e.2).1.2 = retry at hpos hle ⊢
  have hlater : e.2 ≤ e.2 + retry := le_add_of_nonneg_right hpos.le
  have hcutoff := sub_le_sub_right hlater l.windowSeconds
  have hinv := inv_step h hordered rfl
  have hagain := hinv.answered hlater e.1
  have hsame : l.charged (l.allow s.state e.1 e.2).2 e.1 (e.2 + retry) = l.charged s.state e.1 e.2 →
      (l.allow (l.allow s.state e.1 e.2).2 e.1 (e.2 + retry)).1.1 := by
    intro hname
    refine hagain.allowed.mpr ?_
    rw [hname, hkept _ hcutoff]
    refine (Sliding.length_recent_lt hhead hcutoff hle).trans_le ?_
    exact (List.length_filter_le ..).trans (h.tidy.limited _)
  rcases hinv.charged e.1 (e.2 + retry) with hown | ⟨hoverflow, hnone⟩
  · by_cases hhas : (l.allow s.state e.1 e.2).2.buckets.has e.1
    · refine hsame (hown.trans ?_)
      rcases h.charged e.1 e.2 with hkey | ⟨-, hbefore⟩
      · exact hkey.symm
      · exact (hanswered.old _ hhas).resolve_right hbefore
    · refine hagain.allowed.mpr ?_
      rw [hown, content_of_not_has hhas]
      exact l.one_le
  · rcases h.charged e.1 e.2 with hkey | ⟨hkey, -⟩
    · -- a full bucket is still there
      rw [hkey, ← hkept _ le_rfl, content_of_not_has hnone, Sliding.recent_nil] at hfull
      exact absurd (l.one_le.trans hfull) (Nat.not_succ_le_zero 0)
    · exact hsame (hoverflow.trans hkey.symm)

/-! ### Runs -/

/-- What the limiter promises: no key exceeds the limit in a window, the table stays within
its size, a refused call has a full window before it, and is allowed when it waits. -/
structure Limits (l : RateLimiter) (s : System) : Prop where
  capped : ∀ key, Sliding.Capped l.windowSeconds l.limit (s.times key)
  bounded : s.state.buckets.length ≤ l.maxBuckets
  refused : ∀ e, s.Ordered e → (l.allow s.state e.1 e.2).1.1 = false →
    l.limit ≤ (recent (e.2 - l.windowSeconds) (s.charges (l.charged s.state e.1 e.2))).length ∧
      ∀ time ∈ s.charges (l.charged s.state e.1 e.2), time ≤ e.2
  retried : ∀ e, s.Ordered e → (l.allow s.state e.1 e.2).1.1 = false →
    (l.allow (l.allow s.state e.1 e.2).2 e.1 (e.2 + (l.allow s.state e.1 e.2).1.2)).1.1

/-- Keys are capped in a history in which no key leaves the overflow bucket with recent calls
there. -/
theorem limits_run {now : ℚ} {es : List (String × ℚ)}
    (run : Runs.Run (step l) (Settled l) { now := now } es s) : Limits l s := by
  have hinv : Inv l s ∧ Apart l s ∧ ∀ key, Sliding.Capped l.windowSeconds l.limit (s.times key) :=
    run.invariant (I := fun s => Inv l s ∧ Apart l s ∧ ∀ key, Sliding.Capped l.windowSeconds l.limit (s.times key))
      (fun s e t ⟨h, hapart, hcapped⟩ hsettled hstep => ⟨inv_step h hsettled.1 hstep, apart_step h hapart hsettled hstep,
        fun key => capped_step h hapart hsettled hstep (hcapped key)⟩)
      ⟨inv_init l now, apart_init l now, fun _ => .nil _ _⟩
  obtain ⟨h, -, hcapped⟩ := hinv
  refine ⟨hcapped, h.bounded, fun e hordered hrefused => ⟨full_of_refused h hordered hrefused, fun time htime => ?_⟩,
    fun e => allowed_of_refused h⟩
  obtain ⟨call, hcall, -, rfl⟩ := mem_charges.mp htime
  exact (h.past call hcall).trans hordered.2

/-! ### A key that leaves the overflow bucket -/

def minute : RateLimiter := ⟨1, 60, 2, by decide, by decide⟩

/-- The bucket of `a` is pruned when the call of `b` in the overflow bucket is old. -/
def waiting : List (String × ℚ) := [("a", 0), ("b", 1), ("b", 61)]

def hurrying : List (String × ℚ) := [("a", 0), ("b", 30), ("b", 60)]

theorem limits_waiting : ∃ s, s.calls.length = 3 ∧ Limits minute s := by
  have hexec : (Runs.exec (step minute) (Settled minute) { now := 0 } waiting).any fun s => s.calls.length = 3 := by
    decide +kernel
  obtain ⟨s, hs, hlength⟩ := (Option.any_eq_true ..).mp hexec
  exact ⟨s, of_decide_eq_true hlength, limits_run (Runs.run_of_exec hs)⟩

/-- `b` is allowed twice in half a minute. -/
theorem not_capped : ¬ ∀ (l : RateLimiter) (now : ℚ) (es : List (String × ℚ)) (s : System),
    Runs.Run (step l) Ordered { now := now } es s → ∀ key, Sliding.Capped l.windowSeconds l.limit (s.times key) := by
  intro h
  have hexec : (Runs.exec (step minute) Ordered { now := 0 } hurrying).any fun s => s.times "b" = [30, 60] := by
    decide +kernel
  obtain ⟨s, hs, htimes⟩ := (Option.any_eq_true ..).mp hexec
  have hcapped := (h minute 0 hurrying s (Runs.run_of_exec hs) "b").closed_open 30
  rw [of_decide_eq_true htimes] at hcapped
  exact absurd hcapped (by decide +kernel)

end System

end AutomlApi.Hardening
