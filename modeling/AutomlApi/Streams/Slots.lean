import Mathlib.Algebra.BigOperators.Group.List.Basic
import Mathlib.Tactic.Linarith
import AutomlApi.Library.Dict
import AutomlApi.Library.Runs

/-! The slots of event streams. A subscription takes its slot before its response
exists; the slot is given back in the `finally` clause of the generator that the
response iterates. Closing a generator runs that clause only when the generator has
been started, so that a response that goes away before leaves its slot taken. -/

namespace AutomlApi.Streams

open Runs (Run Free)

/-! ### The counts -/

/-- `RuntimeHardeningSettings`, as `from_env` checks them. -/
structure Settings where
  maxSseConnections : ℕ
  maxSseConnectionsPerTenant : ℕ
  positive : 0 < maxSseConnectionsPerTenant
  within : maxSseConnectionsPerTenant ≤ maxSseConnections

/-- The counts of `ServiceMetrics` that are about streams. -/
structure ServiceMetrics where
  activeStreams : ℤ
  activeStreamsByTenant : Dict String ℤ
  rejectedStreams : ℕ
  deriving DecidableEq

namespace ServiceMetrics

def tenantActive (m : ServiceMetrics) (tenantId : String) : ℤ := (m.activeStreamsByTenant.get tenantId).getD 0

/-- `enter_stream`. -/
def enterStream (m : ServiceMetrics) (maximum : ℤ) (tenantId : Option String) (maximumPerTenant : Option ℤ) :
    Bool × ServiceMetrics :=
  let tenantActive := (tenantId.map m.tenantActive).getD 0
  let tenantFull := tenantId.isSome && maximumPerTenant.any fun maximum => tenantActive ≥ maximum
  if m.activeStreams ≥ maximum ∨ tenantFull then
    (false, { m with rejectedStreams := m.rejectedStreams + 1 })
  else
    (true, { m with
      activeStreams := m.activeStreams + 1
      activeStreamsByTenant :=
        match tenantId with
        | some tenantId => m.activeStreamsByTenant.set tenantId (tenantActive + 1)
        | none => m.activeStreamsByTenant })

/-- `leave_stream`. -/
def leaveStream (m : ServiceMetrics) (tenantId : Option String) : ServiceMetrics :=
  { m with
    activeStreams := max 0 (m.activeStreams - 1)
    activeStreamsByTenant :=
      match tenantId with
      | some tenantId =>
        let remaining := m.tenantActive tenantId - 1
        if remaining > 0 then m.activeStreamsByTenant.set tenantId remaining
        else m.activeStreamsByTenant.erase tenantId
      | none => m.activeStreamsByTenant }

end ServiceMetrics

/-! ### Lifecycles -/

/-- The life of the generator of a stream. `ended` has run its `finally` clause, after
a return, an exception or a cancellation; `abandoned` was closed before its start. -/
inductive Stage where
  | created | running | ended | abandoned
  deriving DecidableEq

structure Subscription where
  tenantId : String
  stage : Stage
  deriving DecidableEq

namespace Subscription

/-- The stream has been admitted and has not ended. -/
def live (x : Subscription) : Bool := x.stage = .created ∨ x.stage = .running

/-- The slot that was taken for the stream has not been given back. -/
def holding (x : Subscription) : Bool := x.stage ≠ .ended

end Subscription

structure Service where
  metrics : ServiceMetrics
  streams : List Subscription
  deriving DecidableEq

/-- A request for a stream; the first iteration of a response; the end of a stream,
however it comes about. -/
inductive Event where
  | subscribe (tenantId : String)
  | start (i : ℕ)
  | close (i : ℕ)
  deriving DecidableEq

namespace Service

def init : Service := ⟨⟨0, [], 0⟩, []⟩

def step (settings : Settings) (s : Service) : Event → Option Service
  | .subscribe tenantId =>
    match s.metrics.enterStream settings.maxSseConnections (some tenantId)
        (some (settings.maxSseConnectionsPerTenant : ℤ)) with
    | (true, metrics) => some ⟨metrics, s.streams ++ [⟨tenantId, .created⟩]⟩
    | (false, metrics) => some { s with metrics := metrics }
  | .start i =>
    match s.streams[i]? with
    | some ⟨tenantId, .created⟩ => some { s with streams := s.streams.set i ⟨tenantId, .running⟩ }
    | _ => none
  | .close i =>
    match s.streams[i]? with
    | some ⟨tenantId, .created⟩ => some { s with streams := s.streams.set i ⟨tenantId, .abandoned⟩ }
    | some ⟨tenantId, .running⟩ =>
      some ⟨s.metrics.leaveStream tenantId, s.streams.set i ⟨tenantId, .ended⟩⟩
    | _ => none

/-- No stream is closed before it is started. -/
def Started (s : Service) (e : Event) : Prop :=
  ∀ i, e = .close i → (s.streams[i]?).map Subscription.stage ≠ some .created

/-- The slots that are taken are those of the streams that have not ended. -/
structure Conserved (settings : Settings) (s : Service) : Prop where
  total : s.metrics.activeStreams = (s.metrics.activeStreamsByTenant.map Prod.snd).sum
  live : s.metrics.activeStreams = s.streams.countP Subscription.live
  bounded : 0 ≤ s.metrics.activeStreams ∧ s.metrics.activeStreams ≤ settings.maxSseConnections
  tenants : ∀ tenantId, 0 ≤ s.metrics.tenantActive tenantId ∧
    s.metrics.tenantActive tenantId ≤ settings.maxSseConnectionsPerTenant
  idle : (∀ x ∈ s.streams, x.live = false) →
    s.metrics.activeStreams = 0 ∧ ∀ tenantId, s.metrics.tenantActive tenantId = 0

/-! ### The ledger -/

/-- How many slots are held, by all and by one tenant. -/
def held (xs : List Subscription) : ℕ := xs.countP Subscription.holding

def heldBy (xs : List Subscription) (tenantId : String) : ℕ :=
  xs.countP fun x => x.holding && decide (x.tenantId = tenantId)

/-- The counts are those of the slots that are held, in any history. -/
structure Ledger (settings : Settings) (s : Service) : Prop where
  nodup : (s.metrics.activeStreamsByTenant.map Prod.fst).Nodup
  total : s.metrics.activeStreams = (s.metrics.activeStreamsByTenant.map Prod.snd).sum
  held : s.metrics.activeStreams = held s.streams
  tenants : ∀ tenantId, s.metrics.tenantActive tenantId = heldBy s.streams tenantId
  bounded : s.metrics.activeStreams ≤ settings.maxSseConnections
  perTenant : ∀ tenantId, s.metrics.tenantActive tenantId ≤ settings.maxSseConnectionsPerTenant

theorem ledger_init (settings : Settings) : Ledger settings init where
  nodup := List.nodup_nil
  total := rfl
  held := rfl
  tenants _ := rfl
  bounded := by simp [init]
  perTenant _ := by simp [init, ServiceMetrics.tenantActive]

theorem countP_set (p : Subscription → Bool) {xs : List Subscription} {i : ℕ} {x : Subscription}
    (h : xs[i]? = some x) (y : Subscription) :
    ((xs.set i y).countP p : ℤ) = xs.countP p - (if p x then 1 else 0) + if p y then 1 else 0 := by
  obtain ⟨hi, hx⟩ := List.getElem?_eq_some_iff.mp h
  have hset := List.countP_set (p := p) (a := y) hi
  rw [hx] at hset
  have hle : (if p x then 1 else 0) ≤ xs.countP p := by
    split
    · rename_i hp
      exact List.countP_pos_iff.mpr ⟨x, List.mem_of_getElem? h, hp⟩
    · exact Nat.zero_le _
  rw [hset]
  push_cast [Nat.cast_sub hle]
  rfl

/-- A stream that changes its stage changes the slots of its tenant alone. -/
theorem heldBy_set {xs : List Subscription} {i : ℕ} {tenantId : String} {a : Stage}
    (hi : xs[i]? = some ⟨tenantId, a⟩) (b : Stage) (t : String) :
    (heldBy (xs.set i ⟨tenantId, b⟩) t : ℤ) = heldBy xs t
      - (if a ≠ .ended ∧ tenantId = t then 1 else 0) + if b ≠ .ended ∧ tenantId = t then 1 else 0 := by
  simpa [Subscription.holding, heldBy] using
    countP_set (fun x => x.holding && decide (x.tenantId = t)) hi ⟨tenantId, b⟩

theorem held_set {xs : List Subscription} {i : ℕ} {tenantId : String} {a : Stage}
    (hi : xs[i]? = some ⟨tenantId, a⟩) (b : Stage) :
    (held (xs.set i ⟨tenantId, b⟩) : ℤ) = held xs
      - (if a ≠ .ended then 1 else 0) + if b ≠ .ended then 1 else 0 := by
  simpa [Subscription.holding, held] using countP_set Subscription.holding hi ⟨tenantId, b⟩

/-- A stream that goes on holding its slot changes no count. -/
theorem Ledger.moved {settings : Settings} {s : Service} (hs : Ledger settings s) {i : ℕ} {tenantId : String}
    {a b : Stage} (hi : s.streams[i]? = some ⟨tenantId, a⟩) (ha : a ≠ .ended) (hb : b ≠ .ended) :
    Ledger settings { s with streams := s.streams.set i ⟨tenantId, b⟩ } := by
  refine ⟨hs.nodup, hs.total, ?_, fun t => ?_, hs.bounded, hs.perTenant⟩
  · have hheld := held_set hi b
    rw [if_pos ha, if_pos hb] at hheld
    have := hs.held
    simp only at this ⊢
    omega
  · have hheld := heldBy_set hi b t
    simp only [ha, hb, ne_eq, not_false_eq_true, true_and] at hheld
    have := hs.tenants t
    simp only at this ⊢
    omega

theorem tenantActive_set (m : ServiceMetrics) (tenantId : String) (n : ℤ) (t : String) :
    ((m.activeStreamsByTenant.set tenantId n).get t).getD 0 = if t = tenantId then n else m.tenantActive t := by
  rw [Dict.get_set]
  split <;> rfl

theorem Ledger.admitted {settings : Settings} {s : Service} (hs : Ledger settings s) {tenantId : String}
    {metrics : ServiceMetrics}
    (h : s.metrics.enterStream settings.maxSseConnections (some tenantId)
      (some (settings.maxSseConnectionsPerTenant : ℤ)) = (true, metrics)) :
    Ledger settings ⟨metrics, s.streams ++ [⟨tenantId, .created⟩]⟩ := by
  simp only [ServiceMetrics.enterStream, Option.map_some, Option.getD_some, Option.isSome_some, Bool.true_and,
    Option.any_some, decide_eq_true_eq] at h
  split at h
  · cases h
  rename_i hfree
  rw [not_or] at hfree
  cases h
  have hactive := tenantActive_set s.metrics tenantId (s.metrics.tenantActive tenantId + 1)
  refine ⟨Dict.nodup_set hs.nodup _ _, ?_, ?_, fun t => ?_, ?_, fun t => ?_⟩
  · have htotal := hs.total
    simp only [Dict.sum_set, ServiceMetrics.tenantActive] at htotal ⊢
    omega
  · have hheld := hs.held
    simp only [Service.held, List.countP_append, List.countP_singleton, Subscription.holding] at hheld ⊢
    simpa using hheld
  · have hheld := hs.tenants t
    rw [ServiceMetrics.tenantActive, hactive]
    simp only [heldBy, List.countP_append, List.countP_singleton, Subscription.holding] at hheld ⊢
    by_cases ht : t = tenantId
    · simpa [ht] using hheld
    · simpa [ht, Ne.symm ht] using hheld
  · show s.metrics.activeStreams + 1 ≤ _
    omega
  · have hper := hs.perTenant t
    rw [ServiceMetrics.tenantActive, hactive]
    split
    · omega
    · exact hper

/-- The stream itself holds a slot, so that the counts never meet their clamp at zero. -/
theorem Ledger.left {settings : Settings} {s : Service} (hs : Ledger settings s) {i : ℕ} {tenantId : String}
    (hi : s.streams[i]? = some ⟨tenantId, .running⟩) :
    Ledger settings ⟨s.metrics.leaveStream tenantId, s.streams.set i ⟨tenantId, .ended⟩⟩ := by
  have hheld := held_set hi .ended
  have hheldBy := heldBy_set hi .ended
  simp only [ne_eq, reduceCtorEq, not_false_eq_true, true_and, if_true, not_true, false_and, if_false,
    add_zero] at hheld hheldBy
  have hactive : 1 ≤ s.metrics.activeStreams := by
    have := hs.held
    omega
  have htenant : 1 ≤ s.metrics.tenantActive tenantId := by
    have := hs.tenants tenantId
    have := hheldBy tenantId
    rw [if_pos rfl] at this
    omega
  have hleft : ∀ t, (s.metrics.leaveStream tenantId).tenantActive t
      = s.metrics.tenantActive t - if tenantId = t then 1 else 0 := fun t => by
    rw [ServiceMetrics.tenantActive]
    simp only [ServiceMetrics.leaveStream]
    split
    · rw [tenantActive_set]
      by_cases ht : t = tenantId
      · rw [if_pos ht, if_pos ht.symm, ht]
      · rw [if_neg ht, if_neg (Ne.symm ht), sub_zero]
    · rw [Dict.get_erase]
      by_cases ht : t = tenantId
      · rw [if_pos ht, if_pos ht.symm, ht, Option.getD_none]
        omega
      · rw [if_neg ht, if_neg (Ne.symm ht), sub_zero]
        rfl
  have hmax : (s.metrics.leaveStream tenantId).activeStreams = s.metrics.activeStreams - 1 :=
    max_eq_right (by omega)
  refine ⟨?_, ?_, ?_, fun t => ?_, ?_, fun t => ?_⟩
  · simp only [ServiceMetrics.leaveStream]
    split
    · exact Dict.nodup_set hs.nodup _ _
    · exact Dict.nodup_erase hs.nodup _
  · rw [hmax]
    have htotal := hs.total
    simp only [ServiceMetrics.leaveStream]
    by_cases hmore : s.metrics.tenantActive tenantId - 1 > 0
    · rw [if_pos hmore, Dict.sum_set]
      simp only [ServiceMetrics.tenantActive] at htenant ⊢
      omega
    · rw [if_neg hmore, Dict.sum_erase hs.nodup]
      simp only [ServiceMetrics.tenantActive] at htenant hmore
      omega
  · rw [hmax, hheld, hs.held]
  · rw [hleft, hheldBy, hs.tenants t]
  · rw [hmax]
    have := hs.bounded
    omega
  · rw [hleft]
    have := hs.perTenant t
    split <;> omega

theorem ledger_step {settings : Settings} {s u : Service} (hs : Ledger settings s) {e : Event}
    (h : step settings s e = some u) : Ledger settings u := by
  cases e with
  | subscribe tenantId =>
    simp only [step] at h
    split at h
    · rename_i metrics hadmit
      cases h
      exact hs.admitted hadmit
    · rename_i metrics hfull
      cases h
      simp only [ServiceMetrics.enterStream] at hfull
      split at hfull
      · cases hfull
        exact ⟨hs.nodup, hs.total, hs.held, hs.tenants, hs.bounded, hs.perTenant⟩
      · cases hfull
  | start i =>
    simp only [step] at h
    split at h
    · rename_i tenantId hi
      cases h
      exact hs.moved hi (by decide) (by decide)
    · cases h
  | close i =>
    simp only [step] at h
    split at h
    · rename_i tenantId hi
      cases h
      exact hs.moved hi (by decide) (by decide)
    · rename_i tenantId hi
      cases h
      exact hs.left hi
    · cases h

/-! ### Streams that are closed before they are started -/

/-- The slot of some stream is never given back. -/
def Leaking (s : Service) : Prop := ∃ x ∈ s.streams, x.stage = .abandoned

theorem held_eq_live {xs : List Subscription} (h : ∀ x ∈ xs, x.stage ≠ .abandoned) :
    held xs = xs.countP Subscription.live := by
  refine List.countP_congr fun x hx => ?_
  have := h x hx
  simp only [Subscription.holding, Subscription.live, decide_eq_true_eq]
  cases hstage : x.stage <;> simp_all

theorem live_lt_held {xs : List Subscription} (h : ∃ x ∈ xs, x.stage = .abandoned) :
    xs.countP Subscription.live < held xs := by
  obtain ⟨x, hx, hstage⟩ := h
  obtain ⟨ys, zs, rfl⟩ := List.append_of_mem hx
  have hle : ∀ l : List Subscription, l.countP Subscription.live ≤ l.countP Subscription.holding := fun l =>
    List.countP_mono_left fun y _ hy => by
      simp only [Subscription.live, Subscription.holding, decide_eq_true_eq] at hy ⊢
      rcases hy with hy | hy <;> simp [hy]
  have hys := hle ys
  have hzs := hle zs
  have hlive : Subscription.live x = false := by simp [Subscription.live, hstage]
  have hholding : Subscription.holding x = true := by simp [Subscription.holding, hstage]
  simp only [held, List.countP_append, List.countP_cons, hlive, hholding, if_true, if_false,
    Bool.false_eq_true]
  omega

/-- The counts are right exactly while no slot has been lost. -/
theorem conserved_iff {settings : Settings} {s : Service} (hs : Ledger settings s) :
    Conserved settings s ↔ ¬ Leaking s := by
  constructor
  · intro h hleak
    have hlt := live_lt_held hleak
    have hheld := hs.held
    have hlive := h.live
    omega
  · intro hleak
    have hkept : ∀ x ∈ s.streams, x.stage ≠ .abandoned := fun x hx hstage => hleak ⟨x, hx, hstage⟩
    have heq := held_eq_live hkept
    refine ⟨hs.total, by rw [hs.held, heq], ⟨by rw [hs.held]; omega, hs.bounded⟩,
      fun t => ⟨by rw [hs.tenants]; omega, hs.perTenant t⟩, fun hidle => ?_⟩
    have hnone : ∀ p : Subscription → Bool, (∀ x ∈ s.streams, p x → x.holding) → s.streams.countP p = 0 := by
      intro p hp
      refine List.countP_eq_zero.mpr fun x hx hpx => ?_
      have hdead := hidle x hx
      have hheld := hp x hx hpx
      have := hkept x hx
      simp only [Subscription.live, Subscription.holding, decide_eq_false_iff_not, decide_eq_true_eq] at hdead hheld
      cases hstage : x.stage <;> simp_all
    refine ⟨?_, fun t => ?_⟩
    · rw [hs.held, Service.held, hnone _ fun _ _ h => h]
      rfl
    · rw [hs.tenants, heldBy, hnone _ fun _ _ h => (Bool.and_eq_true_iff.mp h).1]
      rfl

theorem leaking_iff {s : Service} :
    Leaking s ↔ 0 < s.streams.countP fun x => decide (x.stage = .abandoned) := by
  simp [Leaking, List.countP_pos_iff]

/-- A lost slot stays lost; one is lost when a stream is closed before its start. -/
theorem leaking_step {settings : Settings} {s u : Service} {e : Event} (h : step settings s e = some u) :
    Leaking u ↔ Leaking s ∨ ¬ Started s e := by
  have hset := fun {i : ℕ} {x : Subscription} (hi : s.streams[i]? = some x) =>
    countP_set (fun x => decide (x.stage = .abandoned)) hi
  have hstarted : (∀ i, e ≠ .close i) → Started s e := fun hne i he => absurd he (hne i)
  rw [leaking_iff, leaking_iff]
  cases e with
  | subscribe tenantId =>
    have hok := hstarted fun i he => by cases he
    simp only [step] at h
    split at h
    · cases h
      simp [List.countP_append, hok]
    · cases h
      simp [hok]
  | start i =>
    have hok := hstarted fun i he => by cases he
    simp only [step] at h
    split at h
    · rename_i tenantId hi
      cases h
      have hcount := hset hi ⟨tenantId, .running⟩
      simp only [reduceCtorEq, decide_false, Bool.false_eq_true, if_false] at hcount
      simp only [hok, not_true, or_false]
      omega
    · cases h
  | close i =>
    simp only [step] at h
    split at h
    · rename_i tenantId hi
      cases h
      have hlost : ¬ Started s (.close i) := fun hok => hok i rfl (by rw [hi]; rfl)
      have hcount := hset hi ⟨tenantId, .abandoned⟩
      simp only [reduceCtorEq, decide_false, decide_true, Bool.false_eq_true, if_false, if_true] at hcount
      simp only [hlost, not_false_eq_true, or_true, iff_true]
      omega
    · rename_i tenantId hi
      cases h
      have hok : Started s (.close i) := fun j hj => by
        cases hj
        rw [hi]
        simp
      have hcount := hset hi ⟨tenantId, .ended⟩
      simp only [reduceCtorEq, decide_false, Bool.false_eq_true, if_false] at hcount
      simp only [hok, not_true, or_false]
      omega
    · cases h

theorem leaking_run {settings : Settings} {es : List Event} {s u : Service}
    (h : Run (step settings) Free s es u) (hs : ¬ Leaking s) : ¬ Leaking u ↔ Run (step settings) Started s es u := by
  induction h with
  | nil s => exact iff_of_true hs (.nil s)
  | @cons s v u e es hok hstep rest ih =>
    constructor
    · intro hu
      by_cases hv : Leaking v
      · -- what is lost in the first step is lost at the end
        refine absurd (rest.invariant (fun w e x hw _ hx => ?_) hv) hu
        exact (leaking_step hx).mpr (.inl hw)
      · have hstarted : Started s e := by
          by_contra hne
          exact hv ((leaking_step hstep).mpr (.inr hne))
        exact .cons hstarted hstep ((ih hv).mp hu)
    · intro hrun
      cases hrun with
      | cons hstarted hstep' rest' =>
        cases hstep.symm.trans hstep'
        have hv : ¬ Leaking v := fun hleak =>
          ((leaking_step hstep).mp hleak).elim hs (fun hne => hne hstarted)
        exact (ih hv).mpr rest'

/-- The counts of streams are right in a history exactly when none of its steps closes a
stream before it is started. -/
theorem slots_conserved {settings : Settings} {es : List Event} {s : Service}
    (h : Run (step settings) Free init es s) : Conserved settings s ↔ Run (step settings) Started init es s := by
  have hledger : Ledger settings s := h.invariant (fun _ _ _ hs _ hu => ledger_step hs hu) (ledger_init settings)
  rw [conserved_iff hledger]
  refine leaking_run h ?_
  simp [Leaking, init]

/-! ### One slot for two streams -/

namespace Leak

theorem settings_within : 1 ≤ 1 := Nat.le_refl 1

def settings : Settings := ⟨1, 1, Nat.one_pos, settings_within⟩

/-- A stream that ends, and one whose client has gone before the response is sent. -/
def history : List Event :=
  [.subscribe "tenant_a", .start 0, .close 0, .subscribe "tenant_a", .close 1, .subscribe "tenant_a"]

def ended : Service := ⟨⟨0, [], 0⟩, [⟨"tenant_a", .ended⟩]⟩

def lost : Service := ⟨⟨1, [("tenant_a", 1)], 1⟩, [⟨"tenant_a", .ended⟩, ⟨"tenant_a", .abandoned⟩]⟩

end Leak

theorem slots_conserved_ended :
    Conserved Leak.settings Leak.ended ↔ Run (step Leak.settings) Started init (Leak.history.take 3) Leak.ended :=
  slots_conserved (Runs.run_of_exec (by decide))

/-- Every stream has ended, a slot is taken, and the next subscription is refused. -/
theorem slots_leak :
    Run (step Leak.settings) Free init Leak.history Leak.lost ∧ (∀ x ∈ Leak.lost.streams, x.live = false) ∧
      ¬ Conserved Leak.settings Leak.lost := by
  refine ⟨Runs.run_of_exec (by decide), by decide, fun h => ?_⟩
  have hactive := (h.idle (by decide)).1
  exact absurd hactive (by decide)

end Service

end AutomlApi.Streams
