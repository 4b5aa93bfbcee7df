import AutomlApi.Jobs.History

/-! Lease safety over histories of the job table: at most one live lease, rows in
shape, and claims that are superseded once and for all. A claim and a retry let a NaN
through, which leaves a row out of shape. -/

namespace AutomlApi.Jobs

open Runs (Run Free exec run_of_exec)

variable {ι : Type*} [LinearOrder ι]

/-! ### What every history keeps -/

namespace JobStore

structure Inv (s : JobStore ι) : Prop where
  shaped : ∀ j ∈ s.table.rows, j.Shaped
  alone : ∀ j ∈ s.table.rows, ∀ k ∈ s.table.rows, j.active s.clock → k.active s.clock → j = k

omit [LinearOrder ι] in
theorem inv_init (start : Time) : (init start : JobStore ι).Inv :=
  ⟨by simp [init, Table.empty], by simp [init, Table.empty]⟩

/-- A row of the table after a call is new, or comes from a row before it. -/
theorem row_before {t t' : Table ι} {r : Readings} {definite : Bool} (h : t.Step r definite t') {k : Job ι} (hk : k ∈ t'.rows) :
    (k.Shaped ∧ k.status = .ready) ∨ ∃ j, t.lookup k.runId = some j ∧ j.Moves r definite k := by
  have hrow := h.row k.runId
  rw [Table.lookup_of_mem hk] at hrow
  cases hl : t.lookup k.runId with
  | none => rw [hl] at hrow; cases hrow with | created _ hs hr => exact .inl ⟨hs, hr⟩
  | some j => rw [hl] at hrow; cases hrow with | moved hm => exact .inr ⟨j, rfl, hm⟩

/-- A call that gives no row a new generation, or a claim, which leaves no live
lease but the one it makes. -/
theorem quiet_or_alone {t t' : Table ι} {r : Readings} {definite : Bool} (h : t.Step r definite t') :
    (∀ id j k, t.lookup id = some j → t'.lookup id = some k → k.leaseGeneration = j.leaseGeneration) ∨
      ∃ id, ∀ k ∈ t'.rows, k.active r.fourth → k.runId = id := by
  cases h with
  | stays => exact .inl fun id j k hj hk => by rw [hj] at hk; cases hk; rfl
  | inserts job hnone hs hr =>
    refine .inl fun id j k hj hk => ?_
    rw [Table.lookup_insert, if_neg (by rintro rfl; rw [hj] at hnone; cases hnone), hj] at hk
    cases hk; rfl
  | puts k' hk' hm hg =>
    refine .inl fun id j k hj hk => ?_
    rw [Table.lookup_put, hj, Option.map_some] at hk
    cases hk
    split
    · rename_i hid; rw [hid, hk'] at hj; cases hj; exact hg
    · rfl
  | buries =>
    refine .inl fun id j k hj hk => ?_
    rw [lookup_bury, hj] at hk
    cases hk
    exact Job.bury_generation ..
  | leases row owner expiry hd hfree hrow hc =>
    refine .inr ⟨row.runId, fun k hk ha => ?_⟩
    simp only [Table.put, Table.update, List.mem_map] at hk
    obtain ⟨j, hj, rfl⟩ := hk
    split
    · rfl
    · rename_i hne
      rw [if_neg hne] at ha
      have := hfree j hj
      rw [Job.active_mono (r.second_le.trans r.third_le) ha] at this
      cases this

theorem Inv.call {s : JobStore ι} {r : Readings} {t' : Table ι} (hs : s.Inv) (hr : s.clock ≤ r.first)
    (h : s.table.Step r true t') : Inv ⟨t', r.fourth⟩ where
  shaped k hk := by
    rcases row_before h hk with ⟨hk, -⟩ | ⟨j, hj, hm⟩
    · exact hk
    · exact hm.shaped (hs.shaped j (Table.mem_of_lookup hj))
  alone k hk k' hk' ha ha' := by
    have live : ∀ k ∈ t'.rows, k.active r.fourth →
        (∀ id j k, s.table.lookup id = some j → t'.lookup id = some k →
          k.leaseGeneration = j.leaseGeneration) →
        ∃ j ∈ s.table.rows, j.runId = k.runId ∧ j.active s.clock := fun k hk ha hq => by
      rcases row_before h hk with ⟨-, hr⟩ | ⟨j, hj, hm⟩
      · rw [(Job.active_iff.mp ha).1] at hr; cases hr
      · refine ⟨j, Table.mem_of_lookup hj, Table.runId_of_lookup hj, Job.active_mono hr ?_⟩
        exact hm.active (hq _ j k hj (Table.lookup_of_mem hk)) le_rfl ha
    have hid : k.runId = k'.runId := by
      rcases quiet_or_alone h with hq | ⟨id, halone⟩
      · obtain ⟨j, hj, hjk, haj⟩ := live k hk ha hq
        obtain ⟨j', hj', hjk', haj'⟩ := live k' hk' ha' hq
        rw [← hjk, ← hjk', hs.alone j hj j' hj' haj haj']
      · rw [halone k hk ha, halone k' hk' ha']
    have := Table.lookup_of_mem hk
    rw [hid, Table.lookup_of_mem hk'] at this
    exact (Option.some.inj this).symm

theorem Inv.step {s u : JobStore ι} {e : Event ι} (hs : s.Inv) (hd : e.definite) (h : s.step e = some u) : u.Inv := by
  rcases step_eq_some h with ⟨r, op, rfl, hr, ht, hc⟩ | ⟨now, -, hle, rfl⟩
  · have hop : op.definite = true := hd
    have := hs.call hr (hop ▸ apply_step op)
    rwa [← ht, ← hc] at this
  · exact ⟨hs.shaped, fun j hj k hk ha ha' =>
      hs.alone j hj k hk (Job.active_mono hle ha) (Job.active_mono hle ha')⟩

/-- The guard of the histories in which no claim and no retry has a NaN for its duration. -/
def Definite (_ : JobStore ι) (e : Event ι) : Prop := e.definite

instance (s : JobStore ι) (e : Event ι) : Decidable (Definite s e) := inferInstanceAs (Decidable (e.definite = true))

theorem inv_of_run {start : Time} {es : List (Event ι)} {s : JobStore ι}
    (h : Run step Definite (init start) es s) : s.Inv :=
  h.invariant (fun _ _ _ hi hd hu => hi.step hd hu) (inv_init start)

/-! ### What becomes of a row and of a claim -/

/-- What a history from `s` to `u` makes of a row of `s`. -/
structure Since (s u : JobStore ι) (j k : Job ι) : Prop where
  found : u.table.lookup j.runId = some k
  generation : j.leaseGeneration ≤ k.leaseGeneration
  epoch : j.controlEpoch ≤ k.controlEpoch
  frozen : j.terminal → k = j
  stale : ∀ c, j.Stale s.clock c → k.Stale u.clock c

theorem since_step {s u : JobStore ι} {e : Event ι} (h : s.step e = some u) {id : ι} {j : Job ι}
    (hj : s.table.lookup id = some j) : ∃ k, Since s u j k := by
  obtain rfl := Table.runId_of_lookup hj
  rcases step_eq_some h with ⟨r, op, -, hr, ht, hc⟩ | ⟨now, -, hle, rfl⟩
  · have hrow := (apply_step (t := s.table) (r := r) op).row j.runId
    rw [← ht, hj] at hrow
    cases hk : u.table.lookup j.runId with
    | none => rw [hk] at hrow; cases hrow
    | some k =>
      rw [hk] at hrow
      cases hrow with
      | moved hm =>
        refine ⟨k, hk, hm.generation_le, hm.epoch_le, hm.frozen, fun c hst => ?_⟩
        rw [hc]
        exact hm.stale (hst.mono hr)
  · exact ⟨j, hj, le_rfl, le_rfl, fun _ => rfl, fun c hst => hst.mono hle⟩

theorem Since.trans {s u v : JobStore ι} {j k l : Job ι} (h : Since s u j k) (h' : Since u v k l) :
    Since s v j l where
  found := by rw [← Table.runId_of_lookup h.found]; exact h'.found
  generation := h.generation.trans h'.generation
  epoch := h.epoch.trans h'.epoch
  frozen hj := by
    have hk := h.frozen hj
    subst hk
    exact h'.frozen hj
  stale c hc := h'.stale c (h.stale c hc)

theorem since_run {s u : JobStore ι} {es : List (Event ι)} (h : Run step Free s es u) {id : ι}
    {j : Job ι} (hj : s.table.lookup id = some j) : ∃ k, Since s u j k := by
  induction h generalizing id j with
  | nil s => exact ⟨j, by rwa [Table.runId_of_lookup hj], le_rfl, le_rfl, fun _ => rfl, fun _ h => h⟩
  | cons _ hstep _ ih =>
    obtain ⟨k, hk⟩ := since_step hstep hj
    obtain ⟨l, hl⟩ := ih hk.found
    exact ⟨l, hk.trans hl⟩

/-! ### Superseded claims -/

/-- The reply to a call. -/
def reply (s : JobStore ι) (r : Readings) (op : Op ι) : Except (Fault ι) (Option (Job ι)) :=
  (op.apply s.table r).2

/-- The call is a claim that is granted the row `job`. -/
def Grants (s : JobStore ι) (e : Event ι) (job : Job ι) : Prop :=
  ∃ r workerId leaseSeconds, e = .call r (.claim workerId leaseSeconds) ∧
    s.reply r (.claim workerId leaseSeconds) = .ok (some job)

/-- The call gives the claim up, and the store takes it. -/
def Commits (s : JobStore ι) (e : Event ι) (c : Claim ι) : Prop :=
  ∃ r op, e = .call r op ∧ op.commits = some c ∧ ∃ job, s.reply r op = .ok job

/-- What supersedes a claim: a later claim of its run, a wake of it, its own
commit, and the moment its lease runs out. -/
inductive Supersedes (s : JobStore ι) (c : Claim ι) : Event ι → Prop
  | claimed {e : Event ι} {job : Job ι} (h : s.Grants e job) (hrun : job.runId = c.runId) : Supersedes s c e
  | woken {r : Readings} {answer : Option (Job ι)} (h : s.reply r (.wake c.runId) = .ok answer) :
      Supersedes s c (.call r (.wake c.runId))
  | committed {e : Event ι} (h : s.Commits e c) : Supersedes s c e
  | lapsed {now : Time} {row : Job ι} (h : s.table.lookup c.runId = some row) (hx : row.expired now) :
      Supersedes s c (.tick now)

/-- A granted row is in the table, with the generation after the one it had. -/
theorem Grants.row {s u : JobStore ι} {e : Event ι} {job : Job ι} (h : s.Grants e job)
    (hstep : s.step e = some u) : u.table.lookup job.runId = some job ∧
      ∃ row, s.table.lookup job.runId = some row ∧ job.leaseGeneration = row.leaseGeneration + 1 := by
  obtain ⟨r, workerId, leaseSeconds, rfl, hreply⟩ := h
  rcases step_eq_some hstep with ⟨_, _, he, -, ht, -⟩ | ⟨_, he, -⟩
  · cases he
    simp only [reply, Op.apply] at hreply
    simp only [Op.apply] at ht
    cases hc : claimExecutionJob s.table r workerId leaseSeconds with
    | error => simp [hc, Table.commit] at hreply
    | ok p =>
      obtain ⟨t', answer⟩ := p
      rw [hc] at hreply ht
      cases hreply
      rcases claimExecutionJob_eq_ok hc with ⟨hnone, -⟩ | ⟨row, hjob, rfl, -, hrow, hclaim⟩
      · cases hnone
      · cases hjob
        have hl := lookup_of_claimable hrow hclaim
        refine ⟨?_, row, hl, rfl⟩
        rw [ht]
        show ((s.table.bury r.first).put _).lookup row.runId = _
        rw [Table.lookup_put, hrow]
        simp [Job.lease]
  · cases he

/-- A call under a stale claim raises a `JobFenceError`, or what the check of its own
arguments raises. The table stays. -/
theorem refused {t : Table ι} {r : Readings} {op : Op ι} {c : Claim ι} {row : Job ι}
    (hop : op.presents = some c) (hl : t.lookup c.runId = some row) (hc : row.Stale r.first c) :
    (op.apply t r).1 = t ∧
      ∃ fault, (op.apply t r).2 = .error fault ∧ (fault.isFence ↔ op.wellFormed) := by
  rcases apply_of_presents (t := t) (r := r) hop with ⟨hbad, fault, hfault, h⟩ | ⟨hgood, change, h, -⟩
  · exact ⟨by rw [h], fault, by rw [h], by simp [hbad, hfault]⟩
  · have hf : fencedUpdate t r c change
        = .error (.fence c row.leaseGeneration row.controlEpoch row.status) := by
      simp only [fencedUpdate, requireJobFence, hl, Job.fenced_of_stale hc, Except.map]
    rw [h, hf]
    exact ⟨rfl, _, rfl, by simp [hgood, Fault.isFence]⟩

/-- What a successful call that gives its claim up leaves in the row. -/
theorem commit_row {t t' : Table ι} {r : Readings} {op : Op ι} {c : Claim ι} (hop : op.commits = some c)
    {answer : Option (Job ι)} (h : op.apply t r = (t', .ok answer)) :
    ∃ row k, t.lookup c.runId = some row ∧ t'.lookup c.runId = some k ∧
      k.leaseGeneration = row.leaseGeneration ∧ k.status ≠ .leased := by
  have hpresents : op.presents = some c := by cases op <;> first | exact hop | cases hop
  rcases apply_of_presents (t := t) (r := r) hpresents with ⟨-, fault, -, he⟩ | ⟨-, change, he, hchange⟩
  · rw [he] at h; cases h
  · rw [he] at h
    cases hf : fencedUpdate t r c change with
    | error fault => simp [hf, Except.map, Table.commit] at h
    | ok p =>
      obtain ⟨t'', job⟩ := p
      obtain ⟨row, hl, -, -, hp, -⟩ := fencedUpdate_eq_ok hf
      simp only [hf, Except.map, Table.commit, Prod.map, id, Prod.mk.injEq] at h
      obtain ⟨hclaim, hstatus, -⟩ := hchange row
      simp only [Job.claim, Claim.mk.injEq] at hclaim
      refine ⟨row, change row, hl, ?_, hclaim.2.1, hstatus hop⟩
      rw [← h.1, hp, Table.lookup_put, hl, hclaim.1, Table.runId_of_lookup hl]
      simp

theorem wake_row {t t' : Table ι} {r : Readings} {id : ι} {answer : Option (Job ι)}
    (h : (Op.wake id).apply t r = (t', .ok answer)) :
    ∃ row, t.lookup id = some row ∧ t'.lookup id = some (row.wake r.first) := by
  simp only [Op.apply] at h
  cases hwake : wakeExecutionJob t r id with
  | error fault => simp [hwake, Except.map, Table.commit] at h
  | ok p =>
    obtain ⟨t'', job⟩ := p
    obtain ⟨row, hl, -, rfl, -⟩ := wakeExecutionJob_eq_ok hwake
    simp only [hwake, Except.map, Prod.map, Table.commit, Prod.mk.injEq] at h
    refine ⟨row, hl, ?_⟩
    simp [← h.1, Table.lookup_put, hl, Job.wake, Table.runId_of_lookup hl]

/-- What the row of a claim still shows of it. -/
def Holds (s : JobStore ι) (c : Claim ι) : Prop :=
  ∃ row, s.table.lookup c.runId = some row ∧ c.leaseGeneration ≤ row.leaseGeneration ∧
    c.controlEpoch ≤ row.controlEpoch

theorem Holds.run {s u : JobStore ι} {es : List (Event ι)} {c : Claim ι} (hc : s.Holds c)
    (h : Run step Free s es u) : u.Holds c := by
  obtain ⟨row, hl, hg, he⟩ := hc
  obtain ⟨k, hk⟩ := since_run h hl
  exact ⟨k, by rw [← Table.runId_of_lookup hl]; exact hk.found, hg.trans hk.generation, he.trans hk.epoch⟩

/-- The claim is stale in its row, now and hence for good. -/
def Superseded (s : JobStore ι) (c : Claim ι) : Prop :=
  ∃ row, s.table.lookup c.runId = some row ∧ row.Stale s.clock c

theorem Superseded.run {s u : JobStore ι} {es : List (Event ι)} {c : Claim ι} (hc : s.Superseded c)
    (h : Run step Free s es u) : u.Superseded c := by
  obtain ⟨row, hl, hst⟩ := hc
  obtain ⟨k, hk⟩ := since_run h hl
  exact ⟨k, by rw [← Table.runId_of_lookup hl]; exact hk.found, hk.stale c hst⟩

theorem superseded_of_supersedes {s u : JobStore ι} {e : Event ι} {c : Claim ι} (hc : s.Holds c)
    (h : s.Supersedes c e) (hstep : s.step e = some u) : u.Superseded c := by
  obtain ⟨row, hl, hg, he⟩ := hc
  cases h with
  | claimed h hrun =>
    rename_i job
    obtain ⟨hjob, row', hrow', hgen⟩ := h.row hstep
    rw [hrun] at hjob hrow'
    rw [hl] at hrow'
    cases hrow'
    exact ⟨job, hjob, .inl (by omega)⟩
  | woken h =>
    rcases step_eq_some hstep with ⟨_, _, hcall, -, ht, -⟩ | ⟨_, hcall, -⟩
    · cases hcall
      rename_i r answer
      have hwake : (Op.wake c.runId).apply s.table r = (u.table, .ok answer) := Prod.ext ht.symm h
      obtain ⟨row', hrow', hk⟩ := wake_row hwake
      rw [hl] at hrow'
      cases hrow'
      exact ⟨_, hk, .inr (.inl (Nat.lt_succ_of_le he))⟩
    · cases hcall
  | committed h =>
    obtain ⟨r, op, rfl, hop, answer, hreply⟩ := h
    rcases step_eq_some hstep with ⟨_, _, he, -, ht, -⟩ | ⟨_, he, -⟩
    · cases he
      have hcommit : op.apply s.table r = (u.table, .ok answer) := Prod.ext ht.symm hreply
      obtain ⟨row', k, hrow', hk, hgen, hs⟩ := commit_row hop hcommit
      rw [hl] at hrow'
      cases hrow'
      exact ⟨k, hk, .inr (.inr ⟨by omega, .inl hs⟩)⟩
    · cases he
  | lapsed h hx =>
    rcases step_eq_some hstep with ⟨_, _, he, -⟩ | ⟨_, he, -, rfl⟩
    · cases he
    · cases he
      rw [hl] at h
      cases h
      exact ⟨row, hl, .inr (.inr ⟨hg, .inr hx⟩)⟩

theorem Grants.holds {s u : JobStore ι} {e : Event ι} {job : Job ι} (h : s.Grants e job)
    (hstep : s.step e = some u) : u.Holds job.claim :=
  ⟨job, (h.row hstep).1, le_rfl, le_rfl⟩

/-- No call gives a superseded claim up a second time. -/
theorem Superseded.not_commits {s u : JobStore ι} {e : Event ι} {c : Claim ι} (hc : s.Superseded c)
    (hstep : s.step e = some u) : ¬ s.Commits e c := by
  rintro ⟨r, op, rfl, hop, job, hreply⟩
  have hpresents : op.presents = some c := by cases op <;> first | exact hop | cases hop
  obtain ⟨row, hl, hst⟩ := hc
  rcases step_eq_some hstep with ⟨_, _, he, hr, -⟩ | ⟨_, he, -⟩
  · cases he
    obtain ⟨-, fault, hfault, -⟩ := refused hpresents hl (hst.mono hr)
    rw [reply, hfault] at hreply
    cases hreply
  · cases he

/-! ### Lease safety -/

/-- A history leads from the one state to the other. -/
def Later (s t : JobStore ι) : Prop := ∃ es, Run step Free s es t

/-- What the table promises from a state on: at most one lease is live and every row is
in shape. Generations and control epochs only grow and `COMPLETED` and `DEAD` rows stay.
A claim granted here outranks the claims of its run before it, is given up once at most,
and once it is superseded every renew, checkpoint, complete and retry under it raises and
leaves the table as it was: a `JobFenceError`, unless a check of its arguments comes first. -/
structure LeaseSafe (s : JobStore ι) : Prop where
  alone : ∀ now, s.clock ≤ now → ∀ j ∈ s.table.rows, ∀ k ∈ s.table.rows, j.active now → k.active now → j = k
  shaped : ∀ j ∈ s.table.rows, j.Shaped
  grows : ∀ t, s.Later t → ∀ id j, s.table.lookup id = some j →
    ∃ k, t.table.lookup id = some k ∧ j.leaseGeneration ≤ k.leaseGeneration ∧
      j.controlEpoch ≤ k.controlEpoch ∧ (j.terminal → k = j)
  outranks : ∀ e job s', s.Grants e job → s.step e = some s' → ∀ t, s'.Later t →
    ∀ f job', t.Grants f job' → (t.step f).isSome → job'.runId = job.runId →
      job.leaseGeneration < job'.leaseGeneration
  once : ∀ e job s', s.Grants e job → s.step e = some s' → ∀ t, s'.Later t →
    ∀ f t', t.Commits f job.claim → t.step f = some t' → ∀ u, t'.Later u →
      ∀ g, (u.step g).isSome → ¬ u.Commits g job.claim
  fences : ∀ e job s', s.Grants e job → s.step e = some s' → ∀ t, s'.Later t →
    ∀ f t', t.Supersedes job.claim f → t.step f = some t' → ∀ u, t'.Later u →
      ∀ (r : Readings) (op : Op ι), op.presents = some job.claim → u.clock ≤ r.first →
        (op.apply u.table r).1 = u.table ∧
          ∃ fault, (op.apply u.table r).2 = .error fault ∧ (fault.isFence ↔ op.wellFormed)

end JobStore

open JobStore

/-- Every state that a history reaches is safe, as long as no claim and no retry has a NaN
for its duration. -/
theorem job_lease_safety {start : Time} {es : List (Event ι)} {s : JobStore ι}
    (hs : Run step Definite (init start) es s) : s.LeaseSafe where
  alone now hnow j hj k hk ha ha' :=
    (inv_of_run hs).alone j hj k hk (Job.active_mono hnow ha) (Job.active_mono hnow ha')
  shaped := (inv_of_run hs).shaped
  grows t ht id j hj := by
    obtain ⟨fs, ht⟩ := ht
    obtain ⟨k, hk⟩ := since_run ht hj
    exact ⟨k, by rw [← Table.runId_of_lookup hj]; exact hk.found, hk.generation, hk.epoch, hk.frozen⟩
  outranks e job s' hgrant hstep t ht f job' hgrant' hf hrun := by
    obtain ⟨fs, ht⟩ := ht
    obtain ⟨t', hf⟩ := Option.isSome_iff_exists.mp hf
    obtain ⟨-, row, hrow, hgen⟩ := hgrant'.row hf
    obtain ⟨k, hk⟩ := since_run ht (hgrant.row hstep).1
    rw [hrun, hk.found] at hrow
    cases hrow
    have := hk.generation
    omega
  once e job s' hgrant hstep t ht f t' hcommit hf u hu g hg := by
    obtain ⟨fs, ht⟩ := ht
    obtain ⟨gs, hu⟩ := hu
    obtain ⟨u', hg⟩ := Option.isSome_iff_exists.mp hg
    have hst := superseded_of_supersedes ((hgrant.holds hstep).run ht) (.committed hcommit) hf
    exact (hst.run hu).not_commits hg
  fences e job s' hgrant hstep t ht f t' hsup hf u hu r op hop hr := by
    obtain ⟨fs, ht⟩ := ht
    obtain ⟨gs, hu⟩ := hu
    obtain ⟨row, hl, hst⟩ := (superseded_of_supersedes ((hgrant.holds hstep).run ht) hsup hf).run hu
    exact refused hop hl (hst.mono hr)

/-- A worker claims the job of run 1 and loses it to a wake; a second one claims it. -/
theorem job_lease_safety_claimed_twice :
    ∃ s : JobStore ℕ, exec step Definite (init 0)
      [.call (.at 0) (.create (fun _ => true) 1 "PROFILE" [] 5 0), .call (.at 1) (.claim "local" 30),
        .call (.at 1) (.wake 1), .call (.at 2) (.claim "other" 30)] = some s ∧
      (s.table.lookup 1).map Job.claim = some ⟨1, 2, 1⟩ ∧ s.LeaseSafe := by
  have hclaim : (exec step Definite (init 0 : JobStore ℕ)
      [.call (.at 0) (.create (fun _ => true) 1 "PROFILE" [] 5 0), .call (.at 1) (.claim "local" 30),
        .call (.at 1) (.wake 1), .call (.at 2) (.claim "other" 30)]).map
      (fun s => (s.table.lookup 1).map Job.claim) = some (some ⟨1, 2, 1⟩) := by decide +kernel
  obtain ⟨s, hs, hrow⟩ := Option.map_eq_some_iff.mp hclaim
  exact ⟨s, hs, hrow, job_lease_safety (run_of_exec hs)⟩

/-- A claim for a NaN of seconds: SQLite stores a null for the expiry of the lease. -/
theorem leased_without_expiry :
    ¬ ∀ (start : Time) (es : List (Event ℕ)) (s : JobStore ℕ), Run step Free (init start) es s → s.LeaseSafe := by
  intro hall
  have hrow : (exec step Free (init 0 : JobStore ℕ)
      [.call (.at 0) (.create (fun _ => true) 1 "PROFILE" [] 5 0), .call (.at 1) (.claim "local" (.nan 0))]).map
      (fun s => (s.table.lookup 1).map fun j => (j.status, j.leaseExpiresAt)) = some (some (.leased, none)) := by
    decide +kernel
  obtain ⟨s, hs, hrow⟩ := Option.map_eq_some_iff.mp hrow
  obtain ⟨j, hj, hleased⟩ := Option.map_eq_some_iff.mp hrow
  obtain ⟨hstatus, hnone⟩ := Prod.mk.inj hleased
  have hexpiry := (((hall _ _ _ (run_of_exec hs)).shaped j (Table.mem_of_lookup hj)).leased hstatus).2
  rw [hnone] at hexpiry
  cases hexpiry

end AutomlApi.Jobs
