import AutomlApi.Workflow.Calls

/-! The death of a job. A job that has no attempt left is buried, and its run is to fail. A
retry buries the job and fails the run; a claim that finds the last lease of a job expired
buries it, and says nothing to the run. -/

namespace AutomlApi.Workflow

open Durable
open Jobs (Job Readings Table)
open Runs (exec run_of_exec)
open Worker.LocalExecutionWorker (standard)

variable {lw : Leeway} {w : Worker.LocalExecutionWorker} {s s' : System} {u : World} {t : Tasks} {e : System.Event}
  {runId : ℕ} {d : RunData} {α β : Type}

/-! ### Records that bury no job -/

/-- A record that buries no job. -/
def Write.mild : Write → Bool
  | .job _ op => !op.deadly
  | _ => true

/-- Only a claim and a retry bury jobs. -/
theorem mild_section {a : Action} {p : Prog Tasks} (hp : t.Runs w a p) (hdrawn : u.Drawn) (ht : t.Fits u)
    (hclaim : ∀ r, a ≠ .claim r) (hretry : (System.mk u t).retrying a = none) :
    Along (fun _ x => Write.mild x) u (p u).2 := by
  refine (section_calls hp hdrawn ht).mono fun _ x hx => ?_
  cases x with
  | job r op =>
    cases op with
    | claim workerId leaseSeconds =>
      have hclaims : a.claims := hx
      cases a with
      | claim r => exact absurd rfl (hclaim r)
      | _ => cases hclaims
    | retry c delaySeconds error =>
      simp only [Write.calls, System.calls, hretry] at hx
      cases hx
    | _ => rfl
  | _ => rfl

/-! ### Runs of dead jobs -/

/-- The run of every dead job has ended. -/
def World.Mourned (u : World) : Prop := ∀ runId row d, u.jobs.lookup runId = some row → row.status = .dead →
  u.runs.get runId = some d → d.run.status = .terminal

/-- A lawful record that buries no job and brings no run back. -/
theorem mourned_apply {x : Write} (h : u.Mourned) (hs : u.Sound) (hx : u.Lawful lw x) (hrevives : ¬ lw.revives)
    (hmild : x.mild) : (u.apply x).Mourned := by
  intro runId row d hrow hdead hd
  have hbefore : u.jobs.lookup runId = some row := by
    cases x with
    | job r op => exact Jobs.dead_of_apply (by simpa [Write.mild] using hmild) hrow hdead
    | _ => exact hrow
  rcases run_before hx hd with ⟨hsame, -⟩ | ⟨request, tenantId, hnone, -, -⟩ | ⟨c, drawsId, d₀, -, hd₀, hc, rfl⟩
  · exact h runId row d hbefore hdead hsame
  · obtain ⟨-, d', hd', -⟩ := hs.rows runId row hbefore
    rw [hnone] at hd'
    cases hd'
  · exact terminal_apply hc hrevives (h runId row d₀ hbefore hdead hd₀)

/-- The handler of a dead job ends its run, and leaves everything else as it is. -/
theorem handleDeadJob_final (hdrawn : u.Drawn)
    (hopen : ∀ d, u.runs.get runId = some d → d.run.status ≠ .terminal → d.result = none) :
    ((handleDeadJob runId).final u).jobs = u.jobs ∧
      (∀ id, id ≠ runId → ((handleDeadJob runId).final u).runs.get id = u.runs.get id) ∧
        ∀ d, ((handleDeadJob runId).final u).runs.get runId = some d → d.run.status = .terminal := by
  have hminds : Minds (.of runId) (handleDeadJob runId) := minds_handleDeadJob rfl
  have hothers := (hminds u).writes.final (P := fun v => ∀ id, id ≠ runId → v.runs.get id = u.runs.get id)
    (fun _ _ h hx id hid => (runs_of_about hx.about hid).trans (h id hid)) fun _ _ => rfl
  have hnil : (handleDeadJob runId u).2 = [] → (∀ d, u.runs.get runId = some d → d.run.status = .terminal) →
      ((handleDeadJob runId).final u).jobs = u.jobs ∧
        ∀ d, ((handleDeadJob runId).final u).runs.get runId = some d → d.run.status = .terminal := by
    intro hnil hended
    rw [final, hnil]
    exact ⟨rfl, hended⟩
  suffices h : ((handleDeadJob runId).final u).jobs = u.jobs ∧
      ∀ d, ((handleDeadJob runId).final u).runs.get runId = some d → d.run.status = .terminal from ⟨h.1, hothers, h.2⟩
  cases hd : u.runs.get runId with
  | none =>
    refine hnil ?_ fun d hd' => by rw [hd] at hd'; cases hd'
    unfold handleDeadJob
    rw [read_bind, hd]
    rfl
  | some d =>
    by_cases hended : d.run.status = .terminal
    · refine hnil ?_ fun d' hd' => ?_
      · unfold handleDeadJob
        rw [read_bind, hd]
        dsimp only
        rw [if_pos hended]
        rfl
      · cases hd.symm.trans hd'
        exact hended
    have hbody : handleDeadJob runId u = failRun runId d.run "WORKER_RETRIES_EXHAUSTED" u := by
      unfold handleDeadJob
      rw [read_bind, hd]
      dsimp only
      rw [if_neg hended]
    have hstands : Stands u runId d.standing u.jobs := ⟨by rw [World.standing, hd]; rfl, rfl, hdrawn⟩
    have hsays := says_failRun hstands (agrees_standing d) "WORKER_RETRIES_EXHAUSTED"
    have hresult := hopen d hd hended
    rcases hsays with ⟨hclosed, -, -⟩ | ⟨-, -, result, events, hrecords⟩
    · simp [RunData.standing, hresult] at hclosed
    have hview : ((handleDeadJob runId).final u).view =
        replay u.view [Write.on runId (.finalized result failed events) true] := by
      rw [final, view_replay, hbody, hrecords]
    refine ⟨congrArg View.jobs hview, fun d' hd' => ?_⟩
    have hstanding := congrFun (congrArg View.standing hview) runId
    have hone := (hstands.on (rfl : (Write.on runId (.finalized result failed events) true).drawn u = true)).get
    have hafter : ((handleDeadJob runId).final u).standing runId = some (d.standing.apply (.finalized result failed events)) :=
      hstanding.trans ((congrFun (congrArg View.standing (view_replay u _)) runId).symm.trans hone)
    rw [World.standing, hd'] at hafter
    have hstatus := congrArg Standing.status (Option.some_inj.mp hafter)
    exact hstatus

/-- A retry that buries its job ends the run of the job. -/
theorem mourned_retryJob (h : u.Mourned) (hdrawn : u.Drawn) (r : Readings) (job : Job ℕ) (delaySeconds : ℚ) (error : String)
    (hopen : u.Exhausted job → ∀ d, u.runs.get job.runId = some d → d.run.status ≠ .terminal → d.result = none) :
    ((retryJob r job delaySeconds error).final u).Mourned := by
  unfold retryJob
  rw [final_bind]
  let op : Jobs.Op ℕ := .retry job.claim delaySeconds error
  let u₁ : World := u.apply (.job r op)
  have honJobs : onJobs r op u = _ := onJobs_eq r op u
  cases hop : (op.apply u.jobs r).2 with
  | error f =>
    rw [hop] at honJobs
    rw [honJobs]
    dsimp only
    rw [final, honJobs]
    exact h
  | ok reply =>
    rw [hop] at honJobs
    rw [honJobs]
    dsimp only
    have hfinal : (onJobs r op).final u = u₁ := by
      rw [final, honJobs]
      rfl
    rw [hfinal]
    obtain ⟨k, rfl, hput, hid⟩ := Jobs.put_of_retry hop
    have hid : k.runId = job.runId := hid
    have hjobs : u₁.jobs = u.jobs.put k := hput
    have hother : ∀ id row, id ≠ job.runId → u₁.jobs.lookup id = some row → u.jobs.lookup id = some row := by
      intro id row hne hrow
      rw [hjobs, Table.lookup_put, hid] at hrow
      simpa [hne] using hrow
    have hown : ∀ row, u₁.jobs.lookup job.runId = some row → row = k := by
      intro row hrow
      rw [hjobs, Table.lookup_put, hid] at hrow
      obtain ⟨j, -, hjk⟩ := Option.map_eq_some_iff.mp hrow
      rw [if_pos rfl] at hjk
      exact hjk.symm
    dsimp only
    by_cases hdead : k.status = .dead
    · rw [if_pos hdead]
      have hexhausted : u.Exhausted job := by
        obtain ⟨row, hrow, hle⟩ := Jobs.exhausted_of_retry hop hdead
        have hrow : u.jobs.lookup job.runId = some row := hrow
        simp [World.Exhausted, hrow, hle]
      obtain ⟨hsame, hothers, hended⟩ := @handleDeadJob_final u₁ job.runId hdrawn (hopen hexhausted)
      intro id row d hrow hrowdead hd
      by_cases hne : id = job.runId
      · subst hne
        exact hended d hd
      · rw [hsame] at hrow
        rw [hothers id hne] at hd
        exact h id row d (hother id row hne hrow) hrowdead hd
    · rw [if_neg hdead]
      intro id row d hrow hrowdead hd
      by_cases hne : id = job.runId
      · subst hne
        rw [hown row hrow] at hrowdead
        exact absurd hrowdead hdead
      · exact h id row d (hother id row hne hrow) hrowdead hd

/-! ### Steps -/

/-- A claim that buries a job whose run goes on. -/
def System.buriesClaimed (s : System) : Action → Bool
  | .claim r => s.world.jobs.rows.any fun row =>
      row.exhausted r.first && (s.world.runs.get row.runId).any (·.run.status ≠ .terminal)
  | _ => false

/-- A death of the process between the retry that buries a job and the end of its run. -/
def System.cutsRetry (w : Worker.LocalExecutionWorker) (s : System) : System.Event → Bool
  | .act _ => false
  | .crash a written =>
    (s.retrying a).isSome && (0 < written && written < (System.records w s (.act a)).length)

/-- A retry that buries a job whose run has its result and goes on. -/
def System.retriesClosed (s : System) (a : Action) : Bool := (s.retrying a).any fun job =>
  s.world.Exhausted job && (s.world.runs.get job.runId).any fun d => d.run.status ≠ .terminal ∧ d.result.isSome

/-- A step that tells the run of every job that it buries, and brings no run back. -/
def System.Mourns (w : Worker.LocalExecutionWorker) (s : System) (e : System.Event) : Prop :=
  s.buriesClaimed e.action = false ∧ s.cutsRetry w e = false ∧ s.retriesClosed e.action = false ∧
    s.revivesEnded e.action = false

instance (s : System) (e : System.Event) : Decidable (s.Mourns w e) := inferInstanceAs (Decidable (_ ∧ _))

/-- The section of a retry writes what the retry writes. -/
theorem retrying_records {a : Action} {p : Prog Tasks} (hp : s.tasks.Runs w a p) {job : Job ℕ}
    (h : s.retrying a = some job) : ∃ r delaySeconds error, (p s.world).2 = (retryJob r job delaySeconds error s.world).2 := by
  cases hp with
  | settle r job' outcome hworker =>
    cases outcome with
    | raised error =>
      cases (show some job' = some job by simpa [System.retrying, hworker, Retries] using h)
      exact ⟨r, w.retryDelay job.attempt, error, records_bind (m := (settle w r job _).attempt)
        (fun result _ => by cases result <;> rfl) s.world⟩
    | cancelled =>
      cases (show some job' = some job by simpa [System.retrying, hworker, Retries] using h)
      exact ⟨r, 0, "CancelledError: worker stopped", records_bind (m := (settle w r job _).attempt)
        (fun result _ => by cases result <;> rfl) s.world⟩
    | _ => simp [System.retrying, hworker, Retries] at h
  | stop r job' hworker =>
    have hjob : job' = job := by
      rcases hworker with ⟨_, hworker⟩ | ⟨_, hworker⟩ <;> simpa [System.retrying, hworker] using h
    subst hjob
    refine ⟨r, 0, "CancelledError: worker stopped", ?_⟩
    exact records_bind (m := (retryJob r job' 0 "CancelledError: worker stopped").attempt) (fun _ _ => rfl) s.world
  | stopIdle r hworker => simp [System.retrying, hworker] at h
  | _ => cases h

/-- A claim writes itself, or nothing. -/
theorem claim_records {r : Readings} {p : Prog Tasks} (hp : t.Runs w (.claim r) p) (u : World) :
    (p u).2 = [] ∨ (p u).2 = [.job r (.claim w.workerId w.leaseSeconds)] := by
  cases hp with
  | claim r hworker =>
    have hone : (onJobs r (.claim w.workerId w.leaseSeconds) u).2 = [] ∨
        (onJobs r (.claim w.workerId w.leaseSeconds) u).2 = [.job r (.claim w.workerId w.leaseSeconds)] := by
      rw [onJobs_eq]
      cases ((Jobs.Op.claim w.workerId w.leaseSeconds).apply u.jobs r).2 with
      | ok reply => exact .inr rfl
      | error f => exact .inl rfl
    refine hone.imp (fun hl => Eq.trans (records_bind (fun reply _ => ?_) u) hl)
      fun hl => Eq.trans (records_bind (fun reply _ => ?_) u) hl
    all_goals rcases reply with _ | (_ | _) <;> rfl

/-- A claim that buries no job whose run goes on. -/
theorem mourned_claim (h : u.Mourned) (r : Readings) (workerId : String) (leaseSeconds : PyFloat)
    (hburies : ∀ row ∈ u.jobs.rows, row.exhausted r.first → ∀ d, u.runs.get row.runId = some d → d.run.status = .terminal) :
    (u.apply (.job r (.claim workerId leaseSeconds))).Mourned := by
  intro runId row d hrow hdead hd
  obtain ⟨j, hj, hwas | hexhausted⟩ := Jobs.dead_of_claim hrow hdead
  · exact h runId j d hj hwas hd
  · have hid := Table.runId_of_lookup hj
    exact hburies j (Table.mem_of_lookup hj) hexhausted d (hid ▸ hd)

/-- Every such step leaves the runs of all dead jobs ended. -/
theorem System.mourned_step (hi : s.Inv) (h : System.step w s e = some s') (hok : s.Mourns w e) (hm : s.world.Mourned) :
    s'.world.Mourned := by
  obtain ⟨hburies, hcuts, hcloses, hrevives⟩ := hok
  cases hretry : s.retrying e.action with
  | some job =>
    have hopen : s.world.Exhausted job → ∀ d, s.world.runs.get job.runId = some d → d.run.status ≠ .terminal →
        d.result = none := by
      intro hexhausted d hd hlive
      simp only [System.retriesClosed, hretry, Option.any_some, hexhausted, Bool.true_and, hd] at hcloses
      simpa [hlive] using hcloses
    have hwhole : ∀ r delaySeconds error, (replay s.world (retryJob r job delaySeconds error s.world).2).Mourned :=
      fun r delaySeconds error => mourned_retryJob hm hi.drawn r job delaySeconds error hopen
    cases System.steps h with
    | @act a p hp =>
      obtain ⟨r, delaySeconds, error, hrecords⟩ := retrying_records (section_runs hp) hretry
      show (replay s.world (p s.world).2).Mourned
      rw [hrecords]
      exact hwhole r delaySeconds error
    | @crash a p hp written =>
      obtain ⟨r, delaySeconds, error, hrecords⟩ := retrying_records (section_runs hp) hretry
      show (replay s.world ((p s.world).2.take written)).Mourned
      rw [hrecords]
      have hlength : System.records w s (.act a) = (p s.world).2 := by simp only [System.records, hp]
      have hretry : s.retrying a = some job := hretry
      simp only [System.cutsRetry, hretry, Option.isSome_some, Bool.true_and, hlength, hrecords] at hcuts
      rcases Nat.eq_zero_or_pos written with rfl | hpos
      · exact hm
      · have hall : (retryJob r job delaySeconds error s.world).2.length ≤ written := by simpa [hpos] using hcuts
        rw [List.take_of_length_le hall]
        exact hwhole r delaySeconds error
  | none =>
    by_cases hclaim : ∃ r, e.action = .claim r
    · obtain ⟨r, hr⟩ := hclaim
      obtain ⟨p, n, hp, hworld, -⟩ := System.section_written h
      rw [hr] at hp
      have htaken : (p s.world).2.take n = [] ∨ (p s.world).2.take n = [.job r (.claim w.workerId w.leaseSeconds)] := by
        rcases claim_records hp s.world with hnil | hone
        · rw [hnil, List.take_nil]
          exact .inl rfl
        · rw [hone]
          cases n with
          | zero => exact .inl rfl
          | succ n => exact .inr (by rw [List.take_succ_cons, List.take_nil])
      rw [hworld]
      rcases htaken with hnil | hone
      · rw [hnil]
        exact hm
      · rw [hone]
        refine mourned_claim hm r _ _ fun row hrow hexhausted d hd => ?_
        simp only [hr, System.buriesClaimed, List.any_eq_false] at hburies
        have hrow := hburies row hrow
        simpa [hexhausted, hd] using hrow
    · let lw : Leeway := { Leeway.all with revives := False }
      have hexcuses : lw.Excuses s e.action := { Leeway.Excuses.all s e.action with revives := .inr hrevives }
      have hpaired : ∀ runId d, s.world.runs.get runId = some d → (lw.at e.action).torn ∨ d.Paired := fun _ _ _ => .inl trivial
      have hwrites := System.writes hi h
      have hlawful := hwrites.lawful hpaired (grants_of_excuses (hexcuses.at e.action))
      have hmild : Along (fun _ x => Write.mild x) s.world (System.records w s e) :=
        System.along_records h fun p hp => mild_section hp hi.drawn hi.tasks (fun r hr => hclaim ⟨r, hr⟩) hretry
      rw [hwrites.world]
      exact ((hlawful.and hmild).keeps (P := fun v => v.Sound ∧ v.Mourned)
        (fun v x hv hx => ⟨world_sound_apply hv.1 hx.1, mourned_apply hv.2 hv.1 hx.1 id hx.2⟩) ⟨hi.sound, hm⟩).2

/-! ### Histories -/

/-- Where the runs of the jobs that are buried are told, the run of every dead job has ended. -/
theorem dead_jobs_ended (w : Worker.LocalExecutionWorker) (es : List System.Event) (s : System)
    (h : Runs.Run (System.step w) (System.Mourns w) System.init es s) (runId : ℕ) (row : Job ℕ) (d : RunData)
    (hrow : s.world.jobs.lookup runId = some row) (hdead : row.status = .dead) (hd : s.world.runs.get runId = some d) :
    d.run.status = .terminal := by
  have hmourned : s.world.Mourned := by
    refine h.invariant_of (J := System.Inv) (I := fun s => s.world.Mourned) (fun _ _ _ hi _ hstep => System.inv_step hi hstep)
      (fun _ _ _ hi hm hok hstep => System.mourned_step hi hstep hok hm) System.inv_init ?_
    intro runId row d hrow
    cases hrow
  exact hmourned runId row d hrow hdead hd

namespace System

/-- The worker claims the job, and the process dies and starts again. -/
def dying (n : ℕ) : List System.Event := [.act (.claim (second n)), .crash .start 0, .act (.boot (second (n + 1)))]

/-- The worker claims the job, and the profile cannot be read. -/
def failing (n : ℕ) : List System.Event :=
  [.act (.claim (second n)), .act .start, .act (.profileRead (.error "ValueError")), .act (.settle (second n))]

end System

/-- The process dies at each of the five attempts of a job. The claim that comes then buries
the job, and its run goes on waiting for it. -/
theorem dead_job_forgotten : ¬ ∀ (w : Worker.LocalExecutionWorker) (es : List System.Event) (s : System),
    Runs.Run (System.step w) Runs.Free System.init es s → s.tasks.still = true → ∀ (runId : ℕ) (row : Job ℕ) (d : RunData),
      s.world.jobs.lookup runId = some row → row.status = .dead → s.world.runs.get runId = some d →
        d.run.status = .terminal := by
  intro hall
  have hrun : ((exec (System.step standard) Runs.Free System.init (System.opening false ++ System.dying 1000 ++
      System.dying 2000 ++ System.dying 3000 ++ System.dying 4000 ++ System.dying 5000 ++
        [.act (.claim (System.second 6000))])).bind fun s => (s.world.jobs.lookup 4).bind fun row =>
          (s.world.runs.get 4).map fun d => (s.tasks.still, row.status, d.run.status)) =
      some (true, .dead, .queued) := by decide +kernel
  obtain ⟨s, hs, hrest⟩ := Option.bind_eq_some_iff.mp hrun
  obtain ⟨row, hrow, hrest⟩ := Option.bind_eq_some_iff.mp hrest
  obtain ⟨d, hd, htriple⟩ := Option.map_eq_some_iff.mp hrest
  obtain ⟨hstill, hpair⟩ := Prod.mk.inj htriple
  obtain ⟨hdead, hqueued⟩ := Prod.mk.inj hpair
  cases hqueued.symm.trans (hall _ _ s (run_of_exec hs) hstill 4 row d hrow hdead hd)

/-- A job whose five attempts fail ends its run. -/
theorem dead_jobs_ended_failing : ∃ s row d, exec (System.step standard) (System.Mourns standard) System.init
      (System.opening false ++ System.failing 1000 ++ System.failing 2000 ++ System.failing 3000 ++ System.failing 4000 ++
        System.failing 5000) = some s ∧
    s.world.jobs.lookup 4 = some row ∧ row.status = .dead ∧ s.world.runs.get 4 = some d ∧ d.run.status = .terminal := by
  have hrun : ((exec (System.step standard) (System.Mourns standard) System.init (System.opening false ++
      System.failing 1000 ++ System.failing 2000 ++ System.failing 3000 ++ System.failing 4000 ++
        System.failing 5000)).bind fun s => (s.world.jobs.lookup 4).bind fun row =>
          (s.world.runs.get 4).map fun _ => row.status) = some .dead := by decide +kernel
  obtain ⟨s, hs, hrest⟩ := Option.bind_eq_some_iff.mp hrun
  obtain ⟨row, hrow, hrest⟩ := Option.bind_eq_some_iff.mp hrest
  obtain ⟨d, hd, hdead⟩ := Option.map_eq_some_iff.mp hrest
  exact ⟨s, row, d, hs, hrow, hdead, hd, dead_jobs_ended standard _ s (run_of_exec hs) 4 row d hrow hdead hd⟩

end AutomlApi.Workflow
