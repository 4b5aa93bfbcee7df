import AutomlApi.Workflow.Readiness

/-! No training without a target and a word on the rows: what the worker and the training thread
know of the run that they are at, and where the inputs come from that the backend is given. -/

namespace AutomlApi.Workflow

open Durable
open Jobs (Job)
open Runs (exec run_of_exec)
open Worker.LocalExecutionWorker (standard)
open Store (Value Fields)

variable {lw : Leeway} {w : Worker.LocalExecutionWorker} {s s' : System} {u v : World} {t : Tasks} {runId : ℕ}
  {d d' : RunData} {e : System.Event}

/-! ### The steps of the jobs -/

/-- The record does not move the job of the run to another step. -/
def Write.Spares (runId : ℕ) (x : Write) : Prop :=
  ∀ r c workflowStep fields status, x = .job r (.checkpoint c workflowStep fields status) → c.runId ≠ runId

/-- The job of a run stays at its step, and is at its profile when it is new. -/
structure World.Stays (runId : ℕ) (u v : World) : Prop where
  kept : ∀ row, u.jobs.lookup runId = some row →
    ∃ row', v.jobs.lookup runId = some row' ∧ row'.workflowStep = row.workflowStep
  came : ∀ row', v.jobs.lookup runId = some row' →
    (∃ row, u.jobs.lookup runId = some row ∧ row'.workflowStep = row.workflowStep) ∨
      (u.jobs.lookup runId = none ∧ ¬ Trains row'.workflowStep)

theorem World.Stays.of_eq (h : v.jobs = u.jobs) : World.Stays runId u v :=
  ⟨fun row hrow => ⟨row, h ▸ hrow, rfl⟩, fun row hrow => .inl ⟨row, h ▸ hrow, rfl⟩⟩

theorem World.Stays.trans {x : World} (h : World.Stays runId u v) (h' : World.Stays runId v x) : World.Stays runId u x := by
  constructor
  · intro row hrow
    obtain ⟨row', hrow', hstep⟩ := h.kept row hrow
    obtain ⟨row'', hrow'', hstep'⟩ := h'.kept row' hrow'
    exact ⟨row'', hrow'', hstep'.trans hstep⟩
  · intro row'' hrow''
    rcases h'.came row'' hrow'' with ⟨row', hrow', hstep'⟩ | ⟨hnone, hfresh⟩
    · rcases h.came row' hrow' with ⟨row, hrow, hstep⟩ | ⟨hnone, hfresh⟩
      · exact .inl ⟨row, hrow, hstep'.trans hstep⟩
      · exact .inr ⟨hnone, hstep' ▸ hfresh⟩
    · refine .inr ⟨Option.not_isSome_iff_eq_none.mp fun hsome => ?_, hfresh⟩
      obtain ⟨row, hrow⟩ := Option.isSome_iff_exists.mp hsome
      obtain ⟨row', hrow', -⟩ := h.kept row hrow
      rw [hnone] at hrow'
      cases hrow'

theorem stays_apply {x : Write} (hx : u.Lawful lw x) (hspares : x.Spares runId) : World.Stays runId u (u.apply x) := by
  cases x with
  | job r op =>
    have hcame : ∀ row', (op.apply u.jobs r).1.lookup runId = some row' →
        (∃ row, u.jobs.lookup runId = some row ∧ row'.workflowStep = row.workflowStep) ∨
          (u.jobs.lookup runId = none ∧ ¬ Trains row'.workflowStep) := by
      intro row' hrow'
      cases Jobs.steps_apply op hrow' with
      | keeps _ hj hstep => exact .inl ⟨_, hj, hstep⟩
      | moves c workflowStep fields status hc => exact absurd hc (hspares _ _ _ _ _ rfl)
      | starts known workflowStep fields maxAttempts controlEpoch hk hnone hstep => exact .inr ⟨hnone, hstep ▸ hx.2⟩
    refine ⟨fun row hrow => ?_, hcame⟩
    obtain ⟨row', hrow'⟩ := Option.isSome_iff_exists.mp
      (Jobs.isSome_apply (r := r) op (show (u.jobs.lookup runId).isSome by rw [hrow]; rfl))
    rcases hcame row' hrow' with ⟨row₀, hrow₀, hstep⟩ | ⟨hnone, -⟩
    · cases hrow.symm.trans hrow₀
      exact ⟨row', hrow', hstep⟩
    · rw [hrow] at hnone
      cases hnone
  | _ => exact .of_eq rfl

theorem stays_along {l : List Write} (hl : Along (World.Lawful lw) u l) (hspares : ∀ x ∈ l, x.Spares runId) :
    World.Stays runId u (replay u l) := by
  induction l generalizing u with
  | nil => exact .of_eq rfl
  | cons x l ih =>
    exact (stays_apply hl.1 (hspares x List.mem_cons_self)).trans (ih hl.2 fun y hy => hspares y (List.mem_cons_of_mem _ hy))

/-- Records that may not move a job spare every run. -/
theorem spares_of_lawful {l : List Write} (hl : Along (World.Lawful lw) u l) (hmoves : ¬ lw.moves) :
    ∀ x ∈ l, x.Spares runId := by
  have hspares : Along (fun _ x => Write.Spares runId x) u l := by
    refine hl.mono fun v x hx => ?_
    rintro r c workflowStep fields status rfl
    exact absurd hx.1 hmoves
  exact along_iff.mp hspares

/-- The job that a step may move, with the step that it would move it to. -/
def System.moved (s : System) : Action → Option (ℕ × String)
  | .settle _ =>
    match s.tasks.worker with
    | .settling job (.checkpoint result) => some (job.runId, result.nextStep)
    | _ => none
  | _ => none

/-- The records of a worker that settles a checkpoint. -/
theorem settle_checkpoint (r : Jobs.Readings) (job : Job ℕ) (result : Worker.CheckpointResult) (u : World) :
    (settle w r job (.checkpoint result) u).2 = [] ∨ (settle w r job (.checkpoint result) u).2 =
      [.job r (.checkpoint job.claim result.nextStep result.checkpoint result.status)] := by
  unfold settle
  dsimp only
  rw [bind_eq, onJobs_eq]
  cases (Jobs.Op.apply u.jobs r (.checkpoint job.claim result.nextStep result.checkpoint result.status)).2 with
  | ok reply => exact .inr rfl
  | error fault => exact .inl rfl

namespace System

theorem settling_of_settle {a : Action} (hmoves : a.moves = true) {p : Prog Tasks} (hp : t.Runs w a p) (u : World) :
    ∃ r job outcome, a = .settle r ∧ t.worker = .settling job outcome ∧ (p u).2 = (settle w r job outcome u).2 := by
  cases hp with
  | settle r job outcome hworker =>
    refine ⟨r, job, outcome, rfl, hworker, ?_⟩
    exact (records_bind (m := (settle w r job outcome).attempt) (fun result _ => by cases result <;> rfl) u).trans rfl
  | _ => cases hmoves

/-- A step that does not move the job of a run leaves it at its step. -/
theorem stays (hi : s.Inv) (h : System.step w s e = some s') (hmoved : ∀ p ∈ s.moved e.action, p.1 ≠ runId) :
    World.Stays runId s.world s'.world := by
  obtain ⟨p, n, hp, hworld, -⟩ := section_written h
  have hpaired : ∀ runId d, s.world.runs.get runId = some d → (Leeway.all.at e.action).torn ∨ d.Paired :=
    fun _ _ _ => .inl trivial
  have hlawful : Along (World.Lawful (Leeway.all.at e.action)) s.world (p s.world).2 :=
    (section_proceeds hp hi.sound hi.drawn hi.tasks hpaired
      (grants_of_excuses ((Leeway.Excuses.all s e.action).at e.action))).1
  rw [hworld]
  cases hmoves : e.action.moves with
  | false =>
    have hno : ¬ (Leeway.all.at e.action).moves := fun h => by
      have h : e.action.moves = true := h
      rw [hmoves] at h
      cases h
    exact stays_along (hlawful.take n) fun x hx => spares_of_lawful hlawful hno x (List.mem_of_mem_take hx)
  | true =>
    obtain ⟨r, job, outcome, ha, hworker, hrecords⟩ := settling_of_settle hmoves hp s.world
    have hspares : ∀ x ∈ (settle w r job outcome s.world).2, x.Spares runId := by
      by_cases hcheckpoint : ∃ result, outcome = .checkpoint result
      · obtain ⟨result, rfl⟩ := hcheckpoint
        have hne : job.runId ≠ runId := hmoved (job.runId, result.nextStep) (by simp only [ha, moved, hworker, Option.mem_def])
        rcases settle_checkpoint (w := w) r job result s.world with hnil | hone
        · rw [hnil]
          exact fun x hx => absurd hx List.not_mem_nil
        · rw [hone]
          intro x hx
          rw [List.mem_singleton] at hx
          subst hx
          rintro r c workflowStep fields status ⟨⟩
          exact hne
      · -- only a checkpoint moves the job
        have hfits := hi.tasks.worker
        rw [hworker] at hfits
        obtain ⟨-, d, hd, hgoes⟩ := hfits
        let lw : Leeway := { Leeway.all with works := False, moves := False }
        have hquiet : Along (World.Lawful lw) s.world (settle w r job outcome s.world).2 :=
          (requests_settle hi.sound (fun _ _ _ => .inl trivial) id (fun result hresult => hcheckpoint ⟨result, hresult⟩)
            (fun _ _ _ _ _ _ => ⟨.inl trivial, .inl trivial⟩) hd hgoes).lawful
        exact spares_of_lawful hquiet id
    exact stays_along (hlawful.take n) fun x hx => hspares x (hrecords ▸ List.mem_of_mem_take hx)

/-- A checkpoint that is settled leaves the job at its step or takes it to the next. -/
theorem moves_to (h : System.step w s e = some s') {nextStep : String} (hmoved : s.moved e.action = some (runId, nextStep))
    {row' : Job ℕ} (hrow' : s'.world.jobs.lookup runId = some row') :
    ∃ row, s.world.jobs.lookup runId = some row ∧
      (row'.workflowStep = row.workflowStep ∨ row'.workflowStep = nextStep) := by
  obtain ⟨p, n, hp, hworld, -⟩ := section_written h
  have hmoves : e.action.moves = true := by
    cases ha : e.action with
    | settle => rfl
    | _ => rw [ha] at hmoved; cases hmoved
  obtain ⟨r, job, outcome, ha, hworker, hrecords⟩ := settling_of_settle hmoves hp s.world
  rw [ha] at hmoved
  simp only [moved, hworker] at hmoved
  cases outcome with
  | checkpoint result =>
    cases hmoved
    rw [hworld, hrecords] at hrow'
    have hsame : s.world.jobs.lookup job.runId = some row' → ∃ row, s.world.jobs.lookup job.runId = some row ∧
        (row'.workflowStep = row.workflowStep ∨ row'.workflowStep = result.nextStep) := fun h => ⟨row', h, .inl rfl⟩
    rcases settle_checkpoint (w := w) r job result s.world with hnil | hone
    · rw [hnil, List.take_nil] at hrow'
      exact hsame hrow'
    · rw [hone] at hrow'
      cases n with
      | zero => exact hsame hrow'
      | succ n =>
        rw [List.take_succ_cons, List.take_nil] at hrow'
        cases Jobs.steps_apply (Jobs.Op.checkpoint job.claim result.nextStep result.checkpoint result.status)
          (show (Jobs.Op.apply s.world.jobs r _).1.lookup job.runId = some row' from hrow') with
        | keeps _ hj hstep => exact ⟨_, hj, .inl hstep⟩
        | moves c workflowStep fields status hc hj hstep => exact ⟨_, hj, .inr hstep⟩
  | _ => cases hmoved

end System

/-! ### Turns of the handler -/

/-- Every turn that the program comes to is as `P` says. -/
def Gives (P : Turn → Prop) (m : Prog Turn) : Prop := ∀ u turn, (m u).1 = .ok turn → P turn

section Gives

variable {P : Turn → Prop} {α : Type} {m : Prog α} {k : α → Prog Turn}

theorem gives_pure {turn : Turn} (h : P turn) : Gives P (pure turn) := by
  rintro u _ ⟨⟩
  exact h

theorem gives_raise (f : Fault) : Gives P (raise f) := by
  rintro u _ ⟨⟩

theorem gives_bind (hk : ∀ a, Gives P (k a)) : Gives P (m >>= k) := by
  intro u turn h
  obtain ⟨a, -, hturn⟩ := value_bind_eq_ok h
  exact hk a _ turn hturn

theorem gives_checkpoint {nextStep : String} {waiting : Bool} {fields : Fields}
    (h : ∀ result : Worker.CheckpointResult, result.nextStep = nextStep → P (.returns (.checkpoint result))) :
    Gives P (checkpoint nextStep waiting fields) := by
  unfold checkpoint
  split
  · exact gives_raise _
  · exact gives_pure (h _ rfl)

/-- A section of the handler, which reads the run first. -/
theorem gives_read_run {k : RunData → Prog Turn} (hcomplete : P (.returns .complete)) (hk : ∀ d, Gives P (k d)) :
    Gives P (do
      let w ← read
      match w.runs.get runId with
      | none => complete
      | some d => k d) := by
  refine gives_bind fun u => ?_
  cases u.runs.get runId with
  | none => exact gives_pure hcomplete
  | some d => exact hk d

end Gives

/-- The turns of a handler that starts at a step. -/
def Turn.Starts (workflowStep : String) : Turn → Prop
  | .yields .profiling => ¬ Trains workflowStep
  | .yields (.queueing .resolve) | .yields (.queueing .train) => Trains workflowStep
  | .returns (.checkpoint result) => result.nextStep = workflowStep
  | .returns .complete => True
  | _ => False

theorem gives_startHandler (job : Job ℕ) : Gives (Turn.Starts job.workflowStep) (startHandler job) := by
  refine gives_read_run trivial fun d => ?_
  have hwork : Gives (Turn.Starts job.workflowStep) (
      if job.workflowStep = "PROFILE" then do
        datasetPath d.run
        pure (Turn.yields .profiling)
      else if job.workflowStep = "RESOLVE_TASK" then pure (Turn.yields (.queueing .resolve))
      else if job.workflowStep = "TRAIN" then do
        datasetPath d.run
        pure (Turn.yields (.queueing .train))
      else raise (.runtime "RuntimeError")) := by
    split
    · rename_i hprofile
      exact gives_bind fun _ => gives_pure (by simp [Turn.Starts, Trains, hprofile])
    · split
      · rename_i hresolve
        exact gives_pure (.inl hresolve)
      · split
        · rename_i htrain
          exact gives_bind fun _ => gives_pure (.inr htrain)
        · exact gives_raise _
  cases d.run.status with
  | terminal | waitingApproval => exact gives_pure trivial
  | paused | waitingUser => exact gives_checkpoint fun result hresult => hresult
  | queued | running => exact hwork

/-- The turns of a handler past the profile. -/
def Turn.Advances : Turn → Prop
  | .yields .training | .yields (.publishing _) | .returns .complete => True
  | .returns (.checkpoint result) => Trains result.nextStep
  | _ => False

theorem gives_published (pending : Option PendingResult) : Gives Turn.Advances (published pending) := by
  cases pending <;> exact gives_pure trivial

theorem gives_enter (r : Jobs.Readings) (job : Job ℕ) {entry : Entry} (hentry : ∀ columns, entry ≠ .profiled columns) :
    Gives Turn.Advances (enter w r job entry) := by
  have hto : ∀ {nextStep : String} {waiting : Bool} {fields : Fields}, Trains nextStep →
      Gives Turn.Advances (checkpoint nextStep waiting fields) :=
    fun ht => gives_checkpoint fun result hresult => show Trains result.nextStep from hresult ▸ ht
  cases entry with
  | profiled columns => exact absurd rfl (hentry columns)
  | resolve =>
    refine gives_read_run trivial fun d => ?_
    split
    · exact gives_pure trivial
    refine gives_bind fun current => ?_
    cases d.run.pendingCommandId with
    | none => exact hto (.inr rfl)
    | some commandId => exact gives_bind fun _ => hto (.inr rfl)
  | train =>
    refine gives_read_run trivial fun d => ?_
    split
    · exact gives_pure trivial
    split
    · exact hto (.inr rfl)
    · exact gives_bind fun _ => gives_pure trivial
  | positiveClass classes => exact gives_bind fun d => gives_bind fun _ => hto (.inl rfl)
  | engineError code => exact gives_read_run trivial fun d => gives_bind fun _ => gives_pure trivial
  | trained result =>
    refine gives_bind fun _ => gives_read_run trivial fun d => ?_
    split
    · exact gives_pure trivial
    split
    · exact hto (.inr rfl)
    · exact gives_bind fun pending => gives_published pending

/-! ### What the tasks know -/

/-- The run is ready, and its job past the profile. -/
def World.Prepared (u : World) (runId : ℕ) : Prop := u.Trained runId ∧ ∃ d, u.runs.get runId = some d ∧ d.run.Ready

/-- The job is at the step that the worker has read. -/
def World.At (u : World) (job : Job ℕ) : Prop :=
  ∃ row, u.jobs.lookup job.runId = some row ∧ row.workflowStep = job.workflowStep

/-- What the worker knows of the run that it is at. -/
def WorkerState.Informed (u : World) : WorkerState → Prop
  | .handling job .fresh => u.At job
  | .handling job .profiling | .handling job (.queueing (.profiled _)) => u.At job ∧ ¬ Trains job.workflowStep
  | .handling job _ => u.Prepared job.runId
  | .settling job (.checkpoint result) => (u.Trained job.runId → Trains result.nextStep) ∧
      (Trains result.nextStep → ∃ d, u.runs.get job.runId = some d ∧ d.Cleared)
  | _ => True

/-- What the worker and the training thread know. -/
structure Tasks.Informed (u : World) (t : Tasks) : Prop where
  worker : t.worker.Informed u
  thread : ∀ thread ∈ t.thread, u.Prepared thread.job.runId

/-- Every run past its profile is ready, has ended or waits for the answer, and the tasks know it. -/
structure System.Informed (s : System) : Prop where
  trained : ∀ runId d, s.world.runs.get runId = some d → s.world.Trained runId → d.Cleared
  untrained : ∀ runId d, s.world.runs.get runId = some d → ¬ s.world.Trained runId → d.result.isSome →
    d.run.status = .terminal
  tasks : s.tasks.Informed s.world

theorem World.Stays.trained (h : World.Stays runId u v) : v.Trained runId ↔ u.Trained runId := by
  constructor
  · rintro ⟨row', hrow', htrains⟩
    rcases h.came row' hrow' with ⟨row, hrow, hstep⟩ | ⟨-, hfresh⟩
    · exact ⟨row, hrow, hstep ▸ htrains⟩
    · exact absurd htrains hfresh
  · rintro ⟨row, hrow, htrains⟩
    obtain ⟨row', hrow', hstep⟩ := h.kept row hrow
    exact ⟨row', hrow', hstep ▸ htrains⟩

theorem World.At.stays {job : Job ℕ} (h : u.At job) (hstays : World.Stays job.runId u v) : v.At job := by
  obtain ⟨row, hrow, hstep⟩ := h
  obtain ⟨row', hrow', hstep'⟩ := hstays.kept row hrow
  exact ⟨row', hrow', hstep'.trans hstep⟩

theorem World.At.trained {job : Job ℕ} (h : u.At job) : u.Trained job.runId ↔ Trains job.workflowStep := by
  obtain ⟨row, hrow, hstep⟩ := h
  constructor
  · rintro ⟨row', hrow', htrains⟩
    cases hrow.symm.trans hrow'
    exact hstep ▸ htrains
  · exact fun htrains => ⟨row, hrow, hstep ▸ htrains⟩

namespace System

/-- A step that works on a run past its profile finds it ready. -/
theorem Informed.prepared (hinformed : s.Informed) (h : System.step w s e = some s') (hworks : e.action.works)
    (habout : s.tasks.about e.action = some runId) (htrained : s.world.Trained runId) :
    s.world.Prepared runId ∧ s.takesProfile e.action = false := by
  obtain ⟨p, -, hp, -⟩ := section_written h
  have hworker := hinformed.tasks.worker
  have hthread := hinformed.tasks.thread
  generalize e.action = a at *
  cases hp with
  | start => cases habout
  | enter r job entry hat =>
    simp only [Tasks.about, hat, Option.some.injEq] at habout
    subst habout
    rw [hat] at hworker
    cases entry with
    | profiled columns => exact absurd (hworker.1.trained.mp htrained) hworker.2
    | _ => exact ⟨hworker, by simp only [takesProfile, hat]⟩
  | resultStored r stored job pending hat =>
    simp only [Tasks.about, hat, Option.some.injEq] at habout
    subst habout
    rw [hat] at hworker
    exact ⟨hworker, rfl⟩
  | publish job stage call hat =>
    simp only [Tasks.about, hat, Option.map_some, Option.some.injEq] at habout
    subst habout
    exact ⟨hthread _ hat, rfl⟩
  | splitStored stored job stage call pending hat =>
    simp only [Tasks.about, hat, Option.map_some, Option.some.injEq] at habout
    subst habout
    exact ⟨hthread _ hat, rfl⟩
  | _ => cases hworks

/-- What could come back after its end is past its profile. -/
theorem Informed.trained_of_revives (hinformed : s.Informed) {a : Action} (hrevives : s.revivesEnded a)
    (habout : s.tasks.about a = some runId) : s.world.Trained runId := by
  unfold revivesEnded at hrevives
  split at hrevives
  · split at hrevives
    · rename_i job classes hat
      have hworker := hinformed.tasks.worker
      rw [hat] at hworker
      simp only [Tasks.about, hat, Option.some.injEq] at habout
      exact habout ▸ hworker.1
    · cases hrevives
  · cases hat : s.tasks.thread with
    | none =>
      rw [hat] at hrevives
      cases hrevives
    | some thread =>
      simp only [Tasks.about, hat, Option.map_some, Option.some.injEq] at habout
      exact habout ▸ (hinformed.tasks.thread thread hat).1
  · cases hrevives

theorem row_kept (hi : s.Inv) (h : System.step w s e = some s') (hrow : (s.world.jobs.lookup runId).isSome) :
    (s'.world.jobs.lookup runId).isSome := by
  rw [(System.writes hi h).world]
  exact replay_keeps (P := fun u : World => (u.jobs.lookup runId).isSome) (fun _ x _ hu => row_apply x hu) hrow

/-- The worker of a step that moves a job. -/
theorem settling_of_moved {a : Action} {nextStep : String} (h : s.moved a = some (runId, nextStep)) :
    a.closes = false ∧ a.works = false ∧ ∃ job result, s.tasks.worker = .settling job (.checkpoint result) ∧
      job.runId = runId ∧ result.nextStep = nextStep := by
  unfold moved at h
  split at h
  · split at h
    · rename_i job result hworker
      cases h
      exact ⟨rfl, rfl, job, result, hworker, rfl, rfl⟩
    · cases h
  · cases h

/-- A step leaves every run as it has to be for its job. -/
theorem Informed.runs_step (hinformed : s.Informed) (hi : s.Inv) (h : System.step w s e = some s')
    (hspares : s.strands e = false) (hd' : s'.world.runs.get runId = some d') :
    (s'.world.Trained runId → d'.Cleared) ∧ (¬ s'.world.Trained runId → d'.result.isSome → d'.run.status = .terminal) := by
  have hcleared : ∀ d, s.world.runs.get runId = some d → d.Cleared →
      (s.world.Trained runId ∨ (e.action.closes = false ∧ e.action.works = false)) → d'.Cleared := by
    intro d hd hcleared htrained
    have hready : e.action.works → s.tasks.about e.action = some runId → d.run.Ready ∧ s.takesProfile e.action = false := by
      intro hworks habout
      have htrained := htrained.resolve_right fun hidle => by rw [hidle.2] at hworks; cases hworks
      obtain ⟨⟨-, d₀, hd₀, hready⟩, htakes⟩ := hinformed.prepared h hworks habout htrained
      cases hd.symm.trans hd₀
      exact ⟨hready, htakes⟩
    have hdies : e.action.closes → e.dies → s.world.Trained runId ∧ s.strands e = false := by
      intro hcloses _
      exact ⟨htrained.resolve_right (fun hidle => by rw [hidle.1] at hcloses; cases hcloses), hspares⟩
    obtain ⟨d₁, hd₁, hkept⟩ := cleared_kept hi h hd hcleared hready hdies
    cases hd'.symm.trans hd₁
    exact hkept
  have hclosed : ¬ s.world.Trained runId → d'.result.isSome → d'.run.status = .terminal := by
    intro huntrained
    refine closed_kept hi h (fun d hd => hinformed.untrained runId d hd huntrained) (fun habout => ?_) hd'
    by_contra hrevives
    exact huntrained (hinformed.trained_of_revives (by simpa using hrevives) habout)
  have hrun : s.world.Trained runId → ∃ d, s.world.runs.get runId = some d := by
    rintro ⟨row, hrow, -⟩
    obtain ⟨-, d, hd, -⟩ := hi.sound.rows runId row hrow
    exact ⟨d, hd⟩
  have hstill : s.world.Trained runId → d'.Cleared := fun htrained => by
    obtain ⟨d, hd⟩ := hrun htrained
    exact hcleared d hd (hinformed.trained runId d hd htrained) (.inl htrained)
  by_cases hmoved : ∃ nextStep, s.moved e.action = some (runId, nextStep)
  · obtain ⟨nextStep, hmoved⟩ := hmoved
    obtain ⟨hcloses, hworks, job, result, hworker, rfl, rfl⟩ := settling_of_moved hmoved
    have hknown := hinformed.tasks.worker
    have hfits := hi.tasks.worker
    rw [hworker] at hknown hfits
    obtain ⟨row', hrow'⟩ := Option.isSome_iff_exists.mp (row_kept hi h hfits.1)
    obtain ⟨row, hrow, hstep⟩ := moves_to h hmoved hrow'
    constructor
    · rintro ⟨row₁, hrow₁, htrains⟩
      cases hrow'.symm.trans hrow₁
      rcases hstep with hsame | hnext
      · exact hstill ⟨row, hrow, hsame ▸ htrains⟩
      · obtain ⟨d, hd, hc⟩ := hknown.2 (hnext ▸ htrains)
        exact hcleared d hd hc (.inr ⟨hcloses, hworks⟩)
    · refine fun huntrained => hclosed fun htrained => huntrained ?_
      have hnext := hknown.1 htrained
      obtain ⟨row₀, hrow₀, htrains⟩ := htrained
      cases hrow.symm.trans hrow₀
      exact ⟨row', hrow', hstep.elim (fun hsame => hsame ▸ htrains) fun hnew => hnew ▸ hnext⟩
  · have hstays : World.Stays runId s.world s'.world := stays hi h fun p hp hid => hmoved ⟨p.2, hid ▸ hp⟩
    rw [hstays.trained]
    exact ⟨hstill, hclosed⟩

end System

/-- What the tasks are after a section, where it returns, or were before it. -/
def Tasks.Leaves (t : Tasks) (P : Tasks → Prop) (p : Prog Tasks) (u : World) : Prop :=
  match (p u).1 with
  | .ok t' => P t'
  | .error _ => P t

theorem leaves_then {α : Type} {P : Tasks → Prop} {m : Prog α} {k : α → Prog Tasks} (ht : P t)
    (hk : ∀ a, (m u).1 = .ok a → ∃ t', k a = pure t' ∧ P t') : t.Leaves P (m >>= k) u := by
  unfold Tasks.Leaves
  cases hm : (m u).1 with
  | ok a =>
    obtain ⟨t', hpure, ht'⟩ := hk a hm
    rw [value_bind hm, hpure]
    exact ht'
  | error f =>
    have herror : ((m >>= k) u).1 = .error f := by
      rw [bind_eq]
      cases h : m u with
      | mk result l =>
        rw [h] at hm
        cases hm
        rfl
    rw [herror]
    exact ht

theorem leaves_attempt {α : Type} {P : Tasks → Prop} {m : Prog α} {k : Except Fault α → Prog Tasks}
    (hk : ∃ t', k (m u).1 = pure t' ∧ P t') : t.Leaves P (m.attempt >>= k) u := by
  obtain ⟨t', hpure, ht'⟩ := hk
  unfold Tasks.Leaves
  rw [attempt_bind, hpure]
  exact ht'

/-- What the worker knows after a turn of its handler. -/
def Turn.Informed (u : World) (job : Job ℕ) : Turn → Prop
  | .yields place => (WorkerState.handling job place).Informed u
  | .returns outcome => (WorkerState.settling job outcome).Informed u

theorem Turn.Advances.informed {job : Job ℕ} {turn : Turn} (h : turn.Advances) (hprepared : v.Prepared job.runId) :
    turn.Informed v job := by
  obtain ⟨htrained, d, hd, hready⟩ := hprepared
  cases turn with
  | yields place =>
    cases place with
    | training | publishing => exact ⟨htrained, d, hd, hready⟩
    | fresh | profiling | queueing => cases h
  | returns outcome =>
    cases outcome with
    | checkpoint result => exact ⟨fun _ => h, fun _ => ⟨d, hd, .inl hready⟩⟩
    | _ => trivial

/-- A turn of the handler, when there is no training thread. -/
theorem leaves_handle {job : Job ℕ} {m : Prog Turn} (hthread : t.thread = none)
    (hm : ∀ turn, (m u).1 = .ok turn → turn.Informed v job) : t.Leaves (Tasks.Informed v) (t.handle job m) u := by
  have hno : ∀ thread ∈ t.thread, v.Prepared thread.job.runId := fun thread h => by rw [hthread] at h; cases h
  refine leaves_attempt ⟨_, rfl, ?_⟩
  cases hturn : (m u).1 with
  | error f =>
    refine ⟨?_, hno⟩
    show (WorkerState.settling job (Tasks.fault f)).Informed v
    unfold Tasks.fault
    split <;> trivial
  | ok turn =>
    have hknown := hm turn hturn
    cases turn with
    | returns outcome => exact ⟨hknown, hno⟩
    | yields place =>
      cases place with
      | training =>
        refine ⟨hknown, fun thread h => ?_⟩
        cases h
        exact hknown
      | _ => exact ⟨hknown, hno⟩

namespace System

/-- A run that is ready, with its job past the profile, stays so. -/
theorem prepared_kept (hi : s.Inv) (h : System.step w s e = some s') (hmoved : ∀ p ∈ s.moved e.action, p.1 ≠ runId)
    (htakes : s.takesProfile e.action = false) (hprepared : s.world.Prepared runId) : s'.world.Prepared runId := by
  obtain ⟨htrained, d, hd, hready⟩ := hprepared
  exact ⟨(stays hi h hmoved).trained.mpr htrained, ready_kept hi h hd hready fun _ => htakes⟩

theorem worker_of_takesProfile {a : Action} (h : s.takesProfile a) :
    ∃ job columns, s.tasks.worker = .handling job (.queueing (.profiled columns)) := by
  obtain ⟨job, columns, hworker, -⟩ := about_of_takesProfile h
  exact ⟨job, columns, hworker⟩

/-- Only a training thread works beside a worker that settles, and it has none. -/
theorem idle_of_settling (hi : s.Inv) (h : System.step w s e = some s') {job : Job ℕ} {outcome : Worker.Outcome}
    (hworker : s.tasks.worker = .settling job outcome) : e.action.works = false := by
  obtain ⟨p, -, hp, -⟩ := section_written h
  have hthread := hi.tasks.thread_none (by simp [hworker]) (by simp [hworker])
  generalize e.action = a at *
  cases hp with
  | start job hat => rw [hworker] at hat; cases hat
  | enter r job entry hat => rw [hworker] at hat; cases hat
  | resultStored r stored job pending hat => rw [hworker] at hat; cases hat
  | publish job stage call hat => rw [hthread] at hat; cases hat
  | splitStored stored job stage call pending hat => rw [hthread] at hat; cases hat
  | _ => rfl

/-- What the training thread knows, it knows after any step. -/
theorem Informed.thread_kept (hinformed : s.Informed) (hi : s.Inv) (h : System.step w s e = some s') :
    ∀ thread ∈ s.tasks.thread, s'.world.Prepared thread.job.runId := by
  intro thread hthread
  have hwhere := (hi.tasks.thread thread hthread).1
  refine prepared_kept hi h ?_ ?_ (hinformed.tasks.thread thread hthread)
  · rintro ⟨runId, nextStep⟩ hmoved
    obtain ⟨-, -, job, result, hworker, -, -⟩ := settling_of_moved hmoved
    rw [hworker] at hwhere
    rcases hwhere with hw | hw <;> cases hw
  · by_contra htakes
    obtain ⟨job, columns, hworker⟩ := worker_of_takesProfile (by simpa using htakes)
    rw [hworker] at hwhere
    rcases hwhere with hw | hw <;> cases hw

/-- What the worker knows, it knows after a step that leaves it where it is. -/
theorem Informed.worker_kept (hinformed : s.Informed) (hi : s.Inv) (h : System.step w s e = some s') (hlives : e.dies = false)
    (hmoved : s.moved e.action = none) (htakes : s.takesProfile e.action = false) : s.tasks.worker.Informed s'.world := by
  have hstays : ∀ runId, World.Stays runId s.world s'.world := fun runId => stays hi h (by simp [hmoved])
  have hprepared : ∀ {runId : ℕ}, s.world.Prepared runId → s'.world.Prepared runId := fun hp =>
    prepared_kept hi h (by simp [hmoved]) htakes hp
  have hknown := hinformed.tasks.worker
  cases hworker : s.tasks.worker with
  | handling job place =>
    rw [hworker] at hknown
    cases place with
    | fresh => exact World.At.stays hknown (hstays _)
    | profiling => exact ⟨World.At.stays hknown.1 (hstays _), hknown.2⟩
    | queueing entry =>
      cases entry with
      | profiled columns => exact ⟨World.At.stays hknown.1 (hstays _), hknown.2⟩
      | _ => exact hprepared hknown
    | training | publishing => exact hprepared hknown
  | settling job outcome =>
    rw [hworker] at hknown
    cases outcome with
    | checkpoint result =>
      refine ⟨fun htrained => hknown.1 ((hstays _).trained.mp htrained), fun htrains => ?_⟩
      obtain ⟨d, hd, hcleared⟩ := hknown.2 htrains
      refine cleared_kept hi h hd hcleared (fun hworks _ => ?_) fun _ hdies => ?_
      · rw [idle_of_settling hi h hworker] at hworks
        cases hworks
      · rw [hlives] at hdies
        cases hdies
    | _ => trivial
  | off | idle | ended => trivial

end System

/-- What the handler knows once it has started. -/
theorem informed_start (hi : s.Inv) (hinformed : s.Informed) (h : System.step w s e = some s') {job : Job ℕ}
    (haction : e.action = .start) (hworker : s.tasks.worker = .handling job .fresh) {turn : Turn}
    (hturn : (startHandler job s.world).1 = .ok turn) : turn.Informed s'.world job := by
  have hstays : World.Stays job.runId s.world s'.world := System.stays hi h (by simp [haction, System.moved])
  have hsame : s'.world.runs.get job.runId = s.world.runs.get job.runId := System.untouched_start h haction
  have hat := hinformed.tasks.worker
  have hfits := hi.tasks.worker
  rw [hworker] at hat hfits
  have hat : s.world.At job := hat
  obtain ⟨hrow, d, hd, hholds⟩ := hfits
  have hstarts := gives_startHandler job s.world turn hturn
  have hcleared : Trains job.workflowStep → d.Cleared := fun htrains =>
    hinformed.trained job.runId d hd (hat.trained.mpr htrains)
  have hready : ∀ place, turn = .yields place → Trains job.workflowStep → s'.world.Prepared job.runId := by
    intro place hplace htrains
    have hdoes : Does .all job.runId (startHandler job) d _ := does_startHandler rfl hholds.step
    obtain ⟨d', -, -, hpost⟩ := (hdoes s.world hd fun _ => hrow).2
    have hs := (hpost turn hturn).2.2 place hplace
    refine ⟨hstays.trained.mpr (hat.trained.mpr htrains), d, hsame.trans hd, ?_⟩
    rcases hcleared htrains with hready | hended | ⟨hwaits, -⟩
    · exact hready
    · rcases hs with hs | hs <;> simp [hs] at hended
    · rcases hs with hs | hs <;> simp [hs] at hwaits
  cases turn with
  | yields place =>
    cases place with
    | profiling => exact ⟨hat.stays hstays, hstarts⟩
    | queueing entry =>
      cases entry with
      | resolve | train => exact hready _ rfl hstarts
      | _ => cases hstarts
    | fresh | training | publishing => cases hstarts
  | returns outcome =>
    cases outcome with
    | checkpoint result =>
      have hstep : result.nextStep = job.workflowStep := hstarts
      refine ⟨fun htrained => hstep ▸ hat.trained.mp (hstays.trained.mp htrained), fun htrains => ?_⟩
      exact ⟨d, hsame.trans hd, hcleared (hstep ▸ htrains)⟩
    | _ => trivial

/-- What the handler knows once it has taken up a profile. -/
theorem informed_profiled (hi : s.Inv) (hinformed : s.Informed) {job : Job ℕ} {columns : List String}
    (hworker : s.tasks.worker = .handling job (.queueing (.profiled columns)))
    (hstays : World.Stays job.runId s.world ((profiled job.runId columns).final s.world)) {turn : Turn}
    (hturn : (profiled job.runId columns s.world).1 = .ok turn) :
    turn.Informed ((profiled job.runId columns).final s.world) job := by
  have hknown := hinformed.tasks.worker
  have hfits := hi.tasks.worker
  rw [hworker] at hknown hfits
  obtain ⟨hat, hstep⟩ := hknown
  obtain ⟨hrow, d, hd, hholds⟩ := hfits
  have huntrained : ¬ s.world.Trained job.runId := fun htrained => hstep (hat.trained.mp htrained)
  have hworking : d.run.status ≠ .terminal → Working .all d := fun hlive =>
    (hholds.busy.resolve_left nofun).working (hi.sound.runs _ d hd).1 (.inl trivial) (.inr hlive) fun _ => .inl trivial
  obtain ⟨d', hd', -, hpost⟩ := (does_profiled hworking trivial trivial trivial (fun _ => .inl trivial) columns s.world hd
    fun _ => hrow).2
  obtain ⟨-, outcome, rfl, hcleared⟩ := hpost turn hturn
  cases outcome with
  | checkpoint result =>
    refine ⟨fun htrained => absurd (hstays.trained.mp htrained) huntrained, fun _ => ⟨d', hd', ?_⟩⟩
    exact hcleared result rfl (hinformed.untrained job.runId d hd huntrained)
  | _ => trivial

/-- What the tasks know after a section that ends. -/
theorem informed_section {a : Action} {p : Prog Tasks} (hi : s.Inv) (hinformed : s.Informed)
    (h : System.step w s (.act a) = some s') (hp : s.tasks.Runs w a p) (hworld : s'.world = p.final s.world) :
    s.tasks.Leaves (Tasks.Informed s'.world) p s.world := by
  have hthread := hinformed.thread_kept hi h
  have hstill : s.moved a = none → s.takesProfile a = false → s.tasks.Informed s'.world := fun hmoved htakes =>
    ⟨hinformed.worker_kept hi h rfl hmoved htakes, hthread⟩
  have hinthread : ∀ {job : Job ℕ}, s'.world.Prepared job.runId → s.tasks.worker.Informed s'.world →
      ∀ thread : Thread, thread.job = job → Tasks.Informed s'.world { s.tasks with thread := some thread } := by
    rintro _ hjob hworker thread rfl
    refine ⟨hworker, fun thread' hmem => ?_⟩
    cases hmem
    exact hjob
  have hknown := hinformed.tasks.worker
  cases hp with
  | createDataset => exact leaves_then (hstill rfl rfl) fun _ _ => ⟨_, rfl, hstill rfl rfl⟩
  | createRun => exact leaves_then (hstill rfl rfl) fun _ _ => ⟨_, rfl, hstill rfl rfl⟩
  | answer => exact leaves_then (hstill rfl rfl) fun _ _ => ⟨_, rfl, hstill rfl rfl⟩
  | control => exact leaves_then (hstill rfl rfl) fun _ _ => ⟨_, rfl, hstill rfl rfl⟩
  | decide => exact leaves_then (hstill rfl rfl) fun _ _ => ⟨_, rfl, hstill rfl rfl⟩
  | startFinalize tenantId request =>
    refine leaves_then (hstill rfl rfl) fun goesOn _ => ⟨_, rfl, ?_⟩
    cases goesOn <;> exact ⟨(hstill rfl rfl).worker, hthread⟩
  | endFinalize => exact leaves_attempt ⟨_, rfl, (hstill rfl rfl).worker, hthread⟩
  | startDeletion => exact leaves_then (hstill rfl rfl) fun _ _ => ⟨_, rfl, (hstill rfl rfl).worker, hthread⟩
  | continueDeletion index r ok task htask =>
    refine leaves_then (hstill rfl rfl) fun rest _ => ?_
    cases rest <;> exact ⟨_, rfl, (hstill rfl rfl).worker, hthread⟩
  | boot r hat =>
    refine leaves_then (hstill rfl rfl) fun _ _ => ⟨_, rfl, trivial, fun thread hmem => ?_⟩
    cases hmem
  | claim r hat =>
    refine leaves_attempt ?_
    cases hreply : (onJobs r (.claim w.workerId w.leaseSeconds) s.world).1 with
    | error f => exact ⟨_, rfl, trivial, hthread⟩
    | ok reply =>
      cases reply with
      | none => exact ⟨_, rfl, hstill rfl rfl⟩
      | some job =>
        obtain ⟨hok, hfinal⟩ := onJobs_eq_ok hreply
        refine ⟨_, rfl, ⟨job, ?_, rfl⟩, hthread⟩
        have hrecords : s'.world = (onJobs r (.claim w.workerId w.leaseSeconds)).final s.world := by
          rw [hworld, final, final]
          refine congrArg _ (records_bind (m := (onJobs r (.claim w.workerId w.leaseSeconds)).attempt) (fun reply _ => ?_) _)
          rcases reply with f | (_ | job) <;> rfl
        rw [hrecords, hfinal]
        exact Jobs.lookup_of_claimed hok
  | start job hat =>
    have hnone := hi.tasks.thread_none (by simp [hat]) (by simp [hat])
    exact leaves_handle hnone fun turn hturn => informed_start hi hinformed h rfl hat hturn
  | profileRead job profile hat =>
    rw [hat] at hknown
    have hplace := (hstill rfl rfl).worker
    rw [hat] at hplace
    cases profile with
    | ok columns => exact ⟨hplace, hthread⟩
    | error message => exact ⟨trivial, hthread⟩
  | enter r job entry hat =>
    have hnone := hi.tasks.thread_none (by simp [hat]) (by simp [hat])
    refine leaves_handle hnone fun turn hturn => ?_
    by_cases hprofiled : ∃ columns, entry = .profiled columns
    · obtain ⟨columns, rfl⟩ := hprofiled
      have hrecords : s'.world = (profiled job.runId columns).final s.world := by
        rw [hworld, final, final]
        exact congrArg _ (records_bind (m := (profiled job.runId columns).attempt) (fun _ _ => rfl) _)
      have hstays : World.Stays job.runId s.world s'.world := System.stays hi h (by simp [System.Event.action, System.moved])
      rw [hrecords] at hstays ⊢
      exact informed_profiled hi hinformed hat hstays hturn
    · have hentry : ∀ columns, entry ≠ .profiled columns := fun columns heq => hprofiled ⟨columns, heq⟩
      have htakes : s.takesProfile (.enter r) = false := by
        cases entry with
        | profiled columns => exact absurd rfl (hentry columns)
        | _ => simp only [System.takesProfile, hat]
      rw [hat] at hknown
      have hprepared : s.world.Prepared job.runId := by
        cases entry with
        | profiled columns => exact absurd rfl (hentry columns)
        | _ => exact hknown
      have hprepared' : s'.world.Prepared job.runId :=
        System.prepared_kept hi h (by simp [System.Event.action, System.moved]) htakes hprepared
      exact (gives_enter r job hentry s.world turn hturn).informed hprepared'
  | resultStored r stored job pending hat =>
    have hnone := hi.tasks.thread_none (by simp [hat]) (by simp [hat])
    refine leaves_handle hnone fun turn hturn => ?_
    rw [hat] at hknown
    have hprepared : s'.world.Prepared job.runId :=
      System.prepared_kept hi h (by simp [System.Event.action, System.moved]) rfl hknown
    exact (gives_bind (fun pending => gives_published pending) s.world turn hturn).informed hprepared
  | settle r job outcome hat =>
    refine leaves_attempt ?_
    cases (settle w r job outcome s.world).1 <;> exact ⟨_, rfl, trivial, hthread⟩
  | heartbeat r job hat =>
    refine leaves_attempt ?_
    cases (onJobs r (.renew job.claim w.leaseSeconds) s.world).1 with
    | ok _ => exact ⟨_, rfl, hstill rfl rfl⟩
    | error f =>
      refine ⟨_, rfl, ?_, hthread⟩
      dsimp only
      split <;> trivial
  | stopIdle r hat => exact ⟨trivial, hthread⟩
  | stop r job hat => exact leaves_attempt ⟨_, rfl, trivial, hthread⟩
  | callback r call job stage hat =>
    have hthen := hinthread (hthread _ hat) (hstill rfl rfl).worker
    refine leaves_attempt ?_
    cases (onJobs r (.renew job.claim w.leaseSeconds) s.world).1 with
    | ok _ => exact ⟨_, rfl, hthen ⟨job, stage, .queueing call⟩ rfl⟩
    | error f => exact ⟨_, rfl, hthen ⟨job, .broken f, .idle⟩ rfl⟩
  | publish job stage call hat =>
    have hthen := hinthread (hthread _ hat) (hstill rfl rfl).worker
    refine leaves_attempt ?_
    rcases (publishStage job.runId call s.world).1 with f | (_ | pending)
    · exact ⟨_, rfl, hthen ⟨job, .broken f, .idle⟩ rfl⟩
    · exact ⟨_, rfl, hthen ⟨job, call.reached, .idle⟩ rfl⟩
    · exact ⟨_, rfl, hthen ⟨job, stage, .storing call pending⟩ rfl⟩
  | splitStored stored job stage call pending hat =>
    have hthen := hinthread (hthread _ hat) (hstill rfl rfl).worker
    let m : Prog (Option PendingSplit) := do
      resumeStage job.runId pending stored
      pure none
    refine leaves_attempt (m := m) ?_
    rcases (m s.world).1 with f | (_ | pending')
    · exact ⟨_, rfl, hthen ⟨job, .broken f, .idle⟩ rfl⟩
    · exact ⟨_, rfl, hthen ⟨job, call.reached, .idle⟩ rfl⟩
    · exact ⟨_, rfl, hthen ⟨job, stage, .storing call pending'⟩ rfl⟩
  | threadEnds ending job stage hat =>
    have hjob : s'.world.Prepared job.runId := hthread _ hat
    refine ⟨?_, fun thread hmem => by cases hmem⟩
    rcases (hi.tasks.thread _ hat).1 with hw | hw
    · rw [hw]
      trivial
    · rw [hw]
      cases ending with
      | raises =>
        cases stage with
        | broken f =>
          show (WorkerState.settling _ (Tasks.fault f)).Informed s'.world
          unfold Tasks.fault
          split <;> trivial
        | _ => trivial
      | _ => exact hjob

theorem System.informed_init : System.init.Informed where
  trained := by
    intro runId d hd
    cases hd
  untrained := by
    intro runId d hd
    cases hd
  tasks := ⟨trivial, fun _ hthread => by cases hthread⟩

/-- A step that strands no run leaves every run as it has to be for its job, and the tasks know it. -/
theorem System.informed_step (hi : s.Inv) (hinformed : s.Informed) (h : System.step w s e = some s')
    (hspares : s.strands e = false) : s'.Informed := by
  refine ⟨fun runId d hd => (hinformed.runs_step hi h hspares hd).1, fun runId d hd => (hinformed.runs_step hi h hspares hd).2, ?_⟩
  cases System.steps h with
  | act hp =>
    have hafter := informed_section hi hinformed h (section_runs hp) rfl
    unfold Tasks.Leaves at hafter
    dsimp only
    split
    · rename_i t hr
      rw [hr] at hafter
      exact hafter
    · rename_i f hr
      rw [hr] at hafter
      exact hafter
  | crash => exact ⟨trivial, fun _ hmem => by cases hmem⟩

theorem System.informed_run {es : List System.Event}
    (h : Runs.Run (System.step w) (fun s e => s.strands e = false) System.init es s) : s.Informed :=
  h.invariant_of (J := System.Inv) (fun _ _ _ hi _ hstep => System.inv_step hi hstep)
    (fun _ _ _ hi hinformed hspares hstep => System.informed_step hi hinformed hstep hspares) System.inv_init
    System.informed_init

/-! ### Where the inputs come from -/

/-- The inputs of a run after a step: those that it had, or those of its request, or those that
an answer gives it. -/
inductive System.InputsFrom (s : System) (e : System.Event) (runId : ℕ) (d' : RunData) : Prop
  | kept (d : RunData) (hd : s.world.runs.get runId = some d) (h : d'.run.resolvedInputs = d.run.resolvedInputs)
  | requested (r : Jobs.Readings) (tenantId : String) (request : RunRequest) (admitted : Except Problem Unit)
      (he : e.action = .createRun r tenantId request admitted) (hnone : s.world.runs.get runId = none)
      (h : d'.run.resolvedInputs = request.objective)
  | answered (r : Jobs.Readings) (tenantId : String) (request : AnswerRequest) (d : RunData)
      (he : e.action = .answer r tenantId runId request) (hd : s.world.runs.get runId = some d)
      (haccepts : d.Accepts tenantId request) (h : resolveAnswers d.run request.answers = .ok d'.run.resolvedInputs)

theorem request_of_creates {a : Action} {request : RunRequest} {tenantId : String} (h : a.creates request tenantId) :
    ∃ r admitted, a = .createRun r tenantId request admitted := by
  cases a with
  | createRun r tenantId' request' admitted =>
    obtain ⟨rfl, rfl⟩ := h
    exact ⟨r, admitted, rfl⟩
  | _ => exact h.elim

theorem System.inputs_step (hi : s.Inv) (h : System.step w s e = some s') (hd' : s'.world.runs.get runId = some d') :
    s.InputsFrom e runId d' := by
  cases hanswers : e.action.answers with
  | false =>
    have hquiet : ∀ {d : RunData} {c : Change}, Lawful (Leeway.all.at e.action) d c →
        (d.apply c).run.resolvedInputs = d.run.resolvedInputs := by
      intro d c hc
      refine (inputs_apply hc).resolve_right fun hanswered => ?_
      have hyes : e.action.answers = true := hanswered.1
      rw [hanswers] at hyes
      cases hyes
    cases hd : s.world.runs.get runId with
    | some d =>
      obtain ⟨d₁, hd₁, hkept⟩ := System.step_climbs .all (R := fun d d' => d'.run.resolvedInputs = d.run.resolvedInputs)
        h hi (Leeway.Excuses.all s e.action) trivial (fun _ => rfl) (fun _ _ _ h h' => h'.trans h) (fun _ hc => hquiet hc) hd
      cases hd'.symm.trans hd₁
      exact .kept d hd hkept
    | none =>
      let I : World → Prop := fun u => ∀ d, u.runs.get runId = some d →
        ∃ request tenantId, e.action.creates request tenantId ∧ d.run.resolvedInputs = request.objective
      have hpaired : ∀ runId d, s.world.runs.get runId = some d → (Leeway.all.at e.action).torn ∨ d.Paired :=
        fun _ _ _ => .inl trivial
      have hkeeps : ∀ u x, I u → World.Lawful (Leeway.all.at e.action) u x → I (u.apply x) := by
        intro u x hu hx d hd
        rcases run_before hx hd with ⟨hsame, -⟩ | ⟨request, tenantId, -, hcreates, rfl⟩ | ⟨c, drawsId, d₀, -, hd₀, hc, rfl⟩
        · exact hu d hsame
        · exact ⟨request, tenantId, hcreates, rfl⟩
        · obtain ⟨request, tenantId, hcreates, hinputs⟩ := hu d₀ hd₀
          exact ⟨request, tenantId, hcreates, (hquiet hc).trans hinputs⟩
      have hnone : I s.world := fun d hd₀ => by
        rw [hd] at hd₀
        cases hd₀
      have hcreated : I s'.world :=
        (System.writes hi h).keeps hpaired (grants_of_excuses ((Leeway.Excuses.all s e.action).at e.action)) hkeeps hnone
      obtain ⟨request, tenantId, hcreates, hinputs⟩ := hcreated d' hd'
      obtain ⟨r, admitted, he⟩ := request_of_creates hcreates
      exact .requested r tenantId request admitted he hd hinputs
  | true =>
    obtain ⟨p, n, hp, hworld, -⟩ := System.section_written h
    generalize ha : e.action = a at *
    cases hp with
    | answer r tenantId id request =>
      by_cases hid : runId = id
      swap
      · have hsame := System.untouched h (show s.tasks.about e.action = some id by rw [ha]; rfl) hid
        exact .kept d' (hsame.symm.trans hd') rfl
      subst hid
      rw [hworld, Tasks.request, records_bind fun _ _ => rfl] at hd'
      cases answer_cases s.world r tenantId request with
      | refused f hrefused =>
        rw [hrefused, List.take_nil] at hd'
        exact .kept d' hd' rfl
      | accepted d packet resolved l hd haccepts hfind hrevision hopen hvalid hresolved hwake hrecords =>
        rw [hrecords] at hd'
        have hissued := get_on hd (.command ⟨s.world.ids + 1, .answer, .accepted, none⟩) true
        have hclosed := get_on hissued (.packetSet packet.decisionPacketId .answered (request.waitSetRevision + 1)) false
        rcases n with _ | _ | _ | n
        · exact .kept d' hd' rfl
        · cases hissued.symm.trans hd'
          exact .kept d hd rfl
        · cases hclosed.symm.trans hd'
          exact .kept d hd rfl
        · cases (acceptance_done hd _ _ request resolved hwake n).symm.trans hd'
          exact .answered r tenantId request d ha hd haccepts hresolved
    | _ => cases hanswers

/-- What a step of a history says of a run: `holds` is true of the inputs in its request, or `tells`
of an answer to a packet of the run. -/
inductive System.Source (u : System) (e : System.Event) (v : System) (runId : ℕ) (holds : Inputs → Prop)
    (tells : Fields → Prop) : Prop
  | requested (r : Jobs.Readings) (tenantId : String) (request : RunRequest) (admitted : Except Problem Unit)
      (he : e.action = .createRun r tenantId request admitted) (hnone : u.world.runs.get runId = none)
      (hsome : (v.world.runs.get runId).isSome) (h : holds request.objective)
  | answered (r : Jobs.Readings) (tenantId : String) (request : AnswerRequest) (d : RunData)
      (he : e.action = .answer r tenantId runId request) (hd : u.world.runs.get runId = some d)
      (haccepts : d.Accepts tenantId request) (h : tells request.answers)

/-- What is said of the inputs of a run has been said in a step of the history. -/
def System.Given (w : Worker.LocalExecutionWorker) (es : List System.Event) (runId : ℕ) (holds : Inputs → Prop)
    (tells : Fields → Prop) : Prop :=
  ∃ es₁ e es₂ u v, es = es₁ ++ e :: es₂ ∧ Runs.Run (System.step w) Runs.Free System.init es₁ u ∧
    System.step w u e = some v ∧ u.Source e v runId holds tells

/-- What holds of the inputs of a run comes from its request or from an answer, if an answer that
makes it hold tells it. -/
theorem System.given {es : List System.Event} (h : Runs.Run (System.step w) Runs.Free System.init es s)
    {holds : Inputs → Prop} {tells : Fields → Prop}
    (htells : ∀ {run : Run} {answers : Fields} {resolved : Inputs}, Resolves run answers resolved → holds resolved →
      holds run.resolvedInputs ∨ tells answers)
    (hd : s.world.runs.get runId = some d) (hholds : holds d.run.resolvedInputs) : System.Given w es runId holds tells := by
  let P : System → Prop := fun s => ∃ d, s.world.runs.get runId = some d ∧ holds d.run.resolvedInputs
  have hinit : ¬ P System.init := by
    rintro ⟨d, hd, -⟩
    cases hd
  obtain ⟨es₁, e, es₂, u, v, hes, hrun, hstep, -, hno, d', hd', hyes⟩ := h.turns (P := P) hinit ⟨d, hd, hholds⟩
  refine ⟨es₁, e, es₂, u, v, hes, hrun, hstep, ?_⟩
  cases System.inputs_step (System.inv_run hrun) hstep hd' with
  | kept d₀ hd₀ hsame => exact absurd ⟨d₀, hd₀, hsame ▸ hyes⟩ hno
  | requested r tenantId request admitted he hnone hinputs =>
    exact .requested r tenantId request admitted he hnone (by rw [hd']; rfl) (hinputs ▸ hyes)
  | answered r tenantId request d₀ he hd₀ haccepts hresolved =>
    refine .answered r tenantId request d₀ he hd₀ haccepts ?_
    exact (htells (resolves_of_ok hresolved) hyes).resolve_left fun hbefore => hno ⟨d₀, hd₀, hbefore⟩

/-! ### The backend -/

/-- The step starts the training thread, in which the backend runs. -/
def System.Invokes (e : System.Event) (s' : System) (job : Job ℕ) : Prop :=
  (∃ r, e = .act (.enter r)) ∧ s'.tasks.worker = .handling job .training

/-- The backend is given a column of the profile as its target and the word on the rows, each of
which the request for the run or an accepted answer has said. -/
structure System.Confirmed (w : Worker.LocalExecutionWorker) (es : List System.Event) (runId : ℕ) (d : RunData) : Prop where
  iid : d.run.resolvedInputs.iidConfirmed = true
  target : ∃ target columns, d.run.resolvedInputs.targetColumn = some target ∧ d.run.profileColumns = some columns ∧
    target ∈ columns ∧
      System.Given w es runId (fun inputs => inputs.targetColumn = some target) fun answers =>
        answers.get "q_target" = some (.str target)
  given : System.Given w es runId (fun inputs => inputs.iidConfirmed = true) fun answers =>
    answers.get "q_iid" = some (.bool true)

/-- In a history without a crash between the packet of an answer, or of a cancel, and its run, the
backend is only invoked for a run whose target and rows are confirmed. -/
theorem training_confirmed {es : List System.Event}
    (h : Runs.Run (System.step w) (fun s e => s.strands e = false) System.init es s) (hstep : System.step w s e = some s')
    {job : Job ℕ} (hinvokes : System.Invokes e s' job) :
    ∃ d, s'.world.runs.get job.runId = some d ∧ System.Confirmed w es job.runId d := by
  obtain ⟨⟨r, rfl⟩, hworker⟩ := hinvokes
  have hi := System.inv_run h
  have hinformed := System.informed_step hi (System.informed_run h) hstep rfl
  have hknown := hinformed.tasks.worker
  rw [hworker] at hknown
  obtain ⟨-, d', hd', hready⟩ := hknown
  obtain ⟨d, hd, hsame⟩ : ∃ d, s.world.runs.get job.runId = some d ∧ d'.run.resolvedInputs = d.run.resolvedInputs := by
    cases System.inputs_step hi hstep hd' with
    | kept d hd hsame => exact ⟨d, hd, hsame⟩
    | requested r tenantId request admitted he => cases he
    | answered r tenantId request d he => cases he
  obtain ⟨target, htarget, hmem⟩ := hready.target
  have hcolumns : ∃ columns, d'.run.profileColumns = some columns ∧ target ∈ columns := by
    cases hprofile : d'.run.profileColumns with
    | none =>
      rw [hprofile] at hmem
      cases hmem
    | some columns =>
      rw [hprofile] at hmem
      exact ⟨columns, rfl, hmem⟩
  obtain ⟨columns, hprofile, hmem⟩ := hcolumns
  refine ⟨d', hd', hready.iid, ⟨target, columns, htarget, hprofile, hmem, ?_⟩, ?_⟩
  · refine System.given h.free (fun hresolves hholds => ?_) hd (hsame ▸ htarget)
    rcases hresolves.target with ⟨-, hkept⟩ | ⟨target', -, htold, hnew⟩
    · exact .inl (hkept ▸ hholds)
    · cases hnew.symm.trans hholds
      exact .inr htold
  · refine System.given h.free (fun hresolves hholds => ?_) hd (hsame ▸ hready.iid)
    rcases hresolves.iid with ⟨-, hkept⟩ | ⟨htold, -⟩
    · exact .inl (hkept ▸ hholds)
    · exact .inr htold

/-- A run without a target, up to an answer that is cut off once its packet is closed. A pause and
a resume then send the run on, and the worker takes it to its training. -/
def System.stranded : List System.Event :=
  [.act (.boot (System.second 0)), .act (.createDataset "t"), .act (.startFinalize "t" ⟨3, 1, "sha"⟩), .act (.endFinalize true),
    .act (.createRun (System.second 1) "t" ⟨3, ⟨none, true, none⟩, false⟩ (.ok ()))] ++
  System.profiling 2 ++ System.entering 3 ++
  [.crash (.answer (System.second 4) "t" 4 ⟨11, 1, [("q_target", .str "y")], .ok (), .ok ()⟩) 2, .act (.boot (System.second 5)),
    .act (.control (System.second 6) "t" 4 .pause none), .act (.control (System.second 7) "t" 4 .resume none),
    .act (.claim (System.second 8)), .act .start, .act (.enter (System.second 9)), .act (.settle (System.second 9)),
    .act (.claim (System.second 10)), .act .start]

/-- The run that the worker has started to train. -/
def System.trained (s : System) : Option ℕ :=
  match s.tasks.worker with
  | .handling job .training => some job.runId
  | _ => none

/-- The backend may be invoked for a run without a target. -/
theorem training_unconfirmed : ¬ ∀ (w : Worker.LocalExecutionWorker) (es : List System.Event) (s s' : System)
    (e : System.Event) (job : Job ℕ), Runs.Run (System.step w) Runs.Free System.init es s → System.step w s e = some s' →
      System.Invokes e s' job → ∃ d, s'.world.runs.get job.runId = some d ∧ System.Confirmed w es job.runId d := by
  intro hall
  have hrun : ((exec (System.step standard) Runs.Free System.init System.stranded).bind fun s =>
      (System.step standard s (.act (.enter (System.second 11)))).map fun s' =>
        (s'.trained, (s'.world.runs.get 4).map fun d => d.run.resolvedInputs.targetColumn)) =
          some (some 4, some none) := by decide +kernel
  obtain ⟨s, hs, hrest⟩ := Option.bind_eq_some_iff.mp hrun
  obtain ⟨s', hs', hpair⟩ := Option.map_eq_some_iff.mp hrest
  obtain ⟨htraining, hinputs⟩ := Prod.mk.inj hpair
  simp only [System.trained] at htraining
  split at htraining
  · rename_i job hworker
    have hid : job.runId = 4 := Option.some_inj.mp htraining
    obtain ⟨d, hd, hconfirmed⟩ := hall standard System.stranded s s' _ job (run_of_exec hs) hs' ⟨⟨_, rfl⟩, hworker⟩
    rw [hid] at hd
    rw [hd, Option.map_some, Option.some_inj] at hinputs
    obtain ⟨target, -, htarget, -⟩ := hconfirmed.target
    rw [hinputs] at htarget
    cases htarget
  · cases htraining

/-- A run whose target is asked for, answered and trained on. -/
theorem training_confirmed_answered : ∃ s s' job d,
    exec (System.step standard) (fun s e => s.strands e = false) System.init (System.questioned ++
      [.act (.claim (System.second 5)), .act .start, .act (.enter (System.second 6)), .act (.settle (System.second 6)),
        .act (.claim (System.second 7)), .act .start]) = some s ∧
      System.step standard s (.act (.enter (System.second 8))) = some s' ∧ s'.tasks.worker = .handling job .training ∧
        s'.world.runs.get job.runId = some d ∧ d.run.resolvedInputs.iidConfirmed = true := by
  have hrun : ((exec (System.step standard) (fun s e => s.strands e = false) System.init (System.questioned ++
      [.act (.claim (System.second 5)), .act .start, .act (.enter (System.second 6)), .act (.settle (System.second 6)),
        .act (.claim (System.second 7)), .act .start])).bind fun s =>
      (System.step standard s (.act (.enter (System.second 8)))).map System.trained) = some (some 4) := by decide +kernel
  obtain ⟨s, hs, hrest⟩ := Option.bind_eq_some_iff.mp hrun
  obtain ⟨s', hs', htraining⟩ := Option.map_eq_some_iff.mp hrest
  simp only [System.trained] at htraining
  split at htraining
  · rename_i job hworker
    obtain ⟨d, hd, hconfirmed⟩ := training_confirmed (run_of_exec hs) hs' ⟨⟨_, rfl⟩, hworker⟩
    exact ⟨s, s', job, d, hs, hs', hworker, hd, hconfirmed.iid⟩
  · cases htraining

end AutomlApi.Workflow
