import AutomlApi.Workflow.Effects
import AutomlApi.Workflow.Handling
import AutomlApi.Workflow.System

/-! What the tasks of the process count on while they wait: the worker on the run of its
job, wherever its handler is, and the training thread on the run that it trains for.
The other tasks leave all of this alone. -/

namespace AutomlApi.Workflow

open Durable
open Jobs (Job Readings)

variable {lw : Leeway} {d d' d'' : RunData} {w w' w'' : World}

/-! ### What a run keeps -/

/-- A run that a worker is at: it does not wait for an approval, has not succeeded, and
no question of it is open. -/
structure Busy (d : RunData) : Prop where
  waits : d.run.status ≠ .waitingApproval
  unsealed : ¬ d.Sealed
  quiet : d.Quiet

/-- What the tasks that do not work on a run leave of it. -/
structure Keeps (d d' : RunData) : Prop where
  stages : d.stages <+: d'.stages
  busy : Busy d → Busy d'
  ended : d.run.status = .terminal → d'.run.status = .terminal

theorem Keeps.refl (d : RunData) : Keeps d d := ⟨List.prefix_rfl, id, id⟩

theorem Keeps.trans (h : Keeps d d') (h' : Keeps d' d'') : Keeps d d'' :=
  ⟨h.stages.trans h'.stages, h'.busy ∘ h.busy, h'.ended ∘ h.ended⟩

theorem Busy.grows (h : Busy d) (hg : Grows d d') : Busy d' := by
  refine ⟨?_, hg.unsealed h.unsealed, hg.quiet h.quiet⟩
  have hwaits : False ∨ d'.run.status ≠ .waitingApproval := hg.live nofun (.inr h.waits)
  exact hwaits.resolve_left False.elim

/-- A run that is queued or running is one that a worker may take up. -/
theorem busy_of_started (h : Sound d) (hs : d.run.status = .queued ∨ d.run.status = .running) : Busy d := by
  refine ⟨?_, ?_, ?_⟩
  · rcases hs with hs | hs <;> simp [hs]
  · rcases hs with hs | hs <;> simp [RunData.Sealed, hs]
  · rcases h.asked with h | h | h | h
    · rcases hs with hs | hs <;> simp [hs] at h
    · rcases hs with hs | hs <;> simp [hs] at h
    · rcases hs with hs | hs <;> simp [hs] at h
    · exact h

/-- A change that neither asks nor brings the run to an approval leaves a run to its worker. -/
theorem busy_apply (h : Busy d) {c : Change} (hc : Lawful lw d c) (hq : ¬ lw.questions) (ha : ¬ lw.approves) :
    Busy (d.apply c) := by
  have hto : ∀ {p : RunPatch} {bump : Bool} {s : RunStatus}, p.status = some s → s ≠ .terminal → s ≠ .waitingApproval →
      Busy (d.apply (.run p bump)) := by
    intro p bump s hp ht hw
    have hstatus : (d.apply (.run p bump)).run.status = s := by simp [RunData.apply, Run.update, hp]
    exact ⟨hstatus ▸ hw, fun hs => ht (hstatus.symm.trans hs.1), h.quiet⟩
  cases hc with
  | @notes p hp hw =>
    simp only [RunPatch.loud, Bool.or_eq_false_iff, Option.isSome_eq_false_iff, Option.isNone_iff_eq_none] at hp
    obtain ⟨⟨⟨⟨⟨-, hs⟩, ho⟩, -⟩, -⟩, -⟩ := hp
    have hstatus : (d.apply (.run p false)).run.status = d.run.status := by simp [RunData.apply, Run.update, hs]
    have houtcome : (d.apply (.run p false)).run.outcome = d.run.outcome := by simp [RunData.apply, Run.update, ho]
    refine ⟨hstatus ▸ h.waits, ?_, h.quiet⟩
    rw [RunData.Sealed, hstatus, houtcome]
    exact h.unsealed
  | works hw hp =>
    obtain ⟨s, hs, ht, hwait⟩ := hp.status
    exact hto hs ht hwait
  | answers => exact hto rfl (by simp) (by simp)
  | switches hc ht hwait => exact hto rfl ht hwait
  | asks hquestions => exact absurd hquestions hq
  | closes hc hs =>
    refine ⟨h.waits, h.unsealed, fun p hp => ?_⟩
    obtain ⟨q, hq, rfl⟩ := List.mem_map.mp hp
    split
    · exact hs
    · exact h.quiet q hq
  | requests happroves => exact absurd happroves ha
  | awaits happroves => exact absurd happroves ha
  | @ends result p events hopen hends =>
    obtain ⟨manifest, outcome, code⟩ := result
    cases hends with
    | succeeds happroves => exact absurd happroves ha
    | fails => exact ⟨by simp [RunData.apply, RunData.append, Run.update, failed], (fun hs => by cases hs.2), h.quiet⟩
    | cancels => exact ⟨by simp [RunData.apply, RunData.append, Run.update, canceled], (fun hs => by cases hs.2), h.quiet⟩
  | _ => exact ⟨h.waits, h.unsealed, h.quiet⟩

/-- A run that has ended stays so, unless a change may revive it. -/
theorem terminal_apply {c : Change} (hc : Lawful lw d c) (hr : ¬ lw.revives) (h : d.run.status = .terminal) :
    (d.apply c).run.status = .terminal := by
  cases hc with
  | @notes p hp hw =>
    simp only [RunPatch.loud, Bool.or_eq_false_iff, Option.isSome_eq_false_iff, Option.isNone_iff_eq_none] at hp
    obtain ⟨⟨⟨⟨⟨-, hs⟩, -⟩, -⟩, -⟩, -⟩ := hp
    simpa [RunData.apply, Run.update, hs] using h
  | works hw hp hlive => exact absurd h (hlive.resolve_left hr)
  | answers hwait => rw [h] at hwait; cases hwait
  | switches hc ht ha hlive => exact absurd h hlive
  | awaits ha hlive => exact absurd h (hlive.resolve_left hr)
  | @ends result p events hopen hends =>
    obtain ⟨manifest, outcome, code⟩ := result
    cases hends <;> rfl
  | _ => exact h

/-! ### What the world keeps -/

/-- The runs keep what their tasks count on, and no row goes. -/
structure World.Keeps (w w' : World) : Prop where
  runs : ∀ runId d, w.runs.get runId = some d → ∃ d', w'.runs.get runId = some d' ∧ Workflow.Keeps d d'
  rows : ∀ runId, (w.jobs.lookup runId).isSome → (w'.jobs.lookup runId).isSome

theorem World.Keeps.refl (w : World) : w.Keeps w := ⟨fun _ d hd => ⟨d, hd, .refl d⟩, fun _ h => h⟩

theorem World.Keeps.trans (h : w.Keeps w') (h' : w'.Keeps w'') : w.Keeps w'' := by
  refine ⟨fun runId d hd => ?_, fun runId hrow => h'.rows runId (h.rows runId hrow)⟩
  obtain ⟨d', hd', hk⟩ := h.runs runId d hd
  obtain ⟨d'', hd'', hk'⟩ := h'.runs runId d' hd'
  exact ⟨d'', hd'', hk.trans hk'⟩

/-- A record of a task that does not work on runs. -/
theorem keeps_apply {x : Write} (hx : w.Lawful lw x) (hq : ¬ lw.questions) (ha : ¬ lw.approves) (hr : ¬ lw.revives) :
    w.Keeps (w.apply x) := by
  refine ⟨fun runId d hd => ?_, fun runId => row_apply x⟩
  rcases run_moves hx hd with h | ⟨c, hc, h⟩
  · exact ⟨d, h, .refl d⟩
  · exact ⟨_, h, stages_change d c, fun hb => busy_apply hb hc hq ha, terminal_apply hc hr⟩

/-- What tasks that do no work on runs are allowed. -/
def Leeway.idle : Leeway :=
  { Leeway.all with works := False, questions := False, approves := False, revives := False }

theorem keeps_of_writes {α : Type} {m : Prog α} {s : World} (h : Writes (World.Lawful lw) m s) (hq : ¬ lw.questions)
    (ha : ¬ lw.approves) (hr : ¬ lw.revives) : s.Keeps (m.final s) :=
  h.final (P := s.Keeps) (fun _ _ hk hx => hk.trans (keeps_apply hx hq ha hr)) (.refl s)

/-- Of the runs that workers are at, only the artifacts may change. -/
def World.Holds (w w' : World) : Prop :=
  ∀ runId d, w.runs.get runId = some d → Busy d →
    ∃ artifacts, w'.runs.get runId = some { d with artifacts := artifacts }

theorem World.Holds.of_eq (h : w'.runs = w.runs) : w.Holds w' := fun _ d hd _ => ⟨d.artifacts, h ▸ hd⟩

/-! ### What the tasks count on -/

/-- The run of a job is there, with its row, and is as `P` says. -/
def World.Has (w : World) (runId : ℕ) (P : RunData → Prop) : Prop :=
  (w.jobs.lookup runId).isSome ∧ ∃ d, w.runs.get runId = some d ∧ P d

/-- What a handler counts on. -/
structure Place.Holds (job : Job ℕ) (place : Place) (d : RunData) : Prop where
  step : Trains job.workflowStep → .profile ∈ d.stages
  fits : place.Fits d
  busy : place = .fresh ∨ Busy d

def WorkerState.Fits (w : World) : WorkerState → Prop
  | .handling job place => w.Has job.runId (place.Holds job)
  | .settling job outcome => w.Has job.runId fun d => GoesOn d outcome
  | _ => True

/-- The stage that the backend has come to has been told. -/
def EngineStage.Fits (d : RunData) : EngineStage → Prop
  | .planned => d.run.status = .terminal ∨ .plan ∈ d.stages
  | .evaluated => d.run.status = .terminal ∨ .train ∈ d.stages
  | _ => True

def Publication.Fits (d : RunData) (stage : EngineStage) : Publication → Prop
  | .idle => True
  | .queueing call => call.follows stage
  | .storing call pending => call.follows stage ∧ call.phase = .plan ∧ pending.Fits d.result.isSome d ∧
      (d.result = none → d.run.status ≠ .terminal)

/-- What the training thread counts on. -/
structure Thread.Fits (thread : Thread) (d : RunData) : Prop where
  busy : Busy d
  profile : .profile ∈ d.stages
  stage : thread.stage.Fits d
  publication : thread.publication.Fits d thread.stage

/-- What all tasks count on. The training thread is the one that the handler waits for,
unless the worker has ended before it. -/
structure Tasks.Fits (w : World) (t : Tasks) : Prop where
  worker : t.worker.Fits w
  thread : ∀ thread ∈ t.thread, (t.worker = .ended ∨ t.worker = .handling thread.job .training) ∧
    w.Has thread.job.runId thread.Fits

theorem World.Has.keeps {runId : ℕ} {P Q : RunData → Prop} (h : w.Has runId P) (hk : w.Keeps w')
    (hPQ : ∀ d d', w.runs.get runId = some d → w'.runs.get runId = some d' → Workflow.Keeps d d' → P d → Q d') :
    w'.Has runId Q := by
  obtain ⟨hrow, d, hd, hp⟩ := h
  obtain ⟨d', hd', hkeeps⟩ := hk.runs runId d hd
  exact ⟨hk.rows runId hrow, d', hd', hPQ d d' hd hd' hkeeps hp⟩

theorem PendingResult.Fits.artifacts {p : PendingResult} (h : p.Fits d) (artifacts : List Artifact) :
    p.Fits { d with artifacts := artifacts } := by
  obtain ⟨artifact, run, result, site⟩ := p
  refine ⟨⟨h.current.requiresApproval, h.current.now⟩, ?_⟩
  have hsite := h.site
  cases site <;> exact hsite

theorem Entry.Fits.keeps {entry : Entry} (h : entry.Fits d) (hk : Keeps d d') : entry.Fits d' := by
  cases entry with
  | profiled => trivial
  | trained => exact h.imp hk.ended (hk.stages.subset ·)
  | resolve | train | positiveClass | engineError => exact hk.stages.subset h

/-- What a handler counts on, in a place without the lock. -/
theorem Place.Fits.keeps {place : Place} (h : place.Fits d) (hk : Keeps d d')
    (hlock : ∀ p, place = .publishing p → ∃ artifacts, d' = { d with artifacts := artifacts }) : place.Fits d' := by
  cases place with
  | fresh | profiling => trivial
  | queueing entry => exact Entry.Fits.keeps h hk
  | training => exact hk.stages.subset h
  | publishing p =>
    obtain ⟨artifacts, rfl⟩ := hlock p rfl
    exact ⟨h.1.artifacts artifacts, h.2⟩

theorem EngineStage.Fits.keeps {stage : EngineStage} (h : stage.Fits d) (hk : Keeps d d') : stage.Fits d' := by
  cases stage with
  | planned | evaluated => exact h.imp hk.ended (hk.stages.subset ·)
  | fresh | broken => trivial

theorem Thread.Fits.keeps {thread : Thread} (h : thread.Fits d) (hk : Keeps d d')
    (hpub : thread.publication.Fits d' thread.stage) : thread.Fits d' :=
  ⟨hk.busy h.busy, hk.stages.subset h.profile, h.stage.keeps hk, hpub⟩

theorem Publication.Fits.holds {p : Publication} {stage : EngineStage} (h : p.Fits d stage)
    (hlock : ∀ call pending, p = .storing call pending → ∃ artifacts, d' = { d with artifacts := artifacts }) :
    p.Fits d' stage := by
  cases p with
  | idle => trivial
  | queueing call => exact h
  | storing call pending =>
    obtain ⟨artifacts, rfl⟩ := hlock call pending rfl
    obtain ⟨hstage, hcall, hfits, hlive⟩ := h
    exact ⟨hstage, hcall, ⟨⟨hfits.current.requiresApproval, hfits.current.now⟩, hfits.free⟩, hlive⟩

/-- Tasks that do no work on runs, and leave them alone under the lock of another, leave
what that task counts on. -/
theorem Tasks.Fits.keeps {t : Tasks} (h : t.Fits w) (hk : w.Keeps w') (hlock : t.locked → w.Holds w') : t.Fits w' := by
  have hheld : ∀ {runId : ℕ} {d d' : RunData}, t.locked → w.runs.get runId = some d → w'.runs.get runId = some d' →
      Busy d → ∃ artifacts, d' = { d with artifacts := artifacts } := by
    intro runId d d' hl hd hd' hb
    obtain ⟨artifacts, ha⟩ := hlock hl runId d hd hb
    exact ⟨artifacts, Option.some_inj.mp (hd'.symm.trans ha)⟩
  constructor
  · have hworker := h.worker
    cases hw : t.worker with
    | handling job place =>
      rw [hw] at hworker
      refine hworker.keeps hk fun d d' hd hd' hkeeps hp => ?_
      refine ⟨fun ht => hkeeps.stages.subset (hp.step ht), hp.fits.keeps hkeeps ?_, hp.busy.imp_right hkeeps.busy⟩
      rintro p rfl
      exact hheld (by simp [Tasks.locked, hw]) hd hd' (hp.busy.resolve_left nofun)
    | settling job outcome =>
      rw [hw] at hworker
      refine hworker.keeps hk fun d d' _ _ hkeeps hp => ?_
      cases outcome with
      | checkpoint result => exact fun ht => hkeeps.stages.subset (hp ht)
      | _ => trivial
    | off | idle | ended => trivial
  · intro thread hthread
    obtain ⟨hwhere, hhas⟩ := h.thread thread hthread
    refine ⟨hwhere, hhas.keeps hk fun d d' hd hd' hkeeps hp => hp.keeps hkeeps (hp.publication.holds ?_)⟩
    intro call pending hpub
    obtain ⟨job, stage, publication⟩ := thread
    cases hpub
    exact hheld (by simp [Tasks.locked, Option.mem_def.mp hthread]) hd hd' hp.busy

end AutomlApi.Workflow
