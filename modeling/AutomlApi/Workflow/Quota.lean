import AutomlApi.Workflow.Life

/-! The limit on the active runs of a tenant. A request for a run counts the runs that go
on, under the lock under which it creates the run; only what brings a run back that has
ended gets past it. -/

namespace AutomlApi.Workflow

open Durable
open Jobs (Readings)
open Runs (exec run_of_exec)
open Worker.LocalExecutionWorker (standard)

/-! ### The limit -/

/-- A run of a tenant that has not ended. -/
def RunData.active (tenantId : String) (d : RunData) : Bool := d.run.tenantId = tenantId ∧ d.run.status ≠ .terminal

/-- `_tenant_active_run_count`. -/
def World.tenantActiveRunCount (u : World) (tenantId : String) : ℕ := u.runs.countP fun p => p.2.active tenantId

/-- `_enforce_run_limits`, without the limits on the budget of the request. -/
def World.enforceRunLimits (u : World) (maxActiveRuns : ℕ) (tenantId : String) : Except Problem Unit :=
  if maxActiveRuns ≤ u.tenantActiveRunCount tenantId then .error ⟨429, "active_run_limit_exceeded"⟩ else .ok ()

/-- A request for a run is admitted within the limit, if nothing else is against it. -/
def Action.limited (maxActiveRuns : ℕ) (u : World) : Action → Action
  | .createRun r tenantId request admitted =>
    .createRun r tenantId request ((u.enforceRunLimits maxActiveRuns tenantId).bind fun _ => admitted)
  | a => a

namespace System

def Event.limited (maxActiveRuns : ℕ) (u : World) : Event → Event
  | .act a => .act (a.limited maxActiveRuns u)
  | .crash a written => .crash (a.limited maxActiveRuns u) written

/-- A step of the process with the limit. -/
def stepLimited (maxActiveRuns : ℕ) (w : Worker.LocalExecutionWorker) (s : System) (e : Event) : Option System :=
  step w s (e.limited maxActiveRuns s.world)

end System

variable {lw : Leeway} {w : Worker.LocalExecutionWorker} {maxActiveRuns : ℕ} {s s' : System} {u : World}
  {tenantId : String}

/-! ### What one record does -/

/-- A run stays with its tenant. -/
theorem tenant_apply (d : RunData) (c : Change) : (d.apply c).run.tenantId = d.run.tenantId := by
  cases c with
  | finalized result p events =>
    exact foldl_append_eq (fun d => d.run.tenantId) (fun _ _ _ => rfl)
      { d with run := d.run.update p true, result := some result } _ _
  | _ => rfl

/-- A run that comes in finds room for it under the limit. -/
def World.Admits (maxActiveRuns : ℕ) (u : World) : Write → Prop
  | .run _ r => u.tenantActiveRunCount r.tenantId < maxActiveRuns
  | _ => True

/-- Every tenant is within the limit. -/
def World.WithinLimit (maxActiveRuns : ℕ) (u : World) : Prop := ∀ tenantId, u.tenantActiveRunCount tenantId ≤ maxActiveRuns

theorem withinLimit_apply {x : Write} (h : u.WithinLimit maxActiveRuns) (hx : u.Lawful lw x) (hrevives : ¬ lw.revives)
    (hadmits : u.Admits maxActiveRuns x) : (u.apply x).WithinLimit maxActiveRuns := by
  intro tenantId
  cases x with
  | run runId r =>
    by_cases ht : r.tenantId = tenantId
    · subst ht
      have hroom : u.tenantActiveRunCount r.tenantId < maxActiveRuns := hadmits
      have hadds := Dict.countP_set_le (fun p : ℕ × RunData => p.2.active r.tenantId) u.runs runId (.create r)
      exact hadds.trans hroom
    · have hidle : ¬ (RunData.create r).active tenantId := by simp [RunData.active, RunData.create, ht]
      have hkeeps : (u.apply (.run runId r)).tenantActiveRunCount tenantId ≤ u.tenantActiveRunCount tenantId :=
        Dict.countP_set_mono fun hactive => absurd hactive hidle
      exact hkeeps.trans (h tenantId)
  | on runId c drawsId =>
    have hkeeps : (u.apply (.on runId c drawsId)).tenantActiveRunCount tenantId ≤ u.tenantActiveRunCount tenantId := by
      show (modifyKey u.runs runId fun d => d.apply c).countP _ ≤ _
      unfold modifyKey
      cases hd : u.runs.get runId with
      | none => exact le_rfl
      | some d =>
        refine Dict.countP_set_mono fun hactive => ⟨d, hd, ?_⟩
        simp only [RunData.active, tenant_apply, decide_eq_true_eq] at hactive ⊢
        exact ⟨hactive.1, fun hended => hactive.2 (terminal_apply (hx.2 d hd) hrevives hended)⟩
    exact hkeeps.trans (h tenantId)
  | _ => exact h tenantId

/-! ### What a step does -/

/-- A record that creates no run. -/
def Write.creates : Write → Bool
  | .run .. => true
  | _ => false

theorem admits_of_creates {x : Write} (hx : x.creates = false) : u.Admits maxActiveRuns x := by
  cases x with
  | run => cases hx
  | _ => trivial

/-- A request for a run that finds no room creates none. -/
theorem admits_createRun (r : Readings) (request : RunRequest) (admitted : Except Problem Unit) :
    Writes (World.Admits maxActiveRuns)
      (createRun r tenantId request ((u.enforceRunLimits maxActiveRuns tenantId).bind fun _ => admitted)) u := by
  have hadmits : ∀ {α : Type} {m : Prog α}, Always (fun x => !x.creates) m →
      ∀ v, Writes (World.Admits maxActiveRuns) m v := fun hm v => (hm v).mono fun _ _ hx => admits_of_creates (by simpa using hx)
  refine writes_bind writes_read fun v hv => writes_bind (writes_check _) fun version _ => ?_
  refine writes_bind (writes_check _) fun _ _ => writes_bind (writes_check _) fun _ hadmitted => ?_
  refine writes_bind (hadmits (always_newId rfl) _) fun runId _ => writes_bind (writes_write ?_) fun _ _ =>
    hadmits (always_createExecutionJob fun _ => rfl) _
  by_contra hfull
  have hfull : maxActiveRuns ≤ u.tenantActiveRunCount tenantId := not_lt.mp hfull
  rw [World.enforceRunLimits, if_pos hfull] at hadmitted
  cases hadmitted

theorem admits_request {t : Tasks} {p : Prog Unit} (h : Writes (World.Admits maxActiveRuns) p u) :
    Writes (World.Admits maxActiveRuns) (t.request p) u := writes_bind h fun _ _ => writes_pure _

namespace System

theorem action_limited (e : Event) : (e.limited maxActiveRuns u).action = e.action.limited maxActiveRuns u := by
  cases e <;> rfl

theorem revivesEnded_limited (a : Action) : s.revivesEnded (a.limited maxActiveRuns u) = s.revivesEnded a := by
  cases a <;> rfl

/-- The runs that a section creates find room for them. -/
theorem admits_section {a : Action} {p : Prog Tasks} (hi : s.Inv)
    (hp : s.tasks.Runs w (a.limited maxActiveRuns s.world) p) : Durable.Writes (World.Admits maxActiveRuns) p s.world := by
  let a' := a.limited maxActiveRuns s.world
  have hgrants := grants_of_excuses ((Leeway.Excuses.all s a').at a')
  have hproceeds : Proceeds (Leeway.all.at a') s.tasks p s.world :=
    section_proceeds hp hi.sound hi.drawn hi.tasks (fun _ _ _ => .inl trivial) hgrants
  cases a with
  | createRun r tenantId request admitted =>
    cases hp
    exact admits_request (admits_createRun r request admitted)
  | _ =>
    refine hproceeds.1.mono fun u x hx => ?_
    cases x with
    | run runId r =>
      obtain ⟨-, -, _, _, hcreates, -⟩ := hx
      exact hcreates.elim
    | _ => trivial

theorem admits_records {e : Event} (hi : s.Inv) (hstep : stepLimited maxActiveRuns w s e = some s') :
    Along (World.Admits maxActiveRuns) s.world (records w s (e.limited maxActiveRuns s.world)) := by
  cases e with
  | act a =>
    obtain ⟨p, hp, -⟩ := Option.map_eq_some_iff.mp hstep
    have hrecords : records w s (.act (a.limited maxActiveRuns s.world)) = (p s.world).2 := by simp only [records, hp]
    rw [Event.limited, hrecords]
    exact admits_section hi (section_runs hp)
  | crash a written =>
    obtain ⟨p, hp, -⟩ := Option.map_eq_some_iff.mp hstep
    have hrecords : records w s (.crash (a.limited maxActiveRuns s.world) written) = (p s.world).2.take written := by
      simp only [records, hp]
    rw [Event.limited, hrecords]
    exact (admits_section hi (section_runs hp)).take written

/-- A step that brings back no run that has ended keeps every tenant within the limit. -/
theorem withinLimit_step {e : Event} (hi : s.Inv) (h : s.world.WithinLimit maxActiveRuns)
    (hrevives : s.revivesEnded e.action = false) (hstep : stepLimited maxActiveRuns w s e = some s') : s'.world.WithinLimit maxActiveRuns := by
  let a := (e.limited maxActiveRuns s.world).action
  have hwrites := System.writes hi hstep
  let lw : Leeway := { Leeway.all with revives := False }
  have hexcuses : lw.Excuses s a := by
    refine { Leeway.Excuses.all s a with revives := .inr ?_ }
    rw [show a = e.action.limited maxActiveRuns s.world from action_limited e, revivesEnded_limited]
    exact hrevives
  have hgrants : Grants (lw.at a) s.world s.tasks a := grants_of_excuses (hexcuses.at a)
  have hlawful : Along (World.Lawful (lw.at a)) s.world (records w s (e.limited maxActiveRuns s.world)) :=
    hwrites.lawful (fun _ _ _ => .inl trivial) hgrants
  rw [hwrites.world]
  exact (hlawful.and (admits_records hi hstep)).keeps (fun u x hu hx => withinLimit_apply hu hx.1 id hx.2) h

end System

/-- Where no step brings back a run that has ended, every tenant has at most as many active
runs as the limit says, in every state. -/
theorem active_runs_within_limit (maxActiveRuns : ℕ) (w : Worker.LocalExecutionWorker) (es : List System.Event) (s : System)
    (h : Runs.Run (System.stepLimited maxActiveRuns w) (fun s e => s.revivesEnded e.action = false) System.init es s)
    (tenantId : String) : s.world.tenantActiveRunCount tenantId ≤ maxActiveRuns := by
  have hinv : ∀ s e s', System.Inv s → s.revivesEnded e.action = false →
      System.stepLimited maxActiveRuns w s e = some s' → System.Inv s' := fun _ _ _ hi _ hstep => System.inv_step hi hstep
  exact h.invariant_of (I := fun s => s.world.WithinLimit maxActiveRuns) hinv
    (fun _ _ _ hi hwithin hok hstep => System.withinLimit_step hi hwithin hok hstep) System.inv_init
    (fun _ => Nat.zero_le _) tenantId

/-! ### Past the limit -/

namespace System

/-- The worker trains the run 4, the run is canceled, and the tenant gets another one;
then the training asks for the positive class of the first. -/
def reviving : List Event :=
  opening false ++ profiling 2 ++ entering 3 ++ training 4 ++
    [.act (.threadEnds (.positiveClass [.str "no", .str "yes"])), .act (.control (second 5) "t" 4 .cancel none),
      .act (.createRun (second 6) "t" ⟨3, ⟨some "y", true, none⟩, false⟩ (.ok ())), .act (.enter (second 7))]

end System

/-- With a limit of one run a tenant comes to have two: the question about the positive
class brings back the run that has been canceled. -/
theorem active_runs_past_limit :
    ¬ ∀ (maxActiveRuns : ℕ) (w : Worker.LocalExecutionWorker) (es : List System.Event) (s : System) (tenantId : String),
      Runs.Run (System.stepLimited maxActiveRuns w) (fun _ e => e.dies = false) System.init es s →
        s.world.tenantActiveRunCount tenantId ≤ maxActiveRuns := by
  intro hall
  have hrun : ((exec (System.stepLimited 1 standard) (fun _ e => e.dies = false) System.init System.reviving).map fun s =>
      s.world.tenantActiveRunCount "t") = some 2 := by decide +kernel
  obtain ⟨s, hs, hcount⟩ := Option.map_eq_some_iff.mp hrun
  have hle := hall 1 standard System.reviving s "t" (run_of_exec hs)
  omega

/-- A tenant may have another run once the first has succeeded. -/
theorem active_runs_one_by_one :
    ∃ s, exec (System.stepLimited 1 standard) (fun s e => s.revivesEnded e.action = false) System.init
        (System.wholeRun false ++ [.act (.createRun (System.second 7) "t" ⟨3, ⟨some "y", true, none⟩, false⟩ (.ok ()))]) = some s ∧
      s.world.runs.length = 2 ∧ s.world.tenantActiveRunCount "t" ≤ 1 := by
  have hrun : ((exec (System.stepLimited 1 standard) (fun s e => s.revivesEnded e.action = false) System.init
      (System.wholeRun false ++ [.act (.createRun (System.second 7) "t" ⟨3, ⟨some "y", true, none⟩, false⟩ (.ok ()))])).map
        fun s => s.world.runs.length) = some 2 := by decide +kernel
  obtain ⟨s, hs, hlength⟩ := Option.map_eq_some_iff.mp hrun
  exact ⟨s, hs, hlength, active_runs_within_limit 1 standard _ s (run_of_exec hs) "t"⟩

end AutomlApi.Workflow
