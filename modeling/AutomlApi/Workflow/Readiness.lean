import AutomlApi.Library.Checked
import AutomlApi.Packets.Answers
import AutomlApi.Workflow.Guards

/-! What a run is about: where its target and its word on the rows come from, and that it has
both of them before a backend works on it. -/

namespace AutomlApi.Workflow

open Durable
open Runs (exec run_of_exec)
open Worker.LocalExecutionWorker (standard)
open Store (Value Fields)

variable {lw : Leeway} {w : Worker.LocalExecutionWorker} {s s' : System} {u : World} {t : Tasks} {runId : ℕ}
  {d d' : RunData}

/-! ### Answers -/

section Answers

variable {run : Run} {answers : Fields} {resolved : Inputs}

/-- What an answer says of the target and of the rows. -/
structure Resolves (run : Run) (answers : Fields) (resolved : Inputs) : Prop where
  target : (answers.get "q_target" = none ∧ resolved.targetColumn = run.resolvedInputs.targetColumn) ∨
    ∃ target ∈ run.profileColumns.getD [], answers.get "q_target" = some (.str target) ∧
      resolved.targetColumn = some target
  iid : (answers.get "q_iid" = none ∧ resolved.iidConfirmed = run.resolvedInputs.iidConfirmed) ∨
    (answers.get "q_iid" = some (.bool true) ∧ resolved.iidConfirmed = true)

/-- The last answer that is resolved: the positive class. -/
def resolvePositiveClass (answers : Fields) (inputs : Inputs) : Except Fault Inputs :=
  match answers.get "q_positive_class" with
  | none => .ok inputs
  | some value => .ok { inputs with positiveClass := some value }

/-- The answers that are resolved after the target. -/
def resolveRest (answers : Fields) (inputs : Inputs) : Except Fault Inputs := do
  let inputs ←
    match answers.get "q_iid" with
    | none => .ok inputs
    | some (.bool true) => .ok { inputs with iidConfirmed := true }
    | some _ => .error (problem 422 "unsupported_split_requirement")
  resolvePositiveClass answers inputs

theorem resolves_of_ok (h : resolveAnswers run answers = .ok resolved) : Resolves run answers resolved := by
  have hrest : ∀ first : Inputs, resolveRest answers first = .ok resolved →
        resolved.targetColumn = first.targetColumn ∧
          ((answers.get "q_iid" = none ∧ resolved.iidConfirmed = first.iidConfirmed) ∨
            (answers.get "q_iid" = some (.bool true) ∧ resolved.iidConfirmed = true)) := by
    intro first h
    have hlast : ∀ second : Inputs, resolvePositiveClass answers second = .ok resolved →
          resolved.targetColumn = second.targetColumn ∧ resolved.iidConfirmed = second.iidConfirmed := by
      intro second h
      unfold resolvePositiveClass at h
      split at h
      · cases h; exact ⟨rfl, rfl⟩
      · cases h; exact ⟨rfl, rfl⟩
    unfold resolveRest at h
    dsimp only at h
    split at h
    · rename_i hnone
      obtain ⟨htarget, hiid⟩ := hlast first h
      exact ⟨htarget, .inl ⟨hnone, hiid⟩⟩
    · rename_i hsome
      obtain ⟨htarget, hiid⟩ := hlast { first with iidConfirmed := true } h
      exact ⟨htarget, .inr ⟨hsome, hiid⟩⟩
    · cases h
  unfold resolveAnswers at h
  dsimp only at h
  split at h
  · rename_i hnone
    obtain ⟨htarget, hiid⟩ := hrest run.resolvedInputs h
    exact ⟨.inl ⟨hnone, htarget⟩, hiid⟩
  · rename_i target hsome
    split at h
    · rename_i hmem
      obtain ⟨htarget, hiid⟩ := hrest { run.resolvedInputs with targetColumn := some target } h
      exact ⟨.inr ⟨target, hmem, hsome, htarget⟩, hiid⟩
    · cases h
  · cases h

/-- A run that is ready stays so with an answer. -/
theorem Resolves.ready (h : Resolves run answers resolved) (hr : run.Ready) (commandId : ℕ) (bump : Bool) :
    (run.update (answered resolved commandId) bump).Ready := by
  constructor
  · show resolved.iidConfirmed = true
    rcases h.iid with ⟨-, hsame⟩ | ⟨-, hyes⟩
    · exact hsame.trans hr.iid
    · exact hyes
  · show ∃ target ∈ resolved.targetColumn, target ∈ run.profileColumns.getD []
    rcases h.target with ⟨-, hsame⟩ | ⟨target, hmem, -, hnew⟩
    · rw [hsame]
      exact hr.target
    · exact ⟨target, hnew, hmem⟩

/-- An answer to all that there is to ask makes a run ready. -/
theorem Resolves.ready_of_answered (h : Resolves run answers resolved)
    (hall : ∀ q ∈ run.questions, (answers.get q.id).isSome) (commandId : ℕ) (bump : Bool) :
    (run.update (answered resolved commandId) bump).Ready := by
  constructor
  · show resolved.iidConfirmed = true
    rcases h.iid with ⟨hnone, hsame⟩ | ⟨-, hyes⟩
    · rw [hsame]
      by_contra hno
      have hasked : Question.iid ∈ run.questions := List.mem_append_right _ (by simp [hno])
      have hanswer := hall _ hasked
      rw [show Question.iid.id = "q_iid" from rfl, hnone] at hanswer
      cases hanswer
    · exact hyes
  · show ∃ target ∈ resolved.targetColumn, target ∈ run.profileColumns.getD []
    rcases h.target with ⟨hnone, hsame⟩ | ⟨target, hmem, -, hnew⟩
    · rw [hsame]
      by_contra hno
      have hasked : Question.target (run.profileColumns.getD []) ∈ run.questions :=
        List.mem_append_left _ (by simpa [Option.any_eq_true] using hno)
      have hanswer := hall _ hasked
      rw [show (Question.target (run.profileColumns.getD [])).id = "q_target" from rfl, hnone] at hanswer
      cases hanswer
    · exact ⟨target, hnew, hmem⟩

/-- An answer that is complete answers every question. -/
theorem answered_of_valid {questions : List Question} {v : Unit} (h : validatePacketAnswers questions answers = .ok v) :
    ∀ q ∈ questions, (answers.get q.id).isSome := by
  unfold validatePacketAnswers at h
  split at h
  · rename_i d hd
    intro q hq
    obtain ⟨-, hmem⟩ := Packets.keys_of_valid hd
    exact Dict.isSome_get.mpr (hmem _ (List.mem_map_of_mem hq))
  · cases h

end Answers
/-! ### Changes of one run -/

theorem inputs_finalized (d : RunData) (result : Result) (p : RunPatch) (events : List Payload) :
    (d.apply (.finalized result p events)).run.resolvedInputs = (d.run.update p true).resolvedInputs :=
  foldl_append_eq (fun d => d.run.resolvedInputs) (fun _ _ _ => rfl) _ events _

/-- The inputs of a run only change with an answer. -/
theorem inputs_apply {c : Change} (hc : Lawful lw d c) : (d.apply c).run.resolvedInputs = d.run.resolvedInputs ∨
    (lw.answers ∧ ∃ answers resolved commandId, c = .run (answered resolved commandId) true ∧
      resolveAnswers d.run answers = .ok resolved) := by
  cases hc with
  | notes hp hw hi => exact .inl (by simp [RunData.apply, Run.update, hi])
  | works hw hp => exact .inl (by simp [RunData.apply, Run.update, hp.inputs])
  | answers h hquiet hresolved ha =>
    obtain ⟨answers, hresolved⟩ := hresolved
    exact .inr ⟨ha, answers, _, _, rfl, hresolved⟩
  | @ends result p events hopen hends =>
    obtain ⟨manifest, outcome, code⟩ := result
    left
    rw [inputs_finalized]
    cases hends <;> rfl
  | _ => exact .inl rfl

/-- The profile of a run only changes when one is taken up. -/
theorem columns_apply {c : Change} (hc : Lawful lw d c) (hprofiles : ¬ lw.profiles) :
    (d.apply c).run.profileColumns = d.run.profileColumns := by
  cases hc with
  | notes hp hw hi hprofile => simp [RunData.apply, Run.update, hprofile.resolve_left hprofiles]
  | works hw hp => simp [RunData.apply, Run.update, hp.columns]
  | @ends result p events hopen hends =>
    obtain ⟨manifest, outcome, code⟩ := result
    rw [RunData.apply, foldl_append_eq (fun d => d.run.profileColumns) fun _ _ _ => rfl]
    cases hends <;> rfl
  | _ => rfl

/-- What makes a run ready is said by its inputs and its profile. -/
theorem Run.Ready.congr {r r' : Run} (h : r.Ready) (hinputs : r'.resolvedInputs = r.resolvedInputs)
    (hcolumns : r'.profileColumns = r.profileColumns) : r'.Ready :=
  ⟨hinputs ▸ h.iid, hinputs ▸ hcolumns ▸ h.target⟩

theorem questions_congr {r r' : Run} (hinputs : r'.resolvedInputs = r.resolvedInputs)
    (hcolumns : r'.profileColumns = r.profileColumns) : r'.questions = r.questions := by
  simp only [Run.questions, initialQuestions, hinputs, hcolumns]

/-- A run that is ready stays so, unless another profile is taken up. -/
theorem ready_apply (h : d.run.Ready) {c : Change} (hc : Lawful lw d c) (hprofiles : ¬ lw.profiles) :
    (d.apply c).run.Ready := by
  rcases inputs_apply hc with hinputs | ⟨-, answers, resolved, commandId, rfl, hresolved⟩
  · exact h.congr hinputs (columns_apply hc hprofiles)
  · exact (resolves_of_ok hresolved).ready h commandId true

/-- A run with a result has ended, unless a change may revive it. -/
theorem closed_apply (h : d.result.isSome → d.run.status = .terminal) {c : Change} (hc : Lawful lw d c)
    (hrevives : ¬ lw.revives) : (d.apply c).result.isSome → (d.apply c).run.status = .terminal := by
  have hopen : ∀ {P : Prop}, d.run.status ≠ .terminal → d.result.isSome → P := fun hlive hclosed => absurd (h hclosed) hlive
  intro hclosed
  cases hc with
  | @notes p hp =>
    simp only [RunPatch.loud, Bool.or_eq_false_iff, Option.isSome_eq_false_iff, Option.isNone_iff_eq_none] at hp
    obtain ⟨⟨⟨⟨⟨-, hs⟩, -⟩, -⟩, -⟩, -⟩ := hp
    simpa [RunData.apply, Run.update, hs] using h hclosed
  | works hw hp hlive => exact hopen (hlive.resolve_left hrevives) hclosed
  | answers hwait => exact hopen (by simp [hwait]) hclosed
  | switches hc ht ha hlive => exact hopen hlive hclosed
  | awaits ha hlive => exact hopen (hlive.resolve_left hrevives) hclosed
  | @ends result p events hnone hends =>
    obtain ⟨manifest, outcome, code⟩ := result
    cases hends <;> rfl
  | _ => exact h hclosed

/-- A run that waits for the answer is not sent on before it is there. -/
theorem cleared_apply (h : d.Cleared) {c : Change} (hc : Lawful lw d c) (hworks : ¬ lw.works) (hprofiles : ¬ lw.profiles)
    (hcloses : ¬ lw.closes) (hrevives : ¬ lw.revives) : (d.apply c).Cleared := by
  rcases h with hready | hended | ⟨hstatus, hresult, p, hp, hopen, hasks⟩
  · exact .inl (ready_apply hready hc hprofiles)
  · exact .inr (.inl (terminal_apply hc hrevives hended))
  · have hnoisy : ¬ d.Quiet := fun hquiet => hquiet p hp hopen
    have hwaits : ∀ {d' : RunData}, (d'.run.status = .waitingUser ∨ d'.run.status = .paused) → d'.result = none →
        p ∈ d'.packets → d'.run.resolvedInputs = d.run.resolvedInputs → d'.run.profileColumns = d.run.profileColumns →
        d'.Cleared := fun hs hr hp hi hc => .inr (.inr ⟨hs, hr, p, hp, hopen, hasks.trans (questions_congr hi hc).symm⟩)
    cases hc with
    | @notes p' hp' hw hi hprofile =>
      have hs : p'.status = none := by
        simp only [RunPatch.loud, Bool.or_eq_false_iff, Option.isSome_eq_false_iff, Option.isNone_iff_eq_none] at hp'
        exact hp'.1.1.1.1.2
      refine hwaits ?_ hresult hp (by simp [RunData.apply, Run.update, hi])
        (by simp [RunData.apply, Run.update, hprofile.resolve_left hprofiles])
      simpa [RunData.apply, Run.update, hs] using hstatus
    | works hw => exact absurd hw hworks
    | answers hwait hquiet => exact absurd hquiet hnoisy
    | switches hc ht ha hlive hquiet =>
      refine hwaits ?_ hresult hp rfl rfl
      rcases hquiet with hs | hs | hs
      · exact .inl hs
      · exact .inr hs
      · exact absurd hs hnoisy
    | asks => exact hwaits hstatus hresult (List.mem_append_left _ hp) rfl rfl
    | closes hc => exact absurd hc hcloses
    | awaits ha hlive hunpaused hsealed hquiet => exact absurd hquiet hnoisy
    | @ends result p events hopen hends =>
      obtain ⟨manifest, outcome, code⟩ := result
      cases hends <;> exact .inr (.inl rfl)
    | _ => exact hwaits hstatus hresult hp rfl rfl

/-! ### The run of a step -/

/-- The run that a step is about, where it is about one. -/
def Tasks.about (t : Tasks) : Action → Option ℕ
  | .answer _ _ runId _ | .control _ _ runId _ _ => some runId
  | .continueDeletion index _ _ =>
    match t.deletions[index]? with
    | some ⟨_, _, .cancel runId :: _⟩ => some runId
    | _ => none
  | .enter _ | .resultStored .. =>
    match t.worker with
    | .handling job _ => some job.runId
    | _ => none
  | .publish | .splitStored _ => t.thread.map (·.job.runId)
  | _ => none

/-- A section that is about one run leaves the others as they are. -/
theorem section_about {a : Action} {p : Prog Tasks} (hp : t.Runs w a p) {id : ℕ} (habout : t.about a = some id)
    (hid : runId ≠ id) : Along (fun v x => (World.apply v x).runs.get runId = v.runs.get runId) u (p u).2 := by
  let Spares : World → Write → Prop := fun v x => (World.apply v x).runs.get runId = v.runs.get runId
  have hminds : ∀ {α : Type} {m : Prog α}, Minds (.of id) m → Writes Spares m u :=
    fun hm => (hm u).writes.mono fun _ _ hx => runs_of_about hx.about hid
  have hattempt : ∀ {α : Type} {m : Prog α} {k : Except Fault α → Prog Tasks}, Minds (.of id) m →
      (∀ result, ∃ t, k result = pure t) → Writes Spares (m.attempt >>= k) u := by
    intro α m k hm hk
    have hm : Along Spares u (m u).2 := hminds hm
    refine writes_bind (m := m.attempt) hm fun result _ => ?_
    obtain ⟨t, ht⟩ := hk result
    rw [ht]
    exact writes_pure t
  cases hp with
  | answer r tenantId runId' request hl =>
    cases habout
    have h : Minds (.of id) (answer r tenantId id request) := minds_answer rfl _ _
    exact writes_bind (hminds h) fun _ _ => writes_pure _
  | control r tenantId runId' c revision hl =>
    cases habout
    have h : Minds (.of id) (control r tenantId id c revision) := minds_control rfl _ _ _
    exact writes_bind (hminds h) fun _ _ => writes_pure _
  | continueDeletion index r ok task htask hl =>
    simp only [Tasks.about, htask] at habout
    obtain ⟨deletionId, tenantId, chores⟩ := task
    cases chores with
    | nil => cases habout
    | cons chore rest =>
      cases chore with
      | cancel runId' =>
        cases habout
        have h : Minds (.of id) (control r tenantId id .cancel none) := minds_control rfl _ _ _
        have h : Along Spares u (control r tenantId id .cancel none u).2 := hminds h
        have hcontinue : Writes Spares (continueDeletion r ok ⟨deletionId, tenantId, .cancel id :: rest⟩) u := by
          refine writes_bind (m := (control r tenantId id .cancel none).attempt) h fun result _ => ?_
          cases result with
          | ok _ => exact writes_pure _
          | error e => exact writes_bind (writes_write rfl) fun _ _ => writes_pure _
        refine writes_bind hcontinue fun rest _ => ?_
        cases rest <;> exact writes_pure _
      | _ => cases habout
  | enter r job entry h hl =>
    simp only [Tasks.about, h, Option.some.injEq] at habout
    subst habout
    exact hattempt (minds_enter rfl rfl entry) fun _ => ⟨_, rfl⟩
  | resultStored r stored job pending h =>
    simp only [Tasks.about, h, Option.some.injEq] at habout
    subst habout
    have h : Minds (.of job.runId) (resumeResult r job.runId pending stored >>= published) :=
      minds_bind (minds_resumeResult rfl pending stored fun _ => rfl) fun _ => minds_published _
    exact hattempt h fun _ => ⟨_, rfl⟩
  | publish job stage call h hl =>
    simp only [Tasks.about, h, Option.map_some, Option.some.injEq] at habout
    subst habout
    have h : Minds (.of job.runId) (publishStage job.runId call) := minds_publishStage rfl call
    refine hattempt h fun result => ?_
    rcases result with f | (_ | pending) <;> exact ⟨_, rfl⟩
  | splitStored stored job stage call pending h =>
    simp only [Tasks.about, h, Option.map_some, Option.some.injEq] at habout
    subst habout
    have h : Minds (.of job.runId) (resumeStage job.runId pending stored >>= fun _ => pure (none : Option PendingSplit)) :=
      minds_bind (minds_resumeStage rfl pending stored fun _ => rfl) fun _ => minds_pure _
    refine hattempt h fun result => ?_
    rcases result with f | (_ | pending) <;> exact ⟨_, rfl⟩
  | _ => cases habout

variable {e : System.Event}

/-- What every section of the step does along its records, the step does along its own. -/
theorem System.along_records {q : World → Write → Prop} (h : System.step w s e = some s')
    (hq : ∀ p, s.tasks.Runs w e.action p → Along q s.world (p s.world).2) : Along q s.world (System.records w s e) := by
  cases System.steps h with
  | @act a p hp =>
    have hrecords : System.records w s (.act a) = (p s.world).2 := by simp only [System.records, hp]
    rw [hrecords]
    exact hq p (section_runs hp)
  | @crash a p hp written =>
    have hrecords : System.records w s (.crash a written) = (p s.world).2.take written := by simp only [System.records, hp]
    rw [hrecords]
    exact (hq p (section_runs hp)).take written

/-- What no record of the section touches, the step leaves, wherever it is cut off. -/
theorem System.spared (h : System.step w s e = some s') (hspares : ∀ p, s.tasks.Runs w e.action p →
      Along (fun v x => (World.apply v x).runs.get runId = v.runs.get runId) s.world (p s.world).2) :
    s'.world.runs.get runId = s.world.runs.get runId := by
  have hkeeps : ∀ {l : List Write}, Along (fun v x => (World.apply v x).runs.get runId = v.runs.get runId) s.world l →
      (replay s.world l).runs.get runId = s.world.runs.get runId := fun hl =>
    hl.keeps (P := fun v : World => v.runs.get runId = s.world.runs.get runId) (fun _ _ hv hx => hx.trans hv) rfl
  cases System.steps h with
  | act hp => exact hkeeps (hspares _ (section_runs hp))
  | crash hp written => exact hkeeps ((hspares _ (section_runs hp)).take written)

theorem System.untouched (h : System.step w s e = some s') {id : ℕ} (habout : s.tasks.about e.action = some id)
    (hid : runId ≠ id) : s'.world.runs.get runId = s.world.runs.get runId :=
  System.spared h fun _ hp => section_about hp habout hid

/-- A handler that starts only looks at its run. -/
theorem System.untouched_start (h : System.step w s e = some s') (hstart : e.action = .start) :
    s'.world.runs.get runId = s.world.runs.get runId := by
  refine System.spared h fun p hp => ?_
  rw [hstart] at hp
  cases hp with
  | start job hworker =>
    -- it writes nothing about any run, so that it minds the next one as well
    have hminds : Minds (.of (runId + 1)) (startHandler job) := minds_startHandler job
    have hwrites : Along (fun v x => (World.apply v x).runs.get runId = v.runs.get runId) s.world
        (startHandler job s.world).2 :=
      (hminds s.world).writes.mono fun _ _ hx => runs_of_about hx.about (Nat.ne_of_lt (Nat.lt_succ_self runId))
    exact writes_bind (m := (startHandler job).attempt) hwrites fun _ _ => writes_pure _

theorem System.about_of_takesProfile {a : Action} (h : s.takesProfile a) : ∃ job columns,
    s.tasks.worker = .handling job (.queueing (.profiled columns)) ∧ s.tasks.about a = some job.runId := by
  unfold System.takesProfile at h
  split at h
  · split at h
    · rename_i job columns hworker
      exact ⟨job, columns, hworker, by simp only [Tasks.about, hworker]⟩
    · cases h
  · cases h

/-- A run that is ready is ready after a step that does not take up a profile of it. -/
theorem System.ready_kept (hi : s.Inv) (h : System.step w s e = some s') (hd : s.world.runs.get runId = some d)
    (hready : d.run.Ready) (hprofile : s.tasks.about e.action = some runId → s.takesProfile e.action = false) :
    ∃ d', s'.world.runs.get runId = some d' ∧ d'.run.Ready := by
  cases htakes : s.takesProfile e.action with
  | true =>
    obtain ⟨job, columns, -, habout⟩ := System.about_of_takesProfile htakes
    have hid : runId ≠ job.runId := by
      rintro rfl
      rw [hprofile habout] at htakes
      cases htakes
    exact ⟨d, (System.untouched h habout hid).trans hd, hready⟩
  | false =>
    let lw : Leeway := { Leeway.all with profiles := False }
    have hexcuses : lw.Excuses s e.action := { Leeway.Excuses.all s e.action with profiles := .inr htakes }
    obtain ⟨d', hd', hkeeps⟩ := System.step_climbs lw (R := fun d d' => d.run.Ready → d'.run.Ready) h hi hexcuses trivial
      (fun _ => id) (fun _ _ _ h h' => h' ∘ h) (fun _ hc hr => ready_apply hr hc id) hd
    exact ⟨d', hd', hkeeps hready⟩

theorem System.about_of_revivesEnded {a : Action} (h : s.revivesEnded a) : ∃ id, s.tasks.about a = some id := by
  unfold System.revivesEnded at h
  split at h
  · split at h
    · rename_i job classes hworker
      exact ⟨job.runId, by simp only [Tasks.about, hworker]⟩
    · cases h
  · cases hthread : s.tasks.thread with
    | none =>
      rw [hthread] at h
      cases h
    | some thread => exact ⟨thread.job.runId, by simp only [Tasks.about, hthread, Option.map_some]⟩
  · cases h

/-- A run that has ended with its result, or has none, is so after a step that does not
bring it back. -/
theorem System.closed_kept (hi : s.Inv) (h : System.step w s e = some s')
    (hclosed : ∀ d, s.world.runs.get runId = some d → d.result.isSome → d.run.status = .terminal)
    (hends : s.tasks.about e.action = some runId → s.revivesEnded e.action = false)
    (hd : s'.world.runs.get runId = some d) : d.result.isSome → d.run.status = .terminal := by
  cases hrevives : s.revivesEnded e.action with
  | true =>
    obtain ⟨id, habout⟩ := System.about_of_revivesEnded hrevives
    have hid : runId ≠ id := by
      rintro rfl
      rw [hends habout] at hrevives
      cases hrevives
    exact hclosed d ((System.untouched h habout hid).symm.trans hd)
  | false =>
    let lw : Leeway := { Leeway.all with revives := False }
    have hexcuses : lw.Excuses s e.action := { Leeway.Excuses.all s e.action with revives := .inr hrevives }
    let I : World → Prop := fun u => ∀ d, u.runs.get runId = some d → d.result.isSome → d.run.status = .terminal
    have hpaired : ∀ runId d, s.world.runs.get runId = some d → (lw.at e.action).torn ∨ d.Paired := fun _ _ _ => .inl trivial
    refine (System.writes hi h).keeps (I := I) hpaired (grants_of_excuses (hexcuses.at e.action)) (fun u x hu hx d hd => ?_)
      hclosed d hd
    rcases run_before hx hd with ⟨hsame, -⟩ | ⟨request, tenantId, -, -, rfl⟩ | ⟨c, drawsId, d₀, -, hd₀, hc, rfl⟩
    · exact hu d hsame
    · exact nofun
    · exact closed_apply (hu d₀ hd₀) hc id

/-! ### Questions that are closed -/

/-- The records of the loop of a cancel. -/
def superseding (runId : ℕ) (packets : List DecisionPacket) : List Write :=
  (packets.filter (·.status = .opened)).map fun p =>
    .on runId (.packetSet p.decisionPacketId .superseded (p.waitSetRevision + 1)) false

theorem supersedePackets_eq (hd : u.runs.get runId = some d) (packets : List DecisionPacket) :
    supersedePackets runId packets u = (.ok (), superseding runId packets) := by
  induction packets generalizing u d with
  | nil => rfl
  | cons p rest ih =>
    unfold supersedePackets superseding
    by_cases hp : p.status = .opened
    · rw [if_pos hp, List.filter_cons_of_pos (by simpa using hp), bind_of_ok (change_eq hd _), ih (get_on hd _ _)]
      rfl
    · rw [if_neg hp, List.filter_cons_of_neg (by simpa using hp)]
      exact ih hd

/-- What a cancel comes to of a run without a result: it is refused, or it closes what is
open and ends the run. -/
theorem cancel_cases (hd : u.runs.get runId = some d) (hopen : d.result = none) (r : Jobs.Readings) (tenantId : String)
    (revision : Option ℕ) : (control r tenantId runId .cancel revision u).2 = [] ∨
      (d.run.tenantId = tenantId ∧ Control.cancel.Passes d.run revision ∧ ∃ result l,
        (control r tenantId runId .cancel revision u).2 =
          [.on runId (.command ⟨u.ids + 1, .cancel, .running, none⟩) true] ++ superseding runId d.packets ++
            [.newId, .on runId (.finalized result canceled [.canceled]) true] ++ l) := by
  cases howned : owned (fun d : RunData => d.run.tenantId) tenantId (u.runs.get runId) with
  | error e => exact .inl (congrArg Prod.snd (ownedRun_bind_error howned _))
  | ok d₀ =>
    cases hd.symm.trans (owned_eq_ok howned)
    have htenant : d.run.tenantId = tenantId := owned_tenant howned
    cases hcheck : Control.cancel.check d.run revision with
    | error e =>
      have hrefused : control r tenantId runId .cancel revision u = (.error e, []) :=
        (ownedRun_bind_ok howned _).trans (check_bind_error hcheck _)
      exact .inl (congrArg Prod.snd hrefused)
    | ok _ =>
      let settle : ℕ → Run → Prog Unit := fun id run => do
        let _ ← change runId (.commandSet id .succeeded (some run.runRevision))
        if Control.cancel = .pause then pure () else wakeUnlessTerminal r runId
      have hbody : control r tenantId runId .cancel revision u =
          (createCommand runId .cancel .running >>= fun id => cancelRun runId d >>= settle id) u :=
        (ownedRun_bind_ok howned _).trans (check_bind_ok hcheck _)
      have hissue := createCommand_eq hd (CommandType.cancel) .running
      let issued : Change := .command ⟨u.ids + 1, .cancel, .running, none⟩
      have hd₁ := get_on hd issued true
      have hsupersede := supersedePackets_eq hd₁ d.packets
      obtain ⟨-, packets', hd₂⟩ := supersedePackets_final hd₁ d.packets
      rw [final, hsupersede] at hd₂
      let v : World := replay (replay u [Write.on runId issued true]) (superseding runId d.packets)
      have hd₃ : (replay v [Write.newId]).runs.get runId = some { d.apply issued with packets := packets' } := hd₂
      obtain ⟨run, hfinalize⟩ := finalizeRunWithResult_eq hd₃ hopen (some (v.ids + 1)) .canceled (some "USER_CANCELED")
        canceled [.canceled] (some d.run.runRevision) (by rintro e ⟨⟩; rfl)
      have hact : cancelRun runId d (replay u [Write.on runId issued true]) = (.ok run, superseding runId d.packets ++
          ([.newId] ++ [.on runId (.finalized ⟨v.ids + 1, .canceled, some "USER_CANCELED"⟩ canceled [.canceled]) true])) := by
        unfold cancelRun
        rw [bind_of_ok hsupersede, bind_of_ok (show newId v = (.ok (v.ids + 1), [.newId]) from rfl), hfinalize]
        rfl
      obtain ⟨l, hrest⟩ : ∃ l, ((cancelRun runId d >>= settle (u.ids + 1)) (replay u [Write.on runId issued true])).2 =
          (superseding runId d.packets ++ ([.newId] ++
            [.on runId (.finalized ⟨v.ids + 1, .canceled, some "USER_CANCELED"⟩ canceled [.canceled]) true])) ++ l :=
        ⟨_, congrArg Prod.snd (bind_of_ok hact)⟩
      refine .inr ⟨htenant, Control.passes hcheck, ⟨v.ids + 1, .canceled, some "USER_CANCELED"⟩, l, ?_⟩
      rw [hbody, bind_of_ok hissue, hrest]
      simp only [List.append_assoc, List.cons_append, List.nil_append]

/-! ### Answers and cancels that are cut off -/

/-- What follows a program and writes nothing leaves its records. -/
theorem records_bind {α β : Type} {m : Prog α} {k : α → Prog β} (hk : ∀ a v, (k a v).2 = []) (u : World) :
    ((m >>= k) u).2 = (m u).2 := by
  rw [bind_eq]
  cases m u with
  | mk result l =>
    cases result with
    | ok a => simp only [hk, List.append_nil]
    | error e => rfl

theorem RunData.Asked.congr (h : d.Asked) (hrun : d'.run = d.run) (hresult : d'.result = d.result)
    (hpackets : d'.packets = d.packets) : d'.Asked := by
  obtain ⟨hstatus, hopened, p, hp, hopen, hasks⟩ := h
  exact ⟨hrun ▸ hstatus, hresult.trans hopened, p, hpackets ▸ hp, hopen, hrun ▸ hasks⟩

/-- A run whose answer is accepted. -/
def RunData.accepting (d : RunData) (commandId packetId : ℕ) (request : AnswerRequest) (resolved : Inputs) : RunData :=
  ((d.apply (.command ⟨commandId, .answer, .accepted, none⟩)).apply
    (.packetSet packetId .answered (request.waitSetRevision + 1))).apply (.run (answered resolved commandId) true)

/-- The run after the records of an answer that is accepted, but for the wake. -/
theorem acceptance_done (hd : u.runs.get runId = some d) (commandId packetId : ℕ) (request : AnswerRequest)
    (resolved : Inputs) {r : Jobs.Readings} {l : List Write} (hwake : l = [] ∨ l = [.job r (.wake runId)]) (n : ℕ) :
    (replay u ((acceptance runId commandId packetId request resolved ++ l).take (n + 3))).runs.get runId =
      some (d.accepting commandId packetId request resolved) := by
  have hd' := get_on (get_on (get_on hd (.command ⟨commandId, .answer, .accepted, none⟩) true)
    (.packetSet packetId .answered (request.waitSetRevision + 1)) false) (.run (answered resolved commandId) true) false
  rw [acceptance, List.cons_append, List.cons_append, List.cons_append, List.take_succ_cons, List.take_succ_cons,
    List.take_succ_cons, replay_cons, replay_cons, replay_cons]
  rcases hwake with rfl | rfl
  · rw [List.nil_append, List.take_nil]
    exact hd'
  · cases n with
    | zero => exact hd'
    | succ n =>
      rw [List.nil_append, List.take_succ_cons, List.take_nil]
      exact hd'

/-- The answer that a run waits for makes it ready, unless it is cut off between the packet
that it closes and the run that it sends on. -/
theorem answer_asked (hs : u.Sound) (hd : u.runs.get runId = some d) (hasked : d.Asked) (r : Jobs.Readings)
    (tenantId : String) (request : AnswerRequest) {n : ℕ} (hn : n = 2 → ¬ d.Accepts tenantId request) :
    ∃ d', (replay u ((answer r tenantId runId request u).2.take n)).runs.get runId = some d' ∧ d'.Cleared := by
  cases answer_cases u r tenantId request with
  | refused e h =>
    rw [h, List.take_nil]
    exact ⟨d, hd, .inr (.inr hasked)⟩
  | accepted d₀ packet resolved l hd₀ haccepts hfind hrevision hopen hvalid hresolved hwake hrecords =>
    cases hd.symm.trans hd₀
    rw [hrecords]
    match n with
    | 0 => exact ⟨d, hd, .inr (.inr hasked)⟩
    | 1 => exact ⟨_, get_on hd (.command ⟨u.ids + 1, .answer, .accepted, none⟩) true, .inr (.inr (hasked.congr rfl rfl rfl))⟩
    | 2 => exact absurd haccepts (hn rfl)
    | n + 3 =>
      refine ⟨_, acceptance_done hd _ _ request resolved hwake n, .inl ?_⟩
      -- the packet is the one that asks all there is to ask
      obtain ⟨-, -, p, hp, hpopen, hasks⟩ := hasked
      have hsame : p = packet := eq_of_countP_le (hs.runs runId d hd).1.question hp (List.mem_of_find?_eq_some hfind)
        (by simpa using hpopen) (by simpa using hopen)
      subst hsame
      exact (resolves_of_ok hresolved).ready_of_answered (hasks ▸ answered_of_valid hvalid) _ true

/-- The run that is canceled has ended, unless the cancel is cut off between the packet that it
closes and the end of the run. -/
theorem cancel_asked (hs : u.Sound) (hd : u.runs.get runId = some d) (hasked : d.Asked) (r : Jobs.Readings)
    (tenantId : String) (revision : Option ℕ) {n : ℕ}
    (hn : n = 2 ∨ n = 3 → ¬ (d.run.tenantId = tenantId ∧ Control.cancel.Passes d.run revision)) :
    ∃ d', (replay u ((control r tenantId runId .cancel revision u).2.take n)).runs.get runId = some d' ∧ d'.Cleared := by
  rcases cancel_cases hd hasked.opened r tenantId revision with hnil | ⟨htenant, hpasses, result, l, hrecords⟩
  · rw [hnil, List.take_nil]
    exact ⟨d, hd, .inr (.inr hasked)⟩
  · let lw : Leeway := { Leeway.all with works := False, revives := False }
    have hrequests : Requests lw (control r tenantId runId .cancel revision) u :=
      requests_control (fun _ _ _ => .inl trivial) id trivial r tenantId runId .cancel revision (fun _ => trivial)
        fun _ _ _ _ _ _ => ⟨.inl trivial, .inl trivial⟩
    have hlawful : Along (World.Lawful lw) u (control r tenantId runId .cancel revision u).2 := hrequests.lawful
    obtain ⟨-, -, p, hp, hopen, -⟩ := id hasked
    obtain ⟨q, hq⟩ : ∃ q, d.packets.filter (·.status = .opened) = [q] := by
      have hle := (hs.runs runId d hd).1.question
      rw [List.countP_eq_length_filter] at hle
      have hmem : p ∈ d.packets.filter (·.status = .opened) := List.mem_filter.mpr ⟨hp, by simpa using hopen⟩
      exact List.length_eq_one_iff.mp (le_antisymm hle (List.length_pos_of_mem hmem))
    have hsuperseding : superseding runId d.packets =
        [.on runId (.packetSet q.decisionPacketId .superseded (q.waitSetRevision + 1)) false] := by
      rw [superseding, hq]
      rfl
    rw [hrecords, hsuperseding] at hlawful ⊢
    let issued : Change := .command ⟨u.ids + 1, .cancel, .running, none⟩
    let closing : Change := .packetSet q.decisionPacketId .superseded (q.waitSetRevision + 1)
    match n with
    | 0 => exact ⟨d, hd, .inr (.inr hasked)⟩
    | 1 => exact ⟨_, get_on hd issued true, .inr (.inr (hasked.congr rfl rfl rfl))⟩
    | 2 => exact absurd ⟨htenant, hpasses⟩ (hn (.inl rfl))
    | 3 => exact absurd ⟨htenant, hpasses⟩ (hn (.inr rfl))
    | n + 4 =>
      let ending : Change := .finalized result canceled [.canceled]
      let first : List Write := [.on runId issued true, .on runId closing false, .newId, .on runId ending true]
      have htake : ∀ rest : List Write, (first ++ rest).take (n + 4) = first ++ rest.take n := fun _ => rfl
      let before : List Write := [.on runId issued true, .on runId closing false, .newId]
      have hclosed : (replay u before).runs.get runId = some ((d.apply issued).apply closing) :=
        get_on (get_on hd issued true) closing false
      have hd' : (replay u first).runs.get runId = some (((d.apply issued).apply closing).apply ending) :=
        get_on hclosed ending true
      have hlawful : Along (World.Lawful lw) u (first ++ l) := hlawful
      obtain ⟨hfirst, hrest⟩ := along_append_iff.mp hlawful
      have hs' : (replay u first).Sound := hfirst.keeps (fun _ _ hu hx => world_sound_apply hu hx) hs
      obtain ⟨d', hd', hended⟩ := climbs_along (R := fun d d' => d.run.status = .terminal → d'.run.status = .terminal)
        (hrest.take n) hs' (fun _ => id) (fun _ _ _ h h' => h' ∘ h) (fun _ hc => terminal_apply hc id) hd'
      refine ⟨d', ?_, .inr (.inl (hended rfl))⟩
      show (replay u ((first ++ l).take (n + 4))).runs.get runId = some d'
      rwa [htake, replay_append]

/-! ### Runs past their profile -/

instance (workflowStep : String) : Decidable (Trains workflowStep) := inferInstanceAs (Decidable (_ ∨ _))

/-- The job of the run has come past its profile. -/
def World.Trained (u : World) (runId : ℕ) : Prop := ∃ row ∈ u.jobs.lookup runId, Trains row.workflowStep

instance (u : World) (runId : ℕ) : Decidable (u.Trained runId) :=
  inferInstanceAs (Decidable (∃ row ∈ u.jobs.lookup runId, Trains row.workflowStep))

namespace System

/-- The run, if it is past its profile and not ready. -/
def unready (s : System) (runId : ℕ) : Option RunData :=
  (s.world.runs.get runId).filter fun d => s.world.Trained runId ∧ ¬ d.run.Ready

/-- A cancel that would be cut off between the packet that it closes and the end of the run. -/
def cutsCancel (s : System) (tenantId : String) (runId : ℕ) (revision : Option ℕ) (written : ℕ) : Bool :=
  (written = 2 ∨ written = 3) && (s.unready runId).any fun d =>
    d.run.tenantId = tenantId ∧ Control.cancel.Passes d.run revision

/-- A crash that leaves a run past its profile with neither the answer nor the question that it
needs. -/
def strands (s : System) : Event → Bool
  | .crash (.answer _ tenantId runId request) written =>
    written = 2 && (s.unready runId).any fun d => d.Accepts tenantId request
  | .crash (.control _ tenantId runId .cancel revision) written => s.cutsCancel tenantId runId revision written
  | .crash (.continueDeletion index _ _) written =>
    match s.tasks.deletions[index]? with
    | some ⟨_, tenantId, .cancel runId :: _⟩ => s.cutsCancel tenantId runId none written
    | _ => false
  | _ => false

theorem any_unready {p : RunData → Bool} (h : (s.unready runId).any p = false) (hd : s.world.runs.get runId = some d)
    (htrained : s.world.Trained runId) (hready : ¬ d.run.Ready) : p d = false :=
  any_eq_false h (mem_filter hd (decide_eq_true ⟨htrained, hready⟩))

/-- A cancel that is not cut off there. -/
theorem spares_of_cutsCancel {tenantId : String} {revision : Option ℕ} {n : ℕ}
    (h : s.cutsCancel tenantId runId revision n = false) (hd : s.world.runs.get runId = some d)
    (htrained : s.world.Trained runId) (hready : ¬ d.run.Ready) (hn : n = 2 ∨ n = 3) :
    ¬ (d.run.tenantId = tenantId ∧ Control.cancel.Passes d.run revision) := by
  simp only [cutsCancel, hn, decide_true, Bool.true_and] at h
  simpa using any_unready h hd htrained hready

/-- What a step writes is what its section writes, up to where it is cut off. -/
theorem section_written (h : System.step w s e = some s') : ∃ p n, s.tasks.Runs w e.action p ∧
    s'.world = replay s.world ((p s.world).2.take n) ∧ (e = .crash e.action n ∨ (e.dies = false ∧ 4 ≤ n)) := by
  cases System.steps h with
  | @act a p hp =>
    refine ⟨p, (p s.world).2.length + 4, section_runs hp, ?_, .inr ⟨rfl, Nat.le_add_left _ _⟩⟩
    rw [List.take_of_length_le (Nat.le_add_right _ _)]
    rfl
  | @crash a p hp written => exact ⟨p, written, section_runs hp, rfl, .inl rfl⟩

/-- A step that works is about one run. -/
theorem about_of_works (h : System.step w s e = some s') (hworks : e.action.works) :
    e.action = .start ∨ ∃ id, s.tasks.about e.action = some id := by
  obtain ⟨p, -, hp, -⟩ := section_written h
  generalize e.action = a at *
  cases hp with
  | start => exact .inl rfl
  | enter r job entry hworker => exact .inr ⟨job.runId, by simp only [Tasks.about, hworker]⟩
  | resultStored r stored job pending hworker => exact .inr ⟨job.runId, by simp only [Tasks.about, hworker]⟩
  | publish job stage call hthread => exact .inr ⟨job.runId, by simp only [Tasks.about, hthread, Option.map_some]⟩
  | splitStored stored job stage call pending hthread =>
    exact .inr ⟨job.runId, by simp only [Tasks.about, hthread, Option.map_some]⟩
  | _ => cases hworks

theorem works_of_takesProfile {a : Action} (h : a.works = false) : s.takesProfile a = false := by
  cases a with
  | enter => cases h
  | _ => rfl

theorem works_of_revivesEnded {a : Action} (h : a.works = false) : s.revivesEnded a = false := by
  cases a with
  | enter | splitStored => cases h
  | _ => rfl

end System

/-- A deletion that cancels a run writes what the cancel writes, and then no more about runs. -/
theorem continueDeletion_records (r : Jobs.Readings) (ok : Bool) {task : DeletionTask} {rest : List Chore}
    (h : task.chores = .cancel runId :: rest) : ∃ l, (continueDeletion r ok task u).2 =
      (control r task.tenantId runId .cancel none u).2 ++ l ∧
      ∀ (v : World) (n : ℕ), (replay v (l.take n)).runs = v.runs := by
  unfold continueDeletion
  rw [h]
  dsimp only [Chore.perform]
  rw [attempt_bind]
  refine ⟨_, rfl, fun v n => ?_⟩
  cases (control r task.tenantId runId .cancel none u).1 with
  | ok _ =>
    show (replay v (([] : List Write).take n)).runs = v.runs
    rw [List.take_nil]
    rfl
  | error e =>
    show (replay v ([Write.deletionSet task.deletionId .failed].take n)).runs = v.runs
    cases n with
    | zero => rfl
    | succ n =>
      rw [List.take_succ_cons, List.take_nil]
      rfl

/-- A step that closes the question of a run that waits for the answer. -/
theorem System.asked_kept (hi : s.Inv) (h : System.step w s e = some s') (hd : s.world.runs.get runId = some d)
    (hasked : d.Asked) (hready : ¬ d.run.Ready) (hcloses : e.action.closes)
    (hdies : e.dies → s.world.Trained runId ∧ s.strands e = false) :
    ∃ d', s'.world.runs.get runId = some d' ∧ d'.Cleared := by
  obtain ⟨p, n, hp, hworld, hn⟩ := System.section_written h
  cases habout : s.tasks.about e.action with
  | some id =>
    by_cases hid : runId = id
    swap
    · exact ⟨d, (System.untouched h habout hid).trans hd, .inr (.inr hasked)⟩
    subst hid
    rw [hworld]
    generalize ha : e.action = a at *
    cases hp with
    | answer r tenantId runId' request =>
      cases habout
      rw [Tasks.request, records_bind fun _ _ => rfl]
      refine answer_asked hi.sound hd hasked r tenantId request fun htwo => ?_
      rcases hn with rfl | ⟨-, hfour⟩
      · obtain ⟨htrained, hspares⟩ := hdies rfl
        simp only [System.strands, htwo, decide_true, Bool.true_and] at hspares
        simpa using System.any_unready hspares hd htrained hready
      · omega
    | control r tenantId runId' c revision =>
      cases habout
      cases c with
      | cancel =>
        rw [Tasks.request, records_bind fun _ _ => rfl]
        refine cancel_asked hi.sound hd hasked r tenantId revision fun hcut => ?_
        rcases hn with rfl | ⟨-, hfour⟩
        · obtain ⟨htrained, hspares⟩ := hdies rfl
          exact System.spares_of_cutsCancel hspares hd htrained hready hcut
        · omega
      | pause | resume => cases hcloses
    | continueDeletion index r ok task htask =>
      obtain ⟨deletionId, tenantId, chores⟩ := task
      simp only [Tasks.about, htask] at habout
      cases chores with
      | nil => cases habout
      | cons chore rest =>
        cases chore with
        | cancel runId' =>
          cases habout
          have hchores : (DeletionTask.mk deletionId tenantId (.cancel runId :: rest)).chores = .cancel runId :: rest := rfl
          obtain ⟨l, hrecords, hrest⟩ := continueDeletion_records (u := s.world) r ok hchores
          rw [records_bind fun rest _ => by cases rest <;> rfl, hrecords, List.take_append, replay_append, hrest]
          refine cancel_asked hi.sound hd hasked r tenantId none fun hcut => ?_
          rcases hn with rfl | ⟨-, hfour⟩
          · obtain ⟨htrained, hspares⟩ := hdies rfl
            simp only [System.strands, htask] at hspares
            exact System.spares_of_cutsCancel hspares hd htrained hready hcut
          · omega
        | _ => cases habout
    | _ => cases hcloses
  | none =>
    rw [hworld]
    generalize ha : e.action = a at *
    cases hp with
    | answer => cases habout
    | control => cases habout
    | continueDeletion index r ok task htask =>
      let lw : Leeway := { Leeway.all with works := False, closes := False, profiles := False, revives := False }
      have haside : Aside (continueDeletion r ok task) := aside_continueDeletion r ok task fun runId rest hchores => by
        obtain ⟨deletionId, tenantId, chores⟩ := task
        cases hchores
        simp only [Tasks.about, htask] at habout
        cases habout
      have hlawful : Along (World.Lawful lw) s.world (continueDeletion r ok task s.world).2 :=
        (requests_aside haside id s.world).1.lawful
      rw [records_bind fun rest _ => by cases rest <;> rfl]
      obtain ⟨d', hd', hcleared⟩ := climbs_along (R := fun d d' => d.Cleared → d'.Cleared) (hlawful.take n) hi.sound
        (fun _ => id) (fun _ _ _ h h' => h' ∘ h) (fun _ hc hcleared => cleared_apply hcleared hc id id id id) hd
      exact ⟨d', hd', hcleared (.inr (.inr hasked))⟩
    | _ => cases hcloses

/-- A run past its profile is ready, has ended or waits for the answer after any step, unless the
process dies in a step that strands it. -/
theorem System.cleared_kept (hi : s.Inv) (h : System.step w s e = some s') (hd : s.world.runs.get runId = some d)
    (hcleared : d.Cleared)
    (hworks : e.action.works → s.tasks.about e.action = some runId → d.run.Ready ∧ s.takesProfile e.action = false)
    (hdies : e.action.closes → e.dies → s.world.Trained runId ∧ s.strands e = false) :
    ∃ d', s'.world.runs.get runId = some d' ∧ d'.Cleared := by
  cases hw : e.action.works with
  | true =>
    rcases System.about_of_works h hw with hstart | ⟨id, habout⟩
    · exact ⟨d, (System.untouched_start h hstart).trans hd, hcleared⟩
    by_cases hid : runId = id
    · subst hid
      obtain ⟨hready, htakes⟩ := hworks hw habout
      obtain ⟨d', hd', hready'⟩ := System.ready_kept hi h hd hready fun _ => htakes
      exact ⟨d', hd', .inl hready'⟩
    · exact ⟨d, (System.untouched h habout hid).trans hd, hcleared⟩
  | false =>
    have htakes := System.works_of_takesProfile (s := s) hw
    have hrevives := System.works_of_revivesEnded (s := s) hw
    by_cases hready : d.run.Ready
    · obtain ⟨d', hd', hready'⟩ := System.ready_kept hi h hd hready fun _ => htakes
      exact ⟨d', hd', .inl hready'⟩
    let lw : Leeway := { Leeway.all with profiles := False, revives := False }
    have hexcuses : lw.Excuses s e.action :=
      { Leeway.Excuses.all s e.action with profiles := .inr htakes, revives := .inr hrevives }
    cases hcloses : e.action.closes with
    | true =>
      rcases hcleared with hready' | hended | hasked
      · exact absurd hready' hready
      · obtain ⟨d', hd', hkeeps⟩ := System.step_climbs lw (R := fun d d' => d.run.status = .terminal → d'.run.status = .terminal)
          h hi hexcuses trivial (fun _ => id) (fun _ _ _ h h' => h' ∘ h) (fun _ hc => terminal_apply hc id) hd
        exact ⟨d', hd', .inr (.inl (hkeeps hended))⟩
      · exact System.asked_kept hi h hd hasked hready hcloses (hdies hcloses)
    | false =>
      have hno : ∀ {b : Bool}, b = false → ¬ (b = true) := fun h h' => by rw [h] at h'; cases h'
      obtain ⟨d', hd', hkeeps⟩ := System.step_climbs lw (R := fun d d' => d.Cleared → d'.Cleared) h hi hexcuses trivial
        (fun _ => id) (fun _ _ _ h h' => h' ∘ h) (fun _ hc hr => cleared_apply hr hc (hno hw) id (hno hcloses) id) hd
      exact ⟨d', hd', hkeeps hcleared⟩

end AutomlApi.Workflow
