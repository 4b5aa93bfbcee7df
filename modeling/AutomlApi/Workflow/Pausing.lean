import AutomlApi.Workflow.Readiness

/-! A pause holds. A run that has been paused stays so at every point between two records,
until it is resumed or ends. The steps that take the lock without looking whether the run
has been paused meanwhile make the exceptions. -/

namespace AutomlApi.Workflow

open Durable
open Runs (exec run_of_exec)
open Worker.LocalExecutionWorker (standard)

variable {lw : Leeway} {w : Worker.LocalExecutionWorker} {s s' : System} {u : World} {e : System.Event} {runId : ℕ}
  {d : RunData}

/-! ### Runs that are halted -/

/-- The run has been paused, or has ended. -/
def RunData.Halted (d : RunData) : Prop := d.run.status = .paused ∨ d.run.status = .terminal

/-- The run is there, and has been paused, or has ended. -/
def World.Halted (u : World) (runId : ℕ) : Prop := ∃ d, u.runs.get runId = some d ∧ d.Halted

/-- What the record leaves of the run that is halted. -/
def World.Halts (runId : ℕ) (u v : World) : Prop := u.Halted runId → v.Halted runId

/-- A record that leaves the run halted if it is. -/
abbrev World.Spares (runId : ℕ) (u : World) (x : Write) : Prop := u.Halts runId (Replay.apply u x)

theorem halts_refl (runId : ℕ) (u : World) : u.Halts runId u := id

theorem halts_trans (runId : ℕ) (u v v' : World) (h : u.Halts runId v) (h' : v.Halts runId v') : u.Halts runId v' := h' ∘ h

theorem halts_of_eq {u v : World} (h : v.runs.get runId = u.runs.get runId) : u.Halts runId v :=
  fun ⟨d, hd, hhalted⟩ => ⟨d, h.trans hd, hhalted⟩

/-- A change that neither works on a run that has been paused or has ended nor is of a command. -/
theorem halted_apply (h : d.Halted) {c : Change} (hc : Lawful lw d c) (hoverrides : ¬ lw.overrides) (hrevives : ¬ lw.revives)
    (hcommands : ¬ lw.commands) : (d.apply c).Halted := by
  have hbusy : ∀ {P : Prop}, (lw.revives ∨ d.run.status ≠ .terminal) → (lw.overrides ∨ d.run.status ≠ .paused) → P := by
    intro P hlive hunpaused
    rcases h with hpaused | hended
    · exact absurd hpaused (hunpaused.resolve_left hoverrides)
    · exact absurd hended (hlive.resolve_left hrevives)
  cases hc with
  | @notes p hp hw =>
    simp only [RunPatch.loud, Bool.or_eq_false_iff, Option.isSome_eq_false_iff, Option.isNone_iff_eq_none] at hp
    obtain ⟨⟨⟨⟨⟨-, hs⟩, -⟩, -⟩, -⟩, -⟩ := hp
    have hsame : (d.run.update p false).status = d.run.status := by simp [Run.update, hs]
    exact h.imp hsame.trans hsame.trans
  | works hw hp hlive hunpaused => exact hbusy hlive hunpaused
  | answers hwait =>
    rcases h with hpaused | hended
    · cases hwait.symm.trans hpaused
    · cases hwait.symm.trans hended
  | switches hc => exact absurd hc hcommands
  | awaits ha hlive hunpaused => exact hbusy hlive hunpaused
  | @ends result p events hopen hends =>
    have hstatus := foldl_append_eq (fun d => d.run.status) (fun _ _ _ => rfl)
      { d with run := d.run.update p true, result := some result } events (d.run.update p true).runRevision
    refine .inr (hstatus.trans ?_)
    obtain ⟨manifest, outcome, code⟩ := result
    cases hends <;> rfl
  | _ => exact h

/-! ### Cancels -/

/-- A record that creates no run, and that ends a run if it sets the status of one. -/
def Write.halts : Write → Bool
  | .run .. => false
  | .on _ (.run p _) _ | .on _ (.mutated p _) _ | .on _ (.finalized _ p _) _ => p.status.all (· = .terminal)
  | _ => true

theorem halts_apply {x : Write} (hx : x.halts) : u.Halts runId (u.apply x) := by
  have hupdate : ∀ (bump : Bool) {p : RunPatch} {d : RunData}, p.status.all (· = .terminal) → d.Halted →
      (d.run.update p bump).status = .paused ∨ (d.run.update p bump).status = .terminal := by
    intro bump p d hp hd
    cases hs : p.status with
    | none =>
      have hsame : (d.run.update p bump).status = d.run.status := by simp [Run.update, hs]
      exact hd.imp hsame.trans hsame.trans
    | some status =>
      rw [hs] at hp
      have hended : status = .terminal := by simpa using hp
      exact .inr (by simp [Run.update, hs, hended])
  rintro ⟨d, hd, hhalted⟩
  cases x with
  | run => cases hx
  | on id c drawsId =>
    by_cases hid : runId = id
    · subst hid
      refine ⟨d.apply c, get_on hd c drawsId, ?_⟩
      cases c with
      | run p bump => exact hupdate bump hx hhalted
      | mutated p payload => exact hupdate true hx hhalted
      | finalized result p events =>
        have hstatus := foldl_append_eq (fun d => d.run.status) (fun _ _ _ => rfl)
          { d with run := d.run.update p true, result := some result } events (d.run.update p true).runRevision
        exact (hupdate true hx hhalted).imp hstatus.trans hstatus.trans
      | _ => exact hhalted
    · refine ⟨d, ?_, hhalted⟩
      simp only [World.apply, get_modifyKey]
      rwa [if_neg hid]
  | _ => exact ⟨d, hd, hhalted⟩

theorem halting_supersedePackets (packets : List DecisionPacket) : Always Write.halts (supersedePackets runId packets) := by
  induction packets with
  | nil => exact always_pure _
  | cons p rest ih =>
    unfold supersedePackets
    split
    · exact always_bind (always_change rfl) fun _ => ih
    · exact ih

/-- A cancel only ends its run. -/
theorem halting_cancel (r : Jobs.Readings) (tenantId : String) (revision : Option ℕ) :
    Always Write.halts (control r tenantId runId .cancel revision) := by
  have hwake : Always Write.halts (wakeUnlessTerminal r runId) := by
    refine always_read_bind fun v => ?_
    cases v.jobs.lookup runId with
    | none => exact always_pure _
    | some job =>
      dsimp only
      split
      · exact always_pure _
      · exact always_bind (always_onJobs rfl) fun _ => always_pure _
  have hcancel : ∀ d, Always Write.halts (cancelRun runId d) := by
    intro d
    refine always_bind (halting_supersedePackets d.packets) fun _ => always_bind (always_newId rfl) fun resultId => ?_
    refine always_bind always_find fun d' => always_bind (always_check _) fun _ => ?_
    split
    · exact always_raise _
    · exact always_bind (always_changeWithId fun _ => rfl) fun _ => always_pure _
  have howned : Always Write.halts (ownedRun tenantId runId) := always_read_bind fun _ => always_check _
  refine always_bind howned fun d => always_bind (always_check _) fun _ => ?_
  refine always_bind (always_bind (always_changeWithId fun _ => rfl) fun _ => always_pure _) fun id => ?_
  refine always_bind (hcancel d) fun run => always_bind (always_change rfl) fun _ => ?_
  split
  · exact always_pure _
  · exact hwake

/-- A deletion only ends runs. -/
theorem halting_continueDeletion (r : Jobs.Readings) (ok : Bool) (task : DeletionTask) :
    Always Write.halts (continueDeletion r ok task) := by
  by_cases hcancel : ∃ id rest, task.chores = .cancel id :: rest
  · obtain ⟨id, rest, hchores⟩ := hcancel
    unfold continueDeletion
    rw [hchores]
    have hperform : Always Write.halts (control r task.tenantId id .cancel none) := halting_cancel r task.tenantId none
    refine always_bind (m := (control r task.tenantId id .cancel none).attempt) hperform fun result => ?_
    cases result with
    | ok _ => exact always_pure _
    | error e => exact always_bind (always_write rfl) fun _ => always_pure _
  · refine fun v => (aside_continueDeletion r ok task (fun id rest h => hcancel ⟨id, rest, h⟩) v).mono fun _ x hx => ?_
    cases x with
    | run | job => cases hx
    | on id c drawsId =>
      cases c with
      | artifactState => rfl
      | _ => cases hx
    | _ => rfl

/-! ### Steps -/

/-- A command that does not pass its checks writes nothing. -/
theorem control_nil (hd : u.runs.get runId = some d) (r : Jobs.Readings) {tenantId : String} {c : Control} {revision : Option ℕ}
    (h : ¬ (d.run.tenantId = tenantId ∧ c.Passes d.run revision)) : (control r tenantId runId c revision u).2 = [] := by
  cases howned : owned (fun d : RunData => d.run.tenantId) tenantId (u.runs.get runId) with
  | error e => exact congrArg Prod.snd (ownedRun_bind_error howned _)
  | ok d₀ =>
    cases hd.symm.trans (owned_eq_ok howned)
    cases hcheck : c.check d.run revision with
    | error e =>
      have hrefused : control r tenantId runId c revision u = (.error e, []) :=
        (ownedRun_bind_ok howned _).trans (check_bind_error hcheck _)
      exact congrArg Prod.snd hrefused
    | ok _ => exact absurd ⟨owned_tenant howned, Control.passes hcheck⟩ h

/-- A step that resumes the run. -/
def System.resumes (s : System) (runId : ℕ) : Action → Bool
  | .control _ tenantId id .resume revision => id = runId && (s.world.runs.get runId).any fun d =>
      d.run.tenantId = tenantId ∧ Control.resume.Passes d.run revision
  | _ => false

/-- A step that neither works on a run that has been paused nor resumes the run. -/
def System.SparesPause (runId : ℕ) (s : System) (e : System.Event) : Prop :=
  s.overridesPause e.action = false ∧ s.resumes runId e.action = false

instance (s : System) (e : System.Event) : Decidable (s.SparesPause runId e) := inferInstanceAs (Decidable (_ ∧ _))

theorem spares_lawful {x : Write} (hx : u.Lawful lw x) (hoverrides : ¬ lw.overrides) (hrevives : ¬ lw.revives)
    (hcommands : ¬ lw.commands) : u.Spares runId x := by
  rintro ⟨d, hd, hhalted⟩
  rcases run_moves hx hd with hsame | ⟨c, hc, hmoved⟩
  · exact ⟨d, hsame, hhalted⟩
  · exact ⟨_, hmoved, halted_apply hhalted hc hoverrides hrevives hcommands⟩

/-- A command leaves a run that has been paused halted, unless it resumes it. -/
theorem spares_control (hd : s.world.runs.get runId = some d) (hpaused : d.run.status = .paused) (r : Jobs.Readings)
    (tenantId : String) (c : Control) (revision : Option ℕ)
    (hresumes : s.resumes runId (.control r tenantId runId c revision) = false) :
    Writes (World.Spares runId) (control r tenantId runId c revision) s.world := by
  have hnil : ¬ (d.run.tenantId = tenantId ∧ c.Passes d.run revision) →
      Writes (World.Spares runId) (control r tenantId runId c revision) s.world := by
    intro hpasses
    rw [Writes, control_nil hd r hpasses]
    trivial
  cases c with
  | pause => exact hnil fun h => h.2.pause rfl hpaused
  | resume =>
    refine hnil fun hpasses => ?_
    simp [System.resumes, hd, hpasses] at hresumes
  | cancel => exact (halting_cancel r tenantId revision s.world).mono fun _ _ hx => halts_apply hx

/-- A step about a run that has been paused does not come to one that has ended. -/
theorem System.revivesEnded_of_paused {a : Action} (habout : s.tasks.about a = some runId)
    (hd : s.world.runs.get runId = some d) (hpaused : d.run.status = .paused) : s.revivesEnded a = false := by
  cases a with
  | enter r =>
    simp only [System.revivesEnded]
    split
    · rename_i job classes hworker
      simp only [Tasks.about, hworker, Option.some.injEq] at habout
      rw [habout, hd]
      simp [hpaused]
    · rfl
  | splitStored stored =>
    cases stored with
    | false => rfl
    | true =>
      obtain ⟨thread, hthread, hid⟩ := Option.map_eq_some_iff.mp habout
      simp [System.revivesEnded, hthread, hid, hd, hpaused]
  | _ => rfl

/-- A step that is spared to a run that has been paused leaves it halted all along. -/
theorem System.spares_step (hi : s.Inv) (h : System.step w s e = some s') (hd : s.world.runs.get runId = some d)
    (hpaused : d.run.status = .paused) (hok : s.SparesPause runId e) :
    Along (World.Spares runId) s.world (System.records w s e) := by
  obtain ⟨hoverrides, hresumes⟩ := hok
  by_cases hother : ∃ id, s.tasks.about e.action = some id ∧ runId ≠ id
  · obtain ⟨id, habout, hid⟩ := hother
    exact System.along_records h fun p hp => (section_about hp habout hid).mono fun _ _ hx => halts_of_eq hx
  cases hcommands : e.action.commands with
  | true =>
    refine System.along_records h fun p hp => ?_
    generalize e.action = a at *
    cases hp with
    | control r tenantId id c revision =>
      have hid : runId = id := by_contra fun hid => hother ⟨id, rfl, hid⟩
      subst hid
      exact writes_bind (spares_control hd hpaused r tenantId c revision hresumes) fun _ _ => writes_pure _
    | continueDeletion index r ok task =>
      have hspares : Durable.Writes (World.Spares runId) (continueDeletion r ok task) s.world :=
        (halting_continueDeletion r ok task s.world).mono fun _ _ hx => halts_apply hx
      refine writes_bind hspares fun rest _ => ?_
      cases rest <;> exact writes_pure _
    | _ => cases hcommands
  | false =>
    have hrevives : s.revivesEnded e.action = false := by
      cases hr : s.revivesEnded e.action with
      | false => rfl
      | true =>
        obtain ⟨id, habout⟩ := System.about_of_revivesEnded hr
        have hid : runId = id := by_contra fun hid => hother ⟨id, habout, hid⟩
        rw [System.revivesEnded_of_paused (hid ▸ habout) hd hpaused] at hr
        cases hr
    let lw : Leeway := { Leeway.all with overrides := False, revives := False }
    have hexcuses : lw.Excuses s e.action :=
      { Leeway.Excuses.all s e.action with overrides := .inr hoverrides, revives := .inr hrevives }
    have hno : ¬ (lw.at e.action).commands := by
      show ¬ (e.action.commands = true)
      rw [hcommands]
      exact Bool.false_ne_true
    have hpaired : ∀ runId d, s.world.runs.get runId = some d → (lw.at e.action).torn ∨ d.Paired := fun _ _ _ => .inl trivial
    exact ((System.writes hi h).lawful hpaired (grants_of_excuses (hexcuses.at e.action))).mono
      fun _ _ hx => spares_lawful hx id id hno

/-! ### Histories -/

/-- A history begins with where it starts. -/
theorem System.worlds_eq_cons {ok : System → System.Event → Prop} {es : List System.Event}
    (h : Runs.Run (System.step w) ok s es s') (hi : s.Inv) : ∃ l, System.worlds w s es = s.world :: l := by
  induction h with
  | nil s => exact ⟨[], rfl⟩
  | @cons s u s' e es hok hstep rest ih =>
    rw [System.worlds, hstep]
    cases hrecords : System.records w s e with
    | nil =>
      have hsame : u.world = s.world := by
        rw [(System.writes hi hstep).world, hrecords]
        rfl
      obtain ⟨l, hl⟩ := ih (System.inv_step hi hstep)
      exact ⟨l, hsame ▸ hl⟩
    | cons x records => exact ⟨_, rfl⟩

/-- Along the records of such steps the run is paused, up to where it has ended. -/
theorem System.paused_until_ended {t : System} {fs : List System.Event}
    (h : Runs.Run (System.step w) (System.SparesPause runId) s fs t) (hi : s.Inv) (hd : s.world.runs.get runId = some d)
    (hpaused : d.run.status = .paused) {l l' : List World} {v : World} (hv : System.worlds w s fs = l ++ v :: l')
    (hlive : ∀ u ∈ l, ∀ d, u.runs.get runId = some d → d.run.status ≠ .terminal) : v.Halted runId := by
  induction h generalizing d l with
  | nil s =>
    obtain ⟨-, hcons⟩ | ⟨-, hcons⟩ := List.append_eq_singleton_iff.mp hv.symm
    · cases hcons
      exact ⟨d, hd, .inl hpaused⟩
    · cases hcons
  | @cons s s' t e fs hok hstep rest ih =>
    have hstart : s.world.Halted runId := ⟨d, hd, .inl hpaused⟩
    have hclimbs := System.spares_step hi hstep hd hpaused hok
    have hnext : s'.world = replay s.world (System.records w s e) := (System.writes hi hstep).world
    have htrail := (hclimbs.climbs_trail (halts_refl runId) (halts_trans runId)).2
    have hend : s'.world.Halted runId := by
      rw [hnext]
      exact hclimbs.climbs (halts_refl runId) (halts_trans runId) hstart
    have hi' := System.inv_step hi hstep
    obtain ⟨later, hlater⟩ := System.worlds_eq_cons rest hi'
    rw [System.worlds, hstep] at hv
    rcases List.append_eq_append_iff.mp hv with ⟨m, hl, hrest⟩ | ⟨m, hbefore, hrest⟩
    · obtain ⟨d', hd', hpaused' | hended⟩ := hend
      · exact ih hi' hd' hpaused' hrest fun u hu => hlive u (hl ▸ List.mem_append_right _ hu)
      · have hrest : System.worlds w s' fs = m ++ v :: l' := hrest
        rw [hlater] at hrest
        cases m with
        | nil =>
          cases hrest
          exact ⟨d', hd', .inr hended⟩
        | cons u m =>
          have hu : s'.world ∈ l := by
            rw [hl, ← (List.cons.inj hrest).1]
            exact List.mem_append_right _ List.mem_cons_self
          exact absurd hended (hlive _ hu d' hd')
    · cases m with
      | nil =>
        have hrest : v :: l' = System.worlds w s' fs := hrest
        rw [hlater] at hrest
        exact (List.cons.inj hrest).1 ▸ hend
      | cons u m =>
        have hmem : v ∈ trail s.world (System.records w s e) := by
          rw [hbefore, (List.cons.inj hrest).1]
          exact List.mem_append_right _ List.mem_cons_self
        exact (htrail v hmem).1 hstart

/-- Where no step works on a run that has been paused, a run that has been paused stays so,
wherever the history is looked at, until it is resumed or ends. -/
theorem pause_kept (w : Worker.LocalExecutionWorker) (es fs : List System.Event) (s t : System) (runId : ℕ) (d : RunData)
    (h : Runs.Run (System.step w) Runs.Free System.init es s) (h' : Runs.Run (System.step w) (System.SparesPause runId) s fs t)
    (hd : s.world.runs.get runId = some d) (hpaused : d.run.status = .paused) (l l' : List World) (v : World)
    (hv : System.worlds w s fs = l ++ v :: l')
    (hlive : ∀ u ∈ l, ∀ d, u.runs.get runId = some d → d.run.status ≠ .terminal) :
    ∃ d', v.runs.get runId = some d' ∧ (d'.run.status = .paused ∨ d'.run.status = .terminal) :=
  System.paused_until_ended h' (System.inv_run h) hd hpaused hv hlive

/-- A run is paused while its profile is read, and the profile sends it on. -/
theorem pause_lost : ¬ ∀ (w : Worker.LocalExecutionWorker) (es fs : List System.Event) (s t : System) (runId : ℕ) (d : RunData),
    Runs.Run (System.step w) Runs.Free System.init es s →
      Runs.Run (System.step w) (fun s e => e.dies = false ∧ s.resumes runId e.action = false) s fs t →
      s.world.runs.get runId = some d → d.run.status = .paused → ∀ (l l' : List World) (v : World),
        System.worlds w s fs = l ++ v :: l' →
          (∀ u ∈ l, ∀ d, u.runs.get runId = some d → d.run.status ≠ .terminal) →
            ∃ d', v.runs.get runId = some d' ∧ (d'.run.status = .paused ∨ d'.run.status = .terminal) := by
  intro hall
  let es : List System.Event := System.opening false ++ System.profiling 2 ++ [.act (.control (System.second 3) "t" 4 .pause none)]
  let fs : List System.Event := [.act (.enter (System.second 4))]
  let status : World → Option RunStatus := fun u => (u.runs.get 4).map (·.run.status)
  have hrun : ((exec (System.step standard) Runs.Free System.init es).bind fun s =>
      (exec (System.step standard) (fun s e => e.dies = false ∧ s.resumes 4 e.action = false) s fs).map fun _ =>
        (status s.world, ((System.worlds standard s fs).take 2).map status)) =
      some (some .paused, [some .paused, some .running]) := by decide +kernel
  obtain ⟨s, hs, hrest⟩ := Option.bind_eq_some_iff.mp hrun
  obtain ⟨t, ht, hpair⟩ := Option.map_eq_some_iff.mp hrest
  obtain ⟨hstart, hworlds⟩ := Prod.mk.inj hpair
  obtain ⟨d, hd, hpaused⟩ := Option.map_eq_some_iff.mp hstart
  obtain ⟨u, rest, htake, hu, hmap⟩ := List.map_eq_cons_iff.mp hworlds
  obtain ⟨v, rest', rfl, hsecond, hnil⟩ := List.map_eq_cons_iff.mp hmap
  cases List.map_eq_nil_iff.mp hnil
  have hv : System.worlds standard s fs = [u] ++ v :: (System.worlds standard s fs).drop 2 := by
    conv_lhs => rw [← List.take_append_drop 2 (System.worlds standard s fs), htake]
    rfl
  have hlive : ∀ x ∈ [u], ∀ d, x.runs.get 4 = some d → d.run.status ≠ .terminal := by
    intro x hx d hd hended
    rw [List.mem_singleton.mp hx] at hd
    simp [status, hd, hended] at hu
  obtain ⟨d', hd', hstatus⟩ := hall standard es fs s t 4 d (run_of_exec hs) (run_of_exec ht) hd hpaused _ _ v hv hlive
  obtain ⟨d'', hd'', hrunning⟩ := Option.map_eq_some_iff.mp hsecond
  cases hd'.symm.trans hd''
  rw [hrunning] at hstatus
  rcases hstatus with h | h <;> cases h

/-- A run is paused before its profile is read, and the worker lets its job rest. -/
theorem pause_kept_resting : ∃ s t d, exec (System.step standard) Runs.Free System.init
      (System.opening false ++ [.act (.control (System.second 2) "t" 4 .pause (some 1))]) = some s ∧
    exec (System.step standard) (System.SparesPause 4) s
      [.act (.claim (System.second 3)), .act .start, .act (.settle (System.second 3))] = some t ∧
    s.world.runs.get 4 = some d ∧ d.run.status = .paused ∧ ∀ (l l' : List World) (v : World),
      System.worlds standard s [.act (.claim (System.second 3)), .act .start, .act (.settle (System.second 3))] =
        l ++ v :: l' → (∀ u ∈ l, ∀ d, u.runs.get 4 = some d → d.run.status ≠ .terminal) →
          ∃ d', v.runs.get 4 = some d' ∧ (d'.run.status = .paused ∨ d'.run.status = .terminal) := by
  have hrun : ((exec (System.step standard) Runs.Free System.init
      (System.opening false ++ [.act (.control (System.second 2) "t" 4 .pause (some 1))])).bind fun s =>
        (exec (System.step standard) (System.SparesPause 4) s
          [.act (.claim (System.second 3)), .act .start, .act (.settle (System.second 3))]).bind fun _ =>
            (s.world.runs.get 4).map (·.run.status)) = some .paused := by decide +kernel
  obtain ⟨s, hs, hrest⟩ := Option.bind_eq_some_iff.mp hrun
  obtain ⟨t, ht, hrest⟩ := Option.bind_eq_some_iff.mp hrest
  obtain ⟨d, hd, hpaused⟩ := Option.map_eq_some_iff.mp hrest
  exact ⟨s, t, d, hs, ht, hd, hpaused, pause_kept standard _ _ s t 4 d (run_of_exec hs) (run_of_exec ht) hd hpaused⟩

end AutomlApi.Workflow
