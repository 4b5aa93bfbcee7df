import AutomlApi.Workflow.Life

/-! The commands of a run. A control command settles itself, unless it raises; an answer
waits for the worker to take it up, and is lost if the run ends before. -/

namespace AutomlApi.Workflow

open Durable
open Runs (exec run_of_exec)
open Worker.LocalExecutionWorker (standard)

variable {lw : Leeway} {w : Worker.LocalExecutionWorker} {s : System} {t : Tasks} {es : List System.Event} {runId : ℕ}
  {d : RunData}

/-! ### Commands in order -/

/-- A command is left running only in a run that has its result and goes on all the same. -/
def RunData.Orderly (d : RunData) : Prop :=
  ∀ c ∈ d.commands, c.status = .running → d.result.isSome ∧ d.run.status ≠ .terminal

theorem RunData.Orderly.mono {d' : RunData} (h : d.Orderly)
    (hcommands : ∀ c ∈ d'.commands, c.status = .running → c ∈ d.commands)
    (hresult : d.result.isSome → d'.result.isSome) (hstatus : d.run.status ≠ .terminal → d'.run.status ≠ .terminal) :
    d'.Orderly := by
  intro c hc hrunning
  obtain ⟨hclosed, hlive⟩ := h c (hcommands c hc hrunning) hrunning
  exact ⟨hresult hclosed, hstatus hlive⟩

theorem running_updateItem {commands : List Command} {id : ℕ} {revision : Option ℕ} {c : Command}
    (hc : c ∈ RunData.updateItem commands Command.commandId id fun c =>
      { c with status := .succeeded, resultingRunRevision := revision }) (hrunning : c.status = .running) :
    c ∈ commands ∧ c.commandId ≠ id := by
  obtain ⟨x, hx, rfl⟩ := List.mem_map.mp hc
  split at hrunning
  · cases hrunning
  · rename_i hid
    rw [if_neg hid]
    exact ⟨hx, hid⟩

theorem getElem?_updateItem {α : Type} (items : List α) (key : α → ℕ) (id : ℕ) (f : α → α) (i : ℕ) :
    (RunData.updateItem items key id f)[i]? = items[i]?.map fun x => if key x = id then f x else x := List.getElem?_map

theorem getElem?_append_of_some {α : Type} {l : List α} {i : ℕ} {x : α} (h : l[i]? = some x) (l' : List α) :
    (l ++ l')[i]? = some x := by
  rw [List.getElem?_append_left (List.getElem?_eq_some_iff.mp h).1, h]

/-- A program that runs no control command leaves the commands in order. -/
theorem orderly_apply (h : d.Orderly) {c : Change} (hc : Lawful lw d c) (hcommands : ¬ lw.commands) :
    (d.apply c).Orderly := by
  have hto : ∀ {p : RunPatch} {bump : Bool} {status : RunStatus}, p.status = some status → status ≠ .terminal →
      (d.apply (.run p bump)).Orderly := by
    intro p bump status hs ht
    refine h.mono (fun _ hc _ => hc) id fun _ => ?_
    simpa [RunData.apply, Run.update, hs] using ht
  cases hc with
  | @notes p hp hw =>
    simp only [RunPatch.loud, Bool.or_eq_false_iff, Option.isSome_eq_false_iff, Option.isNone_iff_eq_none] at hp
    obtain ⟨⟨⟨⟨⟨-, hs⟩, -⟩, -⟩, -⟩, -⟩ := hp
    refine h.mono (fun _ hc _ => hc) id fun hlive => ?_
    simpa [RunData.apply, Run.update, hs] using hlive
  | works hw hp =>
    obtain ⟨status, hs, ht, -⟩ := hp.status
    exact hto hs ht
  | answers => exact hto rfl (by simp)
  | switches hc => exact absurd hc hcommands
  | @issues c hlive hc =>
    refine h.mono (fun x hx hrunning => ?_) id id
    rcases List.mem_append.mp hx with hx | hx
    · exact hx
    · rw [List.mem_singleton.mp hx] at hrunning
      exact absurd hrunning (hc.resolve_left hcommands)
  | settles => exact h.mono (fun x hx hrunning => (running_updateItem hx hrunning).1) id id
  | awaits => exact h.mono (fun _ hc _ => hc) id fun _ => by simp [RunData.apply, RunData.append, Run.update, awaitingApproval]
  | @ends result p events hopen =>
    intro x hx hrunning
    rw [RunData.apply, foldl_append_eq RunData.commands fun _ _ _ => rfl] at hx
    have hclosed := (h x hx hrunning).1
    rw [hopen] at hclosed
    cases hclosed
  | _ => exact h.mono (fun _ hc _ => hc) id id

theorem switchStatus_final {u : World} (hd : u.runs.get runId = some d) (status : RunStatus) (actions : List CommandType) :
    ∃ run d', (switchStatus runId d.run status actions u).1 = .ok run ∧
      ((switchStatus runId d.run status actions).final u).runs.get runId = some d' ∧ d'.commands = d.commands ∧
        d'.result = d.result ∧ d'.run.status = status ∧ d'.run.runRevision = d.run.runRevision + 1 := by
  have hrev : ∀ e ∈ some d.run.runRevision, e = d.run.runRevision := by
    rintro e ⟨⟩
    rfl
  have hupdate := updateRun_eq hd (switched d.run status actions) hrev true
  have hd₁ := get_on hd (.run (switched d.run status actions) true) false
  unfold switchStatus
  rw [value_bind (congrArg Prod.fst hupdate), final_bind, hupdate]
  unfold final
  rw [hupdate]
  exact ⟨_, _, congrArg Prod.fst (emit_eq hd₁ _ _), emit_final hd₁ _ _, rfl, rfl, rfl, rfl⟩

theorem supersedePackets_final {u : World} (hd : u.runs.get runId = some d) (packets : List DecisionPacket) :
    (supersedePackets runId packets u).1 = .ok () ∧ ∃ packets',
      ((supersedePackets runId packets).final u).runs.get runId = some { d with packets := packets' } := by
  induction packets generalizing u d with
  | nil => exact ⟨rfl, d.packets, hd⟩
  | cons p rest ih =>
    unfold supersedePackets
    split
    · have hchange := change_eq hd (.packetSet p.decisionPacketId .superseded (p.waitSetRevision + 1))
      have hd₁ := get_on hd (.packetSet p.decisionPacketId .superseded (p.waitSetRevision + 1)) false
      rw [value_bind (congrArg Prod.fst hchange), final_bind, hchange]
      unfold final
      rw [hchange]
      obtain ⟨hvalue, packets', hd'⟩ := ih hd₁
      exact ⟨hvalue, packets', hd'⟩
    · exact ih hd

/-- What a control command leaves of a run: it raises only if the run has its result, and
takes the run to its next revision otherwise. -/
def Acted (d d' : RunData) : Except Fault Run → Prop
  | .ok _ => (d.result.isSome → d'.result.isSome ∧ d'.run.status ≠ .terminal) ∧ d'.run.runRevision = d.run.runRevision + 1
  | .error _ => d'.result.isSome ∧ d'.run.status = d.run.status

/-- What a control command does to its run; it changes no command. -/
theorem act_final {u : World} {d₁ : RunData} (hd : u.runs.get runId = some d₁) (hrun : d₁.run = d.run)
    (hresult : d₁.result = d.result) (c : Control) :
    ∃ d₂, ((c.act runId d).final u).runs.get runId = some d₂ ∧ d₂.commands = d₁.commands ∧ Acted d d₂ (c.act runId d u).1 := by
  have hswitch : ∀ (status : RunStatus) (actions : List CommandType), status ≠ .terminal →
      ∃ d₂, ((switchStatus runId d.run status actions).final u).runs.get runId = some d₂ ∧ d₂.commands = d₁.commands ∧
        Acted d d₂ (switchStatus runId d.run status actions u).1 := by
    intro status actions ht
    obtain ⟨run, d₂, hvalue, hd₂, hcommands, hclosed, hstatus, hrevision⟩ := switchStatus_final hd status actions
    rw [hrun] at hvalue hd₂ hrevision
    refine ⟨d₂, hd₂, hcommands, ?_⟩
    rw [hvalue]
    exact ⟨fun h => ⟨by rw [hclosed, hresult, h], hstatus ▸ ht⟩, hrevision⟩
  cases c with
  | pause =>
    simp only [Control.act]
    exact hswitch .paused _ (by simp)
  | resume =>
    simp only [Control.act]
    split
    · exact hswitch .waitingUser _ (by simp)
    · exact hswitch .running _ (by simp)
  | cancel =>
    simp only [Control.act, cancelRun]
    obtain ⟨hvalue, packets', hd₂⟩ := supersedePackets_final hd d.packets
    let d₂ : RunData := { d₁ with packets := packets' }
    have hd₃ : (newId.final ((supersedePackets runId d.packets).final u)).runs.get runId = some d₂ := hd₂
    let u₃ : World := newId.final ((supersedePackets runId d.packets).final u)
    let finalize := finalizeRunWithResult runId (some u₃.ids) .canceled (some "USER_CANCELED") canceled [.canceled]
      (some d.run.runRevision)
    rw [value_bind hvalue, final_bind, hvalue]
    show ∃ d₂, (finalize.final u₃).runs.get runId = some d₂ ∧ d₂.commands = d₁.commands ∧ Acted d d₂ (finalize u₃).1
    cases hclosed : d₂.result with
    | some result =>
      obtain ⟨e, he⟩ := finalizeRunWithResult_closed hd₃ (by rw [hclosed]; rfl) (some u₃.ids) .canceled
        (some "USER_CANCELED") canceled [.canceled] (some d.run.runRevision)
      refine ⟨d₂, ?_, rfl, ?_⟩
      · rw [final, show finalize u₃ = _ from he]
        exact hd₃
      · rw [show finalize u₃ = _ from he]
        exact ⟨by rw [hclosed]; rfl, congrArg Run.status hrun⟩
    | none =>
      obtain ⟨run, he⟩ := finalizeRunWithResult_eq hd₃ hclosed (some u₃.ids) .canceled (some "USER_CANCELED") canceled
        [.canceled] (some d.run.runRevision) (by rintro e ⟨⟩; exact (congrArg Run.runRevision hrun).symm)
      have hd₄ : (finalize.final u₃).runs.get runId =
          some (d₂.apply (.finalized ⟨u₃.ids, .canceled, some "USER_CANCELED"⟩ canceled [.canceled])) := by
        rw [final, show finalize u₃ = _ from he]
        exact get_on hd₃ _ _
      refine ⟨_, hd₄, foldl_append_eq RunData.commands (fun _ _ _ => rfl) _ [.canceled] _, ?_⟩
      rw [show finalize u₃ = _ from he]
      refine ⟨fun h => ?_, congrArg (Run.runRevision · + 1) hrun⟩
      rw [← hresult, show d₁.result = none from hclosed] at h
      cases h

theorem runs_wake (r : Jobs.Readings) (u : World) : ((onJobs r (.wake runId) >>= fun _ => pure ()).final u).runs = u.runs := by
  rw [final_bind]
  cases (onJobs r (.wake runId) u).1 <;> exact runs_onJobs r (.wake runId) u

theorem runs_wakeUnlessTerminal (r : Jobs.Readings) (u : World) : ((wakeUnlessTerminal r runId).final u).runs = u.runs := by
  unfold wakeUnlessTerminal final
  rw [read_bind]
  cases u.jobs.lookup runId with
  | none => rfl
  | some job =>
    dsimp only
    split
    · rfl
    · exact runs_wake r u

theorem createCommand_eq {u : World} (hd : u.runs.get runId = some d) (type : CommandType) (status : CommandStatus) :
    createCommand runId type status u =
      (.ok (u.ids + 1), [.on runId (.command ⟨u.ids + 1, type, status, none⟩) true]) := by
  simp only [createCommand, bind_eq, changeWithId_eq hd, pure_eq, List.append_nil]

section

variable {α β : Type} {u : World}

theorem check_bind_ok {x : Except Fault α} {a : α} (h : x = .ok a) (k : α → Prog β) : (check x >>= k) u = k a u := by
  rw [h]
  rfl

theorem check_bind_error {x : Except Fault α} {e : Fault} (h : x = .error e) (k : α → Prog β) :
    (check x >>= k) u = (.error e, []) := by
  rw [h]
  rfl

theorem ownedRun_bind_ok {tenantId : String} (h : owned (fun d : RunData => d.run.tenantId) tenantId (u.runs.get runId) = .ok d)
    (k : RunData → Prog β) : (ownedRun tenantId runId >>= k) u = k d u := by
  have hrun : ownedRun tenantId runId u = (.ok d, []) := Prod.ext h rfl
  rw [bind_eq, hrun]
  rfl

theorem ownedRun_bind_error {tenantId : String} {e : Fault}
    (h : owned (fun d : RunData => d.run.tenantId) tenantId (u.runs.get runId) = .error e) (k : RunData → Prog β) :
    (ownedRun tenantId runId >>= k) u = (.error e, []) := by
  have hrun : ownedRun tenantId runId u = (.error e, []) := Prod.ext h rfl
  rw [bind_eq, hrun]

end

theorem owned_eq_ok {α : Type} {tenant : α → String} {tenantId : String} {o : Option α} {x : α}
    (h : owned tenant tenantId o = .ok x) : o = some x := by
  unfold owned at h
  split at h
  · split at h
    · cases h
      rfl
    · cases h
  · cases h

theorem owned_tenant {tenantId : String} {o : Option RunData} (h : owned (fun d : RunData => d.run.tenantId) tenantId o = .ok d) :
    d.run.tenantId = tenantId := by
  unfold owned at h
  split at h
  · split at h
    · rename_i htenant
      cases h
      exact htenant
    · cases h
  · cases h

/-- What a control command comes to: it is refused, or it is issued and done, or it is
issued and raises. -/
inductive Controlled (u : World) (runId : ℕ) (d : RunData) (c : Control) (revision : Option ℕ) (p : Prog Unit) : Prop
  | refused (e : Fault) (h : p u = (.error e, []))
  | done (d' : RunData) (run : Run) (hpasses : c.Passes d.run revision) (hacted : Acted d d' (.ok run))
      (hcommands : d'.commands = d.commands ++ [⟨u.ids + 1, c.command, .running, none⟩])
      (h : (p.final u).runs.get runId = some (d'.apply (.commandSet (u.ids + 1) .succeeded (some run.runRevision))))
  | raised (d' : RunData) (e : Fault) (hpasses : c.Passes d.run revision) (hacted : Acted d d' (.error e))
      (hcommands : d'.commands = d.commands ++ [⟨u.ids + 1, c.command, .running, none⟩]) (hvalue : (p u).1 = .error e)
      (h : (p.final u).runs.get runId = some d')

theorem control_cases {u : World} (hd : u.runs.get runId = some d) (r : Jobs.Readings) (tenantId : String) (c : Control)
    (revision : Option ℕ) : Controlled u runId d c revision (control r tenantId runId c revision) := by
  cases howned : owned (fun d : RunData => d.run.tenantId) tenantId (u.runs.get runId) with
  | error e => exact .refused e (ownedRun_bind_error howned _)
  | ok d₀ =>
    cases hd.symm.trans (owned_eq_ok howned)
    cases hcheck : c.check d.run revision with
    | error e => exact .refused e ((ownedRun_bind_ok howned _).trans (check_bind_error hcheck _))
    | ok _ =>
      have hpasses := Control.passes hcheck
      let issue : Prog ℕ := createCommand runId c.command .running
      let settle : ℕ → Run → Prog Unit := fun id run => do
        let _ ← change runId (.commandSet id .succeeded (some run.runRevision))
        if c = .pause then pure () else wakeUnlessTerminal r runId
      have hbody : control r tenantId runId c revision u = (issue >>= fun id => c.act runId d >>= settle id) u :=
        (ownedRun_bind_ok howned _).trans (check_bind_ok hcheck _)
      have hissue : issue u = (.ok (u.ids + 1), [.on runId (.command ⟨u.ids + 1, c.command, .running, none⟩) true]) :=
        createCommand_eq hd c.command .running
      let u₁ : World := issue.final u
      have hd₁ : u₁.runs.get runId = some (d.apply (.command ⟨u.ids + 1, c.command, .running, none⟩)) := by
        show (replay u (issue u).2).runs.get runId = _
        rw [hissue]
        exact get_on hd _ _
      obtain ⟨d₂, hd₂, hcommands, hacted⟩ := act_final (d := d) hd₁ rfl rfl c
      have hvalue : (control r tenantId runId c revision u).1 = ((c.act runId d >>= settle (u.ids + 1)) u₁).1 := by
        rw [hbody]
        exact value_bind (congrArg Prod.fst hissue)
      have hfinal : (control r tenantId runId c revision).final u = (c.act runId d >>= settle (u.ids + 1)).final u₁ := by
        rw [final, hbody]
        show (issue >>= fun id => c.act runId d >>= settle id).final u = _
        rw [final_bind, congrArg Prod.fst hissue]
      cases hact : (c.act runId d u₁).1 with
      | error e =>
        rw [hact] at hacted
        refine .raised d₂ e hpasses hacted hcommands ?_ ?_
        · rw [hvalue, bind_eq]
          cases h : c.act runId d u₁ with
          | mk result l =>
            rw [h] at hact
            cases hact
            rfl
        · rw [hfinal, final_bind, hact]
          exact hd₂
      | ok run =>
        rw [hact] at hacted
        have hset := change_eq hd₂ (.commandSet (u.ids + 1) .succeeded (some run.runRevision))
        have hd₃ := get_on hd₂ (.commandSet (u.ids + 1) .succeeded (some run.runRevision)) false
        refine .done d₂ run hpasses hacted hcommands ?_
        rw [hfinal, final_bind, hact]
        dsimp only [settle]
        rw [final_bind, congrArg Prod.fst hset]
        dsimp only
        split
        · rw [final, final, hset]
          exact hd₃
        · rw [runs_wakeUnlessTerminal, final, hset]
          exact hd₃

/-- A control command settles itself, unless it raises. -/
theorem orderly_control {u : World} (hd : u.runs.get runId = some d) (h : d.Orderly) (r : Jobs.Readings) (tenantId : String)
    (c : Control) (revision : Option ℕ) :
    ∃ d', ((control r tenantId runId c revision).final u).runs.get runId = some d' ∧ d'.Orderly := by
  cases control_cases hd r tenantId c revision with
  | refused e hnil =>
    refine ⟨d, ?_, h⟩
    rw [final, hnil]
    exact hd
  | done d₂ run hpasses hacted hcommands hfinal =>
    refine ⟨_, hfinal, fun x hx hrunning => ?_⟩
    obtain ⟨hmem, hid⟩ := running_updateItem hx hrunning
    rw [hcommands] at hmem
    rcases List.mem_append.mp hmem with hmem | hmem
    · exact hacted.1 (h x hmem hrunning).1
    · rw [List.mem_singleton.mp hmem] at hid
      exact absurd rfl hid
  | raised d₂ e hpasses hacted hcommands hvalue hfinal =>
    exact ⟨d₂, hfinal, fun _ _ _ => ⟨hacted.1, hacted.2 ▸ hpasses.live⟩⟩

/-- A deletion that cancels a run does no more to the runs. -/
theorem continueDeletion_cancel {u : World} (r : Jobs.Readings) (ok : Bool) {task : DeletionTask} {rest : List Chore}
    (h : task.chores = .cancel runId :: rest) :
    ((continueDeletion r ok task).final u).runs = ((control r task.tenantId runId .cancel none).final u).runs := by
  unfold continueDeletion
  rw [h]
  dsimp only [Chore.perform]
  unfold final
  rw [attempt_bind, replay_append]
  cases (control r task.tenantId runId .cancel none u).1 <;> rfl

/-- A section leaves the commands of every run in order. -/
theorem orderly_section {u : World} {t : Tasks} {a : Action} {p : Prog Tasks} (hp : t.Runs w a p) (hs : u.Sound)
    (hlawful : Along (World.Lawful (lw.at a)) u (p u).2) (h : ∀ runId d, u.runs.get runId = some d → d.Orderly)
    (hd : (p.final u).runs.get runId = some d) : d.Orderly := by
  have hcontrol : ∀ (r : Jobs.Readings) (tenantId : String) (id : ℕ) (c : Control) (revision : Option ℕ) {runId : ℕ} {d : RunData},
      ((control r tenantId id c revision).final u).runs.get runId = some d → d.Orderly := by
    intro r tenantId id c revision runId d hd
    by_cases hid : runId = id
    · subst hid
      cases hold : u.runs.get runId with
      | none =>
        have hnil : (control r tenantId runId c revision u).2 = [] := ownedRun_bind_none _ hold
        rw [final, hnil] at hd
        exact h runId d hd
      | some d₀ =>
        obtain ⟨d', hd', horderly⟩ := orderly_control hold (h runId d₀ hold) r tenantId c revision
        cases hd.symm.trans hd'
        exact horderly
    · have hminds : Minds (.of id) (control r tenantId id c revision) := minds_control rfl _ _ _
      have hsame := (hminds u).writes.final (P := fun v => v.runs.get runId = u.runs.get runId)
        (fun _ _ h hx => (runs_of_about hx.about hid).trans h) rfl
      exact h runId d (hsame ▸ hd)
  have hquiet : ∀ (lw : Leeway) {l : List Write}, ¬ lw.commands → Along (World.Lawful lw) u l →
      ∀ {runId : ℕ} {d : RunData}, (replay u l).runs.get runId = some d → d.Orderly := by
    intro lw l hcommands hl runId d hd
    have hfinal := hl.keeps (P := fun v => v.Sound ∧ ∀ runId d, v.runs.get runId = some d → d.Orderly)
      (fun v x hv hx => ⟨world_sound_apply hv.1 hx, fun _ _ => runs_apply hx hv.1 (fun _ _ _ hc => absurd hc List.not_mem_nil)
        (fun _ horderly hc => orderly_apply horderly hc hcommands) hv.2⟩) ⟨hs, h⟩
    exact hfinal.2 runId d hd
  by_cases hcommands : a.commands
  · cases hp with
    | control r tenantId id c revision hl =>
      unfold Tasks.request at hd
      rw [final_bind] at hd
      cases hvalue : (control r tenantId id c revision u).1 <;> rw [hvalue] at hd <;>
        exact hcontrol r tenantId id c revision hd
    | continueDeletion index r ok task htask hl =>
      rw [final_bind] at hd
      have hd : ((continueDeletion r ok task).final u).runs.get runId = some d := by
        cases hvalue : (continueDeletion r ok task u).1 with
        | error e =>
          rw [hvalue] at hd
          exact hd
        | ok rest =>
          rw [hvalue] at hd
          cases rest <;> exact hd
      by_cases hcancel : ∃ id rest, task.chores = .cancel id :: rest
      · obtain ⟨id, rest, hchores⟩ := hcancel
        rw [continueDeletion_cancel r ok hchores] at hd
        exact hcontrol r task.tenantId id .cancel none hd
      · have haside := aside_continueDeletion r ok task (fun id rest h => hcancel ⟨id, rest, h⟩) u
        let idle : Leeway := { Leeway.all with works := False, commands := False }
        exact hquiet idle id (haside.mono fun _ _ => lawful_aside id) hd
    | _ => cases hcommands
  · exact hquiet (lw.at a) hcommands hlawful hd

/-- Where the process does not die, the commands of every run are in order. -/
theorem runs_orderly {ok : System → System.Event → Prop} (h : Runs.Run (System.step w) ok System.init es s)
    (hlives : ∀ s e, ok s e → e.dies = false) (hd : s.world.runs.get runId = some d) : d.Orderly := by
  have hruns : ∀ runId d, s.world.runs.get runId = some d → d.Orderly := by
    refine h.invariant_of (J := System.Inv) (I := fun s => ∀ runId d, s.world.runs.get runId = some d → d.Orderly)
      (fun _ _ _ hi _ hstep => System.inv_step hi hstep) ?_ System.inv_init (fun _ _ h => by cases h)
    intro s e s' hinv hi hok hstep runId d hd
    have hlive := hlives s e hok
    cases System.steps hstep with
    | @act a p hp =>
      have hruns := section_runs hp
      have hpaired : ∀ runId d, s.world.runs.get runId = some d → (Leeway.all.at a).torn ∨ d.Paired :=
        fun _ _ _ => .inl trivial
      have hlawful := (section_proceeds hruns hinv.sound hinv.drawn hinv.tasks hpaired
        (grants_of_excuses ((Leeway.Excuses.all s a).at a))).1
      exact orderly_section hruns hinv.sound hlawful hi hd
    | crash => cases hlive
  exact hruns runId d hd

/-- An answer that has not been taken up belongs to a run that goes on. -/
theorem settled_apply (h : d.run.status = .terminal → d.Settled) {c : Change} (hc : Lawful lw d c) (hunsettled : ¬ lw.unsettled) :
    (d.apply c).run.status = .terminal → (d.apply c).Settled := by
  have hlive : ∀ {p : RunPatch} {bump : Bool} {status : RunStatus} {P : Prop}, p.status = some status → status ≠ .terminal →
      (d.apply (.run p bump)).run.status = .terminal → P := by
    intro p bump status P hs ht hended
    simp [RunData.apply, Run.update, hs, ht] at hended
  cases hc with
  | @notes p hp hw =>
    simp only [RunPatch.loud, Bool.or_eq_false_iff, Option.isSome_eq_false_iff, Option.isNone_iff_eq_none] at hp
    obtain ⟨⟨⟨⟨⟨-, hs⟩, -⟩, -⟩, -⟩, -⟩ := hp
    intro hended
    exact h (by simpa [RunData.apply, Run.update, hs] using hended)
  | works hw hp =>
    obtain ⟨status, hs, ht, -⟩ := hp.status
    exact hlive hs ht
  | answers => exact hlive rfl (by simp)
  | switches hc ht => exact hlive rfl ht
  | issues hrun => exact fun hended => absurd hended hrun
  | settles =>
    intro hended x hx hstatus
    obtain ⟨y, hy, rfl⟩ := List.mem_map.mp hx
    split at hstatus
    · cases hstatus
    · rename_i hid
      rw [if_neg hid] at hx
      exact h hended y hy hstatus
  | awaits => exact fun hended => by simp [RunData.apply, RunData.append, Run.update, awaitingApproval] at hended
  | @ends result p events hopen hends hleaves hsettled =>
    intro _ x hx
    rw [RunData.apply, foldl_append_eq RunData.commands fun _ _ _ => rfl] at hx
    exact hsettled.resolve_left hunsettled x hx
  | _ => exact h

/-- Every command is still there, under its id, and done if it was done. -/
def RunData.KeepsCommands (d d' : RunData) : Prop :=
  ∀ (i : ℕ) (c : Command), d.commands[i]? = some c → ∃ c' : Command, d'.commands[i]? = some c' ∧
    c'.commandId = c.commandId ∧ c'.type = c.type ∧ (c.status = .succeeded → c'.status = .succeeded)

theorem keepsCommands_of_eq {d' : RunData} (h : d'.commands = d.commands) : d.KeepsCommands d' := by
  intro i c hc
  exact ⟨c, h ▸ hc, rfl, rfl, id⟩

theorem keepsCommands_apply {c : Change} (hc : Lawful lw d c) : d.KeepsCommands (d.apply c) := by
  cases hc with
  | @issues c =>
    intro i x hx
    exact ⟨x, getElem?_append_of_some hx [c], rfl, rfl, id⟩
  | @settles id revision =>
    intro i x hx
    refine ⟨if x.commandId = id then { x with status := .succeeded, resultingRunRevision := revision } else x, ?_, ?_⟩
    · exact (getElem?_updateItem ..).trans (by rw [hx]; rfl)
    · split
      · exact ⟨rfl, rfl, fun _ => rfl⟩
      · exact ⟨rfl, rfl, fun h => h⟩
  | ends => exact keepsCommands_of_eq (foldl_append_eq RunData.commands (fun _ _ _ => rfl) _ _ _)
  | _ => exact keepsCommands_of_eq rfl

/-- No step is in flight. -/
def Tasks.still (t : Tasks) : Bool :=
  t.thread.isNone && t.finalizing.isNone && t.deletions.isEmpty &&
    match t.worker with
    | .off | .idle | .ended => true
    | _ => false

/-- A step in which the process lives on, and which ends no run of which an answer has not
been taken up. -/
def System.TakesUpAnswers (s : System) (e : System.Event) : Prop := e.dies = false ∧ s.leavesAnswer e.action = false

instance (s : System) (e : System.Event) : Decidable (s.TakesUpAnswers e) := inferInstanceAs (Decidable (_ ∧ _))

/-- What a history is allowed in which every answer is taken up before its run ends. -/
def Leeway.settled : Leeway := { Leeway.all with unsettled := False }

/-- Where no run ends before its answers have been taken up, every command of a run that
has ended is done, and it stays done whatever happens. -/
theorem commands_settle (h : Runs.Run (System.step w) System.TakesUpAnswers System.init es s)
    (hd : s.world.runs.get runId = some d) :
    (d.run.status = .terminal → ∀ c ∈ d.commands, c.status = .succeeded) ∧
      ∀ {fs : List System.Event} {t : System}, Runs.Run (System.step w) Runs.Free s fs t →
        ∃ d', t.world.runs.get runId = some d' ∧ d.KeepsCommands d' := by
  constructor
  · intro hended c hc
    have hsettled : d.run.status = .terminal → d.Settled := by
      refine System.runs_invariant .settled (P := fun d => d.run.status = .terminal → d.Settled) h
        (fun s e _ _ hok => ?_) (fun _ _ => .inl trivial) (fun _ _ ht => by cases ht)
        (fun _ h hc => settled_apply h hc id) hd
      exact ⟨.inl trivial, .inr hok.2, .inl trivial, .inl trivial, .inl trivial, .inl ⟨trivial, trivial⟩, .inl trivial, .inl trivial⟩
    have horderly := runs_orderly h (fun _ _ hok => hok.1) hd
    cases hstatus : c.status with
    | accepted => exact absurd hstatus (hsettled hended c hc)
    | running => exact absurd hended (horderly c hc hstatus).2
    | succeeded => rfl
  · intro fs t hrun
    refine System.runs_climb .all hrun (System.inv_run h) (fun s e _ => Leeway.Excuses.all s e.action) trivial
      (fun d => keepsCommands_of_eq rfl) ?_ (fun _ hc => keepsCommands_apply hc) hd
    intro d d₁ d₂ h₁ h₂ i c hc
    obtain ⟨c₁, hc₁, hid₁, htype₁, hdone₁⟩ := h₁ i c hc
    obtain ⟨c₂, hc₂, hid₂, htype₂, hdone₂⟩ := h₂ i c₁ hc₁
    exact ⟨c₂, hc₂, hid₂.trans hid₁, htype₂.trans htype₁, fun h => hdone₂ (hdone₁ h)⟩

/-- A run without a target, up to the answer to its question. The wait-set has the id 11. -/
def System.questioned : List System.Event :=
  [.act (.boot (System.second 0)), .act (.createDataset "t"), .act (.startFinalize "t" ⟨3, 1, "sha"⟩), .act (.endFinalize true),
    .act (.createRun (System.second 1) "t" ⟨3, ⟨none, true, none⟩, false⟩ (.ok ()))] ++
  System.profiling 2 ++ System.entering 3 ++
  [.act (.answer (System.second 4) "t" 4 ⟨11, 1, [("q_target", .str "y")], .ok (), .ok ()⟩)]

/-- A cancel that comes before the worker takes up the answer leaves the answer accepted. -/
theorem answer_left_accepted : ¬ ∀ (w : Worker.LocalExecutionWorker) (es : List System.Event) (s : System) (runId : ℕ)
    (d : RunData), Runs.Run (System.step w) (fun _ e => e.dies = false) System.init es s → s.tasks.still = true →
      s.world.runs.get runId = some d → d.run.status = .terminal → ∀ c ∈ d.commands, c.status = .succeeded := by
  intro hall
  have hrun : ((exec (System.step standard) (fun _ e => e.dies = false) System.init (System.questioned ++
      [.act (.control (System.second 5) "t" 4 .cancel none), .act (.claim (System.second 6)), .act .start,
        .act (.settle (System.second 7))])).bind fun s => (s.world.runs.get 4).map fun d =>
          (s.tasks.still, d.run.status, d.commands.map Command.status)) =
      some (true, .terminal, [.accepted, .succeeded]) := by decide +kernel
  obtain ⟨s, hs, hd⟩ := Option.bind_eq_some_iff.mp hrun
  obtain ⟨d, hd, htriple⟩ := Option.map_eq_some_iff.mp hd
  obtain ⟨hstill, hpair⟩ := Prod.mk.inj htriple
  obtain ⟨hended, hcommands⟩ := Prod.mk.inj hpair
  have hmem : CommandStatus.accepted ∈ d.commands.map Command.status := by
    rw [hcommands]
    exact List.mem_cons_self
  obtain ⟨c, hmem, haccepted⟩ := List.mem_map.mp hmem
  cases haccepted.symm.trans (hall _ _ s 4 d (run_of_exec hs) hstill hd hended c hmem)

/-- A run whose answer is taken up, and which is canceled then. -/
theorem commands_settle_canceled :
    ∃ s d, exec (System.step standard) System.TakesUpAnswers System.init (System.questioned ++
        [.act (.claim (System.second 5)), .act .start, .act (.enter (System.second 6)), .act (.settle (System.second 6)),
          .act (.control (System.second 7) "t" 4 .cancel none)]) = some s ∧
      s.world.runs.get 4 = some d ∧ d.run.status = .terminal ∧ ∀ c ∈ d.commands, c.status = .succeeded := by
  have hrun : ((exec (System.step standard) System.TakesUpAnswers System.init (System.questioned ++
      [.act (.claim (System.second 5)), .act .start, .act (.enter (System.second 6)), .act (.settle (System.second 6)),
        .act (.control (System.second 7) "t" 4 .cancel none)])).bind fun s =>
          (s.world.runs.get 4).map fun d => d.run.status) = some .terminal := by decide +kernel
  obtain ⟨s, hs, hd⟩ := Option.bind_eq_some_iff.mp hrun
  obtain ⟨d, hd, hended⟩ := Option.map_eq_some_iff.mp hd
  exact ⟨s, d, hs, hd, hended, (commands_settle (run_of_exec hs) hd).1 hended⟩

end AutomlApi.Workflow
