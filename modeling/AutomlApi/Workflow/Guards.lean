import AutomlApi.Workflow.Settling

/-! The guards of the requests. A pause or a resume names the revision of the run that its
client has seen, and an answer the revision of the wait-set; each comes to something at
most once, and a request that is refused leaves everything as it was. -/

namespace AutomlApi.Workflow

open Durable
open Runs (exec run_of_exec)
open Worker.LocalExecutionWorker (standard)

variable {w : Worker.LocalExecutionWorker} {runId : ℕ} {d : RunData} {α β : Type}

/-! ### Refusals -/

/-- The program answers with no problem, whatever it may raise. -/
def Unproblematic (m : Prog α) : Prop := ∀ s p, (m s).1 ≠ .error (.problem p)

/-- The program writes nothing if it answers with a problem. -/
def Refuses (m : Prog α) (s : World) : Prop := ∀ p, (m s).1 = .error (.problem p) → (m s).2 = []

section

variable {s : World} {m : Prog α} {k : α → Prog β}

theorem unproblematic_pure (a : α) : Unproblematic (pure a : Prog α) := fun _ _ h => by cases h

theorem unproblematic_write (x : Write) : Unproblematic (write x) := fun _ _ h => by cases h

theorem unproblematic_raise {f : Fault} (h : ∀ p, f ≠ .problem p) : Unproblematic (raise f : Prog α) := by
  intro s p hp
  cases hp
  exact h p rfl

theorem unproblematic_bind (hm : Unproblematic m) (hk : ∀ a, Unproblematic (k a)) : Unproblematic (m >>= k) := by
  intro s p
  cases hvalue : (m s).1 with
  | ok a =>
    rw [value_bind hvalue]
    exact hk a _ p
  | error f =>
    have hfault := hm s p
    rw [bind_eq]
    cases h : m s with
    | mk r l =>
      rw [h] at hvalue hfault
      cases hvalue
      exact fun hp => hfault (by cases hp; rfl)

theorem unproblematic_read_bind {k : World → Prog β} (hk : ∀ w, Unproblematic (k w)) : Unproblematic (read >>= k) :=
  unproblematic_bind (fun _ _ h => by cases h) hk

theorem refuses_of_unproblematic (h : Unproblematic m) : Refuses m s := fun p hp => absurd hp (h s p)

theorem refuses_raise (f : Fault) : Refuses (raise f : Prog α) s := fun _ _ => rfl

/-- A check comes before anything is written. -/
theorem refuses_check_bind {x : Except Fault α} (hk : ∀ a, x = .ok a → Refuses (k a) s) : Refuses (check x >>= k) s := by
  cases x with
  | ok a => exact hk a rfl
  | error f => exact fun _ _ => rfl

theorem refuses_ownedRun_bind {tenantId : String} {k : RunData → Prog β} (hk : ∀ d, Refuses (k d) s) :
    Refuses (ownedRun tenantId runId >>= k) s := by
  cases howned : owned (fun d : RunData => d.run.tenantId) tenantId (s.runs.get runId) with
  | ok d =>
    have hd := hk d
    unfold Refuses at hd ⊢
    rwa [ownedRun_bind_ok howned]
  | error f =>
    intro p hp
    rw [ownedRun_bind_error howned]

end

theorem unproblematic_find : Unproblematic (find runId) := by
  refine unproblematic_read_bind fun w => ?_
  split
  · exact unproblematic_pure _
  · exact unproblematic_raise nofun

theorem unproblematic_newId : Unproblematic newId :=
  unproblematic_read_bind fun _ => unproblematic_bind (unproblematic_write _) fun _ => unproblematic_pure _

theorem unproblematic_change (c : Change) : Unproblematic (change runId c) :=
  unproblematic_bind unproblematic_find fun _ => unproblematic_bind (unproblematic_write _) fun _ => unproblematic_pure _

theorem unproblematic_changeWithId (c : ℕ → Change) : Unproblematic (changeWithId runId c) :=
  unproblematic_bind unproblematic_find fun _ => unproblematic_read_bind fun _ =>
    unproblematic_bind (unproblematic_write _) fun _ => unproblematic_pure _

theorem unproblematic_requireRevision (run : Run) (expected : Option ℕ) :
    Unproblematic (check (requireRevision run expected) : Prog Unit) := by
  intro s p hp
  cases expected with
  | none => cases hp
  | some e =>
    have hp : requireRevision run (some e) = .error (.problem p) := hp
    by_cases he : e = run.runRevision
    · rw [requireRevision, if_pos he] at hp
      cases hp
    · rw [requireRevision, if_neg he] at hp
      cases hp

theorem unproblematic_updateRun (p : RunPatch) (expected : Option ℕ) (bump : Bool) :
    Unproblematic (updateRun runId p expected bump) :=
  unproblematic_bind unproblematic_find fun _ => unproblematic_bind (unproblematic_requireRevision _ _) fun _ =>
    unproblematic_bind (unproblematic_change _) fun _ => unproblematic_pure _

theorem unproblematic_finalizeRunWithResult (resultManifestId : Option ℕ) (outcome : Outcome) (code : Option String)
    (p : RunPatch) (events : List Payload) (expected : Option ℕ) :
    Unproblematic (finalizeRunWithResult runId resultManifestId outcome code p events expected) := by
  refine unproblematic_bind unproblematic_find fun d => unproblematic_bind (unproblematic_requireRevision _ _) fun _ => ?_
  split
  · exact unproblematic_raise nofun
  · exact unproblematic_bind (unproblematic_changeWithId _) fun _ => unproblematic_pure _

theorem unproblematic_emit (run : Run) (payload : Payload) : Unproblematic (emit runId run payload) :=
  unproblematic_bind unproblematic_newId fun _ =>
    unproblematic_bind (unproblematic_bind (unproblematic_change _) fun _ => unproblematic_pure _) fun _ =>
      unproblematic_updateRun _ _ _

theorem unproblematic_onJobs (r : Jobs.Readings) (op : Jobs.Op ℕ) : Unproblematic (onJobs r op) := by
  refine unproblematic_read_bind fun w => ?_
  split
  · exact unproblematic_bind (unproblematic_write _) fun _ => unproblematic_pure _
  · exact unproblematic_raise nofun

theorem unproblematic_switchStatus (run : Run) (status : RunStatus) (actions : List CommandType) :
    Unproblematic (switchStatus runId run status actions) :=
  unproblematic_bind (unproblematic_updateRun _ _ _) fun _ => unproblematic_emit _ _

theorem unproblematic_supersedePackets (packets : List DecisionPacket) : Unproblematic (supersedePackets runId packets) := by
  induction packets with
  | nil => exact unproblematic_pure _
  | cons p rest ih =>
    unfold supersedePackets
    split
    · exact unproblematic_bind (unproblematic_change _) fun _ => ih
    · exact ih

theorem unproblematic_act (c : Control) : Unproblematic (c.act runId d) := by
  cases c with
  | pause => exact unproblematic_switchStatus _ _ _
  | resume =>
    simp only [Control.act]
    split
    · exact unproblematic_switchStatus _ _ _
    · exact unproblematic_switchStatus _ _ _
  | cancel =>
    exact unproblematic_bind (unproblematic_supersedePackets _) fun _ => unproblematic_bind unproblematic_newId fun _ =>
      unproblematic_finalizeRunWithResult _ _ _ _ _ _

theorem unproblematic_wakeUnlessTerminal (r : Jobs.Readings) : Unproblematic (wakeUnlessTerminal r runId) := by
  refine unproblematic_read_bind fun w => ?_
  cases w.jobs.lookup runId with
  | none => exact unproblematic_pure _
  | some job =>
    dsimp only
    split
    · exact unproblematic_pure _
    · exact unproblematic_bind (unproblematic_onJobs _ _) fun _ => unproblematic_pure _

theorem unproblematic_createCommand (type : CommandType) (status : CommandStatus) :
    Unproblematic (createCommand runId type status) :=
  unproblematic_bind (unproblematic_changeWithId _) fun _ => unproblematic_pure _

/-- A control command that is refused has written nothing. -/
theorem refuses_control (r : Jobs.Readings) (tenantId : String) (c : Control) (revision : Option ℕ) (s : World) :
    Refuses (control r tenantId runId c revision) s := by
  refine refuses_ownedRun_bind fun d => refuses_check_bind fun _ _ => refuses_of_unproblematic ?_
  refine unproblematic_bind (unproblematic_createCommand _ _) fun _ => unproblematic_bind (unproblematic_act c) fun _ =>
    unproblematic_bind (unproblematic_change _) fun _ => ?_
  split
  · exact unproblematic_pure _
  · exact unproblematic_wakeUnlessTerminal r

/-- An answer that is refused has written nothing. -/
theorem refuses_answer (r : Jobs.Readings) (tenantId : String) (request : AnswerRequest) (s : World) :
    Refuses (answer r tenantId runId request) s := by
  refine refuses_ownedRun_bind fun d => ?_
  cases d.packets.find? (·.waitSetId = request.waitSetId) with
  | none => exact refuses_raise _
  | some packet =>
    refine refuses_check_bind fun _ _ => refuses_check_bind fun _ _ => refuses_check_bind fun _ _ => ?_
    refine refuses_check_bind fun _ _ => refuses_check_bind fun _ _ => refuses_check_bind fun _ _ => ?_
    refine refuses_of_unproblematic (unproblematic_bind (unproblematic_createCommand _ _) fun _ => ?_)
    exact unproblematic_bind (unproblematic_change _) fun _ => unproblematic_bind (unproblematic_updateRun _ _ _) fun _ =>
      unproblematic_bind (unproblematic_onJobs _ _) fun _ => unproblematic_pure _

/-! ### Requests that succeed -/

/-- A control command that succeeds finds the run at the revision that it names, and takes
it to the next. -/
theorem control_done {u : World} {r : Jobs.Readings} {tenantId : String} {c : Control} {revision : Option ℕ}
    (h : (control r tenantId runId c revision u).1 = .ok ()) :
    ∃ d d', u.runs.get runId = some d ∧ ((control r tenantId runId c revision).final u).runs.get runId = some d' ∧
      (∀ expected ∈ revision, d.run.runRevision = expected) ∧ d'.run.runRevision = d.run.runRevision + 1 := by
  obtain ⟨d, hown, -⟩ := value_bind_eq_ok h
  have hd := ownedRun_eq_ok hown
  cases control_cases hd r tenantId c revision with
  | refused e hnil =>
    rw [hnil] at h
    cases h
  | done d₂ run hpasses hacted hcommands hfinal => exact ⟨d, _, hd, hfinal, hpasses.revision, hacted.2⟩
  | raised d₂ e hpasses hacted hcommands hvalue =>
    rw [hvalue] at h
    cases h

/-- The packets of a run once the answer to one of them has been accepted. -/
def RunData.closing (d : RunData) (packetId : ℕ) (revision : ℕ) : List DecisionPacket :=
  RunData.updateItem d.packets DecisionPacket.decisionPacketId packetId fun p =>
    { p with status := .answered, waitSetRevision := revision + 1 }

/-- What an answer finds that is not refused. -/
structure RunData.Accepts (d : RunData) (tenantId : String) (request : AnswerRequest) : Prop where
  tenant : d.run.tenantId = tenantId
  packet : ∃ packet ∈ d.packets.find? (·.waitSetId = request.waitSetId),
    packet.waitSetRevision = request.waitSetRevision ∧ packet.status = .opened ∧
      (validatePacketAnswers packet.questions request.answers).isOk
  waits : d.run.status = .waitingUser
  may : request.mayDecide.isOk
  recommended : request.asRecommended.isOk
  resolved : (resolveAnswers d.run request.answers).isOk

instance (d : RunData) (tenantId : String) (request : AnswerRequest) : Decidable (d.Accepts tenantId request) :=
  decidable_of_iff (d.run.tenantId = tenantId ∧
      (∃ packet ∈ d.packets.find? (·.waitSetId = request.waitSetId),
        packet.waitSetRevision = request.waitSetRevision ∧ packet.status = .opened ∧
          (validatePacketAnswers packet.questions request.answers).isOk) ∧
      d.run.status = .waitingUser ∧ request.mayDecide.isOk ∧ request.asRecommended.isOk ∧
        (resolveAnswers d.run request.answers).isOk)
    ⟨fun ⟨h₁, h₂, h₃, h₄, h₅, h₆⟩ => ⟨h₁, h₂, h₃, h₄, h₅, h₆⟩,
      fun h => ⟨h.tenant, h.packet, h.waits, h.may, h.recommended, h.resolved⟩⟩

/-- The records of an answer that is accepted, up to the wake of the job. -/
def acceptance (runId commandId packetId : ℕ) (request : AnswerRequest) (resolved : Inputs) : List Write :=
  [.on runId (.command ⟨commandId, .answer, .accepted, none⟩) true,
    .on runId (.packetSet packetId .answered (request.waitSetRevision + 1)) false,
    .on runId (.run (answered resolved commandId) true) false]

/-- What an answer comes to: it is refused before anything is written, or it closes its packet
and sends the run on. -/
inductive Answered (u : World) (r : Jobs.Readings) (tenantId : String) (runId : ℕ) (request : AnswerRequest) : Prop
  | refused (e : Fault) (h : answer r tenantId runId request u = (.error e, []))
  | accepted (d : RunData) (packet : DecisionPacket) (resolved : Inputs) (l : List Write) (hd : u.runs.get runId = some d)
      (haccepts : d.Accepts tenantId request) (hfind : d.packets.find? (·.waitSetId = request.waitSetId) = some packet)
      (hrevision : packet.waitSetRevision = request.waitSetRevision) (hopen : packet.status = .opened)
      (hvalid : validatePacketAnswers packet.questions request.answers = .ok ())
      (hresolved : resolveAnswers d.run request.answers = .ok resolved)
      (hwake : l = [] ∨ l = [.job r (.wake runId)])
      (h : (answer r tenantId runId request u).2 =
        acceptance runId (u.ids + 1) packet.decisionPacketId request resolved ++ l)

theorem isOk_mapError {x : Except Problem Unit} {v : Unit} (h : x.mapError Fault.problem = .ok v) : x.isOk := by
  cases x with
  | ok _ => rfl
  | error p => cases h

theorem isOk_of_eq {x : Except Fault α} {a : α} (h : x = .ok a) : x.isOk := by
  rw [h]
  rfl

/-- A check is passed, or ends the program before it goes on. -/
theorem check_cases {u : World} (x : Except Fault α) (k : α → Prog β) :
    (∃ e, (check x >>= k) u = (.error e, [])) ∨ ∃ a, x = .ok a ∧ (check x >>= k) u = k a u := by
  cases hx : x with
  | error e => exact .inl ⟨e, rfl⟩
  | ok a => exact .inr ⟨a, rfl, rfl⟩

theorem answer_cases (u : World) (r : Jobs.Readings) (tenantId : String) (request : AnswerRequest) :
    Answered u r tenantId runId request := by
  cases howned : owned (fun d : RunData => d.run.tenantId) tenantId (u.runs.get runId) with
  | error e => exact .refused e (ownedRun_bind_error howned _)
  | ok d =>
    have hd := owned_eq_ok howned
    have htenant : d.run.tenantId = tenantId := owned_tenant howned
    cases hfind : d.packets.find? (·.waitSetId = request.waitSetId) with
    | none => exact .refused _ ((ownedRun_bind_ok howned _).trans (by rw [hfind]; rfl))
    | some packet =>
      have hbody : answer r tenantId runId request u = _ := (ownedRun_bind_ok howned _).trans (by rw [hfind])
      rcases check_cases _ _ with ⟨e, h⟩ | ⟨_, hrevision, h⟩
      · exact .refused e (hbody.trans h)
      replace hbody := hbody.trans h
      rcases check_cases _ _ with ⟨e, h⟩ | ⟨_, hopen, h⟩
      · exact .refused e (hbody.trans h)
      replace hbody := hbody.trans h
      rcases check_cases _ _ with ⟨e, h⟩ | ⟨_, hmay, h⟩
      · exact .refused e (hbody.trans h)
      replace hbody := hbody.trans h
      rcases check_cases _ _ with ⟨e, h⟩ | ⟨_, hvalid, h⟩
      · exact .refused e (hbody.trans h)
      replace hbody := hbody.trans h
      rcases check_cases _ _ with ⟨e, h⟩ | ⟨_, hrecommended, h⟩
      · exact .refused e (hbody.trans h)
      replace hbody := hbody.trans h
      rcases check_cases _ _ with ⟨e, h⟩ | ⟨resolved, hresolved, h⟩
      · exact .refused e (hbody.trans h)
      replace hbody := hbody.trans h
      have hrevision := require_eq_ok hrevision
      obtain ⟨hopen, hwaits⟩ := require_eq_ok hopen
      have haccepts : d.Accepts tenantId request :=
        ⟨htenant, ⟨packet, hfind, hrevision, hopen, isOk_of_eq hvalid⟩, hwaits, isOk_mapError hmay,
          isOk_mapError hrecommended, isOk_of_eq hresolved⟩
      have hcreate := createCommand_eq hd .answer .accepted
      have hd₁ := get_on hd (.command ⟨u.ids + 1, .answer, .accepted, none⟩) true
      let closing : Change := .packetSet packet.decisionPacketId .answered (request.waitSetRevision + 1)
      have hd₂ := get_on hd₁ closing false
      have hrev : ∀ e ∈ some d.run.runRevision, e = ((d.apply (.command ⟨u.ids + 1, .answer, .accepted, none⟩)).apply
          closing).run.runRevision := by
        rintro e ⟨⟩
        rfl
      have hwake : ∀ v : World, ((onJobs r (.wake runId) >>= fun _ => pure ()) v).2 = [] ∨
          ((onJobs r (.wake runId) >>= fun _ => pure ()) v).2 = [.job r (.wake runId)] := by
        intro v
        rw [bind_eq, onJobs_eq]
        cases ((Jobs.Op.wake runId).apply v.jobs r).2 with
        | ok reply => exact .inr rfl
        | error fault => exact .inl rfl
      let v : World := replay u (acceptance runId (u.ids + 1) packet.decisionPacketId request resolved)
      refine .accepted d packet resolved _ hd haccepts hfind hrevision hopen hvalid hresolved (hwake v) ?_
      rw [hbody, bind_of_ok hcreate, bind_of_ok (change_eq hd₁ closing), bind_of_ok (updateRun_eq hd₂ _ hrev true)]
      rfl

/-- An answer that succeeds finds its packet open, at the revision that it names, and closes
it. -/
theorem answer_done {u : World} {r : Jobs.Readings} {tenantId : String} {request : AnswerRequest}
    (h : (answer r tenantId runId request u).1 = .ok ()) :
    ∃ d packet d', u.runs.get runId = some d ∧ d.packets.find? (·.waitSetId = request.waitSetId) = some packet ∧
      packet.waitSetRevision = request.waitSetRevision ∧ packet.status = .opened ∧
        ((answer r tenantId runId request).final u).runs.get runId = some d' ∧
          d'.packets = d.closing packet.decisionPacketId request.waitSetRevision := by
  cases answer_cases u r tenantId request with
  | refused e hrefused =>
    rw [hrefused] at h
    cases h
  | accepted d packet resolved l hd haccepts hfind hrevision hopen hvalid hresolved hwake hrecords =>
    let issued : Change := .command ⟨u.ids + 1, .answer, .accepted, none⟩
    let closing : Change := .packetSet packet.decisionPacketId .answered (request.waitSetRevision + 1)
    let going : Change := .run (answered resolved (u.ids + 1)) true
    have hd' := get_on (get_on (get_on hd issued true) closing false) going false
    refine ⟨d, packet, ((d.apply issued).apply closing).apply going, hd, hfind, hrevision, hopen, ?_, rfl⟩
    rw [final, hrecords, replay_append]
    rcases hwake with rfl | rfl
    · exact hd'
    · exact hd'

/-! ### Revisions and packets over time -/

theorem revision_le_apply (d : RunData) (c : Change) : d.run.runRevision ≤ (d.apply c).run.runRevision := by
  have hupdate : ∀ (p : RunPatch) (bump : Bool), d.run.runRevision ≤ (d.run.update p bump).runRevision := by
    intro p bump
    cases bump <;> simp [Run.update]
  cases c with
  | run p bump => exact hupdate p bump
  | mutated p payload => exact hupdate p true
  | finalized result p events =>
    rw [RunData.apply, foldl_append_eq (fun d => d.run.runRevision) fun _ _ _ => rfl]
    exact hupdate p true
  | _ => exact le_rfl

/-- Every packet is still there, under its id, and closed if it was closed. -/
def RunData.KeepsPackets (d d' : RunData) : Prop :=
  ∀ (i : ℕ) (p : DecisionPacket), d.packets[i]? = some p → ∃ p' : DecisionPacket, d'.packets[i]? = some p' ∧
    p'.decisionPacketId = p.decisionPacketId ∧ (p.status ≠ .opened → p'.status ≠ .opened)

theorem keepsPackets_of_eq {d' : RunData} (h : d'.packets = d.packets) : d.KeepsPackets d' := fun _ p hp =>
  ⟨p, h ▸ hp, rfl, id⟩

theorem keepsPackets_apply {lw : Leeway} {c : Change} (hc : Lawful lw d c) : d.KeepsPackets (d.apply c) := by
  cases hc with
  | asks => exact fun i p hp => ⟨p, getElem?_append_of_some hp _, rfl, id⟩
  | @closes id status revision hc hs =>
    intro i p hp
    refine ⟨if p.decisionPacketId = id then { p with status := status, waitSetRevision := revision } else p, ?_, ?_⟩
    · exact (getElem?_updateItem ..).trans (by rw [hp]; rfl)
    · split
      · exact ⟨rfl, fun _ => hs⟩
      · exact ⟨rfl, fun h => h⟩
  | ends => exact keepsPackets_of_eq (foldl_append_eq RunData.packets (fun _ _ _ => rfl) _ _ _)
  | _ => exact keepsPackets_of_eq rfl

/-- The packets of a run have different ids. -/
def RunData.Numbered (d : RunData) : Prop := (d.packets.map DecisionPacket.decisionPacketId).Nodup

theorem numbered_apply {lw : Leeway} (h : d.Numbered) {c : Change} (hc : Lawful lw d c) : (d.apply c).Numbered := by
  cases hc with
  | @asks p hq hwait hquiet hnew =>
    show ((d.packets ++ [p]).map DecisionPacket.decisionPacketId).Nodup
    rw [List.map_append, List.nodup_append]
    refine ⟨h, List.nodup_singleton _, ?_⟩
    rintro _ hx _ hy rfl
    obtain ⟨x, hx, hid⟩ := List.mem_map.mp hx
    exact hnew x hx (hid.trans (List.mem_singleton.mp hy))
  | @closes id status revision =>
    show ((RunData.updateItem d.packets DecisionPacket.decisionPacketId id _).map DecisionPacket.decisionPacketId).Nodup
    have hids : (RunData.updateItem d.packets DecisionPacket.decisionPacketId id fun p =>
        { p with status := status, waitSetRevision := revision }).map DecisionPacket.decisionPacketId =
          d.packets.map DecisionPacket.decisionPacketId := by
      rw [RunData.updateItem, List.map_map]
      refine List.map_congr_left fun p _ => ?_
      simp only [Function.comp_apply]
      split <;> rfl
    rw [hids]
    exact h
  | ends =>
    unfold RunData.Numbered
    rw [RunData.apply, foldl_append_eq RunData.packets fun _ _ _ => rfl]
    exact h
  | _ => exact h

/-! ### The guards -/

/-- What a command or an answer comes to. -/
def System.reply (s : System) : Action → Option (Except Fault Unit)
  | .control r tenantId runId c revision => some (control r tenantId runId c revision s.world).1
  | .answer r tenantId runId request => some (answer r tenantId runId request s.world).1
  | _ => none

/-- The run and its revision that a pause or a resume names. -/
def Action.revision : Action → Option (ℕ × ℕ)
  | .control _ _ runId .pause (some revision) => some (runId, revision)
  | .control _ _ runId .resume (some revision) => some (runId, revision)
  | _ => none

/-- The revision of the wait-set that an answer names. -/
def Action.waitSetRevision : Action → Option ℕ
  | .answer _ _ _ request => some request.waitSetRevision
  | _ => none

/-- The packet that an answer is for, with its run. -/
def System.packet (s : System) : Action → Option (ℕ × DecisionPacket)
  | .answer _ _ runId request => (s.world.runs.get runId).bind fun d =>
      (d.packets.find? (·.waitSetId = request.waitSetId)).map fun packet => (runId, packet)
  | _ => none

/-- A request only changes what its program writes. -/
theorem request_step {s s' : System} {a : Action} {p : Prog Unit} (h : System.step w s (.act a) = some s')
    (hp : ∀ q, s.tasks.Runs w a q → q = s.tasks.request p) : s' = ⟨p.final s.world, s.tasks⟩ := by
  cases System.steps h with
  | act hsection =>
    cases hp _ (section_runs hsection)
    unfold Tasks.request final
    rw [bind_eq]
    cases p s.world with
    | mk result l =>
      cases result with
      | ok _ =>
        dsimp only [pure_eq]
        rw [List.append_nil]
      | error f => rfl

/-- The program of a request. -/
theorem reply_request {s : System} {a : Action} {result : Except Fault Unit} (h : s.reply a = some result) :
    ∃ p : Prog Unit, (p s.world).1 = result ∧ Refuses p s.world ∧ ∀ q, s.tasks.Runs w a q → q = s.tasks.request p := by
  cases a with
  | control r tenantId runId c revision =>
    refine ⟨_, Option.some_inj.mp h, refuses_control r tenantId c revision s.world, ?_⟩
    rintro q ⟨⟩
    rfl
  | answer r tenantId runId request =>
    refine ⟨_, Option.some_inj.mp h, refuses_answer r tenantId request s.world, ?_⟩
    rintro q ⟨⟩
    rfl
  | _ => cases h

/-- A pause or a resume that succeeds takes the run past the revision that it names. -/
theorem revision_passed {s s' : System} {a : Action} (h : System.step w s (.act a) = some s') (hok : s.reply a = some (.ok ()))
    {revision : ℕ} (hnames : a.revision = some (runId, revision)) :
    ∃ d d', s.world.runs.get runId = some d ∧ d.run.runRevision = revision ∧ s'.world.runs.get runId = some d' ∧
      revision < d'.run.runRevision := by
  cases a with
  | control r tenantId id c named =>
    have hnamed : id = runId ∧ named = some revision := by
      cases c <;> cases named <;> simp_all [Action.revision]
    obtain ⟨rfl, rfl⟩ := hnamed
    obtain ⟨d, d', hd, hd', hrevision, hnext⟩ := control_done (Option.some_inj.mp hok)
    have hs' : s' = ⟨(control r tenantId id c (some revision)).final s.world, s.tasks⟩ := by
      refine request_step h ?_
      rintro q ⟨⟩
      rfl
    refine ⟨d, d', hd, hrevision revision rfl, hs' ▸ hd', ?_⟩
    rw [hnext, hrevision revision rfl]
    exact Nat.lt_succ_self revision
  | _ => cases hnames

/-- An answer that succeeds closes the packet that it is for. -/
theorem packet_closed {s s' : System} {a : Action} (h : System.step w s (.act a) = some s') (hok : s.reply a = some (.ok ()))
    {packet : DecisionPacket} (hpacket : s.packet a = some (runId, packet)) :
    a.waitSetRevision = some packet.waitSetRevision ∧ packet.status = .opened ∧
      ∃ (d' : RunData) (i : ℕ) (p : DecisionPacket), s'.world.runs.get runId = some d' ∧ d'.packets[i]? = some p ∧
        p.decisionPacketId = packet.decisionPacketId ∧ p.status ≠ .opened := by
  cases a with
  | answer r tenantId id request =>
    obtain ⟨d, packet', d', hd, hfind, hrevision, hopen, hd', hpackets⟩ := answer_done (Option.some_inj.mp hok)
    have hpacket : (some (id, packet') : Option (ℕ × DecisionPacket)) = some (runId, packet) := by
      rw [← hpacket]
      simp only [System.packet, hd, Option.bind_some, hfind, Option.map_some]
    cases hpacket
    have hmem := List.mem_of_find?_eq_some hfind
    have hs' : s' = ⟨(answer r tenantId runId request).final s.world, s.tasks⟩ := by
      refine request_step h ?_
      rintro q ⟨⟩
      rfl
    obtain ⟨i, hi⟩ := List.mem_iff_getElem?.mp hmem
    refine ⟨congrArg some hrevision.symm, hopen, d', i,
      { packet with status := .answered, waitSetRevision := request.waitSetRevision + 1 }, hs' ▸ hd', ?_, rfl, by simp⟩
    rw [hpackets]
    refine (getElem?_updateItem ..).trans ?_
    rw [hi, Option.map_some, if_pos rfl]
  | _ => cases hpacket

/-- The packet that an answer is for belongs to its run. -/
theorem packet_mem {s : System} {a : Action} {packet : DecisionPacket} (hpacket : s.packet a = some (runId, packet)) :
    ∃ d, s.world.runs.get runId = some d ∧ packet ∈ d.packets := by
  cases a with
  | answer r tenantId id request =>
    obtain ⟨d, hd, hpacket⟩ := Option.bind_eq_some_iff.mp hpacket
    obtain ⟨packet', hfind, heq⟩ := Option.map_eq_some_iff.mp hpacket
    cases heq
    exact ⟨d, hd, List.mem_of_find?_eq_some hfind⟩
  | _ => cases hpacket

/-- What is closed is not answered again, whatever happens in between. -/
theorem packet_stays_closed {s t : System} {fs : List System.Event} (hi : s.Inv)
    (hnumbered : ∀ d, t.world.runs.get runId = some d → d.Numbered) (h : Runs.Run (System.step w) Runs.Free s fs t)
    {d : RunData} {i : ℕ} {p : DecisionPacket} (hd : s.world.runs.get runId = some d) (hp : d.packets[i]? = some p)
    (hclosed : p.status ≠ .opened) {b : Action} {packet : DecisionPacket} (hpacket : t.packet b = some (runId, packet))
    (hopen : packet.status = .opened) : packet.decisionPacketId ≠ p.decisionPacketId := by
  obtain ⟨d', hd', hkeeps⟩ := System.runs_climb .all h hi (fun s e _ => Leeway.Excuses.all s e.action) trivial
    (R := RunData.KeepsPackets) (fun d => keepsPackets_of_eq rfl)
    (fun d d₁ d₂ h₁ h₂ i p hp => by
      obtain ⟨p₁, hp₁, hid₁, hclosed₁⟩ := h₁ i p hp
      obtain ⟨p₂, hp₂, hid₂, hclosed₂⟩ := h₂ i p₁ hp₁
      exact ⟨p₂, hp₂, hid₂.trans hid₁, fun h => hclosed₂ (hclosed₁ h)⟩)
    (fun _ hc => keepsPackets_apply hc) hd
  obtain ⟨p', hp', hid, hstays⟩ := hkeeps i p hp
  obtain ⟨d₁, hd₁, hmem⟩ := packet_mem hpacket
  cases hd'.symm.trans hd₁
  intro hsame
  have heq : packet = p' :=
    List.inj_on_of_nodup_map (hnumbered d' hd') hmem (List.mem_of_getElem? hp') (hsame.trans hid.symm)
  exact hstays hclosed (heq ▸ hopen)

/-- A request that is refused changes nothing. A pause or a resume that succeeds is the only
one that names its revision of the run; an answer that succeeds names the revision of
its wait-set, and is the only one for its packet. -/
theorem revision_guarded {es : List System.Event} {s s' : System} {a : Action}
    (h : Runs.Run (System.step w) Runs.Free System.init es s) (ha : System.step w s (.act a) = some s') :
    (∀ problem, s.reply a = some (.error (.problem problem)) → s' = s) ∧
    (s.reply a = some (.ok ()) →
      (∀ runId packet, s.packet a = some (runId, packet) → a.waitSetRevision = some packet.waitSetRevision) ∧
      ∀ (fs : List System.Event) (t : System) (b : Action), Runs.Run (System.step w) Runs.Free s' fs t →
        t.reply b = some (.ok ()) → (System.step w t (.act b)).isSome →
          (∀ named, a.revision = some named → b.revision ≠ some named) ∧
          ∀ runId packet packet', s.packet a = some (runId, packet) → t.packet b = some (runId, packet') →
            packet'.decisionPacketId ≠ packet.decisionPacketId) := by
  have hi := System.inv_run h
  have hi' := System.inv_step hi ha
  refine ⟨fun problem hrefused => ?_, fun hok => ⟨fun runId packet hpacket => (packet_closed ha hok hpacket).1, ?_⟩⟩
  · obtain ⟨p, hvalue, hrefuses, hp⟩ := reply_request hrefused
    rw [request_step ha hp, final, hrefuses problem hvalue]
    rfl
  · intro fs t b hrun hagain hb
    obtain ⟨t', hb⟩ := Option.isSome_iff_exists.mp hb
    constructor
    · rintro ⟨runId, revision⟩ hnames hnamed
      obtain ⟨-, d', -, -, hd', hpassed⟩ := revision_passed ha hok hnames
      obtain ⟨d₁, hd₁, hle⟩ := System.runs_climb .all hrun hi' (fun s e _ => Leeway.Excuses.all s e.action) trivial
        (R := fun d d' => d.run.runRevision ≤ d'.run.runRevision) (fun _ => le_rfl) (fun _ _ _ => le_trans)
        (fun _ _ => revision_le_apply _ _) hd'
      obtain ⟨d₂, -, hd₂, hrevision, -⟩ := revision_passed hb hagain hnamed
      cases hd₁.symm.trans hd₂
      exact absurd (hpassed.trans_le hle) (hrevision ▸ lt_irrefl _)
    · intro runId packet packet' hpacket hpacket'
      obtain ⟨-, -, d', i, p, hd', hp, hid, hclosed⟩ := packet_closed ha hok hpacket
      have hnumbered : ∀ d, t.world.runs.get runId = some d → d.Numbered := by
        have hwhole := h.append (.cons trivial ha hrun)
        exact fun d hd => System.runs_invariant .all (P := RunData.Numbered) hwhole
          (fun s e _ _ _ => Leeway.Excuses.all s e.action) (fun _ _ => .inl trivial) (fun _ _ => List.nodup_nil)
          (fun _ hnumbered hc => numbered_apply hnumbered hc) hd
      rw [← hid]
      exact packet_stays_closed hi' hnumbered hrun hd' hp hclosed hpacket' (packet_closed hb hagain hpacket').2.1

/-- A run is paused at its first revision, and cannot be resumed at that revision then. -/
theorem revision_guarded_paused :
    ∃ s s', exec (System.step standard) Runs.Free System.init (System.opening false) = some s ∧
      System.step standard s (.act (.control (System.second 2) "t" 4 .pause (some 1))) = some s' ∧
      s.reply (.control (System.second 2) "t" 4 .pause (some 1)) = some (.ok ()) ∧
      s'.reply (.control (System.second 3) "t" 4 .resume (some 1)) ≠ some (.ok ()) := by
  let pause : Action := .control (System.second 2) "t" 4 .pause (some 1)
  let resume : Action := .control (System.second 3) "t" 4 .resume (some 1)
  have hrun : ((exec (System.step standard) Runs.Free System.init (System.opening false)).bind fun s =>
      (System.step standard s (.act pause)).map fun s' =>
        (s.reply pause, (System.step standard s' (.act resume)).isSome)) = some (some (.ok ()), true) := by
    decide +kernel
  obtain ⟨s, hs, hrest⟩ := Option.bind_eq_some_iff.mp hrun
  obtain ⟨s', hs', hpair⟩ := Option.map_eq_some_iff.mp hrest
  obtain ⟨hok, henabled⟩ := Prod.mk.inj hpair
  refine ⟨s, s', hs, hs', hok, fun hagain => ?_⟩
  exact (((revision_guarded (run_of_exec hs) hs').2 hok).2 [] s' resume (.nil s') hagain henabled).1 (4, 1) rfl rfl

end AutomlApi.Workflow
