import AutomlApi.Workflow.Life

/-! How far a run has come: its phase, and the progress that it shows. Each phase has its
own levels of progress, so that the progress tells the phase. A run only comes further,
but for the steps that set a fixed phase on a run whatever it has come to. -/

namespace AutomlApi.Workflow

open Durable
open Jobs (Job Readings)
open Runs (exec run_of_exec)
open Worker.LocalExecutionWorker (standard)

variable {lw : Leeway} {w : Worker.LocalExecutionWorker} {s s' : System} {u v : World} {t : Tasks} {d : RunData}
  {c : Change} {runId : ℕ} {α : Type}

/-! ### Phases and their levels -/

/-- The phase of a run and its progress. -/
def Run.pace (r : Run) : Phase × ℕ := (r.phase, r.progress)

/-- It has come at least as far. -/
def Reaches (q q' : Phase × ℕ) : Prop := q.1.order ≤ q'.1.order ∧ q.2 ≤ q'.2

instance (q q' : Phase × ℕ) : Decidable (Reaches q q') := inferInstanceAs (Decidable (_ ∧ _))

theorem Reaches.refl (q : Phase × ℕ) : Reaches q q := ⟨le_rfl, le_rfl⟩

theorem Reaches.trans {q q' q'' : Phase × ℕ} (h : Reaches q q') (h' : Reaches q' q'') : Reaches q q'' :=
  ⟨h.1.trans h'.1, h.2.trans h'.2⟩

/-- The levels of a phase are below those of a later one. -/
theorem lt_of_order_lt {phase phase' : Phase} {n n' : ℕ} (h : n ∈ phase.levels) (h' : n' ∈ phase'.levels)
    (hlt : phase.order < phase'.order) : n < n' := by
  cases phase <;> cases phase' <;> simp [Phase.order, Phase.levels] at hlt h h' <;> omega

/-- The progress tells the phase. -/
theorem reaches_of_le {phase phase' : Phase} {n n' : ℕ} (h : n ∈ phase.levels) (h' : n' ∈ phase'.levels) (hle : n ≤ n') :
    Reaches (phase, n) (phase', n') := by
  refine ⟨?_, hle⟩
  by_contra hlt
  have := lt_of_order_lt h' h (not_le.mp hlt)
  omega

/-! ### What a change does -/

def Change.pace (c : Change) (q : Phase × ℕ) : Phase × ℕ := (c.patch.phase.getD q.1, c.patch.progress.getD q.2)

theorem pace_apply (d : RunData) (c : Change) : (d.apply c).run.pace = c.pace d.run.pace := by
  cases c with
  | finalized result p events =>
    exact foldl_append_eq (fun d => d.run.pace) (fun _ _ _ => rfl)
      { d with run := d.run.update p true, result := some result } _ _
  | _ => rfl

/-- A change that sets no phase sets no progress. -/
theorem pace_of_phase (hc : c.paced) (hphase : c.patch.phase = none) (q : Phase × ℕ) : c.pace q = q := by
  unfold Change.paced RunPatch.paced at hc
  rw [hphase] at hc
  cases hprogress : c.patch.progress with
  | none => simp [Change.pace, hphase, hprogress]
  | some n => simp [hprogress] at hc

theorem pace_of_quiet (hc : c.paced) (hquiet : c.loud = false) (q : Phase × ℕ) : c.pace q = q := by
  refine pace_of_phase hc ?_ q
  cases c with
  | run p bump =>
    simp only [Change.loud, RunPatch.loud, Bool.or_eq_false_iff, Option.isSome_eq_false_iff,
      Option.isNone_iff_eq_none] at hquiet
    exact hquiet.1.1.1.1.1.1
  | mutated | finalized => cases hquiet
  | _ => rfl

/-- What a change sets is a level of the phase that it sets. -/
theorem level_of_phase (hc : c.paced) {phase : Phase} (hphase : c.patch.phase = some phase) :
    ∃ n, c.patch.progress = some n ∧ n ∈ phase.levels ∧
      (n = 100 → c.patch.status = some .terminal ∧ c.patch.outcome = some (some .succeeded)) := by
  unfold Change.paced RunPatch.paced at hc
  rw [hphase] at hc
  cases hprogress : c.patch.progress with
  | none => simp [hprogress] at hc
  | some n =>
    rw [hprogress] at hc
    obtain ⟨hlevel, hlast⟩ := of_decide_eq_true hc
    exact ⟨n, rfl, hlevel, hlast⟩

/-! ### Every run is on its pace -/

/-- The progress of a run is a level of its phase, and it only shows the last one if it has
succeeded. -/
structure RunData.OnPace (d : RunData) : Prop where
  level : d.run.progress ∈ d.run.phase.levels
  last : d.run.progress = 100 → d.Sealed

/-- A run that has succeeded stays so. -/
theorem sealed_apply (hs : Sound d) (hc : Lawful lw d c) (h : d.Sealed) : (d.apply c).Sealed :=
  (sound_apply hs hc).sealed.mp ((stages_change d c).subset (hs.sealed.mpr h))

/-- The status and the outcome of a run, which an event leaves alone. -/
theorem status_apply (d : RunData) (c : Change) : ((d.apply c).run.status, (d.apply c).run.outcome) =
    (c.patch.status.getD d.run.status, c.patch.outcome.getD d.run.outcome) := by
  cases c with
  | finalized result p events =>
    exact foldl_append_eq (fun d => (d.run.status, d.run.outcome)) (fun _ _ _ => rfl)
      { d with run := d.run.update p true, result := some result } _ _
  | _ => rfl

theorem sealed_of_patch (hstatus : c.patch.status = some .terminal) (houtcome : c.patch.outcome = some (some .succeeded)) :
    (d.apply c).Sealed := by
  have happly := status_apply d c
  rw [hstatus, houtcome] at happly
  exact Prod.mk.inj happly

theorem onPace_apply (h : d.OnPace) (hs : Sound d) (hc : Lawful lw d c) (hpaced : c.paced) : (d.apply c).OnPace := by
  have hpace := pace_apply d c
  cases hphase : c.patch.phase with
  | none =>
    rw [pace_of_phase hpaced hphase] at hpace
    obtain ⟨hp, hn⟩ := Prod.mk.inj hpace
    constructor
    · rw [hp, hn]
      exact h.level
    · intro hlast
      exact sealed_apply hs hc (h.last (hn ▸ hlast))
  | some phase =>
    obtain ⟨n, hprogress, hlevel, hlast⟩ := level_of_phase hpaced hphase
    rw [Change.pace, hphase, hprogress] at hpace
    obtain ⟨hp, hn⟩ := Prod.mk.inj hpace
    constructor
    · rw [hp, hn]
      exact hlevel
    · intro hend
      have hn : (d.apply c).run.progress = n := hn
      obtain ⟨hstatus, houtcome⟩ := hlast (hn.symm.trans hend)
      exact sealed_of_patch hstatus houtcome

theorem onPace_create (request : RunRequest) (tenantId : String) : (RunData.create (request.run tenantId)).OnPace :=
  ⟨List.mem_singleton_self 0, nofun⟩

/-- A run that has not succeeded has not come to its last level. -/
theorem RunData.OnPace.le_of_unsealed (h : d.OnPace) (hs : ¬ d.Sealed) : d.run.progress ≤ 95 := by
  have hlevel := h.level
  have hlast : d.run.progress ≠ 100 := fun hlast => hs (h.last hlast)
  cases hphase : d.run.phase <;> rw [hphase] at hlevel <;> simp [Phase.levels] at hlevel <;> omega

theorem RunData.OnPace.le (h : d.OnPace) : d.run.progress ≤ 100 := by
  have hlevel := h.level
  cases hphase : d.run.phase <;> rw [hphase] at hlevel <;> simp [Phase.levels] at hlevel <;> omega

/-- Every run is on its pace. -/
def World.OnPace (u : World) : Prop := ∀ runId d, u.runs.get runId = some d → d.OnPace

theorem onPace_record {x : Write} (h : u.Sound ∧ u.OnPace) (hx : u.Lawful lw x ∧ x.paced) :
    (u.apply x).Sound ∧ (u.apply x).OnPace := by
  obtain ⟨hs, hon⟩ := h
  refine ⟨world_sound_apply hs hx.1, fun runId d hd => ?_⟩
  rcases run_before hx.1 hd with ⟨hsame, -⟩ | ⟨request, tenantId, -, -, rfl⟩ | ⟨c, drawsId, d₀, rfl, hd₀, hc, rfl⟩
  · exact hon runId d hsame
  · exact onPace_create request tenantId
  · exact onPace_apply (hon runId d₀ hd₀) (hs.runs runId d₀ hd₀).1 hc hx.2

/-! ### What the records climb -/

/-- Every run is there still, and has come at least as far. -/
abbrev World.Reaches : World → World → Prop := World.Each fun d d' => Workflow.Reaches d.run.pace d'.run.pace

theorem reaches_of_eq (h : v.runs = u.runs) : u.Reaches v := each_of_eq (fun _ => .refl _) h

/-- A record that takes no run back. -/
def World.Climbs (u : World) (x : Write) : Prop := u.Reaches (u.apply x)

theorem climbs_on {drawsId : Bool} (h : ∀ d, u.runs.get runId = some d → Reaches d.run.pace (c.pace d.run.pace)) :
    u.Climbs (.on runId c drawsId) := by
  intro id d hd
  have hget : (u.apply (.on runId c drawsId)).runs.get id =
      if id = runId then (u.runs.get runId).map (·.apply c) else u.runs.get id := get_modifyKey ..
  by_cases hid : id = runId
  · subst hid
    rw [if_pos rfl, hd] at hget
    refine ⟨d.apply c, hget, ?_⟩
    show Workflow.Reaches d.run.pace (d.apply c).run.pace
    rw [pace_apply]
    exact h d hd
  · rw [if_neg hid, hd] at hget
    exact ⟨d, hget, .refl _⟩

theorem mem_levels_awaiting : 95 ∈ Phase.package.levels := by decide

theorem mem_levels_succeeded : 100 ∈ Phase.package.levels := by decide

/-- What a step that works on no run does to it. -/
theorem reaches_of_idle (h : d.OnPace) (hc : Lawful lw d c) (hpaced : c.paced) (hworks : ¬ lw.works) :
    Reaches d.run.pace (c.pace d.run.pace) := by
  cases hc with
  | @notes p hp =>
    have hquiet : Change.loud (.run p false) = false := by simp [Change.loud, hp]
    rw [pace_of_quiet hpaced hquiet]
    exact .refl _
  | works hw => exact absurd hw hworks
  | awaits ha hlive hunpaused hsealed => exact reaches_of_le h.level mem_levels_awaiting (h.le_of_unsealed hsealed)
  | @ends result p events hopen hends =>
    obtain ⟨manifest, outcome, code⟩ := result
    cases hends with
    | succeeds => exact reaches_of_le h.level mem_levels_succeeded h.le
    | fails => exact .refl _
    | cancels => exact .refl _
  | _ => exact .refl _

theorem climbs_of_idle {x : Write} (h : u.OnPace) (hx : u.Lawful lw x) (hpaced : x.paced) (hworks : ¬ lw.works) : u.Climbs x := by
  cases x with
  | run runId r =>
    intro id d hd
    have hne : id ≠ runId := by
      rintro rfl
      rw [hx.1] at hd
      cases hd
    refine ⟨d, ?_, .refl _⟩
    simp only [World.apply, Dict.get_set, if_neg hne, hd]
  | on runId c drawsId => exact climbs_on fun d hd => reaches_of_idle (h runId d hd) (hx.2 d hd) hpaced hworks
  | _ => exact reaches_of_eq rfl

/-! ### The records of a program -/

def Write.pace : Write → Phase × ℕ → Phase × ℕ
  | .on _ c _, q => c.pace q
  | _, q => q

/-- The records take a run that has come so far no step back. -/
def ClimbsFrom : Phase × ℕ → List Write → Prop
  | _, [] => True
  | q, x :: l => Reaches q (x.pace q) ∧ ClimbsFrom (x.pace q) l

/-- A record that sets a later phase, or the same one with no less progress. -/
theorem climbsFrom_on {q : Phase × ℕ} {drawsId : Bool} {phase : Phase} {n : ℕ} {l : List Write}
    (hphase : c.patch.phase = some phase) (hprogress : c.patch.progress = some n) (hn : n ∈ phase.levels)
    (hq : q.2 ∈ q.1.levels) (hle : q.2 ≤ n) (hrest : ClimbsFrom (phase, n) l) : ClimbsFrom q (.on runId c drawsId :: l) := by
  have hpace : Write.pace (.on runId c drawsId) q = (phase, n) := by
    rw [Write.pace, Change.pace, hphase, hprogress]
    rfl
  rw [ClimbsFrom, hpace]
  exact ⟨reaches_of_le hq hn hle, hrest⟩

/-- Only the loud records count. -/
theorem climbsFrom_of_filter {q : Phase × ℕ} {l : List Write} (hpaced : ∀ x ∈ l, x.paced)
    (h : ClimbsFrom q (l.filter Write.loud)) : ClimbsFrom q l := by
  induction l generalizing q with
  | nil => trivial
  | cons x l ih =>
    have hrest : ∀ y ∈ l, y.paced := fun y hy => hpaced y (List.mem_cons_of_mem x hy)
    cases hloud : x.loud with
    | true =>
      rw [List.filter_cons_of_pos hloud] at h
      exact ⟨h.1, ih hrest h.2⟩
    | false =>
      rw [List.filter_cons_of_neg (by simp [hloud])] at h
      have hpace : x.pace q = q := by
        cases x with
        | on runId c drawsId => exact pace_of_quiet (hpaced _ List.mem_cons_self) hloud q
        | _ => rfl
      exact ⟨hpace.symm ▸ .refl q, ih hrest (hpace.symm ▸ h)⟩

/-- Records about one run that take it no step back take no run back. -/
theorem climbs_of_climbsFrom {l : List Write} (habout : ∀ x ∈ l, x.about runId) (hd : u.runs.get runId = some d)
    (h : ClimbsFrom d.run.pace l) : Along World.Climbs u l := by
  induction l generalizing u d with
  | nil => trivial
  | cons x l ih =>
    have hrest : ∀ y ∈ l, y.about runId := fun y hy => habout y (List.mem_cons_of_mem x hy)
    have hx := habout x List.mem_cons_self
    cases x with
    | on id c drawsId =>
      have hid : id = runId := of_decide_eq_true hx
      subst hid
      refine ⟨climbs_on fun d' hd' => ?_, ih hrest (get_on hd c drawsId) ?_⟩
      · cases hd.symm.trans hd'
        exact h.1
      · rw [pace_apply]
        exact h.2
    | newId | job | put => exact ⟨reaches_of_eq rfl, ih hrest hd h.2⟩
    | _ => cases hx

/-- A program of a run whose loud records take it no step back. -/
theorem climbs_of_says {m : Prog α} (hm : Minds (.of runId) m) (hd : u.runs.get runId = some d)
    (h : Says Write.loud m u fun _ l => ClimbsFrom d.run.pace l) : Writes World.Climbs m u := by
  have hwithin : ∀ x ∈ (m u).2, x.about runId ∧ x.paced :=
    along_iff.mp ((hm u).writes.mono fun _ _ hx => ⟨hx.about, hx.paced⟩)
  exact climbs_of_climbsFrom (fun x hx => (hwithin x hx).1) hd (climbsFrom_of_filter (fun x hx => (hwithin x hx).2) h)

theorem stands_of_drawn (hd : u.runs.get runId = some d) (hdrawn : u.Drawn) : Stands u runId d.standing u.jobs :=
  ⟨by simp [World.standing, hd], rfl, hdrawn⟩

/-! ### The programs of a worker -/

/-- A transition to a phase only happens before it. -/
theorem climbsFrom_transitions {phase : Phase} {n : ℕ} {l : List Write} (h : d.OnPace) (hn : n ∈ phase.levels)
    (hrest : ∀ q : Phase × ℕ, q.2 ∈ q.1.levels → q.2 = d.run.progress ∨ q.2 = n → ClimbsFrom q l) :
    ClimbsFrom d.run.pace (transitions runId d.standing phase n ++ l) := by
  unfold transitions
  split
  · exact hrest d.run.pace h.level (.inl rfl)
  · rename_i hafter
    have hlt : d.run.phase.order < phase.order := not_le.mp hafter
    exact climbsFrom_on rfl rfl hn h.level (lt_of_order_lt h.level hn hlt).le (hrest (phase, n) hn (.inr rfl))

theorem climbsFrom_orNone {phase : Phase} {n : ℕ} {r : Except Fault α} {l : List Write} (h : d.OnPace)
    (hn : n ∈ phase.levels) (hl : OrNone (transitions runId d.standing phase n) r l) : ClimbsFrom d.run.pace l := by
  rcases hl with rfl | rfl
  · trivial
  · rw [← List.append_nil (transitions runId d.standing phase n)]
    exact climbsFrom_transitions h hn fun _ _ _ => trivial

/-- What ends a publication of the result. -/
theorem climbsFrom_concludes {st : Standing} {q : Phase × ℕ} {r : Except Fault (Option PendingResult)} {l : List Write}
    (hq : q.2 ∈ q.1.levels) (hle : q.2 ≤ 95) (h : Concludes runId st r l) : ClimbsFrom q l := by
  cases h with
  | waits | fails => trivial
  | opens => exact ⟨.refl q, trivial⟩
  | asks => exact climbsFrom_on rfl rfl mem_levels_awaiting hq hle trivial
  | opensAndAsks => exact ⟨.refl q, climbsFrom_on rfl rfl mem_levels_awaiting hq hle trivial⟩
  | succeeds => exact climbsFrom_on rfl rfl mem_levels_succeeded hq (hle.trans (by decide)) trivial

theorem climbsFrom_publishes {r : Except Fault (Option PendingResult)} {l : List Write} (h : d.OnPace) (hs : ¬ d.Sealed)
    (hl : Publishes runId d.standing r l) : ClimbsFrom d.run.pace l := by
  obtain ⟨l', hends, rfl | rfl⟩ := hl
  · exact climbsFrom_concludes h.level (h.le_of_unsealed hs) hends
  · refine climbsFrom_transitions h (by decide) fun q hq hlast => climbsFrom_concludes hq ?_ hends
    have := h.le_of_unsealed hs
    omega

/-! ### Steps that set a run back -/

/-- The handler sets a fixed phase and progress on a run that has come further. -/
def Entry.setsBack (d : RunData) : Entry → Bool
  | .profiled _ => d.run.status ≠ .terminal ∧ 15 < d.run.progress
  | .resolve => d.run.status ≠ .terminal ∧ 40 < d.run.progress
  | .train => d.run.status ≠ .terminal ∧ d.run.status ≠ .paused ∧ 42 < d.run.progress
  | .positiveClass _ => 35 < d.run.progress
  | .engineError _ | .trained _ => false

/-- A step with which the handler sets its run back. -/
def System.setsBack (s : System) : Action → Bool
  | .enter _ =>
    match s.tasks.worker with
    | .handling job (.queueing entry) => (s.world.runs.get job.runId).any (entry.setsBack ·)
    | _ => false
  | _ => false

theorem climbsFrom_enters {entry : Entry} {r : Except Fault Turn} {l : List Write} (h : d.OnPace)
    (hback : entry.setsBack d = false) (hl : Enters runId d.standing entry r l) : ClimbsFrom d.run.pace l := by
  have hasks : ∀ {q : Phase × ℕ} (p : DecisionPacket), q.2 ∈ q.1.levels → q.2 ≤ 35 → ClimbsFrom q (asks runId p) :=
    fun p hq hle => climbsFrom_on rfl rfl (by decide) hq hle ⟨.refl _, trivial⟩
  have hprofile : ∀ {columns : List String} {l : List Write}, d.run.status ≠ .terminal →
      Entry.setsBack d (.profiled columns) = false → ClimbsFrom (.profile, 15) l →
        ClimbsFrom d.run.pace (.on runId (.run profiling false) false :: l) := by
    intro columns l hlive hback hrest
    have hle : d.run.progress ≤ 15 := by simpa [Entry.setsBack, hlive] using hback
    exact climbsFrom_on rfl rfl (by decide) h.level hle hrest
  cases hl with
  | ended | paused | failsClosed => trivial
  | profileFails columns e hlive => exact hprofile hlive hback trivial
  | profileQueues columns result hlive =>
    exact hprofile hlive hback (climbsFrom_on rfl rfl (by decide) (by decide) (by decide) trivial)
  | profileAsks columns r p hlive => exact hprofile hlive hback (hasks p (by decide) (by decide))
  | resolves r hlive =>
    have hlive : d.run.status ≠ .terminal := hlive
    have hle : d.run.progress ≤ 40 := by simpa [Entry.setsBack, hlive] using hback
    exact climbsFrom_on rfl rfl (by decide) h.level hle trivial
  | trains hlive hpaused =>
    have hlive : d.run.status ≠ .terminal := hlive
    have hpaused : d.run.status ≠ .paused := hpaused
    have hle : d.run.progress ≤ 42 := by simpa [Entry.setsBack, hlive, hpaused] using hback
    exact climbsFrom_on rfl rfl (by decide) h.level hle trivial
  | asksClass classes r p =>
    have hle : d.run.progress ≤ 35 := by simpa [Entry.setsBack] using hback
    exact hasks p h.level hle
  | fails => exact ⟨.refl _, trivial⟩

/-! ### Sections -/

/-- A program that says nothing. -/
theorem climbs_of_quiet {m : Prog α} (hm : Minds ⟨runId, false, true⟩ m) (hd : u.runs.get runId = some d) :
    Writes World.Climbs m u := by
  refine climbs_of_says (hm.mono ⟨rfl, nofun, id⟩) hd ?_
  unfold Says
  rw [filter_of_quiet hm rfl]
  trivial

theorem climbs_onJobs (r : Readings) (op : Jobs.Op ℕ) : Writes World.Climbs (onJobs r op) u := by
  refine writes_read_bind ?_
  cases (op.apply u.jobs r).2 with
  | ok reply => exact writes_bind (writes_write (reaches_of_eq rfl)) fun _ _ => writes_pure _
  | error fault => exact writes_raise _

theorem drawn_onJobs (h : u.Drawn) (r : Readings) (op : Jobs.Op ℕ) : ((onJobs r op).final u).Drawn := by
  have hjob : Always Write.apart (onJobs r op) := always_onJobs rfl
  exact (told_of_apart hjob u).drawn.final (fun _ _ hw hx => drawn_apply hw hx) h

theorem climbs_handle {job : Job ℕ} {p : Prog Turn} (h : Writes World.Climbs p u) : Writes World.Climbs (t.handle job p) u :=
  writes_bind (m := p.attempt) h fun _ _ => writes_pure _

theorem climbs_publication {thread : Thread} {call : StageCall} {p : Prog (Option PendingSplit)}
    (h : Writes World.Climbs p u) : Writes World.Climbs (t.publication thread call p) u := by
  refine writes_bind (m := p.attempt) h fun result _ => ?_
  cases result with
  | ok pending => cases pending <;> exact writes_pure _
  | error f => exact writes_pure _

/-- The publication of a result. -/
theorem climbs_trained (hdrawn : u.Drawn) (hon : u.OnPace) (r : Readings) (job : Job ℕ) (result : TrainingResult) :
    Writes World.Climbs (trained w r job result) u := by
  refine writes_bind (climbs_onJobs r _) fun _ _ => writes_read_bind ?_
  let u' := (onJobs r (.renew job.claim w.leaseSeconds)).final u
  have hruns : u'.runs = u.runs := runs_onJobs r _ u
  show Writes World.Climbs _ u'
  cases hd : u'.runs.get job.runId with
  | none => exact writes_pure _
  | some d =>
    have hd₀ : u.runs.get job.runId = some d := hruns ▸ hd
    dsimp only
    split
    · exact writes_pure _
    · rename_i hlive
      split
      · exact climbs_of_quiet (minds_checkpoint _ _ _) hd
      · have hstands := stands_of_drawn hd (drawn_onJobs hdrawn r _)
        have hsays : Says Write.loud (publishResult r job.runId d.run result) u' (Publishes job.runId d.standing) :=
          says_publishResult hstands d.run
        have hminds : Minds (.of job.runId) (publishResult r job.runId d.run result >>= published) :=
          minds_bind (minds_publishResult rfl d.run) fun _ => minds_published _
        refine climbs_of_says hminds hd ((says_published hsays).mono ?_)
        rintro turn l ⟨result', -, hl⟩
        exact climbsFrom_publishes (hon _ d hd₀) (fun hsealed => hlive hsealed.1) hl

theorem climbs_enter (hdrawn : u.Drawn) (hon : u.OnPace) (r : Readings) {job : Job ℕ} {entry : Entry}
    (hd : u.runs.get job.runId = some d) (hback : entry.setsBack d = false) : Writes World.Climbs (enter w r job entry) u := by
  have hstands := stands_of_drawn hd hdrawn
  have hminds : Minds (.of job.runId) (enter w r job entry) := minds_enter rfl rfl entry
  have hclimbs : ∀ turn l, Enters job.runId d.standing entry turn l → ClimbsFrom d.run.pace l := fun _ _ hl =>
    climbsFrom_enters (hon _ d hd) hback hl
  cases entry with
  | profiled columns => exact climbs_of_says hminds hd ((says_profiled hstands columns).mono hclimbs)
  | resolve => exact climbs_of_says hminds hd ((says_resolveTask hstands).mono hclimbs)
  | train => exact climbs_of_says hminds hd ((says_startTraining hstands).mono hclimbs)
  | positiveClass classes => exact climbs_of_says hminds hd ((says_positiveClassRequired hstands classes).mono hclimbs)
  | engineError code => exact climbs_of_says hminds hd ((says_engineFailed hstands code).mono hclimbs)
  | trained result => exact climbs_trained hdrawn hon r job result

theorem climbs_publishStage (hdrawn : u.Drawn) (hon : u.OnPace) (hd : u.runs.get runId = some d) (call : StageCall) :
    Writes World.Climbs (publishStage runId call) u := by
  have hlevel : call.progress ∈ call.next.levels := by
    cases call <;> simp [StageCall.progress, StageCall.next, Phase.levels]
  have hminds : Minds (.of runId) (publishStage runId call) := minds_publishStage rfl call
  refine climbs_of_says hminds hd ((says_publishStage (stands_of_drawn hd hdrawn) call).mono fun turn l hl => ?_)
  exact climbsFrom_orNone (hon _ d hd) hlevel hl.2

theorem climbs_resumeStage (hdrawn : u.Drawn) (hon : u.OnPace) (hd : u.runs.get runId = some d) (pending : PendingSplit)
    (stored : Bool) : Writes World.Climbs (resumeStage runId pending stored) u := by
  have hminds : Minds (.of runId) (resumeStage runId pending stored) := minds_resumeStage rfl pending stored fun _ => rfl
  refine climbs_of_says hminds hd ((says_resumeStage (stands_of_drawn hd hdrawn) pending stored).mono fun turn l hl => ?_)
  exact climbsFrom_orNone (hon _ d hd) (by decide) hl

theorem climbs_resumeResult (hdrawn : u.Drawn) (hon : u.OnPace) (hd : u.runs.get runId = some d) (hs : ¬ d.Sealed)
    (r : Readings) (pending : PendingResult) (stored : Bool) :
    Writes World.Climbs (resumeResult r runId pending stored >>= published) u := by
  have hminds : Minds (.of runId) (resumeResult r runId pending stored >>= published) :=
    minds_bind (minds_resumeResult rfl pending stored fun _ => rfl) fun _ => minds_published _
  have hsays := says_resumeResult (r := r) (stands_of_drawn hd hdrawn) pending stored
  refine climbs_of_says hminds hd ((says_published hsays).mono ?_)
  rintro turn l ⟨result, -, hl⟩
  exact climbsFrom_publishes (hon _ d hd) hs hl

/-- A section takes no run back, unless it is one that sets its run back. -/
theorem climbs_section {a : Action} {p : Prog Tasks} (hp : s.tasks.Runs w a p) (hi : s.Inv) (hon : s.world.OnPace)
    (hback : s.setsBack a = false) : Writes World.Climbs p s.world := by
  have hidle : a.works = false → Writes World.Climbs p s.world := by
    intro hworks
    have hgrants := grants_of_excuses ((Leeway.Excuses.all s a).at a)
    have hproceeds : Proceeds (Leeway.all.at a) s.tasks p s.world :=
      section_proceeds hp hi.sound hi.drawn hi.tasks (fun _ _ _ => .inl trivial) hgrants
    have hnone : ¬ (Leeway.all.at a).works := by
      intro h
      rw [show a.works = true from h] at hworks
      cases hworks
    have hboth := hproceeds.1.and (section_told hp s.world).paced
    refine (hboth.within (fun u x hu hx => onPace_record hu hx) ⟨hi.sound, hon⟩).mono fun u x hx => ?_
    exact climbs_of_idle hx.1.2 hx.2.1 hx.2.2 hnone
  have hthere : ∀ {job : Job ℕ} {place : Place}, s.tasks.worker = .handling job place →
      ∃ d, s.world.runs.get job.runId = some d ∧ place.Holds job d := by
    intro job place hworker
    have hfits := hi.tasks.worker
    rw [hworker] at hfits
    exact hfits.2
  cases hp with
  | start job hworker =>
    obtain ⟨d, hd, -⟩ := hthere hworker
    exact climbs_handle (climbs_of_quiet (minds_startHandler job) hd)
  | enter r job entry hworker =>
    obtain ⟨d, hd, -⟩ := hthere hworker
    have hback : entry.setsBack d = false := by simpa [System.setsBack, hworker, hd] using hback
    exact climbs_handle (climbs_enter hi.drawn hon r hd hback)
  | resultStored r stored job pending hworker =>
    obtain ⟨d, hd, hholds⟩ := hthere hworker
    have hbusy : Busy d := hholds.busy.resolve_left (by simp)
    exact climbs_handle (climbs_resumeResult hi.drawn hon hd hbusy.unsealed r pending stored)
  | publish job stage call hthread =>
    obtain ⟨-, -, d, hd, -⟩ := hi.tasks.thread _ hthread
    exact climbs_publication (climbs_publishStage hi.drawn hon hd call)
  | splitStored stored job stage call pending hthread =>
    obtain ⟨-, -, d, hd, -⟩ := hi.tasks.thread _ hthread
    exact climbs_publication (writes_bind (climbs_resumeStage hi.drawn hon hd pending stored) fun _ _ => writes_pure _)
  | _ => exact hidle rfl

/-! ### Histories -/

namespace System

/-- The values that the phase and the progress of a run take through a history. -/
def paces (w : Worker.LocalExecutionWorker) (runId : ℕ) (s : System) (es : List Event) : List (Phase × ℕ) :=
  (worlds w s es).filterMap fun u => (u.runs.get runId).map fun d => d.run.pace

/-- A step that does not set its run back. -/
def GoesOn (s : System) (e : Event) : Prop := s.setsBack e.action = false

instance (s : System) (e : Event) : Decidable (s.GoesOn e) := inferInstanceAs (Decidable (_ = _))

theorem climbs_records {e : Event} (hi : s.Inv) (hon : s.world.OnPace) (hok : s.GoesOn e) (hstep : step w s e = some s') :
    Along World.Climbs s.world (records w s e) := by
  cases e with
  | act a =>
    obtain ⟨p, hp, -⟩ := Option.map_eq_some_iff.mp hstep
    have hrecords : records w s (.act a) = (p s.world).2 := by simp only [records, hp]
    rw [hrecords]
    exact climbs_section (section_runs hp) hi hon hok
  | crash a written =>
    obtain ⟨p, hp, -⟩ := Option.map_eq_some_iff.mp hstep
    have hrecords : records w s (.crash a written) = (p s.world).2.take written := by simp only [records, hp]
    rw [hrecords]
    exact Along.take (climbs_section (section_runs hp) hi hon hok) written

theorem onPace_step {e : Event} (hi : s.Inv) (hon : s.world.OnPace) (hstep : step w s e = some s') : s'.world.OnPace := by
  have hwrites := System.writes hi hstep
  have hgrants := grants_of_excuses ((Leeway.Excuses.all s e.action).at e.action)
  have hlawful : Along (World.Lawful (Leeway.all.at e.action)) s.world (records w s e) :=
    hwrites.lawful (fun _ _ _ => .inl trivial) hgrants
  rw [hwrites.world]
  exact ((hlawful.and hwrites.paced).keeps (fun u x hu hx => onPace_record hu hx) ⟨hi.sound, hon⟩).2

/-- Through a history without such a step, each state of the world reaches all the later ones. -/
theorem worlds_reach {es : List Event} (h : Runs.Run (step w) GoesOn init es s) :
    (worlds w init es).Pairwise World.Reaches := by
  have hon : init.world.OnPace := fun _ _ hd => by cases hd
  refine (worlds_climb (I := fun s => s.world.OnPace) (each_refl fun _ => .refl _) (each_trans fun _ _ _ => .trans)
    (fun s e s' hi hon _ hstep => onPace_step hi hon hstep) (fun s e s' hi hon hok hstep => ?_) h inv_init hon).1
  exact climbs_records hi hon hok hstep

end System

/-- Where no step sets its run back, neither the phase nor the progress of a run ever goes down. -/
theorem phases_climb (w : Worker.LocalExecutionWorker) (es : List System.Event) (s : System)
    (h : Runs.Run (System.step w) System.GoesOn System.init es s) (runId : ℕ) :
    (System.paces w runId System.init es).Pairwise fun q q' => q.1.order ≤ q'.1.order ∧ q.2 ≤ q'.2 := by
  rw [System.paces, List.pairwise_filterMap]
  refine (System.worlds_reach h).imp fun hreaches q hq q' hq' => ?_
  obtain ⟨d, hd, rfl⟩ := Option.map_eq_some_iff.mp hq
  obtain ⟨d', hd', rfl⟩ := Option.map_eq_some_iff.mp hq'
  obtain ⟨d'', hd'', hr⟩ := hreaches runId d hd
  cases hd'.symm.trans hd''
  exact hr

namespace System

/-- The process dies when the backend has evaluated its trials; the next one trains again. -/
def retraining : List Event :=
  opening false ++ profiling 2 ++ entering 3 ++ training 4 ++ reporting 5 ++
    [.crash (.threadEnds (.result evaluated)) 0, .act (.boot (second 100))] ++ training 200

end System

/-- A run whose training is taken up again goes from its evaluation back to its plan. -/
theorem phase_set_back : ¬ ∀ (w : Worker.LocalExecutionWorker) (es : List System.Event) (s : System) (runId : ℕ),
    Runs.Run (System.step w) Runs.Free System.init es s →
      (System.paces w runId System.init es).Pairwise fun q q' => q.1.order ≤ q'.1.order ∧ q.2 ≤ q'.2 := by
  intro hall
  have hrun : (exec (System.step standard) Runs.Free System.init System.retraining).isSome := by decide +kernel
  obtain ⟨s, hs⟩ := Option.isSome_iff_exists.mp hrun
  have hpairs := hall standard System.retraining s 4 (run_of_exec hs)
  have hback : ¬ (System.paces standard 4 System.init System.retraining).Pairwise
      fun q q' => q.1.order ≤ q'.1.order ∧ q.2 ≤ q'.2 := by decide +kernel
  exact hback hpairs

/-- A run that goes through all its phases. -/
theorem phases_climb_to_package :
    ∃ s, exec (System.step standard) System.GoesOn System.init (System.wholeRun true) = some s ∧
      (System.paces standard 4 System.init (System.wholeRun true)).getLast? = some (.package, 95) ∧
        (System.paces standard 4 System.init (System.wholeRun true)).Pairwise fun q q' => q.1.order ≤ q'.1.order ∧ q.2 ≤ q'.2 := by
  have hrun : (exec (System.step standard) System.GoesOn System.init (System.wholeRun true)).isSome := by decide +kernel
  obtain ⟨s, hs⟩ := Option.isSome_iff_exists.mp hrun
  exact ⟨s, hs, by decide +kernel, phases_climb standard (System.wholeRun true) s (run_of_exec hs) 4⟩

end AutomlApi.Workflow
