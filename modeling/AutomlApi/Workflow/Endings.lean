import AutomlApi.Workflow.Life

/-! The end of a run: its status, its outcome and its result go together, and nothing that
belongs to it stays open. Runs that end with something open, or go on after their end,
come from the steps that slip. -/

namespace AutomlApi.Workflow

open Durable
open Runs (exec run_of_exec)
open Worker.LocalExecutionWorker (standard)

variable {lw : Leeway} {w : Worker.LocalExecutionWorker} {s : System} {es : List System.Event} {runId : ℕ}
  {d : RunData}

/-! ### Outcome and result -/

/-- A run has ended exactly if it has its outcome, and exactly if it has its result, with
the same outcome; nothing of a run that has ended is open, and nothing can be done to it. -/
structure RunData.Whole (d : RunData) : Prop where
  outcome : d.run.status = .terminal ↔ d.run.outcome.isSome
  result : d.result.map Result.outcome = d.run.outcome
  actions : d.run.status = .terminal → d.run.availableActions = []
  blocking : d.run.status = .terminal → d.run.blocking = ⟨[], []⟩
  clear : d.run.status = .terminal → d.Clear

theorem RunData.Whole.opened (h : d.Whole) (hlive : d.run.status ≠ .terminal) : d.run.outcome = none ∧ d.result = none := by
  have hnone : d.run.outcome = none := by
    rw [Ne, h.outcome] at hlive
    simpa using hlive
  exact ⟨hnone, by simpa [hnone] using h.result⟩

/-- A run that goes on. -/
theorem whole_of_live (ht : d.run.status ≠ .terminal) (ho : d.run.outcome = none) (hr : d.result = none) : d.Whole where
  outcome := by simp [ht, ho]
  result := by simp [ho, hr]
  actions h := absurd h ht
  blocking h := absurd h ht
  clear h := absurd h ht

/-- A change of a run that goes on, after which it goes on. -/
theorem RunData.Whole.update (h : d.Whole) (hlive : d.run.status ≠ .terminal) {p : RunPatch} (bump : Bool)
    (hp : ∃ status, p.status = some status ∧ status ≠ .terminal) (ho : p.outcome = none ∨ p.outcome = some none) :
    (d.apply (.run p bump)).Whole := by
  obtain ⟨status, hs, ht⟩ := hp
  obtain ⟨hnone, hresult⟩ := h.opened hlive
  refine whole_of_live ?_ ?_ hresult
  · simpa [RunData.apply, Run.update, hs] using ht
  · rcases ho with ho | ho <;> simp [RunData.apply, Run.update, ho, hnone]

/-- The end of a run of which nothing is open. -/
theorem whole_of_ended {p : RunPatch} {result : Result} (hs : p.status = some .terminal)
    (ho : p.outcome = some (some result.outcome)) (ha : p.availableActions = some []) (hb : p.blocking = some ⟨[], []⟩)
    (hclear : d.Clear) : RunData.Whole { d with run := d.run.update p true, result := some result } where
  outcome := by simp [Run.update, hs, ho]
  result := by simp [Run.update, ho]
  actions _ := by simp [Run.update, ha]
  blocking _ := by simp [Run.update, hb]
  clear _ := hclear

theorem whole_append (h : d.Whole) (payload : Payload) (revision : ℕ) : (d.append payload revision).Whole :=
  ⟨h.outcome, h.result, h.actions, h.blocking, h.clear⟩

theorem whole_apply (h : d.Whole) {c : Change} (hc : Lawful lw d c) (hrevives : ¬ lw.revives) (hleaves : ¬ lw.leaves) :
    (d.apply c).Whole := by
  cases hc with
  | @notes p hp hw =>
    simp only [RunPatch.loud, Bool.or_eq_false_iff, Option.isSome_eq_false_iff, Option.isNone_iff_eq_none] at hp
    obtain ⟨⟨⟨⟨⟨-, hs⟩, ho⟩, ha⟩, hb⟩, -⟩ := hp
    have hstatus : (d.apply (.run p false)).run.status = d.run.status := by simp [RunData.apply, Run.update, hs]
    have houtcome : (d.apply (.run p false)).run.outcome = d.run.outcome := by simp [RunData.apply, Run.update, ho]
    have hactions : (d.apply (.run p false)).run.availableActions = d.run.availableActions := by
      simp [RunData.apply, Run.update, ha]
    have hblocking : (d.apply (.run p false)).run.blocking = d.run.blocking := by simp [RunData.apply, Run.update, hb]
    constructor
    · rw [hstatus, houtcome]
      exact h.outcome
    · rw [houtcome]
      exact h.result
    · rw [hstatus, hactions]
      exact h.actions
    · rw [hstatus, hblocking]
      exact h.blocking
    · rw [hstatus]
      exact h.clear
  | works hw hp hlive =>
    obtain ⟨status, hs, ht, -⟩ := hp.status
    exact h.update (hlive.resolve_left hrevives) _ ⟨status, hs, ht⟩ (.inl hp.outcome)
  | answers hwait => exact h.update (by simp [hwait]) _ ⟨_, rfl, by simp⟩ (.inl rfl)
  | switches hc ht ha hlive => exact h.update hlive _ ⟨_, rfl, ht⟩ (.inr rfl)
  | asks hq hwait =>
    exact ⟨h.outcome, h.result, h.actions, h.blocking, fun ht => by cases hwait.symm.trans ht⟩
  | closes hc hs hlive => exact ⟨h.outcome, h.result, h.actions, h.blocking, fun ht => absurd ht hlive⟩
  | requests ha hlive => exact ⟨h.outcome, h.result, h.actions, h.blocking, fun ht => absurd ht (hlive.resolve_left hrevives)⟩
  | decides hs hwait =>
    exact ⟨h.outcome, h.result, h.actions, h.blocking, fun ht => by cases hwait.symm.trans ht⟩
  | @awaits approvalId modelId ha hlive =>
    have hresult := (h.opened (hlive.resolve_left hrevives)).2
    let d₁ : RunData := { d with run := d.run.update (awaitingApproval approvalId modelId) true }
    have hlive₁ : d₁.run.status ≠ .terminal := by simp [d₁, Run.update, awaitingApproval]
    exact whole_append (whole_of_live hlive₁ rfl hresult) _ _
  | @ends result p events hopen hends hcleared =>
    have hclear := hcleared.resolve_left hleaves
    obtain ⟨manifest, outcome, code⟩ := result
    cases hends with
    | succeeds => exact whole_append (whole_append (whole_of_ended rfl rfl rfl rfl hclear) _ _) _ _
    | fails => exact whole_append (whole_of_ended rfl rfl rfl rfl hclear) _ _
    | cancels => exact whole_append (whole_of_ended rfl rfl rfl rfl hclear) _ _
  | _ => exact ⟨h.outcome, h.result, h.actions, h.blocking, h.clear⟩

/-- What a history is allowed in which every run ends as a whole. -/
def Leeway.whole : Leeway := { Leeway.all with leaves := False, revives := False }

/-- A step that leaves nothing open of a run that it ends, and brings neither a question nor
a split to a run that has ended. -/
def System.EndsWhole (s : System) (e : System.Event) : Prop :=
  s.leavesApproval e.action = false ∧ s.leavesQuestion e.action = false ∧ s.revivesEnded e.action = false

instance (s : System) (e : System.Event) : Decidable (s.EndsWhole e) := inferInstanceAs (Decidable (_ ∧ _))

/-- Where no step leaves anything open of a run that it ends, or comes to a run that has
ended, every run is whole. -/
theorem runs_whole (h : Runs.Run (System.step w) System.EndsWhole System.init es s)
    (hd : s.world.runs.get runId = some d) : d.Whole := by
  refine System.runs_invariant .whole (P := RunData.Whole) h (fun s e _ _ hok => ?_) (fun _ _ => .inl trivial)
    (fun _ _ => whole_of_live nofun rfl rfl) (fun _ hwhole hc => whole_apply hwhole hc id id) hd
  exact ⟨.inr ⟨hok.1, hok.2.1⟩, .inl trivial, .inl trivial, .inl trivial, .inl trivial, .inr hok.2.2, .inl trivial,
    .inl trivial⟩

/-- A cancel ends a run that waits for an approval, and leaves the approval open. -/
theorem approval_left_open : ¬ ∀ (w : Worker.LocalExecutionWorker) (es : List System.Event) (s : System) (runId : ℕ) (d : RunData),
    Runs.Run (System.step w) (fun _ e => e.dies = false) System.init es s → s.world.runs.get runId = some d → d.Whole := by
  intro hall
  have hrun : ((exec (System.step standard) (fun _ e => e.dies = false) System.init (System.wholeRun true ++
      [.act (.control (System.second 7) "t" 4 .cancel none)])).bind fun s => (s.world.runs.get 4).map fun d =>
        (d.run.status, d.approvals.map Approval.status)) = some (.terminal, [.opened]) := by decide +kernel
  obtain ⟨s, hs, hd⟩ := Option.bind_eq_some_iff.mp hrun
  obtain ⟨d, hd, hpair⟩ := Option.map_eq_some_iff.mp hd
  obtain ⟨hended, happrovals⟩ := Prod.mk.inj hpair
  obtain ⟨approval, hmem, hopen⟩ := List.mem_map.mp (happrovals ▸ List.mem_singleton_self ApprovalStatus.opened)
  exact ((hall _ _ s 4 d (run_of_exec hs) hd).clear hended).2 approval hmem hopen

/-- A run that waits for its approval and succeeds with it. -/
theorem runs_whole_approved :
    ∃ s d, exec (System.step standard) System.EndsWhole System.init (System.wholeRun true ++
        [.act (.decide (System.second 7).first "t" 4 36 1 .approve (.ok ()))]) = some s ∧
      s.world.runs.get 4 = some d ∧ d.run.status = .terminal ∧ d.Whole := by
  have hrun : ((exec (System.step standard) System.EndsWhole System.init (System.wholeRun true ++
      [.act (.decide (System.second 7).first "t" 4 36 1 .approve (.ok ()))])).bind fun s =>
        (s.world.runs.get 4).map fun d => d.run.status) = some .terminal := by decide +kernel
  obtain ⟨s, hs, hd⟩ := Option.bind_eq_some_iff.mp hrun
  obtain ⟨d, hd, hended⟩ := Option.map_eq_some_iff.mp hd
  exact ⟨s, d, hs, hd, hended, runs_whole (run_of_exec hs) hd⟩

end AutomlApi.Workflow
