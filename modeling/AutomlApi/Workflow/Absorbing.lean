import AutomlApi.Workflow.Life

/-! The end of a run is final: its status, its outcome and its result stay, it asks no
more questions and commits no more outputs. Questions, splits and failures of the backend
that come to a run after its end make the exceptions. -/

namespace AutomlApi.Workflow

open Runs (exec run_of_exec)
open Worker.LocalExecutionWorker (standard)

variable {lw : Leeway} {d d' d'' : RunData} {c : Change}

/-! ### What is final -/

/-- A run that has ended has its result. -/
def RunData.Resulted (d : RunData) : Prop := d.run.status = .terminal → d.result.isSome

theorem resulted_apply (h : d.Resulted) (hc : Lawful lw d c) : (d.apply c).Resulted := by
  intro hended
  cases hc with
  | @notes p hp =>
    simp only [RunPatch.loud, Bool.or_eq_false_iff, Option.isSome_eq_false_iff, Option.isNone_iff_eq_none] at hp
    obtain ⟨⟨⟨⟨⟨-, hs⟩, -⟩, -⟩, -⟩, -⟩ := hp
    exact h (by simpa [RunData.apply, Run.update, hs] using hended)
  | works hw hp =>
    obtain ⟨status, hs, ht, -⟩ := hp.status
    exact absurd (by simpa [RunData.apply, Run.update, hs] using hended) ht
  | answers => cases hended
  | @switches run status actions hc ht =>
    exact absurd (by simpa [RunData.apply, Run.update, switched] using hended) ht
  | awaits => cases hended
  | @ends result p events =>
    have hresult := foldl_append_eq RunData.result (fun _ _ _ => rfl)
      { d with run := d.run.update p true, result := some result } events (d.run.update p true).runRevision
    rw [RunData.apply, hresult]
    rfl
  | _ => exact h hended

/-- What has ended stays as it has ended. -/
structure RunData.Rests (d d' : RunData) : Prop where
  status : d'.run.status = d.run.status
  outcome : d'.run.outcome = d.run.outcome
  result : d'.result = d.result
  packets : d'.packets = d.packets
  outputs : d'.outputs = d.outputs

theorem RunData.Rests.refl (d : RunData) : d.Rests d := ⟨rfl, rfl, rfl, rfl, rfl⟩

theorem RunData.Rests.trans (h : d.Rests d') (h' : d'.Rests d'') : d.Rests d'' :=
  ⟨h'.status.trans h.status, h'.outcome.trans h.outcome, h'.result.trans h.result, h'.packets.trans h.packets,
    h'.outputs.trans h.outputs⟩

/-- Once the first has ended, it is final. -/
def RunData.Absorbs (d d' : RunData) : Prop := d.run.status = .terminal → d.Rests d'

theorem RunData.Absorbs.trans (h : d.Absorbs d') (h' : d'.Absorbs d'') : d.Absorbs d'' := fun hended =>
  (h hended).trans (h' ((h hended).status.trans hended))

/-- A change of a run that has ended, if it is neither sent on nor added to. -/
theorem absorbs_apply (hresulted : d.Resulted) (hc : Lawful lw d c) (hrevives : ¬ lw.revives) (happends : ¬ lw.appends) :
    d.Absorbs (d.apply c) := by
  intro hended
  cases hc with
  | @notes p hp =>
    simp only [RunPatch.loud, Bool.or_eq_false_iff, Option.isSome_eq_false_iff, Option.isNone_iff_eq_none] at hp
    obtain ⟨⟨⟨⟨⟨-, hs⟩, ho⟩, -⟩, -⟩, -⟩ := hp
    exact ⟨by simp [RunData.apply, Run.update, hs], by simp [RunData.apply, Run.update, ho], rfl, rfl, rfl⟩
  | works hw hp hlive => exact absurd hended (hlive.resolve_left hrevives)
  | answers hwait => cases hwait.symm.trans hended
  | switches hc ht ha hlive => exact absurd hended hlive
  | commits hlive => exact absurd hended (hlive.resolve_left happends)
  | asks hq hwait => cases hwait.symm.trans hended
  | closes hc hs hlive => exact absurd hended hlive
  | awaits ha hlive => exact absurd hended (hlive.resolve_left hrevives)
  | ends hopen =>
    have hresult := hresulted hended
    rw [hopen] at hresult
    cases hresult
  | _ => exact ⟨rfl, rfl, rfl, rfl, rfl⟩

/-! ### Histories -/

/-- What a history is allowed in which the end of a run is final. -/
def Leeway.absorbing : Leeway := { Leeway.all with revives := False, appends := False }

/-- A step that brings neither a question, nor a split, nor a failure of the backend to a
run that has ended. -/
def System.LetsRest (s : System) (e : System.Event) : Prop :=
  s.revivesEnded e.action = false ∧ s.reportsEnded e.action = false

instance (s : System) (e : System.Event) : Decidable (s.LetsRest e) := inferInstanceAs (Decidable (_ ∧ _))

/-- Where no step comes to a run that has ended with a question, a split or a failure of
the backend, a run that has ended stays as it has ended. -/
theorem terminal_absorbs (w : Worker.LocalExecutionWorker) (es : List System.Event) (s : System)
    (h : Runs.Run (System.step w) System.LetsRest System.init es s) :
    (System.worlds w System.init es).Pairwise fun u v => ∀ runId d, u.runs.get runId = some d →
      d.run.status = .terminal → ∃ d', v.runs.get runId = some d' ∧ d'.run.status = .terminal ∧
        d'.run.outcome = d.run.outcome ∧ d'.result = d.result ∧ d'.packets = d.packets ∧ d'.outputs = d.outputs := by
  have hexcuses : ∀ (s : System) (e : System.Event), s.LetsRest e → Leeway.absorbing.Excuses s e.action := fun _ _ hok =>
    ⟨.inl trivial, .inl trivial, .inl trivial, .inl trivial, .inl trivial, .inr hok.1, .inr hok.2, .inl trivial⟩
  have hbetween := System.runs_between .absorbing (P := RunData.Resulted) (R := RunData.Absorbs) h hexcuses trivial
    (fun _ _ => nofun) (fun _ hresulted hc => resulted_apply hresulted hc) (fun d _ => .refl d) (fun _ _ _ => .trans)
    (fun _ hresulted hc => absorbs_apply hresulted hc id id)
  refine hbetween.imp fun heach runId d hd hended => ?_
  obtain ⟨d', hd', habsorbs⟩ := heach runId d hd
  have hrests := habsorbs hended
  exact ⟨d', hd', hrests.status.trans hended, hrests.outcome, hrests.result, hrests.packets, hrests.outputs⟩

/-- A run that has been canceled comes back: its training asks for the positive class. -/
theorem terminal_revived : ¬ ∀ (w : Worker.LocalExecutionWorker) (es : List System.Event) (s : System),
    Runs.Run (System.step w) (fun _ e => e.dies = false) System.init es s →
      (System.worlds w System.init es).Pairwise fun u v => ∀ runId d, u.runs.get runId = some d →
        d.run.status = .terminal → ∃ d', v.runs.get runId = some d' ∧ d'.run.status = .terminal ∧
          d'.run.outcome = d.run.outcome ∧ d'.result = d.result ∧ d'.packets = d.packets ∧ d'.outputs = d.outputs := by
  intro hall
  let es : List System.Event := System.opening false ++ System.profiling 2 ++ System.entering 3 ++ System.training 4 ++
    [.act (.threadEnds (.positiveClass [.str "no", .str "yes"])), .act (.control (System.second 5) "t" 4 .cancel none),
      .act (.enter (System.second 6))]
  have hrun : (exec (System.step standard) (fun _ e => e.dies = false) System.init es).isSome := by decide +kernel
  obtain ⟨s, hs⟩ := Option.isSome_iff_exists.mp hrun
  have hrevived : ¬ ((System.worlds standard System.init es).map fun u => (u.runs.get 4).map fun d => d.run.status).Pairwise
      fun a b => a = some .terminal → b = some .terminal := by decide +kernel
  refine hrevived (List.pairwise_map.mpr ((hall standard es s (run_of_exec hs)).imp fun hstays hended => ?_))
  obtain ⟨d, hd, hended⟩ := Option.map_eq_some_iff.mp hended
  obtain ⟨d', hd', hended', -⟩ := hstays 4 d hd hended
  rw [hd', Option.map_some, hended']

/-- A run that succeeds, and the refused cancel of it. -/
theorem terminal_absorbs_success :
    ∃ s, exec (System.step standard) System.LetsRest System.init
        (System.wholeRun false ++ [.act (.control (System.second 7) "t" 4 .cancel none)]) = some s ∧
      (s.world.runs.get 4).any (·.run.status = .terminal) ∧
        (System.worlds standard System.init
          (System.wholeRun false ++ [.act (.control (System.second 7) "t" 4 .cancel none)])).Pairwise fun u v =>
            ∀ runId d, u.runs.get runId = some d → d.run.status = .terminal → ∃ d', v.runs.get runId = some d' ∧
              d'.run.status = .terminal ∧ d'.run.outcome = d.run.outcome ∧ d'.result = d.result ∧
                d'.packets = d.packets ∧ d'.outputs = d.outputs := by
  have hrun : (exec (System.step standard) System.LetsRest System.init
      (System.wholeRun false ++ [.act (.control (System.second 7) "t" 4 .cancel none)])).any
        (fun s => (s.world.runs.get 4).any (·.run.status = .terminal)) = true := by decide +kernel
  obtain ⟨s, hs, hended⟩ := Option.any_eq_true _ _ |>.mp hrun
  exact ⟨s, hs, hended, terminal_absorbs standard _ s (run_of_exec hs)⟩

end AutomlApi.Workflow
