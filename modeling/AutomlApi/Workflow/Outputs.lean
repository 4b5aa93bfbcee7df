import AutomlApi.Workflow.Life

/-! What a run has to show at any time, after any steps and any crashes: its stages end in
their order, no output comes twice, and every output has its event. The last two fail
where a profile is taken up again, or where the process dies inside a commit, and hold
in the histories without such a step. -/

namespace AutomlApi.Workflow

open Durable
open Runs (exec run_of_exec)
open Worker.LocalExecutionWorker (standard)

variable {lw : Leeway} {w : Worker.LocalExecutionWorker} {s : System} {es : List System.Event} {runId : ℕ}
  {d : RunData}

/-! ### Stages -/

/-- The stages that a run has told are the first ones, each once, in the order of the
events, and the last one is among them exactly if the run has succeeded. -/
theorem stages_in_order (h : Runs.Run (System.step w) Runs.Free System.init es s)
    (hd : s.world.runs.get runId = some d) : d.events.map Event.seq = List.range' 1 d.events.length ∧
      d.stages <+: [.ingest, .profile, .plan, .train, .evaluate, .package] ∧ d.stages.Nodup ∧
        (.package ∈ d.stages ↔ d.run.status = .terminal ∧ d.run.outcome = some .succeeded) := by
  have hsound := ((System.inv_run h).sound.runs runId d hd).1
  have hnodup : Phase.all.Nodup := by decide
  exact ⟨hsound.numbers, hsound.stages, hnodup.sublist hsound.stages.sublist, hsound.sealed⟩

/-- A run that has succeeded. -/
theorem stages_in_order_succeeded :
    ∃ s d, exec (System.step standard) Runs.Free System.init (System.wholeRun false) = some s ∧
      s.world.runs.get 4 = some d ∧ d.run.status = .terminal ∧ .package ∈ d.stages := by
  have hrun : ((exec (System.step standard) Runs.Free System.init (System.wholeRun false)).bind fun s =>
      (s.world.runs.get 4).map fun d => (d.run.status, d.run.outcome)) = some (.terminal, some .succeeded) := by
    decide +kernel
  obtain ⟨s, hs, hd⟩ := Option.bind_eq_some_iff.mp hrun
  obtain ⟨d, hd, hended⟩ := Option.map_eq_some_iff.mp hd
  obtain ⟨hstatus, houtcome⟩ := Prod.mk.inj hended
  exact ⟨s, d, hs, hd, hstatus, (stages_in_order (run_of_exec hs) hd).2.2.2.mpr ⟨hstatus, houtcome⟩⟩

/-! ### Outputs -/

theorem outputs_apply_eq {c : Change} (h : ∀ o, c ≠ .output o) : (d.apply c).outputs = d.outputs := by
  cases c with
  | output o => exact absurd rfl (h o)
  | finalized result p events => exact foldl_append_eq RunData.outputs (fun _ _ _ => rfl) _ events _
  | _ => rfl

/-- No two outputs of which a run is to have only one. -/
def RunData.Once (d : RunData) : Prop := d.outputs.Pairwise fun o x => ¬ o.SameSlot x

theorem once_apply (h : d.Once) {c : Change} (hc : Lawful lw d c) (htwice : ¬ lw.twice) : (d.apply c).Once := by
  by_cases hout : ∃ o, c = .output o
  · obtain ⟨o, rfl⟩ := hout
    cases hc with
    | commits hlive hslot =>
      have hfree := hslot.resolve_left fun h => htwice h.1
      show (d.outputs ++ [o]).Pairwise _
      rw [List.pairwise_append]
      refine ⟨h, List.pairwise_singleton _ _, fun x hx y hy => ?_⟩
      rw [List.mem_singleton.mp hy]
      exact hfree x hx
  · unfold RunData.Once
    rw [outputs_apply_eq fun o ho => hout ⟨o, ho⟩]
    exact h

theorem countP_le_one {α : Type} {l : List α} {p : α → Bool} {r : α → α → Prop} (h : l.Pairwise fun a b => ¬ r a b)
    (hr : ∀ a b, p a → p b → r a b) : l.countP p ≤ 1 := by
  induction l with
  | nil => exact Nat.zero_le 1
  | cons a l ih =>
    obtain ⟨ha, hl⟩ := List.pairwise_cons.mp h
    rw [List.countP_cons]
    split
    · rename_i hpa
      have hzero : l.countP p = 0 := List.countP_eq_zero.mpr fun b hb hpb => ha b hb (hr a b hpa hpb)
      omega
    · exact ih hl

/-- One output of each type that is no trial, and one of each trial. -/
structure RunData.Exclusive (d : RunData) : Prop where
  outputs : ∀ type ≠ .trialResult, d.outputs.countP (·.type = type) ≤ 1
  trials : ∀ trialNumber, d.outputs.countP (fun o => o.type = .trialResult ∧ o.trialNumber = trialNumber) ≤ 1

theorem RunData.Once.exclusive (h : d.Once) : d.Exclusive := by
  refine ⟨fun type htype => countP_le_one h fun o x ho hx => ?_, fun n => countP_le_one h fun o x ho hx => ?_⟩
  · have ho : o.type = type := of_decide_eq_true ho
    have hx : x.type = type := of_decide_eq_true hx
    exact ⟨ho.trans hx.symm, fun htrial => absurd (ho.symm.trans htrial) htype⟩
  · have ho := of_decide_eq_true ho
    have hx := of_decide_eq_true hx
    exact ⟨ho.1.trans hx.1.symm, fun _ => ho.2.trans hx.2.symm⟩

/-- What a history is allowed in which no run is profiled twice. -/
def Leeway.once : Leeway := { Leeway.all with twice := False }

/-- In a history in which no profile is taken up for a run that has its report, no output
of any run comes twice. -/
theorem outputs_once (h : Runs.Run (System.step w) (fun s e => s.reprofiles e.action = false) System.init es s)
    (hd : s.world.runs.get runId = some d) : d.Exclusive := by
  have honce : d.Once := by
    refine System.runs_invariant .once (P := RunData.Once) h (fun s e _ _ hok => ?_) (fun _ _ => .inl trivial)
      (fun _ _ => List.Pairwise.nil) (fun _ honce hc => once_apply honce hc id) hd
    exact ⟨.inl trivial, .inl trivial, .inl trivial, .inr hok, .inl trivial, .inl ⟨trivial, trivial⟩, .inl trivial, .inl trivial⟩
  exact honce.exclusive

/-- The process dies after it has published the profile of a run, and before it commits
that its step is done: the step is taken again, and publishes the profile again. -/
theorem report_comes_twice : ¬ ∀ (w : Worker.LocalExecutionWorker) (es : List System.Event) (s : System) (runId : ℕ) (d : RunData),
    Runs.Run (System.step w) Runs.Free System.init es s → s.world.runs.get runId = some d → d.Exclusive := by
  intro hall
  have hrun : ((exec (System.step standard) Runs.Free System.init (System.opening false ++ System.profiling 2 ++
      [.crash (.enter (System.second 3)) 16, .act (.boot (System.second 40))] ++ System.profiling 40 ++
      System.entering 41)).bind fun s => (s.world.runs.get 4).map fun d =>
        d.outputs.countP (·.type = .dataQualityReport)) = some 2 := by decide +kernel
  obtain ⟨s, hs, hd⟩ := Option.bind_eq_some_iff.mp hrun
  obtain ⟨d, hd, htwo⟩ := Option.map_eq_some_iff.mp hd
  have hone := (hall _ _ s 4 d (run_of_exec hs) hd).outputs .dataQualityReport (by decide)
  omega

/-- A run whose profile is published once, and which then succeeds. -/
theorem outputs_once_succeeded :
    ∃ s d, exec (System.step standard) (fun s e => s.reprofiles e.action = false) System.init (System.wholeRun false) = some s ∧
      s.world.runs.get 4 = some d ∧ d.outputs.length = 9 ∧ d.Exclusive := by
  have hrun : ((exec (System.step standard) (fun s e => s.reprofiles e.action = false) System.init
      (System.wholeRun false)).bind fun s => (s.world.runs.get 4).map fun d => d.outputs.length) = some 9 := by
    decide +kernel
  obtain ⟨s, hs, hd⟩ := Option.bind_eq_some_iff.mp hrun
  obtain ⟨d, hd, hnine⟩ := Option.map_eq_some_iff.mp hd
  exact ⟨s, d, hs, hd, hnine, outputs_once (run_of_exec hs) hd⟩

/-! ### Outputs and their events -/

/-- An output has been committed whose event is to come. -/
def RunData.Behind (d : RunData) (id : ℕ) : Prop := d.committed = d.announced ++ [(id, d.events.length + 1)]

theorem not_paired_of_behind {id : ℕ} (h : d.Behind id) : ¬ d.Paired := fun hp => by
  have hlength := congrArg List.length (hp.symm.trans h)
  rw [List.length_append, List.length_singleton] at hlength
  omega

/-- A change is the commit of an output, its announcement, or neither. -/
inductive Pairs (d : RunData) (c : Change) : Prop
  | commits (o : Output) (hc : c = .output o) (h : (d.apply c).Behind o.outputId)
  | announces (id revision : ℕ) (hc : c = .event (.outputCommitted id) revision) (h : (d.apply c).Paired)
  | keeps (hc : ∀ id revision, c ≠ .event (.outputCommitted id) revision) (hp : d.Paired → (d.apply c).Paired)
      (hb : ∀ id, d.Behind id → (d.apply c).Behind id)

/-- An event that names no output. -/
theorem pairs_append (hp : d.Paired) {payload : Payload} (hpayload : payload.output = none) (revision : ℕ) :
    (d.append payload revision).Paired := by
  unfold RunData.Paired
  rw [announced_append, hpayload, committed_append, Option.map_none, Option.toList_none, List.append_nil]
  exact hp

theorem pairs_apply {c : Change} (hc : Lawful lw d c) (htorn : ¬ lw.torn) : Pairs d c := by
  have hevent : ∀ {payload : Payload} {revision : ℕ}, payload.output = none → d.Paired → Pairs d (.event payload revision) :=
    fun {payload revision} ho hp => .keeps (fun id n h => by cases h; cases ho) (fun _ => pairs_append hp ho revision)
      fun id hb => absurd hp (not_paired_of_behind hb)
  cases hc with
  | emits hs ho hrev hpaired => exact hevent ho (hpaired.resolve_left htorn)
  | completes hphase hpackage hrev hpaired => exact hevent rfl (hpaired.resolve_left htorn)
  | @announces id revision hrev hlast =>
    refine .announces id revision rfl ?_
    unfold RunData.Paired
    exact (hlast.resolve_left htorn).trans (announced_append d (.outputCommitted id) revision).symm
  | @commits o hlive hslot hnew hpaired =>
    obtain ⟨hp, hseq⟩ := hpaired.resolve_left htorn
    refine .commits o rfl ?_
    have hcommitted : (d.apply (.output o)).committed = d.committed ++ [(o.outputId, o.createdSeq)] := by
      simp [RunData.committed, RunData.apply]
    unfold RunData.Behind
    rw [hcommitted, hseq, show d.committed = d.announced from hp]
    rfl
  | awaits ha hlive hunpaused hsealed hquiet hevaluated hpaired =>
    have hp := hpaired.resolve_left htorn
    exact .keeps (fun _ _ h => by cases h) (fun _ => pairs_append (d := { d with run := _ }) hp rfl _)
      fun id hb => absurd hp (not_paired_of_behind hb)
  | @ends result p events hopen hends hleaves hsettled hpaired =>
    have hp := hpaired.resolve_left htorn
    refine .keeps (fun _ _ h => by cases h) (fun _ => ?_) fun id hb => absurd hp (not_paired_of_behind hb)
    obtain ⟨manifest, outcome, code⟩ := result
    cases hends with
    | succeeds ha hstages => exact pairs_append (pairs_append (d := { d with run := _, result := _ }) hp rfl _) rfl _
    | fails code => exact pairs_append (d := { d with run := _, result := _ }) hp rfl _
    | cancels => exact pairs_append (d := { d with run := _, result := _ }) hp rfl _
  | _ => exact .keeps (fun _ _ h => by cases h) id fun _ => id

theorem on_of_tells {x : Write} {id : ℕ} (h : x.tells = some (runId, id)) :
    ∃ revision drawsId, x = .on runId (.event (.outputCommitted id) revision) drawsId := by
  unfold Write.tells at h
  split at h
  · cases h
    exact ⟨_, _, rfl⟩
  · cases h

/-- Records that announce every output after its commit leave every run paired. -/
theorem paired_replay {u : World} {l : List Write} (hl : Along (World.Lawful lw) u l) (hcovered : Covered l)
    (htorn : ¬ lw.torn) (h : ∀ runId d, u.runs.get runId = some d →
      d.Paired ∨ ∃ id, d.Behind id ∧ ∃ y ∈ l, y.tells = some (runId, id))
    (hd : (replay u l).runs.get runId = some d) : d.Paired := by
  induction l generalizing u with
  | nil =>
    rcases h runId d hd with hp | ⟨id, -, y, hy, -⟩
    · exact hp
    · exact absurd hy List.not_mem_nil
  | cons x l ih =>
    refine ih hl.2 hcovered.2 (fun runId d hd => ?_) hd
    rcases run_before hl.1 hd with ⟨hsame, hne⟩ | ⟨request, tenantId, -, -, rfl⟩ | ⟨c, drawsId, d₀, rfl, hd₀, hlawful, rfl⟩
    · rcases h runId d hsame with hp | ⟨id, hb, y, hy, ht⟩
      · exact .inl hp
      · refine .inr ⟨id, hb, y, (List.mem_cons.mp hy).resolve_left ?_, ht⟩
        rintro rfl
        obtain ⟨revision, drawsId, rfl⟩ := on_of_tells ht
        exact hne _ _ rfl
    · exact .inl rfl
    · cases pairs_apply hlawful htorn with
      | commits o hc hb =>
        subst hc
        exact .inr ⟨o.outputId, hb, hcovered.1 (runId, o.outputId) rfl⟩
      | announces id revision hc hp => exact .inl hp
      | keeps hc hp hb =>
        rcases h runId d₀ hd₀ with hpaired | ⟨id, hbehind, y, hy, ht⟩
        · exact .inl (hp hpaired)
        · refine .inr ⟨id, hb id hbehind, y, (List.mem_cons.mp hy).resolve_left ?_, ht⟩
          rintro rfl
          obtain ⟨revision, drawsId, heq⟩ := on_of_tells ht
          cases heq
          exact hc id revision rfl

/-- The process dies when it has committed an output, and has not announced it. -/
def System.tears (w : Worker.LocalExecutionWorker) (s : System) (e : System.Event) : Bool :=
  e.dies ∧ ¬ Covered (System.records w s e)

/-- What a history is allowed in which every output is announced. -/
def Leeway.paired : Leeway := { Leeway.all with stale := False, torn := False, torn_of_stale := id }

/-- A step that neither dies inside a commit nor goes on with a split after the end of its run. -/
def System.Announces (w : Worker.LocalExecutionWorker) (s : System) (e : System.Event) : Prop :=
  System.tears w s e = false ∧ s.resumesClosed e.action = false

instance (w : Worker.LocalExecutionWorker) (s : System) (e : System.Event) : Decidable (System.Announces w s e) :=
  inferInstanceAs (Decidable (_ ∧ _))

theorem paired_run (h : Runs.Run (System.step w) (System.Announces w) System.init es s)
    (hd : s.world.runs.get runId = some d) : d.Paired := by
  have hruns : ∀ runId d, s.world.runs.get runId = some d → d.Paired := by
    refine h.invariant_of (J := System.Inv) (I := fun s => ∀ runId d, s.world.runs.get runId = some d → d.Paired)
      (fun _ _ _ hi _ hstep => System.inv_step hi hstep) ?_ System.inv_init (fun _ _ h => by cases h)
    intro s e s' hinv hi hok hstep runId d hd
    have hwrites := System.writes hinv hstep
    have hexcuses : Leeway.paired.Excuses s e.action :=
      ⟨.inl trivial, .inl trivial, .inl trivial, .inl trivial, .inr hok.2, .inl ⟨trivial, trivial⟩, .inl trivial, .inl trivial⟩
    have hlawful : Along (World.Lawful (Leeway.paired.at e.action)) s.world (System.records w s e) :=
      hwrites.lawful (fun runId d hd => .inr (hi runId d hd)) (grants_of_excuses (hexcuses.at e.action))
    have hcovered : Covered (System.records w s e) := by
      cases hdies : e.dies with
      | false => exact hwrites.covered hdies
      | true =>
        have htears := hok.1
        simpa [System.tears, hdies] using htears
    rw [hwrites.world] at hd
    exact paired_replay hlawful hcovered id (fun runId d hd => .inl (hi runId d hd)) hd
  exact hruns runId d hd

/-- Every output has one event that names it, under the number that the output predicts;
every event that names an output names one that is there; no two outputs have one number. -/
structure RunData.Agrees (d : RunData) : Prop where
  named : ∀ o ∈ d.outputs, ∃ e, d.events.filter (·.payload = .outputCommitted o.outputId) = [e] ∧ e.seq = o.createdSeq
  stored : ∀ e ∈ d.events, ∀ id, e.payload = .outputCommitted id → ∃ o ∈ d.outputs, o.outputId = id
  apart : (d.outputs.map Output.createdSeq).Nodup

theorem mem_announced {id seq : ℕ} :
    (id, seq) ∈ d.announced ↔ ∃ e ∈ d.events, e.payload = .outputCommitted id ∧ e.seq = seq := by
  unfold RunData.announced
  rw [List.mem_filterMap]
  refine exists_congr fun e => and_congr_right fun _ => ?_
  obtain ⟨n, revision, payload⟩ := e
  cases payload <;> simp [Event.announces, Payload.output]

theorem seqs_of_announced (events : List Event) :
    ((events.filterMap Event.announces).map Prod.snd).Sublist (events.map Event.seq) := by
  induction events with
  | nil => exact .refl _
  | cons e events ih =>
    rw [List.filterMap_cons, List.map_cons]
    cases h : e.announces with
    | none => exact ih.cons _
    | some p =>
      obtain ⟨id, -, rfl⟩ := Option.map_eq_some_iff.mp h
      exact ih.cons_cons _

theorem eq_singleton {α : Type} {l : List α} (hl : l.Nodup) {a : α} (ha : a ∈ l) (h : ∀ b ∈ l, b = a) : l = [a] := by
  obtain ⟨n, rfl⟩ : ∃ n, l = List.replicate n a := ⟨_, List.eq_replicate_of_mem h⟩
  have hn : n ≤ 1 := List.nodup_replicate.mp hl
  have hpos : n ≠ 0 := (List.mem_replicate.mp ha).1
  obtain rfl : n = 1 := by omega
  rfl

theorem agrees_of_paired (hs : Sound d) (hp : d.Paired) (hids : (d.outputs.map Output.outputId).Nodup) : d.Agrees := by
  have hseqs : (d.events.map Event.seq).Nodup := by
    rw [hs.numbers]
    exact List.nodup_range'
  have hmem : ∀ {id seq : ℕ}, (∃ o ∈ d.outputs, o.outputId = id ∧ o.createdSeq = seq) ↔
      ∃ e ∈ d.events, e.payload = .outputCommitted id ∧ e.seq = seq := by
    intro id seq
    rw [← mem_announced, ← show d.committed = d.announced from hp, RunData.committed, List.mem_map]
    simp only [Prod.mk.injEq]
  refine ⟨fun o ho => ?_, fun e he id hid => ?_, ?_⟩
  · obtain ⟨e, he, hpayload, hseq⟩ := hmem.mp ⟨o, ho, rfl, rfl⟩
    refine ⟨e, eq_singleton ((List.Nodup.of_map _ hseqs).filter _) (List.mem_filter.mpr ⟨he, decide_eq_true hpayload⟩) ?_, hseq⟩
    intro e' he'
    obtain ⟨he', hpayload'⟩ := List.mem_filter.mp he'
    obtain ⟨o', ho', hid, hseq'⟩ := hmem.mpr ⟨e', he', of_decide_eq_true hpayload', rfl⟩
    have ho : o' = o := List.inj_on_of_nodup_map hids ho' ho hid
    exact List.inj_on_of_nodup_map hseqs he' he (by rw [← hseq', ho, hseq])
  · obtain ⟨o, ho, hid, -⟩ := hmem.mpr ⟨e, he, hid, rfl⟩
    exact ⟨o, ho, hid⟩
  · have hsub := (seqs_of_announced d.events).nodup hseqs
    rw [show d.events.filterMap Event.announces = d.committed from hp.symm, RunData.committed, List.map_map] at hsub
    exact hsub

theorem ids_run {ok : System → System.Event → Prop} (h : Runs.Run (System.step w) ok System.init es s)
    (hd : s.world.runs.get runId = some d) : (d.outputs.map Output.outputId).Nodup := by
  refine System.runs_invariant .all (P := fun d => (d.outputs.map Output.outputId).Nodup) h
    (fun _ _ _ _ _ => .all _ _) (fun _ _ => .inl trivial) (fun _ _ => List.nodup_nil) (fun {a d c} _ hids hc => ?_) hd
  by_cases hout : ∃ o, c = .output o
  · obtain ⟨o, rfl⟩ := hout
    cases hc with
    | commits hlive hslot hnew =>
      show ((d.outputs ++ [o]).map Output.outputId).Nodup
      rw [List.map_append, List.map_cons, List.map_nil, List.nodup_append]
      refine ⟨hids, List.nodup_singleton _, fun id hid id' hid' => ?_⟩
      obtain ⟨x, hx, rfl⟩ := List.mem_map.mp hid
      rw [List.mem_singleton.mp hid']
      exact hnew x hx
  · rw [outputs_apply_eq fun o ho => hout ⟨o, ho⟩]
    exact hids

/-- Where no step dies inside a commit, and no split goes on after the end of its run,
outputs and events agree. -/
theorem outputs_announced (h : Runs.Run (System.step w) (System.Announces w) System.init es s)
    (hd : s.world.runs.get runId = some d) : d.Agrees :=
  agrees_of_paired ((System.inv_run h).sound.runs runId d hd).1 (paired_run h hd) (ids_run h hd)

/-- The process dies when it has committed the report on the data, and has not announced it. -/
theorem report_not_announced : ¬ ∀ (w : Worker.LocalExecutionWorker) (es : List System.Event) (s : System) (runId : ℕ) (d : RunData),
    Runs.Run (System.step w) Runs.Free System.init es s → s.world.runs.get runId = some d → d.Agrees := by
  intro hall
  have hrun : ((exec (System.step standard) Runs.Free System.init (System.opening false ++ System.profiling 2 ++
      [.crash (.enter (System.second 3)) 9])).bind fun s => (s.world.runs.get 4).map fun d =>
        (d.outputs.map Output.outputId, d.announced)) = some ([7], []) := by decide +kernel
  obtain ⟨s, hs, hd⟩ := Option.bind_eq_some_iff.mp hrun
  obtain ⟨d, hd, hpair⟩ := Option.map_eq_some_iff.mp hd
  obtain ⟨hout, hannounced⟩ := Prod.mk.inj hpair
  obtain ⟨o, ho, -⟩ := List.mem_map.mp (hout ▸ List.mem_singleton_self 7)
  obtain ⟨e, he, hseq⟩ := (hall _ _ s 4 d (run_of_exec hs) hd).named o ho
  obtain ⟨hmem, hpayload⟩ := List.mem_filter.mp (he ▸ List.mem_singleton_self e)
  have hnone := mem_announced.mpr ⟨e, hmem, of_decide_eq_true hpayload, hseq⟩
  rw [hannounced] at hnone
  exact absurd hnone List.not_mem_nil

/-- A run that has succeeded. -/
theorem outputs_announced_succeeded :
    ∃ s d, exec (System.step standard) (System.Announces standard) System.init (System.wholeRun false) = some s ∧
      s.world.runs.get 4 = some d ∧ d.outputs.length = 9 ∧ d.Agrees := by
  have hrun : ((exec (System.step standard) (System.Announces standard) System.init (System.wholeRun false)).bind fun s =>
      (s.world.runs.get 4).map fun d => d.outputs.length) = some 9 := by decide +kernel
  obtain ⟨s, hs, hd⟩ := Option.bind_eq_some_iff.mp hrun
  obtain ⟨d, hd, hnine⟩ := Option.map_eq_some_iff.mp hd
  exact ⟨s, d, hs, hd, hnine, outputs_announced (run_of_exec hs) hd⟩

end AutomlApi.Workflow
