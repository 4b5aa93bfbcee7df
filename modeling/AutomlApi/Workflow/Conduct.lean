import AutomlApi.Workflow.Laws

/-! The laws of the durable state, and how the programs that publish keep them: the
records that they write are lawful where they write them. -/

namespace AutomlApi.Workflow

open Durable
open Jobs (Job Readings)

/-- The steps of a job that come after its profile. -/
def Trains (workflowStep : String) : Prop := workflowStep = "RESOLVE_TASK" ∨ workflowStep = "TRAIN"

namespace World

/-- What an operation on the job table may do: the job of a run that is there, at its
profile when it is new, and later at a step that the run has come to, and no NaN for a
duration. -/
def Permits (lw : Leeway) (w : World) : Jobs.Op ℕ → Prop
  | .create known _ workflowStep _ _ _ => (∀ id, known id = (w.runs.get id).isSome) ∧ ¬ Trains workflowStep
  | .checkpoint c workflowStep _ _ =>
    lw.moves ∧ (Trains workflowStep → ∀ d, w.runs.get c.runId = some d → .profile ∈ d.stages)
  | op => op.definite

theorem Permits.mono {lw lw' : Leeway} {w : World} {op : Jobs.Op ℕ} (h : w.Permits lw op) (hmoves : lw.moves → lw'.moves) :
    w.Permits lw' op := by
  cases op with
  | checkpoint => exact h.imp_left hmoves
  | _ => exact h

theorem Permits.definite {lw : Leeway} {w : World} {op : Jobs.Op ℕ} (h : w.Permits lw op) : op.definite := by
  cases op with
  | create | checkpoint => rfl
  | _ => exact h

/-- The records that programs write, each with what they have found. -/
def Lawful (lw : Leeway) (w : World) : Write → Prop
  | .on runId c _ =>
    (lw.works → (w.jobs.lookup runId).isSome) ∧ ∀ d, w.runs.get runId = some d → Workflow.Lawful lw d c
  | .run runId r => w.runs.get runId = none ∧ runId ≤ w.ids ∧
    ∃ request tenantId, lw.creates request tenantId ∧ r = RunRequest.run request tenantId
  | .job _ op => w.Permits lw op
  | _ => True

/-- The invariants that need no condition. -/
structure Sound (w : World) : Prop where
  runs : ∀ runId d, w.runs.get runId = some d → Workflow.Sound d ∧ runId ≤ w.ids
  rows : ∀ runId row, w.jobs.lookup runId = some row →
    row.Shaped ∧ ∃ d, w.runs.get runId = some d ∧ (Trains row.workflowStep → .profile ∈ d.stages)
  fresh : ∀ p ∈ w.runs, w.jobs.lookup p.1 = none → ¬ Trains p.2.run.executionStep

end World

variable {lw : Leeway}

theorem stages_change (d : RunData) (c : Change) : d.stages <+: (d.apply c).stages := by
  have hfold : ∀ (payloads : List Payload) (n : ℕ) (d : RunData),
      d.stages <+: (payloads.foldl (fun d payload => d.append payload n) d).stages := by
    intro payloads n
    induction payloads with
    | nil => intro d; exact List.prefix_rfl
    | cons payload rest ih =>
      intro d
      refine List.IsPrefix.trans ?_ (ih _)
      rw [stages_append]
      exact List.prefix_append _ _
  cases c with
  | event payload revision =>
    show d.stages <+: (d.append payload revision).stages
    rw [stages_append]
    exact List.prefix_append _ _
  | mutated p payload =>
    show d.stages <+: (RunData.append { d with run := d.run.update p true } _ _).stages
    rw [stages_append]
    exact List.prefix_append _ _
  | finalized result p events => exact hfold events _ { d with run := d.run.update p true, result := some result }
  | _ => exact List.prefix_rfl

/-- A lawful record keeps every run, as it was or with a lawful change. -/
theorem run_moves {w : World} {x : Write} (hx : w.Lawful lw x) {runId : ℕ} {d : RunData}
    (hd : w.runs.get runId = some d) : (w.apply x).runs.get runId = some d ∨
      ∃ c, Workflow.Lawful lw d c ∧ (w.apply x).runs.get runId = some (d.apply c) := by
  cases x with
  | run id r =>
    refine .inl ?_
    have hne : runId ≠ id := by
      rintro rfl
      rw [hx.1] at hd
      cases hd
    simp only [World.apply, Dict.get_set, if_neg hne, hd]
  | on id c drawsId =>
    simp only [World.apply, get_modifyKey]
    by_cases hid : runId = id
    · subst hid
      refine .inr ⟨c, hx.2 d hd, ?_⟩
      rw [if_pos rfl, hd]
      rfl
    · rw [if_neg hid]
      exact .inl hd
  | _ => exact .inl hd

/-- A lawful record keeps every run, with the stages that it has told. -/
theorem run_apply {w : World} {x : Write} (hx : w.Lawful lw x) {runId : ℕ} {d : RunData}
    (hd : w.runs.get runId = some d) : ∃ d', (w.apply x).runs.get runId = some d' ∧ d.stages <+: d'.stages := by
  rcases run_moves hx hd with h | ⟨c, -, h⟩
  · exact ⟨d, h, List.prefix_rfl⟩
  · exact ⟨_, h, stages_change d c⟩

/-- No record takes a row away. -/
theorem row_apply {w : World} (x : Write) {runId : ℕ} (h : (w.jobs.lookup runId).isSome) :
    ((w.apply x).jobs.lookup runId).isSome := by
  cases x with
  | job r op => exact Jobs.isSome_apply op h
  | _ => exact h

/-- The step of a run only moves under a worker. -/
theorem fresh_apply {d : RunData} {c : Change} (hc : Lawful lw d c) (hworks : ¬ lw.works)
    (h : ¬ Trains d.run.executionStep) : ¬ Trains (d.apply c).run.executionStep := by
  cases hc with
  | @notes p hp hw =>
    have hstep : (d.run.update p false).executionStep = d.run.executionStep := by
      simp [Run.update, hw.resolve_left hworks]
    show ¬ Trains (d.run.update p false).executionStep
    rwa [hstep]
  | works hw => exact absurd hw hworks
  | @ends result p events hopen hends =>
    obtain ⟨manifest, outcome, code⟩ := result
    cases hends with
    | succeeds => simp [RunData.apply, RunData.append, Run.update, succeeded, Trains]
    | fails => simp [RunData.apply, RunData.append, Run.update, failed, Trains]
    | cancels => exact h
  | awaits => simp [RunData.apply, RunData.append, Run.update, awaitingApproval, Trains]
  | _ => exact h

theorem world_sound_apply {w : World} (h : w.Sound) {x : Write} (hx : w.Lawful lw x) : (w.apply x).Sound := by
  have hids := ids_le_apply w x
  have hrows : ∀ runId row, w.jobs.lookup runId = some row →
      row.Shaped ∧ ∃ d, (w.apply x).runs.get runId = some d ∧ (Trains row.workflowStep → .profile ∈ d.stages) := by
    intro runId row hrow
    obtain ⟨hshaped, d, hd, hsteps⟩ := h.rows runId row hrow
    obtain ⟨d', hd', hstages⟩ := run_apply hx hd
    exact ⟨hshaped, d', hd', fun ht => hstages.subset (hsteps ht)⟩
  cases x with
  | run id r =>
    obtain ⟨hnone, hle, request, tenantId, -, rfl⟩ := hx
    have hget : ∀ runId, (w.apply (.run id (request.run tenantId))).runs.get runId =
        if runId = id then some (.create (request.run tenantId)) else w.runs.get runId := fun runId => Dict.get_set ..
    refine ⟨fun runId d hd => ?_, hrows, fun p hp hrow => ?_⟩
    · rw [hget] at hd
      split at hd
      · rename_i hid
        cases hd
        exact ⟨sound_create request tenantId, hid ▸ hle⟩
      · exact h.runs runId d hd
    · rcases Dict.mem_set hp with rfl | hp
      · simp [RunData.create, RunRequest.run, Trains]
      · exact h.fresh p hp hrow
  | on id c drawsId =>
    have hget : ∀ runId, (w.apply (.on id c drawsId)).runs.get runId =
        if runId = id then (w.runs.get id).map (·.apply c) else w.runs.get runId := fun runId => get_modifyKey ..
    refine ⟨fun runId d hd => ?_, hrows, fun p hp hrow => ?_⟩
    · rw [hget] at hd
      split at hd
      · rename_i hid
        obtain ⟨d', hd', rfl⟩ := Option.map_eq_some_iff.mp hd
        obtain ⟨hsound, hle⟩ := h.runs id d' hd'
        exact ⟨sound_apply hsound (hx.2 d' hd'), (hid ▸ hle).trans hids⟩
      · exact ⟨(h.runs runId d hd).1, (h.runs runId d hd).2.trans hids⟩
    · have hp : p ∈ modifyKey w.runs id fun d => d.apply c := hp
      unfold modifyKey at hp
      cases hd : w.runs.get id with
      | none => rw [hd] at hp; exact h.fresh p hp hrow
      | some d =>
        rw [hd] at hp
        rcases Dict.mem_set hp with rfl | hp
        · have hworks : ¬ lw.works := fun hw => by
            have hsome := hx.1 hw
            rw [show w.jobs.lookup id = none from hrow] at hsome
            cases hsome
          exact fresh_apply (hx.2 d hd) hworks (h.fresh (id, d) (Dict.mem_of_get hd) hrow)
        · exact h.fresh p hp hrow
  | job r op =>
    refine ⟨h.runs, fun runId row hrow => ⟨Jobs.shaped_apply (World.Permits.definite hx) (fun j hj => (h.rows runId j hj).1) hrow, ?_⟩, ?_⟩
    · cases Jobs.steps_apply op hrow with
      | keeps _ hj hstep =>
        obtain ⟨-, d, hd, hsteps⟩ := h.rows runId _ hj
        exact ⟨d, hd, fun ht => hsteps (hstep ▸ ht)⟩
      | moves c workflowStep fields status hc hj hstep =>
        obtain ⟨-, d, hd, -⟩ := h.rows runId _ hj
        exact ⟨d, hd, fun ht => hx.2 (hstep ▸ ht) d (hc ▸ hd)⟩
      | starts known workflowStep fields maxAttempts controlEpoch hk _ hstep =>
        obtain ⟨hknown, hsteps⟩ := hx
        rw [hknown] at hk
        obtain ⟨d, hd⟩ := Option.isSome_iff_exists.mp hk
        exact ⟨d, hd, fun ht => absurd (hstep ▸ ht) hsteps⟩
    · intro p hp hrow
      refine h.fresh p hp ?_
      cases hl : w.jobs.lookup p.1 with
      | none => rfl
      | some row =>
        have := Jobs.isSome_apply (r := r) op (show (w.jobs.lookup p.1).isSome by rw [hl]; rfl)
        rw [show (op.apply w.jobs r).1.lookup p.1 = none from hrow] at this
        cases this
  | _ => exact ⟨fun runId d hd => ⟨(h.runs runId d hd).1, (h.runs runId d hd).2.trans hids⟩, h.rows, h.fresh⟩

/-- Where a run that is there after a lawful record comes from. -/
theorem run_before {w : World} {x : Write} (hx : w.Lawful lw x) {runId : ℕ} {d : RunData}
    (hd : (w.apply x).runs.get runId = some d) :
    (w.runs.get runId = some d ∧ ∀ c drawsId, x ≠ .on runId c drawsId) ∨
      (∃ (request : RunRequest) (tenantId : String), w.runs.get runId = none ∧ lw.creates request tenantId ∧
        d = .create (request.run tenantId)) ∨
        ∃ c drawsId d₀, x = .on runId c drawsId ∧ w.runs.get runId = some d₀ ∧ Workflow.Lawful lw d₀ c ∧
          d = d₀.apply c := by
  cases x with
  | run id r =>
    obtain ⟨hnone, -, request, tenantId, hcreates, rfl⟩ := hx
    simp only [World.apply, Dict.get_set] at hd
    split at hd
    · rename_i hid
      cases hd
      exact .inr (.inl ⟨request, tenantId, hid ▸ hnone, hcreates, rfl⟩)
    · exact .inl ⟨hd, (fun _ _ h => by cases h)⟩
  | on id c drawsId =>
    simp only [World.apply, get_modifyKey] at hd
    split at hd
    · rename_i hid
      subst hid
      obtain ⟨d₀, hd₀, rfl⟩ := Option.map_eq_some_iff.mp hd
      exact .inr (.inr ⟨c, drawsId, d₀, rfl, hd₀, hx.2 d₀ hd₀, rfl⟩)
    · rename_i hid
      refine .inl ⟨hd, fun _ _ h => ?_⟩
      cases h
      exact hid rfl
  | _ => exact .inl ⟨hd, (fun _ _ h => by cases h)⟩

/-- What a new run has and a lawful change of a sound run keeps, a lawful record keeps of
every run. -/
theorem runs_apply {w : World} {x : Write} (hx : w.Lawful lw x) (hs : w.Sound) {P : RunData → Prop}
    (hcreate : ∀ (request : RunRequest) (tenantId : String), P (.create (request.run tenantId)))
    (hchange : ∀ {d : RunData} {c : Change}, Workflow.Sound d → P d → Workflow.Lawful lw d c → P (d.apply c))
    (h : ∀ runId d, w.runs.get runId = some d → P d) {runId : ℕ} {d : RunData}
    (hd : (w.apply x).runs.get runId = some d) : P d := by
  rcases run_before hx hd with ⟨hsame, -⟩ | ⟨request, tenantId, -, -, rfl⟩ | ⟨c, drawsId, d₀, -, hd₀, hc, rfl⟩
  · exact h runId d hsame
  · exact hcreate request tenantId
  · exact hchange (hs.runs runId d₀ hd₀).1 (h runId d₀ hd₀) hc

/-! ### Programs of one run -/

/-- From the data `d` of its run the program writes lawful records about that run, and
what it returns goes with the data that it leaves. -/
def Does (lw : Leeway) (runId : ℕ) {α : Type} (m : Prog α) (d : RunData) (Q : α → RunData → Prop) : Prop :=
  ∀ s : World, s.runs.get runId = some d → (lw.works → (s.jobs.lookup runId).isSome) →
    Ends (fun w x => w.Lawful lw x ∧ x.about runId) m s fun r t =>
      ∃ d', t.runs.get runId = some d' ∧ (lw.works → (t.jobs.lookup runId).isSome) ∧ ∀ a, r = .ok a → Q a d'

variable {runId : ℕ} {α β : Type} {m : Prog α} {k : α → Prog β} {d : RunData}

theorem Does.mono {Q Q' : α → RunData → Prop} (h : Does lw runId m d Q) (hQ : ∀ a d', Q a d' → Q' a d') :
    Does lw runId m d Q' := fun s hd hrow =>
  (h s hd hrow).mono fun _ _ ⟨d', hd', hrow', hq⟩ => ⟨d', hd', hrow', fun a ha => hQ a d' (hq a ha)⟩

theorem does_pure {Q : α → RunData → Prop} {a : α} (h : Q a d) : Does lw runId (pure a : Prog α) d Q :=
  fun _ hd hrow => ends_pure ⟨d, hd, hrow, by rintro b ⟨⟩; exact h⟩

theorem does_raise {Q : α → RunData → Prop} (f : Fault) : Does lw runId (raise f : Prog α) d Q :=
  fun _ hd hrow => ends_raise ⟨d, hd, hrow, nofun⟩

theorem does_check {Q : α → RunData → Prop} {r : Except Fault α} (h : ∀ a, r = .ok a → Q a d) :
    Does lw runId (check r : Prog α) d Q := fun _ hd hrow => ends_check ⟨d, hd, hrow, h⟩

theorem does_bind {Q : β → RunData → Prop} (h : Does lw runId m d fun a d' => Does lw runId (k a) d' Q) :
    Does lw runId (m >>= k) d Q := by
  intro s hd hrow
  refine ends_bind ((h s hd hrow).mono ?_)
  rintro r t ⟨d', hd', hrow', hq⟩
  cases r with
  | error e => exact ⟨d', hd', hrow', nofun⟩
  | ok a => exact hq a rfl t hd' hrow'

/-- What follows a read may be looked at in the state that was read. -/
theorem does_read_bind {k : World → Prog β} {Q : β → RunData → Prop}
    (h : ∀ w : World, w.runs.get runId = some d → Does lw runId (k w) d Q) :
    Does lw runId (read >>= k) d Q := by
  intro s hd hrow
  exact ends_bind (ends_read (h s hd s hd hrow))

/-- A program that reads the data of its run first. -/
theorem does_find {Q : RunData → RunData → Prop} (h : Q d d) : Does lw runId (find runId) d Q := by
  refine does_read_bind fun w hw => ?_
  rw [hw]
  exact does_pure h

theorem does_newId {Q : ℕ → RunData → Prop} (h : ∀ id, Q id d) : Does lw runId newId d Q := by
  refine does_read_bind fun w _ => does_bind ?_
  exact fun s hd hrow => ends_write ⟨trivial, rfl⟩ ⟨d, hd, hrow, fun _ _ => does_pure (h _)⟩

theorem does_write {c : Change} {drawsId : Bool} {Q : Unit → RunData → Prop} (hc : Lawful lw d c)
    (h : Q () (d.apply c)) : Does lw runId (write (.on runId c drawsId)) d Q := by
  intro s hd hrow
  refine ends_write ⟨⟨hrow, fun d' hd' => ?_⟩, by simp [Write.about]⟩ ⟨d.apply c, ?_, hrow, fun _ _ => h⟩
  · cases hd.symm.trans hd'
    exact hc
  · show (modifyKey s.runs runId fun d => d.apply c).get runId = _
    rw [get_modifyKey, if_pos rfl, hd]
    rfl

theorem does_change {c : Change} {Q : RunData → RunData → Prop} (hc : Lawful lw d c)
    (h : Q (d.apply c) (d.apply c)) : Does lw runId (change runId c) d Q :=
  does_bind (does_find (does_bind (does_write hc (does_pure h))))

theorem does_changeWithId {c : ℕ → Change} {Q : ℕ × RunData → RunData → Prop} (hc : ∀ id, Lawful lw d (c id))
    (h : ∀ id, Q (id, d.apply (c id)) (d.apply (c id))) : Does lw runId (changeWithId runId c) d Q :=
  does_bind (does_find (does_read_bind fun _ _ => does_bind (does_write (hc _) (does_pure (h _)))))

theorem does_updateRun {p : RunPatch} {expected : Option ℕ} {bump : Bool} {Q : Run → RunData → Prop}
    (hc : (∀ e ∈ expected, e = d.run.runRevision) → Lawful lw d (.run p bump))
    (h : Q (d.run.update p bump) (d.apply (.run p bump))) : Does lw runId (updateRun runId p expected bump) d Q := by
  refine does_bind (does_find (does_bind (does_check fun _ hcheck => does_bind (does_change (hc ?_) (does_pure h)))))
  rintro e rfl
  by_contra hne
  rw [requireRevision, if_neg hne] at hcheck
  cases hcheck

/-- A new item under an id that is free. -/
theorem does_insert {ι : Type} {resource : String} {items : RunData → List ι} {key : ι → ℕ} {wrap : ι → Change}
    {item : ι} {Q : ι → RunData → Prop}
    (hc : (∀ x ∈ items d, key x ≠ key item) → Lawful lw d (wrap item))
    (h : (∀ x ∈ items d, key x ≠ key item) → Q item (d.apply (wrap item))) :
    Does lw runId (insert runId resource items key wrap item) d Q := by
  refine does_bind (does_find ?_)
  split
  · exact does_raise _
  · rename_i hfree
    have hnew : ∀ x ∈ items d, key x ≠ key item := by simpa using hfree
    exact does_bind (does_change (hc hnew) (does_pure (h hnew)))

theorem does_onJobs {r : Readings} {op : Jobs.Op ℕ} {Q : Option (Job ℕ) → RunData → Prop}
    (hop : ∀ w : World, w.runs.get runId = some d → w.Permits lw op) (habout : (Write.job r op).about runId)
    (h : ∀ reply, Q reply d) : Does lw runId (onJobs r op) d Q := by
  refine does_read_bind fun w _ => ?_
  cases (op.apply w.jobs r).2 with
  | error fault => exact does_raise _
  | ok reply =>
    refine does_bind fun s hd hrow => ?_
    exact ends_write ⟨hop s hd, habout⟩ ⟨d, hd, fun hw => row_apply _ (hrow hw), fun _ _ => does_pure (h reply)⟩

end AutomlApi.Workflow
