import AutomlApi.Jobs.History

/-! A claim in hand: the row of the run is leased under it. It passes the fence until
its lease runs out, and only a wake of its run, a claim after the lease has run
out, or a call that gives it up takes it away. -/

namespace AutomlApi.Jobs

variable {ι : Type*} [LinearOrder ι] {t : Table ι} {r : Readings} {c : Claim ι}

/-- The row of the claim is leased under it. -/
def Table.Current (t : Table ι) (c : Claim ι) : Prop :=
  ∃ row, t.lookup c.runId = some row ∧ row.claim = c ∧ row.status = .leased ∧ row.leaseExpiresAt.isSome

/-- The lease of the claim has not run out at `now`. -/
def Table.unexpired (t : Table ι) (c : Claim ι) (now : Time) : Bool :=
  (t.lookup c.runId).all fun row => !row.expired now

/-- A call that leaves the claim in hand. -/
def Op.spares (t : Table ι) (r : Readings) (c : Claim ι) : Op ι → Bool
  | .wake runId => runId ≠ c.runId
  | .claim _ _ => t.unexpired c r.third
  | op => op.commits ≠ some c

theorem requireJobFence_of_current {now : Time} (hc : t.Current c) (hx : t.unexpired c now) :
    ∃ row, t.lookup c.runId = some row ∧ row.claim = c ∧ requireJobFence t now c = .ok row := by
  obtain ⟨row, hl, hclaim, hs, hsome⟩ := hc
  obtain ⟨expiry, hx'⟩ := Option.isSome_iff_exists.mp hsome
  have hlt : moment now < expiry := by simpa [Table.unexpired, hl, Job.expired, hx'] using hx
  refine ⟨row, hl, hclaim, ?_⟩
  simp only [requireJobFence, hl]
  subst hclaim
  exact Job.fenced_eq_ok.mpr ⟨rfl, hs, rfl, rfl, expiry, hx', hlt⟩

/-- The claim in hand passes the fence before its lease runs out. -/
theorem fencedUpdate_of_current (hc : t.Current c) (hx : t.unexpired c r.first) (change : Job ι → Job ι) :
    ∃ row, t.lookup c.runId = some row ∧ row.claim = c ∧
      fencedUpdate t r c change = .ok (t.put (change row), change row) := by
  obtain ⟨row, hl, hclaim, hf⟩ := requireJobFence_of_current hc hx
  exact ⟨row, hl, hclaim, by rw [fencedUpdate, hf]; rfl⟩

theorem current_put_ne {j : Job ι} (hc : t.Current c) (hj : j.runId ≠ c.runId) : (t.put j).Current c := by
  obtain ⟨row, hl, h⟩ := hc
  exact ⟨row, by rw [Table.lookup_put, hl]; simp [hj.symm], h⟩

theorem current_put {j : Job ι} (hl : (t.lookup c.runId).isSome) (hclaim : j.claim = c) (hs : j.status = .leased)
    (hx : j.leaseExpiresAt.isSome) : (t.put j).Current c := by
  obtain ⟨row, hrow⟩ := Option.isSome_iff_exists.mp hl
  have hid : j.runId = c.runId := by rw [← hclaim]; rfl
  exact ⟨j, by rw [Table.lookup_put, hrow]; simp [hid], hclaim, hs, hx⟩

theorem current_claim {workerId : String} {leaseSeconds : PyFloat} (hc : t.Current c) (hx : t.unexpired c r.third) :
    ((Op.claim workerId leaseSeconds).apply t r).1.Current c := by
  obtain ⟨row, hl, hclaim, hs, hsome⟩ := hc
  have hlive : ∀ now, now ≤ r.third → row.expired now = false := fun now hnow => by
    by_contra h
    have := Job.expired_mono hnow (by simpa using h)
    simp [Table.unexpired, hl, this] at hx
  have hbury : (t.bury r.first).lookup c.runId = some row := by
    rw [lookup_bury, hl, Option.map_some, Job.bury, if_neg]
    simp [Job.exhausted, hlive r.first (r.first_le.trans r.second_le)]
  have hcur : (t.bury r.first).Current c := ⟨row, hbury, hclaim, hs, hsome⟩
  simp only [Op.apply]
  cases h : claimExecutionJob t r workerId leaseSeconds with
  | error => exact ⟨row, hl, hclaim, hs, hsome⟩
  | ok p =>
    obtain ⟨t', reply⟩ := p
    rcases claimExecutionJob_eq_ok h with ⟨-, rfl⟩ | ⟨row', -, rfl, -, hrow', hcl⟩
    · exact hcur
    · refine current_put_ne hcur fun hid => ?_
      rw [show row'.runId = c.runId from hid, hbury] at hrow'
      cases hrow'
      simp [Job.claimable, hs, hlive r.third le_rfl] at hcl

/-- A call behind the fence spares the claim unless it gives it up. -/
theorem current_presents {op : Op ι} {c' : Claim ι} (hp : op.presents = some c') (hc : t.Current c)
    (hop : op.commits ≠ some c) : (op.apply t r).1.Current c := by
  have hcommits : op.commits = none ∨ op.commits = some c' := by cases op <;> first | exact .inr hp | exact .inl rfl
  rcases apply_of_presents (t := t) (r := r) hp with ⟨-, fault, -, h⟩ | ⟨-, change, h, hchange⟩
  · rwa [h]
  rw [h]
  cases hf : fencedUpdate t r c' change with
  | error => exact hc
  | ok p =>
    obtain ⟨t', job⟩ := p
    obtain ⟨row, hl, -, hrow, rfl, rfl⟩ := fencedUpdate_eq_ok hf
    obtain ⟨hclaim, -, hkeeps⟩ := hchange row
    show (t.put (change row)).Current c
    by_cases hid : c'.runId = c.runId
    · obtain ⟨row', hl', hclaim', hs, -⟩ := hc
      rw [hid, hl'] at hl
      cases hl
      rw [hrow] at hclaim'
      subst hclaim'
      obtain ⟨hstatus, hx⟩ := hkeeps (hcommits.resolve_right hop)
      exact current_put (by rw [hl']; rfl) (hclaim.trans hrow) (hstatus.trans hs) hx
    · refine current_put_ne hc ?_
      rw [show (change row).runId = row.runId from congrArg Claim.runId hclaim,
        Table.runId_of_lookup hl]
      exact hid

theorem current_apply (op : Op ι) (hc : t.Current c) (hop : op.spares t r c) :
    (op.apply t r).1.Current c := by
  cases op with
  | create known runId workflowStep fields maxAttempts controlEpoch =>
    obtain ⟨row, hl, h⟩ := hc
    refine ⟨row, ?_, h⟩
    simp only [Op.apply]
    cases hcreate : createExecutionJob t r known runId workflowStep fields maxAttempts controlEpoch with
    | error => exact hl
    | ok p =>
      obtain ⟨t', job⟩ := p
      obtain ⟨hnone, rfl, -⟩ := createExecutionJob_eq_ok hcreate
      show (t.insert job hnone).lookup c.runId = some row
      rw [Table.lookup_insert, if_neg, hl]
      intro hid
      rw [hid, hnone] at hl
      cases hl
  | wake runId =>
    simp only [Op.apply]
    cases hwake : wakeExecutionJob t r runId with
    | error => exact hc
    | ok p =>
      obtain ⟨t', job⟩ := p
      obtain ⟨row, hl, -, rfl, rfl⟩ := wakeExecutionJob_eq_ok hwake
      exact current_put_ne hc ((Table.runId_of_lookup hl).trans_ne (by simpa [Op.spares] using hop))
  | claim => exact current_claim hc hop
  | renew | checkpoint | complete | retry =>
    exact current_presents rfl hc (by simpa [Op.spares] using hop)

end AutomlApi.Jobs
