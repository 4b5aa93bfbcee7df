import AutomlApi.Engine.Sealing

/-! Two runs on tables that differ only in the features of the rows that the first run
holds out. The split, the folds and the selection read the development rows, but the
columns to learn from are chosen on the whole table. -/

namespace AutomlApi.Engine

open Positions (pick)

variable {F M : Type} [Float64 F] [DecidableEq F]

/-! ### The split depends on how the rows are grouped -/

/-- A split of a list of groups that reads only how many there are, and their strata. -/
def Splitters.Positional (sk : Splitters F) : Prop :=
  ∃ choose : ℕ → F → ℕ → Option (List (Cell F)) → Except EngineError (List ℕ × List ℕ),
    ∀ groups testSize seed stratify, sk.trainTestSplit groups testSize seed stratify =
      (choose groups.length testSize seed stratify).map fun p => (pick groups p.1, pick groups p.2)

/-- The same rows are grouped together. -/
structure SameGrouping (g g' : List UInt64) : Prop where
  length : g.length = g'.length
  together : ∀ i j : ℕ, g[i]? = g[j]? ↔ g'[i]? = g'[j]?

/-- The first row of each group. -/
def representatives (groups : List UInt64) : List ℕ :=
  (List.range groups.length).eraseDupsBy fun i j => groups.getD i 0 == groups.getD j 0

theorem lt_of_mem_representatives {groups : List UInt64} {i : ℕ} (h : i ∈ representatives groups) : i < groups.length :=
  List.mem_range.mp (Positions.mem_of_mem_eraseDupsBy h)

omit [Float64 F] [DecidableEq F] in
theorem groupFrame_eq {groups : List UInt64} {target : List (Cell F)} (h : target.length = groups.length) :
    groupFrame groups target = (representatives groups).map fun i => (groups.getD i 0, target.getD i .missing) := by
  have hzip : groups.zip target =
      (List.range groups.length).map fun i => (groups.getD i 0, target.getD i .missing) := by
    apply List.ext_getElem
    · simp [h]
    · intro i h₁ h₂
      have hi : i < groups.length := by simpa using h₂
      have hi' : i < target.length := h ▸ hi
      simp [List.getD_eq_getElem?_getD, List.getElem?_eq_getElem hi, List.getElem?_eq_getElem hi']
  rw [groupFrame, hzip, Positions.eraseDupsBy_map]
  rfl

theorem getD_eq_iff {groups : List UInt64} {i j : ℕ} (hi : i < groups.length) (hj : j < groups.length) :
    groups.getD i 0 = groups.getD j 0 ↔ groups[i]? = groups[j]? := by
  rw [List.getD_eq_getElem?_getD, List.getD_eq_getElem?_getD, List.getElem?_eq_getElem hi, List.getElem?_eq_getElem hj,
    Option.getD_some, Option.getD_some, Option.some_inj]

theorem SameGrouping.getD {g g' : List UInt64} (h : SameGrouping g g') {i j : ℕ} (hi : i < g.length) (hj : j < g.length) :
    g.getD i 0 = g.getD j 0 ↔ g'.getD i 0 = g'.getD j 0 := by
  rw [getD_eq_iff hi hj, getD_eq_iff (h.length ▸ hi) (h.length ▸ hj)]
  exact h.together i j

theorem SameGrouping.representatives {g g' : List UInt64} (h : SameGrouping g g') :
    representatives g = representatives g' := by
  rw [Engine.representatives, Engine.representatives, ← h.length]
  refine Positions.eraseDupsBy_congr fun i hi j hj => ?_
  have := h.getD (List.mem_range.mp hi) (List.mem_range.mp hj)
  exact Bool.eq_iff_iff.mpr (by simpa using this)

omit [Float64 F] [DecidableEq F] in
theorem drawHoldout_eq_ok {sk : Splitters F} {groups : List UInt64} {testSize : F} {seed : ℕ}
    {stratify : Option (List (Cell F))} {parts : List UInt64 × List UInt64}
    (h : drawHoldout sk groups testSize seed stratify = .ok parts) :
    sk.trainTestSplit groups testSize seed stratify = .ok parts := by
  unfold drawHoldout at h
  split at h
  · cases h
  · exact h

omit [Float64 F] [DecidableEq F] in
/-- The test groups of a holdout that is drawn by position are the groups of some rows. -/
theorem testGroupIds_eq {sk : Splitters F} {choose : ℕ → F → ℕ → Option (List (Cell F)) → Except EngineError (List ℕ × List ℕ)}
    (hsk : ∀ groups testSize seed stratify, sk.trainTestSplit groups testSize seed stratify =
      (choose groups.length testSize seed stratify).map fun p => (pick groups p.1, pick groups p.2))
    {g test : List UInt64} {target : List (Cell F)} {testSize : F} {seed : ℕ} {stratified : Prop}
    [Decidable stratified] (htarget : target.length = g.length)
    (h : ∃ d, drawHoldout sk ((groupFrame g target).map Prod.fst) testSize seed
      (if stratified then some ((groupFrame g target).map Prod.snd) else none) = .ok (d, test)) :
    ∃ parts, choose (representatives g).length testSize seed
        (if stratified then some ((representatives g).map fun i => target.getD i .missing) else none) = .ok parts ∧
      test = (pick (representatives g) parts.2).map fun i => g.getD i 0 := by
  obtain ⟨d, hd⟩ := h
  have hfst : (groupFrame g target).map Prod.fst = (representatives g).map fun i => g.getD i 0 := by
    rw [groupFrame_eq htarget, List.map_map]
    rfl
  have hsnd : (groupFrame g target).map Prod.snd = (representatives g).map fun i => target.getD i .missing := by
    rw [groupFrame_eq htarget, List.map_map]
    rfl
  have hd := drawHoldout_eq_ok hd
  rw [hfst, hsnd, hsk, List.length_map] at hd
  obtain ⟨parts, hparts, heq⟩ := except_map_eq_ok hd
  refine ⟨parts, hparts, ?_⟩
  rw [← Positions.pick_map]
  exact (congrArg Prod.snd heq).symm

omit [Float64 F] [DecidableEq F] in
/-- A holdout drawn by position takes the same rows out of tables grouped alike. -/
theorem developmentPositions_congr {sk : Splitters F} (hsk : sk.Positional) {g g' test test' : List UInt64}
    {target : List (Cell F)} {testSize : F} {seed : ℕ} {stratified : Prop} [Decidable stratified]
    (h : SameGrouping g g') (htarget : target.length = g.length)
    (hd : ∃ d, drawHoldout sk ((groupFrame g target).map Prod.fst) testSize seed
      (if stratified then some ((groupFrame g target).map Prod.snd) else none) = .ok (d, test))
    (hd' : ∃ d, drawHoldout sk ((groupFrame g' target).map Prod.fst) testSize seed
      (if stratified then some ((groupFrame g' target).map Prod.snd) else none) = .ok (d, test')) :
    developmentPositions g test = developmentPositions g' test' := by
  obtain ⟨choose, hchoose⟩ := hsk
  obtain ⟨parts, hparts, rfl⟩ := testGroupIds_eq hchoose htarget hd
  obtain ⟨parts', hparts', rfl⟩ := testGroupIds_eq hchoose (htarget.trans h.length) hd'
  rw [← h.representatives] at hparts' ⊢
  cases hparts.symm.trans hparts'
  have hmask : g.map ((pick (representatives g) parts.2).map fun i => g.getD i 0).contains =
      g'.map ((pick (representatives g) parts.2).map fun i => g'.getD i 0).contains := by
    apply List.ext_getElem
    · simp [h.length]
    intro i hi hi'
    have hi : i < g.length := by simpa using hi
    have hi' : i < g'.length := h.length ▸ hi
    have hig : g[i] = g.getD i 0 := by simp [List.getD_eq_getElem?_getD, hi]
    have hig' : g'[i] = g'.getD i 0 := by simp [List.getD_eq_getElem?_getD, hi']
    rw [List.getElem_map, List.getElem_map, hig, hig', Bool.eq_iff_iff]
    simp only [List.contains_iff_mem, List.mem_map]
    refine exists_congr fun r => and_congr_right fun hr => ?_
    obtain ⟨k, -, hk⟩ := Positions.mem_pick.mp hr
    exact h.getD (lt_of_mem_representatives (List.mem_of_getElem? hk)) hi
  rw [developmentPositions, developmentPositions, hmask]

/-! ### The two runs -/

/-- The rows whose fingerprint is one of the development part. -/
def developmentRows (hashes : Hashes F) (p : PreparedTabularData F) : List ℕ :=
  Positions.nonzero ((rowFingerprints hashes.row p.features).map (p.developmentGroups.contains ·))

/-- Two tables that are accepted, with the same columns, the same target and the same rows
grouped together, that agree on every row the first run develops on. -/
structure DifferInHoldout (sk : Splitters F) (hashes : Hashes F) (T T' : Table F) (q q' : Preparation F)
    (p p' : PreparedTabularData F) : Prop where
  request : q' = { q with datasetSha256 := q'.datasetSha256 }
  accepted : prepareFrame sk hashes T q = .ok p
  accepted' : prepareFrame sk hashes T' q' = .ok p'
  columns : T.series.map Series.name = T'.series.map Series.name
  target : findTarget T q.targetColumn = findTarget T' q.targetColumn
  grouping : SameGrouping (rowFingerprints hashes.row p.features) (rowFingerprints hashes.row p'.features)
  agree : ∀ s ∈ T.series, ∀ s' ∈ T'.series, s.name = s'.name → ∀ i ∈ developmentRows hashes p,
    s.cells[i]? = s'.cells[i]?

/-- Nothing of the selection differs between two runs. -/
structure SelectAlike (lib : Learning F M) (hashes : Hashes F) (p p' : PreparedTabularData F) : Prop where
  rows : developmentRows hashes p = developmentRows hashes p'
  numericColumns : p.numericColumns = p'.numericColumns
  categoricalColumns : p.categoricalColumns = p'.categoricalColumns
  selection : ∀ baselineSpec candidates, selectCandidate lib p.development baselineSpec candidates =
    selectCandidate lib p'.development baselineSpec candidates

/-- Every feature column is usable in one role in both tables, or in neither. -/
def SameRoles (T T' : Table F) (q : Preparation F) : Prop :=
  ∀ s ∈ T.series, ∀ s' ∈ T'.series, s.name = s'.name → some s.name ≠ q.targetColumn →
    s.role q.maxCategories = s'.role q.maxCategories

omit [Float64 F] [DecidableEq F] in
theorem developmentRows_eq {sk : Splitters F} {hashes : Hashes F} {q : Preparation F}
    {p : PreparedTabularData F} {target : List (Cell F)} {test : List UInt64}
    (h : Developed sk p.features target (rowFingerprints hashes.row p.features) p.taskType q.seed q.testSize q.cvFolds
      p.frozen test) :
    developmentRows hashes p = developmentPositions (rowFingerprints hashes.row p.features) test := by
  set groups := rowFingerprints hashes.row p.features with hgroups
  obtain ⟨hin, hpick⟩ := iloc_eq_ok h.developedGroups
  have hgroups' : p.developmentGroups = pick groups (developmentPositions groups test) := hpick
  have hmask : groups.map (p.developmentGroups.contains ·) = (groups.map (test.contains ·)).map not := by
    rw [hgroups']
    apply List.ext_getElem
    · simp
    intro i hi hi'
    have hi : i < groups.length := by simpa using hi
    rw [List.getElem_map, List.getElem_map, List.getElem_map, Bool.eq_iff_iff, Bool.not_eq_true',
      List.contains_iff_mem, Positions.mem_pick]
    constructor
    · rintro ⟨j, hj, hji⟩
      rw [developmentPositions, Positions.mem_nonzero_not, List.getElem?_map, hji] at hj
      exact Option.some.inj hj
    · intro hout
      refine ⟨i, ?_, List.getElem?_eq_getElem hi⟩
      rw [developmentPositions, Positions.mem_nonzero_not, List.getElem?_map, List.getElem?_eq_getElem hi]
      exact congrArg some hout
  rw [developmentRows, ← hgroups, hmask]
  rfl

omit [Float64 F] [DecidableEq F] in
/-- The groups of a part are the fingerprints of its rows. -/
theorem pick_rowFingerprints {hash : List (Feature F) → UInt64} {f part : FeatureFrame F} {rows : List ℕ}
    (hf : f.Rectangular) (h : f.iloc rows = .ok part) : pick (rowFingerprints hash f) rows = rowFingerprints hash part := by
  obtain ⟨hin, hpart⟩ := FeatureFrame.iloc_eq_ok h
  have hlen : (rowFingerprints hash f).length = f.height := by rw [rowFingerprints, List.length_map, List.length_range]
  have hin' : ∀ p ∈ rows, p < (rowFingerprints hash f).length := hlen ▸ hin
  have hheight : part.height = rows.length := by rw [hpart]
  apply List.ext_getElem?
  intro k
  by_cases hk : k < rows.length
  · have hrow := List.getElem?_eq_getElem hk
    rw [Positions.getElem?_pick hin' hrow, rowFingerprints, rowFingerprints, List.getElem?_map, List.getElem?_map,
      List.getElem?_range (hin _ (List.getElem_mem hk)), List.getElem?_range (hheight ▸ hk), Option.map_some,
      Option.map_some, f.row_iloc hf h hrow]
  · have hpick := Positions.length_pick hin'
    have hpart : (rowFingerprints hash part).length = rows.length := by
      rw [rowFingerprints, List.length_map, List.length_range, hheight]
    rw [List.getElem?_eq_none (by omega), List.getElem?_eq_none (by omega)]

/-- Columns in the same roles that agree on some rows give the same features of them. -/
theorem columns_congr {maxCategories : ℕ} (rows : List ℕ) {l l' : List (Series F)}
    (hnames : l.map Series.name = l'.map Series.name)
    (h : ∀ s ∈ l, ∀ s' ∈ l', s.name = s'.name →
      s.role maxCategories = s'.role maxCategories ∧ ∀ i ∈ rows, s.cells[i]? = s'.cells[i]?) :
    (l.filterMap fun s => (s.role maxCategories).map s.column).map
          (fun c => (⟨c.name, pick c.values rows⟩ : FeatureColumn F)) =
        (l'.filterMap fun s => (s.role maxCategories).map s.column).map (fun c => ⟨c.name, pick c.values rows⟩) ∧
      (∀ role, (l.filter fun s => s.role maxCategories == some role).map Series.name =
        (l'.filter fun s => s.role maxCategories == some role).map Series.name) := by
  induction l generalizing l' with
  | nil => cases l' with
    | nil => exact ⟨rfl, fun _ => rfl⟩
    | cons _ _ => cases hnames
  | cons s l ih =>
    cases l' with
    | nil => cases hnames
    | cons s' l' =>
      obtain ⟨hname, hnames⟩ := List.cons.inj hnames
      obtain ⟨hrole, hcells⟩ := h s List.mem_cons_self s' List.mem_cons_self hname
      obtain ⟨hcolumns, hfilters⟩ := ih hnames
        fun t ht t' ht' => h t (List.mem_cons_of_mem s ht) t' (List.mem_cons_of_mem s' ht')
      have hpick (f : Cell F → Feature F) : pick (s.cells.map f) rows = pick (s'.cells.map f) rows := by
        rw [Positions.pick_map, Positions.pick_map, Positions.pick_congr hcells]
      constructor
      · rw [List.filterMap_cons, List.filterMap_cons, ← hrole]
        cases s.role maxCategories with
        | none => exact hcolumns
        | some role => cases role <;> simpa [Series.column, hname, hpick] using hcolumns
      · intro role
        rw [List.filter_cons, List.filter_cons, ← hrole]
        split
        · rw [List.map_cons, List.map_cons, hname, hfilters role]
        · exact hfilters role

omit [Float64 F] [DecidableEq F] in
/-- A name belongs to one column. -/
theorem Table.eq_of_name {T : Table F} {s s' : Series F} (hs : s ∈ T.series) (hs' : s' ∈ T.series)
    (h : s.name = s'.name) : s = s' :=
  List.inj_on_of_nodup_map T.named hs hs' h

omit [Float64 F] [DecidableEq F] in
theorem rawFeatures_names {T T' : Table F} {target : Series F}
    (h : T.series.map Series.name = T'.series.map Series.name) :
    (T.rawFeatures target).map Series.name = (T'.rawFeatures target).map Series.name := by
  have hfilter (T : Table F) : (T.rawFeatures target).map Series.name =
      (T.series.map Series.name).filter (· != target.name) := by
    rw [Table.rawFeatures, List.filter_map]
    rfl
  rw [hfilter, hfilter, h]

omit [Float64 F] [DecidableEq F] in
theorem findTarget_name {T : Table F} {targetColumn : Option String} {target : Series F}
    (h : findTarget T targetColumn = .ok target) : some target.name = targetColumn := by
  unfold findTarget at h
  split at h
  · next s hs =>
    split at h
    · cases h
    · cases h; simpa using List.find?_some hs
  · cases h

/-- The names that are kept in a role. -/
theorem mem_kept {T : Table F} {target s : Series F} {maxCategories : ℕ} {role : Role} (hs : s ∈ T.series)
    (hne : s.name ≠ target.name) :
    s.name ∈ ((T.rawFeatures target).filter fun s => s.role maxCategories == some role).map Series.name ↔
      s.role maxCategories = some role := by
  simp only [List.mem_map, List.mem_filter, beq_iff_eq, Table.rawFeatures, bne_iff_ne]
  constructor
  · rintro ⟨t, ⟨⟨ht, -⟩, hrole⟩, hname⟩
    rwa [← T.eq_of_name ht hs hname]
  · exact fun hrole => ⟨s, ⟨⟨hs, hne⟩, hrole⟩, rfl⟩

/-- Columns kept alike have the same role. -/
theorem sameRoles_of_kept {sk : Splitters F} {hashes : Hashes F} {T T' : Table F} {q q' : Preparation F}
    {p p' : PreparedTabularData F} (h : DifferInHoldout sk hashes T T' q q' p p')
    (hnumeric : p.numericColumns = p'.numericColumns) (hcategorical : p.categoricalColumns = p'.categoricalColumns) :
    SameRoles T T' q := by
  obtain ⟨target, encoded, task, f, ha⟩ := prepareFrame_eq_ok h.accepted
  obtain ⟨target', encoded', task', f', ha'⟩ := prepareFrame_eq_ok h.accepted'
  have hcolumn : q'.targetColumn = q.targetColumn := by rw [h.request]
  have hmax : q'.maxCategories = q.maxCategories := by rw [h.request]
  have htarget : target' = target := by
    have := ha'.found
    rw [hcolumn, ← h.target, ha.found] at this
    exact (Except.ok.inj this).symm
  subst htarget
  intro s hs s' hs' hname hne
  have hne : s.name ≠ target'.name := fun he => hne (he ▸ findTarget_name ha.found)
  obtain ⟨-, hn, hc⟩ := prepareFeatures_eq ha.chosen
  obtain ⟨-, hn', hc'⟩ := prepareFeatures_eq ha'.chosen
  rw [ha.numericColumns, ha'.numericColumns, hn, hn', hmax] at hnumeric
  rw [ha.categoricalColumns, ha'.categoricalColumns, hc, hc', hmax] at hcategorical
  have hroles : ∀ role, s.role q.maxCategories = some role ↔ s'.role q.maxCategories = some role := by
    intro role
    rw [← mem_kept hs hne, ← mem_kept hs' (hname ▸ hne), ← hname]
    cases role
    · rw [hnumeric]
    · rw [hcategorical]
  cases hr : s.role q.maxCategories with
  | some role => exact ((hroles role).mp hr).symm
  | none =>
    cases hr' : s'.role q.maxCategories with
    | none => rfl
    | some role =>
      have := (hroles role).mpr hr'
      rw [hr] at this
      cases this

theorem Accepted.length_encoded {sk : Splitters F} {hashes : Hashes F} {T : Table F} {q : Preparation F}
    {p : PreparedTabularData F} {target : Series F} {encoded : List (Cell F)} {task : TaskRecord F}
    {f : PreparedFeatures F} (h : Accepted sk hashes T q p target encoded task f) :
    encoded.length = (rowFingerprints hashes.row p.features).length := by
  obtain ⟨encode, rfl, hmem⟩ := h.ofTable.labels
  rw [rowFingerprints, List.length_map, List.length_map, List.length_range, h.ofTable.height, T.rectangular target hmem]

/-- Tables whose columns are kept alike give the same development data. -/
theorem development_congr {sk : Splitters F} (hsk : sk.Positional) {hashes : Hashes F} {T T' : Table F}
    {q q' : Preparation F} {p p' : PreparedTabularData F} (h : DifferInHoldout sk hashes T T' q q' p p')
    (hroles : SameRoles T T' q) :
    developmentRows hashes p = developmentRows hashes p' ∧ p.development = p'.development := by
  obtain ⟨target, encoded, task, f, ha⟩ := prepareFrame_eq_ok h.accepted
  obtain ⟨target', encoded', task', f', ha'⟩ := prepareFrame_eq_ok h.accepted'
  -- the target, and with it the task and the labels
  have hfound := ha'.found
  have htype := ha'.taskType
  have hlabelled := ha'.labelled
  have hchosen := ha'.chosen
  have hfrozen := ha'.frozen
  have hseed := ha'.seed
  rw [h.request] at hfound htype hlabelled hchosen hfrozen hseed
  simp only at hfound htype hlabelled hchosen hfrozen hseed
  rw [← h.target, ha.found] at hfound
  cases hfound
  rw [ha.taskType] at htype
  have htype := Except.ok.inj htype
  rw [← htype, ha.labelled] at hlabelled
  cases hlabelled
  -- the rows
  obtain ⟨test, hd, -⟩ := freezeSplit_eq_ok ha.frozen
  obtain ⟨test', hd', -⟩ := freezeSplit_eq_ok hfrozen
  have hdrawn' := hd'.drawn
  rw [← htype] at hdrawn'
  have hpositions := developmentPositions_congr hsk h.grouping ha.length_encoded hd.drawn hdrawn'
  have hrows := developmentRows_eq hd
  have hrows' : developmentRows hashes p' = _ := developmentRows_eq (q := q) hd'
  -- the features of those rows
  obtain ⟨hcolumns, hfilters⟩ := columns_congr (developmentRows hashes p)
    (rawFeatures_names h.columns : (T.rawFeatures target).map Series.name = (T'.rawFeatures target).map Series.name)
    fun s hs s' hs' hname => by
      obtain ⟨hs, hne⟩ := List.mem_filter.mp hs
      obtain ⟨hs', -⟩ := List.mem_filter.mp hs'
      refine ⟨hroles s hs s' hs' hname fun he => ?_, h.agree s hs s' hs' hname⟩
      rw [← findTarget_name ha.found] at he
      simp [Option.some.inj he] at hne
  have hkept := prepareFeatures_eq ha.chosen
  have hkept' := prepareFeatures_eq hchosen
  have hfeatures : p.developmentFeatures = p'.developmentFeatures := by
    have hpart : p.developmentFeatures = _ := (FeatureFrame.iloc_eq_ok hd.developedFeatures).2
    have hpart' : p'.developmentFeatures = _ := (FeatureFrame.iloc_eq_ok hd'.developedFeatures).2
    have hc : p.features.columns = _ := (congrArg FeatureFrame.columns ha.framed).trans hkept.1
    have hc' : p'.features.columns = _ := (congrArg FeatureFrame.columns ha'.framed).trans hkept'.1
    rw [hpart, hpart', ← hpositions, ← hrows, hc, hc', hcolumns]
  have htarget : p.developmentTarget = p'.developmentTarget := by
    have hpart : p.developmentTarget = _ := (iloc_eq_ok hd.developedTarget).2
    have hpart' : p'.developmentTarget = _ := (iloc_eq_ok hd'.developedTarget).2
    rw [hpart, hpart', ← hpositions]
  have hgroups : p.developmentGroups = p'.developmentGroups := by
    have hpart : p.developmentGroups = _ := (iloc_eq_ok hd.developedGroups).2
    have hpart' : p'.developmentGroups = _ := (iloc_eq_ok hd'.developedGroups).2
    rw [hpart, hpart', pick_rowFingerprints ha.ofTable.rectangular hd.developedFeatures,
      pick_rowFingerprints ha'.ofTable.rectangular hd'.developedFeatures]
    exact congrArg _ hfeatures
  have hfolds : p.cvSplits = p'.cvSplits := by
    have hsplit : sk.split p.taskType q.cvFolds q.seed p.developmentFeatures p.developmentTarget p.developmentGroups =
      .ok p.cvSplits := hd.folds
    have hsplit' : sk.split p'.taskType q.cvFolds q.seed p'.developmentFeatures p'.developmentTarget
      p'.developmentGroups = .ok p'.cvSplits := hd'.folds
    rw [← htype, ← hfeatures, ← htarget, ← hgroups, hsplit] at hsplit'
    exact Except.ok.inj hsplit'
  have hnumeric : p.numericColumns = p'.numericColumns := by
    rw [ha.numericColumns, ha'.numericColumns, hkept.2.1, hkept'.2.1, hfilters]
  have hcategorical : p.categoricalColumns = p'.categoricalColumns := by
    rw [ha.categoricalColumns, ha'.categoricalColumns, hkept.2.2, hkept'.2.2, hfilters]
  refine ⟨by rw [hrows, hrows', hpositions], ?_⟩
  simp only [PreparedTabularData.development, hnumeric, hcategorical, htype, ha.recorded, ha'.recorded, ha.seed, hseed,
    hfeatures, htarget, hfolds]

/-- Two runs that differ in the holdout alone select alike just if every column is
usable in the same role in both tables. -/
theorem select_alike_iff {sk : Splitters F} (hsk : sk.Positional) (lib : Learning F M) {hashes : Hashes F}
    {T T' : Table F} {q q' : Preparation F} {p p' : PreparedTabularData F}
    (h : DifferInHoldout sk hashes T T' q q' p p') : SelectAlike lib hashes p p' ↔ SameRoles T T' q := by
  constructor
  · exact fun hs => sameRoles_of_kept h hs.numericColumns hs.categoricalColumns
  · intro hroles
    obtain ⟨hrows, hdevelopment⟩ := development_congr hsk h hroles
    exact {
      rows := hrows
      numericColumns := congrArg Development.numericColumns hdevelopment
      categoricalColumns := congrArg Development.categoricalColumns hdevelopment
      selection := fun _ _ => by rw [hdevelopment] }

/-! ### Two tables -/

/-- The sample table with one more column of eleven integers. -/
def sampleWith (c : List ℤ) (h : c.length = 11) : Table ℚ where
  series := sampleTable.series ++ [{ name := "c", dtype := .integer, cells := c.map .int }]
  height := 11
  rectangular := by
    intro s hs
    rcases List.mem_append.mp hs with hs | hs
    · exact sampleTable.rectangular s hs
    · rw [List.mem_singleton.mp hs, List.length_map, h]
  named := by
    rw [List.map_append]
    exact (by decide : (["x", "y"] ++ ["c"]).Nodup)

/-- Rows 0 and 2 are held out of a sample with a third column. -/
theorem differInHoldout_sampleWith (cs cs' : List ℤ) (h : cs.length = 11) (h' : cs'.length = 11)
    (numeric numeric' : List String)
    (hprepared : ((prepareFrame splitters sampleHashes (sampleWith cs h) samplePreparation).toOption.bind fun p =>
      (prepareFrame splitters sampleHashes (sampleWith cs' h') samplePreparation).toOption.map fun p' =>
        (developmentRows sampleHashes p, rowFingerprints sampleHashes.row p.features,
          rowFingerprints sampleHashes.row p'.features, p.numericColumns, p'.numericColumns)) =
      some ([1, 3, 4, 5, 6, 7, 8, 9, 10], [0, 1, 2, 3, 4, 5, 6, 7, 8, 9, 3], [0, 1, 2, 3, 4, 5, 6, 7, 8, 9, 3],
        numeric, numeric'))
    (hagree : ∀ i ∈ [1, 3, 4, 5, 6, 7, 8, 9, 10], cs[i]? = cs'[i]?) :
    ∃ p p', DifferInHoldout splitters sampleHashes (sampleWith cs h) (sampleWith cs' h') samplePreparation
      samplePreparation p p' ∧ p.numericColumns = numeric ∧ p'.numericColumns = numeric' := by
  obtain ⟨p, hp, hrest⟩ := Option.bind_eq_some_iff.mp hprepared
  obtain ⟨p', hp', heq⟩ := Option.map_eq_some_iff.mp hrest
  obtain ⟨hrows, hgroups, hgroups', hnumeric, hnumeric'⟩ : _ ∧ _ ∧ _ ∧ _ ∧ _ := by
    simpa only [Prod.mk.injEq] using heq
  refine ⟨p, p', ?_, hnumeric, hnumeric'⟩
  exact {
    request := rfl
    accepted := except_toOption_eq_some hp
    accepted' := except_toOption_eq_some hp'
    columns := by simp [sampleWith]
    target := rfl
    grouping := by rw [hgroups, hgroups']; exact ⟨rfl, fun _ _ => Iff.rfl⟩
    agree := by
      intro s hs s' hs' hname i hi
      rw [hrows] at hi
      have hother : ∀ t ∈ sampleTable.series, t.name ≠ "c" := by decide
      rcases List.mem_append.mp hs with hs | hs <;> rcases List.mem_append.mp hs' with hs' | hs'
      · rw [sampleTable.eq_of_name hs hs' hname]
      · rw [List.mem_singleton.mp hs'] at hname
        exact absurd hname (hother s hs)
      · rw [List.mem_singleton.mp hs] at hname
        exact absurd hname.symm (hother s' hs')
      · rw [List.mem_singleton.mp hs, List.mem_singleton.mp hs', List.getElem?_map, List.getElem?_map, hagree i hi] }

/-- A column that varies in the held out rows alone is a feature of one run only. -/
theorem holdout_chooses_features :
    ∃ p p', DifferInHoldout splitters sampleHashes (sampleWith [1, 0, 0, 0, 0, 0, 0, 0, 0, 0, 0] rfl)
        (sampleWith [0, 0, 0, 0, 0, 0, 0, 0, 0, 0, 0] rfl) samplePreparation samplePreparation p p' ∧
      ¬ SelectAlike sampleLearning sampleHashes p p' := by
  obtain ⟨p, p', hd, hn, hn'⟩ := differInHoldout_sampleWith [1, 0, 0, 0, 0, 0, 0, 0, 0, 0, 0]
    [0, 0, 0, 0, 0, 0, 0, 0, 0, 0, 0] rfl rfl ["x", "c"] ["x"] (by decide +kernel) (by decide)
  refine ⟨p, p', hd, fun hs => ?_⟩
  have := hs.numericColumns
  rw [hn, hn'] at this
  exact absurd this (by decide)

theorem splitters_positional : splitters.Positional :=
  ⟨fun n testSize seed _ =>
    let order := permutation seed n
    .ok (order.drop (testSize * n).ceil.toNat, order.take (testSize * n).ceil.toNat), fun _ _ _ _ => rfl⟩

/-- A column that varies in the development rows is a feature of both. -/
theorem select_alike_iff_sampleWith :
    ∃ p p', DifferInHoldout splitters sampleHashes (sampleWith [5, 0, 1, 0, 1, 0, 1, 0, 1, 0, 0] rfl)
        (sampleWith [7, 0, 1, 0, 1, 0, 1, 0, 1, 0, 0] rfl) samplePreparation samplePreparation p p' ∧
      SelectAlike sampleLearning sampleHashes p p' := by
  obtain ⟨p, p', hd, -, -⟩ := differInHoldout_sampleWith [5, 0, 1, 0, 1, 0, 1, 0, 1, 0, 0]
    [7, 0, 1, 0, 1, 0, 1, 0, 1, 0, 0] rfl rfl ["x", "c"] ["x", "c"] (by decide +kernel) (by decide)
  have hroles : SameRoles (sampleWith [5, 0, 1, 0, 1, 0, 1, 0, 1, 0, 0] rfl)
      (sampleWith [7, 0, 1, 0, 1, 0, 1, 0, 1, 0, 0] rfl) samplePreparation := by
    unfold SameRoles
    decide +kernel
  exact ⟨p, p', hd, (select_alike_iff splitters_positional sampleLearning hd).mpr hroles⟩

end AutomlApi.Engine
