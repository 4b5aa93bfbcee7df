import AutomlApi.Backups.Restore

/-! What a call of `restore_backup` leaves when one of its operations fails: the state
directory as it was. Before the first move nothing of it is touched; from then on each
entry is where the handler looks for it. -/

namespace AutomlApi.Backups

open Act Restoring

/-- The handler finds every entry of `old` again. -/
structure Undoable (old : Entries) (s : Restoring) : Prop where
  moved : ∀ name ∈ s.movedOld, old.get name ≠ none ∧ ∃ kept, s.rollback = some kept ∧ kept.get name = old.get name
  fresh : ∀ name ∉ s.movedOld, name ∈ s.installed → old.get name = none
  still : ∀ name ∉ s.movedOld, name ∉ s.installed → s.entries.get name = old.get name

theorem get_foldl_erase (names : List String) (entries : Entries) (name : String) :
    (names.foldl Dict.erase entries).get name = if name ∈ names then none else entries.get name := by
  induction names generalizing entries with
  | nil => simp
  | cons n names ih =>
    rw [List.foldl_cons, ih, Dict.get_erase]
    by_cases hn : name = n <;> simp [hn]

theorem get_putBack (names : List String) (kept entries : Entries) (name : String) :
    (putBack names (kept, entries)).2.get name =
      if name ∈ names then (kept.get name).or (entries.get name) else entries.get name := by
  induction names generalizing kept entries with
  | nil => simp [putBack]
  | cons n names ih =>
    unfold putBack
    cases hkept : kept.get n with
    | none =>
      simp only
      rw [ih]
      by_cases hn : name = n
      · subst hn
        simp [hkept]
      · simp [hn]
    | some node =>
      simp only
      rw [ih, Dict.get_erase, Dict.get_set]
      by_cases hn : name = n
      · subst hn
        simp [hkept]
      · simp [hn]

theorem get_undo {old : Entries} {s : Restoring} (h : Undoable old s) (name : String) :
    s.undo.entries.get name = old.get name := by
  have hcleared : (s.installed.foldl Dict.erase s.entries).get name =
      if name ∈ s.installed then none else s.entries.get name := get_foldl_erase _ _ _
  by_cases hmoved : name ∈ s.movedOld
  · obtain ⟨hold, kept, hkept, hget⟩ := h.moved name hmoved
    obtain ⟨node, hnode⟩ := Option.ne_none_iff_exists'.mp hold
    simp only [undo, hkept]
    rw [get_putBack, if_pos hmoved, hget, hnode]
    rfl
  · have hclear : (s.installed.foldl Dict.erase s.entries).get name = old.get name := by
      rw [hcleared]
      by_cases hinstalled : name ∈ s.installed
      · rw [if_pos hinstalled, h.fresh name hmoved hinstalled]
      · rw [if_neg hinstalled, h.still name hmoved hinstalled]
    cases hrollback : s.rollback with
    | none => simpa only [undo, hrollback] using hclear
    | some kept =>
      simp only [undo, hrollback]
      rw [get_putBack, if_neg hmoved, hclear]

/-! ### Operations -/

/-- Where no operation is to fail, none has failed. -/
def Calmly (failing : Option ℕ) (I : Restoring → Prop) (s : Restoring) : Prop := (failing = none → s.failing = none) ∧ I s

/-- An operation has failed, and the handler can undo what was done. -/
def Failed (old : Entries) (failing : Option ℕ) (s : Restoring) : Prop := Undoable old s ∧ failing ≠ none

variable {old : Entries} {failing : Option ℕ} {I J : Restoring → Prop} {cut done : Restoring → Restoring}

theorem triple_attempt_of {E : Restoring → Prop} (hcut : failing ≠ none → ∀ s, I s → E (cut s))
    (hdone : ∀ s k, I s → J (done { s with failing := k })) (hfailing : ∀ s, (done s).failing = s.failing) :
    Triple (Calmly failing I) (attempt cut done) (fun _ => Calmly failing J) E := by
  rintro s ⟨hcalm, hs⟩
  unfold attempt
  cases hk : s.failing with
  | none =>
    refine ⟨fun _ => (hfailing s).trans hk, ?_⟩
    have := hdone s s.failing hs
    exact this
  | some k =>
    have hsome : failing ≠ none := fun hnone => by
      rw [hcalm hnone] at hk
      cases hk
    cases k with
    | zero => exact hcut hsome s hs
    | succ k => exact ⟨fun hnone => absurd hnone hsome, hdone s _ hs⟩

theorem triple_attempt (hcut : ∀ s, I s → Undoable old (cut s)) (hdone : ∀ s k, I s → J (done { s with failing := k }))
    (hfailing : ∀ s, (done s).failing = s.failing) :
    Triple (Calmly failing I) (attempt cut done) (fun _ => Calmly failing J) (Failed old failing) :=
  triple_attempt_of (fun hsome s hs => ⟨hcut s hs, hsome⟩) hdone hfailing

theorem triple_operation (hI : ∀ s, I s → Undoable old s) (hdone : ∀ s k, I s → J (done { s with failing := k }))
    (hfailing : ∀ s, (done s).failing = s.failing) :
    Triple (Calmly failing I) (operation done) (fun _ => Calmly failing J) (Failed old failing) :=
  triple_attempt hI hdone hfailing

/-- A check of the files that moves nothing. -/
theorem triple_stat (hI : ∀ s, I s → Undoable old s) (hk : ∀ s k, I s → I { s with failing := k }) :
    Triple (Calmly failing I) (operation id) (fun _ => Calmly failing I) (Failed old failing) :=
  triple_operation hI hk fun _ => rfl

/-! ### Copying -/

/-- Nothing has been moved yet; the staging directory is as `D` says. -/
structure Before (old : Entries) (D : Entries → Prop) (s : Restoring) : Prop where
  entries : s.entries = old
  rollback : s.rollback = none
  movedOld : s.movedOld = []
  installed : s.installed = []
  staging : ∃ d, s.staging = some d ∧ D d

variable {D D' : Entries → Prop}

theorem Before.undoable {s : Restoring} (h : Before old D s) : Undoable old s where
  moved name hname := by simp [h.movedOld] at hname
  fresh name _ hname := by simp [h.installed] at hname
  still name _ _ := by rw [h.entries]

theorem Before.calm (s : Restoring) (k : Option ℕ) (h : Before old D s) : Before old D { s with failing := k } :=
  ⟨h.entries, h.rollback, h.movedOld, h.installed, h.staging⟩

/-- Another content of the staging directory. -/
theorem Before.restage {f : Entries → Entries} {s : Restoring} (h : Before old D s) (k : Option ℕ) (hD : ∀ d, D d → D' (f d)) :
    Before old D' { s with staging := s.staging.map f, failing := k } := by
  obtain ⟨d, hd, hDd⟩ := h.staging
  refine ⟨h.entries, h.rollback, h.movedOld, h.installed, f d, ?_, hD d hDd⟩
  simp only [hd, Option.map_some]

theorem triple_put {name : String} {node : Node} (hD : ∀ d, D d → D' (d.set name node)) :
    Triple (Calmly failing (Before old D)) (operation (put name node)) (fun _ => Calmly failing (Before old D'))
      (Failed old failing) :=
  triple_operation (fun _ h => h.undoable) (fun _ _ h => h.restage _ hD) fun _ => rfl

/-- Two nodes with the same content. -/
def Node.Same : Node → Node → Prop
  | .file a, .file b => a = b
  | .directory a, .directory b => ∀ path, a.get path = b.get path
  | _, _ => False

/-- The node that a name of the backup stands for. -/
def Tree.item (t : Tree) (name : String) : Option Node :=
  match t.entries.get [name] with
  | some (.file bytes) => some (.file bytes)
  | some .folder => some (.directory (t.under name).entries)
  | _ => none

/-- The names of `done` are staged, the others are not there. -/
def Ready (backup : Tree) (done : List String) (d : Entries) : Prop :=
  (∀ name ∈ done, Option.Rel Node.Same (d.get name) (backup.item name)) ∧ ∀ name ∉ done, d.get name = none

/-- `name` is being copied, and `P` holds of what is below it. -/
def Partly (backup : Tree) (done : List String) (name : String) (P : Listing → Prop) (d : Entries) : Prop :=
  (∃ below, d.get name = some (.directory below) ∧ P below) ∧
    (∀ n ∈ done, n ≠ name → Option.Rel Node.Same (d.get n) (backup.item n)) ∧ ∀ n ∉ done, n ≠ name → d.get n = none

/-- The entries of `done` are copied, and nothing but entries of the source. -/
def Copied (source done : Listing) (below : Listing) : Prop :=
  (∀ path, below.get path = none ∨ below.get path = Dict.get source path) ∧ ∀ e ∈ done, below.get e.1 = some e.2

theorem Copied.set {source done below : Listing} {path : Path} {leaf : Leaf} (h : Copied source done below)
    (hleaf : Dict.get source path = some leaf) (hdone : ∀ e ∈ done, Dict.get source e.1 = some e.2) :
    Copied source (done ++ [(path, leaf)]) (below.set path leaf) := by
  refine ⟨fun p => ?_, fun e he => ?_⟩
  · rw [Dict.get_set]
    split
    next hp => exact .inr (by rw [hp, hleaf])
    next => exact h.1 p
  · rw [Dict.get_set]
    split
    next hp =>
      rcases List.mem_append.mp he with he | he
      · rw [← hleaf, ← hp, hdone e he]
      · rw [List.mem_singleton.mp he]
    next hp =>
      rcases List.mem_append.mp he with he | he
      · exact h.2 e he
      · exact absurd (congrArg Prod.fst (List.mem_singleton.mp he)) hp

theorem Copied.setDefault {source done below : Listing} {path : Path} {leaf : Leaf} (h : Copied source done below)
    (hleaf : Dict.get source path = some leaf) (hdone : ∀ e ∈ done, Dict.get source e.1 = some e.2) :
    Copied source (done ++ [(path, leaf)]) (below.setDefault path leaf) := by
  unfold Dict.setDefault
  split
  next hhas =>
    refine ⟨h.1, fun e he => ?_⟩
    rcases List.mem_append.mp he with he | he
    · exact h.2 e he
    · obtain rfl := List.mem_singleton.mp he
      rcases h.1 path with hnone | hget
      · simp [Dict.has, hnone] at hhas
      · exact hget.trans hleaf
  next => exact h.set hleaf hdone

theorem Copied.of_append {source done more below : Listing} (h : Copied source (done ++ more) below) : Copied source done below :=
  ⟨h.1, fun e he => h.2 e (List.mem_append_left _ he)⟩

theorem Copied.makeParents {source done below : Listing} (h : Copied source done below) (path : Path)
    (hdone : ∀ e ∈ done, Dict.get source e.1 = some e.2)
    (hparents : ∀ q ∈ path.inits, q ≠ [] → q ≠ path → Dict.get source q = some .folder) :
    Copied source done (makeParents path below) := by
  have hfolders : ∀ q ∈ path.dropLast.inits.filter fun q => q ≠ [], Dict.get source q = some .folder := by
    intro q hq
    obtain ⟨hq, hnil⟩ := List.mem_filter.mp hq
    have hlast : q <+: path.dropLast := (List.mem_inits _ _).mp hq
    have hnil : q ≠ [] := by simpa using hnil
    refine hparents q ((List.mem_inits _ _).mpr (hlast.trans (List.dropLast_prefix _))) hnil ?_
    rintro rfl
    have hlength := hlast.length_le
    have hpos := List.length_pos_iff.mpr hnil
    rw [List.length_dropLast] at hlength
    omega
  unfold Backups.makeParents
  generalize path.dropLast.inits.filter (fun q => q ≠ []) = folders at hfolders
  induction folders generalizing below with
  | nil => exact h
  | cons q folders ih =>
    exact ih (h.setDefault (hfolders q (by simp)) hdone).of_append fun q' hq' => hfolders q' (by simp [hq'])

theorem Copied.whole {source below : Listing} (h : Copied source source below) (path : Path) :
    below.get path = Dict.get source path := by
  rcases h.1 path with hnone | hget
  · cases hsource : Dict.get source path with
    | none => exact hnone
    | some leaf =>
      have := h.2 _ (Dict.mem_of_get hsource)
      exact this
  · exact hget

variable {backup : Tree} {staged : List String} {name : String} {P P' : Listing → Prop}

theorem Partly.below {f : Listing → Listing} {d : Entries} (h : Partly backup staged name P d) (hf : ∀ b, P b → P' (f b)) :
    Partly backup staged name P' (match d.get name with
      | some (.directory below) => d.set name (.directory (f below))
      | _ => d) := by
  obtain ⟨⟨below, hget, hP⟩, hdone, hrest⟩ := h
  simp only [hget]
  refine ⟨⟨f below, by rw [Dict.get_set, if_pos rfl], hf below hP⟩, fun n hn hne => ?_, fun n hn hne => ?_⟩
  · rw [Dict.get_set, if_neg hne]
    exact hdone n hn hne
  · rw [Dict.get_set, if_neg hne]
    exact hrest n hn hne

theorem triple_putBelow {f : Listing → Listing} {cut : Restoring → Restoring} (hf : ∀ b, P b → P' (f b))
    (hcut : ∀ s, Before old (Partly backup staged name P) s → Undoable old (cut s)) :
    Triple (Calmly failing (Before old (Partly backup staged name P))) (attempt cut (putBelow name f))
      (fun _ => Calmly failing (Before old (Partly backup staged name P'))) (Failed old failing) :=
  triple_attempt hcut (fun _ _ h => h.restage _ fun _ hd => hd.below hf) fun _ => rfl

/-- One entry of a directory is copied. -/
theorem triple_copyEntry {source done : Listing} {e : Path × Leaf} (hlink : e.2 ≠ .link)
    (hget : Dict.get source e.1 = some e.2) (hdone : ∀ e ∈ done, Dict.get source e.1 = some e.2)
    (hparents : ∀ q ∈ e.1.inits, q ≠ [] → q ≠ e.1 → Dict.get source q = some .folder) :
    Triple (Calmly failing (Before old (Partly backup staged name (Copied source done)))) (copyEntry name e)
      (fun _ => Calmly failing (Before old (Partly backup staged name (Copied source (done ++ [e]))))) (Failed old failing) := by
  obtain ⟨path, leaf⟩ := e
  cases leaf with
  | link => exact absurd rfl hlink
  | folder =>
    refine triple_bind (triple_putBelow (fun b hb => hb.setDefault hget hdone) fun _ h => h.undoable) fun _ => ?_
    exact triple_stat (fun _ h => h.undoable) Before.calm
  | file bytes =>
    refine triple_bind (triple_putBelow (fun b hb => hb.makeParents path hdone hparents) fun _ h => h.undoable) fun _ => ?_
    refine triple_bind (triple_putBelow (fun b hb => hb.set hget hdone) fun s h => ?_) fun _ => ?_
    · have hu := h.undoable
      exact ⟨hu.moved, hu.fresh, hu.still⟩
    · exact triple_stat (fun _ h => h.undoable) Before.calm

/-- A whole directory is copied. -/
theorem triple_copyTree {source : Tree} (hlink : ∀ e ∈ source.entries, e.2 ≠ .link)
    (hitem : backup.item name = some (.directory source.entries)) :
    Triple (Calmly failing (Before old (Ready backup staged))) (copyTree name source.entries)
      (fun _ => Calmly failing (Before old (Ready backup (staged ++ [name])))) (Failed old failing) := by
  have hget : ∀ e ∈ source.entries, Dict.get source.entries e.1 = some e.2 := fun e he => Dict.get_of_mem source.distinct he
  have hloop := triple_each (f := copyEntry name) (l := source.entries) (E := Failed old failing)
    (I := fun done => Calmly failing (Before old (Partly backup staged name (Copied source.entries done))))
    (fun done e rest hall => triple_copyEntry (hlink e (by simp [hall])) (hget e (by simp [hall]))
      (fun e' he' => hget e' (by simp [hall, he'])) (source.rooted e (by simp [hall]))) [] source.entries rfl
  refine triple_bind (triple_put ?_) fun _ => triple_bind (triple_stat (fun _ h => h.undoable) Before.calm) fun _ =>
    hloop.weaken (fun _ h => h) ?_ fun _ h => h
  · rintro d ⟨hdone, hrest⟩
    refine ⟨⟨[], by rw [Dict.get_set, if_pos rfl], fun _ => .inl rfl, by simp⟩, fun n hn hne => ?_, fun n hn hne => ?_⟩
    · rw [Dict.get_set, if_neg hne]
      exact hdone n hn
    · rw [Dict.get_set, if_neg hne]
      exact hrest n hn
  · rintro _ s ⟨hcalm, hs⟩
    obtain ⟨d, hd, ⟨below, hbelow, hcopied⟩, hdone, hrest⟩ := hs.staging
    refine ⟨hcalm, hs.entries, hs.rollback, hs.movedOld, hs.installed, d, hd, fun n hn => ?_, fun n hn => ?_⟩
    · by_cases hne : n = name
      · rw [hne, hbelow, hitem]
        exact .some hcopied.whole
      · refine hdone n ?_ hne
        simpa [hne] using hn
    · exact hrest n (by simp_all) (by simp_all)

/-- A managed path is staged. -/
theorem triple_stage (hlink : ∀ e ∈ backup.entries, e.2 ≠ .link) (hname : name ∉ staged) :
    Triple (Calmly failing (Before old (Ready backup staged))) (stage backup name)
      (fun _ => Calmly failing (Before old (Ready backup (staged ++ [name])))) (Failed old failing) := by
  refine triple_bind (triple_stat (fun _ h => h.undoable) Before.calm) fun _ => ?_
  have hadd : ∀ d, Ready backup staged d → ∀ d', (∀ n ≠ name, d'.get n = d.get n) →
      Option.Rel Node.Same (d'.get name) (backup.item name) → Ready backup (staged ++ [name]) d' := by
    rintro d ⟨hdone, hrest⟩ d' hother hsame
    refine ⟨fun n hn => ?_, fun n hn => ?_⟩
    · by_cases hne : n = name
      · rwa [hne]
      · rw [hother n hne]
        exact hdone n (by simpa [hne] using hn)
    · have hne : n ≠ name := by rintro rfl; simp at hn
      rw [hother n hne]
      exact hrest n fun h => hn (by simp [h])
  cases hget : backup.entries.get [name] with
  | none =>
    have hitem : backup.item name = none := by unfold Tree.item; rw [hget]
    rintro s ⟨hcalm, hs⟩
    obtain ⟨d, hd, hready⟩ := hs.staging
    refine ⟨hcalm, hs.entries, hs.rollback, hs.movedOld, hs.installed, d, hd, hadd d hready d (fun _ _ => rfl) ?_⟩
    rw [hitem, hready.2 name hname]
    exact .none
  | some leaf =>
    cases leaf with
    | link => exact absurd rfl (hlink _ (Dict.mem_of_get hget))
    | folder =>
      have hitem : backup.item name = some (.directory (backup.under name).entries) := by unfold Tree.item; rw [hget]
      refine triple_copyTree (fun e he => ?_) hitem
      obtain ⟨e', he', hbelow⟩ := List.mem_filterMap.mp he
      obtain ⟨-, rfl⟩ := belowName_eq_some.mp hbelow
      exact show e.2 ≠ .link from hlink (name :: e.1, e.2) he'
    | file bytes =>
      have hitem : backup.item name = some (.file bytes) := by unfold Tree.item; rw [hget]
      refine triple_bind (triple_attempt (fun s h => ?_) (fun s k h => h.restage k
        fun d hd => hadd d hd _ (fun n hne => ?_) ?_) fun _ => rfl) fun _ => ?_
      · have hu := h.undoable
        exact ⟨hu.moved, hu.fresh, hu.still⟩
      · rw [Dict.get_set, if_neg hne]
      · rw [Dict.get_set, if_pos rfl, hitem]
        exact .some rfl
      · exact triple_stat (fun _ h => h.undoable) Before.calm

end AutomlApi.Backups
