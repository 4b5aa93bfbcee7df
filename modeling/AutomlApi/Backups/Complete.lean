import AutomlApi.Backups.Creating

/-! A backup that is returned is referentially complete, if it is still there. Where the
two readings of the database agree, each readable record has been readable all the time
between them, so that its bytes were there when the copy came to them. The one thing that
may go wrong is the retention, which keeps the greatest names. -/

namespace AutomlApi.Backups

open Runs

/-! ### Paths -/

theorem split_asPosix {path : Path} (h : Ordinary path) :
    ((asPosix path).toList.splitOn '/').map String.ofList = path :=
  splitOn_asPosix h.1 fun part hpart => (h.2 part hpart).2

/-- The name of an ordinary file does not lead out of the directory. -/
theorem prefix_resolve (root : Path) {path : Path} (h : Ordinary path) : root <+: resolve root (asPosix path) := by
  have hparts : ∀ part ∈ path, part ≠ ".." := fun part hpart => (h.2 part hpart).1
  unfold resolve
  rw [split_asPosix h]
  clear h
  induction path generalizing root with
  | nil => exact List.prefix_rfl
  | cons part path ih =>
    rw [List.foldl_cons, if_neg (hparts part (by simp))]
    have hrest : ∀ part ∈ path, part ≠ ".." := fun part hpart => hparts part (by simp [hpart])
    split
    · exact ih root hrest
    · exact (List.prefix_append root [part]).trans (ih (root ++ [part]) hrest)

theorem Ordinary.objects {path : Path} (h : Ordinary path) : Ordinary ("objects" :: path) := by
  refine ⟨by simp, fun part hpart => ?_⟩
  rcases List.mem_cons.mp hpart with rfl | hpart
  · decide
  · exact h.2 part hpart

theorem Ordinary.inits {path q : Path} (h : Ordinary path) (hq : q <+: path) (hnil : q ≠ []) : Ordinary q :=
  ⟨hnil, fun part hpart => h.2 part (hq.subset hpart)⟩

/-! ### Verification does not depend on the place -/

theorem expectedFiles_keys {root : Path} {files : List (Option FileRecord)} {expected expected' : Dict String (ℤ × String)}
    (h : expectedFiles root files expected = .ok expected') :
    (∀ k ∈ expected.map Prod.fst, k ∈ expected'.map Prod.fst) ∧
      ∀ item ∈ files, ∃ f relative, item = some f ∧ f.path = some relative ∧ relative ∈ expected'.map Prod.fst := by
  induction files generalizing expected with
  | nil =>
    cases h
    exact ⟨fun k hk => hk, by simp⟩
  | cons item files ih =>
    cases item with
    | none => cases h
    | some f =>
      unfold expectedFiles at h
      split at h
      next => cases h
      next relative hrelative =>
        split at h
        next => cases h
        next =>
          split at h
          next => cases h
          next =>
            obtain ⟨hkeys, hitems⟩ := ih h
            refine ⟨fun k hk => hkeys k ?_, fun item hitem => ?_⟩
            · rw [← Dict.isSome_get] at hk ⊢
              rw [Dict.get_set]
              split <;> simp_all
            · rcases List.mem_cons.mp hitem with rfl | hitem
              · refine ⟨f, relative, rfl, hrelative, hkeys _ ?_⟩
                rw [← Dict.isSome_get, Dict.get_set, if_pos rfl]
                rfl
              · exact hitems item hitem

/-- The check does not depend on where the backup stands, if its paths do not lead out. -/
theorem expectedFiles_move {root root' : Path} {files : List (Option FileRecord)} {expected expected' : Dict String (ℤ × String)}
    (h : expectedFiles root files expected = .ok expected')
    (hpaths : ∀ relative ∈ expected'.map Prod.fst, root' <+: resolve root' relative) :
    expectedFiles root' files expected = .ok expected' := by
  induction files generalizing expected with
  | nil => exact h
  | cons item files ih =>
    have hitem := (expectedFiles_keys h).2 item (by simp)
    obtain ⟨f, relative, rfl, hrelative, hmem⟩ := hitem
    unfold expectedFiles at h ⊢
    simp only [hrelative] at h ⊢
    split at h
    next => cases h
    next hsafe =>
      rw [if_neg hsafe, if_neg (not_not_intro (hpaths relative hmem))]
      split at h
      next => cases h
      next => exact ih h

theorem verifyBackup_move {lib : Libraries} {root root' : Path} {entries : Listing} {manifest : Manifest}
    (h : verifyBackup lib root entries = .ok manifest) (hentries : ∀ e ∈ entries, Ordinary e.1) :
    verifyBackup lib root' entries = .ok manifest := by
  unfold verifyBackup at h ⊢
  split at h
  next text htext =>
    split at h
    next => cases h
    next read hread =>
      split at h
      next => cases h
      next files hfiles =>
        obtain ⟨hschema, h⟩ := refuse_bind_eq_ok h
        obtain ⟨expected, hexpected, h⟩ := except_bind_eq_ok h
        obtain ⟨actual, hactual, h⟩ := except_bind_eq_ok h
        obtain ⟨hnames, hrest⟩ := refuse_bind_eq_ok h
        have hmove : expectedFiles root' files [] = .ok expected := by
          refine expectedFiles_move hexpected fun relative hrelative => ?_
          obtain ⟨f, hf, rfl⟩ := List.mem_map.mp ((not_not.mp hnames).2 relative hrelative)
          obtain ⟨leaf, hmem⟩ := mem_of_regularFiles hactual hf
          exact prefix_resolve root' (hentries _ hmem)
        rw [refuse, if_neg hschema, hmove, hactual]
        show (refuse _ _ >>= _) = _
        rw [refuse, if_neg hnames]
        exact hrest
  next => cases h

/-! ### Copying -/

def Named (entries : Listing) : Prop := ∀ e ∈ entries, Ordinary e.1

theorem Named.set {entries : Listing} (h : Named entries) {path : Path} (hpath : Ordinary path) (leaf : Leaf) :
    Named (Dict.set entries path leaf) := by
  intro e he
  rcases Dict.mem_set he with rfl | he
  · exact hpath
  · exact h e he

theorem Named.setDefault {entries : Listing} (h : Named entries) {path : Path} (hpath : Ordinary path) (leaf : Leaf) :
    Named (Dict.setDefault entries path leaf) := by
  unfold Dict.setDefault
  split
  · exact h
  · exact h.set hpath leaf

theorem Named.makeParents {entries : Listing} (h : Named entries) {path : Path} (hpath : Ordinary path) :
    Named (makeParents path entries) := by
  have hfolders : ∀ q ∈ path.dropLast.inits.filter fun q => q ≠ [], Ordinary q := by
    intro q hq
    obtain ⟨hq, hnil⟩ := List.mem_filter.mp hq
    exact hpath.inits (((List.mem_inits _ _).mp hq).trans (List.dropLast_prefix _)) (by simpa using hnil)
  unfold Backups.makeParents
  generalize path.dropLast.inits.filter (fun q => q ≠ []) = folders at hfolders
  induction folders generalizing entries with
  | nil => exact h
  | cons q folders ih => exact ih (h.setDefault (hfolders q (by simp)) _) fun q' hq' => hfolders q' (by simp [hq'])

theorem get_makeParents {entries : Listing} {p path : Path} {leaf : Leaf} (h : Dict.get entries p = some leaf) :
    Dict.get (makeParents path entries) p = some leaf := by
  unfold makeParents
  generalize path.dropLast.inits.filter (fun q => q ≠ []) = folders
  induction folders generalizing entries with
  | nil => exact h
  | cons q folders ih => exact ih (Dict.get_setDefault_of_get h q .folder)

variable {δ : Type} {set : Setting δ} {objects staging staging' : Listing} {path : Path}

theorem named_copyPath (h : copyPath objects staging path = some staging') (hobjects : Named objects) (hstaging : Named staging) :
    Named staging' := by
  unfold copyPath at h
  have hpath : ∀ leaf, Dict.get objects path = some leaf → Ordinary ("objects" :: path) := fun leaf hget =>
    (hobjects _ (Dict.mem_of_get hget)).objects
  split at h
  next => cases h; exact hstaging
  next hget => cases h; exact hstaging.setDefault (hpath _ hget) _
  next hget => cases h; exact (hstaging.makeParents (hpath _ hget)).set (hpath _ hget) _
  next => cases h

/-- A record that is copied stays copied, as long as its bytes are there. -/
theorem Record.Copied.copyPath {r : Record} (hr : r.Copied set staging) (h : copyPath objects staging path = some staging')
    (hstored : path = r.blobKey → r.Stored set.lib.sha256 (Dict.get objects r.blobKey)) : r.Copied set staging' := by
  unfold Record.Copied at hr ⊢
  obtain ⟨bytes, hbytes⟩ := hr.isSome
  rw [hbytes] at hr
  unfold Backups.copyPath at h
  split at h
  next =>
    cases h
    rwa [hbytes]
  next =>
    cases h
    rwa [Dict.get_setDefault_of_get hbytes]
  next hget =>
    cases h
    rw [Dict.get_set]
    split
    next heq =>
      obtain rfl : r.blobKey = path := List.cons_injective heq
      rw [← hget]
      exact hstored rfl
    next => rwa [get_makeParents hbytes]
  next => cases h

/-- The bytes of a record are copied when its path has its turn. -/
theorem copied_copyPath {r : Record} (h : copyPath objects staging r.blobKey = some staging')
    (hstored : r.Stored set.lib.sha256 (Dict.get objects r.blobKey)) : r.Copied set staging' := by
  obtain ⟨bytes, hbytes⟩ := hstored.isSome
  unfold copyPath at h
  simp only [hbytes] at h
  cases h
  unfold Record.Copied
  rw [Dict.get_set, if_pos rfl, ← hbytes]
  exact hstored

/-! ### What each stage knows -/

/-- What is known of the records that were readable in `a` and still are. -/
def Covered (a d : Database) (P : Record → Prop) : Prop :=
  ∀ id r, a.records.get id = some r → r.standing = .readable → d.records.get id = some r → P r

/-- A record that is readable in both contents has been readable all the time between. -/
theorem Covered.act {a d d' : Database} {P P' : Record → Prop} (h : Covered a d P) (hsince : Progress a d)
    (hnext : Progress d d') (himp : ∀ id r, d.records.get id = some r → r.standing = .readable → P r → P' r) :
    Covered a d' P' := by
  intro id r hr hs hd'
  rcases (hsince id r hr).1 hs with hd | ⟨r₁, hd, hrevoked⟩
  · exact himp id r hd hs (h id r hr hs hd)
  · obtain ⟨r₂, hd₂, hrevoked⟩ := (hnext id r₁ hd).2 hrevoked
    obtain rfl : r = r₂ := by simpa [hd'] using hd₂
    rw [hs] at hrevoked
    cases hrevoked

variable (set)

/-- What holds in a stage: `root` is what stood below the backup directory before. -/
def Stage.Holds (root : BackupRoot) (d : Database) (backups : BackupRoot) : Stage → Prop
  | .started => backups = root
  | .attempting _ staging => backups = root ∧ Named staging
  | .snapped _ staging before => (backups = root ∧ Named staging) ∧ Progress (set.read before) d
  | .listing _ staging before since =>
    (backups = root ∧ Named staging) ∧ Progress (set.read before) d ∧ Covered (set.read before) d fun r => r.blobKey ∈ since
  | .copying _ staging before todo =>
    (backups = root ∧ Named staging) ∧ Progress (set.read before) d ∧
      Covered (set.read before) d fun r => r.blobKey ∈ todo ∨ r.Copied set staging
  | .comparing _ staging before database =>
    (backups = root ∧ Named staging) ∧ Dict.get staging databaseName = some (.file database) ∧
      (set.read before = set.read database →
        ∀ id r, (set.read database).records.get id = some r → r.standing = .readable → r.Copied set staging)
  | .settled staging | .collected staging | .written staging => (backups = root ∧ Named staging) ∧ Whole set staging
  | .verified staging =>
    (backups = root ∧ Named staging) ∧ Whole set staging ∧
      ∃ manifest, verifyBackup set.lib (set.root ++ [set.stagingName]) staging = .ok manifest
  | .published => ∃ entries, backups = (root.erase set.name).set set.name entries ∧ Whole set entries ∧
      ∃ manifest, verifyBackup set.lib (set.root ++ [set.name]) entries = .ok manifest
  | .returned => ∃ entries, backups = pruneBackups set.retentionCount ((root.erase set.name).set set.name entries) ∧
      Whole set entries ∧ ∃ manifest, verifyBackup set.lib (set.root ++ [set.name]) entries = .ok manifest
  | .raised => True

variable {set} {root : BackupRoot}

/-- What the service does leaves every stage in what it knows. -/
theorem holds_act {s s' : Service} {a : Action} {backups : BackupRoot} {stage : Stage} (hact : s.act set.lib.sha256 a = some s')
    (h : stage.Holds set root s.database backups) :
    (stage.notice a).Holds set root s'.database backups := by
  have hnext := progress_act hact
  have hkeep : stage.Holds set root s'.database backups := by
    cases stage with
    | snapped attempt staging before => exact ⟨h.1, h.2.trans hnext⟩
    | listing attempt staging before since =>
      exact ⟨h.1, h.2.1.trans hnext, h.2.2.act h.2.1 hnext fun _ _ _ _ hmem => hmem⟩
    | copying attempt staging before todo =>
      exact ⟨h.1, h.2.1.trans hnext, h.2.2.act h.2.1 hnext fun _ _ _ _ hmem => hmem⟩
    | _ => exact h
  cases a with
  | remove path =>
    cases stage with
    | listing attempt staging before since =>
      obtain ⟨hfree, -⟩ := Option.ite_none_right_eq_some.mp hact
      refine ⟨h.1, h.2.1.trans hnext, h.2.2.act h.2.1 hnext fun id r hr hs hmem => ?_⟩
      exact List.mem_filter.mpr ⟨hmem, by simpa using hfree _ (Dict.mem_of_get hr) hs⟩
    | _ => exact hkeep
  | _ =>
    cases stage with
    | _ => exact hkeep

theorem Whole.of_get {entries entries' : Listing} (h : Whole set entries)
    (hget : ∀ path leaf, path = databaseName ∨ path.head? = some "objects" → Dict.get entries path = some leaf →
      Dict.get entries' path = some leaf) : Whole set entries' := by
  obtain ⟨database, hdatabase, hrecords⟩ := h
  refine ⟨database, hget _ _ (.inl rfl) hdatabase, fun id r hr hs => ?_⟩
  have hcopied := hrecords id r hr hs
  unfold Record.Copied at hcopied ⊢
  obtain ⟨bytes, hbytes⟩ := hcopied.isSome
  rwa [hget _ _ (.inr rfl) hbytes, ← hbytes]

/-- A file that is neither the database nor an object. -/
theorem Whole.beside {entries : Listing} (h : Whole set entries) {path : Path} (hname : path ≠ databaseName)
    (hhead : path.head? ≠ some "objects") (leaf : Leaf) : Whole set (Dict.set entries path leaf) :=
  h.of_get fun p l hp hl => by
    rw [Dict.get_set, if_neg]
    · exact hl
    · rintro rfl
      exact hp.elim hname hhead

theorem ordinary_name {name : String} (h : name ≠ ".." ∧ '/' ∉ name.toList) : Ordinary [name] :=
  ⟨by simp, fun part hpart => by rwa [List.mem_singleton.mp hpart]⟩

/-- The digest tells the two snapshots apart that are compared, if they differ. -/
def Stage.Told (set : Setting δ) : Stage → Prop
  | .comparing _ _ before database =>
    set.contentHash (set.read before) = set.contentHash (set.read database) → set.read before = set.read database
  | _ => True

/-- The condition on a step: a comparison is not deceived by its digest. -/
def Told (set : Setting δ) (s : System) : Label → Prop
  | .backup .compare => s.stage.Told set
  | _ => True

/-- A move of the call takes what is known along. -/
theorem holds_move [DecidableEq δ] {service : Service} (hsound : service.Sound set.lib.sha256)
    {backups backups' : BackupRoot} {stage stage' : Stage} {m : Move} (htold : m = .compare → stage.Told set)
    (hmove : stage.move set service backups m = some (stage', backups')) (h : stage.Holds set root service.database backups) :
    stage'.Holds set root service.database backups' := by
  unfold Stage.move at hmove
  split at hmove
  next =>
    cases hmove
    split
    · trivial
    · exact ⟨h, fun e he => by cases he⟩
  next attempt staging bytes =>
    obtain ⟨hread, hmove⟩ := Option.ite_none_right_eq_some.mp hmove
    cases hmove
    exact ⟨⟨h.1, h.2.set (ordinary_name (by decide)) _⟩, hread ▸ Progress.refl _⟩
  next attempt staging before =>
    obtain ⟨hempty, hmove⟩ := Option.ite_none_right_eq_some.mp hmove
    cases hmove
    refine ⟨h.1, h.2, fun id r _ hs hr => ?_⟩
    obtain ⟨bytes, hbytes⟩ := (hsound.visible id r hr hs).isSome
    rw [hempty] at hbytes
    cases hbytes
  next attempt staging before =>
    cases hmove
    refine ⟨⟨h.1.1, h.1.2.set (ordinary_name (by decide)) _⟩, h.2, fun id r _ hs hr => ?_⟩
    obtain ⟨bytes, hbytes⟩ := (hsound.visible id r hr hs).isSome
    exact Dict.isSome_get.mp (by rw [hbytes]; rfl)
  next attempt staging before since paths =>
    obtain ⟨hpaths, hmove⟩ := Option.ite_none_right_eq_some.mp hmove
    cases hmove
    exact ⟨h.1, h.2.1, fun id r hr hs hd => .inl (hpaths _ (h.2.2 id r hr hs hd))⟩
  next attempt staging before path todo =>
    split at hmove
    next staging' hcopy =>
      cases hmove
      refine ⟨⟨h.1.1, named_copyPath hcopy hsound.named h.1.2⟩, h.2.1, fun id r hr hs hd => ?_⟩
      have hstored := hsound.visible id r hd hs
      rcases h.2.2 id r hr hs hd with hmem | hcopied
      · rcases List.mem_cons.mp hmem with rfl | hmem
        · exact .inr (copied_copyPath hcopy hstored)
        · exact .inl hmem
      · exact .inr (hcopied.copyPath hcopy fun _ => hstored)
    next => cases hmove; trivial
  next attempt staging before bytes =>
    obtain ⟨hread, hmove⟩ := Option.ite_none_right_eq_some.mp hmove
    cases hmove
    refine ⟨⟨h.1.1, h.1.2.set (ordinary_name (by decide)) _⟩, by rw [Dict.get_set, if_pos rfl], fun heq id r hr hs => ?_⟩
    have hcopied := (h.2.2 id r (heq ▸ hr) hs (hread ▸ hr)).resolve_left (by simp)
    unfold Record.Copied at hcopied ⊢
    rwa [Dict.get_set, if_neg (by simp [databaseName])]
  next attempt staging before database =>
    split at hmove
    next hhash =>
      cases hmove
      refine ⟨⟨h.1.1, fun e he => h.1.2 e (List.mem_of_mem_filter he)⟩, database, ?_, fun id r hr hs => ?_⟩
      · rw [Dict.get_erase, if_neg (by decide)]
        exact h.2.1
      · have hcopied := h.2.2 (htold rfl hhash) id r hr hs
        unfold Record.Copied at hcopied ⊢
        rwa [Dict.get_erase, if_neg (by simp [beforeName])]
    next =>
      split at hmove
      next => cases hmove; trivial
      next =>
        cases hmove
        refine ⟨h.1.1, fun e he => h.1.2 e ?_⟩
        exact List.mem_of_mem_filter (List.mem_of_mem_filter (List.mem_of_mem_filter he))
  next staging =>
    split at hmove
    next bytes _ =>
      cases hmove
      exact ⟨⟨h.1.1, h.1.2.set (ordinary_name (by decide)) _⟩, h.2.beside (by decide) (by decide) _⟩
    next => cases hmove; exact h
  next staging createdAt =>
    split at hmove
    next files _ =>
      cases hmove
      exact ⟨⟨h.1.1, h.1.2.set (ordinary_name (by decide)) _⟩, h.2.beside (by decide) (by decide) _⟩
    next => cases hmove; trivial
  next staging =>
    split at hmove
    next manifest hverify => cases hmove; exact ⟨h.1, h.2, manifest, hverify⟩
    next => cases hmove; trivial
  next staging =>
    split at hmove
    next placed hplaced =>
      cases hmove
      obtain ⟨⟨rfl, hnamed⟩, hwhole, manifest, hverify⟩ := h
      obtain ⟨-, rfl⟩ := publish_eq_some.mp hplaced
      exact ⟨staging, rfl, hwhole, manifest, verifyBackup_move hverify hnamed⟩
    next => cases hmove; trivial
  next =>
    cases hmove
    obtain ⟨entries, rfl, hrest⟩ := h
    exact ⟨entries, rfl, hrest⟩
  next => cases hmove
  next => cases hmove
  next => cases hmove; trivial
  next => cases hmove

/-- Sound files, and what the stage knows. -/
def System.Inv (set : Setting δ) (root : BackupRoot) (s : System) : Prop :=
  s.service.Sound set.lib.sha256 ∧ s.stage.Holds set root s.service.database s.backups

theorem inv_step [DecidableEq δ] {s s' : System} {l : Label} (h : s.Inv set root) (htold : Told set s l)
    (hstep : s.step set l = some s') : s'.Inv set root := by
  unfold System.step at hstep
  split at hstep
  next a =>
    split at hstep
    next service hact =>
      cases hstep
      exact ⟨sound_act hact h.1, holds_act hact h.2⟩
    next => cases hstep
  next m =>
    split at hstep
    next stage backups hmove =>
      cases hstep
      refine ⟨h.1, holds_move h.1 ?_ hmove h.2⟩
      rintro rfl
      exact htold
    next => cases hstep

/-! ### Retention -/

/-- What stays of a decreasing list when its first items are dropped. -/
theorem mem_drop_iff {l : List String} (h : l.Pairwise (· > ·)) {x : String} (hx : x ∈ l) (n : ℕ) :
    x ∈ l.drop n ↔ n ≤ (l.filter fun y => x < y).length := by
  obtain ⟨front, back, rfl⟩ := List.append_of_mem hx
  obtain ⟨-, hback, hfront⟩ := List.pairwise_append.mp h
  have hlt : ∀ y ∈ back, y < x := (List.pairwise_cons.mp hback).1
  have hgt : ∀ y ∈ front, x < y := fun y hy => hfront y hy x (by simp)
  have hfilter : (front ++ x :: back).filter (fun y => x < y) = front := by
    rw [List.filter_append, List.filter_cons_of_neg (by simp)]
    rw [List.filter_eq_self.mpr (by simpa using hgt), List.filter_eq_nil_iff.mpr (by simpa using fun y hy => String.lt_asymm (hlt y hy)),
      List.append_nil]
  rw [hfilter, List.drop_append]
  constructor
  · intro hmem
    by_contra hn
    have hpos : 0 < n - front.length := by omega
    obtain ⟨k, hk⟩ := Nat.exists_eq_succ_of_ne_zero hpos.ne'
    rw [List.drop_eq_nil_of_le (by omega), hk, List.nil_append, List.drop_succ_cons] at hmem
    exact String.lt_irrefl x (hlt x (List.mem_of_mem_drop hmem))
  · intro hn
    rw [show n - front.length = 0 by omega]
    simp

/-- The other backups whose names come after the name. -/
def laterBackups (root : BackupRoot) (name : String) : List String :=
  (root.map Prod.fst).filter fun n => isBackup n ∧ name < n

theorem laterBackups_erase (root : BackupRoot) (name : String) : laterBackups (root.erase name) name = laterBackups root name := by
  unfold laterBackups
  induction root with
  | nil => rfl
  | cons p root ih =>
    unfold Dict.erase at ih ⊢
    by_cases hp : p.1 = name
    · subst hp
      rw [List.filter_cons_of_neg (by simp), List.map_cons, List.filter_cons_of_neg (by simp [String.lt_irrefl])]
      exact ih
    · rw [List.filter_cons_of_pos (by simpa using hp), List.map_cons, List.map_cons, List.filter_cons, List.filter_cons, ih]

/-- The retention removes the backup that has just been published. -/
theorem expired_iff {name : String} {entries : Listing} (hroot : (root.map Prod.fst).Nodup) (hfresh : root.get name = none)
    (hname : isBackup name = true) (n : ℕ) :
    name ∈ (backupDirectories (root.set name entries)).drop n ↔ n ≤ (laterBackups root name).length := by
  have hnot : name ∉ root.map Prod.fst := fun hmem => by
    rw [← Dict.isSome_get, hfresh] at hmem
    cases hmem
  have hkeys : ((root.set name entries).map Prod.fst).filter (fun n => isBackup n) =
      (root.map Prod.fst).filter (fun n => isBackup n) ++ [name] := by
    rw [Dict.set_of_fresh hnot, List.map_append, List.filter_append]
    simp [hname]
  have hperm := List.perm_insertionSort (fun a b : String => b ≤ a) ((root.map Prod.fst).filter (fun n => isBackup n) ++ [name])
  have hnodup : ((root.map Prod.fst).filter (fun n => isBackup n) ++ [name]).Nodup := by
    refine List.nodup_append.mpr ⟨hroot.filter _, List.nodup_singleton _, fun a ha b hb => ?_⟩
    rw [List.mem_singleton.mp hb]
    rintro rfl
    exact hnot (List.mem_of_mem_filter ha)
  have hsorted : (backupDirectories (root.set name entries)).Pairwise (· > ·) := by
    unfold backupDirectories
    rw [hkeys]
    refine ((List.pairwise_insertionSort (fun a b : String => b ≤ a) _).and (hperm.nodup_iff.mpr hnodup)).imp ?_
    rintro a b ⟨hle, hne⟩
    exact String.not_le.mp fun hge => hne (String.le_antisymm hge hle)
  have hmem : name ∈ backupDirectories (root.set name entries) := by
    unfold backupDirectories
    rw [hkeys]
    exact hperm.mem_iff.mpr (by simp)
  rw [mem_drop_iff hsorted hmem]
  have hlength : ((backupDirectories (root.set name entries)).filter fun y => name < y).length = (laterBackups root name).length := by
    unfold backupDirectories laterBackups
    have hself : [name].filter (fun y => decide (name < y)) = [] :=
      List.filter_cons_of_neg (by rw [decide_eq_true_eq]; exact String.lt_irrefl name)
    rw [hkeys, (hperm.filter _).length_eq, List.filter_append, List.filter_filter, hself, List.append_nil]
    simp only [Bool.decide_and, Bool.decide_eq_true, Bool.and_comm]
  rw [hlength]

/-! ### The result -/

/-- Before the call: the files of the service are sound, and no two directories of the
backup root have one name. -/
structure System.Start (set : Setting δ) (s : System) : Prop where
  stage : s.stage = .started
  sound : s.service.Sound set.lib.sha256
  distinct : (s.backups.map Prod.fst).Nodup

/-- A backup that is returned is complete exactly when fewer backups have later names than
are retained. -/
theorem complete_iff [DecidableEq δ] {s t : System} {ls : List Label} (run : Run (System.step set) (Told set) s ls t)
    (hs : s.Start set) (ht : t.stage = .returned) :
    t.Complete set ↔ (laterBackups s.backups set.name).length < set.retentionCount := by
  have hinv : t.Inv set s.backups :=
    run.invariant (fun u l v hu htold hstep => inv_step hu htold hstep) ⟨hs.sound, by rw [hs.stage]; rfl⟩
  have hholds := hinv.2
  rw [ht] at hholds
  obtain ⟨entries, hbackups, hwhole, hverify⟩ := hholds
  have hfresh : Dict.get (s.backups.erase set.name) set.name = none := by rw [Dict.get_erase, if_pos rfl]
  have hget : t.backups.get set.name =
      if set.name ∈ (backupDirectories ((s.backups.erase set.name).set set.name entries)).drop set.retentionCount then none
      else some entries := by
    rw [hbackups, pruneBackups, Dict.get_only, Dict.get_set, if_pos rfl]
    split <;> simp_all
  simp only [expired_iff (Dict.nodup_erase hs.distinct set.name) hfresh set.named, laterBackups_erase] at hget
  constructor
  · rintro ⟨entries', hentries, -⟩
    by_contra hlate
    rw [hget, if_pos (by omega)] at hentries
    cases hentries
  · intro hlate
    exact ⟨entries, by rw [hget, if_neg (by omega)], hwhole, hverify⟩

/-! ### Two backups of one second -/

namespace Taken

def digest (bytes : Bytes) : String :=
  if bytes = [1] then "4bf5122f344554c53bde2ebb8cd2b7e3d1600ad631c385a5d7cce23c7785459a"
  else if bytes = [7] then "ca358758f6d27e6cf45272937977a748fd88391db679ceda7dc7bf1f005ee879"
  else ""

def manifest : Manifest :=
  ⟨1, "2026-07-31T10:54:26Z", "managed-automl-api",
    some [some ⟨some "automl.db", 1, digest [1]⟩, some ⟨some "objects/datasets/source", 1, digest [7]⟩]⟩

def libraries : Libraries where
  sha256 := digest
  loads _ := some manifest
  dumps _ := []
  quickCheck _ := true

/-- A version that is READY. -/
def database : Database := ⟨[("dsv_00000001", ⟨.readable, ["datasets", "source"], 1, digest [7]⟩)], ""⟩

def setting (retentionCount : ℕ) : Setting Database where
  lib := libraries
  read _ := database
  contentHash := id
  state := ["state"]
  root := ["backups"]
  retentionCount
  stagingName := ".automl-backup-20260731T105425Z-00000000-x"
  name := "automl-backup-20260731T105425Z-00000000"
  named := by decide

/-- A backup of the same second has a greater name. -/
def start : System where
  service := ⟨[(["datasets"], .folder), (["datasets", "source"], .file [7])], database, none⟩
  stage := .started
  backups := [("automl-backup-20260731T105425Z-ffffffff", [])]

/-- An upload part arrives between the listing and the copy. -/
def labels : List Label :=
  [.backup .check, .backup (.snapshotBefore [1]), .backup .beginList,
    .backup (.endList [["datasets"], ["datasets", "source"]]), .service (.write ["uploads", "part-00001"] [7]),
    .backup .copy, .backup .copy, .backup (.snapshotAfter [1]), .backup .compare, .backup .copySecret,
    .backup (.writeManifest "2026-07-31T10:54:26Z"), .backup .verify, .backup .publish, .backup .prune]

theorem start_start (n : ℕ) : start.Start (setting n) where
  stage := rfl
  sound := by
    refine ⟨by decide, fun id r hr hs => ?_⟩
    obtain ⟨rfl, rfl⟩ : id = "dsv_00000001" ∧ r = ⟨.readable, ["datasets", "source"], 1, digest [7]⟩ := by
      simpa [start, database] using Dict.mem_of_get hr
    exact ⟨rfl, rfl⟩
  distinct := by decide

/-- With one backup retained, the call returns a backup that it has removed. -/
theorem returned_and_removed : ∃ t, Run (System.step (setting 1)) Free start labels t ∧ start.Start (setting 1) ∧
    t.stage = .returned ∧ ¬ t.Complete (setting 1) := by
  have hexec : (exec (System.step (setting 1)) Free start labels).any
      (fun t => decide (t.stage = .returned) && (t.backups.get (setting 1).name).isNone) = true := by decide +kernel
  obtain ⟨t, ht, hend⟩ := Option.any_eq_true _ _ |>.mp hexec
  obtain ⟨hstage, hnone⟩ := Bool.and_eq_true_iff.mp hend
  refine ⟨t, run_of_exec ht, start_start 1, of_decide_eq_true hstage, ?_⟩
  rintro ⟨entries, hentries, -⟩
  rw [hentries] at hnone
  cases hnone

/-- With two retained, the backup is complete. -/
theorem returned_complete : ∃ t, Run (System.step (setting 2)) Free start labels t ∧ t.Complete (setting 2) := by
  have hexec : (exec (System.step (setting 2)) Free start labels).any (fun t => decide (t.stage = .returned)) = true := by decide +kernel
  obtain ⟨t, ht, hstage⟩ := Option.any_eq_true _ _ |>.mp hexec
  have hrun := run_of_exec ht
  have htold : Run (System.step (setting 2)) (Told (setting 2)) start labels t := hrun.mono fun s l _ => by
    unfold Told
    split
    · unfold Stage.Told
      split
      · exact id
      · trivial
    · trivial
  exact ⟨t, hrun, (complete_iff htold (start_start 2) (of_decide_eq_true hstage)).mpr (by decide +kernel)⟩

end Taken

end AutomlApi.Backups
