import AutomlApi.Backups.Undoing

/-! What a call of `restore_backup` leaves. A call that raises leaves every entry as it
was. A call that returns has put the managed paths of the backup into their places and the
previous ones aside; but a database is also its write-ahead log and its journal, which are
not managed: they stay beside the restored database and are missing from the previous one. -/

namespace AutomlApi.Backups

open Act Restoring

/-! ### Moving the current paths out -/

variable {old : Entries} {failing : Option ℕ} {backup : Tree} {name : String}

/-- The names of `done` stand in the rollback directory. -/
structure Leaving (backup : Tree) (old : Entries) (done : List String) (s : Restoring) : Prop where
  entries : ∀ n, s.entries.get n = if n ∈ done then none else old.get n
  rollback : ∃ kept, s.rollback = some kept ∧ ∀ n, kept.get n = if n ∈ done then old.get n else none
  there : ∀ n ∈ done, old.get n ≠ none
  movedOld : s.movedOld = done
  installed : s.installed = []
  staging : ∃ d, s.staging = some d ∧ Ready backup managedPaths d

theorem Leaving.undoable {done : List String} {s : Restoring} (h : Leaving backup old done s) : Undoable old s where
  moved n hn := by
    rw [h.movedOld] at hn
    obtain ⟨kept, hkept, hget⟩ := h.rollback
    exact ⟨h.there n hn, kept, hkept, by rw [hget, if_pos hn]⟩
  fresh n _ hn := by simp [h.installed] at hn
  still n hn _ := by rw [h.entries, if_neg (by rwa [h.movedOld] at hn)]

theorem triple_moveOld {done : List String} (hname : old.get name ≠ none) (hdone : name ∉ done) :
    Triple (Calmly failing (Leaving backup old done)) (operation (moveOld name))
      (fun _ => Calmly failing (Leaving backup old (done ++ [name]))) (Failed old failing) := by
  refine triple_operation (fun _ h => h.undoable) (fun s k h => ?_) fun s => ?_
  · obtain ⟨kept, hkept, hget⟩ := h.rollback
    obtain ⟨node, hnode⟩ := Option.ne_none_iff_exists'.mp hname
    have hentry : s.entries.get name = some node := by rw [h.entries, if_neg hdone, hnode]
    simp only [moveOld, hentry, hkept]
    refine ⟨fun n => ?_, ⟨kept.set name node, rfl, fun n => ?_⟩, fun n hn => ?_, by rw [h.movedOld], h.installed, h.staging⟩
    · show (s.entries.erase name).get n = _
      rw [Dict.get_erase, h.entries]
      by_cases hne : n = name <;> simp [hne]
    · rw [Dict.get_set, hget]
      by_cases hne : n = name <;> simp [hne, hnode]
    · rcases List.mem_append.mp hn with hn | hn
      · exact h.there n hn
      · rwa [List.mem_singleton.mp hn]
  · unfold moveOld
    split <;> rfl

/-! ### Moving the restored paths in -/

/-- The previous managed state stands in the rollback directory, if there was any. -/
def KeptAside (old : Entries) : Option Entries → Prop
  | none => ∀ n ∈ managedPaths, old.get n = none
  | some kept => (∀ n ∈ managedPaths, kept.get n = old.get n) ∧ ∀ n ∉ managedPaths, kept.get n = none

/-- The names of `done` have been restored, the other managed paths are not there. -/
structure Installing (backup : Tree) (old : Entries) (done : List String) (s : Restoring) : Prop where
  restored : ∀ n ∈ managedPaths, n ∈ done → Option.Rel Node.Same (s.entries.get n) (backup.item n)
  cleared : ∀ n ∈ managedPaths, n ∉ done → s.entries.get n = none
  unmanaged : ∀ n ∉ managedPaths, s.entries.get n = old.get n
  kept : KeptAside old s.rollback
  undoable : Undoable old s
  whole : ∀ n ∈ managedPaths, n ∉ s.movedOld → old.get n = none
  staging : ∃ d, s.staging = some d ∧ (∀ n ∈ managedPaths, n ∉ done → Option.Rel Node.Same (d.get n) (backup.item n)) ∧
    ∀ n, n ∉ managedPaths ∨ n ∈ done → d.get n = none

theorem triple_moveCurrent :
    Triple (Calmly failing (Before old (Ready backup managedPaths))) (moveCurrent (managedPaths.filter fun n => old.has n))
      (fun _ => Calmly failing (Installing backup old [])) (Failed old failing) := by
  have hcurrent : ∀ n, n ∈ (managedPaths.filter fun n => old.has n) ↔ n ∈ managedPaths ∧ old.get n ≠ none := by
    intro n
    rw [List.mem_filter, Dict.has, Option.isSome_iff_ne_none]
  have hnodup : (managedPaths.filter fun n => old.has n).Nodup := List.Nodup.filter _ (by decide)
  generalize (managedPaths.filter fun n => old.has n) = current at hcurrent hnodup
  have habsent : ∀ n ∈ managedPaths, n ∉ current → old.get n = none := fun n hn hnot => by
    by_contra hne
    exact hnot ((hcurrent n).mpr ⟨hn, hne⟩)
  unfold moveCurrent
  split
  next hempty =>
    rintro s ⟨hcalm, hs⟩
    have hnone : ∀ n ∈ managedPaths, old.get n = none := fun n hn => habsent n hn (by simp [hempty])
    obtain ⟨d, hd, hready⟩ := hs.staging
    refine ⟨hcalm, by simp, fun n hn _ => ?_, fun n _ => by rw [hs.entries], ?_, hs.undoable, fun n hn _ => hnone n hn,
      d, hd, fun n hn _ => hready.1 n hn, fun n hn => ?_⟩
    · rw [hs.entries]
      exact hnone n hn
    · rw [hs.rollback]
      exact hnone
    · rcases hn with hn | hn
      · exact hready.2 n hn
      · cases hn
  next =>
    have hmkdir : Triple (Calmly failing (Before old (Ready backup managedPaths)))
        (operation fun s => { s with rollback := some [] }) (fun _ => Calmly failing (Leaving backup old [])) (Failed old failing) :=
      triple_operation (fun _ h => h.undoable) (fun s k h => ⟨fun n => by simp [h.entries], ⟨[], rfl, fun n => by simp [Dict.get]⟩, by simp,
        h.movedOld, h.installed, h.staging⟩) fun _ => rfl
    have hloop := triple_each (f := fun n => operation (moveOld n)) (l := current) (E := Failed old failing)
      (I := fun done => Calmly failing (Leaving backup old done)) (fun done n rest hall => by
        have hn : n ∈ current := by simp [hall]
        refine triple_moveOld ((hcurrent n).mp hn).2 fun hdone => ?_
        rw [hall] at hnodup
        exact (List.disjoint_of_nodup_append hnodup) hdone (by simp)) [] current rfl
    refine triple_bind hmkdir fun _ => hloop.weaken (fun _ h => h) ?_ fun _ h => h
    rintro _ s ⟨hcalm, hs⟩
    obtain ⟨d, hd, hready⟩ := hs.staging
    obtain ⟨kept, hkept, hget⟩ := hs.rollback
    refine ⟨hcalm, by simp, fun n hn _ => ?_, fun n hn => ?_, ?_, hs.undoable, fun n hn hnot => ?_,
      d, hd, fun n hn _ => hready.1 n hn, fun n hn => ?_⟩
    · rw [hs.entries]
      split
      next => rfl
      next hnot => exact habsent n hn hnot
    · rw [hs.entries, if_neg fun h => hn ((hcurrent n).mp h).1]
    · rw [hkept]
      refine ⟨fun n hn => ?_, fun n hn => ?_⟩
      · rw [hget]
        split
        next => rfl
        next hnot => exact (habsent n hn hnot).symm
      · rw [hget, if_neg fun h => hn ((hcurrent n).mp h).1]
    · exact habsent n hn (by rwa [hs.movedOld] at hnot)
    · rcases hn with hn | hn
      · exact hready.2 n hn
      · cases hn

theorem triple_installStaged {done : List String} (hname : name ∈ managedPaths) (hdone : name ∉ done) :
    Triple (Calmly failing (Installing backup old done)) (installStaged name)
      (fun _ => Calmly failing (Installing backup old (done ++ [name]))) (Failed old failing) := by
  have hcalm : ∀ s k, Installing backup old done s → Installing backup old done { s with failing := k } := fun s k h =>
    ⟨h.restored, h.cleared, h.unmanaged, h.kept, ⟨h.undoable.moved, h.undoable.fresh, h.undoable.still⟩, h.whole, h.staging⟩
  refine triple_bind (triple_stat (fun _ h => h.undoable) hcalm) fun _ => ?_
  rintro s ⟨hfailing, h⟩
  obtain ⟨d, hd, hrel, hnone⟩ := h.staging
  have hwaiting := hrel name hname hdone
  rw [get_bind, hd, Option.bind_some]
  have hother : ∀ n, n ∈ done ++ [name] → n ≠ name → n ∈ done := fun n hn hne => by simpa [hne] using hn
  have hout : ∀ n, n ∉ done ++ [name] → n ≠ name ∧ n ∉ done := fun n hn =>
    ⟨fun he => hn (by simp [he]), fun hd => hn (by simp [hd])⟩
  cases hget : d.get name with
  | none =>
    -- the backup has no such path, and what stood there has been moved
    rw [hget] at hwaiting
    have hitem : backup.item name = none := by
      revert hwaiting
      cases backup.item name with
      | none => exact fun _ => rfl
      | some node => exact fun h => by cases h
    refine ⟨hfailing, fun n hn hmem => ?_, fun n hn hmem => h.cleared n hn (hout n hmem).2, h.unmanaged, h.kept, h.undoable,
      h.whole, d, hd, fun n hn hmem => hrel n hn (hout n hmem).2, fun n hn => ?_⟩
    · by_cases hne : n = name
      · rw [hne, h.cleared name hname hdone, hitem]
        exact .none
      · exact h.restored n hn (hother n hmem hne)
    · by_cases hne : n = name
      · rw [hne, hget]
      · exact hnone n (hn.imp_right fun hmem => hother n hmem hne)
  | some node =>
    have hinstall : Triple (Calmly failing fun t => t = s) (operation (install name))
        (fun _ => Calmly failing (Installing backup old (done ++ [name]))) (Failed old failing) := by
      refine triple_operation (fun t ht => ht ▸ h.undoable) (fun t k ht => ?_) fun t => ?_
      · subst ht
        simp only [install, hd, hget]
        refine ⟨fun n hn hmem => ?_, fun n hn hmem => ?_, fun n hn => ?_, h.kept, ⟨h.undoable.moved, fun n hnot hmem => ?_,
          fun n hnot hmem => ?_⟩, h.whole, d.erase name, rfl, fun n hn hmem => ?_, fun n hn => ?_⟩
        · simp only
          rw [Dict.get_set]
          split
          next hne =>
            rw [hget] at hwaiting
            rwa [hne]
          next hne => exact h.restored n hn (hother n hmem hne)
        · simp only
          rw [Dict.get_set, if_neg (hout n hmem).1]
          exact h.cleared n hn (hout n hmem).2
        · simp only
          rw [Dict.get_set, if_neg fun he => hn (by rwa [he])]
          exact h.unmanaged n hn
        · by_cases hne : n = name
          · rw [hne] at hnot ⊢
            exact h.whole name hname hnot
          · exact h.undoable.fresh n hnot (by simpa [hne] using hmem)
        · have hne : n ≠ name := by rintro rfl; simp at hmem
          simp only
          rw [Dict.get_set, if_neg hne]
          exact h.undoable.still n hnot fun hi => hmem (by simp [hi])
        · rw [Dict.get_erase, if_neg (hout n hmem).1]
          exact hrel n hn (hout n hmem).2
        · rw [Dict.get_erase]
          by_cases hne : n = name
          · rw [if_pos hne]
          · rw [if_neg hne]
            exact hnone n (hn.imp_right fun hmem => hother n hmem hne)
      · unfold install
        split
        · split <;> rfl
        · rfl
    exact hinstall s ⟨hfailing, rfl⟩

/-- What a call that returns leaves. -/
structure Replaced (backup : Tree) (old : Entries) (s : Restoring) : Prop where
  restored : ∀ n ∈ managedPaths, Option.Rel Node.Same (s.entries.get n) (backup.item n)
  unmanaged : ∀ n ∉ managedPaths, s.entries.get n = old.get n
  kept : KeptAside old s.rollback

theorem eq_nil_of_get {d : Entries} (h : ∀ n, d.get n = none) : d = [] := by
  cases d with
  | nil => rfl
  | cons e d =>
    have := h e.1
    rw [Dict.get_cons] at this
    simp at this

theorem triple_removeStaging :
    Triple (Calmly failing (Installing backup old managedPaths)) removeStaging
      (fun _ => Calmly failing (Replaced backup old)) (Failed old failing) := by
  rintro s ⟨hfailing, h⟩
  obtain ⟨d, hd, -, hnone⟩ := h.staging
  have hempty : d = [] := eq_nil_of_get fun n => hnone n (by tauto)
  have hremove : Triple (Calmly failing fun t => t = s) (operation fun t => { t with staging := none })
      (fun _ => Calmly failing (Replaced backup old)) (Failed old failing) := by
    refine triple_operation (fun t ht => ht ▸ h.undoable) (fun t k ht => ?_) fun t => rfl
    subst ht
    exact ⟨fun n hn => h.restored n hn hn, h.unmanaged, h.kept⟩
  unfold removeStaging
  rw [get_bind, hd, hempty, refuse, if_neg (by simp), check_ok_bind]
  exact hremove s ⟨hfailing, rfl⟩

theorem triple_replaceManaged (hlink : ∀ e ∈ backup.entries, e.2 ≠ .link) :
    Triple (Calmly failing (Before old (Ready backup []))) (replaceManaged backup) (fun _ => Calmly failing (Replaced backup old))
      (Failed old failing) := by
  have hsplit : ∀ {done rest : List String} {n : String}, managedPaths = done ++ n :: rest → n ∉ done := fun hall hmem => by
    have hnodup : managedPaths.Nodup := by decide
    rw [hall] at hnodup
    exact (List.disjoint_of_nodup_append hnodup) hmem (by simp)
  refine triple_bind (triple_each (I := fun done => Calmly failing (Before old (Ready backup done)))
    (fun done n rest hall => triple_stage hlink (hsplit hall)) [] managedPaths rfl) fun _ => ?_
  refine triple_bind (triple_each (I := fun _ => Calmly failing (Before old (Ready backup managedPaths)))
    (fun done n rest _ => triple_stat (fun _ h => h.undoable) Before.calm) [] managedPaths rfl) fun _ => ?_
  intro s hs
  rw [get_bind, hs.2.entries]
  refine triple_bind triple_moveCurrent (fun _ => ?_) s hs
  exact triple_bind (triple_each (I := fun done => Calmly failing (Installing backup old done))
    (fun done n rest hall => triple_installStaged (by simp [hall]) (hsplit hall)) [] managedPaths rfl)
    fun _ => triple_removeStaging

/-! ### The whole call -/

/-- The call passes the checks before its first write. -/
def Accepted (lib : Libraries) (source target : Path) (backup : Tree) (force : Bool) (old : Entries) : Prop :=
  (∃ manifest, verifyBackup lib source backup.entries = .ok manifest) ∧ ¬ (target <+: source ∨ source <+: target) ∧
    ¬ (old ≠ [] ∧ force = false)

section

variable {lib : Libraries} {source target : Path} {force : Bool} (failing : Option ℕ) (preRestore : String) (torn : Bytes)

theorem restoreBackup_of_not_accepted (h : ¬ Accepted lib source target backup force old) :
    ∃ e, restoreBackup lib source target backup force preRestore (start old failing torn) =
      (.error e, start old failing torn) := by
  unfold restoreBackup
  cases hverify : verifyBackup lib source backup.entries with
  | error e => exact ⟨e, rfl⟩
  | ok manifest =>
    rw [check_ok_bind]
    by_cases hoverlap : target <+: source ∨ source <+: target
    · rw [refuse, if_pos hoverlap]
      exact ⟨_, rfl⟩
    · rw [refuse, if_neg hoverlap, check_ok_bind, get_bind]
      by_cases hforce : (start old failing torn).entries ≠ [] ∧ force = false
      · rw [refuse, if_pos hforce]
        exact ⟨_, rfl⟩
      · exact absurd ⟨⟨manifest, hverify⟩, hoverlap, hforce⟩ h

/-- Nothing has been moved, and nothing is staged. -/
def Waiting (old : Entries) (s : Restoring) : Prop :=
  s.entries = old ∧ s.rollback = none ∧ s.movedOld = [] ∧ s.installed = []

/-- An operation has failed, and every entry is as it was. -/
def Unharmed (old : Entries) (failing : Option ℕ) (s : Restoring) : Prop :=
  failing ≠ none ∧ ∀ n, s.entries.get n = old.get n

theorem restoreBackup_of_accepted (h : Accepted lib source target backup force old) :
    Triple (fun s => s = start old failing torn) (restoreBackup lib source target backup force preRestore)
      (fun returned s => Replaced backup old s ∧ returned.isSome = s.rollback.isSome) (Unharmed old failing) := by
  obtain ⟨⟨manifest, hverify⟩, hoverlap, hforce⟩ := h
  have hstat : ∀ {I : Restoring → Prop}, (∀ s, I s → s.entries = old) → (∀ s k, I s → I { s with failing := k }) →
      Triple (Calmly failing I) (operation id) (fun _ => Calmly failing I) (Unharmed old failing) := fun hI hk =>
    triple_attempt_of (fun hsome s hs => ⟨hsome, fun n => by rw [id, hI s hs]⟩) hk fun _ => rfl
  have hmkdir : Triple (Calmly failing (Waiting old)) (operation fun s => { s with staging := some [] })
      (fun _ => Calmly failing (Before old (Ready backup []))) (Unharmed old failing) :=
    triple_attempt_of (fun hsome s hs => ⟨hsome, fun n => by rw [id, hs.1]⟩)
      (fun s k hs => ⟨hs.1, hs.2.1, hs.2.2.1, hs.2.2.2, [], rfl, by simp, fun n _ => rfl⟩) fun _ => rfl
  rintro s rfl
  have hforce : ¬ ((start old failing torn).entries ≠ [] ∧ force = false) := hforce
  unfold restoreBackup
  rw [hverify, check_ok_bind, refuse, if_neg hoverlap, check_ok_bind, get_bind, refuse, if_neg hforce, check_ok_bind]
  refine triple_bind (P := Calmly failing (Waiting old)) (hstat (fun s hs => hs.1) fun _ _ hs => hs) (fun _ =>
    triple_bind (hstat (fun s hs => hs.1) fun _ _ hs => hs) fun _ => triple_bind hmkdir fun _ =>
    triple_bind (hstat (fun s hs => hs.entries) Before.calm) fun _ =>
    triple_bind (triple_onError (triple_replaceManaged fun e he => (verified hverify).1 e he) fun s hs => ⟨hs.2, get_undo hs.1⟩)
      fun _ => ?_) _ ⟨fun hnone => hnone, rfl, rfl, rfl, rfl⟩
  rintro s ⟨-, hs⟩
  exact ⟨hs, by cases s.rollback <;> rfl⟩

end

/-! ### The contents of a database -/

def fileAt (d : Entries) (name : String) : Option Bytes :=
  match d.get name with
  | some (.file bytes) => some bytes
  | _ => none

section

-- `opened` is what SQLite reads from a database file with the write-ahead log and the journal
-- that it finds beside it; the index of the log (`-shm`) is made anew when the database of a
-- stopped service is opened.
variable {Content : Type} (opened : Bytes → Option Bytes → Option Bytes → Content)

def content (d : Entries) : Option Content :=
  (fileAt d "automl.db").map fun db => opened db (fileAt d "automl.db-wal") (fileAt d "automl.db-journal")

/-- The database of a backup is read without the files beside it. -/
def Tree.content (t : Tree) : Option Content :=
  match t.entries.get ["automl.db"] with
  | some (.file db) => some (opened db none none)
  | _ => none

/-- What a call that returns is to leave. -/
structure Faithful (backup : Tree) (old : Entries) (returned : Option Path) (s : Restoring) : Prop where
  database : Backups.content opened s.entries = backup.content opened
  objects : ∀ n ∈ ["objects", "ticket-secret"], Option.Rel Node.Same (s.entries.get n) (backup.item n)
  unmanaged : ∀ n ∉ managedPaths, s.entries.get n = old.get n
  kept : match returned with
    | none => ∀ n ∈ managedPaths, old.get n = none
    | some _ => ∃ kept, s.rollback = some kept ∧ Backups.content opened kept = Backups.content opened old ∧
        ∀ n ∈ ["objects", "ticket-secret"], kept.get n = old.get n

/-- A call that raises leaves the managed paths, a call that returns is faithful. -/
def AllOrNothing (backup : Tree) (old : Entries) : Except Failure (Option Path) × Restoring → Prop
  | (.error _, s) => ∀ n ∈ managedPaths, s.entries.get n = old.get n
  | (.ok returned, s) => Faithful opened backup old returned s

/-- The log and the journal in the state directory change nothing of either database: not
of the backup's, which is read with them afterwards, and not of the previous one, which is
read without them. -/
structure Inert (backup : Tree) (old : Entries) : Prop where
  restored : ∀ db, backup.entries.get ["automl.db"] = some (.file db) →
    opened db (fileAt old "automl.db-wal") (fileAt old "automl.db-journal") = opened db none none
  previous : ∀ db, fileAt old "automl.db" = some db →
    opened db none none = opened db (fileAt old "automl.db-wal") (fileAt old "automl.db-journal")

variable {opened}

theorem fileAt_congr {d d' : Entries} {n : String} (h : d.get n = d'.get n) : fileAt d n = fileAt d' n := by
  rw [fileAt, fileAt, h]

/-- The restored database, with what stands beside it. -/
theorem content_replaced (opened : Bytes → Option Bytes → Option Bytes → Content) {s : Restoring} (h : Replaced backup old s) {db : Bytes}
    (hdb : backup.entries.get ["automl.db"] = some (.file db)) :
    content opened s.entries = some (opened db (fileAt old "automl.db-wal") (fileAt old "automl.db-journal")) := by
  have hrel := h.restored "automl.db" (by decide)
  have hitem : backup.item "automl.db" = some (.file db) := by rw [Tree.item, hdb]
  have hfile : fileAt s.entries "automl.db" = some db := by
    rw [hitem] at hrel
    unfold fileAt
    revert hrel
    cases s.entries.get "automl.db" with
    | none => exact fun h => by cases h
    | some node =>
      cases node with
      | file bytes => exact fun h => by cases h with | some h => exact congrArg some h
      | directory below => exact fun h => by cases h with | some h => exact h.elim
  rw [content, hfile, Option.map_some, fileAt_congr (h.unmanaged "automl.db-wal" (by decide)),
    fileAt_congr (h.unmanaged "automl.db-journal" (by decide))]

/-- The previous database, set aside without what stood beside it. -/
theorem content_kept {kept : Entries} (h : KeptAside old (some kept)) :
    content opened kept = (fileAt old "automl.db").map fun db => opened db none none := by
  have hnone : ∀ n, n ∉ managedPaths → fileAt kept n = none := fun n hn => by rw [fileAt, h.2 n hn]
  rw [content, fileAt_congr (h.1 "automl.db" (by decide)), hnone _ (by decide), hnone _ (by decide)]

theorem faithful_iff_inert {s : Restoring} {returned : Option Path} (h : Replaced backup old s)
    (hreturned : returned.isSome = s.rollback.isSome) {db : Bytes} (hdb : backup.entries.get ["automl.db"] = some (.file db)) :
    Faithful opened backup old returned s ↔ Inert opened backup old := by
  have hbackup : backup.content opened = some (opened db none none) := by rw [Tree.content, hdb]
  have hcontent := content_replaced opened h hdb
  have hkept := h.kept
  constructor
  · intro hf
    refine ⟨fun db' hdb' => ?_, fun f hfile => ?_⟩
    · obtain rfl : db = db' := by simpa [hdb] using hdb'
      have hsame := hf.database
      rw [hcontent, hbackup] at hsame
      exact Option.some.inj hsame
    · cases hrollback : s.rollback with
      | none =>
        rw [hrollback] at hkept
        have hnone := hkept "automl.db" (by decide)
        rw [fileAt, hnone] at hfile
        cases hfile
      | some kept =>
        rw [hrollback] at hkept hreturned
        obtain ⟨path, rfl⟩ := Option.isSome_iff_exists.mp hreturned
        obtain ⟨kept', hkept', hsame, -⟩ := hf.kept
        obtain rfl : kept = kept' := by simpa [hrollback] using hkept'
        rw [content_kept hkept, content, hfile] at hsame
        exact Option.some.inj hsame
  · intro hi
    refine ⟨by rw [hcontent, hbackup, hi.restored db hdb], fun n hn => h.restored n ?_, h.unmanaged, ?_⟩
    · revert hn
      simp only [managedPaths, List.mem_cons, List.not_mem_nil, or_false]
      exact Or.inr
    · cases hrollback : s.rollback with
      | none =>
        rw [hrollback] at hkept hreturned
        obtain rfl : returned = none := by simpa using hreturned
        exact hkept
      | some kept =>
        rw [hrollback] at hkept hreturned
        obtain ⟨path, rfl⟩ := Option.isSome_iff_exists.mp hreturned
        refine ⟨kept, rfl, ?_, fun n hn => hkept.1 n ?_⟩
        · rw [content_kept hkept, content]
          cases hfile : fileAt old "automl.db" with
          | none => rfl
          | some f => exact congrArg some (hi.previous f hfile)
        · revert hn
          simp only [managedPaths, List.mem_cons, List.not_mem_nil, or_false]
          exact Or.inr

/-- Restoring is all or nothing, wherever an operation fails, exactly when the log and the
journal of the state directory say nothing that the restored or the previous database
would lack. -/
theorem restore_all_or_nothing_iff (opened : Bytes → Option Bytes → Option Bytes → Content) (lib : Libraries)
    (source target : Path) (backup : Tree) (force : Bool) (preRestore : String) (old : Entries) :
    (∀ failing torn, AllOrNothing opened backup old
      (restoreBackup lib source target backup force preRestore (start old failing torn))) ↔
    (Accepted lib source target backup force old → Inert opened backup old) := by
  constructor
  · intro hall haccepted
    obtain ⟨manifest, hverify⟩ := haccepted.1
    obtain ⟨db, hdb⟩ := (verified hverify).2
    have hrun := restoreBackup_of_accepted none preRestore [] haccepted _ rfl
    have hfaithful := hall none []
    revert hrun hfaithful
    cases restoreBackup lib source target backup force preRestore (start old none []) with
    | mk result s =>
      cases result with
      | error e => exact fun hrun _ => absurd rfl hrun.1
      | ok returned => exact fun hrun hf => (faithful_iff_inert hrun.1 hrun.2 hdb).mp hf
  · intro hinert failing torn
    by_cases haccepted : Accepted lib source target backup force old
    · obtain ⟨manifest, hverify⟩ := haccepted.1
      obtain ⟨db, hdb⟩ := (verified hverify).2
      have hrun := restoreBackup_of_accepted failing preRestore torn haccepted _ rfl
      revert hrun
      cases restoreBackup lib source target backup force preRestore (start old failing torn) with
      | mk result s =>
        cases result with
        | error e => exact fun hrun n _ => hrun.2 n
        | ok returned => exact fun hrun => (faithful_iff_inert hrun.1 hrun.2 hdb).mpr (hinert haccepted)
    · obtain ⟨e, he⟩ := restoreBackup_of_not_accepted failing preRestore torn haccepted
      rw [he]
      exact fun n _ => rfl

end

/-! ### A service that stopped with a log -/

namespace Crashed

/-- Page images in turn: the number of a page, its byte. -/
def overlay : Bytes → Bytes → Bytes
  | pages, number :: byte :: rest => overlay (pages.set number.toNat byte) rest
  | pages, _ => pages

/-- A database of one byte a page; the journal puts pages back, the log holds newer ones. -/
def openPages (db : Bytes) (wal journal : Option Bytes) : Bytes := overlay (overlay db (journal.getD [])) (wal.getD [])

def digest : String := "9dcf97a184f32623d11a73124ceb99a5709b083721e878a16d78f596718ba7b2"

def manifest : Manifest :=
  ⟨1, "2026-07-31T00:00:00Z", "managed-automl-api", some [some ⟨some "automl.db", 2, digest⟩]⟩

def libraries : Libraries where
  sha256 bytes := if bytes = [1, 1] then digest else ""
  loads _ := some manifest
  dumps _ := []
  quickCheck _ := true

def taken : Tree where
  entries := [(["automl.db"], .file [1, 1]), (["manifest.json"], .file [])]
  distinct := by decide
  rooted := by decide

/-- The log holds a transaction that the database file does not. -/
def state : Entries := [("automl.db", .file [2, 2]), ("automl.db-wal", .file [0, 3])]

/-- The restored database opens with a page of the old one, and the database that was set
aside lacks the last transaction. -/
theorem not_all_or_nothing : ¬ AllOrNothing openPages taken state
    (restoreBackup libraries ["backups", "b"] ["state"] taken true ".pre-restore" (start state none [])) := by
  have hreturns : (restoreBackup libraries ["backups", "b"] ["state"] taken true ".pre-restore" (start state none [])).1 =
      .ok (some ["state", ".pre-restore"]) := by decide +kernel
  have hcontent : content openPages
      (restoreBackup libraries ["backups", "b"] ["state"] taken true ".pre-restore" (start state none [])).2.entries =
      some [3, 1] := by decide +kernel
  revert hreturns hcontent
  rcases restoreBackup libraries ["backups", "b"] ["state"] taken true ".pre-restore" (start state none []) with ⟨result, s⟩
  rintro rfl hcontent hf
  have hdatabase := Faithful.database hf
  rw [hcontent] at hdatabase
  revert hdatabase
  decide

end Crashed

end AutomlApi.Backups
