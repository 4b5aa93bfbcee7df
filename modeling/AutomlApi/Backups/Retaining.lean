import AutomlApi.Library.Recency
import AutomlApi.Webhooks.Times
import AutomlApi.Backups.Creating

/-! Which backups stay. A call names its directory by the second in which it runs and a
random suffix, and keeps the directories with the greatest names. The entries of the backup
root stand in the order in which they were created. -/

namespace AutomlApi.Backups.Retaining

open Runs Recency Digits
open Webhooks (Datetime)

/-! ### Names -/

/-- `strftime("%Y%m%dT%H%M%SZ")`. -/
def timestamp (t : Datetime) : List Char :=
  padded 4 t.year ++ (padded 2 t.month ++ (padded 2 t.day ++ 'T' :: (padded 2 t.hour ++ (padded 2 t.minute ++
    (padded 2 t.second ++ ['Z'])))))

def backupName (t : Datetime) (suffix : String) : String :=
  String.ofList (backupPrefix.toList ++ (timestamp t ++ '-' :: suffix.toList))

theorem isBackup_backupName (t : Datetime) (suffix : String) : isBackup (backupName t suffix) = true := by
  rw [isBackup, backupName, String.toList_ofList, List.isPrefixOf_iff_prefix]
  exact List.prefix_append _ _

/-- Names come in the order of their seconds; those of one second in that of their suffixes. -/
theorem backupName_lt_iff (t u : Datetime) (a b : String) :
    backupName t a < backupName u b ↔ t.toSecond < u.toSecond ∨ t.toSecond = u.toSecond ∧ a < b := by
  have hwide : ∀ {n k : ℕ}, n < k → k ≤ 100 → n < 10 ^ 2 := fun h h' => h.trans_le h'
  have hmark : ∀ {c : Char} {r r' : List Char}, c :: r < c :: r' ↔ r < r' := by simp
  unfold backupName timestamp Datetime.toSecond
  simp only [String.lt_iff_toList_lt, String.toList_ofList, List.append_assoc, List.cons_append, List.nil_append]
  rw [append_lt_append_iff rfl, padded_append_lt_iff (by decide) t.year_lt u.year_lt,
    padded_append_lt_iff (by decide) (hwide t.month_lt (by decide)) (hwide u.month_lt (by decide)),
    padded_append_lt_iff (by decide) (hwide t.day_lt (by decide)) (hwide u.day_lt (by decide)), hmark,
    padded_append_lt_iff (by decide) (hwide t.hour_lt (by decide)) (hwide u.hour_lt (by decide)),
    padded_append_lt_iff (by decide) (hwide t.minute_lt (by decide)) (hwide u.minute_lt (by decide)),
    padded_append_lt_iff (by decide) (hwide t.second_lt (by decide)) (hwide u.second_lt (by decide)), hmark, hmark]
  simp only [List.cons_lt_cons_iff, List.cons.injEq, List.lt_irrefl, and_true, false_or, true_and, and_false, or_false,
    and_or_left, or_assoc, and_assoc]

/-! ### Calls -/

/-- How a call ends. -/
inductive Ending where
  | returned
  /-- It raises before its directory is in place. -/
  | unpublished
  /-- It raises when it has removed `gone` directories; of the next `left` is left. -/
  | pruning (gone : ℕ) (left : Listing)
  deriving DecidableEq

/-- `create_backup`, from where the staging directory takes its name. -/
def createBackup (retentionCount : ℕ) (name : String) (entries : Listing) (root : BackupRoot) :
    Ending → Option BackupRoot
  | .unpublished => some root
  | .returned =>
    if retentionCount < 1 then none else (publish name entries root).map (pruneBackups retentionCount)
  | .pruning gone left =>
    if retentionCount < 1 then none
    else (publish name entries root).map fun placed =>
      let expired := (backupDirectories placed).drop retentionCount
      let torn := match expired[gone]? with
        | some n => placed.set n left
        | none => placed
      torn.only fun n => n ∉ expired.take gone

structure Call where
  retentionCount : ℕ
  time : Datetime
  suffix : String
  entries : Listing
  ending : Ending

def Call.name (c : Call) : String := backupName c.time c.suffix

def step (root : BackupRoot) (c : Call) : Option BackupRoot :=
  createBackup c.retentionCount c.name c.entries root c.ending

/-- The backups, in the order of their creation. -/
def created (root : BackupRoot) : List String := (root.map Prod.fst).filter fun n => isBackup n

/-- The same with the backup of a call, which comes last. -/
def createdWith (root : BackupRoot) (name : String) : List String := (created root).filter (· ≠ name) ++ [name]

/-! ### What a call promises -/

/-- The call that returns has left the backups that were created last, its own among them. -/
structure Call.Retains (c : Call) (root root' : BackupRoot) : Prop where
  present : c.name ∈ created root'
  bounded : (created root').length ≤ c.retentionCount
  newest : created root' = newest c.retentionCount (createdWith root c.name)

/-- A call that returns here keeps its promise. -/
def Keeps (root : BackupRoot) (c : Call) : Prop :=
  ∀ root', c.ending = .returned → step root c = some root' → c.Retains root root'

/-- If the call returns: each backup that has to stay has a later name than each that has to go. -/
def Ordered (root : BackupRoot) (c : Call) : Prop :=
  c.ending = .returned → Agrees c.retentionCount (createdWith root c.name)

instance (root : BackupRoot) (c : Call) : Decidable (Ordered root c) :=
  inferInstanceAs (Decidable (c.ending = .returned → Agrees c.retentionCount (createdWith root c.name)))

variable {root root' placed : BackupRoot} {name : String} {entries : Listing} {c : Call}

theorem keys_publish (h : publish name entries root = some placed) :
    placed.map Prod.fst = (root.map Prod.fst).filter (· ≠ name) ++ [name] := by
  obtain ⟨-, rfl⟩ := publish_eq_some.mp h
  have herase : (Dict.erase root name).map Prod.fst = (root.map Prod.fst).filter (· ≠ name) := by
    rw [Dict.erase, List.filter_map]
    rfl
  rw [Dict.set_of_fresh (by simp [herase]), List.map_append, herase]
  rfl

theorem created_publish (hname : isBackup name = true) (h : publish name entries root = some placed) :
    created placed = createdWith root name := by
  rw [created, keys_publish h, List.filter_append, createdWith, created, List.filter_filter, List.filter_filter]
  congr 1
  · exact List.filter_congr fun n _ => Bool.and_comm _ _
  · simp [hname]

theorem created_only (p : String → Bool) : created (root.only p) = (created root).filter p := by
  have hfst : ∀ d : BackupRoot, (Dict.only d p).map Prod.fst = (d.map Prod.fst).filter p := fun d => by
    rw [Dict.only, List.filter_map]
    rfl
  rw [created, hfst, created, List.filter_filter, List.filter_filter]
  exact List.filter_congr fun n _ => Bool.and_comm _ _

/-- The retention keeps the backups with the greatest names. -/
theorem created_pruneBackups (k : ℕ) : created (pruneBackups k root) = greatest k (created root) := by
  rw [pruneBackups, created_only]
  rfl

theorem nodup_replaced {names : List String} (h : names.Nodup) (name : String) :
    (names.filter (· ≠ name) ++ [name]).Nodup := by
  refine List.nodup_append.mpr ⟨h.filter _, List.nodup_singleton _, ?_⟩
  rintro a ha b hb rfl
  rw [List.mem_singleton.mp hb] at ha
  simp at ha

theorem nodup_createdWith (h : (root.map Prod.fst).Nodup) (name : String) : (createdWith root name).Nodup :=
  nodup_replaced (h.filter _) name

theorem step_returned (hend : c.ending = .returned) (h : step root c = some root') :
    0 < c.retentionCount ∧ ∃ placed, publish c.name c.entries root = some placed ∧
      pruneBackups c.retentionCount placed = root' := by
  rw [step, hend, createBackup] at h
  split at h
  next => cases h
  next hpos => exact ⟨by omega, Option.map_eq_some_iff.mp h⟩

theorem retains_iff (hroot : (root.map Prod.fst).Nodup) (hend : c.ending = .returned) (h : step root c = some root') :
    c.Retains root root' ↔ Agrees c.retentionCount (createdWith root c.name) := by
  obtain ⟨hpos, placed, hplaced, rfl⟩ := step_returned hend h
  have hkept : created (pruneBackups c.retentionCount placed) = greatest c.retentionCount (createdWith root c.name) := by
    rw [created_pruneBackups]
    exact congrArg _ (created_publish (isBackup_backupName c.time c.suffix) hplaced)
  rw [← greatest_eq_newest_iff (nodup_createdWith hroot c.name)]
  constructor
  · intro hretains
    rw [← hkept]
    exact hretains.newest
  · intro hnewest
    rw [hnewest] at hkept
    refine ⟨?_, ?_, hkept⟩
    · rw [hkept]
      exact mem_newest hpos _ _
    · rw [hkept, length_newest]
      exact min_le_left _ _

/-- What is left below the root by a call that puts its directory in place. -/
theorem step_eq_some (h : step root c = some root') :
    root' = root ∨ ∃ placed : BackupRoot, ∃ p : String → Bool,
      placed.map Prod.fst = (root.map Prod.fst).filter (· ≠ c.name) ++ [c.name] ∧ root' = placed.only p := by
  unfold step createBackup at h
  split at h
  next =>
    exact .inl (Option.some.inj h).symm
  next =>
    split at h
    next => cases h
    next =>
      obtain ⟨placed, hplaced, rfl⟩ := Option.map_eq_some_iff.mp h
      exact .inr ⟨placed, fun n => n ∉ (backupDirectories placed).drop c.retentionCount, keys_publish hplaced, rfl⟩
  next gone left _ =>
    split at h
    next => cases h
    next =>
      obtain ⟨placed, hplaced, rfl⟩ := Option.map_eq_some_iff.mp h
      refine .inr ⟨_, _, ?_, rfl⟩
      split
      next n hn =>
        have hmem : n ∈ placed.map Prod.fst := by
          have hsort := List.mem_of_mem_drop (List.mem_of_getElem? hn)
          exact List.mem_of_mem_filter ((List.mem_insertionSort _).mp hsort)
        rw [Dict.keys_set_of_mem hmem, keys_publish hplaced]
      next => exact keys_publish hplaced

theorem nodup_step (hroot : (root.map Prod.fst).Nodup) (h : step root c = some root') : (root'.map Prod.fst).Nodup := by
  rcases step_eq_some h with rfl | ⟨placed, p, hkeys, rfl⟩
  · exact hroot
  · refine Dict.nodup_filter ?_ _
    rw [hkeys]
    exact nodup_replaced hroot _

/-! ### Every run of calls -/

/-- In a run of calls, those that return keep their promises exactly if each is made where the
names agree with the order of creation. -/
theorem retains_iff_ordered {calls : List Call} (hroot : (root.map Prod.fst).Nodup) :
    Run step Keeps root calls root' ↔ Run step Ordered root calls root' := by
  constructor
  · intro run
    induction run with
    | nil root => exact .nil root
    | cons hkeeps hstep _ ih =>
      refine .cons (fun hend => ?_) hstep (ih (nodup_step hroot hstep))
      exact (retains_iff hroot hend hstep).mp (hkeeps _ hend hstep)
  · intro run
    induction run with
    | nil root => exact .nil root
    | cons hordered hstep _ ih =>
      refine .cons (fun v hend hv => ?_) hstep (ih (nodup_step hroot hstep))
      exact (retains_iff hroot hend hv).mpr (hordered hend)

theorem agrees_of_pairwise {k : ℕ} {l : List String} (h : l.Pairwise (· < ·)) : Agrees k l := by
  rw [← older_append_newest k l] at h
  exact (List.pairwise_append.mp h).2.2

/-- Nothing comes to the backups but the one of the call, and that at the end. -/
theorem sublist_step (h : step root c = some root') : (created root').Sublist (created root ++ [c.name]) := by
  rcases step_eq_some h with rfl | ⟨placed, p, hkeys, rfl⟩
  · exact List.sublist_append_left _ _
  · rw [created_only, created, hkeys, List.filter_append]
    refine List.filter_sublist.trans (List.Sublist.append ?_ List.filter_sublist)
    exact List.filter_sublist.filter _

/-- Where the names come in the order of the calls, after those that are there, every call
keeps its promise. -/
theorem ordered_of_increasing {calls : List Call} (run : Run step Free root calls root')
    (h : (created root ++ calls.map Call.name).Pairwise (· < ·)) : Run step Ordered root calls root' := by
  induction run with
  | nil root => exact .nil root
  | @cons root u root' c calls _ hstep rest ih =>
    rw [List.map_cons, List.append_cons] at h
    have hwith : (createdWith root c.name).Sublist (created root ++ [c.name]) :=
      List.Sublist.append_right List.filter_sublist _
    refine .cons (fun _ => agrees_of_pairwise ((List.pairwise_append.mp h).1.sublist hwith)) hstep (ih ?_)
    exact h.sublist (List.Sublist.append_right (sublist_step hstep) _)

/-! ### The call of the service -/

section
variable {δ : Type} [DecidableEq δ] {set : Setting δ}

/-- The stages in which the staging directory is filled. -/
def Filling : Stage → Prop
  | .started | .published | .returned | .raised => False
  | _ => True

/-- What a move does to the backups. -/
theorem move_cases {service : Service} {backups backups' : BackupRoot} {stage stage' : Stage} {m : Move}
    (h : stage.move set service backups m = some (stage', backups')) :
    (stage' = .raised ∧ backups' = backups) ∨
      (stage = .started ∧ 0 < set.retentionCount ∧ Filling stage' ∧ backups' = backups) ∨
      (Filling stage ∧ Filling stage' ∧ backups' = backups) ∨
      (∃ staging, stage = .verified staging ∧ stage' = .published ∧ publish set.name staging backups = some backups') ∨
      (stage = .published ∧ stage' = .returned ∧ backups' = pruneBackups set.retentionCount backups) := by
  unfold Stage.move at h
  split at h
  case h_1 =>
    cases h
    split
    next => exact .inl ⟨rfl, rfl⟩
    next hcheck => exact .inr (.inl ⟨rfl, by omega, trivial, rfl⟩)
  case h_12 staging =>
    split at h
    next placed hplaced =>
      cases h
      exact .inr (.inr (.inr (.inl ⟨staging, rfl, rfl, hplaced⟩)))
    next =>
      cases h
      exact .inl ⟨rfl, rfl⟩
  case h_13 =>
    cases h
    exact .inr (.inr (.inr (.inr ⟨rfl, rfl, rfl⟩)))
  -- the other moves fill the staging directory, or raise
  all_goals
    repeat' split at h
    all_goals cases h
    all_goals simp [Filling]

/-- What stands below the backup root in a stage: `root` is what stood there before. -/
def Placed (set : Setting δ) (root backups : BackupRoot) : Stage → Prop
  | .started => backups = root
  | .published => 0 < set.retentionCount ∧ ∃ entries, publish set.name entries root = some backups
  | .returned =>
    ∃ entries, createBackup set.retentionCount set.name entries root .returned = some backups
  | .raised =>
    ∃ entries ending, ending ≠ .returned ∧ createBackup set.retentionCount set.name entries root ending = some backups
  | _ => 0 < set.retentionCount ∧ backups = root

omit [DecidableEq δ] in
theorem placed_filling {backups : BackupRoot} {stage : Stage} (h : Filling stage) :
    Placed set root backups stage ↔ 0 < set.retentionCount ∧ backups = root := by
  cases stage <;> first | exact Iff.rfl | exact h.elim

omit [DecidableEq δ] in
/-- The retention fails before it removes anything. -/
theorem placed_fail {backups : BackupRoot} (h : Placed set root backups .published) :
    Placed set root backups .raised := by
  obtain ⟨hpos, entries, hplaced⟩ := h
  have hguard : ¬ set.retentionCount < 1 := by omega
  have hall : Dict.only backups (fun n => n ∉ ([] : List String)) = backups :=
    List.filter_eq_self.mpr fun _ _ => decide_eq_true List.not_mem_nil
  cases hexpired : ((backupDirectories backups).drop set.retentionCount)[0]? with
  | none =>
    refine ⟨entries, .pruning 0 [], by simp, ?_⟩
    simp only [createBackup, if_neg hguard, hplaced, Option.map_some, hexpired, List.take_zero]
    exact congrArg some hall
  | some n =>
    obtain ⟨left, hleft⟩ : ∃ left, backups.get n = some left := by
      have hsort := List.mem_of_mem_drop (List.mem_of_getElem? hexpired)
      exact Option.isSome_iff_exists.mp
        (Dict.isSome_get.mpr (List.mem_of_mem_filter ((List.mem_insertionSort _).mp hsort)))
    refine ⟨entries, .pruning 0 left, by simp, ?_⟩
    simp only [createBackup, if_neg hguard, hplaced, Option.map_some, hexpired, List.take_zero, Dict.set_get hleft]
    exact congrArg some hall

theorem placed_move {service : Service} {backups backups' : BackupRoot} {stage stage' : Stage} {m : Move}
    (hmove : stage.move set service backups m = some (stage', backups')) (h : Placed set root backups stage) :
    Placed set root backups' stage' := by
  rcases move_cases hmove with ⟨rfl, rfl⟩ | ⟨rfl, hpos, hfilling, rfl⟩ | ⟨hfilling, hfilling', rfl⟩ |
    ⟨staging, rfl, rfl, hplaced⟩ | ⟨rfl, rfl, rfl⟩
  · have hroot : ∀ backups, backups = root → Placed set root backups .raised := by
      rintro _ rfl
      exact ⟨[], .unpublished, nofun, rfl⟩
    by_cases hfilling : Filling stage
    · exact hroot _ ((placed_filling hfilling).mp h).2
    · cases stage with
      | started => exact hroot _ h
      | published => exact placed_fail h
      | returned => cases hmove
      | raised => cases hmove
      | _ => exact absurd trivial hfilling
  · exact (placed_filling hfilling).mpr ⟨hpos, h⟩
  · exact (placed_filling hfilling').mpr ((placed_filling hfilling).mp h)
  · obtain ⟨hpos, rfl⟩ := h
    exact ⟨hpos, staging, hplaced⟩
  · obtain ⟨hpos, entries, hplaced⟩ := h
    refine ⟨entries, ?_⟩
    rw [createBackup, if_neg (by omega), hplaced]
    rfl

omit [DecidableEq δ] in
theorem placed_notice {backups : BackupRoot} {stage : Stage} (a : Action) (h : Placed set root backups stage) :
    Placed set root backups (stage.notice a) := by
  unfold Stage.notice
  split
  · exact h
  · exact h

theorem placed_step {s t : System} {l : Label} (h : Placed set root s.backups s.stage)
    (hstep : s.step set l = some t) : Placed set root t.backups t.stage := by
  unfold System.step at hstep
  split at hstep
  next a =>
    split at hstep
    next =>
      cases hstep
      exact placed_notice a h
    next => cases hstep
  next m =>
    split at hstep
    next hmove =>
      cases hstep
      exact placed_move hmove h
    next => cases hstep

/-- A call that runs beside the service leaves the backups as `createBackup` does. -/
theorem run_createBackup {s t : System} {ls : List Label} (run : Run (System.step set) Free s ls t)
    (hs : s.stage = .started) (ht : t.stage = .returned ∨ t.stage = .raised) : ∃ entries ending,
      (t.stage = .returned ↔ ending = .returned) ∧
        createBackup set.retentionCount set.name entries s.backups ending = some t.backups := by
  have hinv : Placed set s.backups t.backups t.stage :=
    run.invariant (I := fun u => Placed set s.backups u.backups u.stage) (fun u l v hu _ hstep => placed_step hu hstep)
      (by rw [hs]; rfl)
  rcases ht with ht | ht
  · rw [ht] at hinv
    obtain ⟨entries, hcreate⟩ := hinv
    exact ⟨entries, .returned, by simp [ht], hcreate⟩
  · rw [ht] at hinv
    obtain ⟨entries, ending, hending, hcreate⟩ := hinv
    exact ⟨entries, ending, by simp [ht, hending], hcreate⟩

end

/-! ### Two calls of one second -/

namespace Taken

def second : Datetime :=
  ⟨2026, 7, 31, 10, 54, 25, 0, by decide, by decide, by decide, by decide, by decide, by decide, by decide⟩

def call (suffix : String) : Call := ⟨1, second, suffix, [], .returned⟩

/-- Each of two calls retains one backup; the later one draws the smaller suffix. -/
def calls : List Call := [call "ffffffff", call "00000000"]

end Taken

/-- The second call returns a directory that it has removed. -/
theorem not_retains_tie : ∃ root', Run step Free [] Taken.calls root' ∧ ¬ Run step Keeps [] Taken.calls root' ∧
    (Taken.call "00000000").name ∉ created root' := by
  have hexec : exec step Free [] Taken.calls = some [((Taken.call "ffffffff").name, [])] := by decide +kernel
  refine ⟨_, run_of_exec hexec, fun run => ?_, by decide +kernel⟩
  have hcalls : Taken.calls = [Taken.call "ffffffff"] ++ Taken.call "00000000" :: [] := rfl
  rw [hcalls] at run
  obtain ⟨u, v, -, hkeeps, hstep, hr⟩ := run.split_at
  cases hr
  exact absurd (hkeeps _ rfl hstep).present (by decide +kernel)

/-- The other way round, both keep their promises. -/
theorem retains_iff_ordered_tie : Run step Keeps [] Taken.calls.reverse [((Taken.call "ffffffff").name, [])] := by
  have hexec : exec step Ordered [] Taken.calls.reverse = some [((Taken.call "ffffffff").name, [])] := by decide +kernel
  exact (retains_iff_ordered (by decide)).mpr (run_of_exec hexec)

end AutomlApi.Backups.Retaining
