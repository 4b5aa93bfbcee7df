import AutomlApi.Backups.Files

/-! The state of the running service as a backup sees it: the files below `objects`, and the
database with the records that name one of them. A record is readable when it is READY or
COMMITTED; before that its bytes have become visible by one rename, and after that it is
revoked before its bytes are removed. -/

namespace AutomlApi.Backups

inductive Standing where
  | pending
  /-- READY of a dataset version, COMMITTED of an artifact. -/
  | readable
  /-- DELETED of a version, DELETING and DELETED of an artifact: final. -/
  | revoked
  deriving DecidableEq

/-- A dataset version or an artifact. -/
structure Record where
  standing : Standing
  blobKey : Path
  sizeBytes : ℕ
  sha256 : String
  deriving DecidableEq

structure Database where
  records : Dict String Record
  /-- Whatever else the tables hold: jobs and their leases, runs, deletions, counters. -/
  rest : String
  deriving DecidableEq

structure Service where
  objects : Listing
  database : Database
  ticketSecret : Option Bytes

/-- What the service does to its files and to its database. -/
inductive Action where
  /-- A file gets its content: by one rename, or while it is written under another name. -/
  | write (path : Path) (bytes : Bytes)
  | mkdir (path : Path)
  | remove (path : Path)
  | record (id : String) (r : Record)
  | touch (rest : String)

/-- The names that a file system has. -/
def Ordinary (path : Path) : Prop := path ≠ [] ∧ ∀ part ∈ path, part ≠ ".." ∧ '/' ∉ part.toList

instance (path : Path) : Decidable (Ordinary path) := inferInstanceAs (Decidable (_ ∧ ∀ part ∈ path, _))

/-- No readable record names the path. -/
def Database.Free (d : Database) (path : Path) : Prop := ∀ p ∈ d.records, p.2.standing = .readable → p.2.blobKey ≠ path

instance (d : Database) (path : Path) : Decidable (d.Free path) := inferInstanceAs (Decidable (∀ p ∈ d.records, _))

/-- A readable record is only revoked, and a revoked one stays revoked. -/
def Follows : Option Record → Record → Prop
  | none, _ => True
  | some r, r' =>
    match r.standing with
    | .pending => True
    | .readable => r' = { r with standing := .revoked }
    | .revoked => r'.standing = .revoked

instance (o : Option Record) (r' : Record) : Decidable (Follows o r') := by
  unfold Follows
  split
  · exact inferInstance
  · split <;> exact inferInstance

variable (sha256 : Bytes → String)

/-- The bytes are the record's. -/
def Record.Stored (r : Record) : Option Leaf → Prop
  | some (.file bytes) => bytes.length = r.sizeBytes ∧ sha256 bytes = r.sha256
  | _ => False

instance (r : Record) (l : Option Leaf) : Decidable (r.Stored sha256 l) := by
  unfold Record.Stored
  split <;> exact inferInstance

def Service.act (s : Service) : Action → Option Service
  | .write path bytes =>
    if Ordinary path ∧ s.database.Free path then some { s with objects := Dict.set s.objects path (.file bytes) } else none
  | .mkdir path =>
    if Ordinary path ∧ Dict.get s.objects path = none then some { s with objects := Dict.set s.objects path .folder } else none
  | .remove path => if s.database.Free path then some { s with objects := Dict.erase s.objects path } else none
  | .record id r =>
    if Follows (s.database.records.get id) r ∧ (r.standing = .readable → r.Stored sha256 (Dict.get s.objects r.blobKey)) then
      some { s with database := { s.database with records := s.database.records.set id r } }
    else none
  | .touch rest => some { s with database := { s.database with rest } }

/-- The bytes of every readable record are visible. -/
structure Service.Sound (s : Service) : Prop where
  named : ∀ e ∈ s.objects, Ordinary e.1
  visible : ∀ id r, s.database.records.get id = some r → r.standing = .readable → r.Stored sha256 (Dict.get s.objects r.blobKey)

/-- From the first content to the second a readable record is there still or revoked, and a
revoked one is revoked still. -/
def Progress (d d' : Database) : Prop :=
  ∀ id r, d.records.get id = some r →
    (r.standing = .readable → d'.records.get id = some r ∨ ∃ r', d'.records.get id = some r' ∧ r'.standing = .revoked) ∧
    (r.standing = .revoked → ∃ r', d'.records.get id = some r' ∧ r'.standing = .revoked)

theorem Progress.refl (d : Database) : Progress d d := fun _ r h => ⟨fun _ => .inl h, fun hr => ⟨r, h, hr⟩⟩

theorem Progress.trans {d d' d'' : Database} (h : Progress d d') (h' : Progress d' d'') : Progress d d'' := by
  intro id r hr
  have hrevoked : (∃ r', d'.records.get id = some r' ∧ r'.standing = .revoked) →
      ∃ r', d''.records.get id = some r' ∧ r'.standing = .revoked := by
    rintro ⟨r', hr', hs⟩
    exact (h' id r' hr').2 hs
  refine ⟨fun hs => ?_, fun hs => hrevoked ((h id r hr).2 hs)⟩
  rcases (h id r hr).1 hs with hsame | hgone
  · exact (h' id r hsame).1 hs
  · exact .inr (hrevoked hgone)

variable {sha256} {s s' : Service} {a : Action}

theorem progress_act (h : s.act sha256 a = some s') : Progress s.database s'.database := by
  cases a with
  | write path bytes =>
    obtain ⟨-, rfl⟩ := Option.ite_none_right_eq_some.mp h |>.imp_right Option.some.inj
    exact .refl _
  | mkdir path =>
    obtain ⟨-, rfl⟩ := Option.ite_none_right_eq_some.mp h |>.imp_right Option.some.inj
    exact .refl _
  | remove path =>
    obtain ⟨-, rfl⟩ := Option.ite_none_right_eq_some.mp h |>.imp_right Option.some.inj
    exact .refl _
  | touch rest =>
    cases h
    exact Progress.refl s.database
  | record id r' =>
    obtain ⟨⟨hfollows, -⟩, rfl⟩ := Option.ite_none_right_eq_some.mp h |>.imp_right Option.some.inj
    intro id₁ r hr
    simp only [Dict.get_set]
    by_cases hid : id₁ = id
    · subst hid
      rw [hr] at hfollows
      simp only [if_true, Option.some.injEq]
      refine ⟨fun hs => .inr ⟨r', rfl, ?_⟩, fun hs => ⟨r', rfl, ?_⟩⟩
      · simp only [Follows, hs] at hfollows
        rw [hfollows]
      · simpa only [Follows, hs] using hfollows
    · simp only [hid, if_false]
      exact Progress.refl s.database id₁ r hr

/-- The bytes of a readable record are not written over and not removed. -/
theorem get_act (h : s.act sha256 a = some s') {id : String} {r : Record} (hr : s.database.records.get id = some r)
    (hs : r.standing = .readable) {l : Leaf} (hl : Dict.get s.objects r.blobKey = some l) :
    Dict.get s'.objects r.blobKey = some l := by
  cases a with
  | write path bytes =>
    obtain ⟨⟨-, hfree⟩, rfl⟩ := Option.ite_none_right_eq_some.mp h |>.imp_right Option.some.inj
    simp only [Dict.get_set, if_neg (hfree _ (Dict.mem_of_get hr) hs)]
    exact hl
  | mkdir path =>
    obtain ⟨⟨-, hnone⟩, rfl⟩ := Option.ite_none_right_eq_some.mp h |>.imp_right Option.some.inj
    have hne : r.blobKey ≠ path := by
      rintro rfl
      rw [hnone] at hl
      cases hl
    simp only [Dict.get_set, if_neg hne]
    exact hl
  | remove path =>
    obtain ⟨hfree, rfl⟩ := Option.ite_none_right_eq_some.mp h |>.imp_right Option.some.inj
    simp only [Dict.get_erase, if_neg (hfree _ (Dict.mem_of_get hr) hs)]
    exact hl
  | touch rest =>
    cases h
    exact hl
  | record id r' =>
    obtain ⟨-, rfl⟩ := Option.ite_none_right_eq_some.mp h |>.imp_right Option.some.inj
    exact hl

theorem Record.Stored.isSome {r : Record} {l : Option Leaf} (h : r.Stored sha256 l) : ∃ bytes, l = some (.file bytes) := by
  unfold Record.Stored at h
  split at h
  · exact ⟨_, rfl⟩
  · exact h.elim

theorem sound_act (h : s.act sha256 a = some s') (hsound : s.Sound sha256) : s'.Sound sha256 := by
  have hold : ∀ id r, s.database.records.get id = some r → r.standing = .readable →
      r.Stored sha256 (Dict.get s'.objects r.blobKey) := fun id r hr hs => by
    have hstored := hsound.visible id r hr hs
    obtain ⟨bytes, hbytes⟩ := hstored.isSome
    rwa [get_act h hr hs hbytes, ← hbytes]
  cases a with
  | write path bytes =>
    obtain ⟨⟨hordinary, -⟩, rfl⟩ := Option.ite_none_right_eq_some.mp h |>.imp_right Option.some.inj
    refine ⟨fun e he => ?_, hold⟩
    rcases Dict.mem_set he with rfl | he
    · exact hordinary
    · exact hsound.named e he
  | mkdir path =>
    obtain ⟨⟨hordinary, -⟩, rfl⟩ := Option.ite_none_right_eq_some.mp h |>.imp_right Option.some.inj
    refine ⟨fun e he => ?_, hold⟩
    rcases Dict.mem_set he with rfl | he
    · exact hordinary
    · exact hsound.named e he
  | remove path =>
    obtain ⟨-, rfl⟩ := Option.ite_none_right_eq_some.mp h |>.imp_right Option.some.inj
    exact ⟨fun e he => hsound.named e (List.mem_of_mem_filter he), hold⟩
  | touch rest =>
    cases h
    exact ⟨hsound.named, hold⟩
  | record id r' =>
    obtain ⟨⟨-, hstored⟩, rfl⟩ := Option.ite_none_right_eq_some.mp h |>.imp_right Option.some.inj
    refine ⟨hsound.named, fun id₁ r hr hs => ?_⟩
    rw [Dict.get_set] at hr
    by_cases hid : id₁ = id
    · rw [if_pos hid] at hr
      cases hr
      exact hstored hs
    · rw [if_neg hid] at hr
      exact hold id₁ r hr hs

end AutomlApi.Backups
