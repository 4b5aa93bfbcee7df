import AutomlApi.Uploads.Finalizing

/-! What a call of `finalize_upload` leaves, in any order of its steps with those that write
parts: the object of the declared bytes, or nothing new. Only what may fail after the
rename leaves more than that: the mode of the new object is set when it already stands
under its name, and a temporary file that cannot be removed stays. -/

namespace AutomlApi.Uploads

-- Only the elements of a list are asked, not every character.
attribute [local instance (2000)] List.decidableBAll List.decidableBEx

open Runs

variable {sha256 : Bytes → String} {maxPartBytes : Option ℕ} {r : Request}

/-- Neither the mode of the new object nor the removal of the temporary file fails. -/
def Smooth : System → Label → Prop
  | _, .finalize .chmodFails => False
  | _, .finalize .unlinkFails => False
  | _, _ => True

instance (s : System) (l : Label) : Decidable (Smooth s l) := by
  unfold Smooth
  split <;> exact inferInstance

section

variable (sha256 maxPartBytes r)

/-- At some time of the run the part had this content. -/
def PartWas (s : System) (ls : List Label) (number : ℤ) (bytes : Bytes) : Prop :=
  ∃ ls₁ ls₂ u, ls = ls₁ ++ ls₂ ∧ Run (System.step sha256 maxPartBytes r) Smooth s ls₁ u ∧ u.files.parts.get number = some bytes

variable (destination : Option Bytes) (was : ℤ → Bytes → Prop)

/-- Nothing was there before, and the object has been made of the parts. -/
def Made (f : Files) : Prop :=
  destination = none ∧ ∃ read, List.Forall₂ (fun p b => was p.partNumber b) r.supplied read ∧
    f.destination = some read.flatten ∧ r.Declares sha256 read.flatten

/-- The parts before `todo` have been read into the temporary file, up to `seen`. -/
structure Reading (todo : List Part) (read : List Bytes) (seen : Bytes) (f : Files) : Prop where
  absent : destination = none
  same : f.destination = destination
  checked : r.checked = .ok ()
  temporary : f.temporary = some seen
  parts : ∃ done, r.supplied = done ++ todo ∧ List.Forall₂ (fun p b => was p.partNumber b) done read

/-- What is known where the call stands. -/
def Stage.Holds (f : Files) : Stage → Prop
  | .started => f.destination = destination ∧ f.temporary = none
  | .checking => (f.destination = destination ∧ f.temporary = none) ∧ r.checked = .ok ()
  | .opening => (f.destination = destination ∧ destination = none) ∧ r.checked = .ok ()
  | .choosing todo read seen => Reading r destination was todo read seen f ∧ read.flatten = seen
  | .hashing part todo read seen => Reading r destination was (part :: todo) read seen f ∧ read.flatten = seen
  | .entering part todo read seen => Reading r destination was (part :: todo) read seen f ∧ read.flatten = seen
  | .copying todo read seen rest => Reading r destination was todo read seen f ∧ read.flatten = seen ++ rest
  | .flushed read seen => Reading r destination was [] read seen f ∧ read.flatten = seen
  | .renamed _ seen =>
    (r.checked = .ok () ∧ f.temporary = none) ∧ Made sha256 r destination was f ∧ r.Declares sha256 seen
  | .leaving (.ok info) => (r.checked = .ok () ∧ f.temporary = none) ∧ Made sha256 r destination was f ∧ info = r.info
  | .leaving (.error _) => f.destination = destination
  | .returned info => r.checked = .ok () ∧ info = r.info ∧
      (Made sha256 r destination was f ∨ ∃ bytes, destination = some bytes ∧ f.destination = some bytes ∧ r.Declares sha256 bytes)
  | .raised _ => f.destination = destination ∧ f.temporary = none

end

variable {destination : Option Bytes} {was was' : ℤ → Bytes → Prop} {f f' : Files} {stage stage' : Stage}

theorem contiguous_of_checked (h : r.checked = .ok ()) : r.Contiguous := by
  obtain ⟨hc, -⟩ := refuse_bind_eq_ok h
  exact not_not.mp hc

theorem declares_of_complete {seen : Bytes} (h : complete sha256 r seen = .ok ()) : r.Declares sha256 seen := by
  obtain ⟨hsize, h⟩ := refuse_bind_eq_ok h
  refine ⟨not_not.mp hsize, ?_⟩
  by_contra hne
  rw [refuse, if_pos hne] at h
  cases h

/-- A step of the call. -/
theorem holds_move (hwas : ∀ n b, f.parts.get n = some b → was n b) {m : Move}
    (hm : stage.move sha256 r f m = some (stage', f')) (h : stage.Holds sha256 r destination was f)
    (hchmod : m ≠ .chmodFails) (hunlink : m ≠ .unlinkFails) : stage'.Holds sha256 r destination was f' := by
  unfold Stage.move at hm
  split at hm
  next =>
    split at hm
    next => cases hm; exact h
    next hchecked =>
      split at hm
      next => cases hm; exact ⟨h, hchecked⟩
      next hnone =>
        cases hm
        exact ⟨⟨h.1, by rw [← h.1]; simpa using hnone⟩, hchecked⟩
  next =>
    split at hm
    next bytes hbytes =>
      split at hm
      next hdeclares =>
        cases hm
        refine ⟨h.2, ?_, .inr ⟨bytes, h.1.1 ▸ hbytes, hbytes, hdeclares⟩⟩
        rw [hdeclares.1, hdeclares.2]
        rfl
      next => cases hm; exact h.1
    next => cases hm; exact h.1
  next =>
    cases hm
    exact ⟨⟨h.1.2, h.1.1, h.2, rfl, [], rfl, .nil⟩, rfl⟩
  next => cases hm; exact h
  next =>
    split at hm
    next => cases hm; exact h.1.same
    next =>
      split at hm
      next => cases hm; exact h
      next => cases hm; exact h.1.same
  next =>
    split at hm
    next => cases hm; exact h.1.same
    next => cases hm; exact h
  next part todo read seen =>
    split at hm
    next => cases hm; exact h.1.same
    next bytes hbytes =>
      cases hm
      obtain ⟨done, hsupplied, hread⟩ := h.1.parts
      refine ⟨⟨h.1.absent, h.1.same, h.1.checked, h.1.temporary, done ++ [part], by simp [hsupplied], ?_⟩, ?_⟩
      · exact List.rel_append hread (.cons (hwas _ _ hbytes) .nil)
      · rw [List.flatten_append, h.2]
        simp
  next =>
    cases hm
    exact ⟨h.1, by simpa using h.2⟩
  next todo read seen byte rest =>
    cases hm
    refine ⟨⟨h.1.absent, h.1.same, h.1.checked, by simp [h.1.temporary], h.1.parts⟩, ?_⟩
    rw [List.append_assoc, List.take_append_drop]
    exact h.2
  next read seen =>
    split at hm
    next => cases hm; exact h.1.same
    next hcomplete =>
      cases hm
      have hdeclares := declares_of_complete hcomplete
      obtain ⟨done, hsupplied, hread⟩ := h.1.parts
      refine ⟨⟨h.1.checked, rfl⟩, ⟨h.1.absent, read, ?_, ?_, h.2 ▸ hdeclares⟩, hdeclares⟩
      · rw [hsupplied, List.append_nil]
        exact hread
      · rw [h.2]
        exact h.1.temporary
  next =>
    cases hm
    refine ⟨h.1, h.2.1, ?_⟩
    rw [h.2.2.1]
    rfl
  next => exact absurd rfl hchmod
  next => cases hm; exact ⟨h.1.1, h.2.2, .inl h.2.1⟩
  next => cases hm; exact ⟨h, rfl⟩
  next => exact absurd rfl hunlink
  next => cases hm; exact h
  next => cases hm; exact h.1
  next => cases hm; exact h.1.1
  next => cases hm; exact h.1.same
  next => cases hm; exact h.1.same
  next => cases hm; exact h.1.same
  next => cases hm; exact h.1.same
  next => cases hm; exact h.1.same
  next => cases hm

/-- More contents that a part may have had. -/
theorem Stage.Holds.mono (h : stage.Holds sha256 r destination was f) (hwas : ∀ n b, was n b → was' n b)
    (hd : f'.destination = f.destination) (ht : f'.temporary = f.temporary) : stage.Holds sha256 r destination was' f' := by
  have hall : ∀ {l : List Part} {read : List Bytes}, List.Forall₂ (fun p b => was p.partNumber b) l read →
      List.Forall₂ (fun p b => was' p.partNumber b) l read := fun hl => hl.imp fun _ _ => hwas _ _
  have hmade : Made sha256 r destination was f → Made sha256 r destination was' f' := by
    rintro ⟨hnone, read, hread, hrest⟩
    exact ⟨hnone, read, hall hread, by rwa [hd]⟩
  have hreading : ∀ {todo read seen}, Reading r destination was todo read seen f →
      Reading r destination was' todo read seen f' := by
    rintro todo read seen ⟨habsent, hsame, hchecked, htemporary, done, hsupplied, hread⟩
    exact ⟨habsent, hd.trans hsame, hchecked, ht.trans htemporary, done, hsupplied, hall hread⟩
  cases stage with
  | started | checking | opening => simpa only [Stage.Holds, hd, ht] using h
  | choosing | hashing | entering | copying | flushed => exact ⟨hreading h.1, h.2⟩
  | renamed => exact ⟨by rw [ht]; exact h.1, hmade h.2.1, h.2.2⟩
  | leaving result =>
    cases result with
    | ok info => exact ⟨by rw [ht]; exact h.1, hmade h.2.1, h.2.2⟩
    | error e => exact hd.trans h
  | returned info => exact ⟨h.1, h.2.1, h.2.2.imp hmade (by rw [hd]; exact id)⟩
  | raised e => exact ⟨hd.trans h.1, ht.trans h.2⟩

/-- The object that was there stays. -/
theorem Stage.Holds.kept (h : stage.Holds sha256 r destination was f) {bytes : Bytes} (hbytes : destination = some bytes) :
    f.destination = some bytes := by
  have hmade : ¬ Made sha256 r destination was f := fun hmade => by
    rw [hbytes] at hmade
    exact absurd hmade.1 (by simp)
  have hreading : ∀ {todo read seen}, ¬ Reading r destination was todo read seen f := fun hreading => by
    have := hbytes.symm.trans hreading.absent
    cases this
  cases stage with
  | started => exact h.1.trans hbytes
  | checking => exact h.1.1.trans hbytes
  | opening => exact h.1.1.trans hbytes
  | choosing | hashing | entering | copying | flushed => exact absurd h.1 hreading
  | renamed => exact absurd h.2.1 hmade
  | leaving result =>
    cases result with
    | ok info => exact absurd h.2.1 hmade
    | error e => exact h.trans hbytes
  | returned info =>
    obtain ⟨bytes', hold, hnew, -⟩ := h.2.2.resolve_left hmade
    rw [hnew, ← hold, hbytes]
  | raised e => exact h.1.trans hbytes

/-- Where an object has appeared, it is the one that the request declares. -/
theorem Stage.Holds.appeared (h : stage.Holds sha256 r destination was f)
    (happeared : (∃ info, stage = .returned info) ∨ destination = none ∧ f.destination ≠ none) :
    r.checked = .ok () ∧ ∃ bytes, f.destination = some bytes ∧ r.Declares sha256 bytes := by
  have hmade : Made sha256 r destination was f → ∃ bytes, f.destination = some bytes ∧ r.Declares sha256 bytes := by
    rintro ⟨-, read, -, hread, hdeclares⟩
    exact ⟨_, hread, hdeclares⟩
  have hreturned : ∀ info, stage = .returned info →
      r.checked = .ok () ∧ ∃ bytes, f.destination = some bytes ∧ r.Declares sha256 bytes := by
    rintro info rfl
    refine ⟨h.1, h.2.2.elim hmade ?_⟩
    rintro ⟨bytes, -, hbytes, hdeclares⟩
    exact ⟨bytes, hbytes, hdeclares⟩
  rcases happeared with ⟨info, hstage⟩ | ⟨hnone, hsome⟩
  · exact hreturned info hstage
  · cases stage with
    | started => exact absurd (h.1.trans hnone) hsome
    | checking => exact absurd (h.1.1.trans hnone) hsome
    | opening => exact absurd (h.1.1.trans hnone) hsome
    | choosing | hashing | entering | copying | flushed => exact absurd (h.1.same.trans hnone) hsome
    | renamed => exact ⟨h.1.1, hmade h.2.1⟩
    | leaving result =>
      cases result with
      | ok info => exact ⟨h.1.1, hmade h.2.1⟩
      | error e => exact absurd (h.trans hnone) hsome
    | returned info => exact hreturned info rfl
    | raised e => exact absurd (h.1.trans hnone) hsome

/-! ### Runs -/

/-- What a part has had at the end of a run. -/
theorem partWas_end {s t : System} {ls : List Label} (h : Run (System.step sha256 maxPartBytes r) Smooth s ls t) (n : ℤ)
    (b : Bytes) (hb : t.files.parts.get n = some b) : PartWas sha256 maxPartBytes r s ls n b :=
  ⟨ls, [], t, (List.append_nil ls).symm, h, hb⟩

theorem PartWas.append {s : System} {ls : List Label} {n : ℤ} {b : Bytes} (h : PartWas sha256 maxPartBytes r s ls n b) (l : Label) :
    PartWas sha256 maxPartBytes r s (ls ++ [l]) n b := by
  obtain ⟨ls₁, ls₂, u, rfl, hrun, hget⟩ := h
  exact ⟨ls₁, ls₂ ++ [l], u, List.append_assoc _ _ _, hrun, hget⟩

/-- The call has not begun. -/
structure System.Start (s : System) : Prop where
  stage : s.stage = .started
  temporary : s.files.temporary = none

theorem holds_run {s t : System} {ls : List Label} (h : Run (System.step sha256 maxPartBytes r) Smooth s ls t) (hs : s.Start) :
    t.stage.Holds sha256 r s.files.destination (PartWas sha256 maxPartBytes r s ls) t.files := by
  refine h.history (I := fun ls u => u.stage.Holds sha256 r s.files.destination (PartWas sha256 maxPartBytes r s ls) u.files) ?_ ?_
  · rw [hs.stage]
    exact ⟨rfl, hs.temporary⟩
  · intro ls u l v hrun hu hok hstep
    have hmono : u.stage.Holds sha256 r s.files.destination (PartWas sha256 maxPartBytes r s (ls ++ [l])) u.files :=
      hu.mono (fun n b h => h.append l) rfl rfl
    cases l with
    | put call m =>
      unfold System.step at hstep
      simp only at hstep
      split at hstep
      next =>
        cases hstep
        exact hmono.mono (fun _ _ h => h) rfl rfl
      next => cases hstep
    | finalize m =>
      unfold System.step at hstep
      simp only at hstep
      split at hstep
      next stage files hm =>
        cases hstep
        exact holds_move (fun n b hb => (partWas_end hrun n b hb).append _) hm hmono
          (by rintro rfl; exact hok) (by rintro rfl; exact hok)
      next => cases hstep

section

variable (sha256 maxPartBytes r)

/-- READY means verified bytes: what the call may leave between `s` and `t`. -/
structure Verified (s : System) (ls : List Label) (t : System) : Prop where
  returned : ∀ info, t.stage = .returned info → r.Contiguous ∧ info = r.info ∧
    ((∃ bytes, s.files.destination = some bytes ∧ t.files.destination = some bytes ∧ r.Declares sha256 bytes) ∨
      s.files.destination = none ∧ ∃ contents,
        List.Forall₂ (fun p b => PartWas sha256 maxPartBytes r s ls p.partNumber b) r.supplied contents ∧
        t.files.destination = some contents.flatten ∧ r.Declares sha256 contents.flatten)
  raised : ∀ e, t.stage = .raised e → t.files.destination = s.files.destination ∧ t.files.temporary = none
  kept : ∀ bytes, s.files.destination = some bytes → t.files.destination = some bytes
  /-- The call again, from the files that any end of the first one may leave. -/
  again : (∃ info, t.stage = .returned info) ∨ s.files.destination = none ∧ t.files.destination ≠ none →
    ∃ u v, System.step sha256 maxPartBytes r ⟨{ t.files with temporary := none }, t.puts, .started⟩ (.finalize .start) = some u ∧
      System.step sha256 maxPartBytes r u (.finalize .hashExisting) = some v ∧ v.stage = .returned r.info

end

/-- In every run in which nothing fails after the rename. -/
theorem ready_means_verified {s t : System} {ls : List Label} (h : Run (System.step sha256 maxPartBytes r) Smooth s ls t)
    (hs : s.Start) : Verified sha256 maxPartBytes r s ls t := by
  have hholds := holds_run h hs
  refine ⟨fun info hstage => ?_, fun e hstage => ?_, fun bytes hbytes => hholds.kept hbytes, fun happeared => ?_⟩
  · rw [hstage] at hholds
    refine ⟨contiguous_of_checked hholds.1, hholds.2.1, hholds.2.2.elim (fun hmade => .inr hmade) .inl⟩
  · rw [hstage] at hholds
    exact hholds
  · obtain ⟨hchecked, bytes, hbytes, hdeclares⟩ := hholds.appeared happeared
    refine ⟨⟨{ t.files with temporary := none }, t.puts, .checking⟩, ⟨{ t.files with temporary := none }, t.puts, .returned r.info⟩,
      ?_, ?_, rfl⟩
    · simp only [System.step, Stage.move, hchecked, hbytes, Option.isSome_some, if_true]
    · simp only [System.step, Stage.move, hbytes, hdeclares, if_true]
      rw [hdeclares.1, hdeclares.2]
      rfl

/-! ### An upload of two parts -/

namespace Example

def digest (bytes : Bytes) : String :=
  if bytes = [1] then "4bf5122f344554c53bde2ebb8cd2b7e3d1600ad631c385a5d7cce23c7785459a"
  else if bytes = [2] then "dbc1b4c900ffe48d575b5da5c638040125f65db0fe3e24494b76ea986457d986"
  else if bytes = [1, 2] then "a12871fee210fb8619291eaea194581cbd2531e4b23759d225f6806923f63222"
  else ""

/-- The parts are declared in another order. -/
def request : Request where
  tenantId := "tenant_a"
  datasetVersionId := "dsv_00000001"
  uploadId := "upl_00000001"
  parts := [⟨2, etagOf (digest [2])⟩, ⟨1, etagOf (digest [1])⟩]
  expectedSize := 2
  expectedSha256 := digest [1, 2]

def start : System := ⟨⟨[(1, [1]), (2, [2])], none, none⟩, [], .started⟩

/-- The first part is replaced while the call reads it. -/
def labels : List Label :=
  [.finalize .start, .put 0 (.start 1), .finalize .openTemporary, .finalize .choose, .finalize .hashPart, .finalize .openPart,
    .put 0 (.chunk [9]), .put 0 .rename, .finalize .readChunk, .finalize .readChunk, .finalize .choose, .finalize .hashPart,
    .finalize .openPart, .finalize .readChunk, .finalize .readChunk, .finalize .choose, .finalize .publish]

theorem start_start : start.Start := ⟨rfl, rfl⟩

theorem verified_of_smooth : ∃ t, t.stage = .returned request.info ∧ t.files.destination = some [1, 2] ∧
    Verified digest none request start (labels ++ [.finalize .chmod, .finalize .unlink]) t := by
  have hexec : (exec (System.step digest none request) Smooth start (labels ++ [.finalize .chmod, .finalize .unlink])).any
      (fun t => decide (t.stage = .returned request.info ∧ t.files.destination = some [1, 2])) = true := by decide +kernel
  obtain ⟨t, ht, hend⟩ := Option.any_eq_true _ _ |>.mp hexec
  obtain ⟨hstage, hdestination⟩ := of_decide_eq_true hend
  exact ⟨t, hstage, hdestination, ready_means_verified (run_of_exec ht) start_start⟩

/-- The call raises when the mode of the new object cannot be set; and the object is there. -/
theorem raised_with_object : ∃ t, Run (System.step digest none request) Free start (labels ++ [.finalize .chmodFails, .finalize .unlink]) t ∧
    ¬ Verified digest none request start (labels ++ [.finalize .chmodFails, .finalize .unlink]) t := by
  have hexec : (exec (System.step digest none request) Free start (labels ++ [.finalize .chmodFails, .finalize .unlink])).any
      (fun t => decide (t.stage = .raised .osError ∧ t.files.destination = some [1, 2])) = true := by decide +kernel
  obtain ⟨t, ht, hend⟩ := Option.any_eq_true _ _ |>.mp hexec
  obtain ⟨hstage, hdestination⟩ := of_decide_eq_true hend
  refine ⟨t, run_of_exec ht, fun hverified => ?_⟩
  have hsame := (hverified.raised _ hstage).1
  rw [hdestination] at hsame
  cases hsame

end Example

end AutomlApi.Uploads
