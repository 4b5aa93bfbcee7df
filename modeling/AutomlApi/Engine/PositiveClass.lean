import AutomlApi.Engine.Labels
import AutomlApi.Engine.Sklearn
import AutomlApi.Library.Integers
import AutomlApi.Packets.Answers

/-! The question for the positive class, from the exception that asks for it to the training
that has its answer. It closes for every column whose classes are handed out by `unique` and
by `map` as the same scalars. -/

namespace AutomlApi.Engine

open Packets (Question QuestionOption SelectionMode Values validatePacket validatePacketAnswers)

section Question

variable {F : Type} [Float64 F] [DecidableEq F]

/-- The scalars of JSON, compared with their types; none is a list. -/
def scalars : Values (Cell F) where
  items _ := none
  same := scalarEqual

/-- The value that comes back from its JSON text; an infinite number has none. -/
def roundTrip : Cell F → Option (Cell F)
  | .bool b => some (.bool b)
  | .int i => some (.int i)
  | .float x => if Float64.isInf x then none else some (.float x)
  | .str s => some (.str s)
  | .missing | .nested _ _ | .other _ => none

-- `repr` of Python
variable (repr : Cell F → String)

/-- `str(value).strip()`. -/
def label (value : Cell F) : List Char := Integers.strip value.text.toList

def recommendedClass (classes : List (Cell F)) : Option (Cell F) :=
  if classes.length = 2 ∧ (∀ value ∈ classes, label value = ['0'] ∨ label value = ['1']) ∧
      (∃ value ∈ classes, label value = ['0']) ∧ ∃ value ∈ classes, label value = ['1'] then
    classes.find? fun value => label value = ['1']
  else none

def classOption (recommendation : Option (Cell F)) (value : Cell F) : QuestionOption (Cell F) where
  value := value
  label := value.text
  consequence := "Treat " ++ repr value ++ " as the positive outcome."
  risk := if recommendation.any (scalarEqual value) then "LOW" else "MEDIUM"
  riskReason :=
    if recommendation.any (scalarEqual value) then "This matches the conventional positive label for 0/1 targets."
    else "Class orientation changes precision/recall interpretation and threshold metrics."

/-- `_positive_class_question`. -/
def positiveClassQuestion (classes : List (Cell F)) : Question (Cell F) where
  questionId := "q_positive_class"
  prompt := "Which target value is the positive class?"
  selectionMode := some .single
  minSelections := some 1
  maxSelections := some 1
  options := classes.map (classOption repr (recommendedClass classes))
  recommendation := recommendedClass classes
  recommendationReason := some (
    if (recommendedClass classes).isSome then
      "The target labels are the conventional 0/1 encoding; 1 is the positive class."
    else "Class meaning is a business decision.")

end Question

variable {F : Type} [Float64 F] [DecidableEq F]

theorem scalarEqual_iff {a b : Cell F} : scalarEqual a b = true ↔ a.sameType b = true ∧ a.key = b.key := by
  simp [scalarEqual]

theorem scalarEqual_self (a : Cell F) : scalarEqual a a = true := by
  cases a <;> simp [scalarEqual, Cell.sameType]

theorem scalarEqual_comm (a b : Cell F) : scalarEqual a b = scalarEqual b a := by
  have htype : a.sameType b = b.sameType a := by cases a <;> cases b <;> rfl
  have hkey : (a.key == b.key) = (b.key == a.key) := Bool.beq_comm
  rw [scalarEqual, scalarEqual, htype, hkey]

/-! ### The first of each value -/

theorem mem_of_mem_firsts {l : List (Label F)} {c : Label F} (h : c ∈ firsts l) : c ∈ l := by
  induction l with
  | nil => cases h
  | cons d rest ih =>
    rcases List.mem_cons.mp h with rfl | h
    · exact List.mem_cons_self
    · exact List.mem_cons_of_mem _ (ih (List.mem_of_mem_filter h))

theorem exists_mem_firsts {l : List (Label F)} {c : Label F} (h : c ∈ l) : ∃ d ∈ firsts l, d.key = c.key := by
  induction l with
  | nil => cases h
  | cons e rest ih =>
    by_cases hkey : e.key = c.key
    · exact ⟨e, List.mem_cons_self, hkey⟩
    · rcases List.mem_cons.mp h with rfl | h
      · exact absurd rfl hkey
      · obtain ⟨d, hd, hdc⟩ := ih h
        have hkeep : d.key ≠ e.key := fun heq => hkey (heq ▸ hdc)
        exact ⟨d, List.mem_cons_of_mem _ (List.mem_filter.mpr ⟨hd, by simpa using hkeep⟩), hdc⟩

theorem pairwise_firsts (l : List (Label F)) : (firsts l).Pairwise fun c d => c.key ≠ d.key := by
  induction l with
  | nil => exact List.Pairwise.nil
  | cons c rest ih =>
    refine List.pairwise_cons.mpr ⟨fun d hd => ?_, ih.sublist List.filter_sublist⟩
    have hne : d.key ≠ c.key := by simpa using (List.mem_filter.mp hd).2
    exact hne.symm

/-- There is one for each value that a reading tells apart. -/
theorem length_firsts {α : Type} [DecidableEq α] {l : List (Label F)} {f : Label F → α}
    (hf : ∀ c ∈ l, ∀ d ∈ l, f c = f d ↔ c.key = d.key) : (firsts l).length = (l.map f).dedup.length := by
  have hnodup : ((firsts l).map f).Nodup := by
    refine List.pairwise_map.mpr ((pairwise_firsts l).imp_of_mem fun {c d} hc hd hne heq => hne ?_)
    exact (hf c (mem_of_mem_firsts hc) d (mem_of_mem_firsts hd)).mp heq
  have hsame : ∀ a, a ∈ (firsts l).map f ↔ a ∈ (l.map f).dedup := by
    intro a
    rw [List.mem_dedup]
    constructor
    · intro ha
      obtain ⟨c, hc, rfl⟩ := List.mem_map.mp ha
      exact List.mem_map_of_mem (mem_of_mem_firsts hc)
    · intro ha
      obtain ⟨c, hc, rfl⟩ := List.mem_map.mp ha
      obtain ⟨d, hd, hkey⟩ := exists_mem_firsts hc
      exact List.mem_map.mpr ⟨d, hd, (hf d (mem_of_mem_firsts hd) c hc).mpr hkey⟩
  have hperm := (List.perm_ext_iff_of_nodup hnodup (List.nodup_dedup _)).mpr hsame
  simpa using hperm.length_eq

/-! ### What training computes -/

omit [DecidableEq F] in
theorem keyed_mapM {values : List (Cell F)} {l : List (String × Cell F)} (h : values.mapM keyed = .ok l) :
    l.map Prod.snd = values ∧ ∀ value ∈ values, ∃ key, stableSortKey value = .ok key := by
  induction values generalizing l with
  | nil => cases h; simp
  | cons value rest ih =>
    rw [List.mapM_cons] at h
    obtain ⟨head, hhead, h⟩ := except_bind_eq_ok h
    obtain ⟨tail, htail, h⟩ := except_bind_eq_ok h
    obtain ⟨key, hkey, rfl⟩ := except_map_eq_ok hhead
    obtain ⟨hvalues, hkeys⟩ := ih htail
    cases h
    exact ⟨by rw [List.map_cons, hvalues], List.forall_mem_cons.mpr ⟨⟨key, hkey⟩, hkeys⟩⟩

omit [DecidableEq F] in
theorem typeError_of_mapM {values : List (Cell F)} {error : EngineError} (h : values.mapM keyed = .error error) :
    error = .typeError := by
  induction values with
  | nil => cases h
  | cons value rest ih =>
    rw [List.mapM_cons] at h
    cases hhead : keyed value with
    | error e =>
      rw [hhead] at h
      have he : e = .typeError := by cases value <;> simp_all [keyed, stableSortKey, Except.map]
      cases h
      exact he
    | ok head =>
      rw [hhead, except_ok_bind] at h
      cases htail : rest.mapM keyed with
      | error e =>
        rw [htail] at h
        cases h
        exact ih htail
      | ok tail =>
        rw [htail] at h
        cases h

variable {isoformat : Stamps → ℤ → String} {target : Target F} {metric : Option String} {classes : List (Cell F)}

theorem typeError_of_classes {error : EngineError} (h : target.classes isoformat = .error error) : error = .typeError := by
  unfold Target.classes at h
  cases hl : ((firsts target.cells).map (target.scalar isoformat)).mapM keyed with
  | error e =>
    rw [hl] at h
    cases h
    exact typeError_of_mapM hl
  | ok l =>
    rw [hl] at h
    cases h

theorem classes_of_chosen {l : List (Cell F)} {n : ℕ} (h : chosen l none = .error ⟨.positiveClassRequired n, classes⟩) :
    l = classes := by
  obtain ⟨e, he, hraised⟩ := except_mapError_eq_error h
  unfold choosePositiveClass at he
  dsimp only at he
  split at he
  · split at he <;> cases he
    cases hraised
    rfl
  · cases he
    cases hraised
    rfl

theorem classes_eq_ok (h : target.classes isoformat = .ok classes) :
    classes.Perm ((firsts target.cells).map (target.scalar isoformat)) ∧
      ∀ value ∈ classes, ∃ key, stableSortKey value = .ok key := by
  obtain ⟨l, hl, rfl⟩ := except_map_eq_ok h
  obtain ⟨hvalues, hkeys⟩ := keyed_mapM hl
  have hperm : ((l.insertionSort fun a b => a.1 ≤ b.1).map Prod.snd).Perm (l.map Prod.snd) :=
    (List.perm_insertionSort _ l).map Prod.snd
  rw [hvalues] at hperm
  exact ⟨hperm, fun value hvalue => hkeys value (hperm.subset hvalue)⟩

/-- The classes are the scalars of the cells. -/
theorem mem_classes (h : target.classes isoformat = .ok classes) {value : Cell F} (hvalue : value ∈ classes) :
    ∃ c ∈ target.cells, target.scalar isoformat c = value := by
  obtain ⟨c, hc, hscalar⟩ := List.mem_map.mp ((classes_eq_ok h).1.subset hvalue)
  exact ⟨c, mem_of_mem_firsts hc, hscalar⟩

/-- Training that asks for the positive class names its classes. -/
theorem classes_of_raised {n : ℕ}
    (h : encodeTarget isoformat target none metric = .error ⟨.positiveClassRequired n, classes⟩) :
    target.classes isoformat = .ok classes := by
  unfold encodeTarget at h
  rcases except_bind_eq_error h with h | ⟨l, hl, h⟩
  · obtain ⟨e, he, hraised⟩ := except_mapError_eq_error h
    have htype := typeError_of_classes he
    cases hraised
    cases htype
  rcases except_bind_eq_error h with h | ⟨selected, -, h⟩
  · rw [except_mapError_eq_ok hl, classes_of_chosen h]
  rcases except_bind_eq_error h with h | ⟨-, -, h⟩
  · unfold refuse at h
    split at h <;> cases h
  rcases except_bind_eq_error h with h | ⟨m, -, h⟩
  · obtain ⟨e, he, hraised⟩ := except_mapError_eq_error h
    unfold binaryMetric validatePrimaryMetric at he
    dsimp only at he
    split at he <;> cases he
    cases hraised
  · cases h

/-- Training encodes the rows by a class that it was given. -/
theorem encodeTarget_eq_ok {requested : Option (Cell F)} {codes : List ℕ} :
    (∃ task, encodeTarget isoformat target requested metric = .ok (codes, task)) ↔
      ∃ classes selected, target.classes isoformat = .ok classes ∧ chosen classes requested = .ok selected ∧
        codes = target.encoded isoformat selected ∧ (0 ∈ codes ∧ 1 ∈ codes) ∧ ∃ m, binaryMetric metric = .ok m := by
  unfold encodeTarget
  constructor
  · rintro ⟨task, h⟩
    obtain ⟨classes, hclasses, h⟩ := except_bind_eq_ok h
    obtain ⟨selected, hselected, h⟩ := except_bind_eq_ok h
    obtain ⟨hboth, h⟩ := refuse_bind_eq_ok h
    obtain ⟨m, hm, h⟩ := except_bind_eq_ok h
    cases h
    exact ⟨classes, selected, except_mapError_eq_ok hclasses, hselected, rfl, not_not.mp hboth, m, except_mapError_eq_ok hm⟩
  · rintro ⟨classes, selected, hclasses, hselected, rfl, hboth, m, hm⟩
    rw [hclasses]
    change ∃ task, (chosen classes requested >>= _) = _
    rw [hselected, except_ok_bind, refuse, if_neg (not_not.mpr hboth), except_ok_bind, hm]
    exact ⟨_, rfl⟩

theorem chosen_some {answer selected : Cell F} :
    chosen classes (some answer) = .ok selected ↔ classes.find? (scalarEqual · answer) = some selected := by
  unfold chosen choosePositiveClass
  dsimp only
  cases classes.find? (scalarEqual · answer) <;> simp [Except.mapError]

/-! ### The two ways in which a cell is handed out -/

/-- Not a column of times without a zone that is not categorical. -/
def Target.Plain (target : Target F) : Prop :=
  target.categorical = true ∨ ∀ unit, target.kind ≠ .stamp (.datetime unit none) ∧ target.kind ≠ .stamp (.timedelta unit)

omit [Float64 F] [DecidableEq F] in
theorem scalar_mapped (hplain : target.Plain) {c : Label F} (hc : c ∈ target.cells) :
    jsonScalar isoformat (c.mapped isoformat) = target.scalar isoformat c := by
  have hkind := target.typed c hc
  unfold Target.scalar
  cases c with
  | stamp k n =>
    cases k with
    | datetime unit zone =>
      cases zone with
      | some zone => rfl
      | none =>
        rcases hplain with hcategorical | hno
        · rw [hcategorical]
          rfl
        · exact absurd hkind.symm (hno unit).1
    | timedelta unit =>
      rcases hplain with hcategorical | hno
      · rw [hcategorical]
        rfl
      · exact absurd hkind.symm (hno unit).2
  | _ => cases target.categorical <;> rfl

/-- The cells of a type are told apart as scalars. -/
theorem scalarEqual_mapped (hiso : ∀ k, Function.Injective (isoformat k)) {c d : Label F} (h : c.kind = d.kind) :
    scalarEqual (jsonScalar isoformat (c.mapped isoformat)) (jsonScalar isoformat (d.mapped isoformat)) = true ↔
      c.key = d.key := by
  rw [scalarEqual_iff]
  cases c <;> cases d <;> try cases h
  case stamp.stamp.refl k n m =>
    cases k <;> simp [Label.mapped, jsonScalar, Label.cell, Cell.sameType, Cell.key, Label.key, (hiso _).eq_iff]
  all_goals simp [Label.mapped, jsonScalar, Label.cell, Cell.sameType, Label.key]

omit [DecidableEq F] in
theorem key_cell (hiso : ∀ k, Function.Injective (isoformat k)) {c d : Label F} (h : c.kind = d.kind) :
    (c.cell isoformat).key = (d.cell isoformat).key ↔ c.key = d.key := by
  cases c <;> cases d <;> try cases h
  case stamp.stamp.refl k n m => simp [Label.cell, Cell.key, Label.key, (hiso k).eq_iff]
  all_goals simp [Label.cell, Label.key]

/-- The times of a column that is not plain are numbers as classes, and no row has a number. -/
theorem not_scalarEqual_of_not_plain (hplain : ¬ target.Plain) {c d : Label F} (hc : c ∈ target.cells)
    (hd : d ∈ target.cells) {key : String} (hkey : stableSortKey (target.scalar isoformat d) = .ok key) :
    scalarEqual (jsonScalar isoformat (c.mapped isoformat)) (target.scalar isoformat d) = false := by
  unfold Target.Plain at hplain
  push Not at hplain
  obtain ⟨hcategorical, unit, hno⟩ := hplain
  have hc := target.typed c hc
  have hd := target.typed d hd
  have hfalse : target.categorical = false := by simpa using hcategorical
  unfold Target.scalar at hkey ⊢
  rw [hfalse] at hkey ⊢
  by_cases hdatetime : target.kind = .stamp (.datetime unit none)
  · rw [hdatetime] at hc hd
    cases c <;> cases hc
    cases d <;> cases hd
    simp only [Label.unique, Label.mapped, jsonScalar, Label.item, Bool.false_eq_true, if_false]
    split <;> rfl
  · have htimedelta := hno hdatetime
    rw [htimedelta] at hc hd
    cases c <;> cases hc
    cases d <;> cases hd
    simp only [Label.unique, Label.mapped, jsonScalar, Label.item, Bool.false_eq_true, if_false] at hkey ⊢
    split at hkey
    · cases hkey
    · next hnot =>
      simp [hnot, Label.cell, scalarEqual, Cell.sameType]

/-- There are as many classes as the column has values. -/
theorem length_classes (hiso : ∀ k, Function.Injective (isoformat k)) {requested : Option String}
    (hbinary : resolveTaskType (target.series isoformat) requested = .ok .binaryClassification)
    (h : target.classes isoformat = .ok classes) : classes.length = 2 := by
  have hkeys : ∀ c ∈ target.cells, ∀ d ∈ target.cells,
      (c.cell isoformat).key = (d.cell isoformat).key ↔ c.key = d.key := fun c hc d hd =>
    key_cell hiso ((target.typed c hc).trans (target.typed d hd).symm)
  have hlength := length_firsts hkeys
  rw [(classes_eq_ok h).1.length_eq, List.length_map, hlength]
  unfold resolveTaskType at hbinary
  obtain ⟨count, hcount, hbinary⟩ := except_bind_eq_ok hbinary
  have hcount := distinct_eq_ok hcount
  have htwo : count = 2 := by
    cases requested with
    | none =>
      dsimp only at hbinary
      split at hbinary
      · assumption
      · split at hbinary
        · cases hbinary
        · split at hbinary <;> cases hbinary
    | some requested =>
      dsimp only at hbinary
      split at hbinary
      · split at hbinary
        · cases hbinary
        · next hne => exact not_not.mp hne
      · split at hbinary
        · split at hbinary <;> cases hbinary
        · cases hbinary
  rw [← htwo, hcount]
  simp [Target.series, List.map_map, Function.comp_def]

/-! ### The packet and its answers -/

variable {repr : Cell F → String}

omit [DecidableEq F] in
theorem mem_of_recommendedClass {r : Cell F} (h : recommendedClass classes = some r) : r ∈ classes := by
  unfold recommendedClass at h
  split at h
  · exact List.mem_of_find?_eq_some h
  · cases h

theorem offers_class {value : Cell F} (h : value ∈ classes) : (positiveClassQuestion repr classes).Offers scalars value :=
  ⟨_, List.mem_map_of_mem h, scalarEqual_self value⟩

theorem validate_question {a b : Cell F} (h : scalarEqual a b = false) :
    (positiveClassQuestion repr [a, b]).validate scalars = .ok () := by
  have hoptions : (positiveClassQuestion repr [a, b]).options.Pairwise
      fun previous option => ¬ scalars.same option.value previous.value := by
    have hback : scalarEqual b a = false := by rw [scalarEqual_comm, h]
    simp [positiveClassQuestion, classOption, scalars, hback]
  have hoffered : ∀ value ∈ (positiveClassQuestion repr [a, b]).recommended scalars,
      (positiveClassQuestion repr [a, b]).Offers scalars value := by
    intro value hvalue
    have hrecommended : recommendedClass [a, b] = some value := Option.mem_toList.mp hvalue
    exact offers_class (mem_of_recommendedClass hrecommended)
  have hmode : (positiveClassQuestion repr [a, b]).mode = .single := rfl
  have hminimum : (positiveClassQuestion repr [a, b]).minimum = 1 := rfl
  have hmaximum : (positiveClassQuestion repr [a, b]).maximum = 1 := rfl
  have hlast : ¬ ((positiveClassQuestion repr [a, b]).options ≠ [] ∧
      ∃ value ∈ (positiveClassQuestion repr [a, b]).recommended scalars,
        ¬ (positiveClassQuestion repr [a, b]).Offers scalars value) := by
    rintro ⟨-, value, hvalue, hmissing⟩
    exact hmissing (hoffered value hvalue)
  unfold Question.validate
  rw [hmode, hminimum, hmaximum, refuse, if_neg (by decide), except_ok_bind, refuse, if_neg (by decide), except_ok_bind,
    refuse, if_neg (by decide), except_ok_bind, refuse, if_neg (not_not.mpr hoptions), except_ok_bind, refuse,
    if_neg (by simp), except_ok_bind, refuse, if_neg (by simp), except_ok_bind, refuse, if_neg (by simp), except_ok_bind,
    refuse, if_neg hlast]

theorem validatePacket_question {a b : Cell F} (h : scalarEqual a b = false) :
    validatePacket scalars [positiveClassQuestion repr [a, b]] = .ok () := by
  unfold validatePacket
  rw [refuse, if_neg (by simp), except_ok_bind]
  change ((positiveClassQuestion repr [a, b]).validate scalars >>= _) >>= _ = _
  rw [validate_question h]
  simp [refuse]

/-- A class is accepted as the answer. -/
theorem accepted_class {a b value : Cell F} (h : scalarEqual a b = false) (hvalue : value ∈ [a, b]) :
    ∃ d, validatePacketAnswers scalars [positiveClassQuestion repr [a, b]] [("q_positive_class", value)] = .ok d := by
  have hpacket : validatePacket scalars [positiveClassQuestion repr [a, b]] = .ok () := validatePacket_question h
  obtain ⟨hvalid, hids⟩ := Packets.valid_of_packet hpacket
  refine (Packets.accepted_iff hids).mpr ⟨⟨?_, ?_⟩, ?_⟩
  · simp [positiveClassQuestion]
  · simp [positiveClassQuestion]
  · intro q hq given hgiven
    rw [Packets.checkAnswer_eq_ok (hvalid q hq)]
    rw [List.mem_singleton] at hq hgiven
    subst hq
    cases hgiven
    exact ⟨rfl, fun _ => offers_class hvalue⟩

/-! ### Scalars of JSON -/

omit [DecidableEq F] in
theorem roundTrip_of_key {value : Cell F} {key : String} (hkey : stableSortKey value = .ok key) (hmissing : value ≠ .missing)
    (hfinite : ∀ x, value = .float x → Float64.isInf x = false) : roundTrip value = some value := by
  cases value with
  | float x => rw [roundTrip, hfinite x rfl]; rfl
  | missing => exact absurd rfl hmissing
  | nested s hashable => cases hkey
  | other s => cases hkey
  | _ => rfl

omit [Float64 F] [DecidableEq F] in
theorem mapped_ne_missing (c : Label F) : jsonScalar isoformat (c.mapped isoformat) ≠ .missing := by
  cases c with
  | stamp k n => cases k <;> simp [Label.mapped, jsonScalar, Label.cell]
  | _ => simp [Label.mapped, jsonScalar, Label.cell]

omit [Float64 F] [DecidableEq F] in
theorem eq_float_of_mapped {c : Label F} {x : F} (h : jsonScalar isoformat (c.mapped isoformat) = .float x) : c = .float x := by
  cases c with
  | stamp k n => cases k <;> cases h
  | float y => cases h; rfl
  | _ => cases h

/-! ### Exactly when the question closes -/

/-- The classes make a valid packet, and training has its labels with the answer of each. -/
structure Closes (isoformat : Stamps → ℤ → String) (repr : Cell F → String) (target : Target F) (metric : Option String)
    (classes : List (Cell F)) : Prop where
  two : ∃ a b, classes = [a, b] ∧ scalarEqual a b = false ∧ (roundTrip a).isSome ∧ (roundTrip b).isSome
  packet : validatePacket scalars [positiveClassQuestion repr classes] = .ok ()
  answered : ∀ value ∈ classes, ∃ answer, roundTrip value = some answer ∧
    (∃ d, validatePacketAnswers scalars [positiveClassQuestion repr classes] [("q_positive_class", answer)] = .ok d) ∧
    ∃ c ∈ target.cells, target.scalar isoformat c = value ∧ ∃ task,
      encodeTarget isoformat target (some answer) metric =
        .ok (target.cells.map (fun row => if row.key = c.key then 1 else 0), task)

/-- No number of the column is infinite. -/
def Target.Finite (target : Target F) : Prop := ∀ x, .float x ∈ target.cells → Float64.isInf x = false

theorem plain_of_closes (h : Closes isoformat repr target metric classes) : target.Plain := by
  by_contra hplain
  obtain ⟨a, b, rfl, -⟩ := h.two
  obtain ⟨answer, -, -, c, hc, -, task, htask⟩ := h.answered a List.mem_cons_self
  obtain ⟨classes, selected, hclasses, hselected, hcodes, ⟨-, hone⟩, -⟩ := encodeTarget_eq_ok.mp ⟨task, htask⟩
  rw [hcodes] at hone
  obtain ⟨row, hrow, hcode⟩ := List.mem_map.mp hone
  have hmem := List.mem_of_find?_eq_some (chosen_some.mp hselected)
  obtain ⟨d, hd, rfl⟩ := mem_classes hclasses hmem
  obtain ⟨key, hkey⟩ := (classes_eq_ok hclasses).2 _ hmem
  rw [not_scalarEqual_of_not_plain hplain hrow hd hkey] at hcode
  cases hcode

theorem finite_of_closes (hinf : ∀ x : F, Float64.isInf x = true → Float64.toInt? x = none)
    (hclasses : target.classes isoformat = .ok classes) (h : Closes isoformat repr target metric classes) :
    target.Finite := by
  intro x hx
  by_contra hinfinite
  have hinfinite : Float64.isInf x = true := by simpa using hinfinite
  obtain ⟨c, hc, hkey⟩ := exists_mem_firsts hx
  have hcell : c = .float x := by
    have hkind := (target.typed c (mem_of_mem_firsts hc)).trans (target.typed _ hx).symm
    cases c <;> cases hkind
    next y =>
    have hy : Float64.toInt? y = none ∧ y = x := by
      cases hint : Float64.toInt? y <;> simp_all [Label.key, Label.cell, Cell.key]
    rw [hy.2]
  have hvalue : target.scalar isoformat c ∈ classes :=
    (classes_eq_ok hclasses).1.mem_iff.mpr (List.mem_map_of_mem hc)
  have hscalar : target.scalar isoformat c = .float x := by
    rw [← scalar_mapped (plain_of_closes h) (mem_of_mem_firsts hc), hcell]
    rfl
  obtain ⟨answer, hanswer, -⟩ := h.answered _ hvalue
  rw [hscalar, roundTrip, if_pos hinfinite] at hanswer
  cases hanswer

/-- Training has its labels with the answer of a class of a plain column. -/
theorem encodeTarget_of_class (hiso : ∀ k, Function.Injective (isoformat k)) (hplain : target.Plain)
    (hclasses : target.classes isoformat = .ok classes) (hlength : classes.length = 2) {m : String}
    (hmetric : binaryMetric metric = .ok m) {c : Label F} (hc : c ∈ target.cells)
    (hvalue : target.scalar isoformat c ∈ classes) : ∃ task,
      encodeTarget isoformat target (some (target.scalar isoformat c)) metric =
        .ok (target.cells.map (fun row => if row.key = c.key then 1 else 0), task) := by
  have hequal : ∀ d ∈ target.cells, ∀ e ∈ target.cells,
      scalarEqual (target.scalar isoformat d) (target.scalar isoformat e) = true ↔ d.key = e.key := by
    intro d hd e he
    rw [← scalar_mapped hplain hd, ← scalar_mapped hplain he]
    exact scalarEqual_mapped hiso ((target.typed d hd).trans (target.typed e he).symm)
  obtain ⟨selected, hselected⟩ : ∃ selected, classes.find? (scalarEqual · (target.scalar isoformat c)) = some selected :=
    Option.isSome_iff_exists.mp (List.find?_isSome.mpr ⟨_, hvalue, scalarEqual_self _⟩)
  obtain ⟨d, hd, rfl⟩ := mem_classes hclasses (List.mem_of_find?_eq_some hselected)
  have hkey : d.key = c.key := (hequal d hd c hc).mp (by simpa using List.find?_some hselected)
  have hcodes : target.encoded isoformat (target.scalar isoformat d) =
      target.cells.map (fun row => if row.key = c.key then 1 else 0) := by
    refine List.map_congr_left fun row hrow => ?_
    rw [scalar_mapped hplain hrow]
    by_cases hsame : row.key = c.key
    · rw [if_pos hsame, (hequal row hrow d hd).mpr (hsame.trans hkey.symm)]
      rfl
    · have hne : ¬ scalarEqual (target.scalar isoformat row) (target.scalar isoformat d) = true := fun h =>
        hsame (((hequal row hrow d hd).mp h).trans hkey)
      rw [if_neg hsame, Bool.eq_false_iff.mpr hne]
      rfl
  have hother : ∃ row ∈ target.cells, row.key ≠ c.key := by
    by_contra hall
    push Not at hall
    have hone : (firsts target.cells).length ≤ 1 := by
      have hpairwise := pairwise_firsts target.cells
      match hfirsts : firsts target.cells with
      | [] => simp
      | [e] => simp
      | e :: f :: rest =>
        rw [hfirsts] at hpairwise
        have hne := (List.pairwise_cons.mp hpairwise).1 f List.mem_cons_self
        have he := hall e (mem_of_mem_firsts (by rw [hfirsts]; exact List.mem_cons_self))
        have hf := hall f (mem_of_mem_firsts (by rw [hfirsts]; exact List.mem_cons_of_mem _ List.mem_cons_self))
        exact absurd (he.trans hf.symm) hne
    have htwo := (classes_eq_ok hclasses).1.length_eq
    rw [List.length_map] at htwo
    omega
  obtain ⟨other, hmem, hne⟩ := hother
  refine encodeTarget_eq_ok.mpr ⟨classes, _, hclasses, chosen_some.mpr hselected, hcodes.symm, ⟨?_, ?_⟩, m, hmetric⟩
  · exact List.mem_map.mpr ⟨other, hmem, if_neg hne⟩
  · exact List.mem_map.mpr ⟨c, hc, if_pos rfl⟩

/-- Two values of a column are two classes. -/
theorem pairwise_classes (hiso : ∀ k, Function.Injective (isoformat k)) (hplain : target.Plain)
    (hclasses : target.classes isoformat = .ok classes) : classes.Pairwise fun a b => scalarEqual a b = false := by
  have hsymm : ∀ a b : Cell F, scalarEqual a b = false → scalarEqual b a = false := fun a b h => by
    rw [scalarEqual_comm, h]
  refine ((classes_eq_ok hclasses).1.pairwise_iff (fun {a b} => hsymm a b)).mpr ?_
  refine List.pairwise_map.mpr ((pairwise_firsts target.cells).imp_of_mem fun {c d} hc hd hne => ?_)
  have hc := mem_of_mem_firsts hc
  have hd := mem_of_mem_firsts hd
  rw [← scalar_mapped hplain hc, ← scalar_mapped hplain hd]
  refine Bool.eq_false_iff.mpr fun h => hne ?_
  exact (scalarEqual_mapped hiso ((target.typed c hc).trans (target.typed d hd).symm)).mp h

theorem closes_iff (isoformat : Stamps → ℤ → String) (repr : Cell F → String)
    (hiso : ∀ k, Function.Injective (isoformat k)) (hinf : ∀ x : F, Float64.isInf x = true → Float64.toInt? x = none)
    (target : Target F) (requested metric : Option String) (n : ℕ) (classes : List (Cell F))
    (hbinary : resolveTaskType (target.series isoformat) requested = .ok .binaryClassification)
    (hraised : encodeTarget isoformat target none metric = .error ⟨.positiveClassRequired n, classes⟩) :
    Closes isoformat repr target metric classes ↔ target.Plain ∧ target.Finite ∧ ∃ m, binaryMetric metric = .ok m := by
  have hclasses := classes_of_raised hraised
  constructor
  · intro h
    refine ⟨plain_of_closes h, finite_of_closes hinf hclasses h, ?_⟩
    obtain ⟨a, b, rfl, -⟩ := h.two
    obtain ⟨answer, -, -, c, -, -, task, htask⟩ := h.answered a List.mem_cons_self
    obtain ⟨-, -, -, -, -, -, hmetric⟩ := encodeTarget_eq_ok.mp ⟨task, htask⟩
    exact hmetric
  · rintro ⟨hplain, hfinite, m, hmetric⟩
    have hlength := length_classes hiso hbinary hclasses
    obtain ⟨a, b, rfl⟩ := List.length_eq_two.mp hlength
    have hdistinct : scalarEqual a b = false :=
      (List.pairwise_cons.mp (pairwise_classes hiso hplain hclasses)).1 b List.mem_cons_self
    have hback : ∀ value ∈ [a, b], roundTrip value = some value := by
      intro value hvalue
      obtain ⟨key, hkey⟩ := (classes_eq_ok hclasses).2 value hvalue
      obtain ⟨c, hc, rfl⟩ := mem_classes hclasses hvalue
      rw [← scalar_mapped hplain hc] at hkey ⊢
      refine roundTrip_of_key hkey (mapped_ne_missing c) fun x hx => hfinite x ?_
      exact eq_float_of_mapped hx ▸ hc
    refine ⟨⟨a, b, rfl, hdistinct, ?_, ?_⟩, validatePacket_question hdistinct, fun value hvalue => ?_⟩
    · rw [hback a (by simp)]
      rfl
    · rw [hback b (by simp)]
      rfl
    · obtain ⟨c, hc, rfl⟩ := mem_classes hclasses hvalue
      exact ⟨_, hback _ hvalue, accepted_class hdistinct hvalue, c, hc, rfl,
        encodeTarget_of_class hiso hplain hclasses hlength hmetric hc hvalue⟩

def churned : Target ℚ where
  name := "churned"
  kind := .str
  cells := [.str "yes", .str "no", .str "no"]
  typed := by decide

theorem closes_churned :
    Closes (fun _ n => String.ofList (Scalar.intText n)) Cell.text churned none [.str "no", .str "yes"] ↔
      churned.Plain ∧ churned.Finite ∧ ∃ m, binaryMetric none = .ok m :=
  closes_iff (fun _ n => String.ofList (Scalar.intText n)) Cell.text
    (fun _ _ _ h => Scalar.intText_inj (String.ofList_injective h)) (fun _ h => absurd h Bool.false_ne_true) churned none none 2 _
    (by decide +kernel) (by decide +kernel)

/-- Two days, as `datetime64[ns]`. -/
def renewed : Target ℚ where
  name := "renewed"
  kind := .stamp (.datetime .ns none)
  cells := [.stamp (.datetime .ns none) 1704067200000000000, .stamp (.datetime .ns none) 1704153600000000000]
  typed := by decide

def renewedText (_ : Stamps) (n : ℤ) : String :=
  if n = 1704067200000000000 then "2024-01-01T00:00:00" else "2024-01-02T00:00:00"

/-- The classes are numbers, and training refuses the column with each of them. -/
theorem not_closes :
    resolveTaskType (renewed.series renewedText) none = .ok .binaryClassification ∧
      encodeTarget renewedText renewed none none =
        .error ⟨.positiveClassRequired 2, [.int 1704067200000000000, .int 1704153600000000000]⟩ ∧
      encodeTarget renewedText renewed (some (.int 1704067200000000000)) none = .error ⟨.invalidTarget, []⟩ ∧
      encodeTarget renewedText renewed (some (.int 1704153600000000000)) none = .error ⟨.invalidTarget, []⟩ ∧
      ¬ Closes renewedText Cell.text renewed none [.int 1704067200000000000, .int 1704153600000000000] := by
  refine ⟨by decide +kernel, by decide +kernel, by decide +kernel, by decide +kernel, fun h => ?_⟩
  rcases plain_of_closes h with hcategorical | hno
  · cases hcategorical
  · exact (hno .ns).1 rfl

end AutomlApi.Engine
