import AutomlApi.Packets.Questions
import Mathlib.Data.List.Dedup

/-! Which answers the check accepts, and which recommendations of a packet it accepts as
answers. -/

namespace AutomlApi.Packets

open Requests (APIProblem)

section Fits

variable {V : Type} (py : Values V) (q : Question V) (value : V)

/-- No two of the values are the same. -/
def Distinct (values : List V) : Prop := values.Pairwise fun a b => ¬ py.same a b

instance (values : List V) : Decidable (Distinct py values) := inferInstanceAs (Decidable (List.Pairwise _ _))

/-- The value answers the question. -/
def Question.Fits : Prop :=
  if q.mode = .multiple then
    ∃ values, py.items value = some values ∧ Distinct py values ∧ q.minimum ≤ values.length ∧ values.length ≤ q.maximum ∧
      (q.options ≠ [] → ∀ selected ∈ values, q.Offers py selected)
  else py.items value = none ∧ (q.options ≠ [] → q.Offers py value)

/-- The same of a list that may repeat a value. -/
def Question.Counts : Prop :=
  if q.mode = .multiple then
    ∃ values, py.items value = some values ∧ q.minimum ≤ values.length ∧ values.length ≤ q.maximum ∧
      (q.options ≠ [] → ∀ selected ∈ values, q.Offers py selected)
  else py.items value = none ∧ (q.options ≠ [] → q.Offers py value)

/-- A list that repeats a value. -/
def Question.Repeats : Prop := q.mode = .multiple ∧ ∃ values, py.items value = some values ∧ ¬ Distinct py values

/-- The value is a list exactly where the question takes lists, an empty one only where it
takes none. -/
def Question.Shaped : Prop :=
  if q.mode = .multiple then py.items value = some [] → q.minimum = 0 else py.items value = none

theorem fits_iff : q.Fits py value ↔ q.Counts py value ∧ ¬ q.Repeats py value := by
  unfold Question.Fits Question.Counts Question.Repeats
  by_cases hmode : q.mode = .multiple
  · rw [if_pos hmode, if_pos hmode]
    constructor
    · rintro ⟨values, hitems, hdistinct, hcounts⟩
      refine ⟨⟨values, hitems, hcounts⟩, ?_⟩
      rintro ⟨-, others, hothers, hrepeats⟩
      rw [hitems] at hothers
      cases hothers
      exact hrepeats hdistinct
    · rintro ⟨⟨values, hitems, hcounts⟩, hno⟩
      have hdistinct : Distinct py values := by
        by_contra hrepeats
        exact hno ⟨hmode, values, hitems, hrepeats⟩
      exact ⟨values, hitems, hdistinct, hcounts⟩
  · rw [if_neg hmode, if_neg hmode]
    constructor
    · intro h
      exact ⟨h, fun hrepeats => hmode hrepeats.1⟩
    · intro h
      exact h.1

end Fits

variable {V : Type} {py : Values V} {q : Question V} {questions : List (Question V)} {answers : List (String × V)}

/-! ### What the model accepts -/

/-- What the model has checked of a question. -/
structure Question.Valid (py : Values V) (q : Question V) : Prop where
  single : q.mode ≠ .multiple → q.minimum = 1 ∧ q.maximum = 1
  list : q.mode = .multiple → ∀ r ∈ q.recommendation, py.items r ≠ none
  count : q.mode = .multiple → q.recommended py ≠ [] →
    q.minimum ≤ (q.recommended py).length ∧ (q.recommended py).length ≤ q.maximum
  offered : q.options ≠ [] → ∀ value ∈ q.recommended py, q.Offers py value

theorem valid_of_validate (h : q.validate py = .ok ()) : q.Valid py := by
  obtain ⟨-, h⟩ := refuse_bind_eq_ok h
  obtain ⟨-, h⟩ := refuse_bind_eq_ok h
  obtain ⟨hsingle, h⟩ := refuse_bind_eq_ok h
  obtain ⟨-, h⟩ := refuse_bind_eq_ok h
  obtain ⟨-, h⟩ := refuse_bind_eq_ok h
  obtain ⟨hlist, h⟩ := refuse_bind_eq_ok h
  obtain ⟨hcount, h⟩ := refuse_bind_eq_ok h
  have hoffered := refuse_eq_ok.mp h
  refine ⟨fun hmode => ?_, fun hmode r hr hnone => hlist ⟨hmode, r, hr, hnone⟩, fun hmode hne => ?_, fun hne value hvalue => ?_⟩
  · by_contra hcounts
    exact hsingle ⟨hmode, by omega⟩
  · by_contra hcounts
    exact hcount ⟨hmode, hne, hcounts⟩
  · by_contra hmissing
    exact hoffered ⟨hne, value, hvalue, hmissing⟩

theorem valid_of_packet (h : validatePacket py questions = .ok ()) :
    (∀ q ∈ questions, q.Valid py) ∧ (questions.map Question.questionId).Nodup := by
  obtain ⟨-, h⟩ := refuse_bind_eq_ok h
  obtain ⟨u, hquestions, h⟩ := except_bind_eq_ok h
  exact ⟨fun q hq => valid_of_validate (except_forM_eq_ok.mp hquestions q hq), not_not.mp (refuse_eq_ok.mp h)⟩

/-! ### One answer -/

theorem selections_eq_ok {value : V} {values : List V} : q.selections py value = .ok values ↔
    if q.mode = .multiple then py.items value = some values else py.items value = none ∧ values = [value] := by
  unfold Question.selections
  cases q.mode <;> cases py.items value <;> simp [eq_comm]

theorem checkAnswer_eq_ok (hq : q.Valid py) (value : V) : q.checkAnswer py value = .ok () ↔ q.Counts py value := by
  have hcheck : q.checkAnswer py value = .ok () ↔ ∃ values, q.selections py value = .ok values ∧
      (q.minimum ≤ values.length ∧ values.length ≤ q.maximum) ∧
      ¬ (q.options ≠ [] ∧ ∃ selected ∈ values, ¬ q.Offers py selected) := by
    constructor
    · intro h
      obtain ⟨values, hvalues, h⟩ := except_bind_eq_ok h
      obtain ⟨hcount, h⟩ := refuse_bind_eq_ok h
      exact ⟨values, hvalues, not_not.mp hcount, refuse_eq_ok.mp h⟩
    · rintro ⟨values, hvalues, hcount, hoffered⟩
      unfold Question.checkAnswer
      rw [hvalues, except_ok_bind, refuse, if_neg (not_not.mpr hcount), except_ok_bind]
      exact refuse_eq_ok.mpr hoffered
  rw [hcheck]
  unfold Question.Counts
  simp only [selections_eq_ok, not_and, not_exists, not_not]
  by_cases hmode : q.mode = .multiple
  · simp only [if_pos hmode, and_assoc]
  · obtain ⟨hminimum, hmaximum⟩ := hq.single hmode
    simp [if_neg hmode, hminimum, hmaximum]

/-! ### The answers of a request -/

/-- One answer for each question, and none for another id. -/
def Complete (questions : List (Question V)) (answers : List (String × V)) : Prop :=
  (∀ q ∈ questions, (answers.map Prod.fst).count q.questionId = 1) ∧
    ∀ id ∈ answers.map Prod.fst, id ∈ questions.map Question.questionId

/-- What the check is for. -/
def Exact (py : Values V) (questions : List (Question V)) (answers : List (String × V)) : Prop :=
  Complete questions answers ∧ ∀ q ∈ questions, ∀ value, (q.questionId, value) ∈ answers → q.Fits py value

theorem nodup_of_complete (h : Complete questions answers) : (answers.map Prod.fst).Nodup := by
  rw [List.nodup_iff_count_le_one]
  intro id
  by_cases hid : id ∈ answers.map Prod.fst
  · obtain ⟨q, hq, rfl⟩ := List.mem_map.mp (h.2 id hid)
    exact (h.1 q hq).le
  · rw [List.count_eq_zero_of_not_mem hid]
    exact Nat.zero_le 1

theorem complete_iff_keys : Complete questions answers ↔
    (answers.map Prod.fst).Nodup ∧ ∀ id, id ∈ answers.map Prod.fst ↔ id ∈ questions.map Question.questionId := by
  constructor
  · intro h
    refine ⟨nodup_of_complete h, fun id => ⟨h.2 id, fun hid => ?_⟩⟩
    obtain ⟨q, hq, rfl⟩ := List.mem_map.mp hid
    exact List.count_pos_iff.mp (by rw [h.1 q hq]; exact Nat.one_pos)
  · rintro ⟨hnodup, hsame⟩
    exact ⟨fun q hq => List.count_eq_one_of_mem hnodup ((hsame _).mpr (List.mem_map_of_mem hq)), fun id => (hsame id).mp⟩

theorem checkAnswers_eq_ok {d : Dict String V} : checkAnswers py d questions = .ok () ↔
    ∀ q ∈ questions, ∃ value, d.get q.questionId = some value ∧ q.checkAnswer py value = .ok () := by
  induction questions with
  | nil => simp [checkAnswers]
  | cons q rest ih =>
    rw [List.forall_mem_cons, ← ih, checkAnswers]
    cases hget : d.get q.questionId with
    | none => simp
    | some value => cases hcheck : q.checkAnswer py value <;> simp [hcheck, Except.bind]

/-- The answers that pass are the dictionary that is made of them, and every question has one. -/
theorem keys_of_valid {d : Dict String V} (h : validatePacketAnswers py questions answers = .ok d) :
    d = answers ∧ ∀ q ∈ questions, q.questionId ∈ answers.map Prod.fst := by
  unfold validatePacketAnswers at h
  dsimp only at h
  split at h
  · cases h
  · next hgood =>
    push Not at hgood
    obtain ⟨hlength, -, -, hout⟩ := hgood
    have hnodup : (answers.map Prod.fst).Nodup :=
      Dict.nodup_of_length_update (d := []) List.nodup_nil (by simpa using hlength.symm)
    rw [Dict.update_of_nodup hnodup] at hout h
    obtain ⟨_, -, rfl⟩ := except_map_eq_ok h
    exact ⟨rfl, fun q hq => hout _ (List.mem_dedup.mpr (List.mem_map_of_mem hq))⟩

/-- The request is accepted: it has the questions' ids, each once, and each answer passes. -/
theorem accepted_iff (hids : (questions.map Question.questionId).Nodup) :
    (∃ d, validatePacketAnswers py questions answers = .ok d) ↔ Complete questions answers ∧
      ∀ q ∈ questions, ∀ value, (q.questionId, value) ∈ answers → q.checkAnswer py value = .ok () := by
  have hrequired : (questions.map Question.questionId).dedup = questions.map Question.questionId := hids.dedup
  unfold validatePacketAnswers
  simp only [hrequired]
  split
  · next hbad =>
    constructor
    · rintro ⟨d, hd⟩
      cases hd
    · rintro ⟨hcomplete, -⟩
      exfalso
      obtain ⟨hnodup, hsame⟩ := complete_iff_keys.mp hcomplete
      have hupdate : Dict.update [] answers = answers := Dict.update_of_nodup hnodup
      have hperm := (List.perm_ext_iff_of_nodup hnodup hids).mpr hsame
      have hlength : answers.length = (questions.map Question.questionId).length := by simpa using hperm.length_eq
      rw [hupdate] at hbad
      rcases hbad with hbad | hbad | hbad
      · exact hbad rfl
      · exact hbad hlength
      · exact hbad ⟨fun id => (hsame id).mp, fun id => (hsame id).mpr⟩
  · next hgood =>
    push Not at hgood
    obtain ⟨hlength, -, hin, hout⟩ := hgood
    have hnodup : (answers.map Prod.fst).Nodup :=
      Dict.nodup_of_length_update (d := []) List.nodup_nil (by simpa using hlength.symm)
    have hupdate : Dict.update [] answers = answers := Dict.update_of_nodup hnodup
    rw [hupdate] at hin hout ⊢
    have hcomplete : Complete questions answers := complete_iff_keys.mpr ⟨hnodup, fun id => ⟨hin id, hout id⟩⟩
    have hchecks : (∃ d, (checkAnswers py answers questions).map (fun _ => answers) = .ok d) ↔
        checkAnswers py answers questions = .ok () := by
      cases checkAnswers py answers questions <;> simp [Except.map]
    rw [hchecks, checkAnswers_eq_ok]
    constructor
    · intro h
      refine ⟨hcomplete, fun q hq value hvalue => ?_⟩
      obtain ⟨given, hgiven, hcheck⟩ := h q hq
      have hget : Dict.get answers q.questionId = some value := Dict.get_of_mem hnodup hvalue
      rw [hget] at hgiven
      cases hgiven
      exact hcheck
    · rintro ⟨-, h⟩ q hq
      obtain ⟨value, hvalue⟩ := Option.isSome_iff_exists.mp (Dict.isSome_get.mpr (hout _ (List.mem_map_of_mem hq)))
      exact ⟨value, hvalue, h q hq value (Dict.mem_of_get hvalue)⟩

/-! ### Exactly when the check is what it is for -/

/-- Nothing but a repeated value is wrong with a request that repeats one. -/
def Distinctly (py : Values V) (questions : List (Question V)) (answers : List (String × V)) : Prop :=
  Complete questions answers → (∀ q ∈ questions, ∀ value, (q.questionId, value) ∈ answers → q.Counts py value) →
    ∀ q ∈ questions, ∀ value, (q.questionId, value) ∈ answers → ¬ q.Repeats py value

theorem exact_iff (hpacket : validatePacket py questions = .ok ()) :
    ((∃ d, validatePacketAnswers py questions answers = .ok d) ↔ Exact py questions answers) ↔
      Distinctly py questions answers := by
  obtain ⟨hvalid, hids⟩ := valid_of_packet hpacket
  have hchecks : (∀ q ∈ questions, ∀ value, (q.questionId, value) ∈ answers → q.checkAnswer py value = .ok ()) ↔
      ∀ q ∈ questions, ∀ value, (q.questionId, value) ∈ answers → q.Counts py value :=
    forall₂_congr fun q hq => forall₂_congr fun value _ => checkAnswer_eq_ok (hvalid q hq) value
  rw [accepted_iff hids, hchecks]
  unfold Exact Distinctly
  simp only [fits_iff]
  constructor
  · intro h hcomplete hcounts q hq value hvalue
    exact ((h.mp ⟨hcomplete, hcounts⟩).2 q hq value hvalue).2
  · intro h
    constructor
    · rintro ⟨hcomplete, hcounts⟩
      exact ⟨hcomplete, fun q hq value hvalue => ⟨hcounts q hq value hvalue, h hcomplete hcounts q hq value hvalue⟩⟩
    · rintro ⟨hcomplete, hfits⟩
      exact ⟨hcomplete, fun q hq value hvalue => (hfits q hq value hvalue).1⟩

/-- An admitted recommendation counts as an answer exactly when it has the shape of one. -/
theorem counts_recommendation (hq : q.Valid py) {r : V} (hr : q.recommendation = some r) :
    q.Counts py r ↔ q.Shaped py r := by
  unfold Question.Counts Question.Shaped
  by_cases hmode : q.mode = .multiple
  · rw [if_pos hmode, if_pos hmode]
    obtain ⟨values, hvalues⟩ := Option.ne_none_iff_exists'.mp (hq.list hmode r hr)
    have hrecommended : q.recommended py = values := by simp [Question.recommended, hmode, hr, hvalues]
    have hoffered := hq.offered
    have hcount := hq.count hmode
    rw [hrecommended] at hoffered hcount
    rw [hvalues]
    constructor
    · rintro ⟨others, hothers, hminimum, -⟩ hempty
      cases hothers
      cases hempty
      simpa using hminimum
    · intro hshape
      refine ⟨values, rfl, ?_⟩
      by_cases hempty : values = []
      · subst hempty
        simp [hshape rfl]
      · exact ⟨(hcount hempty).1, (hcount hempty).2, hoffered⟩
  · rw [if_neg hmode, if_neg hmode]
    constructor
    · intro h
      exact h.1
    · intro h
      refine ⟨h, fun hoptions => hq.offered hoptions r ?_⟩
      simp [Question.recommended, hmode, hr]

/-- A recommendation is accepted as the answer to its question, asked alone. -/
theorem recommendation_accepted_iff (hq : q.Valid py) {r : V} (hr : q.recommendation = some r) :
    (∃ d, validatePacketAnswers py [q] [(q.questionId, r)] = .ok d) ↔ q.Shaped py r := by
  rw [accepted_iff (by simp), ← counts_recommendation hq hr, ← checkAnswer_eq_ok hq]
  simp [Complete]

theorem answers_exact_iff (py : Values V) (questions : List (Question V)) (answers : List (String × V))
    (hpacket : validatePacket py questions = .ok ()) :
    (((∃ d, validatePacketAnswers py questions answers = .ok d) ↔ Exact py questions answers) ∧
      ∀ q ∈ questions, ∀ r, q.recommendation = some r →
        ∃ d, validatePacketAnswers py [q] [(q.questionId, r)] = .ok d) ↔
    Distinctly py questions answers ∧ ∀ q ∈ questions, ∀ r, q.recommendation = some r → q.Shaped py r := by
  have hvalid := (valid_of_packet hpacket).1
  exact and_congr (exact_iff hpacket)
    (forall₂_congr fun q hq => forall₂_congr fun r hr => recommendation_accepted_iff (hvalid q hq) hr)

/-- Texts, and lists of texts. -/
def texts : Values (String ⊕ List String) where
  items value := value.getRight?.map (List.map .inl)
  same a b := a == b

def offer (text : String) : QuestionOption (String ⊕ List String) where
  value := .inl text
  label := text
  consequence := "Use " ++ text ++ "."

def target : Question (String ⊕ List String) where
  questionId := "q_target"
  prompt := "Which target?"
  options := [offer "a", offer "b"]
  recommendation := some (.inl "a")

def features : Question (String ⊕ List String) where
  questionId := "q_features"
  prompt := "Which features?"
  selectionMode := some .multiple
  minSelections := some 1
  maxSelections := some 2
  options := [offer "a", offer "b"]
  recommendation := some (.inr [])

theorem answers_exact_target :
    (((∃ d, validatePacketAnswers texts [target] [("q_target", .inl "b")] = .ok d) ↔
        Exact texts [target] [("q_target", .inl "b")]) ∧
      ∀ q ∈ [target], ∀ r, q.recommendation = some r →
        ∃ d, validatePacketAnswers texts [q] [(q.questionId, r)] = .ok d) ↔
    Distinctly texts [target] [("q_target", .inl "b")] ∧
      ∀ q ∈ [target], ∀ r, q.recommendation = some r → q.Shaped texts r :=
  answers_exact_iff texts [target] [("q_target", .inl "b")] (by decide +kernel)

/-- One option twice makes two selections, and the list without any is recommended but refused. -/
theorem not_answers_exact :
    validatePacket texts [features] = .ok () ∧
      ((∃ d, validatePacketAnswers texts [features] [("q_features", .inr ["a", "a"])] = .ok d) ∧
        ¬ Exact texts [features] [("q_features", .inr ["a", "a"])]) ∧
      ¬ ∃ d, validatePacketAnswers texts [features] [("q_features", .inr [])] = .ok d := by
  have hpacket : validatePacket texts [features] = .ok () := by decide +kernel
  have hrepeated : validatePacketAnswers texts [features] [("q_features", .inr ["a", "a"])] =
      .ok [("q_features", .inr ["a", "a"])] := except_toOption_eq_some (by decide +kernel)
  have hempty : (validatePacketAnswers texts [features] [("q_features", .inr [])]).isOk = false := by decide +kernel
  refine ⟨hpacket, ⟨⟨_, hrepeated⟩, ?_⟩, ?_⟩
  · rintro ⟨-, hfits⟩
    have hfit := hfits features List.mem_cons_self (.inr ["a", "a"]) List.mem_cons_self
    have hno := ((fits_iff texts features _).mp hfit).2
    exact hno ⟨rfl, [.inl "a", .inl "a"], rfl, by decide⟩
  · rintro ⟨d, hd⟩
    rw [hd] at hempty
    cases hempty

end AutomlApi.Packets
