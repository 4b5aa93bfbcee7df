import AutomlApi.Library.Checked
import AutomlApi.Library.Dict
import AutomlApi.Requests.Idempotent

/-! Decision packets and the answers to them: what the models of the API accept as a packet,
and the check of the answers to one. Both compare values with their types. -/

namespace AutomlApi.Packets

open Requests (APIProblem)

/-- The Python values of a packet, with what is asked of them: the items of a list, and
`type(a) is type(b) and a == b`. -/
structure Values (V : Type) where
  items : V → Option (List V)
  same : V → V → Bool

inductive SelectionMode where
  | single | multiple | freeform
  deriving DecidableEq

structure QuestionOption (V : Type) where
  value : V
  label : String
  consequence : String
  risk : String := "MEDIUM"
  riskReason : String := "Selection changes the task definition and downstream evaluation."

/-- A question as a packet holds it; a packet from before the selection modes has none. -/
structure Question (V : Type) where
  questionId : String
  prompt : String
  selectionMode : Option SelectionMode := none
  minSelections : Option ℕ := none
  maxSelections : Option ℕ := none
  options : List (QuestionOption V) := []
  recommendation : Option V := none
  recommendationReason : Option String := none

variable {V : Type} (py : Values V)

namespace Question

variable (q : Question V)

/-- The mode, or the one that the options of a legacy question stand for. -/
def mode : SelectionMode := q.selectionMode.getD (if q.options ≠ [] then .single else .freeform)

def minimum : ℕ := q.minSelections.getD 1

def maximum : ℕ := q.maxSelections.getD 1

/-- The value is that of an option. -/
def Offers (value : V) : Prop := ∃ option ∈ q.options, py.same value option.value

instance (value : V) : Decidable (q.Offers py value) := inferInstanceAs (Decidable (∃ option ∈ q.options, _))

/-! ### The model -/

/-- The values of the recommendation. -/
def recommended : List V :=
  if q.mode = .multiple then (q.recommendation.bind py.items).getD [] else q.recommendation.toList

/-- The model `Question`, after its migration. -/
def validate : Except String Unit := do
  refuse "Input should be greater than or equal to 1" (q.maximum < 1)
  refuse "min_selections cannot exceed max_selections" (q.maximum < q.minimum)
  refuse "SINGLE and FREEFORM questions require exactly one selection"
    (q.mode ≠ .multiple ∧ (q.minimum ≠ 1 ∨ q.maximum ≠ 1))
  refuse "question option values must be unique"
    (¬ q.options.Pairwise fun previous option => ¬ py.same option.value previous.value)
  refuse "max_selections cannot exceed the number of options"
    (q.mode = .multiple ∧ q.options ≠ [] ∧ q.options.length < q.maximum)
  refuse "a MULTIPLE recommendation must be a list" (q.mode = .multiple ∧ ∃ r ∈ q.recommendation, py.items r = none)
  refuse "the recommendation violates selection cardinality" (q.mode = .multiple ∧ q.recommended py ≠ [] ∧
    ¬ (q.minimum ≤ (q.recommended py).length ∧ (q.recommended py).length ≤ q.maximum))
  refuse "the recommendation must reference declared option values"
    (q.options ≠ [] ∧ ∃ value ∈ q.recommended py, ¬ q.Offers py value)

end Question

/-- The questions of the model `DecisionPacket`. -/
def validatePacket (questions : List (Question V)) : Except String Unit := do
  refuse "List should have at least 1 item after validation" (questions = [])
  questions.forM (Question.validate py)
  refuse "question_id values must be unique within a DecisionPacket" (¬ (questions.map Question.questionId).Nodup)

/-! ### The check of the answers -/

def incompleteWaitSet : APIProblem where
  status := 422
  code := "incomplete_wait_set"
  title := "Answer the complete wait-set"
  detail := "Submit exactly one answer for every question in the current wait-set."

def invalidAnswer (title detail : String) : APIProblem where
  status := 422
  code := "invalid_answer"
  title := title
  detail := detail

namespace Question

variable (q : Question V)

/-- The values that an answer selects. -/
def selections (value : V) : Except APIProblem (List V) :=
  match q.mode, py.items value with
  | .multiple, some values => .ok values
  | .multiple, none => .error (invalidAnswer "Invalid selection format" (q.questionId ++ " requires a list of selections."))
  | _, some _ => .error (invalidAnswer "Invalid selection format" (q.questionId ++ " accepts exactly one scalar value."))
  | _, none => .ok [value]

/-- The check of the answer to one question. -/
def checkAnswer (value : V) : Except APIProblem Unit := do
  let values ← q.selections py value
  refuse (invalidAnswer "Invalid selection count" (q.questionId ++ " requires between " ++ toString q.minimum ++ " and " ++
    toString q.maximum ++ " selection(s).")) (¬ (q.minimum ≤ values.length ∧ values.length ≤ q.maximum))
  refuse (invalidAnswer "Selection is not available" (q.questionId ++ " must use one of the declared option values."))
    (q.options ≠ [] ∧ ∃ selected ∈ values, ¬ q.Offers py selected)

end Question

/-- The loop over the questions. -/
def checkAnswers (answerById : Dict String V) : List (Question V) → Except APIProblem Unit
  | [] => .ok ()
  | q :: rest =>
    match answerById.get q.questionId with
    | none => .error incompleteWaitSet
    | some value => (q.checkAnswer py value).bind fun _ => checkAnswers answerById rest

/-- `_validate_packet_answers`. -/
def validatePacketAnswers (questions : List (Question V)) (answers : List (String × V)) :
    Except APIProblem (Dict String V) :=
  let answerById := Dict.update [] answers
  let required := (questions.map Question.questionId).dedup
  if answers.length ≠ answerById.length ∨ answerById.length ≠ required.length ∨
      ¬ ((∀ id ∈ answerById.map Prod.fst, id ∈ required) ∧ ∀ id ∈ required, id ∈ answerById.map Prod.fst) then
    .error incompleteWaitSet
  else (checkAnswers py answerById questions).map fun _ => answerById

end AutomlApi.Packets
