import AutomlApi.Library.Checked
import AutomlApi.Library.Matching
import AutomlApi.Library.PyValues
import AutomlApi.Packets.Questions

/-! What an agent may answer: where the policy of a packet lets it answer at all, it submits
the recommendation of each question. Recommended selections have no order, so the check
takes them out of the supplied ones, one after another. -/

namespace AutomlApi.Packets

open Matching (matchAll Takes)
open Requests (APIProblem)

/-! ### The values -/

/-- The items of a list. -/
def items : PyObject → Option (List PyObject)
  | ⟨.list items, keyed⟩ => some (items.attach.map fun a => ⟨a.1, PyValue.keyedItems_iff.mp keyed a.1 a.2⟩)
  | _ => none

/-- `type(value) is type(candidate) and value == candidate`. -/
def same (value candidate : PyObject) : Bool :=
  value.value.type == candidate.value.type && value.value.eq candidate.value

def objects : Values PyObject where
  items := items
  same := same

def noneObject : PyObject := ⟨.scalar .none, trivial⟩

/-! ### The check -/

/-- `_same_value_multiset`. -/
def sameValueMultiset (left right : List PyObject) : Bool :=
  if left.length ≠ right.length then false
  else
    match matchAll same left right with
    | some remaining => remaining.isEmpty
    | none => false

def agentAnswerMustUseRecommendation : APIProblem where
  status := 422
  code := "agent_answer_must_use_recommendation"
  title := "Agent answer must use the recommendation"
  detail := "Agent-scoped answers may only submit the packet recommendation."

/-- The answer to a question is its recommendation. -/
def Question.Recommends (q : Question PyObject) (supplied : PyObject) : Bool :=
  if q.selectionMode = some .multiple then
    match items supplied, items (q.recommendation.getD noneObject) with
    | some supplied, some recommendation => sameValueMultiset supplied recommendation
    | _, _ => false
  else same supplied (q.recommendation.getD noneObject)

/-- `_enforce_agent_recommendations`. -/
def enforceAgentRecommendations (resolutionPolicy : Option String) (questions : List (Question PyObject))
    (actorType : String) (answers : Dict String PyObject) : Except APIProblem Unit :=
  if actorType ∉ ["agent", "service"] then .ok ()
  else if resolutionPolicy.getD "HUMAN_REQUIRED" ≠ "AGENT_ALLOWED" then .ok ()
  else questions.forM fun q =>
    refuse agentAnswerMustUseRecommendation ¬ q.Recommends ((answers.get q.questionId).getD noneObject)

/-! ### Equality with the type -/

variable {a b c : PyObject} {left right : List PyObject}

theorem same_iff : same a b ↔ a.value.type = b.value.type ∧ a.value.eq b.value := by simp [same]

theorem same_symm (h : same a b) : same b a := by
  rw [same_iff] at h ⊢
  exact ⟨h.1.symm, PyValue.eq_symm _ a.keyed b.keyed h.2⟩

theorem same_trans (h : same a b) (h' : same b c) : same a c := by
  rw [same_iff] at h h' ⊢
  exact ⟨h.1.trans h'.1, PyValue.eq_trans _ h.2 h'.2⟩

theorem same_self (h : ∀ n, a.value ≠ .scalar (.float (.nan n))) : same a a :=
  same_iff.mpr ⟨rfl, PyValue.eq_self _ a.keyed h⟩

/-! ### Multisets -/

theorem sameValueMultiset_iff_matchAll : sameValueMultiset left right ↔
    left.length = right.length ∧ matchAll same left right = some [] := by
  unfold sameValueMultiset
  by_cases hlength : left.length = right.length
  · rw [if_neg (not_not.mpr hlength)]
    cases matchAll same left right with
    | none => simp
    | some remaining => simp [hlength]
  · simp [hlength]

/-- The check finds a matching of the two lists, if there is one. -/
theorem sameValueMultiset_iff_rel : sameValueMultiset left right ↔
    Multiset.Rel (fun a b => same a b) (left : Multiset PyObject) right := by
  have htakes : Matching.Takes same left right (matchAll same left right) := Matching.takes_matchAll left right
  have hnil := Matching.takes_nil_iff @same_symm @same_trans htakes
  rw [sameValueMultiset_iff_matchAll, hnil]
  exact and_iff_right_of_imp fun h => by simpa using Multiset.card_eq_card_of_rel h

theorem sameValueMultiset_perm {left' right' : List PyObject} (hleft : left'.Perm left) (hright : right'.Perm right) :
    sameValueMultiset left' right' = sameValueMultiset left right := by
  rw [Bool.eq_iff_iff, sameValueMultiset_iff_rel, sameValueMultiset_iff_rel, Multiset.coe_eq_coe.mpr hleft,
    Multiset.coe_eq_coe.mpr hright]

theorem sameValueMultiset_symm (h : sameValueMultiset left right) : sameValueMultiset right left := by
  rw [sameValueMultiset_iff_rel] at h ⊢
  exact Multiset.rel_flip.mp (h.mono fun a _ b _ hab => same_symm hab)

theorem sameValueMultiset_trans {other : List PyObject} (h : sameValueMultiset left right)
    (h' : sameValueMultiset right other) : sameValueMultiset left other := by
  rw [sameValueMultiset_iff_rel] at h h' ⊢
  have : IsTrans PyObject fun a b => same a b := ⟨fun _ _ _ => same_trans⟩
  exact Multiset.Rel.trans _ h h'

theorem sameValueMultiset_self (h : ∀ a ∈ left, ∀ n, a.value ≠ .scalar (.float (.nan n))) :
    sameValueMultiset left left :=
  sameValueMultiset_iff_rel.mpr (Multiset.rel_refl_of_refl_on fun a ha => same_self (h a ha))

/-- The check is the equality of multisets: it finds out whether the positions of the lists can
be paired, whichever matching values it takes out. -/
theorem sameValueMultiset_matching (left right : List PyObject) :
    (sameValueMultiset left right ↔
      ∃ σ : Fin left.length ≃ Fin right.length, ∀ i, same (left.get i) (right.get (σ i))) ∧
    (∀ result, Takes same left right result → (sameValueMultiset left right ↔ result = some [])) ∧
    ((∀ a ∈ left, ∀ n, a.value ≠ .scalar (.float (.nan n))) → sameValueMultiset left left) ∧
    (sameValueMultiset left right ↔ sameValueMultiset right left) ∧
    (∀ other, sameValueMultiset left right → sameValueMultiset right other → sameValueMultiset left other) ∧
    ∀ left' right', left'.Perm left → right'.Perm right →
      sameValueMultiset left' right' = sameValueMultiset left right := by
  refine ⟨?_, fun result h => ?_, sameValueMultiset_self, ⟨sameValueMultiset_symm, sameValueMultiset_symm⟩, ?_, ?_⟩
  · rw [sameValueMultiset_iff_rel, Matching.rel_coe_iff]
  · rw [sameValueMultiset_iff_rel, Matching.takes_nil_iff @same_symm @same_trans h]
  · exact fun other => sameValueMultiset_trans
  · exact fun left' right' => sameValueMultiset_perm

/-- `[1, True]` is `[True, 1]` but not `[1, 1]`, and `[[1]]` is `[[True]]`. -/
example : sameValueMultiset [⟨.scalar (.int 1), trivial⟩, ⟨.scalar (.bool true), trivial⟩]
      [⟨.scalar (.bool true), trivial⟩, ⟨.scalar (.int 1), trivial⟩] = true ∧
    sameValueMultiset [⟨.scalar (.int 1), trivial⟩, ⟨.scalar (.bool true), trivial⟩]
      [⟨.scalar (.int 1), trivial⟩, ⟨.scalar (.int 1), trivial⟩] = false ∧
    sameValueMultiset [⟨.list [.scalar (.int 1)], trivial, trivial⟩]
      [⟨.list [.scalar (.bool true)], trivial, trivial⟩] = true := by decide

/-! ### Answers of agents -/

/-- An agent under a policy that lets it answer submits the recommendations, and nothing else. -/
theorem enforceAgentRecommendations_eq_ok {resolutionPolicy : Option String} {questions : List (Question PyObject)}
    {actorType : String} {answers : Dict String PyObject} :
    enforceAgentRecommendations resolutionPolicy questions actorType answers = .ok () ↔
      (actorType ∈ ["agent", "service"] → resolutionPolicy = some "AGENT_ALLOWED" →
        ∀ q ∈ questions, q.Recommends ((answers.get q.questionId).getD noneObject)) := by
  unfold enforceAgentRecommendations
  by_cases hactor : actorType ∈ ["agent", "service"]
  · rw [if_neg (not_not.mpr hactor)]
    have hpolicy : resolutionPolicy.getD "HUMAN_REQUIRED" = "AGENT_ALLOWED" ↔ resolutionPolicy = some "AGENT_ALLOWED" := by
      cases resolutionPolicy <;> simp
    by_cases hallowed : resolutionPolicy = some "AGENT_ALLOWED"
    · rw [if_neg (not_not.mpr (hpolicy.mpr hallowed))]
      simp only [hactor, hallowed, forall_const, except_forM_eq_ok, refuse_eq_ok, not_not]
    · rw [if_pos fun h => hallowed (hpolicy.mp h)]
      simp [hallowed]
  · rw [if_pos hactor]
    simp only [hactor, false_implies]

end AutomlApi.Packets
