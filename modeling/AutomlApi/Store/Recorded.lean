import AutomlApi.Store.Stock

/-! What every operation that records events keeps. It draws ids, writes a result or a run,
and records one event after the other: what holds across each of these holds across all
three operations. -/

namespace AutomlApi.Store

open Act

/-! ### The generator of ids -/

/-- What any operation but the clearing of the store does. -/
def anything : Terms := ⟨fun _ _ => True, fun _ _ => True, fun _ => True⟩

theorem meets_anything (value : Value) : Meets (fun _ => True) value := by
  cases value <;> exact trivial

theorem counter_write {m₀ : Memory} {T : Terms} {s t : Memory} (h : Write m₀ T s t) (kind : String) :
    counterOf s kind ≤ counterOf t kind := by
  cases h with
  | draw kind' =>
    rw [counterOf_draw]
    split
    · rename_i hkind
      rw [hkind]
      exact Nat.le_succ _
    · exact Nat.le_refl _
  | insert _ _ _ => exact (counterOf_put ..).ge
  | update _ _ _ => exact (counterOf_put ..).ge
  | _ => exact Nat.le_refl _

/-- No id is given twice: a counter never falls. -/
theorem counter_writes {m₀ : Memory} {T : Terms} {s t : Memory} (h : Writes m₀ T s t) (kind : String) :
    counterOf s kind ≤ counterOf t kind :=
  h.climb (R := fun s t => counterOf s kind ≤ counterOf t kind) (fun _ => Nat.le_refl _) (fun _ _ _ => Nat.le_trans)
    fun hw => counter_write hw kind

theorem meets_op {op : Op} (h : op ≠ .reset) : op.Meets anything := by
  cases op with
  | reset => exact absurd rfl h
  | appendEvent runId value => exact ⟨meets_anything value, fun _ _ _ => trivial⟩
  | mutateRunWithEvent runId updates event expected bump =>
    exact ⟨meets_anything updates, meets_anything event, fun _ _ _ => trivial⟩
  | finalizeRunWithResult runId result updates events expected =>
    exact ⟨meets_anything updates, fun event _ => meets_anything event, fun _ _ _ => trivial⟩
  | createDatasetWithVersion dataset version => exact ⟨meets_anything dataset, meets_anything version⟩
  | createRun value => cases value <;> exact trivial
  | createDecisionPacket runId value => cases value <;> simp [Op.Meets, Meets, anything]
  | _ => first | exact meets_anything _ | exact trivial

theorem counter_method (o : SetOrder) {op : Op} (h : op ≠ .reset) (m : Memory) (kind : String) :
    counterOf m kind ≤ counterOf (op.method o m).2 kind :=
  counter_writes (Op.writes o (meets_op h)) kind

theorem counter_recordEvent (o : SetOrder) (runId : String) (value : Value) (m : Memory) (kind : String) :
    counterOf m kind ≤ counterOf (recordEvent o runId value m).2 kind := by
  have hlogs : anything.Logs value :=
    meets_mono (fun fields _ => ⟨fields, trivial, fun _ _ => rfl⟩) (meets_anything value)
  have hwrites : Writes m anything m (recordEvent o runId value m).2 := writes_recordEvent o hlogs fun _ _ _ => trivial
  exact counter_writes hwrites kind

theorem counter_recordRevised (o : SetOrder) (runId : String) (run : Fields) (value : Value) (m : Memory) (kind : String) :
    counterOf m kind ≤ counterOf (recordRevised o runId run value m).2 kind := by
  rw [recordRevised_eq, check_bind]
  cases revised run value with
  | error fault => exact Nat.le_refl _
  | ok event => exact counter_recordEvent ..

/-! ### The rule -/

/-- `P` holds across every draw of an id, every write to a result or a run, and every
recording of a value from `V`. -/
structure Recorded (o : SetOrder) (V : Memory → Value → Prop) (P : Memory → Prop) : Prop where
  drawn : ∀ {s t}, Same s t → (∀ kind, counterOf s kind ≤ counterOf t kind) → P s → P t
  result : ∀ {m}, P m → ∀ runId result, P (putResult runId result m)
  patched : ∀ {m}, P m → ∀ {runId : String} {current : Fields}, m.runs.get runId = some current →
    ∀ changes revision, P (putRun runId (Store.patched current changes revision) m)
  recorded : ∀ {m}, m.Inv → P m → ∀ runId {value}, V m value → P (recordEvent o runId value m).2
  later : ∀ {s t}, (∀ kind, counterOf s kind ≤ counterOf t kind) → ∀ {value}, V s value → V t value
  revised : ∀ {m value}, V m value → ∀ {run event}, Store.revised run value = .ok event → V m event

namespace Recorded

variable {o : SetOrder} {V : Memory → Value → Prop} {P : Memory → Prop} {m : Memory}

theorem recordRevised (hP : Recorded o V P) (hm : m.Inv) (hp : P m) (runId : String) (run : Fields) {value : Value}
    (hv : V m value) : P (recordRevised o runId run value m).2 := by
  rw [recordRevised_eq, check_bind]
  cases hrev : Store.revised run value with
  | error fault => exact hp
  | ok event => exact hP.recorded hm hp runId (hP.revised hv hrev)

theorem recordAll (hP : Recorded o V P) (hm : m.Inv) (hp : P m) (runId : String) (run : Fields) {events : List Value}
    (hv : ∀ event ∈ events, V m event) : P (recordAll o runId run events m).2 := by
  induction events generalizing m with
  | nil => exact hp
  | cons value rest ih =>
    have hfirst := hP.recordRevised hm hp runId run (hv value List.mem_cons_self)
    have hinv := inv_recordRevised hm o runId run value
    have hcounter := counter_recordRevised o runId run value m
    rw [recordAll_eq, bind_eq]
    cases h : Store.recordRevised o runId run value m with
    | mk r s =>
      rw [h] at hfirst hinv hcounter
      cases r with
      | error fault => exact hfirst
      | ok event =>
        have hrest := ih hinv hfirst fun e he => hP.later hcounter (hv e (List.mem_cons_of_mem value he))
        dsimp only
        rw [bind_eq]
        revert hrest
        cases Store.recordAll o runId run rest s with
        | mk r t => cases r <;> exact id

theorem mutateRunWithEvent (hP : Recorded o V P) (hm : m.Inv) (hp : P m) (runId : String) (updates : Value)
    {event : Value} (expected : Option ℤ) (bump : Bool) (hv : V m event) :
    P (mutateRunWithEvent o runId updates event expected bump m).2 := by
  rw [Store.mutateRunWithEvent, bind_eq, requireRevision_eq]
  cases hcur : currentRevision runId expected m with
  | error fault => exact hp
  | ok p =>
    dsimp only
    rw [check_bind]
    cases mapping "run updates" updates with
    | error fault => exact hp
    | ok changes =>
      have hrun := has_of_currentRevision hcur
      have hput := hP.patched hp hrun changes (if bump then some p.2 else none)
      have hinv := inv_putRun hm (Dict.has_of_get hrun) (Store.patched p.1 changes (if bump then some p.2 else none))
      have hcounter : ∀ kind, counterOf m kind ≤ counterOf (putRun runId
          (Store.patched p.1 changes (if bump then some p.2 else none)) m) kind := fun _ => Nat.le_refl _
      have hlater := hP.later hcounter hv
      have hrec := hP.recordRevised hinv hput runId (Store.patched p.1 changes (if bump then some p.2 else none)) hlater
      dsimp only
      rw [modify_bind, bind_eq]
      revert hrec
      cases Store.recordRevised o runId _ event _ with
      | mk r s => cases r <;> exact id

theorem finalizeRunWithResult (hP : Recorded o V P) (hm : m.Inv) (hp : P m) (runId : String) (result updates : Value)
    {events : List Value} (expected : Option ℤ) (hv : ∀ event ∈ events, V m event) :
    P (finalizeRunWithResult o runId result updates events expected m).2 := by
  rw [Store.finalizeRunWithResult, bind_eq, requireRevision_eq]
  cases hcur : currentRevision runId expected m with
  | error fault => exact hp
  | ok p =>
    dsimp only
    have hsame := within_storedResult runId result m
    have hwrites : Writes m anything m (storedResult runId result m).2 := writes_storedResult
    have hcounter := counter_writes hwrites
    rw [bind_eq]
    cases hstored : storedResult runId result m with
    | mk r t =>
      rw [hstored] at hsame hcounter
      have ht := hP.drawn hsame hcounter hp
      cases r with
      | error fault => exact ht
      | ok stored =>
        dsimp only
        rw [modify_bind, check_bind]
        have hput := hP.result ht runId stored
        cases runChanges runId updates with
        | error fault => exact hput
        | ok changes =>
          have hinv : (putResult runId stored t).Inv := (quiet_putResult ..).inv (hsame.quiet.inv hm)
          have hrun : (putResult runId stored t).runs.get runId = some p.1 := by
            obtain ⟨_, rfl⟩ := hsame
            exact has_of_currentRevision hcur
          have hpatch := hP.patched hput hrun changes (some p.2)
          have hinv' := inv_putRun hinv (Dict.has_of_get hrun) (Store.patched p.1 changes (some p.2))
          have hcounter' : ∀ kind, counterOf m kind ≤ counterOf (putRun runId
              (Store.patched p.1 changes (some p.2)) (putResult runId stored t)) kind := hcounter
          have hall := hP.recordAll hinv' hpatch runId (Store.patched p.1 changes (some p.2))
            fun e he => hP.later hcounter' (hv e he)
          dsimp only
          rw [modify_bind, bind_eq]
          revert hall
          cases Store.recordAll o runId _ events _ with
          | mk r s => cases r <;> exact id

end Recorded

/-- The events that an operation brings are from `V`. -/
def Op.Brings (V : Value → Prop) : Op → Prop
  | .appendEvent _ value => V value
  | .mutateRunWithEvent _ _ event .. => V event
  | .finalizeRunWithResult _ _ _ events _ => ∀ event ∈ events, V event
  | _ => True

/-- What the operations that record keep of what holds where they start. -/
theorem Recorded.method {o : SetOrder} {V : Memory → Value → Prop} {P : Memory → Prop} (hP : Recorded o V P) {m : Memory}
    (hm : m.Inv) (hp : P m) {op : Op} (hrecords : op.records ≠ none) (hop : op.Brings (V m)) : P (op.method o m).2 := by
  cases op with
  | appendEvent runId value =>
    rw [Op.method, LogFrame.void_snd]
    exact hP.recorded hm hp runId hop
  | mutateRunWithEvent runId updates event expected bump =>
    rw [Op.method, LogFrame.void_snd]
    exact hP.mutateRunWithEvent hm hp runId updates expected bump hop
  | finalizeRunWithResult runId result updates events expected =>
    rw [Op.method, LogFrame.void_snd]
    exact hP.finalizeRunWithResult hm hp runId result updates expected hop
  | _ => exact absurd rfl hrecords

end AutomlApi.Store
