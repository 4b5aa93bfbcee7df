import AutomlApi.Store.Stock

/-! The sections of the services in which nothing else draws an id: a single call, or an id
that is drawn and the call that creates an item under it. A history of them is a history
of careful calls. -/

namespace AutomlApi.Store

open Runs

/-! ### Calls on other terms -/

theorem Op.Meets.mono {T T' : Terms} (hcreated : ∀ shelf given, T.created shelf given → T'.created shelf given)
    (hchanged : ∀ shelf changes, T.changed shelf changes → T'.changed shelf changes)
    (hlogged : ∀ event, T.logged event → T'.logged event) {op : Op} (h : op.Meets T) : op.Meets T' := by
  have hdelivers : T.Delivers → T'.Delivers := fun h run event endpointId => hcreated _ _ (h run event endpointId)
  cases op with
  | createDatasetWithVersion dataset version => exact ⟨meets_mono (hcreated _) h.1, meets_mono (hcreated _) h.2⟩
  | createRun value => exact meets_mono (fun _ => hcreated _ _) h
  | createDecisionPacket runId value => exact meets_mono (fun _ hgiven waitSetId => hcreated _ _ (hgiven waitSetId)) h
  | appendEvent runId value => exact ⟨meets_mono hlogged h.1, hdelivers h.2⟩
  | mutateRunWithEvent runId updates event expected bump =>
    exact ⟨meets_mono (hchanged _) h.1, meets_mono hlogged h.2.1, hdelivers h.2.2⟩
  | finalizeRunWithResult runId result updates events expected =>
    exact ⟨meets_mono (hchanged _) h.1, fun event hevent => meets_mono hlogged (h.2.1 event hevent), hdelivers h.2.2⟩
  | reset => exact h.elim
  | _ => first | exact meets_mono (hcreated _) h | exact meets_mono (hchanged _) h | exact trivial

/-! ### Sections -/

/-- The kind of the ids that `new_id` draws. -/
def kindOf (kind : String) : String := (idPrefixes.get (normalizedKind kind)).getD (normalizedKind kind)

inductive Section where
  | alone (e : Event)
  /-- `id = new_id(kind)` and then the call that is made of the id. -/
  | drawn (disk disk' : Bool) (kind : String) (call : String → Op)

/-- The id that `new_id` returns. -/
def SqliteStore.drawn (o : SetOrder) (s : SqliteStore) (disk : Bool) (kind : String) : Option String :=
  match (newId kind s.memory).1, ((Op.newId kind).apply o disk s).1 with
  | .ok id, .ok () => some id
  | _, _ => none

/-- Nothing is created if no id is drawn. -/
def SqliteStore.enter (o : SetOrder) (s : SqliteStore) : Section → SqliteStore
  | .alone e => s.step o e
  | .drawn disk disk' kind call =>
    let s' := s.step o (.call disk (.newId kind))
    (s.drawn o disk kind).elim s' fun id => s'.step o (.call disk' (call id))

/-- What the services create: items without an id, and, under the id that they have drawn,
an item of its kind. No update names an owner. -/
def named (id : Option (String × String)) : Terms where
  created shelf given := ¬ shelf.anonymous given →
    ∃ kind value, id = some (kind, value) ∧ kindOf kind = shelf.kind ∧ given.get shelf.idField = some (.str value)
  changed _ changes := changes.get "tenant_id" = none
  logged _ := True

def Section.Served : Section → Prop
  | .alone (.call _ op) => op.Meets (named none)
  | .alone _ => True
  | .drawn _ _ kind call => ∀ id, (call id).Meets (named (some (kind, id)))

variable {o : SetOrder} {s : SqliteStore}

theorem meets_careful_of_alone {m : Memory} {op : Op} (h : op.Meets (named none)) : op.Meets (careful m) :=
  @Op.Meets.mono (named none) (careful m) (fun shelf given hgiven hnamed => by
    obtain ⟨_, _, hnone, -⟩ := hgiven hnamed
    cases hnone) (fun _ _ h => h) (fun _ h => h) _ h

/-- What is drawn is the last id of its kind. -/
theorem newId_spec (kind : String) (m : Memory) : (∃ fault, (newId kind m).1 = .error fault) ∨
    (newId kind m).1 = .ok (formatId (kindOf kind) (counterOf (newId kind m).2 (kindOf kind))) := by
  have hnew : newId kind = if ((kindOf kind).toList.filter (· ≠ '-')).isEmpty ∨
      ¬ ((kindOf kind).toList.filter (· ≠ '-')).all Char.isAlphanum then
      Act.raise (.value "invalid resource ID kind") else newIdLocked (kindOf kind) := rfl
  rw [hnew]
  generalize kindOf kind = resolved
  split
  · exact .inl ⟨_, rfl⟩
  · refine .inr (congrArg (fun n => Except.ok (formatId resolved n)) ?_)
    have h := counterOf_draw m resolved resolved
    rw [if_pos rfl] at h
    exact h.symm

theorem memory_of_ok {p : StoreM Unit} {disk : Bool} (h : (durableMutation p disk s).1 = .ok ()) :
    (durableMutation p disk s).2.memory = (p s.memory).2 := by
  unfold durableMutation at h ⊢
  generalize p s.memory = result at h ⊢
  obtain ⟨_ | _, memory⟩ := result
  · cases h
  · dsimp only at h ⊢
    cases hwritten : serialise memory with
    | none =>
      rw [hwritten] at h
      cases h
    | some snapshot =>
      rw [hwritten] at h
      cases disk with
      | false => cases h
      | true => rfl

theorem drawn_ok {disk : Bool} {kind id : String} (h : s.drawn o disk kind = some id) :
    (newId kind s.memory).1 = .ok id ∧ ((Op.newId kind).apply o disk s).1 = .ok () := by
  unfold SqliteStore.drawn at h
  generalize (newId kind s.memory).1 = r at h ⊢
  generalize ((Op.newId kind).apply o disk s).1 = r' at h ⊢
  split at h
  · cases h
    exact ⟨rfl, rfl⟩
  · cases h

theorem memory_void {α : Type} (p : StoreM α) (m : Memory) : (Op.method.void p m).2 = (p m).2 := by
  unfold Op.method.void
  rw [Act.bind_eq]
  obtain ⟨_ | _, memory⟩ := p m <;> rfl

theorem apply_newId (disk : Bool) (kind : String) :
    (Op.newId kind).apply o disk s = durableMutation (Op.method.void (newId kind)) disk s := rfl

theorem drawn_eq {disk : Bool} {kind id : String} (h : s.drawn o disk kind = some id) :
    id = formatId (kindOf kind) (counterOf (s.step o (.call disk (.newId kind))).memory (kindOf kind)) := by
  obtain ⟨hid, happly⟩ := drawn_ok h
  rw [apply_newId] at happly
  have hmemory : (s.step o (.call disk (.newId kind))).memory = (newId kind s.memory).2 := by
    rw [SqliteStore.step, apply_newId, memory_of_ok happly, memory_void]
  rcases newId_spec kind s.memory with ⟨fault, hfault⟩ | hok
  · cases hid.symm.trans hfault
  · rw [hmemory]
    exact Except.ok.inj (hid.symm.trans hok)

theorem meets_careful_of_drawn {m : Memory} {kind id : String} (hid : id = formatId (kindOf kind) (counterOf m (kindOf kind)))
    {op : Op} (h : op.Meets (named (some (kind, id)))) : op.Meets (careful m) :=
  @Op.Meets.mono (named (some (kind, id))) (careful m) (fun shelf given hgiven hnamed => by
    obtain ⟨kind', value, heq, hkind, hget⟩ := hgiven hnamed
    cases heq
    rw [hget, hid, hkind]) (fun _ _ h => h) (fun _ h => h) _ h

theorem onward_one {e : Event} (h : Onward s e) :
    ∃ es, Run (fun s e => some (SqliteStore.step o s e)) Onward s es (s.step o e) :=
  ⟨[e], .cons h rfl (.nil _)⟩

theorem onward_two {e e' : Event} (h : Onward s e) (h' : Onward (s.step o e) e') :
    ∃ es, Run (fun s e => some (SqliteStore.step o s e)) Onward s es ((s.step o e).step o e') :=
  ⟨[e, e'], .cons h rfl (.cons h' rfl (.nil _))⟩

/-- A section is made of careful calls. -/
theorem onward_enter {c : Section} (h : c.Served) (hgo : c ≠ .alone .reopen) :
    ∃ es, Run (fun s e => some (SqliteStore.step o s e)) Onward s es (s.enter o c) := by
  cases c with
  | alone e =>
    refine onward_one ?_
    cases e with
    | call disk op => exact meets_careful_of_alone h
    | reopen => exact absurd rfl hgo
    | _ => trivial
  | drawn disk disk' kind call =>
    have hdraw : Onward s (.call disk (.newId kind)) := trivial
    have hcall : ∀ id, s.drawn o disk kind = some id →
        Onward (s.step o (.call disk (.newId kind))) (.call disk' (call id)) := fun id hdrawn =>
      meets_careful_of_drawn (drawn_eq hdrawn) (h id)
    rw [SqliteStore.enter]
    rcases Option.eq_none_or_eq_some (s.drawn o disk kind) with hdrawn | ⟨id, hdrawn⟩
    · rw [hdrawn, Option.elim_none]
      exact onward_one hdraw
    · rw [hdrawn, Option.elim_some]
      exact onward_two hdraw (hcall id hdrawn)

/-- A history of sections is a history of careful calls. -/
theorem careful_of_served {cs : List Section} {s t : SqliteStore}
    (h : Run (fun s c => some (SqliteStore.enter o s c)) (fun _ c => c.Served) s cs t) :
    ∃ es, Run (fun s e => some (SqliteStore.step o s e)) Careful s es t := by
  induction h with
  | nil s => exact ⟨[], .nil s⟩
  | @cons s u t c cs hserved hstep hrest ih =>
    cases hstep
    obtain ⟨es, hes⟩ := ih
    have hfirst : ∃ es, Run (fun s e => some (SqliteStore.step o s e)) Careful s es (s.enter o c) := by
      by_cases hgo : c = .alone .reopen
      · subst hgo
        exact ⟨[.reopen], .cons trivial rfl (.nil _)⟩
      · obtain ⟨es, hes⟩ := @onward_enter o s c hserved hgo
        exact ⟨es, hes.mono fun s e he => by
          cases e with
          | call disk op => exact .inr he
          | _ => trivial⟩
    obtain ⟨es', hes'⟩ := hfirst
    exact ⟨es' ++ es, hes'.append hes⟩

/-- As long as the process goes on, its calls are careful. -/
theorem onward_of_served {cs : List Section} {s t : SqliteStore}
    (h : Run (fun s c => some (SqliteStore.enter o s c)) (fun _ c => c.Served ∧ c ≠ .alone .reopen) s cs t) :
    ∃ es, Run (fun s e => some (SqliteStore.step o s e)) Onward s es t := by
  induction h with
  | nil s => exact ⟨[], .nil s⟩
  | @cons s u t c cs hserved hstep hrest ih =>
    cases hstep
    obtain ⟨es, hes⟩ := ih
    obtain ⟨es', hes'⟩ := @onward_enter o s c hserved.1 hserved.2
    exact ⟨es' ++ es, hes'.append hes⟩

end AutomlApi.Store
