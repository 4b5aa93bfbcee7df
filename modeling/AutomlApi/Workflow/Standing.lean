import AutomlApi.Workflow.World

/-! The standing of a run: the part of its data that decides what may happen to it
next. Only the loud records change the standing of a run or the job table, so that
what a program does to them can be read off its loud records. -/

namespace AutomlApi.Workflow

open Jobs (Table)

structure Standing where
  status : RunStatus
  phase : Phase
  outcome : Option Outcome
  revision : ℕ
  actions : List CommandType
  blocking : Blocking
  packets : List (ℕ × PacketStatus)
  approvals : List (ℕ × ApprovalStatus)
  candidate : Option ℕ
  closed : Bool
  deriving DecidableEq

namespace Standing

def update (c : Standing) (p : RunPatch) (bumpRevision : Bool) : Standing :=
  { c with
    status := p.status.getD c.status
    phase := p.phase.getD c.phase
    outcome := p.outcome.getD c.outcome
    revision := if bumpRevision then c.revision + 1 else c.revision
    actions := p.availableActions.getD c.actions
    blocking := p.blocking.getD c.blocking
    candidate := p.pendingModelCandidate <|> c.candidate }

/-- A new status under an id. -/
def mark {α : Type} (items : List (ℕ × α)) (id : ℕ) (status : α) : List (ℕ × α) :=
  items.map fun item => if item.1 = id then (id, status) else item

def apply (c : Standing) : Change → Standing
  | .run p bump => c.update p bump
  | .packet p => { c with packets := c.packets ++ [(p.decisionPacketId, p.status)] }
  | .packetSet id status _ => { c with packets := mark c.packets id status }
  | .approval a => { c with approvals := c.approvals ++ [(a.approvalId, a.status)] }
  | .approvalSet id status _ => { c with approvals := mark c.approvals id status }
  | .mutated p _ => c.update p true
  | .finalized _ p _ => { c.update p true with closed := true }
  | _ => c

end Standing

def DecisionPacket.stands (p : DecisionPacket) : ℕ × PacketStatus := (p.decisionPacketId, p.status)

def Approval.stands (a : Approval) : ℕ × ApprovalStatus := (a.approvalId, a.status)

def RunData.standing (d : RunData) : Standing where
  status := d.run.status
  phase := d.run.phase
  outcome := d.run.outcome
  revision := d.run.runRevision
  actions := d.run.availableActions
  blocking := d.run.blocking
  packets := d.packets.map DecisionPacket.stands
  approvals := d.approvals.map Approval.stands
  candidate := d.run.pendingModelCandidate
  closed := d.result.isSome

@[simp] theorem standing_append (d : RunData) (payload : Payload) (revision : ℕ) :
    (d.append payload revision).standing = d.standing := rfl

/-- What an event does not change, several events do not change. -/
theorem foldl_append_eq {β : Type} (π : RunData → β) (hπ : ∀ d payload revision, π (d.append payload revision) = π d)
    (d : RunData) (payloads : List Payload) (revision : ℕ) :
    π (payloads.foldl (fun d payload => d.append payload revision) d) = π d := by
  induction payloads generalizing d with
  | nil => rfl
  | cons payload rest ih => rw [List.foldl_cons, ih, hπ]

theorem map_updateItem {α β : Type} (items : List α) (key : α → ℕ) (id : ℕ) (f : α → α) (stands : α → ℕ × β)
    (status : β) (hkey : ∀ a, (stands a).1 = key a) (hf : ∀ a, key a = id → stands (f a) = (id, status)) :
    (RunData.updateItem items key id f).map stands = Standing.mark (items.map stands) id status := by
  simp only [RunData.updateItem, Standing.mark, List.map_map]
  refine List.map_congr_left fun a _ => ?_
  simp only [Function.comp_apply, hkey]
  by_cases h : key a = id
  · simp only [if_pos h, hf a h]
  · simp only [if_neg h]

theorem standing_apply (d : RunData) (c : Change) : (d.apply c).standing = d.standing.apply c := by
  cases c with
  | packet p => simp [RunData.apply, RunData.standing, Standing.apply, DecisionPacket.stands]
  | approval a => simp [RunData.apply, RunData.standing, Standing.apply, Approval.stands]
  | packetSet id status revision =>
    have h := map_updateItem d.packets DecisionPacket.decisionPacketId id
      (fun p => { p with status := status, waitSetRevision := revision }) DecisionPacket.stands status
      (fun _ => rfl) (fun p hp => by simp [DecisionPacket.stands, hp])
    simp only [RunData.apply, RunData.standing, Standing.apply, h]
  | approvalSet id status version =>
    have h := map_updateItem d.approvals Approval.approvalId id
      (fun a => { a with status := status, evidenceVersion := version }) Approval.stands status
      (fun _ => rfl) (fun a ha => by simp [Approval.stands, ha])
    simp only [RunData.apply, RunData.standing, Standing.apply, h]
  | finalized result p events => exact foldl_append_eq RunData.standing standing_append _ events _
  | _ => rfl

/-! ### Loud records -/

/-- A change that the standing of the run may show. -/
def Change.loud : Change → Bool
  | .run p bump => p.loud || bump
  | .packet _ | .packetSet .. | .approval _ | .approvalSet .. | .mutated .. | .finalized .. => true
  | _ => false

/-- A record that the standing of a run, or the job table, may show. -/
def Write.loud : Write → Bool
  | .run .. | .job .. => true
  | .on _ c _ => c.loud
  | _ => false

theorem Standing.update_quiet {c : Standing} {p : RunPatch} (h : p.loud = false) : c.update p false = c := by
  simp only [RunPatch.loud, Bool.or_eq_false_iff, Option.isSome_eq_false_iff, Option.isNone_iff_eq_none] at h
  obtain ⟨⟨⟨⟨⟨h1, h2⟩, h3⟩, h4⟩, h5⟩, h6⟩ := h
  simp [Standing.update, h1, h2, h3, h4, h5, h6]

theorem Standing.apply_quiet {c : Standing} {ch : Change} (h : ch.loud = false) : c.apply ch = c := by
  cases ch with
  | run p bump =>
    simp only [Change.loud, Bool.or_eq_false_iff] at h
    obtain ⟨hp, rfl⟩ := h
    exact Standing.update_quiet hp
  | packet | packetSet | approval | approvalSet | mutated | finalized => simp [Change.loud] at h
  | _ => rfl

/-- The standings of all runs with the job table. -/
structure View where
  standing : ℕ → Option Standing
  jobs : Table ℕ

def World.standing (w : World) (runId : ℕ) : Option Standing := (w.runs.get runId).map RunData.standing

def World.view (w : World) : View := ⟨w.standing, w.jobs⟩

def View.apply (v : View) : Write → View
  | .run runId r => { v with standing := Function.update v.standing runId (some (RunData.create r).standing) }
  | .on runId c _ => { v with standing := Function.update v.standing runId ((v.standing runId).map (·.apply c)) }
  | .job r op => { v with jobs := (op.apply v.jobs r).1 }
  | _ => v

instance : Replay View Write := ⟨View.apply⟩

theorem get_modifyKey {α : Type} (d : Dict ℕ α) (k l : ℕ) (f : α → α) :
    (modifyKey d k f).get l = if l = k then (d.get k).map f else d.get l := by
  unfold modifyKey
  cases h : d.get k with
  | none => by_cases hl : l = k <;> simp [hl, h]
  | some v => rw [Dict.get_set]; rfl

theorem view_apply (w : World) (x : Write) : (w.apply x).view = w.view.apply x := by
  cases x with
  | run runId r =>
    simp only [World.apply, World.view, View.apply, View.mk.injEq, and_true]
    funext k
    simp only [World.standing, Function.update_apply, Dict.get_set]
    split <;> rfl
  | on runId c drawsId =>
    simp only [World.apply, World.view, View.apply, View.mk.injEq, and_true]
    funext k
    simp only [World.standing, Function.update_apply, get_modifyKey]
    split
    · simp only [Option.map_map, Function.comp_def, standing_apply]
    · rfl
  | _ => rfl

theorem view_apply_quiet {v : View} {x : Write} (h : x.loud = false) : v.apply x = v := by
  cases x with
  | run | job => simp [Write.loud] at h
  | on runId c drawsId =>
    have hc : c.loud = false := h
    simp only [View.apply, Standing.apply_quiet hc, Option.map_id']
    simp
  | _ => rfl

/-- The records of a program as the view sees them. -/
theorem view_replay (w : World) (l : List Write) : (replay w l).view = replay w.view (l.filter Write.loud) :=
  replay_filter World.view Write.loud (fun w x _ => view_apply w x)
    (fun w x h => (view_apply w x).trans (view_apply_quiet h)) w l

end AutomlApi.Workflow
