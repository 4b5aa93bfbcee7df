import AutomlApi.Store.Recording

/-! What the operations on one resource leave alone. A relation that holds across each
kind of write to the id counters and to the plain collections holds across every
operation that writes nothing else. -/

namespace AutomlApi.Store

open Act

/-- The collections that are neither the runs nor their events, results or idempotency
records. -/
inductive Collection.Plain : Collection → Prop
  | datasets : Plain datasets
  | datasetVersions : Plain datasetVersions
  | commands : Plain commands
  | artifacts : Plain artifacts
  | models : Plain models
  | webhookEndpoints : Plain webhookEndpoints
  | deletions : Plain deletions
  | outputs (runId : String) : Plain (outputs runId)
  | decisionPackets (runId : String) : Plain (decisionPackets runId)
  | approvals (runId : String) : Plain (approvals runId)
  | webhookDeliveries (endpointId : String) : Plain (webhookDeliveries endpointId)

/-- A preorder that every write to the counters, to the results and to a plain
collection climbs. -/
structure Frame (R : Memory → Memory → Prop) : Prop where
  refl : ∀ s, R s s
  trans : ∀ s t u, R s t → R t u → R s u
  same : ∀ {s t}, Same s t → R s t
  plain : ∀ {c : Collection}, c.Plain → ∀ m d, R m (c.put m d)
  results : ∀ m d, R m { m with results := d }

namespace Frame

variable {R : Memory → Memory → Prop} {α : Type}

theorem openApprovals (hR : Frame R) (runId : String) (s : Memory) : R s (openApprovals runId s) := by
  unfold Store.openApprovals Dict.setDefault
  split
  · exact hR.refl s
  · exact hR.plain (.approvals runId) s []

theorem openDeliveries (hR : Frame R) (endpointId : String) (s : Memory) : R s (openDeliveries endpointId s) := by
  unfold Store.openDeliveries Dict.setDefault
  split
  · exact hR.refl s
  · exact hR.plain (.webhookDeliveries endpointId) s []

theorem within_of_same (hR : Frame R) {m : StoreM α} (hm : Within Same m) : Within R m :=
  fun s => hR.same (hm s)

theorem void (hR : Frame R) {m : StoreM α} (hm : Within R m) : Within R (Op.method.void m) :=
  within_bind hR.trans hm fun _ => within_pure hR.refl ()

theorem newId (hR : Frame R) (kind : String) : Within R (newId kind) := by
  unfold Store.newId
  dsimp only
  split
  · exact within_raise hR.refl _
  · exact hR.within_of_same (within_newIdLocked _)

theorem insertLocked (hR : Frame R) {c : Collection} (hc : c.Plain) {item : Fields}
    {idField kind resource : String} {fixed : Fields} :
    Within R (insertLocked c item idField kind resource fixed) :=
  within_insertLocked hR.refl hR.trans hR.same (hR.plain hc) item idField kind resource fixed

theorem createLocked (hR : Frame R) {c : Collection} (hc : c.Plain) {value : Value}
    {idField kind resource : String} {fixed : Fields} :
    Within R (createLocked c value idField kind resource fixed) :=
  within_bind hR.trans (within_check hR.refl _) fun _ => hR.insertLocked hc

theorem updateLocked (hR : Frame R) {c : Collection} (hc : c.Plain) {id : String} {updates : Value}
    {idField resource : String} : Within R (updateLocked c id updates idField resource) := by
  refine within_bind hR.trans (within_get hR.refl) fun memory => ?_
  split
  · exact within_raise hR.refl _
  refine within_bind hR.trans (within_check hR.refl _) fun changes => ?_
  split
  · exact within_raise hR.refl _
  · exact fun s => hR.plain hc s _

theorem createForRun (hR : Frame R) {c : Collection} (hc : c.Plain) {value : Value}
    {idField kind resource : String} : Within R (createForRun c value idField kind resource) :=
  within_bind hR.trans (within_check hR.refl _) fun item =>
    within_bind hR.trans (hR.within_of_same (within_requireRunOf item)) fun _ => hR.createLocked hc

theorem createDatasetWithVersion (hR : Frame R) (dataset version : Value) :
    Within R (createDatasetWithVersion dataset version) := by
  refine within_bind hR.trans (hR.createLocked .datasets) fun created => ?_
  refine within_bind hR.trans ?_ fun _ => within_pure hR.refl _
  exact within_onError hR.trans (hR.createLocked .datasetVersions) fun s => hR.plain .datasets s _

theorem updateDatasetVersion (hR : Frame R) (versionId : String) (updates : Value) :
    Within R (updateDatasetVersion versionId updates) := by
  refine within_bind hR.trans (within_get hR.refl) fun memory => ?_
  split
  · exact within_raise hR.refl _
  split
  · exact within_raise hR.refl _
  refine within_bind hR.trans (within_check hR.refl _) fun supplied => ?_
  split
  · exact hR.updateLocked .datasetVersions
  · exact within_raise hR.refl _

theorem updateDecisionPacket (hR : Frame R) (runId packetId : String) (updates : Value) :
    Within R (updateDecisionPacket runId packetId updates) := by
  refine within_bind hR.trans (hR.within_of_same (within_requireRun runId)) fun _ => ?_
  refine within_bind hR.trans (hR.within_of_same (within_requireKey runId _)) fun _ => ?_
  refine within_bind hR.trans (within_get hR.refl) fun memory => ?_
  split
  · exact within_raise hR.refl _
  refine within_bind hR.trans (within_check hR.refl _) fun supplied => ?_
  split
  · exact within_raise hR.refl _
  refine within_bind hR.trans (within_check hR.refl _) fun suppliedWaitSet => ?_
  split
  · exact within_raise hR.refl _
  · exact hR.updateLocked (.decisionPackets runId)

theorem updateApproval (hR : Frame R) (runId approvalId : String) (updates : Value) :
    Within R (updateApproval runId approvalId updates) := by
  refine within_bind hR.trans (hR.within_of_same (within_requireRun runId)) fun _ => ?_
  refine within_bind hR.trans (within_check hR.refl _) fun supplied => ?_
  split
  · exact within_raise hR.refl _
  · exact within_bind hR.trans (hR.openApprovals runId) fun _ => hR.updateLocked (.approvals runId)

theorem requireEndpoint (hR : Frame R) (endpointId : String) : Within R (requireEndpoint endpointId) := by
  refine within_bind hR.trans (within_get hR.refl) fun memory => ?_
  split
  · exact within_pure hR.refl ()
  · exact within_raise hR.refl _

theorem updateWebhookDelivery (hR : Frame R) (endpointId deliveryId : String) (updates : Value) :
    Within R (updateWebhookDelivery endpointId deliveryId updates) := by
  refine within_bind hR.trans (hR.requireEndpoint endpointId) fun _ => ?_
  refine within_bind hR.trans (within_check hR.refl _) fun supplied => ?_
  split
  · exact within_raise hR.refl _
  · exact within_bind hR.trans (hR.openDeliveries endpointId) fun _ =>
      hR.updateLocked (.webhookDeliveries endpointId)

theorem setResult (hR : Frame R) (runId : String) (value : Value) : Within R (setResult runId value) :=
  within_bind hR.trans (hR.within_of_same (within_requireRun runId)) fun _ =>
    within_bind hR.trans (hR.within_of_same (within_storedResult runId value)) fun _ s => hR.results s _

theorem deliver (hR : Frame R) (run event : Fields) (endpointIds : List String) :
    Within R (deliver run event endpointIds) := by
  induction endpointIds with
  | nil => exact within_pure hR.refl ()
  | cons endpointId rest ih =>
    refine within_bind hR.trans (within_get hR.refl) fun memory => ?_
    split
    · exact within_raise hR.refl _
    · exact ih
    · refine within_bind hR.trans (hR.openDeliveries endpointId) fun _ => ?_
      split
      · exact ih
      · exact within_bind hR.trans (hR.insertLocked (.webhookDeliveries endpointId)) fun _ => ih

theorem announce (hR : Frame R) (o : SetOrder) (runId : String) (event : Fields) :
    Within R (appendWebhookDeliveriesLocked o runId event) :=
  within_bind hR.trans (within_get hR.refl) fun _ =>
    within_bind hR.trans (within_check hR.refl _) fun endpointIds => hR.deliver _ event endpointIds

end Frame

/-- The operations that write neither runs nor events nor idempotency records. -/
def Op.plain : Op → Bool
  | .createRun .. | .updateRun .. | .appendEvent .. | .mutateRunWithEvent .. | .finalizeRunWithResult ..
  | .beginIdempotentRequest .. | .completeIdempotentRequest .. | .abortIdempotentRequest .. | .reset => false
  | _ => true

/-- A plain operation keeps what plain writes keep. -/
theorem Frame.method {R : Memory → Memory → Prop} (hR : Frame R) (o : SetOrder) {op : Op} (h : op.plain) :
    Within R (op.method o) := by
  cases op with
  | newId kind => exact hR.void (hR.newId kind)
  | createDataset value => exact hR.void (hR.createLocked .datasets)
  | updateDataset datasetId updates => exact hR.void (hR.updateLocked .datasets)
  | createDatasetVersion datasetId value =>
    refine hR.void (within_bind hR.trans (within_get hR.refl) fun memory => ?_)
    split
    · exact hR.createLocked .datasetVersions
    · exact within_raise hR.refl _
  | createDatasetWithVersion dataset version => exact hR.void (hR.createDatasetWithVersion _ _)
  | updateDatasetVersion versionId updates => exact hR.void (hR.updateDatasetVersion _ _)
  | createOutput runId value =>
    exact hR.void (within_bind hR.trans (hR.within_of_same (within_requireRun runId)) fun _ =>
      within_bind hR.trans (hR.within_of_same (within_requireKey runId _)) fun _ =>
        hR.createLocked (.outputs runId))
  | createDecisionPacket runId value =>
    refine hR.void (within_bind hR.trans (hR.within_of_same (within_requireRun runId)) fun _ => ?_)
    refine within_bind hR.trans (within_check hR.refl _) fun item => ?_
    refine within_bind hR.trans (hR.within_of_same (within_newIdLocked "ws")) fun waitSetId => ?_
    exact within_bind hR.trans (hR.within_of_same (within_requireKey runId _)) fun _ =>
      hR.createLocked (.decisionPackets runId)
  | updateDecisionPacket runId packetId updates => exact hR.void (hR.updateDecisionPacket _ _ _)
  | createCommand value => exact hR.void (hR.createForRun .commands)
  | updateCommand commandId updates => exact hR.void (hR.updateLocked .commands)
  | setResult runId value => exact hR.void (hR.setResult runId value)
  | createArtifact value => exact hR.void (hR.createForRun .artifacts)
  | updateArtifact artifactId updates => exact hR.void (hR.updateLocked .artifacts)
  | createApproval runId value =>
    exact hR.void (within_bind hR.trans (hR.within_of_same (within_requireRun runId)) fun _ =>
      within_bind hR.trans (hR.openApprovals runId) fun _ => hR.createLocked (.approvals runId))
  | updateApproval runId approvalId updates => exact hR.void (hR.updateApproval _ _ _)
  | createModel value => exact hR.void (hR.createForRun .models)
  | createWebhookEndpoint value => exact hR.void (hR.createLocked .webhookEndpoints)
  | updateWebhookEndpoint endpointId updates => exact hR.void (hR.updateLocked .webhookEndpoints)
  | createWebhookDelivery endpointId value =>
    exact hR.void (within_bind hR.trans (hR.requireEndpoint endpointId) fun _ =>
      within_bind hR.trans (hR.openDeliveries endpointId) fun _ =>
        hR.createLocked (.webhookDeliveries endpointId))
  | updateWebhookDelivery endpointId deliveryId updates => exact hR.void (hR.updateWebhookDelivery _ _ _)
  | createDeletion value => exact hR.void (hR.createLocked .deletions)
  | updateDeletion deletionId updates => exact hR.void (hR.updateLocked .deletions)
  | job r op => exact within_pure hR.refl ()
  | createRun | updateRun | appendEvent | mutateRunWithEvent | finalizeRunWithResult
  | beginIdempotentRequest | completeIdempotentRequest | abortIdempotentRequest | reset => cases h

end AutomlApi.Store
