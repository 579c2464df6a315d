import LatticeTransfer.Method
import LatticeTransfer.Slashing

/-!
# The enforcement pipeline

`EnforcementPipeline`: failed audits and proofs become entries of an epoch's batch, the
finalization of the epoch turns the batch into pending slashes, and those past their grace period
are taken from the stake. The batch is kept by the accumulator or by a message queue.
-/

namespace LatticeTransfer.Enforcement
open CommitmentLog JsonText MerkleTree List Function
open Method (exec_bind exec_bind_pure exec_discard exec_eq_ok exec_foldlM_of_ok exec_get exec_modify
  exec_on keeps_call keeps_get keeps_modify keeps_pure)

structure BatchSlashEntry where
  nodeId : String
  conditionId : String
  evidenceHash : String
  slashAmount : ℤ
  severity : Severity
deriving DecidableEq

structure ViolationStore (σ : Type) where
  empty : σ
  add : ℤ → BatchSlashEntry → σ → σ
  drain : ℤ → σ → List BatchSlashEntry × σ

abbrev Batches := Dict ℤ (List BatchSlashEntry)

def batchSlashingAccumulator : ViolationStore Batches where
  empty := Dict.empty
  add epoch entry batches := batches.set epoch ((batches.get? epoch).getD []++[entry])
  drain epoch batches := ((batches.get? epoch).getD [],batches.erase epoch)

abbrev Groups := Dict String (List BatchSlashEntry)

namespace InMemoryQueue

def enqueue (groupId : String) (payload : BatchSlashEntry) (groups : Groups) : Groups :=
  groups.set groupId ((groups.get? groupId).getD []++[payload])

def dequeue (groupId : String) (maxMessages : ℕ) (groups : Groups) :
    List BatchSlashEntry × Groups :=
  let messages := (groups.get? groupId).getD []
  let rest := messages.drop maxMessages
  (messages.take maxMessages,
    if rest=[] then groups.erase groupId else groups.set groupId rest)

end InMemoryQueue

def maxMessages : ℕ := 100

def inMemoryQueue : ViolationStore Groups where
  empty := Dict.empty
  add epoch entry groups := InMemoryQueue.enqueue (str epoch) entry groups
  drain epoch groups := InMemoryQueue.dequeue (str epoch) maxMessages groups

inductive DisputeResolution
  | pending
  | upheld
  | rejected
deriving DecidableEq

structure IntersubjectiveDispute where
  disputeId : String
  challenger : String
  target : String
  evidenceUri : String
  evidenceHash : String
  disputeBond : ℤ
  slashAmount : ℤ
  resolution : DisputeResolution
  votesFor : ℤ
  votesAgainst : ℤ
  createdEpoch : ℤ
  votingDeadlineEpoch : ℤ
  resolvedEpoch : ℤ

namespace IntersubjectiveDispute
variable (dispute : IntersubjectiveDispute)

def approvalRatio : Except PyError ℚ :=
  if dispute.votesFor+dispute.votesAgainst=0 then .ok 0
  else divide dispute.votesFor (dispute.votesFor+dispute.votesAgainst)

def isVotingOpen (currentEpoch : ℤ) : Bool :=
  dispute.resolution=.pending && currentEpoch≤dispute.votingDeadlineEpoch

def canResolve (currentEpoch : ℤ) : Bool :=
  dispute.resolution=.pending && dispute.votingDeadlineEpoch<currentEpoch

end IntersubjectiveDispute

structure DisputeRegistry where
  disputes : Dict String IntersubjectiveDispute
  nextId : ℕ

/-- The double next to 0.66. -/
def supermajorityThreshold : ℚ := 5944751508129055 / 2^53

def votingPeriodEpochs : ℤ := 168

/-- The double next to 0.01. -/
def minBondRatio : ℚ := 5764607523034235 / 2^59

namespace DisputeRegistry

def minBond (targetStake : ℤ) : Except PyError ℤ := do
  let stake ← toDouble targetStake
  truncate (roundDouble (stake*minBondRatio))

def createDispute (challenger target : String) (targetStake : ℤ)
    (evidenceUri evidenceHash : String) (disputeBond slashAmount currentEpoch : ℤ) :
    Method DisputeRegistry IntersubjectiveDispute := do
  let minimum ← Method.call (minBond targetStake)
  if disputeBond < minimum then
    throw (.valueError (s!"Dispute bond {disputeBond} below minimum {minimum} " ++
      s!"(1% of target stake {targetStake})"))
  else do
    let id := (← get).nextId+1
    let disputeId := s!"dispute-{id}"
    let dispute : IntersubjectiveDispute := ⟨disputeId,challenger,target,evidenceUri,
      evidenceHash,disputeBond,slashAmount,.pending,0,0,currentEpoch,
      currentEpoch+votingPeriodEpochs,-1⟩
    modify fun r => ⟨r.disputes.set disputeId dispute,id⟩
    return dispute

def castVote (disputeId : String) (voterStake : ℤ) (voteFor : Bool) (currentEpoch : ℤ) :
    Method DisputeRegistry Bool := do
  match (← get).disputes.get? disputeId with
  | none => return false
  | some dispute =>
    if dispute.isVotingOpen currentEpoch then do
      let voted := if voteFor then {dispute with votesFor := dispute.votesFor+voterStake}
        else {dispute with votesAgainst := dispute.votesAgainst+voterStake}
      modify fun r => {r with disputes := r.disputes.set disputeId voted}
      return true
    else return false

def resolve (disputeId : String) (currentEpoch : ℤ) :
    Method DisputeRegistry (Option DisputeResolution) := do
  match (← get).disputes.get? disputeId with
  | none => return none
  | some dispute =>
    if dispute.canResolve currentEpoch then do
      let ratio ← Method.call dispute.approvalRatio
      let resolution : DisputeResolution :=
        if supermajorityThreshold≤ratio then .upheld else .rejected
      let resolved := {dispute with resolution := resolution,resolvedEpoch := currentEpoch}
      modify fun r => {r with disputes := r.disputes.set disputeId resolved}
      return some resolution
    else return none

def pendingDisputes (registry : DisputeRegistry) : List IntersubjectiveDispute :=
  registry.disputes.values.filter fun dispute => dispute.resolution=.pending

end DisputeRegistry

structure PipelineConfig where
  enableRuntimeInvariants : Bool
  enableDisputes : Bool
  conditions : ConditionRegistry
  engine : EconomicsConfig
  hash : CanonicalHash

/-- The node objects by their place, what the pipeline keeps besides the violations, every
pending slash made so far, and the runtime invariants that have failed. -/
structure Core where
  nodes : ℕ → NodeEconomics
  disputes : DisputeRegistry
  totalViolations : ℕ
  totalSlashesQueued : ℕ
  totalEpochsFinalized : ℕ
  totalDisputesResolved : ℕ
  created : List (ℕ × PendingSlash)
  failedInvariants : List String

structure AuditResult where
  result : Option String
  strikes : Option ℤ
  challenged : Option ℤ
  failed : Option ℤ
  missing : Option ℤ

structure PdpResult where
  result : Option String
  passed : Option ℤ
  failed : Option ℤ

def AuditResult.evidence (auditResult : AuditResult) (node : NodeEconomics) : String :=
  evidenceText [("node_id",.str node.nodeId),
    ("consecutive_failures",.int (auditResult.strikes.getD (node.offenseCount+1))),
    ("challenged",.int (auditResult.challenged.getD 0)),
    ("failed",.int (auditResult.failed.getD 0)),
    ("missing",.int (auditResult.missing.getD 0))]

def PdpResult.evidence (pdpResult : PdpResult) (node : NodeEconomics) : String :=
  evidenceText [("node_id",.str node.nodeId),("proof_failures",.int (pdpResult.failed.getD 0)),
    ("total_challenges",.int (pdpResult.passed.getD 0+pdpResult.failed.getD 0))]

structure EpochSummary where
  epoch : ℤ
  batchEntries : ℕ
  pendingCreated : ℕ
  slashesFinalized : ℕ
  stakeDeducted : ℤ
  nodesEvicted : List String
  disputesResolved : ℕ

namespace Core

def onNode (place : ℕ) (change : NodeEconomics → NodeEconomics) (c : Core) : Core :=
  {c with nodes := Function.update c.nodes place (change (c.nodes place))}

variable (config : PipelineConfig)

def check (holds : Bool) (message : String) : Method Core Unit :=
  if config.enableRuntimeInvariants && !holds then do
    modify fun c => {c with failedInvariants := c.failedInvariants++[message]}
    throw (.assertionError message)
  else pure ()

def notePass (place : ℕ) : Method Core Unit :=
  modify (onNode place fun node =>
    {node with cleanEpochsSinceOffense := node.cleanEpochsSinceOffense+1})

def noteViolation (conditionId : String) (result : SlashResult) (place : ℕ)
    (totalNetworkStake : ℤ) : Method Core BatchSlashEntry := do
  modify fun c => {c with totalViolations := c.totalViolations+1}
  modify (onNode place fun node =>
    {node with offenseCount := node.offenseCount+1,cleanEpochsSinceOffense := 0})
  let allocationBps :=
    ((config.conditions.get? conditionId).map SlashingCondition.stakeAllocationBps).getD 5000
  let node := (← get).nodes place
  let slash ← Method.call (config.engine.computeSlashForCondition node allocationBps
    result.severity 0 totalNetworkStake)
  return ⟨node.nodeId,conditionId,result.evidenceHash,slash.1,result.severity⟩

def evaluate (conditionId evidence : String) (place : ℕ) (totalNetworkStake : ℤ) :
    Method Core (SlashResult × Option BatchSlashEntry) := do
  let result ← Method.call (config.conditions.evaluate config.hash conditionId evidence)
  if result.violated then do
    let entry ← noteViolation config conditionId result place totalNetworkStake
    return (result,some entry)
  else return (result,none)

def noteQueued (result : SlashResult) (place : ℕ) : Method Core Unit := do
  modify fun c => {c with totalSlashesQueued := c.totalSlashesQueued+1}
  check config result.violated "INV-S1 violated: node slashed without violated=True"
  let node := (← get).nodes place
  check config (node.totalSlashed≤node.stake) "INV-S4 violated: total_slashed > stake"

def nodeMap (places : List ℕ) (c : Core) : Dict String ℕ :=
  places.foldl (fun map place => map.set (c.nodes place).nodeId place) Dict.empty

def addPendingSlash (place : ℕ) (slash : PendingSlash) (c : Core) : Core :=
  {c.onNode place (fun node => {node with pendingSlashes := node.pendingSlashes++[slash]})
    with created := c.created++[(place,slash)]}

def createPendingSlash (place : ℕ) (slashAmount : ℤ) (tier : SlashingTier) (epoch : ℤ) :
    Method Core Unit :=
  modify fun c =>
    c.addPendingSlash place (config.engine.pendingSlash (c.nodes place) slashAmount tier epoch)

def createFromEntry (epoch : ℤ) (map : Dict String ℕ) (pendingCreated : ℕ)
    (entry : BatchSlashEntry) : Method Core ℕ :=
  match map.get? entry.nodeId with
  | none => pure pendingCreated
  | some place => do
    createPendingSlash config place entry.slashAmount (severityToTier entry.severity) epoch
    return pendingCreated+1

def deductSlash (place : ℕ) (totals : ℕ × ℤ) (slash : PendingSlash) : Method Core (ℕ × ℤ) := do
  modify (onNode place fun node => node.deduct slash.amount)
  let node := (← get).nodes place
  check config (node.totalSlashed≤node.stake+node.totalSlashed)
    "INV-S4 violated during finalization"
  return (totals.1+1,totals.2+slash.amount)

def finalizeNode (epoch : ℤ) (totals : ℕ × ℤ) (place : ℕ) : Method Core (ℕ × ℤ) := do
  let finalized := ((← get).nodes place).due epoch
  modify (onNode place fun node => {node with pendingSlashes := node.remaining epoch})
  finalized.foldlM (deductSlash config place) totals

def evictNode (evicted : List String) (place : ℕ) : Method Core (List String) := do
  let node := (← get).nodes place
  if !node.evicted && config.engine.shouldEvict node then do
    modify (onNode place fun node => {node with evicted := true})
    return evicted++[node.nodeId]
  else return evicted

def onDisputes {α : Type} (m : Method DisputeRegistry α) : Method Core α :=
  m.on disputes fun c disputes => {c with disputes := disputes}

def slashTarget (epoch : ℤ) (map : Dict String ℕ) (dispute : IntersubjectiveDispute)
    (resolution : Option DisputeResolution) : Method Core Unit :=
  if resolution=some .upheld then
    match map.get? dispute.target with
    | none => pure ()
    | some place => createPendingSlash config place dispute.slashAmount .major epoch
  else pure ()

def resolveDispute (epoch : ℤ) (map : Dict String ℕ) (resolved : ℕ)
    (dispute : IntersubjectiveDispute) : Method Core ℕ :=
  if dispute.canResolve epoch then do
    let resolution ← onDisputes (DisputeRegistry.resolve dispute.disputeId epoch)
    slashTarget config epoch map dispute resolution
    return resolved+1
  else pure resolved

def resolveExpiredDisputes (epoch : ℤ) (map : Dict String ℕ) : Method Core ℕ := do
  let resolved ← (← get).disputes.pendingDisputes.foldlM (resolveDispute config epoch map) 0
  modify fun c => {c with totalDisputesResolved := c.totalDisputesResolved+resolved}
  return resolved

def disputePhase (epoch : ℤ) (map : Dict String ℕ) : Method Core ℕ :=
  if config.enableDisputes then resolveExpiredDisputes config epoch map else pure 0

def createPending (epoch : ℤ) (map : Dict String ℕ) (entries : List BatchSlashEntry) :
    Method Core ℕ :=
  entries.foldlM (createFromEntry config epoch map) 0

def closeEpoch (epoch : ℤ) (places : List ℕ) (map : Dict String ℕ)
    (batchEntries pendingCreated : ℕ) : Method Core EpochSummary := do
  let totals ← places.foldlM (finalizeNode config epoch) (0,0)
  let evicted ← places.foldlM (evictNode config) []
  let resolved ← disputePhase config epoch map
  modify fun c => {c with totalEpochsFinalized := c.totalEpochsFinalized+1}
  return ⟨epoch,batchEntries,pendingCreated,totals.1,totals.2,evicted,resolved⟩

def settleEpoch (epoch : ℤ) (places : List ℕ) (entries : List BatchSlashEntry) :
    Method Core EpochSummary := do
  let map := nodeMap places (← get)
  let pendingCreated ← createPending config epoch map entries
  closeEpoch config epoch places map entries.length pendingCreated

def reversePendingSlash (place i : ℕ) (c : Core) : Core :=
  c.onNode place fun node => {node with
    pendingSlashes := node.pendingSlashes.modify i fun slash => {slash with reversed := true}}

end Core

section
variable {σ : Type} (store : ViolationStore σ) (config : PipelineConfig)

def evaluateAndQueue (conditionId evidence : String) (place : ℕ) (epoch totalNetworkStake : ℤ) :
    Method (Core × σ) SlashResult := do
  let (result,entry) ← Method.first
    (Core.evaluate config conditionId evidence place totalNetworkStake)
  match entry with
  | none => return result
  | some entry => do
    Method.second (modify (store.add epoch entry))
    Method.first (Core.noteQueued config result place)
    return result

def handleResult (conditionId : String) (passed : Bool) (evidence : NodeEconomics → String)
    (place : ℕ) (epoch totalNetworkStake : ℤ) : Method (Core × σ) (Option SlashResult) :=
  if passed then do
    Method.first (Core.notePass place)
    return none
  else do
    let evidence ← Method.first (do return evidence ((← get).nodes place))
    let result ← evaluateAndQueue store config conditionId evidence place epoch totalNetworkStake
    return some result

def handleAuditResult (auditResult : AuditResult) :
    ℕ → ℤ → ℤ → Method (Core × σ) (Option SlashResult) :=
  handleResult store config "audit_failure" (auditResult.result=some "PASS") auditResult.evidence

def handlePdpResult (pdpResult : PdpResult) : ℕ → ℤ → ℤ → Method (Core × σ) (Option SlashResult) :=
  handleResult store config "proof_failure" (pdpResult.result=some "PASS") pdpResult.evidence

def drain (epoch : ℤ) : Method σ (List BatchSlashEntry) := do
  let drained := store.drain epoch (← get)
  set drained.2
  return drained.1

def finalizeEpoch (epoch : ℤ) (places : List ℕ) : Method (Core × σ) EpochSummary := do
  let entries ← Method.second (drain store epoch)
  Method.first (Core.settleEpoch config epoch places entries)

inductive PipelineInput
  | auditResult (auditResult : AuditResult) (place : ℕ) (epoch totalNetworkStake : ℤ)
  | pdpResult (pdpResult : PdpResult) (place : ℕ) (epoch totalNetworkStake : ℤ)
  | finalizeEpoch (epoch : ℤ) (places : List ℕ)
  | createDispute (challenger : String) (place : ℕ) (evidenceUri evidenceHash : String)
      (disputeBond slashAmount epoch : ℤ)
  | castVote (disputeId : String) (voterStake : ℤ) (voteFor : Bool) (epoch : ℤ)
  | reverse (place i : ℕ)

def createDispute (challenger : String) (place : ℕ) (evidenceUri evidenceHash : String)
    (disputeBond slashAmount epoch : ℤ) : Method Core IntersubjectiveDispute := do
  let node := (← get).nodes place
  Core.onDisputes (DisputeRegistry.createDispute challenger node.nodeId node.stake evidenceUri
    evidenceHash disputeBond slashAmount epoch)

def PipelineInput.run : PipelineInput → Method (Core × σ) Unit
  | .auditResult result place epoch total =>
    discard (handleAuditResult store config result place epoch total)
  | .pdpResult result place epoch total =>
    discard (handlePdpResult store config result place epoch total)
  | .finalizeEpoch epoch places => discard (Enforcement.finalizeEpoch store config epoch places)
  | .createDispute challenger place uri hash bond amount epoch =>
    discard (Method.first (Enforcement.createDispute challenger place uri hash bond amount epoch))
  | .castVote id stake voteFor epoch =>
    discard (Method.first (Core.onDisputes (DisputeRegistry.castVote id stake voteFor epoch)))
  | .reverse place i => Method.first (modify (Core.reversePendingSlash place i))

def Core.start (nodes : ℕ → NodeEconomics) : Core := ⟨nodes,⟨Dict.empty,0⟩,0,0,0,0,[],[]⟩

def pipeline (nodes : ℕ → NodeEconomics) : Machine (Core × σ) PipelineInput Empty where
  start := (Core.start nodes,store.empty)
  step s input := (((input.run store config).exec s).2,[])

theorem pipeline_state_snoc (nodes : ℕ → NodeEconomics) (inputs : List PipelineInput)
    (input : PipelineInput) : (pipeline store config nodes).state (inputs++[input]) =
      ((input.run store config).exec ((pipeline store config nodes).state inputs)).2 :=
  Machine.state_snoc _ _ _

end

def NodeEconomics.SameAccount (node node' : NodeEconomics) : Prop :=
  node'.stake=node.stake ∧ node'.totalSlashed=node.totalSlashed

namespace Core

def Untouched (c c' : Core) : Prop :=
  (∀ p, (c.nodes p).SameAccount (c'.nodes p)) ∧ c'.failedInvariants=c.failedInvariants

instance : Std.Refl Untouched := ⟨fun _ => ⟨fun _ => ⟨rfl,rfl⟩,rfl⟩⟩

instance : IsTrans Core Untouched := ⟨fun _ _ _ h h' =>
  ⟨fun p => ⟨(h'.1 p).1.trans (h.1 p).1,(h'.1 p).2.trans (h.1 p).2⟩,h'.2.trans h.2⟩⟩

theorem nodes_onNode (c : Core) (place p : ℕ) (change : NodeEconomics → NodeEconomics) :
    (c.onNode place change).nodes p=if p=place then change (c.nodes p) else c.nodes p := by
  split_ifs with h
  · rw [h]
    exact update_self ..
  · exact update_of_ne h ..

theorem untouched_onNode (c : Core) (place : ℕ) (change : NodeEconomics → NodeEconomics)
    (h : ∀ node : NodeEconomics, node.SameAccount (change node)) :
    Untouched c (c.onNode place change) := by
  refine ⟨fun p => ?_,rfl⟩
  rw [nodes_onNode]
  split_ifs
  · exact h _
  · exact ⟨rfl,rfl⟩

variable (config : PipelineConfig)

variable (place : ℕ)

omit config in
theorem keeps_notePass : Method.Keeps Untouched (notePass place) :=
  keeps_modify fun c => c.untouched_onNode place _ fun _ => ⟨rfl,rfl⟩

theorem keeps_noteViolation (cond : String) (result : SlashResult) (place : ℕ) (total : ℤ) :
    Method.Keeps Untouched (noteViolation config cond result place total) := by
  refine .bind (keeps_modify fun _ => ⟨fun _ => ⟨rfl,rfl⟩,rfl⟩) fun _ =>
    Method.Keeps.bind (keeps_modify fun c => ?_) fun _ =>
      Method.Keeps.bind keeps_get fun _ =>
        Method.Keeps.bind (keeps_call _) fun _ => keeps_pure _
  exact c.untouched_onNode place _ fun _ => ⟨rfl,rfl⟩

theorem untouched_createPendingSlash (amount : ℤ) (tier : SlashingTier) (epoch : ℤ) :
    Method.Keeps Untouched (createPendingSlash config place amount tier epoch) := by
  refine keeps_modify fun c => ⟨fun p => ?_,rfl⟩
  exact (c.untouched_onNode place (fun node => {node with
    pendingSlashes := node.pendingSlashes++[_]}) fun _ => ⟨rfl,rfl⟩).1 p

omit config in
theorem untouched_reverse (place i : ℕ) (c : Core) : Untouched c (reversePendingSlash place i c) :=
  c.untouched_onNode place _ fun _ => ⟨rfl,rfl⟩

section
variable (epoch : ℤ) (map : Dict String ℕ)

theorem keeps_createFromEntry (n : ℕ) (entry : BatchSlashEntry) :
    Method.Keeps Untouched (createFromEntry config epoch map n entry) := by
  rw [createFromEntry]
  split
  · exact keeps_pure _
  · exact (untouched_createPendingSlash config _ _ _ _).bind fun _ => keeps_pure _

theorem keeps_createPending (es : List BatchSlashEntry) :
    Method.Keeps Untouched (createPending config epoch map es) :=
  Method.Keeps.foldlM (fun n entry _ => keeps_createFromEntry config epoch map n entry) 0

end

theorem keeps_onDisputes {α : Type} (m : Method DisputeRegistry α) :
    Method.Keeps Untouched (onDisputes m) :=
  Method.keeps_on m fun _ _ => ⟨fun _ => ⟨rfl,rfl⟩,rfl⟩

theorem keeps_evictNode (evicted : List String) (place : ℕ) :
    Method.Keeps Untouched (evictNode config evicted place) := by
  refine .bind keeps_get fun c => ?_
  dsimp only
  split_ifs
  · refine .bind (keeps_modify fun c => ?_) fun _ => keeps_pure _
    exact c.untouched_onNode place _ fun _ => ⟨rfl,rfl⟩
  · exact keeps_pure _

section
variable (epoch : ℤ) (map : Dict String ℕ)

theorem keeps_slashTarget (dispute : IntersubjectiveDispute) (res : Option DisputeResolution) :
    Method.Keeps Untouched (slashTarget config epoch map dispute res) := by
  rw [slashTarget]
  split_ifs
  · split
    · exact keeps_pure _
    · exact untouched_createPendingSlash config _ _ _ _
  · exact keeps_pure _

theorem keeps_resolveDispute (n : ℕ) (dispute : IntersubjectiveDispute) :
    Method.Keeps Untouched (resolveDispute config epoch map n dispute) := by
  rw [resolveDispute]
  split_ifs
  · exact (keeps_onDisputes _).bind fun res =>
      (keeps_slashTarget config epoch map dispute res).bind fun _ => keeps_pure _
  · exact keeps_pure _

theorem keeps_resolveExpiredDisputes :
    Method.Keeps Untouched (resolveExpiredDisputes config epoch map) := by
  refine .bind keeps_get fun c => .bind
    (.foldlM (fun n dispute _ => keeps_resolveDispute config epoch map n dispute) 0)
    fun _ => .bind (keeps_modify fun _ => ⟨fun _ => ⟨rfl,rfl⟩,rfl⟩)
      fun _ => keeps_pure _

theorem keeps_disputePhase : Method.Keeps Untouched (disputePhase config epoch map) := by
  rw [disputePhase]
  split_ifs
  · exact keeps_resolveExpiredDisputes config epoch map
  · exact keeps_pure _

end

theorem onNode_congr (c : Core) {place : ℕ} {f g : NodeEconomics → NodeEconomics}
    (h : f (c.nodes place)=g (c.nodes place)) : c.onNode place f=c.onNode place g := by
  rw [onNode,onNode,h]

theorem onNode_onNode (c : Core) (place : ℕ) (f g : NodeEconomics → NodeEconomics) :
    (c.onNode place f).onNode place g=c.onNode place fun node => g (f node) := by simp [onNode]

theorem foldl_deduct_onNode (slashes : List PendingSlash) (c : Core) :
    slashes.foldl (fun c slash => c.onNode place fun node => node.deduct slash.amount) c =
      c.onNode place fun node =>
        (slashes.map PendingSlash.amount).foldl NodeEconomics.deduct node := by
  induction slashes generalizing c with
  | nil =>
    change c={c with nodes := update c.nodes place (c.nodes place)}
    rw [update_eq_self]
  | cons slash slashes ih =>
    rw [foldl_cons,ih,onNode_onNode]
    rfl

theorem deductSlash_exec (totals : ℕ × ℤ) (slash : PendingSlash) (c : Core) :
    ∃ totals', (deductSlash config place totals slash).exec c =
      (.ok totals',c.onNode place fun node => node.deduct slash.amount) := by
  have hn : (c.onNode place fun node => node.deduct slash.amount).nodes place =
      (c.nodes place).deduct slash.amount := by rw [nodes_onNode,if_pos rfl]
  have hs : 0≤((c.nodes place).deduct slash.amount).stake := le_max_left _ _
  have hc : check config (((c.nodes place).deduct slash.amount).totalSlashed ≤
      ((c.nodes place).deduct slash.amount).stake +
        ((c.nodes place).deduct slash.amount).totalSlashed)
      "INV-S4 violated during finalization" = pure () := by
    rw [check,decide_eq_true (by omega),Bool.not_true,Bool.and_false]
    rfl
  refine ⟨(totals.1+1,totals.2+slash.amount),?_⟩
  rw [deductSlash,exec_bind,exec_modify]
  dsimp only
  rw [exec_bind,exec_get]
  dsimp only
  rw [hn,hc]
  rfl

end Core

def NodeEconomics.settled (node : NodeEconomics) (epoch : ℤ) : NodeEconomics :=
  ((node.due epoch).map PendingSlash.amount).foldl NodeEconomics.deduct
    {node with pendingSlashes := node.remaining epoch}

namespace NodeEconomics

variable (node : NodeEconomics)

theorem deductAll_pendingSlashes (amounts : List ℤ) :
    (amounts.foldl deduct node).pendingSlashes=node.pendingSlashes := by
  induction amounts generalizing node with
  | nil => rfl
  | cons amount rest ih => exact ih (node.deduct amount)

theorem settled_pendingSlashes (epoch : ℤ) :
    (node.settled epoch).pendingSlashes=node.remaining epoch :=
  deductAll_pendingSlashes _ _

theorem settled_settled (epoch : ℤ) : (node.settled epoch).settled epoch=node.settled epoch := by
  have hd : (node.settled epoch).due epoch=[] := by
    rw [due,settled_pendingSlashes,remaining,filter_filter,filter_eq_nil_iff]
    intro slash _
    cases slash.isFinalized epoch <;> simp
  have hr : (node.settled epoch).remaining epoch=(node.settled epoch).pendingSlashes := by
    rw [remaining,settled_pendingSlashes,remaining]
    simp
  rw [settled,hd,hr]
  rfl

end NodeEconomics

namespace Core
variable (config : PipelineConfig)

theorem finalizeNode_exec (epoch : ℤ) (totals : ℕ × ℤ) (place : ℕ) (c : Core) :
    ∃ totals', (finalizeNode config epoch totals place).exec c =
      (.ok totals',c.onNode place fun node => node.settled epoch) := by
  obtain ⟨totals',hl⟩ := exec_foldlM_of_ok
    (fun totals slash c => deductSlash_exec config place totals slash c)
    ((c.nodes place).due epoch) totals
    (c.onNode place fun node => {node with pendingSlashes := node.remaining epoch})
  refine ⟨totals',?_⟩
  rw [finalizeNode,exec_bind,exec_get]
  dsimp only
  rw [exec_bind,exec_modify]
  dsimp only
  rw [hl,foldl_deduct_onNode,onNode_onNode]
  exact congrArg (Prod.mk _) (c.onNode_congr rfl)

theorem nodes_foldl_settled (epoch : ℤ) (places : List ℕ) (c : Core) (p : ℕ) :
    (places.foldl (fun c place => c.onNode place fun node => node.settled epoch) c).nodes p =
      if p ∈ places then (c.nodes p).settled epoch else c.nodes p := by
  induction places generalizing c with
  | nil => rfl
  | cons place places ih =>
    rw [foldl_cons,ih,nodes_onNode]
    by_cases hp : p=place
    · simp [hp,NodeEconomics.settled_settled]
    · simp [hp]

theorem failedInvariants_foldl_onNode (change : NodeEconomics → NodeEconomics) (places : List ℕ)
    (c : Core) : (places.foldl (fun c place => c.onNode place change) c).failedInvariants =
      c.failedInvariants := by
  induction places generalizing c with
  | nil => rfl
  | cons place places ih => exact ih (c.onNode place change)

theorem createPending_ok (epoch : ℤ) (map : Dict String ℕ) (es : List BatchSlashEntry)
    (c : Core) : ∃ n, ((createPending config epoch map es).exec c).1=.ok n := by
  have hb : ∀ n entry c, ∃ n', (createFromEntry config epoch map n entry).exec c =
      (.ok n',((createFromEntry config epoch map 0 entry).exec c).2) := by
    intro n entry c
    rw [createFromEntry,createFromEntry]
    split
    · exact ⟨n,rfl⟩
    · exact ⟨n+1,rfl⟩
  obtain ⟨n,hl⟩ := exec_foldlM_of_ok hb es 0 c
  exact ⟨n,congrArg Prod.fst hl⟩

theorem settleEpoch_accounts (epoch : ℤ) (places : List ℕ) (es : List BatchSlashEntry)
    (c c1 c' : Core) (hc : c1=((createPending config epoch (nodeMap places c) es).exec c).2)
    (hs : c'=((settleEpoch config epoch places es).exec c).2) :
    (∀ p, NodeEconomics.SameAccount
      (if p ∈ places then (c1.nodes p).settled epoch else c1.nodes p) (c'.nodes p)) ∧
      c'.failedInvariants=c.failedInvariants := by
  obtain ⟨n,hok⟩ := createPending_ok config epoch (nodeMap places c) es c
  have hcr := (keeps_createPending config epoch (nodeMap places c) es c).2
  obtain ⟨totals,hl⟩ := exec_foldlM_of_ok (finalizeNode_exec config epoch) places
    (0,0) c1
  set c2 := places.foldl (fun c place => c.onNode place fun node => node.settled epoch) c1 with hc2
  have hr : Untouched c2 c' := by
    rw [settleEpoch,exec_bind,exec_get] at hs
    dsimp only at hs
    rw [exec_bind,exec_eq_ok hok,← hc] at hs
    dsimp only at hs
    rw [closeEpoch,exec_bind,hl] at hs
    rw [hs]
    refine Method.Keeps.bind (Method.Keeps.foldlM (fun evicted place _ =>
      keeps_evictNode config evicted place) []) (fun _ =>
        (keeps_disputePhase config epoch _).bind fun _ => Method.Keeps.bind ?_ fun _ =>
          keeps_pure _) c2
    exact keeps_modify fun _ => ⟨fun _ => ⟨rfl,rfl⟩,rfl⟩
  constructor
  · intro p
    rw [← nodes_foldl_settled epoch places c1 p]
    exact hr.1 p
  · rw [hr.2,failedInvariants_foldl_onNode,hc,hcr]

def findsViolation (conditionId evidence : String) : Bool :=
  match config.conditions.evaluate config.hash conditionId evidence with
  | .ok result => result.violated
  | .error _ => false

def Fails (c : Core) (place : ℕ) : Prop :=
  config.enableRuntimeInvariants=true ∧ (c.nodes place).stake<(c.nodes place).totalSlashed

instance (c : Core) (place : ℕ) : Decidable (Fails config c place) := by
  unfold Fails
  infer_instance

def failure : String := "INV-S4 violated: total_slashed > stake"

theorem noteQueued_exec {result : SlashResult} (hv : result.violated=true) (place : ℕ)
    (c : Core) : ((noteQueued config result place).exec c).2 =
      {c with
        totalSlashesQueued := c.totalSlashesQueued+1
        failedInvariants := c.failedInvariants ++
          if Fails config c place then [failure] else []} := by
  rw [noteQueued,hv]
  have hf :
      check config true "INV-S1 violated: node slashed without violated=True" = pure () := by
    rw [check,Bool.not_true,Bool.and_false]
    rfl
  rw [hf,exec_bind,exec_modify]
  dsimp only
  rw [exec_bind,Method.exec_pure]
  dsimp only
  rw [exec_bind,exec_get]
  dsimp only
  rw [check]
  by_cases hfa : Fails config c place
  · rw [if_pos hfa,if_pos (by simp [hfa.1,hfa.2])]
    rfl
  · rw [if_neg hfa,if_neg (by simpa [Fails] using hfa),append_nil]
    rfl

theorem noteViolation_ok (cond : String) (result : SlashResult) (place : ℕ) (total : ℤ) (c : Core) :
    ∃ entry, ((noteViolation config cond result place total).exec c).1=.ok entry := by
  have ha : ∀ (node : NodeEconomics) (bps : ℤ), config.engine.computeSlashForCondition node bps
      result.severity 0 total=.ok (min (node.stake*bps / 10000 *
        slashingRates (severityToTier result.severity) / 10000) (node.stake*bps / 10000),
          severityToTier result.severity) := by
    intro node bps
    rw [EconomicsConfig.computeSlashForCondition,if_neg (fun h => lt_irrefl 0 h.2)]
    rfl
  simp only [noteViolation,ha]
  exact ⟨_,rfl⟩

theorem evaluate_exec (cond evidence : String) (place : ℕ) (total : ℤ) (c : Core) :
    findsViolation config cond evidence=false ∧
        ((∃ e, (evaluate config cond evidence place total).exec c=(.error e,c)) ∨
          ∃ result, (evaluate config cond evidence place total).exec c =
            (.ok (result,none),c)) ∨ findsViolation config cond evidence=true ∧
        ∃ result entry c1, (evaluate config cond evidence place total).exec c =
          (.ok (result,some entry),c1) ∧ result.violated=true ∧ Untouched c c1 := by
  rw [evaluate,findsViolation,exec_bind,Method.exec_call]
  cases config.conditions.evaluate config.hash cond evidence with
  | error e => exact .inl ⟨rfl,.inl ⟨e,rfl⟩⟩
  | ok result =>
    dsimp only
    by_cases hv : result.violated=true
    · obtain ⟨entry,he⟩ := noteViolation_ok config cond result place total c
      have hk := keeps_noteViolation config cond result place total c
      rw [if_pos hv,exec_bind,exec_eq_ok he]
      exact .inr ⟨hv,result,entry,_,rfl,hv,hk⟩
    · rw [if_neg hv]
      exact .inl ⟨by simpa using hv,.inr ⟨result,rfl⟩⟩

end Core

section
variable {σ : Type} (store : ViolationStore σ) (config : PipelineConfig)
open LatticeTransfer.Enforcement.Core

def Checked (c c' : Core) (failing : Prop) [Decidable failing] : Prop :=
  (∀ p, (c.nodes p).SameAccount (c'.nodes p)) ∧
    c'.failedInvariants=c.failedInvariants++if failing then [failure] else []

variable {c c' : Core}

theorem Core.Untouched.checked (h : Untouched c c') {failing : Prop} [Decidable failing]
    (hn : ¬failing) : Checked c c' failing :=
  ⟨h.1,by rw [if_neg hn,append_nil,h.2]⟩

theorem fails_iff_of_sameAccount (h : ∀ p, (c.nodes p).SameAccount (c'.nodes p)) (place : ℕ) :
    Fails config c' place ↔ Fails config c place := by rw [Fails,Fails,(h place).1,(h place).2]

theorem evaluateAndQueue_checked (cond evidence : String) (place : ℕ) (epoch total : ℤ)
    (c : Core) (s : σ) :
    Checked c ((evaluateAndQueue store config cond evidence place epoch total).exec
      (c,s)).2.1 (findsViolation config cond evidence=true ∧ Fails config c place) := by
  rw [evaluateAndQueue,exec_bind,Method.first,exec_on]
  rcases evaluate_exec config cond evidence place total c with
    ⟨hn,⟨e,he⟩ | ⟨result,he⟩⟩ |
    ⟨hf,result,entry,c1,he,hv,hk⟩
  · rw [he]
    exact Untouched.checked (Std.Refl.refl c) fun h => by simp [hn] at h
  · rw [he]
    exact Untouched.checked (Std.Refl.refl c) fun h => by simp [hn] at h
  · rw [he]
    dsimp only
    rw [exec_bind,Method.second,exec_on,exec_modify]
    rw [exec_bind_pure]
    change Checked c ((noteQueued config result place).exec c1).2 _
    rw [noteQueued_exec config hv place c1]
    refine ⟨hk.1,?_⟩
    simp [hk.2,hf,fails_iff_of_sameAccount config hk.1 place]

theorem handleResult_checked (cond : String) (passed : Bool)
    (evidence : NodeEconomics → String) (place : ℕ) (epoch total : ℤ) (c : Core) (s : σ) :
    Checked c ((handleResult store config cond passed evidence place epoch total).exec
      (c,s)).2.1 (passed=false ∧ findsViolation config cond (evidence (c.nodes place))=true ∧
          Fails config c place) := by
  rw [handleResult]
  cases passed with
  | true =>
    exact Untouched.checked (keeps_notePass place c) fun h => by cases h.1
  | false =>
    rw [if_neg Bool.false_ne_true,exec_bind]
    have hr : (.first (do return evidence ((← get).nodes place)) :
        Method (Core × σ) String).exec (c,s)=(.ok (evidence (c.nodes place)),(c,s)) := rfl
    rw [hr]
    rw [exec_bind_pure]
    simpa only [true_and] using evaluateAndQueue_checked store config cond
      (evidence (c.nodes place)) place epoch total c s

/-- Stakes stay non-negative and totals do not fall; on a safe step, and only then, the totals
stay and no check fails. -/
structure Steps (c c' : Core) (safe : Prop) : Prop where
  nonneg : ∀ p, 0≤(c.nodes p).stake → 0≤(c'.nodes p).stake
  total_le : ∀ p, (c.nodes p).total≤(c'.nodes p).total
  failed : ∃ failures, c'.failedInvariants=c.failedInvariants++failures
  safe_iff : safe ↔ (∀ p, (c'.nodes p).total=(c.nodes p).total) ∧
    c'.failedInvariants=c.failedInvariants

theorem NodeEconomics.SameAccount.total_eq {node node' : NodeEconomics}
    (h : node.SameAccount node') : node'.total=node.total := by rw [total,total,h.1,h.2]

theorem Checked.steps {failing : Prop} [Decidable failing] (h : Checked c c' failing) :
    Steps c c' (¬failing) where
  nonneg p := (h.1 p).1.symm ▸ id
  total_le p := (h.1 p).total_eq.ge
  failed := ⟨_,h.2⟩
  safe_iff := by
    rw [h.2,and_iff_right fun p => (h.1 p).total_eq]
    split_ifs with hf <;> simp [hf]

theorem Core.Untouched.steps (h : Untouched c c') : Steps c c' True := by
  simpa using (h.checked not_false).steps

def dueSlashes (s : Core × σ) (epoch : ℤ) (places : List ℕ) (p : ℕ) : List ℤ :=
  let created := ((createPending config epoch (nodeMap places s.1)
    (store.drain epoch s.2).1).exec s.1).2
  ((created.nodes p).due epoch).map PendingSlash.amount

theorem finalizeEpoch_account (epoch : ℤ) (places : List ℕ) (s : Core × σ) (p : ℕ) :
    ∃ node, (s.1.nodes p).SameAccount node ∧
      ((if p ∈ places then dueSlashes store config s epoch places p else []).foldl
        NodeEconomics.deduct node).SameAccount
        (((finalizeEpoch store config epoch places).exec s).2.1.nodes p) := by
  set c1 := ((createPending config epoch (nodeMap places s.1) (store.drain epoch s.2).1).exec
    s.1).2 with hc1
  have ha := (settleEpoch_accounts config epoch places (store.drain epoch s.2).1 s.1 c1
    ((finalizeEpoch store config epoch places).exec s).2.1 hc1 rfl).1 p
  have hc := (keeps_createPending config epoch (nodeMap places s.1)
    (store.drain epoch s.2).1 s.1).1 p
  split_ifs with hp
  · rw [if_pos hp] at ha
    exact ⟨{c1.nodes p with pendingSlashes := (c1.nodes p).remaining epoch},hc,ha⟩
  · rw [if_neg hp] at ha
    exact ⟨c1.nodes p,hc,ha⟩

theorem finalizeEpoch_steps (epoch : ℤ) (places : List ℕ) (s : Core × σ) :
    Steps s.1 ((finalizeEpoch store config epoch places).exec s).2.1
      (∀ p ∈ places, Covered (s.1.nodes p).stake (dueSlashes store config s epoch places p)) := by
  have ha := finalizeEpoch_account store config epoch places s
  have hf := (settleEpoch_accounts config epoch places (store.drain epoch s.2).1 s.1 _
    ((finalizeEpoch store config epoch places).exec s).2.1 rfl rfl).2
  refine ⟨fun p hp => ?_,fun p => ?_,⟨[],by rw [hf,append_nil]⟩,?_⟩
  · obtain ⟨node,hn,hs⟩ := ha p
    rw [hs.1]
    exact node.deductAll_stake_nonneg _ (hn.1 ▸ hp)
  · obtain ⟨node,hn,hs⟩ := ha p
    rw [hs.total_eq,← hn.total_eq]
    exact node.total_le_deductAll _
  · rw [and_iff_left hf]
    refine forall_congr' fun p => ?_
    obtain ⟨node,hn,hs⟩ := ha p
    rw [hs.total_eq,← hn.total_eq,NodeEconomics.deductAll_total_eq_iff,hn.1]
    split_ifs with hp
    · rw [forall_prop_of_true hp]
    · exact iff_of_true (fun h => absurd h hp) trivial

/-- When every check holds and stakes and slashes add up: a finalized slash is at most the stake
that is left, and a violation is only found on a node that has lost no more than it has left. -/
def Safe (s : Core × σ) : PipelineInput → Prop
  | .auditResult result place _ _ => ¬(decide (result.result=some "PASS")=false ∧
      findsViolation config "audit_failure" (result.evidence (s.1.nodes place))=true ∧
        Fails config s.1 place)
  | .pdpResult result place _ _ => ¬(decide (result.result=some "PASS")=false ∧
      findsViolation config "proof_failure" (result.evidence (s.1.nodes place))=true ∧
        Fails config s.1 place)
  | .finalizeEpoch epoch places => ∀ p ∈ places,
      Covered (s.1.nodes p).stake (dueSlashes store config s epoch places p)
  | _ => True

instance (s : Core × σ) (input : PipelineInput) : Decidable (Safe store config s input) := by
  cases input <;> unfold Safe <;> infer_instance

theorem steps_run (s : Core × σ) (input : PipelineInput) :
    Steps s.1 ((input.run store config).exec s).2.1 (Safe store config s input) := by
  cases input with
  | auditResult result place epoch total =>
    rw [PipelineInput.run,exec_discard]
    exact (handleResult_checked store config _ _ _ place epoch total s.1 s.2).steps
  | pdpResult result place epoch total =>
    rw [PipelineInput.run,exec_discard]
    exact (handleResult_checked store config _ _ _ place epoch total s.1 s.2).steps
  | finalizeEpoch epoch places =>
    rw [PipelineInput.run,exec_discard]
    exact finalizeEpoch_steps store config epoch places s
  | createDispute challenger place uri hash bond amount epoch =>
    rw [PipelineInput.run,exec_discard]
    exact ((Method.Keeps.bind keeps_get fun _ =>
      keeps_onDisputes _) s.1 : Untouched _ _).steps
  | castVote id stake voteFor epoch =>
    rw [PipelineInput.run,exec_discard]
    exact (keeps_onDisputes (DisputeRegistry.castVote id stake voteFor epoch) s.1).steps
  | reverse place i =>
    exact (untouched_reverse place i s.1).steps

/-- Stakes and slashes add up to what they were at the start, no stake is negative, and no
runtime invariant has failed. -/
structure Sound (nodes : ℕ → NodeEconomics) (c : Core) : Prop where
  conserved : ∀ p, (c.nodes p).stake+(c.nodes p).totalSlashed =
    (nodes p).stake+(nodes p).totalSlashed
  nonneg : ∀ p, 0≤(c.nodes p).stake
  checked : c.failedInvariants=[]

theorem sound_iff (nodes : ℕ → NodeEconomics) (hstake : ∀ p, 0≤(nodes p).stake)
    (inputs : List PipelineInput) :
    (∀ before, before <+: inputs → Sound nodes ((pipeline store config nodes).state before).1) ↔
      (pipeline store config nodes).Meets (Safe store config) inputs := by
  refine Machine.forall_prefix_iff_meets (P := fun (s : Core × σ) _ => Sound nodes s.1)
    (J := fun s _ => ∀ p, 0≤(s.1.nodes p).stake ∧ (nodes p).total≤(s.1.nodes p).total)
    ?_ ⟨fun _ => rfl,hstake,rfl⟩ ?_ (fun _ _ h => h) ?_ inputs
  · refine Machine.invariant (P := fun (s : Core × σ) _ => ∀ p, 0≤(s.1.nodes p).stake ∧
      (nodes p).total≤(s.1.nodes p).total) (fun p => ⟨hstake p,le_rfl⟩) fun s _ input h p => ?_
    have hs := steps_run store config s input
    exact ⟨hs.nonneg p (h p).1,(h p).2.trans (hs.total_le p)⟩
  · intro s _ input _ hso hsa
    have hs := steps_run store config s input
    obtain ⟨ht,hf⟩ := hs.safe_iff.mp hsa
    exact ⟨fun p => (ht p).trans (hso.conserved p),
      fun p => hs.nonneg p (hso.nonneg p),hf.trans hso.checked⟩
  · intro s _ input hg _ hso
    have hs := steps_run store config s input
    refine hs.safe_iff.mpr ⟨fun p => ?_,?_⟩
    · have hb : _ = (nodes p).total := hso.conserved p
      exact le_antisymm (hb.le.trans (hg p).2) (hs.total_le p)
    · obtain ⟨failures,hfa⟩ := hs.failed
      have hn := hfa.symm.trans hso.checked
      rw [hfa,(append_eq_nil_iff.mp hn).1]
      exact (append_eq_nil_iff.mp hn).2

end

def noHash : CanonicalHash where
  algo := "none"
  run _ := []
  size := 0
  length_run _ := List.length_nil

def sampleConfig : PipelineConfig where
  enableRuntimeInvariants := true
  enableDisputes := false
  conditions := defaultConditions noHash
  engine := ⟨168,6,2,3⟩
  hash := noHash

def hundredStaked (_ : ℕ) : NodeEconomics := ⟨"n",100,0,0,false,0,[]⟩

def sixFailures (epoch : ℤ) : PipelineInput :=
  .auditResult ⟨some "FAIL",some 6,none,none,none⟩ 0 epoch 100

theorem singleViolation_sound :
    (∀ before, before <+: [sixFailures 1,.finalizeEpoch 1 [0],.finalizeEpoch 169 [0],
        sixFailures 170] → Sound hundredStaked
        ((pipeline batchSlashingAccumulator sampleConfig hundredStaked).state before).1) ∧
      (((pipeline batchSlashingAccumulator sampleConfig hundredStaked).state
        [sixFailures 1,.finalizeEpoch 1 [0],.finalizeEpoch 169 [0],sixFailures 170]).1.nodes
          0).stake=85 :=
  ⟨(sound_iff batchSlashingAccumulator sampleConfig hundredStaked
    (fun _ => (by decide : (0 : ℤ)≤100)) _).mpr
    (by decide +kernel),by decide +kernel⟩

def failedCore (n : ℕ) : Core :=
  {Core.start (update hundredStaked 0 ⟨"n",100,0,n,false,0,[]⟩) with
    totalViolations := n
    totalSlashesQueued := n}

def failedEntry : BatchSlashEntry := ⟨"n","audit_failure","none:",15,.critical⟩

deriving instance DecidableEq for SlashResult

theorem evaluate_sixFailures (n : ℕ) :
    (Core.evaluate sampleConfig "audit_failure" (AuditResult.evidence
      ⟨some "FAIL",some 6,none,none,none⟩ ((failedCore n).nodes 0)) 0 100).exec (failedCore n) =
      (.ok (⟨true,.critical,"none:","6 consecutive audit failures (threshold: 3)",
        "audit_failure"⟩,some failedEntry), {failedCore (n+1) with totalSlashesQueued := n}) := by
  have hf : ∀ node : NodeEconomics, node.nodeId = "n" →
      sampleConfig.conditions.evaluate sampleConfig.hash "audit_failure"
        (AuditResult.evidence ⟨some "FAIL",some 6,none,none,none⟩ node)=.ok ⟨true,.critical,
          "none:","6 consecutive audit failures (threshold: 3)","audit_failure"⟩ := by
    intro node hid
    simp only [AuditResult.evidence,hid,Option.getD_some]
    decide +kernel
  rw [Core.evaluate,hf _ rfl]
  exact congrArg (fun nodes => (Except.ok (_,some failedEntry),
    {failedCore (n+1) with nodes := nodes,totalSlashesQueued := n})) (update_idem ..)

theorem sixFailures_exec {σ : Type} (store : ViolationStore σ) (n : ℕ) (s : σ) :
    (((sixFailures 1).run store sampleConfig).exec (failedCore n,s)).2 =
      (failedCore (n+1),store.add 1 failedEntry s) := by
  have hf : decide ((some "FAIL" : Option String)=some "PASS")=false := by decide
  have hr : ∀ evidence : NodeEconomics → String,
      (.first (do return evidence ((← get).nodes 0)) : Method (Core × σ) String).exec
        (failedCore n,s)=(.ok (evidence ((failedCore n).nodes 0)),(failedCore n,s)) :=
    fun _ => rfl
  rw [sixFailures,PipelineInput.run,handleAuditResult,hf,exec_discard,handleResult,
    if_neg Bool.false_ne_true,exec_bind,hr]
  rw [exec_bind_pure,evaluateAndQueue,exec_bind,Method.first,exec_on,evaluate_sixFailures]
  rfl

theorem failures_state {σ : Type} (store : ViolationStore σ) (n : ℕ) :
    (pipeline store sampleConfig hundredStaked).state (List.replicate n (sixFailures 1)) =
      (failedCore n,(store.add 1 failedEntry)^[n] store.empty) := by
  induction n with
  | zero => exact congrArg (fun nodes => (Core.start nodes,store.empty)) (update_eq_self 0 _).symm
  | succ n ih =>
    rw [replicate_succ',pipeline_state_snoc,ih,sixFailures_exec,iterate_succ_apply']

theorem sevenViolations_unsound :
    (((pipeline batchSlashingAccumulator sampleConfig hundredStaked).state
      (List.replicate 7 (sixFailures 1) ++
        [.finalizeEpoch 1 [0],.finalizeEpoch 169 [0]])).1.nodes 0) = ⟨"n",0,105,7,true,0,[]⟩ ∧
      ((pipeline batchSlashingAccumulator sampleConfig hundredStaked).state
        (List.replicate 7 (sixFailures 1) ++
          [.finalizeEpoch 1 [0],.finalizeEpoch 169 [0],sixFailures 170])).1.failedInvariants =
        ["INV-S4 violated: total_slashed > stake"] := by
  simp only [Machine.state_eq_foldl,foldl_append]
  simp only [← Machine.state_eq_foldl,failures_state]
  decide +kernel

def SameEntries (batches : Batches) (groups : Groups) : Prop :=
  ∀ epoch, (batches.get? epoch).getD []=(groups.get? (str epoch)).getD []

section
variable {batches : Batches} {groups : Groups} (h : SameEntries batches groups)
include h

theorem SameEntries.add (epoch : ℤ) (entry : BatchSlashEntry) :
    SameEntries (batchSlashingAccumulator.add epoch entry batches)
      (inMemoryQueue.add epoch entry groups) := by
  intro other
  change ((batches.set _ _).get? other).getD []=((groups.set _ _).get? (str other)).getD []
  rw [Dict.get?_set,Dict.get?_set,h epoch]
  by_cases heq : epoch=other
  · rw [if_pos heq,if_pos (congrArg str heq)]
  · rw [if_neg heq,if_neg (str_injective.ne heq),h other]

theorem agree_drain {epoch : ℤ} (hl : ((batches.get? epoch).getD []).length ≤ maxMessages) :
    Method.Agree SameEntries (drain batchSlashingAccumulator epoch) (drain inMemoryQueue epoch)
      batches groups := by
  rw [h epoch] at hl
  refine ⟨?_,fun other => ?_⟩
  · change Except.ok ((batches.get? epoch).getD []) =
      .ok (((groups.get? (str epoch)).getD []).take maxMessages)
    rw [take_of_length_le hl,h epoch]
  · have hg : (inMemoryQueue.drain epoch groups).2=groups.erase (str epoch) :=
      if_pos (drop_eq_nil_of_le hl)
    change ((batches.erase epoch).get? other).getD [] =
      ((inMemoryQueue.drain epoch groups).2.get? (str other)).getD []
    rw [hg,Dict.get?_erase,Dict.get?_erase]
    by_cases heq : epoch=other
    · rw [if_pos heq,if_pos (congrArg str heq)]
    · rw [if_neg heq,if_neg (str_injective.ne heq),h other]

end

section
variable (config : PipelineConfig)
open Method (Agree SameFirst agree_first agree_pure)

variable {s : Core × Batches} {t : Core × Groups}

theorem agree_evaluateAndQueue (cond evidence : String) (place : ℕ) (epoch total : ℤ)
    (h : SameFirst SameEntries s t) : Agree (SameFirst SameEntries)
      (evaluateAndQueue batchSlashingAccumulator config cond evidence place epoch total)
      (evaluateAndQueue inMemoryQueue config cond evidence place epoch total) s t := by
  refine (agree_first _ h).bind fun evaluated s t h => ?_
  obtain ⟨result,entry⟩ := evaluated
  cases entry with
  | none => exact agree_pure result h
  | some entry =>
    refine .bind (.second h.1 ⟨rfl,h.2.add epoch entry⟩) fun _ s t h => ?_
    exact (agree_first _ h).bind fun _ s t h => agree_pure result h

theorem agree_handleResult (cond : String) (passed : Bool)
    (evidence : NodeEconomics → String) (place : ℕ) (epoch total : ℤ)
    (h : SameFirst SameEntries s t) : Agree (SameFirst SameEntries)
      (handleResult batchSlashingAccumulator config cond passed evidence place epoch total)
      (handleResult inMemoryQueue config cond passed evidence place epoch total) s t := by
  rw [handleResult,handleResult]
  split_ifs
  · exact (agree_first _ h).bind fun _ s t h => agree_pure none h
  · exact (agree_first _ h).bind fun evidence s t h =>
      (agree_evaluateAndQueue config cond evidence place epoch total h).bind
        fun result s t h => agree_pure (some result) h

/-- At most a hundred violations of the epoch wait when it is finalized. -/
def WithinLimit (s : Core × Batches) : PipelineInput → Prop
  | .finalizeEpoch epoch _ => ((s.2.get? epoch).getD []).length ≤ maxMessages
  | _ => True

instance (s : Core × Batches) (input : PipelineInput) : Decidable (WithinLimit s input) := by
  cases input <;> unfold WithinLimit <;> infer_instance

theorem agree_run (h : SameFirst SameEntries s t) (input : PipelineInput)
    (hl : WithinLimit s input) :
    Agree (SameFirst SameEntries) (input.run batchSlashingAccumulator config)
      (input.run inMemoryQueue config) s t := by
  have hd : ∀ {α : Type} {m : Method (Core × Batches) α} {m' : Method (Core × Groups) α},
      Agree (SameFirst SameEntries) m m' s t →
        Agree (SameFirst SameEntries) (discard m) (discard m') s t := fun hm =>
    hm.bind fun _ s t h => agree_pure () h
  cases input with
  | auditResult result place epoch total =>
    exact hd (agree_handleResult config _ _ _ place epoch total h)
  | pdpResult result place epoch total =>
    exact hd (agree_handleResult config _ _ _ place epoch total h)
  | finalizeEpoch epoch places =>
    exact hd ((Agree.second h.1 (agree_drain h.2 hl)).bind fun _ s t h =>
      agree_first _ h)
  | createDispute challenger place uri hash bond amount epoch =>
    exact hd (agree_first _ h)
  | castVote id stake voteFor epoch => exact hd (agree_first _ h)
  | reverse place i => exact agree_first _ h

/-- With at most a hundred violations at every finalization, both stores lead to the same nodes
with the same pending slashes, made in the same order. -/
theorem queue_agrees (nodes : ℕ → NodeEconomics) (inputs : List PipelineInput)
    (h : (pipeline batchSlashingAccumulator config nodes).Meets WithinLimit inputs) :
    ((pipeline inMemoryQueue config nodes).state inputs).1 =
      ((pipeline batchSlashingAccumulator config nodes).state inputs).1 := by
  have hr := Machine.related_of_meets (N := pipeline inMemoryQueue config nodes)
    (R := SameFirst SameEntries) ⟨rfl,fun _ => rfl⟩
    (fun _ _ input hs hl => (agree_run config hs input hl).2) inputs h
  exact hr.1.symm

end

theorem twoViolations_same :
    (pipeline batchSlashingAccumulator sampleConfig hundredStaked).Meets WithinLimit
        [sixFailures 1,sixFailures 1,.finalizeEpoch 1 [0]] ∧
      ((pipeline inMemoryQueue sampleConfig hundredStaked).state
        [sixFailures 1,sixFailures 1,.finalizeEpoch 1 [0]]).1 =
        ((pipeline batchSlashingAccumulator sampleConfig hundredStaked).state
          [sixFailures 1,sixFailures 1,.finalizeEpoch 1 [0]]).1 := by
  have h : (pipeline batchSlashingAccumulator sampleConfig hundredStaked).Meets WithinLimit
      [sixFailures 1,sixFailures 1,.finalizeEpoch 1 [0]] := by decide +kernel
  exact ⟨h,queue_agrees sampleConfig hundredStaked _ h⟩

theorem hundredAndOne_differ : ((pipeline inMemoryQueue sampleConfig hundredStaked).state
      (List.replicate 101 (sixFailures 1)++[.finalizeEpoch 1 [0]])).1.created.length=100 ∧
    ((pipeline batchSlashingAccumulator sampleConfig hundredStaked).state
      (List.replicate 101 (sixFailures 1)++[.finalizeEpoch 1 [0]])).1.created.length=101 := by
  rw [pipeline_state_snoc,pipeline_state_snoc,failures_state,failures_state]
  decide +kernel

end LatticeTransfer.Enforcement
