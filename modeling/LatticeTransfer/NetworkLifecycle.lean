import LatticeTransfer.NetworkRepair

/-!
# The life of shards in the commitment network

`CommitmentNetwork` together with what its nodes keep beside their shards (the TTL metadata, the
strikes and the stake) and with `GDPRDeletionManager`. Shards enter by the two distributions and
by the repairs of `evict_node`; they leave by `remove_shard`, by `evict_expired_shards` and by
`execute_deletion`.

Two parts of the state are not in the program. `committed` has the epoch in which the commitment
of each replica ends, a repair copies it with the shard; `dropped` has every shard that an expiry
or a deletion took from a node.
-/

namespace LatticeTransfer.ShardNetwork
open MerkleTree CommitmentLog
open Method (exec_bind keeps_call keeps_pure)

structure StakeEscrow where
  nodeId : String
  amount : Float
  reason : String
  finalized : Bool

structure Offense where
  type : String
  weight : Float

structure Ledger where
  shardTtl : Dict ShardKey (ℤ × Option ℤ)
  strikes : ℕ
  auditPasses : ℕ
  stake : Float
  pendingSlashes : List StakeEscrow
  offenseHistory : List Offense

namespace Ledger

def init (stake : Float) : Ledger := ⟨Dict.empty,0,0,stake,[],[]⟩

variable (ledger : Ledger)

def expiry (key : ShardKey) : Option ℤ :=
  (ledger.shardTtl.get? key).bind fun entry => entry.2.map (entry.1 + ·)

def isShardExpired (key : ShardKey) (currentEpoch : ℤ) : Bool :=
  (ledger.expiry key).any (· ≤ currentEpoch)

def recordTtl (ttl : Option (ℤ × Option ℤ)) (key : ShardKey) : Ledger :=
  match ttl with
  | none => ledger
  | some entry => {ledger with shardTtl := ledger.shardTtl.set key entry}

def createPendingSlash (nodeId : String) (amount : Float) (reason : String) : Ledger :=
  let escrowed := if ledger.stake<amount then ledger.stake else amount
  {ledger with pendingSlashes := ledger.pendingSlashes++[⟨nodeId,escrowed,reason,false⟩]}

def recordOffense (offense : Offense) : Ledger :=
  {ledger with offenseHistory := ledger.offenseHistory++[offense]}

def finalizePendingSlashes : Ledger :=
  {ledger with
    stake := ledger.pendingSlashes.foldl (fun stake escrow =>
      if escrow.finalized then stake
      else stake-(if stake<escrow.amount then stake else escrow.amount)) ledger.stake
    pendingSlashes := ledger.pendingSlashes.map fun escrow => {escrow with finalized := true}}

end Ledger

inductive DeletionStatus
  | pending
  | inProgress
  | completed
  | failed
deriving DecidableEq

structure DeletionRequest where
  requestId : String
  entityId : String
  requesterId : String
  requestEpoch : ℤ
  reason : String
  status : DeletionStatus
  completionEpoch : Option ℤ
  deletionProof : Option String

structure DeletionProof where
  entityId : String
  deletionEpoch : ℤ
  shardCountDestroyed : ℕ
  nodeCountParticipating : ℕ
  destructionMerkleRoot : String
  nodeAttestations : List String
  proofHash : String

structure GDPRDeletionManager where
  requests : Dict String DeletionRequest
  proofs : Dict String DeletionProof

abbrev Commitments := ℕ → ShardKey → Option ℤ

def Commitments.set (committed : Commitments) (place : ℕ) (key : ShardKey) (ends : Option ℤ) :
    Commitments := fun p k => if place=p ∧ key=k then ends else committed p k

/-- `log` has the entities of the commitment log with the `n` of their encoding. -/
structure System where
  net : Network
  ledgers : ℕ → Ledger
  log : List (String × ℕ)
  deletions : GDPRDeletionManager
  committed : Commitments
  dropped : Finset (ℕ × ShardKey)

namespace System
variable (hashBytes : Bytes → Bytes) (H : CanonicalHash) (order : ShardOrder)

def init : System :=
  ⟨.empty,fun _ => .init 0,[],⟨Dict.empty,Dict.empty⟩,fun _ _ => none,∅⟩

def setNet (s : System) (net : Network) : System := {s with net := net}

def setLedger (s : System) (place : ℕ) (ledger : Ledger) : System :=
  {s with ledgers := Function.update s.ledgers place ledger}

/-- What the network commits to for a node that joins is what its own metadata says. -/
def join (s : System) (net : Network) (ledger : Ledger) : System :=
  let place := s.net.nodes.length
  {(s.setNet net).setLedger place ledger with
    committed := Function.update s.committed place ledger.expiry}

def storeReplica (ttl : Option (ℤ × Option ℤ)) (key : ShardKey) (data : Bytes) (s : System)
    (place : ℕ) : System :=
  let stored := s.setNet (Network.storeAt key.1 key.2 data s.net place)
  if s.net.nodes[place]?.any (!·.evicted) then
    let ends := ttl.bind fun entry => entry.2.map (entry.1 + ·)
    {stored with
      ledgers := Function.update s.ledgers place ((s.ledgers place).recordTtl ttl key)
      committed := s.committed.set place key ends}
  else stored

def placement (entityId : String) (shardIndex replicas : ℕ) : Method System (List ℕ) :=
  (Network.placement hashBytes entityId shardIndex replicas).on net setNet

def placeShard (ttl : Option (ℤ × Option ℤ)) (entityId : String) (replicas : ℕ)
    (encShard : Bytes × ℕ) : Method System Unit := do
  let targetNodes ← placement hashBytes entityId encShard.2 replicas
  modify fun s => targetNodes.foldl (storeReplica ttl (entityId,encShard.2) encShard.1) s

def distributeShard (entityId : String) (replicas : ℕ) (shardTree : Tree)
    (encShard : Bytes × ℕ) : Method System Tree := do
  let position ← Method.call (PyValue.pack 4 encShard.2)
  let shardData := encShard.1++encodeText entityId++position
  let (_,shardTree) ← Method.call (shardTree.append H shardData)
  placeShard hashBytes none entityId replicas encShard
  return shardTree

def distributeEncryptedShards (entityId : String) (encryptedShards : List Bytes)
    (replicas : ℕ) : Method System String := do
  let shardTree ← encryptedShards.zipIdx.foldlM
    (distributeShard hashBytes H entityId replicas) Tree.init
  return canonicalHash H (shardTree.root H).1

def distributeShardWithTtl (ttl : ℤ × Option ℤ) (entityId : String) (replicas : ℕ)
    (shardHashes : List String) (encShard : Bytes × ℕ) : Method System (List String) := do
  let position ← Method.call (PyValue.pack 4 encShard.2)
  let shardHash := canonicalHash H (encShard.1++encodeText entityId++position)
  placeShard hashBytes (some ttl) entityId replicas encShard
  return shardHashes++[shardHash]

def distributeEncryptedShardsWithTtl (entityId : String) (encryptedShards : List Bytes)
    (epoch : ℤ) (ttlEpochs : Option ℤ) (replicas : ℕ) : Method System String := do
  let shardHashes ← encryptedShards.zipIdx.foldlM
    (distributeShardWithTtl hashBytes H (epoch,ttlEpochs) entityId replicas) []
  return canonicalHash H (shardHashes.flatMap encodeText)

def fetchEncryptedShards (entityId : String) (n maxShards : ℕ) : Method System (Dict ℕ Bytes) :=
  (Network.fetchEncryptedShards hashBytes entityId n maxShards).on net setNet

def source (net : Network) (place : ℕ) (key : ShardKey) : Option ℕ :=
  (net.nodes.zipIdx.find? fun other =>
    other.2≠place ∧ !other.1.evicted ∧ (other.1.fetchShard key.1 key.2).isSome).map Prod.snd

def repairCommitted (place : ℕ) (state : Network.Repair × Commitments) (key : ShardKey) :
    Network.Repair × Commitments :=
  (Network.repairShard place state.1 key,
    match state.1.net.repairPlan place key,source state.1.net place key with
    | some (_,target),some origin => state.2.set target key (state.2 origin key)
    | _,_ => state.2)

def evictNode (s : System) (place : ℕ) : System :=
  match s.net.nodes[place]? with
  | none => s
  | some node =>
    let orphaned := s.net.orphanedShards order node
    let repaired := orphaned.foldl (repairCommitted place)
      (⟨s.net.markEvicted place node,0,0⟩,s.committed)
    let evicted := {s with net := (s.net.evictNode order place node).2,committed := repaired.2}
    evicted.setLedger place (s.ledgers place).finalizePendingSlashes

def strikeThreshold : ℕ := 3

def autoEvictIfNeeded (s : System) (place : ℕ) : Bool × System :=
  if s.net.nodes[place]?.any (!·.evicted) ∧ strikeThreshold≤(s.ledgers place).strikes then
    (true,s.evictNode order place)
  else (false,s)

def setShards (s : System) (place : ℕ) (node : CommitmentNode) (shards : Dict ShardKey Bytes) :
    System :=
  s.setNet {s.net with nodes := s.net.nodes.set place {node with shards := shards}}

def removeShard (s : System) (place : ℕ) (key : ShardKey) : System :=
  match s.net.nodes[place]? with
  | none => s
  | some node => s.setShards place node (node.shards.erase key)

def corrupt (s : System) (place : ℕ) (key : ShardKey) (data : Bytes) : System :=
  match s.net.nodes[place]? with
  | none => s
  | some node =>
    if (node.shards.get? key).isSome then s.setShards place node (node.shards.set key data) else s

def dropAt (gone : ShardKey → Bool) (s : System) (place : ℕ) : System :=
  match s.net.nodes[place]? with
  | none => s
  | some node =>
    let lost := node.shards.keys.filter gone
    let ledger := s.ledgers place
    let emptied := s.setShards place node (node.shards.filter fun key _ => !gone key)
    let cleared := emptied.setLedger place
      {ledger with shardTtl := ledger.shardTtl.filter fun key _ => !gone key}
    {cleared with dropped := s.dropped ∪ (lost.map (place,·)).toFinset}

structure ExpiryResult where
  totalEvicted : ℕ
  nodesAffected : ℕ
  entitiesAffected : ℕ

def expiredKeys (s : System) (currentEpoch : ℤ) (place : ℕ) : List ShardKey :=
  (s.ledgers place).shardTtl.keys.filter fun key =>
    (s.ledgers place).isShardExpired key currentEpoch

def activePlaces (net : Network) : List ℕ :=
  (net.nodes.zipIdx.filter fun node => !node.1.evicted).map Prod.snd

def expireAt (currentEpoch : ℤ) (s : System) (place : ℕ) : System :=
  dropAt (fun key => (s.ledgers place).isShardExpired key currentEpoch) s place

def evictExpiredShards (s : System) (currentEpoch : ℤ) : ExpiryResult × System :=
  let expired := (activePlaces s.net).map (s.expiredKeys currentEpoch)
  (⟨(expired.map List.length).sum,expired.countP (!·.isEmpty),
      (expired.flatten.map Prod.fst).dedup.length⟩,
    (activePlaces s.net).foldl (expireAt currentEpoch) s)

def submitRequest (s : System) (entityId requesterId : String) (epoch : ℤ) (reason : String) :
    DeletionRequest × System :=
  let requestId := canonicalHash H (encodeText s!"{entityId}:{requesterId}:{epoch}")
  let request : DeletionRequest :=
    ⟨requestId,entityId,requesterId,epoch,reason,.pending,none,none⟩
  (request,{s with deletions := {s.deletions with
    requests := s.deletions.requests.set requestId request}})

def entityShards (s : System) (entityId : String) (place : ℕ) : List (ShardKey × Bytes) :=
  ((s.net.nodes[place]?.map fun node => node.shards.entries).getD []).filter fun entry =>
    entry.1.1=entityId

def deleteAt (entityId : String) (s : System) (place : ℕ) : System :=
  dropAt (fun key => key ∈ (s.entityShards entityId place).map Prod.fst) s place

structure Destruction where
  system : System
  shardHashes : List String
  attestations : List String

def destroyAt (entityId : String) (epoch : ℤ) (state : Destruction) (place : ℕ) : Destruction :=
  let removed := state.system.entityShards entityId place
  let nodeId := (state.system.net.nodes[place]?.map CommitmentNode.nodeId).getD ""
  let count := removed.length
  ⟨deleteAt entityId state.system place,
    state.shardHashes++removed.map fun entry => canonicalHash H entry.2,
    if removed.isEmpty then state.attestations
    else state.attestations ++
      [canonicalHash H (encodeText s!"{nodeId}:deleted:{entityId}:{count}:{epoch}")]⟩

def deletionProof (entityId : String) (epoch : ℤ) (state : Destruction) : DeletionProof :=
  let combined := String.join (state.shardHashes.insertionSort (· ≤ ·))
  let root := canonicalHash H (encodeText combined)
  let count := state.shardHashes.length
  ⟨entityId,epoch,count,state.attestations.length,root,state.attestations,
    canonicalHash H (encodeText s!"{entityId}:{epoch}:{count}:{root}")⟩

def executeDeletion (s : System) (requestId : String) (nodes : List ℕ) (epoch : ℤ) :
    Option DeletionProof × System :=
  match s.deletions.requests.get? requestId with
  | none => (none,s)
  | some request =>
    if request.status=.completed then (s.deletions.proofs.get? request.entityId,s)
    else
      let state := nodes.foldl (destroyAt H request.entityId epoch) ⟨s,[],[]⟩
      let completed := {request with status := .completed,completionEpoch := some epoch}
      if state.shardHashes.isEmpty then
        (none,{state.system with deletions := {s.deletions with
          requests := s.deletions.requests.set requestId completed}})
      else
        let proof := deletionProof H request.entityId epoch state
        (some proof,{state.system with deletions :=
          ⟨s.deletions.requests.set requestId
              {completed with deletionProof := some proof.proofHash},
            s.deletions.proofs.set request.entityId proof⟩})

def respondToAudit (node : CommitmentNode) (key : ShardKey) (nonce : Bytes) : Option String :=
  if node.evicted then none
  else (node.shards.get? key).map fun ciphertext => canonicalHash H (ciphertext++nonce)

def getKnownGoodHash (net : Network) (key : ShardKey) (nonce : Bytes) (place : ℕ) : Option String :=
  net.nodes.zipIdx.findSome? fun other =>
    if other.2=place ∨ other.1.evicted then none else respondToAudit H other.1 key nonce

inductive AuditOutcome
  | pass
  | fail
deriving DecidableEq

structure Tally where
  challenged : ℕ
  passed : ℕ
  failed : ℕ
  missing : ℕ
  corruptShards : List ShardKey

structure AuditResult where
  nodeId : String
  tally : Tally
  burstSize : ℕ
  result : AuditOutcome
  strikes : ℕ

def challenge (net : Network) (place : ℕ) (node : CommitmentNode) (key : ShardKey)
    (tally : Tally) (nonce : Bytes) : Tally :=
  let asked := {tally with challenged := tally.challenged+1}
  match respondToAudit H node key nonce with
  | none => {asked with
      missing := tally.missing+1,failed := tally.failed+1
      corruptShards := tally.corruptShards++[key]}
  | some response =>
    if (getKnownGoodHash H net key nonce place).all (response = ·) then
      {asked with passed := tally.passed+1}
    else {asked with
      failed := tally.failed+1,corruptShards := tally.corruptShards++[key]}

def loggedShards (s : System) : List ShardKey :=
  s.log.flatMap fun entry => (List.range entry.2).map (entry.1,·)

def scanLog (place : ℕ) : List ShardKey → Method System (List ShardKey)
  | [] => return []
  | key::rest => do
    let targetNodes ← placement hashBytes key.1 key.2 2
    let more ← scanLog place rest
    return if place ∈ targetNodes then key::more else more

def shardList (place : ℕ) (node : CommitmentNode) : Method System (List ShardKey) := do
  let s ← get
  let known := (s.net.nodeShardIndex.get? node.nodeId).getD ∅
  if known=∅ then scanLog hashBytes place s.loggedShards else pure (order.toList known)

def correlationPenalty (s : System) (place : ℕ) : Float :=
  let active := max 1 (activePlaces s.net).length
  let recentOffenses := (s.ledgers place).offenseHistory.countP fun offense =>
    offense.type ∈ ["audit_failure","corruption","missing_shard"]
  let penalty := 1.0+5.0*(Float.ofNat recentOffenses / Float.ofNat active)
  if penalty<10.0 then penalty else 10.0

def settleAudit (s : System) (place : ℕ) (node : CommitmentNode) (tally : Tally) :
    AuditOutcome × System :=
  let ledger := s.ledgers place
  if tally.challenged=0 then (.pass,s)
  else if 0<tally.failed then
    let penalty := s.correlationPenalty place
    let struck := {ledger with strikes := ledger.strikes+1}
    let escrowed := struck.createPendingSlash node.nodeId (0.10*ledger.stake*penalty)
      "audit_failure"
    (.fail,s.setLedger place (escrowed.recordOffense ⟨"audit_failure",penalty⟩))
  else
    (.pass,s.setLedger place
      {ledger with auditPasses := ledger.auditPasses+1,strikes := ledger.strikes-1})

def tally (net : Network) (place : ℕ) (node : CommitmentNode) (burst : ℕ)
    (nonce : ShardKey → ℕ → Bytes) (challenges : List ShardKey) : Tally :=
  challenges.foldl (fun tally key => ((List.range burst).map (nonce key)).foldl
    (challenge H net place node key) tally) ⟨0,0,0,0,[]⟩

def auditNode (place : ℕ) (node : CommitmentNode) (burst : ℕ) (nonce : ShardKey → ℕ → Bytes) :
    Method System AuditResult := do
  let challenges ← shardList hashBytes order place node
  let s ← get
  let counts := tally H s.net place node burst nonce challenges
  let (result,settled) := s.settleAudit place node counts
  modify fun _ => settled
  return ⟨node.nodeId,counts,burst,result,(settled.ledgers place).strikes⟩

end System

inductive Input
  | addNode (nodeId region : String)
  | addExistingNode (node : CommitmentNode) (ledger : Ledger)
  | registerNode (nodeId region : String) (stake : Float)
  | setGeoFencePolicy (policy : Option (String → Bool))
  | distribute (entityId : String) (encryptedShards : List Bytes) (replicas : ℕ)
  | distributeWithTtl (entityId : String) (encryptedShards : List Bytes) (epoch : ℤ)
      (ttlEpochs : Option ℤ) (replicas : ℕ)
  | record (entityId : String) (n : ℕ)
  | fetch (entityId : String) (n maxShards : ℕ)
  | evictNode (place : ℕ)
  | regionFailure (region : String)
  | restoreRegion (region : String)
  | removeShard (place : ℕ) (key : ShardKey)
  | corrupt (place : ℕ) (key : ShardKey) (data : Bytes)
  | evictExpiredShards (currentEpoch : ℤ)
  | submitRequest (entityId requesterId : String) (epoch : ℤ) (reason : String)
  | executeDeletion (requestId : String) (nodes : List ℕ) (epoch : ℤ)
  | audit (place burst : ℕ) (nonce : ShardKey → ℕ → Bytes)
  | autoEvict (place : ℕ)

inductive Event
  | audited (place : ℕ) (result : System.AuditResult)
  | autoEvicted (place : ℕ)

section
variable (hashBytes : Bytes → Bytes) (H : CanonicalHash) (order : ShardOrder)

def System.audit (s : System) (place burst : ℕ) (nonce : ShardKey → ℕ → Bytes) :
    System × List Event :=
  match s.net.nodes[place]? with
  | none => (s,[])
  | some node =>
    match (auditNode hashBytes H order place node burst nonce).exec s with
    | (.ok result,s') => (s',[.audited place result])
    | (.error _,s') => (s',[])

def System.autoEvict (s : System) (place : ℕ) : System × List Event :=
  let (evicted,s') := s.autoEvictIfNeeded order place
  (s',if evicted then [.autoEvicted place] else [])

def System.step (s : System) : Input → System × List Event
  | .addNode nodeId region => (s.join (s.net.addNode nodeId region) (.init 0),[])
  | .addExistingNode node ledger => (s.join (s.net.addExistingNode node) ledger,[])
  | .registerNode nodeId region stake =>
    (s.join (s.net.registerNode nodeId region) (.init stake),[])
  | .setGeoFencePolicy policy => (s.setNet (s.net.setGeoFencePolicy policy),[])
  | .distribute entityId shards replicas =>
    (((distributeEncryptedShards hashBytes H entityId shards replicas).exec s).2,[])
  | .distributeWithTtl entityId shards epoch ttlEpochs replicas =>
    (((distributeEncryptedShardsWithTtl hashBytes H entityId shards epoch ttlEpochs
      replicas).exec s).2,[])
  | .record entityId n => ({s with log := s.log++[(entityId,n)]},[])
  | .fetch entityId n maxShards =>
    (((fetchEncryptedShards hashBytes entityId n maxShards).exec s).2,[])
  | .evictNode place => (s.evictNode order place,[])
  | .regionFailure region => (s.setNet (s.net.regionFailure region),[])
  | .restoreRegion region => (s.setNet (s.net.restoreRegion region),[])
  | .removeShard place key => (s.removeShard place key,[])
  | .corrupt place key data => (s.corrupt place key data,[])
  | .evictExpiredShards currentEpoch => ((s.evictExpiredShards currentEpoch).2,[])
  | .submitRequest entityId requesterId epoch reason =>
    ((s.submitRequest H entityId requesterId epoch reason).2,[])
  | .executeDeletion requestId nodes epoch => ((s.executeDeletion H requestId nodes epoch).2,[])
  | .audit place burst nonce => s.audit hashBytes H order place burst nonce
  | .autoEvict place => s.autoEvict order place

def machine : Machine System Input Event := ⟨.init,System.step hashBytes H order⟩

end

def emptyHash : CanonicalHash := ⟨"sha",fun _ => [],0,fun _ => rfl⟩

namespace System
open Relation (ReflTransGen)
variable {hashBytes : Bytes → Bytes} {H : CanonicalHash} {order : ShardOrder}
  {s s' : System}

def Looks (hashBytes : Bytes → Bytes) (s s' : System) : Prop :=
  ∃ net, Network.SameAnswers hashBytes s.net net ∧ s'=s.setNet net

instance : Std.Refl (Looks hashBytes) := ⟨fun s => ⟨s.net,.refl s.net,rfl⟩⟩

instance : IsTrans System (Looks hashBytes) where
  trans := by
    rintro s _ _ ⟨net,h,rfl⟩ ⟨net',h',rfl⟩
    exact ⟨net',h.trans h',rfl⟩

theorem keeps_placement (entityId : String) (i replicas : ℕ) :
    Method.Keeps (Looks hashBytes)
      (placement hashBytes entityId i replicas) := fun s =>
  ⟨_,Network.keeps_placement entityId i replicas s.net,rfl⟩

theorem keeps_fetchEncryptedShards (entityId : String) (n cap : ℕ) :
    Method.Keeps (Looks hashBytes)
      (fetchEncryptedShards hashBytes entityId n cap) := fun s =>
  ⟨_,Network.keeps_fetchShards entityId cap _ _ s.net,rfl⟩

theorem keeps_scanLog (place : ℕ) (keys : List ShardKey) :
    Method.Keeps (Looks hashBytes) (scanLog hashBytes place keys) := by
  induction keys with
  | nil => exact keeps_pure _
  | cons key rest ih =>
    refine .bind (keeps_placement key.1 key.2 2) fun targets => ?_
    exact .bind ih fun more => keeps_pure _

theorem keeps_shardList (place : ℕ) (node : CommitmentNode) :
    Method.Keeps (Looks hashBytes) (shardList hashBytes order place node) := by
  refine .bind Method.keeps_get fun s => ?_
  dsimp only
  split_ifs
  · exact keeps_scanLog place s.loggedShards
  · exact keeps_pure _

inductive Distributes (hashBytes : Bytes → Bytes) (ttl : Option (ℤ × Option ℤ))
    (entityId : String) (shards : List Bytes) (replicas : ℕ) : System → System → Prop
  | look {s s' : System} (h : Looks hashBytes s s') :
      Distributes hashBytes ttl entityId shards replicas s s'
  | store {s : System} {i place : ℕ} {data : Bytes} {places : List ℕ}
      (hshard : shards[i]?=some data)
      (hplaces : s.net.outcome hashBytes entityId i replicas=.ok places)
      (hplace : place ∈ places) :
      Distributes hashBytes ttl entityId shards replicas s
        (storeReplica ttl (entityId,i) data s place)

theorem storeReplica_net (ttl : Option (ℤ × Option ℤ)) (key : ShardKey) (data : Bytes)
    (s : System) (place : ℕ) :
    (storeReplica ttl key data s place).net=Network.storeAt key.1 key.2 data s.net place := by
  rw [storeReplica]
  split_ifs <;> rfl

section
variable {ttl : Option (ℤ × Option ℤ)} {id : String} {shards : List Bytes} {r : ℕ}

theorem distributes_foldl_storeReplica {i : ℕ} {data : Bytes} {places targets : List ℕ}
    (hs : shards[i]?=some data) (s : System)
    (hp : s.net.outcome hashBytes id i r=.ok places) (ht : targets ⊆ places) :
    ReflTransGen (Distributes hashBytes ttl id shards r) s
      (targets.foldl (storeReplica ttl (id,i) data) s) := by
  induction targets generalizing s with
  | nil => exact .refl
  | cons place targets ih =>
    obtain ⟨hpl,ht⟩ := List.cons_subset.mp ht
    have hn : (storeReplica ttl (id,i) data s place).net.outcome hashBytes
        id i r=.ok places := by
      rw [storeReplica_net,(Network.keepsAnswers_storeAt id i data s.net place).outcome]
      exact hp
    exact .head (.store hs hp hpl) (ih _ hn ht)

theorem keeps_placeShard {encShard : Bytes × ℕ} (hsh : shards[encShard.2]?=some encShard.1) :
    Method.Keeps (ReflTransGen (Distributes hashBytes ttl id shards r))
      (placeShard hashBytes ttl id r encShard) := by
  intro s
  obtain ⟨ho,hs⟩ :=
    Network.placement_exec hashBytes id encShard.2 r s.net
  have hl : Distributes hashBytes ttl id shards r s
      ((placement hashBytes id encShard.2 r).exec s).2 :=
    .look (keeps_placement id encShard.2 r s)
  rw [placeShard,exec_bind]
  split
  next targets s1 he =>
    obtain ⟨hr,rfl⟩ := Prod.mk.inj he
    refine .head hl (distributes_foldl_storeReplica hsh _ ?_ (.refl targets))
    exact (hs.outcome _ _ _).trans (ho.symm.trans hr)
  next e s1 he =>
    rw [he] at hl
    exact .single hl

theorem keeps_distributeEncryptedShards :
    Method.Keeps (ReflTransGen (Distributes hashBytes none id shards r))
      (distributeEncryptedShards hashBytes H id shards r) := by
  refine .bind (.foldlM (fun tree encShard hm => ?_) _) fun tree =>
    keeps_pure _
  refine .bind (keeps_call _) fun pos => ?_
  refine .bind (keeps_call _) fun appended => ?_
  refine .bind (keeps_placeShard ?_) fun _ => keeps_pure _
  exact List.mk_mem_zipIdx_iff_getElem?.mp hm

theorem keeps_distributeEncryptedShardsWithTtl {epoch : ℤ} {ttlEpochs : Option ℤ} :
    Method.Keeps (ReflTransGen (Distributes hashBytes (some (epoch,ttlEpochs)) id shards r))
      (distributeEncryptedShardsWithTtl hashBytes H id shards epoch ttlEpochs r) := by
  refine .bind (.foldlM (fun hashes encShard hm => ?_) _) fun hashes =>
    keeps_pure _
  refine .bind (keeps_call _) fun pos => ?_
  refine .bind (keeps_placeShard ?_) fun _ => keeps_pure _
  exact List.mk_mem_zipIdx_iff_getElem?.mp hm

end

section
variable {place : ℕ} {node : CommitmentNode} {shards : Dict ShardKey Bytes}

theorem sameProfiles_setShards (s : System) (hn : s.net.nodes[place]?=some node) :
    Network.SameProfiles s.net (s.setShards place node shards).net := by
  refine ⟨List.ext_getElem? fun p => ?_,rfl⟩
  rw [setShards,setNet,List.getElem?_map,List.getElem?_map,List.getElem?_set]
  split_ifs with hp hl
  · subst hp
    rw [hn]
    rfl
  · subst hp
    exact absurd (List.getElem?_eq_some_iff.mp hn).1 hl
  · rfl

theorem keepsAnswers_setShards (s : System) (hn : s.net.nodes[place]?=some node) :
    Network.KeepsAnswers hashBytes s.net (s.setShards place node shards).net :=
  (sameProfiles_setShards s hn).keepsAnswers rfl rfl

theorem keepsAnswers_removeShard (s : System) (place : ℕ) (key : ShardKey) :
    Network.KeepsAnswers hashBytes s.net (s.removeShard place key).net := by
  rw [removeShard]
  split
  · exact Std.Refl.refl _
  next node hn => exact keepsAnswers_setShards s hn

theorem keepsAnswers_corrupt (s : System) (place : ℕ) (key : ShardKey) (data : Bytes) :
    Network.KeepsAnswers hashBytes s.net (s.corrupt place key data).net := by
  rw [corrupt]
  split
  · exact Std.Refl.refl _
  next node hn =>
    split_ifs
    · exact keepsAnswers_setShards s hn
    · exact Std.Refl.refl _

theorem keepsAnswers_dropAt (gone : ShardKey → Bool) (s : System) (place : ℕ) :
    Network.KeepsAnswers hashBytes s.net (dropAt gone s place).net := by
  rw [dropAt]
  split
  · exact Std.Refl.refl _
  next node hn => exact keepsAnswers_setShards s hn

theorem shardAt_dropAt (gone : ShardKey → Bool) (s : System) (place p : ℕ) (key : ShardKey) :
    (dropAt gone s place).net.shardAt p key =
      if place=p ∧ gone key then none else s.net.shardAt p key := by
  rw [dropAt]
  cases hn : s.net.nodes[place]? with
  | none =>
    split_ifs with hg
    · rw [← hg.1,Network.shardAt,hn]
      rfl
    · rfl
  | some node =>
    have hs : (s.setShards place node (node.shards.filter fun key _ => !gone key)).net.shardAt
        p key=if place=p then (node.shards.filter fun key _ => !gone key).get? key
          else s.net.shardAt p key := Network.shardAt_setNode hn _
    refine hs.trans ?_
    by_cases hp : place=p
    · subst hp
      rw [Dict.get?_filter_keys,Network.shardAt,hn]
      cases gone key <;> simp
    · rw [if_neg hp,if_neg fun h => hp h.1]

theorem ledgers_dropAt_of_ne {gone : ShardKey → Bool} {p : ℕ} (hp : place≠p) :
    (dropAt gone s place).ledgers p=s.ledgers p := by
  rw [dropAt]
  split
  · rfl
  · exact Function.update_of_ne hp.symm _ _

end

inductive Drops : System → System → Prop
  | dropAt (gone : ShardKey → Bool) (s : System) (place : ℕ) : Drops s (dropAt gone s place)

theorem drops_evictExpiredShards (s : System) (epoch : ℤ) :
    ReflTransGen Drops s (s.evictExpiredShards epoch).2 := by
  rw [evictExpiredShards]
  generalize activePlaces s.net=places
  dsimp only
  induction places generalizing s with
  | nil => exact .refl
  | cons place places ih => exact .head (.dropAt _ s place) (ih _)

theorem drops_foldl_destroyAt (H : CanonicalHash) (entityId : String) (epoch : ℤ)
    (places : List ℕ) (state : Destruction) :
    ReflTransGen Drops state.system (places.foldl (destroyAt H entityId epoch) state).system := by
  induction places generalizing state with
  | nil => exact .refl
  | cons place places ih =>
    have ho : Drops state.system (destroyAt H entityId epoch state place).system :=
      .dropAt _ state.system place
    exact .head ho (ih _)

theorem drops_executeDeletion (H : CanonicalHash) (s : System) (requestId : String)
    (nodes : List ℕ) (epoch : ℤ) : ∃ dropped deletions, ReflTransGen Drops s dropped ∧
      (s.executeDeletion H requestId nodes epoch).2={dropped with deletions := deletions} := by
  rw [executeDeletion]
  split
  · exact ⟨s,s.deletions,.refl,rfl⟩
  next req hr =>
    split_ifs
    · exact ⟨s,s.deletions,.refl,rfl⟩
    · have hd := drops_foldl_destroyAt H req.entityId epoch nodes ⟨s,[],[]⟩
      dsimp only
      split_ifs
      · exact ⟨_,_,hd,rfl⟩
      · exact ⟨_,_,hd,rfl⟩

theorem setLedger_self (s : System) (place : ℕ) : s.setLedger place (s.ledgers place)=s := by
  rw [setLedger,Function.update_eq_self]

theorem settleAudit_eq (s : System) (place : ℕ) (node : CommitmentNode) (counts : Tally) :
    ∃ ledger, (s.settleAudit place node counts).2=s.setLedger place ledger ∧
      ledger.shardTtl=(s.ledgers place).shardTtl := by
  rw [settleAudit]
  split_ifs
  · exact ⟨s.ledgers place,(setLedger_self s place).symm,rfl⟩
  · exact ⟨_,rfl,rfl⟩
  · exact ⟨_,rfl,rfl⟩

theorem auditNode_exec (s : System) (place : ℕ) (node : CommitmentNode) (burst : ℕ)
    (nonce : ShardKey → ℕ → Bytes) :
    (auditNode hashBytes H order place node burst nonce).exec s =
      match (shardList hashBytes order place node).exec s with
      | (.error e,s1) => (.error e,s1)
      | (.ok challenges,s1) =>
        let counts := tally H s1.net place node burst nonce challenges
        let settled := s1.settleAudit place node counts
        (.ok ⟨node.nodeId,counts,burst,settled.1,(settled.2.ledgers place).strikes⟩,
          settled.2) := by
  rw [auditNode,exec_bind]
  rcases (shardList hashBytes order place node).exec s with ⟨_|challenges,s1⟩ <;> rfl

theorem audit_eq (hashBytes : Bytes → Bytes) (H : CanonicalHash) (order : ShardOrder)
    (s : System) (place burst : ℕ) (nonce : ShardKey → ℕ → Bytes) :
    ∃ looked ledger, Looks hashBytes s looked ∧
      ledger.shardTtl=(looked.ledgers place).shardTtl ∧
      (s.audit hashBytes H order place burst nonce).1=looked.setLedger place ledger := by
  rw [audit]
  split
  · exact ⟨s,_,Std.Refl.refl s,rfl,(setLedger_self s place).symm⟩
  next node hn =>
    have hl : Looks hashBytes s
        ((shardList hashBytes order place node).exec s).2 := keeps_shardList place node s
    rw [auditNode_exec]
    revert hl
    rcases (shardList hashBytes order place node).exec s with ⟨_|challenges,s1⟩ <;>
      intro hl
    · exact ⟨s1,_,hl,rfl,(setLedger_self s1 place).symm⟩
    · obtain ⟨ledger,hle,ht⟩ := settleAudit_eq s1 place node
        (tally H s1.net place node burst nonce challenges)
      exact ⟨s1,ledger,hl,ht,hle⟩

end System

end LatticeTransfer.ShardNetwork
