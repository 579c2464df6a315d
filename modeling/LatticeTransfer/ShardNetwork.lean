import LatticeTransfer.CommitmentLog
import LatticeTransfer.Method

/-!
# Commitment nodes and the placement of shards

`CommitmentNode` as far as it stores and returns shards, and the placement,
distribution and retrieval of `CommitmentNetwork`. A node object is named by its place
in the list of nodes, which only grows. The geo-fence is the test it applies to a
region, and the hash of the placement keys is a parameter. A shard that is not where
the placement says is looked for on every active node.
-/

namespace LatticeTransfer.ShardNetwork
open MerkleTree CommitmentLog List
open Method (exec_bind exec_bind_ok exec_get)

structure CommitmentNode where
  nodeId : String
  region : String
  shards : Dict (String × ℕ) Bytes
  evicted : Bool

namespace CommitmentNode

def storeShard (node : CommitmentNode) (entityId : String) (shardIndex : ℕ)
    (encryptedData : Bytes) : Bool × CommitmentNode :=
  if node.evicted then (false,node)
  else (true,{node with shards := node.shards.set (entityId,shardIndex) encryptedData})

def fetchShard (node : CommitmentNode) (entityId : String) (shardIndex : ℕ) : Option Bytes :=
  if node.evicted then none else node.shards.get? (entityId,shardIndex)

end CommitmentNode

structure Network where
  nodes : List CommitmentNode
  placementCache : Dict (String × ℕ × ℕ) (List ℕ)
  nodeCountAtCache : ℕ
  nodeShardIndex : Dict String (Finset (String × ℕ))
  geoFencePolicy : Option (String → Bool)

namespace Network

def empty : Network := ⟨[],Dict.empty,0,Dict.empty,none⟩

def invalidatePlacementCache (net : Network) : Network :=
  {net with placementCache := Dict.empty,nodeCountAtCache := net.nodes.length}

def addNode (net : Network) (nodeId region : String) : Network :=
  invalidatePlacementCache
    {net with
      nodes := net.nodes++[⟨nodeId,region,Dict.empty,false⟩]
      nodeShardIndex := net.nodeShardIndex.set nodeId ∅}

def eligibleNodes (net : Network) : List (CommitmentNode × ℕ) :=
  match net.geoFencePolicy with
  | none => net.nodes.zipIdx
  | some allowed => net.nodes.zipIdx.filter fun node => allowed node.1.region

def activeNodes (net : Network) : List ℕ :=
  ((net.eligibleNodes.filter fun node => !node.1.evicted).insertionSort
    fun a b => a.1.nodeId≤b.1.nodeId).map Prod.snd

variable (hashBytes : Bytes → Bytes)

def pick (active : List ℕ) (key : String) : ℕ :=
  active.getD (PyValue.ofBigEndian (hashBytes (encodeText key)) % active.length) 0

def selectReplica (active : List ℕ) (entityId : String) (shardIndex : ℕ) (selected : List ℕ)
    (r : ℕ) : List ℕ :=
  let placementKey := s!"{entityId}:{shardIndex}:{r}"
  let candidate := pick hashBytes active placementKey
  if candidate ∉ selected then selected++[candidate]
  else if selected.length<active.length then
    let rehashed := (List.range active.length).map fun attempt =>
      pick hashBytes active s!"{placementKey}:{attempt}"
    match rehashed.find? (· ∉ selected) with
    | some candidate => selected++[candidate]
    | none => selected
  else selected

def computePlacement (net : Network) (entityId : String) (shardIndex replicas : ℕ) :
    Except PyError (List ℕ) :=
  if net.eligibleNodes.isEmpty then
    .error (.valueError "No commitment nodes available in allowed jurisdictions")
  else
    let active := net.activeNodes
    if active.isEmpty then .error (.valueError "No active commitment nodes available")
    else .ok ((List.range replicas).foldl
      (selectReplica hashBytes active entityId shardIndex) [])

def placement (entityId : String) (shardIndex replicas : ℕ) : Method Network (List ℕ) := do
  if (← get).nodes.isEmpty then throw (.valueError "No commitment nodes available")
  modify fun net =>
    if net.nodes.length≠net.nodeCountAtCache then net.invalidatePlacementCache else net
  let net ← get
  match net.placementCache.get? (entityId,shardIndex,replicas) with
  | some cached => return cached
  | none =>
    let selected ← Method.call
      (net.computePlacement hashBytes entityId shardIndex replicas)
    modify fun net => {net with
      placementCache := net.placementCache.set (entityId,shardIndex,replicas) selected}
    return selected

def storeAt (entityId : String) (shardIndex : ℕ) (encShard : Bytes) (net : Network) (place : ℕ) :
    Network :=
  match net.nodes[place]? with
  | none => net
  | some node =>
    let known := (net.nodeShardIndex.get? node.nodeId).getD ∅
    {net with
      nodes := net.nodes.set place (node.storeShard entityId shardIndex encShard).2
      nodeShardIndex := net.nodeShardIndex.set node.nodeId (insert (entityId,shardIndex) known)}

def distributeShard (H : CanonicalHash) (entityId : String) (replicas : ℕ) (shardTree : Tree)
    (encShard : Bytes × ℕ) : Method Network Tree := do
  let position ← Method.call (PyValue.pack 4 encShard.2)
  let shardData := encShard.1++encodeText entityId++position
  let (_,shardTree) ← Method.call (shardTree.append H shardData)
  let targetNodes ← placement hashBytes entityId encShard.2 replicas
  modify fun net => targetNodes.foldl (storeAt entityId encShard.2 encShard.1) net
  return shardTree

def distributeEncryptedShards (H : CanonicalHash) (entityId : String) (encryptedShards : List Bytes)
    (replicas : ℕ) : Method Network String := do
  let shardTree ← encryptedShards.zipIdx.foldlM
    (distributeShard hashBytes H entityId replicas) Tree.init
  return canonicalHash H (shardTree.root H).1

def lookupShard (net : Network) (targetNodes : List ℕ) (entityId : String) (shardIndex : ℕ) :
    Option Bytes :=
  let placed := targetNodes.findSome? fun place =>
    net.nodes[place]?.bind fun node => node.fetchShard entityId shardIndex
  match placed with
  | some data => some data
  | none => net.nodes.findSome? fun node =>
      if node.evicted then none else node.fetchShard entityId shardIndex

def fetchShards (entityId : String) (maxShards : ℕ) :
    List ℕ → Dict ℕ Bytes → Method Network (Dict ℕ Bytes)
  | [], fetched => return fetched
  | i::indices, fetched => do
    if maxShards≤fetched.size then return fetched
    let targetNodes ← placement hashBytes entityId i 2
    match (← get).lookupShard targetNodes entityId i with
    | some data => fetchShards entityId maxShards indices (fetched.set i data)
    | none => fetchShards entityId maxShards indices fetched

def fetchEncryptedShards (entityId : String) (n maxShards : ℕ) : Method Network (Dict ℕ Bytes) :=
  fetchShards hashBytes entityId maxShards (List.range n) Dict.empty

def Serves (net : Network) (entityId : String) (shardIndex : ℕ) (data : Bytes) : Prop :=
  ∃ node ∈ net.nodes, node.fetchShard entityId shardIndex=some data

variable {net : Network} {id : String} {data : Bytes}

theorem serves_of_lookupShard {targets : List ℕ} {idx : ℕ}
    (h : net.lookupShard targets id idx=some data) : net.Serves id idx data := by
  rw [lookupShard] at h
  split at h
  next found hp =>
    cases h
    obtain ⟨place,_,hf⟩ := exists_of_findSome?_eq_some hp
    obtain ⟨node,hn,hfe⟩ := Option.bind_eq_some_iff.mp hf
    exact ⟨node,mem_of_getElem? hn,hfe⟩
  next =>
    obtain ⟨node,hn,hf⟩ := exists_of_findSome?_eq_some h
    split_ifs at hf
    exact ⟨node,hn,hf⟩

theorem placement_nodes (entityId : String) (idx replicas : ℕ) (net : Network) :
    ((placement hashBytes entityId idx replicas).exec net).2.nodes=net.nodes := by
  have hi : (if net.nodes.length≠net.nodeCountAtCache
      then net.invalidatePlacementCache else net).nodes=net.nodes := by
    split_ifs <;> rfl
  simp only [placement,exec_bind,exec_get]
  split_ifs
  · rfl
  · simp only [exec_bind,Method.exec_modify,exec_get]
    split
    · exact hi
    · rw [exec_bind]
      split
      next heq =>
        obtain ⟨_,rfl⟩ := Prod.mk.inj heq
        exact hi
      next heq =>
        obtain ⟨_,rfl⟩ := Prod.mk.inj heq
        exact hi

variable {hashBytes : Bytes → Bytes}

variable {net' : Network} {i : ℕ}

theorem fetchShards_ok {cap : ℕ} {indices : List ℕ} {got result : Dict ℕ Bytes}
    (h : (fetchShards hashBytes id cap indices got).exec net =
      (.ok result,net')) (hg : result.get? i=some data) :
    got.get? i=some data ∨ i ∈ indices ∧ net.Serves id i data := by
  induction indices generalizing got net with
  | nil =>
    obtain rfl := Except.ok.inj (Prod.mk.inj h).1
    exact .inl hg
  | cons j indices ih =>
    rw [fetchShards] at h
    split_ifs at h with hm
    · obtain rfl := Except.ok.inj (Prod.mk.inj h).1
      exact .inl hg
    · obtain ⟨targets,net1,hp,h⟩ := exec_bind_ok h
      have hn : net1.nodes=net.nodes := by
        have hk := placement_nodes hashBytes id j 2 net
        rwa [hp] at hk
      have hs : ∀ i data, net1.Serves id i data → net.Serves id i data := by
        intro i data hse
        rwa [Serves,hn] at hse
      obtain ⟨cur,net2,hc,h⟩ := exec_bind_ok h
      obtain ⟨rfl,rfl⟩ : net1=cur ∧ net1=net2 := by simpa using hc
      split at h
      next found hf =>
        rcases ih h with ho|⟨hme,hse⟩
        · rw [Dict.get?_set] at ho
          split_ifs at ho with hi
          · cases ho
            subst hi
            exact .inr ⟨mem_cons_self,hs _ _ (serves_of_lookupShard hf)⟩
          · exact .inl ho
        · exact .inr ⟨mem_cons_of_mem _ hme,hs _ _ hse⟩
      next =>
        rcases ih h with ho|⟨hme,hse⟩
        · exact .inl ho
        · exact .inr ⟨mem_cons_of_mem _ hme,hs _ _ hse⟩

theorem fetchEncryptedShards_sound {n cap : ℕ} {got : Dict ℕ Bytes}
    (h : (fetchEncryptedShards hashBytes id n cap).exec net =
      (.ok got,net')) (hg : got.get? i=some data) : i<n ∧ net.Serves id i data := by
  rcases fetchShards_ok h hg with he|⟨hm,hs⟩
  · cases he
  · exact ⟨mem_range.mp hm,hs⟩

theorem serves_storeAt {place j : ℕ} {encShard : Bytes}
    (h : (storeAt id j encShard net place).Serves id i data) :
    net.Serves id i data ∨ data=encShard ∧ i=j := by
  rw [storeAt] at h
  split at h
  · exact .inl h
  next node hn =>
    obtain ⟨served,hm,hf⟩ := h
    rcases mem_or_eq_of_mem_set hm with ho|rfl
    · exact .inl ⟨served,ho,hf⟩
    · rw [CommitmentNode.storeShard] at hf
      split_ifs at hf with he
      · exact .inl ⟨node,mem_of_getElem? hn,hf⟩
      · simp only [CommitmentNode.fetchShard,he] at hf
        by_cases hi : i=j
        · subst hi
          rw [Dict.get?_set_self] at hf
          exact .inr ⟨(Option.some.inj hf).symm,rfl⟩
        · have hne : (id,j)≠(id,i) := fun heq => hi (Prod.mk.inj heq).2.symm
          rw [Dict.get?_set_ne _ _ hne] at hf
          refine .inl ⟨node,mem_of_getElem? hn,?_⟩
          rw [CommitmentNode.fetchShard,if_neg he]
          exact hf

theorem serves_foldl_storeAt {targets : List ℕ} {j : ℕ} {encShard : Bytes}
    (h : (targets.foldl (storeAt id j encShard) net).Serves id i data) :
    net.Serves id i data ∨ data=encShard ∧ i=j := by
  induction targets generalizing net with
  | nil => exact .inl h
  | cons place targets ih =>
    rcases ih h with hs|hn
    · exact serves_storeAt hs
    · exact .inr hn

variable {H : CanonicalHash} {r : ℕ}

theorem serves_distributeShard {shardTree shardTree' : Tree} {encShard : Bytes × ℕ}
    (h : (distributeShard hashBytes H id r shardTree encShard).exec net =
      (.ok shardTree',net')) (hs : net'.Serves id i data) :
    net.Serves id i data ∨ (data,i)=encShard := by
  obtain ⟨pos,_,h⟩ := Method.exec_call_bind_ok h
  obtain ⟨appended,_,h⟩ := Method.exec_call_bind_ok h
  obtain ⟨targets,net1,hp,h⟩ := exec_bind_ok h
  have hn := placement_nodes hashBytes id encShard.2 r net
  rw [hp] at hn
  obtain ⟨_,net2,hst,h⟩ := exec_bind_ok h
  obtain ⟨_,rfl⟩ := Prod.mk.inj hst
  obtain ⟨_,rfl⟩ := Prod.mk.inj h
  rcases serves_foldl_storeAt hs with ho|⟨hd,hi⟩
  · rw [Serves,show net1.nodes=net.nodes from hn] at ho
    exact .inl ho
  · exact .inr (Prod.ext hd hi)

theorem serves_foldlM_distributeShard {encShards : List (Bytes × ℕ)} {shardTree shardTree' : Tree}
    (h : (encShards.foldlM (distributeShard hashBytes H id r)
      shardTree).exec net=(.ok shardTree',net')) (hs : net'.Serves id i data) :
    net.Serves id i data ∨ (data,i) ∈ encShards := by
  induction encShards generalizing shardTree net with
  | nil =>
    obtain ⟨_,rfl⟩ := Prod.mk.inj h
    exact .inl hs
  | cons encShard encShards ih =>
    obtain ⟨tree,net1,hf,hr⟩ := exec_bind_ok h
    rcases ih hr with he|hm
    · rcases serves_distributeShard hf he with ho|hn
      · exact .inl ho
      · exact .inr (hn ▸ mem_cons_self)
    · exact .inr (mem_cons_of_mem _ hm)

theorem serves_distributeEncryptedShards {root : String} {shards : List Bytes}
    (h : (distributeEncryptedShards hashBytes H id shards r).exec
      net=(.ok root,net')) (hs : net'.Serves id i data) :
    net.Serves id i data ∨ shards[i]?=some data := by
  obtain ⟨shardTree,net1,hf,h⟩ := exec_bind_ok h
  obtain ⟨_,rfl⟩ := Prod.mk.inj h
  rcases serves_foldlM_distributeShard hf hs with ho|hm
  · exact .inl ho
  · exact .inr (mk_mem_zipIdx_iff_getElem?.mp hm)

end Network
end LatticeTransfer.ShardNetwork
