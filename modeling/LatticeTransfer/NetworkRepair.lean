import LatticeTransfer.ShardNetwork

/-!
# Evictions and the repair of shards

`CommitmentNetwork.evict_node` with the search for a source and a target of each orphaned
shard, the regional failures, and the other ways in which nodes enter the network. A set may
be iterated in any order, which is a parameter.
-/

namespace LatticeTransfer.ShardNetwork
open List Method

abbrev ShardKey := String × ℕ

structure ShardOrder where
  toList : Finset ShardKey → List ShardKey
  nodup : ∀ s, (toList s).Nodup
  mem_toList : ∀ s key, key ∈ toList s ↔ key ∈ s

structure EvictionResult where
  evictedNode : String
  shardsAffected : ℕ
  repaired : ℕ
  lost : ℕ
deriving DecidableEq

namespace Network

def setGeoFencePolicy (net : Network) (policy : Option (String → Bool)) : Network :=
  invalidatePlacementCache {net with geoFencePolicy := policy}

def addExistingNode (net : Network) (node : CommitmentNode) : Network :=
  invalidatePlacementCache
    {net with
      nodes := net.nodes++[node]
      nodeShardIndex := net.nodeShardIndex.set node.nodeId ∅}

def registerNode (net : Network) (nodeId region : String) : Network :=
  {net with nodes := net.nodes++[⟨nodeId,region,Dict.empty,false⟩]}

def regionFailure (net : Network) (region : String) : Network :=
  {net with nodes := net.nodes.map fun node =>
      if node.region=region ∧ !node.evicted then {node with evicted := true} else node}

def restoreRegion (net : Network) (region : String) : Network :=
  {net with nodes := net.nodes.map fun node =>
      if node.region=region ∧ node.evicted then {node with evicted := false} else node}

def findTarget (net : Network) (place : ℕ) (key : ShardKey) : Option ℕ :=
  (net.nodes.zipIdx.find? fun target =>
    target.2≠place ∧ !target.1.evicted ∧ (target.1.fetchShard key.1 key.2).isNone).map Prod.snd

def repairPlan (net : Network) (place : ℕ) (key : ShardKey) : Option (Bytes × ℕ) :=
  net.nodes.zipIdx.findSome? fun other =>
    if other.2=place ∨ other.1.evicted then none
    else (other.1.fetchShard key.1 key.2).bind fun replica =>
      (net.findTarget place key).map fun target => (replica,target)

structure Repair where
  net : Network
  repaired : ℕ
  lost : ℕ

def repairShard (place : ℕ) (state : Repair) (key : ShardKey) : Repair :=
  match state.net.repairPlan place key with
  | some (replica,target) =>
    ⟨storeAt key.1 key.2 replica state.net target,state.repaired+1,state.lost⟩
  | none => {state with lost := state.lost+1}

variable (order : ShardOrder)

def orphanedShards (net : Network) (node : CommitmentNode) : List ShardKey :=
  if node.shards.entries.isEmpty then
    ((net.nodeShardIndex.get? node.nodeId).map order.toList).getD []
  else node.shards.keys

def markEvicted (net : Network) (place : ℕ) (node : CommitmentNode) : Network :=
  invalidatePlacementCache {net with nodes := net.nodes.set place {node with evicted := true}}

def evictNode (net : Network) (place : ℕ) (node : CommitmentNode) : EvictionResult × Network :=
  let orphaned := net.orphanedShards order node
  let repair := orphaned.foldl (repairShard place) ⟨net.markEvicted place node,0,0⟩
  (⟨node.nodeId,orphaned.length,repair.repaired,repair.lost⟩,
    {repair.net with nodeShardIndex := repair.net.nodeShardIndex.erase node.nodeId})

section
variable (hashBytes : Bytes → Bytes)

def cached (net : Network) (entityId : String) (shardIndex replicas : ℕ) : Option (List ℕ) :=
  if net.nodes.length≠net.nodeCountAtCache then none
  else net.placementCache.get? (entityId,shardIndex,replicas)

def outcome (net : Network) (entityId : String) (shardIndex replicas : ℕ) :
    Except PyError (List ℕ) :=
  if net.nodes.isEmpty then .error (.valueError "No commitment nodes available")
  else
    match net.cached entityId shardIndex replicas with
    | some selected => .ok selected
    | none => net.computePlacement hashBytes entityId shardIndex replicas

structure SameAnswers (net net' : Network) : Prop where
  nodes : net'.nodes=net.nodes
  index : net'.nodeShardIndex=net.nodeShardIndex
  fence : net'.geoFencePolicy=net.geoFencePolicy
  outcome : ∀ entityId shardIndex replicas,
    net'.outcome hashBytes entityId shardIndex replicas =
      net.outcome hashBytes entityId shardIndex replicas
  count : net.nodeCountAtCache≤net.nodes.length → net'.nodeCountAtCache≤net'.nodes.length

variable {hashBytes} {net net' : Network}

def profile (node : CommitmentNode) : String × String × Bool :=
  (node.nodeId,node.region,node.evicted)

structure SameProfiles (net net' : Network) : Prop where
  nodes : net'.nodes.map profile=net.nodes.map profile
  fence : net'.geoFencePolicy=net.geoFencePolicy

theorem zipIdx_map_profile (nodes : List CommitmentNode) :
    nodes.zipIdx.map (Prod.map profile id)=(nodes.map profile).zipIdx :=
  zipIdx_map.symm

theorem map_eligibleNodes (net : Network) : net.eligibleNodes.map (Prod.map profile id) =
      (net.nodes.map profile).zipIdx.filter fun node =>
        net.geoFencePolicy.all fun allowed => allowed node.1.2.1 := by
  rw [← zipIdx_map_profile,filter_map,eligibleNodes]
  cases net.geoFencePolicy with
  | none => exact (congrArg _ (filter_true _)).symm
  | some allowed => rfl

theorem map_activeNodes (net : Network) : net.activeNodes =
      (((net.eligibleNodes.map (Prod.map profile id)).filter fun node => !node.1.2.2).insertionSort
        fun a b => a.1.1≤b.1.1).map Prod.snd := by
  rw [filter_map]
  have hs := map_insertionSort
    (r := fun a b : CommitmentNode × ℕ => a.1.nodeId≤b.1.nodeId)
    (s := fun a b : (String × String × Bool) × ℕ => a.1.1≤b.1.1) (Prod.map profile id)
    (net.eligibleNodes.filter fun node => !node.1.evicted) fun a _ b _ => .rfl
  have hm := congrArg (List.map Prod.snd) hs
  rw [map_map] at hm
  exact hm

theorem SameProfiles.eligible (h : SameProfiles net net') :
    net'.eligibleNodes.map (Prod.map profile id)=net.eligibleNodes.map (Prod.map profile id) := by
  rw [map_eligibleNodes,map_eligibleNodes,h.nodes,h.fence]

theorem SameProfiles.activeNodes (h : SameProfiles net net') :
    net'.activeNodes=net.activeNodes := by rw [map_activeNodes,map_activeNodes,h.eligible]

theorem SameAnswers.refl (net : Network) : SameAnswers hashBytes net net :=
  ⟨rfl,rfl,rfl,fun _ _ _ => rfl,id⟩

theorem SameAnswers.trans {net'' : Network} (h : SameAnswers hashBytes net net')
    (h' : SameAnswers hashBytes net' net'') : SameAnswers hashBytes net net'' :=
  ⟨h'.nodes.trans h.nodes,h'.index.trans h.index,h'.fence.trans h.fence,
    fun e i r => (h'.outcome e i r).trans (h.outcome e i r),h'.count ∘ h.count⟩

theorem computePlacement_congr (h : SameProfiles net net') (entityId : String) (i replicas : ℕ) :
    net'.computePlacement hashBytes entityId i replicas =
      net.computePlacement hashBytes entityId i replicas := by
  have he : net'.eligibleNodes.isEmpty=net.eligibleNodes.isEmpty := by
    have hm := congrArg isEmpty h.eligible
    rwa [isEmpty_map,isEmpty_map] at hm
  simp [computePlacement,he,h.activeNodes]

theorem cached_invalidate (net : Network) (entityId : String) (i r : ℕ) :
    net.invalidatePlacementCache.cached entityId i r=none := by
  rw [cached]
  split_ifs <;> rfl

theorem SameProfiles.isEmpty (h : SameProfiles net net') :
    net'.nodes.isEmpty=net.nodes.isEmpty := by
  have hm := congrArg List.isEmpty h.nodes
  rwa [isEmpty_map,isEmpty_map] at hm

theorem SameProfiles.outcome (h : SameProfiles net net') {entityId : String} {i replicas : ℕ}
    (hc : net'.cached entityId i replicas=net.cached entityId i replicas) :
    net'.outcome hashBytes entityId i replicas =
      net.outcome hashBytes entityId i replicas := by
  rw [Network.outcome,Network.outcome,h.isEmpty,hc,computePlacement_congr h]

theorem sameAnswers_invalidate (h : net.nodes.length≠net.nodeCountAtCache) :
    SameAnswers hashBytes net net.invalidatePlacementCache := by
  have hs : SameProfiles net net.invalidatePlacementCache := ⟨rfl,rfl⟩
  refine ⟨rfl,rfl,rfl,fun e i r => hs.outcome ?_,fun _ => le_rfl⟩
  rw [cached_invalidate,cached,if_pos h]

theorem sameAnswers_remember {entityId : String} {idx reps : ℕ} {selected : List ℕ}
    (hc : net.nodes.length=net.nodeCountAtCache)
    (h : net.outcome hashBytes entityId idx reps=.ok selected) :
    SameAnswers hashBytes net {net with
      placementCache := net.placementCache.set (entityId,idx,reps) selected} := by
  have hs : SameProfiles net {net with
      placementCache := net.placementCache.set (entityId,idx,reps) selected} :=
    ⟨rfl,rfl⟩
  refine ⟨rfl,rfl,rfl,fun e i r => ?_,id⟩
  by_cases hk : (entityId,idx,reps)=(e,i,r)
  · obtain ⟨rfl,rfl,rfl⟩ : entityId=e ∧ idx=i ∧ reps=r := by simpa using hk
    rw [h,outcome,cached,if_neg (not_not.mpr hc),Dict.get?_set_self]
    rw [outcome] at h
    split_ifs at h with he
    rw [if_neg he]
  · refine hs.outcome ?_
    rw [cached,cached,Dict.get?_set,if_neg hk]

theorem placement_exec (hashBytes : Bytes → Bytes) (entityId : String)
    (i replicas : ℕ) (net : Network) :
    ((placement hashBytes entityId i replicas).exec net).1 =
        net.outcome hashBytes entityId i replicas ∧ SameAnswers hashBytes net
        ((placement hashBytes entityId i replicas).exec net).2 := by
  by_cases he : net.nodes.isEmpty=true
  · simp only [placement,exec_bind,exec_get,he,↓reduceIte,exec_throw,outcome,true_and]
    exact .refl net
  -- from here on the cache is the one the call looks at
  obtain ⟨current,hc,hco,hs⟩ : ∃ current, (if net.nodes.length ≠
      net.nodeCountAtCache then net.invalidatePlacementCache else net)=current ∧
        current.nodes.length=current.nodeCountAtCache ∧
        SameAnswers hashBytes net current := by
    split_ifs with hco
    · exact ⟨_,rfl,rfl,sameAnswers_invalidate hco⟩
    · exact ⟨_,rfl,not_not.mp hco,.refl net⟩
  have hl : ¬current.nodes.isEmpty=true := hs.nodes ▸ he
  rw [← hs.outcome]
  simp only [placement,exec_bind,exec_get,he,Bool.false_eq_true,↓reduceIte,exec_modify,hc]
  have ho : current.outcome hashBytes entityId i replicas =
      match current.placementCache.get? (entityId,i,replicas) with
      | some selected => .ok selected
      | none => current.computePlacement hashBytes entityId i replicas := by
    rw [outcome,if_neg hl,cached,if_neg (not_not.mpr hco)]
  cases hca : current.placementCache.get? (entityId,i,replicas) with
  | some selected =>
    rw [hca] at ho
    exact ⟨ho.symm,hs⟩
  | none =>
    rw [hca] at ho
    dsimp only at ho ⊢
    rw [← ho]
    cases hr : current.outcome hashBytes entityId i replicas with
    | error e => exact ⟨rfl,hs⟩
    | ok selected => exact ⟨rfl,hs.trans (sameAnswers_remember hco hr)⟩

end

def copyAt (net : Network) (place : ℕ) (key : ShardKey) : Option Bytes :=
  net.nodes[place]?.bind fun node => node.fetchShard key.1 key.2

def IsActive (net : Network) (place : ℕ) : Prop :=
  ∃ node, net.nodes[place]?=some node ∧ node.evicted=false

def HasCopy (net : Network) (place : ℕ) (key : ShardKey) : Prop :=
  ∃ other, other≠place ∧ net.copyAt other key≠none

def HasRoom (net : Network) (place : ℕ) (key : ShardKey) : Prop :=
  ∃ other, other≠place ∧ net.IsActive other ∧ net.copyAt other key=none

section
variable {net : Network} {place other : ℕ} {key : ShardKey} {data : Bytes}

theorem isActive_of_copyAt (h : net.copyAt place key=some data) : net.IsActive place := by
  obtain ⟨node,hn,hf⟩ := Option.bind_eq_some_iff.mp h
  refine ⟨node,hn,?_⟩
  rw [CommitmentNode.fetchShard] at hf
  split_ifs at hf with he
  exact Bool.eq_false_iff.mpr he

theorem findTarget_eq_some (h : net.findTarget place key=some other) :
    other≠place ∧ net.IsActive other ∧ net.copyAt other key=none := by
  obtain ⟨⟨node,index⟩,hf,rfl⟩ := Option.map_eq_some_iff.mp h
  have hm := mk_mem_zipIdx_iff_getElem?.mp (mem_of_find?_eq_some hf)
  have ht := find?_some hf
  simp only [decide_eq_true_eq,Bool.not_eq_eq_eq_not,Option.isNone_iff_eq_none] at ht
  exact ⟨ht.1,⟨node,hm,ht.2.1⟩,by rw [copyAt,hm]; exact ht.2.2⟩

theorem exists_findTarget (h : net.HasRoom place key) :
    ∃ target, net.findTarget place key=some target := by
  obtain ⟨other,hne,⟨node,hn,ha⟩,hno⟩ := h
  cases hf : net.findTarget place key with
  | some target => exact ⟨target,rfl⟩
  | none =>
    have hal := find?_eq_none.mp (Option.map_eq_none_iff.mp hf) (node,other)
      (mk_mem_zipIdx_iff_getElem?.mpr hn)
    rw [copyAt,hn] at hno
    refine absurd ?_ hal
    simpa [hne,ha] using hno

theorem repairPlan_eq_some {target : ℕ} (h : net.repairPlan place key=some (data,target)) :
    (∃ other, other≠place ∧ net.copyAt other key=some data) ∧
      net.findTarget place key=some target := by
  obtain ⟨⟨node,other⟩,hm,hpl⟩ := exists_of_findSome?_eq_some h
  split_ifs at hpl with hs
  obtain ⟨replica,hr,hpl⟩ := Option.bind_eq_some_iff.mp hpl
  obtain ⟨found,hf,heq⟩ := Option.map_eq_some_iff.mp hpl
  cases heq
  have hn := mk_mem_zipIdx_iff_getElem?.mp hm
  refine ⟨⟨other,fun hp => hs (.inl hp),?_⟩,hf⟩
  rw [copyAt,hn]
  exact hr

theorem repairPlan_ne_none_iff :
    net.repairPlan place key≠none ↔ net.HasCopy place key ∧ net.HasRoom place key := by
  constructor
  · intro h
    obtain ⟨⟨data,target⟩,hp⟩ := Option.ne_none_iff_exists'.mp h
    obtain ⟨⟨other,hne,hc⟩,ht⟩ := repairPlan_eq_some hp
    exact ⟨⟨other,hne,by simp [hc]⟩,target,findTarget_eq_some ht⟩
  · rintro ⟨⟨other,hne,hc⟩,hr⟩ hp
    obtain ⟨target,ht⟩ := exists_findTarget hr
    obtain ⟨data,hd⟩ := Option.ne_none_iff_exists'.mp hc
    obtain ⟨node,hn,ha⟩ := isActive_of_copyAt hd
    have hno := findSome?_eq_none_iff.mp hp (node,other)
      (mk_mem_zipIdx_iff_getElem?.mpr hn)
    rw [copyAt,hn] at hd
    have hf : node.fetchShard key.1 key.2=some data := hd
    simp [hne,ha,hf,ht] at hno

theorem getElem?_storeAt (entityId : String) (i : ℕ) (data : Bytes) (net : Network)
    (target place : ℕ) :
    (storeAt entityId i data net target).nodes[place]? =
      if target=place then
        net.nodes[place]?.map fun node => (node.storeShard entityId i data).2
      else net.nodes[place]? := by
  rw [storeAt]
  cases hn : net.nodes[target]? with
  | none =>
    split_ifs with hp
    · subst hp
      rw [hn]
      rfl
    · rfl
  | some node =>
    rw [getElem?_set]
    split_ifs with hp hl
    · subst hp
      rw [hn]
      rfl
    · subst hp
      exact absurd (List.getElem?_eq_some_iff.mp hn).1 hl
    · rfl

theorem storeShard_evicted (node : CommitmentNode) (entityId : String) (i : ℕ)
    (data : Bytes) : (node.storeShard entityId i data).2.evicted=node.evicted := by
  rw [CommitmentNode.storeShard]
  split_ifs <;> rfl

variable {stored : ShardKey} {target : ℕ}

theorem isActive_storeAt :
    (storeAt stored.1 stored.2 data net target).IsActive place ↔ net.IsActive place := by
  rw [IsActive,IsActive,getElem?_storeAt]
  split_ifs
  · simp [storeShard_evicted]
  · rfl

theorem copyAt_storeAt (ha : net.IsActive target) :
    (storeAt stored.1 stored.2 data net target).copyAt place key =
      if target=place ∧ stored=key then some data else net.copyAt place key := by
  obtain ⟨node,hn,he⟩ := ha
  rw [copyAt,copyAt,getElem?_storeAt]
  by_cases hp : target=place
  · subst hp
    simp only [hn,Option.map_some,Option.bind_some,true_and,
      CommitmentNode.storeShard,CommitmentNode.fetchShard,he]
    exact Dict.get?_set _ _ _ _
  · rw [if_neg hp,if_neg fun h => hp h.1]

end

def shardAt (net : Network) (place : ℕ) (key : ShardKey) : Option Bytes :=
  net.nodes[place]?.bind fun node => node.shards.get? key

section
variable {net net' : Network} {place p : ℕ} {key : ShardKey} {node : CommitmentNode} {data : Bytes}

theorem shardAt_of_nodes (h : net'.nodes=net.nodes) (place : ℕ) (key : ShardKey) :
    net'.shardAt place key=net.shardAt place key := by rw [shardAt,shardAt,h]

theorem shardAt_of_copyAt (h : net.copyAt place key=some data) :
    net.shardAt place key=some data := by
  obtain ⟨node,hn,hf⟩ := Option.bind_eq_some_iff.mp h
  rw [CommitmentNode.fetchShard] at hf
  split_ifs at hf
  rw [shardAt,hn]
  exact hf

theorem shardAt_setNode (hn : net.nodes[place]?=some node) (changed : CommitmentNode) :
    shardAt {net with nodes := net.nodes.set place changed} p key =
      if place=p then changed.shards.get? key else net.shardAt p key := by
  rw [shardAt,getElem?_set]
  split_ifs with hp hl
  · rfl
  · subst hp
    exact absurd (List.getElem?_eq_some_iff.mp hn).1 hl
  · rfl

theorem shardAt_map {change : CommitmentNode → CommitmentNode}
    (h : ∀ node, (change node).shards=node.shards) :
    shardAt {net with nodes := net.nodes.map change} place key=net.shardAt place key := by
  rw [shardAt,shardAt,List.getElem?_map]
  cases net.nodes[place]? with
  | none => rfl
  | some node => exact congrArg (Dict.get? · key) (h node)

theorem shardAt_storeAt {stored : ShardKey} {target : ℕ} (ha : net.IsActive target) :
    (storeAt stored.1 stored.2 data net target).shardAt p key =
      if target=p ∧ stored=key then some data else net.shardAt p key := by
  obtain ⟨node,hn,he⟩ := ha
  rw [shardAt,shardAt,getElem?_storeAt]
  by_cases hp : target=p
  · subst hp
    simp only [hn,Option.map_some,true_and,CommitmentNode.storeShard,he]
    exact Dict.get?_set _ _ _ _
  · rw [if_neg hp,if_neg fun h => hp h.1]

theorem shardAt_storeAt_of_not_active {stored : ShardKey} {target : ℕ} (ha : ¬net.IsActive target) :
    (storeAt stored.1 stored.2 data net target).shardAt p key=net.shardAt p key := by
  rw [shardAt,shardAt,getElem?_storeAt]
  split_ifs with hp
  · subst hp
    cases hn : net.nodes[target]? with
    | none => rfl
    | some node =>
      have he : node.evicted=true := by
        by_contra hf
        exact ha ⟨node,hn,Bool.eq_false_iff.mpr hf⟩
      rw [Option.map_some,CommitmentNode.storeShard,if_pos he]
  · rfl

theorem shardAt_markEvicted (hn : net.nodes[place]?=some node) :
    (net.markEvicted place node).shardAt p key=net.shardAt p key := by
  have hs : (net.markEvicted place node).shardAt p key =
      if place=p then node.shards.get? key else net.shardAt p key := shardAt_setNode hn _
  rw [hs]
  split_ifs with hp
  · rw [← hp,shardAt,hn]
    rfl
  · rfl

end

section
variable {net : Network} {state : Repair} {place : ℕ} {key other : ShardKey}

structure Repaired (place : ℕ) (key : ShardKey) (net net' : Network) : Prop where
  active : ∀ p, net'.IsActive p ↔ net.IsActive p
  others : ∀ p other, other≠key → net'.copyAt p other=net.copyAt p other
  kept : ∀ p data, net.copyAt p key=some data → net'.copyAt p key=some data
  copied : ∀ p, net'.copyAt p key≠none → net.copyAt p key≠none ∨
    p≠place ∧ net.HasCopy place key
  profiles : SameProfiles net net'
  cache : net'.placementCache=net.placementCache ∧ net'.nodeCountAtCache=net.nodeCountAtCache

theorem Repaired.refl (place : ℕ) (key : ShardKey) (net : Network) : Repaired place key net net :=
  ⟨fun _ => .rfl,fun _ _ _ => rfl,fun _ _ h => h,fun _ h => .inl h,⟨rfl,rfl⟩,rfl,rfl⟩

theorem sameProfiles_storeAt (entityId : String) (i : ℕ) (data : Bytes) (net : Network)
    (target : ℕ) : SameProfiles net (storeAt entityId i data net target) := by
  refine ⟨ext_getElem? fun p => ?_,?_⟩
  · rw [getElem?_map,getElem?_map,getElem?_storeAt]
    split_ifs
    · rw [Option.map_map]
      refine congrArg (fun f => Option.map f _) (funext fun node => ?_)
      rw [Function.comp_apply,CommitmentNode.storeShard]
      split_ifs <;> rfl
    · rfl
  · rw [storeAt]
    split <;> rfl

theorem repaired_repairShard (place : ℕ) (state : Repair) (key : ShardKey) :
    Repaired place key state.net (repairShard place state key).net := by
  rw [repairShard]
  cases hpl : state.net.repairPlan place key with
  | none => exact .refl place key state.net
  | some plan =>
    obtain ⟨data,target⟩ := plan
    obtain ⟨⟨source,hs,hc⟩,ht⟩ := repairPlan_eq_some hpl
    obtain ⟨hne,ha,hn⟩ := findTarget_eq_some ht
    refine ⟨fun p => isActive_storeAt,fun p other ho => ?_,fun p found hf => ?_,
      fun p hp => ?_,sameProfiles_storeAt _ _ _ _ _,?_⟩
    · rw [copyAt_storeAt ha,if_neg fun h => ho h.2.symm]
    · rw [copyAt_storeAt ha,if_neg,hf]
      rintro ⟨rfl,-⟩
      rw [hn] at hf
      cases hf
    · by_cases hp' : target=p
      · exact .inr ⟨hp' ▸ hne,source,hs,by simp [hc]⟩
      · rw [copyAt_storeAt ha,if_neg fun h => hp' h.1] at hp
        exact .inl hp
    · dsimp only [storeAt]
      split <;> exact ⟨rfl,rfl⟩

theorem Repaired.hasCopy_iff {net' : Network} (h : Repaired place key net net')
    (other : ShardKey) : net'.HasCopy place other ↔ net.HasCopy place other := by
  by_cases ho : other=key
  · subst ho
    constructor
    · rintro ⟨p,hp,hc⟩
      rcases h.copied p hc with hol|⟨-,hn⟩
      · exact ⟨p,hp,hol⟩
      · exact hn
    · rintro ⟨p,hp,hc⟩
      obtain ⟨data,hd⟩ := Option.ne_none_iff_exists'.mp hc
      exact ⟨p,hp,by simp [h.kept p data hd]⟩
  · simp [HasCopy,h.others _ _ ho]

theorem Repaired.hasRoom_iff {net' : Network} (h : Repaired place key net net')
    (ho : other≠key) : net'.HasRoom place other ↔ net.HasRoom place other := by
  simp [HasRoom,h.active,h.others _ _ ho]

theorem lost_repairShard (place : ℕ) (state : Repair) (key : ShardKey) :
    (repairShard place state key).lost =
      state.lost+if state.net.repairPlan place key=none then 1 else 0 := by
  rw [repairShard]
  cases state.net.repairPlan place key with
  | none => rfl
  | some plan => rfl

end

section
variable {place : ℕ}

structure RepairedAll (place : ℕ) (net net' : Network) : Prop where
  active : ∀ p, net'.IsActive p ↔ net.IsActive p
  kept : ∀ p key data, net.copyAt p key=some data → net'.copyAt p key=some data
  hasCopy : ∀ key, net'.HasCopy place key ↔ net.HasCopy place key
  evicted : ∀ key, net'.copyAt place key≠none → net.copyAt place key≠none
  profiles : SameProfiles net net'
  cache : net'.placementCache=net.placementCache ∧ net'.nodeCountAtCache=net.nodeCountAtCache

theorem repairedAll_foldl (place : ℕ) (state : Repair) (keys : List ShardKey) :
    RepairedAll place state.net (keys.foldl (repairShard place) state).net := by
  induction keys generalizing state with
  | nil => exact ⟨fun _ => .rfl,fun _ _ _ h => h,fun _ => .rfl,fun _ h => h,⟨rfl,rfl⟩,
      rfl,rfl⟩
  | cons key rest ih =>
    have hon := repaired_repairShard place state key
    have hr := ih (repairShard place state key)
    refine ⟨fun p => (hr.active p).trans (hon.active p),fun p other data hd => ?_,
      fun other => (hr.hasCopy other).trans (hon.hasCopy_iff other),fun other ho => ?_,
      ⟨hr.profiles.nodes.trans hon.profiles.nodes,hr.profiles.fence.trans hon.profiles.fence⟩,
      hr.cache.1.trans hon.cache.1,hr.cache.2.trans hon.cache.2⟩
    · refine hr.kept p other data ?_
      by_cases hk : other=key
      · exact hk ▸ hon.kept p data (hk ▸ hd)
      · rw [hon.others p other hk,hd]
    · have hm := hr.evicted other ho
      by_cases hk : other=key
      · subst hk
        rcases hon.copied place hm with hol|⟨hne,-⟩
        · exact hol
        · exact absurd rfl hne
      · rwa [hon.others place other hk] at hm

open Classical in
theorem lost_foldl (place : ℕ) (state : Repair) {keys : List ShardKey} (hn : keys.Nodup) :
    (keys.foldl (repairShard place) state).lost=state.lost+keys.countP fun key =>
        ¬(state.net.HasCopy place key ∧ state.net.HasRoom place key) := by
  induction keys generalizing state with
  | nil => rfl
  | cons key rest ih =>
    obtain ⟨hk,hr⟩ := nodup_cons.mp hn
    have hon := repaired_repairShard place state key
    have hc : (rest.countP fun other =>
          ¬((repairShard place state key).net.HasCopy place other ∧
            (repairShard place state key).net.HasRoom place other)) =
        rest.countP fun other => ¬(state.net.HasCopy place other ∧
          state.net.HasRoom place other) := by
      refine countP_congr fun other ho => ?_
      have hne : other≠key := fun heq => hk (heq ▸ ho)
      simp [hon.hasCopy_iff,hon.hasRoom_iff hne]
    have hp : state.net.repairPlan place key=none ↔
        ¬(state.net.HasCopy place key ∧ state.net.HasRoom place key) := by
      rw [← repairPlan_ne_none_iff,not_not]
    rw [foldl_cons,ih _ hr,lost_repairShard,countP_cons]
    simp only [hp,decide_eq_true_eq]
    omega

end

section
variable {hashBytes : Bytes → Bytes} {net net' : Network}

structure KeepsAnswers (hashBytes : Bytes → Bytes) (net net' : Network) : Prop where
  profiles : SameProfiles net net'
  outcome : ∀ entityId shardIndex replicas,
    net'.outcome hashBytes entityId shardIndex replicas =
      net.outcome hashBytes entityId shardIndex replicas
  count : net.nodeCountAtCache≤net.nodes.length → net'.nodeCountAtCache≤net'.nodes.length

instance : Std.Refl (KeepsAnswers hashBytes) :=
  ⟨fun _ => ⟨⟨rfl,rfl⟩,fun _ _ _ => rfl,id⟩⟩

instance : IsTrans Network (KeepsAnswers hashBytes) where
  trans _ _ _ h h' :=
    ⟨⟨h'.profiles.nodes.trans h.profiles.nodes,h'.profiles.fence.trans h.profiles.fence⟩,
      fun e i r => (h'.outcome e i r).trans (h.outcome e i r),h'.count ∘ h.count⟩

theorem SameAnswers.keepsAnswers (h : SameAnswers hashBytes net net') :
    KeepsAnswers hashBytes net net' :=
  ⟨⟨by rw [h.nodes],h.fence⟩,h.outcome,h.count⟩

theorem SameProfiles.length_eq (h : SameProfiles net net') :
    net'.nodes.length=net.nodes.length := by
  have hm := congrArg length h.nodes
  rwa [length_map,length_map] at hm

theorem SameProfiles.keepsAnswers (h : SameProfiles net net')
    (hc : net'.placementCache=net.placementCache)
    (hco : net'.nodeCountAtCache=net.nodeCountAtCache) :
    KeepsAnswers hashBytes net net' := by
  refine ⟨h,fun e i r => h.outcome ?_,?_⟩
  · rw [cached,cached,hc,hco,h.length_eq]
  · rw [hco,h.length_eq]
    exact id

theorem keepsAnswers_storeAt (entityId : String) (i : ℕ) (data : Bytes) (net : Network)
    (target : ℕ) : KeepsAnswers hashBytes net (storeAt entityId i data net target) := by
  refine (sameProfiles_storeAt entityId i data net target).keepsAnswers ?_ ?_
  · rw [storeAt]
    split <;> rfl
  · rw [storeAt]
    split <;> rfl

instance : Std.Refl (SameAnswers hashBytes) := ⟨SameAnswers.refl⟩

instance : IsTrans Network (SameAnswers hashBytes) := ⟨fun _ _ _ => SameAnswers.trans⟩

theorem keeps_placement (entityId : String) (i r : ℕ) :
    Method.Keeps (SameAnswers hashBytes)
      (placement hashBytes entityId i r) := fun net =>
  (placement_exec hashBytes entityId i r net).2

theorem keeps_fetchShards (entityId : String) (cap : ℕ) (indices : List ℕ)
    (got : Dict ℕ Bytes) : Method.Keeps (SameAnswers hashBytes)
      (fetchShards hashBytes entityId cap indices got) := by
  induction indices generalizing got with
  | nil => exact keeps_pure _
  | cons i indices ih =>
    rw [fetchShards]
    split_ifs
    · exact keeps_pure _
    · refine .bind (keeps_placement entityId i 2) fun targets => ?_
      refine .bind keeps_get fun cur => ?_
      split
      · exact ih _
      · exact ih _

end

section
variable {H : Bytes → Bytes} {net : Network} {eid : String}

def IsEligible (net : Network) (place : ℕ) : Prop :=
  ∃ node, net.nodes[place]?=some node ∧ node.evicted=false ∧
    net.geoFencePolicy.all (fun allowed => allowed node.region)=true

theorem mem_activeNodes {place : ℕ} : place ∈ net.activeNodes ↔ net.IsEligible place := by
  rw [activeNodes,mem_map]
  simp only [mem_insertionSort,mem_filter,Bool.not_eq_eq_eq_not]
  have he (entry : CommitmentNode × ℕ) : entry ∈ net.eligibleNodes ↔
      net.nodes[entry.2]?=some entry.1 ∧
        net.geoFencePolicy.all (fun allowed => allowed entry.1.region)=true := by
    rw [eligibleNodes,← mk_mem_zipIdx_iff_getElem?]
    cases net.geoFencePolicy with
    | none => simp
    | some allowed => simp
  constructor
  · rintro ⟨⟨node,p⟩,⟨hm,ha⟩,rfl⟩
    obtain ⟨hn,hi⟩ := (he _).mp hm
    exact ⟨node,hn,ha,hi⟩
  · rintro ⟨node,hn,ha,hi⟩
    exact ⟨(node,place),⟨(he _).mpr ⟨hn,hi⟩,ha⟩,rfl⟩

theorem computePlacement_ok_iff (hashBytes : Bytes → Bytes) {i r : ℕ} :
    (∃ selected, net.computePlacement hashBytes eid i r =
        .ok selected) ↔ ∃ place, net.IsEligible place := by
  have hn : net.activeNodes≠[] ↔ ∃ place, net.IsEligible place := by
    simp only [← mem_activeNodes]
    exact ⟨exists_mem_of_ne_nil _,fun ⟨_,hm⟩ => ne_nil_of_mem hm⟩
  rw [← hn,computePlacement]
  by_cases he : net.eligibleNodes.isEmpty=true
  · have hno : net.activeNodes=[] := by
      rw [activeNodes,isEmpty_iff.mp he]
      rfl
    simp [he,hno]
  · rw [if_neg he]
    by_cases ha : net.activeNodes=[]
    · simp [ha]
    · simp [ha]

theorem lookupShard_ne_none {targets : List ℕ} {i : ℕ} {data : Bytes} (h : net.Serves eid i data) :
    net.lookupShard targets eid i≠none := by
  obtain ⟨node,hn,hf⟩ := h
  rw [lookupShard]
  split
  · simp
  · intro hno
    have hs := findSome?_eq_none_iff.mp hno node hn
    split_ifs at hs with he
    · rw [CommitmentNode.fetchShard,if_pos he] at hf
      cases hf
    · rw [hs] at hf
      cases hf

theorem lookupShard_congr {net' : Network} (h : net'.nodes=net.nodes) (targets : List ℕ)
    (shardIndex : ℕ) : net'.lookupShard targets eid shardIndex =
      net.lookupShard targets eid shardIndex := by rw [lookupShard,lookupShard,h]

theorem fetchShards_complete {maxShards : ℕ} {indices : List ℕ} {got : Dict ℕ Bytes}
    (hp : ∀ i ∈ indices, ∃ places, net.outcome H eid i 2=.ok places)
    (hsi : got.size+indices.length ≤ maxShards) :
    ∃ result, ((fetchShards H eid maxShards indices got).exec net).1 =
        .ok result ∧ (∀ i, got.get? i≠none → result.get? i≠none) ∧
      ∀ i ∈ indices, ∀ data, net.Serves eid i data → result.get? i≠none := by
  induction indices generalizing got net with
  | nil => exact ⟨got,rfl,fun _ h => h,fun _ h => absurd h not_mem_nil⟩
  | cons j indices ih =>
    rw [length_cons] at hsi
    obtain ⟨places,hpl⟩ := hp j mem_cons_self
    obtain ⟨ho,hsa⟩ := placement_exec H eid j 2 net
    rw [hpl] at ho
    obtain ⟨net1,he⟩ : ∃ net1,
        (placement H eid j 2).exec net=(.ok places,net1) :=
      ⟨_,exec_eq_ok ho⟩
    rw [he] at hsa
    have hm : ¬maxShards≤got.size := by omega
    simp only [fetchShards,if_neg hm,exec_bind,he,exec_get]
    rw [lookupShard_congr hsa.nodes]
    have hp' (i : ℕ) (hi : i ∈ indices) :
        ∃ places, net1.outcome H eid i 2=.ok places := by
      rw [hsa.outcome]
      exact hp i (mem_cons_of_mem _ hi)
    have hs (i : ℕ) (data : Bytes) (h : net.Serves eid i data) :
        net1.Serves eid i data := by
      rwa [Serves,hsa.nodes]
    cases hf : net.lookupShard places eid j with
    | some found =>
      have hb := got.size_set_le j found
      have hs' : (got.set j found).size+indices.length ≤ maxShards := by omega
      obtain ⟨result,hr,hol,hn⟩ := ih hp' hs'
      refine ⟨result,hr,fun i hi => hol i ?_,fun i hi data hse => ?_⟩
      · rw [Dict.get?_set]
        split_ifs
        · simp
        · exact hi
      · rcases mem_cons.mp hi with rfl|hi
        · exact hol i (by simp)
        · exact hn i hi data (hs i data hse)
    | none =>
      have hs' : got.size+indices.length ≤ maxShards := by omega
      obtain ⟨result,hr,hol,hn⟩ := ih hp' hs'
      refine ⟨result,hr,hol,fun i hi data hse => ?_⟩
      rcases mem_cons.mp hi with rfl|hi
      · exact absurd hf (lookupShard_ne_none hse)
      · exact hn i hi data (hs i data hse)

theorem fetchEncryptedShards_complete (n : ℕ)
    (hp : ∀ i, ∃ places, net.outcome H eid i 2=.ok places) :
    ∃ got, ((fetchEncryptedShards H eid n n).exec net).1=.ok got ∧
      ∀ i<n, ∀ data, net.Serves eid i data → got.get? i≠none := by
  have hs : (Dict.empty : Dict ℕ Bytes).size+(List.range n).length≤n := by
    rw [length_range]
    exact (Nat.zero_add n).le
  obtain ⟨got,hf,-,ha⟩ := fetchShards_complete (fun i _ => hp i) hs
  exact ⟨got,hf,fun i hi => ha i (mem_range.mpr hi)⟩

theorem outcome_ok_of_eligible (hashBytes : Bytes → Bytes) (entityId : String)
    {i r : ℕ} (h : ∃ place, net.IsEligible place) :
    ∃ places, net.outcome hashBytes entityId i r=.ok places := by
  have hno : ¬net.nodes.isEmpty=true := by
    obtain ⟨place,node,hn,-⟩ := h
    simpa using ne_nil_of_mem (mem_of_getElem? hn)
  rw [outcome,if_neg hno]
  split
  · exact ⟨_,rfl⟩
  · exact (computePlacement_ok_iff hashBytes).mpr h

theorem outcome_ok_of_fetchShards_ok {cap i : ℕ} {indices : List ℕ}
    {got result : Dict ℕ Bytes} (hs : got.size<cap)
    (h : ((fetchShards H eid cap (i::indices) got).exec net).1 =
      .ok result) : ∃ places, net.outcome H eid i 2=.ok places := by
  have he := exec_eq_ok h
  rw [fetchShards,if_neg (not_le.mpr hs)] at he
  obtain ⟨places,net1,hp,-⟩ := exec_bind_ok he
  obtain ⟨ho,-⟩ := placement_exec H eid i 2 net
  exact ⟨places,by rw [← ho,hp]⟩

/-- A retrieval of all shards of the entity returns this one. -/
def Fetchable (hashBytes : Bytes → Bytes) (net : Network) (key : ShardKey) : Prop :=
  ∀ n, key.2<n → ∃ fetched,
    ((fetchEncryptedShards hashBytes key.1 n n).exec net).1=.ok fetched ∧
      fetched.get? key.2≠none

theorem serves_iff_copyAt {key : ShardKey} {data : Bytes} :
    net.Serves key.1 key.2 data ↔ ∃ place, net.copyAt place key=some data := by
  constructor
  · rintro ⟨node,hn,hf⟩
    obtain ⟨place,hp⟩ := getElem?_of_mem hn
    exact ⟨place,by rw [copyAt,hp]; exact hf⟩
  · rintro ⟨place,hc⟩
    obtain ⟨node,hn,hf⟩ := Option.bind_eq_some_iff.mp hc
    exact ⟨node,mem_of_getElem? hn,hf⟩

theorem fetchable_iff {key : ShardKey} (hc : ∀ e i r, net.cached e i r=none)
    (hco : ∃ place, net.copyAt place key≠none) :
    Fetchable H net key ↔ ∃ place, net.IsEligible place := by
  obtain ⟨place,hp⟩ := hco
  obtain ⟨data,hd⟩ := Option.ne_none_iff_exists'.mp hp
  have hs := serves_iff_copyAt.mpr ⟨place,hd⟩
  have hno : ¬net.nodes.isEmpty=true := by
    obtain ⟨node,hnod,-⟩ := hs
    simpa using ne_nil_of_mem hnod
  have ho (i : ℕ) : (∃ places, net.outcome H key.1 i 2=.ok places) ↔
      ∃ place, net.IsEligible place := by rw [← computePlacement_ok_iff H,outcome,if_neg hno,hc]
  constructor
  · intro h
    obtain ⟨got,hf,-⟩ := h (key.2+1) (Nat.lt_succ_self _)
    rw [fetchEncryptedShards,range_succ_eq_map] at hf
    exact (ho 0).mp (outcome_ok_of_fetchShards_ok (Nat.succ_pos _) hf)
  · intro h n hn
    obtain ⟨result,hr,hfo⟩ := fetchEncryptedShards_complete n fun i => (ho i).mpr h
    exact ⟨result,hr,hfo key.2 hn data hs⟩

/-- While the placement has a node to choose, a retrieval of all shards returns the shards that
some node serves. -/
theorem fetchEncryptedShards_exact (hashBytes : Bytes → Bytes) (net : Network)
    (entityId : String) (n : ℕ) (h : ∃ place, net.IsEligible place) :
    ∃ fetched, ((fetchEncryptedShards hashBytes entityId n n).exec net).1=.ok fetched ∧
      ∀ i, (fetched.get? i≠none ↔ i<n ∧ ∃ data, net.Serves entityId i data) ∧
        ∀ data, fetched.get? i=some data → net.Serves entityId i data := by
  obtain ⟨fetched,hf,ha⟩ := fetchEncryptedShards_complete n fun i =>
    outcome_ok_of_eligible hashBytes entityId h
  have hso (i : ℕ) (data : Bytes) (hg : fetched.get? i=some data) :
      i<n ∧ net.Serves entityId i data :=
    fetchEncryptedShards_sound (exec_eq_ok hf) hg
  refine ⟨fetched,hf,fun i => ⟨⟨fun hne => ?_,?_⟩,fun data hg => (hso i data hg).2⟩⟩
  · obtain ⟨data,hg⟩ := Option.ne_none_iff_exists'.mp hne
    exact ⟨(hso i data hg).1,data,(hso i data hg).2⟩
  · rintro ⟨hn,data,hs⟩
    exact ha i hn data hs

def fenced : Network := ⟨[⟨"n0","eu",Dict.empty.set ("a",0) [1],false⟩],Dict.empty,1,
  Dict.empty,some fun region => region == "us"⟩

theorem unfenced_fetched : ∃ fetched, ((fetchEncryptedShards id "a" 2 2).exec
        {fenced with geoFencePolicy := none}).1=.ok fetched ∧ ∀ i, (fetched.get? i≠none ↔
          i<2 ∧ ∃ data, {fenced with geoFencePolicy := none}.Serves "a" i data) ∧
        ∀ data, fetched.get? i=some data → {fenced with geoFencePolicy := none}.Serves "a" i data :=
  fetchEncryptedShards_exact id {fenced with geoFencePolicy := none} "a" 2
    ⟨0,_,rfl,rfl,rfl⟩

theorem fenced_not_fetched :
    (∃ node ∈ fenced.nodes, node.evicted=false ∧ node.fetchShard "a" 0=some [1]) ∧
      ((fetchEncryptedShards id "a" 1 1).exec fenced).1 =
        .error (.valueError "No commitment nodes available in allowed jurisdictions") :=
  ⟨⟨_,mem_singleton_self _,rfl,rfl⟩,rfl⟩

end

section
variable (order : ShardOrder) {net : Network} {place : ℕ} {node : CommitmentNode}

section
variable (hn : net.nodes[place]?=some node)
include hn

theorem getElem?_markEvicted (p : ℕ) :
    (net.markEvicted place node).nodes[p]? =
      if place=p then some {node with evicted := true} else net.nodes[p]? := by
  have hl := (List.getElem?_eq_some_iff.mp hn).1
  rw [markEvicted,invalidatePlacementCache,List.getElem?_set]
  split_ifs <;> rfl

theorem copyAt_markEvicted (p : ℕ) (key : ShardKey) :
    (net.markEvicted place node).copyAt p key=if place=p then none else net.copyAt p key := by
  rw [copyAt,getElem?_markEvicted hn]
  split_ifs <;> rfl

theorem isActive_markEvicted {p : ℕ} (hp : p≠place) :
    (net.markEvicted place node).IsActive p ↔ net.IsActive p := by
  rw [IsActive,getElem?_markEvicted hn,if_neg hp.symm,IsActive]

theorem isEligible_markEvicted (p : ℕ) :
    (net.markEvicted place node).IsEligible p ↔ p≠place ∧ net.IsEligible p := by
  rw [IsEligible,getElem?_markEvicted hn]
  by_cases hp : place=p
  · simp [hp]
  · rw [if_neg hp]
    exact ⟨fun h => ⟨.symm hp,h⟩,fun h => h.2⟩

theorem hasCopy_markEvicted (key : ShardKey) :
    (net.markEvicted place node).HasCopy place key ↔ net.HasCopy place key := by
  refine exists_congr fun p => and_congr_right fun hp => ?_
  rw [copyAt_markEvicted hn,if_neg hp.symm]

theorem hasRoom_markEvicted (key : ShardKey) :
    (net.markEvicted place node).HasRoom place key ↔ net.HasRoom place key := by
  refine exists_congr fun p => and_congr_right fun hp => ?_
  rw [isActive_markEvicted hn hp,copyAt_markEvicted hn,if_neg hp.symm]

end

theorem nodup_orphanedShards : (net.orphanedShards order node).Nodup := by
  rw [orphanedShards]
  split_ifs
  · cases net.nodeShardIndex.get? node.nodeId with
    | none => exact nodup_nil
    | some keys => exact order.nodup keys
  · exact node.shards.nodup

theorem repairedAll_evictNode :
    RepairedAll place (net.markEvicted place node) (net.evictNode order place node).2 := by
  have h := repairedAll_foldl place ⟨net.markEvicted place node,0,0⟩
    (net.orphanedShards order node)
  exact ⟨h.active,h.kept,h.hasCopy,h.evicted,⟨h.profiles.nodes,h.profiles.fence⟩,h.cache⟩

def isLost (net : Network) (key : ShardKey) : Bool :=
  net.nodes.all fun node => (node.fetchShard key.1 key.2).isNone

theorem isLost_iff {key : ShardKey} : net.isLost key=true ↔ ∀ p, net.copyAt p key=none := by
  rw [isLost,all_eq_true]
  constructor
  · intro h p
    rw [copyAt]
    cases hn : net.nodes[p]? with
    | none => rfl
    | some found => exact Option.isNone_iff_eq_none.mp (h found (mem_of_getElem? hn))
  · intro h found hf
    obtain ⟨p,hp⟩ := getElem?_of_mem hf
    have hno := h p
    rw [copyAt,hp] at hno
    exact Option.isNone_iff_eq_none.mpr hno

section
variable (hn : net.nodes[place]?=some node)
include hn

theorem hasCopy_evictNode (key : ShardKey) :
    (net.evictNode order place node).2.HasCopy place key ↔ net.HasCopy place key :=
  ((repairedAll_evictNode order).hasCopy key).trans (hasCopy_markEvicted hn key)

theorem exists_copy_evictNode_iff (key : ShardKey) :
    (∃ p, (net.evictNode order place node).2.copyAt p key≠none) ↔ net.HasCopy place key := by
  rw [← hasCopy_evictNode order hn]
  constructor
  · rintro ⟨p,hp⟩
    refine ⟨p,?_,hp⟩
    rintro rfl
    refine (repairedAll_evictNode order).evicted key hp ?_
    rw [copyAt_markEvicted hn,if_pos rfl]
  · rintro ⟨p,-,hp⟩
    exact ⟨p,hp⟩

theorem isLost_evictNode_iff (key : ShardKey) :
    (net.evictNode order place node).2.isLost key=true ↔ ¬net.HasCopy place key := by
  rw [isLost_iff,← exists_copy_evictNode_iff order hn]
  simp

end

theorem isEligible_congr {net' : Network} (h : SameProfiles net net') (p : ℕ) :
    net'.IsEligible p ↔ net.IsEligible p := by
  rw [← mem_activeNodes,← mem_activeNodes,h.activeNodes]

theorem cached_evictNode (entityId : String) (i r : ℕ) :
    (net.evictNode order place node).2.cached entityId i r=none := by
  have hc : (net.evictNode order place node).2.placementCache=Dict.empty :=
    (repairedAll_evictNode order).cache.1
  rw [cached,hc]
  split_ifs <;> rfl

theorem fetchable_evictNode_iff {hashBytes : Bytes → Bytes}
    (hn : net.nodes[place]?=some node) {key : ShardKey} (hc : net.HasCopy place key) :
    Fetchable hashBytes (net.evictNode order place node).2 key ↔
      ∃ p, p≠place ∧ net.IsEligible p := by
  have hk := (exists_copy_evictNode_iff order hn key).mpr hc
  rw [fetchable_iff (cached_evictNode order) hk]
  refine exists_congr fun p => ?_
  rw [isEligible_congr (repairedAll_evictNode order).profiles,isEligible_markEvicted hn]

end

theorem countP_eq_iff {α : Type*} {p q : α → Bool} (h : ∀ a, p a=true → q a=true) (l : List α) :
    l.countP p=l.countP q ↔ ∀ a ∈ l, q a=true → p a=true := by
  induction l with
  | nil => simp
  | cons a l ih =>
    have hle : l.countP p≤l.countP q := countP_mono_left fun a _ => h a
    rw [countP_cons,countP_cons,forall_mem_cons,← ih]
    by_cases hp : p a=true
    · simp [hp,h a hp]
    · by_cases hq : q a=true
      · simp only [hp,hq,↓reduceIte,Bool.false_eq_true,imp_false,not_true_eq_false,false_and,
          iff_false]
        omega
      · simp [hp,hq]

open Classical in
theorem lost_evictNode (order : ShardOrder) {net : Network} {place : ℕ} {node : CommitmentNode}
    (hno : net.nodes[place]?=some node) :
    (net.evictNode order place node).1.lost=(net.orphanedShards order node).countP fun key =>
      ¬(net.HasCopy place key ∧ net.HasRoom place key) := by
  have hn : (net.orphanedShards order node).Nodup := nodup_orphanedShards order
  have hf := lost_foldl place ⟨net.markEvicted place node,0,0⟩ hn
  simp only [hasCopy_markEvicted hno,hasRoom_markEvicted hno,Nat.zero_add] at hf
  exact hf

/-- An eviction leaves everything fetchable that has a copy elsewhere and counts the lost shards
right, exactly if the placement still has a node to choose and every orphaned shard with a copy
elsewhere finds an active node that lacks it. -/
theorem evictNode_repairs_iff (hashBytes : Bytes → Bytes) (order : ShardOrder)
    (net : Network) (place : ℕ) (node : CommitmentNode) (hnode : net.nodes[place]?=some node) :
    (∀ key, net.HasCopy place key →
        Fetchable hashBytes (net.evictNode order place node).2 key) ∧
      (net.evictNode order place node).1.lost =
        (net.orphanedShards order node).countP (net.evictNode order place node).2.isLost ↔
    ((∃ key, net.HasCopy place key) → ∃ p, p≠place ∧ net.IsEligible p) ∧
      ∀ key ∈ net.orphanedShards order node, net.HasCopy place key → net.HasRoom place key := by
  classical
  refine and_congr ?_ ?_
  · constructor
    · rintro h ⟨key,hco⟩
      exact (fetchable_evictNode_iff order hnode hco).mp (h key hco)
    · intro h key hco
      exact (fetchable_evictNode_iff order hnode hco).mpr (h ⟨key,hco⟩)
  · have hc (key : ShardKey) (hl : (net.evictNode order place node).2.isLost key=true) :
        decide (¬(net.HasCopy place key ∧ net.HasRoom place key))=true :=
      decide_eq_true fun h => (isLost_evictNode_iff order hnode key).mp hl h.1
    rw [lost_evictNode order hnode,eq_comm,countP_eq_iff hc]
    refine forall₂_congr fun key _ => ?_
    rw [isLost_evictNode_iff order hnode,decide_eq_true_eq]
    tauto

section

noncomputable def someOrder : ShardOrder :=
  ⟨Finset.toList,Finset.nodup_toList,fun _ _ => Finset.mem_toList⟩

def holding (nodeId : String) (shards : Dict ShardKey Bytes) : CommitmentNode :=
  ⟨nodeId,"eu",shards,false⟩

def shard : Dict ShardKey Bytes := Dict.empty.set ("a",0) [1]

def replicated (nodes : List CommitmentNode) : Network :=
  ⟨nodes,Dict.empty,nodes.length,Dict.empty,none⟩

def threeNodes : Network :=
  replicated [holding "n0" shard,holding "n1" shard,holding "n2" Dict.empty]

def twoNodes : Network := replicated [holding "n0" shard,holding "n1" shard]

theorem threeNodes_repairs : threeNodes.nodes[0]?=some (holding "n0" shard) ∧
      (∀ key, threeNodes.HasCopy 0 key →
        Fetchable id (threeNodes.evictNode someOrder 0 (holding "n0" shard)).2 key) ∧
      (threeNodes.evictNode someOrder 0 (holding "n0" shard)).1.lost =
        (threeNodes.orphanedShards someOrder (holding "n0" shard)).countP
          (threeNodes.evictNode someOrder 0 (holding "n0" shard)).2.isLost := by
  refine ⟨rfl,(evictNode_repairs_iff id someOrder threeNodes 0 _ rfl).mpr ⟨fun _ => ?_,?_⟩⟩
  · exact ⟨1,by decide,holding "n1" shard,rfl,rfl,rfl⟩
  · intro key hk _
    exact ⟨2,by decide,⟨holding "n2" Dict.empty,rfl,rfl⟩,rfl⟩

theorem twoNodes_counts_kept_shard_as_lost :
    (twoNodes.evictNode someOrder 0 (holding "n0" shard)).1.lost=1 ∧
      (twoNodes.orphanedShards someOrder (holding "n0" shard)).countP
        (twoNodes.evictNode someOrder 0 (holding "n0" shard)).2.isLost=0 :=
  ⟨rfl,rfl⟩

end

end Network
end LatticeTransfer.ShardNetwork
