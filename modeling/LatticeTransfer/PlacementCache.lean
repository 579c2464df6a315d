import LatticeTransfer.NetworkLifecycle

/-!
# The placement cache over whole runs

`_placement` memoizes its answers. The cache is dropped when the number of nodes differs from
the number it was filled for, by `add_node`, by a new geo-fence and by `evict_node`. A regional
failure and its end change the same flags as an eviction and leave the cache as it is.
-/

namespace LatticeTransfer.ShardNetwork
open MerkleTree List

namespace Network
variable {hashBytes : Bytes → Bytes} {net net' : Network}

/-- Every answer is the one of a fresh network with the same nodes and flags, and names no
evicted node. -/
structure Coherent (hashBytes : Bytes → Bytes) (net : Network) : Prop where
  fresh : ∀ entityId shardIndex replicas,
    net.outcome hashBytes entityId shardIndex replicas =
      net.invalidatePlacementCache.outcome hashBytes entityId shardIndex replicas
  active : ∀ entityId shardIndex replicas places,
    net.outcome hashBytes entityId shardIndex replicas=.ok places →
      ∀ place ∈ places, net.IsActive place

theorem pick_mem {active : List ℕ} (h : active≠[]) (key : String) :
    pick hashBytes active key ∈ active := by
  rw [pick,getD_eq_getElem?_getD]
  have hlt := Nat.mod_lt (PyValue.ofBigEndian (hashBytes (CommitmentLog.encodeText key)))
    (length_pos_of_ne_nil h)
  rw [getElem?_eq_getElem hlt]
  exact getElem_mem hlt

theorem selectReplica_subset {active selected : List ℕ} (h : active≠[])
    (hs : selected ⊆ active) (entityId : String) (shardIndex r : ℕ) :
    selectReplica hashBytes active entityId shardIndex selected r ⊆ active := by
  have hsn {candidate : ℕ} (hc : candidate ∈ active) :
      selected++[candidate] ⊆ active :=
    append_subset.mpr ⟨hs,cons_subset.mpr ⟨hc,nil_subset _⟩⟩
  rw [selectReplica]
  dsimp only
  split
  · exact hsn (pick_mem h _)
  · split
    · split
      next candidate hf =>
        obtain ⟨attempt,-,rfl⟩ := mem_map.mp (mem_of_find?_eq_some hf)
        exact hsn (pick_mem h _)
      next => exact hs
    · exact hs

section
variable {id : String} {i replicas : ℕ}

theorem computePlacement_active {places : List ℕ}
    (h : net.computePlacement hashBytes id i replicas=.ok places)
    {place : ℕ} (hp : place ∈ places) : net.IsActive place := by
  rw [computePlacement] at h
  dsimp only at h
  split_ifs at h with he ha
  cases h
  have hne : net.activeNodes≠[] := by simpa using ha
  have hs : (List.range replicas).foldl
      (selectReplica hashBytes net.activeNodes id i) [] ⊆ net.activeNodes :=
    foldlRecOn (motive := fun selected => selected ⊆ net.activeNodes) _ _
      (nil_subset _) fun selected hse r _ =>
        selectReplica_subset hne hse id i r
  obtain ⟨node,hn,hev,-⟩ := mem_activeNodes.mp (hs hp)
  exact ⟨node,hn,hev⟩

theorem outcome_of_cached_none (h : net.cached id i replicas=none) :
    net.outcome hashBytes id i replicas =
      net.invalidatePlacementCache.outcome hashBytes id i replicas := by
  have hs : SameProfiles net net.invalidatePlacementCache := ⟨rfl,rfl⟩
  exact (hs.outcome (by rw [h,cached_invalidate])).symm

end

theorem coherent_of_cached_none (h : ∀ e i r, net.cached e i r=none) :
    Coherent hashBytes net := by
  refine ⟨fun e i r => outcome_of_cached_none (h e i r),fun e i r places hp => ?_⟩
  rw [outcome,h] at hp
  split_ifs at hp
  exact fun place hpl => computePlacement_active hp hpl

theorem isActive_congr (h : SameProfiles net net') (place : ℕ) :
    net'.IsActive place ↔ net.IsActive place := by
  have hf (n : Network) : n.IsActive place ↔
      ((n.nodes.map profile)[place]?).any (fun p => !p.2.2)=true := by
    rw [IsActive,getElem?_map]
    cases n.nodes[place]? with
    | none => simp
    | some node => simp [profile]
  rw [hf,hf,h.nodes]

theorem Coherent.of_keepsAnswers (h : Coherent hashBytes net)
    (hk : KeepsAnswers hashBytes net net') : Coherent hashBytes net' := by
  have hs : SameProfiles net.invalidatePlacementCache net'.invalidatePlacementCache :=
    ⟨hk.profiles.nodes,hk.profiles.fence⟩
  refine ⟨fun e i r => ?_,fun e i r places hp place hpl => ?_⟩
  · rw [hk.outcome,h.fresh]
    exact (hs.outcome (by rw [cached_invalidate,cached_invalidate])).symm
  · rw [hk.outcome] at hp
    exact (isActive_congr hk.profiles place).mpr (h.active e i r places hp place hpl)

def CacheDead (net : Network) : Prop :=
  net.nodes.length≠net.nodeCountAtCache ∨ net.placementCache.entries=[]

instance (net : Network) : Decidable net.CacheDead := by
  unfold CacheDead
  infer_instance

theorem CacheDead.cached (h : net.CacheDead) (e : String) (i r : ℕ) : net.cached e i r=none := by
  rw [Network.cached]
  rcases h with hc|he
  · rw [if_pos hc]
  · rw [Dict.get?,he]
    split_ifs <;> rfl

structure Maintained (hashBytes : Bytes → Bytes) (net : Network) : Prop where
  coherent : Coherent hashBytes net
  count : net.nodeCountAtCache≤net.nodes.length

theorem Maintained.of_keepsAnswers (h : Maintained hashBytes net)
    (hk : KeepsAnswers hashBytes net net') : Maintained hashBytes net' :=
  ⟨h.coherent.of_keepsAnswers hk,hk.count h.count⟩

theorem maintained_invalidate (net : Network) :
    Maintained hashBytes net.invalidatePlacementCache :=
  ⟨coherent_of_cached_none (cached_invalidate net),le_rfl⟩

theorem Maintained.registerNode (h : Maintained hashBytes net) (nodeId region : String) :
    Maintained hashBytes (net.registerNode nodeId region) := by
  have hl : (net.registerNode nodeId region).nodes.length=net.nodes.length+1 := by
    rw [Network.registerNode,length_append,length_singleton]
  have hc : (net.registerNode nodeId region).nodeCountAtCache≤net.nodes.length := h.count
  have hd : (net.registerNode nodeId region).CacheDead := .inl (by omega)
  exact ⟨coherent_of_cached_none hd.cached,by omega⟩

theorem maintained_evictNode (order : ShardOrder) (net : Network) (place : ℕ)
    (node : CommitmentNode) : Maintained hashBytes (net.evictNode order place node).2 := by
  have hr : RepairedAll place (net.markEvicted place node)
      (net.evictNode order place node).2 := repairedAll_evictNode order
  refine ⟨coherent_of_cached_none (cached_evictNode order),?_⟩
  rw [hr.cache.2,hr.profiles.length_eq]
  exact le_rfl

theorem Maintained.setNodes (h : Maintained hashBytes net)
    {change : CommitmentNode → CommitmentNode}
    (hd : net.CacheDead ∨ ∀ node ∈ net.nodes, change node=node) :
    Maintained hashBytes {net with nodes := net.nodes.map change} := by
  rcases hd with hd|hs
  · have hd' : CacheDead {net with nodes := net.nodes.map change} :=
      hd.imp_left fun hc => by rwa [length_map]
    refine ⟨coherent_of_cached_none hd'.cached,?_⟩
    rw [length_map]
    exact h.count
  · rw [map_congr_left hs,map_id']
    exact h

end Network

/-- A regional failure or its end changes no flag, or no cached placement is in use. -/
def Stable (s : System) : Input → Prop
  | .regionFailure region =>
    s.net.CacheDead ∨ ∀ node ∈ s.net.nodes, node.region=region → node.evicted=true
  | .restoreRegion region =>
    s.net.CacheDead ∨ ∀ node ∈ s.net.nodes, node.region=region → node.evicted=false
  | _ => True

namespace System
open Network Relation
variable {hashBytes : Bytes → Bytes} {H : CanonicalHash} {order : ShardOrder}
  {s s' : System}

theorem Looks.keepsAnswers (h : Looks hashBytes s s') :
    KeepsAnswers hashBytes s.net s'.net := by
  obtain ⟨net,hs,rfl⟩ := h
  exact hs.keepsAnswers

theorem keepsAnswers_of_distributes {ttl : Option (ℤ × Option ℤ)} {entityId : String}
    {shards : List Bytes} {replicas : ℕ}
    (h : ReflTransGen (Distributes hashBytes ttl entityId shards replicas) s s') :
    KeepsAnswers hashBytes s.net s'.net := by
  induction h with
  | refl => exact Std.Refl.refl _
  | tail _ hst ih =>
    refine IsTrans.trans _ _ _ ih ?_
    cases hst with
    | look hl => exact hl.keepsAnswers
    | store hs hp hpl =>
      rw [storeReplica_net]
      exact keepsAnswers_storeAt _ _ _ _ _

theorem keepsAnswers_of_drops (h : ReflTransGen Drops s s') :
    KeepsAnswers hashBytes s.net s'.net := by
  induction h with
  | refl => exact Std.Refl.refl _
  | tail _ hs ih =>
    refine IsTrans.trans _ _ _ ih ?_
    cases hs
    exact keepsAnswers_dropAt _ _ _

variable (h : Maintained hashBytes s.net)
include h

theorem maintained_evict (place : ℕ) :
    Maintained hashBytes (s.evictNode order place).net := by
  rw [evictNode]
  split
  · exact h
  next node hn => exact maintained_evictNode order s.net place node

theorem maintained_step {input : Input} (hs : Stable s input) :
    Maintained hashBytes (s.step hashBytes H order input).1.net := by
  cases input with
  | addNode nodeId region => exact maintained_invalidate _
  | addExistingNode node ledger => exact maintained_invalidate _
  | registerNode nodeId region stake => exact h.registerNode nodeId region
  | setGeoFencePolicy policy => exact maintained_invalidate _
  | distribute entityId shards replicas =>
    exact h.of_keepsAnswers (keepsAnswers_of_distributes (keeps_distributeEncryptedShards s))
  | distributeWithTtl entityId shards epoch ttlEpochs replicas =>
    exact h.of_keepsAnswers
      (keepsAnswers_of_distributes (keeps_distributeEncryptedShardsWithTtl s))
  | record entityId n => exact h
  | fetch entityId n cap =>
    exact h.of_keepsAnswers (keeps_fetchEncryptedShards entityId n cap s).keepsAnswers
  | evictNode place => exact maintained_evict h place
  | regionFailure region =>
    refine h.setNodes (hs.imp_right fun hf node hm => ?_)
    refine if_neg fun hc => ?_
    simp [hf node hm hc.1] at hc
  | restoreRegion region =>
    refine h.setNodes (hs.imp_right fun hf node hm => ?_)
    refine if_neg fun hc => ?_
    simp [hf node hm hc.1] at hc
  | removeShard place key => exact h.of_keepsAnswers (keepsAnswers_removeShard s place key)
  | corrupt place key data => exact h.of_keepsAnswers (keepsAnswers_corrupt s place key data)
  | evictExpiredShards now =>
    exact h.of_keepsAnswers (keepsAnswers_of_drops (drops_evictExpiredShards s now))
  | submitRequest entityId requesterId epoch reason => exact h
  | executeDeletion requestId nodes epoch =>
    obtain ⟨dropped,deletions,hd,heq⟩ := drops_executeDeletion H s requestId nodes epoch
    have hk := h.of_keepsAnswers (keepsAnswers_of_drops hd)
    rw [step,heq]
    exact hk
  | audit place burst nonce =>
    obtain ⟨looked,ledger,hl,-,heq⟩ :=
      audit_eq hashBytes H order s place burst nonce
    rw [step,heq]
    exact h.of_keepsAnswers hl.keepsAnswers
  | autoEvict place =>
    rw [step,autoEvict,autoEvictIfNeeded]
    split_ifs
    · exact maintained_evict h place
    · exact h

end System

/-- In every state of a run whose regional failures find no cached placement in use, every
answer of the placement is the one of a fresh network and names no evicted node. -/
theorem placements_coherent (hashBytes : Bytes → Bytes) (H : CanonicalHash)
    (order : ShardOrder) (inputs : List Input)
    (hstable : (machine hashBytes H order).Meets Stable inputs) :
    Network.Coherent hashBytes ((machine hashBytes H order).state inputs).net := by
  have hs : Network.Maintained hashBytes System.init.net :=
    ⟨Network.coherent_of_cached_none (Network.CacheDead.cached (.inr rfl)),le_rfl⟩
  have hm := Machine.invariant_of_meets
    (P := fun s _ => Network.Maintained hashBytes s.net) hs
    (fun s _ input h hi => System.maintained_step h hi) inputs hstable
  exact hm.coherent

section

instance (s : System) (input : Input) : Decidable (Stable s input) := by
  cases input <;> unfold Stable <;> infer_instance

noncomputable abbrev network : Machine System Input Event :=
  machine (fun _ => []) emptyHash Network.someOrder

def quietRun : List Input :=
  [.addNode "n0" "eu",.regionFailure "eu",.restoreRegion "eu",.distribute "a" [[1]] 2,
    .evictNode 0,.regionFailure "eu"]

theorem quietRun_coherent : network.Meets Stable quietRun ∧
    Network.Coherent (fun _ => []) (network.state quietRun).net := by
  have hs : network.Meets Stable quietRun := by decide +kernel
  exact ⟨hs,placements_coherent _ _ _ quietRun hs⟩

def failedRun : List Input :=
  [.addNode "n0" "eu",.distribute "a" [[1]] 2,.regionFailure "eu"]

theorem failedRun_places_on_evicted :
    ¬Network.Coherent (fun _ => []) (network.state failedRun).net := by
  intro h
  have hp : (network.state failedRun).net.outcome (fun _ => []) "a" 0 2=.ok [0] := rfl
  obtain ⟨node,hn,ha⟩ := h.active "a" 0 2 [0] hp 0 (mem_singleton_self 0)
  have hf : (network.state failedRun).net.nodes[0]?.map CommitmentNode.evicted=some true := rfl
  rw [hn,Option.map_some,ha] at hf
  cases hf

end

end LatticeTransfer.ShardNetwork
