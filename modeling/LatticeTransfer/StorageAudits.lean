import LatticeTransfer.NetworkLifecycle

/-!
# Audits of honest nodes

`audit_node` challenges the shards that the reverse index names for a node. The distributions and
the repairs write the index together with the node; an expiry and a deletion take the shard and
leave the index. If the index names nothing the audit asks for what the placement names, which a
node that joined late was never given.
-/

namespace LatticeTransfer.ShardNetwork
open MerkleTree List

namespace Network
variable {place : ℕ} {net net' : Network} {dropped : Finset (ℕ × ShardKey)}

def Alone (net : Network) (place : ℕ) (nodeId : String) : Prop :=
  ∀ (p : ℕ) node, net.nodes[p]?=some node → node.nodeId=nodeId → p=place

structure Accounted (place : ℕ) (dropped : Finset (ℕ × ShardKey)) (net : Network) : Prop where
  known : ∀ nodeId keys, net.nodeShardIndex.get? nodeId=some keys →
    ∃ (p : ℕ) (node : CommitmentNode), net.nodes[p]?=some node ∧ node.nodeId=nodeId
  held : ∀ node, net.nodes[place]?=some node → node.evicted=false →
    net.Alone place node.nodeId → ∀ keys, net.nodeShardIndex.get? node.nodeId=some keys →
      ∀ key ∈ keys, net.shardAt place key≠none ∨ (place,key) ∈ dropped

def SameIds (net net' : Network) : Prop :=
  ∀ p : ℕ, net'.nodes[p]?.map CommitmentNode.nodeId=net.nodes[p]?.map CommitmentNode.nodeId

variable {p : ℕ} {node : CommitmentNode}

section
variable (h : SameIds net net')
include h

theorem SameIds.exists_node (hn : net.nodes[p]?=some node) :
    ∃ node', net'.nodes[p]?=some node' ∧ node'.nodeId=node.nodeId := by
  have hid := h p
  rw [hn] at hid
  exact Option.map_eq_some_iff.mp hid

theorem SameIds.symm : SameIds net' net := fun p => (h p).symm

theorem SameIds.alone {nodeId : String} (ha : net'.Alone place nodeId) :
    net.Alone place nodeId := by
  intro p node hn hid
  obtain ⟨node',hn',hid'⟩ := h.exists_node hn
  exact ha p node' hn' (hid'.trans hid)

end

theorem sameIds_of_profiles (h : SameProfiles net net') : SameIds net net' := by
  intro p
  have hp := congrArg (fun profiles => profiles[p]?.map Prod.fst) h.nodes
  simp only [getElem?_map,Option.map_map] at hp
  exact hp

section
variable {dropped' : Finset (ℕ × ShardKey)} (h : Accounted place dropped net)
include h

theorem Accounted.of_same (hids : SameIds net net')
    (hi : ∀ nodeId keys, net'.nodeShardIndex.get? nodeId=some keys →
      net.nodeShardIndex.get? nodeId=some keys)
    (hn : ∀ node', net'.nodes[place]?=some node' → node'.evicted=false →
      ∃ node, net.nodes[place]?=some node ∧ node.evicted=false)
    (hk : ∀ key, net.shardAt place key≠none ∨ (place,key) ∈ dropped →
      net'.shardAt place key≠none ∨ (place,key) ∈ dropped') : Accounted place dropped' net' := by
  refine ⟨fun nodeId keys hke => ?_,fun node' hn' ha' ha keys hke key hkey => ?_⟩
  · obtain ⟨p,node,hp,hid⟩ := h.known nodeId keys (hi nodeId keys hke)
    obtain ⟨node',hp',hid'⟩ := hids.exists_node hp
    exact ⟨p,node',hp',hid'.trans hid⟩
  · obtain ⟨node,hp,hac⟩ := hn node' hn' ha'
    obtain ⟨found,hf,hid⟩ := hids.exists_node hp
    cases hf.symm.trans hn'
    rw [hid] at ha hke
    exact hk key (h.held node hp hac (hids.alone ha) keys (hi _ _ hke) key hkey)

theorem Accounted.of_profiles (hp : SameProfiles net net')
    (hi : net'.nodeShardIndex=net.nodeShardIndex)
    (hk : ∀ key, net.shardAt place key≠none ∨ (place,key) ∈ dropped →
      net'.shardAt place key≠none ∨ (place,key) ∈ dropped') : Accounted place dropped' net' := by
  refine h.of_same (sameIds_of_profiles hp) (fun nodeId keys hke => hi ▸ hke)
    (fun node' hn' ha => ?_) hk
  have hpr := congrArg (fun profiles => profiles[place]?.map fun node => node.2.2)
    hp.nodes
  simp only [getElem?_map,Option.map_map,hn'] at hpr
  obtain ⟨node,hn,hf⟩ := Option.map_eq_some_iff.mp hpr.symm
  exact ⟨node,hn,hf.trans ha⟩

end

theorem get?_index_storeAt {id : String} {i : ℕ} {data : Bytes} {target : ℕ}
    (hn : net.nodes[target]?=some node) (nodeId : String) :
    (storeAt id i data net target).nodeShardIndex.get? nodeId =
      if node.nodeId=nodeId then
        some (insert (id,i) ((net.nodeShardIndex.get? node.nodeId).getD ∅))
      else net.nodeShardIndex.get? nodeId := by
  rw [storeAt,hn]
  exact Dict.get?_set _ _ _ _

theorem shardAt_storeAt_ne_none {stored key : ShardKey} {data : Bytes} {target : ℕ}
    (h : net.shardAt place key≠none) :
    (storeAt stored.1 stored.2 data net target).shardAt place key≠none := by
  by_cases ha : net.IsActive target
  · rw [shardAt_storeAt ha]
    split_ifs
    · simp
    · exact h
  · rwa [shardAt_storeAt_of_not_active ha]

theorem Accounted.storeAt (h : Accounted place dropped net) (key : ShardKey) (data : Bytes)
    (target : ℕ) : Accounted place dropped (storeAt key.1 key.2 data net target) := by
  have hpr := sameProfiles_storeAt key.1 key.2 data net target
  have hi := sameIds_of_profiles hpr
  cases ht : net.nodes[target]? with
  | none =>
    rw [Network.storeAt,ht]
    exact h
  | some stored =>
    refine ⟨fun nodeId keys hke => ?_,
      fun node' hn' ha' ha keys hke other ho => ?_⟩
    · rw [get?_index_storeAt ht] at hke
      split_ifs at hke with hid
      · obtain ⟨node',hn',hid'⟩ := hi.exists_node ht
        exact ⟨target,node',hn',hid'.trans hid⟩
      · obtain ⟨p,node,hp,hf⟩ := h.known nodeId keys hke
        obtain ⟨node',hp',hid'⟩ := hi.exists_node hp
        exact ⟨p,node',hp',hid'.trans hf⟩
    · obtain ⟨node,hn,hid⟩ := hi.symm.exists_node hn'
      have hs : (Network.storeAt key.1 key.2 data net target).IsActive place :=
        ⟨node',hn',ha'⟩
      have hac : net.IsActive place := isActive_storeAt.mp hs
      have he : node.evicted=false := by
        obtain ⟨found,hf,hfl⟩ := hac
        cases hf.symm.trans hn
        exact hfl
      rw [← hid] at ha hke
      have hh := h.held node hn he (hi.alone ha)
      rw [get?_index_storeAt ht] at hke
      split_ifs at hke with hsa
      · -- the store is at the node itself, which the identifier belongs to
        obtain rfl : target=place := hi.alone ha target stored ht hsa
        cases hke
        rcases Finset.mem_insert.mp ho with rfl|hol
        · refine .inl ?_
          rw [shardAt_storeAt hac,if_pos ⟨rfl,rfl⟩]
          exact Option.some_ne_none _
        · cases hk : net.nodeShardIndex.get? stored.nodeId with
          | none =>
            rw [hk] at hol
            cases hol
          | some known =>
            rw [hk] at hol
            exact (hh known (hsa ▸ hk) other hol).imp_left shardAt_storeAt_ne_none
      · exact (hh keys hke other ho).imp_left shardAt_storeAt_ne_none

theorem Accounted.markEvicted (h : Accounted place dropped net) (hn : net.nodes[p]?=some node)
    : Accounted place dropped (net.markEvicted p node) := by
  refine h.of_same (fun q => ?_) (fun _ _ hk => hk) (fun node' hn' ha => ?_)
    fun key hke => ?_
  · rw [getElem?_markEvicted hn]
    split_ifs with hq
    · rw [← hq,hn]
      rfl
    · rfl
  · rw [getElem?_markEvicted hn] at hn'
    split_ifs at hn' with hp
    · rw [← Option.some.inj hn'] at ha
      cases ha
    · exact ⟨node',hn',ha⟩
  · rwa [shardAt_markEvicted hn]

theorem Accounted.foldl_repairShard (state : Repair) (h : Accounted place dropped state.net)
    (keys : List ShardKey) : Accounted place dropped (keys.foldl (repairShard p) state).net := by
  induction keys generalizing state with
  | nil => exact h
  | cons key rest ih =>
    refine ih _ ?_
    rw [repairShard]
    split
    · exact h.storeAt key _ _
    · exact h

variable (h : Accounted place dropped net)
include h

theorem Accounted.evictNode (order : ShardOrder) (hn : net.nodes[p]?=some node) :
    Accounted place dropped (net.evictNode order p node).2 := by
  have hf := Accounted.foldl_repairShard (p := p) ⟨net.markEvicted p node,0,0⟩
    (h.markEvicted hn) (net.orphanedShards order node)
  refine hf.of_same (fun _ => rfl) (fun nodeId keys hk => ?_)
    (fun node' hn' ha => ⟨node',hn',ha⟩) fun key hke => hke
  have he := (Dict.get?_erase _ _ _).symm.trans hk
  split_ifs at he
  exact he

theorem Accounted.join (hn : net'.nodes=net.nodes++[node])
    (hi : net'.nodeShardIndex=net.nodeShardIndex ∨
      net'.nodeShardIndex=net.nodeShardIndex.set node.nodeId ∅) : Accounted place dropped net' := by
  have hol {p : ℕ} {found : CommitmentNode} (hf : net.nodes[p]?=some found) :
      net'.nodes[p]?=some found := by
    rw [hn,List.getElem?_append_left (List.getElem?_eq_some_iff.mp hf).1,hf]
  have hne : net'.nodes[net.nodes.length]?=some node := by
    rw [hn,List.getElem?_append_right le_rfl,Nat.sub_self]
    rfl
  have hg {nodeId : String} {keys : Finset ShardKey}
      (hk : net'.nodeShardIndex.get? nodeId=some keys) :
      net.nodeShardIndex.get? nodeId=some keys ∨ node.nodeId=nodeId ∧ keys=∅ := by
    rcases hi with heq|heq
    · exact .inl (heq ▸ hk)
    · rw [heq,Dict.get?_set] at hk
      split_ifs at hk with hid
      · exact .inr ⟨hid,(Option.some.inj hk).symm⟩
      · exact .inl hk
  refine ⟨fun nodeId keys hk => ?_,fun found hf ha hal keys hk key hke => ?_⟩
  · rcases hg hk with hk|⟨hid,-⟩
    · obtain ⟨p,found,hp,hid⟩ := h.known nodeId keys hk
      exact ⟨p,found,hol hp,hid⟩
    · exact ⟨_,node,hne,hid⟩
  · rcases hg hk with hk|⟨-,rfl⟩
    · obtain ⟨p,named,hp,hid⟩ := h.known _ keys hk
      -- the index names the identifier, so it belongs to a node that was there before
      obtain rfl := hal p named (hol hp) hid
      obtain rfl := Option.some.inj ((hol hp).symm.trans hf)
      have ha' : net.Alone p named.nodeId := fun q other hq ho =>
        hal q other (hol hq) ho
      have hs : net'.shardAt p key=net.shardAt p key := by rw [shardAt,shardAt,hol hp,hp]
      rw [hs]
      exact h.held named hp ha ha' keys hk key hke
    · cases hke

end Network

namespace System
open Network Relation
variable {hashBytes : Bytes → Bytes} {order : ShardOrder} {place : ℕ} {s s' : System}

/-- The shards that the index names for a node are there, or were taken. -/
def Accounted (place : ℕ) (s : System) : Prop := Network.Accounted place s.dropped s.net

theorem Accounted.looks (h : Accounted place s) (hl : Looks hashBytes s s') :
    Accounted place s' := by
  obtain ⟨net,hs,rfl⟩ := hl
  have hp : SameProfiles s.net net := ⟨by rw [hs.nodes],hs.fence⟩
  refine .of_profiles h hp hs.index fun key hk => ?_
  rwa [setNet,shardAt_of_nodes hs.nodes]

theorem storeReplica_dropped (ttl : Option (ℤ × Option ℤ)) (key : ShardKey) (data : Bytes)
    (s : System) (p : ℕ) : (storeReplica ttl key data s p).dropped=s.dropped := by
  rw [storeReplica]
  split_ifs <;> rfl

theorem mem_dropped_dropAt {gone : ShardKey → Bool} {p : ℕ} {key : ShardKey}
    (hg : gone key=true) (hs : s.net.shardAt p key≠none) : (p,key) ∈ (dropAt gone s p).dropped := by
  obtain ⟨data,hd⟩ := Option.ne_none_iff_exists'.mp hs
  obtain ⟨node,hn,hge⟩ := Option.bind_eq_some_iff.mp hd
  rw [dropAt,hn]
  have hk : key ∈ node.shards.keys := (node.shards.mem_keys_iff key).mpr ⟨data,hge⟩
  simp [hk,hg]

variable (gone : ShardKey → Bool)

theorem dropped_subset_dropAt (s : System) (p : ℕ) : s.dropped ⊆ (dropAt gone s p).dropped := by
  rw [dropAt]
  split
  · exact Finset.Subset.refl _
  · exact Finset.subset_union_left

theorem index_dropAt (s : System) (p : ℕ) :
    (dropAt gone s p).net.nodeShardIndex=s.net.nodeShardIndex := by
  rw [dropAt]
  split <;> rfl

variable (h : Accounted place s)
include h

theorem Accounted.dropAt (p : ℕ) : Accounted place (dropAt gone s p) := by
  have ha : KeepsAnswers id s.net (System.dropAt gone s p).net := keepsAnswers_dropAt gone s p
  refine .of_profiles h ha.profiles (index_dropAt gone s p) fun key => ?_
  intro hk
  rcases hk with hs|ht
  · rw [shardAt_dropAt]
    split_ifs with hg
    · obtain ⟨rfl,hg⟩ := hg
      exact .inr (mem_dropped_dropAt hg hs)
    · exact .inl hs
  · exact .inr (dropped_subset_dropAt gone s p ht)

theorem Accounted.setShards {p : ℕ} (hp : p≠place) {node : CommitmentNode}
    (hn : s.net.nodes[p]?=some node) (shards : Dict ShardKey Bytes) :
    Accounted place (s.setShards p node shards) := by
  refine .of_profiles h (sameProfiles_setShards s hn) rfl fun key hk => ?_
  have hs : (s.setShards p node shards).net.shardAt place key=s.net.shardAt place key :=
    (shardAt_setNode hn _).trans (if_neg hp)
  rwa [hs]

theorem Accounted.evictNode (order : ShardOrder) (p : ℕ) :
    Accounted place (s.evictNode order p) := by
  rw [System.evictNode]
  split
  · exact h
  next node hn => exact Network.Accounted.evictNode h order hn

end System

structure Ledger.Clean (ledger : Ledger) : Prop where
  strikes : ledger.strikes=0
  pendingSlashes : ledger.pendingSlashes=[]
  offenseHistory : ledger.offenseHistory=[]

namespace Ledger
variable {ledger : Ledger}

theorem clean_init (stake : Float) : (Ledger.init stake).Clean := ⟨rfl,rfl,rfl⟩

theorem Clean.recordTtl (h : ledger.Clean) (ttl : Option (ℤ × Option ℤ)) (key : ShardKey) :
    (ledger.recordTtl ttl key).Clean := by
  cases ttl with
  | none => exact h
  | some entry => exact ⟨h.strikes,h.pendingSlashes,h.offenseHistory⟩

theorem Clean.finalizePendingSlashes (h : ledger.Clean) : ledger.finalizePendingSlashes.Clean := by
  refine ⟨h.strikes,?_,h.offenseHistory⟩
  rw [Ledger.finalizePendingSlashes,h.pendingSlashes]
  rfl

end Ledger

namespace System
open Network Relation
variable {hashBytes : Bytes → Bytes} {H : CanonicalHash} {order : ShardOrder} {place : ℕ}
  {s s' : System}

variable {p : ℕ}

theorem clean_update {ledgers : ℕ → Ledger} (h : (ledgers place).Clean) {ledger : Ledger}
    (hl : p=place → ledger.Clean) : (Function.update ledgers p ledger place).Clean := by
  by_cases hp : p=place
  · subst hp
    rw [Function.update_self]
    exact hl rfl
  · rwa [Function.update_of_ne (Ne.symm hp)]

section
variable (h : (s.ledgers place).Clean)
include h

theorem clean_storeReplica (ttl : Option (ℤ × Option ℤ)) (key : ShardKey) (data : Bytes) (p : ℕ) :
    ((storeReplica ttl key data s p).ledgers place).Clean := by
  rw [storeReplica]
  split_ifs
  · refine clean_update h ?_
    rintro rfl
    exact h.recordTtl ttl key
  · exact h

theorem clean_dropAt (gone : ShardKey → Bool) (p : ℕ) :
    ((dropAt gone s p).ledgers place).Clean := by
  rw [dropAt]
  split
  · exact h
  · refine clean_update h ?_
    rintro rfl
    exact ⟨h.strikes,h.pendingSlashes,h.offenseHistory⟩

theorem clean_evictNode (order : ShardOrder) (p : ℕ) :
    ((s.evictNode order p).ledgers place).Clean := by
  rw [evictNode]
  split
  · exact h
  · refine clean_update h ?_
    rintro rfl
    exact h.finalizePendingSlashes

end

structure Blameless (place : ℕ) (s : System) : Prop where
  accounted : Accounted place s
  clean : (s.ledgers place).Clean

variable {node : CommitmentNode}

theorem Blameless.join (h : Blameless place s) (net : Network)
    (hn : net.nodes=s.net.nodes++[node]) (hi : net.nodeShardIndex=s.net.nodeShardIndex ∨
      net.nodeShardIndex=s.net.nodeShardIndex.set node.nodeId ∅) {ledger : Ledger}
    (hl : s.net.nodes.length=place → ledger.Clean) : Blameless place (s.join net ledger) :=
  ⟨.join h.accounted hn hi,clean_update h.clean hl⟩

theorem Blameless.looks (h : Blameless place s) (hl : Looks hashBytes s s') :
    Blameless place s' := by
  refine ⟨h.accounted.looks hl,?_⟩
  obtain ⟨net,-,rfl⟩ := hl
  exact h.clean

theorem Blameless.distributes {ttl : Option (ℤ × Option ℤ)} {id : String}
    {shards : List Bytes} {r : ℕ} (h : Blameless place s)
    (hs : ReflTransGen (Distributes hashBytes ttl id shards r) s s') :
    Blameless place s' := by
  induction hs with
  | refl => exact h
  | tail _ hst ih =>
    cases hst with
    | look hl => exact ih.looks hl
    | store hsh hp hpl =>
      refine ⟨?_,clean_storeReplica ih.clean _ _ _ _⟩
      rw [Accounted,storeReplica_net,storeReplica_dropped]
      exact .storeAt ih.accounted _ _ _

section
variable (h : Blameless place s)
include h

theorem Blameless.drops (hs : ReflTransGen Drops s s') : Blameless place s' := by
  induction hs with
  | refl => exact h
  | tail _ hst ih =>
    cases hst with
    | dropAt gone _ p => exact ⟨ih.accounted.dropAt gone p,clean_dropAt ih.clean gone p⟩

theorem Blameless.evictNode (order : ShardOrder) (p : ℕ) : Blameless place (s.evictNode order p) :=
  ⟨h.accounted.evictNode order p,clean_evictNode h.clean order p⟩

theorem Blameless.removeShard (hp : p≠place) (key : ShardKey) :
    Blameless place (s.removeShard p key) := by
  rw [System.removeShard]
  split
  · exact h
  next node hn => exact ⟨h.accounted.setShards hp hn _,h.clean⟩

theorem Blameless.corrupt (hp : p≠place) (key : ShardKey) (data : Bytes) :
    Blameless place (s.corrupt p key data) := by
  rw [System.corrupt]
  split
  · exact h
  next node hn =>
    split_ifs
    · exact ⟨h.accounted.setShards hp hn _,h.clean⟩
    · exact h

theorem Blameless.setFlags {change : CommitmentNode → CommitmentNode}
    (hid : ∀ node, (change node).nodeId=node.nodeId) (hs : ∀ node, (change node).shards=node.shards)
    (hf : ∀ node, s.net.nodes[place]?=some node → (change node).evicted=false →
      node.evicted=false) :
    Blameless place (s.setNet {s.net with nodes := s.net.nodes.map change}) := by
  refine ⟨.of_same h.accounted (fun p => ?_) (fun _ _ hk => hk)
    (fun node' hn' ha => ?_) fun key hke => ?_,h.clean⟩
  · rw [setNet,getElem?_map,Option.map_map]
    exact congrArg (fun f => Option.map f _) (funext hid)
  · rw [setNet,getElem?_map] at hn'
    obtain ⟨node,hn,rfl⟩ := Option.map_eq_some_iff.mp hn'
    exact ⟨node,hn,hf node hn ha⟩
  · rwa [setNet,shardAt_map hs]

end

def Provable (net : Network) (place : ℕ) (key : ShardKey) : Prop :=
  ∃ data, net.shardAt place key=some data ∧ ∀ p copy, net.copyAt p key=some copy → copy=data

variable {net : Network} {key : ShardKey}

theorem known_eq_of_provable {nonce data : Bytes}
    (hc : ∀ p copy, net.copyAt p key=some copy → copy=data) {good : String}
    (hg : getKnownGoodHash H net key nonce place=some good) :
    good=canonicalHash H (data++nonce) := by
  obtain ⟨⟨other,p⟩,hm,ha⟩ := exists_of_findSome?_eq_some hg
  have ho := mk_mem_zipIdx_iff_getElem?.mp hm
  rw [respondToAudit] at ha
  split_ifs at ha with hs he
  obtain ⟨copy,hco,rfl⟩ := Option.map_eq_some_iff.mp ha
  have hf : net.copyAt p key=some copy := by
    rw [copyAt,ho,Option.bind_some,CommitmentNode.fetchShard,if_neg he]
    exact hco
  rw [hc p copy hf]

theorem failed_challenge (hn : net.nodes[place]?=some node) (ha : node.evicted=false)
    (hke : Provable net place key) (counts : Tally) (nonce : Bytes) :
    (challenge H net place node key counts nonce).failed=counts.failed := by
  obtain ⟨data,hd,hc⟩ := hke
  rw [shardAt,hn] at hd
  have hr : respondToAudit H node key nonce=some (canonicalHash H (data++nonce)) := by
    rw [respondToAudit,ha]
    exact congrArg (Option.map _) hd
  have hg : (getKnownGoodHash H net key nonce place).all
      (canonicalHash H (data++nonce) = ·)=true := by
    cases hk : getKnownGoodHash H net key nonce place with
    | none => rfl
    | some good => exact decide_eq_true (known_eq_of_provable hc hk).symm
  simp [challenge,hr,hg]

theorem failed_foldl {α : Type} {ask : Tally → α → Tally} (asked : List α)
    (h : ∀ counts, ∀ a ∈ asked, (ask counts a).failed=counts.failed) (counts : Tally) :
    (asked.foldl ask counts).failed=counts.failed := by
  induction asked generalizing counts with
  | nil => rfl
  | cons a rest ih =>
    rw [foldl_cons,ih (fun counts b hb => h counts b (mem_cons_of_mem a hb))]
    exact h counts a mem_cons_self

theorem failed_tally (hn : net.nodes[place]?=some node) (ha : node.evicted=false)
    (burst : ℕ) (nonce : ShardKey → ℕ → Bytes) {challenges : List ShardKey}
    (h : ∀ key ∈ challenges, Provable net place key) :
    (tally H net place node burst nonce challenges).failed=0 := by
  refine failed_foldl challenges (fun counts key hk => ?_) _
  exact failed_foldl _ (fun counts _ _ => failed_challenge hn ha (h key hk) counts _) _

theorem settleAudit_of_no_failure (s : System) (node : CommitmentNode) {counts : Tally}
    (h : counts.failed=0) (hc : (s.ledgers place).Clean) :
    (s.settleAudit place node counts).1=.pass ∧
      ((s.settleAudit place node counts).2.ledgers place).Clean := by
  rw [settleAudit]
  split_ifs with hn hf
  · exact ⟨rfl,hc⟩
  · exact absurd h hf.ne'
  · refine ⟨rfl,clean_update hc fun _ => ⟨?_,hc.pendingSlashes,hc.offenseHistory⟩⟩
    rw [hc.strikes]

theorem scanLog_placed (keys : List ShardKey) {s s1 : System} {found : List ShardKey}
    (he : (scanLog hashBytes place keys).exec s=(.ok found,s1)) :
    ∀ key ∈ found, key ∈ keys ∧ ∃ targets,
      s.net.outcome hashBytes key.1 key.2 2=.ok targets ∧ place ∈ targets := by
  induction keys generalizing s found s1 with
  | nil =>
    obtain ⟨hf,-⟩ := Prod.mk.inj he
    cases hf
    intro key hk
    cases hk
  | cons key rest ih =>
    obtain ⟨targets,s2,hp,hre⟩ := Method.exec_bind_ok he
    obtain ⟨more,s3,hm,hr⟩ := Method.exec_bind_ok hre
    obtain ⟨net,hn,rfl⟩ := Method.exec_on_ok hp
    obtain ⟨ho,hs⟩ := placement_exec hashBytes key.1 key.2 2 s.net
    rw [hn] at ho hs
    have hl (other : ShardKey) (hot : other ∈ more) : other ∈ key::rest ∧ ∃ targets,
        s.net.outcome hashBytes other.1 other.2 2=.ok targets ∧ place ∈ targets := by
      obtain ⟨hme,targets,ht,hpl⟩ := ih hm other hot
      rw [setNet,hs.outcome] at ht
      exact ⟨mem_cons_of_mem key hme,targets,ht,hpl⟩
    have hf := Except.ok.inj (Prod.mk.inj hr).1
    split_ifs at hf with hpl
    · subst hf
      intro other hot
      rcases mem_cons.mp hot with rfl|hot
      · exact ⟨mem_cons_self,targets,ho.symm,hpl⟩
      · exact hl other hot
    · subst hf
      exact hl

theorem shardList_exec_of_known {known : Finset ShardKey}
    (hk : s.net.nodeShardIndex.get? node.nodeId=some known) (hne : known≠∅) :
    (shardList hashBytes order place node).exec s=(.ok (order.toList known),s) := by
  rw [shardList,Method.exec_bind,Method.exec_get]
  dsimp only
  rw [hk,Option.getD_some,if_neg hne]
  rfl

theorem shardList_exec_of_unknown (hk : (s.net.nodeShardIndex.get? node.nodeId).getD ∅ = ∅) :
    (shardList hashBytes order place node).exec s =
      (scanLog hashBytes place s.loggedShards).exec s := by
  rw [shardList,Method.exec_bind,Method.exec_get]
  dsimp only
  rw [if_pos hk]

/-- When an audit asks a node only for what it has: it is active under an identifier of its own,
what was taken from it has been stored again, no active node has other bytes for a shard of it,
and if the index names nothing for it then it stores what the placement has on it. -/
structure Auditable (hashBytes : Bytes → Bytes) (s : System) (place : ℕ)
    (node : CommitmentNode) : Prop where
  active : node.evicted=false
  alone : s.net.Alone place node.nodeId
  restored : ∀ key, (place,key) ∈ s.dropped → s.net.shardAt place key≠none
  agree : ∀ key data, s.net.shardAt place key=some data →
    ∀ p copy, s.net.copyAt p key=some copy → copy=data
  placed : (s.net.nodeShardIndex.get? node.nodeId).getD ∅ = ∅ → ∀ key ∈ s.loggedShards,
    ∀ targets, s.net.outcome hashBytes key.1 key.2 2=.ok targets → place ∈ targets →
      s.net.shardAt place key≠none

theorem Auditable.provable (h : Auditable hashBytes s place node)
    (hs : s.net.shardAt place key≠none) : Provable s.net place key := by
  obtain ⟨data,hd⟩ := Option.ne_none_iff_exists'.mp hs
  exact ⟨data,hd,h.agree key data hd⟩

theorem shardList_provable (hn : s.net.nodes[place]?=some node)
    (ha : Accounted place s) (h : Auditable hashBytes s place node)
    {challenges : List ShardKey}
    (he : (shardList hashBytes order place node).exec s=(.ok challenges,s')) :
    ∀ key ∈ challenges, Provable s.net place key := by
  intro key hke
  by_cases hno : (s.net.nodeShardIndex.get? node.nodeId).getD ∅ = ∅
  · rw [shardList_exec_of_unknown hno] at he
    obtain ⟨hl,targets,ht,hp⟩ := scanLog_placed _ he key hke
    exact h.provable (h.placed hno key hl targets ht hp)
  · cases hk : s.net.nodeShardIndex.get? node.nodeId with
    | none => exact absurd (by rw [hk]; rfl) hno
    | some known =>
      rw [hk] at hno
      rw [shardList_exec_of_known hk hno] at he
      obtain rfl := Except.ok.inj (Prod.mk.inj he).1
      rw [order.mem_toList] at hke
      rcases ha.held node hn h.active h.alone known hk key hke with hs|hta
      · exact h.provable hs
      · exact h.provable (h.restored key hta)

end System

/-- The node keeps its shards; shards leave it only by an expiry or a deletion. -/
def Input.Honest (place : ℕ) : Input → Prop
  | .removeShard p _ => p≠place
  | .corrupt p _ _ => p≠place
  | _ => True

def Fair (hashBytes : Bytes → Bytes) (place : ℕ) (s : System) : Input → Prop
  | .audit p _ _ => p=place → ∀ node, s.net.nodes[place]?=some node →
      s.Auditable hashBytes place node
  | .restoreRegion region => ∀ node, s.net.nodes[place]?=some node → node.region=region →
      node.evicted=false
  | .addExistingNode _ ledger => s.net.nodes.length=place → ledger.Clean
  | _ => True

def Event.Spares (place : ℕ) : Event → Prop
  | .audited p result => p=place → result.result=.pass
  | .autoEvicted p => p≠place

/-- No strike, no escrow and no offense, and no audit failed or evicted the node. -/
def Unpunished (place : ℕ) (s : System) (events : List Event) : Prop :=
  (s.ledgers place).Clean ∧ ∀ event ∈ events, event.Spares place

namespace System
open Network
variable {hashBytes : Bytes → Bytes} {H : CanonicalHash} {order : ShardOrder} {place : ℕ}
  {s : System}

theorem audit_of_exec {node : CommitmentNode} {burst : ℕ} {nonce : ShardKey → ℕ → Bytes}
    {challenges : List ShardKey} {s1 : System} (hn : s.net.nodes[place]?=some node)
    (he : (shardList hashBytes order place node).exec s=(.ok challenges,s1)) :
    s.audit hashBytes H order place burst nonce =
      let counts := tally H s1.net place node burst nonce challenges
      let settled := s1.settleAudit place node counts
      (settled.2,[.audited place
        ⟨node.nodeId,counts,burst,settled.1,(settled.2.ledgers place).strikes⟩]) := by
  rw [audit,hn]
  dsimp only
  rw [auditNode_exec,he]

variable (h : Blameless place s)
include h

theorem Blameless.audit_other {p : ℕ} (hp : p≠place) (burst : ℕ) (nonce : ShardKey → ℕ → Bytes) :
    Blameless place (s.audit hashBytes H order p burst nonce).1 ∧
      ∀ event ∈ (s.audit hashBytes H order p burst nonce).2, event.Spares place := by
  constructor
  · obtain ⟨looked,ledger,hl,-,heq⟩ :=
      audit_eq hashBytes H order s p burst nonce
    rw [heq]
    have hlo := h.looks hl
    exact ⟨hlo.accounted,clean_update hlo.clean fun hs => absurd hs hp⟩
  · rw [audit]
    intro event he
    split at he
    · cases he
    · split at he
      · obtain rfl := mem_singleton.mp he
        exact fun hs => absurd hs hp
      · cases he

theorem Blameless.audit_self (hfa : ∀ node, s.net.nodes[place]?=some node →
      s.Auditable hashBytes place node) (burst : ℕ) (nonce : ShardKey → ℕ → Bytes) :
    Blameless place (s.audit hashBytes H order place burst nonce).1 ∧
      ∀ event ∈ (s.audit hashBytes H order place burst nonce).2, event.Spares place := by
  cases hn : s.net.nodes[place]? with
  | none =>
    rw [audit,hn]
    exact ⟨h,fun event he => by cases he⟩
  | some node =>
    have ha := hfa node hn
    have hl : Looks hashBytes s
        ((shardList hashBytes order place node).exec s).2 := keeps_shardList place node s
    have hlo := h.looks hl
    rcases hex : (shardList hashBytes order place node).exec s with ⟨e|challenges,s1⟩
    · rw [hex] at hlo
      rw [audit,hn]
      dsimp only
      rw [auditNode_exec,hex]
      exact ⟨hlo,fun event he => by cases he⟩
    · rw [hex] at hl hlo
      obtain ⟨net,hsa,rfl⟩ := hl
      have hp := shardList_provable hn h.accounted ha hex
      have hf : (tally H net place node burst nonce challenges).failed=0 := by
        refine failed_tally (hsa.nodes ▸ hn) ha.active burst nonce fun key hk => ?_
        obtain ⟨data,hd,hc⟩ := hp key hk
        refine ⟨data,(shardAt_of_nodes hsa.nodes place key).trans hd,fun p copy hco => ?_⟩
        rw [copyAt,hsa.nodes] at hco
        exact hc p copy hco
      obtain ⟨hpa,hcl⟩ := settleAudit_of_no_failure (s.setNet net) node hf hlo.clean
      obtain ⟨ledger,hle,-⟩ := settleAudit_eq (s.setNet net) place node
        (tally H net place node burst nonce challenges)
      rw [audit_of_exec hn hex]
      refine ⟨⟨?_,hcl⟩,fun event he => ?_⟩
      · have hs : Accounted place ((s.setNet net).setLedger place ledger) :=
          hlo.accounted
        rw [← hle] at hs
        exact hs
      · obtain rfl := mem_singleton.mp he
        exact fun _ => hpa

theorem Blameless.autoEvict (p : ℕ) : Blameless place (s.autoEvict order p).1 ∧
      ∀ event ∈ (s.autoEvict order p).2, event.Spares place := by
  rw [System.autoEvict,autoEvictIfNeeded]
  split_ifs with hn
  · refine ⟨h.evictNode order p,fun event he => ?_⟩
    obtain rfl := mem_singleton.mp he
    rintro rfl
    have hs := hn.2
    rw [h.clean.strikes,strikeThreshold] at hs
    omega
  · exact ⟨h,fun event he => by cases he⟩

theorem Blameless.step {input : Input} (hh : input.Honest place)
    (hf : Fair hashBytes place s input) :
    Blameless place (s.step hashBytes H order input).1 ∧
      ∀ event ∈ (s.step hashBytes H order input).2, event.Spares place := by
  have hq {s' : System} (h' : Blameless place s') :
      Blameless place s' ∧ ∀ event ∈ ([] : List Event), event.Spares place :=
    ⟨h',fun event he => by cases he⟩
  cases input with
  | addNode nodeId region =>
    exact hq (h.join (s.net.addNode nodeId region) rfl (.inr rfl) fun _ => Ledger.clean_init 0)
  | addExistingNode node ledger =>
    exact hq (h.join (s.net.addExistingNode node) rfl (.inr rfl) hf)
  | registerNode nodeId region stake =>
    exact hq (h.join (s.net.registerNode nodeId region) rfl (.inl rfl)
      fun _ => Ledger.clean_init stake)
  | setGeoFencePolicy policy =>
    exact hq ⟨.of_same h.accounted (fun _ => rfl) (fun _ _ hk => hk)
      (fun node hn ha => ⟨node,hn,ha⟩) fun _ hke => hke,h.clean⟩
  | distribute id shards r =>
    exact hq (h.distributes (keeps_distributeEncryptedShards s))
  | distributeWithTtl id shards epoch ttlEpochs r =>
    exact hq (h.distributes (keeps_distributeEncryptedShardsWithTtl s))
  | record id n => exact hq ⟨h.accounted,h.clean⟩
  | fetch id n cap =>
    exact hq (h.looks (keeps_fetchEncryptedShards id n cap s))
  | evictNode p => exact hq (h.evictNode order p)
  | regionFailure region =>
    refine hq (h.setFlags (fun node => ?_) (fun node => ?_) fun node _ ha => ?_)
    · split_ifs <;> rfl
    · split_ifs <;> rfl
    · split_ifs at ha
      exact ha
  | restoreRegion region =>
    refine hq (h.setFlags (fun node => ?_) (fun node => ?_) fun node hn ha => ?_)
    · split_ifs <;> rfl
    · split_ifs <;> rfl
    · split_ifs at ha with hr
      · exact hf node hn hr.1
      · exact ha
  | removeShard p key => exact hq (h.removeShard hh key)
  | corrupt p key data => exact hq (h.corrupt hh key data)
  | evictExpiredShards now =>
    exact hq (h.drops (drops_evictExpiredShards s now))
  | submitRequest id requesterId epoch reason => exact hq ⟨h.accounted,h.clean⟩
  | executeDeletion requestId nodes epoch =>
    obtain ⟨dropped,deletions,hd,heq⟩ := drops_executeDeletion H s requestId nodes epoch
    have hdr := h.drops hd
    rw [System.step,heq]
    exact hq ⟨hdr.accounted,hdr.clean⟩
  | audit p burst nonce =>
    by_cases hp : p=place
    · subst hp
      exact h.audit_self (hf rfl) burst nonce
    · exact h.audit_other hp burst nonce
  | autoEvict p => exact h.autoEvict p

end System

section
open Network (holding shard)

noncomputable abbrev auditing : Machine System Input Event :=
  machine id emptyHash Network.someOrder

def leasedRun : List Input :=
  [.addNode "n0" "eu",.addNode "n1" "eu",.distributeWithTtl "a" [[1]] 0 (some 5) 2]

def auditedRun : List Input :=
  leasedRun++[.evictExpiredShards 4,.audit 0 1 fun _ _ => []]

theorem leasedRun_auditable : (auditing.state (leasedRun++[.evictExpiredShards 4])).Auditable id
    0 (holding "n0" shard) where
  active := rfl
  alone p node hn hid := by
    match p with
    | 0 => rfl
    | 1 =>
      cases hn
      exact absurd hid (by decide)
    | p+2 => cases hn
  restored key ht := by cases ht
  agree key data hd p copy hc := by
    match p with
    | 0 => exact Option.some.inj (hc.symm.trans hd)
    | 1 => exact Option.some.inj (hc.symm.trans hd)
    | p+2 => cases hc
  placed hno := by
    have hk : ((auditing.state (leasedRun++[.evictExpiredShards 4])).net.nodeShardIndex.get?
        (holding "n0" shard).nodeId).getD ∅ ≠ ∅ := by decide +kernel
    exact absurd hno hk

def expiredRun : List Input := leasedRun++[.evictExpiredShards 5]

end

end LatticeTransfer.ShardNetwork
