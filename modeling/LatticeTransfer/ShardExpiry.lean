import LatticeTransfer.NetworkLifecycle

/-!
# The TTL of replicas

The metadata of a shard lies beside the shard: `store_shard` and `remove_shard` do not touch it,
a repair copies the shard without it, and evicted nodes are passed over by
`evict_expired_shards`. `Tracked` says that the metadata of every stored replica ends when the
commitment of the replica does, and `Careful` collects when a step keeps it so.
-/

namespace LatticeTransfer.ShardNetwork
open MerkleTree List Function

namespace System
open Network Relation

/-- The metadata of every stored replica ends with the commitment of the replica. -/
def Tracks (ledgers : ℕ → Ledger) (net : Network) (committed : Commitments) : Prop :=
  ∀ place key, net.shardAt place key≠none → (ledgers place).expiry key=committed place key

def Tracked (s : System) : Prop := Tracks s.ledgers s.net s.committed

section
variable {s : System} {place p : ℕ} {key : ShardKey} {gone : ShardKey → Bool}

theorem expiry_filter (ledger : Ledger) (gone : ShardKey → Bool) (key : ShardKey) :
    Ledger.expiry {ledger with shardTtl := ledger.shardTtl.filter fun key _ => !gone key} key =
      if gone key then none else ledger.expiry key := by
  rw [Ledger.expiry,Dict.get?_filter_keys]
  cases gone key <;> rfl

theorem expiry_dropAt (hk : ¬(place=p ∧ gone key=true)) :
    ((dropAt gone s place).ledgers p).expiry key=(s.ledgers p).expiry key := by
  by_cases hp : place=p
  · subst hp
    rw [dropAt]
    split
    · rfl
    · have hl := update_self place ({s.ledgers place with
        shardTtl := (s.ledgers place).shardTtl.filter fun key _ => !gone key}) s.ledgers
      refine (congrArg (Ledger.expiry · key) hl).trans ?_
      rw [expiry_filter,if_neg fun hg => hk ⟨rfl,hg⟩]
  · rw [ledgers_dropAt_of_ne hp]

theorem committed_dropAt (gone : ShardKey → Bool) (s : System) (place : ℕ) :
    (dropAt gone s place).committed=s.committed := by
  rw [dropAt]
  split <;> rfl

theorem Tracked.dropAt (h : Tracked s) (gone : ShardKey → Bool) (place : ℕ) :
    Tracked (dropAt gone s place) := by
  intro p key hs
  rw [shardAt_dropAt] at hs
  split_ifs at hs with hg
  · exact absurd rfl hs
  · rw [expiry_dropAt hg,committed_dropAt]
    exact h p key hs

theorem tracked_of_drops {s' : System} (h : Tracked s) (hd : ReflTransGen Drops s s') :
    Tracked s' := by
  induction hd with
  | refl => exact h
  | tail _ hs ih =>
    cases hs
    exact ih.dropAt _ _

theorem shardAt_foldl_expireAt {places : List ℕ} (hn : places.Nodup) (epoch : ℤ)
    (s : System) (p : ℕ) (key : ShardKey) :
    (places.foldl (expireAt epoch) s).net.shardAt p key =
      if p ∈ places ∧ (s.ledgers p).isShardExpired key epoch then none
      else s.net.shardAt p key := by
  induction places generalizing s with
  | nil => simp
  | cons place places ih =>
    obtain ⟨hpl,hr⟩ := nodup_cons.mp hn
    rw [foldl_cons,ih hr,expireAt,shardAt_dropAt]
    by_cases hp : place=p
    · subst hp
      simp [hpl]
    · rw [ledgers_dropAt_of_ne hp]
      simp [hp,Ne.symm hp]

end

section
variable {s : System} {place : ℕ}

theorem any_active_iff : s.net.nodes[place]?.any (!·.evicted)=true ↔ s.net.IsActive place := by
  rw [IsActive]
  cases s.net.nodes[place]? with
  | none => simp
  | some node => simp

theorem expiry_recordTtl (ledger : Ledger) (ttl : Option (ℤ × Option ℤ)) (key other : ShardKey)
    (hc : ttl=none → ledger.expiry key=none) :
    (ledger.recordTtl ttl key).expiry other =
      if key=other then ttl.bind (fun entry => entry.2.map (entry.1 + ·))
      else ledger.expiry other := by
  cases ttl with
  | none =>
    split_ifs with hk
    · exact hk ▸ hc rfl
    · rfl
  | some entry =>
    rw [Ledger.recordTtl,Ledger.expiry,Dict.get?_set]
    split_ifs <;> rfl

theorem Tracks.store {ledgers ledgers' : ℕ → Ledger} {net net' : Network} {committed : Commitments}
    (h : Tracks ledgers net committed) {key : ShardKey} {ends : Option ℤ}
    (hn : (ledgers' place).expiry key=ends) (ho : ∀ p other, ¬(place=p ∧ key=other) →
      net'.shardAt p other=net.shardAt p other ∧
        (ledgers' p).expiry other=(ledgers p).expiry other) :
    Tracks ledgers' net' (committed.set place key ends) := by
  intro p other hs
  rw [Commitments.set]
  split_ifs with hsa
  · obtain ⟨rfl,rfl⟩ := hsa
    exact hn
  · obtain ⟨hsh,he⟩ := ho p other hsa
    rw [he]
    exact h p other (hsh ▸ hs)

theorem Tracked.storeReplica (h : Tracked s) {ttl : Option (ℤ × Option ℤ)} {key : ShardKey}
    (hc : ttl=none → (s.ledgers place).expiry key=none) (data : Bytes) :
    Tracked (storeReplica ttl key data s place) := by
  rw [System.storeReplica]
  split_ifs with ha
  · rw [any_active_iff] at ha
    refine .store h ?_ fun p other hne => ⟨?_,?_⟩
    · dsimp only
      rw [update_self,expiry_recordTtl _ _ _ _ hc,if_pos rfl]
    · rw [setNet,shardAt_storeAt ha,if_neg hne]
    · dsimp only
      by_cases hp : p=place
      · subst hp
        have hk : key≠other := fun hk => hne ⟨rfl,hk⟩
        rw [update_self,expiry_recordTtl _ _ _ _ hc,if_neg hk]
      · rw [update_of_ne hp]
  · rw [any_active_iff] at ha
    intro p other hs
    refine h p other ?_
    rwa [setNet,shardAt_storeAt_of_not_active ha] at hs

theorem storeReplica_expiry (key other : ShardKey) (data : Bytes) (s : System) (place p : ℕ) :
    ((storeReplica none key data s place).ledgers p).expiry other=(s.ledgers p).expiry other := by
  rw [storeReplica]
  split_ifs
  · exact congrArg (fun ledgers => (ledgers p).expiry other)
      (update_eq_self place s.ledgers)
  · rfl

end

section
variable {hashBytes : Bytes → Bytes} {ttl : Option (ℤ × Option ℤ)} {id : String}
  {shards : List Bytes} {r : ℕ} {s s' : System}

/-- The nodes that get a shard have no metadata that would end it. -/
def Clear (hashBytes : Bytes → Bytes) (s : System) (entityId : String)
    (shards : List Bytes) (replicas : ℕ) : Prop :=
  ∀ i<shards.length, ∀ places, s.net.outcome hashBytes entityId i replicas=.ok places →
    ∀ place ∈ places, (s.ledgers place).expiry (entityId,i)=none

theorem tracked_of_distributes (h : Tracked s)
    (hc : ttl=none → Clear hashBytes s id shards r)
    (hs : ReflTransGen (Distributes hashBytes ttl id shards r) s s') :
    Tracked s' ∧ (ttl=none → Clear hashBytes s' id shards r) := by
  induction hs with
  | refl => exact ⟨h,hc⟩
  | tail _ hste ih =>
    obtain ⟨ht,hc⟩ := ih
    cases hste with
    | look hl =>
      obtain ⟨net,hsa,rfl⟩ := hl
      refine ⟨fun p key hst => ht p key ?_,fun htt i hi places hp => ?_⟩
      · rwa [setNet,shardAt_of_nodes hsa.nodes] at hst
      · exact hc htt i hi places ((hsa.outcome _ _ _).symm.trans hp)
    | store hsh hp hpl =>
      have hi := (List.getElem?_eq_some_iff.mp hsh).1
      refine ⟨ht.storeReplica (fun htt => hc htt _ hi _ hp _ hpl) _,?_⟩
      rintro rfl j hj places ho place hm
      rw [storeReplica_expiry]
      rw [storeReplica_net,(keepsAnswers_storeAt _ _ _ _ _).outcome] at ho
      exact hc rfl j hj places ho place hm

end

section
variable {place : ℕ} {key : ShardKey}

/-- A shard that is copied ends on every node that may hold the source and on every node that
may get the copy at the same time. -/
def Copyable (ledgers : ℕ → Ledger) (net : Network) (place : ℕ) (key : ShardKey) : Prop :=
  ∀ holder other, holder≠place → other≠place → net.copyAt holder key≠none →
    net.IsActive other → net.copyAt other key=none →
      (ledgers holder).expiry key=(ledgers other).expiry key

theorem exists_source {net : Network} (h : net.HasCopy place key) :
    ∃ origin, source net place key=some origin ∧ origin≠place ∧ net.copyAt origin key≠none := by
  obtain ⟨holder,hh,hc⟩ := h
  obtain ⟨data,hd⟩ := Option.ne_none_iff_exists'.mp hc
  obtain ⟨node,hn,ha⟩ := isActive_of_copyAt hd
  cases hfi : source net place key with
  | none =>
    have hal := find?_eq_none.mp (Option.map_eq_none_iff.mp hfi) (node,holder)
      (mk_mem_zipIdx_iff_getElem?.mpr hn)
    rw [copyAt,hn] at hd
    have hf : node.fetchShard key.1 key.2=some data := hd
    simp [hh,ha,hf] at hal
  | some origin =>
    obtain ⟨⟨found,index⟩,hfo,rfl⟩ := Option.map_eq_some_iff.mp hfi
    have hm := mk_mem_zipIdx_iff_getElem?.mp (mem_of_find?_eq_some hfo)
    have ht := find?_some hfo
    simp only [decide_eq_true_eq] at ht
    refine ⟨index,rfl,ht.1,?_⟩
    rw [copyAt,hm]
    exact Option.isSome_iff_ne_none.mp ht.2.2

variable {ledgers : ℕ → Ledger}

theorem tracks_repairCommitted {state : Repair × Commitments}
    (h : Tracks ledgers state.1.net state.2) (hc : Copyable ledgers state.1.net place key) :
    Tracks ledgers (repairCommitted place state key).1.net (repairCommitted place state key).2 := by
  rw [repairCommitted,repairShard]
  cases hp : state.1.net.repairPlan place key with
  | none => exact h
  | some plan =>
    obtain ⟨data,target⟩ := plan
    obtain ⟨⟨holder,hh,hco⟩,ht⟩ := repairPlan_eq_some hp
    obtain ⟨hta,ha,hl⟩ := findTarget_eq_some ht
    obtain ⟨origin,ho,hor,hhe⟩ :=
      exists_source ⟨holder,hh,Option.ne_none_iff_exists'.mpr ⟨data,hco⟩⟩
    obtain ⟨original,hori⟩ := Option.ne_none_iff_exists'.mp hhe
    have hs : (ledgers origin).expiry key=state.2 origin key :=
      h origin key (by simp [shardAt_of_copyAt hori])
    rw [ho]
    refine .store h ?_ fun p other hne => ⟨?_,rfl⟩
    · rw [← hs]
      exact (hc origin target hor hta hhe ha hl).symm
    · rw [shardAt_storeAt ha,if_neg hne]

theorem Copyable.of_repaired {net net' : Network} {repaired : ShardKey}
    (h : Copyable ledgers net place key) (hr : Repaired place repaired net net')
    (hne : key≠repaired) : Copyable ledgers net' place key := by
  intro holder other hh ho hhe ha hl
  rw [hr.others _ _ hne] at hhe hl
  rw [hr.active] at ha
  exact h holder other hh ho hhe ha hl

theorem tracks_foldl_repairCommitted {keys : List ShardKey} (hn : keys.Nodup)
    (state : Repair × Commitments) (h : Tracks ledgers state.1.net state.2)
    (hc : ∀ key ∈ keys, Copyable ledgers state.1.net place key) :
    Tracks ledgers (keys.foldl (repairCommitted place) state).1.net
      (keys.foldl (repairCommitted place) state).2 := by
  induction keys generalizing state with
  | nil => exact h
  | cons key rest ih =>
    obtain ⟨hk,hr⟩ := nodup_cons.mp hn
    refine ih hr _ (tracks_repairCommitted h (hc key mem_cons_self)) ?_
    intro other ho
    have hne : other≠key := fun heq => hk (heq ▸ ho)
    exact (hc other (mem_cons_of_mem _ ho)).of_repaired
      (repaired_repairShard place state.1 key) hne

theorem foldl_repairCommitted_fst (place : ℕ) (keys : List ShardKey)
    (state : Repair × Commitments) :
    (keys.foldl (repairCommitted place) state).1=keys.foldl (repairShard place) state.1 := by
  induction keys generalizing state with
  | nil => rfl
  | cons key rest ih => exact ih _

theorem Tracked.evictNode {s : System} (h : Tracked s) (order : ShardOrder)
    (hc : ∀ node, s.net.nodes[place]?=some node →
      ∀ key ∈ s.net.orphanedShards order node, Copyable s.ledgers s.net place key) :
    Tracked (s.evictNode order place) := by
  rw [System.evictNode]
  split
  · exact h
  next node hn =>
    have hs : Tracks s.ledgers (s.net.markEvicted place node) s.committed := by
      intro p key hst
      rw [shardAt_markEvicted hn] at hst
      exact h p key hst
    have hm (key : ShardKey) (hk : key ∈ s.net.orphanedShards order node) :
        Copyable s.ledgers (s.net.markEvicted place node) place key := by
      intro holder other hh ho hhe ha hl
      rw [copyAt_markEvicted hn,if_neg hh.symm] at hhe
      rw [isActive_markEvicted hn ho] at ha
      rw [copyAt_markEvicted hn,if_neg ho.symm] at hl
      exact hc node hn key hk holder other hh ho hhe ha hl
    have hf := tracks_foldl_repairCommitted (nodup_orphanedShards order)
      (⟨s.net.markEvicted place node,0,0⟩,s.committed) hs hm
    rw [foldl_repairCommitted_fst] at hf
    intro p key hst
    have he : ((update s.ledgers place (s.ledgers place).finalizePendingSlashes) p
        ).expiry key=(s.ledgers p).expiry key := by
      by_cases hp : p=place
      · subst hp
        rw [update_self]
        rfl
      · rw [update_of_ne hp]
    exact he.trans (hf p key hst)

end

section
variable {hashBytes : Bytes → Bytes} {s : System}

theorem Tracked.of_same {s' : System} (h : Tracked s)
    (hs : ∀ p key, s'.net.shardAt p key≠none → s.net.shardAt p key≠none)
    (he : ∀ p key, (s'.ledgers p).expiry key=(s.ledgers p).expiry key)
    (hc : s'.committed=s.committed) : Tracked s' := by
  intro p key hst
  rw [he,hc]
  exact h p key (hs p key hst)

theorem Tracked.looks {s' : System} (h : Tracked s) (hl : Looks hashBytes s s') :
    Tracked s' := by
  obtain ⟨net,hsa,rfl⟩ := hl
  refine h.of_same (fun p key hs => ?_) (fun _ _ => rfl) rfl
  rwa [setNet,shardAt_of_nodes hsa.nodes] at hs

theorem Tracked.join (h : Tracked s) {net : Network} {node : CommitmentNode}
    (hn : net.nodes=s.net.nodes++[node]) (ledger : Ledger) : Tracked (s.join net ledger) := by
  intro p key hs
  by_cases hp : p=s.net.nodes.length
  · subst hp
    rw [System.join]
    dsimp only [setLedger]
    rw [update_self,update_self]
  · have hsa : (s.join net ledger).net.shardAt p key=s.net.shardAt p key := by
      rw [System.join]
      dsimp only [setNet,setLedger]
      rw [shardAt,shardAt,hn]
      rcases Nat.lt_or_gt_of_ne hp with hlt|hgt
      · rw [getElem?_append_left hlt]
      · rw [getElem?_eq_none (by simp; omega),getElem?_eq_none hgt.le]
    rw [hsa] at hs
    rw [System.join]
    dsimp only [setLedger]
    rw [update_of_ne hp,update_of_ne hp]
    exact h p key hs

theorem Tracked.setFlags (h : Tracked s) {change : CommitmentNode → CommitmentNode}
    (hc : ∀ node, (change node).shards=node.shards) :
    Tracked (s.setNet {s.net with nodes := s.net.nodes.map change}) := by
  refine h.of_same (fun p key hs => ?_) (fun _ _ => rfl) rfl
  rwa [setNet,shardAt_map hc] at hs

theorem shardAt_setShards {place p : ℕ} {node : CommitmentNode} {shards : Dict ShardKey Bytes}
    {key : ShardKey} (hn : s.net.nodes[place]?=some node)
    (hs : shards.get? key≠none → node.shards.get? key≠none)
    (h : (s.setShards place node shards).net.shardAt p key≠none) : s.net.shardAt p key≠none := by
  have hse : (s.setShards place node shards).net.shardAt p key =
      if place=p then shards.get? key else s.net.shardAt p key := shardAt_setNode hn _
  rw [hse] at h
  split_ifs at h with hp
  · rw [← hp,shardAt,hn]
    exact hs h
  · exact h

theorem Tracked.removeShard (h : Tracked s) (place : ℕ) (key : ShardKey) :
    Tracked (s.removeShard place key) := by
  rw [System.removeShard]
  split
  · exact h
  next node hn =>
    refine h.of_same (fun p other => shardAt_setShards hn fun ho => ?_) (fun _ _ => rfl) rfl
    rw [Dict.get?_erase] at ho
    split_ifs at ho
    · exact absurd rfl ho
    · exact ho

theorem Tracked.corrupt (h : Tracked s) (place : ℕ) (key : ShardKey) (data : Bytes) :
    Tracked (s.corrupt place key data) := by
  rw [System.corrupt]
  split
  · exact h
  next node hn =>
    split_ifs with hs
    · refine h.of_same (fun p other => shardAt_setShards hn fun ho => ?_) (fun _ _ => rfl)
        rfl
      rw [Dict.get?_set] at ho
      split_ifs at ho with hk
      · exact hk ▸ Option.isSome_iff_ne_none.mp hs
      · exact ho
    · exact h

end
end System

/-- What each step needs so that the metadata follows the shards. -/
def Careful (hashBytes : Bytes → Bytes) (order : ShardOrder) (s : System) : Input → Prop
  | .distribute entityId shards replicas => s.Clear hashBytes entityId shards replicas
  | .evictNode place => ∀ node, s.net.nodes[place]?=some node →
      ∀ key ∈ s.net.orphanedShards order node, System.Copyable s.ledgers s.net place key
  | .autoEvict place => System.strikeThreshold≤(s.ledgers place).strikes →
      ∀ node, s.net.nodes[place]?=some node →
        ∀ key ∈ s.net.orphanedShards order node, System.Copyable s.ledgers s.net place key
  | .evictExpiredShards currentEpoch => ∀ place node, s.net.nodes[place]?=some node →
      node.evicted=true → ∀ key, node.shards.get? key≠none →
        (s.ledgers place).isShardExpired key currentEpoch=false
  | _ => True

/-- An expiry takes exactly the replicas whose commitment has ended. -/
def ExpiresExactly (s : System) : Input → Prop
  | .evictExpiredShards currentEpoch => ∀ place key data, s.net.shardAt place key=some data →
      (s.evictExpiredShards currentEpoch).2.net.shardAt place key =
        if (s.committed place key).any (· ≤ currentEpoch) then none else some data
  | _ => True

namespace System
open Network
variable {hashBytes : Bytes → Bytes} {H : CanonicalHash} {order : ShardOrder} {s : System}

theorem mem_activePlaces {net : Network} {place : ℕ} :
    place ∈ activePlaces net ↔ net.IsActive place := by
  rw [activePlaces,mem_map]
  constructor
  · rintro ⟨⟨node,p⟩,hm,rfl⟩
    obtain ⟨hn,ha⟩ := mem_filter.mp hm
    exact ⟨node,mk_mem_zipIdx_iff_getElem?.mp hn,by simpa using ha⟩
  · rintro ⟨node,hn,ha⟩
    have hm := mk_mem_zipIdx_iff_getElem?.mpr hn
    exact ⟨(node,place),mem_filter.mpr ⟨hm,by simp [ha]⟩,rfl⟩

theorem nodup_activePlaces (net : Network) : (activePlaces net).Nodup := by
  have hz : (net.nodes.zipIdx.map Prod.snd).Nodup := by
    rw [zipIdx_map_snd]
    exact nodup_range'
  exact hz.sublist (filter_sublist.map _)

variable (h : Tracked s) {input : Input} (hc : Careful hashBytes order s input)
include h hc

theorem Tracked.expiresExactly : ExpiresExactly s input := by
  cases input with
  | evictExpiredShards epoch =>
    intro place key data hs
    have he : (s.ledgers place).expiry key=s.committed place key :=
      h place key (by simp [hs])
    have hsw := shardAt_foldl_expireAt (nodup_activePlaces s.net) epoch s place key
    refine hsw.trans ?_
    rw [← he,hs]
    by_cases ha : place ∈ activePlaces s.net
    · simp only [ha,true_and]
      rfl
    · obtain ⟨node,hn,hg⟩ := Option.bind_eq_some_iff.mp hs
      have hev : node.evicted=true := by
        by_contra hf
        exact ha (mem_activePlaces.mpr ⟨node,hn,Bool.eq_false_iff.mpr hf⟩)
      have hk := hc place node hn hev key (by simp [hg])
      rw [Ledger.isShardExpired] at hk
      simp [ha,hk]
  | _ => trivial

theorem Tracked.step : Tracked (s.step hashBytes H order input).1 := by
  cases input with
  | addNode nodeId region => exact h.join rfl _
  | addExistingNode node ledger => exact h.join rfl ledger
  | registerNode nodeId region stake => exact h.join rfl _
  | setGeoFencePolicy policy => exact h
  | distribute entityId shards replicas =>
    exact (tracked_of_distributes h (fun _ => hc) (keeps_distributeEncryptedShards s)).1
  | distributeWithTtl entityId shards epoch ttlEpochs replicas =>
    have hs : Relation.ReflTransGen (Distributes hashBytes (some (epoch,ttlEpochs))
        entityId shards replicas) s _ := keeps_distributeEncryptedShardsWithTtl (H := H) s
    exact (tracked_of_distributes h (fun ht => by cases ht) hs).1
  | record entityId n => exact h
  | fetch entityId n cap =>
    have hl : Looks hashBytes s _ := keeps_fetchEncryptedShards entityId n cap s
    exact h.looks hl
  | evictNode place => exact h.evictNode order hc
  | regionFailure region => exact h.setFlags fun node => by split_ifs <;> rfl
  | restoreRegion region => exact h.setFlags fun node => by split_ifs <;> rfl
  | removeShard place key => exact h.removeShard place key
  | corrupt place key data => exact h.corrupt place key data
  | evictExpiredShards now =>
    exact tracked_of_drops h (drops_evictExpiredShards s now)
  | submitRequest entityId requesterId epoch reason => exact h
  | executeDeletion requestId nodes epoch =>
    obtain ⟨dropped,deletions,hd,heq⟩ := drops_executeDeletion H s requestId nodes epoch
    have hdr := tracked_of_drops h hd
    rw [System.step,heq]
    exact hdr
  | audit place burst nonce =>
    obtain ⟨looked,ledger,hl,ht,heq⟩ :=
      audit_eq hashBytes H order s place burst nonce
    rw [System.step,heq]
    refine (h.looks hl).of_same (fun p key hst => hst) (fun p key => ?_) rfl
    rw [setLedger]
    dsimp only
    by_cases hp : p=place
    · subst hp
      rw [update_self,Ledger.expiry,ht]
      rfl
    · rw [update_of_ne hp]
  | autoEvict place =>
    rw [System.step,System.autoEvict,autoEvictIfNeeded]
    split_ifs with hn
    · exact h.evictNode order (hc hn.2)
    · exact h

end System

/-- In every run of careful steps each expiry takes every replica whose commitment has ended and
no other. -/
theorem expiries_exact (hashBytes : Bytes → Bytes) (H : CanonicalHash) (order : ShardOrder)
    (inputs : List Input)
    (hcareful : (machine hashBytes H order).Meets (Careful hashBytes order)
      inputs) : (machine hashBytes H order).Meets ExpiresExactly inputs := by
  have hs : System.Tracked (machine hashBytes H order).start := fun p key _ => rfl
  refine (Machine.meets_iff_of_invariant hs (fun s input h hi => h.step hi)
    (fun s input h hi => iff_of_true (h.expiresExactly hi) trivial) inputs hcareful).mpr ?_
  exact fun _ _ _ _ => trivial

section

def lastByte (b : Bytes) : Bytes := b.getLast?.toList

noncomputable abbrev spread : Machine System Input Event :=
  machine lastByte emptyHash Network.someOrder

def threeNodesRun : List Input :=
  [.addNode "n0" "eu",.addNode "n1" "eu",.addNode "n2" "eu",
    .distributeWithTtl "a" [[1]] 0 (some 5) 2]

def expiringRun : List Input :=
  threeNodesRun++[.distribute "b" [[2]] 2,.evictExpiredShards 5]

theorem expiringRun_careful : spread.Meets (Careful lastByte Network.someOrder) expiringRun := by
  have hc : (spread.state threeNodesRun).Clear lastByte "b" [[2]] 2 := by
    intro i hi places hp place hpl
    obtain rfl : i=0 := Nat.lt_one_iff.mp hi
    have he : ∀ place ∈ [0,1],
        ((spread.state threeNodesRun).ledgers place).expiry ("b",0)=none := by decide +kernel
    cases hp
    exact he place hpl
  have ha : ∀ node ∈ (spread.state (threeNodesRun++[.distribute "b" [[2]] 2])).net.nodes,
      node.evicted=false := by decide +kernel
  refine (spread.meetsFrom_start_iff _ _).mp
    ⟨trivial,trivial,trivial,trivial,hc,?_,trivial⟩
  intro place node hn hev
  rw [ha node (mem_of_getElem? hn)] at hev
  cases hev

theorem expiringRun_exact : spread.Meets (Careful lastByte Network.someOrder) expiringRun ∧
    spread.Meets ExpiresExactly expiringRun :=
  ⟨expiringRun_careful,expiries_exact _ _ _ _ expiringRun_careful⟩

def overwrittenRun : List Input := threeNodesRun++[.distribute "a" [[1]] 2]

def copiedRun : List Input := threeNodesRun++[.evictNode 0]

theorem expiry_takes_permanent_and_keeps_expired :
    ¬ExpiresExactly (spread.state overwrittenRun) (.evictExpiredShards 5) ∧
      ¬ExpiresExactly (spread.state copiedRun) (.evictExpiredShards 5) := by
  constructor
  · intro h
    have hk := h 0 ("a",0) [1] (by decide +kernel)
    cases hk
  · intro h
    have ht := h 2 ("a",0) [1] (by decide +kernel)
    cases ht

end

end LatticeTransfer.ShardNetwork
