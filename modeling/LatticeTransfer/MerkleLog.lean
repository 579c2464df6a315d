import LatticeTransfer.MerkleConsistency
import LatticeTransfer.MerkleInclusion

/-!
# The operator's log and its signed tree heads

`MerkleLog` with the tree head it signs. The signature scheme is a parameter; a
key pair carries that its signatures verify. The clock, the randomness of the signer
and whether it signs at all are inputs of every publication. A call may fail: it
then returns the error with the state the source leaves behind.
-/

namespace LatticeTransfer.MerkleLog
open SplitTree MerkleTree MerkleInclusion MerkleConsistency List

structure MLDSA where
  sign : Bytes → Bytes → Bytes → Bytes
  verify : Bytes → Bytes → Bytes → Bool

structure KeyPair (S : MLDSA) where
  vk : Bytes
  sk : Bytes
  verify_sign : ∀ entropy message, S.verify vk message (S.sign entropy sk message)=true

/-- What a publication reads from outside: the bits of `time.time()`, the signer's randomness,
and what `KeyPair.sign` raises, if it does (the HSM that holds the key, the sizes of key and
signature). -/
structure Stamp where
  timestamp : UInt64
  entropy : Bytes
  refusal : Option PyError

structure SignedTreeHead where
  sequence : ℕ
  treeSize : ℕ
  timestamp : UInt64
  rootHash : Bytes
  operatorVk : Bytes
  signature : Bytes
deriving DecidableEq

def signablePayload (sequence treeSize : ℕ) (timestamp : UInt64) (rootHash : Bytes) :
    Except PyError Bytes := do
  let seq ← PyValue.pack 8 sequence
  let size ← PyValue.pack 8 treeSize
  return seq++size++PyValue.toBigEndian 8 timestamp.toNat++rootHash

variable (H : CanonicalHash) {S : MLDSA} (op : KeyPair S)

namespace SignedTreeHead

def sign (sequence treeSize : ℕ) (rootHash : Bytes) (stamp : Stamp) :
    Except PyError SignedTreeHead := do
  let payload ← MerkleLog.signablePayload sequence treeSize stamp.timestamp rootHash
  match stamp.refusal with
  | some e => throw e
  | none => return ⟨sequence,treeSize,stamp.timestamp,rootHash,op.vk,
      S.sign stamp.entropy op.sk payload⟩

def verify (S : MLDSA) (sth : SignedTreeHead) : Except PyError Bool := do
  let payload ← MerkleLog.signablePayload sth.sequence sth.treeSize sth.timestamp sth.rootHash
  return S.verify sth.operatorVk payload sth.signature

end SignedTreeHead

def bothVerify (S : MLDSA) (first second : SignedTreeHead) : Except PyError Bool := do
  if ← first.verify S then second.verify S else return false

def detectEquivocation (S : MLDSA) (sth1 sth2 : SignedTreeHead) : Except PyError Bool :=
  if sth1.sequence≠sth2.sequence then .ok false
  else do
    if ← bothVerify S sth1 sth2 then return sth1.rootHash != sth2.rootHash else return false

structure Log where
  tree : Tree
  records : List Bytes
  sths : List SignedTreeHead
  sequence : ℕ

namespace Log

def init : Log := ⟨Tree.init,[],[],0⟩

def size (log : Log) : ℕ := log.tree.size

def latestSth (log : Log) : Option SignedTreeHead := log.sths.getLast?

def append (log : Log) (record : Bytes) : Except PyError (ℕ × Log) := do
  let (index,tree) ← log.tree.append H record
  return (index,{log with tree := tree,records := log.records++[record]})

def publishSth (log : Log) (stamp : Stamp) : Except PyError SignedTreeHead × Log :=
  let (root,tree) := log.tree.root H
  match SignedTreeHead.sign op log.sequence log.tree.size root stamp with
  | .error e => (.error e,{log with tree := tree})
  | .ok sth =>
    (.ok sth,{log with tree := tree,sths := log.sths++[sth],sequence := log.sequence+1})

def inclusionProof (log : Log) (index : ℤ) : Except PyError (InclusionProof × Log) := do
  let path ← log.tree.auditPath H index
  let (root,tree) := log.tree.root H
  return (⟨index,log.tree.size,path,root⟩,{log with tree := tree})

def verifyAppendOnly (S : MLDSA) (log : Log) (older newer : SignedTreeHead) :
    Except PyError Bool := do
  if ← bothVerify S older newer then
    if older.sequence ≥ newer.sequence then return false
    else if older.treeSize > newer.treeSize then return false
    else if older.treeSize=0 then return older.rootHash == H.run []
    else
      let proof ← log.tree.consistencyProof H older.treeSize
      return verifyConsistency H older.treeSize newer.treeSize older.rootHash newer.rootHash proof
  else return false

end Log

inductive Action
  | append (record : Bytes)
  | publishSth (stamp : Stamp)
  | inclusionProof (index : ℤ)

def step (log : Log) : Action → Log
  | .append record =>
    match log.append H record with
    | .ok r => r.2
    | .error _ => log
  | .publishSth stamp => (log.publishSth H op stamp).2
  | .inclusionProof index =>
    match log.inclusionProof H index with
    | .ok r => r.2
    | .error _ => log

def run (actions : List Action) : Log := actions.foldl (step H op) Log.init

structure Covers (S : MLDSA) (records : List Bytes) (sth : SignedTreeHead) : Prop where
  size_le : sth.treeSize≤records.length
  root : sth.rootHash=treeRoot H (records.take sth.treeSize)
  verify : sth.verify S=.ok true

structure Valid (S : MLDSA) (log : Log) : Prop where
  leaves : log.tree.leaves=hashLeaves H log.records
  cache : log.tree.CacheValid H
  capacity : log.records.length≤Tree.capacity
  sequences : log.sths.map SignedTreeHead.sequence=List.range log.sths.length
  sequence : log.sequence=log.sths.length
  sizes : log.sths.Pairwise fun older newer => older.treeSize≤newer.treeSize
  covers : ∀ sth ∈ log.sths, Covers H S log.records sth

variable {H op} {sth : SignedTreeHead}

theorem Covers.extend {rs more : List Bytes} (h : Covers H S rs sth)
    (hp : rs <+: more) : Covers H S more sth where
  size_le := h.size_le.trans hp.length_le
  root := by
    obtain ⟨rest,rfl⟩ := hp
    rw [take_append_of_le_length h.size_le,h.root]
  verify := h.verify

theorem sign_eq_ok {seq n : ℕ} {rootHash : Bytes} {stamp : Stamp}
    (h : SignedTreeHead.sign op seq n rootHash stamp=.ok sth) :
    stamp.refusal=none ∧ sth.sequence=seq ∧ sth.treeSize=n ∧ sth.rootHash=rootHash ∧
      sth.verify S=.ok true := by
  rw [SignedTreeHead.sign] at h
  obtain ⟨payload,hp,h⟩ := PyValue.bind_ok h
  cases hr : stamp.refusal with
  | some e => simp [hr,throw,throwThe,MonadExceptOf.throw] at h
  | none =>
    simp only [hr] at h
    cases h
    refine ⟨rfl,rfl,rfl,rfl,?_⟩
    rw [SignedTreeHead.verify]
    simp only [hp]
    exact congrArg Except.ok (op.verify_sign _ _)

theorem signablePayload_ok {seq n : ℕ} (hse : seq<256^8)
    (hs : n<256^8) (now : UInt64) (rootHash : Bytes) :
    ∃ payload, signablePayload seq n now rootHash=.ok payload := by
  rw [signablePayload,PyValue.pack,PyValue.pack,if_pos hse,if_pos hs]
  exact ⟨_,rfl⟩

namespace Valid

variable {log : Log}

theorem init : Valid H S Log.init where
  leaves := rfl
  cache := Tree.cacheValid_init
  capacity := Nat.zero_le _
  sequences := rfl
  sequence := rfl
  sizes := .nil
  covers := fun _ h => absurd h not_mem_nil

variable (hv : Valid H S log)
include hv

theorem tree_size : log.tree.size=log.records.length := by
  rw [Tree.size,hv.leaves,length_hashLeaves]

theorem tree_root : (log.tree.root H).1=treeRoot H log.records := by
  rw [(Tree.root_spec hv.cache).1,hv.leaves,treeRoot]
  simp [hashLeaves]

theorem refresh : Valid H S {log with tree := (log.tree.root H).2} :=
  {hv with
    leaves := (Tree.root_spec hv.cache).2.1.trans hv.leaves
    cache := (Tree.root_spec hv.cache).2.2}

theorem append {record : Bytes} {index : ℕ} {log' : Log}
    (h : log.append H record=.ok (index,log')) :
    Valid H S log' ∧ index=log.records.length ∧ log'.records=log.records++[record] ∧
      log'.sths=log.sths ∧ log.records.length<Tree.capacity := by
  rw [Log.append] at h
  cases ht : log.tree.append H record with
  | error e => simp [ht,bind,Except.bind] at h
  | ok r =>
    rw [ht] at h
    obtain ⟨rfl,rfl⟩ := h
    obtain ⟨hc,hi,htr⟩ := Tree.append_eq_ok ht
    rw [hv.leaves,length_hashLeaves] at hc hi
    refine ⟨?_,hi,rfl,rfl,hc⟩
    exact {hv with
      leaves := by
        rw [htr]
        simp [hv.leaves,hashLeaves]
      cache := Tree.cacheValid_append hv.cache ht
      capacity := by
        simp only [length_append,length_singleton]
        omega
      covers := fun sth hs => (hv.covers sth hs).extend (prefix_append _ _)}

theorem append_of_lt (record : Bytes) (hlt : log.records.length<Tree.capacity) :
    ∃ log', log.append H record=.ok (log.records.length,log') := by
  rw [Log.append,Tree.append,hv.leaves,length_hashLeaves,if_neg (not_le.mpr hlt)]
  exact ⟨_,rfl⟩

theorem append_full (record : Bytes) (hf : log.records.length=Tree.capacity) :
    log.append H record=.error (.valueError "Merkle log capacity exceeded") := by
  rw [Log.append,Tree.append,hv.leaves,length_hashLeaves,if_pos (le_of_eq hf.symm)]
  rfl

theorem publishSth (op : KeyPair S) (stamp : Stamp) : Valid H S (log.publishSth H op stamp).2 ∧
      (log.publishSth H op stamp).2.records=log.records ∧
      ((∃ sth, log.publishSth H op stamp=(.ok sth,(log.publishSth H op stamp).2) ∧
          stamp.refusal=none ∧ sth.sequence=log.sths.length ∧
          sth.treeSize=log.records.length ∧ sth.rootHash=treeRoot H log.records ∧
          sth.verify S=.ok true ∧ (log.publishSth H op stamp).2.sths=log.sths++[sth]) ∨
        (∃ e, log.publishSth H op stamp=(.error e,(log.publishSth H op stamp).2)) ∧
          (log.publishSth H op stamp).2.sths=log.sths ∧
          (stamp.refusal=none → 256^8≤log.sths.length)) := by
  rw [Log.publishSth]
  dsimp only
  cases hs : SignedTreeHead.sign op log.sequence log.tree.size (log.tree.root H).1 stamp with
  | error e =>
    refine ⟨hv.refresh,rfl,.inr ⟨⟨e,rfl⟩,rfl,fun hn => ?_⟩⟩
    by_contra hlt
    have hsi : log.tree.size<256^8 := by
      have hca := hv.capacity
      rw [hv.tree_size]
      exact lt_of_le_of_lt hca (by decide)
    have hse : log.sequence<256^8 := by
      rw [hv.sequence]
      exact not_le.mp hlt
    obtain ⟨payload,hp⟩ := signablePayload_ok hse hsi stamp.timestamp (log.tree.root H).1
    simp [SignedTreeHead.sign,hp,hn,bind,Except.bind,pure,Except.pure] at hs
  | ok sth =>
    obtain ⟨hn,hse,hsi,hr,hve⟩ := sign_eq_ok hs
    rw [hv.sequence] at hse
    rw [hv.tree_size] at hsi
    rw [hv.tree_root] at hr
    have hc : Covers H S log.records sth :=
      ⟨le_of_eq hsi,by rw [hsi,take_length,hr],hve⟩
    refine ⟨?_,rfl,.inl ⟨sth,rfl,hn,hse,hsi,hr,hve,rfl⟩⟩
    exact {hv.refresh with
      sequences := by
        rw [map_append,hv.sequences,length_append,length_singleton,range_succ,map_singleton,hse]
      sequence := by simp [hv.sequence]
      sizes := by
        refine pairwise_append.mpr ⟨hv.sizes,pairwise_singleton _ _,?_⟩
        intro older holder newer hn
        rw [mem_singleton.mp hn,hsi]
        exact (hv.covers older holder).size_le
      covers := by
        intro x hx
        rcases mem_append.mp hx with hx|hx
        · exact hv.covers x hx
        · rw [mem_singleton.mp hx]
          exact hc}

theorem inclusionProof {index : ℕ} (hlt : index<log.records.length) :
    log.inclusionProof H index=.ok (⟨index,log.records.length,
      auditPath H index (hashLeaves H log.records),treeRoot H log.records⟩,
      {log with tree := (log.tree.root H).2}) := by
  have hs := hv.tree_size
  have hr : (0 : ℤ) ≤ index ∧ (index : ℤ)<log.tree.size := by omega
  rw [Log.inclusionProof,Tree.auditPath]
  rw [if_pos hr,← hv.tree_root,← hv.leaves,hs]
  rfl

theorem step (action : Action) : Valid H S (step H op log action) := by
  cases action with
  | append record =>
    rw [MerkleLog.step]
    cases h : log.append H record with
    | error e => exact hv
    | ok r => exact (hv.append h).1
  | publishSth stamp => exact (hv.publishSth op stamp).1
  | inclusionProof index =>
    rw [MerkleLog.step,Log.inclusionProof]
    cases hp : log.tree.auditPath H index with
    | error e => exact hv
    | ok path => exact hv.refresh

end Valid

theorem valid_run (acts : List Action) : Valid H S (run H op acts) :=
  foldlRecOn acts (step H op) Valid.init fun _ hv action _ => hv.step action

def plainScheme : MLDSA where
  sign _ _ message := message
  verify _ message signature := message == signature

def plainKeys : KeyPair plainScheme where
  vk := [1]
  sk := [2]
  verify_sign _ message := beq_self_eq_true message

/-- The proof that every run's log hands out for a record is accepted, also in portable form. -/
theorem inclusionProof_verifies (op : KeyPair S) (records : List Bytes) (i : ℕ) (data : Bytes)
    (h : records[i]?=some data) (treeType : TreeType) :
    let root := computeRoot H (hashLeaves H records)
    let path := auditPath H i (hashLeaves H records)
    let proof : InclusionProof := ⟨i,records.length,path,root⟩
    let portable := fromInclusionProof H proof treeType data
    verifyInclusion H i records.length (leafHash H data) path=root ∧
      proof.verify H data root=true ∧
      portable.verify H=true ∧
      portable.pathDirections=(goingLeft i records.length).reverse ∧
      ∀ actions, (run H op actions).records=records →
        ((run H op actions).inclusionProof H i).map Prod.fst=.ok proof := by
  intro root path proof portable
  obtain ⟨hlt,-⟩ := List.getElem?_eq_some_iff.mp h
  have hne : records≠[] := ne_nil_of_length_pos (by omega)
  have hro : verifyInclusion H i records.length (leafHash H data) path=root :=
    verifyInclusion_auditPath h
  have hd : portable.pathDirections=(goingLeft i records.length).reverse :=
    computeDirections_eq i records.length
  refine ⟨hro,?_,?_,hd,?_⟩
  · rw [InclusionProof.verify,if_neg (not_not.mpr rfl)]
    exact beq_iff_eq.mpr hro
  · exact verify_fromInclusionProof h treeType
  · intro actions hr
    have hv : Valid H S (run H op actions) := valid_run actions
    rw [hv.inclusionProof (by rw [hr]; exact hlt),hr,treeRoot,if_neg hne]
    rfl

theorem inclusionProof_verifies_third :
    verifyInclusion cutHash 2 3 (leafHash cutHash [12])
        (auditPath cutHash 2 (hashLeaves cutHash [[10],[11],[12]])) =
      computeRoot cutHash (hashLeaves cutHash [[10],[11],[12]]) ∧
    (goingLeft 2 3).reverse=[false] :=
  ⟨(inclusionProof_verifies plainKeys [[10],[11],[12]] 2 [12] rfl .commitmentLog).1,
    by decide +kernel⟩

theorem Valid.size_le_of_sequence_lt {log : Log} (hv : Valid H S log) {older newer : SignedTreeHead}
    (ho : older ∈ log.sths) (hn : newer ∈ log.sths) (hs : older.sequence<newer.sequence) :
    older.treeSize≤newer.treeSize := by
  have hin : ∀ i (hi : i<log.sths.length), (log.sths[i]).sequence=i := by
    intro i hi
    have hm : (log.sths.map SignedTreeHead.sequence)[i]?=some i := by
      rw [hv.sequences,getElem?_range hi]
    rw [getElem?_map,getElem?_eq_getElem hi] at hm
    exact Option.some.inj hm
  obtain ⟨i,hi,rfl⟩ := mem_iff_getElem.mp ho
  obtain ⟨j,hj,rfl⟩ := mem_iff_getElem.mp hn
  rw [hin i hi,hin j hj] at hs
  exact pairwise_iff_getElem.mp hv.sizes i j hi hj hs

theorem Covers.root_of_pos {rs : List Bytes} (h : Covers H S rs sth)
    (hp : 1 ≤ sth.treeSize) : rs.take sth.treeSize≠[] ∧
      sth.rootHash=computeRoot H (hashLeaves H (rs.take sth.treeSize)) := by
  have hle := h.size_le
  have hne : rs.take sth.treeSize≠[] :=
    ne_nil_of_length_pos (by rw [length_take]; omega)
  have hr := h.root
  rw [treeRoot,if_neg hne] at hr
  exact ⟨hne,hr⟩

theorem Valid.verifyAppendOnly {log : Log} (hv : Valid H S log) {older newer : SignedTreeHead}
    (ho : older ∈ log.sths) (hn : newer ∈ log.sths) (hs : older.sequence<newer.sequence)
    (hpo : 1≤older.treeSize) : log.verifyAppendOnly H S older newer =
      .ok (verifyConsistency H older.treeSize newer.treeSize older.rootHash newer.rootHash
        (subproof H older.treeSize (hashLeaves H log.records) true)) := by
  have hle := hv.size_le_of_sequence_lt ho hn hs
  have hc := (hv.covers older ho).size_le
  have hp := consistencyProof_ok (H := H) log.tree hpo (by rw [hv.tree_size]; exact hc)
  have hb : bothVerify S older newer=.ok true := by
    rw [bothVerify,(hv.covers older ho).verify]
    exact (hv.covers newer hn).verify
  rw [Log.verifyAppendOnly,hb,hp,hv.leaves]
  simp only [bind,Except.bind,pure,Except.pure,↓reduceIte]
  rw [if_neg (by omega),if_neg (by omega),if_neg (by omega)]

def appendOnlyQueries (H : CanonicalHash) (log : Log) (older newer : SignedTreeHead) : List Bytes :=
  recordQueries H log.records++(recordQueries H (log.records.take older.treeSize) ++
    recordQueries H (log.records.take newer.treeSize) ++
    consistencyQueries H older.treeSize newer.treeSize older.rootHash
      (subproof H older.treeSize (hashLeaves H log.records) true))

theorem verifyAppendOnly_iff_current (actions : List Action) (older newer : SignedTreeHead)
    (ho : older ∈ (run H op actions).sths) (hn : newer ∈ (run H op actions).sths)
    (hseq : older.sequence<newer.sequence) (hpos : 1≤older.treeSize)
    (hfree : CollisionFree H (appendOnlyQueries H (run H op actions) older newer)) :
    (run H op actions).verifyAppendOnly H S older newer=.ok true ↔
      (run H op actions).size=newer.treeSize := by
  have hv : Valid H S (run H op actions) := valid_run actions
  generalize run H op actions=log at *
  have hle := hv.size_le_of_sequence_lt ho hn hseq
  have hco := hv.covers older ho
  have hcn := hv.covers newer hn
  have hlo : (log.records.take older.treeSize).length=older.treeSize :=
    length_take_of_le hco.size_le
  have hln : (log.records.take newer.treeSize).length=newer.treeSize :=
    length_take_of_le hcn.size_le
  obtain ⟨hne,hro⟩ := hco.root_of_pos hpos
  obtain ⟨-,hrn⟩ := hcn.root_of_pos (hpos.trans hle)
  rw [hv.verifyAppendOnly ho hn hseq hpos,Except.ok.injEq,Log.size,hv.tree_size]
  constructor
  · intro h
    have hc : ConsistencyFree H (log.records.take older.treeSize)
        (log.records.take newer.treeSize)
        (subproof H older.treeSize (hashLeaves H log.records) true) := by
      rw [ConsistencyFree,hlo,hln,← hro]
      exact hfree.mono (subset_append_right _ _)
    rw [hro,hrn] at h
    have hp := (verifyConsistency_extract hne hc (by rw [hlo,hln]; exact h)).2
    rw [hlo] at hp
    have hs := length_eq_of_subproof_eq hfree hpos hco.size_le (by rw [hln]; exact hle)
      (subset_append_left _ _)
      (fun q hq => mem_append_right _ (mem_append_left _ (mem_append_right _ hq)))
      hp
    rw [hs,hln]
  · intro h
    have hw : log.records.take newer.treeSize=log.records := by rw [← h,take_length]
    rw [hro,hrn,hw,← h,← hashLeaves_take]
    have ha := verifyConsistency_subproof (H := H) (hashLeaves H log.records) older.treeSize
      hpos (by rw [length_hashLeaves]; exact hco.size_le)
    rwa [length_hashLeaves] at ha

def twoHeads : List Action :=
  [.append [10],.publishSth ⟨0,[],none⟩,.append [11],.publishSth ⟨1,[],none⟩]

def olderHead : SignedTreeHead where
  sequence := 0
  treeSize := 1
  timestamp := 0
  rootHash := treeRoot cutHash [[10]]
  operatorVk := [1]
  signature := PyValue.toBigEndian 8 0++PyValue.toBigEndian 8 1++PyValue.toBigEndian 8 0 ++
    treeRoot cutHash [[10]]

def newerHead : SignedTreeHead where
  sequence := 1
  treeSize := 2
  timestamp := 1
  rootHash := treeRoot cutHash [[10],[11]]
  operatorVk := [1]
  signature := PyValue.toBigEndian 8 1++PyValue.toBigEndian 8 2++PyValue.toBigEndian 8 1 ++
    treeRoot cutHash [[10],[11]]

theorem twoHeads_sths : (run cutHash plainKeys twoHeads).sths=[olderHead,newerHead] := by
  decide +kernel

theorem verifyAppendOnly_two_heads : CollisionFree cutHash (appendOnlyQueries cutHash
      (run cutHash plainKeys twoHeads) olderHead newerHead) ∧
    (run cutHash plainKeys twoHeads).verifyAppendOnly cutHash plainScheme
      olderHead newerHead=.ok true := by
  have hf : CollisionFree cutHash (appendOnlyQueries cutHash
      (run cutHash plainKeys twoHeads) olderHead newerHead) := by decide +kernel
  have ho : olderHead ∈ (run cutHash plainKeys twoHeads).sths := by exact mem_cons_self
  have hn : newerHead ∈ (run cutHash plainKeys twoHeads).sths := by
    exact mem_cons_of_mem _ mem_cons_self
  have hs : (run cutHash plainKeys twoHeads).size=newerHead.treeSize := by decide +kernel
  exact ⟨hf,(verifyAppendOnly_iff_current twoHeads olderHead newerHead ho hn (by decide)
    (by decide) hf).mpr hs⟩

theorem verifyAppendOnly_false_after_append :
    (run cutHash plainKeys (twoHeads++[.append [12]])).sths=[olderHead,newerHead] ∧
    olderHead.sequence<newerHead.sequence ∧ 1≤olderHead.treeSize ∧
    CollisionFree cutHash (appendOnlyQueries cutHash
      (run cutHash plainKeys (twoHeads++[.append [12]])) olderHead newerHead) ∧
    (run cutHash plainKeys (twoHeads++[.append [12]])).verifyAppendOnly cutHash
      plainScheme olderHead newerHead=.ok false := by decide +kernel

end LatticeTransfer.MerkleLog
