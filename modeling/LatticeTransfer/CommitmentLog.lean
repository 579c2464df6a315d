import LatticeTransfer.MerkleLog

/-!
# The persistent commitment log

`CommitmentLog` over its store, across process restarts. A record is written to
the store before it enters memory; a restart builds a fresh `MerkleLog`, replays
the rows in chain order and publishes one tree head over all of them, numbered
from zero again. The operator's key pair is the persisted one and therefore the
same in every process. JSON text is read back as the value it was written from.
-/

namespace LatticeTransfer.CommitmentLog
open MerkleTree MerkleLog List

inductive ParamValue
  | int (n : ℤ)
  | text (s : String)
deriving DecidableEq

def ParamValue.str : ParamValue → String
  | .int n => toString n
  | .text s => s

structure CommitmentRecord where
  entityId : String
  senderId : String
  shardMapRoot : String
  contentHash : String
  encodingParams : Dict String ParamValue
  shape : String
  shapeHash : String
  timestamp : UInt64
  ttlEpochs : Option ℤ
  predecessor : Option String
  signature : Bytes
  senderVk : Bytes

def encodeText (s : String) : Bytes := s.toUTF8.data.toList

def lengthPrefixed (raw : Bytes) : Except PyError Bytes := do
  let length ← PyValue.pack 4 raw.length
  return length++raw

def joinPrefixed (parts : List Bytes) : Except PyError Bytes := do
  let encoded ← parts.mapM lengthPrefixed
  return encoded.flatten

namespace CommitmentRecord

def paramParts (r : CommitmentRecord) : List Bytes :=
  (r.encodingParams.keys.insertionSort (· ≤ ·)).flatMap fun key =>
    match r.encodingParams.get? key with
    | some value => [encodeText key,encodeText value.str]
    | none => []

def signablePayload (r : CommitmentRecord) : Except PyError Bytes := do
  let texts ← joinPrefixed
    ([r.entityId,r.senderId,r.shardMapRoot,r.contentHash,r.shape,r.shapeHash].map encodeText)
  let params ← joinPrefixed r.paramParts
  return encodeText "LTP-COMMIT-v1\x00" ++ (texts++PyValue.toBigEndian 8 r.timestamp.toNat ++
    params)

def toBytes (r : CommitmentRecord) : Except PyError Bytes := do
  let payload ← r.signablePayload
  let trailer ← joinPrefixed [encodeText (r.predecessor.getD ""),r.signature,r.senderVk]
  return encodeText "LTP-RECORD-v1\x00" ++ (payload++trailer)

end CommitmentRecord

structure RecordDict where
  entityId : String
  senderId : String
  shardMapRoot : String
  contentHash : String
  encodingParams : Dict String ParamValue
  shape : String
  shapeHash : String
  timestamp : UInt64
  ttlEpochs : Option ℤ
  predecessor : Option String
  signature : String
  senderVk : String

def CommitmentRecord.toDict (r : CommitmentRecord) : RecordDict where
  entityId := r.entityId
  senderId := r.senderId
  shardMapRoot := r.shardMapRoot
  contentHash := r.contentHash
  encodingParams := r.encodingParams
  shape := r.shape
  shapeHash := r.shapeHash
  timestamp := r.timestamp
  ttlEpochs := r.ttlEpochs
  predecessor := r.predecessor
  signature := PyValue.hex r.signature
  senderVk := PyValue.hex r.senderVk

def RecordDict.restore (d : RecordDict) : Except PyError CommitmentRecord := do
  let signature ← PyValue.fromHex d.signature
  let senderVk ← PyValue.fromHex d.senderVk
  return {
    entityId := d.entityId
    senderId := d.senderId
    shardMapRoot := d.shardMapRoot
    contentHash := d.contentHash
    encodingParams := d.encodingParams
    shape := d.shape
    shapeHash := d.shapeHash
    timestamp := d.timestamp
    ttlEpochs := d.ttlEpochs
    predecessor := d.predecessor
    signature := signature
    senderVk := senderVk}

structure Row where
  chainIndex : ℕ
  entityId : String
  leafIndex : ℕ
  recordDict : RecordDict

def appendRecord (rows : List Row) (row : Row) : Except PyError (List Row) :=
  if rows.any fun r => r.chainIndex=row.chainIndex || r.entityId=row.entityId then
    .error .integrityError
  else .ok (rows++[row])

def loadAllRecords (rows : List Row) : List Row :=
  rows.insertionSort fun a b => a.chainIndex≤b.chainIndex

structure LogProof where
  entityId : String
  position : ℕ
  inclusionProof : MerkleInclusion.InclusionProof
  rootHash : Bytes

structure Memory where
  merkleLog : Log
  records : Dict String CommitmentRecord
  chain : List String
  recordIndices : Dict String ℕ

variable (H : CanonicalHash) {S : MLDSA} (op : KeyPair S)

namespace Memory

def init : Memory := ⟨Log.init,Dict.empty,[],Dict.empty⟩

def headHash (log : Memory) : String :=
  match log.merkleLog.latestSth with
  | none => String.ofList (List.replicate 64 '0')
  | some sth => PyValue.hex sth.rootHash

def index (log : Memory) (record : CommitmentRecord) (entityId : String) (leaf : ℕ)
    (merkleLog : Log) : Memory where
  merkleLog := merkleLog
  records := log.records.set entityId record
  chain := log.chain++[entityId]
  recordIndices := log.recordIndices.set entityId leaf

def persist (log : Memory) (rows : List Row) (record : CommitmentRecord) :
    Except PyError (CommitmentRecord × Bytes × List Row) :=
  let entityId := record.entityId
  if (log.records.get? entityId).isSome then
    .error (.valueError s!"Entity {entityId} already committed (immutable)")
  else do
    let chained := {record with predecessor := some log.headHash}
    let bytes ← chained.toBytes
    let rows ← appendRecord rows ⟨log.chain.length,entityId,log.merkleLog.size,chained.toDict⟩
    return (chained,bytes,rows)

def commitInMemory (log : Memory) (record : CommitmentRecord) (bytes : Bytes)
    (stamp : Stamp) : Except PyError String × Memory :=
  match log.merkleLog.append H bytes with
  | .error e => (.error e,log)
  | .ok (leaf,merkleLog) =>
    match merkleLog.publishSth H op stamp with
    | (.error e,merkleLog) => (.error e,{log with merkleLog := merkleLog})
    | (.ok _,merkleLog) =>
      (.ok (canonicalHash H bytes),log.index record record.entityId leaf merkleLog)

def append (log : Memory) (rows : List Row) (record : CommitmentRecord) (stamp : Stamp) :
    Except PyError String × Memory × List Row :=
  match log.persist rows record with
  | .error e => (.error e,log,rows)
  | .ok (record,bytes,rows) =>
    let result := log.commitInMemory H op record bytes stamp
    (result.1,result.2,rows)

def getInclusionProof (log : Memory) (entityId : String) :
    Except PyError (Option LogProof) × Memory :=
  if (log.records.get? entityId).isNone then (.ok none,log)
  else
    match log.recordIndices.get? entityId with
    | none => (.error .keyError,log)
    | some idx =>
      match log.merkleLog.inclusionProof H idx with
      | .error e => (.error e,log)
      | .ok (proof,merkleLog) =>
        (.ok (some ⟨entityId,idx,proof,proof.rootHash⟩),{log with merkleLog := merkleLog})

def replayRow (log : Memory) (row : Row) : Except PyError Memory := do
  let record ← row.recordDict.restore
  let bytes ← record.toBytes
  let (leaf,merkleLog) ← log.merkleLog.append H bytes
  return log.index record row.entityId leaf merkleLog

def replayFromStore (rows : List Row) (stamp : Stamp) : Except PyError Memory := do
  let log ← (loadAllRecords rows).foldlM (replayRow H) init
  if rows=[] then return log
  else
    let (result,merkleLog) := log.merkleLog.publishSth H op stamp
    let _ ← result
    return {log with merkleLog := merkleLog}

end Memory

structure System where
  rows : List Row
  process : Option Memory

/-- A call of `append`, a process that dies right after the durable write of a call, and a
process start. -/
inductive Event
  | append (record : CommitmentRecord) (stamp : Stamp)
  | crash (record : CommitmentRecord)
  | restart (stamp : Stamp)

def step (sys : System) : Event → System × List SignedTreeHead
  | .append record stamp =>
    match sys.process with
    | none => (sys,[])
    | some log =>
      let (_,log',rows) := log.append H op sys.rows record stamp
      (⟨rows,some log'⟩,log'.merkleLog.sths.drop log.merkleLog.sths.length)
  | .crash record =>
    match sys.process with
    | none => (sys,[])
    | some log =>
      match log.persist sys.rows record with
      | .error _ => (⟨sys.rows,none⟩,[])
      | .ok (_,_,rows) => (⟨rows,none⟩,[])
  | .restart stamp =>
    match Memory.replayFromStore H op sys.rows stamp with
    | .error _ => (⟨sys.rows,none⟩,[])
    | .ok log => (⟨sys.rows,some log⟩,log.merkleLog.sths)

def deployment : Machine System Event SignedTreeHead where
  start := ⟨[],none⟩
  step := step H op

theorem restore_toDict (r : CommitmentRecord) : r.toDict.restore=.ok r := by
  rw [RecordDict.restore,CommitmentRecord.toDict]
  simp only [PyValue.fromHex_hex]
  rfl

def Row.bytes (row : Row) : Bytes :=
  match row.recordDict.restore >>= CommitmentRecord.toBytes with
  | .ok bytes => bytes
  | .error _ => []

def storeRecords (rows : List Row) : List Bytes := rows.map Row.bytes

def Row.Readable (row : Row) : Prop :=
  ∃ record, row.recordDict.restore=.ok record ∧ record.toBytes=.ok row.bytes

structure StoreValid (rows : List Row) : Prop where
  indices : rows.map Row.chainIndex=List.range rows.length
  readable : ∀ row ∈ rows, row.Readable

variable {H op} {rows : List Row} {log : Memory}

theorem StoreValid.loadAllRecords (hs : StoreValid rows) : loadAllRecords rows=rows := by
  have hso : rows.Pairwise fun a b => a.chainIndex≤b.chainIndex := by
    have h := pairwise_le_range (n := rows.length)
    rwa [← hs.indices,pairwise_map] at h
  exact hso.insertionSort_eq

variable {record ch : CommitmentRecord} {bytes : Bytes} {rows' : List Row}

theorem persist_ok (h : log.persist rows record=.ok (ch,bytes,rows')) :
    log.records.get? record.entityId=none ∧
      ch={record with predecessor := some log.headHash} ∧ ch.toBytes=.ok bytes ∧
      rows'=rows++[⟨log.chain.length,record.entityId,log.merkleLog.size,ch.toDict⟩] ∧
      ∀ r ∈ rows, r.chainIndex≠log.chain.length ∧ r.entityId≠record.entityId := by
  rw [Memory.persist] at h
  split_ifs at h with hf
  cases hb : CommitmentRecord.toBytes {record with predecessor := some log.headHash} with
  | error e => simp [hb,bind,Except.bind] at h
  | ok b =>
    simp only [hb,bind,Except.bind,appendRecord] at h
    split_ifs at h with ha
    obtain ⟨rfl,rfl,rfl⟩ := h
    refine ⟨by simpa using hf,rfl,hb,rfl,fun r hr => ?_⟩
    rw [any_eq_true] at ha
    constructor
    · intro hi
      exact ha ⟨r,hr,by simp [hi]⟩
    · intro he
      exact ha ⟨r,hr,by simp [he]⟩

theorem toDict_bytes (hb : record.toBytes=.ok bytes) (chainIndex leafIndex : ℕ)
    (id : String) : Row.bytes ⟨chainIndex,id,leafIndex,record.toDict⟩=bytes := by
  simp [Row.bytes,restore_toDict,bind,Except.bind,hb]

theorem persist_eq_ok (hs : StoreValid rows) (h : log.persist rows record=.ok (ch,bytes,rows')) :
    ∃ row, rows'=rows++[row] ∧ row.bytes=bytes ∧ row.Readable ∧
      row.chainIndex=log.chain.length ∧ log.chain.length ∉ List.range rows.length := by
  obtain ⟨-,-,hb,hro,hf⟩ := persist_ok h
  have hby := toDict_bytes hb log.chain.length log.merkleLog.size record.entityId
  refine ⟨_,hro,hby,⟨ch,restore_toDict ch,hb.trans (by rw [hby])⟩,rfl,?_⟩
  intro hm
  rw [← hs.indices] at hm
  obtain ⟨r,hr,hi⟩ := mem_map.mp hm
  exact (hf r hr).1 hi

theorem storeRecords_snoc (rows : List Row) (row : Row) :
    storeRecords (rows++[row])=storeRecords rows++[row.bytes] := by simp [storeRecords]

theorem storeRecords_grow (rows : List Row) (row : Row) :
    storeRecords rows <+: storeRecords (rows++[row]) := by
  rw [storeRecords_snoc]
  exact prefix_append _ _

theorem length_storeRecords (rows : List Row) : (storeRecords rows).length=rows.length :=
  length_map _

theorem StoreValid.snoc (hs : StoreValid rows) {row : Row} (hi : row.chainIndex=rows.length)
    (hre : row.Readable) : StoreValid (rows++[row]) where
  indices := by
    rw [map_append,hs.indices,length_append,length_singleton,range_succ,map_singleton,hi]
  readable := by
    intro r hr
    rcases mem_append.mp hr with hr|hr
    · exact hs.readable r hr
    · rw [mem_singleton.mp hr]
      exact hre

/-- Memory holds all rows, or a call failed after its durable write. The chain index of the next
call is then taken, so that no later call of this process writes. -/
structure MemoryValid (H : CanonicalHash) (S : MLDSA) (rows : List Row) (log : Memory) : Prop where
  valid : Valid H S log.merkleLog
  records : log.merkleLog.records <+: storeRecords rows
  chain : log.chain.length<rows.length ∨
    log.chain.length=rows.length ∧ log.merkleLog.records.length=rows.length
  heads : log.merkleLog.sths.length≤log.merkleLog.records.length

theorem MemoryValid.synced (hm : MemoryValid H S rows log)
    (hc : log.chain.length=rows.length) : log.merkleLog.records.length=rows.length :=
  (hm.chain.resolve_left hc.not_lt).2

theorem replayRow_ok {row : Row} {record : CommitmentRecord} (hv : Valid H S log.merkleLog)
    (hr : row.recordDict.restore=.ok record) (hb : record.toBytes=.ok row.bytes)
    (hlt : log.merkleLog.records.length<Tree.capacity) : ∃ merkleLog, log.replayRow H row =
        .ok (log.index record row.entityId log.merkleLog.records.length merkleLog) ∧
      Valid H S merkleLog ∧ merkleLog.records=log.merkleLog.records++[row.bytes] ∧
      merkleLog.sths=log.merkleLog.sths := by
  obtain ⟨merkleLog,ha⟩ := hv.append_of_lt row.bytes hlt
  obtain ⟨hv',-,hre,hs,-⟩ := hv.append ha
  refine ⟨merkleLog,?_,hv',hre,hs⟩
  rw [Memory.replayRow]
  simp [hr,hb,ha,bind,Except.bind,pure,Except.pure]

theorem replayRow_full {row : Row} (hv : Valid H S log.merkleLog) (hre : row.Readable)
    (hf : log.merkleLog.records.length=Tree.capacity) : ∃ e, log.replayRow H row=.error e := by
  obtain ⟨record,hr,hb⟩ := hre
  rw [Memory.replayRow]
  simp only [hr,hb,hv.append_full row.bytes hf,bind,Except.bind]
  exact ⟨_,rfl⟩

theorem replay_rows (hv : Valid H S log.merkleLog) (hrea : ∀ row ∈ rows, row.Readable) :
    (log.merkleLog.records.length+rows.length≤Tree.capacity ∧
      ∃ log', rows.foldlM (Memory.replayRow H) log=.ok log' ∧ Valid H S log'.merkleLog ∧
        log'.merkleLog.records=log.merkleLog.records++storeRecords rows ∧
        log'.merkleLog.sths=log.merkleLog.sths ∧ log'.chain.length=log.chain.length+rows.length) ∨
    (Tree.capacity<log.merkleLog.records.length+rows.length ∧
      ∃ e, rows.foldlM (Memory.replayRow H) log=.error e) := by
  induction rows generalizing log with
  | nil => exact .inl ⟨hv.capacity,log,rfl,hv,by simp [storeRecords],rfl,rfl⟩
  | cons row rows ih =>
    have hro := hrea row mem_cons_self
    have hres : ∀ r ∈ rows, r.Readable := fun r hr => hrea r (mem_cons_of_mem _ hr)
    rw [foldlM_cons,length_cons]
    rcases Nat.lt_or_eq_of_le hv.capacity with hlt|hf
    · obtain ⟨record,hre,hb⟩ := hro
      obtain ⟨merkleLog,hst,hv1,hr1,hs1⟩ := replayRow_ok hv hre hb hlt
      have hl : merkleLog.records.length=log.merkleLog.records.length+1 := by
        rw [hr1,length_append,length_singleton]
      set log1 := log.index record row.entityId log.merkleLog.records.length merkleLog with hl1
      have hc1 : log1.chain.length=log.chain.length+1 := by simp [hl1,Memory.index]
      simp only [hst]
      rcases @ih log1 hv1 hres with
        ⟨hca,log',hfo,hv',hrec,hsth,hc⟩ | ⟨hca,e,hfo⟩
      · have hc' : merkleLog.records.length+rows.length≤Tree.capacity := hca
        refine .inl ⟨by omega,log',hfo,hv',?_,hsth.trans hs1,by omega⟩
        have hs : log1.merkleLog.records=log.merkleLog.records++[row.bytes] := hr1
        rw [hrec,hs,append_assoc]
        rfl
      · have hc' : Tree.capacity < merkleLog.records.length+rows.length := hca
        exact .inr ⟨by omega,e,hfo⟩
    · obtain ⟨e,hst⟩ := replayRow_full hv hro hf
      simp only [hst]
      exact .inr ⟨by omega,e,rfl⟩

theorem publishSth_cases (op : KeyPair S) {merkleLog : Log} (hv : Valid H S merkleLog)
    (hh : merkleLog.sths.length ≤ merkleLog.records.length) (stamp : Stamp) :
    ∃ result merkleLog', merkleLog.publishSth H op stamp=(result,merkleLog') ∧
      Valid H S merkleLog' ∧ merkleLog'.records=merkleLog.records ∧
      ((∃ sth, result=.ok sth ∧ stamp.refusal=none ∧
        merkleLog'.sths=merkleLog.sths++[sth] ∧ sth.sequence=merkleLog.sths.length ∧
        sth.treeSize=merkleLog.records.length) ∨
      (∃ e, result=.error e) ∧ stamp.refusal≠none ∧ merkleLog'.sths=merkleLog.sths) := by
  obtain ⟨hv',hr,⟨sth,hok,hn,hse,hsi,-,-,hst⟩|⟨⟨e,he⟩,hst,hm⟩⟩ := hv.publishSth op stamp
  · exact ⟨_,_,hok,hv',hr,.inl ⟨sth,rfl,hn,hst,hse,hsi⟩⟩
  · refine ⟨_,_,he,hv',hr,.inr ⟨⟨e,rfl⟩,fun hn => ?_,hst⟩⟩
    have hc := hv.capacity
    have hs : Tree.capacity<256^8 := by decide
    have hlen := hm hn
    omega

theorem replayFromStore_cases (H : CanonicalHash) (op : KeyPair S) (hs : StoreValid rows)
    (stamp : Stamp) :
    (∃ log, Memory.replayFromStore H op rows stamp=.ok log ∧ MemoryValid H S rows log ∧
      log.chain.length=rows.length ∧ rows.length≤Tree.capacity ∧ (rows=[] ∧ log.merkleLog.sths=[] ∨
        ∃ sth, rows≠[] ∧ stamp.refusal=none ∧ log.merkleLog.sths=[sth] ∧
          sth.sequence=0 ∧ sth.treeSize=rows.length)) ∨
    ((Tree.capacity<rows.length ∨ rows≠[] ∧ stamp.refusal≠none) ∧
      ∃ e, Memory.replayFromStore H op rows stamp=.error e) := by
  have hi : Valid H S Memory.init.merkleLog := .init
  rw [Memory.replayFromStore,hs.loadAllRecords]
  rcases replay_rows hi hs.readable with
    ⟨hca,log,hf,hv,hr,hsth,hc⟩ | ⟨hca,e,hf⟩
  · have hst : log.merkleLog.records=storeRecords rows := hr
    have hl : log.merkleLog.records.length=rows.length := by rw [hst,length_storeRecords]
    have hn : log.merkleLog.sths=[] := hsth
    have hco : log.chain.length=rows.length := hc.trans (Nat.zero_add _)
    have hro : rows.length≤Tree.capacity := (Nat.zero_add rows.length).symm.trans_le hca
    simp only [hf,bind,Except.bind]
    by_cases hni : rows=[]
    · rw [if_pos hni]
      refine .inl ⟨log,rfl,⟨hv,?_,.inr ⟨hco,hl⟩,?_⟩,hco,hro,.inl ⟨hni,hn⟩⟩
      · rw [hst]
      · simp [hn]
    · rw [if_neg hni]
      obtain ⟨result,merkleLog,hp,hv',hr',hcases⟩ := publishSth_cases op hv (by simp [hn]) stamp
      rcases hcases with ⟨sth,rfl,href,hs',hse,hsi⟩|⟨⟨e,rfl⟩,href,-⟩
      · have hpo := length_pos_iff.mpr hni
        rw [hn,nil_append] at hs'
        rw [← hr'] at hl hst
        refine .inl ⟨{log with merkleLog := merkleLog},by simp only [hp]; rfl,
          ⟨hv',?_,.inr ⟨hco,hl⟩,?_⟩,hco,hro,.inr ⟨sth,hni,href,hs',?_,?_⟩⟩
        · exact hst ▸ prefix_refl _
        · simp only [hs',length_singleton]
          omega
        · rw [hse,hn]
          rfl
        · rw [hsi,← hr',hl]
      · exact .inr ⟨.inr ⟨hni,href⟩,e,by simp only [hp]⟩
  · right
    simp only [hf]
    exact ⟨.inl (hca.trans_eq (Nat.zero_add _)),e,rfl⟩

/-- After the durable write the record is committed, or the signer refuses and leaves a leaf
without a record, or the tree is full. -/
theorem commitInMemory_cases (op : KeyPair S) (hm : MemoryValid H S rows log)
    (record : CommitmentRecord) (bytes : Bytes) (stamp : Stamp) :
    (∃ sth merkleLog, log.commitInMemory H op record bytes stamp = (.ok (canonicalHash H bytes),
          log.index record record.entityId log.merkleLog.records.length merkleLog) ∧
      stamp.refusal=none ∧ log.merkleLog.records.length<Tree.capacity ∧
      Valid H S merkleLog ∧ merkleLog.records=log.merkleLog.records++[bytes] ∧
      merkleLog.sths=log.merkleLog.sths++[sth] ∧ sth.sequence=log.merkleLog.sths.length ∧
      sth.treeSize=log.merkleLog.records.length+1) ∨
    (∃ e merkleLog, log.commitInMemory H op record bytes stamp =
        (.error e,{log with merkleLog := merkleLog}) ∧
      stamp.refusal≠none ∧ log.merkleLog.records.length<Tree.capacity ∧
      Valid H S merkleLog ∧ merkleLog.records=log.merkleLog.records++[bytes] ∧
      merkleLog.sths=log.merkleLog.sths) ∨
    log.merkleLog.records.length=Tree.capacity ∧ log.commitInMemory H op record bytes stamp =
      (.error (.valueError "Merkle log capacity exceeded"),log) := by
  rcases Nat.lt_or_eq_of_le hm.valid.capacity with hlt|hf
  · obtain ⟨merkleLog,ha⟩ := hm.valid.append_of_lt bytes hlt
    obtain ⟨hv,-,hr,hs,-⟩ := hm.valid.append ha
    have hh : merkleLog.sths.length ≤ merkleLog.records.length := by
      have hle := hm.heads
      rw [hs,hr,length_append]
      omega
    obtain ⟨result,merkleLog',hp,hv',hr',hcases⟩ := publishSth_cases op hv hh stamp
    rw [hs] at hcases
    rcases hcases with ⟨sth,rfl,href,hs',hse,hsi⟩|⟨⟨e,rfl⟩,href,hs'⟩
    · refine .inl ⟨sth,merkleLog',?_,href,hlt,hv',hr'.trans hr,hs',hse,?_⟩
      · simp [Memory.commitInMemory,ha,hp]
      · rw [hsi,hr,length_append,length_singleton]
    · refine .inr (.inl ⟨e,merkleLog',?_,href,hlt,hv',hr'.trans hr,hs'⟩)
      simp [Memory.commitInMemory,ha,hp]
  · exact .inr (.inr ⟨hf,by simp [Memory.commitInMemory,hm.valid.append_full bytes hf]⟩)

inductive Change (H : CanonicalHash) (S : MLDSA) (sys : System) (event : Event) :
    System → List SignedTreeHead → Prop
  | idle : Change H S sys event sys []
  | stop : Change H S sys event ⟨sys.rows,none⟩ []
  | persisted (row : Row) (log : Memory) (process : Option Memory) :
      sys.process=some log → StoreValid (sys.rows++[row]) →
      log.chain.length=sys.rows.length →
      (∀ log', process=some log' → MemoryValid H S (sys.rows++[row]) log' ∧
        log'.chain.length=sys.rows.length) →
      Change H S sys event ⟨sys.rows++[row],process⟩ []
  | appended (row : Row) (log log' : Memory) (sth : SignedTreeHead) :
      sys.process=some log → StoreValid (sys.rows++[row]) →
      MemoryValid H S (sys.rows++[row]) log' → log.chain.length=sys.rows.length →
      log'.merkleLog.records.length=sys.rows.length+1 →
      log'.merkleLog.sths=log.merkleLog.sths++[sth] →
      sth.sequence=log.merkleLog.sths.length → sth.treeSize=sys.rows.length+1 →
      Change H S sys event ⟨sys.rows++[row],some log'⟩ [sth]
  | booted (log : Memory) (stamp : Stamp) :
      event=.restart stamp → MemoryValid H S sys.rows log →
      log.chain.length=sys.rows.length → sys.rows.length≤Tree.capacity →
      (sys.rows=[] ∧ log.merkleLog.sths=[] ∨
        ∃ sth, sys.rows≠[] ∧ stamp.refusal=none ∧ log.merkleLog.sths=[sth] ∧
          sth.sequence=0 ∧ sth.treeSize=sys.rows.length) →
      Change H S sys event ⟨sys.rows,some log⟩ log.merkleLog.sths

theorem persist_snoc (hs : StoreValid rows) (hm : MemoryValid H S rows log)
    (h : log.persist rows record=.ok (ch,bytes,rows')) :
    ∃ row, rows'=rows++[row] ∧ row.bytes=bytes ∧ StoreValid (rows++[row]) ∧
      log.chain.length=rows.length := by
  obtain ⟨row,hr,hb,hre,hi,hf⟩ := persist_eq_ok hs h
  -- the chain index is free only if memory and store have the same length
  rw [mem_range] at hf
  have hsy := (hm.chain.resolve_left hf).1
  exact ⟨row,hr,hb,hs.snoc (hi.trans hsy) hre,hsy⟩

variable {sys : System}

theorem MemoryValid.records_snoc (hm : MemoryValid H S rows log)
    (hc : log.chain.length=rows.length) (row : Row) :
    log.merkleLog.records++[row.bytes]=storeRecords (rows++[row]) := by
  have hw := hm.records.eq_of_length (by rw [hm.synced hc,length_storeRecords])
  rw [storeRecords_snoc,hw]

theorem append_change (hs : StoreValid sys.rows) (hm : MemoryValid H S sys.rows log)
    (hp : sys.process=some log) (record : CommitmentRecord) (stamp : Stamp) :
    Change H S sys (.append record stamp) (step H op sys (.append record stamp)).1
      (step H op sys (.append record stamp)).2 := by
  simp only [step,hp,Memory.append]
  cases h : log.persist sys.rows record with
  | error e =>
    simp only [drop_length,← hp]
    exact .idle
  | ok r =>
    obtain ⟨ch,bytes,rows'⟩ := r
    obtain ⟨row,rfl,rfl,hs',hsy⟩ := persist_snoc hs hm h
    have hgrown := hm.records_snoc hsy row
    have hlen := congrArg length hgrown
    rw [length_storeRecords,length_append,length_append,length_singleton] at hlen
    have hhe := hm.heads
    have hcs := hm.synced hsy
    dsimp only
    rcases commitInMemory_cases op hm ch row.bytes stamp with
      ⟨sth,merkleLog,hl,-,-,hv,hr,hst,hse,hsi⟩ | ⟨e,merkleLog,hl,-,-,hv,hr,hst⟩ | ⟨-,hl⟩
    · rw [hgrown] at hr
      have hlr : merkleLog.records.length=sys.rows.length+1 := by
        rw [hr,length_storeRecords,length_append,length_singleton]
      have hm' : MemoryValid H S (sys.rows++[row])
          (log.index ch ch.entityId log.merkleLog.records.length merkleLog) :=
        { valid := hv
          records := by rw [Memory.index,hr]
          chain := by
            right
            simp only [Memory.index,length_append,length_singleton,hsy,hlr,and_self]
          heads := by
            simp only [Memory.index,hst,length_append,length_singleton]
            omega}
      rw [hl]
      simp only [Memory.index,hst,drop_left]
      exact .appended row log _ sth hp hs' hm' hsy hlr hst hse (by omega)
    · rw [hl]
      simp only [hst,drop_length]
      refine .persisted row log _ hp hs' hsy fun log' hl' => ?_
      cases hl'
      refine ⟨⟨hv,by rw [hr,hgrown],.inl ?_,?_⟩,hsy⟩
      · rw [length_append,hsy,length_singleton]
        omega
      · rw [hst,hr,length_append]
        omega
    · rw [hl]
      simp only [drop_length]
      refine .persisted row log _ hp hs' hsy fun log' hl' => ?_
      cases hl'
      refine ⟨⟨hm.valid,hm.records.trans (storeRecords_grow _ _),.inl ?_,hhe⟩,hsy⟩
      rw [length_append,hsy,length_singleton]
      omega

structure SystemValid (H : CanonicalHash) (S : MLDSA) (sys : System)
    (published : List SignedTreeHead) : Prop where
  store : StoreValid sys.rows
  memory : ∀ log, sys.process=some log → MemoryValid H S sys.rows log
  covers : ∀ sth ∈ published, Covers H S (storeRecords sys.rows) sth
  /-- The first row is covered by a tree head numbered zero, unless the process that wrote
  it did not publish, and none has started since. -/
  first : sys.rows≠[] → (∃ sth ∈ published, sth.sequence=0 ∧ sth.treeSize=1) ∨
    sys.rows.length=1 ∧ ∀ log, sys.process=some log → log.chain.length=0

variable {pub : List SignedTreeHead}

theorem step_change (hv : SystemValid H S sys pub) (event : Event) :
    Change H S sys event (step H op sys event).1 (step H op sys event).2 := by
  cases event with
  | append record stamp =>
    cases hp : sys.process with
    | none =>
      simp only [step,hp]
      exact .idle
    | some log => exact append_change hv.store (hv.memory log hp) hp record stamp
  | crash record =>
    cases hp : sys.process with
    | none =>
      simp only [step,hp]
      exact .idle
    | some log =>
      simp only [step,hp]
      cases h : log.persist sys.rows record with
      | error e => exact .stop
      | ok r =>
        obtain ⟨ch,bytes,rows'⟩ := r
        obtain ⟨row,rfl,-,hs',hsy⟩ := persist_snoc hv.store (hv.memory log hp) h
        exact .persisted row log none hp hs' hsy fun _ hl => absurd hl (by simp)
  | restart stamp =>
    simp only [step]
    rcases replayFromStore_cases H op hv.store stamp with
      ⟨log,hok,hm,hl,hr,hh⟩ | ⟨-,e,he⟩
    · simp only [hok]
      exact .booted log stamp rfl hm hl hr hh
    · simp only [he]
      exact .stop

section
variable {sys sys' : System} {event : Event} {pub new : List SignedTreeHead}

variable (hv : SystemValid H S sys pub) (h : Change H S sys event sys' new)
include hv h

theorem SystemValid.memory_change :
    ∀ log, sys'.process=some log → MemoryValid H S sys'.rows log := by
  cases h with
  | idle => exact hv.memory
  | stop => exact fun log hlo => absurd hlo (by simp)
  | persisted row log process hp hs hsy hpr => exact fun log' hl' => (hpr log' hl').1
  | appended row log log' sth hp hs hm' hsy hle hst hse hsi =>
    intro l hl
    cases hl
    exact hm'
  | booted log stamp he hm hle hr hh =>
    intro l hl
    cases hl
    exact hm

theorem SystemValid.covers_change : ∀ sth ∈ pub++new, Covers H S (storeRecords sys'.rows) sth := by
  have hg : ∀ row, ∀ sth ∈ pub, Covers H S (storeRecords (sys.rows++[row])) sth :=
    fun row sth hsth => (hv.covers sth hsth).extend (storeRecords_grow _ _)
  cases h with
  | idle | stop =>
    rw [append_nil]
    exact hv.covers
  | persisted row log process hp hs hsy hpr =>
    rw [append_nil]
    exact hg row
  | appended row log log' sth hp hs hm' hsy hl hst hse hsi =>
    intro x hx
    rcases mem_append.mp hx with hx|hx
    · exact hg row x hx
    · rw [mem_singleton.mp hx]
      refine (hm'.valid.covers sth ?_).extend hm'.records
      rw [hst]
      exact mem_append_right _ (mem_singleton_self sth)
  | booted log stamp he hm hl hr hh =>
    intro x hx
    rcases mem_append.mp hx with hx|hx
    · exact hv.covers x hx
    · exact (hm.valid.covers x hx).extend hm.records

theorem SystemValid.first_change (hne : sys'.rows≠[]) :
    (∃ sth ∈ pub++new, sth.sequence=0 ∧ sth.treeSize=1) ∨
      sys'.rows.length=1 ∧ ∀ log, sys'.process=some log → log.chain.length=0 := by
  have hk : (∃ sth ∈ pub, sth.sequence=0 ∧ sth.treeSize=1) →
      ∃ sth ∈ pub++new, sth.sequence=0 ∧ sth.treeSize=1 := by
    rintro ⟨sth,hsth,hz⟩
    exact ⟨sth,mem_append_left _ hsth,hz⟩
  -- a process that holds all rows has published the first one
  have hr : ∀ log, sys.process=some log → log.chain.length=sys.rows.length →
      sys.rows≠[] → ∃ sth ∈ pub++new, sth.sequence=0 ∧ sth.treeSize=1 := by
    intro log hp hsy hro
    rcases hv.first hro with hf|⟨hone,hd⟩
    · exact hk hf
    · have hz := hd log hp
      omega
  cases h with
  | idle => exact (hv.first hne).imp_left hk
  | stop => exact (hv.first hne).imp hk fun ho => ⟨ho.1,fun log hlo => absurd hlo (by simp)⟩
  | persisted row log process hp hs hsy hpr =>
    by_cases hn : sys.rows=[]
    · refine .inr ⟨by simp [hn],fun log' hl' => ?_⟩
      rw [(hpr log' hl').2,hn,length_nil]
    · exact .inl (hr log hp hsy hn)
  | appended row log log' sth hp hs hm' hsy hl hst hse hsi =>
    left
    by_cases hn : sys.rows=[]
    · refine ⟨sth,mem_append_right _ (mem_singleton_self sth),?_,?_⟩
      · have hm := hv.memory log hp
        have hle := hm.heads
        rw [hm.synced hsy,hn,length_nil] at hle
        omega
      · simp [hsi,hn]
    · exact hr log hp hsy hn
  | booted log stamp he hm hl hroo hh =>
    left
    rcases hv.first hne with hf|⟨ho,-⟩
    · exact hk hf
    · rcases hh with ⟨hn,-⟩|⟨sth,-,-,hst,hse,hsi⟩
      · exact absurd hn hne
      · refine ⟨sth,mem_append_right _ ?_,hse,hsi.trans ho⟩
        rw [hst]
        exact mem_singleton_self sth

theorem SystemValid.change : SystemValid H S sys' (pub++new) where
  store := by
    cases h with
    | idle | stop | booted => exact hv.store
    | persisted row log process hp hs => exact hs
    | appended row log log' sth hp hs => exact hs
  memory := hv.memory_change h
  covers := hv.covers_change h
  first := hv.first_change h

end

theorem systemValid_run (H : CanonicalHash) (op : KeyPair S) (events : List Event) :
    SystemValid H S ((deployment H op).state events) ((deployment H op).outputs events) := by
  refine Machine.invariant ?_ ?_ events
  · exact ⟨⟨rfl,by simp [deployment]⟩,fun log hl => absurd hl (by simp [deployment]),
      by simp,fun hne => absurd rfl hne⟩
  · intro sys pub event hv
    exact hv.change (step_change hv event)

/-- Whatever crashes and restarts, each published head signs a prefix of the store. -/
theorem heads_cover_store (events : List Event) :
    let sys := (deployment H op).state events
    StoreValid sys.rows ∧ (∀ log, sys.process=some log → MemoryValid H S sys.rows log) ∧
      ∀ sth ∈ (deployment H op).outputs events, Covers H S (storeRecords sys.rows) sth :=
  have h := systemValid_run H op events
  ⟨h.store,h.memory,h.covers⟩

/-- The restarts that do not incriminate the operator: at most one row is replayed, or the
constructor fails, on more rows than the tree can hold or because the signer refuses. -/
def SafeRestart (sys : System) : Event → Prop
  | .restart stamp => sys.rows.length≤1 ∨ Tree.capacity<sys.rows.length ∨
      stamp.refusal.isSome
  | _ => True

instance (sys : System) (event : Event) : Decidable (SafeRestart sys event) := by
  cases event <;> simp only [SafeRestart] <;> infer_instance

structure Numbered (sys : System) (published : List SignedTreeHead) : Prop where
  published : ∀ sth ∈ published, sth.treeSize=sth.sequence+1
  memory : ∀ log, sys.process=some log → log.chain.length=sys.rows.length →
    log.merkleLog.sths.length=sys.rows.length

theorem Numbered.change {sys' : System} {event : Event} {new : List SignedTreeHead}
    (hn : Numbered sys pub) (hsa : SafeRestart sys event)
    (h : Change H S sys event sys' new) : Numbered sys' (pub++new) := by
  cases h with
  | idle =>
    rw [append_nil]
    exact hn
  | stop =>
    rw [append_nil]
    exact ⟨hn.published,fun log hlo => absurd hlo (by simp)⟩
  | persisted row log process hp hs hsy hpr =>
    rw [append_nil]
    refine ⟨hn.published,fun log' hl' hc => ?_⟩
    have hlt := (hpr log' hl').2
    rw [hlt,length_append,length_singleton] at hc
    omega
  | appended row log log' sth hp hs hm' hsy hle hst hse hsi =>
    have hc := hn.memory log hp hsy
    refine ⟨fun x hx => ?_,fun l hl _ => ?_⟩
    · rcases mem_append.mp hx with hx|hx
      · exact hn.published x hx
      · rw [mem_singleton.mp hx,hsi,hse,hc]
    · cases hl
      rw [hst,length_append,length_append,hc,length_singleton,length_singleton]
  | booted log stamp he hm hle hr hh =>
    subst he
    rcases hh with ⟨hni,hst⟩|⟨sth,hne,href,hst,hse,hsi⟩
    · rw [hst,append_nil]
      refine ⟨hn.published,fun l hl _ => ?_⟩
      cases hl
      simp [hst,hni]
    · have hsm : sys.rows.length≤1 :=
        hsa.resolve_right (not_or.mpr ⟨not_lt.mpr hr,by simp [href]⟩)
      have ho : sys.rows.length=1 := by
        have hpo := length_pos_iff.mpr hne
        omega
      rw [hst]
      refine ⟨fun x hx => ?_,fun l hl _ => ?_⟩
      · rcases mem_append.mp hx with hx|hx
        · exact hn.published x hx
        · rw [mem_singleton.mp hx,hsi,hse,ho]
      · cases hl
        rw [hst,ho,length_singleton]

theorem numbered_run (events : List Event) (hs : (deployment H op).Meets SafeRestart events) :
    Numbered ((deployment H op).state events) ((deployment H op).outputs events) := by
  refine Machine.invariant_over (systemValid_run H op) ?_ ?_ events hs
  · exact ⟨by simp,fun log hl => absurd hl (by simp [deployment])⟩
  · intro sys out event hv hn hc
    exact hn.change hc (step_change hv event)

def Conflict (published : List SignedTreeHead) : Prop :=
  ∃ older ∈ published, ∃ newer ∈ published,
    older.sequence=0 ∧ newer.sequence=0 ∧ older.treeSize=1 ∧ 1<newer.treeSize

theorem Conflict.append (h : Conflict pub) (more : List SignedTreeHead) : Conflict (pub++more) := by
  obtain ⟨older,ho,newer,hn,hc⟩ := h
  exact ⟨older,mem_append_left _ ho,newer,mem_append_left _ hn,hc⟩

theorem conflict_of_restart {event : Event} (hv : SystemValid H S sys pub)
    (hb : ¬SafeRestart sys event) : Conflict (pub++(step H op sys event).2) := by
  cases event with
  | append record stamp => exact absurd trivial hb
  | crash record => exact absurd trivial hb
  | restart stamp =>
    simp only [SafeRestart] at hb
    have hne : sys.rows≠[] := ne_nil_of_length_pos (by omega)
    rcases replayFromStore_cases H op hv.store stamp with
      ⟨log,hok,-,-,-,⟨hn,-⟩ | ⟨sth,-,-,hs,hse,hsi⟩⟩ | ⟨hf | ⟨-,href⟩,-⟩
    · exact absurd hn hne
    · have hnew : (step H op sys (.restart stamp)).2=[sth] := by simp [step,hok,hs]
      rcases hv.first hne with ⟨x,hx,hz,ho⟩|⟨ho,-⟩
      · rw [hnew]
        exact ⟨x,mem_append_left _ hx,sth,
          mem_append_right _ (mem_singleton_self sth),hz,hse,ho,by omega⟩
      · omega
    · omega
    · exact absurd (.inr (.inr (Option.isSome_iff_ne_none.mpr href))) hb

def prefixQueries (H : CanonicalHash) (records : List Bytes) : List Bytes :=
  (List.range (records.length+1)).flatMap fun k => recordQueries H (records.take k)

theorem recordQueries_subset_prefixQueries {rs : List Bytes} {k : ℕ} (h : k≤rs.length) :
    recordQueries H (rs.take k) ⊆ prefixQueries H rs :=
  fun _ hq => mem_flatMap.mpr ⟨k,mem_range.mpr (by omega),hq⟩

theorem detectEquivocation_eq {rs : List Bytes} {sth1 sth2 : SignedTreeHead}
    (h1 : Covers H S rs sth1) (h2 : Covers H S rs sth2) (hs : sth1.sequence=sth2.sequence) :
    detectEquivocation S sth1 sth2=.ok (sth1.rootHash != sth2.rootHash) := by
  have hb : bothVerify S sth1 sth2=.ok true := by
    rw [bothVerify,h1.verify]
    exact h2.verify
  rw [detectEquivocation,if_neg (not_not.mpr hs),hb]
  rfl

theorem never_equivocates_iff_safe_restarts (events : List Event) (hfree : CollisionFree H
      (prefixQueries H (storeRecords ((deployment H op).state events).rows))) :
    (∀ sth1 ∈ (deployment H op).outputs events, ∀ sth2 ∈ (deployment H op).outputs events,
      detectEquivocation S sth1 sth2≠.ok true) ↔ (deployment H op).Meets SafeRestart events := by
  have hv := systemValid_run H op events
  constructor
  · intro hne
    by_contra hb
    obtain ⟨older,ho,newer,hn,hz,hz',hon,hm⟩ : Conflict _ :=
      Machine.bad_of_not_meets (systemValid_run H op) (fun _ _ _ hv hc => conflict_of_restart hv hc)
        (fun _ more hcon => hcon.append more) events hb
    refine hne older ho newer hn ?_
    have hco := hv.covers older ho
    have hcn := hv.covers newer hn
    rw [detectEquivocation_eq hco hcn (hz.trans hz'.symm),Except.ok.injEq,bne_iff_ne]
    obtain ⟨hneo,hro⟩ := hco.root_of_pos (by omega)
    obtain ⟨hnen,hrn⟩ := hcn.root_of_pos (by omega)
    rw [hro,hrn]
    intro heq
    have hs := recordRoot_inj hfree hneo hnen
      (recordQueries_subset_prefixQueries hco.size_le)
      (recordQueries_subset_prefixQueries hcn.size_le) heq
    have hl := congrArg length hs
    rw [length_take_of_le hco.size_le,length_take_of_le hcn.size_le] at hl
    omega
  · intro hsa sth1 h1 sth2 h2 ht
    have hnu := numbered_run events hsa
    by_cases hse : sth1.sequence=sth2.sequence
    · have hsi : sth1.treeSize=sth2.treeSize := by
        rw [hnu.published sth1 h1,hnu.published sth2 h2,hse]
      have hr : sth1.rootHash=sth2.rootHash := by
        rw [(hv.covers sth1 h1).root,(hv.covers sth2 h2).root,hsi]
      rw [detectEquivocation_eq (hv.covers sth1 h1) (hv.covers sth2 h2) hse,hr] at ht
      simp at ht
    · rw [detectEquivocation,if_pos hse] at ht
      simp at ht

def sampleRecord (entityId : String) : CommitmentRecord where
  entityId := entityId
  senderId := "s"
  shardMapRoot := "r"
  contentHash := "c"
  encodingParams := Dict.empty.set "n" (.int 8)
  shape := "t"
  shapeHash := "h"
  timestamp := 0
  ttlEpochs := none
  predecessor := none
  signature := [7]
  senderVk := [9]

def oneRecordRun : List Event :=
  [.restart ⟨0,[],none⟩,.append (sampleRecord "a") ⟨1,[],none⟩,.restart ⟨2,[],none⟩]

def twoRecordsRun : List Event :=
  [.restart ⟨0,[],none⟩,.append (sampleRecord "a") ⟨1,[],none⟩,
    .append (sampleRecord "b") ⟨2,[],none⟩,.restart ⟨3,[],none⟩]

theorem oneRecordRun_never_equivocates : CollisionFree cutHash (prefixQueries cutHash
      (storeRecords ((deployment cutHash plainKeys).state oneRecordRun).rows)) ∧
    (∀ sth1 ∈ (deployment cutHash plainKeys).outputs oneRecordRun,
      ∀ sth2 ∈ (deployment cutHash plainKeys).outputs oneRecordRun,
        detectEquivocation plainScheme sth1 sth2≠.ok true) ∧
    (deployment cutHash plainKeys).Meets SafeRestart oneRecordRun := by
  have hf : CollisionFree cutHash (prefixQueries cutHash
      (storeRecords ((deployment cutHash plainKeys).state oneRecordRun).rows)) := by decide +kernel
  have hn : ∀ sth1 ∈ (deployment cutHash plainKeys).outputs oneRecordRun,
      ∀ sth2 ∈ (deployment cutHash plainKeys).outputs oneRecordRun,
        detectEquivocation plainScheme sth1 sth2≠.ok true := by decide +kernel
  exact ⟨hf,hn,(never_equivocates_iff_safe_restarts oneRecordRun hf).mp hn⟩

theorem twoRecordsRun_equivocates :
    ∃ sth1 ∈ (deployment cutHash plainKeys).outputs twoRecordsRun,
      ∃ sth2 ∈ (deployment cutHash plainKeys).outputs twoRecordsRun,
        detectEquivocation plainScheme sth1 sth2=.ok true := by decide +kernel

end LatticeTransfer.CommitmentLog
