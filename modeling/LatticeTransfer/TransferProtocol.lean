import LatticeTransfer.EntityIdentity
import LatticeTransfer.ErasureCoder
import LatticeTransfer.LatticeKey
import LatticeTransfer.ShardNetwork

/-!
# The three phases of the transfer protocol

`LTPProtocol.commit`, `lattice` and `materialize` over the commitment network, its log
and the key registry. The clock, the drawn keys and the randomness of the signers are
arguments of a call. The log has a store or none; without one the durable write is
left out.
-/

namespace LatticeTransfer
open MerkleTree MerkleLog CommitmentLog ShardEncryption ShardNetwork JsonText List
open Method (exec_bind exec_bind_ok exec_call exec_call_bind_ok exec_eq_ok keeps_call keeps_modify
  keeps_pure keeps_throw)
open PyValue (bind_ok exists_ok_of_any)

abbrev HeldEntity := {e : Entity // e.content.length≤2^63-1}

namespace CommitmentLog.CommitmentRecord
variable {P : SecurityProfile} {S : MLDSA} {K : MLKEM}

def sign (record : CommitmentRecord) (sender : LatticeTransfer.KeyPair P S K) (entropy : Bytes) :
    Except PyError CommitmentRecord := do
  let payload ← record.signablePayload
  let signature ← sender.sign entropy payload
  return {record with signature := signature}

variable (P S) in
def verifySignature (record : CommitmentRecord) (senderVk : Bytes) : Except PyError Bool :=
  if record.signature=[] then .ok false
  else do
    let payload ← record.signablePayload
    mldsaVerify P S senderVk payload record.signature

def intParam (record : CommitmentRecord) (key : String) : Except PyError ℤ :=
  match record.encodingParams.get? key with
  | some (.int n) => .ok n
  | some (.text _) => .error .typeError
  | none => .error .keyError

end CommitmentLog.CommitmentRecord

structure Environment (S : MLDSA) where
  canonical : CanonicalHash
  suite : ShardEncryptor.Suite
  hashBytes : Bytes → Bytes
  logOperator : MerkleLog.KeyPair S

structure Protocol (P : SecurityProfile) (S : MLDSA) (K : MLKEM) where
  network : Network
  log : Memory
  store : Option (List Row)
  keyRegistry : Dict String (LatticeTransfer.KeyPair P S K)
  issuedCeks : List Bytes

structure CommitDraws where
  timestamp : UInt64
  cek : Bytes
  entropy : Bytes
  stamp : Stamp

structure SealDraws where
  entropy : Bytes
  nonce : Bytes

namespace Protocol
variable {P : SecurityProfile} {S : MLDSA} {K : MLKEM} (env : Environment S)

def register (keypair : LatticeTransfer.KeyPair P S K) : Method (Protocol P S K) Unit :=
  if keypair.label = "" then throw (.valueError "Cannot register a keypair without a label")
  else modify fun p => {p with keyRegistry := p.keyRegistry.set keypair.label keypair}

def generateCek (drawn : Bytes) : Method (Protocol P S K) Bytes := do
  let (cek,issued) ← Method.call (ShardEncryptor.generateCek (← get).issuedCeks drawn)
  modify fun p => {p with issuedCeks := issued}
  return cek

def onNetwork {α : Type} (m : Method Network α) : Method (Protocol P S K) α :=
  m.on Protocol.network fun p network => {p with network := network}

def logAppend (record : CommitmentRecord) (stamp : Stamp) :
    Method (Protocol P S K) CommitmentRecord := ExceptT.mk fun p =>
  let (result,log,rows) :=
    p.log.append env.canonical env.logOperator (p.store.getD []) record stamp
  (result.map fun _ => {record with predecessor := some p.log.headHash},
    {p with log := log,store := p.store.map fun _ => rows})

def encryptShards (cek : Bytes) (entityId : String) (plaintextShards : List Bytes) :
    Except PyError (List Bytes) :=
  plaintextShards.zipIdx.mapM fun shard =>
    ShardEncryptor.encryptShard env.suite cek entityId shard.1 shard.2

def encodingParams (n k : ℕ) : Dict String ParamValue :=
  ⟨[("n",.int n),("k",.int k),("algorithm",.text "reed-solomon-gf256"),
    ("gf_poly",.text "0x11d"),("eval",.text "vandermonde-powers-of-0x02")],by simp⟩

def defaultN : ℕ := 8
def defaultK : ℕ := 4

/-- A count of zero stands for an absent one, which it is replaced like. -/
def commit (entity : HeldEntity) (sender : LatticeTransfer.KeyPair P S K) (n k : ℕ)
    (draws : CommitDraws) : Method (Protocol P S K) (String × CommitmentRecord × Bytes) := do
  let n := if n=0 then defaultN else n
  let k := if k=0 then defaultK else k
  register sender
  let entityId := entity.val.computeId env.canonical sender.vk draws.timestamp
  let shapeHash := canonicalHash env.canonical (encodeText entity.val.shape)
  let plaintextShards ←
    Method.call (ErasureCoder.encode ⟨entity.val.content,entity.property⟩ n k)
  let cek ← generateCek draws.cek
  let encryptedShards ← Method.call (encryptShards env cek entityId plaintextShards)
  let shardMapRoot ← onNetwork (Network.distributeEncryptedShards env.hashBytes
    env.canonical entityId encryptedShards 2)
  let contentHash := canonicalHash env.canonical entity.val.content
  let record : CommitmentRecord := {
    entityId := entityId
    senderId := sender.label
    shardMapRoot := shardMapRoot
    contentHash := contentHash
    encodingParams := encodingParams n k
    shape := entity.val.shape
    shapeHash := shapeHash
    timestamp := draws.timestamp
    ttlEpochs := none
    predecessor := none
    signature := []
    senderVk := sender.vk}
  let record ← Method.call (record.sign sender draws.entropy)
  let record ← logAppend env record draws.stamp
  return (entityId,record,cek)

def accessPolicyOr : Option (List (String × Json)) → Json
  | none | some [] => .obj [("type",.str "unrestricted")]
  | some policy => .obj policy

def lattice (entityId : String) (record : CommitmentRecord) (cek : Bytes)
    (receiver : LatticeTransfer.KeyPair P S K) (accessPolicy : Option (List (String × Json)))
    (draws : SealDraws) : Except PyError Bytes := do
  let commitmentRef := canonicalHash env.canonical (← record.toBytes)
  let key : LatticeKey := ⟨entityId,cek,commitmentRef,accessPolicyOr accessPolicy⟩
  key.sealTo P K env.suite.cipher receiver.ek draws.entropy draws.nonce

def senderVk (p : Protocol P S K) (record : CommitmentRecord) : Option Bytes :=
  match p.keyRegistry.get? record.senderId with
  | some sender => some sender.vk
  | none => if record.senderVk=[] then none else some record.senderVk

def decryptShard (cek : Bytes) (entityId : String) (plaintextShards : Dict ℕ Bytes)
    (encShard : ℕ × Bytes) : Except PyError (Dict ℕ Bytes) :=
  match ShardEncryptor.decryptShard env.suite cek entityId encShard.2 encShard.1 with
  | .ok shard => .ok (plaintextShards.set encShard.1 shard)
  | .error (.valueError _) => .ok plaintextShards
  | .error e => .error e

def decryptShards (cek : Bytes) (entityId : String) (encryptedShards : Dict ℕ Bytes) :
    Except PyError (Dict ℕ Bytes) :=
  encryptedShards.entries.foldlM (decryptShard env cek entityId) Dict.empty

def reconstruct (key : LatticeKey) (record : CommitmentRecord) (senderVk : Bytes) :
    Method (Protocol P S K) (Option Bytes) := do
  let n ← Method.call (record.intParam "n")
  let k ← Method.call (record.intParam "k")
  let encryptedShards ← onNetwork (Network.fetchEncryptedShards env.hashBytes
    key.entityId n.toNat n.toNat)
  if (encryptedShards.size : ℤ)<k then return none
  let plaintextShards ← Method.call (decryptShards env key.cek key.entityId encryptedShards)
  if (plaintextShards.size : ℤ)<k then return none
  let content ← Method.call (ErasureCoder.decode plaintextShards n.toNat k.toNat)
  let expectedEntityId := canonicalHash env.canonical
    (Entity.identityInput content record.shape record.timestamp senderVk)
  if expectedEntityId≠key.entityId then return none
  return some content

def materialize (sealedKey : Bytes) (receiver : LatticeTransfer.KeyPair P S K)
    (record : Option CommitmentRecord) : Method (Protocol P S K) (Option Bytes) := do
  match LatticeKey.unsealWith env.suite.cipher sealedKey receiver with
  | .error (.valueError _) => return none
  | .error e => throw e
  | .ok key =>
    let p ← get
    match record.or (p.log.records.get? key.entityId) with
    | none => return none
    | some record =>
      let recordRef := canonicalHash env.canonical (← Method.call record.toBytes)
      if recordRef≠key.commitmentRef then return none
      match p.senderVk record with
      | none => return none
      | some senderVk =>
        if ← Method.call (record.verifySignature P S senderVk) then
          reconstruct env key record senderVk
        else return none

theorem commitInMemory_cases (H : CanonicalHash) (op : MerkleLog.KeyPair S) (log : Memory)
    (record : CommitmentRecord) (bytes : Bytes) (stamp : Stamp) :
    (∃ ref leaf merkleLog, log.commitInMemory H op record bytes stamp =
      (.ok ref,log.index record record.entityId leaf merkleLog)) ∨
    ∃ e merkleLog, log.commitInMemory H op record bytes stamp =
      (.error e,{log with merkleLog := merkleLog}) := by
  rw [Memory.commitInMemory]
  split
  next e _ => exact .inr ⟨e,log.merkleLog,rfl⟩
  next leaf merkleLog _ =>
    split
    next e merkleLog' _ => exact .inr ⟨e,merkleLog',rfl⟩
    next merkleLog' _ => exact .inl ⟨_,leaf,merkleLog',rfl⟩

section
variable {env} {p p' : Protocol P S K} {sender : LatticeTransfer.KeyPair P S K}

theorem register_ok (h : (register sender).exec p=(.ok (),p')) :
    p'={p with keyRegistry := p.keyRegistry.set sender.label sender} := by
  rw [register] at h
  split_ifs at h
  · cases (Prod.mk.inj h).1
  · exact (Prod.mk.inj h).2.symm

theorem generateCek_ok {drawn cek : Bytes} (h : (generateCek drawn).exec p=(.ok cek,p')) :
    ∃ issued, p'={p with issuedCeks := issued} := by
  obtain ⟨cur,p1,hg,h⟩ := exec_bind_ok h
  obtain ⟨rfl,rfl⟩ : p=cur ∧ p=p1 := by simpa using hg
  obtain ⟨drawnCek,_,h⟩ := exec_call_bind_ok h
  exact ⟨_,(Prod.mk.inj h).2.symm⟩

theorem onNetwork_ok {α : Type} {m : Method Network α} {a : α}
    (h : (onNetwork m).exec p=(.ok a,p')) :
    ∃ network, m.exec p.network=(.ok a,network) ∧ p'={p with network := network} :=
  Method.exec_on_ok h

variable {record : CommitmentRecord}

theorem logAppend_ok {ch : CommitmentRecord} {stamp : Stamp}
    (h : (logAppend env record stamp).exec p=(.ok ch,p')) :
    ch={record with predecessor := some p.log.headHash} ∧ p.log.records.get? record.entityId=none ∧
      p'.log.records=p.log.records.set record.entityId ch ∧
      (∃ bytes, ch.toBytes=.ok bytes) ∧ p'.keyRegistry=p.keyRegistry ∧ p'.network=p.network := by
  obtain ⟨hr,rfl⟩ := Prod.mk.inj h
  obtain ⟨ref,ha,rfl⟩ := PyValue.exists_of_map_eq_ok hr
  refine ⟨rfl,?_⟩
  cases hp : p.log.persist (p.store.getD []) record with
  | error e =>
    rw [hp] at ha
    cases ha
  | ok written =>
    obtain ⟨ch,bytes,rows⟩ := written
    obtain ⟨hf,rfl,hb,_,_⟩ := persist_ok hp
    simp only [hp] at ha ⊢
    rcases commitInMemory_cases env.canonical env.logOperator p.log
      {record with predecessor := some p.log.headHash} bytes stamp with
      ⟨ref',leaf,merkleLog,hc⟩ | ⟨e,merkleLog,hc⟩
    · rw [hc]
      exact ⟨hf,rfl,⟨bytes,hb⟩,trivial,trivial⟩
    · rw [hc] at ha
      cases ha

theorem sign_ok {signed : CommitmentRecord} {entropy : Bytes}
    (h : record.sign sender entropy=.ok signed) : ∃ payload, record.signablePayload=.ok payload ∧
      (S.sign entropy sender.sk payload).length=P.dsaSigSize ∧
      signed={record with signature := S.sign entropy sender.sk payload} := by
  obtain ⟨payload,hp,h⟩ := bind_ok h
  obtain ⟨signature,hs,h⟩ := bind_ok h
  simp only [KeyPair.sign] at hs
  split_ifs at hs with hsk hsi
  cases hs
  exact ⟨payload,hp,not_not.mp hsi,(Except.ok.inj h).symm⟩

theorem verifySignature_of_sign {payload entropy : Bytes} (hp : record.signablePayload=.ok payload)
    (hsi : (S.sign entropy sender.sk payload).length=P.dsaSigSize)
    (hs : record.signature=S.sign entropy sender.sk payload) :
    record.verifySignature P S sender.vk=.ok true := by
  have hne : record.signature≠[] := by
    intro hn
    rw [← hs,hn] at hsi
    exact P.dsaSigSize_pos.ne hsi
  rw [CommitmentRecord.verifySignature,if_neg hne,hp,hs]
  simp [bind,Except.bind,mldsaVerify,sender.vk_size,hsi,sender.verify_sign]

variable (env) in
def committedShards (entity : HeldEntity) (n k : ℕ) (entityId : String) (cek : Bytes) :
    Except PyError (List Bytes) := do
  let plaintextShards ← ErasureCoder.encode ⟨entity.val.content,entity.property⟩ n k
  encryptShards env cek entityId plaintextShards

variable (env sender) in
structure Records (entity : HeldEntity) (n k : ℕ) (entityId : String)
    (record : CommitmentRecord) : Prop where
  entityId_record : record.entityId=entityId
  entityId_eq : entityId=entity.val.computeId env.canonical sender.vk record.timestamp
  shape : record.shape=entity.val.shape
  senderId : record.senderId=sender.label
  senderVk : record.senderVk=sender.vk
  params : record.encodingParams=encodingParams n k
  bytes : ∃ bytes, record.toBytes=.ok bytes
  verified : record.verifySignature P S sender.vk=.ok true

theorem commit_ok {entity : HeldEntity} {n k : ℕ} (hn : n≠0) (hk : k≠0) {draws : CommitDraws}
    {entityId : String} {cek : Bytes}
    (h : (commit env entity sender n k draws).exec p=(.ok (entityId,record,cek),p')) :
    Records env sender entity n k entityId record ∧
      (∃ encrypted, committedShards env entity n k entityId cek=.ok encrypted ∧
        ∀ i data, p'.network.Serves entityId i data →
          p.network.Serves entityId i data ∨ encrypted[i]?=some data) ∧
      p.log.records.get? entityId=none ∧ p'.log.records=p.log.records.set entityId record ∧
      p'.keyRegistry=p.keyRegistry.set sender.label sender ∧ record.timestamp=draws.timestamp := by
  simp only [commit,if_neg hn,if_neg hk] at h
  obtain ⟨_,p1,hr,h⟩ := exec_bind_ok h
  obtain ⟨plaintextShards,he,h⟩ := exec_call_bind_ok h
  obtain ⟨drawnCek,p2,hc,h⟩ := exec_bind_ok h
  obtain ⟨shards,hen,h⟩ := exec_call_bind_ok h
  obtain ⟨shardMapRoot,p3,hd,h⟩ := exec_bind_ok h
  obtain ⟨signed,hsi,h⟩ := exec_call_bind_ok h
  obtain ⟨ch,p4,ha,h⟩ := exec_bind_ok h
  obtain ⟨hre,rfl⟩ := Prod.mk.inj h
  obtain ⟨rfl,hres⟩ := Prod.mk.inj (Except.ok.inj hre)
  cases hres
  obtain rfl := register_ok hr
  obtain ⟨issued,rfl⟩ := generateCek_ok hc
  obtain ⟨network,hdi,rfl⟩ := onNetwork_ok hd
  obtain ⟨payload,hp,hsiz,rfl⟩ := sign_ok hsi
  obtain ⟨rfl,hf,hrec,hb,hreg,hne⟩ := logAppend_ok ha
  refine ⟨⟨rfl,rfl,rfl,rfl,rfl,rfl,hb,?_⟩,⟨shards,?_,?_⟩,hf,hrec,
    hreg,rfl⟩
  · exact verifySignature_of_sign hp hsiz rfl
  · rw [committedShards,he]
    exact hen
  · intro i data hs
    rw [hne] at hs
    exact Network.serves_distributeEncryptedShards hdi hs

theorem default_ne_zero (m : ℕ) {d : ℕ} (hd : d≠0) : (if m=0 then d else m)≠0 := by
  split_ifs with hm
  · exact hd
  · exact hm

theorem commit_default (entity : HeldEntity) (n k : ℕ) (draws : CommitDraws) :
    commit env entity sender n k draws=commit env entity sender
      (if n=0 then defaultN else n) (if k=0 then defaultK else k) draws := by
  have hn : (if n=0 then defaultN else n)≠0 := default_ne_zero n (by decide)
  have hk : (if k=0 then defaultK else k)≠0 := default_ne_zero k (by decide)
  simp only [commit,if_neg hn,if_neg hk]

end

section
variable {env} {p p' : Protocol P S K} {receiver : LatticeTransfer.KeyPair P S K}

def LogGrows (p p' : Protocol P S K) : Prop :=
  ∀ entityId record, p.log.records.get? entityId=some record →
    p'.log.records.get? entityId=some record

instance : Std.Refl (LogGrows (P := P) (S := S) (K := K)) := ⟨fun _ _ _ h => h⟩

instance : IsTrans (Protocol P S K) LogGrows :=
  ⟨fun _ _ _ h₁ h₂ entityId record h => h₂ entityId record (h₁ entityId record h)⟩

theorem logGrows_of_eq (h : p'.log=p.log) : LogGrows p p' := by
  intro entityId record hg
  rw [h]
  exact hg

theorem logAppend_keeps (record : CommitmentRecord) (stamp : Stamp) :
    Method.Keeps LogGrows (logAppend (P := P) (K := K) env record stamp) := by
  intro p entityId held hg
  change (p.log.append env.canonical env.logOperator (p.store.getD []) record
    stamp).2.1.records.get? entityId=some held
  rw [Memory.append]
  cases hp : p.log.persist (p.store.getD []) record with
  | error e => exact hg
  | ok written =>
    obtain ⟨ch,bytes,rows⟩ := written
    obtain ⟨hf,rfl,_⟩ := persist_ok hp
    have hne : record.entityId≠entityId := by
      intro heq
      rw [heq,hg] at hf
      cases hf
    rcases commitInMemory_cases env.canonical env.logOperator p.log
      {record with predecessor := some p.log.headHash} bytes stamp with
      ⟨ref,leaf,merkleLog,hc⟩ | ⟨e,merkleLog,hc⟩
    · simp only [hc]
      exact (Dict.get?_set_ne _ _ hne).trans hg
    · simp only [hc]
      exact hg

theorem register_keeps (keypair : LatticeTransfer.KeyPair P S K) :
    Method.Keeps LogGrows (register keypair) := by
  rw [register]
  split_ifs
  · exact keeps_throw _
  · exact keeps_modify fun _ => logGrows_of_eq rfl

theorem generateCek_keeps (drawn : Bytes) :
    Method.Keeps (LogGrows (P := P) (S := S) (K := K)) (generateCek drawn) := by
  refine Method.keeps_get.bind fun p => (keeps_call _).bind fun drawnCek => ?_
  refine .bind ?_ fun _ => keeps_pure _
  exact keeps_modify fun _ => logGrows_of_eq rfl

theorem onNetwork_keeps {α : Type} (m : Method Network α) :
    Method.Keeps (LogGrows (P := P) (S := S) (K := K)) (onNetwork m) :=
  Method.keeps_on m fun _ _ => logGrows_of_eq rfl

theorem commit_keeps (entity : HeldEntity) (sender : LatticeTransfer.KeyPair P S K) (n k : ℕ)
    (draws : CommitDraws) : Method.Keeps LogGrows (commit env entity sender n k draws) := by
  refine (register_keeps sender).bind fun _ => (keeps_call _).bind fun _ => ?_
  refine (generateCek_keeps _).bind fun _ => (keeps_call _).bind fun _ => ?_
  refine (onNetwork_keeps _).bind fun _ => (keeps_call _).bind fun _ => ?_
  exact (logAppend_keeps _ _).bind fun _ => keeps_pure _

theorem reconstruct_keeps (key : LatticeKey) (record : CommitmentRecord) (senderVk : Bytes) :
    Method.Keeps (LogGrows (P := P) (S := S) (K := K)) (reconstruct env key record senderVk) := by
  refine (keeps_call _).bind fun n => (keeps_call _).bind fun k => ?_
  refine (onNetwork_keeps _).bind fun shards => ?_
  split_ifs
  · exact keeps_pure _
  refine (keeps_call _).bind fun plaintextShards => ?_
  split_ifs
  · exact keeps_pure _
  refine (keeps_call _).bind fun content => ?_
  dsimp only
  split_ifs <;> exact keeps_pure _

theorem materialize_keeps (sealedKey : Bytes) (record : Option CommitmentRecord) :
    Method.Keeps LogGrows (materialize env sealedKey receiver record) := by
  rw [materialize]
  split
  · exact keeps_pure _
  · exact keeps_throw _
  refine Method.keeps_get.bind fun p => ?_
  split
  · exact keeps_pure _
  refine (keeps_call _).bind fun recordBytes => ?_
  dsimp only
  split_ifs
  · exact keeps_pure _
  split
  · exact keeps_pure _
  refine (keeps_call _).bind fun ok => ?_
  split_ifs
  · exact reconstruct_keeps _ _ _
  · exact keeps_pure _

theorem reconstruct_ok {key : LatticeKey} {record : CommitmentRecord} {senderVk content : Bytes}
    (h : (reconstruct env key record senderVk).exec p=(.ok (some content),p')) :
    canonicalHash env.canonical
      (Entity.identityInput content record.shape record.timestamp senderVk)=key.entityId := by
  obtain ⟨n,_,h⟩ := exec_call_bind_ok h
  obtain ⟨k,_,h⟩ := exec_call_bind_ok h
  obtain ⟨shards,p1,_,h⟩ := exec_bind_ok h
  split_ifs at h
  · cases (Prod.mk.inj h).1
  obtain ⟨plaintextShards,_,h⟩ := exec_call_bind_ok h
  split_ifs at h
  · cases (Prod.mk.inj h).1
  obtain ⟨decoded,_,h⟩ := exec_call_bind_ok h
  dsimp only at h
  split_ifs at h with hid
  · cases (Prod.mk.inj h).1
  cases Except.ok.inj (Prod.mk.inj h).1
  exact not_not.mp hid

theorem materialize_ok {sealedKey content : Bytes} {key : LatticeKey}
    (hu : LatticeKey.unsealWith env.suite.cipher sealedKey receiver=.ok key)
    (h : (materialize env sealedKey receiver none).exec p=(.ok (some content),p')) :
    ∃ record senderVk, p.log.records.get? key.entityId=some record ∧
      p.senderVk record=some senderVk ∧ canonicalHash env.canonical
        (Entity.identityInput content record.shape record.timestamp senderVk)=key.entityId := by
  simp only [materialize,hu] at h
  obtain ⟨cur,p1,hg,h⟩ := exec_bind_ok h
  obtain ⟨rfl,rfl⟩ : p=cur ∧ p=p1 := by simpa using hg
  split at h
  · cases (Prod.mk.inj h).1
  next record hrecord =>
    obtain ⟨recordBytes,_,h⟩ := exec_call_bind_ok h
    split_ifs at h
    · cases (Prod.mk.inj h).1
    split at h
    · cases (Prod.mk.inj h).1
    next senderVk hvk =>
      obtain ⟨verified,_,h⟩ := exec_call_bind_ok h
      split_ifs at h
      · exact ⟨record,senderVk,hrecord,hvk,reconstruct_ok h⟩
      · cases (Prod.mk.inj h).1

end

section
variable {env} {p p' : Protocol P S K} {sender receiver : LatticeTransfer.KeyPair P S K}

/-- The indices under which a retrieval returned the committed ciphertext. -/
def untampered (encrypted : List Bytes) (fetched : Dict ℕ Bytes) : List ℕ :=
  (fetched.entries.filter fun e => encrypted[e.1]?=some e.2).map Prod.fst

variable (env) in
def cipherRejects (cek : Bytes) (entityId : String) (shardIndex : ℕ) (data : Bytes) : Bool :=
  match ShardEncryptor.nonce env.suite cek entityId shardIndex,
    ShardEncryptor.aad entityId shardIndex with
  | .ok nonce, .ok aad => (env.suite.cipher.decrypt data (AEAD.orNone aad) nonce cek).isNone
  | _, _ => false

variable (env) in
/-- The cipher rejects every returned shard that is not the committed one. -/
def RejectsAltered (cek : Bytes) (entityId : String) (encrypted : List Bytes)
    (fetched : Dict ℕ Bytes) : Prop :=
  ∀ e ∈ fetched.entries, encrypted[e.1]?≠some e.2 →
    cipherRejects env cek entityId e.1 e.2=true

instance (cek : Bytes) (entityId : String) (encrypted : List Bytes) (fetched : Dict ℕ Bytes) :
    Decidable (RejectsAltered env cek entityId encrypted fetched) :=
  inferInstanceAs (Decidable (∀ e ∈ fetched.entries, encrypted[e.1]?≠some e.2 →
    cipherRejects env cek entityId e.1 e.2=true))

variable {cek : Bytes} {entityId : String} {encrypted : List Bytes}

theorem encryptShards_ok {pt : List Bytes} (h : encryptShards env cek entityId pt=.ok encrypted) :
    encrypted.length=pt.length ∧ ∀ i c, encrypted[i]?=some c → ∃ shard, pt[i]?=some shard ∧
        ShardEncryptor.encryptShard env.suite cek entityId shard i=.ok c := by
  have hp := PyValue.forall₂_of_mapM_ok h
  have hl : encrypted.length=pt.length := by rw [← hp.length_eq,length_zipIdx]
  refine ⟨hl,fun i c hc => ?_⟩
  obtain ⟨hi,rfl⟩ := List.getElem?_eq_some_iff.mp hc
  have hi' : i<pt.zipIdx.length := by
    rw [length_zipIdx,← hl]
    exact hi
  have hg := hp.get hi' hi
  simp only [get_eq_getElem,getElem_zipIdx,zero_add] at hg
  exact ⟨_,List.getElem?_eq_getElem _,hg⟩

theorem decryptShard_altered {shard c data : Bytes} {i : ℕ}
    (hs : ShardEncryptor.encryptShard env.suite cek entityId shard i=.ok c)
    (hreject : cipherRejects env cek entityId i data=true) :
    ∃ m, ShardEncryptor.decryptShard env.suite cek entityId data i = .error (.valueError m) := by
  obtain ⟨_,_,hs⟩ := bind_ok hs
  obtain ⟨nonce,hn,hs⟩ := bind_ok hs
  obtain ⟨aad,ha,hs⟩ := bind_ok hs
  have hsi := (AEAD.encrypt_ok hs).1
  simp only [cipherRejects,hn,ha,Option.isNone_iff_eq_none] at hreject
  refine ⟨"AEAD authentication FAILED — data has been tampered with",?_⟩
  rw [ShardEncryptor.decryptShard,hn,ha]
  simp only [bind,Except.bind,AEAD.decrypt,AEAD.checkNonce,hsi,hreject]
  rfl

theorem decryptShards_foldlM {pt : List Bytes}
    (hg : ∀ i c, encrypted[i]?=some c → ∃ shard, pt[i]?=some shard ∧
      ShardEncryptor.decryptShard env.suite cek entityId c i=.ok shard)
    (es : List (ℕ × Bytes)) (hb : ∀ e ∈ es, encrypted[e.1]?≠some e.2 → ∃ m,
      ShardEncryptor.decryptShard env.suite cek entityId e.2 e.1=.error (.valueError m))
    (start : Dict ℕ Bytes) (hs : ∀ e ∈ start.entries, pt[e.1]?=some e.2)
    (hn : (start.keys++es.map Prod.fst).Nodup) :
    ∃ plain, es.foldlM (decryptShard env cek entityId) start=.ok plain ∧
      plain.keys=start.keys++(es.filter fun e => encrypted[e.1]?=some e.2).map Prod.fst ∧
      ∀ e ∈ plain.entries, pt[e.1]?=some e.2 := by
  induction es generalizing start with
  | nil => exact ⟨start,rfl,by simp,hs⟩
  | cons e es ih =>
    obtain ⟨i,data⟩ := e
    rw [forall_mem_cons] at hb
    rw [foldlM_cons]
    by_cases hc : encrypted[i]?=some data
    · obtain ⟨shard,hsh,hd⟩ := hg i data hc
      have hst : decryptShard env cek entityId start (i,data)=.ok (start.set i shard) := by
        simp [decryptShard,hd]
      have hne : i ∉ start.keys := fun hm =>
        (nodup_append.mp hn).2.2 i hm i mem_cons_self rfl
      have hk := start.keys_set_of_notMem shard hne
      have hse : ∀ e ∈ (start.set i shard).entries, pt[e.1]?=some e.2 := by
        intro e he
        rw [← Dict.get?_eq_some_iff,Dict.get?_set] at he
        split_ifs at he with hi
        · rw [← hi,hsh,he]
        · exact hs e ((start.get?_eq_some_iff _ _).mp he)
      have hr : ((start.set i shard).keys++es.map Prod.fst).Nodup := by
        rw [hk,append_assoc]
        exact hn
      obtain ⟨plain,hp,hpl,hsha⟩ := ih hb.2 (start.set i shard) hse hr
      refine ⟨plain,?_,?_,hsha⟩
      · rw [hst]
        exact hp
      · rw [hpl,hk,filter_cons_of_pos (by simpa using hc),
          append_assoc]
        rfl
    · obtain ⟨m,hd⟩ := hb.1 hc
      have hst : decryptShard env cek entityId start (i,data)=.ok start := by simp [decryptShard,hd]
      have hr : (start.keys++es.map Prod.fst).Nodup :=
        hn.sublist (.append_left (sublist_cons_self _ _) _)
      obtain ⟨plain,hp,hpl,hsha⟩ := ih hb.2 start hs hr
      refine ⟨plain,?_,?_,hsha⟩
      · rw [hst]
        exact hp
      · rw [hpl,filter_cons_of_neg (by simpa using hc)]

variable {record : CommitmentRecord} {n k : ℕ}

theorem intParam_encodingParams (h : record.encodingParams=encodingParams n k) :
    record.intParam "n" = .ok (n : ℤ) ∧ record.intParam "k" = .ok (k : ℤ) := by
  rw [CommitmentRecord.intParam,CommitmentRecord.intParam,h]
  exact ⟨rfl,rfl⟩

variable {entity : HeldEntity}

theorem senderVk_eq (hrecord : Records env sender entity n k entityId record)
    (hr : ∀ kp, p.keyRegistry.get? sender.label=some kp → kp.vk=sender.vk) :
    p.senderVk record=some sender.vk := by
  rw [senderVk,hrecord.senderId]
  cases hg : p.keyRegistry.get? sender.label with
  | some kp => exact congrArg some (hr kp hg)
  | none =>
    have hne : sender.vk≠[] := by
      intro hn
      have hs := sender.vk_size
      rw [hn] at hs
      exact P.dsaVkSize_pos.ne hs
    simp [hrecord.senderVk,hne]

variable {fetched : Dict ℕ Bytes} {network : Network}

section
variable {key : LatticeKey} (hrc : Records env sender entity n k key.entityId record)
  (hencrypted : committedShards env entity n k key.entityId key.cek=.ok encrypted)
  (hfetch : (Network.fetchEncryptedShards env.hashBytes key.entityId n n).exec
    p.network=(.ok fetched,network)) (huntampered : k≤(untampered encrypted fetched).length)
  (hreject : RejectsAltered env key.cek key.entityId encrypted fetched)
include hrc hencrypted hfetch huntampered hreject

theorem reconstruct_eq_content :
    ((reconstruct env key record sender.vk).exec p).1=.ok (some entity.val.content) := by
  obtain ⟨pt,hen,hencr⟩ := bind_ok hencrypted
  obtain ⟨hk,hkn,hn,rfl⟩ := ErasureCoder.encode_ok hen
  obtain ⟨hl,hci⟩ := encryptShards_ok hencr
  rw [ErasureCoder.length_shardsOf] at hl
  have hg : ∀ i c, encrypted[i]?=some c →
      ∃ shard, (ErasureCoder.shardsOf ⟨entity.val.content,entity.property⟩ n k)[i]?=some shard ∧
        ShardEncryptor.decryptShard env.suite key.cek key.entityId c i=.ok shard := by
    intro i c hc
    obtain ⟨shard,hs,henc⟩ := hci i c hc
    exact ⟨shard,hs,ShardEncryptor.decryptShard_of_encryptShard henc⟩
  have hb : ∀ e ∈ fetched.entries, encrypted[e.1]?≠some e.2 → ∃ m,
      ShardEncryptor.decryptShard env.suite key.cek key.entityId e.2 e.1 =
        .error (.valueError m) := by
    intro e he ha
    have hi : e.1<encrypted.length := by
      rw [hl]
      exact (Network.fetchEncryptedShards_sound hfetch ((fetched.get?_eq_some_iff _ _).mpr he)).1
    obtain ⟨shard,_,henc⟩ := hci e.1 _ (getElem?_eq_getElem hi)
    exact decryptShard_altered henc (hreject e he ha)
  obtain ⟨plain,hp,hke,hsh⟩ := decryptShards_foldlM hg fetched.entries hb
    Dict.empty (by simp [Dict.empty]) fetched.nodup
  have hsi : k≤plain.size := by
    rw [← Dict.length_keys,hke]
    exact huntampered
  have hf : k≤fetched.size := by
    refine le_trans huntampered ?_
    rw [untampered,length_map]
    exact length_filter_le _ _
  have hd : decryptShards env key.cek key.entityId fetched=.ok plain := hp
  have hde := ErasureCoder.decode_shardsOf ⟨entity.val.content,entity.property⟩ hk hn hsh
    hsi
  obtain ⟨hpa,hpar⟩ := intParam_encodingParams hrc.params
  have hid : canonicalHash env.canonical (Entity.identityInput entity.val.content record.shape
      record.timestamp sender.vk)=key.entityId := by
    rw [hrc.shape]
    exact hrc.entityId_eq.symm
  have heno : ¬(fetched.size : ℤ)<k := by omega
  have hpl : ¬(plain.size : ℤ)<k := by omega
  simp only [reconstruct,hpa,hpar,exec_bind,exec_call,onNetwork,
    Method.exec_on,Int.toNat_natCast,hfetch,heno,hd,hpl,hde,hid,ne_eq,
    not_true_eq_false,↓reduceIte,Method.exec_pure]

theorem materialize_eq_content {sealedKey bytes : Bytes}
    (hu : LatticeKey.unsealWith env.suite.cipher sealedKey receiver=.ok key)
    (hb : record.toBytes=.ok bytes) (href : key.commitmentRef=canonicalHash env.canonical bytes)
    (hl : p.log.records.get? key.entityId=some record)
    (hr : ∀ kp, p.keyRegistry.get? sender.label=some kp → kp.vk=sender.vk) :
    ((materialize env sealedKey receiver none).exec p).1=.ok (some entity.val.content) := by
  have hvk := senderVk_eq hrc hr
  have hre := reconstruct_eq_content hrc hencrypted hfetch huntampered hreject
  simp only [materialize,hu,exec_bind,Method.exec_get,Option.none_or,hl,hb,
    exec_call,href,hvk,hrc.verified,ne_eq]
  exact hre

end

/-- Whatever the nodes became, the receiver of the sealed key gets the committed content. -/
theorem materialize_recovers {entity : HeldEntity} {n k : ℕ} (hk : 1≤k) (hkn : k<n)
    {draws : CommitDraws} {entityId : String} {record : CommitmentRecord} {cek : Bytes}
    (hcommit : (commit env entity sender n k draws).exec p=(.ok (entityId,record,cek),p'))
    {accessPolicy : Option (List (String × Json))} {sealDraws : SealDraws} {sealedKey : Bytes}
    (hlattice : lattice env entityId record cek receiver accessPolicy sealDraws=.ok sealedKey)
    {encrypted : List Bytes}
    (hencrypted : committedShards env entity n k entityId cek=.ok encrypted)
    {faulty : Network} {fetched : Dict ℕ Bytes} {network : Network}
    (hfetch : (Network.fetchEncryptedShards env.hashBytes entityId n n).exec faulty =
      (.ok fetched,network)) (huntampered : k≤(untampered encrypted fetched).length)
    (hreject : RejectsAltered env cek entityId encrypted fetched) :
    ((materialize env sealedKey receiver none).exec {p' with network := faulty}).1 =
      .ok (some entity.val.content) := by
  obtain ⟨hrecord,_,_,hr,hkeys,_⟩ := commit_ok (by omega) (by omega) hcommit
  obtain ⟨bytes,hb⟩ := hrecord.bytes
  rw [lattice,hb] at hlattice
  have hu := LatticeKey.unsealWith_sealTo hlattice
  refine materialize_eq_content hrecord hencrypted hfetch huntampered hreject hu hb rfl ?_
    fun kp hkp => ?_
  · change p'.log.records.get? entityId=_
    rw [hr,Dict.get?_set_self]
  · change p'.keyRegistry.get? sender.label=some kp at hkp
    rw [hkeys,Dict.get?_set_self] at hkp
    rw [← Option.some.inj hkp]

def plainProfile : SecurityProfile := ⟨1,1,1,1,1,1,32,Nat.one_pos,by decide⟩

def plainKem : MLKEM := ⟨fun _ _ => ([5],[6]),fun _ _ => [6]⟩

def truncationScheme : MLDSA where
  sign _ _ message := cutHash.run message
  verify _ message signature := cutHash.run message == signature

def plainKeyPair (label : String) :
    LatticeTransfer.KeyPair plainProfile truncationScheme plainKem where
  ek := [1]
  dk := [2]
  vk := [3]
  sk := [4]
  label := label
  dk_size := rfl
  vk_size := rfl
  decrypt_encrypt _ := rfl
  verify_sign _ _ := beq_self_eq_true _

def plainEnvironment : Environment truncationScheme where
  canonical := cutHash
  suite := ⟨fun _ message => (message++List.replicate 32 0).take 32,taggingCipher⟩
  hashBytes b := [UInt8.ofNat b.length]
  logOperator := ⟨[1],[2],fun _ _ => beq_self_eq_true _⟩

def freshProtocol (nodes : List String) : Protocol plainProfile truncationScheme plainKem where
  network := nodes.foldl (fun net nodeId => net.addNode nodeId "us-east") Network.empty
  log := Memory.init
  store := none
  keyRegistry := Dict.empty
  issuedCeks := []

def plainDraws : CommitDraws := ⟨0,1::List.replicate 31 0,[],⟨0,[],none⟩⟩

def plainSeal : SealDraws := ⟨[],List.replicate 24 0⟩

def tamper (entityId : String) (shardIndex : ℕ) (data : Bytes) (net : Network) : Network :=
  {net with nodes := net.nodes.map fun node =>
      {node with shards := node.shards.set (entityId,shardIndex) data}}

def letter : HeldEntity := ⟨Entity.plainEntity,by decide⟩

def letterCommit : Except PyError (String × CommitmentRecord × Bytes) ×
    Protocol plainProfile truncationScheme plainKem :=
  (commit plainEnvironment letter (plainKeyPair "alice") 3 2 plainDraws).exec
    (freshProtocol ["a","b","c"])

theorem tampered_letter_recovered : ∃ entityId record cek after sealedKey,
    letterCommit=(.ok (entityId,record,cek),after) ∧
      lattice plainEnvironment entityId record cek (plainKeyPair "bob") none plainSeal =
        .ok sealedKey ∧ ((materialize plainEnvironment sealedKey (plainKeyPair "bob") none).exec
        {after with network := tamper entityId 1 [0] after.network}).1=.ok (some [0x78]) := by
  have hru : letterCommit.1.toOption.any (fun out =>
      (lattice plainEnvironment out.1 out.2.1 out.2.2 (plainKeyPair "bob") none
        plainSeal).toOption.any fun _ =>
      (committedShards plainEnvironment letter 3 2 out.1 out.2.2).toOption.any fun encrypted =>
      ((Network.fetchEncryptedShards plainEnvironment.hashBytes out.1 3 3).exec
        (tamper out.1 1 [0] letterCommit.2.network)).1.toOption.any fun fetched =>
      decide (2≤(untampered encrypted fetched).length ∧ encrypted[1]?≠fetched.get? 1 ∧
        RejectsAltered plainEnvironment out.2.2 out.1 encrypted fetched))=true := by decide +kernel
  obtain ⟨⟨entityId,record,cek⟩,hc,hru⟩ := exists_ok_of_any hru
  obtain ⟨sealedKey,hl,hru⟩ := exists_ok_of_any hru
  obtain ⟨encrypted,hencrypted,hru⟩ := exists_ok_of_any hru
  obtain ⟨fetched,hfetch,hru⟩ := exists_ok_of_any hru
  obtain ⟨huntampered,_,hreject⟩ := of_decide_eq_true hru
  obtain ⟨after,hle⟩ : ∃ after, letterCommit=(.ok (entityId,record,cek),after) :=
    ⟨_,exec_eq_ok hc⟩
  rw [hle] at hfetch
  refine ⟨entityId,record,cek,after,sealedKey,hle,hl,?_⟩
  exact materialize_recovers (by decide) (by decide) hle hl hencrypted (exec_eq_ok hfetch)
    huntampered hreject

end

end Protocol
end LatticeTransfer
