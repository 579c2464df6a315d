import LatticeTransfer.Lifecycle
import LatticeTransfer.SignedEnvelope

/-!
# Challenge windows and fraud proofs

`bridge.fraud_proof` and `bridge.challenge`: the windows of the optimistic bridge, one per
entity, and the three kinds of evidence that move a window to CHALLENGED. A fraud proof is
checked on its own: nothing in it is compared with the window or with what the operator
published. The clock of a call is one of its arguments, and so is the answer of the ZK
verifier.
-/

namespace LatticeTransfer.ChallengeManager
open MerkleTree MerkleInclusion List
open MerkleLog (MLDSA SignedTreeHead signablePayload)
open CommitmentLog (encodeText lengthPrefixed)
open Method (exec_bind exec_call exec_discard exec_get)
open PyValue (bind_ok)

variable (P : SecurityProfile) (S : MLDSA) (H : CanonicalHash)

def domainFraudProof : Bytes := encodeText "SUWAPPU-LTP:fraud-proof:v1\x00"

inductive FraudProofType
  | invalidSignature
  | inconsistentSth
  | invalidMerkleProof
deriving DecidableEq

def FraudProofType.value : FraudProofType → String
  | invalidSignature => "invalid_signature"
  | inconsistentSth => "inconsistent_sth"
  | invalidMerkleProof => "invalid_merkle_proof"

structure InvalidSignatureFraudProof where
  anchorDigest : Bytes
  claimedSignerVk : Bytes
  signedData : Bytes
  signature : Bytes

structure InconsistentSTHFraudProof where
  sthA : SignedTreeHead
  sthB : SignedTreeHead

structure InvalidMerkleProofFraudProof where
  anchorDigest : Bytes
  claimedRoot : Bytes
  proof : PortableMerkleProof

def payload (sth : SignedTreeHead) : Except PyError Bytes :=
  signablePayload sth.sequence sth.treeSize sth.timestamp sth.rootHash

def packIndex (n : ℤ) : Except PyError Bytes :=
  if n<0 then .error .structError else PyValue.pack 8 n.toNat

namespace InvalidSignatureFraudProof

def toBytes (p : InvalidSignatureFraudProof) : Except PyError Bytes := do
  let anchorDigest ← lengthPrefixed p.anchorDigest
  let vk ← lengthPrefixed p.claimedSignerVk
  let data ← lengthPrefixed p.signedData
  let signature ← lengthPrefixed p.signature
  return domainFraudProof++encodeText FraudProofType.invalidSignature.value++anchorDigest ++
    vk++data++signature

def verify (p : InvalidSignatureFraudProof) : Except PyError Bool := do
  let sigValid ← mldsaVerify P S p.claimedSignerVk p.signedData p.signature
  return !sigValid

end InvalidSignatureFraudProof

namespace InconsistentSTHFraudProof

def toBytes (p : InconsistentSTHFraudProof) : Except PyError Bytes := do
  let payloadA ← payload p.sthA
  let payloadB ← payload p.sthB
  return domainFraudProof++encodeText FraudProofType.inconsistentSth.value++payloadA ++
    p.sthA.signature++payloadB++p.sthB.signature

def verify (p : InconsistentSTHFraudProof) : Except PyError Bool :=
  if p.sthA.operatorVk≠p.sthB.operatorVk then .ok false
  else if p.sthA.sequence≠p.sthB.sequence then .ok false
  else if p.sthA.rootHash=p.sthB.rootHash then .ok false
  else do
    let vk := p.sthA.operatorVk
    let sigAValid ← mldsaVerify P S vk (← payload p.sthA) p.sthA.signature
    let sigBValid ← mldsaVerify P S vk (← payload p.sthB) p.sthB.signature
    return sigAValid && sigBValid

end InconsistentSTHFraudProof

namespace InvalidMerkleProofFraudProof

def toBytes (p : InvalidMerkleProofFraudProof) : Except PyError Bytes := do
  let anchorDigest ← lengthPrefixed p.anchorDigest
  let claimedRoot ← lengthPrefixed p.claimedRoot
  let index ← packIndex p.proof.leafIndex
  return domainFraudProof++encodeText FraudProofType.invalidMerkleProof.value++anchorDigest ++
    claimedRoot++index++p.proof.leafHash++p.proof.rootHash

def verify (p : InvalidMerkleProofFraudProof) : Bool := !p.proof.verify H

end InvalidMerkleProofFraudProof

inductive FraudProof
  | invalidSignature (p : InvalidSignatureFraudProof)
  | inconsistentSth (p : InconsistentSTHFraudProof)
  | invalidMerkleProof (p : InvalidMerkleProofFraudProof)

namespace FraudProof

def proofType : FraudProof → FraudProofType
  | invalidSignature _ => .invalidSignature
  | inconsistentSth _ => .inconsistentSth
  | invalidMerkleProof _ => .invalidMerkleProof

def toBytes : FraudProof → Except PyError Bytes
  | invalidSignature p => p.toBytes
  | inconsistentSth p => p.toBytes
  | invalidMerkleProof p => p.toBytes

def proofHash (proof : FraudProof) : Except PyError Bytes := proof.toBytes.map H.run

def verify : FraudProof → Except PyError Bool
  | invalidSignature p => p.verify P S
  | inconsistentSth p => p.verify P S
  | invalidMerkleProof p => .ok (p.verify H)

end FraudProof

inductive ChallengeStatus
  | «open»
  | challenged
  | resolved
  | finalized
  | expired
deriving DecidableEq

def ChallengeStatus.value : ChallengeStatus → String
  | .open => "open"
  | challenged => "challenged"
  | resolved => "resolved"
  | finalized => "finalized"
  | expired => "expired"

section
variable {T : Type}

structure ChallengeRecord (T : Type) where
  entityId : String
  anchorDigest : Bytes
  status : ChallengeStatus
  openedAt : T
  challengeDeadline : T
  challengerId : String
  fraudProofHash : Bytes
  fraudProofType : String
  resolvedAt : T
  resolution : String
deriving DecidableEq

abbrev Windows (T : Type) := Dict String (ChallengeRecord T)

def validTransitions : List (ChallengeStatus × ChallengeStatus) :=
  [(.open,.challenged),(.open,.finalized),(.challenged,.resolved),(.challenged,.expired),
    (.challenged,.finalized)]

def lifecycle : Lifecycle String (ChallengeRecord T) ChallengeStatus where
  status := ChallengeRecord.status
  withStatus record status := {record with status := status}
  valid := validTransitions
  invalid entityId source target := .valueError
    (s!"Invalid challenge transition for '{entityId}': " ++ source.value ++ " -> " ++ target.value)

def openChallengeWindow [Add T] [Zero T] (challengePeriod now : T) (entityId : String)
    (anchorDigest : Bytes) : Method (Windows T) (ChallengeRecord T) := do
  let length := anchorDigest.length
  if length≠32 then
    throw (.valueError s!"anchor_digest must be 32 bytes, got {length}")
  else do
    if ((← get).get? entityId).any fun record =>
        record.status=.open ∨ record.status=.challenged then
      throw (.valueError s!"Challenge window already active for '{entityId}'")
    else do
      let record : ChallengeRecord T :=
        ⟨entityId,anchorDigest,.open,now,now+challengePeriod,"",[],"",0,""⟩
      modify (·.set entityId record)
      return record

def submitChallenge [LinearOrder T] (now : T) (entityId : String) (proof : FraudProof)
    (challengerId : String) : Method (Windows T) (ChallengeRecord T) := do
  match (← get).get? entityId with
  | none => throw .keyError
  | some record =>
    if record.challengeDeadline<now then
      throw (.valueError s!"Challenge window expired for '{entityId}'")
    else do
      let verified ← Method.call (proof.verify P S H)
      if !verified then throw (.valueError "Fraud proof verification failed")
      else do
        let record ← lifecycle.move entityId .challenged fun record =>
          {record with challengerId := challengerId}
        let hash ← Method.call (proof.proofHash H)
        let record := {record with
          fraudProofHash := hash
          fraudProofType := proof.proofType.value}
        modify (·.set entityId record)
        return record

def resolveChallenge (now : T) (entityId resolution : String) :
    Method (Windows T) (ChallengeRecord T) :=
  if resolution ≠ "valid_fraud" ∧ resolution ≠ "invalid_challenge" then
    throw (.valueError s!"Invalid resolution: '{resolution}'")
  else lifecycle.move entityId .resolved fun record =>
    {record with resolvedAt := now,resolution := resolution}

def resolveWithProof (now : T) (entityId : String) (verified : Except PyError Bool) :
    Method (Windows T) (ChallengeRecord T) := do
  let verified ← Method.call verified
  if !verified then throw (.valueError "ZK bridge proof verification failed")
  else do
    match (← get).get? entityId with
    | none => throw .keyError
    | some record =>
      if ¬(record.status=.open ∨ record.status=.challenged) then
        throw (.valueError ("Cannot resolve with proof from status " ++ record.status.value))
      else do
        let record := {record with
          status := .finalized
          resolvedAt := now
          resolution := "zk_proof" }
        modify (·.set entityId record)
        return record

def tickRecord [LinearOrder T] (now : T) (record : ChallengeRecord T) : ChallengeRecord T :=
  if record.status=.open ∧ record.challengeDeadline<now then
    {record with status := .finalized}
  else if record.status=.challenged ∧ record.challengeDeadline<now then
    {record with status := .expired}
  else record

def tick [LinearOrder T] [Zero T] (clock : T) (now : Option T) :
    Method (Windows T) (List String) := do
  let now := match now with
    | some t => if t=0 then clock else t
    | none => clock
  let windows ← get
  modify (·.mapValues (tickRecord now))
  return (windows.entries.filter fun e => (tickRecord now e.2).status≠e.2.status).map Prod.fst

end

section
variable {T : Type} {id : String} {now : T} {d : Windows T}

open Lifecycle

def WritesStatus (entityId : String) (status : ChallengeStatus) (d d' : Windows T) : Prop :=
  d'=d ∨ ∃ record, record.status=status ∧ Writes entityId record d d'

/-- Nothing is written, or the status of a window that was not over. -/
def MovesTo (entityId : String) (status : ChallengeStatus) (d d' : Windows T) : Prop :=
  d'=d ∨ ∃ found record, d.get? entityId=some found ∧
    (found.status=.open ∨ found.status=.challenged) ∧ record.status=status ∧
    Writes entityId record d d'

theorem MovesTo.writes {status : ChallengeStatus} {d' : Windows T} (h : MovesTo id status d d') :
    WritesStatus id status d d' :=
  h.imp_right fun ⟨_,record,_,_,hs,hw⟩ => ⟨record,hs,hw⟩

theorem active_of_valid {source target : ChallengeStatus} (h : (source,target) ∈ validTransitions) :
    source=.open ∨ source=.challenged := by
  cases source <;> simp_all [validTransitions]

variable (id now d) in
theorem openChallengeWindow_exec [Add T] [Zero T] (challengePeriod : T) (digest : Bytes) :
    WritesStatus id .open d ((openChallengeWindow challengePeriod now id digest).exec d).2 := by
  simp only [openChallengeWindow]
  split_ifs with hl
  · exact .inl rfl
  · rw [exec_bind,exec_get]
    dsimp only
    split_ifs with ha
    · exact .inl rfl
    · exact .inr ⟨_,rfl,writes_set _ _ _⟩

theorem submitChallenge_exec [LinearOrder T] (now : T) (entityId : String) (proof : FraudProof)
    (challengerId : String) (d : Windows T) :
    ((submitChallenge P S H now entityId proof challengerId).exec d).2=d ∨
      proof.verify P S H=.ok true ∧ MovesTo entityId .challenged d
        ((submitChallenge P S H now entityId proof challengerId).exec d).2 := by
  rw [submitChallenge,exec_bind,exec_get]
  dsimp only
  split
  next => exact .inl rfl
  next record hr =>
    split_ifs with hl
    · exact .inl rfl
    rw [exec_bind,exec_call]
    cases hv : proof.verify P S H with
    | error e => exact .inl rfl
    | ok verified =>
      cases verified with
      | false => exact .inl rfl
      | true =>
        refine .inr ⟨rfl,?_⟩
        dsimp only
        rw [if_neg (by decide),exec_bind]
        rcases lifecycle.move_exec entityId .challenged
          (fun record => {record with challengerId := challengerId}) d with
          ⟨e,he⟩ | ⟨found,hf,hv,hok,hw⟩
        · rw [he]
          exact .inl rfl
        rw [Method.exec_eq_ok hok]
        -- the window stays challenged if the hash raises
        cases proof.proofHash H with
        | error e => exact .inr ⟨found,_,hf,active_of_valid hv,rfl,hw⟩
        | ok hash => exact .inr ⟨found,_,hf,active_of_valid hv,rfl,hw.set⟩

theorem resolveChallenge_exec (resolution : String) :
    MovesTo id .resolved d ((resolveChallenge now id resolution).exec d).2 := by
  rw [resolveChallenge]
  split_ifs with hr
  · exact .inl rfl
  · rcases lifecycle.move_exec id .resolved
      (fun record => {record with resolvedAt := now,resolution := resolution}) d with
      ⟨e,he⟩ | ⟨found,hf,hv,_,hw⟩
    · rw [he]
      exact .inl rfl
    · exact .inr ⟨found,_,hf,active_of_valid hv,rfl,hw⟩

theorem resolveWithProof_exec (verified : Except PyError Bool) :
    MovesTo id .finalized d ((resolveWithProof now id verified).exec d).2 := by
  rw [resolveWithProof,exec_bind,exec_call]
  cases verified with
  | error e => exact .inl rfl
  | ok verified =>
    cases verified with
    | false => exact .inl rfl
    | true =>
      dsimp only
      rw [if_neg (by decide),exec_bind,exec_get]
      dsimp only
      split
      next => exact .inl rfl
      next record hr =>
        split_ifs with hs
        · exact .inr ⟨record,_,hr,hs,rfl,writes_set _ _ _⟩
        · exact .inl rfl

theorem tickRecord_status [LinearOrder T] (record : ChallengeRecord T)
    (h : (tickRecord now record).status=.challenged) : record.status=.challenged := by
  simp only [tickRecord] at h
  split_ifs at h
  exact h

def Challenged (entityId : String) (d : Windows T) : Prop :=
  ∃ record, d.get? entityId=some record ∧ record.status=.challenged

theorem WritesStatus.not_challenged {other : String} {status : ChallengeStatus} {d' : Windows T}
    (hw : WritesStatus other status d d') (hs : status=.challenged → other≠id)
    (h : ¬Challenged id d) : ¬Challenged id d' := by
  rcases hw with rfl|⟨record,rfl,hw⟩
  · exact h
  rintro ⟨found,hf,hc⟩
  rw [hw id] at hf
  split_ifs at hf with hid
  · cases hf
    exact hs hc hid
  · exact h ⟨found,hf,hc⟩

end

section
variable {T : Type} [LinearOrder T] [Add T] [Zero T] (challengePeriod : T)

inductive Operation (T : Type)
  | openChallengeWindow (now : T) (entityId : String) (anchorDigest : Bytes)
  | submitChallenge (now : T) (entityId : String) (proof : FraudProof) (challengerId : String)
  | resolveChallenge (now : T) (entityId resolution : String)
  | resolveWithProof (now : T) (entityId : String) (verified : Except PyError Bool)
  | tick (clock : T) (now : Option T)

def perform : Operation T → Method (Windows T) Unit
  | .openChallengeWindow now entityId digest =>
    discard (openChallengeWindow challengePeriod now entityId digest)
  | .submitChallenge now entityId proof challengerId =>
    discard (submitChallenge P S H now entityId proof challengerId)
  | .resolveChallenge now entityId resolution =>
    discard (resolveChallenge now entityId resolution)
  | .resolveWithProof now entityId verified => discard (resolveWithProof now entityId verified)
  | .tick clock now => discard (tick clock now)

def machine : Machine (Windows T) (Operation T) Empty where
  start := Dict.empty
  step d operation := (((perform P S H challengePeriod operation).exec d).2,[])

theorem perform_not_challenged {entityId : String} {operation : Operation T} {d : Windows T}
    (hp : ∀ now proof who, operation=.submitChallenge now entityId proof who →
      proof.verify P S H≠.ok true) (h : ¬Challenged entityId d) :
    ¬Challenged entityId ((perform P S H challengePeriod operation).exec d).2 := by
  cases operation with
  | openChallengeWindow now other digest =>
    rw [perform,exec_discard]
    exact (openChallengeWindow_exec _ _ _ challengePeriod digest).not_challenged nofun h
  | submitChallenge now other proof who =>
    rw [perform,exec_discard]
    rcases submitChallenge_exec P S H now other proof who d with
      hs | ⟨hv,hw⟩
    · rw [hs]
      exact h
    · refine hw.writes.not_challenged (fun _ ho => ?_) h
      exact hp now proof who (by rw [ho]) hv
  | resolveChallenge now other res =>
    rw [perform,exec_discard]
    exact (resolveChallenge_exec res).writes.not_challenged nofun h
  | resolveWithProof now other verified =>
    rw [perform,exec_discard]
    exact (resolveWithProof_exec verified).writes.not_challenged nofun h
  | tick clock now =>
    rw [perform,exec_discard]
    rintro ⟨record,hr,hc⟩
    simp only [tick,exec_bind,exec_get,Method.exec_modify,Method.exec_pure,
      Dict.get?_mapValues,Option.map_eq_some_iff] at hr
    obtain ⟨before,hb,rfl⟩ := hr
    exact h ⟨before,hb,tickRecord_status before hc⟩

end

/-- An operator with the tree heads it published, the inclusion proofs it issued and the
messages it signed. -/
structure HonestOperator where
  vk : Bytes
  published : List SignedTreeHead
  issued : List PortableMerkleProof
  signed : Set Bytes
  published_verify : ∀ sth ∈ published, sth.operatorVk=vk ∧
    ∃ message, payload sth=.ok message ∧ mldsaVerify P S vk message sth.signature=.ok true
  issued_verify : ∀ proof ∈ issued, proof.verify H=true
  one_root : ∀ sth sth' message message', payload sth=.ok message →
    payload sth'=.ok message' → message ∈ signed → message' ∈ signed →
    sth.sequence=sth'.sequence → sth.rootHash=sth'.rootHash

namespace HonestOperator
variable {P S H} (op : HonestOperator P S H)

/-- The evidence is about something the operator published, issued or signed. -/
def Concerns : FraudProof → Prop
  | .invalidSignature p => ∃ sth ∈ op.published, p.claimedSignerVk=sth.operatorVk ∧
      payload sth=.ok p.signedData ∧ p.signature=sth.signature
  | .inconsistentSth p => p.sthA.operatorVk=op.vk
  | .invalidMerkleProof p => p.proof ∈ op.issued

/-- No signature of the evidence is a forgery under the key of the operator. -/
def Unforged : FraudProof → Prop
  | .inconsistentSth p => ∀ sth ∈ [p.sthA,p.sthB], ∀ message, payload sth=.ok message →
      mldsaVerify P S op.vk message sth.signature=.ok true → message ∈ op.signed
  | _ => True

theorem verify_inconsistentSth {p : InconsistentSTHFraudProof} (h : p.verify P S=.ok true) :
    p.sthA.sequence=p.sthB.sequence ∧ p.sthA.rootHash≠p.sthB.rootHash ∧
      ∃ messageA messageB, payload p.sthA=.ok messageA ∧ payload p.sthB=.ok messageB ∧
        mldsaVerify P S p.sthA.operatorVk messageA p.sthA.signature=.ok true ∧
        mldsaVerify P S p.sthA.operatorVk messageB p.sthB.signature=.ok true := by
  rw [InconsistentSTHFraudProof.verify] at h
  split_ifs at h with hvk hs hr
  · cases Except.ok.inj h
  · cases Except.ok.inj h
  · cases Except.ok.inj h
  obtain ⟨messageA,hm,h⟩ := bind_ok h
  obtain ⟨validA,hv,h⟩ := bind_ok h
  obtain ⟨messageB,hme,h⟩ := bind_ok h
  obtain ⟨validB,hva,h⟩ := bind_ok h
  obtain ⟨rfl,rfl⟩ : validA=true ∧ validB=true := by simpa [pure,Except.pure] using h
  exact ⟨not_not.mp hs,hr,messageA,messageB,hm,hme,hv,hva⟩

theorem verify_ne_true {proof : FraudProof} (hc : op.Concerns proof)
    (hu : op.Unforged proof) : proof.verify P S H≠.ok true := by
  intro h
  cases proof with
  | invalidSignature p =>
    obtain ⟨sth,hst,hvk,hd,hs⟩ := hc
    obtain ⟨ho,m,hm,hv⟩ := op.published_verify sth hst
    obtain rfl : m=p.signedData := Except.ok.inj (hm.symm.trans hd)
    rw [FraudProof.verify,InvalidSignatureFraudProof.verify,hvk,ho,hs,hv] at h
    cases Except.ok.inj h
  | inconsistentSth p =>
    obtain ⟨hse,hr,messageA,messageB,hA,hB,hva,hval⟩ :=
      verify_inconsistentSth h
    rw [show p.sthA.operatorVk=op.vk from hc] at hva hval
    have hsi := hu p.sthA (by simp) messageA hA hva
    have hsig := hu p.sthB (by simp) messageB hB hval
    exact hr (op.one_root p.sthA p.sthB messageA messageB hA hB hsi hsig hse)
  | invalidMerkleProof p =>
    rw [FraudProof.verify,InvalidMerkleProofFraudProof.verify,op.issued_verify p.proof hc] at h
    cases Except.ok.inj h

/-- The window of an honest operator is never challenged by evidence about what the operator
published, issued or signed, in any run. -/
theorem honest_never_challenged {T : Type} [LinearOrder T] [Add T] [Zero T] (challengePeriod : T)
    (entityId : String) (operations : List (Operation T)) (hevidence : ∀ now proof challengerId,
      .submitChallenge now entityId proof challengerId ∈ operations →
      op.Concerns proof ∧ op.Unforged proof) :
    ¬Challenged entityId ((machine P S H challengePeriod).state operations) := by
  refine Machine.invariant_of_meets (P := fun s _ => ¬Challenged entityId s)
    (C := fun _ operation => operation ∈ operations) ?_ ?_ operations ?_
  · rintro ⟨record,hr,_⟩
    cases hr
  · intro s _ operation hs hm
    refine perform_not_challenged P S H challengePeriod (fun now proof challengerId heq => ?_) hs
    obtain ⟨hc,hu⟩ := hevidence now proof challengerId (heq ▸ hm)
    exact op.verify_ne_true hc hu
  · intro before operation after hsp
    rw [hsp]
    exact mem_append_right _ mem_cons_self

end HonestOperator

section
variable {P S H}

theorem payload_inj {sth sth' : SignedTreeHead} {m : Bytes} (h : payload sth=.ok m)
    (h' : payload sth'=.ok m) : sth.sequence=sth'.sequence ∧ sth.rootHash=sth'.rootHash := by
  have hf : ∀ {sth : SignedTreeHead}, payload sth=.ok m →
      sth.sequence<256^8 ∧ m=PyValue.toBigEndian 8 sth.sequence ++
        (PyValue.toBigEndian 8 sth.treeSize ++
          (PyValue.toBigEndian 8 sth.timestamp.toNat++sth.rootHash)) := by
    intro sth h
    obtain ⟨first,hfi,h⟩ := bind_ok h
    obtain ⟨second,hs,h⟩ := bind_ok h
    simp only [PyValue.pack] at hfi hs
    split_ifs at hfi hs with hse hsi
    cases hfi
    cases hs
    exact ⟨hse,by rw [← Except.ok.inj h]; simp⟩
  obtain ⟨hlt,heq⟩ := hf h
  obtain ⟨hlt',heq'⟩ := hf h'
  rw [heq'] at heq
  obtain ⟨hse,heq⟩ := append_inj heq (by simp)
  obtain ⟨-,heq⟩ := append_inj heq (by simp)
  obtain ⟨-,hr⟩ := append_inj heq (by simp)
  refine ⟨?_,hr.symm⟩
  rw [← PyValue.ofBigEndian_toBigEndian 8 _ hlt,← hse,PyValue.ofBigEndian_toBigEndian 8 _ hlt']

theorem sth_eq_of_sequence {log : MerkleLog.Log} (hv : MerkleLog.Valid H S log)
    {sth sth' : SignedTreeHead} (hm : sth ∈ log.sths) (hm' : sth' ∈ log.sths)
    (h : sth.sequence=sth'.sequence) : sth=sth' := by
  refine inj_on_of_nodup_map ?_ hm hm' h
  rw [hv.sequences]
  exact nodup_range

def logProof (H : CanonicalHash) (records : List Bytes) (i : ℕ) : PortableMerkleProof :=
  fromInclusionProof H ⟨i,records.length,auditPath H i (hashLeaves H records),
    computeRoot H (hashLeaves H records)⟩ .commitmentLog (records.getD i [])

def HonestOperator.ofLog (log : MerkleLog.Log) (hv : MerkleLog.Valid H S log) (vk : Bytes)
    (hvk : vk.length=P.dsaVkSize)
    (hsths : ∀ sth ∈ log.sths, sth.operatorVk=vk ∧ sth.signature.length=P.dsaSigSize) :
    HonestOperator P S H where
  vk := vk
  published := log.sths
  issued := (List.range log.records.length).map (logProof H log.records)
  signed := {message | ∃ sth ∈ log.sths, payload sth=.ok message}
  published_verify sth hsth := by
    obtain ⟨hoperator,hsize⟩ := hsths sth hsth
    obtain ⟨message,hmessage,hverify⟩ := bind_ok (hv.covers sth hsth).verify
    refine ⟨hoperator,message,hmessage,?_⟩
    rw [mldsaVerify,if_neg (not_not.mpr hvk),if_neg (not_not.mpr hsize),← hoperator]
    exact hverify
  issued_verify proof hproof := by
    obtain ⟨i,hi,rfl⟩ := mem_map.mp hproof
    have hget : log.records[i]?=some (log.records.getD i []) := by
      rw [getD_eq_getElem?_getD,getElem?_eq_getElem (mem_range.mp hi)]
      rfl
    exact verify_fromInclusionProof hget .commitmentLog
  one_root sth sth' message message' h h' hsigned hsigned' hsequence := by
    obtain ⟨first,hfirst,hmessage⟩ := hsigned
    obtain ⟨second,hsecond,hmessage'⟩ := hsigned'
    obtain ⟨hseq,hroot⟩ := payload_inj h hmessage
    obtain ⟨hseq',hroot'⟩ := payload_inj h' hmessage'
    rw [hroot,hroot',sth_eq_of_sequence hv hfirst hsecond (by rw [← hseq,← hseq',hsequence])]

end

section

def headProfile : SecurityProfile := ⟨1,1,1,1,1,1,56,by decide,by decide⟩

open MerkleLog in
def headOperator : HonestOperator headProfile plainScheme cutHash :=
  .ofLog (run cutHash plainKeys twoHeads) (valid_run twoHeads) [1] rfl (by
    rw [twoHeads_sths]
    decide +kernel)

def ownEvidence : List FraudProof :=
  [.invalidSignature ⟨List.replicate 32 0,[1],MerkleLog.olderHead.signature,
      MerkleLog.olderHead.signature⟩,
    .inconsistentSth ⟨MerkleLog.olderHead,MerkleLog.newerHead⟩,
    .invalidMerkleProof ⟨List.replicate 32 0,[],logProof cutHash [[10],[11]] 1⟩]

def challenges (evidence : List FraudProof) : List (Operation ℕ) :=
  .openChallengeWindow 0 "a" (List.replicate 32 0) ::
    evidence.map fun proof => .submitChallenge 1 "a" proof "watcher"

theorem payload_heads : payload MerkleLog.olderHead=.ok MerkleLog.olderHead.signature ∧
    payload MerkleLog.newerHead=.ok MerkleLog.newerHead.signature := ⟨rfl,rfl⟩

theorem ownEvidence_concerns :
    ∀ proof ∈ ownEvidence, headOperator.Concerns proof ∧ headOperator.Unforged proof := by
  have hs : ∀ sth ∈ headOperator.published, ∀ m, payload sth=.ok m →
      m ∈ headOperator.signed := fun sth hst m h => ⟨sth,hst,h⟩
  intro proof hp
  simp only [ownEvidence,mem_cons,not_mem_nil,or_false] at hp
  rcases hp with rfl|rfl|rfl
  · refine ⟨⟨MerkleLog.olderHead,?_,rfl,payload_heads.1,rfl⟩,trivial⟩
    exact mem_cons_self
  · refine ⟨rfl,fun sth hst m h _ => hs sth ?_ m h⟩
    exact hst
  · have hr : (MerkleLog.run cutHash MerkleLog.plainKeys MerkleLog.twoHeads).records =
        [[10],[11]] := by decide +kernel
    refine ⟨mem_map.mpr ⟨1,?_,?_⟩,trivial⟩
    · decide
    · rw [hr]

theorem ownEvidence_not_challenged :
    (∀ proof ∈ ownEvidence, headOperator.Concerns proof ∧ headOperator.Unforged proof) ∧
    ¬Challenged "a" ((machine headProfile MerkleLog.plainScheme cutHash 100).state
      (challenges ownEvidence)) := by
  refine ⟨ownEvidence_concerns,headOperator.honest_never_challenged 100 "a" _ ?_⟩
  intro now proof challengerId hm
  have hp : proof ∈ ownEvidence ∧ 1=now ∧ "watcher" = challengerId := by simpa [challenges] using hm
  exact ownEvidence_concerns proof hp.1

def garbage : List FraudProof :=
  [.invalidSignature ⟨List.replicate 32 0,[1],[],[]⟩,
    .invalidMerkleProof ⟨List.replicate 32 0,[],1,.commitmentLog,0,1,[0],[1],[],[]⟩]

theorem garbage_challenges : headOperator.vk=[1] ∧ ∀ proof ∈ garbage,
    Challenged "a" ((machine headProfile MerkleLog.plainScheme cutHash 100).state
      (challenges [proof])) := by
  refine ⟨rfl,fun proof hp => ?_⟩
  simp only [garbage,mem_cons,not_mem_nil,or_false] at hp
  rcases hp with rfl|rfl <;> exact ⟨_,rfl,rfl⟩

end

end LatticeTransfer.ChallengeManager
