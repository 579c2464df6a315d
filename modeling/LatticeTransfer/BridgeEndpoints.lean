import LatticeTransfer.BridgeMessages
import LatticeTransfer.SignerPolicy

/-!
# The ends of the bridge

`L1Anchor.commit_message`, `Relayer.relay` and `L2Materializer.materialize` over the
protocol object they share. The anchor admits the nonces of a sender in increasing
order. The materializer compares its own chain, its record of seen packets and its view
of the source chain with the fields of the packet, opens the sealed key and then
compares the message inside with the packet.
-/

namespace LatticeTransfer
open MerkleTree MerkleLog CommitmentLog ShardEncryption JsonText Protocol
open Method (exec_bind exec_bind_ok exec_call exec_call_bind_ok exec_first_ok exec_get exec_modify
  exec_on exec_pure keeps_call keeps_modify keeps_pure keeps_throw)

variable (P : SecurityProfile) (S : MLDSA) (K : MLKEM)

structure Clock where
  issued : ℚ
  checked : ℚ

structure L1Anchor where
  operatorKeypair : LatticeTransfer.KeyPair P S K
  chainId : String
  sequenceTracker : SequenceTracker
  blockCounter : ℕ
  sequenceCounter : ℕ
  nonceHwm : Dict (String × String) ℤ

structure Relayer where
  policy : Option SignerPolicy
  relayKeypair : Option (LatticeTransfer.KeyPair P S K)

structure L2Materializer where
  verifierKeypair : LatticeTransfer.KeyPair P S K
  chainId : String
  requiredConfirmations : ℤ
  sequenceTracker : SequenceTracker
  currentL1Block : ℤ
  sequenceCounter : ℕ
  seenPackets : Finset (String × ℤ)

/-- What the anchor reads from outside. Of the approval receipt only the outcome of its
creation matters: it is written to the log file and dropped. -/
structure AnchorDraws where
  clock : Clock
  commit : CommitDraws
  receipt : Except PyError Unit
  timestamp : UInt64
  entropy : Bytes

structure RelayDraws where
  epoch : ℤ
  sealing : SealDraws
  timestamp : UInt64
  entropy : Bytes

variable {P S K} (env : Environment S)

def shortId (entityId : String) : String := String.ofList (entityId.toList.take 16)

def Protocol.getInclusionProof (entityId : String) :
    Method (Protocol P S K) (Option LogProof) := ExceptT.mk fun p =>
  let (result,log) := p.log.getInclusionProof env.canonical entityId
  (result,{p with log := log})

namespace Protocol
variable {env}

structure SameContents (p p' : Protocol P S K) : Prop where
  records : p'.log.records=p.log.records
  network : p'.network=p.network
  registry : p'.keyRegistry=p.keyRegistry

instance : Std.Refl (SameContents (P := P) (S := S) (K := K)) := ⟨fun _ => ⟨rfl,rfl,rfl⟩⟩

instance : IsTrans (Protocol P S K) SameContents :=
  ⟨fun _ _ _ h₁ h₂ => ⟨h₂.records.trans h₁.records,h₂.network.trans h₁.network,
    h₂.registry.trans h₁.registry⟩⟩

theorem SameContents.logGrows {p p' : Protocol P S K} (h : SameContents p p') : LogGrows p p' := by
  intro id record hg
  rw [h.records]
  exact hg

theorem getInclusionProof_keeps (id : String) :
    Method.Keeps (SameContents (P := P) (S := S) (K := K)) (getInclusionProof env id) := by
  intro p
  refine ⟨?_,rfl,rfl⟩
  change (p.log.getInclusionProof env.canonical id).2.records=p.log.records
  rw [Memory.getInclusionProof]
  split_ifs
  · rfl
  · split
    · rfl
    · split <;> rfl

end Protocol

namespace L1Anchor

def init (operatorKeypair : LatticeTransfer.KeyPair P S K) (chainId : String) : L1Anchor P S K :=
  ⟨operatorKeypair,chainId,⟨chainId,Dict.empty⟩,0,0,Dict.empty⟩

def currentNonce (anchor : L1Anchor P S K) (message : BridgeMessage) : ℤ :=
  (anchor.nonceHwm.get? (message.sourceChain,message.sender)).getD (-1)

def recordNonce (anchor : L1Anchor P S K) (message : BridgeMessage) : L1Anchor P S K :=
  let nonceKey := (message.sourceChain,message.sender)
  {anchor with nonceHwm := anchor.nonceHwm.set nonceKey message.nonce}

def admitMessage (message : BridgeMessage) : Method (L1Anchor P S K) Unit := do
  let anchor ← get
  let source := message.sourceChain
  let chain := anchor.chainId
  if source≠chain then
    throw (.valueError s!"Message source_chain '{source}' does not match anchor chain '{chain}'")
  else
    let nonce := message.nonce
    let sender := message.sender
    if nonce≤anchor.currentNonce message then
      throw (.valueError
        s!"Nonce {nonce} for sender {sender} is not strictly increasing (replay detected)")
    else modify fun anchor => anchor.recordNonce message

def advanceSequence (clock : Clock) : Method (L1Anchor P S K) Unit := do
  modify fun anchor => {anchor with sequenceCounter := anchor.sequenceCounter+1}
  let anchor ← get
  match anchor.sequenceTracker.validateAndAdvance env.canonical anchor.operatorKeypair.vk
    anchor.sequenceCounter anchor.chainId (clock.issued+3600) clock.checked with
  | .error rejection =>
    let reason := rejection.reason
    throw (.valueError s!"Sequence validation failed: {reason}")
  | .ok tracker => modify fun anchor => {anchor with sequenceTracker := tracker}

def packageCommitment (message : BridgeMessage) (entityId : String) (record : CommitmentRecord)
    (draws : AnchorDraws) : Method (L1Anchor P S K × Protocol P S K) BridgeCommitment := do
  Method.call draws.receipt
  let operator := (← get).1.operatorKeypair
  let _ ← Method.call (SignedEnvelope.createAt env.canonical domainBridgeMsg operator
    "bridge-commit" message.toCanonicalBytes draws.timestamp draws.entropy)
  match ← Method.second (Protocol.getInclusionProof env entityId) with
  | none =>
    let start := shortId entityId
    throw (.runtimeError s!"Failed to generate inclusion proof for {start}...")
  | some proof =>
    Method.first (modify fun anchor => {anchor with blockCounter := anchor.blockCounter+1})
    let recordBytes ← Method.call record.toBytes
    return ⟨message,entityId,String.ofList ((PyValue.hexDigits recordBytes).take 64),proof,
      (← get).1.blockCounter⟩

def commitMessage (message : HeldMessage) (n k : ℕ) (draws : AnchorDraws) :
    Method (L1Anchor P S K × Protocol P S K) (BridgeCommitment × Bytes) := do
  Method.first (admitMessage message.val)
  Method.first (advanceSequence env draws.clock)
  let operator := (← get).1.operatorKeypair
  let (entityId,record,cek) ←
    Method.second (Protocol.commit env message.held operator n k draws.commit)
  let commitment ← packageCommitment env message.val entityId record draws
  return (commitment,cek)

section
variable {env}

def Grows (anchor anchor' : L1Anchor P S K) : Prop :=
  anchor'.operatorKeypair=anchor.operatorKeypair ∧
    ∀ key nonce, anchor.nonceHwm.get? key=some nonce →
      ∃ later, anchor'.nonceHwm.get? key=some later ∧ nonce≤later

instance : Std.Refl (Grows (P := P) (S := S) (K := K)) :=
  ⟨fun _ => ⟨rfl,fun _ nonce h => ⟨nonce,h,le_rfl⟩⟩⟩

instance : IsTrans (L1Anchor P S K) Grows where
  trans _ _ _ h₁ h₂ := by
    refine ⟨h₂.1.trans h₁.1,fun key nonce h => ?_⟩
    obtain ⟨mid,hm,hle⟩ := h₁.2 key nonce h
    obtain ⟨later,hl,hle'⟩ := h₂.2 key mid hm
    exact ⟨later,hl,hle.trans hle'⟩

def SameNonces (anchor anchor' : L1Anchor P S K) : Prop :=
  anchor'.operatorKeypair=anchor.operatorKeypair ∧ anchor'.nonceHwm=anchor.nonceHwm

instance : Std.Refl (SameNonces (P := P) (S := S) (K := K)) := ⟨fun _ => ⟨rfl,rfl⟩⟩

instance : IsTrans (L1Anchor P S K) SameNonces :=
  ⟨fun _ _ _ h₁ h₂ => ⟨h₂.1.trans h₁.1,h₂.2.trans h₁.2⟩⟩

variable {anchor anchor' : L1Anchor P S K}

theorem SameNonces.grows (h : SameNonces anchor anchor') : Grows anchor anchor' := by
  refine ⟨h.1,fun key nonce hg => ⟨nonce,?_,le_rfl⟩⟩
  rw [h.2]
  exact hg

theorem grows_recordNonce {message : BridgeMessage}
    (hn : anchor.currentNonce message < message.nonce) :
    Grows anchor (anchor.recordNonce message) := by
  refine ⟨rfl,fun key nonce h => ?_⟩
  by_cases hk : (message.sourceChain,message.sender)=key
  · subst hk
    rw [currentNonce,h] at hn
    exact ⟨message.nonce,Dict.get?_set_self _ _ _,hn.le⟩
  · exact ⟨nonce,(Dict.get?_set_ne _ _ hk).trans h,le_rfl⟩

theorem admitMessage_cases (message : BridgeMessage) (anchor : L1Anchor P S K) :
    (∃ e, (admitMessage message).exec anchor=(.error e,anchor)) ∨
      anchor.currentNonce message < message.nonce ∧
        (admitMessage message).exec anchor=(.ok (),anchor.recordNonce message) := by
  simp only [admitMessage,exec_bind,exec_get]
  split_ifs with hc hn
  · exact .inl ⟨_,rfl⟩
  · exact .inl ⟨_,rfl⟩
  · exact .inr ⟨not_le.mp hn,rfl⟩

theorem admitMessage_keeps (message : BridgeMessage) :
    Method.Keeps (Grows (P := P) (S := S) (K := K)) (admitMessage message) := by
  intro anchor
  rcases admitMessage_cases message anchor with ⟨e,h⟩|⟨hn,h⟩
  · rw [h]
    exact Std.Refl.refl anchor
  · rw [h]
    exact grows_recordNonce hn

variable (env) in
theorem advanceSequence_keeps (clock : Clock) :
    Method.Keeps (SameNonces (P := P) (S := S) (K := K)) (advanceSequence env clock) := by
  intro anchor
  simp only [advanceSequence,exec_bind,exec_modify,exec_get]
  split <;> exact ⟨rfl,rfl⟩

variable (env) in
theorem packageCommitment_keeps (message : BridgeMessage) (id : String)
    (record : CommitmentRecord) (draws : AnchorDraws) :
    Method.Keeps (Method.Both SameNonces (Protocol.SameContents (P := P) (K := K)))
      (packageCommitment env message id record draws) := by
  refine (keeps_call _).bind fun _ => Method.keeps_get.bind fun s => ?_
  refine (keeps_call _).bind fun _ => ?_
  refine (getInclusionProof_keeps id).second.bind fun proof => ?_
  split
  · exact keeps_throw _
  · refine .bind (.first (keeps_modify fun _ => ⟨rfl,rfl⟩)) ?_
    exact fun _ => (keeps_call _).bind fun _ => Method.keeps_get.bind fun _ =>
      keeps_pure _

variable {draws : AnchorDraws} {c : BridgeCommitment}

theorem packageCommitment_ok {message : BridgeMessage} {entityId : String}
    {record : CommitmentRecord} {s s' : L1Anchor P S K × Protocol P S K}
    (h : (packageCommitment env message entityId record draws).exec s=(.ok c,s')) :
    c.message=message ∧ c.entityId=entityId := by
  obtain ⟨_,_,h⟩ := exec_call_bind_ok h
  obtain ⟨_,s1,_,h⟩ := exec_bind_ok h
  obtain ⟨_,_,h⟩ := exec_call_bind_ok h
  obtain ⟨proof,s2,_,h⟩ := exec_bind_ok h
  split at h
  · cases (Prod.mk.inj h).1
  · obtain ⟨_,s3,_,h⟩ := exec_bind_ok h
    obtain ⟨recordBytes,_,h⟩ := exec_call_bind_ok h
    obtain rfl := Except.ok.inj (Prod.mk.inj h).1
    exact ⟨rfl,rfl⟩

variable (env) in
theorem commitMessage_keeps (message : HeldMessage) (n k : ℕ) (draws : AnchorDraws) :
    Method.Keeps (Method.Both Grows Protocol.LogGrows)
      (commitMessage (P := P) (K := K) env message n k draws) := by
  refine (admitMessage_keeps message.val).first.bind fun _ => ?_
  refine .bind ?_ fun _ => Method.keeps_get.bind fun s => ?_
  · exact ((advanceSequence_keeps env draws.clock).mono fun _ _ h => h.grows).first
  refine (commit_keeps _ _ _ _ _).second.bind fun committed => ?_
  refine .bind ?_ fun _ => keeps_pure _
  exact (packageCommitment_keeps env _ _ _ _).mono fun _ _ h => ⟨h.1.grows,h.2.logGrows⟩

theorem commitMessage_commit {message : HeldMessage} {n k : ℕ} {p p' : Protocol P S K} {cek : Bytes}
    (h : (commitMessage env message n k draws).exec (anchor,p) = (.ok (c,cek),(anchor',p'))) :
    c.message=message.val ∧ anchor.currentNonce message.val < message.val.nonce ∧
      anchor'.nonceHwm=(anchor.recordNonce message.val).nonceHwm ∧
      ∃ record p1, (Protocol.commit env message.held anchor.operatorKeypair n k
          draws.commit).exec p=(.ok (c.entityId,record,cek),p1) ∧ Protocol.SameContents p1 p' := by
  obtain ⟨_,s1,ha,h⟩ := exec_bind_ok h
  obtain ⟨_,s2,had,h⟩ := exec_bind_ok h
  obtain ⟨cur,s3,hg,h⟩ := exec_bind_ok h
  obtain ⟨rfl,rfl⟩ : s2=cur ∧ s2=s3 := by simpa using hg
  obtain ⟨⟨id,record,drawnCek⟩,s4,hc,h⟩ := exec_bind_ok h
  obtain ⟨packaged,s5,hp,h⟩ := exec_bind_ok h
  obtain ⟨hr,rfl⟩ := Prod.mk.inj h
  cases Except.ok.inj hr
  obtain ⟨ha,hp1⟩ := exec_first_ok ha
  obtain ⟨had,hp2⟩ := exec_first_ok had
  obtain ⟨hc,ha4⟩ := Method.exec_second_ok hc
  obtain ⟨hm,hid⟩ := packageCommitment_ok hp
  have hpa := packageCommitment_keeps env message.val id record draws s4
  rw [hp] at hpa
  have hadv := advanceSequence_keeps env draws.clock s1.1
  rw [had] at hadv
  rcases admitMessage_cases message.val anchor with ⟨e,hre⟩|⟨hn,hrec⟩
  · rw [hre] at ha
    cases (Prod.mk.inj ha).1
  rw [hrec] at ha
  obtain ⟨_,han⟩ := Prod.mk.inj ha
  have ho : s2.1.operatorKeypair=anchor.operatorKeypair := by
    rw [hadv.1,← han]
    rfl
  rw [ho,hp2,hp1] at hc
  rw [hid]
  refine ⟨hm,hn,?_,record,s4.2,hc,hpa.2⟩
  rw [show anchor'.nonceHwm=s4.1.nonceHwm from hpa.1.2,ha4,hadv.2,han]

theorem commitMessage_ok {message : HeldMessage} {n k : ℕ} {p p' : Protocol P S K} {cek : Bytes}
    (h : (commitMessage env message n k draws).exec (anchor,p) = (.ok (c,cek),(anchor',p'))) :
    c.message=message.val ∧ anchor.currentNonce message.val < message.val.nonce ∧
      anchor'.nonceHwm.get? (message.val.sourceChain,message.val.sender)=some message.val.nonce ∧
      ∃ record, p'.log.records.get? c.entityId=some record ∧
        record.shape=bridgeShape ∧ record.senderVk=anchor.operatorKeypair.vk ∧
        record.timestamp=draws.commit.timestamp ∧
        c.entityId=message.val.entity.computeId env.canonical anchor.operatorKeypair.vk
          draws.commit.timestamp := by
  obtain ⟨hm,hn,hno,record,p1,hc,hs⟩ := commitMessage_commit h
  rw [commit_default] at hc
  obtain ⟨hr,_,_,hre,_,ht⟩ := commit_ok
    (default_ne_zero n (by decide)) (default_ne_zero k (by decide)) hc
  refine ⟨hm,hn,?_,record,?_,hr.shape,hr.senderVk,ht,?_⟩
  · rw [hno]
    exact Dict.get?_set_self _ _ _
  · rw [hs.records,hre]
    exact Dict.get?_set_self _ _ _
  · rw [← ht]
    exact hr.entityId_eq

end

end L1Anchor

namespace Relayer

def authorize (relayer : Relayer P S K) (epoch : ℤ) : Except PyError Unit :=
  match relayer.policy, relayer.relayKeypair with
  | some policy, some keypair =>
    if policy.isSignerAuthorized keypair.vk "RELAY" epoch then .ok ()
    else
      let label := keypair.label
      .error (.permissionError (s!"Relay operator '{label}' is not authorized " ++
        s!"for RELAY action at epoch {epoch}"))
  | _, _ => .ok ()

def wrap (relayer : Relayer P S K) (sealedKey : Bytes) (draws : RelayDraws) :
    Except PyError (Option SignedEnvelope) :=
  match relayer.relayKeypair with
  | none => .ok none
  | some keypair => (SignedEnvelope.createAt env.canonical domainBridgeMsg keypair "bridge-relay"
      sealedKey draws.timestamp draws.entropy).map some

def relay (relayer : Relayer P S K) (p : Protocol P S K) (commitment : BridgeCommitment)
    (cek : Bytes) (l2Verifier : LatticeTransfer.KeyPair P S K) (draws : RelayDraws) :
    Except PyError RelayPacket := do
  relayer.authorize draws.epoch
  match p.log.records.get? commitment.entityId with
  | none =>
    let start := shortId commitment.entityId
    .error (.valueError s!"Commitment record not found for entity_id={start}...")
  | some record =>
    let sealedKey ←
      Protocol.lattice env commitment.entityId record cek l2Verifier none draws.sealing
    let relayEnvelope ← relayer.wrap env sealedKey draws
    return {
      sealedKey := sealedKey
      sourceChain := commitment.message.sourceChain
      destChain := commitment.message.destChain
      nonce := commitment.message.nonce
      sourceBlock := commitment.sourceBlock
      entityId := commitment.entityId
      relayEnvelope := relayEnvelope}

variable {env}

theorem relay_key {relayer : Relayer P S K} {p : Protocol P S K} {commitment : BridgeCommitment}
    {cek : Bytes} {l2Verifier : LatticeTransfer.KeyPair P S K} {draws : RelayDraws}
    {packet : RelayPacket} (h : relayer.relay env p commitment cek l2Verifier draws=.ok packet) :
    packet.entityId=commitment.entityId ∧ packet.sourceBlock=commitment.sourceBlock ∧
      ∃ record bytes policy, p.log.records.get? commitment.entityId=some record ∧
        record.toBytes=.ok bytes ∧
        LatticeKey.unsealWith env.suite.cipher packet.sealedKey l2Verifier =
          .ok ⟨commitment.entityId,cek,canonicalHash env.canonical bytes,policy⟩ := by
  obtain ⟨_,_,h⟩ := PyValue.bind_ok h
  split at h
  · cases h
  next record hr =>
    obtain ⟨sealedKey,hl,h⟩ := PyValue.bind_ok h
    obtain ⟨relayEnvelope,_,h⟩ := PyValue.bind_ok h
    cases h
    obtain ⟨bytes,hb,hs⟩ := PyValue.bind_ok hl
    exact ⟨rfl,rfl,record,bytes,_,hr,hb,LatticeKey.unsealWith_sealTo hs⟩

end Relayer

namespace L2Materializer

def init (verifierKeypair : LatticeTransfer.KeyPair P S K) (chainId : String)
    (requiredConfirmations : ℤ) : L2Materializer P S K :=
  ⟨verifierKeypair,chainId,requiredConfirmations,⟨chainId,Dict.empty⟩,0,0,∅⟩

def setL1BlockHeight (materializer : L2Materializer P S K) (height : ℤ) : L2Materializer P S K :=
  {materializer with currentL1Block := height}

variable (P) in
def envelopeVerified (packet : RelayPacket) : Except PyError Bool :=
  match packet.relayEnvelope with
  | none => .ok true
  | some envelope => envelope.verify P S env.canonical

def admits (materializer : L2Materializer P S K) (packet : RelayPacket) : Except PyError Bool :=
  if packet.destChain≠materializer.chainId then .ok false
  else if (packet.entityId,packet.nonce) ∈ materializer.seenPackets then .ok false
  else do
    if ← envelopeVerified P env packet then
      let confirmations := materializer.currentL1Block-packet.sourceBlock
      return !decide (confirmations < materializer.requiredConfirmations)
    else return false

def advanceSequence (clock : Clock) : Method (L2Materializer P S K) Bool := do
  modify fun m => {m with sequenceCounter := m.sequenceCounter+1}
  let m ← get
  match m.sequenceTracker.validateAndAdvance env.canonical m.verifierKeypair.vk
    m.sequenceCounter m.chainId (clock.issued+86400) clock.checked with
  | .error _ => return false
  | .ok tracker =>
    modify fun m => {m with sequenceTracker := tracker}
    return true

def crossCheck (packet : RelayPacket) (message : BridgeMessage) : Bool :=
  message.sourceChain=packet.sourceChain ∧ message.destChain=packet.destChain ∧
    message.nonce=packet.nonce

def openPacket (packet : RelayPacket) (verifier : LatticeTransfer.KeyPair P S K) (now : Json) :
    Method (Protocol P S K) (Option BridgeMessage) := do
  match ← Protocol.materialize env packet.sealedKey verifier none with
  | none => return none
  | some content =>
    match BridgeMessage.fromBytes now content with
    | .error (.valueError _) => return none
    | .error .keyError => return none
    | .error e => throw e
    | .ok message => return if crossCheck packet message then some message else none

def materialize (packet : RelayPacket) (clock : Clock) (now : Json) :
    Method (L2Materializer P S K × Protocol P S K) (Option BridgeMessage) := do
  let materializer := (← get).1
  if ← Method.call (materializer.admits env packet) then
    if ← Method.first (advanceSequence env clock) then
      match ← Method.second (openPacket env packet materializer.verifierKeypair now) with
      | none => return none
      | some message =>
        Method.first (modify fun m =>
          {m with seenPackets := insert (packet.entityId,packet.nonce) m.seenPackets})
        return some message
    else return none
  else return none

section
variable {env}

variable {m : L2Materializer P S K} {packet : RelayPacket}

theorem admits_iff : m.admits env packet=.ok true ↔ packet.destChain=m.chainId ∧
        (packet.entityId,packet.nonce) ∉ m.seenPackets ∧
        envelopeVerified P env packet=.ok true ∧ m.requiredConfirmations ≤
          m.currentL1Block-packet.sourceBlock := by
  rw [admits]
  split_ifs with hc hs
  · simp [hc]
  · simp [hs]
  · rw [not_not] at hc
    cases hv : envelopeVerified P env packet with
    | error e => simp [bind,Except.bind]
    | ok verified => cases verified <;> simp [bind,Except.bind,pure,Except.pure,hc,hs]

theorem advanceSequence_height (clock : Clock) (materializer : L2Materializer P S K) (height : ℤ) :
    ((advanceSequence env clock).exec (materializer.setL1BlockHeight height)).1 =
      ((advanceSequence env clock).exec materializer).1 := by
  simp only [advanceSequence,exec_bind,exec_modify,exec_get,setL1BlockHeight]
  split <;> rfl

variable {clock : Clock} {now : Json} {p : Protocol P S K} {message : BridgeMessage}

theorem materialize_some_iff :
    ((materialize env packet clock now).exec (m,p)).1=.ok (some message) ↔
      m.admits env packet=.ok true ∧ ((advanceSequence env clock).exec m).1=.ok true ∧
        ((openPacket env packet m.verifierKeypair now).exec p).1 = .ok (some message) := by
  simp only [materialize,exec_bind,exec_get,exec_call]
  cases ha : m.admits env packet with
  | error e => simp
  | ok admitted =>
    cases admitted with
    | false => simp
    | true =>
      simp only [↓reduceIte,exec_bind,Method.first,exec_on]
      cases had : ((advanceSequence env clock).exec m).1 with
      | error e => simp
      | ok advanced =>
        cases advanced with
        | false => simp
        | true =>
          simp only [↓reduceIte,exec_bind,Method.second,exec_on,true_and]
          cases ho : ((openPacket env packet m.verifierKeypair now).exec p).1 with
          | error e => simp
          | ok opened =>
            cases opened with
            | none => simp
            | some opened =>
              simp only [exec_bind,exec_on,exec_modify,exec_pure]

variable (packet now) in
theorem openPacket_eq {verifier : LatticeTransfer.KeyPair P S K} {p' : Protocol P S K}
    (h : (Protocol.materialize env packet.sealedKey verifier none).exec p =
      (.ok (some message.toCanonicalBytes),p')) (hc : crossCheck packet message.canonical=true) :
    (openPacket env packet verifier now).exec p=(.ok (some message.canonical),p') := by
  simp only [openPacket,exec_bind,h,BridgeMessage.fromBytes_toCanonicalBytes,hc,↓reduceIte,
    exec_pure]

theorem openPacket_ok {verifier : LatticeTransfer.KeyPair P S K} {p' : Protocol P S K}
    (h : (openPacket env packet verifier now).exec p=(.ok (some message),p')) :
    crossCheck packet message=true ∧ ∃ content p1,
      (Protocol.materialize env packet.sealedKey verifier none).exec p=(.ok (some content),p1) ∧
        BridgeMessage.fromBytes now content=.ok message := by
  obtain ⟨opened,p1,hm,h⟩ := exec_bind_ok h
  cases opened with
  | none => cases (Prod.mk.inj h).1
  | some content =>
    cases hre : BridgeMessage.fromBytes now content with
    | error e =>
      simp only [hre] at h
      cases e <;> cases (Prod.mk.inj h).1
    | ok read =>
      simp only [hre] at h
      have hr := Except.ok.inj (Prod.mk.inj h).1
      split_ifs at hr with hc
      cases hr
      exact ⟨hc,content,p1,hm,hre⟩

theorem openPacket_keeps (packet : RelayPacket) (verifier : LatticeTransfer.KeyPair P S K)
    (now : Json) : Method.Keeps Protocol.LogGrows (openPacket env packet verifier now) := by
  refine (materialize_keeps _ _).bind fun opened => ?_
  cases opened with
  | none => exact keeps_pure _
  | some content =>
    dsimp only
    split
    · exact keeps_pure _
    · exact keeps_pure _
    · exact keeps_throw _
    · exact keeps_pure _

structure Grows (m m' : L2Materializer P S K) : Prop where
  verifier : m'.verifierKeypair=m.verifierKeypair
  required : m'.requiredConfirmations=m.requiredConfirmations
  seen : m.seenPackets ⊆ m'.seenPackets

instance : Std.Refl (Grows (P := P) (S := S) (K := K)) := ⟨fun _ => ⟨rfl,rfl,subset_rfl⟩⟩

instance : IsTrans (L2Materializer P S K) Grows :=
  ⟨fun _ _ _ h₁ h₂ => ⟨h₂.verifier.trans h₁.verifier,h₂.required.trans h₁.required,
    h₁.seen.trans h₂.seen⟩⟩

theorem advanceSequence_keeps (clock : Clock) :
    Method.Keeps (Grows (P := P) (S := S) (K := K)) (advanceSequence env clock) := by
  intro m
  simp only [advanceSequence,exec_bind,exec_modify,exec_get]
  split <;> exact ⟨rfl,rfl,subset_rfl⟩

variable (env) in
theorem materialize_keeps (packet : RelayPacket) (clock : Clock) (now : Json) :
    Method.Keeps (Method.Both Grows Protocol.LogGrows)
      (materialize (P := P) (K := K) env packet clock now) := by
  refine Method.keeps_get.bind fun s => (keeps_call _).bind fun admitted => ?_
  split_ifs
  · refine (advanceSequence_keeps clock).first.bind fun advanced => ?_
    split_ifs
    · refine (openPacket_keeps packet _ now).second.bind fun opened => ?_
      cases opened with
      | none => exact keeps_pure _
      | some message =>
        refine .bind (.first (keeps_modify fun m => ?_)) fun _ =>
          keeps_pure _
        exact ⟨rfl,rfl,Finset.subset_insert _ _⟩
    · exact keeps_pure _
  · exact keeps_pure _

theorem mem_seenPackets_of_materialize {s s' : L2Materializer P S K × Protocol P S K}
    (h : (materialize env packet clock now).exec s=(.ok (some message),s')) :
    (packet.entityId,packet.nonce) ∈ s'.1.seenPackets := by
  obtain ⟨_,s1,_,h⟩ := exec_bind_ok h
  obtain ⟨admitted,_,h⟩ := exec_call_bind_ok h
  split_ifs at h
  · obtain ⟨advanced,s2,_,h⟩ := exec_bind_ok h
    split_ifs at h
    · obtain ⟨opened,s3,_,h⟩ := exec_bind_ok h
      cases opened with
      | none => cases (Prod.mk.inj h).1
      | some message =>
        obtain ⟨_,s4,hi,h⟩ := exec_bind_ok h
        obtain ⟨_,rfl⟩ := Prod.mk.inj h
        rw [← (Prod.mk.inj hi).2]
        exact Finset.mem_insert_self _ _
    · cases (Prod.mk.inj h).1
  · cases (Prod.mk.inj h).1

end

end L2Materializer
end LatticeTransfer
