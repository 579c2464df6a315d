import LatticeTransfer.Machine
import LatticeTransfer.Solidity

/-!
# The anchor registry

`LTPAnchorRegistry`: the functions of the contract over its storage, and what a
transaction can do to the sequence marks of the signers and to the states of the
entities. A rotation writes the mark of the old key over that of the new one, and a
dispute takes the entity back to `stateUnknown`.
-/

namespace LatticeTransfer.AnchorRegistry
open Solidity Function

def stateUnknown : Uint8 := 0
def stateCommitted : Uint8 := 1
def stateAnchored : Uint8 := 2
def stateMaterialized : Uint8 := 3
def stateDisputed : Uint8 := 4
def stateDeleted : Uint8 := 5

def maxBatchSize : ℕ := 100

structure AnchorRecord where
  merkleRoot : Bytes32
  policyHash : Bytes32
  signerVkHash : Bytes32
  entityIdHash : Bytes32
  sequence : Uint64
  validUntil : Uint64
  targetChainId : Uint64
  receiptType : Uint8
  entityState : Uint8
  anchoredAt : Uint64
deriving DecidableEq

structure BindingStatement where
  signerVkHash : Bytes32
  statementHash : Bytes32
  signatureHash : Bytes32
  bindingTimestamp : Uint64
  disputed : Bool
deriving DecidableEq

structure Registry where
  admin : Address
  paused : Bool
  anchors : Bytes32 → AnchorRecord
  signerSequences : Bytes32 → Uint64
  entityStates : Bytes32 → Uint8
  authorizedSigners : Bytes32 → Bool
  signerExpiresAt : Bytes32 → Uint64
  entitySigners : Bytes32 → Bytes32
  bindingStatements : Bytes32 → BindingStatement
  bindingDisputeVerifier : Address

inductive Error
  | alreadyAnchored (anchorDigest : Bytes32)
  | sequenceTooLow (signerVkHash : Bytes32) (provided current : Uint64)
  | expired (validUntil blockTimestamp : Uint64)
  | unauthorizedSigner (signerVkHash : Bytes32)
  | invalidStateTransition (fromState toState : Uint8)
  | notAdmin (caller : Address)
  | emptyBatch
  | batchTooLarge (provided max : ℕ)
  | arrayLengthMismatch
  | contractPaused
  | zeroDigest
  | zeroMerkleRoot
  | zeroEntityId
  | zeroSignerVk
  | notEntitySigner (entityIdHash signerVkHash : Bytes32)
  | notBindingDisputeVerifier (caller : Address)
  | bindingAlreadyDisputed (entityIdHash : Bytes32)
  | noBindingRecorded (entityIdHash : Bytes32)
  | signerNotRegistered (vkHash : Bytes32)
  | signerAlreadyRegistered (vkHash : Bytes32)
deriving DecidableEq

structure AnchorItem where
  anchorDigest : Bytes32
  entityIdHash : Bytes32
  merkleRoot : Bytes32
  policyHash : Bytes32
  signerVkHash : Bytes32
  sequence : Uint64
  validUntil : Uint64
  receiptType : Uint8

structure BatchItems where
  anchorDigests : List Bytes32
  entityIdHashes : List Bytes32
  merkleRoots : List Bytes32
  policyHashes : List Bytes32
  signerVkHashes : List Bytes32
  sequences : List Uint64
  validUntils : List Uint64
  receiptTypes : List Uint8

inductive Message
  | transferAdmin (newAdmin : Address)
  | pause
  | unpause
  | anchor (item : AnchorItem)
  | batchAnchor (items : BatchItems)
  | transitionState (entityIdHash : Bytes32) (newState : Uint8) (signerVkHash : Bytes32)
      (sequence validUntil : Uint64)
  | registerSigner (vkHash : Bytes32)
  | revokeSigner (vkHash : Bytes32)
  | rotateSigner (oldVkHash newVkHash : Bytes32)
  | rotateSignerWithGrace (oldVkHash newVkHash : Bytes32) (gracePeriod : Uint64)
  | reassignEntitySigner (entityIdHash newSignerVkHash : Bytes32)
  | anchorWithBinding (item : AnchorItem) (bindingStatementHash bindingSignatureHash : Bytes32)
  | disputeBinding (entityIdHash fraudProofHash : Bytes32)
  | setBindingDisputeVerifier (verifier : Address)

def isValidTransition (source target : Uint8) : Bool :=
  (source,target) ∈ [(stateUnknown,stateCommitted),(stateCommitted,stateAnchored),
    (stateAnchored,stateMaterialized),
    (stateCommitted,stateDisputed),
    (stateAnchored,stateDisputed),
    (stateMaterialized,stateDisputed),
    (stateCommitted,stateDeleted),
    (stateAnchored,stateDeleted),
    (stateMaterialized,stateDeleted),
    (stateDisputed,stateDeleted),
    (stateUnknown,stateAnchored)]

def noRecord : AnchorRecord := ⟨0,0,0,0,0,0,0,0,0,0⟩
def noBinding : BindingStatement := ⟨0,0,0,0,false⟩

def initialStorage (admin : Address) : Registry where
  admin := admin
  paused := false
  anchors _ := noRecord
  signerSequences _ := 0
  entityStates _ := 0
  authorizedSigners _ := false
  signerExpiresAt _ := 0
  entitySigners _ := 0
  bindingStatements _ := noBinding
  bindingDisputeVerifier := 0

namespace Registry
variable (s : Registry) (env : Env)

def onlyAdmin : Result Error Unit := revertIf (env.sender≠s.admin) (.notAdmin env.sender)

def whenNotPaused : Result Error Unit := revertIf (s.paused=true) .contractPaused

def checkSigner (signerVkHash : Bytes32) : Result Error Unit := do
  revertIf (s.authorizedSigners signerVkHash=false) (.unauthorizedSigner signerVkHash)
  let expiresAt := s.signerExpiresAt signerVkHash
  revertIf (expiresAt≠0 ∧ expiresAt.toNat<env.timestamp.toNat)
    (.unauthorizedSigner signerVkHash)

def bindSigner (entityIdHash signerVkHash : Bytes32) : Result Error Registry := do
  let boundSigner := s.entitySigners entityIdHash
  if boundSigner=0 then
    return {s with entitySigners := update s.entitySigners entityIdHash signerVkHash}
  else
    revertIf (boundSigner≠signerVkHash) (.notEntitySigner entityIdHash signerVkHash)
    return s

def checkSequence (signerVkHash : Bytes32) (sequence validUntil : Uint64) : Result Error Unit := do
  let currentSeq := s.signerSequences signerVkHash
  revertIf (sequence≤currentSeq) (.sequenceTooLow signerVkHash sequence currentSeq)
  revertIf (validUntil≤uint64 env.timestamp) (.expired validUntil (uint64 env.timestamp))

def enterState (entityIdHash : Bytes32) (newState : Uint8) (signerVkHash : Bytes32)
    (sequence : Uint64) : Result Error Registry := do
  let currentState := s.entityStates entityIdHash
  revertIf (isValidTransition currentState newState=false)
    (.invalidStateTransition currentState newState)
  return {s with
    entityStates := update s.entityStates entityIdHash newState
    signerSequences := update s.signerSequences signerVkHash sequence}

def storeRecord (item : AnchorItem) : Registry :=
  {s with anchors := update s.anchors item.anchorDigest {
      merkleRoot := item.merkleRoot
      policyHash := item.policyHash
      signerVkHash := item.signerVkHash
      entityIdHash := item.entityIdHash
      sequence := item.sequence
      validUntil := item.validUntil
      targetChainId := uint64 env.chainid
      receiptType := item.receiptType
      entityState := stateAnchored
      anchoredAt := uint64 env.timestamp}}

def anchorItem (item : AnchorItem) : Result Error Registry := do
  revertIf (item.anchorDigest=0) .zeroDigest
  revertIf (item.entityIdHash=0) .zeroEntityId
  revertIf (item.merkleRoot=0) .zeroMerkleRoot
  revertIf (item.signerVkHash=0) .zeroSignerVk
  revertIf ((s.anchors item.anchorDigest).anchoredAt≠0) (.alreadyAnchored item.anchorDigest)
  s.checkSigner env item.signerVkHash
  let s ← s.bindSigner item.entityIdHash item.signerVkHash
  s.checkSequence env item.signerVkHash item.sequence item.validUntil
  let s ← s.enterState item.entityIdHash stateAnchored item.signerVkHash item.sequence
  return s.storeRecord env item

def anchor (item : AnchorItem) : Result Error Registry := do
  s.whenNotPaused
  s.anchorItem env item

def itemAt (items : BatchItems) (i : ℕ) : AnchorItem where
  anchorDigest := items.anchorDigests.getD i 0
  entityIdHash := items.entityIdHashes.getD i 0
  merkleRoot := items.merkleRoots.getD i 0
  policyHash := items.policyHashes.getD i 0
  signerVkHash := items.signerVkHashes.getD i 0
  sequence := items.sequences.getD i 0
  validUntil := items.validUntils.getD i 0
  receiptType := items.receiptTypes.getD i 0

def anchorAll (items : List AnchorItem) : Result Error Registry :=
  items.foldlM (fun s item => s.anchorItem env item) s

def batchAnchor (items : BatchItems) : Result Error Registry := do
  s.whenNotPaused
  let len := items.anchorDigests.length
  revertIf (len=0) .emptyBatch
  revertIf (maxBatchSize<len) (.batchTooLarge len maxBatchSize)
  revertIf (items.entityIdHashes.length≠len ∨ items.merkleRoots.length≠len ∨
    items.policyHashes.length≠len ∨ items.signerVkHashes.length≠len ∨
    items.sequences.length≠len ∨ items.validUntils.length≠len ∨
    items.receiptTypes.length≠len) .arrayLengthMismatch
  s.anchorAll env ((List.range len).map (itemAt items))

def transitionState (entityIdHash : Bytes32) (newState : Uint8) (signerVkHash : Bytes32)
    (sequence validUntil : Uint64) : Result Error Registry := do
  s.whenNotPaused
  revertIf (entityIdHash=0) .zeroEntityId
  revertIf (signerVkHash=0) .zeroSignerVk
  s.checkSigner env signerVkHash
  let s ← s.bindSigner entityIdHash signerVkHash
  s.checkSequence env signerVkHash sequence validUntil
  s.enterState entityIdHash newState signerVkHash sequence

def registerSigner (vkHash : Bytes32) : Result Error Registry := do
  s.onlyAdmin env
  revertIf (vkHash=0) .zeroSignerVk
  revertIf (s.authorizedSigners vkHash=true) (.signerAlreadyRegistered vkHash)
  return {s with authorizedSigners := update s.authorizedSigners vkHash true}

def revokeSigner (vkHash : Bytes32) : Result Error Registry := do
  s.onlyAdmin env
  revertIf (s.authorizedSigners vkHash=false) (.signerNotRegistered vkHash)
  return {s with authorizedSigners := update s.authorizedSigners vkHash false}

def rotate (oldVkHash newVkHash : Bytes32) (gracePeriod : Uint64) : Result Error Registry := do
  revertIf (oldVkHash=0 ∨ newVkHash=0) .zeroSignerVk
  revertIf (s.authorizedSigners oldVkHash=false) (.signerNotRegistered oldVkHash)
  revertIf (s.authorizedSigners newVkHash=true) (.signerAlreadyRegistered newVkHash)
  let s := {s with
    signerSequences := update s.signerSequences newVkHash (s.signerSequences oldVkHash)
    authorizedSigners := update s.authorizedSigners newVkHash true}
  if gracePeriod=0 then
    return {s with authorizedSigners := update s.authorizedSigners oldVkHash false}
  else
    let expiresAt ← checkedAdd (uint64 env.timestamp) gracePeriod
    return {s with signerExpiresAt := update s.signerExpiresAt oldVkHash expiresAt}

def rotateSigner (oldVkHash newVkHash : Bytes32) : Result Error Registry := do
  s.onlyAdmin env
  s.rotate env oldVkHash newVkHash 0

def sevenDays : Uint64 := 604800

def rotateSignerWithGrace (oldVkHash newVkHash : Bytes32) (gracePeriod : Uint64) :
    Result Error Registry := do
  s.onlyAdmin env
  require (gracePeriod ≤ sevenDays) "grace > 7d"
  s.rotate env oldVkHash newVkHash gracePeriod

def reassignEntitySigner (entityIdHash newSignerVkHash : Bytes32) : Result Error Registry := do
  s.onlyAdmin env
  revertIf (entityIdHash=0) .zeroEntityId
  revertIf (newSignerVkHash=0) .zeroSignerVk
  revertIf (s.authorizedSigners newSignerVkHash=false) (.unauthorizedSigner newSignerVkHash)
  return {s with entitySigners := update s.entitySigners entityIdHash newSignerVkHash}

def recordBinding (entityIdHash : Bytes32) (statement : BindingStatement) : Registry :=
  {s with bindingStatements := update s.bindingStatements entityIdHash statement}

def anchorWithBinding (item : AnchorItem) (bindingStatementHash bindingSignatureHash : Bytes32) :
    Result Error Registry := do
  s.whenNotPaused
  let isFirstBinding := s.entitySigners item.entityIdHash=0
  let s ← s.anchorItem env item
  if isFirstBinding ∧ bindingStatementHash≠0 then
    return s.recordBinding item.entityIdHash ⟨item.signerVkHash,bindingStatementHash,
      bindingSignatureHash,uint64 env.timestamp,false⟩
  else return s

def disputeBinding (entityIdHash : Bytes32) : Result Error Registry := do
  revertIf (env.sender≠s.bindingDisputeVerifier ∨ s.bindingDisputeVerifier=0)
    (.notBindingDisputeVerifier env.sender)
  let b := s.bindingStatements entityIdHash
  revertIf (b.bindingTimestamp=0) (.noBindingRecorded entityIdHash)
  revertIf (b.disputed=true) (.bindingAlreadyDisputed entityIdHash)
  let s := s.recordBinding entityIdHash {b with disputed := true}
  return {s with
    entitySigners := update s.entitySigners entityIdHash 0
    entityStates := update s.entityStates entityIdHash 0}

def transferAdmin (newAdmin : Address) : Result Error Registry := do
  s.onlyAdmin env
  revertIf (newAdmin=0) (.notAdmin 0)
  return {s with admin := newAdmin}

def setPaused (paused : Bool) : Result Error Registry := do
  s.onlyAdmin env
  return {s with paused := paused}

def pause : Result Error Registry := s.setPaused env true
def unpause : Result Error Registry := s.setPaused env false

def setBindingDisputeVerifier (verifier : Address) : Result Error Registry := do
  s.onlyAdmin env
  return {s with bindingDisputeVerifier := verifier}

def dispatch : Message → Result Error Registry
  | .transferAdmin newAdmin => s.transferAdmin env newAdmin
  | .pause => s.pause env
  | .unpause => s.unpause env
  | .anchor item => s.anchor env item
  | .batchAnchor items => s.batchAnchor env items
  | .transitionState entityIdHash newState signerVkHash sequence validUntil =>
    s.transitionState env entityIdHash newState signerVkHash sequence validUntil
  | .registerSigner vkHash => s.registerSigner env vkHash
  | .revokeSigner vkHash => s.revokeSigner env vkHash
  | .rotateSigner oldVkHash newVkHash => s.rotateSigner env oldVkHash newVkHash
  | .rotateSignerWithGrace oldVkHash newVkHash gracePeriod =>
    s.rotateSignerWithGrace env oldVkHash newVkHash gracePeriod
  | .reassignEntitySigner entityIdHash newSignerVkHash =>
    s.reassignEntitySigner env entityIdHash newSignerVkHash
  | .anchorWithBinding item bindingStatementHash bindingSignatureHash =>
    s.anchorWithBinding env item bindingStatementHash bindingSignatureHash
  | .disputeBinding entityIdHash _ => s.disputeBinding env entityIdHash
  | .setBindingDisputeVerifier verifier => s.setBindingDisputeVerifier env verifier

def call (message : Message) : Result Error Registry := do
  nonpayable env
  s.dispatch env message

end Registry

abbrev Transaction := Env × Message

def machine (admin : Address) : Machine Registry Transaction Empty where
  start := initialStorage admin
  step s t := (settle s (s.call t.1 t.2),[])

namespace Registry
variable {s s' : Registry} {env : Env}

variable {vk : Bytes32}

theorem checkSigner_ok {u : Unit} (h : s.checkSigner env vk=.ok u) : s.authorizedSigners vk=true ∧
      (s.signerExpiresAt vk=0 ∨ env.timestamp.toNat≤(s.signerExpiresAt vk).toNat) := by
  simp only [checkSigner,bind_eq_ok,revertIf_eq_ok] at h
  obtain ⟨_,ha,he⟩ := h
  refine ⟨by simpa using ha,?_⟩
  by_contra hn
  push Not at hn
  exact he hn

theorem bindSigner_ok {entity : Bytes32} (h : s.bindSigner entity vk=.ok s') :
    (s.entitySigners entity=0 ∨ s.entitySigners entity=vk) ∧
      s'={s with entitySigners := update s.entitySigners entity vk} := by
  rw [bindSigner] at h
  split_ifs at h with hf
  · exact ⟨.inl hf,(Except.ok.inj h).symm⟩
  · simp only [bind_eq_ok,revertIf_eq_ok,not_not] at h
    obtain ⟨_,hb,h⟩ := h
    cases h
    rw [← hb,update_eq_self]
    exact ⟨.inr rfl,rfl⟩

structure Anchors (s : Registry) (env : Env) (item : AnchorItem) (s' : Registry) : Prop where
  digest_ne : item.anchorDigest≠0
  entity_ne : item.entityIdHash≠0
  fresh : (s.anchors item.anchorDigest).anchoredAt=0
  authorized : s.authorizedSigners item.signerVkHash=true
  unexpired : s.signerExpiresAt item.signerVkHash=0 ∨
    env.timestamp.toNat≤(s.signerExpiresAt item.signerVkHash).toNat
  bound : s.entitySigners item.entityIdHash=0 ∨
    s.entitySigners item.entityIdHash=item.signerVkHash
  raises : s.signerSequences item.signerVkHash < item.sequence
  valid : isValidTransition (s.entityStates item.entityIdHash) stateAnchored=true
  writes : s'={s with
    entitySigners := update s.entitySigners item.entityIdHash item.signerVkHash
    entityStates := update s.entityStates item.entityIdHash stateAnchored
    signerSequences := update s.signerSequences item.signerVkHash item.sequence
      }.storeRecord env item

variable {item : AnchorItem}

theorem anchorItem_ok (h : s.anchorItem env item=.ok s') : Anchors s env item s' := by
  simp only [anchorItem,bind_eq_ok,revertIf_eq_ok,not_not] at h
  obtain ⟨_,hd,_,he,_,_,_,_,_,hf,_,hs,bound,hb,_,hse,entered,hen,h⟩ := h
  obtain ⟨ha,hu⟩ := checkSigner_ok hs
  obtain ⟨hbo,rfl⟩ := bindSigner_ok hb
  simp only [checkSequence,bind_eq_ok,revertIf_eq_ok] at hse
  simp only [enterState,bind_eq_ok,revertIf_eq_ok,Bool.not_eq_false] at hen
  obtain ⟨_,hv,hen⟩ := hen
  cases hen
  exact ⟨hd,he,hf,ha,hu,hbo,BitVec.not_le.mp hse.choose_spec.1,hv,(Except.ok.inj h).symm⟩

theorem transitionState_ok {entity : Bytes32} {newState : Uint8} {seq validUntil : Uint64}
    (h : s.transitionState env entity newState vk seq validUntil=.ok s') :
    (s.entitySigners entity=0 ∨ s.entitySigners entity=vk) ∧
      s.signerSequences vk<seq ∧ isValidTransition (s.entityStates entity) newState=true ∧
      s'={s with
        entitySigners := update s.entitySigners entity vk
        entityStates := update s.entityStates entity newState
        signerSequences := update s.signerSequences vk seq} := by
  simp only [transitionState,bind_eq_ok] at h
  obtain ⟨_,_,_,_,_,_,_,_,bound,hb,_,hs,he⟩ := h
  obtain ⟨hbo,rfl⟩ := bindSigner_ok hb
  simp only [checkSequence,bind_eq_ok,revertIf_eq_ok] at hs
  simp only [enterState,bind_eq_ok,revertIf_eq_ok,Bool.not_eq_false] at he
  obtain ⟨_,hv,he⟩ := he
  exact ⟨hbo,BitVec.not_le.mp hs.choose_spec.1,hv,(Except.ok.inj he).symm⟩

def Rotates (s : Registry) (env : Env) (oldVkHash newVkHash : Bytes32) (gracePeriod : Uint64) :
    Prop :=
  oldVkHash≠0 ∧ newVkHash≠0 ∧ s.authorizedSigners oldVkHash=true ∧
    s.authorizedSigners newVkHash=false ∧
    (gracePeriod=0 ∨ (uint64 env.timestamp).toNat+gracePeriod.toNat<2^64)

structure SameEntities (s s' : Registry) : Prop where
  anchors : s'.anchors=s.anchors
  states : s'.entityStates=s.entityStates
  signers : s'.entitySigners=s.entitySigners
  statements : s'.bindingStatements=s.bindingStatements

section
variable {old new : Bytes32} {grace : Uint64}

theorem rotate_ok (h : s.rotate env old new grace=.ok s') :
    s.Rotates env old new grace ∧ s'.signerSequences =
        update s.signerSequences new (s.signerSequences old) ∧ SameEntities s s' := by
  simp only [rotate,bind_eq_ok,revertIf_eq_ok,not_or,Bool.not_eq_false,Bool.not_eq_true] at h
  obtain ⟨_,⟨ho,hn⟩,_,ha,_,hf,h⟩ := h
  split_ifs at h with hg
  · cases h
    exact ⟨⟨ho,hn,ha,hf,.inl hg⟩,rfl,rfl,rfl,rfl,rfl⟩
  · obtain ⟨expiresAt,had,h⟩ := bind_eq_ok.mp h
    cases h
    have hlt := checkedAdd_eq_ok.mp had ▸ expiresAt.isLt
    exact ⟨⟨ho,hn,ha,hf,.inr hlt⟩,rfl,rfl,rfl,rfl,rfl⟩

theorem exists_rotate (h : s.Rotates env old new grace) :
    ∃ s', s.rotate env old new grace=.ok s' := by
  obtain ⟨ho,hn,ha,hf,hg⟩ := h
  have hz : ¬(old=0 ∨ new=0) := not_or.mpr ⟨ho,hn⟩
  have ho' : ¬s.authorizedSigners old=false := by simp [ha]
  have hn' : ¬s.authorizedSigners new=true := by simp [hf]
  simp only [rotate,revertIf,if_neg hz,if_neg ho',if_neg hn']
  by_cases hat : grace=0
  · exact ⟨_,if_pos hat⟩
  · have had : (checkedAdd (uint64 env.timestamp) grace : Result Error Uint64)=.ok _ :=
      checkedAdd_of_lt (hg.resolve_left hat)
    exact ⟨_,(if_neg hat).trans (by rw [had]; rfl)⟩

end

structure Advances (s s' : Registry) : Prop where
  marks : ∀ vk, s.signerSequences vk ≤ s'.signerSequences vk
  states : ∀ entity, s'.entityStates entity=s.entityStates entity ∨
    isValidTransition (s.entityStates entity) (s'.entityStates entity)=true

theorem Advances.of_eq (hm : s'.signerSequences=s.signerSequences)
    (hs : s'.entityStates=s.entityStates) : Advances s s' :=
  ⟨fun vk => hm ▸ BitVec.le_refl _,fun entity => .inl (by rw [hs])⟩

theorem le_update_of_lt {marks : Bytes32 → Uint64} {seq : Uint64} (h : marks vk<seq)
    (key : Bytes32) : marks key≤update marks vk seq key := by
  rcases eq_or_ne key vk with rfl|hne
  · rw [update_self]
    exact BitVec.le_of_lt h
  · rw [update_of_ne hne]
    exact BitVec.le_refl _

theorem anchorAll_cons_ok {rest : List AnchorItem} : s.anchorAll env (item::rest)=.ok s' ↔
      ∃ next, s.anchorItem env item=.ok next ∧ next.anchorAll env rest=.ok s' := by
  rw [anchorAll,List.foldlM_cons,bind_eq_ok]
  rfl

theorem anchorAll_singleton : s.anchorAll env [item]=.ok s' ↔ s.anchorItem env item=.ok s' := by
  rw [anchorAll_cons_ok]
  constructor
  · rintro ⟨next,hi,hr⟩
    rwa [Except.ok.inj hr] at hi
  · exact fun hi => ⟨s',hi,rfl⟩

variable {items : List AnchorItem}

variable (h : s.anchorAll env items=.ok s')
include h

theorem anchorAll_ok : (∀ vk, s.signerSequences vk ≤ s'.signerSequences vk) ∧
      ∀ entity, s'.entityStates entity=s.entityStates entity ∨
        s'.entityStates entity=stateAnchored ∧
          isValidTransition (s.entityStates entity) stateAnchored=true := by
  induction items generalizing s with
  | nil =>
    cases h
    exact ⟨fun vk => BitVec.le_refl _,fun entity => .inl rfl⟩
  | cons item rest ih =>
    obtain ⟨next,hi,hr⟩ := anchorAll_cons_ok.mp h
    obtain ⟨hm,hs⟩ := ih hr
    have hi := anchorItem_ok hi
    have hw := hi.writes
    refine ⟨fun vk => BitVec.le_trans ?_ (hm vk),fun entity => ?_⟩
    · rw [hw]
      exact le_update_of_lt hi.raises vk
    have hn : next.entityStates =
        update s.entityStates item.entityIdHash stateAnchored := by rw [hw]; rfl
    have hst := hs entity
    rw [hn] at hst
    rcases eq_or_ne entity item.entityIdHash with rfl|hne
    · rw [update_self] at hst
      exact .inr ⟨hst.elim id And.left,hi.valid⟩
    · rwa [update_of_ne hne] at hst

theorem anchorAll_mark (vk : Bytes32) : s'.signerSequences vk=s.signerSequences vk ∨
      ∃ item ∈ items, item.signerVkHash=vk ∧ s'.signerSequences vk=item.sequence := by
  induction items generalizing s with
  | nil =>
    cases h
    exact .inl rfl
  | cons item rest ih =>
    obtain ⟨next,hi,hr⟩ := anchorAll_cons_ok.mp h
    rcases ih hr with hs|⟨other,ho,hvk,hm⟩
    · rw [hs,(anchorItem_ok hi).writes]
      rcases eq_or_ne vk item.signerVkHash with rfl|hne
      · exact .inr ⟨item,List.mem_cons_self,rfl,update_self ..⟩
      · exact .inl (update_of_ne hne ..)
    · exact .inr ⟨other,List.mem_cons_of_mem _ ho,hvk,hm⟩

theorem anchorAll_advances : Advances s s' := by
  obtain ⟨hm,hs⟩ := anchorAll_ok h
  refine ⟨hm,fun entity => (hs entity).imp_right ?_⟩
  rintro ⟨hst,hv⟩
  rwa [hst]

end Registry

def Message.rotation : Message → Option (Bytes32 × Bytes32 × Uint64)
  | .rotateSigner oldVkHash newVkHash => some (oldVkHash,newVkHash,0)
  | .rotateSignerWithGrace oldVkHash newVkHash gracePeriod =>
    some (oldVkHash,newVkHash,gracePeriod)
  | _ => none

def Message.items : Message → List AnchorItem
  | .anchor item => [item]
  | .anchorWithBinding item _ _ => [item]
  | .batchAnchor items => (List.range items.anchorDigests.length).map (Registry.itemAt items)
  | _ => []

namespace Registry
variable {s s' : Registry} {env : Env} {m : Message}

def AcceptsRotation (s : Registry) (env : Env) (oldVkHash newVkHash : Bytes32)
    (gracePeriod : Uint64) : Prop :=
  env.value=0 ∧ env.sender=s.admin ∧ gracePeriod ≤ sevenDays ∧
    s.Rotates env oldVkHash newVkHash gracePeriod

def Disputes (s : Registry) (t : Transaction) (entity : Bytes32) : Prop :=
  (∃ fraudProofHash, t.2=.disputeBinding entity fraudProofHash) ∧
    t.1.value=0 ∧ t.1.sender=s.bindingDisputeVerifier ∧ s.bindingDisputeVerifier≠0 ∧
    (s.bindingStatements entity).bindingTimestamp≠0 ∧
    (s.bindingStatements entity).disputed=false

theorem onlyAdmin_ok {u : Unit} (h : s.onlyAdmin env=.ok u) : env.sender=s.admin :=
  not_not.mp (revertIf_eq_ok.mp h)

def Reassigns (s : Registry) (t : Transaction) (entity vk : Bytes32) : Prop :=
  t.2=.reassignEntitySigner entity vk ∧ t.1.value=0 ∧ t.1.sender=s.admin ∧ entity≠0 ∧
    vk≠0 ∧ s.authorizedSigners vk=true

inductive Effect (s : Registry) (env : Env) : Message → Registry → Prop
  | anchored {message : Message} {s' : Registry} (hitems : s.anchorAll env message.items=.ok s') :
      Effect s env message s'
  | bound (item : AnchorItem) (statementHash signatureHash : Bytes32) (next : Registry)
      (hfirst : s.entitySigners item.entityIdHash=0)
      (hitem : s.anchorAll env [item]=.ok next) :
      Effect s env (.anchorWithBinding item statementHash signatureHash)
        (next.recordBinding item.entityIdHash
          ⟨item.signerVkHash,statementHash,signatureHash,uint64 env.timestamp,false⟩)
  | moved (entity : Bytes32) (newState : Uint8) (vk : Bytes32) (sequence validUntil : Uint64)
      (hbound : s.entitySigners entity=0 ∨ s.entitySigners entity=vk)
      (hraises : s.signerSequences vk<sequence)
      (hvalid : isValidTransition (s.entityStates entity) newState=true) :
      Effect s env (.transitionState entity newState vk sequence validUntil)
        {s with
          entitySigners := update s.entitySigners entity vk
          entityStates := update s.entityStates entity newState
          signerSequences := update s.signerSequences vk sequence}
  | rotated {message : Message} {s' : Registry} {old new : Bytes32} {grace : Uint64}
      (hrotation : message.rotation=some (old,new,grace))
      (haccepts : s.AcceptsRotation env old new grace)
      (hmarks : s'.signerSequences = update s.signerSequences new (s.signerSequences old))
      (hsame : SameEntities s s') : Effect s env message s'
  | reassigned (entity vk : Bytes32)
      (hreassigns : s.Reassigns (env,.reassignEntitySigner entity vk) entity vk) :
      Effect s env (.reassignEntitySigner entity vk)
        {s with entitySigners := update s.entitySigners entity vk}
  | disputed (entity fraudProofHash : Bytes32)
      (hdisputes : s.Disputes (env,.disputeBinding entity fraudProofHash) entity) :
      Effect s env (.disputeBinding entity fraudProofHash)
        {s.recordBinding entity {s.bindingStatements entity with disputed := true} with
          entitySigners := update s.entitySigners entity 0
          entityStates := update s.entityStates entity stateUnknown}
  | administered {message : Message} {s' : Registry}
      (hmarks : s'.signerSequences=s.signerSequences) (hsame : SameEntities s s') :
      Effect s env message s'

theorem anchorWithBinding_effect {item : AnchorItem} {statementHash signatureHash : Bytes32}
    (h : s.anchorWithBinding env item statementHash signatureHash=.ok s') :
    Effect s env (.anchorWithBinding item statementHash signatureHash) s' := by
  simp only [anchorWithBinding,bind_eq_ok] at h
  obtain ⟨_,_,next,hi,h⟩ := h
  have hi := anchorAll_singleton.mpr hi
  split_ifs at h with hf
  · cases h
    exact .bound item statementHash signatureHash next hf.1 hi
  · cases h
    exact .anchored hi

theorem call_effect (h : s.call env m=.ok s') : Effect s env m s' := by
  obtain ⟨_,hv,h⟩ := bind_eq_ok.mp h
  have hv := nonpayable_eq_ok.mp hv
  cases m with
  | anchor item =>
    obtain ⟨_,_,h⟩ := bind_eq_ok.mp h
    exact .anchored (anchorAll_singleton.mpr h)
  | batchAnchor items =>
    simp only [dispatch,batchAnchor,bind_eq_ok] at h
    obtain ⟨_,_,_,_,_,_,_,_,h⟩ := h
    exact .anchored h
  | transitionState entity newState vk seq validUntil =>
    obtain ⟨hb,hra,hva,rfl⟩ := transitionState_ok h
    exact .moved entity newState vk seq validUntil hb hra hva
  | anchorWithBinding item statementHash signatureHash => exact anchorWithBinding_effect h
  | rotateSigner old new =>
    obtain ⟨_,ha,h⟩ := bind_eq_ok.mp h
    obtain ⟨hr,hm,hsa⟩ := rotate_ok h
    exact .rotated rfl ⟨hv,onlyAdmin_ok ha,by decide,hr⟩ hm hsa
  | rotateSignerWithGrace old new grace =>
    obtain ⟨_,ha,h⟩ := bind_eq_ok.mp h
    obtain ⟨_,hc,h⟩ := bind_eq_ok.mp h
    obtain ⟨hr,hm,hsa⟩ := rotate_ok h
    exact .rotated rfl ⟨hv,onlyAdmin_ok ha,require_eq_ok.mp hc,hr⟩ hm hsa
  | disputeBinding entity fraudProofHash =>
    simp only [dispatch,disputeBinding,bind_eq_ok,revertIf_eq_ok,not_or,not_not,
      Bool.not_eq_true] at h
    obtain ⟨_,⟨hs,hve⟩,_,hre,_,hu,h⟩ := h
    cases h
    exact .disputed entity fraudProofHash
      ⟨⟨fraudProofHash,rfl⟩,hv,hs,hve,hre,hu⟩
  | reassignEntitySigner entity vkHash =>
    simp only [dispatch,reassignEntitySigner,bind_eq_ok,revertIf_eq_ok,pure_eq_ok,
      Bool.not_eq_false] at h
    obtain ⟨_,ha,_,he,_,hvk,_,hau,rfl⟩ := h
    exact .reassigned entity vkHash
      ⟨rfl,hv,onlyAdmin_ok ha,he,hvk,hau⟩
  | transferAdmin newAdmin | revokeSigner vkHash =>
    simp only [dispatch,transferAdmin,revokeSigner,bind_eq_ok,pure_eq_ok] at h
    obtain ⟨_,_,_,_,rfl⟩ := h
    exact .administered rfl ⟨rfl,rfl,rfl,rfl⟩
  | registerSigner vkHash =>
    simp only [dispatch,registerSigner,bind_eq_ok,pure_eq_ok] at h
    obtain ⟨_,_,_,_,_,_,rfl⟩ := h
    exact .administered rfl ⟨rfl,rfl,rfl,rfl⟩
  | pause | unpause | setBindingDisputeVerifier verifier =>
    simp only [dispatch,pause,unpause,setPaused,setBindingDisputeVerifier,bind_eq_ok,
      pure_eq_ok] at h
    obtain ⟨_,_,rfl⟩ := h
    exact .administered rfl ⟨rfl,rfl,rfl,rfl⟩

theorem call_cases (h : s.call env m=.ok s') : Advances s s' ∨
    (∃ old new grace, m.rotation=some (old,new,grace) ∧ s.AcceptsRotation env old new grace ∧
      s'.signerSequences=update s.signerSequences new (s.signerSequences old) ∧
      s'.entityStates=s.entityStates) ∨
    ∃ entity, s.Disputes (env,m) entity ∧ s'.signerSequences=s.signerSequences ∧
      s'.entityStates=update s.entityStates entity stateUnknown := by
  cases call_effect h with
  | anchored hi => exact .inl (anchorAll_advances hi)
  | bound item statementHash signatureHash next hf hit =>
    have hn := anchorAll_advances hit
    exact .inl ⟨hn.marks,hn.states⟩
  | moved entity newState vk seq validUntil hb hr hv =>
    refine .inl ⟨le_update_of_lt hr,fun other => ?_⟩
    rcases eq_or_ne other entity with rfl|hne
    · right
      dsimp only
      rwa [update_self]
    · exact .inl (update_of_ne hne _ _)
  | rotated hro ha hm hs =>
    exact .inr (.inl ⟨_,_,_,hro,ha,hm,hs.states⟩)
  | reassigned => exact .inl (.of_eq rfl rfl)
  | disputed entity fraudProofHash hd => exact .inr (.inr ⟨entity,hd,rfl,rfl⟩)
  | administered hm hs => exact .inl (.of_eq hm hs.states)

theorem call_batchAnchor_mark {items : BatchItems} (h : s.call env (.batchAnchor items)=.ok s')
    (vk : Bytes32) : s'.signerSequences vk=s.signerSequences vk ∨
      ∃ i < items.anchorDigests.length, (itemAt items i).signerVkHash=vk ∧
        s'.signerSequences vk=(itemAt items i).sequence := by
  obtain ⟨_,_,h⟩ := bind_eq_ok.mp h
  simp only [dispatch,batchAnchor,bind_eq_ok] at h
  obtain ⟨_,_,_,_,_,_,_,_,h⟩ := h
  refine (anchorAll_mark h vk).imp_right ?_
  rintro ⟨item,hit,hvk,hm⟩
  obtain ⟨i,hi,rfl⟩ := List.mem_map.mp hit
  exact ⟨i,List.mem_range.mp hi,hvk,hm⟩

def keepsMarks : Message → Bool
  | .transferAdmin _ | .pause | .unpause | .registerSigner _ | .revokeSigner _
  | .reassignEntitySigner _ _ | .disputeBinding _ _ | .setBindingDisputeVerifier _ => true
  | _ => false

theorem call_of_keepsMarks (hk : keepsMarks m=true) (h : s.call env m=.ok s') :
    s'.signerSequences=s.signerSequences := by
  cases call_effect h with
  | anchored hi =>
    have hn : m.items=[] := by cases m <;> first | rfl | cases hk
    rw [hn] at hi
    rw [Except.ok.inj hi]
  | bound | moved => cases hk
  | rotated hr =>
    cases m with
    | rotateSigner | rotateSignerWithGrace => cases hk
    | _ => cases hr
  | reassigned | disputed => rfl
  | administered hm => exact hm

theorem exists_call_of_rotation {old new : Bytes32} {grace : Uint64}
    (hm : m.rotation=some (old,new,grace)) (h : s.AcceptsRotation env old new grace) :
    ∃ s', s.call env m=.ok s' ∧
      s'.signerSequences=update s.signerSequences new (s.signerSequences old) := by
  obtain ⟨hv,ha,hc,hr⟩ := h
  obtain ⟨s',hs'⟩ := exists_rotate hr
  have hp : (nonpayable env : Result Error Unit)=.ok () := nonpayable_eq_ok.mpr hv
  have hs : s.onlyAdmin env=.ok () := revertIf_eq_ok.mpr (not_not.mpr ha)
  refine ⟨s',?_,(rotate_ok hs').2.1⟩
  cases m with
  | rotateSigner o n =>
    cases hm
    simp only [call,dispatch,rotateSigner,hp,hs]
    exact hs'
  | rotateSignerWithGrace o n g =>
    cases hm
    have hre : (require (grace ≤ sevenDays) "grace > 7d" : Result Error Unit)=.ok () :=
      require_eq_ok.mpr hc
    simp only [call,dispatch,rotateSignerWithGrace,hp,hs,hre]
    exact hs'
  | _ => cases hm

end Registry

/-- A rotation that is accepted goes to a key whose mark is not above that of the old key. -/
def KeepsMark (s : Registry) (t : Transaction) : Prop :=
  match t.2.rotation with
  | none => True
  | some (old,new,grace) =>
    s.AcceptsRotation t.1 old new grace → s.signerSequences new ≤ s.signerSequences old

theorem marks_step {s : Registry} {t : Transaction} {admin : Address} (h : KeepsMark s t)
    (vk : Bytes32) : s.signerSequences vk≤((machine admin).step s t).1.signerSequences vk := by
  obtain ⟨env,message⟩ := t
  change _ ≤ (settle s (s.call env message)).signerSequences vk
  cases hc : s.call env message with
  | error e => exact BitVec.le_refl _
  | ok s' =>
    rcases Registry.call_cases hc with ha |
      ⟨old,new,grace,hm,hac,hma,-⟩ | ⟨entity,-,hma,-⟩
    · exact ha.marks vk
    · rw [KeepsMark,hm] at h
      rw [settle,hma]
      rcases eq_or_ne vk new with rfl|hne
      · rw [update_self]
        exact h hac
      · rw [update_of_ne hne]
        exact BitVec.le_refl _
    · rw [settle,hma]
      exact BitVec.le_refl _

theorem exists_mark_lt {s : Registry} {t : Transaction} (admin : Address) (h : ¬KeepsMark s t) :
    ∃ vk, ((machine admin).step s t).1.signerSequences vk<s.signerSequences vk := by
  obtain ⟨env,message⟩ := t
  rw [KeepsMark] at h
  split at h
  · exact absurd trivial h
  · rename_i old new grace hm
    obtain ⟨ha,hlt⟩ := Classical.not_imp.mp h
    obtain ⟨s',hc,hma⟩ := Registry.exists_call_of_rotation hm ha
    refine ⟨new,?_⟩
    change (settle s (s.call env message)).signerSequences new<_
    rw [hc,settle,hma,update_self]
    exact BitVec.not_le.mp hlt

/-- The mark of a key never falls in exactly the runs whose rotations keep the mark. -/
theorem marks_never_decrease_iff (admin : Address) (inputs : List Transaction) :
    (∀ before mid after vk, inputs=before++mid++after →
      ((machine admin).state before).signerSequences vk ≤
        ((machine admin).state (before++mid)).signerSequences vk) ↔
      (machine admin).Meets KeepsMark inputs := by
  constructor
  · intro h before t after hs
    by_contra hn
    obtain ⟨vk,hlt⟩ := exists_mark_lt admin hn
    have hle := h before [t] after vk (by rw [hs]; simp)
    rw [Machine.state_snoc] at hle
    exact absurd hle (BitVec.not_le.mpr hlt)
  · intro h before mid after vk hs
    refine Machine.persists (C := KeepsMark)
      (fun s t hP hC => BitVec.le_trans hP (marks_step hC vk)) (BitVec.le_refl _) mid ?_
    intro done t rest hm
    exact h (before++done) t (rest++after) (by rw [hs,hm]; simp)

def adminCall (message : Message) : Transaction := (⟨1,0,1000,1⟩,message)

def item (digest entity signer : Bytes32) (sequence : Uint64) : AnchorItem :=
  ⟨digest,entity,7,0,signer,sequence,2000,0⟩

def usedKeyRun : List Transaction :=
  [.registerSigner 10,.registerSigner 11,.anchor (item 20 30 10 5),.anchor (item 21 31 11 9),
    .revokeSigner 11].map adminCall

theorem usedKeyRun_mark_falls : ((machine 1).state usedKeyRun).signerSequences 11=9 ∧
      ((machine 1).state (usedKeyRun++[adminCall (.rotateSigner 10 11)])).signerSequences 11 =
        5 := by decide +kernel

section
variable (admin : Address) {s : Registry} {t : Transaction}

def StateMoves (s s' : Registry) (t : Transaction) (entity : Bytes32) : Prop :=
  s'.entityStates entity=s.entityStates entity ∨
    isValidTransition (s.entityStates entity) (s'.entityStates entity)=true ∨
    s.Disputes t entity ∧ s'.entityStates entity=stateUnknown

theorem stateMoves_step (s : Registry) (t : Transaction) (entity : Bytes32) :
    StateMoves s ((machine admin).step s t).1 t entity := by
  obtain ⟨env,message⟩ := t
  change StateMoves s (settle s (s.call env message)) _ _
  cases hc : s.call env message with
  | error e => exact .inl rfl
  | ok s' =>
    rcases Registry.call_cases hc with ha |
      ⟨old,new,grace,-,-,-,hs⟩ | ⟨disputed,hd,-,hs⟩
    · exact (ha.states entity).imp_right .inl
    · exact .inl (congrFun hs entity)
    · rcases eq_or_ne entity disputed with rfl|hne
      · exact .inr (.inr ⟨hd,by rw [settle,hs,update_self]⟩)
      · exact .inl (by rw [settle,hs,update_of_ne hne])

theorem deleted_step {entity : Bytes32} (hd : s.entityStates entity=stateDeleted)
    (hdi : ¬s.Disputes t entity) :
    ((machine admin).step s t).1.entityStates entity=stateDeleted := by
  rcases stateMoves_step admin s t entity with hs|hv|⟨hdis,-⟩
  · rw [hs,hd]
  · rw [hd] at hv
    exact absurd hv Bool.false_ne_true
  · exact absurd hdis hdi

/-- A state changes along a transition, or back to `stateUnknown` when the binding of the entity
is disputed; without such a dispute a deleted entity stays deleted. -/
theorem entityStates_follow_transitions (admin : Address) (inputs : List Transaction)
    (entity : Bytes32) : (∀ before t after, inputs=before++t::after →
      StateMoves ((machine admin).state before) ((machine admin).state (before++[t])) t entity) ∧
    ∀ before after, inputs=before++after →
      ((machine admin).state before).entityStates entity=stateDeleted →
      (∀ mid t rest, after=mid++t::rest →
        ¬((machine admin).state (before++mid)).Disputes t entity) →
      ((machine admin).state inputs).entityStates entity=stateDeleted := by
  constructor
  · intro before t after _
    rw [Machine.state_snoc]
    exact stateMoves_step admin _ t entity
  · intro before after hs hd hdi
    rw [hs]
    exact Machine.persists (P := fun s : Registry => s.entityStates entity=stateDeleted)
      (fun s t => deleted_step admin)
      hd after hdi

def deletedRun : List Transaction :=
  [.registerSigner 10,.setBindingDisputeVerifier 1,.anchorWithBinding (item 20 30 10 1) 40 41,
    .transitionState 30 stateDeleted 10 2 2000].map adminCall

theorem deletedRun_paused_stays_deleted :
    ((machine 1).state deletedRun).entityStates 30=stateDeleted ∧
      ((machine 1).state (deletedRun++[adminCall .pause])).entityStates 30=stateDeleted := by
  have hd : ((machine 1).state deletedRun).entityStates 30=stateDeleted := by decide +kernel
  refine ⟨hd,(entityStates_follow_transitions 1 _ 30).2 deletedRun _ rfl hd ?_⟩
  rintro mid t rest hs ⟨⟨fraudProofHash,hdi⟩,-⟩
  obtain rfl : adminCall .pause=t := by
    have hm : t ∈ [adminCall .pause] := hs ▸ by simp
    exact (List.mem_singleton.mp hm).symm
  simp [adminCall] at hdi

theorem deletedRun_revived_by_dispute :
    ((machine 1).state deletedRun).entityStates 30=stateDeleted ∧
      isValidTransition stateDeleted stateUnknown=false ∧
      ((machine 1).state (deletedRun++[adminCall (.disputeBinding 30 50)])).entityStates 30 =
        stateUnknown := by decide +kernel

end

end LatticeTransfer.AnchorRegistry
