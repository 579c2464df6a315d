import LatticeTransfer.Machine
import LatticeTransfer.Solidity
import Mathlib.Data.FinEnum

/-!
# On-chain votes for a phase transition

`ETPGovernance`: the admin registers and revokes operators, an operator votes once for a
transition key, and a transition is executed when its key has enough votes. The number of
votes that is enough is taken from the number of operators at the first vote, or from the
number of the moment if there is no vote.
-/

namespace LatticeTransfer.ETPGovernance
open Solidity Finset Function

structure Governance where
  admin : Address
  currentPhase : Bytes32
  operatorCount : Uint256
  requiredRatio : Uint256
  authorizedOperators : Bytes32 → Bool
  operatorAddress : Bytes32 → Address
  voteCount : Bytes32 → Uint256
  hasVoted : Bytes32 → Bytes32 → Bool
  operatorSequences : Bytes32 → Uint64
  operatorCountAtFirstVote : Bytes32 → Uint256

inductive Error
  | notAdmin (caller : Address)
  | operatorNotAuthorized (vkHash : Bytes32)
  | operatorAlreadyRegistered (vkHash : Bytes32)
  | operatorNotRegistered (vkHash : Bytes32)
  | duplicateVote (transitionKey vkHash : Bytes32)
  | sequenceTooLow (vkHash : Bytes32) (provided required : Uint64)
  | voteExpired (validUntil currentTime : Uint64)
  | supermajorityNotReached (transitionKey : Bytes32) (have_ need : Uint256)
  | invalidPhaseTransition (source target : Bytes32)
  | notCurrentPhase (expected actual : Bytes32)
  | zeroVkHash
  | zeroOperatorAddress
  | notOperatorCaller (vkHash : Bytes32) (caller expected : Address)
deriving DecidableEq

inductive Message
  | registerOperator (vkHash : Bytes32) (operator : Address)
  | revokeOperator (vkHash : Bytes32)
  | transferAdmin (newAdmin : Address)
  | castVote (transitionKey voterVkHash : Bytes32) (sequence validUntil : Uint64)
  | executeTransition (fromPhase toPhase : Bytes32)

def basisPoints : Uint256 := 10000

section
variable (keccak256 : Bytes → Bytes32)

def phaseBootstrap : Bytes32 := keccak256 (stringBytes "bootstrap")
def phaseGrowth : Bytes32 := keccak256 (stringBytes "growth")
def phaseMaturity : Bytes32 := keccak256 (stringBytes "maturity")

def isValidTransition (source target : Bytes32) : Bool :=
  source=phaseBootstrap keccak256 ∧ target=phaseGrowth keccak256 ∨
    source=phaseGrowth keccak256 ∧ target=phaseMaturity keccak256

def transitionKey (fromPhase toPhase : Bytes32) : Bytes32 :=
  keccak256 (encodePacked fromPhase++stringBytes "->" ++ encodePacked toPhase)

def initialStorage (admin : Address) (requiredRatio : Uint256) : Governance where
  admin := admin
  currentPhase := phaseBootstrap keccak256
  operatorCount := 0
  requiredRatio := if 0<requiredRatio then requiredRatio else 6667
  authorizedOperators _ := false
  operatorAddress _ := 0
  voteCount _ := 0
  hasVoted _ _ := false
  operatorSequences _ := 0
  operatorCountAtFirstVote _ := 0

end

namespace Governance
variable (keccak256 : Bytes → Bytes32) (s : Governance) (env : Env)

def onlyAdmin : Result Error Unit := revertIf (env.sender≠s.admin) (.notAdmin env.sender)

def registerOperator (vkHash : Bytes32) (operator : Address) : Result Error Governance := do
  s.onlyAdmin env
  revertIf (vkHash=0) .zeroVkHash
  revertIf (operator=0) .zeroOperatorAddress
  revertIf (s.authorizedOperators vkHash=true) (.operatorAlreadyRegistered vkHash)
  let count ← checkedAdd s.operatorCount 1
  return {s with
    authorizedOperators := update s.authorizedOperators vkHash true
    operatorAddress := update s.operatorAddress vkHash operator
    operatorCount := count}

def revokeOperator (vkHash : Bytes32) : Result Error Governance := do
  s.onlyAdmin env
  revertIf (s.authorizedOperators vkHash=false) (.operatorNotRegistered vkHash)
  let count ← checkedSub s.operatorCount 1
  return {s with
    authorizedOperators := update s.authorizedOperators vkHash false
    operatorCount := count}

def transferAdmin (newAdmin : Address) : Result Error Governance := do
  s.onlyAdmin env
  revertIf (newAdmin=0) (.notAdmin 0)
  return {s with admin := newAdmin}

/-- `(count * requiredRatio + BASIS_POINTS - 1) / BASIS_POINTS`. -/
def requiredVotes (count : Uint256) : Result Error Uint256 := do
  let product ← checkedMul count s.requiredRatio
  let sum ← checkedAdd product basisPoints
  let rounded ← checkedSub sum 1
  return rounded / basisPoints

def recordVote (transitionKey voterVkHash : Bytes32) (sequence : Uint64) (count : Uint256) :
    Governance :=
  let voted := update (s.hasVoted transitionKey) voterVkHash true
  {s with
    hasVoted := update s.hasVoted transitionKey voted
    operatorSequences := update s.operatorSequences voterVkHash sequence
    voteCount := update s.voteCount transitionKey count}

def snapshot (transitionKey : Bytes32) : Governance :=
  if s.operatorCountAtFirstVote transitionKey=0 then
    {s with operatorCountAtFirstVote :=
        update s.operatorCountAtFirstVote transitionKey s.operatorCount}
  else s

def castVote (transitionKey voterVkHash : Bytes32) (sequence validUntil : Uint64) :
    Result Error Governance := do
  revertIf (s.authorizedOperators voterVkHash=false) (.operatorNotAuthorized voterVkHash)
  let expected := s.operatorAddress voterVkHash
  revertIf (env.sender≠expected) (.notOperatorCaller voterVkHash env.sender expected)
  revertIf (s.hasVoted transitionKey voterVkHash=true) (.duplicateVote transitionKey voterVkHash)
  let lastSeq := s.operatorSequences voterVkHash
  revertIf (sequence≤lastSeq) (.sequenceTooLow voterVkHash sequence lastSeq)
  revertIf (validUntil.toNat<env.timestamp.toNat)
    (.voteExpired validUntil (uint64 env.timestamp))
  let count ← checkedAdd (s.voteCount transitionKey) 1
  let s := (s.recordVote transitionKey voterVkHash sequence count).snapshot transitionKey
  let _ ← s.requiredVotes (s.operatorCountAtFirstVote transitionKey)
  return s

def snapshotCount (transitionKey : Bytes32) : Uint256 :=
  if s.operatorCountAtFirstVote transitionKey=0 then s.operatorCount
  else s.operatorCountAtFirstVote transitionKey

def executeTransition (fromPhase toPhase : Bytes32) : Result Error Governance := do
  revertIf (s.currentPhase≠fromPhase) (.notCurrentPhase s.currentPhase fromPhase)
  revertIf (isValidTransition keccak256 fromPhase toPhase=false)
    (.invalidPhaseTransition fromPhase toPhase)
  let key := transitionKey keccak256 fromPhase toPhase
  let required ← s.requiredVotes (s.snapshotCount key)
  revertIf (s.voteCount key<required) (.supermajorityNotReached key (s.voteCount key) required)
  return {s with currentPhase := toPhase}

def call (message : Message) : Result Error Governance := do
  nonpayable env
  match message with
  | .registerOperator vkHash operator => s.registerOperator env vkHash operator
  | .revokeOperator vkHash => s.revokeOperator env vkHash
  | .transferAdmin newAdmin => s.transferAdmin env newAdmin
  | .castVote transitionKey voterVkHash sequence validUntil =>
    s.castVote env transitionKey voterVkHash sequence validUntil
  | .executeTransition fromPhase toPhase => s.executeTransition keccak256 fromPhase toPhase

end Governance

def machine (keccak256 : Bytes → Bytes32) (admin : Address) (requiredRatio : Uint256) :
    Machine Governance (Env × Message) Empty where
  start := initialStorage keccak256 admin requiredRatio
  step s t := (settle s (s.call keccak256 t.1 t.2),[])

def operators (s : Governance) : Finset Bytes32 :=
  Finset.univ.filter fun vk => s.authorizedOperators vk=true

def voters (s : Governance) (key : Bytes32) : Finset Bytes32 :=
  Finset.univ.filter fun vk => s.hasVoted key vk=true

structure Consistent (s : Governance) : Prop where
  ratio_pos : 0<s.requiredRatio.toNat
  operatorCount_eq : s.operatorCount.toNat=(operators s).card
  voteCount_eq : ∀ key, (s.voteCount key).toNat=(voters s key).card

section
variable {H : Bytes → Bytes32} {s s' : Governance} {env : Env}

theorem consistent_initialStorage (keccak256 : Bytes → Bytes32) (admin : Address)
    (requiredRatio : Uint256) : Consistent (initialStorage keccak256 admin requiredRatio) := by
  refine ⟨?_,by simp [initialStorage,operators],fun key => by simp [initialStorage,voters]⟩
  rw [initialStorage]
  dsimp only
  split_ifs with hp
  · exact BitVec.lt_def.mp hp
  · decide

theorem operators_of_update {vkHash : Bytes32} {b : Bool}
    (h : s'.authorizedOperators=update s.authorizedOperators vkHash b) :
    operators s'=if b then insert vkHash (operators s) else (operators s).erase vkHash := by
  ext vk
  rcases eq_or_ne vk vkHash with rfl|hne
  · cases b <;> simp [operators,h]
  · cases b <;> simp [operators,h,hne]

theorem consistent_registerOperator {vkHash : Bytes32} {operator : Address} (hs : Consistent s)
    (h : s.registerOperator env vkHash operator=.ok s') : Consistent s' := by
  simp only [Governance.registerOperator,bind_eq_ok,checkedAdd_eq_ok,pure_eq_ok] at h
  obtain ⟨_,_,_,_,_,_,_,hnew,count,hc,rfl⟩ := h
  refine ⟨hs.ratio_pos,?_,hs.voteCount_eq⟩
  have hn : vkHash ∉ operators s := by simpa [operators] using hnew
  rw [operators_of_update rfl,if_pos rfl,card_insert_of_notMem hn,← hs.operatorCount_eq]
  exact hc.symm

theorem consistent_revokeOperator {vkHash : Bytes32} (hs : Consistent s)
    (h : s.revokeOperator env vkHash=.ok s') : Consistent s' := by
  simp only [Governance.revokeOperator,bind_eq_ok,checkedSub_eq_ok,pure_eq_ok] at h
  obtain ⟨_,_,_,hr,count,hc,rfl⟩ := h
  refine ⟨hs.ratio_pos,?_,hs.voteCount_eq⟩
  have hm : vkHash ∈ operators s := by simpa [operators] using hr
  have ho : (1 : Uint256).toNat=1 := rfl
  have hca := hs.operatorCount_eq
  rw [operators_of_update rfl,if_neg Bool.false_ne_true,card_erase_of_mem hm]
  dsimp only
  omega

theorem consistent_snapshot (hs : Consistent s) (key : Bytes32) : Consistent (s.snapshot key) := by
  rw [Governance.snapshot]
  split_ifs
  · exact ⟨hs.ratio_pos,hs.operatorCount_eq,hs.voteCount_eq⟩
  · exact hs

theorem voters_recordVote (s : Governance) (key voter : Bytes32) (seq : Uint64)
    (count : Uint256) : voters (s.recordVote key voter seq count) key =
      insert voter (voters s key) := by
  ext vk
  rcases eq_or_ne vk voter with rfl|hne
  · simp [voters,Governance.recordVote]
  · simp [voters,Governance.recordVote,hne]

theorem voters_recordVote_of_ne {other key : Bytes32} (hne : other≠key) (s : Governance)
    (voter : Bytes32) (seq : Uint64) (count : Uint256) :
    voters (s.recordVote key voter seq count) other=voters s other := by
  simp [voters,Governance.recordVote,hne]

theorem consistent_castVote {key voter : Bytes32} {seq validUntil : Uint64}
    (hs : Consistent s) (h : s.castVote env key voter seq validUntil=.ok s') : Consistent s' := by
  simp only [Governance.castVote,bind_eq_ok,checkedAdd_eq_ok,pure_eq_ok] at h
  obtain ⟨_,_,_,_,_,hnew,_,_,_,_,count,hc,_,_,rfl⟩ := h
  have hn : voter ∉ voters s key := by simpa [voters] using hnew
  have hr : Consistent (s.recordVote key voter seq count) := by
    refine ⟨hs.ratio_pos,hs.operatorCount_eq,fun other => ?_⟩
    rcases eq_or_ne other key with rfl|hne
    · rw [voters_recordVote,card_insert_of_notMem hn,← hs.voteCount_eq]
      refine .trans ?_ hc.symm
      exact congrArg BitVec.toNat (update_self _ _ _)
    · rw [voters_recordVote_of_ne hne,← hs.voteCount_eq]
      exact congrArg BitVec.toNat (update_of_ne hne _ _)
  exact consistent_snapshot hr key

theorem consistent_call {m : Message} (hs : Consistent s)
    (h : s.call H env m=.ok s') : Consistent s' := by
  obtain ⟨_,_,h⟩ := bind_eq_ok.mp h
  cases m with
  | registerOperator vkHash operator => exact consistent_registerOperator hs h
  | revokeOperator vkHash => exact consistent_revokeOperator hs h
  | transferAdmin newAdmin =>
    simp only [Governance.transferAdmin,bind_eq_ok,pure_eq_ok] at h
    obtain ⟨_,_,_,_,rfl⟩ := h
    exact ⟨hs.ratio_pos,hs.operatorCount_eq,hs.voteCount_eq⟩
  | castVote key voter seq validUntil => exact consistent_castVote hs h
  | executeTransition fromPhase toPhase =>
    simp only [Governance.executeTransition,bind_eq_ok,pure_eq_ok] at h
    obtain ⟨_,_,_,_,_,_,_,_,rfl⟩ := h
    exact ⟨hs.ratio_pos,hs.operatorCount_eq,hs.voteCount_eq⟩

theorem consistent_run (keccak256 : Bytes → Bytes32) (admin : Address) (requiredRatio : Uint256)
    (inputs : List (Env × Message)) :
    Consistent ((machine keccak256 admin requiredRatio).state inputs) := by
  refine Machine.invariant (P := fun s _ => Consistent s)
    (consistent_initialStorage keccak256 admin requiredRatio) (fun s _ t hs => ?_) inputs
  change Consistent (settle s (s.call keccak256 t.1 t.2))
  cases hc : s.call keccak256 t.1 t.2 with
  | error e => exact hs
  | ok s' => exact consistent_call hs hc

theorem requiredVotes_ok {count required : Uint256} (h : s.requiredVotes count=.ok required) :
    ∀ votes, required.toNat≤votes ↔ count.toNat*s.requiredRatio.toNat≤10000*votes := by
  simp only [Governance.requiredVotes,bind_eq_ok,checkedMul_eq_ok,checkedAdd_eq_ok,
    checkedSub_eq_ok,pure_eq_ok] at h
  obtain ⟨product,hp,sum,hs,rounded,hr,rfl⟩ := h
  intro votes
  have hb : basisPoints.toNat=10000 := rfl
  have ho : (1 : Uint256).toNat=1 := rfl
  rw [BitVec.toNat_udiv,hb]
  omega

end

/-- Some operator is registered, there are not more operators than at the first vote for the
key, and none of those that voted for it has been revoked. -/
structure Undisturbed (s : Governance) (key : Bytes32) : Prop where
  registered : s.operatorCount≠0
  not_grown : s.operatorCountAtFirstVote key≠0 →
    s.operatorCount ≤ s.operatorCountAtFirstVote key
  not_revoked : ∀ vk, s.hasVoted key vk=true → s.authorizedOperators vk=true

section
variable {keccak256 : Bytes → Bytes32} {admin : Address} {requiredRatio : Uint256}
  {inputs : List (Env × Message)} {env : Env} {fromPhase toPhase : Bytes32} {s s' : Governance}

theorem executeTransition_ok
    (h : s.call keccak256 env (.executeTransition fromPhase toPhase)=.ok s') :
    (s.snapshotCount (transitionKey keccak256 fromPhase toPhase)).toNat*s.requiredRatio.toNat ≤
      10000*(s.voteCount (transitionKey keccak256 fromPhase toPhase)).toNat := by
  obtain ⟨_,_,h⟩ := bind_eq_ok.mp h
  simp only [Governance.executeTransition,bind_eq_ok,revertIf_eq_ok] at h
  obtain ⟨_,_,_,_,required,hr,_,hre,_⟩ := h
  exact (requiredVotes_ok hr _).mp (BitVec.not_lt.mp hre)

/-- A transition that is executed in an undisturbed state has the votes of the required share of
the operators of the moment, and at least one vote. -/
theorem executeTransition_supermajority
    (h : ((machine keccak256 admin requiredRatio).state inputs).call keccak256 env
      (.executeTransition fromPhase toPhase)=.ok s')
    (hundisturbed : Undisturbed ((machine keccak256 admin requiredRatio).state inputs)
      (transitionKey keccak256 fromPhase toPhase)) :
    let s := (machine keccak256 admin requiredRatio).state inputs
    let voted := voters s (transitionKey keccak256 fromPhase toPhase)
    (operators s).card*s.requiredRatio.toNat≤10000*(operators s ∩ voted).card ∧
      voted.Nonempty := by
  intro s voted
  have hs : Consistent s := consistent_run keccak256 admin requiredRatio inputs
  have hv := executeTransition_ok h
  set key := transitionKey keccak256 fromPhase toPhase with hk
  have hi : operators s ∩ voted=voted := by
    refine inter_eq_right.mpr fun vk hvk => ?_
    have hvo := (mem_filter.mp hvk).2
    exact mem_filter.mpr ⟨mem_univ vk,hundisturbed.not_revoked vk hvo⟩
  have hc : s.operatorCount.toNat≤(s.snapshotCount key).toNat := by
    rw [Governance.snapshotCount]
    split_ifs with hz
    · exact le_rfl
    · exact hundisturbed.not_grown hz
  have hsh : (operators s).card*s.requiredRatio.toNat≤10000*voted.card := by
    rw [← hs.operatorCount_eq,← hs.voteCount_eq]
    exact (Nat.mul_le_mul_right _ hc).trans hv
  rw [hi]
  refine ⟨hsh,card_pos.mp ?_⟩
  have ho : 0<(operators s).card := by
    rw [← hs.operatorCount_eq]
    exact Nat.pos_of_ne_zero fun hz => hundisturbed.registered (BitVec.eq_of_toNat_eq hz)
  have hp := Nat.mul_pos ho hs.ratio_pos
  omega

end

section

abbrev growthKey : Bytes32 := transitionKey digits (phaseBootstrap digits) (phaseGrowth digits)

def sentBy (sender : Address) (message : Message) : Env × Message := (⟨sender,0,1000,1⟩,message)

def toGrowth : Env × Message :=
  sentBy 5 (.executeTransition (phaseBootstrap digits) (phaseGrowth digits))

def oneVote : List (Env × Message) :=
  [sentBy 1 (.registerOperator 11 101),sentBy 101 (.castVote growthKey 11 1 2000)]

def governance : Machine Governance (Env × Message) Empty := machine digits 1 6667

theorem governance_consistent (inputs : List (Env × Message)) :
    Consistent (governance.state inputs) := consistent_run digits 1 6667 inputs

theorem oneVote_supermajority :
    (∃ s', (governance.state oneVote).call digits toGrowth.1 toGrowth.2=.ok s') ∧
      (voters (governance.state oneVote) growthKey).Nonempty := by
  have hca : ((governance.state oneVote).call digits toGrowth.1 toGrowth.2).toOption.any
    (fun _ => true)=true := by decide +kernel
  obtain ⟨s',hs',-⟩ := PyValue.exists_ok_of_any hca
  have ho : (voters (governance.state oneVote) growthKey).card=1 := by
    rw [← (governance_consistent oneVote).voteCount_eq]
    decide +kernel
  have hm : 11 ∈ voters (governance.state oneVote) growthKey :=
    mem_filter.mpr ⟨mem_univ _,by decide +kernel⟩
  have hr : (governance.state oneVote).operatorCount≠0 := by decide +kernel
  have hc : (governance.state oneVote).operatorCount ≤
    (governance.state oneVote).operatorCountAtFirstVote growthKey := by decide +kernel
  have ha : (governance.state oneVote).authorizedOperators 11=true := by decide +kernel
  have hu : Undisturbed (governance.state oneVote) growthKey := by
    refine ⟨hr,fun _ => hc,fun vk hvk => ?_⟩
    have hvk : vk ∈ voters (governance.state oneVote) growthKey :=
      mem_filter.mpr ⟨mem_univ _,hvk⟩
    rw [card_le_one.mp ho.le vk hvk 11 hm]
    exact ha
  exact ⟨⟨s',hs'⟩,(executeTransition_supermajority hs' hu).2⟩

def fiveMore : List (Env × Message) :=
  oneVote++[12,13,14,15,16].map fun vk => sentBy 1 (.registerOperator vk 102)

theorem executed_without_supermajority :
    ((governance.state [toGrowth]).currentPhase≠(governance.state []).currentPhase ∧
      operators (governance.state [])=∅ ∧ voters (governance.state []) growthKey=∅) ∧
    (governance.state (fiveMore++[toGrowth])).currentPhase ≠
        (governance.state fiveMore).currentPhase ∧ (operators (governance.state fiveMore)).card=6 ∧
      (voters (governance.state fiveMore) growthKey).card=1 := by
  refine ⟨⟨by decide +kernel,?_,?_⟩,by decide +kernel,?_,?_⟩
  · rw [← card_eq_zero,← (governance_consistent []).operatorCount_eq]
    decide +kernel
  · rw [← card_eq_zero,← (governance_consistent []).voteCount_eq]
    decide +kernel
  · rw [← (governance_consistent fiveMore).operatorCount_eq]
    decide +kernel
  · rw [← (governance_consistent fiveMore).voteCount_eq]
    decide +kernel

end

end LatticeTransfer.ETPGovernance
