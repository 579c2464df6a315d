import LatticeTransfer.WriterRegistry

/-!
# Rate limits of writers

`WriterGate` with `PolicyEngine`, `EpochTracker` and the gated path of `TransactionRouter`. The
tracker has one counter for each writer and VM and is cleared when it sees a later epoch, which
happens when a dispatch is counted or the epoch is announced. The gate reads the counter without
saying for which epoch it asks.

A run records every successful dispatch with the epoch of its batch. What an executor answers is
an input.
-/

namespace LatticeTransfer.WriterGate
open WriterRegistry

inductive OperationType
  | transfer
  | deploy
  | call
  | stateModify
  | stateRead
deriving DecidableEq

def OperationType.value : OperationType → String
  | .transfer => "transfer"
  | .deploy => "deploy"
  | .call => "call"
  | .stateModify => "state_modify"
  | .stateRead => "state_read"

def inferOperationType : Bytes → OperationType
  | [] => .transfer
  | tag::_ =>
    if tag=0x01 then .deploy
    else if tag=0x02 then .call
    else if tag=0x03 then .stateModify
    else if tag=0x04 then .stateRead
    else .transfer

def tierValue : IdentityTier → String
  | .mldsa => "mldsa"
  | .bls => "bls"
  | .composite => "composite"

structure VMWriterPolicy where
  allowedTiers : List IdentityTier
  tierOperations : Dict IdentityTier (List OperationType)
  maxTxsPerEpoch : Dict IdentityTier ℤ
  minStake : Dict IdentityTier ℤ
  maxWriters : ℤ
  feeMultiplier : Dict IdentityTier Float
  allowlist : Option (List Bytes)
  denylist : List Bytes

def perTier {α : Type} (mldsa bls composite : α) : Dict IdentityTier α :=
  ⟨[(.mldsa,mldsa),(.bls,bls),(.composite,composite)],by simp⟩

def allOperations : List OperationType := [.transfer,.deploy,.call,.stateModify,.stateRead]

def VMWriterPolicy.standard : VMWriterPolicy where
  allowedTiers := [.mldsa,.bls,.composite]
  tierOperations := perTier allOperations [.transfer,.stateRead] allOperations
  maxTxsPerEpoch := perTier 0 1000 0
  minStake := perTier 0 0 0
  maxWriters := 0
  feeMultiplier := perTier 1.0 1.0 1.0
  allowlist := none
  denylist := []

inductive Denial
  | tierNotAllowed (tier : IdentityTier)
  | onDenylist
  | notOnAllowlist
  | blockedDuringProbation (operation : OperationType)
  | notPermitted (operation : OperationType) (tier : IdentityTier)
  | rateLimitExceeded
  | insufficientStake
  | writerCapReached
deriving DecidableEq

def Denial.reason : Denial → String
  | .tierNotAllowed tier => "tier " ++ tierValue tier ++ " not allowed"
  | .onDenylist => "writer on denylist"
  | .notOnAllowlist => "writer not on allowlist"
  | .blockedDuringProbation operation =>
    "operation " ++ operation.value ++ " blocked during probation"
  | .notPermitted operation tier =>
    "operation " ++ operation.value ++ " not permitted for tier " ++ tierValue tier
  | .rateLimitExceeded => "rate limit exceeded"
  | .insufficientStake => "insufficient stake"
  | .writerCapReached => "writer cap reached"

section
variable (mods : ProbationModifiers) (record : WriterRecord) (operation : OperationType)
  (policy : VMWriterPolicy)

def checkAccess : Option Denial :=
  let tier := record.identity.tier
  let fp := record.identity.fingerprint
  if tier ∉ policy.allowedTiers then some (.tierNotAllowed tier)
  else if fp ∈ policy.denylist then some .onDenylist
  else if policy.allowlist.any (fp ∉ ·) then some .notOnAllowlist
  else if record.state=.probation ∧ operation.value ∈ mods.blockedOperations then
    some (.blockedDuringProbation operation)
  else if operation ∉ (policy.tierOperations.get? tier).getD [] then
    some (.notPermitted operation tier)
  else none

def effectiveLimit : Option ℤ :=
  let limit := (policy.maxTxsPerEpoch.get? record.identity.tier).getD 0
  if record.state=.probation ∧ 0<limit then
    if mods.rateLimitDivisor=0 then none else some (max 1 (limit.fdiv mods.rateLimitDivisor))
  else some limit

def evaluate (txCount writerCount stake : ℤ) : Option (Except Denial Float) :=
  match checkAccess mods record operation policy with
  | some denial => some (.error denial)
  | none =>
    match effectiveLimit mods record policy with
    | none => none
    | some limit =>
      if 0<limit ∧ limit≤txCount then some (.error .rateLimitExceeded)
      else if stake<(policy.minStake.get? record.identity.tier).getD 0 then
        some (.error .insufficientStake)
      else if 0<policy.maxWriters ∧ policy.maxWriters≤writerCount then
        some (.error .writerCapReached)
      else
        let base := (policy.feeMultiplier.get? record.identity.tier).getD 1.0
        some (.ok (if record.state=.probation then base*mods.feeMultiplierFactor else base))

theorem evaluate_eq_rateLimitExceeded {txCount writerCount stake : ℤ} :
    evaluate mods record operation policy txCount writerCount stake =
        some (.error .rateLimitExceeded) ↔ checkAccess mods record operation policy=none ∧
        ∃ limit, effectiveLimit mods record policy=some limit ∧ 0<limit ∧ limit≤txCount := by
  have ha : checkAccess mods record operation policy≠some .rateLimitExceeded := by
    rw [checkAccess]
    split_ifs <;> simp
  rw [evaluate]
  cases hb : checkAccess mods record operation policy with
  | some denial =>
    have ho : denial≠.rateLimitExceeded := fun heq => ha (heq ▸ hb)
    simp [ho]
  | none =>
    cases effectiveLimit mods record policy with
    | none => simp
    | some limit =>
      dsimp only
      split_ifs with hl hs hc <;> simp [hl]

end

structure EpochTracker where
  counts : Dict (Bytes × ℕ) ℕ
  currentEpoch : ℤ

namespace EpochTracker

def init : EpochTracker := ⟨Dict.empty,0⟩

variable (tracker : EpochTracker)

def advanceEpoch (newEpoch : ℤ) : EpochTracker :=
  if newEpoch≤tracker.currentEpoch then tracker else ⟨Dict.empty,newEpoch⟩

def getTxCount (writerFp : Bytes) (vmTag : ℕ) : ℕ :=
  (tracker.counts.get? (writerFp,vmTag)).getD 0

def countTx (writerFp : Bytes) (vmTag : ℕ) : EpochTracker :=
  ⟨tracker.counts.set (writerFp,vmTag) (tracker.getTxCount writerFp vmTag+1),
    tracker.currentEpoch⟩

def increment (writerFp : Bytes) (vmTag : ℕ) (epoch : ℤ) : EpochTracker :=
  (if epoch≠tracker.currentEpoch then tracker.advanceEpoch epoch else tracker).countTx
    writerFp vmTag

end EpochTracker

structure EmergencyState where
  registryFrozen : Bool
  frozenVms : Finset ℕ
  bypassedAuthorizers : Finset ℕ
  dispatchOverrides : Dict Bytes Bool

structure Gate where
  registry : Registry
  modifiers : ProbationModifiers
  emergency : EmergencyState
  tracker : EpochTracker
  policies : Dict ℕ VMWriterPolicy
  snapshots : Dict ℕ (List VMWriterPolicy)
  executors : Dict ℕ Bool

structure TxResult where
  success : Bool
  gasUsed : ℤ
  error : String
  returnData : Bytes

def TxResult.rejected (reason : String) : TxResult := ⟨false,0,reason,[]⟩
def TxResult.failed (reason : String) : TxResult := ⟨false,0,reason,[]⟩

structure AuthorizationResult where
  allowed : Bool
  reason : Option String

structure Answers where
  authorization : Option AuthorizationResult
  execution : Except String TxResult

inductive Decision
  | gateDenied (reason : String)
  | unknownVm (vmTag : ℕ)
  | authorizerDenied (reason : Option String)
  | policyDenied (denial : Denial)
  | raised
  | allowed (record : WriterRecord) (vmTag : ℕ)

def writerFpSize : ℕ := 32

def hexTag (vmTag : ℕ) : String :=
  String.ofList ['0','x',(PyValue.hexDigit (vmTag / 16)).toUpper,
    (PyValue.hexDigit (vmTag % 16)).toUpper]

namespace Gate

def init (config : RegistryConfig) (modifiers : ProbationModifiers) : Gate :=
  ⟨Registry.init config,modifiers,⟨false,∅,∅,Dict.empty⟩,EpochTracker.init,Dict.empty,
    Dict.empty,Dict.empty⟩

variable (gate : Gate)

def split (tx : Bytes) : Option (Bytes × ℕ × Bytes) :=
  match tx.drop writerFpSize with
  | [] => none
  | vmTag::payload => some (tx.take writerFpSize,vmTag.toNat,payload)

def preDispatch (writerFp : Bytes) (vmTag : ℕ) : Except String WriterRecord :=
  if gate.emergency.registryFrozen then .error "registry frozen"
  else
    match gate.registry.lookup writerFp with
    | none => .error "writer not found"
    | some record =>
      if record.state ∉ transactableStates then
        .error ("writer not active (state=" ++ record.state.value ++ ")")
      else
        match gate.emergency.dispatchOverrides.get? writerFp with
        | some true => .ok record
        | some false => .error "dispatch override: blocked"
        | none =>
          if vmTag ∈ gate.emergency.frozenVms then .error ("VM " ++ hexTag vmTag ++ " frozen")
          else .ok record

def policyFor (vmTag : ℕ) : VMWriterPolicy := (gate.policies.get? vmTag).getD .standard

def evaluatePolicy (record : WriterRecord) (vmTag : ℕ) (operation : OperationType) :
    Option (Except Denial Float) :=
  evaluate gate.modifiers record operation (gate.policyFor vmTag)
    (gate.tracker.getTxCount record.identity.fingerprint vmTag) gate.registry.activeWriters.length 0

def vmAuthorize (record : WriterRecord) (vmTag : ℕ) (isAuthorizer : Bool) (payload : Bytes)
    (authorization : Option AuthorizationResult) : Decision :=
  if isAuthorizer ∧ vmTag ∉ gate.emergency.bypassedAuthorizers then
    match authorization with
    | none => .raised
    | some result =>
      if result.allowed then .allowed record vmTag else .authorizerDenied result.reason
  else
    match gate.evaluatePolicy record vmTag (inferOperationType payload) with
    | none => .raised
    | some (.error denial) => .policyDenied denial
    | some (.ok _) => .allowed record vmTag

def decide (tx : Bytes) (authorization : Option AuthorizationResult) : Decision :=
  match split tx with
  | none => .gateDenied "tx too short for writer gate"
  | some (writerFp,vmTag,payload) =>
    match gate.preDispatch writerFp vmTag with
    | .error reason => .gateDenied reason
    | .ok record =>
      match gate.executors.get? vmTag with
      | none => .unknownVm vmTag
      | some isAuthorizer => gate.vmAuthorize record vmTag isAuthorizer payload authorization

def recordDispatch (writerFp : Bytes) (vmTag : ℕ) (epoch : ℤ) : Gate :=
  {gate with tracker := gate.tracker.increment writerFp vmTag epoch}

def executeGated (tx : Bytes) (epoch : ℤ) (answers : Answers) : Option TxResult × Gate :=
  match gate.decide tx answers.authorization with
  | .gateDenied reason => (some (.rejected ("writer_gate:" ++ reason)),gate)
  | .unknownVm vmTag => (some (.rejected ("unknown_vm_tag:" ++ hexTag vmTag)),gate)
  | .authorizerDenied reason => (some (.rejected ("writer_gate:" ++ reason.getD "None")),gate)
  | .policyDenied denial => (some (.rejected ("writer_gate:" ++ denial.reason)),gate)
  | .raised => (none,gate)
  | .allowed _ vmTag =>
    match answers.execution with
    | .error message => (some (.failed ("execution_error:" ++ message)),gate)
    | .ok result =>
      (some result,
        if result.success then gate.recordDispatch (tx.take writerFpSize) vmTag epoch else gate)

def setPolicy (vmTag : ℕ) (policy : VMWriterPolicy) : Gate :=
  {gate with
    snapshots := gate.snapshots.set vmTag ((gate.snapshots.get? vmTag).getD []++[policy])
    policies := gate.policies.set vmTag policy}

def rollbackPolicy (vmTag version : ℕ) : Gate :=
  match ((gate.snapshots.get? vmTag).getD [])[version]? with
  | none => gate
  | some policy => {gate with policies := gate.policies.set vmTag policy}

def registerExecutor (vmTag : ℕ) (isAuthorizer : Bool) : Gate :=
  match gate.executors.get? vmTag with
  | some _ => gate
  | none => {gate with executors := gate.executors.set vmTag isAuthorizer}

end Gate

structure System where
  gate : Gate
  dispatched : List (Bytes × ℕ × ℤ)

inductive Input
  | registry (input : WriterRegistry.Input)
  | setPolicy (vmTag : ℕ) (policy : VMWriterPolicy)
  | rollbackPolicy (vmTag version : ℕ)
  | registerExecutor (vmTag : ℕ) (isAuthorizer : Bool)
  | freezeRegistry (frozen : Bool)
  | freezeVm (vmTag : ℕ)
  | unfreezeVm (vmTag : ℕ)
  | bypassAuthorizer (vmTag : ℕ)
  | clearBypass (vmTag : ℕ)
  | setDispatchOverride (writerFp : Bytes) (allow : Bool)
  | clearDispatchOverride (writerFp : Bytes)
  | advanceEpoch (epoch : ℤ)
  | dispatch (tx : Bytes) (epoch : ℤ) (answers : Answers)

namespace System
variable (s : System)

def setGate (gate : Gate) : System := {s with gate := gate}

def setEmergency (emergency : EmergencyState) : System :=
  s.setGate {s.gate with emergency := emergency}

def dispatch (tx : Bytes) (epoch : ℤ) (answers : Answers) : System where
  gate := (s.gate.executeGated tx epoch answers).2
  dispatched :=
    match s.gate.decide tx answers.authorization, answers.execution with
    | .allowed _ vmTag, .ok result =>
      if result.success then s.dispatched++[(tx.take writerFpSize,vmTag,epoch)]
      else s.dispatched
    | _, _ => s.dispatched

def step (s : System) : Input → System
  | .registry input =>
    s.setGate {s.gate with registry := (WriterRegistry.step s.gate.registry input).1}
  | .setPolicy vmTag policy => s.setGate (s.gate.setPolicy vmTag policy)
  | .rollbackPolicy vmTag version => s.setGate (s.gate.rollbackPolicy vmTag version)
  | .registerExecutor vmTag isAuthorizer => s.setGate (s.gate.registerExecutor vmTag isAuthorizer)
  | .freezeRegistry frozen => s.setEmergency {s.gate.emergency with registryFrozen := frozen}
  | .freezeVm vmTag => s.setEmergency {s.gate.emergency with
      frozenVms := insert vmTag s.gate.emergency.frozenVms}
  | .unfreezeVm vmTag => s.setEmergency {s.gate.emergency with
      frozenVms := s.gate.emergency.frozenVms.erase vmTag}
  | .bypassAuthorizer vmTag => s.setEmergency {s.gate.emergency with
      bypassedAuthorizers := insert vmTag s.gate.emergency.bypassedAuthorizers}
  | .clearBypass vmTag => s.setEmergency {s.gate.emergency with
      bypassedAuthorizers := s.gate.emergency.bypassedAuthorizers.erase vmTag}
  | .setDispatchOverride writerFp allow => s.setEmergency {s.gate.emergency with
      dispatchOverrides := s.gate.emergency.dispatchOverrides.set writerFp allow}
  | .clearDispatchOverride writerFp => s.setEmergency {s.gate.emergency with
      dispatchOverrides := s.gate.emergency.dispatchOverrides.erase writerFp}
  | .advanceEpoch epoch => s.setGate {s.gate with tracker := s.gate.tracker.advanceEpoch epoch}
  | .dispatch tx epoch answers => s.dispatch tx epoch answers

def successes (writerFp : Bytes) (vmTag : ℕ) (epoch : ℤ) : ℕ :=
  s.dispatched.count (writerFp,vmTag,epoch)

end System

def machine (config : RegistryConfig) (modifiers : ProbationModifiers) :
    Machine System Input Empty :=
  ⟨⟨Gate.init config modifiers,[]⟩,fun s input => (s.step input,[])⟩

/-- The transaction passes everything before the rate check of a policy, and this limit applies. -/
def Limited (gate : Gate) (tx : Bytes) (writerFp : Bytes) (vmTag : ℕ) (limit : ℤ) : Prop :=
  ∃ payload record isAuthorizer, Gate.split tx=some (writerFp,vmTag,payload) ∧
    gate.preDispatch writerFp vmTag=.ok record ∧
    gate.executors.get? vmTag=some isAuthorizer ∧
    ¬(isAuthorizer=true ∧ vmTag ∉ gate.emergency.bypassedAuthorizers) ∧
    checkAccess gate.modifiers record (inferOperationType payload) (gate.policyFor vmTag)=none ∧
    effectiveLimit gate.modifiers record (gate.policyFor vmTag)=some limit ∧ 0<limit

section
variable {gate : Gate} {tx writerFp p : Bytes} {vmTag : ℕ}

theorem fingerprint_of_preDispatch {record : WriterRecord}
    (h : gate.preDispatch writerFp vmTag=.ok record) : record.identity.fingerprint=writerFp := by
  have hl : gate.registry.lookup writerFp=some record := by
    rw [Gate.preDispatch] at h
    split at h
    · cases h
    · split at h
      · cases h
      · next found hf =>
        have hok (heq : (Except.ok found : Except String WriterRecord)=.ok record) :
            gate.registry.lookup writerFp=some record := by rw [hf,Except.ok.inj heq]
        split at h
        · cases h
        · split at h
          · exact hok h
          · cases h
          · split at h
            · cases h
            · exact hok h
  exact gate.registry.keyed _ _ hl

theorem vmAuthorize_eq_rateLimitExceeded {record : WriterRecord} {isAuthorizer : Bool}
    {authorization : Option AuthorizationResult} :
    gate.vmAuthorize record vmTag isAuthorizer p authorization = .policyDenied .rateLimitExceeded ↔
      ¬(isAuthorizer=true ∧ vmTag ∉ gate.emergency.bypassedAuthorizers) ∧
        gate.evaluatePolicy record vmTag (inferOperationType p) =
          some (.error .rateLimitExceeded) := by
  unfold Gate.vmAuthorize
  split_ifs with ha
  · cases authorization with
    | none => simp [ha]
    | some result =>
      dsimp only
      split_ifs <;> simp [ha]
  · cases gate.evaluatePolicy record vmTag (inferOperationType p) with
    | none => simp
    | some result => cases result <;> simp [ha]

theorem decide_eq_rateLimitExceeded {authorization : Option AuthorizationResult} :
    gate.decide tx authorization=.policyDenied .rateLimitExceeded ↔
      ∃ writerFp vmTag limit, Limited gate tx writerFp vmTag limit ∧
        limit≤gate.tracker.getTxCount writerFp vmTag := by
  constructor
  · intro h
    rw [Gate.decide] at h
    split at h
    · cases h
    · next writerFp vmTag p hs =>
      split at h
      · cases h
      · next record hr =>
        split at h
        · cases h
        · next isAuthorizer he =>
          obtain ⟨hp,hev⟩ := vmAuthorize_eq_rateLimitExceeded.mp h
          obtain ⟨ha,limit,hl,hpo,hc⟩ :=
            (evaluate_eq_rateLimitExceeded _ _ _ _).mp hev
          rw [fingerprint_of_preDispatch hr] at hc
          exact ⟨writerFp,vmTag,limit,⟨p,record,isAuthorizer,hs,hr,he,hp,ha,hl,hpo⟩,hc⟩
  · rintro ⟨writerFp,vmTag,limit,⟨p,record,isAuthorizer,hs,hr,he,hp,ha,hl,hpo⟩,hc⟩
    rw [← fingerprint_of_preDispatch hr] at hc
    have hev : gate.evaluatePolicy record vmTag (inferOperationType p) =
        some (.error .rateLimitExceeded) :=
      (evaluate_eq_rateLimitExceeded _ _ _ _).mpr ⟨ha,limit,hl,hpo,hc⟩
    simp only [Gate.decide,hs,hr,he]
    exact vmAuthorize_eq_rateLimitExceeded.mpr ⟨hp,hev⟩

end

/-- The counters are the dispatches of the tracker's epoch, and there are none of a later one. -/
structure Counted (s : System) : Prop where
  past : ∀ d ∈ s.dispatched, d.2.2 ≤ s.gate.tracker.currentEpoch
  counts : ∀ writerFp vmTag, s.gate.tracker.getTxCount writerFp vmTag =
    s.successes writerFp vmTag s.gate.tracker.currentEpoch

section
variable {s : System} {fp tx : Bytes} {vmTag : ℕ} {epoch : ℤ}

theorem Counted.successes_later (h : Counted s) (he : s.gate.tracker.currentEpoch<epoch)
    (writerFp : Bytes) (vmTag : ℕ) : s.successes writerFp vmTag epoch=0 := by
  refine List.count_eq_zero.mpr fun hm => ?_
  exact absurd (h.past _ hm) (not_le.mpr he)

theorem Counted.of_tracker {s' : System} (h : Counted s)
    (ht : s'.gate.tracker=s.gate.tracker) (hd : s'.dispatched=s.dispatched) : Counted s' := by
  refine ⟨?_,?_⟩
  · rw [ht,hd]
    exact h.past
  · rw [ht]
    intro fp vmTag
    rw [h.counts,System.successes,System.successes,hd]

theorem Counted.advanceEpoch (h : Counted s) (epoch : ℤ) :
    Counted (s.setGate {s.gate with tracker := s.gate.tracker.advanceEpoch epoch}) := by
  by_cases he : epoch ≤ s.gate.tracker.currentEpoch
  · exact h.of_tracker (if_pos he) rfl
  · have ha : s.gate.tracker.advanceEpoch epoch=⟨Dict.empty,epoch⟩ := if_neg he
    rw [ha]
    have hl := not_le.mp he
    exact ⟨fun d hd => (h.past d hd).trans hl.le,fun fp vmTag =>
      (h.successes_later hl fp vmTag).symm⟩

theorem getTxCount_countTx (tracker : EpochTracker) (writerFp fp : Bytes) (vmTag tag : ℕ) :
    (tracker.countTx writerFp vmTag).getTxCount fp tag =
      tracker.getTxCount fp tag+if (writerFp,vmTag)=(fp,tag) then 1 else 0 := by
  rw [EpochTracker.getTxCount,EpochTracker.countTx,Dict.get?_set]
  by_cases hk : (writerFp,vmTag)=(fp,tag)
  · cases hk
    simp
  · rw [if_neg hk,if_neg hk]
    rfl

theorem Counted.countTx (h : Counted s) (writerFp : Bytes) (vmTag : ℕ) :
    Counted ⟨{s.gate with tracker := s.gate.tracker.countTx writerFp vmTag},
      s.dispatched++[(writerFp,vmTag,s.gate.tracker.currentEpoch)]⟩ := by
  refine ⟨fun d hd => ?_,fun fp tag => ?_⟩
  · rcases List.mem_append.mp hd with ho|hn
    · exact h.past d ho
    · rw [List.mem_singleton.mp hn]
      exact le_rfl
  · have hon : [(writerFp,vmTag,s.gate.tracker.currentEpoch)].count
          (fp,tag,s.gate.tracker.currentEpoch) =
        if (writerFp,vmTag)=(fp,tag) then 1 else 0 := by simp [List.count_singleton]
    rw [getTxCount_countTx,h.counts,← hon]
    exact (List.count_append ..).symm

theorem advanceEpoch_currentEpoch (tracker : EpochTracker) (h : tracker.currentEpoch≤epoch) :
    (tracker.advanceEpoch epoch).currentEpoch=epoch := by
  rw [EpochTracker.advanceEpoch]
  split_ifs with hle
  · exact le_antisymm h hle
  · rfl

theorem increment_eq (tracker : EpochTracker) (writerFp : Bytes) (vmTag : ℕ) (epoch : ℤ) :
    tracker.increment writerFp vmTag epoch =
      (tracker.advanceEpoch epoch).countTx writerFp vmTag := by
  rw [EpochTracker.increment]
  split_ifs with he
  · rfl
  · rw [EpochTracker.advanceEpoch,if_pos (not_not.mp he).le]

variable (h : Counted s) (he : s.gate.tracker.currentEpoch≤epoch)
include h he

theorem Counted.recordDispatch (writerFp : Bytes) (vmTag : ℕ) :
    Counted ⟨s.gate.recordDispatch writerFp vmTag epoch,
      s.dispatched++[(writerFp,vmTag,epoch)]⟩ := by
  have hc := (h.advanceEpoch epoch).countTx writerFp vmTag
  rw [Gate.recordDispatch,increment_eq]
  simpa only [System.setGate,advanceEpoch_currentEpoch _ he] using hc

theorem Counted.dispatch (answers : Answers) : Counted (s.dispatch tx epoch answers) := by
  rw [System.dispatch,Gate.executeGated]
  cases s.gate.decide tx answers.authorization with
  | allowed record vmTag =>
    cases answers.execution with
    | error m => exact h
    | ok result =>
      dsimp only
      split_ifs
      · exact h.recordDispatch he _ _
      · exact h
  | _ => exact h

end

/-- No batch is of an epoch before the tracker's. -/
def Forward (s : System) : Input → Prop
  | .dispatch _ epoch _ => s.gate.tracker.currentEpoch≤epoch
  | _ => True

/-- The tracker has seen the epoch, or its old counter does not deny the transaction. -/
def Prompt (s : System) : Input → Prop
  | .dispatch tx epoch _ => s.gate.tracker.currentEpoch=epoch ∨
      ∀ writerFp vmTag limit, Limited s.gate tx writerFp vmTag limit →
        s.gate.tracker.getTxCount writerFp vmTag<limit
  | _ => True

/-- A transaction is denied for rate limiting exactly if the limit was reached in its own epoch. -/
def Exact (s : System) : Input → Prop
  | .dispatch tx epoch answers =>
    s.gate.decide tx answers.authorization=.policyDenied .rateLimitExceeded ↔
      ∃ writerFp vmTag limit, Limited s.gate tx writerFp vmTag limit ∧
        limit ≤ s.successes writerFp vmTag epoch
  | _ => True

theorem Counted.exact_iff {s : System} (h : Counted s) {input : Input}
    (hf : Forward s input) : Exact s input ↔ Prompt s input := by
  cases input with
  | dispatch tx epoch answers =>
    rw [Exact,Prompt,decide_eq_rateLimitExceeded]
    rcases hf.eq_or_lt with rfl|hl
    · simp only [h.counts,true_or]
    · have hn : ¬ ∃ writerFp vmTag limit, Limited s.gate tx writerFp vmTag limit ∧
          limit ≤ s.successes writerFp vmTag epoch := by
        rintro ⟨writerFp,vmTag,limit,hli,hr⟩
        obtain ⟨_,_,_,_,_,_,_,_,_,hp⟩ := hli
        rw [h.successes_later hl] at hr
        exact absurd hr (not_le.mpr hp)
      simp [hn,hl.ne]
  | _ => exact .rfl

theorem Counted.step {s : System} (h : Counted s) {input : Input} (hf : Forward s input) :
    Counted (s.step input) := by
  cases input with
  | advanceEpoch epoch => exact h.advanceEpoch epoch
  | dispatch tx epoch answers => exact h.dispatch hf answers
  | rollbackPolicy vmTag version =>
    refine h.of_tracker ?_ rfl
    rw [System.step,Gate.rollbackPolicy]
    split <;> rfl
  | registerExecutor vmTag isAuthorizer =>
    refine h.of_tracker ?_ rfl
    rw [System.step,Gate.registerExecutor]
    split <;> rfl
  | _ => exact h.of_tracker rfl rfl

/-- In every run whose batches never go back in time, the rate limit is exact at each dispatch
exactly if the gate never asks for an epoch the tracker has not seen while an old counter is
full. -/
theorem rate_limit_exact_iff (config : RegistryConfig) (modifiers : ProbationModifiers)
    (inputs : List Input) (hforward : (machine config modifiers).Meets Forward inputs) :
    (machine config modifiers).Meets Exact inputs ↔
      (machine config modifiers).Meets Prompt inputs := by
  have hs : Counted (machine config modifiers).start :=
    ⟨List.forall_mem_nil _,fun writerFp vmTag => rfl⟩
  exact Machine.meets_iff_of_invariant hs (fun s input h => h.step)
    (fun s input h => h.exact_iff) inputs hforward

section

def Announced (s : System) : Input → Prop
  | .dispatch _ epoch _ => s.gate.tracker.currentEpoch=epoch
  | _ => True

instance (s : System) (input : Input) : Decidable (Announced s input) := by
  cases input <;> unfold Announced <;> infer_instance

theorem Announced.forward {s : System} {input : Input} (h : Announced s input) :
    Forward s input := by
  cases input with
  | dispatch tx epoch answers => exact le_of_eq h
  | _ => trivial

theorem Announced.prompt {s : System} {input : Input} (h : Announced s input) : Prompt s input := by
  cases input with
  | dispatch tx epoch answers => exact .inl h
  | _ => trivial

def onePerEpoch : VMWriterPolicy := {VMWriterPolicy.standard with maxTxsPerEpoch := perTier 1 1 1}

def writer : Bytes := List.replicate 32 7

def transfer : Bytes := writer++[0]

def answers : Answers := ⟨none,.ok ⟨true,1,"",[]⟩⟩

def limitedRun : List Input :=
  [.registry (.enroll ⟨.mldsa,writer,some [1],none⟩ 0),.registry (.approve writer [9] 0),
    .registerExecutor 0 false,.setPolicy 0 onePerEpoch,.dispatch transfer 0 answers]

abbrev gated : Machine System Input Empty :=
  machine .standard RegistryConfig.standard.probationModifiers

def announcedRun : List Input := limitedRun++[.advanceEpoch 1,.dispatch transfer 1 answers]

theorem announced_epoch_rate_limit_exact :
    gated.Meets Forward announcedRun ∧ gated.Meets Exact announcedRun := by
  have he : gated.Meets Announced announcedRun := by decide
  have hf : gated.Meets Forward announcedRun := fun before input after hs =>
    (he before input after hs).forward
  have hp : gated.Meets Prompt announcedRun := fun before input after hs =>
    (he before input after hs).prompt
  exact ⟨hf,(rate_limit_exact_iff _ _ announcedRun hf).mpr hp⟩

theorem stale_counter_denies : ¬Exact (gated.state limitedRun) (.dispatch transfer 1 answers) := by
  intro h
  have hd : (gated.state limitedRun).gate.decide transfer answers.authorization =
      .policyDenied .rateLimitExceeded := rfl
  obtain ⟨writerFp,vmTag,limit,⟨_,_,_,_,_,_,_,_,_,hpo⟩,hr⟩ := h.mp hd
  have hp : ∀ d ∈ (gated.state limitedRun).dispatched, d.2.2≠1 := by decide
  have hn : (gated.state limitedRun).successes writerFp vmTag 1=0 :=
    List.count_eq_zero.mpr fun hm => hp _ hm rfl
  rw [hn] at hr
  exact absurd hr (not_le.mpr hpo)

end

end LatticeTransfer.WriterGate
