import LatticeTransfer.DoubleEntry
import LatticeTransfer.Machine
import LatticeTransfer.Method
import Mathlib.Data.Int.ConditionallyCompleteOrder
import Mathlib.Tactic.Abel

/-!
# The stablecoin ledger

`StablecoinLedger` with the three interfaces that move money on it: `StableNodeIncentive` meters
work and settles the claims, `StableCommitmentPricing` quotes and collects fees, and
`StableAdmissionControl` takes, refunds and forfeits bonds. Amounts are integers of micro units.
Every divisor is positive, where `/` rounds down as `//` does.
-/

namespace LatticeTransfer.Incentives

def microPerStable : ℤ := 10^6
def gib : ℤ := 2^30
def secondsPerMonth : ℤ := 30*24*3600

structure IncentiveConfig where
  pricePerGibMonthMicro : ℤ := 20000
  pricePerGibServedMicro : ℤ := 10000
  baseCommitFeeMicro : ℤ := 1000
  feeOperatorShareBps : ℤ := 8000
  feeInsuranceShareBps : ℤ := 1000
  feeTreasuryShareBps : ℤ := 1000
  minBondMicro : ℤ := 1000*microPerStable
  slashFailureThreshold : ℤ := 2
  shares_sum : feeOperatorShareBps+feeInsuranceShareBps+feeTreasuryShareBps=10000
  minBond_nonneg : 0 ≤ minBondMicro

namespace IncentiveConfig
variable (config : IncentiveConfig)

def storageRateMicro (byteSeconds : ℤ) : ℤ :=
  byteSeconds*config.pricePerGibMonthMicro / (gib*secondsPerMonth)

def servingRateMicro (bytesServed : ℤ) : ℤ := bytesServed*config.pricePerGibServedMicro / gib

def split (amountMicro : ℤ) : ℤ × ℤ × ℤ :=
  let insurance := amountMicro*config.feeInsuranceShareBps / 10000
  let treasury := amountMicro*config.feeTreasuryShareBps / 10000
  (amountMicro-insurance-treasury,insurance,treasury)

structure SharesInRange : Prop where
  operator : config.feeOperatorShareBps ∈ Set.Icc 0 10000
  insurance : config.feeInsuranceShareBps ∈ Set.Icc 0 10000
  treasury : config.feeTreasuryShareBps ∈ Set.Icc 0 10000

theorem split_sum (amountMicro : ℤ) : (config.split amountMicro).1 +
    (config.split amountMicro).2.1+(config.split amountMicro).2.2=amountMicro := by
  simp only [split]
  omega

variable {config}

theorem SharesInRange.split_nonneg (h : config.SharesInRange) {amountMicro : ℤ}
    (ha : 0≤amountMicro) : 0≤(config.split amountMicro).1 ∧
      0≤(config.split amountMicro).2.1 ∧ 0≤(config.split amountMicro).2.2 := by
  have hi := Int.mul_nonneg ha h.insurance.1
  have ht := Int.mul_nonneg ha h.treasury.1
  have ho := Int.mul_nonneg ha h.operator.1
  have hs : amountMicro*config.feeOperatorShareBps+amountMicro*config.feeInsuranceShareBps +
      amountMicro*config.feeTreasuryShareBps=amountMicro*10000 := by
    rw [← mul_add,← mul_add,config.shares_sum]
  simp only [split]
  omega

variable (config) in
structure PricesNonneg : Prop where
  stored : 0≤config.pricePerGibMonthMicro
  served : 0≤config.pricePerGibServedMicro

theorem PricesNonneg.storageRateMicro (h : config.PricesNonneg) {byteSeconds : ℤ}
    (hb : 0≤byteSeconds) : 0≤config.storageRateMicro byteSeconds :=
  Int.ediv_nonneg (Int.mul_nonneg hb h.stored) (by decide)

theorem PricesNonneg.servingRateMicro (h : config.PricesNonneg) {bytesServed : ℤ}
    (hb : 0≤bytesServed) : 0≤config.servingRateMicro bytesServed :=
  Int.ediv_nonneg (Int.mul_nonneg hb h.served) (by decide)

end IncentiveConfig

inductive SlashingTier
  | warning
  | minor
  | major
  | critical
deriving DecidableEq

def slashingRate : SlashingTier → ℤ
  | .warning => 100
  | .minor => 500
  | .major => 1500
  | .critical => 3000

def slashingOffenseThresholds : List (ℤ × SlashingTier) :=
  [(1,.warning),(2,.minor),(4,.major),(6,.critical)]

def tierForOffenseCount (count : ℤ) : SlashingTier :=
  slashingOffenseThresholds.foldl (fun tier entry => if entry.1≤count then entry.2 else tier)
    .warning

structure NodeIncentiveAccount where
  bondMicro : ℤ
  earnedClaimMicro : ℤ
  paidTotalMicro : ℤ
  slashedTotalMicro : ℤ
  auditOffenseCount : ℤ
  evicted : Bool

structure StablecoinLedger where
  operatorPoolMicro : ℤ
  insurancePoolMicro : ℤ
  treasuryMicro : ℤ
  accounts : Dict String NodeIncentiveAccount
  customerBalances : Dict String ℤ
  totalDeposited : ℤ
  totalWithdrawn : ℤ

namespace StablecoinLedger

def init : StablecoinLedger := ⟨0,0,0,Dict.empty,Dict.empty,0,0⟩

def accountOf (s : StablecoinLedger) (nodeId : String) : NodeIncentiveAccount :=
  (s.accounts.get? nodeId).getD ⟨0,0,0,0,0,false⟩

def updateAccount (nodeId : String) (change : NodeIncentiveAccount → NodeIncentiveAccount)
    (s : StablecoinLedger) : StablecoinLedger :=
  {s with accounts := s.accounts.set nodeId (change (s.accountOf nodeId))}

def account (nodeId : String) : Method StablecoinLedger NodeIncentiveAccount := do
  modify (updateAccount nodeId id)
  return (← get).accountOf nodeId

def totalHeldMicro (s : StablecoinLedger) : ℤ :=
  s.operatorPoolMicro+s.insurancePoolMicro+s.treasuryMicro +
    (s.accounts.values.map NodeIncentiveAccount.bondMicro).sum+s.customerBalances.values.sum

def checkSolvency (s : StablecoinLedger) : Bool :=
  s.totalHeldMicro=s.totalDeposited-s.totalWithdrawn

def raiseIf (failed : Prop) [Decidable failed] (message : String) : Method StablecoinLedger Unit :=
  if failed then throw (.ledgerError message) else pure ()

def addShares (shares : ℤ × ℤ × ℤ) (s : StablecoinLedger) : StablecoinLedger :=
  {s with
    operatorPoolMicro := s.operatorPoolMicro+shares.1
    insurancePoolMicro := s.insurancePoolMicro+shares.2.1
    treasuryMicro := s.treasuryMicro+shares.2.2}

def depositFee (config : IncentiveConfig) (amountMicro : ℤ) :
    Method StablecoinLedger (ℤ × ℤ × ℤ) := do
  raiseIf (amountMicro<0) "fee deposit must be non-negative"
  modify fun s => {s.addShares (config.split amountMicro) with
    totalDeposited := s.totalDeposited+amountMicro}
  return config.split amountMicro

def fundIncentiveBudget (amountMicro : ℤ) : Method StablecoinLedger Unit := do
  raiseIf (amountMicro<0) "budget funding must be non-negative"
  modify fun s => {s with
    operatorPoolMicro := s.operatorPoolMicro+amountMicro
    totalDeposited := s.totalDeposited+amountMicro}

def postBond (nodeId : String) (amountMicro : ℤ) : Method StablecoinLedger Unit := do
  raiseIf (amountMicro<0) "bond must be non-negative"
  modify fun s =>
    {s.updateAccount nodeId fun acct => {acct with
        bondMicro := acct.bondMicro+amountMicro} with
      totalDeposited := s.totalDeposited+amountMicro}

def customerBalance (s : StablecoinLedger) (customerId : String) : ℤ :=
  (s.customerBalances.get? customerId).getD 0

def addBalance (customerId : String) (amountMicro : ℤ) (s : StablecoinLedger) : StablecoinLedger :=
  {s with
    customerBalances := s.customerBalances.set customerId
      (s.customerBalance customerId+amountMicro)
    totalDeposited := s.totalDeposited+amountMicro}

def customerDeposit (customerId : String) (amountMicro : ℤ) : Method StablecoinLedger ℤ := do
  raiseIf (customerId = "") "customer_id must be non-empty"
  raiseIf (amountMicro<0) "deposit must be non-negative"
  modify (addBalance customerId amountMicro)
  return (← get).customerBalance customerId

def balanceToFees (config : IncentiveConfig) (customerId : String) (amountMicro : ℤ)
    (s : StablecoinLedger) : StablecoinLedger :=
  {s.addShares (config.split amountMicro) with
    customerBalances := s.customerBalances.set customerId
      (s.customerBalance customerId-amountMicro)}

def customerDebitToFees (config : IncentiveConfig) (customerId : String) (amountMicro : ℤ) :
    Method StablecoinLedger (ℤ × ℤ × ℤ) := do
  raiseIf (amountMicro<0) "debit must be non-negative"
  let balance := (← get).customerBalance customerId
  if balance<amountMicro then
    throw (.ledgerError s!"insufficient customer balance: have {balance}, need {amountMicro}")
  else
    modify (balanceToFees config customerId amountMicro)
    return config.split amountMicro

def withdrawBalance (customerId : String) (s : StablecoinLedger) : StablecoinLedger :=
  {s with
    customerBalances := s.customerBalances.erase customerId
    totalWithdrawn := s.totalWithdrawn+s.customerBalance customerId}

def customerRefund (customerId : String) : Method StablecoinLedger ℤ := do
  let refund := (← get).customerBalance customerId
  modify (withdrawBalance customerId)
  return refund

def payOut (nodeId : String) (paid : ℤ) (s : StablecoinLedger) : StablecoinLedger :=
  {s.updateAccount nodeId fun acct => {acct with
      paidTotalMicro := acct.paidTotalMicro+paid} with
    operatorPoolMicro := s.operatorPoolMicro-paid
    totalWithdrawn := s.totalWithdrawn+paid}

def payFromPool (nodeId : String) (amountMicro : ℤ) : Method StablecoinLedger ℤ := do
  raiseIf (amountMicro<0) "payment must be non-negative"
  let paid := min amountMicro (← get).operatorPoolMicro
  modify (payOut nodeId paid)
  return paid

def bondToInsurance (nodeId : String) (slashed : ℤ) (s : StablecoinLedger) : StablecoinLedger :=
  {s.updateAccount nodeId fun acct => {acct with
      bondMicro := acct.bondMicro-slashed
      slashedTotalMicro := acct.slashedTotalMicro+slashed} with
    insurancePoolMicro := s.insurancePoolMicro+slashed}

def slashBond (nodeId : String) (amountMicro : ℤ) : Method StablecoinLedger ℤ := do
  raiseIf (amountMicro<0) "slash must be non-negative"
  let slashed := min amountMicro ((← get).accountOf nodeId).bondMicro
  modify (bondToInsurance nodeId slashed)
  return slashed

def withdrawBond (nodeId : String) (s : StablecoinLedger) : StablecoinLedger :=
  {s.updateAccount nodeId fun acct => {acct with bondMicro := 0} with
    totalWithdrawn := s.totalWithdrawn+(s.accountOf nodeId).bondMicro}

def refundBond (nodeId : String) : Method StablecoinLedger ℤ := do
  let refund := ((← get).accountOf nodeId).bondMicro
  modify (withdrawBond nodeId)
  return refund

def forfeitBond (nodeId : String) (s : StablecoinLedger) : StablecoinLedger :=
  {s.updateAccount nodeId fun acct => {acct with
      bondMicro := 0
      slashedTotalMicro := acct.slashedTotalMicro+acct.bondMicro} with
    insurancePoolMicro := s.insurancePoolMicro+(s.accountOf nodeId).bondMicro}

def forfeitBondToInsurance (nodeId : String) : Method StablecoinLedger ℤ := do
  let forfeited := ((← get).accountOf nodeId).bondMicro
  modify (forfeitBond nodeId)
  return forfeited

structure MeteredWorkReport where
  nodeId : String
  epoch : ℤ
  bytesStored : ℕ
  secondsStored : ℕ
  bytesServed : ℕ
  auditsPassed : ℕ
  auditsTotal : ℕ
  passed_le_total : auditsPassed≤auditsTotal

def MeteredWorkReport.auditFailures (report : MeteredWorkReport) : ℤ :=
  report.auditsTotal-report.auditsPassed

structure EpochPayoutSnapshot where
  epoch : ℤ
  totalClaimsMicro : ℤ
  totalPaidMicro : ℤ
  poolBeforeMicro : ℤ
  poolAfterMicro : ℤ
  payouts : Dict String ℤ
  carriedClaims : Dict String ℤ

section
variable (config : IncentiveConfig)

def claim (s : StablecoinLedger) (nodeId : String) : ℤ := (s.accountOf nodeId).earnedClaimMicro

def addClaim (nodeId : String) (amountMicro : ℤ) : StablecoinLedger → StablecoinLedger :=
  updateAccount nodeId fun acct => {acct with
    earnedClaimMicro := acct.earnedClaimMicro+amountMicro}

def metered (bytesStored secondsStored bytesServed : ℤ) : ℤ :=
  config.storageRateMicro (bytesStored*secondsStored)+config.servingRateMicro bytesServed

def compensate (nodeId : String) (bytesStored secondsStored bytesServed : ℤ) :
    Method StablecoinLedger ℤ := do
  if min bytesStored (min secondsStored bytesServed)<0 then
    throw (.valueError "metering inputs must be non-negative")
  else
    let reward := metered config bytesStored secondsStored bytesServed
    let acct ← account nodeId
    if acct.evicted then return 0
    else
      modify (addClaim nodeId reward)
      return reward

def slash (nodeId : String) (auditFailureCount : ℤ) : Method StablecoinLedger ℤ := do
  if auditFailureCount≤0 then return 0
  else
    modify (updateAccount nodeId fun acct => {acct with
      auditOffenseCount := acct.auditOffenseCount+auditFailureCount})
    let acct := (← get).accountOf nodeId
    let rateBps := slashingRate (tierForOffenseCount acct.auditOffenseCount)
    slashBond nodeId (acct.bondMicro*rateBps / 10000)

def accrued (report : MeteredWorkReport) : ℤ :=
  metered config report.bytesStored report.secondsStored report.bytesServed *
    report.auditsPassed / report.auditsTotal

def accrue (acct : NodeIncentiveAccount) (report : MeteredWorkReport) :
    Method StablecoinLedger ℤ := do
  if acct.evicted ∨ report.auditsTotal=0 then return 0
  else
    modify (addClaim report.nodeId (accrued config report))
    return accrued config report

def slashFailures (report : MeteredWorkReport) : Method StablecoinLedger ℤ :=
  if config.slashFailureThreshold≤report.auditFailures then
    slash report.nodeId report.auditFailures
  else pure 0

def accrueReport (report : MeteredWorkReport) : Method StablecoinLedger ℤ := do
  let acct ← account report.nodeId
  let amount ← accrue config acct report
  let _ ← slashFailures config report
  return amount

def settleNode (budget totalClaims : ℤ) (snapshot : EpochPayoutSnapshot) (nodeId : String) :
    Method StablecoinLedger EpochPayoutSnapshot := do
  let share := (← get).claim nodeId*budget / totalClaims
  let paid ← payFromPool nodeId share
  modify (addClaim nodeId (-paid))
  let carried := (← get).claim nodeId
  return {snapshot with
    payouts := snapshot.payouts.set nodeId paid
    totalPaidMicro := snapshot.totalPaidMicro+paid
    carriedClaims := if 0<carried then snapshot.carriedClaims.set nodeId carried
      else snapshot.carriedClaims}

def claimants (s : StablecoinLedger) : List String := s.accounts.keys.filter (0<s.claim ·)

def settleEpoch (epoch : ℤ) : Method StablecoinLedger EpochPayoutSnapshot := do
  let s ← get
  let totalClaims := (s.claimants.map s.claim).sum
  let snapshot : EpochPayoutSnapshot := ⟨epoch,totalClaims,0,s.operatorPoolMicro,
    s.operatorPoolMicro,Dict.empty,Dict.empty⟩
  if totalClaims=0 then return snapshot
  else
    let budget := min totalClaims s.operatorPoolMicro
    let settled ← s.claimants.foldlM (settleNode budget totalClaims) snapshot
    return {settled with poolAfterMicro := (← get).operatorPoolMicro}

end
end StablecoinLedger

inductive AdmissionDecision
  | accepted
  | rejectedBond
  | rejectedProof
  | rejectedEvicted
deriving DecidableEq

structure EvictionConfirmation where
  nodeId : String
  reason : String
  bondRefundedMicro : ℤ
  bondForfeitedMicro : ℤ

def forfeitingReasons : List String := ["audit_failure","fraud","equivocation","withholding"]

structure IncentiveLayer where
  ledger : StablecoinLedger
  commitments : Dict String (ℤ × ℤ)
  admitted : Finset String

namespace IncentiveLayer

def init : IncentiveLayer := ⟨.init,Dict.empty,∅⟩

def onLedger {α : Type} (m : Method StablecoinLedger α) : Method IncentiveLayer α :=
  m.on ledger fun s ledger => {s with ledger := ledger}

variable (config : IncentiveConfig)

def price (entitySize replicationFactor ttlSeconds : ℤ) : Method IncentiveLayer ℤ :=
  if entitySize<0 ∨ replicationFactor<1 ∨ ttlSeconds<0 then
    throw (.valueError "invalid pricing inputs")
  else
    return config.baseCommitFeeMicro +
      config.storageRateMicro (entitySize*replicationFactor*ttlSeconds)

def recordCommitment (entityId : String) (entitySize replicationFactor : ℤ) :
    Method IncentiveLayer Unit :=
  if entitySize<0 ∨ replicationFactor<1 then
    throw (.valueError "invalid commitment parameters")
  else modify fun s => {s with
    commitments := s.commitments.set entityId (entitySize,replicationFactor)}

def renew (entityId : String) (additionalTtl : ℤ) : Method IncentiveLayer ℤ := do
  match (← get).commitments.get? entityId with
  | none => throw .keyError
  | some (size,repl) =>
    if additionalTtl<0 then throw (.valueError "additional_ttl must be non-negative")
    else return config.storageRateMicro (size*repl*additionalTtl)

def collect (amountMicro : ℤ) : Method IncentiveLayer (ℤ × ℤ × ℤ) :=
  onLedger (StablecoinLedger.depositFee config amountMicro)

section
variable {Proof : Type} (verifyProof : Proof → Bool)

def postPositive (nodeIdentity : String) (bond : ℤ) : Method IncentiveLayer Unit :=
  if 0<bond then onLedger (StablecoinLedger.postBond nodeIdentity bond) else pure ()

def applyDetailed (nodeIdentity : String) (storageProof : Proof) (bond : ℤ) :
    Method IncentiveLayer AdmissionDecision := do
  let acct ← onLedger (StablecoinLedger.account nodeIdentity)
  if acct.evicted then return .rejectedEvicted
  else if bond+acct.bondMicro<config.minBondMicro then return .rejectedBond
  else if !verifyProof storageProof then return .rejectedProof
  else
    let _ ← postPositive nodeIdentity bond
    modify fun s => {s with admitted := insert nodeIdentity s.admitted}
    return .accepted

def apply (nodeIdentity : String) (storageProof : Proof) (bond : ℤ) :
    Method IncentiveLayer Bool := do
  let decision ← applyDetailed config verifyProof nodeIdentity storageProof bond
  return decision=.accepted

def evict (nodeId reason : String) (auditEvidence : Option Proof) :
    Method IncentiveLayer EvictionConfirmation := do
  onLedger (modify (StablecoinLedger.updateAccount nodeId fun acct =>
    {acct with evicted := true}))
  modify fun s => {s with admitted := s.admitted.erase nodeId}
  if reason ∈ forfeitingReasons ∧ auditEvidence.isSome then
    let forfeited ← onLedger (StablecoinLedger.forfeitBondToInsurance nodeId)
    return ⟨nodeId,reason,0,forfeited⟩
  else
    let refunded ← onLedger (StablecoinLedger.refundBond nodeId)
    return ⟨nodeId,reason,refunded,0⟩

end
end IncentiveLayer

inductive Operation (Proof : Type)
  | account (nodeId : String)
  | depositFee (amountMicro : ℤ)
  | fundIncentiveBudget (amountMicro : ℤ)
  | postBond (nodeId : String) (amountMicro : ℤ)
  | customerDeposit (customerId : String) (amountMicro : ℤ)
  | customerDebitToFees (customerId : String) (amountMicro : ℤ)
  | customerRefund (customerId : String)
  | payFromPool (nodeId : String) (amountMicro : ℤ)
  | slashBond (nodeId : String) (amountMicro : ℤ)
  | refundBond (nodeId : String)
  | forfeitBondToInsurance (nodeId : String)
  | compensate (nodeId : String) (bytesStored secondsStored bytesServed : ℤ)
  | slash (nodeId : String) (auditFailureCount : ℤ)
  | accrueReport (report : StablecoinLedger.MeteredWorkReport)
  | settleEpoch (epoch : ℤ)
  | price (entitySize replicationFactor ttlSeconds : ℤ)
  | recordCommitment (entityId : String) (entitySize replicationFactor : ℤ)
  | renew (entityId : String) (additionalTtl : ℤ)
  | collect (amountMicro : ℤ)
  | apply (nodeIdentity : String) (storageProof : Proof) (bond : ℤ)
  | evict (nodeId reason : String) (auditEvidence : Option Proof)

section
open StablecoinLedger IncentiveLayer
variable (config : IncentiveConfig) {Proof : Type} (verifyProof : Proof → Bool)

def IncentiveLayer.perform : Operation Proof → Method IncentiveLayer Unit
  | .account nodeId => discard <| onLedger (account nodeId)
  | .depositFee amount => discard <| onLedger (depositFee config amount)
  | .fundIncentiveBudget amount => onLedger (fundIncentiveBudget amount)
  | .postBond nodeId amount => onLedger (postBond nodeId amount)
  | .customerDeposit customerId amount => discard <| onLedger (customerDeposit customerId amount)
  | .customerDebitToFees customerId amount =>
    discard <| onLedger (customerDebitToFees config customerId amount)
  | .customerRefund customerId => discard <| onLedger (customerRefund customerId)
  | .payFromPool nodeId amount => discard <| onLedger (payFromPool nodeId amount)
  | .slashBond nodeId amount => discard <| onLedger (slashBond nodeId amount)
  | .refundBond nodeId => discard <| onLedger (refundBond nodeId)
  | .forfeitBondToInsurance nodeId => discard <| onLedger (forfeitBondToInsurance nodeId)
  | .compensate nodeId stored seconds served =>
    discard <| onLedger (compensate config nodeId stored seconds served)
  | .slash nodeId count => discard <| onLedger (slash nodeId count)
  | .accrueReport report => discard <| onLedger (accrueReport config report)
  | .settleEpoch epoch => discard <| onLedger (settleEpoch epoch)
  | .price size factor ttl => discard <| price config size factor ttl
  | .recordCommitment entityId size factor => recordCommitment entityId size factor
  | .renew entityId ttl => discard <| renew config entityId ttl
  | .collect amount => discard <| collect config amount
  | .apply nodeIdentity proof bond =>
    discard <| IncentiveLayer.apply config verifyProof nodeIdentity proof bond
  | .evict nodeId reason evidence => discard <| evict nodeId reason evidence

def machine : Machine IncentiveLayer (Operation Proof) PyError where
  start := .init
  step s operation :=
    match (perform config verifyProof operation).exec s with
    | (.ok _,s') => (s',[])
    | (.error e,s') => (s',[e])

end

inductive Bucket
  | operatorPool
  | insurancePool
  | treasury
  | bond (nodeId : String)
  | customer (customerId : String)

namespace StablecoinLedger
open Finsupp Relation Book

noncomputable def book (s : StablecoinLedger) : Book Bucket ℤ where
  balance := single .operatorPool s.operatorPoolMicro+single .insurancePool s.insurancePoolMicro +
    single .treasury s.treasuryMicro +
    (s.accounts.toFinsupp NodeIncentiveAccount.bondMicro).mapDomain .bond +
    (s.customerBalances.toFinsupp id).mapDomain .customer
  deposited := s.totalDeposited
  withdrawn := s.totalWithdrawn

theorem held_book (s : StablecoinLedger) : s.book.held=s.totalHeldMicro := by
  simp [held,book,totalHeldMicro,Dict.degree_toFinsupp]

section
variable (s : StablecoinLedger)

@[simp] theorem balance_operatorPool : s.book.balance .operatorPool=s.operatorPoolMicro := by
  simp [book,mapDomain_of_notMem_range]

@[simp] theorem balance_insurancePool : s.book.balance .insurancePool=s.insurancePoolMicro := by
  simp [book,mapDomain_of_notMem_range]

@[simp] theorem balance_treasury : s.book.balance .treasury=s.treasuryMicro := by
  simp [book,mapDomain_of_notMem_range]

theorem valueAt_bond (nodeId : String) :
    s.accounts.valueAt NodeIncentiveAccount.bondMicro nodeId=(s.accountOf nodeId).bondMicro := by
  rw [Dict.valueAt,accountOf]
  cases s.accounts.get? nodeId <;> rfl

@[simp] theorem balance_bond (nodeId : String) :
    s.book.balance (.bond nodeId)=(s.accountOf nodeId).bondMicro := by
  have hi : Function.Injective Bucket.bond := fun _ _ h => Bucket.bond.inj h
  rw [← valueAt_bond,← Dict.toFinsupp_apply,← mapDomain_apply hi]
  simp [book,mapDomain_of_notMem_range]

theorem valueAt_customer (customerId : String) :
    s.customerBalances.valueAt id customerId=s.customerBalance customerId := by
  rw [Dict.valueAt,Option.map_id]
  rfl

@[simp] theorem balance_customer (customerId : String) :
    s.book.balance (.customer customerId)=s.customerBalance customerId := by
  have hi : Function.Injective Bucket.customer := fun _ _ h => Bucket.customer.inj h
  rw [← valueAt_customer,← Dict.toFinsupp_apply,← mapDomain_apply hi]
  simp [book,mapDomain_of_notMem_range]

theorem accountOf_updateAccount (nodeId other : String)
    (change : NodeIncentiveAccount → NodeIncentiveAccount) :
    (s.updateAccount nodeId change).accountOf other =
      if nodeId=other then change (s.accountOf nodeId) else s.accountOf other := by
  rw [accountOf,updateAccount,Dict.get?_set]
  split_ifs <;> rfl

theorem account_exec (nodeId : String) :
    (account nodeId).exec s=(.ok ((s.updateAccount nodeId id).accountOf nodeId),
      s.updateAccount nodeId id) := rfl

end

structure Sound (s : StablecoinLedger) : Prop where
  book : s.book.Sound
  claims : ∀ nodeId, 0 ≤ s.claim nodeId

def Advances (s s' : StablecoinLedger) : Prop :=
  s.Sound → ReflTransGen Posts s.book s'.book ∧ ∀ nodeId, 0 ≤ s'.claim nodeId

theorem Advances.sound {s s' : StablecoinLedger} (h : Advances s s') (hs : s.Sound) : s'.Sound :=
  ⟨hs.book.run (h hs).1,(h hs).2⟩

theorem Advances.of_sound {s s' : StablecoinLedger} (h : s.Sound → Advances s s') :
    Advances s s' := fun hs => h hs hs

instance : Std.Refl Advances := ⟨fun _ h => ⟨.refl,h.claims⟩⟩

instance : IsTrans StablecoinLedger Advances where
  trans := by
    intro s s₁ s₂ hf hse hs
    obtain ⟨hp,hc⟩ := hse (hf.sound hs)
    exact ⟨(hf hs).1.trans hp,hc⟩

section
open Method
variable {config : IncentiveConfig} {s s' : StablecoinLedger} {nid cid : String} {amount : ℤ}

theorem Advances.of_posts (hp : s.Sound → ReflTransGen Posts s.book s'.book)
    (hc : ∀ nid, s'.claim nid=s.claim nid) : Advances s s' := fun h =>
  ⟨hp h,fun nid => hc nid ▸ h.claims nid⟩

theorem claim_of_set {acct : NodeIncentiveAccount} (ha : s'.accounts=s.accounts.set nid acct)
    (hc : acct.earnedClaimMicro=s.claim nid) (other : String) : s'.claim other=s.claim other := by
  rw [claim,accountOf,ha,Dict.get?_set]
  split_ifs with hn
  · rw [← hn,← hc,Option.getD_some]
  · rfl

noncomputable def poolChange (s s' : StablecoinLedger) : Bucket →₀ ℤ :=
  single .operatorPool (s'.operatorPoolMicro-s.operatorPoolMicro) +
    single .insurancePool (s'.insurancePoolMicro-s.insurancePoolMicro) +
    single .treasury (s'.treasuryMicro-s.treasuryMicro)

section
variable (s) {b : Book Bucket ℤ} (hdeposited : s'.totalDeposited=b.deposited)
  (hwithdrawn : s'.totalWithdrawn=b.withdrawn)
include hdeposited hwithdrawn

theorem book_of_pools (ha : s'.accounts=s.accounts) (hc : s'.customerBalances=s.customerBalances)
    (hb : s.book.balance+poolChange s s'=b.balance) : s'.book=b := by
  refine Book.ext (.trans ?_ hb) hdeposited hwithdrawn
  simp only [book,poolChange,ha,hc,single_sub]
  abel

theorem book_of_account {acct : NodeIncentiveAccount}
    (ha : s'.accounts=s.accounts.set nid acct) (hc : s'.customerBalances=s.customerBalances)
    (hb : s.book.balance+(poolChange s s'+single (.bond nid)
      (acct.bondMicro-(s.accountOf nid).bondMicro))=b.balance) : s'.book=b := by
  refine Book.ext (.trans ?_ hb) hdeposited hwithdrawn
  simp only [book,poolChange,ha,hc,Dict.toFinsupp_set,mapDomain_add,mapDomain_single,valueAt_bond]
  simp only [single_sub]
  abel

theorem book_of_customer {change : ℤ} (ha : s'.accounts=s.accounts)
    (hc : s'.customerBalances.toFinsupp id = s.customerBalances.toFinsupp id+single cid change)
    (hb : s.book.balance+(poolChange s s'+single (.customer cid) change) =
      b.balance) : s'.book=b := by
  refine Book.ext (.trans ?_ hb) hdeposited hwithdrawn
  simp only [book,poolChange,ha,hc,mapDomain_add,mapDomain_single,single_sub]
  abel

end

theorem keeps_unless {α : Type} {R : StablecoinLedger → StablecoinLedger → Prop} [Std.Refl R]
    {failed : Prop} [Decidable failed] {msg : String} {m : Method StablecoinLedger α}
    (h : ¬failed → Keeps R m) : Keeps R (raiseIf failed msg >>= fun _ => m) := by
  intro s
  rw [raiseIf]
  split_ifs with hf
  · exact Std.Refl.refl s
  · exact h hf s

theorem book_updateAccount {change : NodeIncentiveAccount → NodeIncentiveAccount}
    (hb : (change (s.accountOf nid)).bondMicro=(s.accountOf nid).bondMicro) :
    (s.updateAccount nid change).book=s.book := by
  refine book_of_account s rfl rfl rfl rfl ?_
  simp [poolChange,updateAccount,hb]

theorem keeps_account : Keeps Advances (account nid) := by
  refine .bind (keeps_modify fun s => ?_) fun _ => .bind keeps_get fun _ => keeps_pure _
  refine .of_posts (fun _ => ?_) (claim_of_set rfl rfl)
  rw [book_updateAccount rfl]

theorem keeps_depositFee (hs : config.SharesInRange) :
    Keeps Advances (depositFee config amount) := by
  refine keeps_unless fun ha => ?_
  refine Keeps.bind (keeps_modify fun s => .of_posts (fun _ => ?_) fun _ => rfl) fun _ =>
    keeps_pure _
  obtain ⟨ho,hi,ht⟩ := hs.split_nonneg (not_lt.mp ha)
  have hp := ((ReflTransGen.single (Posts.deposit s.book .operatorPool ho)).tail
    (.deposit _ .insurancePool hi)).tail (.deposit _ .treasury ht)
  convert hp using 1
  refine book_of_pools s ?_ rfl rfl rfl ?_
  · change s.totalDeposited+amount=s.totalDeposited+_ + _ + _
    rw [add_assoc,add_assoc,← add_assoc (config.split amount).1,config.split_sum]
  · simp [poolChange,addShares,deposit,add_assoc]

theorem keeps_fundIncentiveBudget : Keeps Advances (fundIncentiveBudget amount) := by
  refine keeps_unless fun ha => keeps_modify fun s => ?_
  refine .of_posts (fun _ => ?_) fun _ => rfl
  convert ReflTransGen.single (Posts.deposit s.book .operatorPool (not_lt.mp ha)) using 1
  refine book_of_pools s rfl rfl rfl rfl ?_
  simp [poolChange,deposit]

theorem keeps_postBond : Keeps Advances (postBond nid amount) := by
  refine keeps_unless fun ha => keeps_modify fun s => ?_
  refine .of_posts (fun _ => ?_) (claim_of_set rfl rfl)
  convert ReflTransGen.single (Posts.deposit s.book (.bond nid) (not_lt.mp ha)) using 1
  refine book_of_account s rfl rfl rfl rfl ?_
  simp [poolChange,updateAccount,deposit]

theorem keeps_customerDeposit : Keeps Advances (customerDeposit cid amount) := by
  refine keeps_unless fun _ => keeps_unless fun ha => ?_
  refine Keeps.bind (keeps_modify fun s => ?_) fun _ => Keeps.bind keeps_get fun _ => keeps_pure _
  refine .of_posts (fun _ => ?_) fun _ => rfl
  convert ReflTransGen.single (Posts.deposit s.book (.customer cid) (not_lt.mp ha))
    using 1
  refine book_of_customer s rfl rfl rfl (Dict.toFinsupp_set id _ _ _) ?_
  simp [poolChange,addBalance,deposit,valueAt_customer]

theorem customerDeposit_exec (hc : cid ≠ "") (ha : 0≤amount)
    (s : StablecoinLedger) : (customerDeposit cid amount).exec s =
      (.ok ((s.addBalance cid amount).customerBalance cid), s.addBalance cid amount) := by
  rw [customerDeposit,raiseIf,if_neg hc]
  rw [raiseIf,if_neg (not_lt.mpr ha)]
  rfl

theorem customerBalance_addBalance (customerId other : String) (amount : ℤ)
    (s : StablecoinLedger) : (s.addBalance customerId amount).customerBalance other =
      s.customerBalance other+if customerId=other then amount else 0 := by
  rw [customerBalance,addBalance,Dict.get?_set]
  split_ifs with hc
  · rw [← hc,Option.getD_some]
  · rw [add_zero]
    rfl

theorem posts_balanceToFees (hs : config.SharesInRange)
    (ha : 0≤amount) (hb : amount ≤ s.customerBalance cid) :
    ReflTransGen Posts s.book (s.balanceToFees config cid amount).book := by
  obtain ⟨ho,hi,ht⟩ := hs.split_nonneg ha
  have hh : (config.split amount).1+(config.split amount).2.1+(config.split amount).2.2 ≤
      s.book.balance (.customer cid) := by
    rw [config.split_sum,balance_customer]
    exact hb
  have hp := posts_shares s.book (x := .operatorPool) (y := .insurancePool) .treasury
    (by simp) (by simp) ho hi ht hh
  convert hp using 1
  refine book_of_customer s rfl rfl rfl (Dict.toFinsupp_set id _ _ _) ?_
  have hc : s.customerBalance cid-amount-s.customerBalance cid =
      -((config.split amount).1+(config.split amount).2.1+(config.split amount).2.2) := by
    rw [config.split_sum]
    ring
  simp only [poolChange,balanceToFees,addShares,transfer,valueAt_customer,id,hc,
    add_sub_cancel_left,single_neg,single_add]
  abel

theorem keeps_customerDebitToFees (hs : config.SharesInRange) :
    Keeps Advances (customerDebitToFees config cid amount) := by
  refine keeps_unless fun ha => fun s => ?_
  rw [exec_bind,exec_get]
  dsimp only
  split_ifs with hb
  · exact Std.Refl.refl s
  · exact .of_posts (fun _ => posts_balanceToFees hs (not_lt.mp ha) (not_lt.mp hb))
      fun _ => rfl

theorem posts_withdrawBalance (h : s.Sound) : Posts s.book (s.withdrawBalance cid).book := by
  have hb := h.book.nonneg (.customer cid)
  convert Posts.withdraw s.book hb le_rfl using 1
  rw [balance_customer]
  have he : (s.withdrawBalance cid).customerBalances.toFinsupp id =
      s.customerBalances.toFinsupp id+single cid (-s.customerBalance cid) := by
    rw [← valueAt_customer,single_neg,← sub_eq_add_neg]
    exact Dict.toFinsupp_erase id _ _
  refine book_of_customer s rfl rfl rfl he ?_
  simp [poolChange,withdrawBalance,withdraw,sub_eq_add_neg]

theorem keeps_customerRefund : Keeps Advances (customerRefund cid) := fun _ =>
  .of_posts (fun h => .single (posts_withdrawBalance h)) fun _ => rfl

theorem posts_payOut {paid : ℤ} (hp : 0≤paid) (hpo : paid ≤ s.operatorPoolMicro) :
    Posts s.book (s.payOut nid paid).book := by
  rw [← balance_operatorPool] at hpo
  convert Posts.withdraw s.book hp hpo using 1
  refine book_of_account s rfl rfl rfl rfl ?_
  simp [poolChange,payOut,updateAccount,withdraw,sub_eq_add_neg]

theorem keeps_payFromPool : Keeps Advances (payFromPool nid amount) := by
  refine keeps_unless fun ha => fun s => ?_
  refine .of_posts (fun h => .single (posts_payOut (le_min (not_lt.mp ha) ?_)
    (min_le_right _ _))) (claim_of_set rfl rfl)
  exact balance_operatorPool s ▸ h.book.nonneg .operatorPool

theorem posts_bondToInsurance {slashed : ℤ} (hs : 0 ≤ slashed)
    (hb : slashed≤(s.accountOf nid).bondMicro) :
    Posts s.book (s.bondToInsurance nid slashed).book := by
  rw [← balance_bond] at hb
  convert Posts.transfer s.book .insurancePool hs hb using 1
  refine book_of_account s rfl rfl rfl rfl ?_
  simp [poolChange,bondToInsurance,updateAccount,transfer]
  abel

theorem keeps_slashBond : Keeps Advances (slashBond nid amount) := by
  refine keeps_unless fun ha => fun s => ?_
  refine .of_posts (fun h => .single (posts_bondToInsurance (le_min (not_lt.mp ha) ?_)
    (min_le_right _ _))) (claim_of_set rfl rfl)
  exact balance_bond s nid ▸ h.book.nonneg (.bond nid)

theorem posts_withdrawBond (h : s.Sound) : Posts s.book (s.withdrawBond nid).book := by
  have hb := h.book.nonneg (.bond nid)
  convert Posts.withdraw s.book hb le_rfl using 1
  rw [balance_bond]
  refine book_of_account s rfl rfl rfl rfl ?_
  simp [poolChange,withdrawBond,updateAccount,withdraw,sub_eq_add_neg]

theorem keeps_refundBond : Keeps Advances (refundBond nid) := fun _ =>
  .of_posts (fun h => .single (posts_withdrawBond h)) (claim_of_set rfl rfl)

theorem posts_forfeitBond (h : s.Sound) : Posts s.book (s.forfeitBond nid).book := by
  have hb := h.book.nonneg (.bond nid)
  convert Posts.transfer s.book .insurancePool hb le_rfl using 1
  refine book_of_account s rfl rfl rfl rfl ?_
  simp [poolChange,forfeitBond,updateAccount,transfer]
  abel

theorem keeps_forfeitBondToInsurance : Keeps Advances (forfeitBondToInsurance nid) := fun _ =>
  .of_posts (fun h => .single (posts_forfeitBond h)) (claim_of_set rfl rfl)

theorem claim_addClaim (nodeId other : String) (s : StablecoinLedger) :
    (s.addClaim nodeId amount).claim other =
      s.claim other+if nodeId=other then amount else 0 := by
  rw [addClaim,claim,accountOf_updateAccount]
  split_ifs with hn
  · rw [← hn]
    rfl
  · exact (add_zero _).symm

theorem book_addClaim (nodeId : String) (s : StablecoinLedger) :
    (s.addClaim nodeId amount).book=s.book := book_updateAccount rfl

theorem keeps_addClaim (ha : 0≤amount) : Keeps Advances (modify (addClaim nid amount)) := by
  refine keeps_modify fun s h => ⟨?_,fun other => ?_⟩
  · rw [book_addClaim]
  · rw [claim_addClaim]
    refine add_nonneg (h.claims other) ?_
    split_ifs
    · exact ha
    · exact le_rfl

section
variable (hprices : config.PricesNonneg)
include hprices

theorem metered_nonneg {stored secs served : ℤ} (hs : 0 ≤ stored)
    (hse : 0 ≤ secs) (hser : 0 ≤ served) : 0 ≤ metered config stored secs served :=
  add_nonneg (hprices.storageRateMicro (Int.mul_nonneg hs hse))
    (hprices.servingRateMicro hser)

theorem accrued_nonneg (report : MeteredWorkReport) : 0≤accrued config report := by
  have hm := metered_nonneg hprices (Int.natCast_nonneg report.bytesStored)
    (Int.natCast_nonneg report.secondsStored) (Int.natCast_nonneg report.bytesServed)
  exact Int.ediv_nonneg (Int.mul_nonneg hm (Int.natCast_nonneg _)) (Int.natCast_nonneg _)

theorem keeps_compensate {stored secs served : ℤ} :
    Keeps Advances (compensate config nid stored secs served) := by
  rw [compensate]
  split_ifs with hn
  · exact keeps_throw _
  · obtain ⟨hs,hre⟩ := le_min_iff.mp (not_lt.mp hn)
    obtain ⟨hse,hser⟩ := le_min_iff.mp hre
    have hr := metered_nonneg hprices hs hse hser
    refine .bind keeps_account fun acct => ?_
    split_ifs
    · exact keeps_pure _
    · exact .bind (keeps_addClaim hr) fun _ => keeps_pure _

end

theorem keeps_slash {count : ℤ} : Keeps Advances (slash nid count) := by
  rw [slash]
  split_ifs
  · exact keeps_pure _
  · refine .bind (keeps_modify fun s => ?_) fun _ => .bind keeps_get fun _ =>
      keeps_slashBond
    refine .of_posts (fun _ => ?_) (claim_of_set rfl rfl)
    rw [book_updateAccount rfl]

theorem keeps_accrueReport (hprices : config.PricesNonneg)
    (report : MeteredWorkReport) : Keeps Advances (accrueReport config report) := by
  refine .bind keeps_account fun acct => .bind ?_ fun amount => .bind ?_ fun _ =>
    keeps_pure _
  · rw [accrue]
    split_ifs
    · exact keeps_pure _
    · exact .bind (keeps_addClaim (accrued_nonneg hprices report)) fun _ => keeps_pure _
  · rw [slashFailures]
    split_ifs
    · exact keeps_slash
    · exact keeps_pure _

section
variable {budget total : ℤ}

theorem share_le_claim {claimed : ℤ} (hc : 0≤claimed) (hb : budget≤total)
    (ht : 0<total) : claimed*budget / total≤claimed :=
  Int.ediv_le_of_le_mul ht (Int.mul_le_mul_of_nonneg_left hb hc)

theorem payFromPool_exec (nodeId : String) (ha : 0≤amount) (s : StablecoinLedger) :
    (payFromPool nodeId amount).exec s=(.ok (min amount s.operatorPoolMicro),
        s.payOut nodeId (min amount s.operatorPoolMicro)) := by
  rw [payFromPool,raiseIf,if_neg (not_lt.mpr ha)]
  rfl

theorem claim_payOut (nodeId : String) (paid : ℤ) (s : StablecoinLedger) :
    ∀ other, (s.payOut nodeId paid).claim other=s.claim other := claim_of_set rfl rfl

theorem settleNode_state {s : StablecoinLedger} {nodeId : String}
    (hs : 0 ≤ s.claim nodeId*budget / total) (snapshot : EpochPayoutSnapshot) :
    ((settleNode budget total snapshot nodeId).exec s).2 =
      let paid := min (s.claim nodeId*budget / total) s.operatorPoolMicro
      (s.payOut nodeId paid).addClaim nodeId (-paid) := by
  rw [settleNode,exec_bind,exec_get]
  dsimp only
  rw [exec_bind,payFromPool_exec nodeId hs s]
  rfl

theorem keeps_settleNode (hb : 0≤budget) (hle : budget≤total)
    (ht : 0<total) (snapshot : EpochPayoutSnapshot) (nodeId : String) :
    Keeps Advances (settleNode budget total snapshot nodeId) := by
  intro s h
  have hc := h.claims nodeId
  have hp : 0 ≤ s.operatorPoolMicro := balance_operatorPool s ▸ h.book.nonneg .operatorPool
  have hs : 0 ≤ s.claim nodeId*budget / total :=
    Int.ediv_nonneg (Int.mul_nonneg hc hb) ht.le
  have hpa := (min_le_left _ s.operatorPoolMicro).trans (share_le_claim hc hle ht)
  rw [settleNode_state hs]
  refine ⟨?_,fun other => ?_⟩
  · rw [book_addClaim]
    exact .single (posts_payOut (le_min hs hp) (min_le_right _ _))
  · rw [claim_addClaim,claim_payOut]
    split_ifs with hn
    · rw [← hn]
      exact sub_nonneg.mpr hpa
    · rw [add_zero]
      exact h.claims other

theorem keeps_settleEpoch (epoch : ℤ) : Keeps Advances (settleEpoch epoch) := by
  intro s
  rw [settleEpoch,exec_bind,exec_get]
  dsimp only
  split_ifs with hn
  · exact Std.Refl.refl s
  · refine .of_sound fun h => ?_
    have hc : 0≤(s.claimants.map s.claim).sum := List.sum_nonneg fun claimed hm => by
      obtain ⟨nid,-,rfl⟩ := List.mem_map.mp hm
      exact h.claims nid
    have ht : 0<(s.claimants.map s.claim).sum := lt_of_le_of_ne hc (.symm hn)
    have hp : 0 ≤ s.operatorPoolMicro := balance_operatorPool s ▸ h.book.nonneg .operatorPool
    refine Keeps.bind (Keeps.foldlM (fun snapshot nid _ => ?_) _)
      (fun settled => Keeps.bind keeps_get fun after => keeps_pure _) s
    exact keeps_settleNode (le_min hc hp) (min_le_left _ _) ht snapshot nid

end

end

end StablecoinLedger

namespace IncentiveLayer
open Method StablecoinLedger

def Advances (s s' : IncentiveLayer) : Prop := StablecoinLedger.Advances s.ledger s'.ledger

instance : Std.Refl Advances := ⟨fun s => Std.Refl.refl s.ledger⟩

instance : IsTrans IncentiveLayer Advances where
  trans _ _ _ hf hs := IsTrans.trans (r := StablecoinLedger.Advances) _ _ _ hf hs

variable {config : IncentiveConfig} {Proof : Type} {verifyProof : Proof → Bool}

theorem keeps_onLedger {α : Type} {m : Method StablecoinLedger α}
    (h : Keeps StablecoinLedger.Advances m) : Keeps Advances (onLedger m) :=
  Keeps.on (fun _ _ => rfl) h

theorem keeps_discard {α : Type} {m : Method IncentiveLayer α} (h : Keeps Advances m) :
    Keeps Advances (discard m) := Keeps.bind h fun _ => keeps_pure _

theorem keeps_applyDetailed (nodeIdentity : String) (storageProof : Proof) (bond : ℤ) :
    Keeps Advances (applyDetailed config verifyProof nodeIdentity storageProof bond) := by
  refine .bind (keeps_onLedger keeps_account) fun acct => ?_
  split_ifs
  · exact keeps_pure _
  · exact keeps_pure _
  · exact keeps_pure _
  · refine .bind ?_ fun _ => .bind (keeps_modify fun s => ?_) fun _ => keeps_pure _
    · rw [postPositive]
      split_ifs
      · exact keeps_onLedger keeps_postBond
      · exact keeps_pure _
    · exact Std.Refl.refl s.ledger

theorem keeps_evict (nodeId reason : String) (auditEvidence : Option Proof) :
    Keeps Advances (evict nodeId reason auditEvidence) := by
  refine .bind (keeps_onLedger (keeps_modify fun s => ?_)) fun _ => ?_
  · refine .of_posts (fun _ => ?_) (claim_of_set rfl rfl)
    rw [book_updateAccount rfl]
  · refine Keeps.bind (keeps_modify fun s => Std.Refl.refl s.ledger) fun _ => ?_
    split_ifs
    · exact .bind (keeps_onLedger keeps_forfeitBondToInsurance) fun _ => keeps_pure _
    · exact .bind (keeps_onLedger keeps_refundBond) fun _ => keeps_pure _

theorem keeps_perform (hs : config.SharesInRange) (hprices : config.PricesNonneg)
    (operation : Operation Proof) : Keeps Advances (perform config verifyProof operation) := by
  cases operation with
  | account => exact keeps_discard (keeps_onLedger keeps_account)
  | depositFee => exact keeps_discard (keeps_onLedger (keeps_depositFee hs))
  | fundIncentiveBudget => exact keeps_onLedger keeps_fundIncentiveBudget
  | postBond => exact keeps_onLedger keeps_postBond
  | customerDeposit => exact keeps_discard (keeps_onLedger keeps_customerDeposit)
  | customerDebitToFees => exact keeps_discard (keeps_onLedger (keeps_customerDebitToFees hs))
  | customerRefund => exact keeps_discard (keeps_onLedger keeps_customerRefund)
  | payFromPool => exact keeps_discard (keeps_onLedger keeps_payFromPool)
  | slashBond => exact keeps_discard (keeps_onLedger keeps_slashBond)
  | refundBond => exact keeps_discard (keeps_onLedger keeps_refundBond)
  | forfeitBondToInsurance =>
    exact keeps_discard (keeps_onLedger keeps_forfeitBondToInsurance)
  | compensate => exact keeps_discard (keeps_onLedger (keeps_compensate hprices))
  | slash => exact keeps_discard (keeps_onLedger keeps_slash)
  | accrueReport report => exact keeps_discard (keeps_onLedger (keeps_accrueReport hprices report))
  | settleEpoch epoch => exact keeps_discard (keeps_onLedger (keeps_settleEpoch epoch))
  | price =>
    refine keeps_discard ?_
    rw [price]
    split_ifs
    · exact keeps_throw _
    · exact keeps_pure _
  | recordCommitment =>
    rw [perform,recordCommitment]
    split_ifs
    · exact keeps_throw _
    · exact keeps_modify fun s => Std.Refl.refl s.ledger
  | renew =>
    refine keeps_discard (.bind keeps_get fun s => ?_)
    split
    · exact keeps_throw _
    · split_ifs
      · exact keeps_throw _
      · exact keeps_pure _
  | collect => exact keeps_discard (keeps_onLedger (keeps_depositFee hs))
  | apply nodeIdentity proof bond =>
    exact keeps_discard (.bind (keeps_applyDetailed nodeIdentity proof bond) fun _ =>
      keeps_pure _)
  | evict nodeId reason evidence => exact keeps_discard (keeps_evict nodeId reason evidence)

theorem step_machine (s : IncentiveLayer) (operation : Operation Proof) :
    ((machine config verifyProof).step s operation).1 =
      ((perform config verifyProof operation).exec s).2 := by
  rw [machine]
  dsimp only
  split <;> simp_all

end IncentiveLayer

/-- No pool, bond, balance or claim is negative, and the ledger holds what was deposited and not
withdrawn. -/
structure StablecoinLedger.Solvent (s : StablecoinLedger) : Prop where
  operatorPool : 0 ≤ s.operatorPoolMicro
  insurancePool : 0 ≤ s.insurancePoolMicro
  treasury : 0 ≤ s.treasuryMicro
  bonds : ∀ nodeId acct, s.accounts.get? nodeId=some acct → 0≤acct.bondMicro
  claims : ∀ nodeId acct, s.accounts.get? nodeId=some acct → 0≤acct.earnedClaimMicro
  balances : ∀ customerId balance, s.customerBalances.get? customerId=some balance → 0≤balance
  conserved : s.checkSolvency=true

theorem StablecoinLedger.Sound.solvent {s : StablecoinLedger} (h : s.Sound) : s.Solvent where
  operatorPool := balance_operatorPool s ▸ h.book.nonneg .operatorPool
  insurancePool := balance_insurancePool s ▸ h.book.nonneg .insurancePool
  treasury := balance_treasury s ▸ h.book.nonneg .treasury
  bonds nodeId acct ha := by
    have hbo := h.book.nonneg (.bond nodeId)
    rw [balance_bond,accountOf,ha] at hbo
    exact hbo
  claims nodeId acct ha := by
    have hc := h.claims nodeId
    rw [claim,accountOf,ha] at hc
    exact hc
  balances customerId balance hg := by
    have hb := h.book.nonneg (.customer customerId)
    rw [balance_customer,customerBalance,hg] at hb
    exact hb
  conserved := by
    rw [checkSolvency,← held_book]
    exact decide_eq_true h.book.conserved

theorem StablecoinLedger.sound_init : StablecoinLedger.init.Sound := by
  refine ⟨⟨fun bucket => ?_,held_book _⟩,fun _ => le_rfl⟩
  cases bucket <;> simp [init,accountOf,customerBalance]

section
open IncentiveLayer
variable (config : IncentiveConfig) {Proof : Type} (verifyProof : Proof → Bool)

theorem sound_of_prices {config : IncentiveConfig} (hs : config.SharesInRange)
    (hprices : config.PricesNonneg) (operations : List (Operation Proof)) :
    ((machine config verifyProof).state operations).ledger.Sound := by
  refine Machine.invariant (P := fun (s : IncentiveLayer) _ => s.ledger.Sound)
    StablecoinLedger.sound_init (fun s _ operation h => ?_) operations
  rw [step_machine]
  exact (keeps_perform hs hprices operation s).sound h

theorem get?_compensate (nodeId : String) (stored secs served : ℕ) :
    (((machine config verifyProof).state
      [.compensate nodeId stored secs served]).ledger.accounts.get? nodeId) =
      some ⟨0,StablecoinLedger.metered config stored secs served,0,0,0, false⟩ := by
  have hi : ¬min (stored : ℤ) (min (secs : ℤ) served)<0 := by omega
  have hs : ((machine config verifyProof).state [.compensate nodeId stored secs served]).ledger =
      ((StablecoinLedger.compensate config nodeId stored secs served).exec
        .init).2 := by
    rw [← List.nil_append [Operation.compensate nodeId _ _ _],Machine.state_snoc,step_machine]
    exact congrArg ledger (Method.exec_discard _ _)
  rw [hs,StablecoinLedger.compensate,if_neg hi]
  have ha : (StablecoinLedger.account nodeId).exec .init =
      (.ok ⟨0,0,0,0,0,false⟩,StablecoinLedger.init.updateAccount nodeId id) := by
    rw [StablecoinLedger.account_exec,StablecoinLedger.accountOf_updateAccount,if_pos rfl]
    rfl
  rw [Method.exec_bind,ha]
  refine (Dict.get?_set_self _ _ _).trans ?_
  rw [StablecoinLedger.accountOf_updateAccount,if_pos rfl]
  exact congrArg (fun claimed => some (NodeIncentiveAccount.mk 0 claimed 0 0 0 false)) (zero_add _)

/-- With fee shares in range, every run keeps the ledger solvent if and only if no price of
metered work is negative. -/
theorem solvent_iff_prices_nonneg (hshares : config.SharesInRange) :
    (∀ operations, ((machine config verifyProof).state operations).ledger.Solvent) ↔
      config.PricesNonneg := by
  constructor
  · intro h
    have hc (bytesStored secondsStored bytesServed : ℕ) :
        0≤StablecoinLedger.metered config bytesStored secondsStored bytesServed :=
      (h _).claims "n" _ (get?_compensate config verifyProof "n" _ _ _)
    have hs := hc 1 1 0
    have hse := hc 0 0 1
    simp only [StablecoinLedger.metered,IncentiveConfig.storageRateMicro,
      IncentiveConfig.servingRateMicro,Nat.cast_one,Nat.cast_zero,one_mul,zero_mul,
      Int.zero_ediv,add_zero,zero_add] at hs hse
    exact ⟨(Int.ediv_nonneg_iff_of_pos (by decide)).mp hs,
      (Int.ediv_nonneg_iff_of_pos (by decide)).mp hse⟩
  · intro hprices operations
    exact (sound_of_prices verifyProof hshares hprices operations).solvent

def defaultConfig : IncentiveConfig := {shares_sum := by decide,minBond_nonneg := by decide}

theorem defaultConfig_solvent : defaultConfig.SharesInRange ∧
    ∀ operations, ((machine defaultConfig (id : Bool → Bool)).state operations).ledger.Solvent := by
  have hs : defaultConfig.SharesInRange := ⟨by decide,by decide,by decide⟩
  exact ⟨hs,(solvent_iff_prices_nonneg defaultConfig id hs).mpr ⟨by decide,by decide⟩⟩

def negativePrice : IncentiveConfig :=
  {pricePerGibMonthMicro := -1,shares_sum := by decide,minBond_nonneg := by decide}

theorem negativePrice_negative_claim : negativePrice.SharesInRange ∧
    ¬((machine negativePrice (id : Bool → Bool)).state [.compensate "n" 1 1 0]).ledger.Solvent := by
  refine ⟨⟨by decide,by decide,by decide⟩,fun h => ?_⟩
  have hc := h.claims "n" _ (get?_compensate negativePrice id "n" 1 1 0)
  exact absurd hc (by decide)

end

end LatticeTransfer.Incentives
