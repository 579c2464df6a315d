import LatticeTransfer.TransitionVotes

/-!
# Slashing conditions and slash amounts

The conditions of `enforcement.py` that the pipeline evaluates, from their evidence to a
`SlashResult`, and the part of `EconomicsEngine` that turns a violation into an amount and keeps
it through the grace period. Arithmetic on floats is that of doubles: an exact rational, rounded
after every operation.
-/

namespace LatticeTransfer.Enforcement
open CommitmentLog JsonText MerkleTree

section

def roundDouble (x : ℚ) : ℚ :=
  if x<0 then -TransitionVotes.roundToDouble (-x) else TransitionVotes.roundToDouble x

def finite (x : ℚ) : Except PyError ℚ := if |x| < 2^1024 then .ok x else .error .overflowError

def toDouble (n : ℤ) : Except PyError ℚ := finite (roundDouble n)

def divide (a b : ℤ) : Except PyError ℚ := finite (roundDouble (a / b))

def truncate (x : ℚ) : Except PyError ℤ := do
  let x ← finite x
  return if x<0 then ⌈x⌉ else ⌊x⌋

end

inductive Severity
  | none
  | warning
  | minor
  | major
  | critical
deriving DecidableEq

inductive SlashingTier
  | warning
  | minor
  | major
  | critical
deriving DecidableEq

def slashingRates : SlashingTier → ℤ
  | .warning => 100
  | .minor => 500
  | .major => 1500
  | .critical => 3000

def severityToTier : Severity → SlashingTier
  | .none | .warning => .warning
  | .minor => .minor
  | .major => .major
  | .critical => .critical

structure SlashResult where
  violated : Bool
  severity : Severity
  evidenceHash : String
  explanation : String
  conditionId : String

structure SlashingCondition where
  conditionId : String
  stakeAllocationBps : ℤ
  evaluate : String → Except PyError SlashResult

def evidenceText (fields : List (String × Json)) : String :=
  String.ofList ('{' :: ([',',' '].intercalate
    (fields.map fun f => renderText f.1++[':',' ']++render f.2)++['}']))

def intField (data : Json) (key : String) : Except PyError ℤ :=
  match data with
  | .obj fields =>
    match fields.reverse.find? fun f => f.1=key with
    | none => .ok 0
    | some (_,.int n) => .ok n
    | some _ => .error .typeError
  | _ => .error .attributeError

section
variable (H : CanonicalHash)

def invalidEvidence (conditionId evidence : String) : SlashResult where
  violated := false
  severity := .none
  evidenceHash := canonicalHash H (encodeText evidence)
  explanation := "Invalid evidence format"
  conditionId := conditionId

def auditSeverity (consecutiveFailures : ℤ) : Severity :=
  if 6≤consecutiveFailures then .critical
  else if 4≤consecutiveFailures then .major
  else if 2≤consecutiveFailures then .minor
  else .warning

def failureThreshold : ℤ := 3

def auditFailureCondition (stakeAllocationBps : ℤ) : SlashingCondition where
  conditionId := "audit_failure"
  stakeAllocationBps := stakeAllocationBps
  evaluate evidence :=
    match loads evidence with
    | none => .ok (invalidEvidence H "audit_failure" evidence)
    | some data => do
      let consecutiveFailures ← intField data "consecutive_failures"
      let violated := failureThreshold≤consecutiveFailures
      return {
        violated := violated
        severity := if violated then auditSeverity consecutiveFailures else .none
        evidenceHash := canonicalHash H (encodeText evidence)
        explanation := s!"{consecutiveFailures} consecutive audit failures" ++
          if violated then s!" (threshold: {failureThreshold})" else ""
        conditionId := "audit_failure" }

/-- The rates are compared with the doubles next to 0.5 and 0.2. -/
def proofSeverity (proofFailures totalChallenges : ℤ) : Except PyError Severity := do
  let failureRate ← divide proofFailures totalChallenges
  return if 1 / 2<failureRate then .critical
    else if 3602879701896397 / 2^54<failureRate then .major
    else .minor

def proofFailureCondition (stakeAllocationBps : ℤ) : SlashingCondition where
  conditionId := "proof_failure"
  stakeAllocationBps := stakeAllocationBps
  evaluate evidence :=
    match loads evidence with
    | none => .ok (invalidEvidence H "proof_failure" evidence)
    | some data => do
      let proofFailures ← intField data "proof_failures"
      let totalChallenges ← intField data "total_challenges"
      let violated := 0<proofFailures ∧ 0<totalChallenges
      let severity ← if violated then proofSeverity proofFailures totalChallenges else .ok .none
      return {
        violated := violated
        severity := severity
        evidenceHash := canonicalHash H (encodeText evidence)
        explanation := s!"{proofFailures}/{totalChallenges} PDP proofs failed"
        conditionId := "proof_failure" }

abbrev ConditionRegistry := Dict String SlashingCondition

namespace ConditionRegistry
variable (registry : ConditionRegistry)

def evaluate (conditionId evidence : String) : Except PyError SlashResult :=
  match registry.get? conditionId with
  | none => .ok {
      violated := false
      severity := .none
      evidenceHash := canonicalHash H (encodeText evidence)
      explanation := s!"Unknown condition: {conditionId}"
      conditionId := conditionId}
  | some condition => condition.evaluate evidence

end ConditionRegistry

/-- The two of the four default conditions that the pipeline evaluates. -/
def defaultConditions : ConditionRegistry :=
  (Dict.empty.set "audit_failure" (auditFailureCondition H 5000)).set "proof_failure"
    (proofFailureCondition H 3000)

end

structure PendingSlash where
  nodeId : String
  amount : ℤ
  tier : SlashingTier
  epochCreated : ℤ
  graceEpochs : ℤ
  reversed : Bool
deriving DecidableEq

def PendingSlash.isFinalized (slash : PendingSlash) (currentEpoch : ℤ) : Bool :=
  !slash.reversed && slash.epochCreated+slash.graceEpochs≤currentEpoch

structure NodeEconomics where
  nodeId : String
  stake : ℤ
  totalSlashed : ℤ
  offenseCount : ℤ
  evicted : Bool
  cleanEpochsSinceOffense : ℕ
  pendingSlashes : List PendingSlash
deriving DecidableEq

structure EconomicsConfig where
  slashGraceEpochs : ℤ
  evictionOffenseThreshold : ℤ
  correlationScaling : ℚ
  maxCorrelationMultiplier : ℚ

namespace EconomicsConfig
variable (engine : EconomicsConfig)

def computeSlashForCondition (node : NodeEconomics) (conditionAllocationBps : ℤ)
    (severity : Severity) (concurrentSlashedStake totalNetworkStake : ℤ) :
    Except PyError (ℤ × SlashingTier) := do
  let tier := severityToTier severity
  let atRiskStake := node.stake*conditionAllocationBps / 10000
  let baseSlash := atRiskStake*slashingRates tier / 10000
  let slashAmount ← if 0<totalNetworkStake ∧ 0<concurrentSlashedStake then do
      let correlationRatio ← divide concurrentSlashedStake totalNetworkStake
      let scaled := roundDouble (engine.correlationScaling*correlationRatio)
      let multiplier := min engine.maxCorrelationMultiplier (roundDouble (1+scaled))
      let base ← toDouble baseSlash
      truncate (roundDouble (base*multiplier))
    else .ok baseSlash
  return (min slashAmount atRiskStake,tier)

def pendingSlash (node : NodeEconomics) (slashAmount : ℤ) (tier : SlashingTier)
    (currentEpoch : ℤ) : PendingSlash :=
  ⟨node.nodeId,slashAmount,tier,currentEpoch,engine.slashGraceEpochs,false⟩

def shouldEvict (node : NodeEconomics) : Bool := engine.evictionOffenseThreshold≤node.offenseCount

end EconomicsConfig

def NodeEconomics.due (node : NodeEconomics) (currentEpoch : ℤ) : List PendingSlash :=
  node.pendingSlashes.filter fun slash => slash.isFinalized currentEpoch

def NodeEconomics.remaining (node : NodeEconomics) (currentEpoch : ℤ) : List PendingSlash :=
  node.pendingSlashes.filter fun slash => !slash.reversed && !slash.isFinalized currentEpoch

def NodeEconomics.deduct (node : NodeEconomics) (amount : ℤ) : NodeEconomics :=
  {node with stake := max 0 (node.stake-amount),totalSlashed := node.totalSlashed+amount}

def Covered : ℤ → List ℤ → Prop
  | _, [] => True
  | stake, amount::rest => amount ≤ stake ∧ Covered (stake-amount) rest

instance : (stake : ℤ) → (amounts : List ℤ) → Decidable (Covered stake amounts)
  | _, [] => inferInstanceAs (Decidable True)
  | stake, amount::rest =>
    haveI := instDecidableCovered (stake-amount) rest
    inferInstanceAs (Decidable (amount ≤ stake ∧ Covered (stake-amount) rest))

namespace NodeEconomics

def total (node : NodeEconomics) : ℤ := node.stake+node.totalSlashed

theorem total_le_deduct (node : NodeEconomics) (amount : ℤ) :
    node.total≤(node.deduct amount).total := by
  simp only [total,deduct]
  omega

variable (node : NodeEconomics) (amounts : List ℤ)

theorem deductAll_stake_nonneg (h : 0≤node.stake) : 0≤(amounts.foldl deduct node).stake := by
  induction amounts generalizing node with
  | nil => exact h
  | cons amount rest ih => exact ih (node.deduct amount) (le_max_left _ _)

theorem total_le_deductAll : node.total≤(amounts.foldl deduct node).total := by
  induction amounts generalizing node with
  | nil => exact le_rfl
  | cons amount rest ih => exact (node.total_le_deduct amount).trans (ih (node.deduct amount))

/-- A slash above the stake is booked in full and taken in part, so the total grows. -/
theorem deductAll_total_eq_iff :
    (amounts.foldl deduct node).total=node.total ↔ Covered node.stake amounts := by
  induction amounts generalizing node with
  | nil => exact iff_of_true rfl trivial
  | cons amount rest ih =>
    have hst := node.total_le_deduct amount
    have hr := (node.deduct amount).total_le_deductAll rest
    rw [List.foldl_cons,Covered]
    by_cases hle : amount≤node.stake
    · have ht : (node.deduct amount).total=node.total := by
        simp only [total,deduct]
        omega
      have hs : (node.deduct amount).stake=node.stake-amount :=
        max_eq_right (sub_nonneg.mpr hle)
      rw [← ht,ih,hs,and_iff_right hle]
    · refine iff_of_false (fun heq => hle ?_) (fun h => hle h.1)
      have ht : (node.deduct amount).total=node.total := by omega
      simp only [total,deduct] at ht
      omega

end NodeEconomics

end LatticeTransfer.Enforcement
