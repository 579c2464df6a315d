import LatticeTransfer.Lifecycle

/-!
# The lifecycle of an anchor submission

`AnchorStatusTracker`: one record per entity, from PENDING over SUBMITTED and CONFIRMED to
FINALIZED, or to FAILED. The scheduler and the verifier of a chain share it; every call runs
under its lock. The clock of a call is one of its arguments.
-/

namespace LatticeTransfer.Anchoring

inductive AnchorStatus
  | pending
  | submitted
  | confirmed
  | finalized
  | failed
deriving DecidableEq

def AnchorStatus.value : AnchorStatus → String
  | pending => "pending"
  | submitted => "submitted"
  | confirmed => "confirmed"
  | finalized => "finalized"
  | failed => "failed"

structure AnchorRecord (T : Type) where
  entityId : String
  anchorDigest : Bytes
  status : AnchorStatus
  txHash : String
  blockNumber : ℤ
  gasUsed : ℤ
  submittedAt : T
  confirmedAt : T
  error : String
  retryCount : ℕ
  chainId : ℤ
deriving DecidableEq

abbrev Tracker (T : Type) := Dict String (AnchorRecord T)

def validTransitions : List (AnchorStatus × AnchorStatus) :=
  [(.pending,.submitted),(.submitted,.confirmed),(.confirmed,.finalized),
    (.pending,.failed),(.submitted,.failed),(.confirmed,.failed)]

variable {T : Type}

def lifecycle : Lifecycle String (AnchorRecord T) AnchorStatus where
  status := AnchorRecord.status
  withStatus record status := {record with status := status}
  valid := validTransitions
  invalid entityId source target := .valueError
    (s!"Invalid anchor transition for '{entityId}': " ++ source.value ++ " -> " ++ target.value)

namespace Tracker

def markPending [Zero T] (now : T) (entityId : String) (anchorDigest : Bytes) (chainId : ℤ) :
    Method (Tracker T) Unit := do
  let length := anchorDigest.length
  if length≠32 then
    throw (.valueError s!"anchor_digest must be exactly 32 bytes, got {length}")
  else
    modify (·.set entityId ⟨entityId,anchorDigest,.pending,"",0,0,now,0,"",0,chainId⟩)

def markSubmitted (entityId txHash : String) : Method (Tracker T) Unit :=
  discard (lifecycle.move entityId .submitted fun record => {record with txHash := txHash})

def markConfirmed (now : T) (entityId : String) (blockNumber gasUsed : ℤ) :
    Method (Tracker T) Unit :=
  discard (lifecycle.move entityId .confirmed fun record => {record with
    blockNumber := blockNumber
    gasUsed := gasUsed
    confirmedAt := now})

def markFinalized (entityId : String) : Method (Tracker T) Unit :=
  discard (lifecycle.transition entityId .finalized)

def markFailed (entityId error : String) : Method (Tracker T) Unit :=
  discard (lifecycle.move entityId .failed fun record => {record with error := error})

def incrementRetry (entityId : String) : Method (Tracker T) ℕ := do
  match (← get).get? entityId with
  | none => throw .keyError
  | some record => do
    modify (·.set entityId {record with retryCount := record.retryCount+1})
    return record.retryCount+1

def getByStatus (tracker : Tracker T) (status : AnchorStatus) : List (AnchorRecord T) :=
  tracker.values.filter fun record => record.status=status

end Tracker

end LatticeTransfer.Anchoring
