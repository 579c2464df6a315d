import LatticeTransfer.SignedEnvelope

/-!
# Which signers may act, and in which order

`SignerPolicy.is_signer_authorized` and the `SequenceTracker`, which accepts the sequence
numbers of one signer only in increasing order, for its own chain and before they expire.
A clock reading is a rational number of seconds.
-/

namespace LatticeTransfer
open MerkleTree

structure SignerEntry where
  vk : Bytes
  roles : Finset String
  validFrom : ℤ
  validUntil : ℤ

structure ApprovalRule where
  actionType : String
  requiredRoles : Finset String

structure SignerPolicy where
  signers : List SignerEntry
  approvalRules : List ApprovalRule

def SignerPolicy.isSignerAuthorized (policy : SignerPolicy) (vk : Bytes) (action : String)
    (epoch : ℤ) : Bool :=
  match policy.signers.find? fun s => s.vk=vk with
  | none => false
  | some entry =>
    if ¬(entry.validFrom≤epoch ∧ epoch<entry.validUntil) then false
    else
      match policy.approvalRules.find? fun r => r.actionType=action with
      | none => false
      | some rule => decide (entry.roles ∩ rule.requiredRoles≠∅)

structure SequenceTracker where
  chainId : String
  hwm : Dict Bytes ℤ

namespace SequenceTracker

inductive Rejection
  | chainMismatch (expected got : String)
  | expired
  | replay (sequence current : ℤ)

def Rejection.reason : Rejection → String
  | .chainMismatch expected got => s!"chain mismatch: expected {expected}, got {got}"
  | .expired => "expired"
  | .replay sequence current => s!"replay: sequence {sequence} <= current {current}"

variable (H : CanonicalHash)

def currentSequence (tracker : SequenceTracker) (signerVk : Bytes) : ℤ :=
  (tracker.hwm.get? (signerFingerprint H signerVk)).getD (-1)

def validateAndAdvance (tracker : SequenceTracker) (signerVk : Bytes) (sequence : ℤ)
    (targetChainId : String) (validUntil now : ℚ) : Except Rejection SequenceTracker :=
  if targetChainId≠tracker.chainId then .error (.chainMismatch tracker.chainId targetChainId)
  else if validUntil≤now then .error .expired
  else
    let current := tracker.currentSequence H signerVk
    if sequence≤current then .error (.replay sequence current)
    else .ok {tracker with hwm := tracker.hwm.set (signerFingerprint H signerVk) sequence}

end SequenceTracker
end LatticeTransfer
