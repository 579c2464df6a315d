import LatticeTransfer.CallTree
import Mathlib.Algebra.BigOperators.Group.Finset.Piecewise
import Mathlib.Algebra.Order.BigOperators.Group.Finset
import Mathlib.Data.FinEnum
import Mathlib.Tactic.Linarith

/-!
# The challenge windows of the optimistic bridge

`OptimisticBridgeChallenge`: an operator opens a window with a bond, a challenger may add
one, and the window ends in a payment of the bonds. Six functions pay; all of them set the
status of the window and the guard before they send, so the receiver finds a window that
is closed and a guard that is up.
-/

namespace LatticeTransfer.BridgeChallenge
open Solidity CallTree Program Function

def notEntered : Uint256 := 1
def entered : Uint256 := 2

def statusNone : Uint8 := 0
def statusOpen : Uint8 := 1
def statusChallenged : Uint8 := 2
def statusResolved : Uint8 := 3
def statusFinalized : Uint8 := 4
def statusExpired : Uint8 := 5

structure Challenge where
  anchorDigest : Bytes32
  opener : Address
  challenger : Address
  fraudProofHash : Bytes32
  fraudProofType : Uint8
  openedAt : Uint64
  deadline : Uint64
  status : Uint8
  operatorBond : Uint256
  challengerBond : Uint256
deriving DecidableEq

structure Storage where
  reentrancyStatus : Uint256
  challenges : Bytes32 → Challenge
  admin : Address
  challengePeriod : Uint256
  minOperatorBond : Uint256
  minChallengerBond : Uint256
  arbiter : Address
  resolutionGracePeriod : Uint256
  zkVerifier : Address

inductive Error
  | unauthorized
  | windowAlreadyExists
  | windowNotOpen
  | windowNotChallenged
  | windowNotExpired
  | insufficientBond (required provided : Uint256)
  | challengeDeadlinePassed
  | zeroDigest
  | resolutionGraceNotElapsed (readyAt currentTime : Uint64)
  | invalidArbiter
  | gracePeriodBelowFloor (provided floor : Uint256)
deriving DecidableEq

inductive Message
  | openWindow (anchorDigest : Bytes32)
  | submitChallenge (anchorDigest : Bytes32) (proofType : Uint8) (proofHash : Bytes32)
  | resolveChallenge (anchorDigest : Bytes32) (fraudValid : Bool)
  | finalizeWindow (anchorDigest : Bytes32)
  | setChallengePeriod (newPeriod : Uint256)
  | setMinOperatorBond (newMin : Uint256)
  | setMinChallengerBond (newMin : Uint256)
  | transferAdmin (newAdmin : Address)
  | setArbiter (arbiter : Address)
  | setResolutionGracePeriod (newSeconds : Uint256)
  | resolveChallengeByArbiter (anchorDigest : Bytes32) (fraudValid : Bool)
  | resolveByTimeDecay (anchorDigest : Bytes32)
  | setZKVerifier (zkVerifier : Address)
  | finalizeWithZKProof (anchorDigest : Bytes32)
  | finalizeWithFraudProof (anchorDigest : Bytes32)

def Message.anchorDigest : Message → Option Bytes32
  | .openWindow digest | .submitChallenge digest _ _ | .resolveChallenge digest _
  | .finalizeWindow digest | .resolveChallengeByArbiter digest _ | .resolveByTimeDecay digest
  | .finalizeWithZKProof digest | .finalizeWithFraudProof digest => some digest
  | _ => none

def noChallenge : Challenge := ⟨0,0,0,0,0,0,0,0,0,0⟩

def fourteenDays : Uint256 := 1209600
def twentyFourHours : Uint256 := 86400

def initialStorage (admin : Address) (challengePeriod minOperatorBond minChallengerBond : Uint256) :
    Storage where
  reentrancyStatus := notEntered
  challenges _ := noChallenge
  admin := admin
  challengePeriod := challengePeriod
  minOperatorBond := minOperatorBond
  minChallengerBond := minChallengerBond
  arbiter := 0
  resolutionGracePeriod := fourteenDays
  zkVerifier := 0

abbrev Body := Program Error Storage Message

namespace Storage
variable (s : Storage) (env : Env)

def onlyAdmin : Result Error Unit := revertIf (env.sender≠s.admin) .unauthorized

def nonReentrant : Result Error Storage := do
  require (s.reentrancyStatus≠entered) "ReentrancyGuard: reentrant call"
  return {s with reentrancyStatus := entered}

def leave : Storage := {s with reentrancyStatus := notEntered}

def setChallenge (anchorDigest : Bytes32) (c : Challenge) : Storage :=
  {s with challenges := Function.update s.challenges anchorDigest c}

def setStatus (anchorDigest : Bytes32) (status : Uint8) : Storage :=
  s.setChallenge anchorDigest {s.challenges anchorDigest with status := status}

theorem setStatus_self (anchorDigest : Bytes32) (status : Uint8) :
    (s.setStatus anchorDigest status).challenges anchorDigest =
      {s.challenges anchorDigest with status := status} :=
  update_self _ _ _

def openWindow (anchorDigest : Bytes32) : Result Error Storage := do
  revertIf (anchorDigest=0) .zeroDigest
  revertIf ((s.challenges anchorDigest).status≠statusNone) .windowAlreadyExists
  revertIf (env.value<s.minOperatorBond) (.insufficientBond s.minOperatorBond env.value)
  let deadline ← checkedAdd (uint64 env.timestamp) (uint64 s.challengePeriod)
  return s.setChallenge anchorDigest {
    anchorDigest := anchorDigest
    opener := env.sender
    challenger := 0
    fraudProofHash := 0
    fraudProofType := 0
    openedAt := uint64 env.timestamp
    deadline := deadline
    status := statusOpen
    operatorBond := env.value
    challengerBond := 0}

def submitChallenge (anchorDigest : Bytes32) (proofType : Uint8) (proofHash : Bytes32) :
    Result Error Storage := do
  let c := s.challenges anchorDigest
  revertIf (c.status≠statusOpen) .windowNotOpen
  revertIf (c.deadline.toNat<env.timestamp.toNat) .challengeDeadlinePassed
  revertIf (env.value<s.minChallengerBond) (.insufficientBond s.minChallengerBond env.value)
  return s.setChallenge anchorDigest {c with
    status := statusChallenged
    challenger := env.sender
    fraudProofHash := proofHash
    fraudProofType := proofType
    challengerBond := env.value}

def payOut (receiver : Address) (amount : Uint256) (text : String) : Body :=
  .send s receiver amount none fun success s =>
    .check (require (success=true) text) fun _ => .done s.leave

def payOutPositive (receiver : Address) (amount : Uint256) (text : String) : Body :=
  if 0<amount then s.payOut receiver amount text else .done s.leave

/-- The part that the four functions which resolve a challenge share: `ready` is what they
check of the window besides its status, `pay` sends the sum of the bonds. -/
def resolve (anchorDigest : Bytes32) (ready : Challenge → Result Error Unit)
    (pay : Storage → Uint256 → Body) : Body :=
  let c := s.challenges anchorDigest
  .check (do
    revertIf (c.status≠statusChallenged) .windowNotChallenged
    ready c
    checkedAdd c.operatorBond c.challengerBond) fun totalBonds =>
  pay (s.setStatus anchorDigest statusResolved) totalBonds

def resolveChallenge (anchorDigest : Bytes32) (fraudValid : Bool) : Body :=
  .check (do
    nonpayable env
    s.onlyAdmin env
    s.nonReentrant) fun s =>
  s.resolve anchorDigest (fun _ => .ok ()) fun s totalBonds =>
  let c := s.challenges anchorDigest
  if fraudValid then s.payOut c.challenger totalBonds "Transfer to challenger failed"
  else s.payOut c.opener totalBonds "Transfer to opener failed"

def finalizeWindow (anchorDigest : Bytes32) : Body :=
  .check (do
    nonpayable env
    let s ← s.nonReentrant
    let c := s.challenges anchorDigest
    revertIf (c.status≠statusOpen) .windowNotOpen
    revertIf (env.timestamp.toNat≤c.deadline.toNat) .windowNotExpired
    return s.setStatus anchorDigest statusFinalized) fun s =>
  let c := s.challenges anchorDigest
  s.payOut c.opener c.operatorBond "Transfer to opener failed"

def resolveChallengeByArbiter (anchorDigest : Bytes32) (fraudValid : Bool) : Body :=
  .check (do
    nonpayable env
    let s ← s.nonReentrant
    revertIf (env.sender≠s.arbiter ∨ s.arbiter=0) .unauthorized
    return s) fun s =>
  s.resolve anchorDigest (fun _ => .ok ()) fun s totalBonds =>
  let c := s.challenges anchorDigest
  s.payOutPositive (if fraudValid then c.challenger else c.opener) totalBonds "Transfer failed"

def resolveByTimeDecay (anchorDigest : Bytes32) : Body :=
  .check (do
    nonpayable env
    s.nonReentrant) fun s =>
  s.resolve anchorDigest
    (fun c => do
      let readyAt ← checkedAdd c.openedAt (uint64 s.resolutionGracePeriod)
      revertIf (env.timestamp.toNat<readyAt.toNat)
        (.resolutionGraceNotElapsed readyAt (uint64 env.timestamp)))
    fun s totalBonds =>
  s.payOutPositive (s.challenges anchorDigest).challenger totalBonds "Transfer failed"

def returnChallengerBond (anchorDigest : Bytes32) : Body :=
  let c := s.challenges anchorDigest
  s.payOutPositive c.challenger c.challengerBond "Transfer to challenger failed"

def finalizeWithZKProof (anchorDigest : Bytes32) : Body :=
  .check (do
    nonpayable env
    let s ← s.nonReentrant
    revertIf (env.sender≠s.admin ∧ env.sender≠s.zkVerifier) .unauthorized
    let c := s.challenges anchorDigest
    revertIf (c.status≠statusOpen ∧ c.status≠statusChallenged) .windowNotOpen
    return s.setStatus anchorDigest statusFinalized) fun s =>
  let c := s.challenges anchorDigest
  if 0<c.operatorBond then
    .send s c.opener c.operatorBond none fun success s =>
      .check (require (success=true) "Transfer to opener failed") fun _ =>
        s.returnChallengerBond anchorDigest
  else s.returnChallengerBond anchorDigest

def finalizeWithFraudProof (anchorDigest : Bytes32) : Body :=
  .check (do
    nonpayable env
    let s ← s.nonReentrant
    revertIf (env.sender≠s.zkVerifier) .unauthorized
    return s) fun s =>
  s.resolve anchorDigest (fun _ => .ok ()) fun s totalBonds =>
  s.payOutPositive (s.challenges anchorDigest).challenger totalBonds
    "Transfer to challenger failed"

def configure (check : Result Error Unit) (set : Storage → Storage) : Result Error Storage := do
  nonpayable env
  s.onlyAdmin env
  check
  return set s

def setChallengePeriod (newPeriod : Uint256) : Result Error Storage :=
  s.configure env (.ok ()) fun s => {s with challengePeriod := newPeriod}

def setMinOperatorBond (newMin : Uint256) : Result Error Storage :=
  s.configure env (.ok ()) fun s => {s with minOperatorBond := newMin}

def setMinChallengerBond (newMin : Uint256) : Result Error Storage :=
  s.configure env (.ok ()) fun s => {s with minChallengerBond := newMin}

def transferAdmin (newAdmin : Address) : Result Error Storage :=
  s.configure env (.ok ()) fun s => {s with admin := newAdmin}

def setArbiter (arbiter : Address) : Result Error Storage :=
  s.configure env (revertIf (arbiter=s.admin) .invalidArbiter)
    fun s => {s with arbiter := arbiter}

def setResolutionGracePeriod (newSeconds : Uint256) : Result Error Storage :=
  s.configure env
    (revertIf (newSeconds<twentyFourHours) (.gracePeriodBelowFloor newSeconds twentyFourHours))
    fun s => {s with resolutionGracePeriod := newSeconds}

def setZKVerifier (zkVerifier : Address) : Result Error Storage :=
  s.configure env (.ok ()) fun s => {s with zkVerifier := zkVerifier}

def dispatch : Message → Body
  | .openWindow digest => .check (s.openWindow env digest) .done
  | .submitChallenge digest proofType proofHash =>
    .check (s.submitChallenge env digest proofType proofHash) .done
  | .resolveChallenge digest fraudValid => s.resolveChallenge env digest fraudValid
  | .finalizeWindow digest => s.finalizeWindow env digest
  | .setChallengePeriod newPeriod => .check (s.setChallengePeriod env newPeriod) .done
  | .setMinOperatorBond newMin => .check (s.setMinOperatorBond env newMin) .done
  | .setMinChallengerBond newMin => .check (s.setMinChallengerBond env newMin) .done
  | .transferAdmin newAdmin => .check (s.transferAdmin env newAdmin) .done
  | .setArbiter arbiter => .check (s.setArbiter env arbiter) .done
  | .setResolutionGracePeriod newSeconds =>
    .check (s.setResolutionGracePeriod env newSeconds) .done
  | .resolveChallengeByArbiter digest fraudValid =>
    s.resolveChallengeByArbiter env digest fraudValid
  | .resolveByTimeDecay digest => s.resolveByTimeDecay env digest
  | .setZKVerifier zkVerifier => .check (s.setZKVerifier env zkVerifier) .done
  | .finalizeWithZKProof digest => s.finalizeWithZKProof env digest
  | .finalizeWithFraudProof digest => s.finalizeWithFraudProof env digest

end Storage

def contract (this : Address) : Contract Error Storage Message where
  this := this
  call := Storage.dispatch

section

def Live (c : Challenge) : Prop := c.status=statusOpen ∨ c.status=statusChallenged

def Terminal (c : Challenge) : Prop :=
  c.status=statusResolved ∨ c.status=statusFinalized ∨ c.status=statusExpired

instance (c : Challenge) : Decidable (Live c) := by unfold Live; infer_instance
instance (c : Challenge) : Decidable (Terminal c) := by unfold Terminal; infer_instance

variable {c : Challenge}

theorem Terminal.not_live (h : Terminal c) : ¬Live c := by
  unfold Terminal Live at *
  rcases h with h|h|h <;> rw [h] <;> decide

theorem Terminal.status_ne (h : Terminal c) : c.status≠statusNone ∧ c.status≠statusOpen := by
  unfold Terminal at h
  rcases h with h|h|h <;> rw [h] <;> decide

def bonds (c : Challenge) : ℕ := c.operatorBond.toNat+c.challengerBond.toNat

def owed (c : Challenge) : ℕ := if Live c then bonds c else 0

theorem owed_of_live (h : Live c) : owed c=bonds c := if_pos h

theorem owed_of_terminal (h : Terminal c) : owed c=0 := if_neg h.not_live

def liabilities (s : Storage) : ℕ := ∑ digest, owed (s.challenges digest)

theorem liabilities_congr {s s' : Storage} (h : s'.challenges=s.challenges) :
    liabilities s'=liabilities s := by rw [liabilities,liabilities,h]

theorem liabilities_setChallenge (s : Storage) (digest : Bytes32) (c : Challenge) :
    liabilities (s.setChallenge digest c)+owed (s.challenges digest) = liabilities s+owed c := by
  have hu : (fun d => owed ((s.setChallenge digest c).challenges d)) =
      update (fun d => owed (s.challenges d)) digest (owed c) := by
    funext d
    exact apply_update (fun _ => owed) s.challenges digest c d
  have hm : digest ∈ (Finset.univ : Finset Bytes32) := Finset.mem_univ _
  have hr := Finset.sum_erase_add Finset.univ (fun d => owed (s.challenges d)) hm
  rw [liabilities,liabilities,hu,Finset.sum_update_of_mem hm,Finset.sdiff_singleton_eq_erase]
  omega

abbrev Bridge := World Storage Message

def slack (w : Bridge) : ℤ := w.balance-liabilities w.storage

def received (w : Bridge) (digest : Bytes32) : ℕ := w.receivedBy Message.anchorDigest digest

def paid (w : Bridge) (digest : Bytes32) : ℕ := w.paidBy Message.anchorDigest digest

def Settled (w : Bridge) (digest : Bytes32) : Prop :=
  paid w digest=if Terminal (w.storage.challenges digest) then received w digest else 0

end

structure WellFormed (this : Address) (c : Challenge) : Prop where
  unopened : c.status=statusNone → bonds c=0
  unchallenged : c.status=statusOpen → c.challengerBond=0
  opener_ne : Live c → c.opener≠this
  challenger_ne : c.status=statusChallenged → c.challenger≠this

theorem Terminal.wellFormed {this : Address} {c : Challenge} (h : Terminal c) :
    WellFormed this c where
  unopened hn := absurd hn h.status_ne.1
  unchallenged ho := absurd ho h.status_ne.2
  opener_ne hl := absurd hl h.not_live
  challenger_ne hc := absurd (.inr hc) h.not_live

structure Sound (this : Address) (w : Bridge) : Prop where
  recorded : ∀ d, received w d=bonds (w.storage.challenges d)
  windows : ∀ d, WellFormed this (w.storage.challenges d)
  bounded : ∀ d, paid w d≤received w d
  settled : w.storage.reentrancyStatus≠entered → ∀ d, Settled w d

structure Advances (w w' : Bridge) : Prop where
  slack_le : slack w ≤ slack w'
  kept : ∀ d, Terminal (w.storage.challenges d) → w'.storage.challenges d=w.storage.challenges d

theorem Advances.trans {w w' w'' : Bridge} (h : Advances w w') (h' : Advances w' w'') :
    Advances w w'' where
  slack_le := h.slack_le.trans h'.slack_le
  kept d hd := by
    have hw' := h.kept d hd
    rw [← hw']
    exact h'.kept d (hw' ▸ hd)

/-- What a call leaves behind: while the guard is up nothing is paid and no window closes. -/
structure Leaves (w w' : Bridge) : Prop extends Advances w w' where
  guard : w'.storage.reentrancyStatus=entered ↔ w.storage.reentrancyStatus=entered
  sent : w.storage.reentrancyStatus=entered → w'.sent=w.sent
  closed : w.storage.reentrancyStatus=entered →
    ∀ d, Terminal (w'.storage.challenges d) → Terminal (w.storage.challenges d)

def guarantee (this : Address) : Guarantee Storage Message where
  Self _ := False
  Inv := Sound this
  Ends := Leaves
  Shows := Advances
  ends_refl _ := ⟨⟨le_rfl,fun _ _ => rfl⟩,Iff.rfl,fun _ => rfl,fun _ _ h => h⟩
  ends_trans h h' := ⟨h.toAdvances.trans h'.toAdvances,h'.guard.trans h.guard,
    fun he => (h'.sent (h.guard.mpr he)).trans (h.sent he),
    fun he d hd => h.closed he d (h'.closed (h.guard.mpr he) d hd)⟩
  shows_trans := Advances.trans
  shows_of_ends := Leaves.toAdvances

section
variable {this : Address} {w : Bridge} {m : Message} {env : Env} {d : Bytes32}

theorem received_receive (w : Bridge) (message : Message) (value : Uint256) (d : Bytes32) :
    received (w.receive message value) d =
      received w d+if message.anchorDigest=some d then value.toNat else 0 :=
  World.receivedBy_receive _ d w message value

theorem received_receive_zero (w : Bridge) (message : Message) (d : Bytes32) :
    received (w.receive message 0) d=received w d := by
  rw [received_receive]
  simp

variable {w w' : Bridge}

theorem paid_of_sent (h : w'.sent=w.sent) (d : Bytes32) : paid w' d=paid w d := by
  rw [paid,paid,World.paidBy,World.paidBy,h]

structure SameWindows (w w' : Bridge) : Prop where
  challenges : w'.storage.challenges=w.storage.challenges
  guard : w'.storage.reentrancyStatus=w.storage.reentrancyStatus
  received : ∀ d, received w' d=received w d
  sent : w'.sent=w.sent
  balance : w.balance≤w'.balance

theorem SameWindows.sound (h : SameWindows w w') (hw : Sound this w) : Sound this w' where
  recorded d := by rw [h.received,h.challenges]; exact hw.recorded d
  windows := by rw [h.challenges]; exact hw.windows
  bounded d := by rw [h.received,paid_of_sent h.sent]; exact hw.bounded d
  settled := by
    rw [h.guard]
    intro hi d
    rw [Settled,h.received,paid_of_sent h.sent,h.challenges]
    exact hw.settled hi d

theorem SameWindows.leaves (h : SameWindows w w') : Leaves w w' where
  slack_le := by
    have hb : (w.balance : ℤ)≤w'.balance := by exact_mod_cast h.balance
    rw [slack,slack,liabilities_congr h.challenges]
    linarith
  kept d _ := by rw [h.challenges]
  guard := by rw [h.guard]
  sent _ := h.sent
  closed _ d := by rw [h.challenges]; exact id

theorem meets_configure {check : Result Error Unit} {set : Storage → Storage} (hw : Sound this w)
    (hc : ∀ s, (set s).challenges=s.challenges)
    (hg : ∀ s, (set s).reentrancyStatus=s.reentrancyStatus) :
    (Program.check (w.storage.configure env check set) .done : Body).Meets (guarantee this) m
      w (w.receive m env.value) := by
  rw [meets_check]
  intro s' hs'
  simp only [Storage.configure,bind_eq_ok,pure_eq_ok] at hs'
  obtain ⟨_,hv,_,_,_,_,rfl⟩ := hs'
  have hs : SameWindows w {w.receive m env.value with storage := set w.storage} := by
    rw [nonpayable_eq_ok.mp hv]
    exact ⟨hc _,hg _,received_receive_zero w m,rfl,Nat.le_add_right _ _⟩
  exact ⟨hs.sound hw,hs.leaves⟩

theorem sound_fund {c : Challenge} {value : Uint256} (hw : Sound this w)
    (hm : m.anchorDigest=some d) (hop : ¬Terminal (w.storage.challenges d))
    (hli : Live c) (hc : WellFormed this c)
    (hb : bonds c=bonds (w.storage.challenges d)+value.toNat)
    (how : owed (w.storage.challenges d)=bonds (w.storage.challenges d)) :
    let w' : Bridge := {w.receive m value with storage := w.storage.setChallenge d c}
    Sound this w' ∧ Leaves w w' := by
  intro w'
  have hr : ∀ d', received w' d'=received w d'+if d'=d then value.toNat else 0 := by
    intro d'
    refine (received_receive w m value d').trans ?_
    rw [hm]
    simp [eq_comm]
  have hse : w'.storage.challenges d=c := update_self _ _ _
  have ho : ∀ d', d'≠d → w'.storage.challenges d'=w.storage.challenges d' :=
    fun d' hne => update_of_ne hne _ _
  have hcl : ∀ d', Terminal (w'.storage.challenges d') → d'≠d ∧
      Terminal (w.storage.challenges d') := by
    intro d' hd'
    rcases eq_or_ne d' d with rfl|hne
    · exact absurd hli (hse ▸ hd').not_live
    · exact ⟨hne,ho d' hne ▸ hd'⟩
  refine ⟨⟨fun d' => ?_,fun d' => ?_,fun d' => ?_,fun hi d' => ?_⟩,
    ⟨⟨?_,fun d' hd' => ?_⟩,.rfl,fun _ => rfl,fun _ d' hd' => (hcl d' hd').2⟩⟩
  · rw [hr]
    rcases eq_or_ne d' d with rfl|hne
    · rw [hse,if_pos rfl,hb,hw.recorded]
    · rw [ho d' hne,if_neg hne]
      exact hw.recorded d'
  · rcases eq_or_ne d' d with rfl|hne
    · rw [hse]
      exact hc
    · rw [ho d' hne]
      exact hw.windows d'
  · rw [hr]
    exact (hw.bounded d').trans (Nat.le_add_right _ _)
  · have hs := hw.settled hi d'
    rw [Settled] at hs ⊢
    rcases eq_or_ne d' d with rfl|hne
    · rw [hse,if_neg fun h => h.not_live hli]
      rw [if_neg hop] at hs
      exact hs
    · rw [hr,if_neg hne,ho d' hne]
      exact hs
  · have hl := liabilities_setChallenge w.storage d c
    rw [owed_of_live hli] at hl
    change (w.balance : ℤ)-liabilities w.storage ≤
      ((w.balance+value.toNat : ℕ) : ℤ)-liabilities (w.storage.setChallenge d c)
    omega
  · have hne : d'≠d := fun h => hop (h ▸ hd')
    exact ho d' hne

abbrev Serves (this : Address) (w : Bridge) (env : Env) (m : Message) : Prop :=
  (w.storage.dispatch env m).Meets (guarantee this) m w (w.receive m env.value)

theorem serves_openWindow (hw : Sound this w) (hs : env.sender≠this) :
    Serves this w env (.openWindow d) := by
  refine meets_check.mpr fun s' hs' => ?_
  simp only [Storage.openWindow,bind_eq_ok,revertIf_eq_ok,not_not,pure_eq_ok] at hs'
  obtain ⟨_,_,_,hnon,_,_,deadline,_,rfl⟩ := hs'
  have ho : ¬Terminal (w.storage.challenges d) := by
    rw [Terminal,hnon]
    decide
  have hu : owed (w.storage.challenges d)=0 := by
    refine if_neg ?_
    rw [Live,hnon]
    decide
  have hb := (hw.windows d).unopened hnon
  have hn : statusOpen≠statusNone := by decide
  have hno : statusOpen≠statusChallenged := by decide
  refine sound_fund hw rfl ho (.inl rfl) ⟨fun h => absurd h hn,fun _ => rfl,
    fun _ => hs,fun h => absurd h hno⟩ ?_ (hu.trans hb.symm)
  rw [hb]
  exact Nat.add_comm _ _

theorem serves_submitChallenge {proofType : Uint8} {proofHash : Bytes32} (hw : Sound this w)
    (hs : env.sender≠this) : Serves this w env (.submitChallenge d proofType proofHash) := by
  refine meets_check.mpr fun s' hs' => ?_
  simp only [Storage.submitChallenge,bind_eq_ok,revertIf_eq_ok,not_not,pure_eq_ok] at hs'
  obtain ⟨_,hst,_,_,_,_,rfl⟩ := hs'
  have hop : ¬Terminal (w.storage.challenges d) := by
    rw [Terminal,hst]
    decide
  have hb : bonds (w.storage.challenges d)=(w.storage.challenges d).operatorBond.toNat := by
    rw [bonds,(hw.windows d).unchallenged hst]
    rfl
  have hn : statusChallenged≠statusNone := by decide
  have hno : statusChallenged≠statusOpen := by decide
  have ho := (hw.windows d).opener_ne (.inl hst)
  refine sound_fund hw rfl hop (.inr rfl) ⟨fun h => absurd h hn,
    fun h => absurd h hno,fun _ => ho,fun _ => hs⟩ ?_
    (owed_of_live (.inl hst))
  rw [hb]
  rfl

end

section
variable {this : Address} {start w : Bridge} {msg : Message} {d : Bytes32}

/-- The window is closed and the guard is up; `amount` is still to be paid for the window. -/
structure Paying (this : Address) (start : Bridge) (d : Bytes32) (amount : ℕ) (w : Bridge) :
    Prop where
  idle : start.storage.reentrancyStatus≠entered
  sound : Sound this w
  entered_eq : w.storage.reentrancyStatus=entered
  slack_le : slack start+amount ≤ slack w
  kept : ∀ d', Terminal (start.storage.challenges d') →
    w.storage.challenges d'=start.storage.challenges d'
  terminal : Terminal (w.storage.challenges d)
  due : paid w d+amount=received w d
  others : ∀ d', d'≠d → Settled w d'

theorem Paying.begin (message : Message) {status : Uint8} (hw : Sound this w)
    (hi : w.storage.reentrancyStatus≠entered) (hli : Live (w.storage.challenges d))
    (hs : Terminal {w.storage.challenges d with status := status}) :
    Paying this w d (bonds (w.storage.challenges d)) {w.receive message 0 with
      storage := {w.storage with reentrancyStatus := entered}.setStatus d status} := by
  set w' : Bridge := {w.receive message 0 with
    storage := {w.storage with reentrancyStatus := entered}.setStatus d status} with hw'
  have hsel : w'.storage.challenges d={w.storage.challenges d with status := status} :=
    update_self _ _ _
  have ho : ∀ d', d'≠d → w'.storage.challenges d'=w.storage.challenges d' :=
    fun d' hne => update_of_ne hne _ _
  have hr : ∀ d', received w' d'=received w d' := received_receive_zero w message
  have hop : ¬Terminal (w.storage.challenges d) := fun h => h.not_live hli
  have ht : Terminal (w'.storage.challenges d) := hsel ▸ hs
  have hb : ∀ d', bonds (w'.storage.challenges d')=bonds (w.storage.challenges d') := by
    intro d'
    rcases eq_or_ne d' d with rfl|hne
    · rw [hsel]
      rfl
    · rw [ho d' hne]
  refine ⟨hi,⟨fun d' => ?_,fun d' => ?_,fun d' => ?_,?_⟩,rfl,?_,
    fun d' hd' => ?_,ht,?_,fun d' hne => ?_⟩
  · rw [hr,hb]
    exact hw.recorded d'
  · rcases eq_or_ne d' d with rfl|hne
    · exact ht.wellFormed
    · rw [ho d' hne]
      exact hw.windows d'
  · rw [hr]
    exact hw.bounded d'
  · exact fun h => absurd rfl h
  · have hl := liabilities_setChallenge {w.storage with reentrancyStatus := entered} d
      {w.storage.challenges d with status := status}
    have hsa : liabilities {w.storage with reentrancyStatus := entered} =
        liabilities w.storage := liabilities_congr rfl
    rw [owed_of_terminal hs,owed_of_live hli] at hl
    have hba : w'.balance=w.balance := rfl
    have hset : w'.storage=Storage.setChallenge {w.storage with reentrancyStatus := entered} d
      {w.storage.challenges d with status := status} := rfl
    rw [slack,slack,hset]
    omega
  · exact ho d' fun h => hop (h ▸ hd')
  · have hu := hw.settled hi d
    rw [Settled,if_neg hop] at hu
    rw [hr,hw.recorded,show paid w' d=0 from hu,Nat.zero_add]
  · have hse := hw.settled hi d'
    rw [Settled] at hse ⊢
    rw [hr,ho d' hne]
    exact hse

variable {amount : Uint256} {rcv : Address}

theorem Paying.pay (message : Message) {rest : ℕ} (h : Paying this start d (amount.toNat+rest) w)
    (hm : message.anchorDigest=some d) (hri : amount.toNat≤w.balance) :
    (Sound this (w.pay message rcv amount) ∧ Advances start (w.pay message rcv amount)) ∧
      ∀ w', Sound this w' → Leaves (w.pay message rcv amount) w' →
        w'.storage.challenges d=w.storage.challenges d ∧ Paying this start d rest w' := by
  set shown : Bridge := w.pay message rcv amount with hs
  have hp : ∀ d', paid shown d'=paid w d'+if d'=d then amount.toNat else 0 := by
    intro d'
    refine (World.paidBy_pay _ d' w message rcv amount).trans ?_
    rw [hm]
    simp only [Option.some.injEq,eq_comm]
    rfl
  have hd := h.due
  have hsl : slack start+rest ≤ slack shown := by
    have hle := h.slack_le
    rw [slack,slack] at hle ⊢
    change _ ≤ ((w.balance-amount.toNat : ℕ) : ℤ)-liabilities w.storage
    push_cast [Nat.cast_sub hri] at hle ⊢
    linarith
  have hso : Sound this shown := by
    refine ⟨h.sound.recorded,h.sound.windows,fun d' => ?_,
      fun hi => absurd h.entered_eq hi⟩
    rw [hp]
    split_ifs with hd'
    · rw [hd']
      change paid w d+amount.toNat≤received w d
      omega
    · exact h.sound.bounded d'
  refine ⟨⟨hso,⟨?_,h.kept⟩⟩,fun w' hw' hl => ?_⟩
  · linarith
  have hsen := hl.sent h.entered_eq
  have hsa : ∀ d', Terminal (w.storage.challenges d') →
      w'.storage.challenges d'=w.storage.challenges d' := hl.kept
  have hr : ∀ d', Terminal (w.storage.challenges d') → received w' d'=received w d' := by
    intro d' hd'
    rw [hw'.recorded,hsa d' hd',h.sound.recorded]
  refine ⟨hsa d h.terminal,h.idle,hw',hl.guard.mpr h.entered_eq,?_,fun d' hd' => ?_,
    ?_,?_,fun d' hne => ?_⟩
  · exact hsl.trans hl.slack_le
  · have hk := h.kept d' hd'
    rw [hsa d' (hk ▸ hd'),hk]
  · rw [hsa d h.terminal]
    exact h.terminal
  · rw [hr d h.terminal,paid_of_sent hsen,hp,if_pos rfl]
    omega
  · have hse := h.others d' hne
    rw [Settled] at hse ⊢
    rw [paid_of_sent hsen,hp,if_neg hne,Nat.add_zero,hse]
    by_cases hd' : Terminal (w.storage.challenges d')
    · rw [if_pos hd',hsa d' hd',if_pos hd',hr d' hd']
    · rw [if_neg hd',if_neg fun hd'' => hd' (hl.closed h.entered_eq d' hd'')]

theorem Paying.finish (h : Paying this start d 0 w) :
    Sound this {w with storage := w.storage.leave} ∧
      Leaves start {w with storage := w.storage.leave} := by
  have hd : w.storage.leave.reentrancyStatus≠entered := by
    change notEntered≠entered
    decide
  refine ⟨⟨h.sound.recorded,h.sound.windows,h.sound.bounded,fun _ d' => ?_⟩,
    ⟨⟨?_,h.kept⟩,?_,fun hup => absurd hup h.idle,fun hup => absurd hup h.idle⟩⟩
  · rcases eq_or_ne d' d with rfl|hne
    · exact h.due.trans (if_pos h.terminal).symm
    · exact h.others d' hne
  · have hle := h.slack_le
    rw [Nat.cast_zero,add_zero] at hle
    exact hle
  · exact iff_of_false hd h.idle

variable {s : Storage}

theorem meets_payOut {text : String} (hm : msg.anchorDigest=some d)
    (h : Paying this start d amount.toNat {w with storage := s}) :
    (s.payOut rcv amount text).Meets (guarantee this) msg start w := by
  refine ⟨meets_check.mpr fun _ hf => ?_,by simp,fun hr => ?_⟩
  · exact absurd (require_eq_ok.mp hf) Bool.false_ne_true
  · have hp : Paying this start d (amount.toNat+0) {w with storage := s} := h
    obtain ⟨hs,hn⟩ := hp.pay msg hm hr
    refine ⟨hs,fun w' hw' hl => meets_check.mpr fun _ _ => ?_⟩
    exact (hn w' hw' hl).2.finish

theorem eq_zero_of_not_pos (h : ¬0<amount) : amount.toNat=0 := by simpa [BitVec.lt_def] using h

theorem meets_payOutPositive {text : String} (hm : msg.anchorDigest=some d)
    (h : Paying this start d amount.toNat {w with storage := s}) :
    (s.payOutPositive rcv amount text).Meets (guarantee this) msg start w := by
  rw [Storage.payOutPositive]
  split_ifs with hp
  · exact meets_payOut hm h
  · rw [eq_zero_of_not_pos hp] at h
    exact h.finish

theorem nonReentrant_eq_ok {s' : Storage} : s.nonReentrant=.ok s' ↔
    s.reentrancyStatus≠entered ∧ {s with reentrancyStatus := entered}=s' := by
  simp only [Storage.nonReentrant,bind_eq_ok,require_eq_ok,pure_eq_ok,exists_const]

theorem meets_resolve {ready : Challenge → Result Error Unit} {pay : Storage → Uint256 → Body}
    (hw : Sound this w) (hi : w.storage.reentrancyStatus≠entered) (hp : ∀ s totalBonds,
      Paying this w d totalBonds.toNat {w.receive msg 0 with storage := s} →
      (pay s totalBonds).Meets (guarantee this) msg w (w.receive msg 0)) :
    (Storage.resolve {w.storage with reentrancyStatus := entered} d ready pay).Meets
      (guarantee this) msg w (w.receive msg 0) := by
  refine meets_check.mpr fun totalBonds h => hp _ _ ?_
  simp only [bind_eq_ok,revertIf_eq_ok,not_not,checkedAdd_eq_ok] at h
  obtain ⟨_,hs,_,_,ht⟩ := h
  rw [← ht]
  exact .begin msg hw hi (.inr hs) (.inl rfl)

end

section
variable {this : Address} {w : Bridge} {env : Env} {d : Bytes32} {valid : Bool}

section
variable (hw : Sound this w)
include hw

theorem serves_resolveChallenge : Serves this w env (.resolveChallenge d valid) := by
  refine meets_check.mpr fun s hs => ?_
  simp only [bind_eq_ok,nonpayable_eq_ok,nonReentrant_eq_ok] at hs
  obtain ⟨_,hv,_,_,hi,rfl⟩ := hs
  rw [hv]
  refine meets_resolve hw hi fun s totalBonds hp => ?_
  split_ifs
  · exact meets_payOut rfl hp
  · exact meets_payOut rfl hp

theorem serves_resolveChallengeByArbiter :
    Serves this w env (.resolveChallengeByArbiter d valid) := by
  refine meets_check.mpr fun s hs => ?_
  simp only [bind_eq_ok,nonpayable_eq_ok,nonReentrant_eq_ok,pure_eq_ok] at hs
  obtain ⟨_,hv,_,⟨hi,rfl⟩,_,_,rfl⟩ := hs
  rw [hv]
  exact meets_resolve hw hi fun s totalBonds hp => meets_payOutPositive rfl hp

theorem serves_resolveByTimeDecay : Serves this w env (.resolveByTimeDecay d) := by
  refine meets_check.mpr fun s hs => ?_
  simp only [bind_eq_ok,nonpayable_eq_ok,nonReentrant_eq_ok] at hs
  obtain ⟨_,hv,hi,rfl⟩ := hs
  rw [hv]
  exact meets_resolve hw hi fun s totalBonds hp => meets_payOutPositive rfl hp

theorem serves_finalizeWithFraudProof : Serves this w env (.finalizeWithFraudProof d) := by
  refine meets_check.mpr fun s hs => ?_
  simp only [bind_eq_ok,nonpayable_eq_ok,nonReentrant_eq_ok,pure_eq_ok] at hs
  obtain ⟨_,hv,_,⟨hi,rfl⟩,_,_,rfl⟩ := hs
  rw [hv]
  exact meets_resolve hw hi fun s totalBonds hp => meets_payOutPositive rfl hp

theorem serves_finalizeWindow : Serves this w env (.finalizeWindow d) := by
  refine meets_check.mpr fun s hs => ?_
  simp only [bind_eq_ok,nonpayable_eq_ok,nonReentrant_eq_ok,revertIf_eq_ok,not_not,pure_eq_ok] at hs
  obtain ⟨_,hv,_,⟨hi,rfl⟩,_,hst,_,_,rfl⟩ := hs
  rw [hv]
  have hb := Paying.begin (.finalizeWindow d) hw hi (.inl hst)
    (.inr (.inl rfl) : Terminal {w.storage.challenges d with status := statusFinalized})
  have hbo : bonds (w.storage.challenges d)=(w.storage.challenges d).operatorBond.toNat := by
    rw [bonds,(hw.windows d).unchallenged hst]
    rfl
  rw [hbo] at hb
  simp only [Storage.setStatus_self]
  exact meets_payOut rfl hb

theorem serves_finalizeWithZKProof : Serves this w env (.finalizeWithZKProof d) := by
  refine meets_check.mpr fun s hs => ?_
  simp only [bind_eq_ok,nonpayable_eq_ok,nonReentrant_eq_ok,revertIf_eq_ok,not_and_or,not_not,
    pure_eq_ok] at hs
  obtain ⟨_,hv,_,⟨hi,rfl⟩,_,_,_,hli,rfl⟩ := hs
  rw [hv]
  have hb := Paying.begin (.finalizeWithZKProof d) hw hi hli
    (.inr (.inl rfl) : Terminal {w.storage.challenges d with status := statusFinalized})
  rw [bonds] at hb
  dsimp only
  rw [Storage.setStatus_self]
  split_ifs with hpo
  · refine ⟨meets_check.mpr fun _ hf => ?_,by simp,fun hr => ?_⟩
    · exact absurd (require_eq_ok.mp hf) Bool.false_ne_true
    · obtain ⟨hsh,hn⟩ := hb.pay (.finalizeWithZKProof d) rfl hr
      refine ⟨hsh,fun w' hw' hl => meets_check.mpr fun _ _ => ?_⟩
      obtain ⟨hsa,hp⟩ := hn w' hw' hl
      refine meets_payOutPositive rfl ?_
      rw [hsa,Storage.setStatus_self]
      exact hp
  · rw [eq_zero_of_not_pos hpo,Nat.zero_add] at hb
    refine meets_payOutPositive rfl ?_
    rw [Storage.setStatus_self]
    exact hb

end

theorem contract_keeps (this : Address) : (contract this).Keeps (guarantee this) where
  deposit w amount hw := by
    have hsa : SameWindows w {w with balance := w.balance+amount} :=
      ⟨rfl,rfl,fun _ => rfl,rfl,Nat.le_add_right _ _⟩
    exact ⟨hsa.sound hw,hsa.leaves⟩
  call w env message hs hw := by
    cases message with
    | openWindow digest => exact serves_openWindow hw hs
    | submitChallenge digest proofType proofHash => exact serves_submitChallenge hw hs
    | resolveChallenge digest valid => exact serves_resolveChallenge hw
    | finalizeWindow digest => exact serves_finalizeWindow hw
    | resolveChallengeByArbiter digest valid => exact serves_resolveChallengeByArbiter hw
    | resolveByTimeDecay digest => exact serves_resolveByTimeDecay hw
    | finalizeWithZKProof digest => exact serves_finalizeWithZKProof hw
    | finalizeWithFraudProof digest => exact serves_finalizeWithFraudProof hw
    | setChallengePeriod _ | setMinOperatorBond _ | setMinChallengerBond _ | transferAdmin _
    | setArbiter _ | setResolutionGracePeriod _ | setZKVerifier _ =>
      exact meets_configure hw (fun _ => rfl) (fun _ => rfl)

end

section
variable {this : Address} {w : Bridge} {env : Env} {d : Bytes32}

theorem owed_le_liabilities (s : Storage) (d : Bytes32) : owed (s.challenges d)≤liabilities s :=
  Finset.single_le_sum (f := fun d => owed (s.challenges d)) (fun _ _ => Nat.zero_le _)
    (Finset.mem_univ d)

def Finalizes (s : Storage) (env : Env) (d : Bytes32) : Prop :=
  env.value=0 ∧ s.reentrancyStatus≠entered ∧
    (env.sender=s.admin ∨ env.sender=s.zkVerifier) ∧ Live (s.challenges d)

theorem returnChallengerBond_returns {message : Message} {t : Storage} {v : Bridge}
    (hr : (t.challenges d).challengerBond.toNat≤v.balance)
    (ho : 0<(t.challenges d).challengerBond → (t.challenges d).challenger≠this) :
    ((t.returnChallengerBond d).exec (contract this) env message
      (handlers (contract this) [.outside true []]) v).1.isSome=true := by
  simp only [Storage.returnChallengerBond,Storage.payOutPositive]
  split_ifs with hp
  · rw [Storage.payOut,exec_send_accepted hr (ho hp)]
    rfl
  · rfl

theorem finalizeWithZKProof_of_finalizes {s : Storage} (h : Finalizes s env d) :
    ∃ t : Storage, t.challenges d={s.challenges d with status := statusFinalized} ∧
      s.finalizeWithZKProof env d =
        if 0<(t.challenges d).operatorBond then
          .send t (t.challenges d).opener (t.challenges d).operatorBond none fun success t =>
            .check (require (success=true) "Transfer to opener failed") fun _ =>
              t.returnChallengerBond d
        else t.returnChallengerBond d := by
  obtain ⟨hv,hi,hs,hl⟩ := h
  refine ⟨.setStatus {s with reentrancyStatus := entered} d statusFinalized,
    Storage.setStatus_self _ _ _,check_of_ok ?_⟩
  simp only [bind_eq_ok,nonpayable_eq_ok,nonReentrant_eq_ok,revertIf_eq_ok,not_and_or,not_not]
  exact ⟨(),hv,_,⟨hi,rfl⟩,(),hs,(),hl,rfl⟩

theorem finalizeWithZKProof_returns_iff (hw : Sound this w)
    (hso : liabilities w.storage≤w.balance) :
    (∃ replies, (frame (contract this) env (.finalizeWithZKProof d)
      (handlers (contract this) replies) w).1.isSome=true) ↔ Finalizes w.storage env d := by
  constructor
  · rintro ⟨replies,h⟩
    obtain ⟨s,hs⟩ := exists_ok_of_exec_check h
    simp only [bind_eq_ok,nonpayable_eq_ok,nonReentrant_eq_ok,revertIf_eq_ok,not_and_or,
      not_not] at hs
    obtain ⟨_,hv,_,⟨hi,rfl⟩,_,hse,_,hl,-⟩ := hs
    exact ⟨hv,hi,hse,hl⟩
  · intro hf
    have hl := hf.2.2.2
    obtain ⟨t,ht,hca⟩ := finalizeWithZKProof_of_finalizes hf
    have hb : bonds (w.storage.challenges d)≤w.balance := by
      have ho := owed_le_liabilities w.storage d
      rw [owed_of_live hl] at ho
      exact ho.trans hso
    have hc : 0<(w.storage.challenges d).challengerBond →
        (w.storage.challenges d).challenger≠this := by
      intro hp
      refine (hw.windows d).challenger_ne (hl.resolve_left fun hop => ?_)
      rw [(hw.windows d).unchallenged hop] at hp
      exact absurd hp (by decide)
    rw [bonds] at hb
    by_cases hp : 0<(w.storage.challenges d).operatorBond
    · refine ⟨[.outside true [],.outside true []],?_⟩
      have hr : (w.storage.challenges d).operatorBond.toNat≤w.balance+env.value.toNat := by omega
      change ((w.storage.finalizeWithZKProof env d).exec _ _ _ _ _).1.isSome=true
      rw [hca,ht,if_pos hp,exec_send_accepted hr ((hw.windows d).opener_ne hl)]
      refine returnChallengerBond_returns ?_ (by rwa [ht])
      rw [ht]
      dsimp only [World.pay,World.receive]
      omega
    · refine ⟨[.outside true []],?_⟩
      change ((w.storage.finalizeWithZKProof env d).exec _ _ _ _ _).1.isSome=true
      rw [hca,ht,if_neg hp]
      refine returnChallengerBond_returns ?_ (by rwa [ht])
      rw [ht]
      dsimp only [World.receive]
      omega

end

section
variable {this : Address} {w start : Bridge} {env : Env} {d : Bytes32} {s : Storage}

theorem toNat_uint64 (x : Uint256) : (uint64 x).toNat=x.toNat % 2^64 :=
  BitVec.toNat_setWidth _ _

theorem openWindow_deadline_iff {s' : Storage} (h : s.openWindow env d=.ok s') :
    (s'.challenges d).deadline.toNat=(s'.challenges d).openedAt.toNat+s.challengePeriod.toNat ↔
      s.challengePeriod.toNat<2^64 := by
  simp only [Storage.openWindow,bind_eq_ok,pure_eq_ok,checkedAdd_eq_ok] at h
  obtain ⟨_,_,_,_,_,_,deadline,hs,rfl⟩ := h
  rw [toNat_uint64 s.challengePeriod] at hs
  simp only [Storage.setChallenge,update_self]
  omega

def readyAt (s : Storage) (d : Bytes32) : ℕ :=
  (s.challenges d).openedAt.toNat+s.resolutionGracePeriod.toNat % 2^64

/-- The window waits for its resolution, and neither sum of `resolveByTimeDecay` overflows. -/
def Waits (s : Storage) (d : Bytes32) : Prop :=
  s.reentrancyStatus≠entered ∧ (s.challenges d).status=statusChallenged ∧
    readyAt s d<2^64 ∧ bonds (s.challenges d)<2^256

theorem resolveByTimeDecay_returns_iff (hw : Sound this w) (hso : liabilities w.storage≤w.balance) :
    (∃ replies, (frame (contract this) env (.resolveByTimeDecay d)
      (handlers (contract this) replies) w).1.isSome=true) ↔
    Waits w.storage d ∧ env.value=0 ∧ readyAt w.storage d≤env.timestamp.toNat := by
  constructor
  · rintro ⟨replies,h⟩
    change ((w.storage.resolveByTimeDecay env d).exec _ _ _ _ _).1.isSome=true at h
    obtain ⟨s,hs⟩ := exists_ok_of_exec_check h
    rw [Storage.resolveByTimeDecay,check_of_ok hs] at h
    simp only [bind_eq_ok,nonpayable_eq_ok,nonReentrant_eq_ok] at hs
    obtain ⟨_,hv,hi,rfl⟩ := hs
    obtain ⟨total,hr⟩ := exists_ok_of_exec_check h
    simp only [bind_eq_ok,revertIf_eq_ok,checkedAdd_eq_ok,toNat_uint64,not_not] at hr
    obtain ⟨_,hc,_,⟨ready,hready,hle⟩,hb⟩ := hr
    have hl := ready.isLt
    exact ⟨⟨hi,hc,hready.trans_lt hl,hb.trans_lt total.isLt⟩,hv,by rw [readyAt]; omega⟩
  · rintro ⟨⟨hi,hc,hl,hb⟩,hv,hle⟩
    have hr : bonds (w.storage.challenges d)≤w.balance := by
      have ho := owed_le_liabilities w.storage d
      rw [owed_of_live (.inr hc)] at ho
      exact ho.trans hso
    have hsum : (BitVec.ofNat 256 (bonds (w.storage.challenges d))).toNat =
        bonds (w.storage.challenges d) :=
      (BitVec.toNat_ofNat _ _).trans (Nat.mod_eq_of_lt hb)
    have hready : (BitVec.ofNat 64 (readyAt w.storage d)).toNat=readyAt w.storage d :=
      (BitVec.toNat_ofNat _ _).trans (Nat.mod_eq_of_lt hl)
    refine ⟨[.outside true []],?_⟩
    change ((w.storage.resolveByTimeDecay env d).exec _ _ _ _ _).1.isSome=true
    rw [Storage.resolveByTimeDecay,check_of_ok (a := {w.storage with reentrancyStatus := entered})
        (by simp [bind_eq_ok,nonpayable_eq_ok,nonReentrant_eq_ok,hv,hi]),
      Storage.resolve,check_of_ok (a := BitVec.ofNat 256 (bonds (w.storage.challenges d))) ?_]
    · simp only [Storage.payOutPositive,Storage.setStatus_self]
      split_ifs
      · rw [Storage.payOut,exec_send_accepted _ ((hw.windows d).challenger_ne hc)]
        · rfl
        · rw [hsum]
          exact hr.trans (Nat.le_add_right _ _)
      · rfl
    · simp only [bind_eq_ok,revertIf_eq_ok,checkedAdd_eq_ok,toNat_uint64,not_not]
      exact ⟨(),hc,(),⟨_,hready.symm,by omega⟩,hsum.symm⟩

def Floored (w : Bridge) : Prop := twentyFourHours≤w.storage.resolutionGracePeriod

theorem floored_payOut {message : Message} {receiver : Address} {amount : Uint256} {text : String}
    (h : twentyFourHours ≤ s.resolutionGracePeriod) :
    (s.payOut receiver amount text).Meets (.ofInvariant Floored) message start w :=
  ⟨meets_check.mpr fun _ _ => ⟨h,trivial⟩,fun _ _ => trivial,
    fun _ => ⟨⟨h,trivial⟩,fun _ hw _ => meets_check.mpr fun _ _ => ⟨hw,trivial⟩⟩⟩

theorem floored_payOutPositive {message : Message} {receiver : Address} {amount : Uint256}
    {text : String} (h : twentyFourHours ≤ s.resolutionGracePeriod) :
    (s.payOutPositive receiver amount text).Meets (.ofInvariant Floored) message start w := by
  rw [Storage.payOutPositive]
  split_ifs
  · exact floored_payOut h
  · exact ⟨h,trivial⟩

theorem floored_configure {message : Message} {check : Result Error Unit} {set : Storage → Storage}
    (h : check=.ok () → twentyFourHours≤(set s).resolutionGracePeriod) :
    (Program.check (s.configure env check set) .done : Body).Meets (.ofInvariant Floored) message
      start w := by
  refine meets_check.mpr fun s' hs' => ⟨?_,trivial⟩
  simp only [Storage.configure,bind_eq_ok,pure_eq_ok] at hs'
  obtain ⟨_,_,_,_,_,hc,rfl⟩ := hs'
  exact h hc

theorem floored_keeps (this : Address) : (contract this).Keeps (.ofInvariant Floored) where
  deposit _ _ hw := ⟨hw,trivial⟩
  call w env message _ hw := by
    have hf : twentyFourHours≤w.storage.resolutionGracePeriod := hw
    cases message with
    | openWindow digest =>
      refine meets_check.mpr fun s hs => ⟨?_,trivial⟩
      simp only [Storage.openWindow,bind_eq_ok,pure_eq_ok] at hs
      obtain ⟨_,_,_,_,_,_,_,_,rfl⟩ := hs
      exact hw
    | submitChallenge digest proofType proofHash =>
      refine meets_check.mpr fun s hs => ⟨?_,trivial⟩
      simp only [Storage.submitChallenge,bind_eq_ok,pure_eq_ok] at hs
      obtain ⟨_,_,_,_,_,_,rfl⟩ := hs
      exact hw
    | resolveChallenge digest fraudValid =>
      refine meets_check.mpr fun s hs => meets_check.mpr fun _ _ => ?_
      simp only [bind_eq_ok,nonReentrant_eq_ok] at hs
      obtain ⟨_,_,_,_,_,rfl⟩ := hs
      split_ifs <;> exact floored_payOut hf
    | finalizeWindow digest =>
      refine meets_check.mpr fun s hs => ?_
      simp only [bind_eq_ok,nonReentrant_eq_ok,pure_eq_ok] at hs
      obtain ⟨_,_,_,⟨_,rfl⟩,_,_,_,_,rfl⟩ := hs
      exact floored_payOut hf
    | resolveChallengeByArbiter _ _ | finalizeWithFraudProof _ =>
      refine meets_check.mpr fun s hs => meets_check.mpr fun _ _ => ?_
      simp only [bind_eq_ok,nonReentrant_eq_ok,pure_eq_ok] at hs
      obtain ⟨_,_,_,⟨_,rfl⟩,_,_,rfl⟩ := hs
      exact floored_payOutPositive hf
    | resolveByTimeDecay digest =>
      refine meets_check.mpr fun s hs => meets_check.mpr fun _ _ => ?_
      simp only [bind_eq_ok,nonReentrant_eq_ok] at hs
      obtain ⟨_,_,_,rfl⟩ := hs
      exact floored_payOutPositive hf
    | finalizeWithZKProof digest =>
      refine meets_check.mpr fun s hs => ?_
      simp only [bind_eq_ok,nonReentrant_eq_ok,pure_eq_ok] at hs
      obtain ⟨_,_,_,⟨_,rfl⟩,_,_,_,_,rfl⟩ := hs
      dsimp only
      split_ifs
      · exact ⟨meets_check.mpr fun _ _ => floored_payOutPositive hf,fun _ _ => trivial,
          fun _ => ⟨⟨hf,trivial⟩,
            fun _ hw' _ => meets_check.mpr fun _ _ => floored_payOutPositive hw'⟩⟩
      · exact floored_payOutPositive hf
    | setResolutionGracePeriod newSeconds =>
      exact floored_configure fun h => BitVec.not_lt.mp (revertIf_eq_ok.mp h)
    | _ => exact floored_configure fun _ => hf

end
section
variable (this admin : Address) (challengePeriod minOperatorBond minChallengerBond : Uint256)
  (balance : ℕ)

def deployed : Bridge :=
  ⟨initialStorage admin challengePeriod minOperatorBond minChallengerBond,balance,[],[]⟩

theorem deployed_sound :
    Sound this (deployed admin challengePeriod minOperatorBond minChallengerBond balance) where
  recorded _ := rfl
  windows _ := by
    have ho : ¬Live noChallenge := by decide
    exact ⟨fun _ => rfl,fun _ => rfl,fun h => absurd h ho,fun h => absurd (.inr h) ho⟩
  bounded _ := le_rfl
  settled _ _ := rfl

theorem slack_deployed :
    slack (deployed admin challengePeriod minOperatorBond minChallengerBond balance)=balance := by
  have hz : liabilities (deployed admin challengePeriod minOperatorBond minChallengerBond
      balance).storage=0 := by
    refine Finset.sum_eq_zero fun digest _ => ?_
    exact if_neg (by change ¬Live noChallenge; decide)
  rw [slack,hz]
  exact sub_zero _

theorem sound_and_solvent_of_seen {acts : List (Action Message)} {w : Bridge}
    (hw : let bridge := machine (contract this) (deployed admin challengePeriod minOperatorBond
      minChallengerBond balance)
      w ∈ bridge.state acts::bridge.outputs acts) :
    Sound this w ∧ liabilities w.storage≤w.balance := by
  obtain ⟨hst,hl,hse⟩ := run_ends (contract_keeps this)
    (deployed_sound this admin challengePeriod minOperatorBond minChallengerBond balance) acts
  obtain ⟨hw,ha⟩ : Sound this w ∧ Advances _ w := by
    rcases List.mem_cons.mp hw with rfl|hw
    · exact ⟨hst,hl.toAdvances⟩
    · exact hse w hw
  have hs := ha.slack_le
  rw [slack_deployed,slack] at hs
  exact ⟨hw,by omega⟩

/-- Every world seen outside can pay the bonds of its live windows, and no window has paid more
than it received. Between the calls a window has paid what it received if it is closed, and
nothing if it is not. A closed window stays as it is. -/
theorem windows_solvent_and_paid_once (actions : List (Action Message)) :
    let bridge := machine (contract this)
      (deployed admin challengePeriod minOperatorBond minChallengerBond balance)
    (∀ w ∈ bridge.outputs actions, liabilities w.storage≤w.balance ∧ ∀ d, paid w d≤received w d) ∧
    (∀ d, paid (bridge.state actions) d =
      if Terminal ((bridge.state actions).storage.challenges d) then
        received (bridge.state actions) d
      else 0) ∧
    ∀ d, Terminal ((bridge.state actions).storage.challenges d) →
      ∀ later, ∀ w ∈ (machine (contract this) (bridge.state actions)).outputs later,
        w.storage.challenges d=(bridge.state actions).storage.challenges d := by
  intro bridge
  have hk := contract_keeps this
  obtain ⟨hs,hl,-⟩ := run_ends hk
    (deployed_sound this admin challengePeriod minOperatorBond minChallengerBond balance) actions
  refine ⟨fun w hw => ?_,fun d => ?_,fun d hd later w hw => ?_⟩
  · obtain ⟨hw,hso⟩ := sound_and_solvent_of_seen _ _ _ _ _ _ (List.mem_cons_of_mem _ hw)
    exact ⟨hso,hw.bounded⟩
  · have hi : notEntered≠entered := by decide
    exact hs.settled (fun hup => hi (hl.guard.mp hup)) d
  · exact ((run_ends hk hs later).2.2 w hw).2.kept d hd

/-- In every world that outside code sees, an opened window ends after the challenge period if and
only if the period fits 64 bits. Time decay resolves a window that waits no earlier than a day
after its opening if and only if the grace period cut to 64 bits is a day, as one that fits is. -/
theorem periods_kept_below_64_bits (actions : List (Action Message)) :
    let bridge := machine (contract this)
      (deployed admin challengePeriod minOperatorBond minChallengerBond balance)
    let seen := bridge.state actions::bridge.outputs actions
    let day := 24*60*60
    (∀ w ∈ seen, ∀ env d s', w.storage.openWindow env d=.ok s' → ((s'.challenges d).deadline.toNat =
          (s'.challenges d).openedAt.toNat+w.storage.challengePeriod.toNat ↔
        w.storage.challengePeriod.toNat<2^64)) ∧
    ∀ w ∈ seen, let grace := w.storage.resolutionGracePeriod.toNat
      (grace<2^64 → day≤grace % 2^64) ∧
      ∀ d, (∀ env replies, (frame (contract this) env (.resolveByTimeDecay d)
          (handlers (contract this) replies) w).1.isSome=true →
        (w.storage.challenges d).openedAt.toNat+day≤env.timestamp.toNat) ↔
        (Waits w.storage d → day≤grace % 2^64) := by
  intro bridge seen day
  refine ⟨fun w _ env d s' => openWindow_deadline_iff,fun w hw => ⟨fun hf => ?_,fun d => ?_⟩⟩
  · have hs : Floored (deployed admin challengePeriod minOperatorBond minChallengerBond
        balance) := by change twentyFourHours≤fourteenDays; decide
    obtain ⟨hst,-,hse⟩ := run_ends (floored_keeps this) hs actions
    have hfl : Floored w := by
      rcases List.mem_cons.mp hw with rfl|hw
      · exact hst
      · exact (hse w hw).1
    rw [Nat.mod_eq_of_lt hf]
    exact hfl
  · obtain ⟨hsound,hsolvent⟩ := sound_and_solvent_of_seen _ _ _ _ _ _ hw
    have hret env := @resolveByTimeDecay_returns_iff this w env d hsound hsolvent
    refine ⟨fun h hwaits => ?_,fun h env replies hr => ?_⟩
    · have hready : (BitVec.ofNat 256 (readyAt w.storage d)).toNat=readyAt w.storage d :=
        (BitVec.toNat_ofNat _ _).trans (Nat.mod_eq_of_lt (hwaits.2.2.1.trans (by decide)))
      obtain ⟨replies,hr⟩ := (hret ⟨0,0,BitVec.ofNat 256 (readyAt w.storage d),0⟩).mpr
        ⟨hwaits,rfl,hready.ge⟩
      exact Nat.le_of_add_le_add_left ((h _ _ hr).trans hready.le)
    · obtain ⟨hwaits,-,hle⟩ := (hret env).mp ⟨replies,hr⟩
      exact (Nat.add_le_add_left (h hwaits) _).trans hle

end

def truncatedRun : List (Action Message) :=
  [.call ⟨1,0,1000,1⟩ (.setChallengePeriod (2^64)) [],
    .call ⟨1,0,1000,1⟩ (.setResolutionGracePeriod (2^64)) [],
    .call ⟨10,100,1000,1⟩ (.openWindow 7) [],
    .call ⟨11,50,1000,1⟩ (.submitChallenge 7 1 9) [],
    .call ⟨12,0,1000,1⟩ (.resolveByTimeDecay 7) [.outside true []]]

theorem truncatedRun_resolved_at_once :
    let bridge := (machine (contract 99) (deployed 1 600 20 20 0)).state truncatedRun
    let c := bridge.storage.challenges 7
    c.status=statusResolved ∧ c.openedAt=1000 ∧ c.deadline=1000 := by decide +kernel

/-- A window with both bonds is resolved for the challenger, who calls back when it is paid:
it asks for the bonds again, opens a window of its own and then accepts the payment. -/
def callbackRun : List (Action Message) :=
  [.call ⟨10,100,1000,1⟩ (.openWindow 7) [],.call ⟨11,50,1001,1⟩ (.submitChallenge 7 1 9) [],
    .call ⟨1,0,1002,1⟩ (.resolveChallenge 7 true) [.outside true [
      .call ⟨1,0,1002,1⟩ (.resolveChallenge 7 true) [],
      .call ⟨11,60,1002,1⟩ (.openWindow 8) []]]]

theorem callbackRun_paid_once :
    let bridge := (machine (contract 99) (deployed 1 600 20 20 0)).state callbackRun
    Terminal (bridge.storage.challenges 7) ∧ received bridge 7=150 ∧ paid bridge 7=150 ∧
      bridge.balance=60 := by
  intro bridge
  have ht : Terminal (bridge.storage.challenges 7) := by decide +kernel
  have hr : received bridge 7=150 := by decide +kernel
  have hp := (windows_solvent_and_paid_once 99 1 600 20 20 0 callbackRun).2.1 7
  rw [if_pos ht] at hp
  exact ⟨ht,hr,hp.trans hr,by decide +kernel⟩

end LatticeTransfer.BridgeChallenge
