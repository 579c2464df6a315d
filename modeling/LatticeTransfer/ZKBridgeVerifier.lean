import LatticeTransfer.BridgeChallenge

/-!
# Finality by proof

`ZKBridgeVerifier`: whoever has a proof for some public inputs closes a challenge window
with it. The contract checks the proof with the backend that is configured, writes it down
as used and calls `finalizeWithZKProof` of the challenge contract. The SP1 backend asks a
contract outside; what that contract says is part of the `Chain` a call sees.
-/

namespace LatticeTransfer.ZKBridgeVerifier
open Solidity CallTree

structure PublicInputs where
  sthRootHash : Bytes32
  operatorVkHash : Bytes32
  treeSize : Uint64
  sthSequence : Uint64

def modeSimulated : Uint8 := 0
def modeSP1 : Uint8 := 1
def modeSTARK : Uint8 := 3

structure Verifier where
  admin : Address
  challengeContract : Address
  verificationMode : Uint8
  productionMode : Bool
  verifiedProofs : Bytes32 → Bool
  sp1Verifier : Address
  sp1ProgramVKey : Bytes32

inductive Error
  | invalidProof
  | invalidPublicInputs
  | proofAlreadyUsed
  | unauthorized
  | simulatedModeNotAllowedInProduction
  | incompatibleSP1Verifier (verifier : Address)
deriving DecidableEq

structure Sp1Call where
  verifier : Address
  programVKey : Bytes32
  publicValues : Bytes
  proofBytes : Bytes
deriving DecidableEq

/-- The other contracts at the time of a call. `verifyProof` has no result: a verifier
refuses by a revert. -/
structure Chain where
  hasCode : Address → Bool
  verifyProof : Sp1Call → Bool
  verifierHash : Address → Option Bytes32

def Chain.staticcall (chain : Chain) (call : Sp1Call) : Bool :=
  !chain.hasCode call.verifier || chain.verifyProof call

def Chain.callVerifierHash (chain : Chain) (verifier : Address) : Result Error Bytes32 :=
  match chain.verifierHash verifier with
  | none => .error .empty
  | some hash => .ok hash

/-- A verifier contract was called and did not revert. -/
def Chain.Accepts (chain : Chain) (call : Sp1Call) : Prop :=
  chain.hasCode call.verifier=true ∧ chain.verifyProof call=true

inductive Function
  | lockProduction
  | verifyAndFinalize (anchorDigest : Bytes32) (proofBytes : Bytes) (inputs : PublicInputs)
  | setVerificationMode (mode : Uint8)
  | transferAdmin (newAdmin : Address)
  | setSP1Verifier (verifier : Address) (vkey : Bytes32)

structure Message where
  chain : Chain
  function : Function

abbrev Body := Program Error Verifier Message
abbrev Zk := World Verifier Message

section
variable (keccak256 : Bytes → Bytes32) (proofBytes : Bytes) (inputs : PublicInputs)

def bytes32 (bytes : Bytes) : Bytes32 := BitVec.ofNat 256 (PyValue.ofBigEndian bytes)

def slice (bytes : Bytes) (start stop : ℕ) : Bytes := (bytes.take stop).drop start

def publicValues : Bytes :=
  encodePacked inputs.sthRootHash++encodePacked inputs.operatorVkHash ++
    encodePacked inputs.treeSize++encodePacked inputs.sthSequence

def proofId : Bytes32 := keccak256 (proofBytes++publicValues inputs)

def verifySimulated : Bool :=
  if proofBytes.length≠64 then false
  else
    let proofHash := bytes32 (slice proofBytes 0 32)
    bytes32 (slice proofBytes 32 64) =
      keccak256 (publicValues inputs++encodePacked proofHash++stringBytes "sim-verify")

def verifySTARK : Bool :=
  if proofBytes.length=128 then
    bytes32 (slice proofBytes 96 128) =
      keccak256 (publicValues inputs++slice proofBytes 0 96++stringBytes "stark-verify")
  else if proofBytes.length<8 then false
  else if proofBytes.getD 0 0<3 then false
  else
    let expectedLen := 104+(proofBytes.getD 1 0).toNat*32
    if proofBytes.length≠expectedLen then false
    else if bytes32 (slice proofBytes 8 40) ≠
        keccak256 (publicValues inputs++stringBytes "stark-public") then false
    else
      let tagOffset := expectedLen-32
      bytes32 (slice proofBytes tagOffset (tagOffset+32)) =
        keccak256 (slice proofBytes 0 tagOffset++stringBytes "stark-verify")

end

namespace Verifier
variable (keccak256 : Bytes → Bytes32) (s : Verifier) (chain : Chain) (env : Env)

def onlyAdmin : Result Error Unit := revertIf (env.sender≠s.admin) .unauthorized

def lockProduction : Result Error Verifier := do
  nonpayable env
  s.onlyAdmin env
  revertIf (s.verificationMode=modeSimulated) .simulatedModeNotAllowedInProduction
  return {s with productionMode := true}

def setVerificationMode (mode : Uint8) : Result Error Verifier := do
  nonpayable env
  s.onlyAdmin env
  revertIf (s.productionMode=true ∧ mode=modeSimulated) .simulatedModeNotAllowedInProduction
  return {s with verificationMode := mode}

def transferAdmin (newAdmin : Address) : Result Error Verifier := do
  nonpayable env
  s.onlyAdmin env
  return {s with admin := newAdmin}

def setSP1Verifier (verifier : Address) (vkey : Bytes32) : Result Error Verifier := do
  nonpayable env
  s.onlyAdmin env
  revertIf (chain.hasCode verifier=false) (.incompatibleSP1Verifier verifier)
  let hash ← chain.callVerifierHash verifier
  revertIf (hash=0) (.incompatibleSP1Verifier verifier)
  return {s with sp1Verifier := verifier,sp1ProgramVKey := vkey}

def verifySP1 (proofBytes : Bytes) (inputs : PublicInputs) : Bool × List Sp1Call :=
  if s.sp1Verifier=0 then (proofBytes.length=128,[])
  else
    let call := ⟨s.sp1Verifier,s.sp1ProgramVKey,publicValues inputs,proofBytes⟩
    (chain.staticcall call,[call])

def verify (proofBytes : Bytes) (inputs : PublicInputs) : Result Error (Bool × List Sp1Call) :=
  if s.verificationMode=modeSimulated then
    .ok (verifySimulated keccak256 proofBytes inputs,[])
  else if s.verificationMode=modeSP1 then .ok (s.verifySP1 chain proofBytes inputs)
  else if s.verificationMode=modeSTARK then
    .ok (verifySTARK keccak256 proofBytes inputs,[])
  else .error (.custom .invalidProof)

def markUsed (id : Bytes32) : Verifier :=
  {s with verifiedProofs := Function.update s.verifiedProofs id true}

def accept (proofBytes : Bytes) (inputs : PublicInputs) :
    Result Error (Verifier × List Sp1Call) := do
  nonpayable env
  revertIf (inputs.sthRootHash=0 ∨ inputs.operatorVkHash=0) .invalidPublicInputs
  let id := proofId keccak256 proofBytes inputs
  revertIf (s.verifiedProofs id=true) .proofAlreadyUsed
  revertIf (s.productionMode=true ∧ s.verificationMode=modeSimulated)
    .simulatedModeNotAllowedInProduction
  let (valid,calls) ← s.verify keccak256 chain proofBytes inputs
  revertIf (valid=false) .invalidProof
  return (s.markUsed id,calls)

/-- The digest goes to the challenge contract and is not looked at here. -/
def verifyAndFinalize (proofBytes : Bytes) (inputs : PublicInputs) : Body :=
  .check (s.accept keccak256 chain env proofBytes inputs) fun accepted =>
  .send accepted.1 s.challengeContract 0 none fun success s =>
    if success=true then .done s else .fail .empty

def dispatch (message : Message) : Body :=
  match message.function with
  | .lockProduction => .check (s.lockProduction env) .done
  | .verifyAndFinalize _ proofBytes inputs =>
    s.verifyAndFinalize keccak256 message.chain env proofBytes inputs
  | .setVerificationMode mode => .check (s.setVerificationMode env mode) .done
  | .transferAdmin newAdmin => .check (s.transferAdmin env newAdmin) .done
  | .setSP1Verifier verifier vkey =>
    .check (s.setSP1Verifier message.chain env verifier vkey) .done

end Verifier

def contract (keccak256 : Bytes → Bytes32) (this : Address) : Contract Error Verifier Message where
  this := this
  call := Verifier.dispatch keccak256

def initialStorage (admin challengeContract : Address) (mode : Uint8) : Verifier where
  admin := admin
  challengeContract := challengeContract
  verificationMode := mode
  productionMode := false
  verifiedProofs _ := false
  sp1Verifier := 0
  sp1ProgramVKey := 0

def deployed (admin challengeContract : Address) (mode : Uint8) (balance : ℕ) : Zk :=
  ⟨initialStorage admin challengeContract mode,balance,[],[]⟩

section
variable {H : Bytes → Bytes32} {s s' : Verifier} {chain : Chain} {env : Env}
  {proof : Bytes} {inputs : PublicInputs} {calls : List Sp1Call}

structure Accepted (keccak256 : Bytes → Bytes32) (s : Verifier) (chain : Chain) (env : Env)
    (proofBytes : Bytes) (inputs : PublicInputs) (s' : Verifier) (calls : List Sp1Call) : Prop where
  value : env.value=0
  fresh : s.verifiedProofs (proofId keccak256 proofBytes inputs)=false
  locked : s.productionMode=true → s.verificationMode≠modeSimulated
  valid : s.verify keccak256 chain proofBytes inputs=.ok (true,calls)
  marked : s'=s.markUsed (proofId keccak256 proofBytes inputs)

theorem accepted_of_ok (h : s.accept H chain env proof inputs=.ok (s',calls)) :
    Accepted H s chain env proof inputs s' calls := by
  simp only [Verifier.accept,bind_eq_ok,nonpayable_eq_ok,revertIf_eq_ok,Bool.not_eq_true] at h
  obtain ⟨_,hv,_,-,_,hf,_,hl,⟨valid,calls'⟩,hve,_,hva,rfl,rfl⟩ :=
    h
  refine ⟨hv,hf,fun hp hm => hl ⟨hp,hm⟩,?_,rfl⟩
  have hva : valid=true := eq_true_of_ne_false hva
  rw [hve,hva]

def Verifier.sp1Calls (keccak256 : Bytes → Bytes32) (s : Verifier) (chain : Chain)
    (proofBytes : Bytes) (inputs : PublicInputs) : List Sp1Call :=
  match s.verify keccak256 chain proofBytes inputs with
  | .ok (_,calls) => calls
  | .error _ => []

theorem verifySP1_accepts_iff (h : (s.verifySP1 chain proof inputs).1=true) :
    (∃ call ∈ (s.verifySP1 chain proof inputs).2, chain.Accepts call) ↔
      s.sp1Verifier≠0 ∧ chain.hasCode s.sp1Verifier=true := by
  rw [Verifier.verifySP1] at h ⊢
  split_ifs at h ⊢ with hn
  · simp [hn]
  · simp only [Chain.staticcall,Bool.or_eq_true,Bool.not_eq_true'] at h
    simp only [List.mem_singleton,exists_eq_left]
    constructor
    · exact fun ha => ⟨hn,ha.1⟩
    · rintro ⟨-,hc⟩
      exact ⟨hc,h.resolve_left (by rw [hc]; exact Bool.true_eq_false.mp)⟩

theorem sp1Calls_accepts_iff (h : s.verify H chain proof inputs=.ok (true,calls)) :
    (∃ call ∈ s.sp1Calls H chain proof inputs, chain.Accepts call) ↔
      s.verificationMode=modeSP1 ∧ s.sp1Verifier≠0 ∧ chain.hasCode s.sp1Verifier=true := by
  have hc : s.sp1Calls H chain proof inputs=calls := by rw [Verifier.sp1Calls,h]
  rw [hc]
  have hm : modeSimulated≠modeSP1 ∧ modeSTARK≠modeSP1 := by decide
  rw [Verifier.verify] at h
  split_ifs at h with hs hsp1 hst
  · obtain ⟨-,rfl⟩ := Prod.mk.inj (Except.ok.inj h)
    simp [hs,hm.1]
  · have hp := Except.ok.inj h
    have ha := verifySP1_accepts_iff (by rw [hp])
    rw [hp] at ha
    simpa [hsp1] using ha
  · obtain ⟨-,rfl⟩ := Prod.mk.inj (Except.ok.inj h)
    simp [hst,hm.2]

end

section
variable {keccak256 : Bytes → Bytes32} {this : Address} {w : Zk}

def usedBy (keccak256 : Bytes → Bytes32) (message : Message) : Option Bytes32 :=
  match message.function with
  | .verifyAndFinalize _ proofBytes inputs => some (proofId keccak256 proofBytes inputs)
  | _ => none

def usedProofs (keccak256 : Bytes → Bytes32) (w : Zk) : List (Option Bytes32) :=
  w.sent.map fun payment => usedBy keccak256 payment.message

structure Valid (keccak256 : Bytes → Bytes32) (w : Zk) : Prop where
  locked : w.storage.productionMode=true → w.storage.verificationMode≠modeSimulated
  marked : ∀ used ∈ usedProofs keccak256 w, ∃ id, used=some id ∧
    w.storage.verifiedProofs id=true
  once : (usedProofs keccak256 w).Nodup

def guarantee (keccak256 : Bytes → Bytes32) : Guarantee Verifier Message :=
  .ofInvariant (Valid keccak256)

theorem markUsed_self (s : Verifier) (id : Bytes32) : (s.markUsed id).verifiedProofs id=true :=
  if_pos rfl

theorem markUsed_of_used {s : Verifier} {old : Bytes32} (id : Bytes32)
    (h : s.verifiedProofs old=true) : (s.markUsed id).verifiedProofs old=true := by
  by_cases hs : old=id
  · exact hs ▸ markUsed_self s old
  · exact (Function.update_of_ne hs true _).trans h

theorem meets_configure {m : Message} {value : Uint256} {result : Result Error Verifier}
    (hw : Valid keccak256 w) (h : ∀ s, result=.ok s → s.verifiedProofs=w.storage.verifiedProofs ∧
      (s.productionMode=true → s.verificationMode≠modeSimulated)) :
    (Program.check result .done).Meets (guarantee keccak256) m w (w.receive m value) := by
  refine Program.meets_check.mpr fun s hs => ?_
  obtain ⟨hp,hl⟩ := h s hs
  refine ⟨⟨hl,?_,hw.once⟩,trivial⟩
  rw [hp]
  exact hw.marked

theorem meets_verifyAndFinalize {env : Env} {chain : Chain} {digest : Bytes32}
    {proofBytes : Bytes} {inputs : PublicInputs} (hw : Valid keccak256 w) :
    (w.storage.verifyAndFinalize keccak256 chain env proofBytes inputs).Meets
      (guarantee keccak256) ⟨chain,.verifyAndFinalize digest proofBytes inputs⟩ w
      (w.receive ⟨chain,.verifyAndFinalize digest proofBytes inputs⟩ env.value) := by
  refine Program.meets_check.mpr fun ⟨s,calls⟩ hs => ?_
  have ha := accepted_of_ok hs
  obtain rfl := ha.marked
  set id := proofId keccak256 proofBytes inputs
  -- The proof is written down as used before the challenge contract has control.
  refine ⟨trivial,by simp,fun _ => ⟨⟨?_,trivial⟩,fun w' hw' _ => ⟨hw',trivial⟩⟩⟩
  have hu (v : Zk) (hv : v.sent=w.sent++[⟨⟨chain,.verifyAndFinalize digest proofBytes
      inputs⟩,w.storage.markUsed id,w.storage.challengeContract,0⟩]) :
      usedProofs keccak256 v=usedProofs keccak256 w++[some id] := by
    rw [usedProofs,hv,List.map_append]
    rfl
  refine ⟨ha.locked,?_,?_⟩
  · rw [hu _ rfl]
    intro used hme
    rcases List.mem_append.mp hme with hme|hme
    · obtain ⟨old,rfl,ho⟩ := hw.marked used hme
      exact ⟨old,rfl,markUsed_of_used id ho⟩
    · exact ⟨id,List.mem_singleton.mp hme,markUsed_self w.storage id⟩
  · rw [hu _ rfl]
    refine List.nodup_append'.mpr ⟨hw.once,List.nodup_singleton _,?_⟩
    refine List.disjoint_singleton.mpr fun hme => ?_
    obtain ⟨old,ho,hm⟩ := hw.marked _ hme
    rw [← Option.some.inj ho,ha.fresh] at hm
    exact Bool.false_ne_true hm

theorem contract_keeps : (contract keccak256 this).Keeps (guarantee keccak256) where
  deposit w amount hw := ⟨⟨hw.locked,hw.marked,hw.once⟩,trivial⟩
  call w env message _ hw := by
    obtain ⟨chain,function⟩ := message
    cases function with
    | verifyAndFinalize digest proofBytes inputs => exact meets_verifyAndFinalize hw
    | lockProduction =>
      refine meets_configure hw fun s h => ?_
      simp only [Verifier.lockProduction,bind_eq_ok,revertIf_eq_ok,pure_eq_ok] at h
      obtain ⟨_,-,_,-,_,hm,rfl⟩ := h
      exact ⟨rfl,fun _ => hm⟩
    | setVerificationMode mode =>
      refine meets_configure hw fun s h => ?_
      simp only [Verifier.setVerificationMode,bind_eq_ok,revertIf_eq_ok,pure_eq_ok] at h
      obtain ⟨_,-,_,-,_,hm,rfl⟩ := h
      exact ⟨rfl,fun hp hs => hm ⟨hp,hs⟩⟩
    | transferAdmin newAdmin =>
      refine meets_configure hw fun s h => ?_
      simp only [Verifier.transferAdmin,bind_eq_ok,pure_eq_ok] at h
      obtain ⟨_,-,_,-,rfl⟩ := h
      exact ⟨rfl,hw.locked⟩
    | setSP1Verifier verifier vkey =>
      refine meets_configure hw fun s h => ?_
      simp only [Verifier.setSP1Verifier,bind_eq_ok,pure_eq_ok] at h
      obtain ⟨_,-,_,-,_,-,_,-,_,-,rfl⟩ := h
      exact ⟨rfl,hw.locked⟩

theorem deployed_valid (admin challengeContract : Address) (mode : Uint8) (bal : ℕ) :
    Valid keccak256 (deployed admin challengeContract mode bal) :=
  ⟨fun h => absurd h Bool.false_ne_true,by simp [usedProofs,deployed],List.nodup_nil⟩

theorem valid_of_seen {admin challengeContract : Address} {mode : Uint8} {bal : ℕ}
    {acts : List (Action Message)} (hw : w ∈ (machine (contract keccak256 this)
      (deployed admin challengeContract mode bal)).outputs acts) : Valid keccak256 w :=
  ((run_ends contract_keeps (deployed_valid admin challengeContract mode bal) acts).2.2 w hw).1

theorem proofs_used_once (admin challengeContract : Address) (mode : Uint8) (bal : ℕ)
    (acts : List (Action Message)) : ∀ w ∈ (machine (contract keccak256 this)
      (deployed admin challengeContract mode bal)).outputs acts, (usedProofs keccak256 w).Nodup :=
  fun _ hw => (valid_of_seen hw).once

end

section
variable {keccak256 : Bytes → Bytes32} {this : Address} {w : Zk} {env : Env} {chain : Chain}
  {digest : Bytes32} {proofBytes : Bytes} {inputs : PublicInputs}

theorem accepted_of_returns {handlers : List (Handler Verifier Message)}
    (h : (frame (contract keccak256 this) env ⟨chain,.verifyAndFinalize digest proofBytes inputs⟩
      handlers w).1.isSome=true) :
    ∃ s calls, Accepted keccak256 w.storage chain env proofBytes inputs s calls := by
  obtain ⟨⟨s,calls⟩,hs⟩ := exists_ok_of_exec_check h
  exact ⟨s,calls,accepted_of_ok hs⟩

/-- A proof that is accepted in production was not checked by the simulated backend, but only
the SP1 backend with a verifier that has code has asked a verifier contract. -/
theorem production_accepts_iff {admin challengeContract : Address} {mode : Uint8} {balance : ℕ}
    {actions : List (Action Message)} (hw : w ∈ (machine (contract keccak256 this)
      (deployed admin challengeContract mode balance)).outputs actions)
    (hproduction : w.storage.productionMode=true) {replies : List (Reply Message)}
    (hreturns : (frame (contract keccak256 this) env
      ⟨chain,.verifyAndFinalize digest proofBytes inputs⟩
      (handlers (contract keccak256 this) replies) w).1.isSome=true) :
    w.storage.verificationMode≠modeSimulated ∧
      ((∃ call ∈ w.storage.sp1Calls keccak256 chain proofBytes inputs, chain.Accepts call) ↔
        w.storage.verificationMode=modeSP1 ∧ w.storage.sp1Verifier≠0 ∧
          chain.hasCode w.storage.sp1Verifier=true) := by
  obtain ⟨s,calls,ha⟩ := accepted_of_returns hreturns
  exact ⟨(valid_of_seen hw).locked hproduction,sp1Calls_accepts_iff ha.valid⟩

end

def oneProofChain (values proofBytes : Bytes) : Chain where
  hasCode address := address=50
  verifyProof call := call.programVKey=7 ∧ call.publicValues=values ∧
    call.proofBytes=proofBytes
  verifierHash address := if address=50 then some 1 else none

def someInputs : PublicInputs := ⟨1,2,3,4⟩

def someProof : Bytes := [1,2,3]

def someChain : Chain := oneProofChain (publicValues someInputs) someProof

def byAdmin (function : Function) : Action Message := .call ⟨1,0,1000,1⟩ ⟨someChain,function⟩ []

def zk (mode : Uint8) (actions : List (Action Message)) : Zk :=
  (machine (contract digits 99) (deployed 1 98 mode 0)).state actions

def sp1Setup : List (Action Message) := [byAdmin (.setSP1Verifier 50 7),byAdmin .lockProduction]

theorem sp1Setup_accepts :
    ∃ call ∈ (zk modeSP1 sp1Setup).storage.sp1Calls digits someChain someProof someInputs,
      someChain.Accepts call := by
  have hr : (frame (contract digits 99) ⟨5,0,1001,1⟩
      ⟨someChain,.verifyAndFinalize 7 someProof someInputs⟩
      (handlers (contract digits 99) [.outside true []])
      (zk modeSP1 sp1Setup)).1.isSome=true := by decide +kernel
  have hs := state_mem_outputs (contract digits 99) (deployed 1 98 modeSP1 0)
    [byAdmin (.setSP1Verifier 50 7)] ⟨1,0,1000,1⟩ ⟨someChain,.lockProduction⟩ [] (by decide)
  exact (production_accepts_iff hs (by decide +kernel) hr).2.mpr (by decide +kernel)

theorem someProof_used_once :
    let used := usedProofs digits (zk modeSP1 (sp1Setup++[.call ⟨5,0,1001,1⟩
      ⟨someChain,.verifyAndFinalize 7 someProof someInputs⟩ [.outside true []]]))
    used.length=1 ∧ used.Nodup :=
  ⟨by decide +kernel,
    proofs_used_once 1 98 modeSP1 0 _ _ (state_mem_outputs _ _ sp1Setup _ _ _ (by decide))⟩

def forgedProof : Bytes :=
  let layers := List.replicate 96 0
  layers++encodePacked (digits (publicValues someInputs++layers++stringBytes "stark-verify"))

theorem forgedProof_accepted :
    let w := zk modeSTARK [byAdmin .lockProduction]
    w ∈ (machine (contract digits 99) (deployed 1 98 modeSTARK 0)).outputs
        [byAdmin .lockProduction] ∧
      w.storage.productionMode=true ∧
      (frame (contract digits 99) ⟨5,0,1001,1⟩
        ⟨someChain,.verifyAndFinalize 7 forgedProof someInputs⟩
        (handlers (contract digits 99) [.outside true []]) w).1.isSome=true ∧
      ¬ ∃ call ∈ w.storage.sp1Calls digits someChain forgedProof someInputs,
        someChain.Accepts call := by
  refine ⟨?_,by decide +kernel,by decide +kernel,?_⟩
  · exact state_mem_outputs (contract digits 99) (deployed 1 98 modeSTARK 0) []
      ⟨1,0,1000,1⟩ ⟨someChain,.lockProduction⟩ [] (by decide)
  · have hn : (zk modeSTARK [byAdmin .lockProduction]).storage.sp1Calls digits someChain
        forgedProof someInputs=[] := by decide +kernel
    simp [hn]

section
variable {keccak256 : Bytes → Bytes32} {this : Address} {v : Zk} {w : BridgeChallenge.Bridge}
  {env : Env} {chain : Chain} {proofBytes : Bytes} {inputs : PublicInputs}

def challengeReply (this challengeContract : Address) (w : BridgeChallenge.Bridge) (env : Env)
    (digest : Bytes32) (replies : List (Reply BridgeChallenge.Message)) :
    Handler Verifier Message where
  outside v :=
    ((frame (BridgeChallenge.contract challengeContract) {env with sender := this,value := 0}
      (.finalizeWithZKProof digest)
      (handlers (BridgeChallenge.contract challengeContract) replies) w).1.map fun _ => v,[])
  inside _ _ _ := (none,[])

/-- `verifyAndFinalize` returns, with the challenge contract in the world `w`, for some
receivers of the bonds. -/
def Succeeds (keccak256 : Bytes → Bytes32) (this : Address) (v : Zk) (w : BridgeChallenge.Bridge)
    (env : Env) (chain : Chain) (proofBytes : Bytes) (inputs : PublicInputs) (digest : Bytes32) :
    Prop :=
  ∃ replies, (frame (contract keccak256 this) env
    ⟨chain,.verifyAndFinalize digest proofBytes inputs⟩
    [challengeReply this v.storage.challengeContract w env digest replies] v).1.isSome=true

theorem exec_send_challengeReply {digest : Bytes32} {m : Message} {s : Verifier}
    {challengeContract : Address} {replies : List (Reply BridgeChallenge.Message)} :
    ((Program.send s challengeContract 0 none fun success s =>
      if success=true then .done s else .fail .empty).exec (contract keccak256 this) env m
      [challengeReply this challengeContract w env digest replies] v).1.isSome=true ↔
    challengeContract≠this ∧
      (frame (BridgeChallenge.contract challengeContract) {env with sender := this,value := 0}
        (.finalizeWithZKProof digest)
        (handlers (BridgeChallenge.contract challengeContract) replies) w).1.isSome=true := by
  simp only [Program.exec,transfer]
  by_cases hs : challengeContract=this
  · simp [hs,contract,Program.exec]
  · simp only [contract,challengeReply]
    cases (frame (BridgeChallenge.contract challengeContract)
      {env with sender := this,value := 0} (.finalizeWithZKProof digest)
      (handlers (BridgeChallenge.contract challengeContract) replies) w).1 with
    | none => simp [Program.exec,hs]
    | some w' => simp [Program.exec,hs]

theorem succeeds_iff {digest : Bytes32} (hw : BridgeChallenge.Sound v.storage.challengeContract w)
    (hs : BridgeChallenge.liabilities w.storage≤w.balance) :
    Succeeds keccak256 this v w env chain proofBytes inputs digest ↔
      (∃ accepted, v.storage.accept keccak256 chain env proofBytes inputs=.ok accepted) ∧
        v.storage.challengeContract≠this ∧
        BridgeChallenge.Finalizes w.storage {env with sender := this,value := 0} digest := by
  rw [← BridgeChallenge.finalizeWithZKProof_returns_iff hw hs]
  constructor
  · rintro ⟨replies,h⟩
    obtain ⟨accepted,ha⟩ := exists_ok_of_exec_check h
    change (Program.exec _ _ _ (Program.check _ _) _ _).1.isSome=true at h
    rw [Program.check_of_ok ha] at h
    obtain ⟨hse,hr⟩ := exec_send_challengeReply.mp h
    exact ⟨⟨accepted,ha⟩,hse,replies,hr⟩
  · rintro ⟨⟨accepted,ha⟩,hse,replies,hr⟩
    refine ⟨replies,?_⟩
    change (Program.exec _ _ _ (Program.check _ _) _ _).1.isSome=true
    rw [Program.check_of_ok ha]
    exact exec_send_challengeReply.mpr ⟨hse,hr⟩

/-- A proof that closes one window does not close another one exactly if the other one is not
open. -/
theorem proof_fails_elsewhere_iff {admin : Address}
    {challengePeriod minOperatorBond minChallengerBond : Uint256} {balance : ℕ}
    {actions : List (Action BridgeChallenge.Message)}
    (hw : w ∈ (machine (BridgeChallenge.contract v.storage.challengeContract)
      (BridgeChallenge.deployed admin challengePeriod minOperatorBond minChallengerBond
        balance)).outputs actions) {a b : Bytes32}
    (ha : Succeeds keccak256 this v w env chain proofBytes inputs a) :
    ¬Succeeds keccak256 this v w env chain proofBytes inputs b ↔
      ¬BridgeChallenge.Live (w.storage.challenges b) := by
  obtain ⟨hs,hso⟩ := BridgeChallenge.sound_and_solvent_of_seen _ _ _ _ _ _
    (List.mem_cons_of_mem _ hw)
  obtain ⟨hac,hsel,hv,hi,hse,-⟩ := (succeeds_iff hs hso).mp ha
  rw [succeeds_iff hs hso]
  refine not_congr ⟨fun h => h.2.2.2.2.2,fun hl => ?_⟩
  exact ⟨hac,hsel,hv,hi,hse,hl⟩

end

def twoWindows : List (Action BridgeChallenge.Message) :=
  [.call ⟨1,0,1000,1⟩ (.setZKVerifier 99) [],
    .call ⟨10,100,1000,1⟩ (.openWindow 7) [],.call ⟨10,100,1000,1⟩ (.openWindow 8) []]

def windowsBridge : BridgeChallenge.Bridge :=
  (machine (BridgeChallenge.contract 98) (BridgeChallenge.deployed 1 600 20 20 0)).state twoWindows

abbrev SomeProofSucceeds (digest : Bytes32) : Prop :=
  Succeeds digits 99 (zk modeSP1 sp1Setup) windowsBridge ⟨5,0,1001,1⟩ someChain someProof
    someInputs digest

theorem someProof_fails_for_unopened : SomeProofSucceeds 7 ∧ ¬SomeProofSucceeds 9 := by
  have hs : SomeProofSucceeds 7 := ⟨[.outside true []],by decide +kernel⟩
  have hse := state_mem_outputs (BridgeChallenge.contract 98)
    (BridgeChallenge.deployed 1 600 20 20 0) twoWindows.dropLast ⟨10,100,1000,1⟩
    (.openWindow 8) [] (by decide)
  exact ⟨hs,(proof_fails_elsewhere_iff hse hs).mpr (by decide +kernel)⟩

theorem someProof_finalizes_either : SomeProofSucceeds 7 ∧ SomeProofSucceeds 8 :=
  ⟨⟨[.outside true []],by decide +kernel⟩,⟨[.outside true []],by decide +kernel⟩⟩

end LatticeTransfer.ZKBridgeVerifier
