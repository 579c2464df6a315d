import LatticeTransfer.EntityIdentity
import LatticeTransfer.LatticeKey
import Mathlib.Data.Int.Log
import Mathlib.Data.Rat.Floor

/-!
# Operator votes for a phase transition

`TransitionVoteManager`: operators are registered with the hash of their verification key,
and a vote is kept for a transition key if its hash is registered and new for that key. The
signature is checked only if the caller hands in a verification key, under that key.

A run also records who was registered with which hash and who signed a vote for which
phases. A vote is `Genuine` for a transition key if the operator it is counted for signed
it for the phases of that key.
-/

namespace LatticeTransfer.TransitionVotes
open MerkleTree CommitmentLog List
open MerkleLog (MLDSA)

structure TransitionVote where
  voterVkHash : String
  fromPhase : String
  toPhase : String
  signature : Bytes
  timestamp : UInt64
  voterLabel : String
deriving DecidableEq

def domainGovernanceVote : Bytes := encodeText "SUWAPPU-LTP:governance-vote:v1\x00"

def votePayload (fromPhase toPhase : String) (vk : Bytes) : Bytes :=
  domainGovernanceVote++encodeText fromPhase++encodeText toPhase++vk

section
variable (P : SecurityProfile) (S : MLDSA) {K : MLKEM} (H : CanonicalHash)

variable {P S} in
def createTransitionVote (keypair : KeyPair P S K) (fromPhase toPhase : String) (entropy : Bytes)
    (timestamp : UInt64) : Except PyError TransitionVote := do
  let signature ← keypair.sign entropy (votePayload fromPhase toPhase keypair.vk)
  return ⟨canonicalHash H keypair.vk,fromPhase,toPhase,signature,timestamp,keypair.label⟩

def verifyTransitionVote (vote : TransitionVote) (voterVk : Bytes) : Except PyError Bool :=
  mldsaVerify P S voterVk (votePayload vote.fromPhase vote.toPhase voterVk) vote.signature

end

structure Tally where
  transitionKey : String
  votes : ℕ
  totalOperators : ℕ
  required : ℕ
  hasSupermajority : Bool
deriving DecidableEq

/-- The double next to a number that is not negative, with an even significand if there are
two. -/
def roundToDouble (x : ℚ) : ℚ :=
  let ulp : ℚ := 2^(Int.log 2 x-52)
  let low := ⌊x / ulp⌋
  let rest := x / ulp-low
  if rest<1 / 2 ∨ rest=1 / 2 ∧ low % 2=0 then low*ulp else (low+1)*ulp

structure Manager where
  requiredRatio : ℚ
  operators : Dict String String
  votes : Dict String (List TransitionVote)

namespace Manager

def empty (requiredRatio : ℚ) : Manager := ⟨requiredRatio,Dict.empty,Dict.empty⟩

def create (requiredRatio : ℚ) : Except PyError Manager :=
  if 0<requiredRatio ∧ requiredRatio≤1 then .ok (empty requiredRatio)
  else .error (.valueError "required_ratio must be in (0, 1]")

variable (m : Manager)

def registerOperator (operatorId vkHash : String) : Manager :=
  {m with operators := m.operators.set operatorId vkHash}

def votesFor (transitionKey : String) : List TransitionVote :=
  (m.votes.get? transitionKey).getD []

def tallyUnlocked (transitionKey : String) : Tally :=
  let totalOperators := m.operators.size
  let voteCount := (m.votesFor transitionKey).length
  let required := ⌈roundToDouble (totalOperators*m.requiredRatio)⌉₊
  ⟨transitionKey,voteCount,totalOperators,required,required≤voteCount ∧ 0<totalOperators⟩

def addVote (transitionKey : String) (vote : TransitionVote) : Manager :=
  {m with votes := m.votes.set transitionKey (m.votesFor transitionKey++[vote])}

def short (vkHash : String) : String := String.ofList (vkHash.toList.take 16)

def checkSignature (P : SecurityProfile) (S : MLDSA) (vote : TransitionVote) :
    Option Bytes → Except PyError Unit
  | none => .ok ()
  | some voterVk => do
    let valid ← verifyTransitionVote P S vote voterVk
    if valid=true then .ok () else .error (.valueError "Vote signature verification failed")

def castVote (P : SecurityProfile) (S : MLDSA) (transitionKey : String) (vote : TransitionVote)
    (voterVk : Option Bytes) : Except PyError (Manager × Tally) := do
  checkSignature P S vote voterVk
  let voter := short vote.voterVkHash
  if vote.voterVkHash ∉ m.operators.values then
    .error (.valueError s!"Voter {voter} is not a registered operator")
  else if vote.voterVkHash ∈ (m.votesFor transitionKey).map TransitionVote.voterVkHash then
    .error (.valueError s!"Operator {voter} already voted on '{transitionKey}'")
  else
    let voted := m.addVote transitionKey vote
    .ok (voted,voted.tallyUnlocked transitionKey)

variable {m} {P : SecurityProfile} {S : MLDSA} {key : String} {vote : TransitionVote}

theorem checkSignature_ok {voterVk : Bytes} {u : Unit}
    (h : checkSignature P S vote (some voterVk)=.ok u) :
    verifyTransitionVote P S vote voterVk=.ok true := by
  obtain ⟨valid,hv,h⟩ := PyValue.bind_ok h
  split_ifs at h with ht
  rw [hv,ht]

theorem castVote_ok {voterVk : Option Bytes} {m' : Manager} {tally : Tally}
    (h : m.castVote P S key vote voterVk=.ok (m',tally)) :
    checkSignature P S vote voterVk=.ok () ∧ (∃ id, m.operators.get? id=some vote.voterVkHash) ∧
      vote.voterVkHash ∉ (m.votesFor key).map TransitionVote.voterVkHash ∧
      m'=m.addVote key vote := by
  obtain ⟨_,hc,h⟩ := PyValue.bind_ok h
  split_ifs at h with hr hd
  obtain ⟨rfl,-⟩ := Prod.mk.inj (Except.ok.inj h)
  exact ⟨hc,(Dict.mem_values_iff _ _).mp hr,hd,rfl⟩

theorem votesFor_addVote (m : Manager) (transitionKey key : String) (vote : TransitionVote) :
    (m.addVote transitionKey vote).votesFor key =
      if transitionKey=key then m.votesFor key++[vote] else m.votesFor key := by
  rw [votesFor,addVote,Dict.get?_set]
  split_ifs with hk
  · rw [hk]
    rfl
  · rfl

end Manager

section
variable (P : SecurityProfile) (S : MLDSA) (K : MLKEM) (H : CanonicalHash)

/-- `registered` has every hash an operator was registered with, `signed` the phases that the
holder of a verification key signed a vote for. -/
structure System where
  manager : Manager
  registered : List (String × String)
  signed : List (Bytes × String × String)

inductive Input
  | registerOperator (operatorId vkHash : String)
  | createVote (keypair : KeyPair P S K) (fromPhase toPhase : String) (entropy : Bytes)
      (timestamp : UInt64)
  | castVote (transitionKey : String) (vote : TransitionVote) (voterVk : Option Bytes)

variable {P S K} in
def System.step (s : System) : Input P S K → System
  | .registerOperator operatorId vkHash =>
    {s with
      manager := s.manager.registerOperator operatorId vkHash
      registered := s.registered++[(operatorId,vkHash)]}
  | .createVote keypair fromPhase toPhase entropy timestamp =>
    match createTransitionVote H keypair fromPhase toPhase entropy timestamp with
    | .ok _ => {s with signed := s.signed++[(keypair.vk,fromPhase,toPhase)]}
    | .error _ => s
  | .castVote transitionKey vote voterVk =>
    match s.manager.castVote P S transitionKey vote voterVk with
    | .ok (manager,_) => {s with manager := manager}
    | .error _ => s

def machine (requiredRatio : ℚ) : Machine System (Input P S K) Empty where
  start := ⟨Manager.empty requiredRatio,[],[]⟩
  step s input := (s.step H input,[])

/-- The vote is counted for a registered operator, whose key signed it for its own phases, and
these are the phases of the transition key. -/
structure Genuine (s : System) (transitionKey : String) (vote : TransitionVote) : Prop where
  registered : ∃ operatorId, (operatorId,vote.voterVkHash) ∈ s.registered
  key : transitionKey=vote.fromPhase ++ "->" ++ vote.toPhase
  signed : ∃ vk, canonicalHash H vk=vote.voterVkHash ∧
    verifyTransitionVote P S vote vk=.ok true ∧ (vk,vote.fromPhase,vote.toPhase) ∈ s.signed

def System.countedFor (s : System) (transitionKey operatorId : String) : List TransitionVote :=
  (s.manager.votesFor transitionKey).filter fun vote =>
    (operatorId,vote.voterVkHash) ∈ s.registered

variable {P S K} in
/-- A signature that verifies is one that the holder of the key made, for phases with the same
payload. -/
def Unforged (s : System) : Input P S K → Prop
  | .castVote _ vote (some voterVk) => verifyTransitionVote P S vote voterVk=.ok true →
      ∃ fromPhase toPhase, (voterVk,fromPhase,toPhase) ∈ s.signed ∧
        votePayload fromPhase toPhase voterVk=votePayload vote.fromPhase vote.toPhase voterVk
  | _ => True

def phases : List String := ["bootstrap","growth","maturity"]

variable {P S K} in
/-- What the manager does not check itself. -/
def Careful (s : System) : Input P S K → Prop
  | .registerOperator operatorId vkHash =>
    ∀ old, s.manager.operators.get? operatorId=some old → old=vkHash
  | .createVote _ fromPhase toPhase _ _ => fromPhase ∈ phases ∧ toPhase ∈ phases
  | .castVote transitionKey vote voterVk =>
    transitionKey=vote.fromPhase ++ "->" ++ vote.toPhase ∧
      vote.fromPhase ∈ phases ∧ vote.toPhase ∈ phases ∧
      ∃ vk, voterVk=some vk ∧ canonicalHash H vk=vote.voterVkHash

theorem phases_inj : ∀ a ∈ phases, ∀ b ∈ phases, ∀ c ∈ phases, ∀ d ∈ phases,
    encodeText a++encodeText b=encodeText c++encodeText d → a=c ∧ b=d := by decide +kernel

theorem votePayload_inj {a b c d : String} {vk : Bytes} (ha : a ∈ phases) (hb : b ∈ phases)
    (hc : c ∈ phases) (hd : d ∈ phases) (h : votePayload a b vk=votePayload c d vk) :
    a=c ∧ b=d := by
  simp only [votePayload,append_cancel_right_eq] at h
  rw [append_assoc,append_assoc,append_cancel_left_eq] at h
  exact phases_inj a ha b hb c hc d hd h

variable {P S K H} {s : System}

theorem Genuine.mono {s' : System} {transitionKey : String} {vote : TransitionVote}
    (h : Genuine P S H s transitionKey vote) (hr : ∀ r ∈ s.registered, r ∈ s'.registered)
    (hs : ∀ r ∈ s.signed, r ∈ s'.signed) : Genuine P S H s' transitionKey vote := by
  obtain ⟨⟨id,hid⟩,hk,vk,hh,hv,hvk⟩ := h
  exact ⟨⟨id,hr _ hid⟩,hk,vk,hh,hv,hs _ hvk⟩

structure Valid (P : SecurityProfile) (S : MLDSA) (H : CanonicalHash) (s : System) : Prop where
  operators : ∀ id vkHash, (id,vkHash) ∈ s.registered ↔ s.manager.operators.get? id=some vkHash
  phases : ∀ e ∈ s.signed, e.2.1 ∈ phases ∧ e.2.2 ∈ phases
  genuine : ∀ key, ∀ vote ∈ s.manager.votesFor key, Genuine P S H s key vote
  distinct : ∀ key, ((s.manager.votesFor key).map TransitionVote.voterVkHash).Nodup

section
variable (h : Valid P S H s)
include h

theorem Valid.countedFor_le (transitionKey op : String) :
    (s.countedFor transitionKey op).length≤1 := by
  have hd : ((s.countedFor transitionKey op).map TransitionVote.voterVkHash).Nodup :=
    (h.distinct transitionKey).sublist (filter_sublist.map _)
  have ho : (s.countedFor transitionKey op).map TransitionVote.voterVkHash ⊆
      (s.manager.operators.get? op).toList := by
    intro vkHash hm
    obtain ⟨vote,hv,rfl⟩ := mem_map.mp hm
    have hr := of_decide_eq_true (mem_filter.mp hv).2
    exact Option.mem_toList.mpr ((h.operators _ _).mp hr)
  have hle := (hd.subperm ho).length_le
  rw [length_map] at hle
  exact hle.trans (by cases s.manager.operators.get? op <;> simp)

theorem Valid.registerOperator {op vkHash : String}
    (hn : ∀ old, s.manager.operators.get? op=some old → old=vkHash) :
    Valid P S H {s with
      manager := s.manager.registerOperator op vkHash
      registered := s.registered++[(op,vkHash)]} where
  operators id hash := by
    dsimp only [Manager.registerOperator]
    rw [Dict.get?_set,mem_append,mem_singleton,h.operators,Prod.mk.injEq]
    split_ifs with hid
    · subst hid
      constructor
      · rintro (ho|⟨-,rfl⟩)
        · rw [hn hash ho]
        · rfl
      · exact fun hh => .inr ⟨rfl,(Option.some.inj hh).symm⟩
    · exact ⟨fun hm => hm.resolve_right fun hs => hid hs.1.symm,.inl⟩
  phases := h.phases
  genuine key vote hv :=
    (h.genuine key vote hv).mono (fun _ => mem_append_left _) fun _ => id
  distinct := h.distinct

theorem Valid.createVote {vk : Bytes} {fromPhase toPhase : String}
    (hf : fromPhase ∈ TransitionVotes.phases) (hto : toPhase ∈ TransitionVotes.phases) :
    Valid P S H {s with signed := s.signed++[(vk,fromPhase,toPhase)]} where
  operators := h.operators
  phases e he := by
    rcases mem_append.mp he with he|he
    · exact h.phases e he
    · rw [mem_singleton.mp he]
      exact ⟨hf,hto⟩
  genuine key vote hv :=
    (h.genuine key vote hv).mono (fun _ => id) fun _ => mem_append_left _
  distinct := h.distinct

theorem Valid.castVote {transitionKey : String} {vote : TransitionVote} {voterVk : Option Bytes}
    {manager : Manager} {tally : Tally}
    (hca : s.manager.castVote P S transitionKey vote voterVk=.ok (manager,tally))
    (hu : Unforged s (.castVote transitionKey vote voterVk : Input P S K))
    (hc : Careful H s (.castVote transitionKey vote voterVk : Input P S K)) :
    Valid P S H {s with manager := manager} := by
  obtain ⟨hch,⟨op,hr⟩,hf,rfl⟩ := Manager.castVote_ok hca
  obtain ⟨hk,hfr,hto,vk,rfl,hh⟩ := hc
  have hv := Manager.checkSignature_ok hch
  have hg : Genuine P S H s transitionKey vote := by
    obtain ⟨fromPhase,toPhase,hs,hp⟩ := hu hv
    obtain ⟨hf',hto'⟩ := h.phases _ hs
    obtain ⟨rfl,rfl⟩ := votePayload_inj hf' hto' hfr hto hp
    exact ⟨⟨op,(h.operators _ _).mpr hr⟩,hk,vk,hh,hv,hs⟩
  refine ⟨h.operators,h.phases,fun key other ho => ?_,fun key => ?_⟩
  · rw [Manager.votesFor_addVote] at ho
    split_ifs at ho with hsa
    · rcases mem_append.mp ho with ho|ho
      · exact (h.genuine key other ho).mono (fun _ => id) fun _ => id
      · rw [mem_singleton.mp ho,← hsa]
        exact hg.mono (fun _ => id) fun _ => id
    · exact (h.genuine key other ho).mono (fun _ => id) fun _ => id
  · rw [Manager.votesFor_addVote]
    split_ifs with hsa
    · subst hsa
      rw [map_append]
      refine nodup_append'.mpr ⟨h.distinct _,nodup_singleton _,?_⟩
      exact disjoint_singleton.mpr hf
    · exact h.distinct key

theorem Valid.step {input : Input P S K} (hu : Unforged s input) (hc : Careful H s input) :
    Valid P S H (s.step H input) := by
  cases input with
  | registerOperator op vkHash => exact h.registerOperator hc
  | createVote keypair fromPhase toPhase entropy now =>
    rw [System.step]
    split
    · exact h.createVote hc.1 hc.2
    · exact h
  | castVote transitionKey vote voterVk =>
    rw [System.step]
    split
    · next hca => exact h.castVote hca hu hc
    · exact h

end

/-- In every careful run without forged signatures each counted vote is genuine, and each
operator is counted at most once for a key. -/
theorem votes_genuine_and_counted_once (requiredRatio : ℚ) (inputs : List (Input P S K))
    (hunforged : (machine P S K H requiredRatio).Meets Unforged inputs)
    (hcareful : (machine P S K H requiredRatio).Meets (Careful H) inputs) :
    let s := (machine P S K H requiredRatio).state inputs
    ∀ transitionKey, (∀ vote ∈ s.manager.votesFor transitionKey,
      Genuine P S H s transitionKey vote) ∧
      ∀ operatorId, (s.countedFor transitionKey operatorId).length≤1 := by
  have hv := Machine.invariant_of_meets (M := machine P S K H requiredRatio)
    (C := fun s input => Unforged s input ∧ Careful H s input) (P := fun s _ => Valid P S H s)
    ⟨by simp [machine,Manager.empty],by simp [machine],by simp [machine,Manager.empty,
      Manager.votesFor],fun _ => nodup_nil⟩
    (fun s _ input h hi => h.step hi.1 hi.2) inputs
    fun before input after hs => ⟨hunforged before input after hs,hcareful before input after hs⟩
  exact fun transitionKey => ⟨hv.genuine transitionKey,hv.countedFor_le transitionKey⟩

end

section

def byteProfile : SecurityProfile := ⟨1,1,1,1,1,1,1,Nat.one_pos,Nat.one_pos⟩

def byteScheme : MLDSA := ⟨fun _ sk _ => sk,fun vk _ signature => signature == vk⟩

def byteKem : MLKEM := ⟨fun _ _ => ([],[]),fun _ _ => []⟩

def byteKeyPair (key : Byte) : KeyPair byteProfile byteScheme byteKem where
  ek := [key]
  dk := [key]
  vk := [key]
  sk := [key]
  label := "operator"
  dk_size := rfl
  vk_size := rfl
  decrypt_encrypt _ := rfl
  verify_sign _ _ := beq_self_eq_true [key]

def vkHash (key : Byte) : String := canonicalHash cutHash [key]

def ballot (key : Byte) : List (Input byteProfile byteScheme byteKem) :=
  [.registerOperator "a" (vkHash 1),.createVote (byteKeyPair key) "bootstrap" "growth" [] 0,
    .castVote "bootstrap->growth" ⟨vkHash 1,"bootstrap","growth",[key],0,"operator"⟩
      (some [key])]

def voting : Machine System (Input byteProfile byteScheme byteKem) Empty :=
  machine byteProfile byteScheme byteKem cutHash (2 / 3)

theorem ownBallot_genuine : ∃ vote ∈ (voting.state (ballot 1)).manager.votesFor "bootstrap->growth",
      Genuine byteProfile byteScheme cutHash (voting.state (ballot 1))
        "bootstrap->growth" vote := by
  have hu : voting.Meets Unforged (ballot 1) :=
    (voting.meetsFrom_start_iff _ _).mp
      ⟨trivial,trivial,fun _ => ⟨"bootstrap","growth",by decide +kernel,rfl⟩,trivial⟩
  have hc : voting.Meets (Careful cutHash) (ballot 1) := by
    refine (voting.meetsFrom_start_iff _ _).mp ⟨?_,⟨by decide,by decide⟩,?_,trivial⟩
    · intro old ho
      simp [voting,machine,Manager.empty] at ho
    · exact ⟨by decide +kernel,by decide,by decide,[1],rfl,rfl⟩
  have hco : ⟨vkHash 1,"bootstrap","growth",[1],0,"operator"⟩ ∈
      (voting.state (ballot 1)).manager.votesFor "bootstrap->growth" := by decide +kernel
  exact ⟨_,hco,(votes_genuine_and_counted_once (2 / 3) (ballot 1) hu hc
    "bootstrap->growth").1 _ hco⟩

theorem foreignBallot_counted :
    voting.Meets Unforged (ballot 2) ∧ CollisionFree cutHash [[1],[2]] ∧
      ∃ vote ∈ (voting.state (ballot 2)).manager.votesFor "bootstrap->growth",
        ¬Genuine byteProfile byteScheme cutHash (voting.state (ballot 2))
          "bootstrap->growth" vote := by
  refine ⟨(voting.meetsFrom_start_iff _ _).mp
    ⟨trivial,trivial,fun _ => ⟨"bootstrap","growth",by decide +kernel,rfl⟩,trivial⟩,
    by decide +kernel,⟨vkHash 1,"bootstrap","growth",[2],0,"operator"⟩,by decide +kernel,?_⟩
  rintro ⟨-,-,vk,hh,-,hs⟩
  have ho : (voting.state (ballot 2)).signed=[([2],"bootstrap","growth")] := by decide +kernel
  rw [ho,mem_singleton] at hs
  rw [(Prod.mk.inj hs).1] at hh
  revert hh
  decide +kernel

end

end LatticeTransfer.TransitionVotes
