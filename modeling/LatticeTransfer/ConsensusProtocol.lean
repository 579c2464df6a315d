import LatticeTransfer.ConsensusCommit
import LatticeTransfer.Machine

/-!
# The protocol state of one validator

Every method of the protocol object is a step of a machine: the input is the call
with its arguments, the outputs are what it returns or raises. The clock is read
by `propose`, so the time is an argument there.
-/

namespace LatticeTransfer.ConsensusProtocol
open PyValue ConsensusDag ConsensusCommit

structure Params where
  index : ℕ
  n : ℕ
  n_pos : 0<n
  f : ℕ

namespace Params

def create (validatorIndex numValidators : ℕ) (hpos : 0<numValidators)
    (faultTolerance : Option ℕ) : Params :=
  ⟨validatorIndex,numValidators,hpos,faultTolerance.getD ((numValidators-1) / 3)⟩

def quorum (p : Params) : ℕ := 2*p.f+1

def leaderForRound (p : Params) (round : ℕ) : ℕ := round % p.n

end Params

structure RoundState where
  proposals : Dict ℕ Block
  acks : Dict Bytes (Finset ℕ)
  certificates : Dict ℕ Certificate
  timedOut : Bool

namespace RoundState

def empty : RoundState := ⟨Dict.empty,Dict.empty,Dict.empty,false⟩

def ackers (rs : RoundState) (digest : Bytes) : Finset ℕ := (rs.acks.get? digest).getD ∅

def addAck (rs : RoundState) (digest : Bytes) (signer : ℕ) : RoundState :=
  {rs with acks := rs.acks.set digest (insert signer (rs.ackers digest))}

def addProposal (rs : RoundState) (block : Block) : RoundState :=
  {rs with proposals := rs.proposals.set block.author block}

def addCertificate (rs : RoundState) (cert : Certificate) : RoundState :=
  {rs with certificates := rs.certificates.set cert.block.author cert}

end RoundState

structure State (sha3 : Bytes → Bytes) where
  dag : DAGStore sha3
  rounds : Dict ℕ RoundState
  equivocators : Finset ℕ
  committedDigests : Finset Bytes
  committedRounds : Finset ℕ
  currentRound : ℕ

variable {sha3 : Bytes → Bytes}

namespace State

def init : State sha3 := ⟨DAGStore.empty,Dict.empty,∅,∅,∅,0⟩

def getRoundState (s : State sha3) (round : ℕ) : RoundState :=
  (s.rounds.get? round).getD RoundState.empty

def updateRound (s : State sha3) (round : ℕ) (change : RoundState → RoundState) : State sha3 :=
  {s with rounds := s.rounds.set round (change (s.getRoundState round))}

def enterRound (s : State sha3) (round : ℕ) : State sha3 :=
  {s with currentRound := max s.currentRound round}

def isEquivocator (s : State sha3) (author : ℕ) : Bool := author ∈ s.equivocators

def addBlock (s : State sha3) (index : ℕ) (block : Block) : State sha3 :=
  ({s with dag := (s.dag.addBlock block).2}.updateRound block.round fun rs =>
    (rs.addProposal block).addAck (block.digest sha3) index).enterRound block.round

def addCertificate (s : State sha3) (cert : Certificate) : State sha3 :=
  {s.updateRound cert.block.round (·.addCertificate cert) with
    dag := s.dag.addCertificate cert}

def detectEquivocation (s : State sha3) (block : Block) : Option EquivocationProof :=
  if (s.dag.getBlock (block.digest sha3)).any fun b => b.digest sha3=block.digest sha3 then none
  else ((s.dag.blocksAtRound block.round).find? fun b =>
    b.author=block.author ∧ b.digest sha3≠block.digest sha3).map
      fun b => ⟨block.author,b,block,block.round⟩

def commit (s : State sha3) (round : ℕ) :
    Option CommitDecision → Option CommitDecision × State sha3
  | none => (none,s)
  | some decision =>
    (some decision,{s with
      committedRounds := insert round s.committedRounds
      committedDigests := s.committedDigests ∪
        (decision.committedBlocks.map (Block.digest sha3)).toFinset})

def skipRound (s : State sha3) (round : ℕ) : State sha3 :=
  s.updateRound round fun rs => {rs with timedOut := true}

end State

variable (p : Params) (iter : Iteration)

def parentDigests (s : State sha3) (round : ℕ) : Finset Bytes :=
  if round=0 then ∅
  else ((s.dag.certificatesAtRound (round-1)).map (Certificate.digest sha3)).toFinset

def proposal (s : State sha3) (round : ℕ) (payload : List Bytes) (timestampMs : ℤ) :
    Except PyError Block :=
  if h : Encodable p.index round payload (parentDigests s round) then
    .ok ⟨p.index,round,payload,parentDigests s round,timestampMs,h⟩
  else .error .overflowError

def propose (s : State sha3) (round : ℕ) (payload : List Bytes) (timestampMs : ℤ) :
    Except PyError (Block × State sha3) :=
  match proposal p s round payload timestampMs with
  | .error e => .error e
  | .ok block => .ok (block,s.addBlock p.index block)

def receiveBlock (s : State sha3) (block : Block) : Option ℕ × State sha3 :=
  if s.isEquivocator block.author then (none,s)
  else
    match s.detectEquivocation block with
    | some _ => (none,{s with equivocators := insert block.author s.equivocators})
    | none =>
      if (s.dag.addBlock block).1 then (some p.index,s.addBlock p.index block)
      else (none,s)

def receiveAck (s : State sha3) (blockDigest : Bytes) (signer : ℕ) :
    Option Certificate × State sha3 :=
  match s.dag.getBlock blockDigest with
  | none => (none,s)
  | some block =>
    let s := s.updateRound block.round (·.addAck blockDigest signer)
    let rs := s.getRoundState block.round
    if p.quorum≤(rs.ackers blockDigest).card ∧ rs.certificates.get? block.author=none then
      let cert : Certificate := ⟨block,rs.ackers blockDigest⟩
      (some cert,s.addCertificate cert)
    else (none,s)

def tryCommitFrom (s : State sha3) (triggerRound : ℕ) : Option CommitDecision × State sha3 :=
  if 0<triggerRound then
    let targetRound := triggerRound-1
    if targetRound ∈ s.committedRounds then (none,s)
    else
      let leader := p.leaderForRound targetRound
      if s.isEquivocator leader then (none,s)
      else s.commit targetRound (evaluateDirectCommit iter s.dag targetRound leader p.quorum)
  else (none,s)

def receiveCertificate (s : State sha3) (cert : Certificate) : Option CommitDecision × State sha3 :=
  tryCommitFrom p iter ((s.addCertificate cert).enterRound cert.block.round) cert.block.round

def checkCommit (s : State sha3) (round : ℕ) : Option CommitDecision × State sha3 :=
  if round ∈ s.committedRounds then (none,s)
  else
    let leader := p.leaderForRound round
    if s.isEquivocator leader then (none,s)
    else
      match evaluateDirectCommit iter s.dag round leader p.quorum with
      | some decision => s.commit round (some decision)
      | none => s.commit round (evaluateIndirectCommit iter s.dag round leader s.committedRounds)

inductive Input
  | propose (round : ℕ) (payload : List Bytes) (timestampMs : ℤ)
  | receiveBlock (block : Block)
  | receiveAck (blockDigest : Bytes) (signer : ℕ)
  | receiveCertificate (cert : Certificate)
  | checkCommit (round : ℕ)
  | skipRound (round : ℕ)

inductive Output
  | block (b : Block)
  | ack (signer : ℕ)
  | certificate (c : Certificate)
  | decision (d : CommitDecision)
  | error (e : PyError)
deriving DecidableEq

def step (s : State sha3) : Input → State sha3 × List Output
  | .propose round payload timestampMs =>
    match propose p s round payload timestampMs with
    | .error e => (s,[.error e])
    | .ok (block,s') => (s',[.block block])
  | .receiveBlock block =>
    ((receiveBlock p s block).2,(receiveBlock p s block).1.toList.map .ack)
  | .receiveAck blockDigest signer =>
    ((receiveAck p s blockDigest signer).2,
      (receiveAck p s blockDigest signer).1.toList.map .certificate)
  | .receiveCertificate cert =>
    ((receiveCertificate p iter s cert).2,
      (receiveCertificate p iter s cert).1.toList.map .decision)
  | .checkCommit round =>
    ((checkCommit p iter s round).2,(checkCommit p iter s round).1.toList.map .decision)
  | .skipRound round => (s.skipRound round,[])

variable (sha3) in
def validator : Machine (State sha3) Input Output := ⟨State.init,step p iter⟩

@[simp] theorem step_validator : (validator sha3 p iter).step=step p iter := rfl

namespace RoundState

variable (rs : RoundState)

@[simp] theorem ackers_addAck (d d' : Bytes) (signer : ℕ) :
    (rs.addAck d signer).ackers d' =
      if d=d' then insert signer (rs.ackers d') else rs.ackers d' := by
  rw [ackers,addAck,Dict.get?_set]
  split_ifs with h
  · rw [h]
    rfl
  · rfl

@[simp] theorem ackers_addProposal (b : Block) (d : Bytes) :
    (rs.addProposal b).ackers d=rs.ackers d := rfl

@[simp] theorem ackers_addCertificate (c : Certificate) (d : Bytes) :
    (rs.addCertificate c).ackers d=rs.ackers d := rfl

end RoundState

namespace State
variable (s : State sha3)

def ackers (round : ℕ) (digest : Bytes) : Finset ℕ := (s.getRoundState round).ackers digest

theorem getRoundState_updateRound (round r : ℕ) (change : RoundState → RoundState) :
    (s.updateRound round change).getRoundState r =
      if round=r then change (s.getRoundState r) else s.getRoundState r := by
  rw [getRoundState,updateRound,Dict.get?_set]
  split_ifs with h
  · rw [h]
    rfl
  · rfl

variable (index : ℕ)

@[simp] theorem dag_addBlock (b : Block) :
    (s.addBlock index b).dag=(s.dag.addBlock b).2 := rfl

theorem addBlock_cases (b : Block) :
    ((s.addBlock index b).dag.getBlock=s.dag.getBlock ∧
      (s.addBlock index b).dag.slot=s.dag.slot) ∨
    (s.dag.slot b.round b.author=none ∧
      (∀ d, (s.addBlock index b).dag.getBlock d =
        if b.digest sha3=d then some b else s.dag.getBlock d) ∧
      ∀ r a, (s.addBlock index b).dag.slot r a =
        if b.round=r ∧ b.author=a then some b else s.dag.slot r a) := by
  rw [dag_addBlock]
  rcases s.dag.addBlock_cases b with ⟨-,ha⟩|⟨hsl,dag,ha,hg,hs,-⟩
  · rw [ha]
    exact .inl ⟨rfl,rfl⟩
  · rw [ha]
    exact .inr ⟨hsl,hg,hs⟩

theorem getCertificate_addBlock (b : Block) :
    (s.addBlock index b).dag.getCertificate=s.dag.getCertificate := by
  rw [dag_addBlock]
  rcases s.dag.addBlock_cases b with ⟨-,ha⟩|⟨-,dag,ha,-,-,hc⟩
  · rw [ha]
  · funext author round
    rw [ha,DAGStore.getCertificate,DAGStore.getCertificate,hc]

@[simp] theorem dag_addCertificate (c : Certificate) :
    (s.addCertificate c).dag=s.dag.addCertificate c := rfl

theorem ackers_updateRound_addAck (round r : ℕ) (d d' : Bytes) (signer : ℕ) :
    (s.updateRound round (·.addAck d signer)).ackers r d' =
      if round=r ∧ d=d' then insert signer (s.ackers r d') else s.ackers r d' := by
  rw [ackers,getRoundState_updateRound]
  by_cases hr : round=r
  · simp [hr,ackers]
  · simp [hr,ackers]

theorem getRoundState_addBlock (b : Block) (r : ℕ) :
    (s.addBlock index b).getRoundState r =
      if b.round=r then ((s.getRoundState r).addProposal b).addAck (b.digest sha3) index
      else s.getRoundState r :=
  getRoundState_updateRound {s with dag := (s.dag.addBlock b).2} b.round r
    fun rs => (rs.addProposal b).addAck (b.digest sha3) index

theorem ackers_addBlock (b : Block) (r : ℕ) (d : Bytes) :
    (s.addBlock index b).ackers r d =
      if b.round=r ∧ b.digest sha3=d then insert index (s.ackers r d) else s.ackers r d := by
  rw [ackers,getRoundState_addBlock]
  by_cases hr : b.round=r
  · simp [hr,ackers]
  · simp [hr,ackers]

theorem mem_ackers_addAck {round r signer x : ℕ} {d d' : Bytes}
    (h : x ∈ (s.updateRound round (·.addAck d signer)).ackers r d') :
    x ∈ s.ackers r d' ∨ (x=signer ∧ d=d') := by
  rw [ackers_updateRound_addAck] at h
  split_ifs at h with hk
  · rcases Finset.mem_insert.mp h with hn|ho
    · exact .inr ⟨hn,hk.2⟩
    · exact .inl ho
  · exact .inl h

theorem mem_ackers_addBlock {index r x : ℕ} {b : Block} {d : Bytes}
    (h : x ∈ (s.addBlock index b).ackers r d) : x ∈ s.ackers r d ∨ (x=index ∧ b.digest sha3=d) := by
  rw [ackers_addBlock] at h
  split_ifs at h with hk
  · rcases Finset.mem_insert.mp h with hn|ho
    · exact .inr ⟨hn,hk.2⟩
    · exact .inl ho
  · exact .inl h

theorem ackers_addCertificate (c : Certificate) (r : ℕ) (d : Bytes) :
    (s.addCertificate c).ackers r d=s.ackers r d := by
  have h : (s.addCertificate c).getRoundState r =
      if c.block.round=r then (s.getRoundState r).addCertificate c else s.getRoundState r :=
    getRoundState_updateRound s c.block.round r (·.addCertificate c)
  rw [ackers,h]
  split_ifs <;> rfl

@[simp] theorem dag_commit (round : ℕ) (d : Option CommitDecision) :
    (s.commit round d).2.dag=s.dag := by cases d <;> rfl

end State

variable {s : State sha3} {round : ℕ} {b : Block}

theorem proposal_eq_ok {payload : List Bytes} {ms : ℤ} (h : proposal p s round payload ms=.ok b) :
    b.author=p.index ∧ b.round=round := by
  rw [proposal] at h
  split_ifs at h
  · rw [← Except.ok.inj h]
    exact ⟨rfl,rfl⟩

theorem receiveBlock_cases (s : State sha3) (b : Block) :
    (∃ equivocators, s.equivocators ⊆ equivocators ∧
      receiveBlock p s b=(none,{s with equivocators := equivocators})) ∨
    (s.dag.slot b.round b.author=none ∧
      receiveBlock p s b=(some p.index,s.addBlock p.index b)) := by
  rw [receiveBlock]
  by_cases he : s.isEquivocator b.author
  · rw [if_pos he]
    exact .inl ⟨s.equivocators,subset_rfl,rfl⟩
  · rw [if_neg he]
    cases s.detectEquivocation b with
    | some proof => exact .inl ⟨_,Finset.subset_insert b.author s.equivocators,rfl⟩
    | none =>
      rcases s.dag.addBlock_cases b with ⟨-,ha⟩|⟨hs,dag,ha,-⟩
      · rw [ha]
        exact .inl ⟨s.equivocators,subset_rfl,rfl⟩
      · rw [ha]
        exact .inr ⟨hs,rfl⟩

theorem step_receiveAck_eq {d : Bytes} (signer : ℕ) (hg : s.dag.getBlock d=some b)
    (hc : (s.getRoundState b.round).certificates.get? b.author=none) :
    step p iter s (.receiveAck d signer) =
      if p.quorum≤(insert signer (s.ackers b.round d)).card then
        ((s.updateRound b.round (·.addAck d signer)).addCertificate
            ⟨b,insert signer (s.ackers b.round d)⟩,
          [.certificate ⟨b,insert signer (s.ackers b.round d)⟩])
      else (s.updateRound b.round (·.addAck d signer),[]) := by
  have ha := s.ackers_updateRound_addAck b.round b.round d d signer
  rw [State.ackers] at ha
  have hn : ((s.updateRound b.round (·.addAck d signer)).getRoundState
      b.round).certificates.get? b.author=none := by
    rw [State.getRoundState_updateRound,if_pos rfl]
    exact hc
  simp only [step,receiveAck,hg,ha,hn,and_true]
  split_ifs <;> rfl

def Open (s : State sha3) (round : ℕ) : Prop :=
  round ∉ s.committedRounds ∧ p.leaderForRound round ∉ s.equivocators

def evaluated (s : State sha3) : Input → State sha3
  | .receiveCertificate cert => (s.addCertificate cert).enterRound cert.block.round
  | _ => s

def Due (s : State sha3) : Input → ℕ → Prop
  | .receiveCertificate cert, round =>
    cert.block.round=round+1 ∧ Open p s round ∧
      Supported (s.dag.addCertificate cert) round (p.leaderForRound round) p.quorum
  | .checkCommit r, round =>
    r=round ∧ Open p s round ∧
      (Supported s.dag round (p.leaderForRound round) p.quorum ∨
        IndirectlySupported s.dag round (p.leaderForRound round) s.committedRounds)
  | _, _ => False

def target : Input → Option ℕ
  | .receiveCertificate cert => if 0<cert.block.round then some (cert.block.round-1) else none
  | .checkCommit round => some round
  | _ => none

variable {i : Input}

theorem target_of_due (h : Due p s i round) : target i=some round := by
  cases i with
  | receiveCertificate cert =>
    have hr := h.1
    rw [target,if_pos (by omega),hr,Nat.add_sub_cancel]
  | checkCommit r => exact congrArg some h.1
  | _ => exact h.elim

variable {r : ℕ}

theorem due_unique (h : Due p s i round) (h' : Due p s i r) : round=r :=
  Option.some.inj ((target_of_due p h).symm.trans (target_of_due p h'))

instance (s : State sha3) (round : ℕ) : Decidable (Open p s round) :=
  inferInstanceAs (Decidable (_ ∧ _))

instance (s : State sha3) : ∀ i round, Decidable (Due p s i round)
  | .receiveCertificate _, _ => inferInstanceAs (Decidable (_ ∧ _ ∧ _))
  | .checkCommit _, _ => inferInstanceAs (Decidable (_ ∧ _ ∧ _))
  | .propose .., _ | .receiveBlock _, _ | .receiveAck .., _ | .skipRound _, _ =>
    inferInstanceAs (Decidable False)

def decisionFor (s : State sha3) (round : ℕ) (c : Certificate) : CommitDecision :=
  ⟨c,collectCausalHistory iter s.dag c ∅,round⟩

theorem ite_open {α : Type} (s : State sha3) (round : ℕ) (x y : α) :
    (if round ∈ s.committedRounds then y
      else if s.isEquivocator (p.leaderForRound round) then y else x) =
      if Open p s round then x else y := by
  by_cases hr : round ∈ s.committedRounds
  · rw [if_pos hr,if_neg fun h => h.1 hr]
  · rw [if_neg hr,State.isEquivocator]
    by_cases hl : p.leaderForRound round ∈ s.equivocators
    · rw [if_pos (decide_eq_true hl),if_neg fun h => h.2 hl]
    · rw [if_neg (by simpa using hl),if_pos ⟨hr,hl⟩]

theorem tryCommitFrom_cases (s : State sha3) (triggerRound : ℕ) :
    ((∀ round, triggerRound=round+1 → ¬(Open p s round ∧
        Supported s.dag round (p.leaderForRound round) p.quorum)) ∧
      tryCommitFrom p iter s triggerRound=(none,s)) ∨
    ∃ round c, triggerRound=round+1 ∧ Open p s round ∧
      Supported s.dag round (p.leaderForRound round) p.quorum ∧
      s.dag.getCertificate (p.leaderForRound round) round=some c ∧
      tryCommitFrom p iter s triggerRound=s.commit round (some (decisionFor iter s round c)) := by
  cases triggerRound with
  | zero => exact .inl ⟨fun round h => absurd h (by omega),rfl⟩
  | succ round =>
    simp only [tryCommitFrom,Nat.zero_lt_succ,if_true,Nat.add_sub_cancel,ite_open,
      Nat.add_right_cancel_iff,forall_eq']
    split_ifs with ho
    · rcases evaluateDirectCommit_eq iter round (p.leaderForRound round) p.quorum with
        ⟨hno,hr⟩ | ⟨hy,c,hc,hr⟩
      · exact .inl ⟨fun h => hno h.2,by rw [hr]; rfl⟩
      · exact .inr ⟨round,c,rfl,ho,hy,hc,by rw [hr]; rfl⟩
    · exact .inl ⟨fun h => ho h.1,rfl⟩

theorem checkCommit_cases (s : State sha3) (round : ℕ) :
    (¬(Open p s round ∧ (Supported s.dag round (p.leaderForRound round) p.quorum ∨
        IndirectlySupported s.dag round (p.leaderForRound round) s.committedRounds)) ∧
      checkCommit p iter s round=(none,s)) ∨
    ∃ c, Open p s round ∧ (Supported s.dag round (p.leaderForRound round) p.quorum ∨
        IndirectlySupported s.dag round (p.leaderForRound round) s.committedRounds) ∧
      s.dag.getCertificate (p.leaderForRound round) round=some c ∧
      checkCommit p iter s round=s.commit round (some (decisionFor iter s round c)) := by
  simp only [checkCommit,ite_open]
  split_ifs with ho
  · rcases evaluateDirectCommit_eq iter round (p.leaderForRound round) p.quorum with
      ⟨hno,hr⟩ | ⟨hy,c,hc,hr⟩
    · rw [hr]
      rcases evaluateIndirectCommit_eq iter ho.1 with ⟨hno',hr'⟩|⟨hy,c,hc,hr'⟩
      · exact .inl ⟨fun h => h.2.elim hno hno',by rw [hr']; rfl⟩
      · exact .inr ⟨c,ho,.inr hy,hc,by rw [hr']; rfl⟩
    · rw [hr]
      exact .inr ⟨c,ho,.inl hy,hc,rfl⟩
  · exact .inl ⟨fun h => ho h.1,rfl⟩

def offered (s : State sha3) : Input → Option Block
  | .propose round payload timestampMs => (proposal p s round payload timestampMs).toOption
  | .receiveBlock block => some block
  | _ => none

theorem offered_eq_some (h : offered p s i=some b) : i=.receiveBlock b ∨
      ∃ payload ms, i=.propose b.round payload ms ∧ b.author=p.index := by
  cases i with
  | propose round payload ms =>
    right
    cases hp : proposal p s round payload ms with
    | error e =>
      rw [offered,hp] at h
      exact absurd h (by simp [Except.toOption])
    | ok x =>
      rw [offered,hp] at h
      cases h
      obtain ⟨ha,hr⟩ := proposal_eq_ok p hp
      exact ⟨payload,ms,by rw [hr],ha⟩
  | receiveBlock x =>
    rw [Option.some.inj h]
    exact .inl rfl
  | _ => exact absurd h (by simp [offered])

def ProposesOnce (s : State sha3) : Input → Prop
  | .propose round _ _ => s.dag.slot round p.index=none
  | _ => True

inductive Effect (s : State sha3) : Input → State sha3 × List Output → Prop
  | quiet {i : Input} {s' : State sha3} {out : List Output} (hdue : ∀ round, ¬Due p s i round)
    (hdag : s'.dag=s.dag) (hackers : s'.ackers=s.ackers)
    (hdigests : s'.committedDigests=s.committedDigests)
    (hrounds : s'.committedRounds=s.committedRounds)
    (hequivocators : s.equivocators ⊆ s'.equivocators)
    (hout : out=[] ∨ ∃ e, out=[.error e]) : Effect s i (s',out)
  | stores {i : Input} {b : Block} {o : Output} (hdue : ∀ round, ¬Due p s i round)
    (hoffered : offered p s i=some b)
    (hslot : ProposesOnce p s i → s.dag.slot b.round b.author=none)
    (hout : o=.block b ∨ o=.ack p.index) : Effect s i (s.addBlock p.index b,[o])
  | acks {d : Bytes} {signer : ℕ} {b : Block} (hget : s.dag.getBlock d=some b) :
    Effect s (.receiveAck d signer) (s.updateRound b.round (·.addAck d signer),[])
  | certifies {d : Bytes} {signer : ℕ} {c : Certificate} (hget : s.dag.getBlock d=some c.block)
    (hquorum : p.quorum≤c.signers.card)
    (hsigners : c.signers=insert signer (s.ackers c.block.round d)) :
    Effect s (.receiveAck d signer)
      ((s.updateRound c.block.round (·.addAck d signer)).addCertificate c,[.certificate c])
  | takes {cert : Certificate} (hdue : ∀ round, ¬Due p s (.receiveCertificate cert) round) :
    Effect s (.receiveCertificate cert) (evaluated s (.receiveCertificate cert),[])
  | commits {i : Input} {round : ℕ} {c : Certificate} (hdue : Due p s i round)
    (hc : (evaluated s i).dag.getCertificate (p.leaderForRound round) round=some c) :
    Effect s i (((evaluated s i).commit round (some (decisionFor iter (evaluated s i) round c))).2,
      [.decision (decisionFor iter (evaluated s i) round c)])

theorem ackers_skipRound (s : State sha3) (round : ℕ) : (s.skipRound round).ackers=s.ackers := by
  funext r d
  rw [State.ackers,State.skipRound,State.getRoundState_updateRound]
  split_ifs <;> rfl

theorem ackers_evaluated (s : State sha3) (i : Input) : (evaluated s i).ackers=s.ackers := by
  cases i with
  | receiveCertificate cert =>
    funext r d
    exact s.ackers_addCertificate cert r d
  | _ => rfl

theorem getCertificate_evaluated {author : ℕ} {c : Certificate}
    (h : (evaluated s i).dag.getCertificate author round=some c) :
    s.dag.getCertificate author round=some c ∨ i=.receiveCertificate c := by
  cases i with
  | receiveCertificate cert =>
    have hf : (s.dag.addCertificate cert).getCertificate author round=some c := h
    rw [DAGStore.getCertificate_addCertificate] at hf
    split_ifs at hf
    · rw [Option.some.inj hf]
      exact .inr rfl
    · exact .inl hf
  | _ => exact .inl h

theorem step_effect (s : State sha3) (i : Input) : Effect p iter s i (step p iter s i) := by
  cases i with
  | propose round payload ms =>
    rw [step,propose]
    cases h : proposal p s round payload ms with
    | error e => exact .quiet (fun _ => id) rfl rfl rfl rfl subset_rfl (.inr ⟨e,rfl⟩)
    | ok b =>
      obtain ⟨ha,hr⟩ := proposal_eq_ok p h
      refine .stores (fun _ => id) (by rw [offered,h]; rfl) (fun ho => ?_) (.inl rfl)
      rw [ha,hr]
      exact ho
  | receiveBlock b =>
    rw [step]
    rcases receiveBlock_cases p s b with ⟨equivocators,hs,h⟩|⟨hsl,h⟩
    · rw [h]
      exact .quiet (fun _ => id) rfl rfl rfl rfl hs (.inl rfl)
    · rw [h]
      exact .stores (fun _ => id) rfl (fun _ => hsl) (.inr rfl)
  | receiveAck d signer =>
    simp only [step,receiveAck]
    cases hg : s.dag.getBlock d with
    | none => exact .quiet (fun _ => id) rfl rfl rfl rfl subset_rfl (.inl rfl)
    | some b =>
      have hac := s.ackers_updateRound_addAck b.round b.round d d signer
      rw [if_pos ⟨rfl,rfl⟩] at hac
      dsimp only
      split_ifs with hq
      · exact .certifies hg hq.1 hac
      · exact .acks hg
  | receiveCertificate cert =>
    rcases tryCommitFrom_cases p iter (evaluated s (.receiveCertificate cert)) cert.block.round with
      ⟨hno,h⟩ | ⟨round,c,hr,hop,hsu,hc,h⟩
    · rw [step,receiveCertificate]
      simp only [evaluated] at h
      rw [h]
      exact .takes fun round hd => hno round hd.1 hd.2
    · have hd : Due p s (.receiveCertificate cert) round := ⟨hr,hop,hsu⟩
      have he : Effect p iter s _ _ := .commits hd hc
      rw [step,receiveCertificate]
      simp only [evaluated] at h he
      rw [h]
      exact he
  | checkCommit round =>
    rcases checkCommit_cases p iter s round with ⟨hno,h⟩|⟨c,hop,hsu,hc,h⟩
    · rw [step,h]
      refine .quiet ?_ rfl rfl rfl rfl subset_rfl (.inl rfl)
      rintro r ⟨rfl,hd⟩
      exact hno hd
    · rw [step,h]
      exact .commits ⟨rfl,hop,hsu⟩ hc
  | skipRound round =>
    exact .quiet (fun _ => id) rfl (ackers_skipRound s round) rfl rfl subset_rfl (.inl rfl)

theorem step_commits (s : State sha3) (i : Input) :
    ((∀ round, ¬Due p s i round) ∧ (∀ d, .decision d ∉ (step p iter s i).2) ∧
      (step p iter s i).1.committedDigests=s.committedDigests) ∨ ∃ round c, Due p s i round ∧
      (evaluated s i).dag.getCertificate (p.leaderForRound round) round=some c ∧ step p iter s i =
        (((evaluated s i).commit round (some (decisionFor iter (evaluated s i) round c))).2,
          [.decision (decisionFor iter (evaluated s i) round c)]) := by
  have he := step_effect p iter s i
  generalize step p iter s i=result at he ⊢
  cases he with
  | quiet hdu _ _ hd _ _ ho =>
    refine .inl ⟨hdu,?_,hd⟩
    rcases ho with rfl|⟨e,rfl⟩ <;> simp
  | stores hdu _ _ ho =>
    refine .inl ⟨hdu,?_,rfl⟩
    rcases ho with rfl|rfl <;> simp
  | acks _ => exact .inl ⟨fun _ => id,by simp,rfl⟩
  | certifies _ _ _ => exact .inl ⟨fun _ => id,by simp,rfl⟩
  | takes hdu => exact .inl ⟨hdu,by simp,rfl⟩
  | commits hdu hc => exact .inr ⟨_,_,hdu,hc,rfl⟩

theorem step_blocks (s : State sha3) (i : Input) :
    ((step p iter s i).1.dag.getBlock=s.dag.getBlock ∧
      (step p iter s i).1.dag.slot=s.dag.slot) ∨
    ∃ b, offered p s i=some b ∧ s.dag.slot b.round b.author=none ∧
      (∀ d, (step p iter s i).1.dag.getBlock d =
        if b.digest sha3=d then some b else s.dag.getBlock d) ∧
      ∀ r a, (step p iter s i).1.dag.slot r a =
        if b.round=r ∧ b.author=a then some b else s.dag.slot r a := by
  have he := step_effect p iter s i
  generalize step p iter s i=result at he ⊢
  cases he with
  | quiet _ hd =>
    rw [hd]
    exact .inl ⟨rfl,rfl⟩
  | @stores _ b _ _ ho =>
    exact (s.addBlock_cases p.index b).imp_right fun hn => ⟨b,ho,hn⟩
  | acks | certifies | takes => exact .inl ⟨rfl,rfl⟩
  | @commits _ round c =>
    cases i <;> exact .inl ⟨rfl,rfl⟩

theorem slot_step {a : ℕ} (i : Input) (h : s.dag.slot r a=some b) :
    (step p iter s i).1.dag.slot r a=some b := by
  rcases step_blocks p iter s i with ⟨-,hsa⟩|⟨new,-,hf,-,hs⟩
  · rw [hsa]
    exact h
  · rw [hs,if_neg]
    · exact h
    · rintro ⟨hr,ha⟩
      rw [hr,ha,h] at hf
      exact absurd hf (by simp)

theorem getBlock_addBlock (index : ℕ) (hs : s.dag.slot b.round b.author=none) :
    (s.addBlock index b).dag.getBlock (b.digest sha3)=some b := by
  rcases s.dag.addBlock_cases b with ⟨⟨x,hx⟩,-⟩|⟨-,dag,ha,hg,-⟩
  · rw [hs] at hx
    exact absurd hx (by simp)
  · rw [State.dag_addBlock,ha,hg,if_pos rfl]

theorem step_ackers {signer : ℕ} {d : Bytes} (h : signer ∈ (step p iter s i).1.ackers r d) :
    signer ∈ s.ackers r d ∨ i=.receiveAck d signer ∨ (signer=p.index ∧
        (ProposesOnce p s i → ∃ b, (step p iter s i).1.dag.getBlock d=some b)) := by
  have he := step_effect p iter s i
  generalize step p iter s i=result at he h ⊢
  cases he with
  | quiet _ _ ha =>
    rw [ha] at h
    exact .inl h
  | @stores _ b _ _ _ hsl =>
    rcases s.mem_ackers_addBlock h with hol|⟨hs,hd⟩
    · exact .inl hol
    · rw [← hd]
      exact .inr (.inr ⟨hs,fun ho => ⟨b,getBlock_addBlock p.index (hsl ho)⟩⟩)
  | acks _ =>
    refine (s.mem_ackers_addAck h).imp_right ?_
    rintro ⟨rfl,rfl⟩
    exact .inl rfl
  | certifies _ _ _ =>
    rw [State.ackers_addCertificate] at h
    refine (s.mem_ackers_addAck h).imp_right ?_
    rintro ⟨rfl,rfl⟩
    exact .inl rfl
  | takes _ => exact .inl (ackers_evaluated s _ ▸ h)
  | commits _ _ => exact .inl (ackers_evaluated s _ ▸ h)

theorem ackers_subset_step (s : State sha3) (i : Input) (r : ℕ) (d : Bytes) :
    s.ackers r d ⊆ (step p iter s i).1.ackers r d := by
  have ha : ∀ (b : Block) d' x,
      s.ackers r d ⊆ (s.updateRound b.round (·.addAck d' x)).ackers r d := by
    intro b d' x
    rw [State.ackers_updateRound_addAck]
    split_ifs
    · exact Finset.subset_insert _ _
    · exact Finset.Subset.refl _
  have he := step_effect p iter s i
  generalize step p iter s i=result at he ⊢
  cases he with
  | quiet _ _ hac => rw [hac]
  | stores _ _ _ _ =>
    rw [State.ackers_addBlock]
    split_ifs
    · exact Finset.subset_insert _ _
    · exact Finset.Subset.refl _
  | acks _ => exact ha _ _ _
  | certifies _ _ _ =>
    rw [State.ackers_addCertificate]
    exact ha _ _ _
  | takes _ => rw [ackers_evaluated]
  | commits _ _ => exact (congrFun₂ (ackers_evaluated s i) r d).ge

theorem step_certified {c : Certificate} (h : .certificate c ∈ (step p iter s i).2) :
    s.dag.getBlock (c.digest sha3)=some c.block ∧ p.quorum≤c.signers.card ∧
      c.signers=(step p iter s i).1.ackers c.block.round (c.digest sha3) := by
  have he := step_effect p iter s i
  generalize step p iter s i=result at he h ⊢
  cases he with
  | quiet _ _ _ _ _ _ ho => rcases ho with rfl | ⟨e,rfl⟩ <;> simp at h
  | stores _ _ _ ho => rcases ho with rfl | rfl <;> simp at h
  | certifies hg hq hs =>
    obtain rfl := Output.certificate.inj (List.mem_singleton.mp h)
    have hd : c.digest sha3=_ := DAGStore.digest_of_getBlock hg
    rw [hd,State.ackers_addCertificate,State.ackers_updateRound_addAck,if_pos ⟨rfl,rfl⟩]
    exact ⟨hg,hq,hs⟩
  | _ => simp at h

variable {p iter} in
theorem certified_of_receiveAck {d : Bytes} {signer : ℕ} {c : Certificate}
    (h : .certificate c ∈ (step p iter s (.receiveAck d signer)).2) :
    s.dag.getBlock d=some c.block := by
  have he := step_effect p iter s (.receiveAck d signer)
  generalize step p iter s (.receiveAck d signer)=result at he h
  cases he with
  | quiet _ _ _ _ _ _ ho => rcases ho with rfl | ⟨e,rfl⟩ <;> simp at h
  | certifies hg =>
    obtain rfl := Output.certificate.inj (List.mem_singleton.mp h)
    exact hg
  | stores _ ho => cases ho
  | commits hd => cases hd
  | acks => simp at h

theorem step_certificates {author : ℕ} {c : Certificate}
    (h : (step p iter s i).1.dag.getCertificate author round=some c) :
    s.dag.getCertificate author round=some c ∨ i=.receiveCertificate c ∨
      .certificate c ∈ (step p iter s i).2 := by
  have he := step_effect p iter s i
  generalize step p iter s i=result at he h ⊢
  cases he with
  | quiet _ hd =>
    rw [hd] at h
    exact .inl h
  | stores _ _ _ _ =>
    rw [State.getCertificate_addBlock] at h
    exact .inl h
  | acks _ => exact .inl h
  | certifies _ _ _ =>
    rw [State.dag_addCertificate,DAGStore.getCertificate_addCertificate] at h
    split_ifs at h
    · rw [Option.some.inj h]
      exact .inr (.inr List.mem_cons_self)
    · exact .inl h
  | takes _ => exact (getCertificate_evaluated h).imp_right .inl
  | commits _ _ =>
    exact (getCertificate_evaluated h).imp_right .inl

end LatticeTransfer.ConsensusProtocol
