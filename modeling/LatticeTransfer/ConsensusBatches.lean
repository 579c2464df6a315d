import LatticeTransfer.ConsensusProtocol

/-!
# Batches of one validator

Every decision becomes an ordered batch of the transactions of its blocks. The set
of committed digests is kept, but no evaluation of the rule reads it: a leader brings
all its stored ancestors. A run commits each block once and puts each transaction in
one batch exactly if the leaders that become due in it are `Separate`.
-/

namespace LatticeTransfer.ConsensusBatches
open PyValue ConsensusDag ConsensusCommit ConsensusProtocol List

structure OrderedBatch where
  round : ℕ
  epoch : ℕ
  transactions : List Bytes
  leaderAuthority : ℕ
  timestampMs : ℤ
  consensusType : String
deriving DecidableEq

def toOrderedBatch (decision : CommitDecision) (epoch : ℕ) : OrderedBatch where
  round := decision.round
  epoch := epoch
  transactions := decision.committedBlocks.flatMap Block.payload
  leaderAuthority := decision.leaderCertificate.block.author
  timestampMs := decision.leaderCertificate.block.timestampMs
  consensusType := "dag"

variable {sha3 : Bytes → Bytes} (p : Params) (iter : Iteration)

def decisions (outputs : List Output) : List CommitDecision :=
  outputs.filterMap fun
    | .decision d => some d
    | _ => none

theorem decisions_append (out more : List Output) :
    decisions (out++more)=decisions out++decisions more := filterMap_append

theorem mem_decisions {out : List Output} {d : CommitDecision} :
    d ∈ decisions out ↔ .decision d ∈ out := by
  rw [decisions,mem_filterMap]
  constructor
  · rintro ⟨o,ho,hd⟩
    cases o with
    | decision d' =>
      rw [← Option.some.inj hd]
      exact ho
    | _ => exact absurd hd (by simp)
  · intro h
    exact ⟨_,h,rfl⟩

variable (sha3) in
def committed (decision : CommitDecision) : List Bytes :=
  decision.committedBlocks.map (Block.digest sha3)

variable (sha3) in
/-- No digest is committed by two decisions, and no transaction is in two batches. -/
def CommittedOnce (outputs : List Output) : Prop :=
  (decisions outputs).Pairwise fun d d' => (∀ x ∈ committed sha3 d, x ∉ committed sha3 d') ∧
    ∀ tx ∈ (toOrderedBatch d 0).transactions, tx ∉ (toOrderedBatch d' 0).transactions

instance (outputs : List Output) : Decidable (CommittedOnce sha3 outputs) :=
  inferInstanceAs (Decidable (List.Pairwise _ _))

def Orders (s : State sha3) (i : Input) (b : Block) : Prop :=
  ∃ round c, Due p s i round ∧
    (evaluated s i).dag.getCertificate (p.leaderForRound round) round=some c ∧
    ∃ x, Causal (evaluated s i).dag ∅ (c.digest sha3) x ∧ (evaluated s i).dag.getBlock x=some b

variable (sha3) in
def Apart (b b' : Block) : Prop :=
  b.digest sha3≠b'.digest sha3 ∧ ∀ tx ∈ b.payload, tx ∉ b'.payload

variable (sha3) in
/-- The leaders that become due at two calls of the run have no stored ancestor in common, and
no ancestors with a common transaction. -/
def Separate (inputs : List Input) : Prop :=
  ∀ middle j after, inputs=middle++j::after →
    ∀ b', Orders p ((validator sha3 p iter).state middle) j b' →
      (validator sha3 p iter).Meets (fun s i => ∀ b, Orders p s i b → Apart sha3 b b') middle

theorem step_orders (s : State sha3) (i : Input) :
    (decisions (step p iter s i).2=[] ∧ ∀ b, ¬Orders p s i b) ∨
      ∃ d, decisions (step p iter s i).2=[d] ∧ ∀ b, b ∈ d.committedBlocks ↔ Orders p s i b := by
  rcases step_commits p iter s i with ⟨hno,hn,-⟩|⟨round,c,hdu,hc,h⟩
  · refine .inl ⟨?_,fun b ⟨round,_,hdu,_⟩ => hno round hdu⟩
    rw [eq_nil_iff_forall_not_mem]
    exact fun d hd => hn d (mem_decisions.mp hd)
  · refine .inr ⟨decisionFor iter (evaluated s i) round c,by rw [h]; rfl,fun b => ?_⟩
    refine (mem_collectCausalHistory iter c ∅ b).trans ⟨fun hx => ⟨round,c,hdu,hc,hx⟩,?_⟩
    rintro ⟨r,c',hd',hc',hx⟩
    rw [due_unique p hd' hdu,hc] at hc'
    cases hc'
    exact hx

theorem forall_committed_iff (P : Block → Prop) (inputs : List Input) :
    (∀ d ∈ decisions ((validator sha3 p iter).outputs inputs), ∀ b ∈ d.committedBlocks, P b) ↔
      (validator sha3 p iter).Meets (fun s i => ∀ b, Orders p s i b → P b) inputs := by
  refine Machine.iff_meets (J := fun _ _ => True)
    (P := fun out => ∀ d ∈ decisions out, ∀ b ∈ d.committedBlocks, P b) (fun _ => trivial)
    (forall_mem_nil _) (fun s out i _ => ?_) inputs
  change (∀ d ∈ decisions (out++(step p iter s i).2), _) ↔ _
  rw [decisions_append,forall_mem_append]
  rcases step_orders p iter s i with ⟨hn,ho⟩|⟨d,hd,ho⟩
  · simp [hn,ho]
  · simp [hd,ho]

theorem apart_iff (d d' : CommitDecision) : ((∀ x ∈ committed sha3 d, x ∉ committed sha3 d') ∧
      ∀ tx ∈ (toOrderedBatch d 0).transactions, tx ∉ (toOrderedBatch d' 0).transactions) ↔
      ∀ b ∈ d.committedBlocks, ∀ b' ∈ d'.committedBlocks, Apart sha3 b b' := by
  simp only [committed,toOrderedBatch,Apart,mem_map,mem_flatMap]
  constructor
  · rintro ⟨hd,ht⟩ b hb b' hb'
    exact ⟨fun he => hd _ ⟨b,hb,rfl⟩ ⟨b',hb',he.symm⟩,
      fun tx htx htx' => ht tx ⟨b,hb,htx⟩ ⟨b',hb',htx'⟩⟩
  · intro h
    refine ⟨?_,?_⟩
    · rintro x ⟨b,hb,rfl⟩ ⟨b',hb',he⟩
      exact (h b hb b' hb').1 he.symm
    · rintro tx ⟨b,hb,htx⟩ ⟨b',hb',htx'⟩
      exact (h b hb b' hb').2 tx htx htx'

section

def leaderBlock : Block := ⟨0,0,[[7]],∅,0,by decide +kernel⟩

def secondBlock (author : Fin 3) : Block :=
  ⟨author,1,[],{leaderBlock.digest id},0,by revert author; decide +kernel⟩

def thirdBlock (author : Fin 3) : Block :=
  ⟨author,2,[],{(secondBlock 1).digest id},0,by revert author; decide +kernel⟩

def quorumCertificate (b : Block) : Certificate := ⟨b,{0,1,2}⟩

def twoLeadersRun : List Input :=
  [.receiveBlock leaderBlock,.receiveCertificate (quorumCertificate leaderBlock),
    .receiveBlock (secondBlock 1)] ++
    [0,1,2].map (fun a => .receiveCertificate (quorumCertificate (secondBlock a))) ++
    [0,1,2].map (fun a => .receiveCertificate (quorumCertificate (thirdBlock a)))

def observer : Params := Params.create 3 4 (by decide) none

end

end LatticeTransfer.ConsensusBatches
