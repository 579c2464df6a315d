import LatticeTransfer.ConsensusProtocol

/-!
# Indirect commits and equivocations

Both rules read a block through its digest. An indirect commit looks for a leader in
the history of a later leader, but it takes the number of validators from the authors
of the first round. The digest covers the payload sorted, so two orders of the same
transactions are one block to the detector.
-/

namespace LatticeTransfer.ConsensusEvidence
open PyValue ConsensusDag ConsensusCommit ConsensusProtocol List

variable {sha3 : Bytes → Bytes} (p : Params) (iter : Iteration)

/-- The leader of the round is in the history of this author's certificate of a later round. -/
def InHistoryOf (dag : DAGStore sha3) (round author later : ℕ) : Prop :=
  ∃ cert, dag.getCertificate (p.leaderForRound round) round=some cert ∧
    ∃ laterCert, dag.getCertificate author later=some laterCert ∧
      cert.digest sha3 ∈ (collectCausalHistory iter dag laterCert ∅).map (Block.digest sha3)

/-- The leader of the round is in the history of the leader of a committed later round. -/
def LeaderInHistory (dag : DAGStore sha3) (round : ℕ) (committedRounds : Finset ℕ) : Prop :=
  ∃ later ∈ committedRounds, round<later ∧
    InHistoryOf p iter dag round (p.leaderForRound later) later

theorem isSome_evaluateIndirectCommit_iff {dag : DAGStore sha3} {round : ℕ}
    {committedRounds : Finset ℕ} (hround : round ∉ committedRounds) :
    (evaluateIndirectCommit iter dag round (p.leaderForRound round) committedRounds).isSome ↔
      ∃ later ∈ committedRounds, round<later ∧
        InHistoryOf p iter dag round (later % nValidators dag) later := by
  have hs : IndirectlySupported dag round (p.leaderForRound round) committedRounds ↔
      ∃ later ∈ committedRounds, round<later ∧
        InHistoryOf p iter dag round (later % nValidators dag) later := by
    simp only [InHistoryOf,mem_digests_collectCausalHistory]
    constructor
    · rintro ⟨cert,hc,later,hm,hlt,laterCert,hla,hh⟩
      exact ⟨later,hm,hlt,cert,hc,laterCert,hla,hh⟩
    · rintro ⟨later,hm,hlt,cert,hc,laterCert,hla,hh⟩
      exact ⟨cert,hc,later,hm,hlt,laterCert,hla,hh⟩
  rw [← hs]
  rcases @evaluateIndirectCommit_eq sha3 iter dag _ _ _ hround with ⟨hno,hn⟩|⟨hs,c,-,h⟩
  · exact iff_of_false (by rw [hn]; exact Bool.false_ne_true) hno
  · exact iff_of_true (by rw [h]; rfl) hs

section

def plainBlock (author round : Fin 4) (parents : Finset Bytes)
    (h : Encodable author round [] parents) : Block :=
  ⟨author,round,[],parents,0,h⟩

def firstBlock (author : Fin 4) : Block :=
  plainBlock author 0 ∅ (by revert author; decide +kernel)

def secondLeader : Block := plainBlock 1 1 {(firstBlock 0).digest id} (by decide +kernel)

def fourthLeader : Block := plainBlock 3 3 {secondLeader.digest id} (by decide +kernel)

def storeOf (authors : List (Fin 4)) : DAGStore id :=
  ([secondLeader,fourthLeader].map fun b => (⟨b,{0,1,2}⟩ : Certificate)).foldl
    DAGStore.addCertificate ((authors.map firstBlock++[secondLeader,fourthLeader]).foldl
      (fun dag b => (dag.addBlock b).2) DAGStore.empty)

def fourValidators : Params := Params.create 0 4 (Nat.zero_lt_succ _) none

end

/-- The blocks agree up to the order of the transactions (and the timestamp). -/
def Reordered (a b : Block) : Prop :=
  a.author=b.author ∧ a.round=b.round ∧ a.payload.Perm b.payload ∧ a.parents=b.parents

def Block.hashed (b : Block) : Bytes := digestInput b.author b.round b.payload b.parents

theorem hashed_eq_iff (a b : Block) : Block.hashed a=Block.hashed b ↔ Reordered a b := by
  obtain ⟨author,round,payload,parents,_,ha,hr,hc,hi,hp⟩ := a
  obtain ⟨author',round',payload',parents',_,ha',hr',hc',hi',hp'⟩ :=
    b
  simp only [Block.hashed,digestInput,Reordered,append_assoc]
  constructor
  · intro h
    obtain ⟨rfl,ht⟩ := toBigEndian_append_inj ha ha' h
    obtain ⟨rfl,hb⟩ := toBigEndian_append_inj hr hr' ht
    obtain ⟨hc,hit⟩ := toBigEndian_append_inj hc hc' hb
    have hm : ∀ l : List Bytes, (∀ x ∈ l, x.length<256^4) →
        ∀ x ∈ l.insertionSort bytesLe, x.length<256^4 :=
      fun l hl x hx => hl x ((mem_insertionSort bytesLe).mp hx)
    obtain ⟨hpa,hla⟩ := flatMap_framed_inj four_pos (hm _ hi) (hm _ hi')
      (.inl (by simpa using hc)) hit
    rw [← append_nil (flatMap _ (sorted bytesLe parents)),
      ← append_nil (flatMap _ (sorted bytesLe parents'))] at hla
    obtain ⟨hs,-⟩ := flatMap_framed_inj four_pos
      (fun x hx => hp x ((mem_sorted _ _ _).mp hx))
      (fun x hx => hp' x ((mem_sorted _ _ _).mp hx)) (.inr ⟨rfl,rfl⟩) hla
    refine ⟨rfl,rfl,?_,?_⟩
    · exact (perm_insertionSort bytesLe payload).symm.trans
        (hpa ▸ perm_insertionSort bytesLe payload')
    · ext x
      rw [← mem_sorted bytesLe,hs,mem_sorted]
  · rintro ⟨rfl,rfl,hpe,rfl⟩
    have hso : payload.insertionSort bytesLe=payload'.insertionSort bytesLe :=
      List.Perm.eq_of_pairwise (fun a b _ _ => Std.Antisymm.antisymm a b)
        (pairwise_insertionSort _ _) (pairwise_insertionSort _ _)
        ((perm_insertionSort _ _).trans (hpe.trans (perm_insertionSort _ _).symm))
    rw [hpe.length_eq,hso]

theorem digest_eq_iff {a b : Block}
    (hfree : a.digest sha3=b.digest sha3 → Block.hashed a=Block.hashed b) :
    a.digest sha3=b.digest sha3 ↔ Reordered a b :=
  ⟨fun h => (hashed_eq_iff a b).mp (hfree h),fun h => congrArg sha3 ((hashed_eq_iff a b).mpr h)⟩

theorem mem_blocksAtRound {dag : DAGStore sha3} {round : ℕ} {b : Block}
    (h : b ∈ dag.blocksAtRound round) : dag.slot round b.author=some b := by
  obtain ⟨author,hg⟩ := (Dict.mem_values_iff _ _).mp h
  rw [(dag.block_slot _ _ _ hg).2]
  exact hg

/-- No stored block has the digest of `b` by a collision. -/
def Unmatched (s : State sha3) (b : Block) : Prop :=
  ∀ x ∈ s.dag.blocks, x.digest sha3=b.digest sha3 → Block.hashed x=Block.hashed b

theorem detectEquivocation_cases {s : State sha3} {a b : Block}
    (hs : s.dag.slot b.round b.author=some a) (hfr : Unmatched s b) :
    (Reordered a b ∧ s.detectEquivocation b=none) ∨
      (¬Reordered a b ∧ s.detectEquivocation b=some ⟨b.author,a,b,b.round⟩) := by
  obtain ⟨hro,ha⟩ := s.dag.block_slot _ _ _ hs
  have hm : a ∈ s.dag.blocks := by rw [DAGStore.mem_blocks,hro,ha,hs]
  have hd := digest_eq_iff (hfr a hm)
  -- the search sees the one block of this author in the round
  have ho : ∀ x ∈ s.dag.blocksAtRound b.round, x.author=b.author → x=a := by
    intro x hx hx'
    have hg := mem_blocksAtRound hx
    rw [hx',hs] at hg
    exact (Option.some.inj hg).symm
  rw [State.detectEquivocation]
  by_cases hsa : a.digest sha3=b.digest sha3
  · refine .inl ⟨hd.mp hsa,?_⟩
    split_ifs
    · rfl
    · rw [find?_eq_none.mpr,Option.map_none]
      intro x hx hf
      obtain ⟨hx',hne⟩ := of_decide_eq_true hf
      exact hne (ho x hx hx' ▸ hsa)
  · refine .inr ⟨hd.not.mp hsa,?_⟩
    rw [if_neg]
    · obtain ⟨x,hx⟩ : ∃ x, (s.dag.blocksAtRound b.round).find? (fun x =>
          decide (x.author=b.author ∧ x.digest sha3≠b.digest sha3))=some x := by
        rw [← Option.isSome_iff_exists,find?_isSome]
        exact ⟨a,(Dict.mem_values_iff _ _).mpr ⟨_,hs⟩,decide_eq_true ⟨ha,hsa⟩⟩
      have hf := find?_some hx
      rw [hx,ho x (mem_of_find?_eq_some hx) (of_decide_eq_true hf).1]
      rfl
    · intro han
      obtain ⟨x,hg,-⟩ := (Option.any_eq_true _ _).mp han
      have hx := DAGStore.slot_of_getBlock hg
      have hh := hfr x (DAGStore.mem_blocks.mpr hx) (DAGStore.digest_of_getBlock hg)
      obtain ⟨hx',hr,-⟩ := (hashed_eq_iff x b).mp hh
      rw [hx',hr,hs] at hx
      rw [Option.some.inj hx] at hsa
      exact hsa (DAGStore.digest_of_getBlock hg)

theorem slot_after_ack {inputs : List Input} {a : Block} (more : List Input)
    (hack : (receiveBlock p ((validator sha3 p iter).state inputs) a).1=some p.index) :
    ((validator sha3 p iter).state (inputs++.receiveBlock a::more)).dag.slot a.round a.author =
      some a := by
  rw [append_cons]
  refine Machine.persists (P := fun s : State sha3 => s.dag.slot a.round a.author=some a)
    (C := fun _ _ => True) (fun s i h _ => slot_step p iter i h) ?_ more fun _ _ _ _ => trivial
  rw [Machine.state_snoc,step_validator,step]
  rcases receiveBlock_cases p ((validator sha3 p iter).state inputs) a with
    ⟨_,-,h⟩ | ⟨hs,h⟩
  · rw [h] at hack
    exact absurd hack (by simp)
  · rw [h]
    exact DAGStore.slot_of_getBlock (getBlock_addBlock p.index hs)

/-- The digest determines a block up to the order of its payload, and the detector sees every
other difference. -/
theorem equivocation_detected_iff (inputs more : List Input) (a b : Block)
    (hack : (receiveBlock p ((validator sha3 p iter).state inputs) a).1=some p.index)
    (hauthor : a.author=b.author) (hround : a.round=b.round)
    (hfree : Unmatched ((validator sha3 p iter).state (inputs++.receiveBlock a::more)) b) :
    (∀ x y : Block, (x.digest sha3=y.digest sha3 → Block.hashed x=Block.hashed y) →
      (x.digest sha3=y.digest sha3 ↔ Reordered x y)) ∧
    (a.digest sha3=b.digest sha3 ↔ Reordered a b) ∧
    (((validator sha3 p iter).state (inputs++.receiveBlock a::more)).detectEquivocation b =
      some ⟨b.author,a,b,b.round⟩ ↔ ¬(a.payload.Perm b.payload ∧ a.parents=b.parents)) := by
  have hs := slot_after_ack p iter more hack
  have hm := DAGStore.mem_blocks.mpr hs
  refine ⟨fun x y => digest_eq_iff,digest_eq_iff (hfree a hm),?_⟩
  rw [hround,hauthor] at hs
  have hr : Reordered a b ↔ a.payload.Perm b.payload ∧ a.parents=b.parents := by
    simp [Reordered,hauthor,hround]
  rw [← hr]
  rcases detectEquivocation_cases hs hfree with ⟨h,hn⟩|⟨h,hso⟩
  · rw [hn]
    exact iff_of_false (by simp) (not_not_intro h)
  · exact iff_of_true hso h

section

def ordered (payload : List Bytes) (h : Encodable 1 0 payload ∅) : Block := ⟨1,0,payload,∅,0,h⟩

def forwards : Block := ordered [[1],[2]] (by decide +kernel)
def backwards : Block := ordered [[2],[1]] (by decide +kernel)
def shorter : Block := ordered [[1]] (by decide +kernel)

theorem shorterBlock_detected : ((validator id fourValidators sortedIteration).state
      ([]++[.receiveBlock forwards])).detectEquivocation shorter = some ⟨1,forwards,shorter,0⟩ ↔
      ¬(forwards.payload.Perm shorter.payload ∧ forwards.parents=shorter.parents) :=
  (@equivocation_detected_iff id fourValidators sortedIteration [] [] forwards shorter
    (by decide +kernel) rfl rfl fun _ _ h => h).2.2

theorem reorderedBlock_not_detected :
    forwards.payload≠backwards.payload ∧ forwards.digest id=backwards.digest id ∧
      ((validator id fourValidators sortedIteration).state
        [.receiveBlock forwards]).detectEquivocation backwards=none := by
  exact ⟨by decide,by decide +kernel,Option.isNone_iff_eq_none.mp (by decide +kernel)⟩

end

end LatticeTransfer.ConsensusEvidence
