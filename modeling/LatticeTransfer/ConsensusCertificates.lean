import LatticeTransfer.ConsensusProtocol
import LatticeTransfer.QuorumIntersection

/-!
# Certificates in a network of validators

The validators share nothing: a run of the network interleaves calls of the `n`
protocol objects in any order, and every object makes the run of its own calls. A
certificate is returned to the validator that counts a quorum of acknowledgements.
-/

namespace LatticeTransfer.ConsensusCertificates
open PyValue ConsensusDag ConsensusCommit ConsensusProtocol QuorumIntersection List DAGStore Machine

variable {n : ℕ}

def member (v : Fin n) : Params := Params.create v n (Fin.pos v) none

def network (sha3 : Bytes → Bytes) (iter : Fin n → Iteration) :
    Machine (Fin n → State sha3) (Fin n × Input) (Fin n × Output) :=
  Machine.interleave fun v => validator sha3 (member v) (iter v)

def ValidSigner (n : ℕ) : Input → Prop
  | .receiveAck _ signer => signer<n
  | _ => True

instance (n : ℕ) : DecidablePred (ValidSigner n) := fun input => by
  cases input <;> unfold ValidSigner <;> infer_instance

variable {sha3 : Bytes → Bytes}

def AckOnce (faulty : Finset (Fin n)) (s : Fin n → State sha3) : Prop :=
  ∀ v ∉ faulty, ∀ u u' : Fin n, ∀ b ∈ (s u).dag.blocks, ∀ b' ∈ (s u').dag.blocks,
    b.author=b'.author → b.round=b'.round →
    v.val ∈ (s u).ackers b.round (b.digest sha3) →
    v.val ∈ (s u').ackers b'.round (b'.digest sha3) → b.digest sha3=b'.digest sha3

instance (faulty : Finset (Fin n)) (s : Fin n → State sha3) : Decidable (AckOnce faulty s) := by
  unfold AckOnce
  infer_instance

/-- At most one block of an author and a round is certified, in every run of the network in
which the correct validators acknowledge at most one. -/
def UniqueCertificates (n : ℕ) : Prop :=
  ∀ (sha3 : Bytes → Bytes) (iter : Fin n → Iteration) (faulty : Finset (Fin n))
    (inputs : List (Fin n × Input)), faulty.card≤(n-1) / 3 → (∀ i ∈ inputs, ValidSigner n i.2) →
    AckOnce faulty ((network sha3 iter).state inputs) →
    ∀ u u' c c', (u,.certificate c) ∈ (network sha3 iter).outputs inputs →
      (u',.certificate c') ∈ (network sha3 iter).outputs inputs →
      c.block.author=c'.block.author → c.block.round=c'.block.round →
      c.digest sha3=c'.digest sha3

section
variable (p : Params) (iter : Iteration)

def Certified (s : State sha3) (c : Certificate) : Prop :=
  c.block ∈ s.dag.blocks ∧ p.quorum≤c.signers.card ∧
    c.signers ⊆ s.ackers c.block.round (c.digest sha3)

theorem certified_step {s : State sha3} {out : List Output} (i : Input)
    (h : ∀ c, .certificate c ∈ out → Certified p s c) :
    ∀ c, .certificate c ∈ out++(step p iter s i).2 → Certified p (step p iter s i).1 c := by
  intro c hc
  rcases mem_append.mp hc with ho|hn
  · obtain ⟨hb,hq,hs⟩ := h c ho
    have hsl := slot_step p iter i (mem_blocks.mp hb)
    exact ⟨mem_blocks.mpr hsl,hq,hs.trans (ackers_subset_step p iter s i _ _)⟩
  · obtain ⟨hg,hq,hs⟩ := step_certified p iter hn
    have hsl := slot_step p iter i (slot_of_getBlock hg)
    exact ⟨mem_blocks.mpr hsl,hq,hs.subset⟩

theorem certified_run (inputs : List Input) (c : Certificate)
    (h : .certificate c ∈ (validator sha3 p iter).outputs inputs) :
    Certified p ((validator sha3 p iter).state inputs) c :=
  invariant (P := fun s out => ∀ c, .certificate c ∈ out → Certified p s c)
    (fun _ hc => absurd hc not_mem_nil) (fun _ _ i h => certified_step p iter i h) inputs c h

variable {inputs : List Input}

theorem mem_ackers_run {r signer : ℕ} {d : Bytes}
    (h : signer ∈ ((validator sha3 p iter).state inputs).ackers r d) :
    signer=p.index ∨ .receiveAck d signer ∈ inputs := by
  induction inputs using reverseRecOn with
  | nil => exact absurd h (Finset.notMem_empty signer)
  | append_singleton inputs i ih =>
    rw [state_snoc] at h
    rcases step_ackers p iter h with ho|hd|⟨hs,-⟩
    · exact (ih ho).imp_right (mem_append_left _)
    · rw [hd]
      exact .inr (mem_append_right _ mem_cons_self)
    · exact .inl hs

theorem mem_blocks_run {b : Block} (h : b ∈ ((validator sha3 p iter).state inputs).dag.blocks) :
    .receiveBlock b ∈ inputs ∨ ∃ payload ms, .propose b.round payload ms ∈ inputs := by
  induction inputs using reverseRecOn with
  | nil => exact absurd h not_mem_nil
  | append_singleton inputs i ih =>
    have hol : ((validator sha3 p iter).state inputs).dag.slot b.round b.author=some b →
        .receiveBlock b ∈ inputs++[i] ∨
          ∃ payload ms, .propose b.round payload ms ∈ inputs++[i] := by
      intro hsl
      rcases ih (mem_blocks.mpr hsl) with hm|⟨payload,ms,hm⟩
      · exact .inl (mem_append_left _ hm)
      · exact .inr ⟨payload,ms,mem_append_left _ hm⟩
    have hl : i ∈ inputs++[i] := mem_append_right _ mem_cons_self
    rw [state_snoc,mem_blocks,step_validator] at h
    rcases step_blocks p iter ((validator sha3 p iter).state inputs) i with
      ⟨-,hsa⟩ | ⟨x,ho,-,-,hs⟩
    · rw [hsa] at h
      exact hol h
    · rw [hs] at h
      split_ifs at h
      · cases h
        rcases offered_eq_some p ho with rfl|⟨payload,ms,rfl,-⟩
        · exact .inl hl
        · exact .inr ⟨payload,ms,hl⟩
      · exact hol h

end

theorem certified_network {iter : Fin n → Iteration} {inputs : List (Fin n × Input)}
    {u : Fin n} {c : Certificate} (h : (u,.certificate c) ∈ (network sha3 iter).outputs inputs) :
    Certified (member u) ((network sha3 iter).state inputs u) c := by
  rw [network,state_interleave]
  exact certified_run _ _ _ c ((mem_outputs_interleave _).mp h)

theorem ackers_network {iter : Fin n → Iteration} {inputs : List (Fin n × Input)}
    (h : ∀ i ∈ inputs, ValidSigner n i.2) (u : Fin n) (r : ℕ) (d : Bytes) :
    ((network sha3 iter).state inputs u).ackers r d ⊆ Finset.range n := by
  intro signer hs
  rw [network,state_interleave] at hs
  rcases mem_ackers_run (member u) (iter u) hs with hse|hd
  · rw [hse]
    exact Finset.mem_range.mpr u.isLt
  · exact Finset.mem_range.mpr (h _ (mem_addressed.mp hd))

theorem exists_correct_signer (hn : n % 3=1) {faulty : Finset (Fin n)}
    (hf : faulty.card≤(n-1) / 3) {p q : Finset ℕ} (hp : p ⊆ Finset.range n)
    (hq : q ⊆ Finset.range n) (hpc : 2*((n-1) / 3)+1≤p.card)
    (hqc : 2*((n-1) / 3)+1≤q.card) : ∃ v : Fin n, v ∉ faulty ∧ v.val ∈ p ∧ v.val ∈ q := by
  have hm : (Finset.range n).card≤3*((n-1) / 3)+1 := by
    rw [Finset.card_range]
    omega
  have hc : (faulty.map Fin.valEmbedding).card≤(n-1) / 3 := by
    rw [Finset.card_map]
    exact hf
  obtain ⟨v,hvp,hvq,hv⟩ := exists_correct hm hc hp hq hpc hqc
  refine ⟨⟨v,Finset.mem_range.mp (hp hvp)⟩,fun hme => hv ?_,hvp,hvq⟩
  exact Finset.mem_map.mpr ⟨_,hme,rfl⟩

theorem uniqueCertificates_of_mod (hn : n % 3=1) : UniqueCertificates n := by
  intro sha3 iter faulty inputs hf hs ho u u' c c' hc hc' ha hr
  obtain ⟨hb,hq,hco⟩ := certified_network hc
  obtain ⟨hb',hq',hco'⟩ := certified_network hc'
  obtain ⟨v,hv,hvc,hvc'⟩ := exists_correct_signer hn hf
    (hco.trans (ackers_network hs u _ _))
    (hco'.trans (ackers_network hs u' _ _)) hq hq'
  exact ho v hv u u' c.block hb c'.block hb' ha hr (hco hvc)
    (hco' hvc')

variable (sha3) in
def votes (b : Block) (signers : List ℕ) : List Input :=
  .receiveBlock b::signers.map (.receiveAck (b.digest sha3))

section
variable (p : Params) (iter : Iteration) (b : Block)

structure Collecting (s : State sha3) (acked : Finset ℕ) : Prop where
  stored : s.dag.getBlock (b.digest sha3)=some b
  uncertified : (s.getRoundState b.round).certificates.get? b.author=none
  ackers : s.ackers b.round (b.digest sha3)=acked

theorem collecting_receiveBlock :
    Collecting b ((validator sha3 p iter).state [.receiveBlock b]) {p.index} := by
  have hs : (validator sha3 p iter).state [.receiveBlock b] =
      State.init.addBlock p.index b := rfl
  rw [hs]
  refine ⟨getBlock_addBlock p.index rfl,?_,?_⟩
  · rw [State.getRoundState_addBlock,if_pos rfl]
    rfl
  · rw [State.ackers_addBlock,if_pos ⟨rfl,rfl⟩]
    rfl

theorem Collecting.receiveAck {s : State sha3} {acked : Finset ℕ} (h : Collecting b s acked)
    (signer : ℕ) :
    (∃ c, c.block=b ∧ .certificate c ∈ (step p iter s (.receiveAck (b.digest sha3) signer)).2) ∨
    ((insert signer acked).card<p.quorum ∧
      Collecting b (step p iter s (.receiveAck (b.digest sha3) signer)).1
        (insert signer acked)) := by
  rw [step_receiveAck_eq p iter signer h.stored h.uncertified,h.ackers]
  split_ifs with hq
  · exact .inl ⟨_,rfl,mem_cons_self⟩
  · refine .inr ⟨not_le.mp hq,h.stored,?_,?_⟩
    · rw [State.getRoundState_updateRound,if_pos rfl]
      exact h.uncertified
    · rw [State.ackers_updateRound_addAck,if_pos ⟨rfl,rfl⟩,h.ackers]

theorem votes_cases (signers : List ℕ) :
    (∃ c, c.block=b ∧ .certificate c ∈ (validator sha3 p iter).outputs (votes sha3 b signers)) ∨
    (Collecting b ((validator sha3 p iter).state (votes sha3 b signers))
        (insert p.index signers.toFinset) ∧
      (signers≠[] → (insert p.index signers.toFinset).card<p.quorum)) := by
  induction signers using reverseRecOn with
  | nil => exact .inr ⟨collecting_receiveBlock p iter b,fun h => absurd rfl h⟩
  | append_singleton signers signer ih =>
    have hs : votes sha3 b (signers++[signer]) =
        votes sha3 b signers++[.receiveAck (b.digest sha3) signer] := by simp [votes]
    have hi : insert p.index (signers++[signer]).toFinset =
        insert signer (insert p.index signers.toFinset) := by
      ext x
      simp only [Finset.mem_insert,mem_toFinset,mem_append,mem_singleton]
      tauto
    rw [hs,outputs_snoc,state_snoc,hi]
    rcases ih with ⟨c,hb,hc⟩|⟨hco,-⟩
    · exact .inl ⟨c,hb,mem_append_left _ hc⟩
    · rcases hco.receiveAck p iter b signer with ⟨c,hb,hc⟩|⟨hf,hn⟩
      · exact .inl ⟨c,hb,mem_append_right _ hc⟩
      · exact .inr ⟨hn,fun _ => hf⟩

variable {signers : List ℕ}

theorem votes_certified (hne : signers≠[]) (hq : p.quorum ≤ signers.toFinset.card) :
    ∃ c, c.block=b ∧ .certificate c ∈ (validator sha3 p iter).outputs (votes sha3 b signers) := by
  rcases votes_cases p iter b signers with hc|⟨-,hf⟩
  · exact hc
  · have hle := Finset.card_le_card (Finset.subset_insert p.index signers.toFinset)
    have hlt := hf hne
    omega

theorem eq_of_mem_blocks_votes {x : Block}
    (h : x ∈ ((validator sha3 p iter).state (votes sha3 b signers)).dag.blocks) : x=b := by
  rcases mem_blocks_run p iter h with hm|⟨payload,ms,hm⟩
  · simpa [votes] using hm
  · simp [votes] at hm

theorem mem_ackers_votes {r signer : ℕ} {d : Bytes}
    (h : signer ∈ ((validator sha3 p iter).state (votes sha3 b signers)).ackers r d) :
    signer=p.index ∨ signer ∈ signers := by
  refine (mem_ackers_run p iter h).imp_right fun hm => ?_
  simp only [votes,mem_cons,reduceCtorEq,false_or,mem_map] at hm
  obtain ⟨x,hx,-,rfl⟩ := hm
  exact hx

end

section

def firstBlock : Block := ⟨0,0,[],∅,0,by decide +kernel⟩
def otherBlock : Block := ⟨0,0,[[]],∅,0,by decide +kernel⟩

def splitInputs (u w : Fin n) (p q : List ℕ) : List (Fin n × Input) :=
  (votes id firstBlock p).map (Prod.mk u)++(votes id otherBlock q).map (Prod.mk w)

variable {u w : Fin n} {p q : List ℕ}

section
variable (huw : u≠w)
include huw

theorem addressed_splitInputs (v : Fin n) :
    Machine.addressed v (splitInputs u w p q) =
      if v=u then votes id firstBlock p
      else if v=w then votes id otherBlock q else [] := by
  rw [splitInputs,addressed_append,addressed_map,addressed_map]
  by_cases hu : v=u
  · subst hu
    simp [huw.symm]
  · by_cases hw : v=w
    · subst hw
      simp [hu,Ne.symm hu]
    · simp [hu,hw,Ne.symm hu,Ne.symm hw]

theorem state_splitInputs (iter : Fin n → Iteration) (v : Fin n) :
    (network id iter).state (splitInputs u w p q) v =
      (validator id (member v) (iter v)).state
        (if v=u then votes id firstBlock p
          else if v=w then votes id otherBlock q else []) := by
  rw [network,state_interleave,addressed_splitInputs huw]

theorem mem_blocks_splitInputs (iter : Fin n → Iteration) {v : Fin n} {b : Block}
    (h : b ∈ ((network id iter).state (splitInputs u w p q) v).dag.blocks) :
    (v=u ∧ b=firstBlock) ∨ (v=w ∧ b=otherBlock) := by
  rw [state_splitInputs huw] at h
  split_ifs at h with hu hw
  · exact .inl ⟨hu,eq_of_mem_blocks_votes _ _ _ h⟩
  · exact .inr ⟨hw,eq_of_mem_blocks_votes _ _ _ h⟩
  · exact absurd h not_mem_nil

theorem ackOnce_splitInputs (iter : Fin n → Iteration) (hu : u.val ∈ p) (hw : w.val ∈ q)
    {faulty : Finset (Fin n)} (hf : ∀ v : Fin n, v.val ∈ p → v.val ∈ q → v ∈ faulty) :
    AckOnce faulty ((network id iter).state (splitInputs u w p q)) := by
  have hfi : ∀ x r d, x ∈ ((network id iter).state (splitInputs u w p q) u).ackers r d →
      x ∈ p := by
    intro x r d hx
    rw [state_splitInputs huw,if_pos rfl] at hx
    rcases mem_ackers_votes _ _ _ hx with rfl|hm
    · exact hu
    · exact hm
  have ho : ∀ x r d, x ∈ ((network id iter).state (splitInputs u w p q) w).ackers r d →
      x ∈ q := by
    intro x r d hx
    rw [state_splitInputs huw,if_neg huw.symm,if_pos rfl] at hx
    rcases mem_ackers_votes _ _ _ hx with rfl|hm
    · exact hw
    · exact hm
  intro v hv a a' b hb b' hb' _ _ hack hack'
  rcases mem_blocks_splitInputs huw iter hb with ⟨rfl,rfl⟩|⟨rfl,rfl⟩
  · rcases mem_blocks_splitInputs huw iter hb' with ⟨rfl,rfl⟩|⟨rfl,rfl⟩
    · rfl
    · exact absurd (hf v (hfi _ _ _ hack) (ho _ _ _ hack')) hv
  · rcases mem_blocks_splitInputs huw iter hb' with ⟨rfl,rfl⟩|⟨rfl,rfl⟩
    · exact absurd (hf v (hfi _ _ _ hack') (ho _ _ _ hack)) hv
    · rfl

end

theorem validSigner_splitInputs (hp : ∀ x ∈ p, x<n) (hq : ∀ x ∈ q, x<n) :
    ∀ i ∈ splitInputs u w p q, ValidSigner n i.2 := by
  intro i hi
  simp only [splitInputs,votes,map_cons,map_map,mem_append,mem_cons,mem_map] at hi
  rcases hi with (rfl|⟨x,hx,rfl⟩)|(rfl|⟨x,hx,rfl⟩)
  · trivial
  · exact hp x hx
  · trivial
  · exact hq x hx

theorem certified_splitInputs (huw : u≠w) (iter : Fin n → Iteration) (hp : p≠[])
    (hq : q≠[]) (hpc : 2*((n-1) / 3)+1≤p.toFinset.card)
    (hqc : 2*((n-1) / 3)+1≤q.toFinset.card) : (∃ c, c.block=firstBlock ∧
      (u,.certificate c) ∈ (network id iter).outputs (splitInputs u w p q)) ∧
    ∃ c, c.block=otherBlock ∧
      (w,.certificate c) ∈ (network id iter).outputs (splitInputs u w p q) := by
  rw [network]
  simp only [mem_outputs_interleave,addressed_splitInputs huw,if_neg huw.symm]
  exact ⟨votes_certified (member u) (iter u) firstBlock hp hpc,
    votes_certified (member w) (iter w) otherBlock hq hqc⟩

theorem firstBlock_digest_ne : firstBlock.digest id≠otherBlock.digest id := by decide +kernel

end

theorem mod_of_uniqueCertificates (hn : 0<n) (h : UniqueCertificates n) : n % 3=1 := by
  by_contra hmo
  have hm : 3*((n-1) / 3)+2≤(Finset.univ : Finset (Fin n)).card := by
    rw [Finset.card_fin]
    omega
  obtain ⟨p,q,-,-,hpc,hqc,hi,⟨u,hu⟩,⟨w,hw⟩⟩ := exists_quorums hm
  obtain ⟨hup,huq⟩ := Finset.mem_sdiff.mp hu
  obtain ⟨hwq,-⟩ := Finset.mem_sdiff.mp hw
  have huw : u≠w := fun heq => huq (heq ▸ hwq)
  -- the acknowledgements of a quorum, in the order in which they are delivered
  let signers : Finset (Fin n) → List ℕ := fun s => (s.map Fin.valEmbedding).toList
  have hme : ∀ s (v : Fin n), v.val ∈ signers s ↔ v ∈ s := fun s v =>
    Finset.mem_toList.trans (Finset.mem_map' Fin.valEmbedding)
  have hlt : ∀ s, ∀ x ∈ signers s, x<n := by
    intro s x hx
    obtain ⟨v,-,rfl⟩ := Finset.mem_map.mp (Finset.mem_toList.mp hx)
    exact v.isLt
  have hca : ∀ s, (signers s).toFinset.card=s.card := fun s => by
    rw [Finset.toList_toFinset,Finset.card_map]
  obtain ⟨⟨c,hc,hco⟩,c',hc',hco'⟩ := certified_splitInputs huw (fun _ => sortedIteration)
    (ne_nil_of_mem ((hme p u).mpr hup)) (ne_nil_of_mem ((hme q w).mpr hwq))
    ((hca p).trans hpc).ge ((hca q).trans hqc).ge
  have hb : ∀ v : Fin n, v.val ∈ signers p → v.val ∈ signers q → v ∈ p ∩ q :=
    fun v hvp hvq => Finset.mem_inter.mpr ⟨(hme p v).mp hvp,(hme q v).mp hvq⟩
  have ho := ackOnce_splitInputs huw (fun _ => sortedIteration) ((hme p u).mpr hup)
    ((hme q w).mpr hwq) hb
  have hd := h id (fun _ => sortedIteration) (p ∩ q) _ hi
    (validSigner_splitInputs (hlt p) (hlt q)) ho u w c c' hco hco'
    (by rw [hc,hc']; rfl) (by rw [hc,hc']; rfl)
  rw [Certificate.digest,Certificate.digest,hc,hc'] at hd
  exact firstBlock_digest_ne hd

theorem uniqueCertificates_iff_mod (hn : 0<n) : UniqueCertificates n ↔ n % 3=1 :=
  ⟨mod_of_uniqueCertificates hn,uniqueCertificates_of_mod⟩

theorem uniqueCertificates_four_not_five : UniqueCertificates 4 ∧ ¬UniqueCertificates 5 :=
  ⟨(uniqueCertificates_iff_mod (by decide)).mpr rfl,
    fun h => absurd ((uniqueCertificates_iff_mod (by decide)).mp h) (by decide)⟩

section

def leftBlock : Block := ⟨4,0,[],∅,0,by decide +kernel⟩
def rightBlock : Block := ⟨4,0,[[7]],∅,0,by decide +kernel⟩

def twoBlocksRun : List (Fin 5 × Input) :=
  [(0,.receiveBlock leftBlock),(1,.receiveBlock leftBlock),
    (2,.receiveBlock rightBlock),(3,.receiveBlock rightBlock),
    (0,.receiveAck (leftBlock.digest id) 1),(0,.receiveAck (leftBlock.digest id) 4),
    (2,.receiveAck (rightBlock.digest id) 3),(2,.receiveAck (rightBlock.digest id) 4)]

theorem twoBlocksRun_certifies_both : (∀ i ∈ twoBlocksRun, ValidSigner 5 i.2) ∧
      AckOnce {4} ((network id fun _ => sortedIteration).state twoBlocksRun) ∧
      leftBlock.digest id≠rightBlock.digest id ∧
      (network id fun _ => sortedIteration).outputs twoBlocksRun =
        [(0,.ack 0),(1,.ack 1),(2,.ack 2),(3,.ack 3),
          (0,.certificate ⟨leftBlock,{4,1,0}⟩),(2,.certificate ⟨rightBlock,{4,3,2}⟩)] := by
  decide +kernel

end

end LatticeTransfer.ConsensusCertificates
