import LatticeTransfer.ConsensusCertificates

/-!
# Agreement on committed leaders

The messages a correct validator receives are `Authentic`: blocks, acknowledgements
and certificates that name a correct validator go back to what that validator stored.
Nothing is assumed about the order of delivery, about lost messages, or about what
the faulty validators send and store.

This is not enough for agreement. A certificate is counted without its block, and an
ancestor that is missing is left out of the history, so a validator that is behind
commits fewer blocks. The digest leaves out the timestamp and the order of the
payload. Two leader blocks can both be certified if `n` is not `3f + 1`. `Settled`
excludes the three; then any two correct validators that commit a round commit the
same leader block and the same list.
-/

namespace LatticeTransfer.ConsensusAgreement
open PyValue ConsensusDag ConsensusCommit ConsensusProtocol ConsensusCertificates List DAGStore

variable {n : ℕ} {sha3 : Bytes → Bytes} (faulty : Finset (Fin n)) (s : Fin n → State sha3)

def SignedBy (d : Bytes) (signer : ℕ) : Prop :=
  signer<n ∧ ∀ v ∉ faulty, v.val=signer → ((s v).dag.getBlock d).isSome

def Backed (c : Certificate) : Prop :=
  2*((n-1) / 3)+1≤c.signers.card ∧ ∀ x ∈ c.signers, SignedBy faulty s (c.digest sha3) x

def Authentic (v : Fin n) : Input → Prop
  | .propose round _ _ => (s v).dag.slot round v=none
  | .receiveBlock b => ∀ a ∉ faulty, b.author=a.val → (s a).dag.slot b.round b.author=some b
  | .receiveAck d signer => SignedBy faulty s d signer
  | .receiveCertificate c => Backed faulty s c
  | .checkCommit _ | .skipRound _ => True

instance (d : Bytes) (signer : ℕ) : Decidable (SignedBy faulty s d signer) :=
  inferInstanceAs (Decidable (_ ∧ ∀ v ∉ faulty, _))

instance (c : Certificate) : Decidable (Backed faulty s c) :=
  inferInstanceAs (Decidable (_ ∧ ∀ x ∈ c.signers, _))

instance (v : Fin n) : DecidablePred (Authentic faulty s v)
  | .propose .. => inferInstanceAs (Decidable (_ = _))
  | .receiveBlock _ => inferInstanceAs (Decidable (∀ a ∉ faulty, _))
  | .receiveAck d signer => inferInstanceAs (Decidable (SignedBy faulty s d signer))
  | .receiveCertificate c => inferInstanceAs (Decidable (Backed faulty s c))
  | .checkCommit _ | .skipRound _ => inferInstanceAs (Decidable True)

variable (sha3) in
def Identified (blocks : List Block) : Prop :=
  ∀ b ∈ blocks, ∀ b' ∈ blocks, b.digest sha3=b'.digest sha3 → b=b'

def known : List Block :=
  (finRange n).flatMap fun u =>
    if u ∈ faulty then [] else (s u).dag.blocks++(s u).dag.certificates.map Certificate.block

def brought (v : Fin n) : Input → List Block
  | .receiveCertificate c => [c.block]
  | i => (offered (member v) (s v) i).toList

/-- Two leader blocks of the round cannot both be certified. -/
def LeaderSafe (round : ℕ) : Prop := n % 3=1 ∨ ∃ v ∉ faulty, v.val=round % n

structure Settled (v : Fin n) (i : Input) : Prop where
  identified : Identified sha3 (known faulty s++brought s v i)
  leaderSafe : ∀ round, Due (member v) (s v) i round → LeaderSafe faulty round
  complete : ∀ round, Due (member v) (s v) i round →
    ∀ c, (evaluated (s v) i).dag.getCertificate (round % n) round=some c →
      Complete (evaluated (s v) i).dag (c.digest sha3)

instance (blocks : List Block) : Decidable (Identified sha3 blocks) :=
  inferInstanceAs (Decidable (∀ b ∈ blocks, ∀ b' ∈ blocks, _ → _))

instance (round : ℕ) : Decidable (LeaderSafe faulty round) :=
  inferInstanceAs (Decidable (_ ∨ ∃ _, _ ∧ _))

instance (v : Fin n) (i : Input) : Decidable (Settled faulty s v i) :=
  decidable_of_iff
    (Identified sha3 (known faulty s++brought s v i) ∧
      ∀ round ∈ target i, Due (member v) (s v) i round → LeaderSafe faulty round ∧
        ∀ c ∈ (evaluated (s v) i).dag.getCertificate (round % n) round,
          Complete (evaluated (s v) i).dag (c.digest sha3))
    ⟨fun h => ⟨h.1,fun round hd => (h.2 round (target_of_due _ hd) hd).1,
        fun round hd => (h.2 round (target_of_due _ hd) hd).2⟩,
      fun h => ⟨h.identified,fun round _ hd => ⟨h.leaderSafe round hd,h.complete round hd⟩⟩⟩

def Agreement (out : List (Fin n × Output)) : Prop :=
  ∀ u ∉ faulty, ∀ w ∉ faulty, ∀ d d', (u,.decision d) ∈ out → (w,.decision d') ∈ out →
    d.round=d'.round → d.leaderCertificate.block=d'.leaderCertificate.block ∧
      d.committedBlocks=d'.committedBlocks

variable {faulty s}

structure Extends (faulty : Finset (Fin n)) (s s' : Fin n → State sha3) : Prop where
  getBlock : ∀ u ∉ faulty, ∀ d b, (s u).dag.getBlock d=some b → (s' u).dag.getBlock d=some b
  slot : ∀ u ∉ faulty, ∀ r a b, (s u).dag.slot r a=some b → (s' u).dag.slot r a=some b

variable {u : Fin n} {b : Block}

theorem mem_known_of_mem_blocks (hu : u ∉ faulty) (h : b ∈ (s u).dag.blocks) :
    b ∈ known faulty s := by
  refine mem_flatMap.mpr ⟨u,mem_finRange u,?_⟩
  rw [if_neg hu]
  exact mem_append_left _ h

theorem mem_known_of_getBlock (hu : u ∉ faulty) {d : Bytes} (h : (s u).dag.getBlock d=some b) :
    b ∈ known faulty s :=
  mem_known_of_mem_blocks hu (mem_blocks.mpr (slot_of_getBlock h))

variable {c : Certificate}

theorem mem_known_of_getCertificate (hu : u ∉ faulty) {author round : ℕ}
    (h : (s u).dag.getCertificate author round=some c) : c.block ∈ known faulty s := by
  refine mem_flatMap.mpr ⟨u,mem_finRange u,?_⟩
  rw [if_neg hu]
  exact mem_append_right _ (mem_map_of_mem (mem_certificates_of_get h))

theorem mem_brought_of_offered {v : Fin n} {i : Input} (h : offered (member v) (s v) i=some b) :
    b ∈ brought s v i := by
  cases i with
  | receiveCertificate c => exact absurd h (by simp [offered])
  | _ => exact Option.mem_toList.mpr h

def next (iter : Fin n → Iteration) (s : Fin n → State sha3) (v : Fin n) (i : Input) :
    Fin n → State sha3 :=
  Function.update s v (step (member v) (iter v) (s v) i).1

variable {iter : Fin n → Iteration} {v : Fin n} {i : Input}

theorem next_self : next iter s v i v=(step (member v) (iter v) (s v) i).1 :=
  Function.update_self _ _ _

theorem next_of_ne (h : u≠v) : next iter s v i u=s u :=
  Function.update_of_ne h _ _

theorem getBlock_step (hv : v ∉ faulty) (h : Identified sha3 (known faulty s++brought s v i))
    {d : Bytes} (hg : (s v).dag.getBlock d=some b) :
    (step (member v) (iter v) (s v) i).1.dag.getBlock d=some b := by
  rcases step_blocks (member v) (iter v) (s v) i with ⟨hsame,-⟩|⟨x,hx,hf,hn,-⟩
  · rw [hsame]
    exact hg
  · rw [hn]
    split_ifs with hd
    · exfalso
      -- the digest identifies the blocks, but the slot of the new one is free
      have heq : b=x := h b (mem_append_left _ (mem_known_of_getBlock hv hg)) x
        (mem_append_right _ (mem_brought_of_offered hx))
        ((digest_of_getBlock hg).trans hd.symm)
      rw [← heq,slot_of_getBlock hg] at hf
      exact absurd hf (by simp)
    · exact hg

theorem extends_next (h : v ∉ faulty → Identified sha3 (known faulty s++brought s v i)) :
    Extends faulty s (next iter s v i) := by
  constructor
  · intro u hu d b hg
    by_cases huv : u=v
    · subst huv
      rw [next_self]
      exact getBlock_step hu (h hu) hg
    · rw [next_of_ne huv]
      exact hg
  · intro u hu r a b hs
    by_cases huv : u=v
    · subst huv
      rw [next_self]
      exact slot_step _ _ i hs
    · rw [next_of_ne huv]
      exact hs

variable {s' : Fin n → State sha3}

theorem SignedBy.mono {d : Bytes} {signer : ℕ} (h : SignedBy faulty s d signer)
    (hext : Extends faulty s s') : SignedBy faulty s' d signer := by
  refine ⟨h.1,fun v hv hs => ?_⟩
  obtain ⟨b,hb⟩ := Option.isSome_iff_exists.mp (h.2 v hv hs)
  exact Option.isSome_iff_exists.mpr ⟨b,hext.getBlock v hv d b hb⟩

theorem Backed.mono (h : Backed faulty s c) (hext : Extends faulty s s') : Backed faulty s' c :=
  ⟨h.1,fun x hx => (h.2 x hx).mono hext⟩

structure Rooted (faulty : Finset (Fin n)) (s : Fin n → State sha3) : Prop where
  authored : ∀ u ∉ faulty, ∀ b ∈ (s u).dag.blocks, ∀ a ∉ faulty, b.author=a.val →
    b ∈ (s a).dag.blocks
  acked : ∀ u ∉ faulty, ∀ r d, ∀ x ∈ (s u).ackers r d, SignedBy faulty s d x
  backed : ∀ u ∉ faulty, ∀ author round c, (s u).dag.getCertificate author round=some c →
    Backed faulty s c

section
variable (h : Rooted faulty s) (hext : Extends faulty s (next iter s v i))
  (hauth : v ∉ faulty → Authentic faulty s v i)
include h hext hauth

theorem authored_next :
    ∀ u ∉ faulty, ∀ b ∈ (next iter s v i u).dag.blocks, ∀ a ∉ faulty, b.author=a.val →
      b ∈ (next iter s v i a).dag.blocks := by
  intro u hu b hb a ha haut
  have hg : b ∈ (s a).dag.blocks → b ∈ (next iter s v i a).dag.blocks := fun hm =>
    mem_blocks.mpr (hext.slot a ha _ _ _ (mem_blocks.mp hm))
  by_cases huv : u=v
  · subst huv
    have hsl := mem_blocks.mp hb
    rw [next_self] at hsl
    rcases step_blocks (member u) (iter u) (s u) i with ⟨-,hsame⟩|⟨x,hx,-,-,hs⟩
    · rw [hsame] at hsl
      exact hg (h.authored u hu b (mem_blocks.mpr hsl) a ha haut)
    · rw [hs] at hsl
      split_ifs at hsl
      · cases hsl
        rcases offered_eq_some _ hx with rfl|⟨payload,ms,rfl,hse⟩
        · exact hg (mem_blocks.mpr (hauth hu a ha haut))
        · -- the proposer is the author
          have hau : a=u := Fin.ext (haut.symm.trans hse)
          rw [hau]
          exact hb
      · exact hg (h.authored u hu b (mem_blocks.mpr hsl) a ha haut)
  · rw [next_of_ne huv] at hb
    exact hg (h.authored u hu b hb a ha haut)

theorem acked_next : ∀ u ∉ faulty, ∀ r d, ∀ x ∈ (next iter s v i u).ackers r d,
      SignedBy faulty (next iter s v i) d x := by
  intro u hu r d x hx
  by_cases huv : u=v
  · subst huv
    have hx' := hx
    rw [next_self] at hx'
    rcases step_ackers _ _ hx' with hol|rfl|⟨hse,hs⟩
    · exact (h.acked u hu r d x hol).mono hext
    · exact .mono (hauth hu) hext
    · have ho : ProposesOnce (member u) (s u) i := by
        cases i with
        | propose round payload ms => exact hauth hu
        | _ => trivial
      refine ⟨hse ▸ u.isLt,fun a _ ha => ?_⟩
      have hau : a=u := Fin.ext (ha.trans hse)
      rw [hau,next_self]
      exact Option.isSome_iff_exists.mpr (hs ho)
  · rw [next_of_ne huv] at hx
    exact (h.acked u hu r d x hx).mono hext

theorem rooted_next : Rooted faulty (next iter s v i) := by
  refine ⟨authored_next h hext hauth,acked_next h hext hauth,?_⟩
  intro u hu author round c hc
  by_cases huv : u=v
  · subst huv
    rw [next_self] at hc
    rcases step_certificates _ _ hc with ho|rfl|hr
    · exact (h.backed u hu author round c ho).mono hext
    · exact .mono (hauth hu) hext
    · obtain ⟨-,hq,hs⟩ := step_certified _ _ hr
      refine ⟨hq,fun x hx => ?_⟩
      refine acked_next h hext hauth u hu c.block.round (c.digest sha3) x ?_
      rw [next_self,← hs]
      exact hx
  · rw [next_of_ne huv] at hc
    exact (h.backed u hu author round c hc).mono hext

end

structure Decided (faulty : Finset (Fin n)) (iter : Iteration) (s : Fin n → State sha3)
    (u : Fin n) (d : CommitDecision) : Prop where
  backed : Backed faulty s d.leaderCertificate
  round : d.leaderCertificate.block.round=d.round
  author : d.leaderCertificate.block.author=d.round % n
  leaderSafe : LeaderSafe faulty d.round
  stored : (s u).dag.getBlock (d.leaderCertificate.digest sha3)=some d.leaderCertificate.block
  complete : Complete (s u).dag (d.leaderCertificate.digest sha3)
  history : d.committedBlocks=collectCausalHistory iter (s u).dag d.leaderCertificate ∅

variable {d : CommitDecision}

theorem Decided.mono {iter : Iteration} (hu : u ∉ faulty) (h : Decided faulty iter s u d)
    (hext : Extends faulty s s') : Decided faulty iter s' u d where
  backed := h.backed.mono hext
  round := h.round
  author := h.author
  leaderSafe := h.leaderSafe
  stored := hext.getBlock u hu _ _ h.stored
  complete := h.complete.mono (hext.getBlock u hu)
  history := by
    rw [h.history]
    refine collectCausalHistory_eq_of_complete iter rfl h.complete
      (h.complete.mono (hext.getBlock u hu)) fun d x y hx hy => ?_
    exact Option.some.inj ((hext.getBlock u hu d x hx).symm.trans hy)

def SameBlocks (faulty : Finset (Fin n)) (s : Fin n → State sha3) : Prop :=
  ∀ u ∉ faulty, ∀ w ∉ faulty, ∀ d x y, (s u).dag.getBlock d=some x →
    (s w).dag.getBlock d=some y → x=y

theorem mem_of_getBlock_next (hu : u ∉ faulty) {d : Bytes}
    (h : (next iter s v i u).dag.getBlock d=some b) : b ∈ known faulty s++brought s v i := by
  by_cases huv : u=v
  · subst huv
    rw [next_self] at h
    rcases step_blocks (member u) (iter u) (s u) i with ⟨hsame,-⟩|⟨x,hx,-,hn,-⟩
    · rw [hsame] at h
      exact mem_append_left _ (mem_known_of_getBlock hu h)
    · rw [hn] at h
      split_ifs at h
      · rw [← Option.some.inj h]
        exact mem_append_right _ (mem_brought_of_offered hx)
      · exact mem_append_left _ (mem_known_of_getBlock hu h)
  · rw [next_of_ne huv] at h
    exact mem_append_left _ (mem_known_of_getBlock hu h)

theorem sameBlocks_next (h : Identified sha3 (known faulty s++brought s v i)) :
    SameBlocks faulty (next iter s v i) := by
  intro u hu w hw d x y hx hy
  refine h x (mem_of_getBlock_next hu hx) y (mem_of_getBlock_next hw hy) ?_
  rw [digest_of_getBlock hx,digest_of_getBlock hy]

section
variable (hfaulty : faulty.card≤(n-1) / 3) (hrooted : Rooted faulty s)
  (hsame : SameBlocks faulty s) {j k : Iteration} {w : Fin n} (hu : u ∉ faulty) (hw : w ∉ faulty)
  {d' : CommitDecision} (h : Decided faulty j s u d) (h' : Decided faulty k s w d')
  (hround : d.round=d'.round)
include hfaulty hrooted hsame hu hw h h' hround

theorem leader_unique : d.leaderCertificate.block=d'.leaderCertificate.block := by
  have hr : d.leaderCertificate.block.round=d'.leaderCertificate.block.round := by
    rw [h.round,h'.round,hround]
  have hau : d.leaderCertificate.block.author=d'.leaderCertificate.block.author := by
    rw [h.author,h'.author,hround]
  rcases h.leaderSafe with hn|⟨a,ha,hl⟩
  · have hra : ∀ c, Backed faulty s c → c.signers ⊆ Finset.range n :=
      fun c hc x hx => Finset.mem_range.mpr (hc.2 x hx).1
    obtain ⟨v,hv,hs,hs'⟩ := exists_correct_signer hn hfaulty
      (hra _ h.backed) (hra _ h'.backed) h.backed.1 h'.backed.1
    obtain ⟨x,hx⟩ := Option.isSome_iff_exists.mp ((h.backed.2 _ hs).2 v hv rfl)
    obtain ⟨y,hy⟩ := Option.isSome_iff_exists.mp ((h'.backed.2 _ hs').2 v hv rfl)
    have hxd := hsame v hv u hu _ _ _ hx h.stored
    have hyd := hsame v hv w hw _ _ _ hy h'.stored
    rw [hxd] at hx
    rw [hyd] at hy
    exact eq_of_slot hx hy hr hau
  · have hh : ∀ (x : Fin n) (b : Block) (e : Bytes), x ∉ faulty →
        (s x).dag.getBlock e=some b → b.author=a.val →
        (s a).dag.slot b.round b.author=some b := fun x b e hx hg haut =>
      mem_blocks.mp (hrooted.authored x hx b (mem_blocks.mpr (slot_of_getBlock hg)) a ha haut)
    have hf := hh u _ _ hu h.stored (h.author.trans hl.symm)
    have hse := hh w _ _ hw h'.stored
      (h'.author.trans (hround ▸ hl.symm))
    rw [hr,hau] at hf
    exact Option.some.inj (hf.symm.trans hse)

theorem agree_of_decided : d.leaderCertificate.block=d'.leaderCertificate.block ∧
      d.committedBlocks=d'.committedBlocks := by
  have hl := leader_unique hfaulty hrooted hsame hu hw h h' hround
  refine ⟨hl,?_⟩
  rw [h.history,h'.history]
  refine collectCausalHistory_eq_of_complete j ?_ h.complete h'.complete (hsame u hu w hw)
  rw [Certificate.digest,Certificate.digest,hl]

end

theorem getBlock_evaluated (s : State sha3) (i : Input) :
    (evaluated s i).dag.getBlock=s.dag.getBlock := by cases i <;> rfl

theorem mem_of_getCertificate_evaluated (hv : v ∉ faulty) {author round : ℕ}
    (h : (evaluated (s v) i).dag.getCertificate author round=some c) :
    c.block ∈ known faulty s++brought s v i := by
  cases i with
  | receiveCertificate cert =>
    have h' : ((s v).dag.addCertificate cert).getCertificate author round=some c := h
    rw [getCertificate_addCertificate] at h'
    split_ifs at h'
    · rw [← Option.some.inj h']
      exact mem_append_right _ mem_cons_self
    · exact mem_append_left _ (mem_known_of_getCertificate hv h')
  | _ => exact mem_append_left _ (mem_known_of_getCertificate hv h)

theorem decided_next (hv : v ∉ faulty) (hrooted : Rooted faulty (next iter s v i))
    (hs : Settled faulty s v i) (h : .decision d ∈ (step (member v) (iter v) (s v) i).2) :
    Decided faulty (iter v) (next iter s v i) v d := by
  rcases step_commits (member v) (iter v) (s v) i with ⟨-,hn,-⟩|⟨round,c,hd,hc,hste⟩
  · exact absurd h (hn d)
  · rw [hste,mem_singleton] at h
    obtain rfl := Output.decision.inj h
    have hda : (next iter s v i v).dag=(evaluated (s v) i).dag := by
      rw [next_self,hste]
      exact State.dag_commit _ _ _
    obtain ⟨hround,ha⟩ := slot_of_getCertificate hc
    have hco := hs.complete round hd c hc
    have hst : (evaluated (s v) i).dag.getBlock (c.digest sha3)=some c.block := by
      obtain ⟨b,hb⟩ := hco _ (.start (Finset.notMem_empty _))
      have hg : (s v).dag.getBlock (c.digest sha3)=some b := by
        rw [← getBlock_evaluated (s v) i]
        exact hb
      have heq : b=c.block := hs.identified b
        (mem_append_left _ (mem_known_of_getBlock hv hg)) c.block
        (mem_of_getCertificate_evaluated hv hc) (digest_of_getBlock hg)
      rw [← heq]
      exact hb
    exact {
      backed := hrooted.backed v hv _ _ c (by rw [hda]; exact hc)
      round := hround
      author := ha
      leaderSafe := hs.leaderSafe round hd
      stored := by rw [hda]; exact hst
      complete := by rw [hda]; exact hco
      history := by rw [hda]; rfl}

structure Consistent (faulty : Finset (Fin n)) (iter : Fin n → Iteration)
    (s : Fin n → State sha3) (out : List (Fin n × Output)) : Prop where
  rooted : Rooted faulty s
  decided : ∀ u ∉ faulty, ∀ d, (u,.decision d) ∈ out → Decided faulty (iter u) s u d
  agreement : Agreement faulty out

theorem consistent_start (iter : Fin n → Iteration) :
    Consistent faulty iter (fun _ => (State.init : State sha3)) [] where
  rooted := ⟨fun _ _ _ hb => absurd hb not_mem_nil,
    fun _ _ _ _ x hx => absurd hx (Finset.notMem_empty x),
    fun _ _ _ _ _ hc => absurd hc (by simp [State.init,getCertificate,empty,atRound])⟩
  decided := fun _ _ _ hd => absurd hd not_mem_nil
  agreement := fun _ _ _ _ _ _ hd => absurd hd not_mem_nil

theorem mem_append_map {out : List (Fin n × Output)} {more : List Output} {o : Output}
    (h : (u,o) ∈ out++more.map (Prod.mk v)) : (u,o) ∈ out ∨ (u=v ∧ o ∈ more) := by
  refine (mem_append.mp h).imp_right fun hm => ?_
  obtain ⟨x,hx,heq⟩ := mem_map.mp hm
  cases heq
  exact ⟨rfl,hx⟩

theorem consistent_next (hfaulty : faulty.card≤(n-1) / 3) {out : List (Fin n × Output)}
    (h : Consistent faulty iter s out)
    (hc : v ∉ faulty → Authentic faulty s v i ∧ Settled faulty s v i) :
    Consistent faulty iter (next iter s v i)
      (out++(step (member v) (iter v) (s v) i).2.map (Prod.mk v)) := by
  have hext : Extends faulty s (next iter s v i) :=
    extends_next fun hv => (hc hv).2.identified
  have hrooted := rooted_next h.rooted hext fun hv => (hc hv).1
  have hde : ∀ u ∉ faulty, ∀ d,
      (u,.decision d) ∈ out++(step (member v) (iter v) (s v) i).2.map (Prod.mk v) →
      Decided faulty (iter u) (next iter s v i) u d := by
    intro u hu d hd
    rcases mem_append_map hd with ho|⟨rfl,hn⟩
    · exact (h.decided u hu d ho).mono hu hext
    · exact decided_next hu hrooted (hc hu).2 hn
  refine ⟨hrooted,hde,?_⟩
  intro u hu w hw d d' hd hd' hround
  by_cases hv : v ∈ faulty
  · -- a faulty validator decides nothing for the correct ones
    have ho : ∀ x ∉ faulty, ∀ e,
        (x,.decision e) ∈ out++(step (member v) (iter v) (s v) i).2.map (Prod.mk v) →
        (x,.decision e) ∈ out := by
      intro x hx e he
      rcases mem_append_map he with hm|⟨rfl,-⟩
      · exact hm
      · exact absurd hv hx
    exact h.agreement u hu w hw d d' (ho u hu d hd) (ho w hw d' hd') hround
  · exact agree_of_decided hfaulty hrooted (sameBlocks_next (hc hv).2.identified) hu hw
      (hde u hu d hd) (hde w hw d' hd') hround

def AuthenticCall (faulty : Finset (Fin n)) (s : Fin n → State sha3) (call : Fin n × Input) :
    Prop :=
  call.1 ∉ faulty → Authentic faulty s call.1 call.2

def SettledCall (faulty : Finset (Fin n)) (s : Fin n → State sha3) (call : Fin n × Input) : Prop :=
  call.1 ∉ faulty → Settled faulty s call.1 call.2

instance (s : Fin n → State sha3) (call : Fin n × Input) :
    Decidable (AuthenticCall faulty s call) :=
  inferInstanceAs (Decidable (_ → _))

instance (s : Fin n → State sha3) (call : Fin n × Input) : Decidable (SettledCall faulty s call) :=
  inferInstanceAs (Decidable (_ → _))

theorem agreement_of_settled (hfaulty : faulty.card≤(n-1) / 3) (iter : Fin n → Iteration)
    (inputs : List (Fin n × Input))
    (hauthentic : (network sha3 iter).Meets (AuthenticCall faulty) inputs)
    (hsettled : (network sha3 iter).Meets (SettledCall faulty) inputs) :
    Agreement faulty ((network sha3 iter).outputs inputs) := by
  have hb : (network sha3 iter).Meets
      (fun s call => AuthenticCall faulty s call ∧ SettledCall faulty s call) inputs :=
    fun before call after h => ⟨hauthentic before call after h,hsettled before call after h⟩
  have hi := Machine.invariant_of_meets (P := Consistent faulty iter) (consistent_start iter)
    (fun _ _ _ hs hc => consistent_next hfaulty hs fun hv => ⟨hc.1 hv,hc.2 hv⟩) inputs
    hb
  exact hi.agreement

section

local instance three_neZero : NeZero 3 := ⟨by decide⟩
local instance four_neZero : NeZero 4 := ⟨by decide⟩

theorem encodable_leader : Encodable 0 0 [[7]] ∅ := by decide

def leader : Block := ⟨0,0,[[7]],∅,0,encodable_leader⟩

def vote (author : Fin 3) : Block :=
  ⟨author,1,[],{leader.digest id},0,by revert author; decide +kernel⟩

def certify (b : Block) (author v w : Fin 4) : List (Fin 4 × Input) :=
  [(v,.receiveBlock b),(w,.receiveBlock b),(author,.receiveAck (b.digest id) v),
    (author,.receiveAck (b.digest id) w)]

def leaderCertificate : Certificate := ⟨leader,{2,1,0}⟩

def voteCertificate : Fin 3 → Certificate
  | 0 => ⟨vote 0,{2,1,0}⟩
  | 1 => ⟨vote 1,{2,0,1}⟩
  | 2 => ⟨vote 2,{1,0,2}⟩

def leaderRound : List (Fin 4 × Input) :=
  (0,.propose 0 [[7]] 0)::certify leader 0 1 2 ++
    [1,2,3].map fun v => (v,.receiveCertificate leaderCertificate)

def voteRound : List (Fin 4 × Input) :=
  [0,1,2].map (fun v => (v,.propose 1 [] 0)) ++
    certify (vote 0) 0 1 2++certify (vote 1) 1 0 2++certify (vote 2) 2 0 1 ++
    [1,2].map (fun a => (0,.receiveCertificate (voteCertificate a))) ++
    [0,1,2].map fun a => (3,.receiveCertificate (voteCertificate a))

def timelyRun : List (Fin 4 × Input) := leaderRound++(3,.receiveBlock leader)::voteRound

theorem agreement_of_settled_four :
    Agreement {2} ((network id fun _ => sortedIteration).outputs timelyRun) ∧
      (0,.decision ⟨leaderCertificate,[leader],0⟩) ∈
        (network id fun _ => sortedIteration).outputs timelyRun ∧
      (3,.decision ⟨leaderCertificate,[leader],0⟩) ∈
        (network id fun _ => sortedIteration).outputs timelyRun :=
  ⟨agreement_of_settled (by decide) _ _ (by decide +kernel) (by decide +kernel),
    by decide +kernel,by decide +kernel⟩

def lateRun : List (Fin 4 × Input) := leaderRound++voteRound++[(3,.receiveBlock leader)]

theorem lateRun_disagrees : (network id fun _ => sortedIteration).Meets (AuthenticCall ∅) lateRun ∧
      (0,.decision ⟨leaderCertificate,[leader],0⟩) ∈
        (network id fun _ => sortedIteration).outputs lateRun ∧
      (3,.decision ⟨leaderCertificate,[],0⟩) ∈
        (network id fun _ => sortedIteration).outputs lateRun ∧
      ¬Agreement ∅ ((network id fun _ => sortedIteration).outputs lateRun) := by
  have hf : (0,.decision ⟨leaderCertificate,[leader],0⟩) ∈
      (network id fun _ => sortedIteration).outputs lateRun := by decide +kernel
  have hla : (3,.decision ⟨leaderCertificate,[],0⟩) ∈
      (network id fun _ => sortedIteration).outputs lateRun := by decide +kernel
  refine ⟨by decide +kernel,hf,hla,fun h => ?_⟩
  have hl := (h 0 (Finset.notMem_empty 0) 3 (Finset.notMem_empty 3) _ _ hf hla rfl).2
  exact absurd hl (by simp)

end

end LatticeTransfer.ConsensusAgreement
