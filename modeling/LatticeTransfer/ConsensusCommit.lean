import LatticeTransfer.ConsensusDag
import LatticeTransfer.GraphSearch

/-!
# The commit rule

The causal history of a certificate and the direct and indirect rule over it. A set may
be iterated in any order, so the search takes the order as a parameter; the final sort
by round and author makes the history independent of it.
-/

namespace LatticeTransfer.ConsensusCommit
open PyValue ConsensusDag GraphSearch List DAGStore

structure Iteration where
  toList : Finset Bytes → List Bytes
  mem_toList : ∀ s x, x ∈ toList s ↔ x ∈ s

def sortedIteration : Iteration where
  toList := sorted bytesLe
  mem_toList := mem_sorted bytesLe

def blockLe (a b : Block) : Prop := a.round<b.round ∨ a.round=b.round ∧ a.author≤b.author

instance : DecidableRel blockLe := fun a b =>
  inferInstanceAs (Decidable (a.round<b.round ∨ a.round=b.round ∧ a.author≤b.author))

instance : Std.Total blockLe := ⟨fun a b => by simp only [blockLe]; omega⟩

instance : IsTrans Block blockLe := ⟨fun a b c => by simp only [blockLe]; omega⟩

variable {sha3 : Bytes → Bytes} (iter : Iteration) (dag : DAGStore sha3)

def searchFuel : ℕ :=
  1+(dag.blocksByDigest.keys.map (weight dag.getBlock fun b => iter.toList b.parents)).sum

def search (start : Bytes) (alreadyCommitted : Finset Bytes) : Search Bytes Block :=
  GraphSearch.run dag.getBlock (fun b => iter.toList b.parents) alreadyCommitted
    (searchFuel iter dag) ⟨[start],[],[]⟩

def collectCausalHistory (certificate : Certificate) (alreadyCommitted : Finset Bytes) :
    List Block :=
  (search iter dag (certificate.digest sha3) alreadyCommitted).result.insertionSort blockLe

def referencing (round : ℕ) (digest : Bytes) : ℕ :=
  (dag.certificatesAtRound (round+1)).countP fun c => digest ∈ c.block.parents

def evaluateDirectCommit (round leader quorumThreshold : ℕ) : Option CommitDecision :=
  match dag.getCertificate leader round with
  | none => none
  | some leaderCert =>
    if referencing dag round (leaderCert.digest sha3)<quorumThreshold then none
    else some ⟨leaderCert,collectCausalHistory iter dag leaderCert ∅,round⟩

def nValidators : ℕ :=
  match dag.blocksAtRound 0 with
  | [] => 1
  | b::bs => (bs.map fun x => x.author+1).foldl max (b.author+1)

def viaCommittedRound (round : ℕ) (leaderCert : Certificate) (committedRound : ℕ) :
    Option CommitDecision :=
  if committedRound≤round then none
  else
    match dag.getCertificate (committedRound % nValidators dag) committedRound with
    | none => none
    | some committedCert =>
      if leaderCert.digest sha3 ∈
          (collectCausalHistory iter dag committedCert ∅).map (Block.digest sha3) then
        some ⟨leaderCert,collectCausalHistory iter dag leaderCert ∅,round⟩
      else none

def evaluateIndirectCommit (round leader : ℕ) (committedRounds : Finset ℕ) :
    Option CommitDecision :=
  if round ∈ committedRounds then none
  else
    match dag.getCertificate leader round with
    | none => none
    | some leaderCert =>
      (sorted (· ≤ ·) committedRounds).findSome? (viaCommittedRound iter dag round leaderCert)

/-- The digest is reached from `start` through parents of stored blocks. -/
def Causal (skip : Finset Bytes) (start digest : Bytes) : Prop :=
  Reaches dag.getBlock skip (fun b d => d ∈ b.parents) start digest

variable {dag}

theorem search_spec (start : Bytes) (skip : Finset Bytes) :
    (search iter dag start skip).queue=[] ∧ (search iter dag start skip).visited.Nodup ∧
      (search iter dag start skip).result =
        (search iter dag start skip).visited.filterMap dag.getBlock ∧
      ∀ d, d ∈ (search iter dag start skip).visited ↔ Causal dag skip start d := by
  have he : (fun (b : Block) d => d ∈ iter.toList b.parents)=fun b d => d ∈ b.parents := by
    funext x d
    exact propext (iter.mem_toList x.parents d)
  have hk : ∀ d x, dag.getBlock d=some x → d ∈ dag.blocksByDigest.keys.toFinset :=
    fun d x h => mem_toFinset.mpr ((Dict.mem_keys_iff _ d).mpr ⟨x,h⟩)
  have hf : 1+∑ d ∈ dag.blocksByDigest.keys.toFinset,
      weight dag.getBlock (fun b => iter.toList b.parents) d ≤ searchFuel iter dag := by
    have hn : dag.blocksByDigest.keys.Nodup := dag.blocksByDigest.nodup
    rw [sum_toFinset _ hn]
    exact le_refl _
  have hs := @run_spec Bytes Block _ dag.getBlock (fun b => iter.toList b.parents) skip start _
    hk _ hf
  rwa [he] at hs

theorem mem_collectCausalHistory (c : Certificate) (skip : Finset Bytes) (b : Block) :
    b ∈ collectCausalHistory iter dag c skip ↔
      ∃ d, Causal dag skip (c.digest sha3) d ∧ dag.getBlock d=some b := by
  obtain ⟨-,-,hr,hv⟩ := @search_spec sha3 iter dag (c.digest sha3) skip
  rw [collectCausalHistory,mem_insertionSort,hr,mem_filterMap]
  exact exists_congr fun d => and_congr_left fun _ => hv d

theorem nodup_collectCausalHistory (c : Certificate) (skip : Finset Bytes) :
    (collectCausalHistory iter dag c skip).Nodup := by
  obtain ⟨-,hn,hr,-⟩ := @search_spec sha3 iter dag (c.digest sha3) skip
  rw [collectCausalHistory,(perm_insertionSort _ _).nodup_iff,hr]
  refine hn.filterMap fun d d' b hd hd' => ?_
  rw [← digest_of_getBlock hd,digest_of_getBlock hd']

variable (dag) in
/-- The search empties its queue on every store, and the history has exactly the stored blocks
that are reached past the committed ones, each once and in order. -/
theorem collectCausalHistory_exact (c : Certificate) (alreadyCommitted : Finset Bytes) :
    (search iter dag (c.digest sha3) alreadyCommitted).queue=[] ∧
      (∀ b, b ∈ collectCausalHistory iter dag c alreadyCommitted ↔
        ∃ d, Causal dag alreadyCommitted (c.digest sha3) d ∧ dag.getBlock d=some b) ∧
      (collectCausalHistory iter dag c alreadyCommitted).Nodup ∧
      (collectCausalHistory iter dag c alreadyCommitted).Pairwise blockLe :=
  ⟨(search_spec iter _ _).1,mem_collectCausalHistory iter c _,nodup_collectCausalHistory iter c _,
    pairwise_insertionSort blockLe _⟩

variable {dag' : DAGStore sha3} {c : Certificate}

theorem collectCausalHistory_congr {iter' : Iteration} {c' : Certificate} {skip : Finset Bytes}
    (h : ∀ b, b ∈ collectCausalHistory iter dag c skip ↔
      b ∈ collectCausalHistory iter' dag' c' skip) :
    collectCausalHistory iter dag c skip=collectCausalHistory iter' dag' c' skip := by
  have hp := (perm_ext_iff_of_nodup (nodup_collectCausalHistory iter c skip)
    (nodup_collectCausalHistory iter' c' skip)).mpr h
  refine List.Perm.eq_of_pairwise ?_ (pairwise_insertionSort blockLe _)
    (pairwise_insertionSort blockLe _) hp
  intro a b ha hb hab hba
  obtain ⟨d,-,hd⟩ := (mem_collectCausalHistory iter c skip a).mp ha
  obtain ⟨d',-,hd'⟩ := (mem_collectCausalHistory iter c skip b).mp ((h b).mpr hb)
  simp only [blockLe] at hab hba
  exact eq_of_slot hd hd' (by omega) (by omega)

variable (dag) in
def Complete (digest : Bytes) : Prop :=
  ∀ d, Causal dag ∅ digest d → ∃ b, dag.getBlock d=some b

theorem collectCausalHistory_eq_of_complete {iter' : Iteration} {c' : Certificate}
    (hd : c.digest sha3=c'.digest sha3) (hc : Complete dag (c.digest sha3))
    (hc' : Complete dag' (c'.digest sha3))
    (ha : ∀ d x y, dag.getBlock d=some x → dag'.getBlock d=some y → x=y) :
    collectCausalHistory iter dag c ∅ = collectCausalHistory iter' dag' c' ∅ := by
  rw [← hd] at hc'
  refine collectCausalHistory_congr iter fun b => ?_
  rw [mem_collectCausalHistory,mem_collectCausalHistory,← hd]
  constructor
  · rintro ⟨d,hca,hg⟩
    have hca' : Causal dag' ∅ (c.digest sha3) d := hca.of_complete hc' ha
    obtain ⟨y,hy⟩ := hc' d hca'
    rw [ha d b y hg hy]
    exact ⟨d,hca',hy⟩
  · rintro ⟨d,hca,hg⟩
    have hca' : Causal dag ∅ (c.digest sha3) d :=
      hca.of_complete hc fun key x y hx hy => (ha key y x hy hx).symm
    obtain ⟨y,hy⟩ := hc d hca'
    rw [← ha d y b hy hg]
    exact ⟨d,hca',hy⟩

theorem Complete.mono {digest : Bytes} (h : Complete dag digest)
    (hg : ∀ d b, dag.getBlock d=some b → dag'.getBlock d=some b) : Complete dag' digest := by
  intro d hc
  have ho : Causal dag ∅ digest d := hc.of_complete h fun key x y hx hy =>
    Option.some.inj (hx.symm.trans (hg key y hy))
  obtain ⟨b,hb⟩ := h d ho
  exact ⟨b,hg d b hb⟩

theorem mem_digests_collectCausalHistory (c : Certificate) (skip : Finset Bytes) (d : Bytes) :
    d ∈ (collectCausalHistory iter dag c skip).map (Block.digest sha3) ↔
      Causal dag skip (c.digest sha3) d ∧ ∃ b, dag.getBlock d=some b := by
  rw [mem_map]
  constructor
  · rintro ⟨b,hb,rfl⟩
    obtain ⟨d,hd,hg⟩ := (mem_collectCausalHistory iter c skip b).mp hb
    rw [digest_of_getBlock hg]
    exact ⟨hd,b,hg⟩
  · rintro ⟨hd,b,hg⟩
    exact ⟨b,(mem_collectCausalHistory iter c skip b).mpr ⟨d,hd,hg⟩,digest_of_getBlock hg⟩

variable (dag) in
def Supported (round leader quorumThreshold : ℕ) : Prop :=
  ∃ c, dag.getCertificate leader round=some c ∧
    quorumThreshold≤referencing dag round (c.digest sha3)

variable (dag) in
def IndirectlySupported (round leader : ℕ) (committedRounds : Finset ℕ) : Prop :=
  ∃ c, dag.getCertificate leader round=some c ∧ ∃ later ∈ committedRounds, round<later ∧
    ∃ c', dag.getCertificate (later % nValidators dag) later=some c' ∧
      Causal dag ∅ (c'.digest sha3) (c.digest sha3) ∧
      ∃ b, dag.getBlock (c.digest sha3)=some b

instance (skip : Finset Bytes) (start digest : Bytes) : Decidable (Causal dag skip start digest) :=
  decidable_of_iff _ ((search_spec sortedIteration start skip).2.2.2 digest)

instance (digest : Bytes) : Decidable (Complete dag digest) :=
  decidable_of_iff
    (∀ d ∈ (search sortedIteration dag digest ∅).visited, (dag.getBlock d).isSome)
    (forall_congr' fun d => imp_congr ((search_spec sortedIteration digest ∅).2.2.2 d)
      Option.isSome_iff_exists)

instance (round leader quorumThreshold : ℕ) :
    Decidable (Supported dag round leader quorumThreshold) :=
  decidable_of_iff
    (∃ c ∈ dag.getCertificate leader round, quorumThreshold≤referencing dag round (c.digest sha3))
    Iff.rfl

instance (round leader : ℕ) (committedRounds : Finset ℕ) :
    Decidable (IndirectlySupported dag round leader committedRounds) :=
  decidable_of_iff
    (∃ c ∈ dag.getCertificate leader round, ∃ later ∈ committedRounds, round<later ∧
      ∃ c' ∈ dag.getCertificate (later % nValidators dag) later,
        Causal dag ∅ (c'.digest sha3) (c.digest sha3) ∧ (dag.getBlock (c.digest sha3)).isSome)
    (by simp only [IndirectlySupported,Option.isSome_iff_exists,Option.mem_def])

theorem evaluateDirectCommit_eq (round leader quorumThreshold : ℕ) :
    (¬Supported dag round leader quorumThreshold ∧
      evaluateDirectCommit iter dag round leader quorumThreshold=none) ∨
    (Supported dag round leader quorumThreshold ∧ ∃ c, dag.getCertificate leader round=some c ∧
      evaluateDirectCommit iter dag round leader quorumThreshold =
        some ⟨c,collectCausalHistory iter dag c ∅,round⟩) := by
  rw [evaluateDirectCommit]
  cases hc : dag.getCertificate leader round with
  | none =>
    left
    refine ⟨?_,rfl⟩
    rintro ⟨c,hc',-⟩
    rw [hc] at hc'
    exact absurd hc' (by simp)
  | some c =>
    dsimp only
    split_ifs with hf
    · left
      refine ⟨?_,rfl⟩
      rintro ⟨c',hc',hm⟩
      rw [hc] at hc'
      cases hc'
      omega
    · exact .inr ⟨⟨c,hc,not_lt.mp hf⟩,c,rfl,rfl⟩

theorem viaCommittedRound_eq_some {round later : ℕ} {d : CommitDecision} :
    viaCommittedRound iter dag round c later=some d ↔
      (round<later ∧ ∃ c', dag.getCertificate (later % nValidators dag) later=some c' ∧
        Causal dag ∅ (c'.digest sha3) (c.digest sha3) ∧ ∃ b, dag.getBlock (c.digest sha3)=some b) ∧
      d=⟨c,collectCausalHistory iter dag c ∅,round⟩ := by
  rw [viaCommittedRound]
  split_ifs with hle
  · refine iff_of_false (by simp) ?_
    rintro ⟨⟨hlt,-⟩,-⟩
    omega
  · cases hc : dag.getCertificate (later % nValidators dag) later with
    | none => simp
    | some c' =>
      simp only [Option.some.injEq,exists_eq_left']
      have hm := @mem_digests_collectCausalHistory sha3 iter dag c' ∅ (c.digest sha3)
      split_ifs with hin
      · have hr := hm.mp hin
        constructor
        · intro h
          exact ⟨⟨not_le.mp hle,hr⟩,(Option.some.inj h).symm⟩
        · rintro ⟨-,rfl⟩
          rfl
      · refine iff_of_false (by simp) ?_
        rintro ⟨⟨-,hr⟩,-⟩
        exact hin (hm.mpr hr)

theorem evaluateIndirectCommit_eq {round leader : ℕ} {committedRounds : Finset ℕ}
    (hr : round ∉ committedRounds) : (¬IndirectlySupported dag round leader committedRounds ∧
      evaluateIndirectCommit iter dag round leader committedRounds=none) ∨
    (IndirectlySupported dag round leader committedRounds ∧ ∃ c,
      dag.getCertificate leader round=some c ∧
      evaluateIndirectCommit iter dag round leader committedRounds =
        some ⟨c,collectCausalHistory iter dag c ∅,round⟩) := by
  rw [evaluateIndirectCommit,if_neg hr]
  cases hc : dag.getCertificate leader round with
  | none =>
    left
    refine ⟨?_,rfl⟩
    rintro ⟨c,hc',-⟩
    rw [hc] at hc'
    exact absurd hc' (by simp)
  | some c =>
    dsimp only
    cases hf : (sorted (· ≤ ·) committedRounds).findSome?
        (viaCommittedRound iter dag round c) with
    | none =>
      left
      refine ⟨?_,rfl⟩
      rintro ⟨x,hx,later,hl,hlt,hs⟩
      rw [hc] at hx
      cases hx
      have hn := findSome?_eq_none_iff.mp hf later ((mem_sorted _ _ _).mpr hl)
      rw [(viaCommittedRound_eq_some iter).mpr ⟨⟨hlt,hs⟩,rfl⟩] at hn
      exact absurd hn (by simp)
    | some d =>
      right
      obtain ⟨later,hl,hv⟩ := exists_of_findSome?_eq_some hf
      obtain ⟨⟨hlt,hs⟩,rfl⟩ := (viaCommittedRound_eq_some iter).mp hv
      exact ⟨⟨c,hc,later,(mem_sorted _ _ _).mp hl,hlt,hs⟩,c,rfl,rfl⟩

end LatticeTransfer.ConsensusCommit
