import LatticeTransfer.MerkleTree

/-!
# Consistency proofs

Prover and verifier walk down one spine that the two sizes determine. Where the old size
exceeds the split point both trees split there (`split_stable`), so one node of the
proof serves both reconstructions. The honest proof is accepted, and an accepted proof
is the honest one.
-/

namespace LatticeTransfer.MerkleConsistency
open SplitTree MerkleTree List

variable {H : CanonicalHash}

theorem verifyNode_subproof (oldRoot : Bytes) (start : Bool) (leaves : List Bytes) (m : ℕ)
    (hm : 1 ≤ m) (hle : m≤leaves.length) (hs : start=true → oldRoot=computeRoot H (leaves.take m))
    (rest : List Bytes) (consumed : ℕ) :
    verifyNode H oldRoot m leaves.length start ⟨subproof H m leaves start++rest,consumed⟩ =
      some (computeRoot H (leaves.take m),computeRoot H leaves,
        ⟨rest,consumed+(subproof H m leaves start).length⟩) := by
  generalize hn : leaves.length=n
  induction n using Nat.strongRecOn generalizing leaves m start rest consumed with
  | ind n ih =>
    subst hn
    rw [verifyNode,subproof]
    by_cases heq : m=leaves.length
    · rw [if_pos heq,if_pos heq,take_of_length_le (le_of_eq heq.symm)]
      cases start with
      | true =>
        rw [take_of_length_le (le_of_eq heq.symm)] at hs
        simp [← hs rfl]
      | false => rfl
    · have hlen : 1<leaves.length := by omega
      have hlt := split_lt hlen
      have hpo := split_pos hlen
      have ht := length_take_split hlen
      have hd := length_drop_split leaves
      rw [computeRoot_split H hlen]
      dsimp only
      split_ifs with hk
      · have hp : (leaves.take (largestPow2Below leaves.length)).take m=leaves.take m := by
          rw [take_take,Nat.min_eq_left hk]
        rw [← hp] at hs
        have hno := ih _ hlt start _ m hm (by omega) hs
          (computeRoot H (leaves.drop (largestPow2Below leaves.length))::rest) consumed ht
        rw [append_assoc,singleton_append,hno,hp]
        simp [Cursor.next,Nat.add_assoc]
      · have hsp := take_split_prefix (by omega) hle
        have hno := ih _ (by omega) false _ (m-largestPow2Below leaves.length) (by omega)
          (by omega) (by simp)
          (computeRoot H (leaves.take (largestPow2Below leaves.length))::rest)
          consumed hd
        have hr := computeRoot_split H (show 1<(leaves.take m).length by
          rw [length_take]; omega)
        rw [hsp.1,hsp.2] at hr
        rw [append_assoc,singleton_append,hno,hr]
        simp [Cursor.next,Nat.add_assoc]

theorem verifyConsistency_subproof (leaves : List Bytes) (m : ℕ) (hm : 1 ≤ m)
    (hle : m≤leaves.length) :
    verifyConsistency H m leaves.length (computeRoot H (leaves.take m)) (computeRoot H leaves)
      (subproof H m leaves true)=true := by
  rw [verifyConsistency,if_neg (by omega)]
  by_cases heq : m=leaves.length
  · rw [if_pos heq,subproof,if_pos heq,take_of_length_le (le_of_eq heq.symm)]
    simp
  · rw [if_neg heq]
    have h := verifyNode_subproof (H := H) _ true leaves m hm hle (fun _ => rfl) [] 0
    rw [append_nil] at h
    simp [h]

variable {m : ℕ}

theorem consistencyProof_ok (t : Tree) (hm : 1 ≤ m) (hle : m≤t.size) :
    t.consistencyProof H m=.ok (subproof H m t.leaves true) := by
  rw [Tree.consistencyProof,if_neg (by omega)]
  by_cases heq : m=t.size
  · have hlen : m=t.leaves.length := heq
    rw [if_pos heq,subproof,if_pos hlen]
    rfl
  · rw [if_neg heq]

theorem consistencyProof_verifies (t : Tree) (m : ℕ) (hm : 1 ≤ m) (hle : m≤t.size) :
    ∃ proof, t.consistencyProof H m=.ok proof ∧
      verifyConsistency H m t.size (computeRoot H (t.leaves.take m)) (computeRoot H t.leaves)
        proof=true :=
  ⟨_,consistencyProof_ok t hm hle,verifyConsistency_subproof t.leaves m hm hle⟩

theorem consistencyProof_verifies_two_of_three :
    ∃ proof, (⟨hashLeaves cutHash [[10],[11],[12]],none,0,[]⟩ :
        Tree).consistencyProof cutHash 2=.ok proof ∧ verifyConsistency cutHash 2 3
        (computeRoot cutHash (hashLeaves cutHash [[10],[11]]))
        (computeRoot cutHash (hashLeaves cutHash [[10],[11],[12]])) proof=true :=
  consistencyProof_verifies ⟨hashLeaves cutHash [[10],[11],[12]],none,0,[]⟩ 2
    (by decide) (by decide)

variable {c c' : Cursor}

theorem Cursor.next_eq_some {node : Bytes} (h : c.next=some (node,c')) :
    c.remaining=node::c'.remaining ∧ c'.consumed=c.consumed+1 := by
  obtain ⟨remaining,consumed⟩ := c
  cases remaining with
  | nil => simp [Cursor.next] at h
  | cons x rest =>
    obtain ⟨rfl,rfl⟩ := h
    exact ⟨rfl,rfl⟩

variable {oldRoot oh nh : Bytes} {n : ℕ} {start : Bool}

section
variable (h : verifyNode H oldRoot m n start c=some (oh,nh,c'))
include h

theorem verifyNode_cases : (m=n ∧ oh=nh ∧ (start=true ∧ c'=c ∨ start=false ∧ c.next=some (nh,c'))) ∨
    (m≠n ∧ 1<n ∧ m≤largestPow2Below n ∧ ∃ nh1 c₁ sibling,
      verifyNode H oldRoot m (largestPow2Below n) start c=some (oh,nh1,c₁) ∧
      c₁.next=some (sibling,c') ∧ nh=internalHash H nh1 sibling) ∨
    (m≠n ∧ 1<n ∧ largestPow2Below n < m ∧ ∃ oh1 nh1 c₁ sibling,
      verifyNode H oldRoot (m-largestPow2Below n) (n-largestPow2Below n) false c =
        some (oh1,nh1,c₁) ∧ c₁.next=some (sibling,c') ∧ oh=internalHash H sibling oh1 ∧
      nh=internalHash H sibling nh1) := by
  rw [verifyNode] at h
  by_cases heq : m=n
  · left
    rw [if_pos heq] at h
    cases start with
    | true =>
      simp only [↓reduceIte,Option.some.injEq,Prod.mk.injEq] at h
      exact ⟨heq,h.1.symm.trans h.2.1,.inl ⟨rfl,h.2.2.symm⟩⟩
    | false =>
      simp only [Bool.false_eq_true,↓reduceIte,Option.map_eq_some_iff] at h
      obtain ⟨⟨node,c₁⟩,hne,rfl,rfl,rfl⟩ := h
      exact ⟨heq,rfl,.inr ⟨rfl,hne⟩⟩
  · right
    split_ifs at h with hn
    dsimp only at h
    split_ifs at h with hk
    · left
      simp only [Option.bind_eq_some_iff,Option.map_eq_some_iff] at h
      obtain ⟨⟨oh1,nh1,c₁⟩,hno,⟨sibling,c2⟩,hne,rfl,rfl,rfl⟩ := h
      exact ⟨heq,hn,hk,nh1,c₁,sibling,hno,hne,rfl⟩
    · right
      simp only [Option.bind_eq_some_iff,Option.map_eq_some_iff] at h
      obtain ⟨⟨oh1,nh1,c₁⟩,hno,⟨sibling,c2⟩,hne,rfl,rfl,rfl⟩ := h
      exact ⟨heq,hn,by omega,oh1,nh1,c₁,sibling,hno,hne,rfl,rfl⟩

theorem verifyNode_conserves : c'.consumed+c'.remaining.length=c.consumed+c.remaining.length := by
  have hne : ∀ {c c' : Cursor} {node : Bytes}, c.next=some (node,c') →
      c'.consumed+c'.remaining.length=c.consumed+c.remaining.length := by
    intro c c' node hc
    obtain ⟨hr,hco⟩ := Cursor.next_eq_some hc
    rw [hr,length_cons]
    omega
  induction n using Nat.strongRecOn generalizing oh nh m start c c' with
  | ind n ih =>
    obtain ⟨-,-,⟨-,rfl⟩|⟨-,hc⟩⟩|⟨-,hn,-,_,_,_,hno,hc,-⟩ |
      ⟨-,hn,-,_,_,_,_,hno,hc,-,-⟩ := verifyNode_cases h
    · rfl
    · exact hne hc
    · exact (hne hc).trans (ih _ (split_lt hn) hno)
    · have hp := split_pos hn
      exact (hne hc).trans (ih _ (by omega) hno)

theorem length_verifyNode : m=n ∧ oh=nh ∨ nh.length=H.size := by
  obtain ⟨hmn,heq,-⟩|⟨-,-,-,_,_,_,-,-,rfl⟩|⟨-,-,-,_,_,_,_,-,-,-,rfl⟩ :=
    verifyNode_cases h
  · exact .inl ⟨hmn,heq⟩
  · exact .inr (length_internalHash H _ _)
  · exact .inr (length_internalHash H _ _)

end

def nodeQueries (H : CanonicalHash) (oldRoot : Bytes) (m n : ℕ) (start : Bool) (c : Cursor) :
    List Bytes :=
  if m=n then []
  else if 1<n then
    let k := largestPow2Below n
    if m≤k then
      nodeQueries H oldRoot m k start c ++
        match verifyNode H oldRoot m k start c with
        | none => []
        | some (_,nh,c₁) => (c₁.next.map fun p => 0x01::(nh++p.1)).toList
    else
      nodeQueries H oldRoot (m-k) (n-k) false c ++
        match verifyNode H oldRoot (m-k) (n-k) false c with
        | none => []
        | some (oh,nh,c₁) =>
          match c₁.next with
          | none => []
          | some (sibling,_) => [0x01::(sibling++oh),0x01::(sibling++nh)]
  else []
termination_by n
decreasing_by exacts [split_lt ‹_›,sub_split_lt ‹_›]

def consistencyQueries (H : CanonicalHash) (oldSize newSize : ℕ) (oldRoot : Bytes)
    (proof : List Bytes) : List Bytes :=
  nodeQueries H oldRoot oldSize newSize true ⟨proof,0⟩

section
variable {sib : Bytes} {c₁ : Cursor} (heq : m≠n) (hn : 1<n)
include heq hn

theorem nodeQueries_left (hk : m≤largestPow2Below n)
    (hno : verifyNode H oldRoot m (largestPow2Below n) start c=some (oh,nh,c₁))
    (hne : c₁.next=some (sib,c')) : nodeQueries H oldRoot m n start c =
      nodeQueries H oldRoot m (largestPow2Below n) start c++[0x01::(nh++sib)] := by
  rw [nodeQueries,if_neg heq,if_pos hn]
  rw [if_pos hk,hno]
  simp [hne]

theorem nodeQueries_right (hk : largestPow2Below n < m)
    (hno : verifyNode H oldRoot (m-largestPow2Below n) (n-largestPow2Below n) false c =
      some (oh,nh,c₁)) (hne : c₁.next=some (sib,c')) : nodeQueries H oldRoot m n start c =
      nodeQueries H oldRoot (m-largestPow2Below n) (n-largestPow2Below n) false c ++
        [0x01::(sib++oh),0x01::(sib++nh)] := by
  rw [nodeQueries,if_neg heq,if_pos hn]
  rw [if_neg (by omega),hno]
  simp [hne]

end

section
variable {leaves : List Bytes} (heq : m≠leaves.length) (hlen : 1<leaves.length)
include heq hlen

theorem subproof_left (hk : m≤largestPow2Below leaves.length) : subproof H m leaves start =
      subproof H m (leaves.take (largestPow2Below leaves.length)) start ++
        [computeRoot H (leaves.drop (largestPow2Below leaves.length))] := by
  rw [subproof,if_neg heq,if_pos hlen]
  rw [if_pos hk]

theorem subproof_right (hk : largestPow2Below leaves.length < m) : subproof H m leaves start =
      subproof H (m-largestPow2Below leaves.length)
          (leaves.drop (largestPow2Below leaves.length)) false ++
        [computeRoot H (leaves.take (largestPow2Below leaves.length))] := by
  rw [subproof,if_neg heq,if_pos hlen]
  rw [if_neg (by omega)]

end

variable {a b : List Bytes}

theorem verifyNode_sound {queries : List Bytes} (hf : CollisionFree H queries) (ha : a≠[])
    (hle : a.length≤b.length) (hqa : recordQueries H a ⊆ queries)
    (hqb : recordQueries H b ⊆ queries)
    (hwa : nodeQueries H oldRoot a.length b.length start c ⊆ queries)
    (h : verifyNode H oldRoot a.length b.length start c=some (oh,nh,c'))
    (ho : oh=computeRoot H (hashLeaves H a)) (hnew : nh=computeRoot H (hashLeaves H b)) :
    a <+: b ∧ c.remaining=subproof H a.length (hashLeaves H b) start++c'.remaining := by
  generalize hn : b.length=n
  induction n using Nat.strongRecOn generalizing oh nh start c c' a b with
  | ind n ih =>
    subst hn
    have hb : b≠[] := by
      have hp := length_pos_iff.mpr ha
      exact ne_nil_of_length_pos (by omega)
    rcases verifyNode_cases h with ⟨heq,hsa,hba⟩ |
      ⟨heq,hlen,hk,nh1,c₁,sibling,hno,hne,hh⟩ |
      ⟨heq,hlen,hk,oh1,nh1,c₁,sibling,hno,hne,hh,hh'⟩
    · -- the old tree is the whole subtree
      obtain rfl : a=b := recordRoot_inj hf ha hb hqa hqb (by rw [← ho,← hnew,hsa])
      refine ⟨prefix_refl a,?_⟩
      rw [subproof,if_pos (length_hashLeaves H a).symm]
      rcases hba with ⟨rfl,rfl⟩|⟨rfl,hne⟩
      · rfl
      · rw [(Cursor.next_eq_some hne).1,← hnew]
        rfl
    · rw [nodeQueries_left heq hlen hk hno hne,append_subset,cons_subset] at hwa
      have hd : nh1.length=H.size := by
        rcases length_verifyNode hno with ⟨-,hsa⟩|hd
        · rw [← hsa,ho]
          exact length_recordRoot H ha
        · exact hd
      rw [recordRoot_split hlen,hh] at hnew
      obtain ⟨hl,hr⟩ := internalHash_inj hf hwa.2.1 (hqb (rootQuery_mem hlen)) hnew
        (.inl (hd.trans (length_recordRoot H (take_split_ne_nil hlen)).symm))
      have ht := length_take_split hlen
      rw [← ht] at hno hwa
      obtain ⟨hpr,hre⟩ := ih _ (by rw [ht]; exact split_lt hlen) ha (by omega) hqa
        (fun q hq => hqb (recordQueries_take hlen hq)) hwa.1 hno ho hl rfl
      refine ⟨hpr.trans <| take_prefix _ _,?_⟩
      rw [subproof_left (by simpa using heq) (by simpa using hlen) (by simpa using hk),hre,
        (Cursor.next_eq_some hne).1,hr,length_hashLeaves,hashLeaves_take,hashLeaves_drop,
        append_assoc,singleton_append]
    · rw [nodeQueries_right heq hlen hk hno hne,append_subset,cons_subset,cons_subset] at hwa
      have hle' : 1<a.length := by
        have hp := split_pos hlen
        omega
      have hs : largestPow2Below a.length=largestPow2Below b.length := split_stable hk hle
      have hd : nh1.length=H.size :=
        (length_verifyNode hno).resolve_left fun hsa => heq (by omega)
      rw [recordRoot_split hlen,hh'] at hnew
      obtain ⟨hl,hr⟩ := internalHash_inj hf hwa.2.2.1 (hqb (rootQuery_mem hlen)) hnew
        (.inr (hd.trans (length_recordRoot H (drop_split_ne_nil hlen)).symm))
      rw [recordRoot_split hle',hh] at ho
      obtain ⟨hl',hr'⟩ := internalHash_inj hf hwa.2.1 (hqa (rootQuery_mem hle')) ho
        (.inl (by rw [hl,length_recordRoot H (take_split_ne_nil hlen),
          length_recordRoot H (take_split_ne_nil hle')]))
      have hsa := recordRoot_inj hf (take_split_ne_nil hle') (take_split_ne_nil hlen)
        (fun q hq => hqa (recordQueries_take hle' hq))
        (fun q hq => hqb (recordQueries_take hlen hq)) (hl'.symm.trans hl)
      have hdr := length_drop_split b
      have hd' : (a.drop (largestPow2Below a.length)).length =
          a.length-largestPow2Below b.length := by rw [length_drop_split,hs]
      rw [← hdr,← hd'] at hno hwa
      have hp := split_pos hlen
      obtain ⟨hpr,hre⟩ := ih _ (by omega) (drop_split_ne_nil hle') (by omega)
        (fun q hq => hqa (recordQueries_drop hle' hq))
        (fun q hq => hqb (recordQueries_drop hlen hq)) hwa.1 hno hr' hr rfl
      constructor
      · have hw := (prefix_append_right_inj (b.take (largestPow2Below b.length))).mpr hpr
        rwa [take_append_drop,← hsa,take_append_drop] at hw
      · rw [subproof_right (by simpa using heq) (by simpa using hlen) (by simpa using hk),hre,
          (Cursor.next_eq_some hne).1,hl,length_hashLeaves,hashLeaves_take,
          hashLeaves_drop,hd',append_assoc,singleton_append]

/-- The collision-freeness that soundness uses: the two trees and the verifier's own strings. -/
def ConsistencyFree (H : CanonicalHash) (a b proof : List Bytes) : Prop :=
  CollisionFree H (recordQueries H a++recordQueries H b ++
    consistencyQueries H a.length b.length (computeRoot H (hashLeaves H a)) proof)

instance (a b proof : List Bytes) : Decidable (ConsistencyFree H a b proof) :=
  inferInstanceAs (Decidable (CollisionFree H _))

theorem verifyConsistency_extract {proof : List Bytes} (ha : a≠[])
    (hf : ConsistencyFree H a b proof)
    (h : verifyConsistency H a.length b.length (computeRoot H (hashLeaves H a))
      (computeRoot H (hashLeaves H b)) proof=true) :
    a <+: b ∧ proof=subproof H a.length (hashLeaves H b) true := by
  have hqa : recordQueries H a ⊆ recordQueries H a++recordQueries H b ++
      consistencyQueries H a.length b.length (computeRoot H (hashLeaves H a)) proof :=
    fun q hq => mem_append_left _ (mem_append_left _ hq)
  have hqb : recordQueries H b ⊆ recordQueries H a++recordQueries H b ++
      consistencyQueries H a.length b.length (computeRoot H (hashLeaves H a)) proof :=
    fun q hq => mem_append_left _ (mem_append_right _ hq)
  rw [verifyConsistency] at h
  split_ifs at h with hr heq
  · have hb : b≠[] := ne_nil_of_length_pos (by omega)
    simp only [Bool.and_eq_true,beq_iff_eq,length_eq_zero_iff] at h
    obtain rfl := recordRoot_inj hf ha hb hqa hqb h.1
    refine ⟨prefix_refl a,?_⟩
    rw [h.2,subproof,if_pos (length_hashLeaves H a).symm]
    rfl
  · cases hw : verifyNode H (computeRoot H (hashLeaves H a)) a.length b.length true
        ⟨proof,0⟩ with
    | none => simp [hw] at h
    | some r =>
      obtain ⟨oh,nh,c⟩ := r
      simp only [hw,Bool.and_eq_true,beq_iff_eq] at h
      obtain ⟨⟨ho,hn⟩,hc⟩ := h
      obtain ⟨hp,hre⟩ := verifyNode_sound hf ha (by omega) hqa hqb
        (subset_append_right _ _) hw ho hn
      -- every node was consumed, so none is left behind the honest ones
      have hco := verifyNode_conserves hw
      have hni : c.remaining=[] := length_eq_zero_iff.mp (by simp only at hco; omega)
      rw [hni,append_nil] at hre
      exact ⟨hp,hre⟩

theorem verifyConsistency_sound (a b proof : List Bytes) (ha : a≠[])
    (hfree : ConsistencyFree H a b proof)
    (h : verifyConsistency H a.length b.length (computeRoot H (hashLeaves H a))
      (computeRoot H (hashLeaves H b)) proof=true) : a <+: b :=
  (verifyConsistency_extract ha hfree h).1

theorem verifyConsistency_sound_two_of_three :
    ConsistencyFree cutHash [[10],[11]] [[10],[11],[12]] [leafHash cutHash [12]] ∧
    verifyConsistency cutHash 2 3
      (computeRoot cutHash (hashLeaves cutHash [[10],[11]]))
      (computeRoot cutHash (hashLeaves cutHash [[10],[11],[12]]))
      [leafHash cutHash [12]]=true ∧ [[10],[11]] <+: ([[10],[11],[12]] : List Bytes) := by
  have hf : ConsistencyFree cutHash [[10],[11]] [[10],[11],[12]]
      [leafHash cutHash [12]] := by decide +kernel
  have h : verifyConsistency cutHash 2 3
      (computeRoot cutHash (hashLeaves cutHash [[10],[11]]))
      (computeRoot cutHash (hashLeaves cutHash [[10],[11],[12]]))
      [leafHash cutHash [12]]=true := by decide +kernel
  exact ⟨hf,h,verifyConsistency_sound [[10],[11]] [[10],[11],[12]] _ (cons_ne_nil _ _) hf h⟩

theorem subproof_eq_map_parts (m : ℕ) (rs : List Bytes) (start : Bool) (hm : 1 ≤ m)
    (hle : m≤rs.length) : subproof H m (hashLeaves H rs) start =
      (parts m rs start).map fun part => computeRoot H (hashLeaves H part) := by
  refine parts_induction (P := fun m rs start => subproof H m (hashLeaves H rs) start =
    (parts m rs start).map fun part => computeRoot H (hashLeaves H part))
    ?_ ?_ ?_ m rs start hm hle
  · intro l start _
    rw [subproof,if_pos (length_hashLeaves H l).symm,parts_whole]
    cases start with
    | true => rfl
    | false => rfl
  · intro m l start hlen hm hk ih
    have hlt := split_lt hlen
    rw [parts_left (by omega) hlen hk,map_append,← ih,
      subproof_left (by rw [length_hashLeaves]; omega) (by simpa using hlen) (by simpa using hk),
      length_hashLeaves,hashLeaves_take,hashLeaves_drop]
    rfl
  · intro m l start hlen hk hm ih
    rw [parts_right (by omega) hlen hk,map_append,← ih,
      subproof_right (by rw [length_hashLeaves]; omega) (by simpa using hlen) (by simpa using hk),
      length_hashLeaves,hashLeaves_take,hashLeaves_drop]
    rfl

theorem parts_queries (m : ℕ) (records : List Bytes) (start : Bool) (hm : 1 ≤ m)
    (hle : m≤records.length) : ∀ part ∈ parts m records start,
      part≠[] ∧ recordQueries H part ⊆ recordQueries H records := by
  refine parts_induction (P := fun m records start => ∀ part ∈ parts m records start,
    part≠[] ∧ recordQueries H part ⊆ recordQueries H records) ?_ ?_ ?_ m records start hm hle
  · intro l start hne part hp
    rw [parts_whole] at hp
    cases start with
    | true => exact absurd hp not_mem_nil
    | false =>
      rw [mem_singleton.mp hp]
      exact ⟨hne,.refl _⟩
  · intro m l start hlen hm hk ih part hp
    have hlt := split_lt hlen
    rw [parts_left (by omega) hlen hk,mem_append,mem_singleton] at hp
    rcases hp with hp|rfl
    · exact ⟨(ih part hp).1,fun q hq => recordQueries_take hlen ((ih part hp).2 hq)⟩
    · exact ⟨drop_split_ne_nil hlen,recordQueries_drop hlen⟩
  · intro m l start hlen hk hm ih part hp
    rw [parts_right (by omega) hlen hk,mem_append,mem_singleton] at hp
    rcases hp with hp|rfl
    · exact ⟨(ih part hp).1,fun q hq => recordQueries_drop hlen ((ih part hp).2 hq)⟩
    · exact ⟨take_split_ne_nil hlen,recordQueries_take hlen⟩

theorem length_eq_of_subproof_eq {queries : List Bytes} (hf : CollisionFree H queries)
    (hm : 1 ≤ m) (ha : m≤a.length) (hb : m≤b.length) (hqa : recordQueries H a ⊆ queries)
    (hqb : recordQueries H b ⊆ queries)
    (h : subproof H m (hashLeaves H a) true=subproof H m (hashLeaves H b) true) :
    a.length=b.length := by
  rw [subproof_eq_map_parts m a true hm ha,subproof_eq_map_parts m b true hm hb] at h
  have hpa := parts_queries (H := H) m a true hm ha
  have hpb := parts_queries (H := H) m b true hm hb
  have hma : ∀ {p q : List (List Bytes)},
      (∀ part ∈ p, part≠[] ∧ recordQueries H part ⊆ recordQueries H a) →
      (∀ part ∈ q, part≠[] ∧ recordQueries H part ⊆ recordQueries H b) →
      p.map (fun part => computeRoot H (hashLeaves H part)) =
        q.map (fun part => computeRoot H (hashLeaves H part)) → p=q := by
    intro p
    induction p with
    | nil =>
      intro q _ _ heq
      exact (map_eq_nil_iff.mp heq.symm).symm
    | cons x p ih =>
      intro q hp hq heq
      obtain ⟨y,q,rfl,hxy,hr⟩ := map_eq_cons_iff.mp heq.symm
      obtain ⟨hx,hqx⟩ := hp x mem_cons_self
      obtain ⟨hy,hqy⟩ := hq y mem_cons_self
      rw [recordRoot_inj hf hx hy (fun z hz => hqa (hqx hz)) (fun z hz => hqb (hqy hz)) hxy.symm,
        ih (fun part hpar => hp part (mem_cons_of_mem _ hpar))
          (fun part hpar => hq part (mem_cons_of_mem _ hpar)) hr.symm]
  exact length_eq_of_parts_eq hm ha hb (hma hpa hpb h)

end LatticeTransfer.MerkleConsistency
