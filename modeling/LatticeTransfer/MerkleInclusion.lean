import LatticeTransfer.MerkleTree

/-!
# Inclusion proofs

The prover collects siblings from the leaf up while the verifier computes its decisions
from the root down and reads them backwards. Both are compared with `climb`, the
reconstruction along a list of steps in root-to-leaf order.
-/

namespace LatticeTransfer.MerkleInclusion
open SplitTree MerkleTree List

structure InclusionProof where
  leafIndex : ℤ
  treeSize : ℤ
  auditPath : List Bytes
  rootHash : Bytes

def InclusionProof.verify (H : CanonicalHash) (p : InclusionProof) (data claimedRoot : Bytes) :
    Bool :=
  if p.rootHash≠claimedRoot then false
  else verifyInclusion H p.leafIndex p.treeSize (leafHash H data) p.auditPath == claimedRoot

inductive TreeType
  | commitmentLog
  | shardTree
deriving DecidableEq

structure PortableMerkleProof where
  version : ℕ
  treeType : TreeType
  leafIndex : ℤ
  treeSize : ℤ
  leafHash : Bytes
  rootHash : Bytes
  path : List Bytes
  pathDirections : List Bool

def PortableMerkleProof.verify (H : CanonicalHash) (p : PortableMerkleProof) : Bool :=
  if p.path.length≠p.pathDirections.length then false
  else if p.path=[] ∧ p.treeSize=1 then p.leafHash == p.rootHash
  else verifyInclusion H p.leafIndex p.treeSize p.leafHash p.path == p.rootHash

def directionsLoop (i : ℤ) (n : ℕ) (directions : List Bool) : List Bool :=
  if 1<n then
    let k := largestPow2Below n
    if i<k then directionsLoop i k (true::directions)
    else directionsLoop (i-k) (n-k) (false::directions)
  else directions
termination_by n
decreasing_by exacts [split_lt ‹_›,sub_split_lt ‹_›]

def computeDirections (index treeSize : ℤ) : List Bool := directionsLoop index treeSize.toNat []

def fromInclusionProof (H : CanonicalHash) (proof : InclusionProof) (treeType : TreeType)
    (data : Bytes) : PortableMerkleProof where
  version := 1
  treeType := treeType
  leafIndex := proof.leafIndex
  treeSize := proof.treeSize
  leafHash := MerkleTree.leafHash H data
  rootHash := proof.rootHash
  path := proof.auditPath
  pathDirections := computeDirections proof.leafIndex proof.treeSize

variable {H : CanonicalHash}

variable {i : ℤ} {n : ℕ}

theorem goingLeft_split (h : 1<n) : goingLeft i n =
    if i<largestPow2Below n then true::goingLeft i (largestPow2Below n)
    else false::goingLeft (i-largestPow2Below n) (n-largestPow2Below n) := by
  rw [goingLeft,if_pos h]

theorem goingLeft_leaf (h : ¬1<n) : goingLeft i n=[] := by rw [goingLeft,if_neg h]

theorem directionsLoop_eq (i : ℤ) (n : ℕ) (acc : List Bool) :
    directionsLoop i n acc=(goingLeft i n).reverse++acc := by
  induction n using Nat.strongRecOn generalizing i acc with
  | ind n ih =>
    by_cases h : 1<n
    · have hlt := split_lt h
      have hp := split_pos h
      rw [directionsLoop,goingLeft_split h]
      dsimp only
      split_ifs
      · rw [ih _ hlt,reverse_cons,append_assoc,singleton_append]
      · rw [ih _ (by omega),reverse_cons,append_assoc,singleton_append]
    · rw [directionsLoop,if_neg h,goingLeft_leaf h]
      rfl

variable (index treeSize : ℤ)

theorem computeDirections_eq :
    computeDirections index treeSize=(goingLeft index treeSize.toNat).reverse := by
  rw [computeDirections,directionsLoop_eq,append_nil]

def climb (H : CanonicalHash) (steps : List (Bool × Bytes)) (leaf : Bytes) : Bytes :=
  steps.foldr (fun step node => combine H step.1 step.2 node) leaf

def combineQuery (wentLeft : Bool) (sibling node : Bytes) : Bytes :=
  0x01::(if wentLeft then node++sibling else sibling++node)

def climbQueries (H : CanonicalHash) : List (Bool × Bytes) → Bytes → List Bytes
  | [], _ => []
  | step::rest, leaf => combineQuery step.1 step.2 (climb H rest leaf)::climbQueries H rest leaf

def steps (index treeSize : ℤ) (path : List Bytes) : List (Bool × Bytes) :=
  ((goingLeft index treeSize.toNat).reverse.zip path).reverse

def verifyQueries (H : CanonicalHash) (p : InclusionProof) (data : Bytes) : List Bytes :=
  (0x00::data)::climbQueries H (steps p.leafIndex p.treeSize p.auditPath) (leafHash H data)

theorem verifyInclusion_eq_climb (leaf : Bytes) (path : List Bytes) :
    verifyInclusion H index treeSize leaf path=climb H (steps index treeSize path) leaf := by
  rw [verifyInclusion,climb,steps,foldr_reverse]

theorem map_fst_steps (path : List Bytes) :
    (steps index treeSize path).map Prod.fst=(goingLeft index treeSize.toNat).drop
        ((goingLeft index treeSize.toNat).length-path.length) := by
  have ht : ∀ (l : List Bool) (l' : List Bytes), (l.zip l').map Prod.fst=l.take l'.length := by
    intro l
    induction l with
    | nil => simp
    | cons b l ih =>
      intro l'
      cases l' with
      | nil => rfl
      | cons x l' => simp [ih]
  rw [steps,map_reverse,ht,take_reverse,reverse_reverse]

theorem length_climb (st : List (Bool × Bytes)) {leaf : Bytes} (h : leaf.length=H.size) :
    (climb H st leaf).length=H.size := by
  cases st with
  | nil => exact h
  | cons step rest =>
    rw [climb,foldr_cons,combine]
    split_ifs
    · exact length_internalHash H _ _
    · exact length_internalHash H _ _

variable {data : Bytes} {records : List Bytes}

theorem climb_sound {queries : List Bytes} (hf : CollisionFree H queries)
    (hd : (0x00::data) ∈ queries) (st : List (Bool × Bytes)) (hne : records≠[])
    (hre : recordQueries H records ⊆ queries) (hst : climbQueries H st (leafHash H data) ⊆ queries)
    (h : climb H st (leafHash H data)=computeRoot H (hashLeaves H records)) :
    subtreeAt records (st.map Prod.fst)=some [data] := by
  induction st generalizing records with
  | nil =>
    by_cases hl : 1<records.length
    · rw [recordRoot_split hl] at h
      exact absurd h (leafHash_ne_internalHash hf hd (hre (rootQuery_mem hl)))
    · obtain ⟨a,rfl⟩ := exists_eq_singleton hne hl
      have ha := leafHash_inj hf hd (hre (leafQuery_mem (mem_singleton_self a)))
        (h.trans (computeRoot_single H _))
      rw [ha]
      rfl
  | cons step rest ih =>
    obtain ⟨b,sib⟩ := step
    have hqu : combineQuery b sib (climb H rest (leafHash H data)) ∈ queries :=
      hst mem_cons_self
    have hr : climbQueries H rest (leafHash H data) ⊆ queries :=
      fun q hq => hst (mem_cons_of_mem _ hq)
    have hc := length_climb rest (length_leafHash H data)
    by_cases hl : 1<records.length
    · have ht := take_split_ne_nil hl
      have hdr := drop_split_ne_nil hl
      have hro := hre (rootQuery_mem hl)
      rw [recordRoot_split hl] at h
      cases b with
      | true =>
        have hn := (internalHash_inj hf hqu hro h (.inl (hc.trans (length_recordRoot H ht).symm))).1
        simpa [subtreeAt,hl] using
          ih ht (fun q hq => hre (recordQueries_take hl hq)) hr hn
      | false =>
        have hn := (internalHash_inj hf hqu hro h
          (.inr (hc.trans (length_recordRoot H hdr).symm))).2
        simpa [subtreeAt,hl] using
          ih hdr (fun q hq => hre (recordQueries_drop hl hq)) hr hn
    · -- a single record has a leaf digest as its root
      obtain ⟨a,rfl⟩ := exists_eq_singleton hne hl
      have ha := hre (leafQuery_mem (mem_singleton_self a))
      have hro : computeRoot H (hashLeaves H [a])=leafHash H a := computeRoot_single H _
      rw [hro] at h
      cases b with
      | true => exact absurd h.symm (leafHash_ne_internalHash hf ha hqu)
      | false => exact absurd h.symm (leafHash_ne_internalHash hf ha hqu)

def siblings (H : CanonicalHash) (leaves : List Bytes) : List Bool → List Bytes
  | [] => []
  | true::bs =>
    computeRoot H (leaves.drop (largestPow2Below leaves.length)) ::
      siblings H (leaves.take (largestPow2Below leaves.length)) bs
  | false::bs =>
    computeRoot H (leaves.take (largestPow2Below leaves.length)) ::
      siblings H (leaves.drop (largestPow2Below leaves.length)) bs

@[simp] theorem length_siblings (leaves : List Bytes) (bs : List Bool) :
    (siblings H leaves bs).length=bs.length := by
  induction bs generalizing leaves with
  | nil => rfl
  | cons b bs ih => cases b <;> simp [siblings,ih]

section
variable {bs : List Bool} (h : subtreeAt records bs=some [data])
include h

theorem climb_siblings : climb H (bs.zip (siblings H (hashLeaves H records) bs)) (leafHash H data) =
      computeRoot H (hashLeaves H records) := by
  induction bs generalizing records with
  | nil =>
    obtain rfl : records=[data] := Option.some.inj h
    exact (computeRoot_single H _).symm
  | cons b bs ih =>
    by_cases hl : 1<records.length
    · rw [recordRoot_split hl]
      cases b
      all_goals
        simp only [subtreeAt,hl] at h
        simp only [siblings,length_hashLeaves,hashLeaves_take,hashLeaves_drop]
      · exact congrArg (internalHash H _ ·) (ih h)
      · exact congrArg (internalHash H · _) (ih h)
    · simp [subtreeAt,hl] at h

theorem climbQueries_siblings :
    climbQueries H (bs.zip (siblings H (hashLeaves H records) bs)) (leafHash H data) ⊆
      recordQueries H records := by
  induction bs generalizing records with
  | nil => exact nil_subset _
  | cons b bs ih =>
    by_cases hl : 1<records.length
    · have hr := rootQuery_mem (H := H) hl
      cases b
      all_goals
        simp only [subtreeAt,hl] at h
        simp only [siblings,length_hashLeaves,hashLeaves_take,hashLeaves_drop,
          zip_cons_cons,climbQueries,climb_siblings h]
      · exact cons_subset.mpr ⟨hr,fun q hq => recordQueries_drop hl (ih h hq)⟩
      · exact cons_subset.mpr ⟨hr,fun q hq => recordQueries_take hl (ih h hq)⟩
    · simp [subtreeAt,hl] at h

end

theorem leafAt_goingLeft (hp : 0 ≤ i) (hlt : i<n) : leafAt n (goingLeft i n)=some i.toNat := by
  induction n using Nat.strongRecOn generalizing i with
  | ind n ih =>
    by_cases h : 1<n
    · have hs := split_lt h
      have hp' := split_pos h
      rw [goingLeft_split h]
      split_ifs with hi
      · simp only [leafAt,h]
        exact ih _ hs hp hi
      · simp only [leafAt,h,↓reduceIte,Bool.false_eq_true]
        rw [ih _ (by omega) (by omega) (by omega),Option.map_some,Option.some.injEq]
        omega
    · obtain rfl : n=1 := by omega
      rw [goingLeft_leaf h,show i=0 by omega]
      rfl

theorem auditPath_eq (i : ℤ) (leaves : List Bytes) :
    auditPath H i leaves=(siblings H leaves (goingLeft i leaves.length)).reverse := by
  generalize hn : leaves.length=n
  induction n using Nat.strongRecOn generalizing i leaves with
  | ind n ih =>
    subst hn
    by_cases h : 1<leaves.length
    · have hs := split_lt h
      have hp := split_pos h
      rw [auditPath,goingLeft_split h]
      dsimp only
      split_ifs
      · rw [ih _ hs _ _ (length_take_split h),siblings,reverse_cons]
      · rw [ih _ (by omega) _ _ (length_drop_split leaves),siblings,reverse_cons]
    · rw [auditPath,if_neg h,goingLeft_leaf h]
      rfl

theorem steps_siblings (t : ℕ) (path extra : List Bytes)
    (hl : path.length=((goingLeft index treeSize.toNat).drop
      ((goingLeft index treeSize.toNat).length-t)).length)
    (he : extra=[] ∨ (goingLeft index treeSize.toNat).length≤t) :
    steps index treeSize (path.reverse++extra)=((goingLeft index treeSize.toNat).drop
      ((goingLeft index treeSize.toNat).length-t)).zip path := by
  rw [steps]
  generalize goingLeft index treeSize.toNat=dirs at *
  have hs : dirs.reverse =
      (dirs.drop (dirs.length-t)).reverse++(dirs.take (dirs.length-t)).reverse := by
    rw [← reverse_append,take_append_drop]
  have hr : (dirs.take (dirs.length-t)).reverse.zip extra=[] := by
    rcases he with rfl|hle
    · exact zip_nil_right
    · rw [Nat.sub_eq_zero_of_le hle]
      rfl
  rw [hs,zip_append (by simpa using hl.symm),hr,append_nil,
    zip,reverse_zipWith (by simpa using hl.symm),reverse_reverse,
    reverse_reverse]

theorem steps_auditPath (i : ℤ) (leaves : List Bytes) :
    steps i leaves.length (auditPath H i leaves) =
      (goingLeft i leaves.length).zip (siblings H leaves (goingLeft i leaves.length)) := by
  have h := steps_siblings i leaves.length (goingLeft i leaves.length).length
    (siblings H leaves (goingLeft i leaves.length)) [] (by simp) (.inl rfl)
  simpa [auditPath_eq] using h

theorem verifyInclusion_auditPath {i : ℕ} (h : records[i]?=some data) :
    verifyInclusion H i records.length (leafHash H data)
      (auditPath H i (hashLeaves H records))=computeRoot H (hashLeaves H records) := by
  obtain ⟨hlt,-⟩ := List.getElem?_eq_some_iff.mp h
  have hse : subtreeAt records (goingLeft i records.length)=some [data] :=
    (subtreeAt_eq_singleton_iff _ _ _).mpr
      ⟨i,by simpa using leafAt_goingLeft (Int.natCast_nonneg i) (Int.ofNat_lt.mpr hlt),h⟩
  have hs := steps_auditPath (H := H) i (hashLeaves H records)
  rw [length_hashLeaves] at hs
  rw [verifyInclusion_eq_climb,hs]
  exact climb_siblings hse

theorem verify_fromInclusionProof {i : ℕ} (h : records[i]?=some data) (treeType : TreeType) :
    (fromInclusionProof H ⟨i,records.length,auditPath H i (hashLeaves H records),
      computeRoot H (hashLeaves H records)⟩ treeType data).verify H=true := by
  have hr := verifyInclusion_auditPath (H := H) h
  have hp : (auditPath H i (hashLeaves H records)).length =
      (computeDirections i records.length).length := by
    rw [computeDirections_eq]
    simp [auditPath_eq]
  rw [PortableMerkleProof.verify,if_neg (by simpa [fromInclusionProof] using hp)]
  split_ifs with hs
  · -- with no sibling the reconstruction is the leaf hash itself
    have hn : auditPath H i (hashLeaves H records)=[] := hs.1
    rw [hn,verifyInclusion,zip_nil_right] at hr
    exact beq_iff_eq.mpr hr
  · exact beq_iff_eq.mpr hr

def PortableMerkleProof.foldDirections (H : CanonicalHash) (p : PortableMerkleProof) : Bytes :=
  (p.pathDirections.zip p.path).foldl (fun node step => combine H step.1 step.2 node) p.leafHash

/-- Both lists go from the root to the leaf. Where they turn differently the node below and its
sibling are equal, so that both orders hash the same bytes. -/
def SameOrder (H : CanonicalHash) (leaf : Bytes) :
    List (Bool × Bytes) → List (Bool × Bytes) → Prop
  | [], [] => True
  | (turn,sibling)::given, (turn',sibling')::way => sibling=sibling' ∧
      (turn=turn' ∨ climb H way leaf=sibling) ∧ SameOrder H leaf given way
  | _, _ => False

section
variable {leaf : Bytes} {given way : List (Bool × Bytes)}

theorem climb_of_sameOrder (h : SameOrder H leaf given way) :
    climb H given leaf=climb H way leaf := by
  induction given generalizing way with
  | nil => cases way with
    | nil => rfl
    | cons => cases h
  | cons step given ih => cases way with
    | nil => cases h
    | cons step' way =>
      obtain ⟨turn,sibling⟩ := step
      obtain ⟨turn',_⟩ := step'
      obtain ⟨rfl,ht,hr⟩ := h
      change combine H turn sibling (climb H given leaf)=combine H turn' sibling (climb H way leaf)
      rw [ih hr]
      rcases ht with rfl|he
      · rfl
      · rw [he]
        cases turn <;> cases turn' <;> rfl

theorem sameOrder_of_climb (hleaf : leaf.length=H.size)
    (hs : given.map Prod.snd=way.map Prod.snd) (hw : ∀ step ∈ way, step.2.length=H.size)
    {queries : List Bytes} (hf : CollisionFree H queries)
    (hgq : climbQueries H given leaf ⊆ queries) (hwq : climbQueries H way leaf ⊆ queries)
    (h : climb H given leaf=climb H way leaf) : SameOrder H leaf given way := by
  induction given generalizing way with
  | nil =>
    obtain rfl := map_eq_nil_iff.mp hs.symm
    trivial
  | cons step given ih => cases way with
    | nil => simp at hs
    | cons step' way =>
      obtain ⟨turn,sibling⟩ := step
      obtain ⟨turn',_⟩ := step'
      obtain ⟨rfl,htail⟩ := cons_eq_cons.mp hs
      have hg := length_climb given hleaf
      have hw' := length_climb way hleaf
      have hsib : sibling.length=H.size := hw _ mem_cons_self
      obtain ⟨hq,hgq⟩ := cons_subset.mp hgq
      obtain ⟨hq',hwq⟩ := cons_subset.mp hwq
      have hlevel : (turn=turn' ∨ climb H way leaf=sibling) ∧
          climb H given leaf=climb H way leaf := by
        cases turn <;> cases turn' <;>
          have hi := internalHash_inj hf hq hq' h (.inl (by simp only [hg,hw',hsib]))
        · exact ⟨.inl rfl,hi.2⟩
        · exact ⟨.inr hi.1.symm,hi.2.trans hi.1⟩
        · exact ⟨.inr hi.2.symm,hi.1.trans hi.2⟩
        · exact ⟨.inl rfl,hi.1⟩
      exact ⟨rfl,hlevel.1,ih htail (fun step hm => hw step (mem_cons_of_mem _ hm)) hgq hwq
        hlevel.2⟩

end

namespace PortableMerkleProof
variable (H) (p : PortableMerkleProof)

/-- The position is in range, and the directions lead from the leaf to the root. -/
def Readable : Prop :=
  0≤p.leafIndex ∧ p.leafIndex<p.treeSize ∧ p.foldDirections H=p.rootHash

def given : List (Bool × Bytes) := (p.pathDirections.zip p.path).reverse

def way : List (Bool × Bytes) := steps p.leafIndex p.treeSize p.path

/-- The position is in range, and the directions turn as the way to it does. -/
def Directed : Prop :=
  0≤p.leafIndex ∧ p.leafIndex<p.treeSize ∧ SameOrder H p.leafHash p.given p.way

variable {H p}

theorem verify_iff_climb : p.verify H=true ↔
    p.path.length=p.pathDirections.length ∧ climb H p.way p.leafHash=p.rootHash := by
  rw [verify,verifyInclusion_eq_climb,way]
  split_ifs with hl he
  · simp [hl]
  · rw [he.1,and_iff_right (he.1 ▸ not_not.mp hl),steps,zip_nil_right,beq_iff_eq]
    rfl
  · simp [not_not.mp hl]

/-- `verify` reads the way to the position and not the directions: what it accepts is read the
same by the directions exactly if they turn as the way does. -/
theorem readable_iff_directed (hv : p.verify H=true) : (p.Directed H → p.Readable H) ∧
    ((∀ node ∈ p.leafHash::p.path, node.length=H.size) →
      p.path.length≤(computeDirections p.leafIndex p.treeSize).length →
      CollisionFree H (climbQueries H p.given p.leafHash++climbQueries H p.way p.leafHash) →
      (p.Readable H ↔ p.Directed H)) := by
  obtain ⟨hl,hroot⟩ := verify_iff_climb.mp hv
  have hfold : p.foldDirections H=climb H p.given p.leafHash := by
    rw [foldDirections,climb,given,foldr_reverse]
  have hdirected : p.Directed H → p.Readable H := fun ⟨hp,hlt,hs⟩ =>
    ⟨hp,hlt,by rw [hfold,climb_of_sameOrder hs,hroot]⟩
  refine ⟨hdirected,fun hsize hdepth hf => ⟨fun ⟨hp,hlt,hd⟩ => ⟨hp,hlt,?_⟩,hdirected⟩⟩
  rw [computeDirections_eq] at hdepth
  refine sameOrder_of_climb (hsize _ mem_cons_self) ?_ (fun step hm => ?_) hf
    (subset_append_left _ _) (subset_append_right _ _) (by rw [← hfold,hd,hroot])
  · rw [given,way,steps,map_reverse,map_reverse,map_snd_zip hl.le,map_snd_zip hdepth]
  · exact hsize _ (mem_cons_of_mem _ (of_mem_zip (mem_reverse.mp hm)).2)

end PortableMerkleProof

def twoLeavesProof : PortableMerkleProof :=
  let leaves := (replicate 32 7,replicate 32 8)
  ⟨1,.commitmentLog,0,2,leaves.1,internalHash cutHash leaves.1 leaves.2,[leaves.2],[true]⟩

theorem twoLeavesProof_directed : twoLeavesProof.verify cutHash=true ∧
    twoLeavesProof.Directed cutHash := by
  have hv : twoLeavesProof.verify cutHash=true := by decide +kernel
  exact ⟨hv,((PortableMerkleProof.readable_iff_directed hv).2 (by decide +kernel)
    (by decide +kernel) (by decide +kernel)).mp ⟨by decide,by decide,by decide +kernel⟩⟩

theorem portable_verify_ignores_directions :
    ({twoLeavesProof with pathDirections := [false]}.verify cutHash=true ∧
      {twoLeavesProof with pathDirections := [false]}.foldDirections cutHash ≠
        twoLeavesProof.rootHash) ∧
    (⟨1,.commitmentLog,5,1,[7],[7],[],[]⟩ : PortableMerkleProof).verify cutHash = true := by
  decide +kernel

theorem verify_eq_true_iff (p : InclusionProof) (data root : Bytes) :
    p.verify H data root=true ↔ p.rootHash=root ∧
      climb H (steps p.leafIndex p.treeSize p.auditPath) (leafHash H data)=root := by
  rw [InclusionProof.verify,verifyInclusion_eq_climb]
  split_ifs with h
  · simp [h]
  · simp [not_not.mp h]

/-- The leaf that the decisions read by the verifier lead to from the root. -/
def reached (index : ℤ) (n pathLength : ℕ) : Option ℕ :=
  leafAt n ((goingLeft index n).drop ((goingLeft index n).length-pathLength))

theorem verify_reached {p : InclusionProof} (hsi : p.treeSize=records.length)
    (hf : CollisionFree H (treeQueries H records++verifyQueries H p data))
    (h : p.verify H data (treeRoot H records)=true) :
    ∃ j, reached p.leafIndex records.length p.auditPath.length=some j ∧ records[j]?=some data := by
  have hc := ((verify_eq_true_iff _ _ _).mp h).2
  have hd : (0x00::data) ∈ treeQueries H records++verifyQueries H p data :=
    mem_append_right _ mem_cons_self
  by_cases hne : records=[]
  · -- the verifier compares a leaf digest with the digest of the empty string
    subst hne
    have hs : steps p.leafIndex p.treeSize p.auditPath=[] := by
      rw [steps,hsi,length_nil,goingLeft_leaf (by omega)]
      rfl
    rw [hs] at hc
    have heq := hf _ hd [] (mem_append_left _ mem_cons_self) hc
    exact absurd heq (cons_ne_nil _ _)
  · rw [treeRoot,if_neg hne] at hc
    rw [treeQueries,if_neg hne] at hf hd
    have hse := climb_sound hf hd _ hne (subset_append_left _ _)
      (fun q hq => mem_append_right _ (mem_cons_of_mem _ hq)) hc
    rw [map_fst_steps,hsi] at hse
    exact (subtreeAt_eq_singleton_iff _ _ _).mp hse

theorem exists_verify_of_reached {index : ℤ} {t j : ℕ}
    (hj : reached index records.length t=some j) (hd : records[j]?=some data) :
    ∃ p : InclusionProof, p.leafIndex=index ∧ p.treeSize=records.length ∧
      p.auditPath.length=t ∧ verifyQueries H p data ⊆ treeQueries H records ∧
      p.verify H data (treeRoot H records)=true := by
  have hse := (subtreeAt_eq_singleton_iff records _ data).mpr ⟨j,hj,hd⟩
  have hne : records≠[] := ne_nil_of_mem (mem_of_getElem? hd)
  set dirs := goingLeft index records.length with hdi
  set last := dirs.drop (dirs.length-t) with hl
  set path := siblings H (hashLeaves H records) last with hp
  have hlen : last.length=min dirs.length t := by
    rw [length_drop]
    omega
  have hs : steps index records.length (path.reverse++List.replicate (t-dirs.length) []) =
      last.zip path := by
    refine steps_siblings index records.length t path _ (by simp [hp,hl,hdi]) ?_
    rcases Nat.le_total dirs.length t with hle|hle
    · exact .inr (by simpa [hdi] using hle)
    · left
      rw [Nat.sub_eq_zero_of_le hle]
      rfl
  refine ⟨⟨index,records.length,path.reverse++List.replicate (t-dirs.length) [],
    treeRoot H records⟩,rfl,rfl,?_,?_,?_⟩
  · simp only [length_append,length_reverse,length_replicate,hp,length_siblings]
    omega
  · rw [verifyQueries,hs,treeQueries,if_neg hne]
    exact cons_subset.mpr
      ⟨leafQuery_mem (mem_of_getElem? hd),climbQueries_siblings hse⟩
  · rw [verify_eq_true_iff,hs,treeRoot,if_neg hne]
    exact ⟨rfl,climb_siblings hse⟩

/-- The accepted records are those at the position, for every path of length `t`,
exactly when the decisions that are read lead to a leaf with that record or to none. -/
theorem verify_sound_iff_reached (records : List Bytes) (index : ℤ) (t : ℕ)
    (hfree : CollisionFree H (treeQueries H records)) :
    (∀ (p : InclusionProof) (data : Bytes), p.leafIndex=index → p.treeSize=records.length →
      p.auditPath.length=t → CollisionFree H (treeQueries H records++verifyQueries H p data) →
      p.verify H data (treeRoot H records)=true →
      0≤p.leafIndex ∧ p.leafIndex<p.treeSize ∧ records[p.leafIndex.toNat]?=some data) ↔
    ∀ j, reached index records.length t=some j →
      0 ≤ index ∧ index<records.length ∧ records[j]?=records[index.toNat]? := by
  constructor
  · intro h j hj
    have hlt : j<records.length := leafAt_lt hj
    have hd : records[j]?=some (records[j]) := getElem?_eq_getElem hlt
    obtain ⟨p,hi,hs,hl,hsu,hv⟩ := exists_verify_of_reached hj hd
    have ha := hfree.mono (append_subset.mpr ⟨.refl _,hsu⟩)
    have hg := h p _ hi hs hl ha hv
    rw [hi,hs] at hg
    exact ⟨hg.1,hg.2.1,hd.trans hg.2.2.symm⟩
  · intro h p data hi hs hl ha hv
    obtain ⟨j,hj,hd⟩ := verify_reached hs ha hv
    rw [hi,hl] at hj
    obtain ⟨hp,hlt,heq⟩ := h j hj
    rw [hi,hs]
    exact ⟨hp,hlt,heq.symm.trans hd⟩

theorem verify_sound_of_three_records :
    CollisionFree cutHash (treeQueries cutHash [[10],[11],[12]]) ∧
    ∀ (p : InclusionProof) (data : Bytes), p.leafIndex=1 → p.treeSize=3 → p.auditPath.length=2 →
      CollisionFree cutHash (treeQueries cutHash [[10],[11],[12]] ++
        verifyQueries cutHash p data) →
      p.verify cutHash data (treeRoot cutHash [[10],[11],[12]])=true →
      0≤p.leafIndex ∧ p.leafIndex<p.treeSize ∧ [[10],[11],[12]][p.leafIndex.toNat]?=some data := by
  have hf : CollisionFree cutHash (treeQueries cutHash [[10],[11],[12]]) := by decide +kernel
  have hr : ∀ j, reached 1 3 2=some j →
      (0 : ℤ)≤1 ∧ (1 : ℤ)<3 ∧ [[10],[11],[12]][j]?=some ([11] : Bytes) := by
    intro j hj
    obtain rfl : 1=j := Option.some.inj ((by decide +kernel : some 1=reached 1 3 2).trans hj)
    decide
  exact ⟨hf,(verify_sound_iff_reached [[10],[11],[12]] 1 2 hf).mpr hr⟩

def shortProof : InclusionProof where
  leafIndex := 1
  treeSize := 3
  auditPath := [internalHash cutHash (leafHash cutHash [10])
    (leafHash cutHash [11])]
  rootHash := treeRoot cutHash [[10],[11],[12]]

def outOfRangeProof : InclusionProof where
  leafIndex := 5
  treeSize := 1
  auditPath := []
  rootHash := treeRoot cutHash [[10]]

theorem verify_accepts_forged_position :
    (CollisionFree cutHash (treeQueries cutHash [[10],[11],[12]] ++
        verifyQueries cutHash shortProof [12]) ∧
      shortProof.verify cutHash [12] (treeRoot cutHash [[10],[11],[12]])=true ∧
      [[10],[11],[12]][shortProof.leafIndex.toNat]?≠some ([12] : Bytes)) ∧
    CollisionFree cutHash (treeQueries cutHash [[10]] ++
        verifyQueries cutHash outOfRangeProof [10]) ∧
      outOfRangeProof.verify cutHash [10] (treeRoot cutHash [[10]])=true ∧
      ¬outOfRangeProof.leafIndex<outOfRangeProof.treeSize := by decide +kernel

end LatticeTransfer.MerkleInclusion
