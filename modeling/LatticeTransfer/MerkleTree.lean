import LatticeTransfer.Machine
import LatticeTransfer.PyValue
import LatticeTransfer.SplitTree

/-!
# The append-only Merkle tree

The recursive tree operations of `merkle_log/tree.py` over an arbitrary hash of
fixed output length: the active profile selects SHA3-256, SHA-384 or SHA-512, so
the length is a parameter. The position and the size that an inclusion verifier
receives are unchecked integers and are modelled as such; a consistency check
rejects negative sizes at once, so its sizes are naturals. The tree object carries
the cached root with the leaf count and checksum that guard it, also against leaves that are
replaced in place.
-/

namespace LatticeTransfer.MerkleTree
open SplitTree List

structure CanonicalHash where
  algo : String
  run : Bytes → Bytes
  size : ℕ
  length_run : ∀ b, (run b).length=size

variable (H : CanonicalHash)

def canonicalHash (data : Bytes) : String := H.algo ++ ":" ++ PyValue.hex (H.run data)

def leafHash (data : Bytes) : Bytes := H.run (0x00::data)

def internalHash (left right : Bytes) : Bytes := H.run (0x01::(left++right))

/-- The source asserts a nonempty list; no caller passes an empty one. -/
def computeRoot (leaves : List Bytes) : Bytes :=
  if 1<leaves.length then
    internalHash H (computeRoot (leaves.take (largestPow2Below leaves.length)))
      (computeRoot (leaves.drop (largestPow2Below leaves.length)))
  else leaves.headD []
termination_by leaves.length
decreasing_by exacts [length_take_split_lt ‹_›,length_drop_split_lt ‹_›]

def auditPath (index : ℤ) (leaves : List Bytes) : List Bytes :=
  if 1<leaves.length then
    let k := largestPow2Below leaves.length
    if index<k then auditPath index (leaves.take k)++[computeRoot H (leaves.drop k)]
    else auditPath (index-k) (leaves.drop k)++[computeRoot H (leaves.take k)]
  else []
termination_by leaves.length
decreasing_by exacts [length_take_split_lt ‹_›,length_drop_split_lt ‹_›]

def goingLeft (i : ℤ) (n : ℕ) : List Bool :=
  if 1<n then
    let k := largestPow2Below n
    if i<k then true::goingLeft i k else false::goingLeft (i-k) (n-k)
  else []
termination_by n
decreasing_by exacts [split_lt ‹_›,sub_split_lt ‹_›]

def combine (wentLeft : Bool) (sibling node : Bytes) : Bytes :=
  if wentLeft then internalHash H node sibling else internalHash H sibling node

def verifyInclusion (index treeSize : ℤ) (leaf : Bytes) (path : List Bytes) : Bytes :=
  ((goingLeft index treeSize.toNat).reverse.zip path).foldl
    (fun node step => combine H step.1 step.2 node) leaf

def subproof (m : ℕ) (leaves : List Bytes) (start : Bool) : List Bytes :=
  if m=leaves.length then
    if start then [] else [computeRoot H leaves]
  else if 1<leaves.length then
    let k := largestPow2Below leaves.length
    if m≤k then subproof m (leaves.take k) start++[computeRoot H (leaves.drop k)]
    else subproof (m-k) (leaves.drop k) false++[computeRoot H (leaves.take k)]
  else []
termination_by leaves.length
decreasing_by exacts [length_take_split_lt ‹_›,length_drop_split_lt ‹_›]

structure Cursor where
  remaining : List Bytes
  consumed : ℕ

def Cursor.next (c : Cursor) : Option (Bytes × Cursor) :=
  match c.remaining with
  | [] => none
  | node::rest => some (node,⟨rest,c.consumed+1⟩)

def verifyNode (oldRoot : Bytes) (m n : ℕ) (start : Bool) (c : Cursor) :
    Option (Bytes × Bytes × Cursor) :=
  if m=n then
    if start then some (oldRoot,oldRoot,c)
    else c.next.map fun p => (p.1,p.1,p.2)
  else if 1<n then
    let k := largestPow2Below n
    if m≤k then
      (verifyNode oldRoot m k start c).bind fun r =>
        r.2.2.next.map fun p => (r.1,internalHash H r.2.1 p.1,p.2)
    else
      (verifyNode oldRoot (m-k) (n-k) false c).bind fun r =>
        r.2.2.next.map fun p => (internalHash H p.1 r.1,internalHash H p.1 r.2.1,p.2)
  else none
termination_by n
decreasing_by exacts [split_lt ‹_›,sub_split_lt ‹_›]

def verifyConsistency (oldSize newSize : ℕ) (oldRoot newRoot : Bytes) (proof : List Bytes) : Bool :=
  if oldSize<1 ∨ oldSize > newSize then false
  else if oldSize=newSize then oldRoot == newRoot && proof.length == 0
  else
    match verifyNode H oldRoot oldSize newSize true ⟨proof,0⟩ with
    | none => false
    | some (oh,nh,c) => oh == oldRoot && nh == newRoot && c.consumed == proof.length

structure Tree where
  leaves : List Bytes
  cachedRoot : Option Bytes
  cacheLeafCount : ℕ
  cacheLeafChecksum : Bytes

namespace Tree

def init : Tree := ⟨[],none,0,[]⟩

def size (t : Tree) : ℕ := t.leaves.length

def capacity : ℕ := 1000000

def append (t : Tree) (data : Bytes) : Except PyError (ℕ × Tree) :=
  if t.leaves.length ≥ capacity then .error (.valueError "Merkle log capacity exceeded")
  else .ok (t.leaves.length,{t with leaves := t.leaves++[leafHash H data]})

def leafChecksum (t : Tree) : Bytes := if t.leaves=[] then [] else H.run t.leaves.flatten

def root (t : Tree) : Bytes × Tree :=
  if t.leaves=[] then (H.run [],t)
  else
    let fresh := computeRoot H t.leaves
    let refreshed := {t with
      cachedRoot := some fresh
      cacheLeafCount := t.leaves.length
      cacheLeafChecksum := t.leafChecksum H}
    match t.cachedRoot with
    | none => (fresh,refreshed)
    | some cached =>
      if t.leaves.length=t.cacheLeafCount ∧ t.leafChecksum H=t.cacheLeafChecksum
      then (cached,t) else (fresh,refreshed)

def leafHashAt (t : Tree) (index : ℤ) : Except PyError Bytes :=
  let size := t.size
  if 0 ≤ index ∧ index<size then .ok (t.leaves.getD index.toNat [])
  else .error (.indexError s!"Leaf index {index} out of range (size={size})")

def auditPath (t : Tree) (index : ℤ) : Except PyError (List Bytes) :=
  let size := t.size
  if 0 ≤ index ∧ index<size then .ok (MerkleTree.auditPath H index t.leaves)
  else .error (.indexError s!"Leaf index {index} out of range (size={size})")

def consistencyProof (t : Tree) (oldSize : ℕ) : Except PyError (List Bytes) :=
  let size := t.size
  if oldSize<1 ∨ oldSize > size then
    .error (.valueError s!"old_size {oldSize} out of range (1..{size})")
  else if oldSize=size then .ok []
  else .ok (subproof H oldSize t.leaves true)

end Tree

theorem computeRoot_split {leaves : List Bytes} (h : 1<leaves.length) :
    computeRoot H leaves=internalHash H
      (computeRoot H (leaves.take (largestPow2Below leaves.length)))
      (computeRoot H (leaves.drop (largestPow2Below leaves.length))) := by rw [computeRoot,if_pos h]

@[simp] theorem computeRoot_single (leaf : Bytes) : computeRoot H [leaf]=leaf := by
  rw [computeRoot]
  rfl

@[simp] theorem length_leafHash (data : Bytes) : (leafHash H data).length=H.size := H.length_run _

@[simp] theorem length_internalHash (left right : Bytes) :
    (internalHash H left right).length=H.size := H.length_run _

theorem length_computeRoot {leaves : List Bytes} (hne : leaves≠[])
    (hl : ∀ leaf ∈ leaves, leaf.length=H.size) : (computeRoot H leaves).length=H.size := by
  by_cases h : 1<leaves.length
  · rw [computeRoot_split H h,length_internalHash]
  · have hp := length_pos_iff.mpr hne
    obtain ⟨leaf,rfl⟩ := length_eq_one_iff.mp (show leaves.length=1 by omega)
    rw [computeRoot_single]
    exact hl leaf (mem_singleton_self leaf)

/-- No two different strings of the given list have one digest. The lists below are
the inputs that a tree computation or a verifier really hashes, so the assumption
can hold for a hash of fixed output length. -/
def CollisionFree (queries : List Bytes) : Prop :=
  ∀ x ∈ queries, ∀ y ∈ queries, H.run x=H.run y → x=y

instance (queries : List Bytes) : Decidable (CollisionFree H queries) :=
  inferInstanceAs (Decidable (∀ x ∈ queries, ∀ y ∈ queries, H.run x=H.run y → x=y))

def cutHash : CanonicalHash where
  algo := "truncation"
  run b := (b++List.replicate 32 0).take 32
  size := 32
  length_run b := by simp

def lastBytes : CanonicalHash where
  algo := "last"
  run b := (b.reverse++List.replicate 32 0).take 32
  size := 32
  length_run b := by simp

def rootQueries (leaves : List Bytes) : List Bytes :=
  if 1<leaves.length then
    (0x01::(computeRoot H (leaves.take (largestPow2Below leaves.length)) ++
        computeRoot H (leaves.drop (largestPow2Below leaves.length)))) ::
      (rootQueries (leaves.take (largestPow2Below leaves.length)) ++
        rootQueries (leaves.drop (largestPow2Below leaves.length)))
  else []
termination_by leaves.length
decreasing_by exacts [length_take_split_lt ‹_›,length_drop_split_lt ‹_›]

def hashLeaves (records : List Bytes) : List Bytes := records.map (leafHash H)

def recordQueries (records : List Bytes) : List Bytes :=
  records.map (0x00 :: ·)++rootQueries H (hashLeaves H records)

def treeRoot (records : List Bytes) : Bytes :=
  if records=[] then H.run [] else computeRoot H (hashLeaves H records)

def treeQueries (records : List Bytes) : List Bytes :=
  if records=[] then [[]] else recordQueries H records

@[simp] theorem length_hashLeaves (records : List Bytes) :
    (hashLeaves H records).length=records.length := length_map _

theorem hashLeaves_take (records : List Bytes) (k : ℕ) :
    (hashLeaves H records).take k=hashLeaves H (records.take k) := map_take.symm

theorem hashLeaves_drop (records : List Bytes) (k : ℕ) :
    (hashLeaves H records).drop k=hashLeaves H (records.drop k) := map_drop.symm

variable {records : List Bytes}

theorem length_of_mem_hashLeaves {leaf : Bytes} (h : leaf ∈ hashLeaves H records) :
    leaf.length=H.size := by
  obtain ⟨data,_,rfl⟩ := mem_map.mp h
  exact length_leafHash H data

theorem length_recordRoot (hne : records≠[]) :
    (computeRoot H (hashLeaves H records)).length=H.size :=
  length_computeRoot H (by simpa [hashLeaves] using hne) fun _ h => length_of_mem_hashLeaves H h

variable {H}

theorem CollisionFree.mono {small large : List Bytes} (h : CollisionFree H large)
    (hs : small ⊆ large) : CollisionFree H small :=
  fun x hx y hy => h x (hs hx) y (hs hy)

theorem recordRoot_split (h : 1<records.length) :
    computeRoot H (hashLeaves H records)=internalHash H
      (computeRoot H (hashLeaves H (records.take (largestPow2Below records.length))))
      (computeRoot H (hashLeaves H (records.drop (largestPow2Below records.length)))) := by
  rw [computeRoot_split H (by simpa using h),length_hashLeaves,hashLeaves_take,hashLeaves_drop]

theorem leafQuery_mem {data : Bytes} (h : data ∈ records) :
    (0x00::data) ∈ recordQueries H records :=
  mem_append_left _ (mem_map.mpr ⟨data,h,rfl⟩)

theorem rootQuery_mem (h : 1<records.length) :
    (0x01::(computeRoot H (hashLeaves H (records.take (largestPow2Below records.length))) ++
      computeRoot H (hashLeaves H (records.drop (largestPow2Below records.length))))) ∈
        recordQueries H records := by
  refine mem_append_right _ ?_
  rw [rootQueries,if_pos (by simpa using h),length_hashLeaves,hashLeaves_take,hashLeaves_drop]
  exact mem_cons_self

theorem rootQueries_halves (h : 1<records.length) :
    rootQueries H (hashLeaves H (records.take (largestPow2Below records.length))) ⊆
        rootQueries H (hashLeaves H records) ∧
      rootQueries H (hashLeaves H (records.drop (largestPow2Below records.length))) ⊆
        rootQueries H (hashLeaves H records) := by
  rw [rootQueries.eq_1 H (hashLeaves H records),if_pos (by simpa using h),length_hashLeaves,
    hashLeaves_take,hashLeaves_drop]
  constructor
  · exact fun q hq => mem_cons_of_mem _ (mem_append_left _ hq)
  · exact fun q hq => mem_cons_of_mem _ (mem_append_right _ hq)

theorem recordQueries_mono {small large : List Bytes} (hs : small ⊆ large)
    (hr : rootQueries H (hashLeaves H small) ⊆ rootQueries H (hashLeaves H large)) :
    recordQueries H small ⊆ recordQueries H large :=
  append_subset.mpr ⟨fun _ hq => mem_append_left _ (map_subset _ hs hq),
    fun _ hq => mem_append_right _ (hr hq)⟩

theorem recordQueries_take (h : 1<records.length) :
    recordQueries H (records.take (largestPow2Below records.length)) ⊆ recordQueries H records :=
  recordQueries_mono (take_subset _ _) (rootQueries_halves h).1

theorem recordQueries_drop (h : 1<records.length) :
    recordQueries H (records.drop (largestPow2Below records.length)) ⊆ recordQueries H records :=
  recordQueries_mono (drop_subset _ _) (rootQueries_halves h).2

variable {qs : List Bytes}

section
variable (hf : CollisionFree H qs)
include hf

theorem internalHash_inj {l r l' r' : Bytes} (hq : (0x01::(l++r)) ∈ qs)
    (hq' : (0x01::(l'++r')) ∈ qs) (h : internalHash H l r=internalHash H l' r')
    (hle : l.length=l'.length ∨ r.length=r'.length) : l=l' ∧ r=r' := by
  have ha : l++r=l'++r' := tail_eq_of_cons_eq (hf _ hq _ hq' h)
  rcases hle with hl|hr
  · exact append_inj ha hl
  · exact append_inj' ha hr

theorem leafHash_inj {a b : Bytes} (ha : (0x00::a) ∈ qs) (hb : (0x00::b) ∈ qs)
    (h : leafHash H a=leafHash H b) : a=b :=
  tail_eq_of_cons_eq (hf _ ha _ hb h)

theorem leafHash_ne_internalHash {a l r : Bytes} (ha : (0x00::a) ∈ qs)
    (hq : (0x01::(l++r)) ∈ qs) : leafHash H a≠internalHash H l r := by
  intro h
  have hh := head_eq_of_cons_eq (hf _ ha _ hq h)
  exact absurd hh (by decide)

theorem recordRoot_inj {a b : List Bytes} (ha : a≠[]) (hb : b≠[])
    (hqa : recordQueries H a ⊆ qs) (hqb : recordQueries H b ⊆ qs)
    (h : computeRoot H (hashLeaves H a)=computeRoot H (hashLeaves H b)) : a=b := by
  have hs : ∀ x : Bytes, computeRoot H (hashLeaves H [x])=leafHash H x :=
    fun x => computeRoot_single H _
  have hn : ∀ {x : Bytes} {l : List Bytes}, recordQueries H [x] ⊆ qs → 1<l.length →
      recordQueries H l ⊆ qs → leafHash H x≠computeRoot H (hashLeaves H l) := by
    intro x l hx hl hql
    rw [recordRoot_split hl]
    exact leafHash_ne_internalHash hf (hx (leafQuery_mem (mem_singleton_self x)))
      (hql (rootQuery_mem hl))
  induction a, ha using split_induction generalizing b with
  | single x =>
    rw [hs] at h
    by_cases hle : 1<b.length
    · exact absurd h (hn hqa hle hqb)
    · obtain ⟨y,rfl⟩ := exists_eq_singleton hb hle
      rw [hs] at h
      rw [leafHash_inj hf (hqa (leafQuery_mem (mem_singleton_self x)))
        (hqb (leafQuery_mem (mem_singleton_self y))) h]
  | node a hle ihl ihr =>
    by_cases hl' : 1<b.length
    · rw [recordRoot_split hle,recordRoot_split hl'] at h
      have hp := internalHash_inj hf (hqa (rootQuery_mem hle)) (hqb (rootQuery_mem hl')) h
        (.inl ((length_recordRoot H (take_split_ne_nil hle)).trans
          (length_recordRoot H (take_split_ne_nil hl')).symm))
      have hl := ihl (take_split_ne_nil hl')
        (fun q hq => hqa (recordQueries_take hle hq))
        (fun q hq => hqb (recordQueries_take hl' hq))
        hp.1
      have hr := ihr (drop_split_ne_nil hl')
        (fun q hq => hqa (recordQueries_drop hle hq))
        (fun q hq => hqb (recordQueries_drop hl' hq))
        hp.2
      calc a=a.take (largestPow2Below a.length)++a.drop (largestPow2Below a.length) :=
            (take_append_drop _ _).symm
        _ = b := by rw [hl,hr,take_append_drop]
    · obtain ⟨y,rfl⟩ := exists_eq_singleton hb hl'
      rw [hs] at h
      exact absurd h.symm (hn hqb hle hqa)

end

namespace Tree

def CacheValid (H : CanonicalHash) (t : Tree) : Prop :=
  ∀ r, t.cachedRoot=some r →
    t.cacheLeafCount≤t.leaves.length ∧ r=computeRoot H (t.leaves.take t.cacheLeafCount)

theorem cacheValid_init : CacheValid H init := fun _ h => absurd h (by simp [init])

variable {t : Tree}

section
variable {t' : Tree} {data : Bytes} {index : ℕ}

theorem append_eq_ok (h : t.append H data=.ok (index,t')) :
    t.leaves.length<capacity ∧ index=t.leaves.length ∧
      t'={t with leaves := t.leaves++[leafHash H data]} := by
  rw [append] at h
  split_ifs at h with hc
  simp only [Except.ok.injEq,Prod.mk.injEq] at h
  exact ⟨not_le.mp hc,h.1.symm,h.2.symm⟩

theorem cacheValid_append (ht : CacheValid H t) (h : t.append H data=.ok (index,t')) :
    CacheValid H t' := by
  obtain ⟨-,-,rfl⟩ := append_eq_ok h
  intro r hr
  obtain ⟨hle,hro⟩ := ht r hr
  have hl : t.leaves.length≤(t.leaves++[leafHash H data]).length := by simp
  exact ⟨hle.trans hl,by rw [take_append_of_le_length hle,hro]⟩

end

def Cached (H : CanonicalHash) (t : Tree) (leaves : List Bytes) : Prop :=
  t.cachedRoot=some (computeRoot H leaves) ∧ t.cacheLeafCount=leaves.length ∧
    t.cacheLeafChecksum=H.run leaves.flatten

theorem root_nil (hn : t.leaves=[]) : t.root H=(H.run [],t) := if_pos hn

theorem root_cases (hn : t.leaves≠[]) :
    (∃ r, t.root H=(r,t) ∧ t.cachedRoot=some r ∧ t.leaves.length=t.cacheLeafCount ∧
      H.run t.leaves.flatten=t.cacheLeafChecksum) ∨
    (t.root H).1=computeRoot H t.leaves ∧ Cached H (t.root H).2 t.leaves ∧
      (t.root H).2.leaves=t.leaves := by
  rw [root,if_neg hn,leafChecksum,if_neg hn]
  cases hc : t.cachedRoot with
  | none => exact .inr ⟨rfl,⟨rfl,rfl,rfl⟩,rfl⟩
  | some cached =>
    dsimp only
    split_ifs with hm
    · exact .inl ⟨cached,rfl,rfl,hm⟩
    · exact .inr ⟨rfl,⟨rfl,rfl,rfl⟩,rfl⟩

theorem root_spec (ht : CacheValid H t) :
    (t.root H).1=(if t.leaves=[] then H.run [] else computeRoot H t.leaves) ∧
      (t.root H).2.leaves=t.leaves ∧ CacheValid H (t.root H).2 := by
  by_cases hn : t.leaves=[]
  · rw [root_nil hn,if_pos hn]
    exact ⟨rfl,rfl,ht⟩
  · rw [if_neg hn]
    rcases root_cases hn with ⟨r,hr,hc,hl,-⟩|⟨hr,⟨hro,hco,-⟩,hl⟩
    · obtain ⟨-,h⟩ := ht r hc
      rw [← hl,take_length] at h
      rw [hr]
      exact ⟨h,rfl,ht⟩
    · refine ⟨hr,hl,fun r h => ?_⟩
      rw [hco,hl,take_length]
      exact ⟨le_rfl,Option.some.inj (h.symm.trans hro)⟩

inductive Access (size : ℕ)
  | append (data : Bytes)
  | root
  | replace (index : ℕ) (leaf : {leaf : Bytes // leaf.length=size})

def accesses (H : CanonicalHash) : Machine Tree (Access H.size) Bytes where
  start := init
  step t
    | .append data => (((t.append H data).toOption.map Prod.snd).getD t,[])
    | .root => ((t.root H).2,[t.leaves.flatten])
    | .replace index leaf => ({t with leaves := t.leaves.set index leaf},[])

variable {out : List Bytes}

structure Remembered (H : CanonicalHash) (t : Tree) (out : List Bytes) : Prop where
  sizes : ∀ leaf ∈ t.leaves, leaf.length=H.size
  cache : t.cachedRoot.isSome → ∃ leaves, Cached H t leaves ∧ leaves.flatten ∈ out ∧
    ∀ leaf ∈ leaves, leaf.length=H.size

theorem Remembered.step (h : Remembered H t out) (a : Access H.size) :
    Remembered H ((accesses H).step t a).1 (out++((accesses H).step t a).2) := by
  have hk : ∀ more, t.cachedRoot.isSome → ∃ leaves, Cached H t leaves ∧
      leaves.flatten ∈ out++more ∧ ∀ leaf ∈ leaves, leaf.length=H.size := fun _ hc =>
    (h.cache hc).imp fun _ => And.imp_right (And.imp_left (mem_append_left _))
  cases a with
  | append data =>
    simp only [accesses,Tree.append]
    split_ifs
    · exact ⟨h.sizes,hk _⟩
    · refine ⟨fun leaf hl => ?_,hk _⟩
      rcases mem_append.mp hl with hl|hl
      · exact h.sizes leaf hl
      · rw [mem_singleton.mp hl,length_leafHash]
  | root =>
    by_cases hn : t.leaves=[]
    · simpa only [accesses,root_nil hn] using ⟨h.sizes,hk _⟩
    rcases root_cases (H := H) hn with ⟨r,hr,-⟩|⟨-,hc,hl⟩
    · simpa only [accesses,hr] using ⟨h.sizes,hk _⟩
    · refine ⟨by simpa only [accesses,hl] using h.sizes,fun _ => ⟨t.leaves,hc,?_,h.sizes⟩⟩
      exact mem_append_right _ mem_cons_self
  | replace index leaf =>
    refine ⟨fun other ho => ?_,hk _⟩
    rcases mem_or_eq_of_mem_set ho with ho|rfl
    · exact h.sizes other ho
    · exact leaf.2

/-- The root read after a run is that of the leaves, if the checksums of the run do not collide. -/
theorem root_of_replaced_leaves (H : CanonicalHash) (run : List (Access H.size))
    (hfree : CollisionFree H ((accesses H).outputs (run++[.root])))
    (hne : ((accesses H).state run).leaves≠[]) : (((accesses H).state run).root H).1 =
      computeRoot H ((accesses H).state run).leaves := by
  have h : Remembered H ((accesses H).state run) ((accesses H).outputs run) :=
    Machine.invariant (P := Remembered H) ⟨by simp [accesses,init],by simp [accesses,init]⟩
      (fun _ _ a h => h.step a) run
  rw [Machine.outputs_snoc] at hfree
  rcases root_cases hne with ⟨r,hr,hc,hl,hs⟩|⟨hr,-⟩
  · obtain ⟨leaves,⟨hro,hco,hch⟩,ho,hsi⟩ := h.cache (hc ▸ rfl)
    have he := hfree _ (mem_append_right _ mem_cons_self) _ (mem_append_left _ ho) (hs.trans hch)
    have hlen : map length ((accesses H).state run).leaves=map length leaves := by
      rw [map_eq_replicate_iff.mpr h.sizes,map_eq_replicate_iff.mpr hsi,hl,hco]
    rw [hr,eq_iff_flatten_eq.mpr ⟨he,hlen⟩]
    exact Option.some.inj (hc.symm.trans hro)
  · exact hr

theorem replaced_leaf_noticed :
    let run : List (Access 32) :=
      [.append [1],.append [2],.root,.replace 0 ⟨replicate 32 9,rfl⟩]
    (((accesses cutHash).state run).root cutHash).1 =
      computeRoot cutHash ((accesses cutHash).state run).leaves :=
  root_of_replaced_leaves cutHash _ (by decide +kernel) (by decide +kernel)

end Tree

end LatticeTransfer.MerkleTree
