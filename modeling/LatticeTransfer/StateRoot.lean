import LatticeTransfer.EntityIdentity

/-!
# State roots over several virtual machines

`MultiVMStateRoot` groups the leaves of the machines by family, computes a Merkle root for every
family and one over the families. A level pairs its last node with itself if it is left alone,
and a single leaf is its own root. `HashTree` is what was hashed: without collisions the root
determines it, and with it the set of its leaves, in which the pairings leave no trace.
-/

namespace LatticeTransfer.StateRoot
open MerkleTree List

section
variable {α β : Type} {pair : α → α → α}

def nextLevel (pair : α → α → α) : List α → List α
  | left::right::rest => pair left right::nextLevel pair rest
  | [left] => [pair left left]
  | [] => []

theorem length_nextLevel (level : List α) : (nextLevel pair level).length=(level.length+1) / 2 := by
  fun_induction nextLevel pair level with
  | case1 left right rest ih =>
    simp only [length_cons]
    omega
  | case2 left => simp
  | case3 => simp

def climb (pair : α → α → α) (current : List α) : Option α :=
  if 1<current.length then climb pair (nextLevel pair current) else current.head?
termination_by current.length
decreasing_by
  rw [length_nextLevel]
  omega

theorem map_climb {pair' : β → β → β} {f : α → β}
    (hf : ∀ a b, f (pair a b)=pair' (f a) (f b)) (level : List α) :
    climb pair' (level.map f)=(climb pair level).map f := by
  have hn (level : List α) : nextLevel pair' (level.map f)=(nextLevel pair level).map f := by
    fun_induction nextLevel pair level <;> simp_all [nextLevel]
  fun_induction climb pair level with
  | case1 level h ih => rw [climb,if_pos (by simpa using h),hn,ih]
  | case2 level h => rw [climb,if_neg (by simpa using h),head?_map]

theorem exists_climb_iff {P : α → Prop} (hP : ∀ a b, P (pair a b) ↔ P a ∨ P b) (level : List α) :
    (∃ a, climb pair level=some a ∧ P a) ↔ ∃ a ∈ level, P a := by
  have hn (level : List α) : (∃ a ∈ nextLevel pair level, P a) ↔ ∃ a ∈ level, P a := by
    fun_induction nextLevel pair level <;> simp_all [or_assoc]
  fun_induction climb pair level with
  | case1 level h ih => exact ih.trans (hn level)
  | case2 level h =>
    match level with
    | [] => simp
    | [a] => simp
    | _ :: _ :: _ => simp at h

end

abbrev Vm := UInt8 × {root : Bytes // root.length=32}

structure MultiVMStateRoot where
  vmRoots : Dict UInt8 {root : Bytes // root.length=32}
  batchRound : UInt64

def domainMultiVmStateRoot : Bytes :=
  CommitmentLog.encodeText "SUWAPPU-LTP:multi-vm-state-root:v1\x00"

def familyFromTag (tag : UInt8) : UInt8 := tag >>> 4

def leafInput (vm : Vm) : Bytes := vm.1::vm.2.val

def merkleRoot (H : CanonicalHash) (leaves : List Bytes) : Bytes :=
  (climb (fun left right => H.run (left++right)) leaves).getD (replicate 32 0)

namespace MultiVMStateRoot

def sortedVms (s : MultiVMStateRoot) : List Vm :=
  (s.vmRoots.keys.insertionSort (· ≤ ·)).filterMap fun tag => (s.vmRoots.get? tag).map (tag,·)

def addLeaf (H : CanonicalHash) (families : Dict UInt8 (List Bytes)) (vm : Vm) :
    Dict UInt8 (List Bytes) :=
  let familyId := familyFromTag vm.1
  families.set familyId ((families.get? familyId).getD []++[H.run (leafInput vm)])

def familyLeaves (H : CanonicalHash) (s : MultiVMStateRoot) : Dict UInt8 (List Bytes) :=
  s.sortedVms.foldl (addLeaf H) Dict.empty

def subtreeRoots (H : CanonicalHash) (s : MultiVMStateRoot) : List Bytes :=
  ((s.familyLeaves H).keys.insertionSort (· ≤ ·)).filterMap fun familyId =>
    ((s.familyLeaves H).get? familyId).map (merkleRoot H)

def rootInput (H : CanonicalHash) (s : MultiVMStateRoot) : Bytes :=
  domainMultiVmStateRoot++merkleRoot H (s.subtreeRoots H) ++
    PyValue.toBigEndian 8 s.batchRound.toNat

def root (H : CanonicalHash) (s : MultiVMStateRoot) : Bytes := H.run (s.rootInput H)

end MultiVMStateRoot

inductive HashTree
  | leaf (vm : Vm)
  | node (left right : HashTree)

namespace HashTree

def input (H : CanonicalHash) : HashTree → Bytes
  | .leaf vm => leafInput vm
  | .node left right => H.run (left.input H)++H.run (right.input H)

def queries (H : CanonicalHash) : HashTree → List Bytes
  | .leaf vm => [leafInput vm]
  | .node left right =>
    (H.run (left.input H)++H.run (right.input H))::(left.queries H++right.queries H)

def Has (vm : Vm) : HashTree → Prop
  | .leaf other => other=vm
  | .node left right => left.Has vm ∨ right.Has vm

theorem input_mem_queries (H : CanonicalHash) (t : HashTree) : t.input H ∈ t.queries H := by
  cases t <;> exact mem_cons_self

theorem run_input_inj {H : CanonicalHash} {queries : List Bytes} (hf : CollisionFree H queries)
    {t t' : HashTree} (ht : t.queries H ⊆ queries) (ht' : t'.queries H ⊆ queries)
    (h : H.run (t.input H)=H.run (t'.input H)) : t=t' := by
  have hin := hf _ (ht (t.input_mem_queries H)) _ (ht' (t'.input_mem_queries H)) h
  have hle := congrArg length hin
  induction t generalizing t' with
  | leaf vm =>
    cases t' with
    | leaf vm' =>
      obtain ⟨hta,hro⟩ := List.cons.inj hin
      exact congrArg _ (Prod.ext hta (Subtype.ext hro))
    | node l r =>
      -- a leaf has an odd number of bytes and a node an even one
      simp only [input,leafInput,length_cons,vm.2.property,length_append,H.length_run] at hle
      omega
  | node l r ihl ihr =>
    cases t' with
    | leaf vm' =>
      simp only [input,leafInput,length_cons,vm'.2.property,length_append,H.length_run] at hle
      omega
    | node l' r' =>
      obtain ⟨hl,hr⟩ := append_inj hin (by rw [H.length_run,H.length_run])
      obtain ⟨htl,htr⟩ := append_subset.mp (subset_of_cons_subset ht)
      obtain ⟨htl',htr'⟩ := append_subset.mp (subset_of_cons_subset ht')
      have hli := hf _ (htl (l.input_mem_queries H)) _ (htl' (l'.input_mem_queries H)) hl
      have hri := hf _ (htr (r.input_mem_queries H)) _ (htr' (r'.input_mem_queries H)) hr
      rw [ihl htl htl' hl hli (congrArg length hli),ihr htr htr' hr hri (congrArg length hri)]

end HashTree

namespace MultiVMStateRoot
variable (H : CanonicalHash) (s : MultiVMStateRoot)

def ofFamily (familyId : UInt8) (vms : List Vm) : List Vm :=
  vms.filter fun vm => familyFromTag vm.1=familyId

theorem get?_foldl_addLeaf (vms : List Vm) (fam : UInt8) :
    (vms.foldl (addLeaf H) Dict.empty).get? fam=if ofFamily fam vms=[] then none
      else some ((ofFamily fam vms).map fun vm => H.run (leafInput vm)) := by
  induction vms using reverseRecOn with
  | nil => rfl
  | append_singleton vms vm ih =>
    rw [foldl_append,foldl_cons,foldl_nil,addLeaf,Dict.get?_set]
    by_cases hf : familyFromTag vm.1=fam
    · have hof : ofFamily fam (vms++[vm])=ofFamily fam vms++[vm] := by simp [ofFamily,hf]
      rw [hf,ih]
      split_ifs with hn <;> simp_all
    · have hof : ofFamily fam (vms++[vm])=ofFamily fam vms := by simp [ofFamily,hf]
      rw [if_neg hf,ih,hof]

def familyTree (familyId : UInt8) : Option HashTree :=
  climb .node ((ofFamily familyId s.sortedVms).map .leaf)

def tree : Option HashTree :=
  climb .node (((s.familyLeaves H).keys.insertionSort (· ≤ ·)).filterMap s.familyTree)

def queries : List Bytes :=
  s.rootInput H::(s.tree H).toList.flatMap (HashTree.queries H)

theorem merkleRoot_subtreeRoots : merkleRoot H (s.subtreeRoots H) =
    ((s.tree H).map fun t => H.run (t.input H)).getD (replicate 32 0) := by
  have hc := @map_climb _ _ HashTree.node (fun left right => H.run (left++right))
    (fun t => H.run (t.input H)) fun _ _ => rfl
  have hs : s.subtreeRoots H=(((s.familyLeaves H).keys.insertionSort (· ≤ ·)).filterMap
      s.familyTree).map fun t => H.run (t.input H) := by
    rw [map_filterMap]
    refine filterMap_congr fun fam _ => ?_
    rw [familyLeaves,get?_foldl_addLeaf,familyTree,← hc,map_map]
    split_ifs with hn
    · rw [hn,climb]
      rfl
    · obtain ⟨vm,hvm⟩ := exists_mem_of_ne_nil _ hn
      obtain ⟨r,hr,-⟩ := (exists_climb_iff (P := fun _ => True) (by simp) _).mpr
        ⟨_,mem_map_of_mem hvm,trivial⟩
      rw [Option.map_some,merkleRoot,hr]
      exact hr.symm
  rw [merkleRoot,hs,hc,tree]

theorem mem_sortedVms {vm : Vm} : vm ∈ s.sortedVms ↔ s.vmRoots.get? vm.1=some vm.2 := by
  rw [sortedVms,mem_filterMap]
  constructor
  · rintro ⟨tag,-,h⟩
    obtain ⟨root,hr,rfl⟩ := Option.map_eq_some_iff.mp h
    exact hr
  · intro h
    exact ⟨vm.1,(mem_insertionSort _).mpr ((Dict.mem_keys_iff _ _).mpr ⟨_,h⟩),by rw [h]; rfl⟩

theorem has_tree_iff (vm : Vm) :
    (∃ t, s.tree H=some t ∧ t.Has vm) ↔ s.vmRoots.get? vm.1=some vm.2 := by
  have hf (fam : UInt8) : (∃ t, s.familyTree fam=some t ∧ t.Has vm) ↔
      vm ∈ ofFamily fam s.sortedVms := by
    rw [familyTree,exists_climb_iff fun _ _ => Iff.rfl]
    simp only [mem_map,exists_exists_and_eq_and,HashTree.Has,exists_eq_right]
  rw [tree,exists_climb_iff fun _ _ => Iff.rfl,← mem_sortedVms]
  simp only [mem_filterMap,mem_insertionSort,Dict.mem_keys_iff]
  constructor
  · rintro ⟨t,⟨fam,-,ht⟩,hvm⟩
    exact (mem_filter.mp ((hf fam).mp ⟨t,ht,hvm⟩)).1
  · intro hvm
    have hof : vm ∈ ofFamily (familyFromTag vm.1) s.sortedVms := by simp [ofFamily,hvm]
    obtain ⟨t,ht,hh⟩ := (hf _).mpr hof
    refine ⟨t,⟨_,?_,ht⟩,hh⟩
    rw [familyLeaves,get?_foldl_addLeaf,if_neg (ne_nil_of_mem hof)]
    exact ⟨_,rfl⟩

end MultiVMStateRoot

/-- Without collisions and without a digest of zeros, the root determines the roots of the
machines and the round. -/
theorem root_determines (H : CanonicalHash) (s s' : MultiVMStateRoot)
    (hfree : CollisionFree H (s.queries H++s'.queries H))
    (hzero : ∀ q ∈ s.queries H++s'.queries H, H.run q≠replicate 32 0) (h : s.root H=s'.root H) :
    (∀ tag, s.vmRoots.get? tag=s'.vmRoots.get? tag) ∧ s.batchRound=s'.batchRound := by
  have hin := hfree _ (mem_append_left _ mem_cons_self) _ (mem_append_right _ mem_cons_self) h
  obtain ⟨hp,hr⟩ := append_inj' hin (by simp)
  have hm := append_cancel_left hp
  rw [s.merkleRoot_subtreeRoots,s'.merkleRoot_subtreeRoots] at hm
  have hme {s1 : MultiVMStateRoot} {t : HashTree} (ht : s1.tree H=some t) :
      t.queries H ⊆ s1.queries H := by
    intro q hq
    simp [MultiVMStateRoot.queries,ht,hq]
  have htr : s.tree H=s'.tree H := by
    cases ht : s.tree H with
    | none =>
      cases ht' : s'.tree H with
      | none => rfl
      | some t' =>
        rw [ht,ht'] at hm
        exact absurd hm.symm (hzero _ (mem_append_right _ (hme ht' (t'.input_mem_queries H))))
    | some t =>
      cases ht' : s'.tree H with
      | none =>
        rw [ht,ht'] at hm
        exact absurd hm (hzero _ (mem_append_left _ (hme ht (t.input_mem_queries H))))
      | some t' =>
        rw [ht,ht'] at hm
        exact congrArg some (HashTree.run_input_inj hfree
          (fun q hq => mem_append_left _ (hme ht hq))
          (fun q hq => mem_append_right _ (hme ht' hq)) hm)
  refine ⟨fun tag => Option.ext fun root => ?_,Entity.timestamp_inj hr⟩
  rw [← s.has_tree_iff H (tag,root),htr,s'.has_tree_iff H (tag,root)]

def positionalHash : CanonicalHash where
  algo := "positional"
  run b := PyValue.toBigEndian 32 (b.foldl (fun n x => 257*n+x.toNat+1) 0)
  size := 32
  length_run b := by simp

def twoVms (tags : List UInt8) : MultiVMStateRoot where
  vmRoots := tags.foldl (fun d tag => d.set tag ⟨replicate 32 tag,length_replicate⟩) Dict.empty
  batchRound := 7

theorem twoVms_determined :
    (∀ tag, (twoVms [0x10,0x21]).vmRoots.get? tag=(twoVms [0x21,0x10]).vmRoots.get? tag) ∧
      (twoVms [0x10,0x21]).batchRound=(twoVms [0x21,0x10]).batchRound :=
  root_determines positionalHash (twoVms [0x10,0x21]) (twoVms [0x21,0x10]) (by decide +kernel)
    (by decide +kernel) (by decide +kernel)

end LatticeTransfer.StateRoot
