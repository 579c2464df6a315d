import Mathlib.LinearAlgebra.Matrix.ToLinearEquiv

/-!
# Gauss-Jordan elimination over a field

The rows carry two blocks: the block to be reduced and the block that records
the row operations. A column step searches the first nonzero pivot at or below
the diagonal, swaps it up, scales it to one and clears the rest of its column.
The run is a fold over the columns, so a missing pivot stops it.
-/

open Matrix
namespace LatticeTransfer.GaussJordan
open Finset

variable {K : Type*} [Field K] [DecidableEq K] {k : ℕ}

abbrev Rows (K : Type*) (k : ℕ) := Matrix (Fin k) (Fin k ⊕ Fin k) K

def findPivot (M : Rows K k) (col : Fin k) : Option (Fin k) :=
  (List.finRange k).find? fun row => decide (col≤row ∧ M row (.inl col)≠0)

def swapRows (M : Rows K k) (p q : Fin k) : Rows K k := fun row => M (Equiv.swap p q row)

def scaleRow (M : Rows K k) (p : Fin k) (c : K) : Rows K k :=
  fun row j => if row=p then M row j*c else M row j

def clearColumn (M : Rows K k) (p : Fin k) : Rows K k :=
  fun row j => if row=p then M row j else M row j-M row (.inl p)*M p j

def reduceAt (M : Rows K k) (col pivot : Fin k) : Rows K k :=
  let swapped := swapRows M col pivot
  clearColumn (scaleRow swapped col (swapped col (.inl col))⁻¹) col

def step (M : Rows K k) (col : Fin k) : Option (Rows K k) :=
  (findPivot M col).map (reduceAt M col)

def eliminate (M : Rows K k) : Option (Rows K k) := (List.finRange k).foldlM step M

def augment (A : Matrix (Fin k) (Fin k) K) : Rows K k :=
  fun i => Sum.elim (A i) ((1 : Matrix (Fin k) (Fin k) K) i)

def left (M : Rows K k) : Matrix (Fin k) (Fin k) K := fun i j => M i (.inl j)
def right (M : Rows K k) : Matrix (Fin k) (Fin k) K := fun i j => M i (.inr j)

def Records (A : Matrix (Fin k) (Fin k) K) (M : Rows K k) : Prop := right M*A=left M

def TrivialKernel (M : Rows K k) : Prop := ∀ x, left M *ᵥ x=0 → x=0

def UnitColumns (M : Rows K k) (n : ℕ) : Prop :=
  ∀ i j : Fin k, j.val<n → M i (.inl j)=if i=j then 1 else 0

structure Reduced (A : Matrix (Fin k) (Fin k) K) (n : ℕ) (M : Rows K k) : Prop where
  records : Records A M
  kernel : TrivialKernel M
  columns : UnitColumns M n

variable {A : Matrix (Fin k) (Fin k) K} {M : Rows K k}

omit [DecidableEq K] in
theorem records_iff : Records A M ↔ ∀ i j, ∑ t, M i (.inr t)*A t j=M i (.inl j) := by
  constructor
  · intro h i j
    exact congrFun (congrFun h i) j
  · intro h
    ext i j
    exact h i j

omit [DecidableEq K] in
theorem records_augment (A : Matrix (Fin k) (Fin k) K) : Records A (augment A) := by
  change (1 : Matrix (Fin k) (Fin k) K)*A=A
  exact one_mul A

omit [DecidableEq K] in
theorem records_swapRows (h : Records A M) (p q : Fin k) : Records A (swapRows M p q) :=
  records_iff.mpr fun i j => records_iff.mp h (Equiv.swap p q i) j

omit [DecidableEq K] in
theorem records_scaleRow (h : Records A M) (p : Fin k) (c : K) : Records A (scaleRow M p c) := by
  rw [records_iff] at h ⊢
  intro i j
  by_cases hi : i=p
  · simp only [scaleRow,hi,↓reduceIte,← h p j,sum_mul]
    exact sum_congr rfl fun t _ => by ring
  · simpa only [scaleRow,hi,↓reduceIte] using h i j

omit [DecidableEq K] in
theorem records_clearColumn (h : Records A M) (p : Fin k) : Records A (clearColumn M p) := by
  rw [records_iff] at h ⊢
  intro i j
  by_cases hi : i=p
  · simpa only [clearColumn,hi,↓reduceIte] using h p j
  · simp only [clearColumn,hi,↓reduceIte,sub_mul,sum_sub_distrib,h i j,mul_assoc,← mul_sum,h p j]

omit [DecidableEq K] in
theorem kernel_row {x : Fin k → K} : left M *ᵥ x=0 ↔ ∀ i, ∑ j, M i (.inl j)*x j=0 := by
  constructor
  · intro h i
    exact congrFun h i
  · intro h
    ext i
    exact h i

omit [DecidableEq K] in
theorem kernel_swapRows (h : TrivialKernel M) (p q : Fin k) : TrivialKernel (swapRows M p q) := by
  intro x hx
  rw [kernel_row] at hx
  refine h x (kernel_row.mpr fun i => ?_)
  simpa only [swapRows,Equiv.swap_apply_self] using hx (Equiv.swap p q i)

omit [DecidableEq K] in
theorem kernel_scaleRow (h : TrivialKernel M) (p : Fin k) {c : K} (hc : c≠0) :
    TrivialKernel (scaleRow M p c) := by
  intro x hx
  rw [kernel_row] at hx
  refine h x (kernel_row.mpr fun i => ?_)
  have hi := hx i
  by_cases hp : i=p
  · simp only [scaleRow,hp,↓reduceIte,mul_right_comm _ c,← sum_mul] at hi
    rw [hp]
    exact (mul_eq_zero.mp hi).resolve_right hc
  · simpa only [scaleRow,hp,↓reduceIte] using hi

omit [DecidableEq K] in
theorem kernel_clearColumn (h : TrivialKernel M) (p : Fin k) : TrivialKernel (clearColumn M p) := by
  intro x hx
  rw [kernel_row] at hx
  have hp : ∑ j, M p (.inl j)*x j=0 := by simpa only [clearColumn,↓reduceIte] using hx p
  refine h x (kernel_row.mpr fun i => ?_)
  have hi := hx i
  by_cases hip : i=p
  · rw [hip]
    exact hp
  · simp only [clearColumn,hip,↓reduceIte,sub_mul,sum_sub_distrib,mul_assoc,
      ← mul_sum,hp,mul_zero,sub_zero] at hi
    exact hi

omit [DecidableEq K] in
theorem exists_pivot (hk : TrivialKernel M) (col : Fin k) (hu : UnitColumns M col.val) :
    ∃ row, col≤row ∧ M row (.inl col)≠0 := by
  by_contra hno
  push Not at hno
  let x : Fin k → K := fun j =>
    if j=col then 1 else if j<col then - M j (.inl col) else 0
  have hz : left M *ᵥ x=0 := by
    refine kernel_row.mpr fun i => ?_
    have ht : ∀ j, M i (.inl j)*x j =
        (if j=col then M i (.inl col) else 0) +
          (if j=i then (if i<col then - M i (.inl col) else 0) else 0) := by
      intro j
      rcases lt_trichotomy j col with hj|hj|hj
      · have hne : j≠col := ne_of_lt hj
        by_cases hij : j=i
        · subst hij
          simp [x,hne,hu j j hj]
        · simp [hne,hu i j hj,hij,Ne.symm hij]
      · subst hj
        by_cases hij : j=i
        · subst hij
          simp [x]
        · simp [x,hij]
      · have hne : j≠col := ne_of_gt hj
        have hnl : ¬j<col := not_lt.mpr hj.le
        by_cases hij : j=i
        · subst hij
          simp [x,hne,hnl]
        · simp [x,hne,hnl,hij]
    simp only [ht,sum_add_distrib]
    by_cases hi : i<col
    · simp [hi]
    · simp [hno i (not_lt.mp hi)]
  have ho := congrFun (hk x hz) col
  simp [x] at ho

theorem findPivot_spec {col p : Fin k} (h : findPivot M col=some p) : col≤p ∧ M p (.inl col)≠0 := by
  simpa using List.find?_some h

theorem findPivot_isSome (hk : TrivialKernel M) (col : Fin k) (hu : UnitColumns M col.val) :
    ∃ p, findPivot M col=some p := by
  obtain ⟨row,hr⟩ := exists_pivot hk col hu
  apply Option.isSome_iff_exists.mp
  rw [findPivot,List.find?_isSome]
  exact ⟨row,List.mem_finRange row,by simpa using hr⟩

omit [DecidableEq K] in
theorem columns_reduceAt {col p : Fin k} (hu : UnitColumns M col.val) (hcp : col≤p)
    (hp : M p (.inl col)≠0) : UnitColumns (reduceAt M col p) (col.val+1) := by
  intro i j hj
  rcases Nat.lt_or_eq_of_le (Nat.lt_succ_iff.mp hj) with hlt|heq
  · -- A finished column vanishes in both swapped rows, so no row operation touches it.
    have hjc : j≠col := fun h => absurd (congrArg Fin.val h) (Nat.ne_of_lt hlt)
    have hcj : M col (.inl j)=0 := by rw [hu col j hlt,if_neg hjc.symm]
    have hpj : M p (.inl j)=0 := by
      rw [hu p j hlt,if_neg]
      exact ne_of_gt (lt_of_lt_of_le (show j<col from hlt) hcp)
    by_cases hic : i=col
    · subst hic
      simp [reduceAt,clearColumn,scaleRow,swapRows,hpj,hjc.symm]
    · by_cases hip : i=p
      · subst hip
        simp [reduceAt,clearColumn,scaleRow,swapRows,hcj,hpj,← hu i j hlt]
      · simp [reduceAt,clearColumn,scaleRow,swapRows,hic,hpj,
          Equiv.swap_apply_of_ne_of_ne hic hip,hu i j hlt]
  · have hjc : j=col := Fin.ext heq
    subst hjc
    by_cases hic : i=j
    · subst hic
      simp [reduceAt,clearColumn,scaleRow,swapRows,hp]
    · simp [reduceAt,clearColumn,scaleRow,swapRows,hic,hp]

theorem reduced_step (col : Fin k) (h : Reduced A col.val M) :
    ∃ N, step M col=some N ∧ Reduced A (col.val+1) N := by
  obtain ⟨p,hp⟩ := findPivot_isSome h.kernel col h.columns
  obtain ⟨hcp,hne⟩ := findPivot_spec hp
  have hi : (swapRows M col p col (.inl col))⁻¹≠0 := by simpa [swapRows] using hne
  refine ⟨reduceAt M col p,by simp [step,hp],?_,?_,columns_reduceAt h.columns hcp hne⟩
  · exact records_clearColumn (records_scaleRow (records_swapRows h.records col p) col _) col
  · exact kernel_clearColumn (kernel_scaleRow (kernel_swapRows h.kernel col p) col hi) col

theorem reduced_run (n : ℕ) (M : Rows K k) (hn : n≤k) (h : Reduced A (k-n) M) :
    ∃ N, ((List.finRange k).drop (k-n)).foldlM step M=some N ∧ Reduced A k N := by
  induction n generalizing M with
  | zero =>
    have hni : (List.finRange k).drop (k-0)=[] := List.drop_eq_nil_of_le (by simp)
    exact ⟨M,by rw [hni]; rfl,h⟩
  | succ n ih =>
    have hlt : k-(n+1)<(List.finRange k).length := by simp; omega
    obtain ⟨N,hN,hr⟩ := reduced_step ⟨k-(n+1),by omega⟩ h
    have hne : k-(n+1)+1=k-n := by omega
    obtain ⟨N',hN',hr'⟩ := ih N (by omega) (by simpa only [hne] using hr)
    refine ⟨N',?_,hr'⟩
    rw [List.drop_eq_getElem_cons hlt,List.foldlM_cons]
    simp only [List.getElem_finRange,Fin.cast_mk,hN,hne]
    exact hN'

theorem eliminate_augment (A : Matrix (Fin k) (Fin k) K) (hA : A.det≠0) :
    ∃ N, eliminate (augment A)=some N ∧ right N*A=1 := by
  have hs : Reduced A (k-k) (augment A) := by
    refine ⟨records_augment A,fun x hx => eq_zero_of_mulVec_eq_zero hA hx,?_⟩
    intro i j hj
    omega
  obtain ⟨N,hN,hr⟩ := reduced_run k (augment A) le_rfl hs
  refine ⟨N,by simpa [eliminate] using hN,hr.records.trans ?_⟩
  ext i j
  exact hr.columns i j j.isLt

end LatticeTransfer.GaussJordan
