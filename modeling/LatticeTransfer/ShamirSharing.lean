import Mathlib.LinearAlgebra.Lagrange

/-!
# Polynomial secret sharing

A secret is the value at zero of a polynomial given by its list of coefficients, and a
share is its value at a node. `weightAtZero` is the Lagrange weight of a node for the
value at zero. The same combinations are taken of the points `f(x) • P` of a vector
space, where `sum_weight_smul_eval` recovers `f(0) • P` from any list of distinct nodes
longer than the degree.
-/

namespace LatticeTransfer.ShamirSharing
open Polynomial List

section
variable {F : Type*} [CommRing F]

noncomputable def ofCoeffs (coeffs : List F) : F[X] := coeffs.foldr (fun c p => C c+X*p) 0

@[simp] theorem ofCoeffs_nil : ofCoeffs ([] : List F)=0 := rfl

@[simp] theorem ofCoeffs_cons (c : F) (coeffs : List F) :
    ofCoeffs (c::coeffs)=C c+X*ofCoeffs coeffs := rfl

section
variable (coeffs : List F)

theorem eval_zero_ofCoeffs : (ofCoeffs coeffs).eval 0=coeffs.headD 0 := by
  cases coeffs with
  | nil => simp
  | cons c coeffs => simp

theorem degree_ofCoeffs_lt : (ofCoeffs coeffs).degree<coeffs.length := by
  induction coeffs with
  | nil =>
    exact WithBot.bot_lt_coe _
  | cons c coeffs ih =>
    rw [degree_lt_iff_coeff_zero] at ih ⊢
    intro m hm
    cases m with
    | zero => simp at hm
    | succ m =>
      rw [length_cons] at hm
      rw [ofCoeffs_cons,coeff_add,coeff_C_succ,zero_add,coeff_X_mul]
      exact ih m (by omega)

theorem foldl_reverse_eq_eval (x : F) :
    coeffs.reverse.foldl (fun acc c => acc*x+c) 0=(ofCoeffs coeffs).eval x := by
  rw [foldl_reverse]
  induction coeffs with
  | nil => simp
  | cons c coeffs ih =>
    rw [foldr_cons,ih,ofCoeffs_cons,eval_add,eval_C,eval_mul,eval_X]
    ring

end

section
variable {M : Type*} [AddCommGroup M] [Module F M]

def hornerSum (x : F) (points : List M) : M := points.foldr (fun p acc => p+x • acc) 0

variable (x : F)

@[simp] theorem hornerSum_nil : hornerSum x ([] : List M)=0 := rfl

@[simp] theorem hornerSum_cons (p : M) (points : List M) :
    hornerSum x (p::points)=p+x • hornerSum x points := rfl

theorem hornerSum_smul (coeffs : List F) (p : M) :
    hornerSum x (coeffs.map (· • p))=(ofCoeffs coeffs).eval x • p := by
  induction coeffs with
  | nil => simp
  | cons c coeffs ih =>
    rw [map_cons,hornerSum_cons,ih,ofCoeffs_cons,eval_add,eval_C,eval_mul,eval_X,add_smul,mul_smul]

theorem hornerSum_zipWith_add {ps qs : List M} (h : ps.length=qs.length) :
    hornerSum x (zipWith (· + ·) ps qs)=hornerSum x ps+hornerSum x qs := by
  induction ps generalizing qs with
  | nil =>
    obtain rfl := eq_nil_of_length_eq_zero h.symm
    simp
  | cons p ps ih =>
    cases qs with
    | nil => simp at h
    | cons q qs =>
      rw [zipWith_cons_cons,hornerSum_cons,ih (Nat.succ.inj h),hornerSum_cons,
        hornerSum_cons,smul_add]
      abel

end
end

section
variable {F : Type*} [Field F] [DecidableEq F]

def weightAtZero (nodes : List F) (i : F) : F :=
  ((nodes.filter (· ≠ i)).map fun j => -j / (i-j)).prod

theorem eval_zero_basis {nodes : List F} (hn : nodes.Nodup) (i : F) :
    (Lagrange.basis nodes.toFinset id i).eval 0=weightAtZero nodes i := by
  have he : nodes.toFinset.erase i=(nodes.filter (· ≠ i)).toFinset := by
    ext j
    simp [and_comm]
  rw [Lagrange.basis,eval_prod,he,prod_toFinset _ (hn.filter _)]
  refine congrArg prod (map_congr_left fun j _ => ?_)
  simp only [Lagrange.basisDivisor,id,eval_mul,eval_C,eval_sub,eval_X,zero_sub]
  rw [mul_comm,div_eq_mul_inv]

theorem sum_weight_eval {f : F[X]} {nodes : List F} (hn : nodes.Nodup)
    (hd : f.degree<nodes.length) :
    (nodes.map fun i => weightAtZero nodes i*f.eval i).sum=f.eval 0 := by
  have hc : nodes.toFinset.card=nodes.length := toFinset_card_of_nodup hn
  have hi : f=Lagrange.interpolate nodes.toFinset id fun i => f.eval (id i) :=
    Lagrange.eq_interpolate (Set.injOn_id _) (by rwa [hc])
  calc (nodes.map fun i => weightAtZero nodes i*f.eval i).sum
      = ∑ i ∈ nodes.toFinset, weightAtZero nodes i*f.eval i :=
        (sum_toFinset _ hn).symm
    _ = ∑ i ∈ nodes.toFinset, (C (f.eval i)*Lagrange.basis nodes.toFinset id i).eval 0 := by
        refine Finset.sum_congr rfl fun i _ => ?_
        rw [eval_mul,eval_C,eval_zero_basis hn,mul_comm]
    _ = f.eval 0 := by
        conv_rhs => rw [hi]
        rw [Lagrange.interpolate_apply,eval_finsetSum]
        rfl

theorem sum_weight_smul_eval {M : Type*} [AddCommGroup M] [Module F M] {f : F[X]}
    {nodes : List F} (hn : nodes.Nodup) (hd : f.degree<nodes.length) (p : M) :
    (nodes.map fun i => weightAtZero nodes i • f.eval i • p).sum=f.eval 0 • p := by
  rw [← sum_weight_eval hn hd,sum_smul,map_map]
  refine congrArg List.sum (map_congr_left fun i _ => ?_)
  rw [Function.comp_apply,mul_smul]

end
end LatticeTransfer.ShamirSharing
