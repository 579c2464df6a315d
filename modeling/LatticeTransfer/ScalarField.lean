import LatticeTransfer.ShamirSharing
import Mathlib.FieldTheory.Finite.Basic
import Mathlib.NumberTheory.LucasPrimality
import Mathlib.Tactic.NormNum.Prime

/-!
# The scalar field of the signing curve

`ScalarField` computes on integers reduced modulo the group order `R`, and
`ScalarPoly` on lists of them, the constant term first. The casts to `ZMod R` turn
the loops into polynomial evaluation and into the Lagrange weights at zero. `R` is
prime: seven generates its units, as the factors of `R - 1` show.
-/

namespace LatticeTransfer
namespace ScalarField

def R : ℕ := 0x73EDA753299D7D483339D80809A1D80553BDA402FFFE5BFEFFFFFFFF00000001

def add (a b : ℤ) : ℤ := (a+b) % R
def mul (a b : ℤ) : ℤ := (a*b) % R
def neg (a : ℤ) : ℤ := (-a) % R

def powMod (m a : ℤ) (e : ℕ) : ℤ :=
  if h : e=0 then 1 % m
  else
    let half := powMod m (a*a % m) (e / 2)
    if e % 2=1 then a*half % m else half
termination_by e
decreasing_by omega

def inv (a : ℤ) : ℤ := powMod R a (R-2)

theorem cast_powMod (m : ℕ) (a : ℤ) (e : ℕ) : ((powMod m a e : ℤ) : ZMod m)=(a : ZMod m)^e := by
  induction e using Nat.strong_induction_on generalizing a with
  | _ e ih =>
    rw [powMod]
    by_cases h : e=0
    · simp [h]
    · have hh := ih (e / 2) (by omega) (a*a % m)
      split_ifs with ho
      · rw [ZMod.intCast_mod,Int.cast_mul,hh,ZMod.intCast_mod,Int.cast_mul,← pow_two,
          ← pow_mul,← pow_succ']
        congr 1
        omega
      · rw [hh,ZMod.intCast_mod,Int.cast_mul,← pow_two,← pow_mul]
        congr 1
        omega

def unitFactors : List (ℕ × ℕ) :=
  [(2,32),(3,1),(11,1),(19,1),(10177,1),(125527,1),(859267,1),(906349,2),
    (2508409,1),(2529403,1),(52437899,1),(254760293,2)]

theorem R_sub_one : R-1=(unitFactors.map fun f => f.1^f.2).prod := by decide

theorem prime_of_mem_unitFactors : ∀ f ∈ unitFactors, f.1.Prime := by
  simp only [unitFactors]
  norm_num

theorem prime_dvd_R_sub_one {q : ℕ} (hq : q.Prime) (h : q ∣ R-1) : ∃ f ∈ unitFactors, q=f.1 := by
  rw [R_sub_one,hq.prime.dvd_prod_iff] at h
  obtain ⟨power,hp,hd⟩ := h
  obtain ⟨f,hf,rfl⟩ := List.mem_map.mp hp
  have hb := hq.dvd_of_dvd_pow hd
  exact ⟨f,hf,(Nat.prime_dvd_prime_iff_eq hq (prime_of_mem_unitFactors f hf)).mp hb⟩

theorem prime_R : R.Prime := by
  refine lucas_primality R ((7 : ℤ) : ZMod R) ?_ fun q hq hd => ?_
  · have hp : powMod R 7 (R-1)=1 := by decide +kernel
    rw [← cast_powMod,hp,Int.cast_one]
  · have hp : ∀ f ∈ unitFactors, powMod R 7 ((R-1) / f.1) % R≠1 % R := by decide +kernel
    obtain ⟨f,hf,rfl⟩ := prime_dvd_R_sub_one hq hd
    rw [← cast_powMod,← Int.cast_one,ne_eq,ZMod.intCast_eq_intCast_iff]
    exact hp f hf

instance : Fact R.Prime := ⟨prime_R⟩

@[simp] theorem cast_add (a b : ℤ) : ((add a b : ℤ) : ZMod R)=a+b := by
  rw [add,ZMod.intCast_mod,Int.cast_add]

@[simp] theorem cast_mul (a b : ℤ) : ((mul a b : ℤ) : ZMod R)=a*b := by
  rw [mul,ZMod.intCast_mod,Int.cast_mul]

@[simp] theorem cast_neg (a : ℤ) : ((neg a : ℤ) : ZMod R) = -a := by
  rw [neg,ZMod.intCast_mod,Int.cast_neg]

@[simp] theorem cast_inv (a : ℤ) : ((inv a : ℤ) : ZMod R)=(a : ZMod R)⁻¹ := by
  rw [inv,cast_powMod]
  by_cases ha : (a : ZMod R)=0
  · rw [ha,inv_zero,zero_pow (by decide)]
  · refine eq_inv_of_mul_eq_one_left ?_
    rw [← pow_succ]
    exact ZMod.pow_card_sub_one_eq_one ha

theorem intCast_inj_of_lt {a b : ℤ} (ha : 0≤a ∧ a<R) (hb : 0≤b ∧ b<R)
    (h : (a : ZMod R)=b) : a=b := by
  rw [ZMod.intCast_eq_intCast_iff'] at h
  rwa [Int.emod_eq_of_lt ha.1 ha.2,Int.emod_eq_of_lt hb.1 hb.2] at h

end ScalarField

namespace ScalarPoly
open ScalarField ShamirSharing

def evaluate (coeffs : List ℤ) (x : ℤ) : ℤ :=
  coeffs.reverse.foldl (fun result coeff => add (mul result x) coeff) 0

def lagrangeFraction (i : ℤ) (participants : List ℤ) : ℤ × ℤ :=
  participants.foldl
    (fun s j => if j=i then s else (mul s.1 (neg j),mul s.2 ((i-j) % R))) (1,1)

def lagrangeCoefficient (i : ℤ) (participants : List ℤ) : ℤ :=
  mul (lagrangeFraction i participants).1 (inv (lagrangeFraction i participants).2)

noncomputable def toPolynomial (coeffs : List ℤ) : Polynomial (ZMod R) :=
  ofCoeffs (coeffs.map (Int.cast : ℤ → ZMod R))

theorem cast_evaluate (coeffs : List ℤ) (x : ℤ) :
    ((evaluate coeffs x : ℤ) : ZMod R)=(toPolynomial coeffs).eval (x : ZMod R) := by
  have hf : ∀ (cs : List ℤ) (acc : ℤ),
      ((cs.foldl (fun result coeff => add (mul result x) coeff) acc : ℤ) : ZMod R) =
        (cs.map Int.cast).foldl (fun result coeff => result*(x : ZMod R)+coeff) acc := by
    intro cs
    induction cs with
    | nil => exact fun acc => rfl
    | cons c cs ih =>
      intro acc
      rw [List.foldl_cons,ih,List.map_cons,List.foldl_cons,cast_add,cast_mul]
  rw [evaluate,hf,List.map_reverse,Int.cast_zero,foldl_reverse_eq_eval]
  rfl

theorem cast_lagrangeCoefficient (i : ℤ) (participants : List ℤ)
    (hi : ∀ j ∈ participants, (j : ZMod R)=i → j=i) :
    ((lagrangeCoefficient i participants : ℤ) : ZMod R) =
      weightAtZero (participants.map (Int.cast : ℤ → ZMod R)) i := by
  have hf : ∀ (js : List ℤ) (s : ℤ × ℤ), (∀ j ∈ js, (j : ZMod R)=i → j=i) →
      let s' := js.foldl
        (fun s j => if j=i then s else (mul s.1 (neg j),mul s.2 ((i-j) % R))) s
      (s'.1 : ZMod R) / (s'.2 : ZMod R) =
        (s.1 : ZMod R) / (s.2 : ZMod R)*weightAtZero (js.map (Int.cast : ℤ → ZMod R)) i := by
    intro js
    induction js with
    | nil =>
      intro s _
      simp [weightAtZero]
    | cons j js ih =>
      intro s hjs
      have hr := fun s => ih s fun k hk => hjs k (List.mem_cons_of_mem _ hk)
      rw [List.foldl_cons,List.map_cons]
      by_cases hj : j=i
      · rw [if_pos hj]
        simp only [hr s,weightAtZero,hj,List.filter_cons,ne_eq,not_true_eq_false,
          decide_false,Bool.false_eq_true,if_false]
      · have hne : (j : ZMod R)≠i := fun h => hj (hjs j List.mem_cons_self h)
        rw [if_neg hj]
        simp only [hr,weightAtZero,List.filter_cons,ne_eq,hne,not_false_eq_true,
          decide_true,if_true,List.map_cons,List.prod_cons,cast_mul,cast_neg,
          ZMod.intCast_mod,Int.cast_sub]
        rw [mul_div_mul_comm,mul_assoc]
  rw [lagrangeCoefficient,cast_mul,cast_inv,← div_eq_mul_inv,lagrangeFraction]
  rw [hf participants (1,1) hi]
  simp

end ScalarPoly
end LatticeTransfer
