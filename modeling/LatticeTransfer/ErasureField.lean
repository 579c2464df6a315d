import LatticeTransfer.PyValue
import Mathlib.Dynamics.PeriodicPts.Defs
import Mathlib.NumberTheory.Divisors

/-!
# The lookup-table field of the erasure coder

`initGf` fills the exponent and logarithm tables of `ErasureCoder._init_gf` by
the source's two loops. A table product by a nonzero byte is an iterate of the
one-bit step `double`, which is additive for exclusive or, so the field laws
follow from the period 255 of `double` and one pass over the tables.
-/

namespace LatticeTransfer.ErasureField
open Function

structure Tables where
  exp : List ℕ
  log : List ℕ

def initStep (s : Tables × ℕ) (i : ℕ) : Tables × ℕ :=
  let x := s.2
  let shifted := x <<< 1
  (⟨s.1.exp.set i x,s.1.log.set x i⟩,
    if shifted &&& 0x100≠0 then shifted ^^^ 0x11D else shifted)

def initGf : Tables :=
  let s := ((List.range 255).foldl initStep (⟨List.replicate 512 0,List.replicate 256 0⟩,1)).1
  let exp := (List.range' 255 257).foldl (fun e i => e.set i (e.getD (i-255) 0)) s.exp
  ⟨exp,s.log.set 0 0⟩

def gfExp (i : ℕ) : Byte := UInt8.ofNat (initGf.exp.getD i 0)
def gfLog (a : Byte) : ℕ := initGf.log.getD a.toNat 0

def gfMul (a b : Byte) : Byte :=
  if a=0 ∨ b=0 then 0 else gfExp (gfLog a+gfLog b)

def gfInv (a : Byte) : Option Byte :=
  if a=0 then none else some (gfExp (255-gfLog a))

def double (x : Byte) : Byte :=
  ⟨if x.toBitVec.msb then (x.toBitVec <<< 1) ^^^ 0x1D#8 else x.toBitVec <<< 1⟩

theorem double_xor (a b : Byte) : double (a ^^^ b)=double a ^^^ double b := by
  apply UInt8.toBitVec_inj.mp
  simp only [double,UInt8.toBitVec_xor,BitVec.msb_xor,BitVec.shiftLeft_xor_distrib]
  cases a.toBitVec.msb <;> cases b.toBitVec.msb
  · rfl
  · exact BitVec.xor_assoc _ _ _
  · simp only [Bool.true_bne,Bool.not_false,↓reduceIte,Bool.false_eq_true]
    rw [BitVec.xor_assoc,BitVec.xor_assoc,BitVec.xor_comm (0x1D#8)]
  · simp only [bne_self_eq_false,↓reduceIte,Bool.false_eq_true]
    rw [BitVec.xor_assoc,BitVec.xor_comm (0x1D#8),BitVec.xor_assoc,BitVec.xor_self,BitVec.xor_zero]

def power (i : ℕ) : Byte := double^[i] 1

theorem double_zero : double 0=0 := by decide

theorem power_succ (i : ℕ) : power (i+1)=double (power i) :=
  iterate_succ_apply' double i 1

theorem power_period : power 255=1 := by decide +kernel

theorem iterate_zero (n : ℕ) : double^[n] 0=0 :=
  iterate_fixed double_zero n

theorem iterate_xor (n : ℕ) (a b : Byte) : double^[n] (a ^^^ b)=double^[n] a ^^^ double^[n] b := by
  induction n with
  | zero => rfl
  | succ n ih => simp [iterate_succ_apply',ih,double_xor]

theorem iterate_power (n i : ℕ) : double^[n] (power i)=power (n+i) :=
  (iterate_add_apply double n i 1).symm

theorem power_mod (i : ℕ) : power (i % 255)=power i :=
  Function.IsPeriodicPt.iterate_mod_apply power_period i

theorem power_ne_zero {i : ℕ} (hi : i≤255) : power i≠0 := by
  intro h
  have hp : double^[255-i] (power i)=power 255 := by rw [iterate_power,Nat.sub_add_cancel hi]
  rw [h,iterate_zero,power_period] at hp
  exact absurd hp (by decide)

/-- The byte two generates all 255 nonzero bytes: its period divides 255 and
none of the three maximal proper divisors. -/
theorem minimalPeriod_double : Function.minimalPeriod double (1 : Byte)=255 := by
  have hd : minimalPeriod double (1 : Byte) ∣ 255 :=
    Function.IsPeriodicPt.minimalPeriod_dvd power_period
  have hn : ∀ m, power m≠1 → ¬minimalPeriod double (1 : Byte) ∣ m := by
    intro m hm h
    exact hm ((isPeriodicPt_iff_minimalPeriod_dvd).mpr h)
  have h85 := hn 85 (by decide +kernel)
  have h51 := hn 51 (by decide +kernel)
  have h15 := hn 15 (by decide +kernel)
  have ha : ∀ d ∈ Nat.divisors 255, ¬d ∣ 85 → ¬d ∣ 51 → ¬d ∣ 15 → d=255 := by decide
  exact ha _ (Nat.mem_divisors.mpr ⟨hd,by decide⟩) h85 h51 h15

theorem power_injOn : Set.InjOn power (Set.Iio 255) := by
  have h := iterate_injOn_Iio_minimalPeriod (f := double) (x := (1 : Byte))
  rw [minimalPeriod_double] at h
  exact h

theorem exists_power {a : Byte} (ha : a≠0) : ∃ i<255, power i=a := by
  have hp : ∀ b : Byte, b≠0 → b.toNat ∈ Finset.Ioo 0 256 := by
    intro b hb
    have hne : b.toNat≠0 := fun h => hb (UInt8.toNat_inj.mp h)
    exact Finset.mem_Ioo.mpr ⟨Nat.pos_of_ne_zero hne,b.toNat_lt⟩
  have hs : (Finset.range 255).image (fun i => (power i).toNat) ⊆ Finset.Ioo 0 256 := by
    intro b hb
    obtain ⟨i,hi,rfl⟩ := Finset.mem_image.mp hb
    have hlt := Finset.mem_range.mp hi
    exact hp _ (power_ne_zero (by omega))
  have hin : Set.InjOn (fun i => (power i).toNat) (Finset.range 255 : Set ℕ) := by
    intro i hi j hj hij
    rw [Finset.coe_range] at hi hj
    exact power_injOn hi hj (UInt8.toNat_inj.mp hij)
  have hc : (Finset.Ioo 0 256).card ≤
      ((Finset.range 255).image (fun i => (power i).toNat)).card := by
    rw [Finset.card_image_of_injOn hin,Finset.card_range,Nat.card_Ioo]
  have hm : a.toNat ∈ (Finset.range 255).image (fun i => (power i).toNat) := by
    rw [Finset.eq_of_subset_of_card_le hs hc]
    exact hp a ha
  obtain ⟨i,hi,hia⟩ := Finset.mem_image.mp hm
  exact ⟨i,Finset.mem_range.mp hi,UInt8.toNat_inj.mp hia⟩

theorem double_toNat (x : Byte) : (double x).toNat =
    if (x.toNat <<< 1) &&& 0x100≠0 then (x.toNat <<< 1) ^^^ 0x11D else x.toNat <<< 1 := by
  have ha : ∀ a : Fin 256, (double (UInt8.ofNat a.val)).toNat =
      if (a.val <<< 1) &&& 0x100≠0 then (a.val <<< 1) ^^^ 0x11D else a.val <<< 1 := by
    decide +kernel
  simpa using ha ⟨x.toNat,x.toNat_lt⟩

structure FirstLoop (m : ℕ) (s : Tables × ℕ) : Prop where
  running : s.2=(power m).toNat
  expLength : s.1.exp.length=512
  logLength : s.1.log.length=256
  exp : ∀ i < m, s.1.exp.getD i 0=(power i).toNat
  log : ∀ j < m, ∃ i < m, s.1.log.getD (power j).toNat 0=i ∧ power i=power j

theorem getD_set_self {l : List ℕ} {i x : ℕ} (hi : i<l.length) : (l.set i x).getD i 0=x := by
  simp [hi]

theorem getD_set_ne {l : List ℕ} {i j x : ℕ} (hij : i≠j) : (l.set i x).getD j 0=l.getD j 0 := by
  simp [List.getElem?_set_ne hij]

theorem firstLoop_step {m : ℕ} (hm : m<512) {s : Tables × ℕ} (h : FirstLoop m s) :
    FirstLoop (m+1) (initStep s m) := by
  have hb : s.2<s.1.log.length := by
    rw [h.running,h.logLength]
    exact (power m).toNat_lt
  refine ⟨?_,by simp [initStep,h.expLength],by simp [initStep,h.logLength],?_,?_⟩
  · rw [power_succ,double_toNat,← h.running]
    rfl
  · intro i hi
    by_cases him : i=m
    · subst him
      simp only [initStep,getD_set_self (h.expLength ▸ hm),h.running]
    · simp only [initStep,getD_set_ne (Ne.symm him)]
      exact h.exp i (by omega)
  · intro j hj
    by_cases hjx : s.2=(power j).toNat
    · refine ⟨m,by omega,?_,UInt8.toNat_inj.mp (h.running.symm.trans hjx)⟩
      simp only [initStep,← hjx,getD_set_self hb]
    · have hjm : j≠m := fun he => hjx (he ▸ h.running)
      obtain ⟨i,hi,hl,hp⟩ := h.log j (by omega)
      refine ⟨i,by omega,?_,hp⟩
      simpa only [initStep,getD_set_ne hjx] using hl

theorem firstLoop_run (m : ℕ) (hm : m≤512) : FirstLoop m ((List.range m).foldl initStep
      (⟨List.replicate 512 0,List.replicate 256 0⟩,1)) := by
  induction m with
  | zero =>
    refine ⟨rfl,List.length_replicate,List.length_replicate,?_,?_⟩
    · intro i hi
      omega
    · intro j hj
      omega
  | succ m ih =>
    rw [List.range_succ,List.foldl_append]
    exact firstLoop_step (by omega) (ih (by omega))

theorem secondLoop_run {exp : List ℕ} (hl : exp.length=512)
    (he : ∀ i<255, exp.getD i 0=(power i).toNat) (m : ℕ) (hm : m≤257) :
    let e := (List.range' 255 m).foldl (fun e i => e.set i (e.getD (i-255) 0)) exp
    e.length=512 ∧ ∀ i<255+m, e.getD i 0=(power i).toNat := by
  induction m with
  | zero => exact ⟨hl,he⟩
  | succ m ih =>
    obtain ⟨ihlen,ihexp⟩ := ih (by omega)
    simp only [List.range'_concat,List.foldl_append,List.foldl_cons,List.foldl_nil,one_mul]
    refine ⟨by simpa using ihlen,fun i hi => ?_⟩
    by_cases him : i=255+m
    · subst him
      rw [getD_set_self (by omega),ihexp _ (by omega),Nat.add_sub_cancel_left,
        ← power_mod (255+m),Nat.add_mod_left,power_mod]
    · rw [getD_set_ne (Ne.symm him)]
      exact ihexp i (by omega)

theorem gfExp_eq {i : ℕ} (hi : i<512) : gfExp i=power i := by
  have hf := firstLoop_run 255 (by omega)
  have h := (secondLoop_run hf.expLength hf.exp 257 le_rfl).2 i (by omega)
  apply UInt8.toNat_inj.mp
  change (UInt8.ofNat _).toNat=_
  rw [initGf,h]
  simp

theorem gfLog_spec {a : Byte} (ha : a≠0) : gfLog a<255 ∧ power (gfLog a)=a := by
  obtain ⟨j,hj,rfl⟩ := exists_power ha
  obtain ⟨i,hi,hl,hp⟩ := (firstLoop_run 255 (by omega)).log j hj
  have hne : 0≠(power j).toNat := fun h => ha (UInt8.toNat_inj.mp h.symm)
  have hi' : gfLog (power j)=i := by rw [gfLog,initGf,getD_set_ne hne,hl]
  rw [hi']
  exact ⟨hi,hp⟩

theorem gfMul_eq_iterate {a : Byte} (ha : a≠0) (b : Byte) : gfMul a b=double^[gfLog a] b := by
  by_cases hb : b=0
  · simp [gfMul,hb,iterate_zero]
  · obtain ⟨hla,_⟩ := gfLog_spec ha
    obtain ⟨hlb,hpb⟩ := gfLog_spec hb
    simp only [gfMul,ha,hb,or_self,↓reduceIte]
    rw [gfExp_eq (by omega),← iterate_power,hpb]

theorem gfMul_comm (a b : Byte) : gfMul a b=gfMul b a := by
  simp [gfMul,or_comm,Nat.add_comm (gfLog a)]

theorem gfMul_zero (a : Byte) : gfMul a 0=0 := by simp [gfMul]

theorem gfMul_assoc (a b c : Byte) : gfMul (gfMul a b) c=gfMul a (gfMul b c) := by
  by_cases ha : a=0
  · simp [gfMul,ha]
  by_cases hc : c=0
  · simp [gfMul,hc]
  calc gfMul (gfMul a b) c=double^[gfLog c] (double^[gfLog a] b) := by
        rw [gfMul_comm,gfMul_eq_iterate hc,gfMul_eq_iterate ha]
    _ = double^[gfLog a] (double^[gfLog c] b) := by
        rw [← iterate_add_apply,← iterate_add_apply,Nat.add_comm]
    _ = gfMul a (gfMul b c) := by rw [gfMul_comm b c,gfMul_eq_iterate hc,gfMul_eq_iterate ha]

theorem gfMul_xor (a b c : Byte) : gfMul a (b ^^^ c)=gfMul a b ^^^ gfMul a c := by
  by_cases ha : a=0
  · simp [gfMul,ha]
  · simp [gfMul_eq_iterate ha,iterate_xor]

theorem gfMul_one (a : Byte) : gfMul a 1=a := by
  by_cases ha : a=0
  · simp [gfMul,ha]
  · rw [gfMul_eq_iterate ha]
    exact (gfLog_spec ha).2

theorem gfMul_gfInv {a b : Byte} (h : gfInv a=some b) : gfMul a b=1 := by
  by_cases ha : a=0
  · simp [gfInv,ha] at h
  · obtain ⟨hla,_⟩ := gfLog_spec ha
    simp only [gfInv,ha,↓reduceIte,Option.some.injEq] at h
    rw [← h,gfExp_eq (by omega),gfMul_eq_iterate ha,iterate_power,
      Nat.add_sub_cancel' hla.le,power_period]

/-- The bytes with the coder's arithmetic; a wrapper, since `UInt8` carries the
ring structure of the integers modulo 256. -/
structure GF256 where
  byte : Byte
deriving DecidableEq

namespace GF256

instance : Zero GF256 := ⟨⟨0⟩⟩
instance : One GF256 := ⟨⟨1⟩⟩
instance : Add GF256 := ⟨fun a b => ⟨a.byte ^^^ b.byte⟩⟩
instance : Neg GF256 := ⟨fun a => a⟩
instance : Sub GF256 := ⟨fun a b => ⟨a.byte ^^^ b.byte⟩⟩
instance : Mul GF256 := ⟨fun a b => ⟨gfMul a.byte b.byte⟩⟩
instance : Inv GF256 := ⟨fun a => ⟨(gfInv a.byte).getD 0⟩⟩

@[ext] theorem ext {a b : GF256} (h : a.byte=b.byte) : a=b := by
  cases a
  cases b
  exact congrArg GF256.mk h

@[simp] theorem byte_zero : (0 : GF256).byte=0 := rfl
@[simp] theorem byte_one : (1 : GF256).byte=1 := rfl
@[simp] theorem byte_add (a b : GF256) : (a+b).byte=a.byte ^^^ b.byte := rfl
@[simp] theorem byte_sub (a b : GF256) : (a-b).byte=a.byte ^^^ b.byte := rfl
@[simp] theorem byte_mul (a b : GF256) : (a*b).byte=gfMul a.byte b.byte := rfl
@[simp] theorem byte_inv (a : GF256) : (a⁻¹).byte=(gfInv a.byte).getD 0 := rfl

instance : Field GF256 where
  add_assoc a b c := ext (UInt8.xor_assoc _ _ _)
  zero_add a := ext (UInt8.zero_xor)
  add_zero a := ext (UInt8.xor_zero)
  add_comm a b := ext (UInt8.xor_comm _ _)
  neg_add_cancel a := ext (UInt8.xor_self)
  nsmul := nsmulRec
  zsmul := zsmulRec
  left_distrib a b c := ext (gfMul_xor _ _ _)
  right_distrib a b c := ext (by
    simp only [byte_mul,byte_add,gfMul_comm _ c.byte,gfMul_xor])
  zero_mul a := ext (by simp [gfMul])
  mul_zero a := ext (gfMul_zero _)
  mul_assoc a b c := ext (gfMul_assoc _ _ _)
  one_mul a := ext ((gfMul_comm _ _).trans (gfMul_one _))
  mul_one a := ext (gfMul_one _)
  mul_comm a b := ext (gfMul_comm _ _)
  exists_pair_ne := ⟨0,1,by decide⟩
  mul_inv_cancel a ha := by
    have hne : a.byte≠0 := fun h => ha (ext h)
    apply ext
    rw [byte_mul,byte_inv]
    apply gfMul_gfInv
    simp [gfInv,hne]
  inv_zero := rfl
  nnqsmul := _
  nnqsmul_def := fun _ _ => rfl
  qsmul := _
  qsmul_def := fun _ _ => rfl

end GF256
end LatticeTransfer.ErasureField
