import LatticeTransfer.PyValue
import LatticeTransfer.ScalarField

/-!
# Curve points and their encodings

The functions of `ec_backend` and the `BLS` verifier over the curve libraries. What
the libraries provide is a parameter, `Backend`: the prime-order groups with a
bilinear pairing, affine coordinates, hashing to the curve under a domain
separation tag, the compressed encodings, and the verification equation. An
identity point has no coordinates; the source writes it as zero bytes.
-/

namespace LatticeTransfer
open ScalarField PyValue

def fieldModulus : ℕ :=
  0x1a0111ea397fe69a4b1ba7b6434bacd764774b84f38512bf6730d2a0f6b0f6241eabfffeb153ffffb9feffffffffaaab

def blsDst : Bytes := "BLS_SIG_BLS12381G2_XMD:SHA-256_SSWU_RO_POP_".toUTF8.data.toList

structure Backend (G₁ G₂ G₃ : Type) [AddCommGroup G₁] [Module (ZMod R) G₁] [AddCommGroup G₂]
    [Module (ZMod R) G₂] [AddCommGroup G₃] [Module (ZMod R) G₃] where
  generator : G₁
  hPoint : G₁
  coordinates : G₁ → ℕ × ℕ
  locate : ℕ → ℕ → Except PyError G₁
  pubkey : G₁ → Bytes
  signature : G₂ → Bytes
  toG2 : Bytes → Except PyError G₂
  hashToG2 : Bytes → Bytes → G₂
  pairing : G₁ →ₗ[ZMod R] G₂ →ₗ[ZMod R] G₃
  coreVerify : Bytes → Bytes → Bytes → Bytes → Bool
  blstAvailable : Bool
  blstDefaultDst : Bytes
  generator_ne : generator≠0
  coordinates_lt : ∀ p, p≠0 →
    (coordinates p).1<fieldModulus ∧ (coordinates p).2<fieldModulus
  coordinates_ne : ∀ p, p≠0 → coordinates p≠(0,0)
  locate_coordinates : ∀ p, p≠0 → locate (coordinates p).1 (coordinates p).2=.ok p
  length_pubkey : ∀ p, (pubkey p).length=48
  length_signature : ∀ q, (signature q).length=96
  toG2_signature : ∀ q, toG2 (signature q)=.ok q
  coreVerify_iff : ∀ p, p≠0 → ∀ dst message q,
    coreVerify dst (pubkey p) message (signature q)=true ↔
      pairing generator q=pairing p (hashToG2 message dst)
  coreVerify_zeros : ∀ dst message sig,
    coreVerify dst (List.replicate 48 0) message sig=false

variable {G₁ G₂ G₃ : Type} [AddCommGroup G₁] [Module (ZMod R) G₁] [AddCommGroup G₂]
  [Module (ZMod R) G₂] [AddCommGroup G₃] [Module (ZMod R) G₃] (B : Backend G₁ G₂ G₃)

namespace Backend

def g1ScalarMul (point : G₁) (scalar : ℤ) : G₁ := (scalar : ZMod R) • point
def g2ScalarMul (point : G₂) (scalar : ℤ) : G₂ := (scalar : ZMod R) • point

def g1Serialize [DecidableEq G₁] (point : G₁) : Bytes :=
  if point=0 then List.replicate 96 0
  else PyValue.toBigEndian 48 (B.coordinates point).1 ++
    PyValue.toBigEndian 48 (B.coordinates point).2

def g1Deserialize (data : Bytes) : Except PyError G₁ :=
  let length := data.length
  if length≠96 then .error (.valueError s!"Expected 96 bytes, got {length}")
  else if data=List.replicate 96 0 then .ok 0
  else
    let x := PyValue.ofBigEndian (data.take 48)
    let y := PyValue.ofBigEndian (data.drop 48)
    if fieldModulus≤x ∨ fieldModulus≤y then
      .error (.valueError "Coordinate exceeds field modulus")
    else B.locate x y

def g1Compress [DecidableEq G₁] (point : G₁) : Bytes :=
  if point=0 then List.replicate 48 0 else B.pubkey point

def verify (pk message sig : Bytes) : Bool :=
  if pk.length≠48 then false
  else if sig.length≠96 then false
  else if B.blstAvailable then B.coreVerify B.blstDefaultDst pk message sig
  else B.coreVerify blsDst pk message sig

def verifyDst : Bytes := if B.blstAvailable then B.blstDefaultDst else blsDst

variable [DecidableEq G₁]

theorem ofBigEndian_eq_zero_of_replicate (n : ℕ) : PyValue.ofBigEndian (List.replicate n 0)=0 := by
  induction n with
  | zero => rfl
  | succ n ih =>
    exact ih

theorem g1Deserialize_g1Serialize (point : G₁) :
    B.g1Deserialize (B.g1Serialize point)=.ok point := by
  rw [g1Serialize]
  split_ifs with hze
  · rw [hze]
    rfl
  · obtain ⟨hx,hy⟩ := B.coordinates_lt point hze
    have hb : fieldModulus<256^48 := by decide
    have hxd := ofBigEndian_toBigEndian 48 (B.coordinates point).1 (hx.trans hb)
    have hyd := ofBigEndian_toBigEndian 48 (B.coordinates point).2 (hy.trans hb)
    have ht : (toBigEndian 48 (B.coordinates point).1 ++
        toBigEndian 48 (B.coordinates point).2).take 48 =
          toBigEndian 48 (B.coordinates point).1 :=
      List.take_left' (length_toBigEndian _ _)
    have hd : (toBigEndian 48 (B.coordinates point).1 ++
        toBigEndian 48 (B.coordinates point).2).drop 48 =
          toBigEndian 48 (B.coordinates point).2 :=
      List.drop_left' (length_toBigEndian _ _)
    have hz : toBigEndian 48 (B.coordinates point).1 ++
        toBigEndian 48 (B.coordinates point).2≠List.replicate 96 0 := by
      intro ha
      refine B.coordinates_ne point hze (Prod.ext ?_ ?_)
      · rw [ha,List.take_replicate] at ht
        rw [← hxd,← ht,ofBigEndian_eq_zero_of_replicate]
      · rw [ha,List.drop_replicate] at hd
        rw [← hyd,← hd,ofBigEndian_eq_zero_of_replicate]
    simp only [g1Deserialize,List.length_append,length_toBigEndian,ne_eq,
      not_true_eq_false,if_false,hz,ht,hd,hxd,hyd,not_le.mpr hx,not_le.mpr hy,
      or_self,B.locate_coordinates point hze]

theorem g1Serialize_injective : Function.Injective B.g1Serialize := by
  intro p q h
  have hd := congrArg B.g1Deserialize h
  rw [g1Deserialize_g1Serialize,g1Deserialize_g1Serialize] at hd
  exact Except.ok.inj hd

theorem verify_iff (point : G₁) (m : Bytes) (q : G₂) :
    B.verify (B.g1Compress point) m (B.signature q)=true ↔
      point≠0 ∧ B.pairing B.generator q=B.pairing point (B.hashToG2 m B.verifyDst) := by
  have hv : ∀ pk : Bytes, pk.length=48 → B.verify pk m (B.signature q) =
      B.coreVerify B.verifyDst pk m (B.signature q) := by
    intro pk hpk
    rw [verify,if_neg (not_not.mpr hpk),if_neg (not_not.mpr (B.length_signature q)),verifyDst]
    split_ifs <;> rfl
  rw [g1Compress]
  split_ifs with hz
  · rw [hv _ List.length_replicate,B.coreVerify_zeros]
    simp [hz]
  · rw [hv _ (B.length_pubkey point),B.coreVerify_iff point hz]
    simp [hz]

end Backend

def scalarBackend (blst : Bool) : Backend (ZMod R) (ZMod R) (ZMod R) where
  generator := 1
  hPoint := 5
  coordinates p := (p.val,1)
  locate x y :=
    if x<R ∧ y=1 then .ok (x : ZMod R)
    else .error (.valueError "Point is not on BLS12-381 G1 curve")
  pubkey p := PyValue.toBigEndian 48 p.val
  signature q := PyValue.toBigEndian 96 q.val
  toG2 b :=
    if b.length=96 then .ok (PyValue.ofBigEndian b : ZMod R)
    else .error (.valueError "invalid signature encoding")
  hashToG2 message dst := (PyValue.ofBigEndian (dst++message) : ZMod R)
  pairing := LinearMap.mul (ZMod R) (ZMod R)
  coreVerify dst pk message sig :=
    PyValue.ofBigEndian pk≠0 ∧ (PyValue.ofBigEndian sig : ZMod R) =
      (PyValue.ofBigEndian pk : ZMod R)*(PyValue.ofBigEndian (dst++message) : ZMod R)
  blstAvailable := blst
  blstDefaultDst := []
  generator_ne := by decide
  coordinates_lt p _ :=
    ⟨p.val_lt.trans (by decide),show 1<fieldModulus by decide⟩
  coordinates_ne p _ h := by simp at h
  locate_coordinates p _ := by simp [p.val_lt]
  length_pubkey p := length_toBigEndian _ _
  length_signature q := length_toBigEndian _ _
  toG2_signature q := by
    have hlt : q.val<256^96 := q.val_lt.trans (by decide)
    simp [ofBigEndian_toBigEndian _ _ hlt]
  coreVerify_iff p hp dst message q := by
    have hplt : p.val<256^48 := p.val_lt.trans (by decide)
    have hqlt : q.val<256^96 := q.val_lt.trans (by decide)
    simp [ofBigEndian_toBigEndian _ _ hplt,ofBigEndian_toBigEndian _ _ hqlt,hp]
  coreVerify_zeros dst message sig := by
    simp only [Backend.ofBigEndian_eq_zero_of_replicate,ne_eq,not_true_eq_false,false_and,
      decide_false]

end LatticeTransfer
