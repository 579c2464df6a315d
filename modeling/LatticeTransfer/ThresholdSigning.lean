import LatticeTransfer.DkgSession

/-!
# Threshold signatures

`partial_sign`, `combine_partial_signatures` and `threshold_verify`. A set of signing
keys whose shares are the values of one polynomial combines to the signature under
the value at zero, from any signers with distinct indices that outnumber the degree.
-/

namespace LatticeTransfer
open ScalarField ScalarPoly ShamirSharing Backend List

namespace ThresholdSigning
open Dkg

def domainAttestation : Bytes := "ETP-THRESHOLD-ATTESTATION:v1".toUTF8.data.toList

structure PartialSignature where
  signerFp : Bytes
  signerIndex : ℕ
  signature : Bytes
  epoch : ℕ

section
variable {G₁ G₂ G₃ : Type} [AddCommGroup G₁] [Module (ZMod R) G₁] [AddCommGroup G₂]
  [Module (ZMod R) G₂] [AddCommGroup G₃] [Module (ZMod R) G₃] (B : Backend G₁ G₂ G₃)

def partialSign (key : ThresholdSigningKey) (message domain : Bytes) : PartialSignature :=
  let hPoint := B.hashToG2 (domain++message) blsDst
  ⟨key.participantFp,key.participantIndex,B.signature (g2ScalarMul hPoint key.secretShare),
    key.epoch⟩

def addWeighted (indices : List ℤ) (combined : G₂) (p : PartialSignature) : Except PyError G₂ := do
  let sigPoint ← B.toG2 p.signature
  return combined+g2ScalarMul sigPoint (lagrangeCoefficient p.signerIndex indices)

def combinePartialSignatures (partials : List PartialSignature) (threshold : ℕ) :
    Except PyError Bytes :=
  let count := partials.length
  if count<threshold then
    .error (.valueError s!"Need at least {threshold} partials, got {count}")
  else do
    let indices := partials.map fun p => (p.signerIndex : ℤ)
    let combined ← partials.foldlM (addWeighted B indices) 0
    return B.signature combined

def thresholdVerify [DecidableEq G₁] (groupPk message signature domain : Bytes) :
    Except PyError Bool := do
  let point ← B.g1Deserialize groupPk
  return B.verify (B.g1Compress point) (domain++message) signature

def interpolate (keys : List ThresholdSigningKey) : ℤ :=
  let indices := keys.map fun k => (k.participantIndex : ℤ)
  keys.foldl (fun acc k =>
    add acc (mul (lagrangeCoefficient k.participantIndex indices) k.secretShare)) 0

structure Holds (f : Polynomial (ZMod R)) (keys : List ThresholdSigningKey) : Prop where
  share : ∀ k ∈ keys, (k.secretShare : ZMod R)=f.eval (k.participantIndex : ZMod R)
  distinct : (keys.map ThresholdSigningKey.participantIndex).Nodup
  bounded : ∀ k ∈ keys, k.participantIndex<R

theorem Holds.sublist {f : Polynomial (ZMod R)} {keys ss : List ThresholdSigningKey}
    (h : Holds f keys) (hs : ss.Sublist keys) : Holds f ss where
  share k hk := h.share k (hs.subset hk)
  distinct := h.distinct.sublist (hs.map _)
  bounded k hk := h.bounded k (hs.subset hk)

section
variable {f : Polynomial (ZMod R)} {keys : List ThresholdSigningKey}

def nodes (keys : List ThresholdSigningKey) : List (ZMod R) :=
  keys.map fun k => (k.participantIndex : ZMod R)

theorem natCast_inj_of_lt {a b : ℕ} (ha : a<R) (hb : b<R) (h : (a : ZMod R)=b) : a=b := by
  rw [ZMod.natCast_eq_natCast_iff'] at h
  rwa [Nat.mod_eq_of_lt ha,Nat.mod_eq_of_lt hb] at h

theorem Holds.nodup_nodes (h : Holds f keys) : (nodes keys).Nodup := by
  have hn : nodes keys=(keys.map ThresholdSigningKey.participantIndex).map Nat.cast := by
    rw [map_map]
    rfl
  rw [hn]
  refine h.distinct.map_on fun a ha b hb hab => ?_
  obtain ⟨k,hk,rfl⟩ := mem_map.mp ha
  obtain ⟨k',hk',rfl⟩ := mem_map.mp hb
  exact natCast_inj_of_lt (h.bounded k hk) (h.bounded k' hk') hab

theorem Holds.weight (h : Holds f keys) {k : ThresholdSigningKey} (hk : k ∈ keys) :
    ((lagrangeCoefficient k.participantIndex
        (keys.map fun k => (k.participantIndex : ℤ)) : ℤ) : ZMod R) =
      weightAtZero (nodes keys) k.participantIndex := by
  rw [cast_lagrangeCoefficient]
  · simp [nodes,Function.comp_def]
  · intro j hj hc
    obtain ⟨k',hk',rfl⟩ := mem_map.mp hj
    exact congrArg _ (natCast_inj_of_lt (h.bounded k' hk') (h.bounded k hk) hc)

theorem cast_interpolate (h : Holds f keys) (hd : f.degree<keys.length) :
    ((interpolate keys : ℤ) : ZMod R)=f.eval 0 := by
  have hf : ∀ (ks : List ThresholdSigningKey) (acc : ℤ), (∀ k ∈ ks, k ∈ keys) →
      ((ks.foldl (fun acc k => add acc (mul (lagrangeCoefficient k.participantIndex
          (keys.map fun k => (k.participantIndex : ℤ))) k.secretShare)) acc : ℤ) : ZMod R) =
        acc+(ks.map fun k => weightAtZero (nodes keys) k.participantIndex *
          f.eval (k.participantIndex : ZMod R)).sum := by
    intro ks
    induction ks with
    | nil => simp
    | cons k ks ih =>
      intro acc hks
      rw [forall_mem_cons] at hks
      rw [foldl_cons,ih _ hks.2,cast_add,cast_mul,h.weight hks.1,h.share k hks.1,
        map_cons,sum_cons,add_assoc]
  have hs := sum_weight_eval h.nodup_nodes (by rwa [nodes,length_map])
  rw [interpolate,hf keys 0 fun _ hk => hk,Int.cast_zero,zero_add,← hs]
  nth_rewrite 3 [nodes]
  rw [map_map]
  rfl

theorem interpolate_mem_range (keys : List ThresholdSigningKey) :
    0 ≤ interpolate keys ∧ interpolate keys<R := by
  have hp : (0 : ℤ)<R := by decide
  refine foldlRecOn keys _ (motive := fun acc : ℤ => 0≤acc ∧ acc<R) ⟨le_rfl,hp⟩ ?_
  intro acc _ k _
  exact ⟨Int.emod_nonneg _ hp.ne',Int.emod_lt_of_pos _ hp⟩

theorem foldlM_addWeighted (h : Holds f keys) (m domain : Bytes)
    (ks : List ThresholdSigningKey) (acc : G₂) (hks : ∀ k ∈ ks, k ∈ keys) :
    (ks.map fun k => partialSign B k m domain).foldlM
        (addWeighted B (keys.map fun k => (k.participantIndex : ℤ))) acc =
      .ok (acc+(ks.map fun k => weightAtZero (nodes keys) k.participantIndex •
        f.eval (k.participantIndex : ZMod R) • B.hashToG2 (domain++m) blsDst).sum) := by
  induction ks generalizing acc with
  | nil =>
    rw [map_nil,map_nil,sum_nil,add_zero]
    rfl
  | cons k ks ih =>
    rw [forall_mem_cons] at hks
    rw [map_cons,foldlM_cons,addWeighted,partialSign,B.toG2_signature]
    refine (ih _ hks.2).trans ?_
    rw [g2ScalarMul,g2ScalarMul,h.weight hks.1,h.share k hks.1,map_cons,sum_cons,add_assoc]

theorem combine_partials (h : Holds f keys) (hd : f.degree<keys.length) {threshold : ℕ}
    (hs : threshold≤keys.length) (m domain : Bytes) :
    combinePartialSignatures B (keys.map fun k => partialSign B k m domain) threshold =
      .ok (B.signature (f.eval 0 • B.hashToG2 (domain++m) blsDst)) := by
  have hi : (keys.map fun k => partialSign B k m domain).map
      (fun p => (p.signerIndex : ℤ))=keys.map fun k => (k.participantIndex : ℤ) := by
    rw [map_map]
    rfl
  have hsu := sum_weight_smul_eval h.nodup_nodes (by rwa [nodes,length_map])
    (B.hashToG2 (domain++m) blsDst)
  rw [nodes,map_map] at hsu
  have hf := foldlM_addWeighted B h m domain keys 0 fun _ hk => hk
  rw [combinePartialSignatures,length_map,if_neg (not_lt.mpr hs),hi]
  dsimp only
  rw [hf,zero_add,← hsu]
  rfl

end

theorem thresholdVerify_iff [DecidableEq G₁] (secret : ZMod R) (m domain : Bytes) :
    thresholdVerify B (B.g1Serialize (secret • B.generator)) m
        (B.signature (secret • B.hashToG2 (domain++m) blsDst)) domain=.ok true ↔
      secret≠0 ∧ B.pairing B.generator (B.hashToG2 (domain++m) blsDst) =
        B.pairing B.generator (B.hashToG2 (domain++m) B.verifyDst) := by
  have hok : ∀ b : Bool, (Except.ok b : Except PyError Bool)=.ok true ↔ b=true :=
    fun b => ⟨Except.ok.inj,congrArg _⟩
  rw [thresholdVerify,B.g1Deserialize_g1Serialize]
  refine (hok _).trans ((B.verify_iff _ _ _).trans ?_)
  rw [smul_ne_zero_iff,and_iff_left B.generator_ne]
  refine and_congr_right fun hs => ?_
  rw [map_smul,map_smul]
  exact (smul_right_injective G₃ hs).eq_iff

end
end ThresholdSigning
end LatticeTransfer
