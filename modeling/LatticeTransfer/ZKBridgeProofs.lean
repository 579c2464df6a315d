import LatticeTransfer.ChallengeFinality
import LatticeTransfer.ZKBridgeVerifier

/-!
# Proofs for the bridge and their verifier

`bridge.zk_bridge`: public inputs, proofs and `ZKBridgeVerifier.verify`, with the verdict of the
two zkVM binaries as a parameter. The layer roots of the FRI commitment are hashed, and nothing
else is checked about them.
-/

namespace LatticeTransfer.ZKBridge
open MerkleTree List Method
open MerkleLog (MLDSA SignedTreeHead)
open CommitmentLog (encodeText)
open ChallengeManager (Windows ChallengeStatus packIndex)
open ZKBridgeVerifier (slice)
open PyValue (bind_ok)

def domainZkBridge : Bytes := encodeText "SUWAPPU-LTP:zk-bridge:v1\x00"

inductive ZKBridgeBackend
  | simulated
  | sp1
  | riscZero
  | stark
deriving DecidableEq

structure ZKBridgePublicInputs where
  sthRootHash : Bytes
  operatorVkHash : Bytes
  treeSize : ℤ
  sthSequence : ℤ

structure ZKBridgeProof where
  proofBytes : Bytes
  backend : ZKBridgeBackend
  publicInputs : ZKBridgePublicInputs
  proofId : String

structure VerifyBinaries where
  sp1 : Bytes → Bool
  riscZero : Bytes → Bool

variable (H : CanonicalHash)

namespace ZKBridgePublicInputs

def toBytes (inputs : ZKBridgePublicInputs) : Except PyError Bytes := do
  let size ← packIndex inputs.treeSize
  let sequence ← packIndex inputs.sthSequence
  return domainZkBridge++inputs.sthRootHash++inputs.operatorVkHash++size++sequence

def fromSth (sth : SignedTreeHead) : ZKBridgePublicInputs :=
  ⟨sth.rootHash,H.run sth.operatorVk,sth.treeSize,sth.sequence⟩

end ZKBridgePublicInputs

def publicHash (publicBytes : Bytes) : Bytes :=
  H.run (domainZkBridge++publicBytes++encodeText "stark-public")

def legacyTag (publicBytes layers : Bytes) : Bytes :=
  H.run (domainZkBridge++publicBytes++layers++encodeText "stark-verify")

def transcriptHash (preTranscript : Bytes) : Bytes :=
  H.run (domainZkBridge++preTranscript++encodeText "stark-transcript")

def chainTag (transcript publicHash : Bytes) : Bytes :=
  H.run (domainZkBridge++transcript++publicHash++encodeText "stark-verify")

def friTag (header publicHash witnessHash friRoots : Bytes) : Bytes :=
  H.run (domainZkBridge++header++publicHash++witnessHash++friRoots ++ encodeText "stark-verify")

def verifyLegacy (publicInputs : ZKBridgePublicInputs) (data : Bytes) : Except PyError Bool := do
  let allLayers := slice data 0 96
  let claimedTag := slice data 96 128
  let publicBytes ← publicInputs.toBytes
  return claimedTag=legacyTag H publicBytes allLayers

def verifyChain (publicInputs : ZKBridgePublicInputs) (data : Bytes) (numRounds : ℕ) :
    Except PyError Bool :=
  if data.length≠136+numRounds*64 then .ok false
  else do
    let friEnd := 8+numRounds*64
    let preTranscript := slice data 0 (friEnd+64)
    let transcript := slice data (friEnd+64) (friEnd+96)
    let claimedTag := slice data (friEnd+96) (friEnd+128)
    let publicInputsHash := slice data (friEnd+32) (friEnd+64)
    let publicBytes ← publicInputs.toBytes
    return publicInputsHash=publicHash H publicBytes ∧
      transcript=transcriptHash H preTranscript ∧
      claimedTag=chainTag H transcript publicInputsHash

def verifyFri (publicInputs : ZKBridgePublicInputs) (data : Bytes) (numRounds : ℕ) :
    Except PyError Bool :=
  if data.length≠8+32+32+numRounds*32+32 then .ok false
  else do
    let header := slice data 0 8
    let publicInputsHash := slice data 8 40
    let witnessHash := slice data 40 72
    let friRoots := slice data 72 (72+numRounds*32)
    let claimedTag := slice data (72+numRounds*32) (72+numRounds*32+32)
    let publicBytes ← publicInputs.toBytes
    return publicInputsHash=publicHash H publicBytes ∧
      claimedTag=friTag H header publicInputsHash witnessHash friRoots

def verifyStark (proof : ZKBridgeProof) : Except PyError Bool :=
  let data := proof.proofBytes
  if data.length=128 then verifyLegacy H proof.publicInputs data
  else if data.length<8 then .ok false
  else
    let version := data.getD 0 0
    let numRounds := (data.getD 1 0).toNat
    if version=2 then verifyChain H proof.publicInputs data numRounds
    else if version=3 then verifyFri H proof.publicInputs data numRounds
    else .ok false

def verifyZkvm (binary : Bytes → Bool) (proof : ZKBridgeProof) : Except PyError Bool :=
  let data := proof.proofBytes
  if 8≤data.length ∧ data.getD 0 0=3 then verifyStark H proof
  else if 128<data.length then .ok (binary data)
  else .ok false

def verify (binaries : VerifyBinaries) (proof : ZKBridgeProof) : Except PyError Bool :=
  match proof.backend with
  | .simulated => verifyStark H proof
  | .stark => verifyStark H proof
  | .sp1 => verifyZkvm H binaries.sp1 proof
  | .riscZero => verifyZkvm H binaries.riscZero proof

/-- The bytes of an accepted proof that its maker is free to choose, for each layout. -/
inductive Filler
  | legacy (layers : Bytes) (hlayers : layers.length=96)
  | chain (numRounds : UInt8) (rest : Bytes) (hrest : rest.length=38+numRounds.toNat*64)
  | fri (numRounds : UInt8) (rest witnessHash friRoots : Bytes) (hrest : rest.length=6)
      (hwitness : witnessHash.length=32) (hroots : friRoots.length=numRounds.toNat*32)

def Filler.assemble (publicBytes : Bytes) : Filler → Bytes
  | .legacy layers _ => layers++legacyTag H publicBytes layers
  | .chain numRounds rest _ =>
    let preTranscript := 2::numRounds::rest++publicHash H publicBytes
    preTranscript++transcriptHash H preTranscript ++
      chainTag H (transcriptHash H preTranscript) (publicHash H publicBytes)
  | .fri numRounds rest witnessHash friRoots _ _ _ =>
    let header := 3::numRounds::rest
    header++publicHash H publicBytes++witnessHash++friRoots ++
      friTag H header (publicHash H publicBytes) witnessHash friRoots

section
variable {H} {inputs : ZKBridgePublicInputs} {data : Bytes}

theorem length_slice {i j : ℕ} (h : j≤data.length) : (slice data i j).length=j-i := by
  rw [slice,length_drop,length_take,min_eq_left h]

theorem slice_append_slice {i j k : ℕ} (hij : i≤j) (hjk : j≤k) :
    slice data i j++slice data j k=slice data i k := by
  simp only [slice,drop_take]
  rw [show k-i=j-i+(k-j) by omega,take_add,drop_drop,
    Nat.add_sub_cancel' hij]

theorem slice_zero_length : slice data 0 data.length=data := by rw [slice,take_length,drop_zero]

theorem toBytes_bind_eq_true {f : Bytes → Prop} [DecidablePred f] :
    (inputs.toBytes >>= fun publicBytes => pure (decide (f publicBytes)) : Except PyError Bool) =
      .ok true ↔ ∃ publicBytes, inputs.toBytes=.ok publicBytes ∧ f publicBytes := by
  cases inputs.toBytes with
  | error e => simp [bind,Except.bind]
  | ok publicBytes => simp [bind,Except.bind,pure,Except.pure]

variable (H) in
def Assembled (inputs : ZKBridgePublicInputs) (data : Bytes) : Prop :=
  H.size=32 ∧ ∃ publicBytes, inputs.toBytes=.ok publicBytes ∧
    ∃ filler : Filler, data=filler.assemble H publicBytes

theorem head_eq_of_append {part more : Bytes} {n : ℕ} (hd : part++more=data)
    (hp : part.length=n+2) : ∃ rest, part=data.getD 0 0::data.getD 1 0::rest ∧ rest.length=n := by
  rcases part with _|⟨first,_|⟨second,rest⟩⟩
  · simp at hp
  · simp at hp
  · subst hd
    exact ⟨rest,rfl,by simpa using hp⟩

theorem legacy_slices (hl : data.length=128) : slice data 0 96++slice data 96 128=data := by
  rw [slice_append_slice (by omega) (by omega),← hl,slice_zero_length]

theorem legacy_assembled (hl : data.length=128)
    (h : verifyLegacy H inputs data=.ok true) : Assembled H inputs data := by
  obtain ⟨pub,hp,ht⟩ := toBytes_bind_eq_true.mp h
  refine ⟨?_,pub,hp,.legacy (slice data 0 96) (length_slice (by omega)),?_⟩
  · rw [← H.length_run,← legacyTag,← ht,length_slice (by omega)]
  · rw [Filler.assemble,← ht,legacy_slices hl]

theorem chain_slices {friEnd : ℕ} (hl : data.length=friEnd+128) :
    [slice data 0 (friEnd+32),slice data (friEnd+32) (friEnd+64),
      slice data (friEnd+64) (friEnd+96),slice data (friEnd+96) (friEnd+128)].flatten =
        data ∧ [slice data 0 (friEnd+32),slice data (friEnd+32) (friEnd+64),
      slice data (friEnd+64) (friEnd+96),slice data (friEnd+96) (friEnd+128)].map
        length=[friEnd+32,32,32,32] := by
  constructor
  · simp only [flatten_cons,flatten_nil,append_nil]
    rw [slice_append_slice (by omega) (by omega),slice_append_slice (by omega) (by omega),
      slice_append_slice (by omega) (by omega),← hl,slice_zero_length]
  · simp only [map_cons,map_nil]
    rw [length_slice (by omega),length_slice (by omega),length_slice (by omega),
      length_slice (by omega)]
    simp only [List.cons.injEq,and_true]
    omega

theorem chain_assembled (hv : data.getD 0 0=2)
    (h : verifyChain H inputs data (data.getD 1 0).toNat=.ok true) : Assembled H inputs data := by
  have hl : data.length=136+(data.getD 1 0).toNat*64 := by
    by_contra hne
    rw [verifyChain,if_pos hne] at h
    cases h
  rw [verifyChain,if_neg (not_not.mpr hl),toBytes_bind_eq_true] at h
  obtain ⟨pub,hp,hi,ht,hta⟩ := h
  have he : data.length=8+(data.getD 1 0).toNat*64+128 := by omega
  obtain ⟨hw,hs⟩ := chain_slices he
  simp only [map_cons,List.cons.injEq] at hs
  have hpr : slice data 0 (8+(data.getD 1 0).toNat*64+32) ++
      slice data (8+(data.getD 1 0).toNat*64+32) (8+(data.getD 1 0).toNat*64+64) =
      slice data 0 (8+(data.getD 1 0).toNat*64+64) :=
    slice_append_slice (by omega) (by omega)
  obtain ⟨rest,hb,hr⟩ := head_eq_of_append (n := 38+(data.getD 1 0).toNat*64) hw
    (by omega)
  rw [hv] at hb
  refine ⟨?_,pub,hp,.chain (data.getD 1 0) rest hr,?_⟩
  · rw [← H.length_run,← publicHash,← hi,hs.2.1]
  · simp only [Filler.assemble]
    rw [← hb,← hi,hpr,← ht,← hta,← hpr]
    simpa using hw.symm

theorem fri_slices {friEnd : ℕ} (he : 72≤friEnd) (hl : data.length=friEnd+32) :
    [slice data 0 8,slice data 8 40,slice data 40 72,slice data 72 friEnd,
      slice data friEnd (friEnd+32)].flatten=data ∧
    [slice data 0 8,slice data 8 40,slice data 40 72,slice data 72 friEnd,
      slice data friEnd (friEnd+32)].map length=[8,32,32,friEnd-72,32] := by
  constructor
  · simp only [flatten_cons,flatten_nil,append_nil]
    rw [slice_append_slice (by omega) (by omega),slice_append_slice (by omega) (by omega),
      slice_append_slice (by omega) (by omega),slice_append_slice (by omega) (by omega),
      ← hl,slice_zero_length]
  · simp only [map_cons]
    rw [length_slice (by omega),length_slice (by omega),length_slice (by omega),
      length_slice (by omega),length_slice (by omega)]
    simp

theorem fri_assembled (hv : data.getD 0 0=3)
    (h : verifyFri H inputs data (data.getD 1 0).toNat=.ok true) : Assembled H inputs data := by
  have hl : data.length=8+32+32+(data.getD 1 0).toNat*32+32 := by
    by_contra hne
    rw [verifyFri,if_pos hne] at h
    cases h
  rw [verifyFri,if_neg (not_not.mpr hl),toBytes_bind_eq_true] at h
  obtain ⟨pub,hp,hi,ht⟩ := h
  obtain ⟨hw,hs⟩ := fri_slices (Nat.le_add_right 72 _) hl
  simp only [map_cons,List.cons.injEq] at hs
  obtain ⟨rest,hh,hr⟩ := head_eq_of_append hw hs.1
  rw [hv] at hh
  refine ⟨?_,pub,hp,.fri (data.getD 1 0) rest (slice data 40 72)
    (slice data 72 _) hr hs.2.2.1 (hs.2.2.2.1.trans (Nat.add_sub_cancel_left ..)),?_⟩
  · rw [← H.length_run,← publicHash,← hi,hs.2.1]
  · simp only [Filler.assemble]
    rw [← hh,← hi,← ht]
    simpa using hw.symm

theorem verifyStark_assembled {proof : ZKBridgeProof} {pub : Bytes} (hsiz : H.size=32)
    (hp : proof.publicInputs.toBytes=.ok pub) {filler : Filler}
    (hd : proof.proofBytes=filler.assemble H pub) : verifyStark H proof=.ok true := by
  have hha : ∀ b, (H.run b).length=32 := fun b => (H.length_run b).trans hsiz
  unfold verifyStark
  generalize proof.proofBytes=data at hd ⊢
  cases filler with
  | legacy layers hla =>
    have hl : data.length=128 := by rw [hd,Filler.assemble,length_append,hla,legacyTag,hha]
    rw [if_pos hl,verifyLegacy,toBytes_bind_eq_true]
    refine ⟨pub,hp,?_⟩
    obtain ⟨hf,hs⟩ := append_inj (hd.symm.trans (legacy_slices hl).symm)
      (by rw [hla,length_slice (by omega)])
    rw [← hf,hs]
  | chain numRounds rest hre =>
    have hr : data.getD 1 0=numRounds := by rw [hd]; rfl
    have hv : data.getD 0 0=2 := by rw [hd]; rfl
    have hpa : data=[2::numRounds::rest,publicHash H pub,
        transcriptHash H (2::numRounds::rest++publicHash H pub),chainTag H
          (transcriptHash H (2::numRounds::rest++publicHash H pub))
          (publicHash H pub)].flatten := by simp [hd,Filler.assemble]
    have he : data.length=8+numRounds.toNat*64+128 := by
      simp [hd,Filler.assemble,publicHash,transcriptHash,chainTag,hha,hre]
      omega
    have hl : data.length=136+numRounds.toNat*64 := by omega
    rw [if_neg (by omega),if_neg (by omega),if_pos hv,hr,verifyChain,
      if_neg (not_not.mpr hl),toBytes_bind_eq_true]
    obtain ⟨hw,hsi⟩ := chain_slices he
    have hsa := eq_iff_flatten_eq.mpr ⟨hw.trans hpa,hsi.trans (by
      simp [publicHash,transcriptHash,chainTag,hha,hre]
      omega)⟩
    simp only [List.cons.injEq] at hsa
    obtain ⟨hb,hi,ht,hta,-⟩ := hsa
    refine ⟨pub,hp,hi,?_,by rw [hta,ht,hi]⟩
    rw [← slice_append_slice (Nat.zero_le (8+numRounds.toNat*64+32)) (by omega),hb,
      hi,ht]
  | fri numRounds rest witnessHash friRoots hre hwi hro =>
    have hr : data.getD 1 0=numRounds := by rw [hd]; rfl
    have hv : data.getD 0 0=3 := by rw [hd]; rfl
    have hpa : data=[3::numRounds::rest,publicHash H pub,witnessHash,friRoots,
        friTag H (3::numRounds::rest) (publicHash H pub) witnessHash
          friRoots].flatten := by simp [hd,Filler.assemble]
    have hl : data.length=8+32+32+numRounds.toNat*32+32 := by
      simp [hd,Filler.assemble,hre,hwi,hro,publicHash,friTag,hha]
      omega
    rw [if_neg (by omega),if_neg (by omega),hv,if_neg (by decide),if_pos rfl,hr,
      verifyFri,if_neg (not_not.mpr hl),toBytes_bind_eq_true]
    obtain ⟨hw,hsi⟩ := fri_slices (Nat.le_add_right 72 _) hl
    have hsa := eq_iff_flatten_eq.mpr ⟨hw.trans hpa,hsi.trans (by
      simp [hre,hwi,hro,publicHash,friTag,hha])⟩
    simp only [List.cons.injEq] at hsa
    obtain ⟨hh,hi,hwit,hfr,hta,-⟩ := hsa
    exact ⟨pub,hp,hi,by rw [hta,hh,hi,hwit,hfr]⟩

theorem verifyStark_iff {proof : ZKBridgeProof} :
    verifyStark H proof=.ok true ↔ Assembled H proof.publicInputs proof.proofBytes := by
  constructor
  · intro h
    unfold verifyStark at h
    dsimp only at h
    split_ifs at h with hl hs hc hf
    · exact legacy_assembled hl h
    · cases h
    · exact chain_assembled hc h
    · exact fri_assembled hf h
    · cases h
  · rintro ⟨hsi,pub,hp,filler,hd⟩
    exact verifyStark_assembled hsi hp hd

end

section
variable (P : SecurityProfile) (S : MLDSA)

def verifySth (sth : SignedTreeHead) : Except PyError Bool := do
  mldsaVerify P S sth.operatorVk (← ChallengeManager.payload sth) sth.signature

end

/-- A computation on the public inputs: no key, no signature and no signed head goes in. -/
inductive Recipe
  | publicBytes
  | literal (bytes : Bytes)
  | append (first second : Recipe)
  | hash (recipe : Recipe)

instance : Append Recipe := ⟨.append⟩

def Recipe.eval (publicBytes : Bytes) : Recipe → Bytes
  | .publicBytes => publicBytes
  | .literal bytes => bytes
  | .append first second => first.eval publicBytes++second.eval publicBytes
  | .hash recipe => H.run (recipe.eval publicBytes)

namespace Recipe

@[simp] theorem eval_append (first second : Recipe) (bytes : Bytes) :
    (first++second).eval H bytes=first.eval H bytes++second.eval H bytes := rfl

def tag (body : Recipe) (label : String) : Recipe :=
  .hash (.literal domainZkBridge++body++.literal (encodeText label))

end Recipe

open Recipe in
def Filler.recipe : Filler → Recipe
  | .legacy layers _ => literal layers++tag (publicBytes++literal layers) "stark-verify"
  | .chain numRounds rest _ =>
    let publicHash := tag publicBytes "stark-public"
    let preTranscript := literal (2::numRounds::rest)++publicHash
    let transcript := tag preTranscript "stark-transcript"
    preTranscript++transcript++tag (transcript++publicHash) "stark-verify"
  | .fri numRounds rest witnessHash friRoots _ _ _ =>
    let publicHash := tag publicBytes "stark-public"
    let body := literal (3::numRounds::rest)++publicHash++literal witnessHash ++
      literal friRoots
    body++tag body "stark-verify"

section
variable (P : SecurityProfile) (S : MLDSA) (binaries : VerifyBinaries)

def starkProof (inputs : ZKBridgePublicInputs) (bytes : Bytes) : ZKBridgeProof :=
  ⟨bytes,.stark,inputs,PyValue.hex (H.run bytes)⟩

def Signed (inputs : ZKBridgePublicInputs) : Prop :=
  ∃ sth, ZKBridgePublicInputs.fromSth H sth=inputs ∧ verifySth P S sth=.ok true

/-- One recipe whose result is accepted for whatever public inputs it is given. -/
def Forges (recipe : Recipe) : Prop :=
  ∀ inputs publicBytes, inputs.toBytes=.ok publicBytes →
    verify H binaries (starkProof H inputs (recipe.eval H publicBytes))=.ok true

def FromPublicInputs (proof : ZKBridgeProof) : Prop :=
  ∃ recipe publicBytes, Forges H binaries recipe ∧
    proof.publicInputs.toBytes=.ok publicBytes ∧ proof.proofBytes=recipe.eval H publicBytes

/-- What an accepted STARK proof should say. -/
def Sound : Prop :=
  ∀ proof, proof.backend=.stark → verify H binaries proof=.ok true →
    Signed H P S proof.publicInputs ∧ ¬FromPublicInputs H binaries proof

end

section
variable {H} {P : SecurityProfile} {S : MLDSA} {binaries : VerifyBinaries}

theorem verify_stark {proof : ZKBridgeProof} (hb : proof.backend=.stark) :
    verify H binaries proof=verifyStark H proof := by rw [verify,hb]

theorem eval_recipe (filler : Filler) (publicBytes : Bytes) :
    filler.recipe.eval H publicBytes=filler.assemble H publicBytes := by
  cases filler <;>
    simp [Filler.recipe,Filler.assemble,Recipe.tag,Recipe.eval,publicHash,legacyTag,
      transcriptHash,chainTag,friTag]

theorem forges_recipe (hs : H.size=32) (filler : Filler) : Forges H binaries filler.recipe := by
  intro inputs pub hp
  exact verifyStark_assembled hs hp (eval_recipe filler pub)

theorem fromPublicInputs_of_verify {proof : ZKBridgeProof} (hb : proof.backend=.stark)
    (h : verify H binaries proof=.ok true) : FromPublicInputs H binaries proof := by
  rw [verify_stark hb] at h
  obtain ⟨hs,pub,hp,filler,hd⟩ := verifyStark_iff.mp h
  exact ⟨filler.recipe,pub,forges_recipe hs filler,hp,hd.trans (eval_recipe filler pub).symm⟩

def zeroFiller (numRounds : UInt8) : Filler :=
  .fri numRounds (List.replicate 6 0) (List.replicate 32 0)
    (List.replicate (numRounds.toNat*32) 0) (by simp) (by simp) (by simp)

def zeroInputs : ZKBridgePublicInputs := ⟨[],[],0,0⟩

theorem toBytes_zeroInputs : ∃ publicBytes, zeroInputs.toBytes=.ok publicBytes := ⟨_,rfl⟩

/-- With a hash of another length no STARK proof is accepted. -/
theorem stark_sound_iff : Sound H P S binaries ↔ H.size≠32 := by
  constructor
  · intro hs hsi
    obtain ⟨publicBytes,hp⟩ := toBytes_zeroInputs
    have hf : Forges H binaries (zeroFiller 0).recipe := forges_recipe hsi (zeroFiller 0)
    have ha := hf zeroInputs publicBytes hp
    exact (hs _ rfl ha).2 (fromPublicInputs_of_verify rfl ha)
  · intro hsi proof hb ha
    rw [verify_stark hb] at ha
    exact absurd (verifyStark_iff.mp ha).1 hsi

def rejectScheme : MLDSA where
  sign _ _ message := message
  verify _ _ _ := false

def noBinaries : VerifyBinaries := ⟨fun _ => false,fun _ => false⟩

theorem not_signed_rejectScheme (inputs : ZKBridgePublicInputs) :
    ¬Signed H P rejectScheme inputs := by
  rintro ⟨sth,-,hv⟩
  obtain ⟨m,-,hv⟩ := bind_ok hv
  rw [mldsaVerify] at hv
  split_ifs at hv <;> cases hv

def unsignedInputs : ZKBridgePublicInputs :=
  ⟨List.replicate 32 1,List.replicate 32 2,5,7⟩

def unsignedBytes : Bytes :=
  domainZkBridge++List.replicate 32 1++List.replicate 32 2++PyValue.toBigEndian 8 5 ++
    PyValue.toBigEndian 8 7

def forgedProof : ZKBridgeProof :=
  starkProof cutHash unsignedInputs ((zeroFiller 4).assemble cutHash unsignedBytes)

theorem verify_forgedProof : verify cutHash noBinaries forgedProof=.ok true := by
  have hp : unsignedInputs.toBytes=.ok unsignedBytes := rfl
  have hd : forgedProof.proofBytes=(zeroFiller 4).assemble cutHash unsignedBytes := rfl
  exact (verify_stark rfl).trans (verifyStark_assembled rfl hp hd)

theorem forgedProof_accepted_unsigned :
    forgedProof.backend=.stark ∧ verify cutHash noBinaries forgedProof=.ok true ∧
    FromPublicInputs cutHash noBinaries forgedProof ∧
    ¬Signed cutHash ChallengeManager.headProfile rejectScheme forgedProof.publicInputs :=
  ⟨rfl,verify_forgedProof,fromPublicInputs_of_verify rfl verify_forgedProof,
    not_signed_rejectScheme _⟩

end

section
variable {T : Type}

def Active (d : Windows T) (entityId : String) : Prop :=
  ∃ record, d.get? entityId=some record ∧
    (record.status=.open ∨ record.status=.challenged)

def resolve (binaries : VerifyBinaries) (now : T) (entityId : String) (proof : ZKBridgeProof) :
    Method (Windows T) (ChallengeManager.ChallengeRecord T) :=
  ChallengeManager.resolveWithProof now entityId (verify H binaries proof)

def Finalizes (binaries : VerifyBinaries) (d : Windows T) (now : T) (entityId : String)
    (proof : ZKBridgeProof) : Prop :=
  ∃ record, ((resolve H binaries now entityId proof).exec d).1=.ok record ∧
    ((resolve H binaries now entityId proof).exec d).2.get? entityId=some record ∧
    record.status=.finalized

variable {H} {binaries : VerifyBinaries} {d : Windows T} {now : T} {entityId : String}
  {proof : ZKBridgeProof}

theorem resolve_of_active {record : ChallengeManager.ChallengeRecord T}
    (hr : d.get? entityId=some record) (ha : record.status=.open ∨ record.status=.challenged)
    (hac : verify H binaries proof=.ok true) : let final := {record with
      status := .finalized
      resolvedAt := now
      resolution := "zk_proof" }
    (resolve H binaries now entityId proof).exec d=(.ok final,d.set entityId final) := by
  rw [resolve,hac,ChallengeManager.resolveWithProof,exec_bind,exec_call]
  dsimp only
  rw [if_neg (by decide),exec_bind,exec_get]
  dsimp only
  rw [hr]
  dsimp only
  rw [if_neg (not_not.mpr ha)]
  rfl

theorem finalizes_iff : Finalizes H binaries d now entityId proof ↔
    Active d entityId ∧ verify H binaries proof=.ok true := by
  constructor
  · rintro ⟨final,hr,-,-⟩
    obtain ⟨accepted,ha,h⟩ :=
      exec_call_bind_ok (exec_eq_ok hr)
    cases accepted with
    | false => simp at h
    | true =>
      refine ⟨?_,ha⟩
      rw [if_neg (by decide),exec_bind,exec_get] at h
      dsimp only at h
      split at h
      next => simp at h
      next record hre =>
        split_ifs at h with hac
        · exact ⟨record,hre,hac⟩
        · simp at h
  · rintro ⟨⟨record,hre,hac⟩,ha⟩
    rw [Finalizes,resolve_of_active hre hac ha]
    exact ⟨_,rfl,by rw [Dict.get?_set_self],rfl⟩

theorem resolve_active {other : String} (ho : entityId≠other) :
    Active ((resolve H binaries now entityId proof).exec d).2 other ↔ Active d other := by
  rcases (ChallengeManager.resolveWithProof_exec (verify H binaries proof)).writes with
    hsa | ⟨record,hs,hw⟩
  · rw [resolve,hsa]
  · rw [Active,Active,resolve,hw other,if_neg ho]

/-- The digest of a window plays no part, and a proof that closed one window closes the next. -/
theorem resolve_ignores_anchor_digest (binaries : VerifyBinaries) (d : Windows T) (now now' : T)
    (entityId other : String) (proof : ZKBridgeProof) : (Finalizes H binaries d now entityId proof ↔
      Active d entityId ∧ verify H binaries proof=.ok true) ∧
    (entityId≠other → Finalizes H binaries d now entityId proof →
      (Finalizes H binaries ((resolve H binaries now entityId proof).exec d).2 now' other proof ↔
        Active d other)) := by
  refine ⟨finalizes_iff,fun ho hf => ?_⟩
  rw [finalizes_iff,resolve_active ho]
  exact and_iff_left (finalizes_iff.mp hf).2

def twoWindows : Windows ℕ :=
  (ChallengeManager.machine ChallengeManager.headProfile MerkleLog.plainScheme cutHash
    100).state [.openChallengeWindow 1 "a" (List.replicate 32 1),
      .openChallengeWindow 1 "b" (List.replicate 32 2)]

theorem twoWindows_digests : (twoWindows.get? "a").map (fun r => (r.anchorDigest,r.status)) =
      some (List.replicate 32 1,.open) ∧
    (twoWindows.get? "b").map (fun r => (r.anchorDigest,r.status)) =
      some (List.replicate 32 2,.open) := by decide +kernel

theorem active_of_open {digest : Bytes}
    (h : (d.get? entityId).map (fun r => (r.anchorDigest,r.status))=some (digest,.open)) :
    Active d entityId := by
  obtain ⟨record,hr,hf⟩ := Option.map_eq_some_iff.mp h
  exact ⟨record,hr,.inl (Prod.mk.inj hf).2⟩

theorem finalizes_first : Finalizes cutHash noBinaries twoWindows 2 "a" forgedProof :=
  finalizes_iff.mpr ⟨active_of_open twoWindows_digests.1,verify_forgedProof⟩

theorem twoWindows_second_closed : Finalizes cutHash noBinaries
      ((resolve cutHash noBinaries 2 "a" forgedProof).exec twoWindows).2 3 "b"
      forgedProof ↔ Active twoWindows "b" :=
  (resolve_ignores_anchor_digest noBinaries twoWindows 2 3 "a" "b" forgedProof).2 (by decide)
    finalizes_first

theorem forgedProof_finalizes_both :
    (twoWindows.get? "a").map (·.anchorDigest)≠(twoWindows.get? "b").map (·.anchorDigest) ∧
    Finalizes cutHash noBinaries twoWindows 2 "a" forgedProof ∧
    Finalizes cutHash noBinaries
      ((resolve cutHash noBinaries 2 "a" forgedProof).exec twoWindows).2 3 "b"
      forgedProof := by
  refine ⟨by decide +kernel,finalizes_first,finalizes_iff.mpr ⟨?_,verify_forgedProof⟩⟩
  exact (resolve_active (by decide)).mpr (active_of_open twoWindows_digests.2)

end

end LatticeTransfer.ZKBridge
