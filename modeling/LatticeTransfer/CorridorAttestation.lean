import LatticeTransfer.CommitmentLog
import Mathlib.Algebra.Module.Hom
import Mathlib.Data.ZMod.Basic

/-!
# Corridor attestations

`attest` and `verify_attestation` for a corridor of nine super-nodes, over the `corridor_*`
functions of the BLS shim. What `blst` and `py_ecc` provide is a parameter: the points a
byte string decodes to, their sum, the compressed form of a signature and the verification
of one. A witness that is listed again is skipped, and the keys of an attestation are
added in the order of its signers, not in the order of the list.
-/

namespace LatticeTransfer.Corridors
open MerkleTree CommitmentLog List PyValue

abbrev CorridorId := ℤ
abbrev ChainId := ℕ
abbrev AuthorityId := ℤ

def quorumThreshold : ℕ := 7
def quorumSize : ℕ := 9

def domainTagAttest : Bytes := encodeText "SUWAPPU-LTP-ATTEST-V1"

def corridorDst : Bytes := encodeText "BLS_SIG_BLS12381G2_XMD:SHA-256_SSWU_RO_NUL_"

structure Bls (G₁ G₂ : Type) [AddCommMonoid G₁] [AddCommMonoid G₂] where
  toG1 : Bytes → Except PyError G₁
  toG2 : Bytes → Except PyError G₂
  compress : G₂ → Bytes
  coreVerify : G₁ → Bytes → Bytes → G₂ → Bool
  length_compress : ∀ q, (compress q).length=96
  toG2_compress : ∀ q, toG2 (compress q)=.ok q

namespace Bls
variable {G₁ G₂ : Type} [AddCommMonoid G₁] [AddCommMonoid G₂] (B : Bls G₁ G₂)

def corridorVerify (pk digest sig : Bytes) : Bool :=
  if pk.length≠48 ∨ sig.length≠96 then false
  else
    match B.toG1 pk, B.toG2 sig with
    | .ok p, .ok q => B.coreVerify p digest corridorDst q
    | _, _ => false

def corridorAggregateSignatures (sigs : List Bytes) : Except PyError Bytes :=
  if sigs=[] then .error (.valueError "cannot aggregate empty signature list")
  else
    match sigs.zipIdx.find? fun s => s.1.length≠96 with
    | some (s,i) =>
      let size := s.length
      .error (.valueError s!"signature {i} has invalid size {size}")
    | none => do
      let points ← sigs.mapM B.toG2
      return B.compress points.sum

def corridorAggregateVerify (pks : List Bytes) (digest aggSig : Bytes) : Bool :=
  if pks=[] ∨ aggSig.length≠96 then false
  else if pks.any (fun pk => pk.length≠48) then false
  else
    match B.toG2 aggSig, pks.mapM B.toG1 with
    | .ok q, .ok points => B.coreVerify points.sum digest corridorDst q
    | _, _ => false

end Bls

structure SuperNode where
  authority : AuthorityId
  corridor : CorridorId
  blsPublicKey : Bytes
  pop : Bytes
deriving DecidableEq

structure Corridor where
  id : CorridorId
  members : List SuperNode
deriving DecidableEq

def Corridor.memberPubkey (corridor : Corridor) (authority : AuthorityId) : Option Bytes :=
  (corridor.members.find? fun m => m.authority=authority).map SuperNode.blsPublicKey

/-- `__post_init__` refuses a negative field and a root of another size. -/
@[ext]
structure AttestationPayload where
  sourceChain : ChainId
  targetChain : ChainId
  sourceHeight : ℕ
  stateRoot : Bytes
  timestampRound : ℕ
  length_stateRoot : stateRoot.length=32

instance : DecidableEq AttestationPayload := fun _ _ =>
  decidable_of_iff _ AttestationPayload.ext_iff.symm

structure WitnessSignature where
  witness : AuthorityId
  signature : Bytes
deriving DecidableEq

structure CorridorAttestation where
  payload : AttestationPayload
  aggregateSignature : Bytes
  signers : Finset AuthorityId
deriving DecidableEq

inductive LtpError
  | badCorridorSize (expected got : ℕ)
  | belowQuorum (held need : ℕ)
  | unknownWitness (witness : AuthorityId)
  | invalidSignature (witness : AuthorityId)
  | aggregateVerificationFailed
  /-- An exception of the host language. -/
  | raised (e : PyError)
deriving DecidableEq

def toBytes8 (n : ℕ) : Except PyError Bytes :=
  if n<256^8 then .ok (PyValue.toBigEndian 8 n) else .error .overflowError

def sha3256Domain (sha3 : CanonicalHash) (tag data : Bytes) : Bytes :=
  sha3.run (PyValue.toBigEndian 4 tag.length++tag++data)

def AttestationPayload.canonicalDigest (sha3 : CanonicalHash) (payload : AttestationPayload) :
    Except PyError Bytes := do
  let source ← toBytes8 payload.sourceChain
  let target ← toBytes8 payload.targetChain
  let height ← toBytes8 payload.sourceHeight
  let round ← toBytes8 payload.timestampRound
  return sha3256Domain sha3 domainTagAttest
    (source++target++height++payload.stateRoot++round)

def raising {α : Type} (x : Except PyError α) : Except LtpError α := x.mapError LtpError.raised

def requireCorridorSize (corridor : Corridor) : Except LtpError Unit :=
  if corridor.members.length≠quorumSize then
    .error (.badCorridorSize quorumSize corridor.members.length)
  else .ok ()

structure Collected where
  seen : List AuthorityId
  sigs : List Bytes
  pks : List Bytes

section
variable {G₁ G₂ : Type} [AddCommMonoid G₁] [AddCommMonoid G₂] (B : Bls G₁ G₂) (sha3 : CanonicalHash)

def collectSignature (corridor : Corridor) (digest : Bytes) (acc : Collected)
    (ws : WitnessSignature) : Except LtpError Collected :=
  if ws.witness ∈ acc.seen then .ok acc
  else
    match corridor.memberPubkey ws.witness with
    | none => .error (.unknownWitness ws.witness)
    | some pk =>
      if B.corridorVerify pk digest ws.signature=false then
        .error (.invalidSignature ws.witness)
      else .ok ⟨acc.seen++[ws.witness],acc.sigs++[ws.signature],acc.pks++[pk]⟩

/-- The end of `attest`: the quorum, the aggregate and its own check. -/
def aggregate (payload : AttestationPayload) (digest : Bytes) (acc : Collected) :
    Except LtpError CorridorAttestation :=
  if acc.seen.length<quorumThreshold then
    .error (.belowQuorum acc.seen.length quorumThreshold)
  else do
    let agg ← raising (B.corridorAggregateSignatures acc.sigs)
    if B.corridorAggregateVerify acc.pks digest agg=false then
      .error .aggregateVerificationFailed
    else
      .ok ⟨payload,agg,acc.seen.toFinset⟩

def attest (corridor : Corridor) (payload : AttestationPayload)
    (signatures : List WitnessSignature) : Except LtpError CorridorAttestation := do
  requireCorridorSize corridor
  let digest ← raising (payload.canonicalDigest sha3)
  let acc ← signatures.foldlM (collectSignature B corridor digest) ⟨[],[],[]⟩
  aggregate B payload digest acc

def signerKey (corridor : Corridor) (signer : AuthorityId) : Except LtpError Bytes :=
  match corridor.memberPubkey signer with
  | none => .error (.unknownWitness signer)
  | some pk => .ok pk

def verifyAttestation (corridor : Corridor) (attestation : CorridorAttestation) :
    Except LtpError Unit := do
  requireCorridorSize corridor
  if attestation.signers.card<quorumThreshold then
    .error (.belowQuorum attestation.signers.card quorumThreshold)
  else do
    let pks ← (PyValue.sorted (· ≤ ·) attestation.signers).mapM (signerKey corridor)
    let digest ← raising (attestation.payload.canonicalDigest sha3)
    if B.corridorAggregateVerify pks digest attestation.aggregateSignature=false then
      .error .aggregateVerificationFailed
    else
      .ok ()

end

namespace Bls
variable {G₁ G₂ : Type} [AddCommMonoid G₁] [AddCommMonoid G₂] (B : Bls G₁ G₂)

variable {digest : Bytes}

theorem corridorVerify_iff {pk sig : Bytes} :
    B.corridorVerify pk digest sig=true ↔ pk.length=48 ∧ sig.length=96 ∧
      ∃ p q, B.toG1 pk=.ok p ∧ B.toG2 sig=.ok q ∧ B.coreVerify p digest corridorDst q=true := by
  rw [corridorVerify]
  by_cases hs : pk.length≠48 ∨ sig.length≠96
  · rw [if_pos hs]
    simp only [Bool.false_eq_true,false_iff,not_and]
    intro hpk hsi
    exact absurd ⟨hpk,hsi⟩ (not_and_or.mpr hs)
  · push Not at hs
    cases hp : B.toG1 pk <;> cases hq : B.toG2 sig <;> simp [hs]

variable {agg : Bytes}

theorem corridorAggregateSignatures_ok_iff {sigs : List Bytes} :
    B.corridorAggregateSignatures sigs=.ok agg ↔ sigs≠[] ∧ (∀ s ∈ sigs, s.length=96) ∧
      ∃ points, sigs.mapM B.toG2=.ok points ∧ agg=B.compress points.sum := by
  rw [corridorAggregateSignatures]
  by_cases he : sigs=[]
  · simp [he]
  rw [if_neg he]
  split
  next s i hf =>
    have hsi : s.length≠96 := by simpa using find?_some hf
    have hm : s ∈ sigs := (mem_zipIdx (mem_of_find?_eq_some hf)).2.2 ▸
      getElem_mem _
    simp only [reduceCtorEq,false_iff,not_and]
    intro _ ha
    exact absurd (ha s hm) hsi
  next hf =>
    have ha : ∀ s ∈ sigs, s.length=96 := by
      intro s hs
      obtain ⟨i,hi,rfl⟩ := getElem_of_mem hs
      have hn := find?_eq_none.mp hf (sigs[i],i)
        (by simp [mem_zipIdx_iff_getElem?])
      simpa using hn
    cases hp : sigs.mapM B.toG2 with
    | error e => simp [bind,Except.bind]
    | ok points =>
      constructor
      · intro h
        exact ⟨he,ha,points,rfl,(Except.ok.inj h).symm⟩
      · rintro ⟨-,-,points',hp',rfl⟩
        rw [Except.ok.inj hp']
        rfl

theorem corridorAggregateVerify_iff {pks : List Bytes} :
    B.corridorAggregateVerify pks digest agg=true ↔ pks≠[] ∧ agg.length=96 ∧
      (∀ pk ∈ pks, pk.length=48) ∧ ∃ q points, B.toG2 agg=.ok q ∧
        pks.mapM B.toG1=.ok points ∧ B.coreVerify points.sum digest corridorDst q=true := by
  rw [corridorAggregateVerify]
  by_cases he : pks=[] ∨ agg.length≠96
  · rw [if_pos he]
    simp only [Bool.false_eq_true,false_iff,not_and]
    intro hne ha
    exact absurd ⟨hne,ha⟩ (not_and_or.mpr (by simpa using he))
  by_cases hs : pks.any (fun pk => pk.length≠48)=true
  · rw [if_neg he,if_pos hs]
    simp only [Bool.false_eq_true,false_iff,not_and]
    intro _ _ hal
    obtain ⟨pk,hpk,hl⟩ := any_eq_true.mp hs
    exact absurd (hal pk hpk) (by simpa using hl)
  · rw [if_neg hs]
    push Not at he
    have hal : ∀ pk ∈ pks, pk.length=48 := by simpa using hs
    cases hq : B.toG2 agg with
    | error e => simp
    | ok q =>
      cases hp : pks.mapM B.toG1 with
      | error e => simp
      | ok points => simpa [he] using fun _ => hal

theorem corridorAggregateVerify_perm {pks pks' : List Bytes} (hpe : pks.Perm pks')
    (h : B.corridorAggregateVerify pks digest agg=true) :
    B.corridorAggregateVerify pks' digest agg=true := by
  obtain ⟨hne,ha,hs,q,points,hq,hp,hv⟩ := B.corridorAggregateVerify_iff.mp h
  obtain ⟨points',hp',hsu⟩ := mapM_perm_ok hpe hp
  refine B.corridorAggregateVerify_iff.mpr ⟨?_,ha,?_,q,points',hq,hp',?_⟩
  · rintro rfl
    exact hne hpe.eq_nil
  · intro pk hpk
    exact hs pk (hpe.symm.subset hpk)
  · rw [← hsu.sum_eq]
    exact hv

theorem corridorAggregateSignatures_perm {sigs sigs' : List Bytes} (hpe : sigs.Perm sigs')
    (h : B.corridorAggregateSignatures sigs=.ok agg) :
    B.corridorAggregateSignatures sigs'=.ok agg := by
  obtain ⟨hne,hsi,points,hp,rfl⟩ := B.corridorAggregateSignatures_ok_iff.mp h
  obtain ⟨points',hp',hsu⟩ := mapM_perm_ok hpe hp
  refine B.corridorAggregateSignatures_ok_iff.mpr ⟨?_,?_,points',hp',?_⟩
  · rintro rfl
    exact hne hpe.eq_nil
  · intro s hs
    exact hsi s (hpe.symm.subset hs)
  · rw [hsu.sum_eq]

end Bls

section

def firstSignatures : List AuthorityId → List WitnessSignature → List WitnessSignature
  | _, [] => []
  | seen, ws::rest =>
    if ws.witness ∈ seen then firstSignatures seen rest
    else ws::firstSignatures (seen++[ws.witness]) rest

def IsFirst (signatures : List WitnessSignature) (ws : WitnessSignature) : Prop :=
  ∃ before after, signatures=before++ws::after ∧
    ws.witness ∉ before.map WitnessSignature.witness

variable {seen : List AuthorityId} {signatures : List WitnessSignature}

theorem mem_firstSignatures_iff {ws : WitnessSignature} :
    ws ∈ firstSignatures seen signatures ↔ ws.witness ∉ seen ∧ IsFirst signatures ws := by
  induction signatures generalizing seen with
  | nil => simp [firstSignatures,IsFirst]
  | cons head rest ih =>
    have hc : IsFirst (head::rest) ws ↔
        ws=head ∨ ws.witness≠head.witness ∧ IsFirst rest ws := by
      constructor
      · rintro ⟨_|⟨first,before⟩,after,hs,hn⟩
        · exact .inl (List.cons.inj hs).1.symm
        · obtain ⟨rfl,hr⟩ := List.cons.inj hs
          simp only [map_cons,mem_cons,not_or] at hn
          exact .inr ⟨hn.1,before,after,hr,hn.2⟩
      · rintro (rfl|⟨hne,before,after,rfl,hn⟩)
        · exact ⟨[],rest,rfl,by simp⟩
        · exact ⟨head::before,after,rfl,by simp [hne,hn]⟩
    rw [firstSignatures,hc]
    split_ifs with hse
    · rw [ih]
      constructor
      · rintro ⟨hnew,hf⟩
        exact ⟨hnew,.inr ⟨fun heq => hnew (heq ▸ hse),hf⟩⟩
      · rintro ⟨hnew,rfl|⟨-,hf⟩⟩
        · exact absurd hse hnew
        · exact ⟨hnew,hf⟩
    · rw [mem_cons,ih,mem_append,mem_singleton,not_or]
      constructor
      · rintro (rfl|⟨⟨hnew,hne⟩,hf⟩)
        · exact ⟨hse,.inl rfl⟩
        · exact ⟨hnew,.inr ⟨hne,hf⟩⟩
      · rintro ⟨hnew,rfl|⟨hne,hf⟩⟩
        · exact .inl rfl
        · exact .inr ⟨⟨hnew,hne⟩,hf⟩

theorem nodup_firstSignatures (seen : List AuthorityId) (signatures : List WitnessSignature) :
    ((firstSignatures seen signatures).map WitnessSignature.witness).Nodup := by
  induction signatures generalizing seen with
  | nil => simp [firstSignatures]
  | cons head rest ih =>
    rw [firstSignatures]
    split_ifs with hs
    · exact ih seen
    · rw [map_cons,nodup_cons]
      refine ⟨fun hm => ?_,ih _⟩
      obtain ⟨ws,hws,heq⟩ := mem_map.mp hm
      apply (mem_firstSignatures_iff.mp hws).1
      simp [heq]

theorem mem_witnesses_firstSignatures {w : AuthorityId} :
    w ∈ (firstSignatures seen signatures).map WitnessSignature.witness ↔
      w ∈ signatures.map WitnessSignature.witness ∧ w ∉ seen := by
  induction signatures generalizing seen with
  | nil => simp [firstSignatures]
  | cons head rest ih =>
    rw [firstSignatures]
    split_ifs with hs
    · rw [ih]
      grind
    · grind

theorem firstSignatures_of_nodup (hn : (signatures.map WitnessSignature.witness).Nodup)
    (hs : ∀ ws ∈ signatures, ws.witness ∉ seen) : firstSignatures seen signatures=signatures := by
  induction signatures generalizing seen with
  | nil => rfl
  | cons head rest ih =>
    rw [map_cons,nodup_cons] at hn
    rw [forall_mem_cons] at hs
    rw [firstSignatures,if_neg hs.1,ih hn.2]
    intro ws hws hm
    rcases mem_append.mp hm with hm|hm
    · exact hs.2 ws hws hm
    · apply hn.1
      rw [← mem_singleton.mp hm]
      exact mem_map_of_mem hws

end

section
variable {G₁ G₂ : Type} [AddCommMonoid G₁] [AddCommMonoid G₂] (B : Bls G₁ G₂) (sha3 : CanonicalHash)

def Verifies (corridor : Corridor) (digest : Bytes) (ws : WitnessSignature) : Prop :=
  ∃ pk, corridor.memberPubkey ws.witness=some pk ∧
    B.corridorVerify pk digest ws.signature=true

def keysOf (corridor : Corridor) (witnesses : List AuthorityId) : List Bytes :=
  witnesses.filterMap corridor.memberPubkey

@[simp] theorem keysOf_nil (corridor : Corridor) : keysOf corridor []=[] := rfl

variable {c : Corridor}

theorem keysOf_cons_of_some {w : AuthorityId} {pk : Bytes} (h : c.memberPubkey w=some pk)
    (rest : List AuthorityId) : keysOf c (w::rest)=pk::keysOf c rest := by
  rw [keysOf,filterMap_cons,h]
  rfl

def Collected.add (corridor : Corridor) (acc : Collected) (more : List WitnessSignature) :
    Collected :=
  ⟨acc.seen++more.map WitnessSignature.witness,acc.sigs++more.map WitnessSignature.signature,
    acc.pks++keysOf corridor (more.map WitnessSignature.witness)⟩

variable {digest : Bytes} {acc : Collected}

section
variable {ws : WitnessSignature} (hs : ws.witness ∉ acc.seen)
include hs

theorem collectSignature_of_verifies (h : Verifies B c digest ws) :
    collectSignature B c digest acc ws=.ok (acc.add c [ws]) := by
  obtain ⟨pk,hk,hv⟩ := h
  simp [collectSignature,Collected.add,keysOf_cons_of_some,hs,hk,hv]

theorem collectSignature_raises (h : ¬Verifies B c digest ws) :
    ∃ e, collectSignature B c digest acc ws=.error e := by
  rw [collectSignature,if_neg hs]
  cases hk : c.memberPubkey ws.witness with
  | none => exact ⟨_,rfl⟩
  | some pk =>
    cases hv : B.corridorVerify pk digest ws.signature with
    | false => exact ⟨_,if_pos hv⟩
    | true => exact absurd ⟨pk,hk,hv⟩ h

end

theorem Collected.add_cons (corridor : Corridor) (acc : Collected) (ws : WitnessSignature)
    (more : List WitnessSignature) :
    acc.add corridor (ws::more)=(acc.add corridor [ws]).add corridor more := by
  simp only [add,keysOf,map_cons,map_nil,append_assoc,singleton_append]
  rw [← filterMap_append,singleton_append]

variable {sigs : List WitnessSignature}

theorem collect_ok_iff {acc' : Collected} : sigs.foldlM (collectSignature B c digest) acc=.ok acc' ↔
      (∀ ws ∈ firstSignatures acc.seen sigs, Verifies B c digest ws) ∧
        acc'=acc.add c (firstSignatures acc.seen sigs) := by
  induction sigs generalizing acc with
  | nil => simp [firstSignatures,Collected.add,pure,Except.pure,eq_comm]
  | cons head rest ih =>
    rw [foldlM_cons,firstSignatures]
    by_cases hs : head.witness ∈ acc.seen
    · rw [collectSignature,if_pos hs,if_pos hs]
      exact ih
    rw [if_neg hs]
    by_cases hv : Verifies B c digest head
    · have hst : (acc.add c [head]).seen=acc.seen++[head.witness] := rfl
      rw [collectSignature_of_verifies B hs hv,acc.add_cons c head (firstSignatures _ rest),← hst]
      exact ih.trans (by simp [hv])
    · obtain ⟨e,he⟩ := collectSignature_raises B hs hv
      simp [he,hv,bind,Except.bind]

theorem requireCorridorSize_of_size (h : c.members.length=quorumSize) :
    requireCorridorSize c=.ok () := by rw [requireCorridorSize,if_neg (not_not.mpr h)]

variable {p : AttestationPayload} {a : CorridorAttestation}

theorem aggregate_ok_iff : aggregate B p digest acc=.ok a ↔ quorumThreshold≤acc.seen.length ∧
      ∃ agg, B.corridorAggregateSignatures acc.sigs=.ok agg ∧
        B.corridorAggregateVerify acc.pks digest agg=true ∧ a=⟨p,agg,acc.seen.toFinset⟩ := by
  rw [aggregate]
  by_cases hq : acc.seen.length<quorumThreshold
  · simp [hq]
  rw [if_neg hq]
  cases ha : B.corridorAggregateSignatures acc.sigs with
  | error e => simp [raising,Except.mapError,bind,Except.bind]
  | ok agg =>
    cases hv : B.corridorAggregateVerify acc.pks digest agg with
    | false => simp [raising,Except.mapError,bind,Except.bind,hv]
    | true =>
      simp only [raising,Except.mapError,bind,Except.bind,hv,Bool.true_eq_false,if_false]
      constructor
      · intro h
        exact ⟨not_lt.mp hq,agg,rfl,hv,(Except.ok.inj h).symm⟩
      · rintro ⟨-,agg',ha',-,rfl⟩
        rw [Except.ok.inj ha']

theorem attest_ok_iff (hs : c.members.length=quorumSize) (hd : p.canonicalDigest sha3=.ok digest) :
    attest B sha3 c p sigs=.ok a ↔ (∀ ws ∈ firstSignatures [] sigs, Verifies B c digest ws) ∧
        aggregate B p digest (Collected.add c ⟨[],[],[]⟩ (firstSignatures [] sigs))=.ok a := by
  have ha : attest B sha3 c p sigs =
      sigs.foldlM (collectSignature B c digest) ⟨[],[],[]⟩ >>=
        aggregate B p digest := by
    rw [attest,requireCorridorSize_of_size hs,hd]
    rfl
  rw [ha]
  constructor
  · intro h
    obtain ⟨acc,hac,h⟩ := bind_ok h
    obtain ⟨hv,rfl⟩ := (collect_ok_iff B).mp hac
    exact ⟨hv,h⟩
  · rintro ⟨hv,h⟩
    have hc : sigs.foldlM (collectSignature B c digest) ⟨[],[],[]⟩=.ok _ :=
      (collect_ok_iff B).mpr ⟨hv,rfl⟩
    rw [hc]
    exact h

/-- An aggregate of valid signatures of different members verifies. -/
def AggregatesVerify (corridor : Corridor) (digest : Bytes) : Prop :=
  ∀ (signed : List WitnessSignature) (agg : Bytes),
    (signed.map WitnessSignature.witness).Nodup →
    (∀ ws ∈ signed, Verifies B corridor digest ws) →
    B.corridorAggregateSignatures (signed.map WitnessSignature.signature)=.ok agg →
    B.corridorAggregateVerify (keysOf corridor (signed.map WitnessSignature.witness)) digest agg =
      true

theorem exists_aggregate {signed : List WitnessSignature} (hne : signed≠[])
    (h : ∀ ws ∈ signed, Verifies B c digest ws) :
    ∃ agg, B.corridorAggregateSignatures (signed.map WitnessSignature.signature)=.ok agg := by
  have hd : ∀ s ∈ signed.map WitnessSignature.signature,
      s.length=96 ∧ ∃ q, B.toG2 s=.ok q := by
    intro s hs
    obtain ⟨ws,hws,rfl⟩ := mem_map.mp hs
    obtain ⟨pk,-,hv⟩ := h ws hws
    obtain ⟨-,hl,p,q,-,hq,-⟩ := B.corridorVerify_iff.mp hv
    exact ⟨hl,q,hq⟩
  obtain ⟨points,hp⟩ := exists_mapM_ok fun s hs => (hd s hs).2
  refine ⟨B.compress points.sum,B.corridorAggregateSignatures_ok_iff.mpr ?_⟩
  exact ⟨by simpa using hne,fun s hs => (hd s hs).1,points,hp,rfl⟩

theorem attest_ok_iff_of_aggregates (hs : c.members.length=quorumSize)
    (hd : p.canonicalDigest sha3=.ok digest) (ha : AggregatesVerify B c digest) :
    attest B sha3 c p sigs=.ok a ↔ (∀ ws ∈ firstSignatures [] sigs, Verifies B c digest ws) ∧
      quorumThreshold≤(firstSignatures [] sigs).length ∧ ∃ agg, B.corridorAggregateSignatures
          ((firstSignatures [] sigs).map WitnessSignature.signature)=.ok agg ∧ a=⟨p,agg,
          ((firstSignatures [] sigs).map WitnessSignature.witness).toFinset⟩ := by
  rw [attest_ok_iff B sha3 hs hd,aggregate_ok_iff]
  simp only [Collected.add,nil_append,length_map]
  constructor
  · rintro ⟨hv,hq,agg,hag,-,rfl⟩
    exact ⟨hv,hq,agg,hag,rfl⟩
  · rintro ⟨hv,hq,agg,hag,rfl⟩
    have hve := ha _ agg (nodup_firstSignatures [] sigs) hv hag
    exact ⟨hv,hq,agg,hag,hve,rfl⟩

theorem card_witnesses (signatures : List WitnessSignature) :
    (signatures.map WitnessSignature.witness).toFinset.card =
      (firstSignatures [] signatures).length := by
  have hs : (signatures.map WitnessSignature.witness).toFinset =
      ((firstSignatures [] signatures).map WitnessSignature.witness).toFinset := by
    ext w
    rw [mem_toFinset,mem_toFinset,mem_witnesses_firstSignatures]
    simp
  rw [hs,toFinset_card_of_nodup (nodup_firstSignatures [] signatures),length_map]

theorem attest_succeeds_iff (hs : c.members.length=quorumSize)
    (hd : p.canonicalDigest sha3=.ok digest)
    (ha : AggregatesVerify B c digest) (signatures : List WitnessSignature) :
    (∃ a, attest B sha3 c p signatures=.ok a) ↔
      (∀ ws, IsFirst signatures ws → Verifies B c digest ws) ∧
        quorumThreshold≤(signatures.map WitnessSignature.witness).toFinset.card := by
  have hf : (∀ ws ∈ firstSignatures [] signatures, Verifies B c digest ws) ↔
      ∀ ws, IsFirst signatures ws → Verifies B c digest ws := by simp [mem_firstSignatures_iff]
  rw [← hf,card_witnesses]
  constructor
  · rintro ⟨a,h⟩
    obtain ⟨hv,hq,-⟩ :=
      (attest_ok_iff_of_aggregates B sha3 hs hd ha).mp h
    exact ⟨hv,hq⟩
  · rintro ⟨hv,hq⟩
    have hne : firstSignatures [] signatures≠[] := by
      intro hn
      rw [hn] at hq
      exact absurd hq (by decide)
    obtain ⟨agg,hag⟩ := exists_aggregate B hne hv
    exact ⟨_,(attest_ok_iff_of_aggregates B sha3 hs hd ha).mpr
      ⟨hv,hq,agg,hag,rfl⟩⟩

theorem signerKey_mapM {witnesses : List AuthorityId}
    (h : ∀ w ∈ witnesses, ∃ pk, c.memberPubkey w=some pk) :
    witnesses.mapM (signerKey c)=.ok (keysOf c witnesses) := by
  induction witnesses with
  | nil => rfl
  | cons w rest ih =>
    rw [forall_mem_cons] at h
    obtain ⟨⟨pk,hpk⟩,hr⟩ := h
    rw [mapM_cons,signerKey,hpk,ih hr,keysOf_cons_of_some hpk]
    rfl

theorem verifyAttestation_of_attest (hsi : c.members.length=quorumSize)
    (hd : p.canonicalDigest sha3=.ok digest) (h : attest B sha3 c p sigs=.ok a) :
    verifyAttestation B sha3 c a=.ok () := by
  obtain ⟨hv,ha⟩ := (attest_ok_iff B sha3 hsi hd).mp h
  obtain ⟨hq,agg,-,hve,rfl⟩ := (aggregate_ok_iff B).mp ha
  simp only [Collected.add,nil_append] at hq hve ⊢
  have hn := nodup_firstSignatures [] sigs
  -- the keys of the sorted signers are those of the list in another order
  have hs := perm_sorted_toFinset (· ≤ ·) hn
  have hm : ∀ w ∈ sorted (· ≤ ·)
      ((firstSignatures [] sigs).map WitnessSignature.witness).toFinset,
      ∃ pk, c.memberPubkey w=some pk := by
    intro w hw
    obtain ⟨ws,hws,rfl⟩ := mem_map.mp (hs.subset hw)
    obtain ⟨pk,hpk,-⟩ := hv ws hws
    exact ⟨pk,hpk⟩
  have hk := B.corridorAggregateVerify_perm (hs.symm.filterMap c.memberPubkey)
    hve
  simp only [verifyAttestation,requireCorridorSize_of_size hsi,bind,Except.bind,
    toFinset_card_of_nodup hn,not_lt.mpr hq,if_false,signerKey_mapM hm,
    hd,raising,Except.mapError]
  rw [if_neg (by simpa [keysOf] using hk)]

theorem attest_of_perm (hs : c.members.length=quorumSize)
    (hd : p.canonicalDigest sha3=.ok digest) {signatures' : List WitnessSignature}
    (hp : sigs.Perm signatures') (hn : (sigs.map WitnessSignature.witness).Nodup)
    (h : attest B sha3 c p sigs=.ok a) : attest B sha3 c p signatures'=.ok a := by
  have hw := hp.map WitnessSignature.witness
  have hn' := hw.nodup hn
  rw [attest_ok_iff B sha3 hs hd,aggregate_ok_iff,firstSignatures_of_nodup hn (by simp)] at h
  rw [attest_ok_iff B sha3 hs hd,aggregate_ok_iff,firstSignatures_of_nodup hn' (by simp)]
  simp only [Collected.add,nil_append,length_map] at h ⊢
  obtain ⟨hv,hq,agg,ha,hve,rfl⟩ := h
  refine ⟨fun ws hws => hv ws (hp.symm.subset hws),hp.length_eq ▸ hq,agg,
    ?_,?_,?_⟩
  · exact B.corridorAggregateSignatures_perm (hp.map WitnessSignature.signature) ha
  · exact B.corridorAggregateVerify_perm (hw.filterMap c.memberPubkey) hve
  · rw [toFinset_eq_of_perm _ _ hw]

theorem canonicalDigest_of_fits (hs : p.sourceChain<2^64)
    (ht : p.targetChain<2^64) (hh : p.sourceHeight<2^64) (hr : p.timestampRound<2^64) :
    ∃ digest, p.canonicalDigest sha3=.ok digest := by
  have hf : ∀ {n : ℕ}, n<2^64 → toBytes8 n=.ok (toBigEndian 8 n) :=
    fun h => if_pos h
  rw [AttestationPayload.canonicalDigest,hf hs,hf ht,hf hh,hf hr]
  exact ⟨_,rfl⟩

section
variable {G₃ : Type} [AddCommMonoid G₃] {e : G₁ →+ G₂ →+ G₃} {g : G₁} {H : Bytes → G₂}

theorem points_of_verifies {corridor : Corridor} {digest : Bytes}
    (hco : ∀ p q, B.coreVerify p digest corridorDst q=true ↔ p≠0 ∧ e g q=e p (H digest))
    {signed : List WitnessSignature} (h : ∀ ws ∈ signed, Verifies B corridor digest ws) :
    ∃ ps qs, (keysOf corridor (signed.map WitnessSignature.witness)).mapM B.toG1=.ok ps ∧
      (signed.map WitnessSignature.signature).mapM B.toG2=.ok qs ∧
      (∀ pk ∈ keysOf corridor (signed.map WitnessSignature.witness), pk.length=48) ∧
      (∀ p ∈ ps, p≠0) ∧ ps.length=signed.length ∧ e g qs.sum=e ps.sum (H digest) := by
  induction signed with
  | nil => exact ⟨[],[],rfl,rfl,by simp,by simp,rfl,by simp⟩
  | cons ws rest ih =>
    rw [forall_mem_cons] at h
    obtain ⟨⟨pk,hpk,hv⟩,hr⟩ := h
    obtain ⟨hsi,-,p,q,hp,hq,hc⟩ := B.corridorVerify_iff.mp hv
    obtain ⟨hne,heq⟩ := (hco p q).mp hc
    obtain ⟨ps,qs,hps,hqs,hs,hn,hl,hsu⟩ := ih hr
    have hk : keysOf corridor ((ws::rest).map WitnessSignature.witness) =
        pk::keysOf corridor (rest.map WitnessSignature.witness) :=
      keysOf_cons_of_some hpk _
    rw [hk]
    refine ⟨p::ps,q::qs,?_,?_,?_,?_,?_,?_⟩
    · rw [mapM_cons,hp,hps]
      rfl
    · rw [map_cons,mapM_cons,hq,hqs]
      rfl
    · exact forall_mem_cons.mpr ⟨hsi,hs⟩
    · exact forall_mem_cons.mpr ⟨hne,hn⟩
    · simp [hl]
    · simp [heq,hsu]

theorem aggregatesVerify_of_pairing {corridor : Corridor} {digest : Bytes}
    (hco : ∀ p q, B.coreVerify p digest corridorDst q=true ↔ p≠0 ∧ e g q=e p (H digest))
    (hc : ∀ (witnesses : List AuthorityId) (ps : List G₁), witnesses.Nodup →
      (keysOf corridor witnesses).mapM B.toG1=.ok ps → ps≠[] → (∀ p ∈ ps, p≠0) → ps.sum≠0) :
    AggregatesVerify B corridor digest := by
  intro signed agg hn hv ha
  obtain ⟨ps,qs,hps,hqs,hs,hnes,hl,hsu⟩ := points_of_verifies B hco hv
  obtain ⟨hne,-,qs',hqs',rfl⟩ := B.corridorAggregateSignatures_ok_iff.mp ha
  rw [hqs] at hqs'
  cases hqs'
  have hp : ps≠[] := by
    intro hni
    apply hne
    rw [hni] at hl
    rw [eq_nil_of_length_eq_zero hl.symm,map_nil]
  refine B.corridorAggregateVerify_iff.mpr ⟨?_,B.length_compress _,hs,qs.sum,ps,
    B.toG2_compress _,hps,(hco _ _).mpr ⟨hc _ ps hn hps hp hnes,hsu⟩⟩
  intro hni
  rw [hni] at hps
  exact hp (Except.ok.inj hps).symm

end

/-- `attest` succeeds exactly on a quorum of members whose first signatures are valid, its
result passes `verify_attestation`, and the order of the list does not matter. -/
theorem attest_correct {corridor : Corridor} (hsize : corridor.members.length=quorumSize)
    {payload : AttestationPayload} (hsource : payload.sourceChain<2^64)
    (htarget : payload.targetChain<2^64) (hheight : payload.sourceHeight<2^64)
    (hround : payload.timestampRound<2^64)
    (haggregates : ∀ digest, payload.canonicalDigest sha3=.ok digest →
      AggregatesVerify B corridor digest) (signatures : List WitnessSignature) :
    ((∃ a, attest B sha3 corridor payload signatures=.ok a) ↔
      (∃ digest, payload.canonicalDigest sha3=.ok digest ∧
        ∀ ws, IsFirst signatures ws → Verifies B corridor digest ws) ∧
        quorumThreshold≤(signatures.map WitnessSignature.witness).toFinset.card) ∧
    (∀ a, attest B sha3 corridor payload signatures=.ok a →
      verifyAttestation B sha3 corridor a=.ok ()) ∧ ∀ signatures', signatures.Perm signatures' →
      (signatures.map WitnessSignature.witness).Nodup → ∀ a,
      attest B sha3 corridor payload signatures=.ok a →
      attest B sha3 corridor payload signatures'=.ok a := by
  obtain ⟨digest,hd⟩ := canonicalDigest_of_fits sha3 hsource htarget hheight hround
  refine ⟨?_,fun a h => verifyAttestation_of_attest B sha3 hsize hd h,
    fun _ hp hn _ h => attest_of_perm B sha3 hsize hd hp hn h⟩
  rw [attest_succeeds_iff B sha3 hsize hd (haggregates digest hd)]
  constructor
  · rintro ⟨hv,hq⟩
    exact ⟨⟨digest,hd,hv⟩,hq⟩
  · rintro ⟨⟨digest',hd',hv⟩,hq⟩
    rw [hd] at hd'
    cases hd'
    exact ⟨hv,hq⟩

end

section

def multiplesBls : Bls ℕ (ZMod 251) where
  toG1 pk := .ok (PyValue.ofBigEndian pk)
  toG2 sig := .ok (PyValue.ofBigEndian sig : ZMod 251)
  compress q := PyValue.toBigEndian 96 q.val
  coreVerify p digest _ q := p≠0 ∧ q=p • (PyValue.ofBigEndian digest : ZMod 251)
  length_compress _ := length_toBigEndian _ _
  toG2_compress q := by
    rw [ofBigEndian_toBigEndian 96 q.val (q.val_lt.trans (by decide)),
      ZMod.natCast_zmod_val]

theorem multiplesBls_aggregatesVerify (corridor : Corridor) (digest : Bytes) :
    AggregatesVerify multiplesBls corridor digest := by
  refine aggregatesVerify_of_pairing (e := smulAddHom ℕ (ZMod 251)) (g := 1)
    (H := fun d => (ofBigEndian d : ZMod 251)) multiplesBls ?_ ?_
  · intro p q
    simp [multiplesBls]
  · intro _ ps _ _ hne hn hs
    obtain ⟨p,hp⟩ := exists_mem_of_ne_nil ps hne
    exact hn p hp (sum_eq_zero_iff.mp hs p hp)

def nineMembers : Corridor :=
  ⟨1,(List.range 9).map fun i : ℕ => ⟨i,1,PyValue.toBigEndian 48 (i+1),[]⟩⟩

def somePayload : AttestationPayload := ⟨1,2,3,List.replicate 32 0,4,rfl⟩

def witnessed (i : ℕ) : WitnessSignature :=
  ⟨i,PyValue.toBigEndian 96 ((i+1) • (PyValue.ofBigEndian
    ((somePayload.canonicalDigest cutHash).toOption.getD []) : ZMod 251)).val⟩

theorem sevenOfNine_attest : (∃ a, attest multiplesBls cutHash nineMembers somePayload
      ((List.range 7).map witnessed)=.ok a) ∧
    ∀ a, attest multiplesBls cutHash nineMembers somePayload
      ((List.range 7).map witnessed)=.ok a →
      verifyAttestation multiplesBls cutHash nineMembers a=.ok () := by
  have hsi : nineMembers.members.length=quorumSize := rfl
  have hs : somePayload.sourceChain<2^64 := by decide
  have hc := attest_correct multiplesBls cutHash hsi hs (by decide)
    (by decide) (by decide) (fun digest _ => multiplesBls_aggregatesVerify nineMembers digest)
    ((List.range 7).map witnessed)
  obtain ⟨a,ha,-⟩ := exists_ok_of_any
    (show (attest multiplesBls cutHash nineMembers somePayload
      ((List.range 7).map witnessed)).toOption.any (fun _ => true)=true by decide +kernel)
  exact ⟨⟨a,ha⟩,hc.2.1⟩

end

end LatticeTransfer.Corridors
