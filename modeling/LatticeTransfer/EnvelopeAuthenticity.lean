import LatticeTransfer.SignedEnvelope
import LatticeTransfer.TransferProtocol

/-!
# What the signature of an envelope covers

Two call chains of `CanonicalEncoder` with fields of the same kinds, and raw bytes of the
same lengths, have equal encodings only if the fields are equal. An envelope writes two
fields as raw bytes. The key identifier is checked against the key; the hash of the
payload is checked against nothing, and its length is not in the signed bytes.
-/

namespace LatticeTransfer
open MerkleTree List PyValue
open MerkleLog (MLDSA)
open CommitmentLog
open Entity (encodeText_injective timestamp_inj)

namespace CanonicalEncoder

variable {rest rest' : Bytes}

variable {enc : Bytes}

theorem lengthPrefixed_ok {raw : Bytes} (h : lengthPrefixed raw=.ok enc) :
    raw.length<256^4 ∧ enc=PyValue.toBigEndian 4 raw.length++raw := by
  rw [lengthPrefixed,pack] at h
  split_ifs at h with hlt
  · exact ⟨hlt,(Except.ok.inj h).symm⟩
  · cases h

variable {encoded' : Bytes}

theorem lengthPrefixed_append_inj {raw raw' : Bytes} (h : lengthPrefixed raw=.ok enc)
    (h' : lengthPrefixed raw'=.ok encoded') (heq : enc++rest=encoded'++rest') :
    raw=raw' ∧ rest=rest' := by
  obtain ⟨hlt,rfl⟩ := lengthPrefixed_ok h
  obtain ⟨hlt',rfl⟩ := lengthPrefixed_ok h'
  exact framed_append_inj hlt hlt' heq

theorem uint_ok {kind : String} {width : ℕ} {value : ℤ} (h : uint kind width value=.ok enc) :
    0≤value ∧ value.toNat<256^width ∧ enc=PyValue.toBigEndian width value.toNat := by
  rw [uint] at h
  split_ifs at h with hr
  refine ⟨hr.1,?_,(Except.ok.inj h).symm⟩
  have hlt := hr.2
  zify
  rwa [Int.toNat_of_nonneg hr.1]

theorem uint_append_inj {kind : String} {width : ℕ} {value value' : ℤ}
    (h : uint kind width value=.ok enc) (h' : uint kind width value'=.ok encoded')
    (heq : enc++rest=encoded'++rest') : value=value' ∧ rest=rest' := by
  obtain ⟨hp,hlt,rfl⟩ := uint_ok h
  obtain ⟨hp',hlt',rfl⟩ := uint_ok h'
  obtain ⟨hv,hr⟩ := toBigEndian_append_inj hlt hlt' heq
  exact ⟨by omega,hr⟩

theorem float64_append_inj {bits bits' : UInt64} (h : float64 bits=.ok enc)
    (h' : float64 bits'=.ok encoded') (heq : enc++rest=encoded'++rest') :
    bits=bits' ∧ rest=rest' := by
  simp only [float64] at h h'
  split at h <;> split at h' <;> cases h <;> cases h'
  obtain ⟨hb,hr⟩ := append_inj heq (by simp)
  exact ⟨timestamp_inj hb,hr⟩

theorem optional_append_inj {α : Type} {encode : α → Except PyError Bytes}
    (he : ∀ {a a' : α} {x x' rest rest' : Bytes}, encode a=.ok x → encode a'=.ok x' →
      x++rest=x'++rest' → a=a' ∧ rest=rest') {value value' : Option α}
    (h : optional encode value=.ok enc) (h' : optional encode value'=.ok encoded')
    (heq : enc++rest=encoded'++rest') : value=value' ∧ rest=rest' := by
  -- the flag byte tells the two cases apart
  cases value with
  | none =>
    cases value' with
    | none =>
      cases h
      cases h'
      exact ⟨rfl,(List.cons.inj heq).2⟩
    | some a' =>
      obtain ⟨x',_,rfl⟩ := exists_of_map_eq_ok h'
      cases h
      exact absurd (List.cons.inj heq).1 (by decide)
  | some a =>
    obtain ⟨x,hx,rfl⟩ := exists_of_map_eq_ok h
    cases value' with
    | none =>
      cases h'
      exact absurd (List.cons.inj heq).1 (by decide)
    | some a' =>
      obtain ⟨x',hx',rfl⟩ := exists_of_map_eq_ok h'
      obtain ⟨rfl,hr⟩ := he hx hx' (List.cons.inj heq).2
      exact ⟨rfl,hr⟩

/-- Fields of one kind, whose ends can be told from their starts: raw bytes need the same
length, and a map is written without its order of insertion. -/
def Field.Aligned : Field → Field → Prop
  | .uint8 _, .uint8 _ => True
  | .uint32 _, .uint32 _ => True
  | .uint64 _, .uint64 _ => True
  | .float64 _, .float64 _ => True
  | .rawBytes value, .rawBytes value' => value.length=value'.length
  | .lengthPrefixedBytes _, .lengthPrefixedBytes _ => True
  | .string _, .string _ => True
  | .optionalBytes _, .optionalBytes _ => True
  | .optionalString _, .optionalString _ => True
  | .optionalUint64 _, .optionalUint64 _ => True
  | _, _ => False

theorem text_append_inj {text text' : String} (h : lengthPrefixed (encodeText text)=.ok enc)
    (h' : lengthPrefixed (encodeText text')=.ok encoded')
    (heq : enc++rest=encoded'++rest') : text=text' ∧ rest=rest' := by
  obtain ⟨ht,hr⟩ := lengthPrefixed_append_inj h h' heq
  exact ⟨encodeText_injective ht,hr⟩

theorem Field.encode_append_inj {f g : Field} (ha : f.Aligned g) (h : f.encode=.ok enc)
    (h' : g.encode=.ok encoded') (heq : enc++rest=encoded'++rest') : f=g ∧ rest=rest' := by
  cases f <;> cases g <;> try exact ha.elim
  case uint8 | uint32 | uint64 =>
    obtain ⟨rfl,hr⟩ := uint_append_inj h h' heq
    exact ⟨rfl,hr⟩
  case float64 =>
    obtain ⟨rfl,hr⟩ := float64_append_inj h h' heq
    exact ⟨rfl,hr⟩
  case rawBytes =>
    cases h
    cases h'
    obtain ⟨rfl,hr⟩ := append_inj heq ha
    exact ⟨rfl,hr⟩
  case lengthPrefixedBytes =>
    obtain ⟨rfl,hr⟩ := lengthPrefixed_append_inj h h' heq
    exact ⟨rfl,hr⟩
  case string =>
    obtain ⟨rfl,hr⟩ := text_append_inj h h' heq
    exact ⟨rfl,hr⟩
  case optionalBytes =>
    obtain ⟨rfl,hr⟩ := optional_append_inj lengthPrefixed_append_inj h h' heq
    exact ⟨rfl,hr⟩
  case optionalString =>
    obtain ⟨rfl,hr⟩ := optional_append_inj text_append_inj h h' heq
    exact ⟨rfl,hr⟩
  case optionalUint64 =>
    obtain ⟨rfl,hr⟩ := optional_append_inj uint_append_inj h h' heq
    exact ⟨rfl,hr⟩

theorem flatten_inj {fields fields' : List Field}
    (ha : List.Forall₂ Field.Aligned fields fields') {parts parts' : List Bytes}
    (h : List.Forall₂ (fun f part => f.encode=.ok part) fields parts)
    (h' : List.Forall₂ (fun f part => f.encode=.ok part) fields' parts')
    (heq : parts.flatten=parts'.flatten) : fields=fields' := by
  induction ha generalizing parts parts' with
  | nil => rfl
  | cons hfg _ ih =>
    cases h with
    | cons hf hfi =>
      cases h' with
      | cons hg hf' =>
        obtain ⟨rfl,hr⟩ := Field.encode_append_inj hfg hf hg heq
        rw [ih hfi hf' hr]

theorem finalize_inj {tag : Bytes} {fields fields' : List Field}
    (ha : List.Forall₂ Field.Aligned fields fields') (h : finalize tag fields=.ok enc)
    (h' : finalize tag fields'=.ok enc) : fields=fields' := by
  rw [finalize] at h h'
  split_ifs at h h' with ht
  obtain ⟨parts,hp,h⟩ := bind_ok h
  obtain ⟨parts',hp',h'⟩ := bind_ok h'
  have hf : tag++parts.flatten=tag++parts'.flatten :=
    (Except.ok.inj h).trans (Except.ok.inj h').symm
  exact flatten_inj ha (forall₂_of_mapM_ok hp)
    (forall₂_of_mapM_ok hp') (append_cancel_left hf)

end CanonicalEncoder

namespace SignedEnvelope
variable {P : SecurityProfile} {S : MLDSA} {K : MLKEM} {H : CanonicalHash}

/-- Everything but the key, its identifier and the signature is the same. -/
structure SameContents (env signed : SignedEnvelope) : Prop where
  version : env.version=signed.version
  domain : env.domain=signed.domain
  signerId : env.signerId=signed.signerId
  timestamp : env.timestamp=signed.timestamp
  payloadType : env.payloadType=signed.payloadType
  payloadHash : env.payloadHash=signed.payloadHash
  payload : env.payload=signed.payload

variable {env signed : SignedEnvelope} {content : Bytes}

theorem sameContents_of_content (hk : env.signerKid=signed.signerKid)
    (hl : env.payloadHash.length=signed.payloadHash.length)
    (h : env.signableContent=.ok content) (h' : signed.signableContent=.ok content) :
    env.SameContents signed := by
  have hf := CanonicalEncoder.finalize_inj (by
    simp [CanonicalEncoder.Field.Aligned,hk,hl]) h h'
  simp only [List.cons.injEq,CanonicalEncoder.Field.uint8.injEq,
    CanonicalEncoder.Field.lengthPrefixedBytes.injEq,CanonicalEncoder.Field.string.injEq,
    CanonicalEncoder.Field.rawBytes.injEq,CanonicalEncoder.Field.float64.injEq] at hf
  obtain ⟨hv,hd,-,hid,-,ht,hty,hh,hp,-⟩ := hf
  exact ⟨hv,hd,hid,ht,hty,hh,hp⟩

theorem createAt_ok {domain payload entropy : Bytes} {signer : KeyPair P S K} {payloadType : String}
    {now : UInt64} (h : createAt H domain signer payloadType payload now entropy=.ok signed) :
    signed.signerVk=signer.vk ∧ signed.signerKid=signerFingerprint H signer.vk ∧
      ∃ content, signed.signableContent=.ok content := by
  obtain ⟨content,hc,h⟩ := bind_ok h
  obtain ⟨sig,_,h⟩ := bind_ok h
  cases h
  exact ⟨rfl,rfl,content,hc⟩

theorem verify_ok_true (h : env.verify P S H=.ok true) :
    env.signerKid=signerFingerprint H env.signerVk ∧ ∃ content, env.signableContent=.ok content ∧
        S.verify env.signerVk (domainSignedEnvelope++content) env.signature=true := by
  rw [verify] at h
  split_ifs at h with hk
  · cases h
  obtain ⟨content,hc,h⟩ := bind_ok h
  rw [domainVerify,mldsaVerify] at h
  split_ifs at h with hvk hs
  · cases h
  exact ⟨not_not.mp hk,content,hc,Except.ok.inj h⟩

/-- The signer put its signature on the given messages, and one of them is an envelope. -/
def OneEnvelope (messages : List Bytes) (signed : SignedEnvelope) : Prop :=
  ∀ content, domainSignedEnvelope++content ∈ messages → signed.signableContent=.ok content

/-- The signature of the envelope, if it is valid, is on one of the given messages. -/
def Unforged (S : MLDSA) (messages : List Bytes) (env : SignedEnvelope) : Prop :=
  ∀ content, env.signableContent=.ok content →
    S.verify env.signerVk (domainSignedEnvelope++content) env.signature=true →
    domainSignedEnvelope++content ∈ messages

theorem verified_sameContents_iff {domain payload entropy : Bytes} {signer : KeyPair P S K}
    {payloadType : String} {timestamp : UInt64} {signed env : SignedEnvelope}
    {messages : List Bytes}
    (hcreate : createAt H domain signer payloadType payload timestamp entropy=.ok signed)
    (hone : OneEnvelope messages signed) (hunforged : Unforged S messages env)
    (hvk : env.signerVk=signed.signerVk) (hverify : env.verify P S H=.ok true) :
    env.SameContents signed ↔ env.payloadHash.length=signed.payloadHash.length := by
  obtain ⟨hs,hsi,-⟩ := createAt_ok hcreate
  obtain ⟨hk,content,hc,hv⟩ := verify_ok_true hverify
  refine ⟨fun h => congrArg length h.payloadHash,fun hl => ?_⟩
  have hsig := hone content (hunforged content hc hv)
  have hsa : env.signerKid=signed.signerKid := by rw [hk,hvk,hs,hsi]
  exact sameContents_of_content hsa hl hc hsig

theorem oneEnvelope_singleton (h : signed.signableContent=.ok content) :
    OneEnvelope [domainSignedEnvelope++content] signed := by
  intro content' hm
  rw [mem_singleton] at hm
  rw [append_cancel_left hm,h]

theorem unforged_singleton (h : env.signableContent=.ok content) :
    Unforged S [domainSignedEnvelope++content] env := by
  intro content' hc' _
  rw [h] at hc'
  rw [Except.ok.inj hc']
  exact mem_singleton_self _

section
open Protocol (plainProfile truncationScheme plainKeyPair)

def zerosEnvelope : SignedEnvelope :=
  {placeholder cutHash [] (plainKeyPair "alice") "sth" [0,0,0,0] 0 with
    signature := domainSignedEnvelope++domainSignedEnvelope.take 1}

def zerosContent : Bytes := zerosEnvelope.signableContent.toOption.getD []

def shiftedEnvelope : SignedEnvelope :=
  {zerosEnvelope with payloadHash := zerosEnvelope.payloadHash++[0,0,0,4],payload := []}

theorem createAt_zerosEnvelope :
    createAt cutHash [] (plainKeyPair "alice") "sth" [0,0,0,0] 0 [] =
      .ok zerosEnvelope := rfl

theorem signableContent_zerosEnvelope : zerosEnvelope.signableContent=.ok zerosContent := rfl

theorem signableContent_shiftedEnvelope : shiftedEnvelope.signableContent=.ok zerosContent := by
  decide +kernel

theorem zerosEnvelope_authentic :
    zerosEnvelope.verify plainProfile truncationScheme cutHash=.ok true ∧
      zerosEnvelope.SameContents zerosEnvelope := by
  have hv : zerosEnvelope.verify plainProfile truncationScheme cutHash=.ok true :=
    verify_createAt createAt_zerosEnvelope
  refine ⟨hv,?_⟩
  apply (verified_sameContents_iff createAt_zerosEnvelope
    (oneEnvelope_singleton signableContent_zerosEnvelope)
    (unforged_singleton signableContent_zerosEnvelope) rfl hv).mpr
  rfl

theorem shiftedEnvelope_verifies :
    createAt cutHash [] (plainKeyPair "alice") "sth" [0,0,0,0] 0 [] = .ok zerosEnvelope ∧
      OneEnvelope [domainSignedEnvelope++zerosContent] zerosEnvelope ∧
      Unforged truncationScheme [domainSignedEnvelope++zerosContent] shiftedEnvelope ∧
      shiftedEnvelope.signerVk=zerosEnvelope.signerVk ∧
      shiftedEnvelope.verify plainProfile truncationScheme cutHash=.ok true ∧
      shiftedEnvelope.payload≠zerosEnvelope.payload ∧
      shiftedEnvelope.payloadHash≠zerosEnvelope.payloadHash := by
  refine ⟨createAt_zerosEnvelope,oneEnvelope_singleton signableContent_zerosEnvelope,
    unforged_singleton signableContent_shiftedEnvelope,rfl,?_,by decide,by decide +kernel⟩
  decide +kernel

end

end SignedEnvelope
end LatticeTransfer
