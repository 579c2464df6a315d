import LatticeTransfer.LatticeKey

/-!
# Canonical encoding, domain tags and signed envelopes

A call chain of `CanonicalEncoder` is the list of its fields; the first field that does
not fit raises. A float is taken as its eight bytes. `SignedEnvelope` signs the encoding
of all its other fields under a domain tag, and an envelope a key pair created verifies.
-/

namespace LatticeTransfer
open MerkleTree
open MerkleLog (MLDSA)
open CommitmentLog

namespace CanonicalEncoder

inductive Field
  | uint8 (value : ℤ)
  | uint32 (value : ℤ)
  | uint64 (value : ℤ)
  | float64 (value : UInt64)
  | rawBytes (value : Bytes)
  | lengthPrefixedBytes (value : Bytes)
  | string (value : String)
  | optionalBytes (value : Option Bytes)
  | optionalString (value : Option String)
  | optionalUint64 (value : Option ℤ)
  | sortedMap (d : Dict String String)

def uint (kind : String) (width : ℕ) (value : ℤ) : Except PyError Bytes :=
  if 0≤value ∧ value<256^width then .ok (PyValue.toBigEndian width value.toNat)
  else .error (.valueError s!"{kind} out of range: {value}")

def notFinite (bits : UInt64) : Option String :=
  if bits.toNat / 2^52 % 2^11≠2^11-1 then none
  else if bits.toNat % 2^52≠0 then some "nan"
  else if bits.toNat<2^63 then some "inf"
  else some "-inf"

def float64 (bits : UInt64) : Except PyError Bytes :=
  match notFinite bits with
  | some text => .error (.valueError s!"float64 rejects NaN/Inf: {text}")
  | none => .ok (PyValue.toBigEndian 8 bits.toNat)

def optional {α : Type} (encode : α → Except PyError Bytes) : Option α → Except PyError Bytes
  | none => .ok [0x00]
  | some value => (encode value).map (0x01 :: ·)

def sortedMap (d : Dict String String) : Except PyError Bytes := do
  let count ← PyValue.pack 4 d.size
  let entries := d.entries.insertionSort fun p q => p.1≤q.1
  return count++(← joinPrefixed (entries.flatMap fun e => [encodeText e.1,encodeText e.2]))

def Field.encode : Field → Except PyError Bytes
  | .uint8 value => uint "uint8" 1 value
  | .uint32 value => uint "uint32" 4 value
  | .uint64 value => uint "uint64" 8 value
  | .float64 value => CanonicalEncoder.float64 value
  | .rawBytes value => .ok value
  | .lengthPrefixedBytes value => lengthPrefixed value
  | .string value => lengthPrefixed (encodeText value)
  | .optionalBytes value => optional lengthPrefixed value
  | .optionalString value => optional (fun text => lengthPrefixed (encodeText text)) value
  | .optionalUint64 value => optional (uint "uint64" 8) value
  | .sortedMap d => CanonicalEncoder.sortedMap d

def finalize (objectTag : Bytes) (fields : List Field) : Except PyError Bytes :=
  if objectTag=[] then .error (.valueError "object_tag must not be empty")
  else do
    let parts ← fields.mapM Field.encode
    return objectTag++parts.flatten

end CanonicalEncoder

section

def domainSignedEnvelope : Bytes := encodeText "SUWAPPU-LTP:signed-envelope:v1\x00"
def domainBridgeMsg : Bytes := encodeText "SUWAPPU-LTP:bridge-msg:v1\x00"

variable {P : SecurityProfile} {S : MLDSA} {K : MLKEM}

def domainSign (domain : Bytes) (signer : KeyPair P S K) (entropy data : Bytes) :
    Except PyError Bytes :=
  signer.sign entropy (domain++data)

variable (P S) in
def domainVerify (domain vk data sig : Bytes) : Except PyError Bool :=
  mldsaVerify P S vk (domain++data) sig

def signerFingerprint (H : CanonicalHash) (vk : Bytes) : Bytes := H.run vk

theorem domainVerify_domainSign {domain entropy data sig : Bytes} {signer : KeyPair P S K}
    (h : domainSign domain signer entropy data=.ok sig) :
    domainVerify P S domain signer.vk data sig=.ok true := by
  rw [domainSign,KeyPair.sign] at h
  split_ifs at h with hsk
  simp only at h
  split_ifs at h with hs
  cases h
  simp [domainVerify,mldsaVerify,signer.vk_size,not_not.mp hs,signer.verify_sign]

end

structure SignedEnvelope where
  version : ℤ
  domain : Bytes
  signerVk : Bytes
  signerId : String
  signerKid : Bytes
  timestamp : UInt64
  payloadType : String
  payloadHash : Bytes
  payload : Bytes
  signature : Bytes

namespace SignedEnvelope
variable {P : SecurityProfile} {S : MLDSA} {K : MLKEM} (H : CanonicalHash)

def signableContent (env : SignedEnvelope) : Except PyError Bytes :=
  CanonicalEncoder.finalize domainSignedEnvelope
    [.uint8 env.version,.lengthPrefixedBytes env.domain,.lengthPrefixedBytes env.signerVk,
      .string env.signerId,.rawBytes env.signerKid,.float64 env.timestamp,
      .string env.payloadType,.rawBytes env.payloadHash,.lengthPrefixedBytes env.payload]

variable (P S) in
def verify (env : SignedEnvelope) : Except PyError Bool :=
  if env.signerKid≠signerFingerprint H env.signerVk then .ok false
  else do
    let content ← env.signableContent
    domainVerify P S domainSignedEnvelope env.signerVk content env.signature

def placeholder (domain : Bytes) (signer : KeyPair P S K) (payloadType : String) (payload : Bytes)
    (timestamp : UInt64) : SignedEnvelope where
  version := 1
  domain := domain
  signerVk := signer.vk
  signerId := signer.label
  signerKid := signerFingerprint H signer.vk
  timestamp := timestamp
  payloadType := payloadType
  payloadHash := H.run payload
  payload := payload
  signature := []

def createAt (domain : Bytes) (signer : KeyPair P S K) (payloadType : String) (payload : Bytes)
    (timestamp : UInt64) (entropy : Bytes) : Except PyError SignedEnvelope := do
  let env := placeholder H domain signer payloadType payload timestamp
  let signature ← domainSign domainSignedEnvelope signer entropy (← env.signableContent)
  return {env with signature := signature}

variable {H}

theorem verify_of_content {env : SignedEnvelope} {content : Bytes}
    (hk : env.signerKid=signerFingerprint H env.signerVk)
    (hc : env.signableContent=.ok content) : env.verify P S H =
      domainVerify P S domainSignedEnvelope env.signerVk content env.signature := by
  rw [verify,if_neg (not_not.mpr hk),hc]
  rfl

theorem verify_createAt {domain payload entropy : Bytes} {signer : KeyPair P S K}
    {payloadType : String} {now : UInt64} {env : SignedEnvelope}
    (h : createAt H domain signer payloadType payload now entropy=.ok env) :
    env.verify P S H=.ok true := by
  obtain ⟨content,hc,h⟩ := PyValue.bind_ok h
  obtain ⟨signature,hsi,h⟩ := PyValue.bind_ok h
  cases h
  -- the signature is not part of what is signed
  have hs : signableContent {placeholder H domain signer payloadType payload now with
      signature := signature}=.ok content := hc
  rw [verify_of_content rfl hs]
  exact domainVerify_domainSign hsi

end SignedEnvelope
end LatticeTransfer
