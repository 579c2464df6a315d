import LatticeTransfer.JsonText
import LatticeTransfer.ShardEncryption

/-!
# Key pairs, the sealed box and the lattice key

The ML-KEM and ML-DSA wrappers with their size checks, `SealedBox` and the lattice key
with its JSON payload. The sizes are those of the active security profile, the lattice
primitives are parameters, and the randomness of a call is one of its arguments. A key
pair carries that its halves belong together.
-/

namespace LatticeTransfer
open MerkleLog (MLDSA)
open CommitmentLog ShardEncryption JsonText

structure SecurityProfile where
  kemEkSize : ℕ
  kemDkSize : ℕ
  kemCtSize : ℕ
  kemSsSize : ℕ
  dsaVkSize : ℕ
  dsaSkSize : ℕ
  dsaSigSize : ℕ
  dsaVkSize_pos : 0<dsaVkSize
  dsaSigSize_pos : 0<dsaSigSize

/-- The primitives of the lattice library: a ciphertext and the secret it hides, from the
drawn randomness and an encapsulation key, and the secret again from the other half. -/
structure MLKEM where
  encrypt : Bytes → Bytes → Bytes × Bytes
  decrypt : Bytes → Bytes → Bytes

variable (P : SecurityProfile) (S : MLDSA) (K : MLKEM)

def sizeError (name : String) (got expected : ℕ) : PyError :=
  .valueError s!"Invalid {name} size: {got} (expected {expected})"

def sizeMismatch (name : String) (got expected : ℕ) : PyError :=
  .runtimeError s!"{name} size mismatch: {got} != {expected}"

namespace MLKEM

def encaps (entropy ek : Bytes) : Except PyError (Bytes × Bytes) :=
  if ek.length≠P.kemEkSize then .error (sizeError "ek" ek.length P.kemEkSize)
  else
    let ct := (K.encrypt entropy ek).1
    let ss := (K.encrypt entropy ek).2
    if ct.length≠P.kemCtSize then .error (sizeMismatch "ML-KEM ct" ct.length P.kemCtSize)
    else if ss.length≠P.kemSsSize then .error (sizeMismatch "ML-KEM ss" ss.length P.kemSsSize)
    else .ok (ss,ct)

def decaps (dk ciphertext : Bytes) : Except PyError Bytes :=
  if dk.length≠P.kemDkSize then .error (sizeError "dk" dk.length P.kemDkSize)
  else if ciphertext.length≠P.kemCtSize then
    .error (sizeError "ct" ciphertext.length P.kemCtSize)
  else
    let ss := K.decrypt dk ciphertext
    if ss.length≠P.kemSsSize then .error (sizeMismatch "ML-KEM ss" ss.length P.kemSsSize)
    else .ok ss

variable {P K}

theorem encaps_ok {entropy ek ss ct : Bytes} (h : K.encaps P entropy ek=.ok (ss,ct)) :
    K.encrypt entropy ek=(ct,ss) ∧ ct.length=P.kemCtSize ∧ ss.length=P.kemSsSize := by
  simp only [encaps] at h
  split_ifs at h with hek hct hss
  cases Except.ok.inj h
  exact ⟨rfl,not_not.mp hct,not_not.mp hss⟩

theorem decaps_eq_ok {dk ct : Bytes} (hdk : dk.length=P.kemDkSize)
    (hct : ct.length=P.kemCtSize) (hss : (K.decrypt dk ct).length=P.kemSsSize) :
    K.decaps P dk ct=.ok (K.decrypt dk ct) := by simp [decaps,hdk,hct,hss]

end MLKEM

structure KeyPair where
  ek : Bytes
  dk : Bytes
  vk : Bytes
  sk : Bytes
  label : String
  dk_size : dk.length=P.kemDkSize
  vk_size : vk.length=P.dsaVkSize
  decrypt_encrypt : ∀ entropy, K.decrypt dk (K.encrypt entropy ek).1=(K.encrypt entropy ek).2
  verify_sign : ∀ entropy message, S.verify vk message (S.sign entropy sk message)=true

namespace KeyPair
variable {P S K}

def sign (kp : KeyPair P S K) (entropy message : Bytes) : Except PyError Bytes :=
  if kp.sk.length≠P.dsaSkSize then .error (sizeError "sk" kp.sk.length P.dsaSkSize)
  else
    let sig := S.sign entropy kp.sk message
    if sig.length≠P.dsaSigSize then .error (sizeMismatch "ML-DSA sig" sig.length P.dsaSigSize)
    else .ok sig

end KeyPair

def mldsaVerify (vk message signature : Bytes) : Except PyError Bool :=
  if vk.length≠P.dsaVkSize then .error (sizeError "vk" vk.length P.dsaVkSize)
  else if signature.length≠P.dsaSigSize then .ok false
  else .ok (S.verify vk message signature)

namespace SealedBox
variable {P S K} (C : Cipher)

variable (P K) in
def sealTo (plaintext receiverEk entropy nonce : Bytes) : Except PyError Bytes := do
  if receiverEk.length≠P.kemEkSize then
    throw (sizeError "ek" receiverEk.length P.kemEkSize)
  let (sharedSecret,kemCt) ← K.encaps P entropy receiverEk
  let ciphertext ← AEAD.encrypt C sharedSecret plaintext nonce []
  return kemCt++nonce++ciphertext

def unsealWith (sealedData : Bytes) (receiver : KeyPair P S K) : Except PyError Bytes := do
  let minLen := P.kemCtSize+AEAD.nonceSize+AEAD.tagSize
  let got := sealedData.length
  if got < minLen then throw (.valueError s!"Sealed data too short ({got} < {minLen})")
  let kemCt := sealedData.take P.kemCtSize
  let nonce := (sealedData.drop P.kemCtSize).take AEAD.nonceSize
  let aeadCt := sealedData.drop (P.kemCtSize+AEAD.nonceSize)
  let sharedSecret ← match K.decaps P receiver.dk kemCt with
    | .error (.valueError _) =>
        throw (.valueError ("Cannot unseal — ML-KEM decapsulation failed " ++
        "(wrong decapsulation key or corrupted ciphertext)"))
    | result => result
  match AEAD.decrypt C sharedSecret aeadCt nonce [] with
  | .error (.valueError e) =>
    throw (.valueError s!"Cannot unseal — AEAD decryption failed: {e}")
  | result => result

variable {C}

theorem unsealWith_sealTo {plaintext entropy nonce sealedData : Bytes} {rcv : KeyPair P S K}
    (h : sealTo P K C plaintext rcv.ek entropy nonce=.ok sealedData) :
    unsealWith C sealedData rcv=.ok plaintext := by
  rw [sealTo] at h
  split_ifs at h with hek
  · cases h
  obtain ⟨⟨sharedSecret,kemCt⟩,he,h⟩ := PyValue.bind_ok h
  obtain ⟨ciphertext,hen,h⟩ := PyValue.bind_ok h
  obtain rfl : kemCt++nonce++ciphertext=sealedData := Except.ok.inj h
  obtain ⟨hk,hct,hss⟩ := MLKEM.encaps_ok he
  obtain ⟨hn,_,hsi⟩ := AEAD.encrypt_ok hen
  have hs : K.decrypt rcv.dk kemCt=sharedSecret := by
    have hh := rcv.decrypt_encrypt entropy
    rwa [hk] at hh
  have hd : K.decaps P rcv.dk kemCt=.ok sharedSecret := by
    rw [MLKEM.decaps_eq_ok rcv.dk_size hct (hs.symm ▸ hss),hs]
  have hl : ¬(kemCt++nonce++ciphertext).length <
      P.kemCtSize+AEAD.nonceSize+AEAD.tagSize := by
    rw [List.length_append,List.length_append]
    omega
  have ht : (kemCt++nonce++ciphertext).take P.kemCtSize=kemCt := by
    rw [List.append_assoc]
    exact List.take_left' hct
  have hm : ((kemCt++nonce++ciphertext).drop P.kemCtSize).take AEAD.nonceSize=nonce := by
    rw [List.append_assoc,List.drop_left' hct]
    exact List.take_left' hn
  have hr : (kemCt++nonce++ciphertext).drop (P.kemCtSize+AEAD.nonceSize)=ciphertext :=
    List.drop_left' (by rw [List.length_append,hct,hn])
  simp only [unsealWith,hl,↓reduceIte,ht,hm,hr,hd,bind,Except.bind,AEAD.decrypt_of_encrypt hen]

end SealedBox

structure LatticeKey where
  entityId : String
  cek : Bytes
  commitmentRef : String
  accessPolicy : Json

namespace LatticeKey
variable {P S K} (C : Cipher)

def payload (key : LatticeKey) : Json :=
  .obj [("entity_id",.str key.entityId),("cek",.str (PyValue.hex key.cek)),
    ("commitment_ref",.str key.commitmentRef),("access_policy",key.accessPolicy)]

def plaintextPayload (key : LatticeKey) : Bytes := encodeText (dumps key.payload)

variable (P K) in
def sealTo (key : LatticeKey) (receiverEk entropy nonce : Bytes) : Except PyError Bytes :=
  SealedBox.sealTo P K C key.plaintextPayload receiverEk entropy nonce

def loadsBytes (data : Bytes) : Except PyError Json :=
  match String.fromUTF8? ⟨data.toArray⟩ with
  | none => .error (.valueError "'utf-8' codec can't decode")
  | some text =>
    match loads text with
    | none => .error (.valueError "JSONDecodeError")
    | some d => .ok d

def unsealWith (sealedData : Bytes) (receiver : KeyPair P S K) : Except PyError LatticeKey := do
  let plaintext ← SealedBox.unsealWith C sealedData receiver
  let d ← loadsBytes plaintext
  let entityId ← (← d.item "entity_id").text
  let cek ← PyValue.fromHex (← (← d.item "cek").text)
  let commitmentRef ← (← d.item "commitment_ref").text
  let accessPolicy ← d.item "access_policy"
  return ⟨entityId,cek,commitmentRef,accessPolicy⟩

theorem fromUTF8?_encodeText (s : String) : String.fromUTF8? ⟨(encodeText s).toArray⟩=some s := by
  have hb : (⟨(encodeText s).toArray⟩ : ByteArray)=s.toByteArray := rfl
  rw [hb,String.fromUTF8?,dif_pos s.isValidUTF8]
  rfl

theorem loadsBytes_dumps (d : Json) : loadsBytes (encodeText (dumps d))=.ok d := by
  rw [loadsBytes,fromUTF8?_encodeText]
  simp [loads_dumps]

variable {C}

theorem unsealWith_sealTo {key : LatticeKey} {rcv : KeyPair P S K}
    {entropy nonce sealedData : Bytes} (h : key.sealTo P K C rcv.ek entropy nonce=.ok sealedData) :
    unsealWith C sealedData rcv=.ok key := by
  have hp := SealedBox.unsealWith_sealTo h
  have hc : key.payload.item "cek" = .ok (.str (PyValue.hex key.cek)) := rfl
  simp only [unsealWith,hp,bind,Except.bind,plaintextPayload,loadsBytes_dumps,hc,
    Json.text,PyValue.fromHex_hex]
  rfl

end LatticeKey
end LatticeTransfer
