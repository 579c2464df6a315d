import LatticeTransfer.CommitmentLog

/-!
# Encryption of shards

`AEAD` over the library's XChaCha20-Poly1305 and `ShardEncryptor`: the content
encryption key with its checks, the nonce that HKDF derives from the key, the entity
and the index of a shard, and the associated data that names both. The cipher and
HMAC-SHA256 are parameters.
-/

namespace LatticeTransfer.ShardEncryption
open CommitmentLog

structure Cipher where
  encrypt : Bytes → Option Bytes → Bytes → Bytes → Bytes
  decrypt : Bytes → Option Bytes → Bytes → Bytes → Option Bytes
  decrypt_encrypt : ∀ text aad nonce key,
    decrypt (encrypt text aad nonce key) aad nonce key=some text

def taggingCipher : Cipher where
  encrypt text _ _ _ := text++(text++List.replicate 16 0).take 16
  decrypt ct _ _ _ :=
    let text := ct.take (ct.length-16)
    if ct.drop (ct.length-16)=(text++List.replicate 16 0).take 16 then some text else none
  decrypt_encrypt text aad nonce key := by
    have hlength : (text++(text++List.replicate 16 0).take 16).length-16=text.length := by simp
    simp only [hlength,List.take_left',List.drop_left',↓reduceIte]

namespace AEAD

def nonceSize : ℕ := 24
def tagSize : ℕ := 16

def checkNonce (nonce : Bytes) : Except PyError Unit :=
  let got := nonce.length
  if got≠nonceSize then .error (.valueError s!"Nonce must be {nonceSize}B, got {got}") else .ok ()

def orNone (aad : Bytes) : Option Bytes := if aad=[] then none else some aad

variable (C : Cipher)

def encrypt (key plaintext nonce aad : Bytes) : Except PyError Bytes := do
  checkNonce nonce
  let ct := C.encrypt plaintext (orNone aad) nonce key
  let got := ct.length
  let expected := plaintext.length+tagSize
  if got≠expected then
    throw (.runtimeError s!"AEAD output size mismatch: {got} != {expected}")
  return ct

def decrypt (key ciphertextWithTag nonce aad : Bytes) : Except PyError Bytes := do
  checkNonce nonce
  match C.decrypt ciphertextWithTag (orNone aad) nonce key with
  | some plaintext => return plaintext
  | none => throw (.valueError "AEAD authentication FAILED — data has been tampered with")

variable {C}

variable {key plaintext nonce aad ct : Bytes} (h : encrypt C key plaintext nonce aad=.ok ct)
include h

theorem encrypt_ok : nonce.length=nonceSize ∧ ct=C.encrypt plaintext (orNone aad) nonce key ∧
      ct.length=plaintext.length+tagSize := by
  by_cases hn : nonce.length=nonceSize
  · by_cases hs : (C.encrypt plaintext (orNone aad) nonce key).length =
        plaintext.length+tagSize
    · simp only [encrypt,checkNonce,hn,hs,ne_eq,not_true_eq_false,↓reduceIte,bind,
        Except.bind,pure,Except.pure,Except.ok.injEq] at h
      rw [← h]
      exact ⟨hn,rfl,hs⟩
    · simp [encrypt,checkNonce,hn,hs,bind,Except.bind] at h
  · simp [encrypt,checkNonce,hn,bind,Except.bind] at h

theorem decrypt_of_encrypt : decrypt C key ct nonce aad=.ok plaintext := by
  obtain ⟨hn,rfl,_⟩ := encrypt_ok h
  simp only [decrypt,checkNonce,hn,C.decrypt_encrypt]
  rfl

end AEAD

namespace ShardEncryptor

def hkdfSalt : Bytes := encodeText "ETP-SHARD-NONCE-v1"

def cekTrackingLimit : ℕ := 100000

def generateCek (issued : List Bytes) (drawn : Bytes) : Except PyError (Bytes × List Bytes) :=
  if drawn ∈ issued then
    .error (.runtimeError ("CRITICAL: CEK collision detected — CSPRNG may be compromised. " ++
      "Aborting to prevent catastrophic nonce reuse."))
  else
    let issued := issued++[drawn]
    .ok (drawn,if cekTrackingLimit < issued.length then issued.tail else issued)

def validateCek (cek : Bytes) : Except PyError Unit :=
  let got := cek.length
  if got≠32 then .error (.valueError s!"CEK must be exactly 32 bytes, got {got}")
  else if cek=List.replicate 32 0x00 then
    .error (.valueError "CEK is all-zero — degenerate key rejected")
  else if cek=List.replicate 32 0xff then
    .error (.valueError "CEK is all-one — degenerate key rejected")
  else .ok ()

structure Suite where
  hmac : Bytes → Bytes → Bytes
  cipher : Cipher

variable (E : Suite)

def extractPrk (cek : Bytes) : Bytes := E.hmac hkdfSalt cek

def nonce (cek : Bytes) (entityId : String) (shardIndex : ℕ) : Except PyError Bytes := do
  let indexBytes ← PyValue.pack 4 shardIndex
  let expanded := E.hmac (extractPrk E cek) (encodeText entityId++indexBytes++[0x01])
  return expanded.take AEAD.nonceSize

def aad (entityId : String) (shardIndex : ℕ) : Except PyError Bytes := do
  let indexBytes ← PyValue.pack 4 shardIndex
  return encodeText entityId++indexBytes

def encryptShard (cek : Bytes) (entityId : String) (plaintextShard : Bytes) (shardIndex : ℕ) :
    Except PyError Bytes := do
  validateCek cek
  let nonce ← nonce E cek entityId shardIndex
  let aad ← aad entityId shardIndex
  AEAD.encrypt E.cipher cek plaintextShard nonce aad

def decryptShard (cek : Bytes) (entityId : String) (encryptedShard : Bytes) (shardIndex : ℕ) :
    Except PyError Bytes := do
  let nonce ← nonce E cek entityId shardIndex
  let aad ← aad entityId shardIndex
  AEAD.decrypt E.cipher cek encryptedShard nonce aad

variable {E}

theorem decryptShard_of_encryptShard {cek shard enc : Bytes} {id : String} {i : ℕ}
    (h : encryptShard E cek id shard i=.ok enc) : decryptShard E cek id enc i=.ok shard := by
  obtain ⟨_,_,h⟩ := PyValue.bind_ok h
  obtain ⟨nonce,hn,h⟩ := PyValue.bind_ok h
  obtain ⟨aad,ha,h⟩ := PyValue.bind_ok h
  rw [decryptShard,hn,ha]
  exact AEAD.decrypt_of_encrypt h

end ShardEncryptor
end LatticeTransfer.ShardEncryption
