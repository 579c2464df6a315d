import LatticeTransfer.CorridorAttestation
import LatticeTransfer.JsonText

/-!
# The JSON wire format of the corridor

The `*_to_dict` and `*_from_dict` functions of `corridor.wire`. A dictionary is the list of
its pairs; byte fields are hexadecimal text, sets are sorted lists, and a scheme is its
number. What `int()` makes of a text and the double that a number text stands for are
parameters. A value whose constructor checks its fields carries what was checked.
-/

namespace LatticeTransfer.Corridors
open JsonText

section

structure Cid where
  value : Bytes
  length_value : value.length=32
deriving DecidableEq

structure DaSla where
  retentionRounds : ℤ
  maxRetrievalLatencyRounds : ℤ
deriving DecidableEq

structure Commitment where
  cid : Cid
  sizeBytes : ℤ
  storedAt : ℤ
  sla : DaSla
deriving DecidableEq

structure DidRotationStatement where
  did : Bytes
  oldDocHash : Bytes
  newDocHash : Bytes
  sourceChain : ℕ
  targetChain : ℕ
  sourceHeight : ℕ
  length_did : did.length=32
  length_oldDocHash : oldDocHash.length=32
  length_newDocHash : newDocHash.length=32
deriving DecidableEq

structure DidStarkProof where
  statement : DidRotationStatement
  signingMethodId : ℤ
  signature : Bytes
  friProof : Bytes
deriving DecidableEq

inductive AuthScheme
  | blake3Mac
  | sp1ZkProof
  | ecdsaSecp256k1
  | mlDsa65Hybrid
deriving DecidableEq

def AuthScheme.value : AuthScheme → ℤ
  | .blake3Mac => 0
  | .sp1ZkProof => 1
  | .ecdsaSecp256k1 => 2
  | .mlDsa65Hybrid => 3

def AuthScheme.ofValue? : ℤ → Option AuthScheme
  | 0 => some .blake3Mac
  | 1 => some .sp1ZkProof
  | 2 => some .ecdsaSecp256k1
  | 3 => some .mlDsa65Hybrid
  | _ => none

structure StateAnchor where
  chainId : ℕ
  height : ℕ
  stateRoot : Bytes
  parent : Bytes
  mac : Bytes
  authScheme : AuthScheme
  chainId_lt : chainId<2^32
  height_lt : height<2^64
  length_stateRoot : stateRoot.length=32
  length_parent : parent.length=32
  length_mac : mac.length=32
deriving DecidableEq

end

section

def nonNegative (name : String) (v : ℤ) : Except PyError ℕ :=
  if v<0 then .error (.valueError s!"{name} must be non-negative") else .ok v.toNat

def AttestationPayload.make (sourceChain targetChain sourceHeight : ℤ) (stateRoot : Bytes)
    (timestampRound : ℤ) : Except PyError AttestationPayload :=
  if h : stateRoot.length=32 then do
    let source ← nonNegative "source_chain" sourceChain
    let target ← nonNegative "target_chain" targetChain
    let height ← nonNegative "source_height" sourceHeight
    let round ← nonNegative "timestamp_round" timestampRound
    return ⟨source,target,height,stateRoot,round,h⟩
  else .error (.valueError "state_root must be 32 bytes")

def Cid.make (value : Bytes) : Except PyError Cid :=
  if h : value.length=32 then .ok ⟨value,h⟩ else .error (.valueError "CID must be 32 bytes")

def DidRotationStatement.make (did oldDocHash newDocHash : Bytes)
    (sourceChain targetChain sourceHeight : ℤ) : Except PyError DidRotationStatement :=
  if hdid : did.length=32 then
    if hold : oldDocHash.length=32 then
      if hnew : newDocHash.length=32 then do
        let source ← nonNegative "source_chain" sourceChain
        let target ← nonNegative "target_chain" targetChain
        let height ← nonNegative "source_height" sourceHeight
        return ⟨did,oldDocHash,newDocHash,source,target,height,hdid,hold,hnew⟩
      else .error (.valueError "new_doc_hash must be 32 bytes")
    else .error (.valueError "old_doc_hash must be 32 bytes")
  else .error (.valueError "did must be 32 bytes")

def StateAnchor.make (chainId height : ℤ) (stateRoot parent mac : Bytes)
    (authScheme : AuthScheme) : Except PyError StateAnchor :=
  if hchain : 0≤chainId ∧ chainId<(2^32 : ℕ) then
    if hheight : 0≤height ∧ height<(2^64 : ℕ) then
      if hroot : stateRoot.length=32 then
        if hparent : parent.length=32 then
          if hmac : mac.length=32 then
            .ok ⟨chainId.toNat,height.toNat,stateRoot,parent,mac,authScheme,by omega,
              by omega,hroot,hparent,hmac⟩
          else .error (.valueError "mac must be 32 bytes")
        else .error (.valueError "parent must be 32 bytes")
      else .error (.valueError "state_root must be 32 bytes")
    else .error (.valueError "height must fit in u64")
  else .error (.valueError "chain_id must fit in u32")

end

abbrev WireDict := List (String × Json)

inductive WireError
  | wireFormat (message : String)
  | raised (e : PyError)
deriving DecidableEq

/-- `ofFloat` is the integer part of the double, if that is finite. -/
structure IntConversions where
  ofText : String → Except PyError ℤ
  ofFloat : FloatText → Option ℤ
  isZero : FloatText → Bool

section

def typeName : Json → String
  | .null => "NoneType"
  | .bool _ => "bool"
  | .nan | .infinity _ | .float _ => "float"
  | .int _ => "int"
  | .str _ => "str"
  | .arr _ => "list"
  | .obj _ => "dict"

def lookup (d : WireDict) (name : String) : Option Json :=
  (d.reverse.find? fun f => f.1=name).map Prod.snd

def item (d : WireDict) (name : String) : Except WireError Json :=
  match lookup d name with
  | some value => .ok value
  | none => .error (.wireFormat s!"missing field '{name}'")

def hexBytes (d : WireDict) (name : String) (expected : Option ℕ) : Except WireError Bytes := do
  match ← item d name with
  | .str value =>
    match PyValue.fromHexText value.toList with
    | none => .error (.wireFormat s!"field '{name}' is not valid hex")
    | some decoded =>
      let got := decoded.length
      match expected with
      | none => .ok decoded
      | some size =>
        if got≠size then
          .error (.wireFormat s!"field '{name}' must decode to {size} bytes, got {got}")
        else .ok decoded
  | value =>
    let kind := typeName value
    .error (.wireFormat s!"field '{name}' must be a hex string, got {kind}")

variable (N : IntConversions)

def truthy : Json → Bool
  | .null => false
  | .bool b => b
  | .nan | .infinity _ => true
  | .int n => n≠0
  | .float x => !N.isZero x
  | .str s => s ≠ ""
  | .arr items => !items.isEmpty
  | .obj fields => !fields.isEmpty

def toInt : Json → Except PyError ℤ
  | .int n => .ok n
  | .bool b => .ok (if b then 1 else 0)
  | .str s => N.ofText s
  | .float x => match N.ofFloat x with
    | some n => .ok n
    | none => .error .overflowError
  | .nan => .error (.valueError "cannot convert float NaN to integer")
  | .infinity _ => .error .overflowError
  | .null | .arr _ | .obj _ => .error .typeError

def orWireFormat {α : Type} (message : String) (x : Except PyError α) : Except WireError α :=
  match x with
  | .ok a => .ok a
  | .error .typeError | .error (.valueError _) => .error (.wireFormat message)
  | .error e => .error (.raised e)

def intField (d : WireDict) (name : String) (nonNegative : Bool) : Except WireError ℤ := do
  let raw ← item d name
  let value ← orWireFormat s!"field '{name}' is not an integer" (toInt N raw)
  if nonNegative && value<0 then
    .error (.wireFormat s!"field '{name}' must be non-negative, got {value}")
  else .ok value

def dictField (d : WireDict) (name : String) : Except WireError WireDict := do
  match ← item d name with
  | .obj fields => .ok fields
  | value =>
    let kind := typeName value
    .error (.wireFormat s!"field '{name}' must be an object, got {kind}")

def listField (d : WireDict) (name : String) : Except WireError (List Json) := do
  match ← item d name with
  | .arr items => .ok items
  | value =>
    let kind := typeName value
    .error (.wireFormat s!"field '{name}' must be a list, got {kind}")

def construct {α : Type} (x : Except PyError α) : Except WireError α := x.mapError WireError.raised

end

section
variable (N : IntConversions)

def hexText (b : Bytes) : Json := .str (PyValue.hex b)

def attestationPayloadToDict (p : AttestationPayload) : WireDict :=
  [("source_chain",.int p.sourceChain),("target_chain",.int p.targetChain),
    ("source_height",.int p.sourceHeight),("state_root",hexText p.stateRoot),
    ("timestamp_round",.int p.timestampRound)]

def attestationPayloadFromDict (d : WireDict) : Except WireError AttestationPayload := do
  let sourceChain ← intField N d "source_chain" true
  let targetChain ← intField N d "target_chain" true
  let sourceHeight ← intField N d "source_height" true
  let stateRoot ← hexBytes d "state_root" (some 32)
  let timestampRound ← intField N d "timestamp_round" true
  construct (AttestationPayload.make sourceChain targetChain sourceHeight stateRoot timestampRound)

def witnessSignatureToDict (w : WitnessSignature) : WireDict :=
  [("witness",.int w.witness),("signature",hexText w.signature)]

def witnessSignatureFromDict (d : WireDict) : Except WireError WitnessSignature := do
  let witness ← intField N d "witness" true
  let signature ← hexBytes d "signature" (some 96)
  return ⟨witness,signature⟩

local instance trans_authority : IsTrans AuthorityId (· ≤ ·) := inferInstance
local instance antisymm_authority : Std.Antisymm (fun a b : AuthorityId => a≤b) := inferInstance

def corridorAttestationToDict (a : CorridorAttestation) : WireDict :=
  [("payload",.obj (attestationPayloadToDict a.payload)),
    ("aggregate_signature",hexText a.aggregateSignature),
    ("signers",.arr ((PyValue.sorted (· ≤ ·) a.signers).map Json.int))]

def corridorAttestationFromDict (d : WireDict) : Except WireError CorridorAttestation := do
  let signersRaw ← listField d "signers"
  let signers ← orWireFormat "signers must be a list of integers" (signersRaw.mapM (toInt N))
  let payload ← attestationPayloadFromDict N (← dictField d "payload")
  let aggregateSignature ← hexBytes d "aggregate_signature" (some 96)
  return ⟨payload,aggregateSignature,signers.toFinset⟩

def superNodeToDict (s : SuperNode) : WireDict :=
  [("authority",.int s.authority),("corridor",.int s.corridor),
    ("bls_public_key",hexText s.blsPublicKey),("pop",hexText s.pop)]

def popField (d : WireDict) : Except WireError Bytes :=
  match lookup d "pop" with
  | some value => if truthy N value then hexBytes d "pop" (some 96) else .ok []
  | none => .ok []

def superNodeFromDict (d : WireDict) : Except WireError SuperNode := do
  let pop ← popField N d
  let authority ← intField N d "authority" true
  let corridor ← intField N d "corridor" true
  let blsPublicKey ← hexBytes d "bls_public_key" (some 48)
  return ⟨authority,corridor,blsPublicKey,pop⟩

def corridorToDict (c : Corridor) : WireDict :=
  [("id",.int c.id),("members",.arr (c.members.map fun m => .obj (superNodeToDict m)))]

def memberFromDict : Json × ℕ → Except WireError SuperNode
  | (.obj m,_) => superNodeFromDict N m
  | (m,i) =>
    let kind := typeName m
    .error (.wireFormat s!"members[{i}] must be an object, got {kind}")

def corridorFromDict (d : WireDict) : Except WireError Corridor := do
  let membersRaw ← listField d "members"
  let members ← membersRaw.zipIdx.mapM (memberFromDict N)
  let id ← intField N d "id" true
  return ⟨id,members⟩

def cidToDict (c : Cid) : Json := hexText c.value

def cidFromDict : Json → Except WireError Cid
  | .str s =>
    match PyValue.fromHexText s.toList with
    | none => .error (.wireFormat "cid is not valid hex")
    | some value => orWireFormat "cid is not valid hex: CID must be 32 bytes" (Cid.make value)
  | s =>
    let kind := typeName s
    .error (.wireFormat s!"cid must be a hex string, got {kind}")

def daSlaToDict (s : DaSla) : WireDict :=
  [("retention_rounds",.int s.retentionRounds),
    ("max_retrieval_latency_rounds",.int s.maxRetrievalLatencyRounds)]

def daSlaFromDict (d : WireDict) : Except WireError DaSla := do
  let retentionRounds ← intField N d "retention_rounds" true
  let maxRetrievalLatencyRounds ← intField N d "max_retrieval_latency_rounds" true
  return ⟨retentionRounds,maxRetrievalLatencyRounds⟩

def commitmentToDict (c : Commitment) : WireDict :=
  [("cid",cidToDict c.cid),("size_bytes",.int c.sizeBytes),("stored_at",.int c.storedAt),
    ("sla",.obj (daSlaToDict c.sla))]

def commitmentFromDict (d : WireDict) : Except WireError Commitment := do
  let cid ← cidFromDict (← item d "cid")
  let sizeBytes ← intField N d "size_bytes" true
  let storedAt ← intField N d "stored_at" true
  let sla ← daSlaFromDict N (← dictField d "sla")
  return ⟨cid,sizeBytes,storedAt,sla⟩

def didRotationStatementToDict (s : DidRotationStatement) : WireDict :=
  [("did",hexText s.did),("old_doc_hash",hexText s.oldDocHash),
    ("new_doc_hash",hexText s.newDocHash),("source_chain",.int s.sourceChain),
    ("target_chain",.int s.targetChain),("source_height",.int s.sourceHeight)]

def didRotationStatementFromDict (d : WireDict) : Except WireError DidRotationStatement := do
  let did ← hexBytes d "did" (some 32)
  let oldDocHash ← hexBytes d "old_doc_hash" (some 32)
  let newDocHash ← hexBytes d "new_doc_hash" (some 32)
  let sourceChain ← intField N d "source_chain" true
  let targetChain ← intField N d "target_chain" true
  let sourceHeight ← intField N d "source_height" true
  construct
    (DidRotationStatement.make did oldDocHash newDocHash sourceChain targetChain sourceHeight)

def didStarkProofToDict (p : DidStarkProof) : WireDict :=
  [("statement",.obj (didRotationStatementToDict p.statement)),
    ("signing_method_id",.int p.signingMethodId),("signature",hexText p.signature),
    ("fri_proof",hexText p.friProof)]

def didStarkProofFromDict (d : WireDict) : Except WireError DidStarkProof := do
  let statement ← didRotationStatementFromDict N (← dictField d "statement")
  let signingMethodId ← intField N d "signing_method_id" true
  let signature ← hexBytes d "signature" none
  let friProof ← hexBytes d "fri_proof" none
  return ⟨statement,signingMethodId,signature,friProof⟩

def stateAnchorToDict (a : StateAnchor) : WireDict :=
  [("chain_id",.int a.chainId),("height",.int a.height),("state_root",hexText a.stateRoot),
    ("parent",hexText a.parent),("mac",hexText a.mac),("auth_scheme",.int a.authScheme.value)]

def schemeOf (raw : ℤ) : Except WireError AuthScheme :=
  match AuthScheme.ofValue? raw with
  | none => .error (.wireFormat s!"auth_scheme {raw} is not a valid AuthScheme")
  | some authScheme => .ok authScheme

def stateAnchorFromDict (d : WireDict) : Except WireError StateAnchor := do
  let authScheme ← schemeOf (← intField N d "auth_scheme" true)
  let chainId ← intField N d "chain_id" true
  let height ← intField N d "height" true
  let stateRoot ← hexBytes d "state_root" (some 32)
  let parent ← hexBytes d "parent" (some 32)
  let mac ← hexBytes d "mac" none
  construct (StateAnchor.make chainId height stateRoot parent mac authScheme)

end

section
variable (N : IntConversions)

theorem ok_bind {α β : Type} (a : α) (f : α → Except WireError β) : (.ok a >>= f)=f a := rfl

theorem hexBytes_of_item {d : WireDict} {name : String} {b : Bytes} {expected : Option ℕ}
    (h : item d name=.ok (hexText b)) (hs : ∀ n ∈ expected, b.length=n) :
    hexBytes d name expected=.ok b := by
  simp only [hexBytes,h,hexText,PyValue.hex,bind,Except.bind,String.toList_ofList,
    PyValue.fromHexText_hexDigits]
  cases expected with
  | none => rfl
  | some n => exact if_neg (not_not.mpr (hs n rfl))

theorem intField_of_item {d : WireDict} {name : String} {n : ℤ} (h : item d name=.ok (.int n))
    (hn : 0≤n) : intField N d name true=.ok n := by
  simp [intField,h,toInt,orWireFormat,bind,Except.bind,not_lt.mpr hn]

theorem AttestationPayload.make_self (p : AttestationPayload) :
    make p.sourceChain p.targetChain p.sourceHeight p.stateRoot p.timestampRound=.ok p := by
  rw [make,dif_pos p.length_stateRoot]
  rfl

theorem DidRotationStatement.make_self (s : DidRotationStatement) :
    make s.did s.oldDocHash s.newDocHash s.sourceChain s.targetChain s.sourceHeight=.ok s := by
  rw [make,dif_pos s.length_did,dif_pos s.length_oldDocHash,dif_pos s.length_newDocHash]
  rfl

theorem StateAnchor.make_self (a : StateAnchor) :
    make a.chainId a.height a.stateRoot a.parent a.mac a.authScheme=.ok a := by
  have hc : (0 : ℤ)≤a.chainId ∧ (a.chainId : ℤ)<(2^32 : ℕ) :=
    ⟨by omega,Int.ofNat_lt.mpr a.chainId_lt⟩
  have hh : (0 : ℤ)≤a.height ∧ (a.height : ℤ)<(2^64 : ℕ) :=
    ⟨by omega,Int.ofNat_lt.mpr a.height_lt⟩
  rw [make,dif_pos hc,dif_pos hh,dif_pos a.length_stateRoot,dif_pos a.length_parent,
    dif_pos a.length_mac]
  rfl

theorem attestationPayload_roundTrip (p : AttestationPayload) :
    attestationPayloadFromDict N (attestationPayloadToDict p)=.ok p := by
  rw [attestationPayloadFromDict,hexBytes_of_item rfl (by simp [p.length_stateRoot])]
  exact congrArg construct p.make_self

def WitnessSignature.InRange (w : WitnessSignature) : Prop :=
  0≤w.witness ∧ w.signature.length=96

theorem witnessSignature_roundTrip {w : WitnessSignature} (h : w.InRange) :
    witnessSignatureFromDict N (witnessSignatureToDict w)=.ok w := by
  rw [witnessSignatureFromDict,intField_of_item N rfl h.1,
    hexBytes_of_item rfl (by simp [h.2])]
  rfl

theorem mapM_toInt (signers : List ℤ) : (signers.map Json.int).mapM (toInt N)=.ok signers := by
  induction signers with
  | nil => rfl
  | cons signer rest ih =>
    rw [List.map_cons,List.mapM_cons,ih]
    rfl

def CorridorAttestation.InRange (a : CorridorAttestation) : Prop :=
  a.aggregateSignature.length=96

theorem corridorAttestation_roundTrip {a : CorridorAttestation} (h : a.InRange) :
    corridorAttestationFromDict N (corridorAttestationToDict a)=.ok a := by
  have hl : listField (corridorAttestationToDict a) "signers" =
      .ok ((PyValue.sorted (· ≤ ·) a.signers).map Json.int) := rfl
  have hd : dictField (corridorAttestationToDict a) "payload" =
      .ok (attestationPayloadToDict a.payload) := rfl
  have hs : (PyValue.sorted (· ≤ ·) a.signers).toFinset=a.signers := by
    ext signer
    rw [List.mem_toFinset,PyValue.mem_sorted]
  rw [corridorAttestationFromDict,hl,hd,hexBytes_of_item rfl (by simp [show _ = 96 from h])]
  simp only [ok_bind,mapM_toInt,orWireFormat,attestationPayload_roundTrip,hs]
  rfl

def SuperNode.InRange (s : SuperNode) : Prop :=
  0 ≤ s.authority ∧ 0 ≤ s.corridor ∧ s.blsPublicKey.length=48 ∧ (s.pop=[] ∨ s.pop.length=96)

theorem popField_superNodeToDict {s : SuperNode} (h : s.pop=[] ∨ s.pop.length=96) :
    popField N (superNodeToDict s)=.ok s.pop := by
  have hl : lookup (superNodeToDict s) "pop" = some (hexText s.pop) := rfl
  rw [popField,hl]
  rcases h with hn|hle
  · rw [hn]
    rfl
  · have ht : truthy N (hexText s.pop)=true := by
      obtain ⟨b,rest,hp⟩ : ∃ b rest, s.pop=b::rest :=
        List.exists_cons_of_length_pos (by omega)
      simp [truthy,hexText,PyValue.hex,hp,PyValue.hexDigits]
    simp only [ht,if_true]
    exact hexBytes_of_item rfl (by simp [hle])

theorem superNode_roundTrip {s : SuperNode} (h : s.InRange) :
    superNodeFromDict N (superNodeToDict s)=.ok s := by
  rw [superNodeFromDict,popField_superNodeToDict N h.2.2.2,
    intField_of_item N rfl h.1,intField_of_item N rfl h.2.1,
    hexBytes_of_item rfl (by simp [h.2.2.1])]
  rfl

def Corridor.InRange (c : Corridor) : Prop := 0≤c.id ∧ ∀ m ∈ c.members, m.InRange

theorem mapM_memberFromDict {members : List SuperNode} (h : ∀ m ∈ members, m.InRange) (i : ℕ) :
    ((members.map fun m => Json.obj (superNodeToDict m)).zipIdx i).mapM (memberFromDict N) =
      .ok members := by
  induction members generalizing i with
  | nil => rfl
  | cons m rest ih =>
    rw [List.forall_mem_cons] at h
    rw [List.map_cons,List.zipIdx_cons,List.mapM_cons,memberFromDict,superNode_roundTrip N h.1,
      ih h.2]
    rfl

theorem corridor_roundTrip {c : Corridor} (h : c.InRange) :
    corridorFromDict N (corridorToDict c)=.ok c := by
  have hl : listField (corridorToDict c) "members" =
      .ok (c.members.map fun m => .obj (superNodeToDict m)) := rfl
  rw [corridorFromDict,hl,intField_of_item N rfl h.1]
  simp only [ok_bind,mapM_memberFromDict N h.2]
  rfl

theorem cid_roundTrip (c : Cid) : cidFromDict (cidToDict c)=.ok c := by
  rw [cidToDict,hexText,cidFromDict,PyValue.hex,String.toList_ofList,PyValue.fromHexText_hexDigits]
  simp [Cid.make,dif_pos c.length_value,orWireFormat]

def DaSla.InRange (s : DaSla) : Prop := 0 ≤ s.retentionRounds ∧ 0 ≤ s.maxRetrievalLatencyRounds

theorem daSla_roundTrip {s : DaSla} (h : s.InRange) : daSlaFromDict N (daSlaToDict s)=.ok s := by
  rw [daSlaFromDict,intField_of_item N rfl h.1,
    intField_of_item N rfl h.2]
  rfl

def Commitment.InRange (c : Commitment) : Prop :=
  0≤c.sizeBytes ∧ 0≤c.storedAt ∧ c.sla.InRange

theorem commitment_roundTrip {c : Commitment} (h : c.InRange) :
    commitmentFromDict N (commitmentToDict c)=.ok c := by
  have hc : item (commitmentToDict c) "cid" = .ok (cidToDict c.cid) := rfl
  have hs : dictField (commitmentToDict c) "sla" = .ok (daSlaToDict c.sla) := rfl
  rw [commitmentFromDict,hc,hs,intField_of_item N rfl h.1,
    intField_of_item N rfl h.2.1]
  simp only [ok_bind,cid_roundTrip,daSla_roundTrip N h.2.2]
  rfl

theorem didRotationStatement_roundTrip (s : DidRotationStatement) :
    didRotationStatementFromDict N (didRotationStatementToDict s)=.ok s := by
  rw [didRotationStatementFromDict,hexBytes_of_item rfl (by simp [s.length_did]),
    hexBytes_of_item rfl (by simp [s.length_oldDocHash]),
    hexBytes_of_item rfl (by simp [s.length_newDocHash])]
  exact congrArg construct s.make_self

def DidStarkProof.InRange (p : DidStarkProof) : Prop := 0≤p.signingMethodId

theorem didStarkProof_roundTrip {p : DidStarkProof} (h : p.InRange) :
    didStarkProofFromDict N (didStarkProofToDict p)=.ok p := by
  have hs : dictField (didStarkProofToDict p) "statement" =
      .ok (didRotationStatementToDict p.statement) := rfl
  rw [didStarkProofFromDict,hs,intField_of_item N rfl h,
    hexBytes_of_item rfl (by simp),
    hexBytes_of_item rfl (by simp)]
  simp only [ok_bind,didRotationStatement_roundTrip]
  rfl

theorem schemeOf_value (scheme : AuthScheme) : schemeOf scheme.value=.ok scheme := by
  cases scheme <;> rfl

theorem AuthScheme.value_nonneg (scheme : AuthScheme) : 0 ≤ scheme.value := by
  cases scheme <;> decide

theorem stateAnchor_roundTrip (a : StateAnchor) :
    stateAnchorFromDict N (stateAnchorToDict a)=.ok a := by
  rw [stateAnchorFromDict,intField_of_item N rfl a.authScheme.value_nonneg,
    intField_of_item N rfl (by omega),
    intField_of_item N rfl (by omega),
    hexBytes_of_item rfl (by simp [a.length_stateRoot]),
    hexBytes_of_item rfl (by simp [a.length_parent]),
    hexBytes_of_item rfl (by simp)]
  rw [ok_bind,schemeOf_value]
  repeat rw [ok_bind]
  rw [a.make_self]
  rfl

end

inductive WireType
  | attestationPayload
  | witnessSignature
  | corridorAttestation
  | superNode
  | corridor
  | cid
  | daSla
  | commitment
  | didRotationStatement
  | didStarkProof
  | stateAnchor

namespace WireType
variable (N : IntConversions)

def Value : WireType → Type
  | attestationPayload => AttestationPayload
  | witnessSignature => WitnessSignature
  | corridorAttestation => CorridorAttestation
  | superNode => SuperNode
  | corridor => Corridor
  | cid => Cid
  | daSla => DaSla
  | commitment => Commitment
  | didRotationStatement => DidRotationStatement
  | didStarkProof => DidStarkProof
  | stateAnchor => StateAnchor

def Wire : WireType → Type
  | cid => Json
  | _ => WireDict

def toDict : (t : WireType) → t.Value → t.Wire
  | attestationPayload => attestationPayloadToDict
  | witnessSignature => witnessSignatureToDict
  | corridorAttestation => corridorAttestationToDict
  | superNode => superNodeToDict
  | corridor => corridorToDict
  | cid => cidToDict
  | daSla => daSlaToDict
  | commitment => commitmentToDict
  | didRotationStatement => didRotationStatementToDict
  | didStarkProof => didStarkProofToDict
  | stateAnchor => stateAnchorToDict

def fromDict : (t : WireType) → t.Wire → Except WireError t.Value
  | attestationPayload => attestationPayloadFromDict N
  | witnessSignature => witnessSignatureFromDict N
  | corridorAttestation => corridorAttestationFromDict N
  | superNode => superNodeFromDict N
  | corridor => corridorFromDict N
  | cid => cidFromDict
  | daSla => daSlaFromDict N
  | commitment => commitmentFromDict N
  | didRotationStatement => didRotationStatementFromDict N
  | didStarkProof => didStarkProofFromDict N
  | stateAnchor => stateAnchorFromDict N

/-- The ranges of the wire, where the constructor of the type does not check them itself:
no negative number, and the sizes of keys and signatures. -/
def InRange : (t : WireType) → t.Value → Prop
  | attestationPayload => fun _ => True
  | witnessSignature => WitnessSignature.InRange
  | corridorAttestation => CorridorAttestation.InRange
  | superNode => SuperNode.InRange
  | corridor => Corridor.InRange
  | cid => fun _ => True
  | daSla => DaSla.InRange
  | commitment => Commitment.InRange
  | didRotationStatement => fun _ => True
  | didStarkProof => DidStarkProof.InRange
  | stateAnchor => fun _ => True

theorem fromDict_toDict (t : WireType) (x : t.Value) (h : t.InRange x) :
    t.fromDict N (t.toDict x)=.ok x := by
  cases t with
  | attestationPayload => exact attestationPayload_roundTrip N x
  | witnessSignature => exact witnessSignature_roundTrip N h
  | corridorAttestation => exact corridorAttestation_roundTrip N h
  | superNode => exact superNode_roundTrip N h
  | corridor => exact corridor_roundTrip N h
  | cid => exact cid_roundTrip x
  | daSla => exact daSla_roundTrip N h
  | commitment => exact commitment_roundTrip N h
  | didRotationStatement => exact didRotationStatement_roundTrip N x
  | didStarkProof => exact didStarkProof_roundTrip N h
  | stateAnchor => exact stateAnchor_roundTrip N x

theorem twoMembers_read_back :
    let c : Corridor := ⟨4,[⟨0,4,List.replicate 48 7,[]⟩,
      ⟨1,4,List.replicate 48 8,List.replicate 96 9⟩]⟩
    InRange corridor c ∧
      fromDict ⟨fun _ => .ok 0,fun _ => some 0,fun _ => false⟩ corridor (toDict corridor c) =
        .ok c :=
  have h : Corridor.InRange ⟨4,[⟨0,4,List.replicate 48 7,[]⟩,
      ⟨1,4,List.replicate 48 8,List.replicate 96 9⟩]⟩ :=
    ⟨by decide,by simp [SuperNode.InRange]⟩
  ⟨h,fromDict_toDict _ corridor _ h⟩

end WireType

end LatticeTransfer.Corridors
