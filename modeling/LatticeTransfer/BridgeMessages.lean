import LatticeTransfer.SignedEnvelope
import LatticeTransfer.TransferProtocol

/-!
# The messages of the bridge

`BridgeMessage` with its canonical JSON text, the commitment the source chain makes for
it and the packet a relayer carries. The fields have the types they are declared with;
the payload and the timestamp are JSON values the bridge never looks into. Reading the
canonical text gives the message back with the keys of its payload in order.
-/

namespace LatticeTransfer
open CommitmentLog JsonText

structure BridgeMessage where
  msgType : String
  sourceChain : String
  destChain : String
  sender : String
  recipient : String
  payload : Json
  nonce : ℤ
  timestamp : Json
deriving DecidableEq

namespace BridgeMessage

@[irreducible] def toCanonicalBytes (message : BridgeMessage) : Bytes :=
  encodeText (dumps (sortKeys (.obj
    [("msg_type",.str message.msgType),("source_chain",.str message.sourceChain),
      ("dest_chain",.str message.destChain),("sender",.str message.sender),
      ("recipient",.str message.recipient),("payload",message.payload),
      ("nonce",.int message.nonce),("timestamp",message.timestamp)])))

def fieldNames : List String :=
  ["msg_type","source_chain","dest_chain","sender","recipient","payload","nonce","timestamp"]

def argument (d : Json) (key : String) (default : Option Json) : Except PyError Json :=
  match d.item key with
  | .error .keyError => (default.map Except.ok).getD (.error .typeError)
  | result => result

def integer : Json → Except PyError ℤ
  | .int n => .ok n
  | _ => .error .typeError

def ofFields (now : Json) (d : Json) : Except PyError BridgeMessage := do
  let msgType ← (← argument d "msg_type" none).text
  let sourceChain ← (← argument d "source_chain" none).text
  let destChain ← (← argument d "dest_chain" none).text
  let sender ← (← argument d "sender" none).text
  let recipient ← (← argument d "recipient" none).text
  let payload ← argument d "payload" none
  let nonce ← integer (← argument d "nonce" none)
  let timestamp ← argument d "timestamp" (some now)
  return ⟨msgType,sourceChain,destChain,sender,recipient,payload,nonce,timestamp⟩

@[irreducible] def fromBytes (now : Json) (data : Bytes) : Except PyError BridgeMessage := do
  match ← LatticeKey.loadsBytes data with
  | .obj fields =>
    if fields.all fun f => fieldNames.contains f.1 then ofFields now (.obj fields)
    else .error .typeError
  | _ => .error .typeError

def canonical (message : BridgeMessage) : BridgeMessage :=
  {message with payload := sortKeys message.payload,timestamp := sortKeys message.timestamp}

def sortedFields (message : BridgeMessage) : List (String × Json) :=
  [("dest_chain",.str message.destChain),("msg_type",.str message.msgType),
    ("nonce",.int message.nonce),("payload",sortKeys message.payload),
    ("recipient",.str message.recipient),("sender",.str message.sender),
    ("source_chain",.str message.sourceChain),("timestamp",sortKeys message.timestamp)]

theorem toCanonicalBytes_eq (m : BridgeMessage) :
    m.toCanonicalBytes=encodeText (dumps (.obj m.sortedFields)) := by
  simp [toCanonicalBytes,sortKeys,sortFields,sortedFields]

theorem fromBytes_toCanonicalBytes (now : Json) (m : BridgeMessage) :
    fromBytes now m.toCanonicalBytes=.ok m.canonical := by
  rw [toCanonicalBytes_eq,fromBytes,LatticeKey.loadsBytes_dumps]
  simp [sortedFields,fieldNames,ofFields,argument,Json.item,Json.text,integer,canonical,
    bind,Except.bind,pure,Except.pure]

end BridgeMessage

def bridgeShape : String := "application/vnd.etp.bridge-message+json"

theorem canonicalizeShape_bridgeShape : Shape.canonicalizeShape bridgeShape=.ok bridgeShape := by
  decide +kernel

def BridgeMessage.entity (message : BridgeMessage) : Entity :=
  ⟨message.toCanonicalBytes,bridgeShape,bridgeShape,canonicalizeShape_bridgeShape⟩

abbrev HeldMessage := {m : BridgeMessage // m.entity.content.length≤2^63-1}

def HeldMessage.held (message : HeldMessage) : HeldEntity := ⟨message.val.entity,message.property⟩

structure BridgeCommitment where
  message : BridgeMessage
  entityId : String
  commitmentRef : String
  merkleProof : LogProof
  sourceBlock : ℤ

structure RelayPacket where
  sealedKey : Bytes
  sourceChain : String
  destChain : String
  nonce : ℤ
  sourceBlock : ℤ
  entityId : String
  relayEnvelope : Option SignedEnvelope

end LatticeTransfer
