import LatticeTransfer.ChallengeManager
import LatticeTransfer.EntityIdentity

/-!
# The gateway of an external chain

`gateway_vm`: the daemon that scans an external chain for the events of a bridge contract,
validates each of them, signs an attestation and anchors it. A tick first tries again what could
not be anchored before and then polls. The poll moves the cursor behind the events it hands out
before any of them is looked at.

The logs of the final blocks are a fixed history without two logs of one place. What else a tick
reads from outside is one of its arguments: the answers of the RPC nodes, of the database file,
of the clock and of the anchor call, which may raise after it took effect. The lists of what was
anchored, dropped and rejected record what happened; nothing reads them.
-/

namespace LatticeTransfer.GatewayVM
open ChallengeManager CommitmentLog JsonText MerkleTree
open MerkleLog (MLDSA)
open ShardEncryption

def domainExternalEvent : Bytes := encodeText "SUWAPPU-LTP:external-event:v1\x00"
def domainGatewayAttest : Bytes := encodeText "SUWAPPU-LTP:gateway-attest:v1\x00"

def packUnsigned (w : ℕ) (n : ℤ) : Except PyError Bytes :=
  if n<0 then .error .structError else PyValue.pack w n.toNat

structure BridgeEvent where
  sourceChainId : ℤ
  bridgeContract : String
  txHash : String
  blockNumber : ℤ
  logIndex : ℤ
  eventName : String
  sender : String
  recipient : String
  payloadHash : String
  amount : ℤ
  nonce : ℤ
  timestamp : UInt64
deriving DecidableEq

namespace BridgeEvent

def keyBytes (event : BridgeEvent) : Bytes :=
  encodeText (str event.sourceChainId)++encodeText ":" ++ encodeText event.txHash ++
    encodeText ":" ++ encodeText (str event.logIndex)

def eventId (H : CanonicalHash) (event : BridgeEvent) : String :=
  canonicalHash H (domainExternalEvent++event.keyBytes)

def toSignableBytes (event : BridgeEvent) : Except PyError Bytes := do
  let sourceChainId ← packUnsigned 8 event.sourceChainId
  let blockNumber ← packUnsigned 8 event.blockNumber
  let logIndex ← packUnsigned 4 event.logIndex
  let amount ← packUnsigned 8 event.amount
  let nonce ← packUnsigned 8 event.nonce
  return encodeText "LTP-BRIDGE-EVENT-v1\x00" ++ sourceChainId++encodeText event.bridgeContract ++
    [0x00]++encodeText event.txHash++[0x00]++blockNumber++logIndex ++
    encodeText event.eventName++[0x00]++encodeText event.sender++[0x00] ++
    encodeText event.recipient++[0x00]++encodeText event.payloadHash++[0x00]++amount ++
    nonce++PyValue.toBigEndian 8 event.timestamp.toNat

def place (event : BridgeEvent) : String × ℤ := (event.txHash,event.logIndex)

end BridgeEvent

structure LogArgs where
  sender : Option String
  recipient : Option String
  payloadHash : Option String
  amount : Option ℤ
  nonce : Option ℤ

structure RawLog where
  address : Option String
  transactionHash : Option String
  blockNumber : Option ℤ
  logIndex : Option ℤ
  event : Option String
  args : Option LogArgs

namespace RawLog

def block (log : RawLog) : ℤ := log.blockNumber.getD 0

def toEvent (sourceChainId : ℤ) (timestamp : UInt64) (log : RawLog) : BridgeEvent :=
  let args := log.args.getD ⟨none,none,none,none,none⟩
  { sourceChainId := sourceChainId
    bridgeContract := log.address.getD ""
    txHash := log.transactionHash.getD ""
    blockNumber := log.block
    logIndex := log.logIndex.getD 0
    eventName := log.event.getD ""
    sender := args.sender.getD ""
    recipient := args.recipient.getD ""
    payloadHash := args.payloadHash.getD ""
    amount := args.amount.getD 0
    nonce := args.nonce.getD 0
    timestamp := timestamp}

def place (log : RawLog) : String × ℤ := (log.transactionHash.getD "",log.logIndex.getD 0)

end RawLog

/-- The logs of the final blocks; a transaction and an index are the place of one log only. -/
structure History where
  logs : List RawLog
  distinct : (logs.map RawLog.place).Nodup

def History.fetchLogs (history : History) (fromBlock toBlock : ℤ) : List RawLog :=
  history.logs.filter fun log => fromBlock≤log.block ∧ log.block≤toBlock

structure GatewayVMConfig (T : Type) where
  sourceChainId : ℤ
  sourceBridgeContract : String
  finalityDepth : ℤ
  destChainId : ℤ
  maxRetries : ℤ
  challengeMode : String
  challengePeriodSeconds : T

/-- The service with what it is built from. `lower` is the lower case of a text. -/
structure Gateway (P : SecurityProfile) (S : MLDSA) (K : MLKEM) (T : Type) where
  config : GatewayVMConfig T
  keypair : LatticeTransfer.KeyPair P S K
  hash : CanonicalHash
  lower : String → String
  startBlock : ℤ

inductive Rejection
  | chainMismatch (expected got : ℤ)
  | unauthorizedContract (expected got : String)
  | emptyEventName
  | emptyTransactionHash
  | reorg (eventBlock : ℤ) (ahead : ℕ)
  | insufficientFinality (depth required : ℤ)
  | replay (eventId : String)
  | signerNotAuthorized
  | emptyPayloadHash
  | malformedPayloadHash (payloadHash : String)
  | missingAddress
  | invalidBlockNumber (blockNumber : ℤ)
deriving DecidableEq

namespace Rejection

def ofContent : Rejection → Bool
  | chainMismatch _ _ | unauthorizedContract _ _ | emptyEventName | emptyTransactionHash
  | emptyPayloadHash | malformedPayloadHash _ | missingAddress | invalidBlockNumber _ => true
  | reorg _ _ | insufficientFinality _ _ | replay _ | signerNotAuthorized => false

end Rejection

structure ProcessedEvent where
  txHash : String
  blockNumber : ℤ

abbrev ReplayDB := Dict String ProcessedEvent

namespace ReplayDB

def isProcessed (db : ReplayDB) (eventId : String) : Bool := (db.get? eventId).isSome

def markProcessed (db : ReplayDB) (eventId txHash : String) (blockNumber : ℤ) : ReplayDB :=
  if isProcessed db eventId then db else db.set eventId ⟨txHash,blockNumber⟩

end ReplayDB

structure FinalityCheck where
  isFinal : Bool
  currentDepth : ℤ
  requiredDepth : ℤ

def finalityCheck (finalityDepth currentBlock blockNumber : ℤ) : FinalityCheck :=
  ⟨finalityDepth≤currentBlock-blockNumber,currentBlock-blockNumber,finalityDepth⟩

/-- The anchor call returns a transaction hash, or it raises without or with an effect on the
chain. -/
inductive AnchorAnswer
  | anchored (txHash : String)
  | failed (error : PyError)
  | failedAnchored (error : PyError)

structure Answers (T : Type) where
  blockNumber : Except PyError ℤ
  replayRead : Except PyError Unit
  signerAuthorized : Except PyError Bool
  entropy : Bytes
  anchor : AnchorAnswer
  replayWrite : Except PyError Unit
  clock : Except PyError T

structure GatewayAttestation where
  eventId : String
  sourceChainId : ℤ
  destChainId : ℤ
  digest : Bytes
  signerVkFingerprint : Bytes
  signature : Bytes
  eventBytes : Bytes
deriving DecidableEq

namespace Gateway
variable {P : SecurityProfile} {S : MLDSA} {K : MLKEM} {T : Type} (g : Gateway P S K T)

def checkOrigin (event : BridgeEvent) : Option Rejection :=
  if event.sourceChainId≠g.config.sourceChainId then
    some (.chainMismatch g.config.sourceChainId event.sourceChainId)
  else if g.lower event.bridgeContract≠g.lower g.config.sourceBridgeContract then
    some (.unauthorizedContract g.config.sourceBridgeContract event.bridgeContract)
  else if event.eventName = "" then some .emptyEventName
  else if event.txHash = "" then some .emptyTransactionHash
  else none

def checkPayload (event : BridgeEvent) : Option Rejection :=
  if event.payloadHash = "" then some .emptyPayloadHash
  else if ':' ∉ event.payloadHash.toList then some (.malformedPayloadHash event.payloadHash)
  else if event.sender = "" ∨ event.recipient = "" then some .missingAddress
  else if event.blockNumber≤0 then some (.invalidBlockNumber event.blockNumber)
  else none

def validate (answers : Answers T) (db : ReplayDB) (event : BridgeEvent) :
    Except PyError (Option Rejection) :=
  match g.checkOrigin event with
  | some rejection => .ok (some rejection)
  | none => do
    let currentBlock ← answers.blockNumber
    let finality := finalityCheck g.config.finalityDepth currentBlock event.blockNumber
    if !finality.isFinal then
      if finality.currentDepth<0 then
        return some (.reorg event.blockNumber finality.currentDepth.natAbs)
      else return some (.insufficientFinality finality.currentDepth finality.requiredDepth)
    else do
      answers.replayRead
      if ReplayDB.isProcessed db (event.eventId g.hash) then
        return some (.replay (event.eventId g.hash))
      else do
        let authorized ← answers.signerAuthorized
        if !authorized then return some .signerNotAuthorized
        else return checkPayload event

def createAttestation (entropy : Bytes) (event : BridgeEvent) :
    Except PyError GatewayAttestation := do
  let eventBytes ← event.toSignableBytes
  let digest := g.hash.run (domainGatewayAttest++eventBytes)
  let signature ← domainSign domainGatewayAttest g.keypair entropy eventBytes
  return ⟨event.eventId g.hash,event.sourceChainId,g.config.destChainId,digest,
    signerFingerprint g.hash g.keypair.vk,signature,eventBytes⟩

end Gateway

structure Retry where
  attestation : GatewayAttestation
  event : BridgeEvent
  attempts : ℤ
deriving DecidableEq

structure Service (T : Type) where
  epoch : ℕ
  cursor : ℤ
  replayDb : ReplayDB
  retryQueue : List Retry
  windows : Windows T
  anchored : List BridgeEvent
  dropped : List BridgeEvent
  rejected : List (BridgeEvent × Rejection)

structure GatewayVMTickResult where
  epoch : ℕ
  eventsObserved : ℕ
  eventsAccepted : ℕ
  eventsRejected : ℕ
  anchorFailures : ℕ
  retriesAttempted : ℕ
  pollFailed : Option PyError
deriving DecidableEq

/-- What the outside answers in one tick: the retries and the new events have their answers by
their position. -/
structure TickAnswers (T : Type) where
  clock : Except PyError T
  retries : ℕ → Answers T
  blockNumber : Except PyError ℤ
  fetch : Except PyError Unit
  timestamps : ℕ → UInt64
  events : ℕ → Answers T

namespace Gateway
variable {P : SecurityProfile} {S : MLDSA} {K : MLKEM} {T : Type} [LinearOrder T] [Add T] [Zero T]
  (g : Gateway P S K T) (history : History)

def optimistic : Bool := g.config.challengeMode = "optimistic"

def onWindows {α : Type} (m : Method (Windows T) α) : Method (Service T) α :=
  m.on Service.windows fun s windows => {s with windows := windows}

def openWindow (clock : Except PyError T) (entityId : String) (anchorDigest : Bytes) :
    Method (Windows T) (ChallengeRecord T) :=
  match clock with
  | .ok now => openChallengeWindow g.config.challengePeriodSeconds now entityId anchorDigest
  | .error e =>
    if anchorDigest.length=32 then throw e
    else openChallengeWindow g.config.challengePeriodSeconds 0 entityId anchorDigest

def anchorFailed (attestation : GatewayAttestation) (event : BridgeEvent) (fromRetry : Bool)
    (result : GatewayVMTickResult) : Method (Service T) (Bool × GatewayVMTickResult) := do
  modify fun s => if fromRetry then s else
    {s with retryQueue := s.retryQueue++[⟨attestation,event,1⟩]}
  return (false,{result with anchorFailures := result.anchorFailures+1})

def noteAnchored (event : BridgeEvent) : Method (Service T) Unit :=
  modify fun s => {s with anchored := s.anchored++[event]}

def noteProcessed (event : BridgeEvent) : Method (Service T) Unit := do
  let eventId := event.eventId g.hash
  modify fun s => {s with
    replayDb := ReplayDB.markProcessed s.replayDb eventId event.txHash event.blockNumber}

def openEventWindow (clock : Except PyError T) (attestation : GatewayAttestation)
    (event : BridgeEvent) : Method (Service T) Unit :=
  if g.optimistic then
    discard (onWindows (g.openWindow clock (event.eventId g.hash) (attestation.digest.take 32)))
  else pure ()

def tryAnchor (answers : Answers T) (attestation : GatewayAttestation) (event : BridgeEvent)
    (fromRetry : Bool) (result : GatewayVMTickResult) :
    Method (Service T) (Bool × GatewayVMTickResult) :=
  match answers.anchor with
  | .failed _ => anchorFailed attestation event fromRetry result
  | .failedAnchored _ => do
    noteAnchored event
    anchorFailed attestation event fromRetry result
  | .anchored _ => do
    noteAnchored event
    Method.call answers.replayWrite
    g.noteProcessed event
    g.openEventWindow answers.clock attestation event
    return (true,result)

def tickChallenges (clock : Except PyError T) : Method (Service T) Unit :=
  if g.optimistic then do
    let now ← Method.call clock
    discard (onWindows (ChallengeManager.tick now none))
  else pure ()

structure RetryPass where
  remaining : List Retry
  dropped : List BridgeEvent
  result : GatewayVMTickResult

def retryOne (pass : RetryPass) (entry : Retry × Answers T) : Method (Service T) RetryPass :=
  if g.config.maxRetries≤entry.1.attempts then
    return {pass with
      dropped := pass.dropped++[entry.1.event]
      result := {pass.result with anchorFailures := pass.result.anchorFailures+1}}
  else do
    let (anchored,result) ← g.tryAnchor entry.2 entry.1.attestation entry.1.event true
      {pass.result with retriesAttempted := pass.result.retriesAttempted+1}
    return {pass with
      remaining := if anchored then pass.remaining else
        pass.remaining++[{entry.1 with attempts := entry.1.attempts+1}]
      result := result}

def processRetries (answers : TickAnswers T) (result : GatewayVMTickResult) :
    Method (Service T) GatewayVMTickResult := do
  let entries := (← get).retryQueue.mapIdx fun i entry => (entry,answers.retries i)
  let pass ← entries.foldlM g.retryOne ⟨[],[],result⟩
  modify fun s => {s with retryQueue := pass.remaining,dropped := s.dropped++pass.dropped}
  return pass.result

def readLogs (timestamps : ℕ → UInt64) (logs : List RawLog) : List BridgeEvent :=
  logs.mapIdx fun i log => log.toEvent g.config.sourceChainId (timestamps i)

def nextCursor (cursor safeBlock : ℤ) (events : List BridgeEvent) : ℤ :=
  if events=[] then safeBlock+1
  else events.foldl (fun maxBlock event => max maxBlock event.blockNumber) cursor+1

def poll (answers : TickAnswers T) : Method (Service T) (List BridgeEvent) := do
  let currentBlock ← Method.call answers.blockNumber
  let safeBlock := currentBlock-g.config.finalityDepth
  let cursor := (← get).cursor
  if safeBlock<cursor then return []
  else do
    Method.call answers.fetch
    let events := g.readLogs answers.timestamps (history.fetchLogs cursor safeBlock)
    modify fun s => {s with cursor := nextCursor cursor safeBlock events}
    return events

def handleEvent (result : GatewayVMTickResult) (entry : BridgeEvent × Answers T) :
    Method (Service T) GatewayVMTickResult := do
  let db := (← get).replayDb
  match ← Method.call (g.validate entry.2 db entry.1) with
  | some rejection => do
    modify fun s => {s with rejected := s.rejected++[(entry.1,rejection)]}
    return {result with eventsRejected := result.eventsRejected+1}
  | none => do
    let attestation ← Method.call (g.createAttestation entry.2.entropy entry.1)
    let (anchored,result) ← g.tryAnchor entry.2 attestation entry.1 false result
    return if anchored then {result with eventsAccepted := result.eventsAccepted+1} else result

def processEvents (answers : TickAnswers T) (result : GatewayVMTickResult) :
    Method (Service T) GatewayVMTickResult := do
  match ← (g.poll history answers).attempt with
  | .error e => return {result with pollFailed := some e}
  | .ok events =>
    (events.mapIdx fun i event => (event,answers.events i)).foldlM g.handleEvent
      {result with eventsObserved := events.length}

def tick (answers : TickAnswers T) : Method (Service T) GatewayVMTickResult := do
  modify fun s => {s with epoch := s.epoch+1}
  g.tickChallenges answers.clock
  let result ← g.processRetries answers ⟨(← get).epoch,0,0,0,0,0,none⟩
  g.processEvents history answers result

end Gateway

inductive GatewayInput (T : Type)
  | tick (answers : TickAnswers T)
  | challenges (windows : Windows T)

section
variable {P : SecurityProfile} {S : MLDSA} {K : MLKEM} {T : Type} [LinearOrder T] [Add T] [Zero T]

def Service.start (g : Gateway P S K T) : Service T :=
  ⟨0,g.startBlock,Dict.empty,[],Dict.empty,[],[],[]⟩

def gatewayService (g : Gateway P S K T) (history : History) :
    Machine (Service T) (GatewayInput T) (Except PyError GatewayVMTickResult) where
  start := Service.start g
  step s input := match input with
    | .tick answers => (((g.tick history answers).exec s).2,[((g.tick history answers).exec s).1])
    | .challenges windows => ({s with windows := windows},[])

end

end LatticeTransfer.GatewayVM
