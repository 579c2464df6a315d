import LatticeTransfer.AnchorRegistry
import LatticeTransfer.AnchorStatus
import LatticeTransfer.SignedEnvelope

/-!
# Numbering and batch submission of anchors

`AnchorScheduler`: a tick turns the new records of the commitment log into submissions, each with
the next sequence number of its signer, and hands the whole batch to the client when it is large
or old enough. If the submission ends in an exception, the counters go back to where they were
before the batch.

The client may raise although the transaction was mined, or is mined later.
-/

namespace LatticeTransfer.Anchoring
open CommitmentLog AnchorRegistry MerkleTree Solidity List
open Method (exec_attempt exec_bind keeps_get keeps_pure)
open PyValue (bind_ok mapM_ok_getD)

def domainAnchorDigest : Bytes := encodeText "SUWAPPU-LTP:anchor-digest:v1\x00"

structure AnchorSubmission where
  anchorDigest : Bytes
  merkleRoot : Bytes
  policyHash : Bytes
  signerVkHash : Bytes
  sequence : ℤ
  validUntil : ℤ
  targetChainId : ℤ
  receiptType : String
  entityIdHash : Bytes

def bytes32 (b : Bytes) : Bytes32 := BitVec.ofNat 256 (PyValue.ofBigEndian b)

def abiBytes32 (b : Bytes) : Except PyError Bytes32 :=
  if b.length=32 then .ok (bytes32 b) else .error .typeError

def abiUint64 (n : ℤ) : Except PyError Uint64 :=
  if 0≤n ∧ n<2^64 then .ok (BitVec.ofNat 64 n.toNat) else .error .typeError

def receiptTypeOrdinals : List (String × Uint8) :=
  [("COMMIT",0),("MATERIALIZE",1),("SHARD_AUDIT_PASS",2),("KEY_ROTATION",3),
    ("DELETION",4),("GOVERNANCE",5)]

def encodeBatch (submissions : List AnchorSubmission) : Except PyError BatchItems := do
  let anchorDigests ← submissions.mapM fun s => abiBytes32 s.anchorDigest
  let entityIdHashes ← submissions.mapM fun s => abiBytes32 s.entityIdHash
  let merkleRoots ← submissions.mapM fun s => abiBytes32 s.merkleRoot
  let policyHashes ← submissions.mapM fun s => abiBytes32 s.policyHash
  let signerVkHashes ← submissions.mapM fun s => abiBytes32 s.signerVkHash
  let sequences ← submissions.mapM fun s => abiUint64 s.sequence
  let validUntils ← submissions.mapM fun s => abiUint64 s.validUntil
  let receiptTypes := submissions.map fun s =>
    (receiptTypeOrdinals.lookup s.receiptType).getD 0
  return ⟨anchorDigests,entityIdHashes,merkleRoots,policyHashes,signerVkHashes,sequences,
    validUntils,receiptTypes⟩

/-- A number that was handed to the client, with the mark of its signer at that moment. -/
structure SubmittedNumber where
  signerVkHash : Bytes
  sequence : ℤ
  mark : ℤ
deriving DecidableEq

/-- The registry, the transactions that were sent and not mined, with the number of their call,
and the calls of `batch_anchor`. -/
structure ClientSide where
  registry : Registry
  mempool : List (ℕ × BatchItems)
  calls : List (List SubmittedNumber)

namespace ClientSide
variable (c : ClientSide)

def mark (vk : Bytes) : ℤ := (c.registry.signerSequences (bytes32 vk)).toNat

def accepts (env : Env) (items : BatchItems) : Bool :=
  (c.registry.call env (.batchAnchor items)).isOk

def execute (env : Env) (items : BatchItems) : ClientSide :=
  {c with registry := settle c.registry (c.registry.call env (.batchAnchor items))}

def send (mined : Option Env) (submissions : List AnchorSubmission) : ClientSide :=
  let call := c.calls.length
  let c := {c with calls := c.calls++[submissions.map fun s =>
    ⟨s.signerVkHash,s.sequence,c.mark s.signerVkHash⟩]}
  match encodeBatch submissions, mined with
  | .error _, _ => c
  | .ok items, some env => c.execute env items
  | .ok items, none => {c with mempool := c.mempool++[(call,items)]}

def mine (env : Env) (i : ℕ) : ClientSide :=
  match c.mempool[i]? with
  | none => c
  | some (_,items) => {c with mempool := c.mempool.eraseIdx i}.execute env items

end ClientSide

structure SchedulerConfig (T : Type) where
  signerVk : Bytes
  chainId : ℤ
  anchorBatchSize : ℤ
  anchorMaxWaitSeconds : T
  anchorChainId : ℤ

structure AnchorTickResult where
  epoch : ℕ
  recordsPolled : ℕ := 0
  recordsQueued : ℕ := 0
  recordsSkipped : ℕ := 0
  batchSubmitted : Bool := false
  batchSize : ℕ := 0
  txHash : String := ""
  error : String := ""
  pendingBatchSize : ℕ := 0

structure Scheduler (T : Type) where
  lastSeenIndex : ℕ
  pendingBatch : List (String × AnchorSubmission)
  batchOldestAt : Option T
  signerSequences : Dict Bytes ℤ

structure World (T : Type) where
  scheduler : Scheduler T
  tracker : Tracker T
  client : ClientSide
  rolledBack : List ℕ

structure PolledRecord (T : Type) where
  entityId : String
  record : CommitmentRecord
  seconds : ℤ
  stamp : T
  monotonic : T

/-- What a call of `batch_anchor` meets: the block that mines its transaction, if one does; its
answer; and what other components do to the tracker until it answers. -/
structure Outcome (T : Type) where
  mined : Option Env
  answer : Except PyError String
  meanwhile : Tracker T → Tracker T

structure TickInput (T : Type) where
  epoch : ℕ
  polled : Except PyError (List (PolledRecord T))
  monotonic : T
  outcome : Outcome T

namespace World
variable {T : Type}

def onTracker {α : Type} (m : Method (Tracker T) α) : Method (World T) α :=
  m.on tracker fun w tracker => {w with tracker := tracker}

def counter (w : World T) (vk : Bytes) : ℤ := (w.scheduler.signerSequences.get? vk).getD 0

def setCounters (w : World T) (sequences : Dict Bytes ℤ) : World T :=
  {w with scheduler := {w.scheduler with signerSequences := sequences}}

def nextSequence (vk : Bytes) : Method (World T) ℤ := do
  let next := (← get).counter vk+1
  modify fun w => w.setCounters (w.scheduler.signerSequences.set vk next)
  return next

def afterColon (text : String) : List Char :=
  if ':' ∈ text.toList then (text.toList.dropWhile (· ≠ ':')).drop 1 else text.toList

variable (H : CanonicalHash) (config : SchedulerConfig T)

def recordToSubmission (entityId : String) (record : CommitmentRecord) (seconds : ℤ) :
    Method (World T) AnchorSubmission := do
  let recordBytes ← Method.call record.toBytes
  match PyValue.fromHexText (afterColon record.shardMapRoot) with
  | none => throw (.valueError "non-hexadecimal number found in fromhex() arg")
  | some merkleRoot => do
    let vk := if record.senderVk=[] then config.signerVk else record.senderVk
    let signerVkHash := signerFingerprint H vk
    let sequence ← nextSequence signerVkHash
    return {
      anchorDigest := H.run (domainAnchorDigest++recordBytes)
      entityIdHash := H.run (encodeText entityId)
      merkleRoot := merkleRoot
      policyHash := List.replicate 32 0
      signerVkHash := signerVkHash
      sequence := sequence
      validUntil := seconds+3600
      targetChainId := config.anchorChainId
      receiptType := "COMMIT" }

def addPending (entityId : String) (submission : AnchorSubmission) (monotonic : T)
    (w : World T) : World T :=
  {w with scheduler := {w.scheduler with
      pendingBatch := w.scheduler.pendingBatch++[(entityId,submission)]
      batchOldestAt := some (w.scheduler.batchOldestAt.getD monotonic)}}

def queueRecord [Zero T] (result : AnchorTickResult) (polled : PolledRecord T) :
    Method (World T) AnchorTickResult := do
  modify fun w =>
    {w with scheduler := {w.scheduler with lastSeenIndex := w.scheduler.lastSeenIndex+1}}
  if ((← get).tracker.get? polled.entityId).isSome then
    return {result with recordsSkipped := result.recordsSkipped+1}
  else
    match ← (recordToSubmission H config polled.entityId polled.record polled.seconds).attempt with
    | .error _ => return result
    | .ok submission => do
      onTracker (Tracker.markPending polled.stamp polled.entityId submission.anchorDigest
        config.chainId)
      modify (addPending polled.entityId submission polled.monotonic)
      return {result with recordsQueued := result.recordsQueued+1}

def waiting (batch : List (String × AnchorSubmission)) (vk : Bytes) : ℕ :=
  batch.countP fun p => p.2.signerVkHash=vk

def seqSnapshot (batch : List (String × AnchorSubmission)) (sequences : Dict Bytes ℤ) :
    Dict Bytes ℤ :=
  batch.foldl (fun snapshot p =>
    if (snapshot.get? p.2.signerVkHash).isSome then snapshot
    else snapshot.set p.2.signerVkHash
      ((sequences.get? p.2.signerVkHash).getD 0-waiting batch p.2.signerVkHash)) Dict.empty

def batchAnchor (outcome : Outcome T) (submissions : List AnchorSubmission) :
    Method (World T) String := do
  modify fun w => {w with
    client := w.client.send outcome.mined submissions
    tracker := outcome.meanwhile w.tracker}
  Method.call (do
    let _ ← encodeBatch submissions
    outcome.answer)

def rollBack (call : ℕ) (batch : List (String × AnchorSubmission)) (snapshot : Dict Bytes ℤ)
    (result : AnchorTickResult) : Method (World T) AnchorTickResult := do
  modify fun w => {w with tracker := batch.foldl (fun tracker p =>
    ((Tracker.markFailed p.1 "batch submission failed").exec tracker).2) w.tracker}
  modify fun w => {w.setCounters (w.scheduler.signerSequences.update snapshot) with
    rolledBack := call::w.rolledBack}
  return {result with error := "batch submission failed (see logs)" }

def markBatch (batch : List (String × AnchorSubmission)) (txHash : String) :
    Method (World T) Unit :=
  batch.forM fun p => onTracker (Tracker.markSubmitted p.1 txHash)

def trySubmit (outcome : Outcome T) (call : ℕ) (batch : List (String × AnchorSubmission))
    (snapshot : Dict Bytes ℤ) (result : AnchorTickResult) :
    Method (World T) AnchorTickResult := do
  match ← (batchAnchor outcome (batch.map Prod.snd)).attempt with
  | .error _ => rollBack call batch snapshot result
  | .ok txHash => do
    let result := {result with batchSubmitted := true,txHash := txHash}
    match ← (markBatch batch txHash).attempt with
    | .error _ => rollBack call batch snapshot result
    | .ok _ => pure result

def clearBatch (w : World T) : World T :=
  {w with scheduler := {w.scheduler with pendingBatch := [],batchOldestAt := none}}

def submitBatch (outcome : Outcome T) (result : AnchorTickResult) :
    Method (World T) AnchorTickResult := do
  let w ← get
  let batch := w.scheduler.pendingBatch
  let result ← trySubmit outcome w.client.calls.length batch
    (seqSnapshot batch w.scheduler.signerSequences) {result with batchSize := batch.length}
  modify clearBatch
  return result

def shouldSubmit [LinearOrder T] [Sub T] (monotonic : T) (s : Scheduler T) : Bool :=
  config.anchorBatchSize ≤ s.pendingBatch.length ||
    (!s.pendingBatch.isEmpty &&
      s.batchOldestAt.any fun oldest => config.anchorMaxWaitSeconds ≤ monotonic-oldest)

def tick [Zero T] [LinearOrder T] [Sub T] (input : TickInput T) :
    Method (World T) AnchorTickResult := do
  match input.polled with
  | .error _ =>
    return { epoch := input.epoch
             error := "poll failed (see logs)"
             pendingBatchSize := (← get).scheduler.pendingBatch.length}
  | .ok newRecords => do
    let result ← newRecords.foldlM (queueRecord H config)
      {epoch := input.epoch,recordsPolled := newRecords.length}
    let result ← (do
      if shouldSubmit config input.monotonic (← get).scheduler then
        submitBatch input.outcome result
      else pure result)
    return {result with pendingBatchSize := (← get).scheduler.pendingBatch.length}

end World

inductive SchedulerInput (T : Type)
  | tick (input : TickInput T)
  | tracker (change : Tracker T → Tracker T)
  | mine (env : Env) (i : ℕ)
  | transaction (env : Env) (message : Message)

section
variable {T : Type} [Zero T] [LinearOrder T] [Sub T] (H : CanonicalHash)
  (config : SchedulerConfig T)

def SchedulerInput.apply (w : World T) : SchedulerInput T → World T
  | .tick input => ((World.tick H config input).exec w).2
  | .tracker change => {w with tracker := change w.tracker}
  | .mine env i => {w with client := w.client.mine env i}
  | .transaction env message => {w with client := {w.client with
      registry := settle w.client.registry (w.client.registry.call env message)}}

def World.start (registry : Registry) (tracker : Tracker T) (seeds : Dict Bytes ℤ) : World T where
  scheduler := ⟨0,[],none,seeds⟩
  tracker := tracker
  client := ⟨registry,[],[]⟩
  rolledBack := []

def anchorScheduler (registry : Registry) (tracker : Tracker T) (seeds : Dict Bytes ℤ) :
    Machine (World T) (SchedulerInput T) Empty where
  start := World.start registry tracker seeds
  step w input := (input.apply H config w,[])

end

variable {b : Bytes}

theorem toNat_bytes32 (hb : b.length=32) : (bytes32 b).toNat=PyValue.ofBigEndian b := by
  have hlt := PyValue.ofBigEndian_lt b
  rw [hb] at hlt
  rw [bytes32,BitVec.toNat_ofNat,Nat.mod_eq_of_lt (hlt.trans_eq (by norm_num))]

theorem bytes32_inj {a : Bytes} (ha : a.length=32) (hb : b.length=32)
    (h : bytes32 a=bytes32 b) : a=b := by
  have hn := congrArg BitVec.toNat h
  rw [toNat_bytes32 ha,toNat_bytes32 hb] at hn
  exact PyValue.ofBigEndian_inj (ha.trans hb.symm) hn

theorem abiBytes32_ok {word : Bytes32} (h : abiBytes32 b=.ok word) :
    b.length=32 ∧ word=bytes32 b := by
  rw [abiBytes32] at h
  split_ifs at h with hl
  exact ⟨hl,(Except.ok.inj h).symm⟩

theorem abiUint64_ok {n : ℤ} {word : Uint64} (h : abiUint64 n=.ok word) : (word.toNat : ℤ)=n := by
  rw [abiUint64] at h
  split_ifs at h with hr
  cases h
  rw [BitVec.toNat_ofNat]
  omega

theorem encodeBatch_ok {submissions : List AnchorSubmission} {items : BatchItems}
    (h : encodeBatch submissions=.ok items) {i : ℕ} (hi : i < items.anchorDigests.length) :
    ∃ s ∈ submissions, s.signerVkHash.length=32 ∧
      (Registry.itemAt items i).signerVkHash=bytes32 s.signerVkHash ∧
      ((Registry.itemAt items i).sequence.toNat : ℤ)=s.sequence := by
  obtain ⟨digests,hd,h⟩ := bind_ok h
  obtain ⟨_,_,h⟩ := bind_ok h
  obtain ⟨_,_,h⟩ := bind_ok h
  obtain ⟨_,_,h⟩ := bind_ok h
  obtain ⟨ss,hs,h⟩ := bind_ok h
  obtain ⟨sequences,hse,h⟩ := bind_ok h
  obtain ⟨_,_,h⟩ := bind_ok h
  cases h
  have hi : i<submissions.length := (PyValue.forall₂_of_mapM_ok hd).length_eq ▸ hi
  obtain ⟨hl,hsi⟩ := abiBytes32_ok (mapM_ok_getD hs hi 0)
  exact ⟨submissions.get ⟨i,hi⟩,get_mem _ _,hl,hsi,abiUint64_ok (mapM_ok_getD hse hi 0)⟩

def WithinBounds (items : BatchItems) (bound : Bytes → ℤ) : Prop :=
  ∀ vk, vk.length=32 → ∀ i < items.anchorDigests.length,
    (Registry.itemAt items i).signerVkHash=bytes32 vk →
      ((Registry.itemAt items i).sequence.toNat : ℤ)≤bound vk

theorem encodeBatch_withinBounds {submissions : List AnchorSubmission} {items : BatchItems}
    {bound : Bytes → ℤ} (h : encodeBatch submissions=.ok items)
    (hb : ∀ s ∈ submissions, s.sequence≤bound s.signerVkHash) : WithinBounds items bound := by
  intro vk hvk i hi hsi
  obtain ⟨s,hs,hl,hw,hse⟩ := encodeBatch_ok h hi
  obtain rfl := bytes32_inj hl hvk (hw.symm.trans hsi)
  rw [hse]
  exact hb s hs

namespace ClientSide
variable {c : ClientSide} {bound : Bytes → ℤ}

theorem execute_mark_le {env : Env} {items : BatchItems}
    (hm : ∀ vk, vk.length=32 → c.mark vk≤bound vk)
    (hit : c.accepts env items=true → WithinBounds items bound)
    {vk : Bytes} (hvk : vk.length=32) : (c.execute env items).mark vk≤bound vk := by
  rw [execute]
  rw [accepts] at hit
  cases hc : c.registry.call env (.batchAnchor items) with
  | error e => exact hm vk hvk
  | ok reg =>
    have hit := hit (by rw [hc]; rfl)
    rcases Registry.call_batchAnchor_mark hc (bytes32 vk) with hsa|⟨i,hi,hs,hma⟩
    · change ((reg.signerSequences (bytes32 vk)).toNat : ℤ)≤_
      rw [hsa]
      exact hm vk hvk
    · change ((reg.signerSequences (bytes32 vk)).toNat : ℤ)≤_
      rw [hma]
      exact hit vk hvk i hi hs

variable {mined : Option Env} {subs : List AnchorSubmission}

theorem send_calls : (c.send mined subs).calls=c.calls++[subs.map fun s =>
    ⟨s.signerVkHash,s.sequence,c.mark s.signerVkHash⟩] := by
  unfold send
  split <;> rfl

theorem mem_send_mempool {tx : ℕ × BatchItems} (h : tx ∈ (c.send mined subs).mempool) :
    tx ∈ c.mempool ∨ tx.1=c.calls.length ∧ encodeBatch subs=.ok tx.2 := by
  unfold send at h
  split at h
  next => exact .inl h
  next => exact .inl h
  next items hi =>
    rcases mem_append.mp h with ho|hn
    · exact .inl ho
    · obtain rfl := mem_singleton.mp hn
      exact .inr ⟨rfl,hi⟩

theorem send_mark_le (hm : ∀ vk, vk.length=32 → c.mark vk≤bound vk)
    (hi : ∀ env ∈ mined, ∀ items, encodeBatch subs=.ok items → c.accepts env items=true →
      WithinBounds items bound)
    {vk : Bytes} (hvk : vk.length=32) : (c.send mined subs).mark vk≤bound vk := by
  unfold send
  split
  next => exact hm vk hvk
  next items env he => exact execute_mark_le hm (hi env rfl items he) hvk
  next => exact hm vk hvk

end ClientSide

namespace World
variable {T : Type} (H : CanonicalHash) (config : SchedulerConfig T)

def base (w : World T) (vk : Bytes) : ℤ := w.counter vk-waiting w.scheduler.pendingBatch vk

structure Numbered (w : World T) : Prop where
  marks : ∀ vk, vk.length=32 → w.client.mark vk≤w.base vk
  pending : ∀ p ∈ w.scheduler.pendingBatch, p.2.signerVkHash.length=32 ∧ H.size=32 ∧
    w.base p.2.signerVkHash<p.2.sequence ∧ p.2.sequence≤w.counter p.2.signerVkHash
  mempool : ∀ tx ∈ w.client.mempool, tx.1 ∉ w.rolledBack → WithinBounds tx.2 w.base
  calls : ∀ call ∈ w.client.calls, ∀ n ∈ call, n.mark<n.sequence

theorem base_le_counter (w : World T) (vk : Bytes) : w.base vk≤w.counter vk := by
  rw [base]
  omega

theorem counter_setCounters (w : World T) (vk other : Bytes) (n : ℤ) :
    (w.setCounters (w.scheduler.signerSequences.set vk n)).counter other =
      if vk=other then n else w.counter other := by
  rw [counter,setCounters,Dict.get?_set]
  split_ifs <;> rfl

theorem waiting_concat (batch : List (String × AnchorSubmission)) (p : String × AnchorSubmission)
    (vk : Bytes) : waiting (batch++[p]) vk =
      waiting batch vk+if p.2.signerVkHash=vk then 1 else 0 := by
  rw [waiting,waiting]
  simp

theorem WithinBounds.mono {items : BatchItems} {bound bound' : Bytes → ℤ}
    (h : WithinBounds items bound) (hle : ∀ vk, bound vk≤bound' vk) : WithinBounds items bound' :=
  fun vk hvk i hi hs => (h vk hvk i hi hs).trans (hle vk)

variable {H}

variable {w w' : World T}

theorem Numbered.of_base_le (h : Numbered H w) (hc : w'.client=w.client)
    (hr : w'.rolledBack=w.rolledBack) (hb : ∀ vk, w.base vk≤w'.base vk)
    (hp : ∀ p ∈ w'.scheduler.pendingBatch, p.2.signerVkHash.length=32 ∧ H.size=32 ∧
      w'.base p.2.signerVkHash<p.2.sequence ∧ p.2.sequence≤w'.counter p.2.signerVkHash) :
    Numbered H w' where
  marks vk hvk := hc ▸ (h.marks vk hvk).trans (hb vk)
  pending := hp
  mempool tx htx hn := WithinBounds.mono
    (h.mempool tx (hc ▸ htx) (hr ▸ hn)) hb
  calls := hc ▸ h.calls

def Queues (H : CanonicalHash) (w w' : World T) : Prop := Numbered H w → Numbered H w'

instance : Std.Refl (Queues (T := T) H) := ⟨fun _ => id⟩

instance : IsTrans (World T) (Queues H) := ⟨fun _ _ _ h h' hw => h' (h hw)⟩

theorem recordToSubmission_exec (id : String) (record : CommitmentRecord) (seconds : ℤ)
    (w : World T) : (∃ e, (recordToSubmission H config id record seconds).exec w=(.error e,w)) ∨
      ∃ s, (recordToSubmission H config id record seconds).exec w =
          (.ok s,w.setCounters (w.scheduler.signerSequences.set s.signerVkHash s.sequence)) ∧
        s.sequence=w.counter s.signerVkHash+1 ∧ s.signerVkHash.length=H.size ∧
        s.anchorDigest.length=H.size := by
  rw [recordToSubmission,exec_bind,Method.exec_call]
  cases record.toBytes with
  | error e => exact .inl ⟨e,rfl⟩
  | ok recordBytes =>
    dsimp only
    split
    next => exact .inl ⟨_,rfl⟩
    next merkleRoot _ => exact .inr ⟨_,rfl,rfl,H.length_run _,H.length_run _⟩

theorem numbered_next (h : Numbered H w) {s : AnchorSubmission}
    (hs : s.sequence=w.counter s.signerVkHash+1) (hvk : s.signerVkHash.length=32)
    (hsi : H.size=32) (id : String) (monotonic : T) (tracker : Tracker T) :
    Numbered H (addPending id s monotonic
      {w.setCounters (w.scheduler.signerSequences.set s.signerVkHash s.sequence) with
        tracker := tracker}) := by
  set w' := addPending id s monotonic
    {w.setCounters (w.scheduler.signerSequences.set s.signerVkHash s.sequence) with
      tracker := tracker} with hw'
  have hc : ∀ vk, w'.counter vk=if s.signerVkHash=vk then s.sequence else w.counter vk :=
    fun vk => w.counter_setCounters s.signerVkHash vk s.sequence
  have hb : ∀ vk, w'.base vk=w.base vk := by
    intro vk
    have hw := waiting_concat w.scheduler.pendingBatch (id,s) vk
    change w'.counter vk-(waiting (w.scheduler.pendingBatch++[(id,s)]) vk : ℕ)=_
    rw [hc,hw,base]
    split_ifs with heq
    · subst heq
      omega
    · rfl
  refine h.of_base_le rfl rfl (fun vk => (hb vk).ge) fun p hp => ?_
  rw [hb,hc]
  rcases mem_append.mp hp with ho|hn
  · obtain ⟨hl,hsi,hlt,hle⟩ := h.pending p ho
    refine ⟨hl,hsi,hlt,?_⟩
    split_ifs with heq
    · rw [← heq] at hle
      omega
    · exact hle
  · obtain rfl := mem_singleton.mp hn
    rw [if_pos rfl]
    have hle := w.base_le_counter s.signerVkHash
    exact ⟨hvk,hsi,by dsimp only; omega,le_rfl⟩

theorem markPending_exec [Zero T] (now : T) (id : String) (digest : Bytes) (chainId : ℤ)
    (w : World T) : digest.length≠32 ∧
        (∃ e, (onTracker (Tracker.markPending now id digest chainId)).exec w = (.error e,w)) ∨
      digest.length=32 ∧ ∃ tracker, (onTracker (Tracker.markPending now id digest chainId)).exec w =
          (.ok (),{w with tracker := tracker}) := by
  rw [Tracker.markPending]
  by_cases hl : digest.length=32
  · exact .inr ⟨hl,_,by rw [if_neg (not_not.mpr hl)]; rfl⟩
  · exact .inl ⟨hl,_,by rw [if_pos hl]; rfl⟩

theorem keeps_queueRecord [Zero T] (result : AnchorTickResult) (polled : PolledRecord T) :
    Method.Keeps (Queues H) (queueRecord H config result polled) := by
  refine Method.Keeps.bind (Method.keeps_modify fun w h =>
    h.of_base_le rfl rfl (fun _ => le_rfl) h.pending) fun _ =>
    Method.Keeps.bind keeps_get fun w0 => ?_
  split_ifs
  · exact keeps_pure _
  intro w
  rw [exec_bind,exec_attempt]
  rcases recordToSubmission_exec config polled.entityId polled.record polled.seconds w with
    ⟨e,he⟩ | ⟨s,hok,hs,hvk,hd⟩
  · rw [he]
    exact Std.Refl.refl w
  · rw [hok]
    dsimp only
    rw [exec_bind]
    rcases markPending_exec polled.stamp polled.entityId s.anchorDigest config.chainId
      (w.setCounters (w.scheduler.signerSequences.set s.signerVkHash s.sequence)) with
      ⟨hl,e,hm⟩ | ⟨hl,tracker,hm⟩
    · rw [hm]
      refine fun h => h.of_base_le rfl rfl (fun vk => ?_) fun p hp => ?_
      · change _ ≤ (_ : ℤ)-(waiting w.scheduler.pendingBatch vk : ℕ)
        rw [base,counter_setCounters]
        split_ifs with heq
        · subst heq
          omega
        · exact le_rfl
      · -- a digest of another length is refused from the first record on
        exact absurd (hd.trans (h.pending p hp).2.1) hl
    · rw [hm]
      have hsi : H.size=32 := hd.symm.trans hl
      exact fun h =>
        numbered_next h hs (hvk.trans hsi) hsi polled.entityId polled.monotonic tracker

variable (H) in
def queueAll [Zero T] (input : TickInput T) : Method (World T) AnchorTickResult :=
  let records := input.polled.toOption.getD []
  records.foldlM (queueRecord H config) {epoch := input.epoch,recordsPolled := records.length}

theorem keeps_queueAll [Zero T] (input : TickInput T) :
    Method.Keeps (Queues H) (queueAll H config input) :=
  .foldlM (fun result polled _ => keeps_queueRecord config result polled) _

theorem foldl_first_get? (value : Bytes → ℤ) (batch : List (String × AnchorSubmission))
    (d : Dict Bytes ℤ) (hd : ∀ vk n, d.get? vk=some n → n=value vk) (vk : Bytes) :
    (batch.foldl (fun d p => if (d.get? p.2.signerVkHash).isSome then d
      else d.set p.2.signerVkHash (value p.2.signerVkHash)) d).get? vk =
      if 0<waiting batch vk then some (value vk) else d.get? vk := by
  induction batch generalizing d with
  | nil => rfl
  | cons p batch ih =>
    set d' := if (d.get? p.2.signerVkHash).isSome then d
      else d.set p.2.signerVkHash (value p.2.signerVkHash) with hd'
    have hg : d'.get? vk=if p.2.signerVkHash=vk then some (value vk) else d.get? vk := by
      rw [hd']
      split_ifs with hs heq heq
      · obtain ⟨n,hn⟩ := Option.isSome_iff_exists.mp hs
        rw [← heq,hn,hd _ n hn]
      · rfl
      · rw [heq,Dict.get?_set_self]
      · exact Dict.get?_set_ne d _ heq
    have hv : ∀ other n, d'.get? other=some n → n=value other := by
      intro other n hn
      rw [hd'] at hn
      split_ifs at hn
      · exact hd other n hn
      · rw [Dict.get?_set] at hn
        split_ifs at hn with heq
        · rw [← heq,← Option.some.inj hn]
        · exact hd other n hn
    have hw : waiting (p::batch) vk =
        waiting batch vk+if p.2.signerVkHash=vk then 1 else 0 := by
      rw [waiting,countP_cons,waiting]
      simp
    rw [foldl_cons,ih d' hv,hg,hw]
    by_cases heq : p.2.signerVkHash=vk
    · simp [heq]
    · simp [heq]

theorem seqSnapshot_get? (batch : List (String × AnchorSubmission)) (sequences : Dict Bytes ℤ)
    (vk : Bytes) : (seqSnapshot batch sequences).get? vk =
      if 0<waiting batch vk then some ((sequences.get? vk).getD 0-waiting batch vk)
      else none :=
  foldl_first_get? (fun vk => (sequences.get? vk).getD 0-waiting batch vk) batch Dict.empty
    (fun _ _ h => by cases h) vk

theorem counter_rolledBack (w : World T) (vk : Bytes) :
    (w.setCounters (w.scheduler.signerSequences.update
      (seqSnapshot w.scheduler.pendingBatch w.scheduler.signerSequences))).counter vk =
      w.base vk := by
  rw [counter,setCounters,Dict.get?_update,seqSnapshot_get?,base]
  split_ifs with hw
  · rfl
  · rw [Nat.eq_zero_of_not_pos hw,Nat.cast_zero,sub_zero]
    rfl

/-- `batch_anchor` answers for the waiting batch, and the tracker lets all of it be marked. -/
def answered (outcome : Outcome T) (w : World T) : Bool :=
  ((batchAnchor outcome (w.scheduler.pendingBatch.map Prod.snd) >>=
    markBatch w.scheduler.pendingBatch).exec w).1.isOk

structure Submits (outcome : Outcome T) (w w' : World T) : Prop where
  pending : w'.scheduler.pendingBatch=[]
  client : w'.client=w.client.send outcome.mined (w.scheduler.pendingBatch.map Prod.snd)
  counters : w'.rolledBack=w.rolledBack ∧ (∀ vk, w'.counter vk=w.counter vk) ∨
    w.answered outcome=false ∧ w'.rolledBack=w.client.calls.length::w.rolledBack ∧
      ∀ vk, w'.counter vk=w.base vk

def SameNumbers (w w' : World T) : Prop :=
  w'.scheduler=w.scheduler ∧ w'.client=w.client ∧ w'.rolledBack=w.rolledBack

instance : Std.Refl (SameNumbers (T := T)) := ⟨fun _ => ⟨rfl,rfl,rfl⟩⟩

instance : IsTrans (World T) SameNumbers := ⟨fun _ _ _ h h' =>
  ⟨h'.1.trans h.1,h'.2.1.trans h.2.1,h'.2.2.trans h.2.2⟩⟩

theorem keeps_markBatch (batch : List (String × AnchorSubmission)) (txHash : String) :
    Method.Keeps (SameNumbers (T := T)) (markBatch batch txHash) :=
  Method.Keeps.forM fun _ _ => Method.keeps_on _ fun _ _ => ⟨rfl,rfl,rfl⟩

variable {out : Outcome T}

theorem submits_rollBack {w1 : World T} (result : AnchorTickResult)
    (ha : w.answered out=false) (hs : w1.scheduler=w.scheduler) (hr : w1.rolledBack=w.rolledBack)
    (hc : w1.client=w.client.send out.mined (w.scheduler.pendingBatch.map Prod.snd)) :
    Submits out w (clearBatch ((rollBack w.client.calls.length w.scheduler.pendingBatch
      (seqSnapshot w.scheduler.pendingBatch w.scheduler.signerSequences) result).exec w1).2) where
  pending := rfl
  client := hc
  counters := by
    refine .inr ⟨ha,congrArg _ hr,fun vk => ?_⟩
    rw [← counter_rolledBack w vk,← hs]
    rfl

section
variable (out : Outcome T) (result : AnchorTickResult)

theorem trySubmit_exec (w : World T) :
    ∃ result' w', (trySubmit out w.client.calls.length w.scheduler.pendingBatch
        (seqSnapshot w.scheduler.pendingBatch w.scheduler.signerSequences) result).exec w =
        (.ok result',w') ∧ Submits out w (clearBatch w') := by
  have hb : (batchAnchor out (w.scheduler.pendingBatch.map Prod.snd)).exec w =
      (encodeBatch (w.scheduler.pendingBatch.map Prod.snd) >>= fun _ => out.answer,
        {w with
          client := w.client.send out.mined (w.scheduler.pendingBatch.map Prod.snd)
          tracker := out.meanwhile w.tracker}) := rfl
  rw [trySubmit,exec_bind,exec_attempt,hb]
  cases hx : encodeBatch (w.scheduler.pendingBatch.map Prod.snd) >>= fun _ => out.answer with
  | error e =>
    have ha : w.answered out=false := by rw [answered,exec_bind,hb,hx]; rfl
    exact ⟨_,_,rfl,submits_rollBack result ha rfl rfl rfl⟩
  | ok txHash =>
    dsimp only
    obtain ⟨hs,hc,hr⟩ := keeps_markBatch w.scheduler.pendingBatch txHash
      {w with
        client := w.client.send out.mined (w.scheduler.pendingBatch.map Prod.snd)
        tracker := out.meanwhile w.tracker}
    rw [exec_bind,exec_attempt]
    generalize hm : (markBatch w.scheduler.pendingBatch txHash).exec _ = marked
    rw [hm] at hs hc hr
    obtain ⟨answer,w1⟩ := marked
    cases answer with
    | error e =>
      have ha : w.answered out=false := by
        rw [answered,exec_bind,hb,hx]
        exact congrArg (·.1.isOk) hm
      exact ⟨_,_,rfl,submits_rollBack
        {result with batchSubmitted := true,txHash := txHash} ha hs hr hc⟩
    | ok _ =>
      refine ⟨_,_,rfl,rfl,hc,.inl ⟨hr,fun vk => ?_⟩⟩
      exact congrArg (fun s => (s.signerSequences.get? vk).getD 0) hs

theorem submits_submitBatch (w : World T) :
    Submits out w ((submitBatch out result).exec w).2 := by
  obtain ⟨result',w',ht,hs⟩ := trySubmit_exec out
    {result with batchSize := w.scheduler.pendingBatch.length} w
  rw [submitBatch,exec_bind,Method.exec_get]
  dsimp only
  rw [exec_bind,ht]
  exact hs

end

theorem Submits.numbered (h : Submits out w w') (hw : Numbered H w)
    (hs : ∀ env ∈ out.mined, ∀ items,
      encodeBatch (w.scheduler.pendingBatch.map Prod.snd)=.ok items →
      w.client.accepts env items=true → w.answered out=true) : Numbered H w' := by
  have hb : w'.base=w'.counter := by
    funext vk
    rw [base,h.pending]
    exact sub_zero _
  have hle : ∀ vk, w.base vk≤w'.counter vk := by
    intro vk
    rcases h.counters with ⟨_,hc⟩|⟨_,hc⟩
    · exact (w.base_le_counter vk).trans_eq (hc vk).symm
    · exact (hc.2 vk).ge
  -- a call that is not rolled back hands its numbers out for good
  have hi : (∀ vk, w'.counter vk=w.counter vk) → ∀ items,
      encodeBatch (w.scheduler.pendingBatch.map Prod.snd)=.ok items →
        WithinBounds items w'.counter := by
    intro hc items he
    refine encodeBatch_withinBounds he fun s hs => ?_
    obtain ⟨p,hp,rfl⟩ := mem_map.mp hs
    exact (hw.pending p hp).2.2.2.trans_eq (hc _).symm
  refine ⟨fun vk hvk => ?_,fun p hp => ?_,fun tx htx hno => ?_,fun call hca => ?_⟩
  · rw [hb,h.client]
    refine ClientSide.send_mark_le (fun vk hvk => (hw.marks vk hvk).trans (hle vk))
      (fun env henv items he hac => ?_) hvk
    rcases h.counters with ⟨_,hc⟩|⟨hna,_⟩
    · exact hi hc items he
    · exact absurd (hs env henv items he hac) (by rw [hna]; decide)
  · rw [h.pending] at hp
    cases hp
  · rw [hb]
    rw [h.client] at htx
    rcases ClientSide.mem_send_mempool htx with ho|⟨hca,he⟩
    · refine WithinBounds.mono (hw.mempool tx ho fun hm => hno ?_) hle
      rcases h.counters with ⟨hr,_⟩|⟨_,hr,_⟩
      · rwa [hr]
      · rw [hr]
        exact mem_cons_of_mem _ hm
    · rcases h.counters with ⟨_,hc⟩|⟨_,hr,_⟩
      · exact hi hc tx.2 he
      · exact absurd (hr ▸ hca ▸ mem_cons_self) hno
  · rw [h.client,ClientSide.send_calls] at hca
    rcases mem_append.mp hca with ho|hne
    · exact hw.calls call ho
    · intro n hn
      rw [mem_singleton.mp hne,map_map] at hn
      obtain ⟨p,hp,rfl⟩ := mem_map.mp hn
      obtain ⟨hl,_,hlt,_⟩ := hw.pending p hp
      exact (hw.marks _ hl).trans_lt hlt

section
variable [Zero T] [LinearOrder T] [Sub T] (input : TickInput T) (w : World T)

variable (H) in
/-- The world in which a tick hands its batch over, if it does. -/
def handover : Option (World T) :=
  match input.polled, (queueAll H config input).exec w with
  | .ok _, (.ok _,w) => if shouldSubmit config input.monotonic w.scheduler then some w else none
  | _, _ => none

variable (H) in
theorem tick_exec : let queued := ((queueAll H config input).exec w).2
    ((tick H config input).exec w).2=queued ∨
      (∃ records, input.polled=.ok records) ∧ handover H config input w=some queued ∧
        ∃ result, ((tick H config input).exec w).2 =
          ((submitBatch input.outcome result).exec queued).2 := by
  rw [tick,handover,queueAll]
  cases input.polled with
  | error e => exact .inl rfl
  | ok records =>
    dsimp only [Except.toOption,Option.getD]
    rw [exec_bind]
    generalize (records.foldlM (queueRecord H config) _).exec w=out
    obtain ⟨_|result,w'⟩ := out
    · exact .inl rfl
    dsimp only
    rw [exec_bind,exec_bind,Method.exec_get]
    dsimp only
    split_ifs
    · refine .inr ⟨⟨records,rfl⟩,rfl,result,?_⟩
      generalize (submitBatch input.outcome result).exec w'=out
      obtain ⟨_|_,_⟩ := out <;> rfl
    · exact .inl rfl

end

end World

section
variable {T : Type} [Zero T] [LinearOrder T] [Sub T] (H : CanonicalHash)
  (config : SchedulerConfig T)

/-- The registry accepts the batch of a tick at once only if its call is answered and the batch
marked, it accepts no transaction later whose call was rolled back, and the other transactions
write no marks. -/
def Separate (w : World T) : SchedulerInput T → Prop
  | .tick input => ∀ w' ∈ w.handover H config input, ∀ env ∈ input.outcome.mined,
      ∀ items ∈ (encodeBatch (w'.scheduler.pendingBatch.map Prod.snd)).toOption,
        w'.client.accepts env items=true → w'.answered input.outcome=true
  | .mine env i => ∀ tx ∈ w.client.mempool[i]?, tx.1 ∈ w.rolledBack →
      w.client.accepts env tx.2=false
  | .transaction _ message => Registry.keepsMarks message=true
  | .tracker _ => True

instance (w : World T) (input : SchedulerInput T) : Decidable (Separate H config w input) := by
  cases input <;> unfold Separate <;> infer_instance

open World

variable {w : World T}

omit [Zero T] [LinearOrder T] [Sub T] in
theorem numbered_mine (hw : Numbered H w) (env : Env) (i : ℕ)
    (hd : ∀ tx ∈ w.client.mempool[i]?, tx.1 ∈ w.rolledBack → w.client.accepts env tx.2=false) :
    Numbered H {w with client := w.client.mine env i} := by
  unfold ClientSide.mine
  split
  next => exact hw
  next call items hm =>
    refine ⟨fun vk hvk => ?_,hw.pending,fun tx htx hn => ?_,hw.calls⟩
    · refine ClientSide.execute_mark_le hw.marks (fun hac => ?_) hvk
      refine hw.mempool _ (mem_of_getElem? hm) fun hr => ?_
      exact absurd (hac.symm.trans (hd _ hm hr)) (by decide)
    · exact hw.mempool tx (mem_of_mem_eraseIdx htx) hn

omit [Zero T] [LinearOrder T] [Sub T] in
theorem numbered_transaction (hw : Numbered H w) (env : Env) {m : Message}
    (hk : Registry.keepsMarks m=true) :
    Numbered H {w with client := {w.client with
      registry := settle w.client.registry (w.client.registry.call env m)}} := by
  cases hc : w.client.registry.call env m with
  | error e => exact hw
  | ok registry =>
    refine ⟨fun vk hvk => ?_,hw.pending,hw.mempool,hw.calls⟩
    change ((registry.signerSequences (bytes32 vk)).toNat : ℤ)≤w.base vk
    rw [Registry.call_of_keepsMarks hk hc]
    exact hw.marks vk hvk

theorem numbered_apply (hw : Numbered H w) (input : SchedulerInput T)
    (h : Separate H config w input) : Numbered H (input.apply H config w) := by
  cases input with
  | tick input =>
    have hq := keeps_queueAll config input w hw
    rw [SchedulerInput.apply]
    rcases tick_exec H config input w with he|⟨-,ho,result,he⟩
    · rwa [he]
    · rw [he]
      refine (submits_submitBatch input.outcome result _).numbered hq fun env henv items hit => ?_
      exact h _ ho env henv items (by rw [hit]; rfl)
  | tracker change => exact ⟨hw.marks,hw.pending,hw.mempool,hw.calls⟩
  | mine env i => exact numbered_mine H hw env i h
  | transaction env m => exact numbered_transaction H hw env h

/-- Every number that is handed to the client is above the mark of its signer, in every run in
which no call that is rolled back takes effect. -/
theorem submitted_above_marks (registry : Registry) (tracker : Tracker T) (seeds : Dict Bytes ℤ)
    (hseeds : ∀ vk : Bytes, vk.length=32 →
      ((registry.signerSequences (bytes32 vk)).toNat : ℤ)≤(seeds.get? vk).getD 0)
    (inputs : List (SchedulerInput T))
    (h : (anchorScheduler H config registry tracker seeds).Meets (Separate H config) inputs) :
    ∀ call ∈ ((anchorScheduler H config registry tracker seeds).state inputs).client.calls,
      ∀ n ∈ call, n.mark<n.sequence := by
  have hs : Numbered H (start registry tracker seeds) :=
    ⟨fun vk hvk => (hseeds vk hvk).trans_eq (sub_zero _).symm,nofun,nofun,nofun⟩
  exact (Machine.invariant_of_meets (P := fun w _ => Numbered H w) hs
    (fun w _ input hw hi => numbered_apply H config hw input hi) inputs h).calls

end

def singleBatches : SchedulerConfig ℕ where
  signerVk := [7]
  chainId := 1
  anchorBatchSize := 1
  anchorMaxWaitSeconds := 60
  anchorChainId := 1

def registeredSigners : Registry := {initialStorage 0 with authorizedSigners := fun _ => true}

def sampleRecord (entityId : String) : CommitmentRecord where
  entityId := entityId
  senderId := "s"
  shardMapRoot := "sha3-256:" ++ PyValue.hex (List.replicate 32 1)
  contentHash := ""
  encodingParams := Dict.empty
  shape := ""
  shapeHash := ""
  timestamp := 0
  ttlEpochs := none
  predecessor := none
  signature := encodeText entityId
  senderVk := [7]

def polling (entityIds : List String) (mined : Bool) (answer : Except PyError String) :
    SchedulerInput ℕ := .tick
  { epoch := 1
    polled := .ok (entityIds.map fun id => ⟨id,sampleRecord id,10,10,10⟩)
    monotonic := 10
    outcome := ⟨if mined then some ⟨0,0,10,1⟩ else none,answer,id⟩}

def submitting (entityId : String) := polling [entityId]

def timeout : Except PyError String := .error (.runtimeError "timed out")

theorem failedBatch_renumbered :
    (anchorScheduler lastBytes singleBatches registeredSigners Dict.empty Dict.empty).Meets
        (Separate lastBytes singleBatches)
        [submitting "a" true (.ok "0x01"),submitting "b" false timeout,
          submitting "c" true (.ok "0x02")] ∧
      ∀ call ∈ ((anchorScheduler lastBytes singleBatches registeredSigners Dict.empty
        Dict.empty).state [submitting "a" true (.ok "0x01"),submitting "b" false timeout,
          submitting "c" true (.ok "0x02")]).client.calls, ∀ n ∈ call, n.mark<n.sequence := by
  have h : (anchorScheduler lastBytes singleBatches registeredSigners Dict.empty Dict.empty).Meets
      (Separate lastBytes singleBatches) [submitting "a" true (.ok "0x01"),
        submitting "b" false timeout,submitting "c" true (.ok "0x02")] := by decide +kernel
  exact ⟨h,submitted_above_marks lastBytes singleBatches registeredSigners Dict.empty Dict.empty
    (fun _ _ => le_rfl) _ h⟩

theorem minedTimeout_resubmitted :
    ((anchorScheduler lastBytes singleBatches registeredSigners Dict.empty Dict.empty).state
      [submitting "a" true timeout,submitting "b" true (.ok "0x02")]).client.calls =
      [[⟨lastBytes.run [7],1,0⟩],[⟨lastBytes.run [7],1,1⟩]] := by decide +kernel

section
variable {T : Type} [Zero T] (H : CanonicalHash) (config : SchedulerConfig T)

/-- The new records of a tick fit into one batch with those that are waiting. -/
def Fits (w : World T) : SchedulerInput T → Prop
  | .tick input => ∀ records, input.polled=.ok records →
      w.scheduler.pendingBatch.length+records.length ≤ maxBatchSize
  | _ => True

instance (w : World T) (input : SchedulerInput T) : Decidable (Fits w input) :=
  match input with
  | .tick ⟨_,.ok records,_,_⟩ =>
    decidable_of_iff (w.scheduler.pendingBatch.length+records.length ≤ maxBatchSize)
      ⟨fun h _ hr => Except.ok.inj hr ▸ h,fun h => h records rfl⟩
  | .tick ⟨_,.error _,_,_⟩ => isTrue nofun
  | .transaction .. | .mine .. | .tracker .. => isTrue trivial

open World

def Fills (n : ℕ) (w w' : World T) : Prop := w'.client=w.client ∧
  w'.scheduler.pendingBatch.length≤w.scheduler.pendingBatch.length+n

theorem fills_queueRecord (result : AnchorTickResult) (polled : PolledRecord T) (w : World T) :
    Fills 1 w ((queueRecord H config result polled).exec w).2 := by
  rw [queueRecord,exec_bind,Method.exec_modify]
  dsimp only
  rw [exec_bind,Method.exec_get]
  dsimp only
  split_ifs
  · exact ⟨rfl,Nat.le_succ _⟩
  rw [exec_bind,exec_attempt]
  rcases recordToSubmission_exec config polled.entityId polled.record polled.seconds _ with
    ⟨e,he⟩ | ⟨s,hok,-⟩
  · rw [he]
    exact ⟨rfl,Nat.le_succ _⟩
  rw [hok]
  dsimp only
  rw [exec_bind]
  rcases markPending_exec polled.stamp polled.entityId s.anchorDigest config.chainId _ with
    ⟨-,e,hm⟩ | ⟨-,tracker,hm⟩
  · rw [hm]
    exact ⟨rfl,Nat.le_succ _⟩
  · rw [hm]
    exact ⟨rfl,(length_append ..).le⟩

theorem fills_queueAll (records : List (PolledRecord T)) (result : AnchorTickResult) (w : World T) :
    Fills records.length w ((records.foldlM (queueRecord H config) result).exec w).2 := by
  induction records generalizing result w with
  | nil => exact ⟨rfl,le_rfl⟩
  | cons polled records ih =>
    obtain ⟨hc,hl⟩ := fills_queueRecord H config result polled w
    rw [foldlM_cons,exec_bind]
    generalize (queueRecord H config result polled).exec w=out at hc hl
    obtain ⟨_|next,w'⟩ := out
    · exact ⟨hc,hl.trans (by simp)⟩
    · obtain ⟨hcr,hlr⟩ := ih next w'
      refine ⟨hcr.trans hc,hlr.trans ?_⟩
      simp only [length_cons] at hl ⊢
      omega

variable [LinearOrder T] [Sub T]

theorem calls_tick {w : World T} {input : TickInput T} (hi : Fits w (.tick input)) :
    ∀ call ∈ ((tick H config input).exec w).2.client.calls, call ∈ w.client.calls ∨
      call.length ≤ maxBatchSize := by
  obtain ⟨hc,hl⟩ : Fills _ w ((queueAll H config input).exec w).2 := fills_queueAll H config _ _ w
  rcases tick_exec H config input w with he|⟨⟨records,hp⟩,-,result,he⟩
  · rw [he,hc]
    exact fun _ => .inl
  · intro call hm
    rw [he,(submits_submitBatch input.outcome result _).client,ClientSide.send_calls,mem_append,
      mem_singleton,hc] at hm
    refine hm.imp_right ?_
    rintro rfl
    rw [hp] at hl
    simpa using hl.trans (hi records hp)

/-- Only a tick that finds too many new records hands over a batch that the registry refuses. -/
theorem batches_of_fitting_polls (registry : Registry) (tracker : Tracker T)
    (seeds : Dict Bytes ℤ) (inputs : List (SchedulerInput T))
    (h : (anchorScheduler H config registry tracker seeds).Meets Fits inputs) :
    ∀ call ∈ ((anchorScheduler H config registry tracker seeds).state inputs).client.calls,
      call.length ≤ maxBatchSize := by
  refine Machine.invariant_of_meets
    (P := fun w _ => ∀ call ∈ w.client.calls, call.length ≤ maxBatchSize) nofun ?_ inputs h
  intro w _ input hw hi
  cases input with
  | tick input => exact fun call hc => (calls_tick H config hi call hc).elim (hw call) id
  | tracker change => exact hw
  | mine env i =>
    have hc : (w.client.mine env i).calls=w.client.calls := by
      rw [ClientSide.mine]
      split <;> rfl
    exact hc ▸ hw
  | transaction env message => exact hw

end

def pollsRun : List (SchedulerInput ℕ) :=
  [polling ["a"] true (.ok "0x01"),polling ["b","c"] true (.ok "0x01"),
    polling ["d","e"] false timeout]

theorem pollsRun_fits :
    let scheduler := anchorScheduler lastBytes {singleBatches with anchorBatchSize := 2}
      registeredSigners Dict.empty Dict.empty
    scheduler.Meets Fits pollsRun ∧
      (scheduler.state pollsRun).client.calls.map length=[3,2] ∧
      ∀ call ∈ (scheduler.state pollsRun).client.calls, call.length ≤ maxBatchSize := by
  have h : (anchorScheduler lastBytes {singleBatches with anchorBatchSize := 2}
      registeredSigners Dict.empty Dict.empty).Meets Fits pollsRun := by decide +kernel
  exact ⟨h,by decide +kernel,batches_of_fitting_polls _ _ _ _ _ _ h⟩

def largePoll : SchedulerInput ℕ := .tick
  { epoch := 1
    polled := .ok ((range 101).map fun i =>
      ⟨toString i,{sampleRecord (toString i) with shardMapRoot := "" },10,10,10⟩)
    monotonic := 10
    outcome := ⟨none,timeout,id⟩}

theorem largePoll_exceeds : singleBatches.anchorBatchSize ≤ maxBatchSize ∧
    ((anchorScheduler lastBytes singleBatches registeredSigners Dict.empty Dict.empty).state
      [largePoll]).client.calls.map length=[maxBatchSize+1] := by decide +kernel

end LatticeTransfer.Anchoring
