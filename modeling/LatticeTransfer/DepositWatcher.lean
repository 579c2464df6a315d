import LatticeTransfer.EntityIdentity
import LatticeTransfer.StablecoinLedger

/-!
# The deposit watcher

`DepositWatcher` credits bridge transfers to customer balances, and `BridgeEmitterDepositSource`
reads the transfers from the logs of the chain. A transfer is a log: it is named by the hash of its
transaction together with its place in it. `Deposit` keeps that place, which the program drops;
the watcher remembers transaction hashes only.
-/

namespace LatticeTransfer.Deposits
open PyValue Incentives List Method

def normalize (text : String) : String :=
  String.ofList ((Shape.strip text.toList).map Shape.lower)

def isHexText (digits : ℕ) (text : String) : Bool :=
  match text.toList with
  | '0' :: 'x' :: rest => rest.length == digits &&
      rest.all fun c => ('0' ≤ c && c ≤ '9') || ('a' ≤ c && c ≤ 'f')
  | _ => false

def normalizeAddress (address : String) : Except PyError String :=
  let normalized := normalize address
  if isHexText 40 normalized then .ok normalized
  else .error (.depositError s!"not a valid address: '{address}'")

structure Deposit where
  txHash : String
  logIndex : ℕ
  sender : String
  amountMicro : ℕ
deriving DecidableEq

structure DepositEvent extends Deposit where
  confirmations : ℕ

def DepositEvent.make (txHash : String) (logIndex : ℕ) (sender : String)
    (amountMicro confirmations : ℤ) : Except PyError DepositEvent := do
  let hash := normalize txHash
  if isHexText 64 hash then
    let address ← normalizeAddress sender
    if amountMicro<0 then throw (.depositError "amount_micro must be non-negative")
    else if confirmations<0 then throw (.depositError "confirmations must be non-negative")
    else return ⟨⟨hash,logIndex,address,amountMicro.toNat⟩,confirmations.toNat⟩
  else throw (.depositError "not a valid tx hash")

structure CreditedDeposit where
  txHash : String
  customerId : String
  amountMicro : ℤ
  balanceAfterMicro : ℤ

structure DepositWatcher where
  ledger : StablecoinLedger
  bindings : Dict String String
  creditedTx : Finset String
  unattributed : Dict String DepositEvent

abbrev Credit := Deposit × CreditedDeposit

namespace DepositWatcher

def init : DepositWatcher := ⟨.init,Dict.empty,∅,Dict.empty⟩

def bindAddress (address customerId : String) : Method DepositWatcher Unit := do
  if customerId = "" then throw (.depositError "customer_id must be non-empty")
  else
    let normalized ← Method.call (normalizeAddress address)
    match (← get).bindings.get? normalized with
    | some existing =>
      if existing=customerId then
        modify fun w => {w with bindings := w.bindings.set normalized customerId}
      else throw (.depositError s!"address {normalized} already bound to customer {existing}")
    | none => modify fun w => {w with bindings := w.bindings.set normalized customerId}

def unbindAddress (address : String) : Method DepositWatcher Unit := do
  let normalized ← Method.call (normalizeAddress address)
  modify fun w => {w with bindings := w.bindings.erase normalized}

def onLedger {α : Type} (m : Method StablecoinLedger α) : Method DepositWatcher α :=
  m.on ledger fun w ledger => {w with ledger := ledger}

variable (minConfirmations : ℕ)

def quarantine (event : DepositEvent) (w : DepositWatcher) : DepositWatcher :=
  {w with unattributed := w.unattributed.set event.txHash event}

def remember (event : DepositEvent) (w : DepositWatcher) : DepositWatcher :=
  {w with
    creditedTx := insert event.txHash w.creditedTx
    unattributed := w.unattributed.erase event.txHash}

def processEvent (credited : List Credit) (event : DepositEvent) :
    Method DepositWatcher (List Credit) := do
  let w ← get
  if event.txHash ∈ w.creditedTx then return credited
  else if event.confirmations < minConfirmations then return credited
  else
    match w.bindings.get? event.sender with
    | none =>
      modify (quarantine event)
      return credited
    | some customerId =>
      let balance ← onLedger (StablecoinLedger.customerDeposit customerId event.amountMicro)
      modify (remember event)
      return credited++[(event.toDeposit,⟨event.txHash,customerId,event.amountMicro,balance⟩)]

def process (events : List DepositEvent) : Method DepositWatcher (List Credit) :=
  events.foldlM (processEvent minConfirmations) []

end DepositWatcher

inductive HexValue
  | bytes (value : Bytes)
  | text (value : String)

def hexText : HexValue → List Char
  | .bytes value => '0' :: 'x' :: hexDigits value
  | .text value =>
    match value.toList.map Shape.lower with
    | '0' :: 'x' :: rest => '0' :: 'x' :: rest
    | other => '0' :: 'x' :: other

structure Log where
  topics : List HexValue
  data : HexValue
  blockNumber : ℤ
  transactionHash : HexValue
  logIndex : ℕ

structure LogFilter where
  address : String
  fromBlock : ℤ
  toBlock : ℤ
  topics : List (Option String)

structure Client where
  blockNumber : ℤ
  getLogs : LogFilter → List Log

structure BridgeEmitterDepositSource where
  emitter : String
  recipientTopic : String
  startBlock : ℤ
  lookbackBlocks : ℤ
  amountDivisor : ℤ

namespace BridgeEmitterDepositSource

variable (source : BridgeEmitterDepositSource) (topic0 : String)

def logFilter (latest : ℤ) : LogFilter :=
  ⟨source.emitter,max source.startBlock (latest-source.lookbackBlocks+1),latest,
    [some topic0,none,some source.recipientTopic]⟩

def eventOf (latest : ℤ) (log : Log) : Except PyError (Option DepositEvent) :=
  match log.topics.map hexText with
  | _ :: indexed::_ :: _ => do
    let sender := String.ofList ('0' :: 'x' :: indexed.drop (indexed.length-40))
    let data ← fromHex (String.ofList ((hexText log.data).drop 2))
    if data.length<96 then return none
    else
      let amountUnits : ℤ := ofBigEndian ((data.drop 32).take 32)
      let event ← DepositEvent.make (String.ofList (hexText log.transactionHash)) log.logIndex
        sender (amountUnits / source.amountDivisor) (latest-log.blockNumber+1)
      return some event
  | _ => .ok none

def call (client : Client) : Except PyError (List DepositEvent) := do
  let latest := client.blockNumber
  let events ← (client.getLogs (source.logFilter topic0 latest)).mapM (source.eventOf latest)
  return events.reduceOption

end BridgeEmitterDepositSource

inductive Input
  | bindAddress (address customerId : String)
  | unbindAddress (address : String)
  | process (events : List DepositEvent)
  | pollOnce (client : Client)

section
variable (source : BridgeEmitterDepositSource) (topic0 : String) (minConfirmations : ℕ)

def Input.events : Input → List DepositEvent
  | .process events => events
  | .pollOnce client =>
    match source.call topic0 client with
    | .ok events => events
    | .error _ => []
  | _ => []

def DepositWatcher.deliver (w : DepositWatcher) (events : List DepositEvent) :
    DepositWatcher × List Credit :=
  match (process minConfirmations events).exec w with
  | (.ok credited,w') => (w',credited)
  | (.error _,w') => (w',[])

def DepositWatcher.step (w : DepositWatcher) (input : Input) : DepositWatcher × List Credit :=
  match input with
  | .bindAddress address customerId => (((bindAddress address customerId).exec w).2,[])
  | .unbindAddress address => (((unbindAddress address).exec w).2,[])
  | .process events => w.deliver minConfirmations events
  | .pollOnce client =>
    w.deliver minConfirmations (Input.events source topic0 (.pollOnce client))

def machine : Machine DepositWatcher Input Credit :=
  ⟨.init,DepositWatcher.step source topic0 minConfirmations⟩

def confirmedOf (events : List DepositEvent) : List Deposit :=
  (events.filter (minConfirmations ≤ ·.confirmations)).map DepositEvent.toDeposit

theorem confirmedOf_nil : confirmedOf minConfirmations []=[] := rfl

def confirmed (inputs : List Input) : List Deposit :=
  confirmedOf minConfirmations (inputs.flatMap (Input.events source topic0))

end
namespace DepositWatcher
variable {depth : ℕ} {w w' : DepositWatcher} {cr : List Credit}
  {passed : List Deposit} {event : DepositEvent}

def Named (w : DepositWatcher) : Prop :=
  ∀ address customerId, w.bindings.get? address=some customerId → customerId ≠ ""

def creditTo (event : DepositEvent) (customerId : String) (w : DepositWatcher) : DepositWatcher :=
  remember event {w with ledger := w.ledger.addBalance customerId event.amountMicro}

def creditOf (event : DepositEvent) (customerId : String) (w : DepositWatcher) : Credit :=
  (event.toDeposit,⟨event.txHash,customerId,event.amountMicro,
    (w.ledger.addBalance customerId event.amountMicro).customerBalance customerId⟩)

inductive Observes (minConfirmations : ℕ) (event : DepositEvent) (w : DepositWatcher) :
    DepositWatcher → List Credit → Prop
  | known (h : event.txHash ∈ w.creditedTx) : Observes minConfirmations event w w []
  | early (h : event.confirmations < minConfirmations) : Observes minConfirmations event w w []
  | unbound (hnew : event.txHash ∉ w.creditedTx) (h : w.bindings.get? event.sender=none)
      (hconfirmed : minConfirmations≤event.confirmations) :
      Observes minConfirmations event w (quarantine event w) []
  | bound {customerId : String} (hnew : event.txHash ∉ w.creditedTx)
      (h : w.bindings.get? event.sender=some customerId)
      (hconfirmed : minConfirmations≤event.confirmations) :
      Observes minConfirmations event w (creditTo event customerId w)
        [creditOf event customerId w]

theorem processEvent_exec (hn : w.Named) (credited : List Credit) (event : DepositEvent) :
    ∃ w' more, (processEvent depth credited event).exec w=(.ok (credited++more),w') ∧
      Observes depth event w w' more := by
  rw [processEvent,exec_bind,exec_get]
  dsimp only
  split_ifs with hk he
  · exact ⟨w,[],by rw [append_nil]; rfl,.known hk⟩
  · exact ⟨w,[],by rw [append_nil]; rfl,.early he⟩
  · split
    next hu =>
      exact ⟨_,[],by rw [append_nil]; rfl,.unbound hk hu (not_lt.mp he)⟩
    next customerId hb =>
      refine ⟨_,_,?_,.bound hk hb (not_lt.mp he)⟩
      rw [exec_bind,onLedger,exec_on,StablecoinLedger.customerDeposit_exec
        (hn _ _ hb) (Int.natCast_nonneg _)]
      rfl

structure Recorded (w : DepositWatcher) (credits : List Credit) (passed : List Deposit) : Prop where
  named : w.Named
  creditedTx : ∀ tx, tx ∈ w.creditedTx ↔ ∃ credit ∈ credits, credit.1.txHash=tx
  once : (credits.map fun credit => credit.1.txHash).Nodup
  credited : ∀ credit ∈ credits, credit.1 ∈ passed ∧ credit.2.amountMicro=credit.1.amountMicro
  quarantined : ∀ tx event, w.unattributed.get? tx=some event →
    event.txHash=tx ∧ event.toDeposit ∈ passed ∧ tx ∉ w.creditedTx
  seen : ∀ deposit ∈ passed, deposit.txHash ∈ w.creditedTx ∨
    w.unattributed.get? deposit.txHash≠none
  balances : ∀ customerId, w.ledger.customerBalance customerId =
    ((credits.filter (·.2.customerId=customerId)).map (·.2.amountMicro)).sum

section
variable (h : Recorded w cr passed)
include h

theorem Recorded.pass {deposit : Deposit}
    (hs : deposit.txHash ∈ w.creditedTx ∨ w.unattributed.get? deposit.txHash≠none) :
    Recorded w cr (passed++[deposit]) where
  named := h.named
  creditedTx := h.creditedTx
  once := h.once
  credited credit hc :=
    ⟨mem_append_left _ (h.credited credit hc).1,(h.credited credit hc).2⟩
  quarantined tx event he := by
    obtain ⟨htx,hp,hn⟩ := h.quarantined tx event he
    exact ⟨htx,mem_append_left _ hp,hn⟩
  seen other ho := by
    rcases mem_append.mp ho with hol|hl
    · exact h.seen other hol
    · exact mem_singleton.mp hl ▸ hs
  balances := h.balances

theorem Recorded.quarantine (hn : event.txHash ∉ w.creditedTx) :
    Recorded (quarantine event w) cr (passed++[event.toDeposit]) := by
  have hg (tx : String) : (w.quarantine event).unattributed.get? tx =
      if event.txHash=tx then some event else w.unattributed.get? tx := Dict.get?_set _ _ _ _
  refine ⟨h.named,h.creditedTx,h.once,fun credit hc => ?_,fun tx other ho => ?_,
    fun deposit hd => ?_,h.balances⟩
  · obtain ⟨hp,ha⟩ := h.credited credit hc
    exact ⟨mem_append_left _ hp,ha⟩
  · rw [hg] at ho
    split_ifs at ho with htx
    · cases ho
      exact ⟨htx,mem_append_right _ (mem_singleton_self _),htx ▸ hn⟩
    · obtain ⟨hk,hp,hu⟩ := h.quarantined tx other ho
      exact ⟨hk,mem_append_left _ hp,hu⟩
  · rw [hg]
    split_ifs with htx
    · exact .inr (Option.some_ne_none _)
    · rcases mem_append.mp hd with hol|hl
      · exact h.seen deposit hol
      · exact absurd (congrArg Deposit.txHash (mem_singleton.mp hl)).symm htx

theorem Recorded.creditTo {customerId : String} (hn : event.txHash ∉ w.creditedTx) :
    Recorded (creditTo event customerId w) (cr++[creditOf event customerId w])
      (passed++[event.toDeposit]) := by
  have hg (tx : String) : (w.creditTo event customerId).unattributed.get? tx =
      if event.txHash=tx then none else w.unattributed.get? tx := Dict.get?_erase _ _ _
  have hm (tx : String) : tx ∈ (w.creditTo event customerId).creditedTx ↔
      tx=event.txHash ∨ tx ∈ w.creditedTx := Finset.mem_insert
  refine ⟨h.named,fun tx => ?_,?_,fun credit hc => ?_,fun tx other ho => ?_,
    fun deposit hd => ?_,fun customer => ?_⟩
  · rw [hm,h.creditedTx]
    simp only [mem_append,mem_singleton,or_and_right,exists_or,exists_eq_left]
    rw [or_comm,eq_comm]
    rfl
  · rw [map_append,map_singleton,← concat_eq_append]
    refine .concat (fun hk => hn ?_) h.once
    obtain ⟨credit,hc,htx⟩ := mem_map.mp hk
    exact (h.creditedTx _).mpr ⟨credit,hc,htx⟩
  · rcases mem_append.mp hc with hol|hla
    · obtain ⟨hp,ha⟩ := h.credited credit hol
      exact ⟨mem_append_left _ hp,ha⟩
    · obtain rfl := mem_singleton.mp hla
      exact ⟨mem_append_right _ (mem_singleton_self _),rfl⟩
  · rw [hg] at ho
    split_ifs at ho with htx
    obtain ⟨hke,hp,hu⟩ := h.quarantined tx other ho
    refine ⟨hke,mem_append_left _ hp,fun hcr => ?_⟩
    rcases (hm tx).mp hcr with heq|hol
    · exact htx heq.symm
    · exact hu hol
  · rw [hm,hg]
    rcases mem_append.mp hd with hol|hla
    · split_ifs with htx
      · exact .inl (.inl htx.symm)
      · exact (h.seen deposit hol).imp_left .inr
    · obtain rfl := mem_singleton.mp hla
      exact .inl (.inl rfl)
  · have hl := StablecoinLedger.customerBalance_addBalance customerId customer
      event.amountMicro w.ledger
    refine hl.trans ?_
    rw [h.balances]
    by_cases hcu : customerId=customer
    · simp [creditOf,hcu]
    · simp [creditOf,hcu]

end

theorem Recorded.observes {more : List Credit} (h : Recorded w cr passed)
    (ho : Observes depth event w w' more) :
    Recorded w' (cr++more) (passed++confirmedOf depth [event]) ∧ w'.bindings=w.bindings ∧
      ∀ credit ∈ more, w.bindings.get? credit.1.sender=some credit.2.customerId := by
  have hc : confirmedOf depth [event] =
      if depth≤event.confirmations then [event.toDeposit] else [] := by
    rw [confirmedOf]
    by_cases hco : depth≤event.confirmations
    · simp [hco]
    · simp [hco]
  rw [hc]
  cases ho with
  | known hk =>
    refine ⟨?_,rfl,fun credit hcr => by cases hcr⟩
    rw [append_nil]
    split_ifs
    · exact h.pass (.inl hk)
    · rwa [append_nil]
  | early he =>
    refine ⟨?_,rfl,fun credit hcr => by cases hcr⟩
    rwa [append_nil,if_neg (not_le.mpr he),append_nil]
  | unbound hn hu hco =>
    refine ⟨?_,rfl,fun credit hcr => by cases hcr⟩
    rw [append_nil,if_pos hco]
    exact h.quarantine hn
  | bound hn hb hco =>
    refine ⟨?_,rfl,fun credit hcr => ?_⟩
    · rw [if_pos hco]
      exact h.creditTo hn
    · obtain rfl := mem_singleton.mp hcr
      exact hb

section
variable (h : Recorded w cr passed)
include h

theorem Recorded.process (events : List DepositEvent) (credited : List Credit) :
    ∃ w' more, (events.foldlM (processEvent depth) credited).exec w = (.ok (credited++more),w') ∧
      Recorded w' (cr++more) (passed++confirmedOf depth events) ∧
      ∀ credit ∈ more, w.bindings.get? credit.1.sender=some credit.2.customerId := by
  induction events generalizing w cr passed credited with
  | nil =>
    refine ⟨w,[],?_,?_,fun credit hc => by cases hc⟩
    · rw [append_nil]
      rfl
    · rw [confirmedOf_nil,append_nil,append_nil]
      exact h
  | cons event rest ih =>
    obtain ⟨w1,first,he,ho⟩ := processEvent_exec h.named credited event
    obtain ⟨hr,hb,hf⟩ := h.observes ho
    obtain ⟨w',more,hre,ha,hm⟩ := ih hr (credited++first)
    refine ⟨w',first++more,?_,?_,fun credit hc => ?_⟩
    · rw [foldlM_cons,exec_bind,he]
      dsimp only
      rw [hre,append_assoc]
    · rw [append_assoc,append_assoc] at ha
      convert ha using 2
      rw [confirmedOf,← singleton_append,filter_append,map_append]
      rfl
    · rcases mem_append.mp hc with hol|hn
      · exact hf credit hol
      · exact hb ▸ hm credit hn

theorem Recorded.of_bindings {bindings : Dict String String}
    (hn : ∀ address customerId, bindings.get? address=some customerId → customerId ≠ "") :
    Recorded {w with bindings := bindings} cr passed :=
  ⟨hn,h.creditedTx,h.once,h.credited,h.quarantined,h.seen,h.balances⟩

theorem Recorded.bindAddress (address customerId : String) :
    Recorded ((bindAddress address customerId).exec w).2 cr passed := by
  rw [DepositWatcher.bindAddress]
  split_ifs with he
  · exact h
  · have hb (normalized : String) : Recorded
        {w with bindings := w.bindings.set normalized customerId} cr passed := by
      refine h.of_bindings fun other bound hg => ?_
      rw [Dict.get?_set] at hg
      split_ifs at hg
      · exact Option.some.inj hg ▸ he
      · exact h.named other bound hg
    rw [exec_bind]
    split
    next normalized w1 hc =>
      obtain ⟨-,rfl⟩ := Prod.mk.inj hc
      rw [exec_bind,exec_get]
      dsimp only
      split
      · split_ifs
        · exact hb normalized
        · exact h
      · exact hb normalized
    next e w1 hc =>
      obtain ⟨-,rfl⟩ := Prod.mk.inj hc
      exact h

theorem Recorded.unbindAddress (address : String) :
    Recorded ((unbindAddress address).exec w).2 cr passed := by
  rw [DepositWatcher.unbindAddress,exec_bind]
  split
  next normalized w1 hc =>
    obtain ⟨-,rfl⟩ := Prod.mk.inj hc
    refine h.of_bindings fun other customerId hg => ?_
    rw [Dict.get?_erase] at hg
    split_ifs at hg
    exact h.named other customerId hg
  next e w1 hc =>
    obtain ⟨-,rfl⟩ := Prod.mk.inj hc
    exact h

end

/-- Every confirmed transfer was credited once, or was not credited and is recorded as
quarantined; the balances have the credits, and the credits are the amounts of the transfers. -/
structure Settled (w : DepositWatcher) (credits : List Credit) (passed : List Deposit) : Prop where
  each : ∀ deposit ∈ passed, (credits.map Prod.fst).count deposit=1 ∨
    (credits.map Prod.fst).count deposit=0 ∧
      ∃ event, w.unattributed.get? deposit.txHash=some event ∧ event.toDeposit=deposit
  balances : ∀ customerId, w.ledger.customerBalance customerId =
    ((credits.filter (·.2.customerId=customerId)).map (·.2.amountMicro)).sum
  total : (credits.map (·.2.amountMicro)).sum =
    ∑ deposit ∈ (credits.map Prod.fst).toFinset, (deposit.amountMicro : ℤ)

def HashesDiffer (passed : List Deposit) : Prop :=
  ∀ deposit ∈ passed, ∀ other ∈ passed, deposit.txHash=other.txHash → deposit=other

theorem Recorded.nodup (h : Recorded w cr passed) : (cr.map Prod.fst).Nodup := by
  have ho := h.once
  rw [← Function.comp_def Deposit.txHash Prod.fst,← map_map] at ho
  exact ho.of_map _

theorem Recorded.settled (h : Recorded w cr passed) (hd : HashesDiffer passed) :
    Settled w cr passed := by
  refine ⟨fun deposit hp => ?_,h.balances,?_⟩
  · by_cases hc : deposit.txHash ∈ w.creditedTx
    · obtain ⟨credit,hcr,htx⟩ := (h.creditedTx _).mp hc
      obtain rfl := hd _ (h.credited credit hcr).1 deposit hp htx
      exact .inl (count_eq_one_of_mem h.nodup (mem_map_of_mem hcr))
    · obtain ⟨event,he⟩ := Option.ne_none_iff_exists'.mp
        ((h.seen deposit hp).resolve_left hc)
      obtain ⟨htx,hq,-⟩ := h.quarantined _ event he
      refine .inr ⟨count_eq_zero.mpr fun hm => hc ?_,event,he,
        hd _ hq deposit hp htx⟩
      obtain ⟨credit,hcr,rfl⟩ := mem_map.mp hm
      exact (h.creditedTx _).mpr ⟨credit,hcr,rfl⟩
  · rw [sum_toFinset _ h.nodup,map_map]
    refine congrArg sum (map_congr_left fun credit hcr => ?_)
    exact (h.credited credit hcr).2

theorem Settled.hashesDiffer (hs : Settled w cr passed) (h : Recorded w cr passed) :
    HashesDiffer passed := by
  have hc {deposit : Deposit} (hco : (cr.map Prod.fst).count deposit=1) :
      ∃ credit ∈ cr, credit.1=deposit :=
    mem_map.mp (count_pos_iff.mp (hco ▸ Nat.one_pos))
  intro deposit hp other ho htx
  rcases hs.each deposit hp with hco|⟨-,event,he,rfl⟩
  · obtain ⟨credit,hcr,rfl⟩ := hc hco
    rcases hs.each other ho with hc'|⟨-,event,he,rfl⟩
    · obtain ⟨credit',hcr',rfl⟩ := hc hc'
      exact congrArg Prod.fst (inj_on_of_nodup_map h.once hcr hcr' htx)
    · have hk := (h.creditedTx _).mpr ⟨credit,hcr,htx⟩
      exact absurd hk (h.quarantined _ event he).2.2
  · rcases hs.each other ho with hc'|⟨-,event',he',rfl⟩
    · obtain ⟨credit',hcr',rfl⟩ := hc hc'
      have hk := (h.creditedTx _).mpr ⟨credit',hcr',htx.symm⟩
      exact absurd hk (h.quarantined _ event he).2.2
    · rw [htx,he'] at he
      rw [Option.some.inj he]

end DepositWatcher

section
open DepositWatcher
variable (source : BridgeEmitterDepositSource) (topic0 : String) (minConfirmations : ℕ)

def CreditsBound (w : DepositWatcher) (input : Input) : Prop :=
  ∀ credit ∈ (w.step source topic0 minConfirmations input).2,
    w.bindings.get? credit.1.sender=some credit.2.customerId

theorem confirmed_snoc (inputs : List Input) (input : Input) :
    confirmed source topic0 minConfirmations (inputs++[input]) =
      confirmed source topic0 minConfirmations inputs ++
        confirmedOf minConfirmations (input.events source topic0) := by simp [confirmed,confirmedOf]

theorem recorded_deliver {w : DepositWatcher} {credits : List Credit} {passed : List Deposit}
    (h : w.Recorded credits passed) (events : List DepositEvent) :
    (w.deliver minConfirmations events).1.Recorded (credits++(w.deliver minConfirmations events).2)
        (passed++confirmedOf minConfirmations events) ∧
      ∀ credit ∈ (w.deliver minConfirmations events).2,
        w.bindings.get? credit.1.sender=some credit.2.customerId := by
  obtain ⟨w',more,he,hr,hb⟩ := h.process events []
  have hd : w.deliver minConfirmations events=(w',more) := by
    rw [deliver,process,he]
    rfl
  rw [hd]
  exact ⟨hr,hb⟩

theorem recorded_step {w : DepositWatcher} {credits : List Credit} {passed : List Deposit}
    (h : w.Recorded credits passed) (input : Input) :
    (w.step source topic0 minConfirmations input).1.Recorded
        (credits++(w.step source topic0 minConfirmations input).2)
        (passed++confirmedOf minConfirmations (input.events source topic0)) ∧
      CreditsBound source topic0 minConfirmations w input := by
  cases input with
  | bindAddress address customerId =>
    refine ⟨?_,fun credit hc => by cases hc⟩
    simp only [step,Input.events,confirmedOf_nil,append_nil]
    exact h.bindAddress address customerId
  | unbindAddress address =>
    refine ⟨?_,fun credit hc => by cases hc⟩
    simp only [step,Input.events,confirmedOf_nil,append_nil]
    exact h.unbindAddress address
  | process events => exact recorded_deliver minConfirmations h events
  | pollOnce client =>
    exact recorded_deliver minConfirmations h (Input.events source topic0 (.pollOnce client))

theorem recorded_init : init.Recorded [] [] where
  named _ _ hg := by cases hg
  creditedTx tx := by simp [init]
  once := nodup_nil
  credited _ hm := by cases hm
  quarantined _ _ hg := by cases hg
  seen _ hm := by cases hm
  balances _ := rfl

theorem recorded_run (inputs : List Input) :
    ((machine source topic0 minConfirmations).state inputs).Recorded
      ((machine source topic0 minConfirmations).outputs inputs)
      (confirmed source topic0 minConfirmations inputs) := by
  induction inputs using reverseRecOn with
  | nil => exact recorded_init
  | append_singleton inputs input ih =>
    rw [Machine.state_snoc,Machine.outputs_snoc,confirmed_snoc]
    exact (recorded_step source topic0 minConfirmations ih input).1

/-- In every run each confirmed transfer that was passed to `process` is credited exactly once, to
the customer its sender is bound to, or recorded as quarantined, and the credits are the amounts
of the credited transfers, if and only if no two of these transfers share a transaction. -/
theorem settled_iff_hashesDiffer (inputs : List Input) :
    (machine source topic0 minConfirmations).Meets (CreditsBound source topic0 minConfirmations)
        inputs ∧ ((machine source topic0 minConfirmations).state inputs).Settled
        ((machine source topic0 minConfirmations).outputs inputs)
        (confirmed source topic0 minConfirmations inputs) ↔
      HashesDiffer (confirmed source topic0 minConfirmations inputs) := by
  have hr := recorded_run source topic0 minConfirmations inputs
  constructor
  · rintro ⟨-,hs⟩
    exact hs.hashesDiffer hr
  · intro hd
    refine ⟨fun before input after _ => ?_,hr.settled hd⟩
    exact (recorded_step source topic0 minConfirmations
      (recorded_run source topic0 minConfirmations before) input).2

section

def alice : String := String.ofList ('0' :: 'x' :: List.replicate 40 'a')
def transaction : String := String.ofList ('0' :: 'x' :: List.replicate 64 'b')

def emitterSource : BridgeEmitterDepositSource := ⟨alice,alice,0,5000,1⟩

def secondTransfer : Deposit := ⟨transaction,1,alice,7⟩

def twoTransfers : List Input :=
  [.bindAddress alice "alice",.process [⟨⟨transaction,0,alice,5⟩,6⟩,⟨secondTransfer,6⟩]]

theorem twoTransfers_second_lost : ¬((machine emitterSource "" 6).state twoTransfers).Settled
      ((machine emitterSource "" 6).outputs twoTransfers)
      (confirmed emitterSource "" 6 twoTransfers) := by
  intro h
  have hp : secondTransfer ∈ confirmed emitterSource "" 6 twoTransfers := by decide +kernel
  have hc : (((machine emitterSource "" 6).outputs twoTransfers).map Prod.fst).count
      secondTransfer=0 := by decide +kernel
  have hn : (((machine emitterSource "" 6).state twoTransfers).unattributed.get?
      secondTransfer.txHash).isNone := by decide +kernel
  rcases h.each secondTransfer hp with ho|⟨-,event,he,-⟩
  · rw [hc] at ho
    cases ho
  · rw [he] at hn
    cases hn

end
end
end LatticeTransfer.Deposits
