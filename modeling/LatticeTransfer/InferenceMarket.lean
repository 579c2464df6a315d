import LatticeTransfer.StablecoinLedger

/-!
# The inference market

`InferenceMarket` meters served requests and settles them on the stablecoin ledger, against a
payment made elsewhere (`settle`) or against the prepaid balance of a customer
(`settle_prepaid`). Both calls check that the request is not settled yet, then move the money,
then record the settlement. The ledger moves the money under its lock and the record is made
under the lock of the market, but no lock spans the three steps, so calls of different threads
interleave between them.
-/

namespace LatticeTransfer.Inference
open Incentives List

def mtok : ℤ := 10^6

structure InferencePricing where
  modelId : String
  inputMicroPerMtok : ℤ
  outputMicroPerMtok : ℤ
  modelId_ne : modelId ≠ ""
  input_nonneg : 0 ≤ inputMicroPerMtok
  output_nonneg : 0≤outputMicroPerMtok

def InferencePricing.quote (pricing : InferencePricing) (inputTokens outputTokens : ℕ) : ℤ :=
  let costIn := -(-(inputTokens : ℤ)*pricing.inputMicroPerMtok / mtok)
  let costOut := -(-(outputTokens : ℤ)*pricing.outputMicroPerMtok / mtok)
  costIn+costOut

structure InferenceReceipt where
  requestId : String
  nodeId : String
  modelId : String
  inputTokens : ℕ
  outputTokens : ℕ
  requestId_ne : requestId ≠ ""
  nodeId_ne : nodeId ≠ ""
  modelId_ne : modelId ≠ ""

structure InferenceSettlement where
  requestId : String
  nodeId : String
  modelId : String
  revenueMicro : ℤ
  providerClaimMicro : ℤ
  insuranceMicro : ℤ
  treasuryMicro : ℤ
  customerId : Option String
  customerBalanceAfterMicro : Option ℤ

inductive InferenceError
  | error (message : String)
  | insufficientBalance (customerId : String) (balanceMicro dueMicro : ℤ)
  | ledger (e : PyError)

structure InferenceMarket where
  ledger : StablecoinLedger
  pricing : Dict String InferencePricing
  settledRequests : Finset String
  revenueByModel : Dict String ℤ
  tokensByModel : Dict String ℤ

namespace InferenceMarket

def registerModel (market : InferenceMarket) (pricing : InferencePricing) : InferenceMarket :=
  {market with pricing := market.pricing.set pricing.modelId pricing}

def validateForSettlement (market : InferenceMarket) (receipt : InferenceReceipt)
    (verified : Bool) : Except InferenceError ℤ :=
  let modelId := receipt.modelId
  let requestId := receipt.requestId
  match market.pricing.get? modelId with
  | none => .error (.error s!"model not listed: {modelId}")
  | some pricing =>
    if requestId ∈ market.settledRequests then
      .error (.error s!"request already settled: {requestId}")
    else if !verified then .error (.error s!"receipt verification failed: {requestId}")
    else .ok (pricing.quote receipt.inputTokens receipt.outputTokens)

def recordSettlement (market : InferenceMarket) (receipt : InferenceReceipt) (revenueMicro : ℤ)
    (split : ℤ × ℤ × ℤ) (customerId : Option String) : InferenceSettlement × InferenceMarket :=
  let account := market.ledger.accountOf receipt.nodeId
  let claim := if account.evicted then 0 else split.1
  let market := {market with
    ledger := market.ledger.addClaim receipt.nodeId claim
    settledRequests := insert receipt.requestId market.settledRequests
    revenueByModel := market.revenueByModel.set receipt.modelId
      ((market.revenueByModel.get? receipt.modelId).getD 0+revenueMicro)
    tokensByModel := market.tokensByModel.set receipt.modelId
      ((market.tokensByModel.get? receipt.modelId).getD 0+receipt.inputTokens +
        receipt.outputTokens)}
  (⟨receipt.requestId,receipt.nodeId,receipt.modelId,revenueMicro,claim,split.2.1,split.2.2,
    customerId,customerId.map market.ledger.customerBalance⟩,market)

end InferenceMarket

inductive Call
  | settle (receipt : InferenceReceipt) (paidMicro : ℤ)
  | settlePrepaid (receipt : InferenceReceipt) (customerId : String)

namespace Call

def receipt : Call → InferenceReceipt
  | settle receipt _ => receipt
  | settlePrepaid receipt _ => receipt

def requestId (call : Call) : String := call.receipt.requestId

def customerId : Call → Option String
  | settle _ _ => none
  | settlePrepaid _ customerId => some customerId

def validate (market : InferenceMarket) (verified : Bool) : Call → Except InferenceError ℤ
  | settle receipt paidMicro => do
    let due ← market.validateForSettlement receipt verified
    if paidMicro<due then .error (.error s!"underpayment: paid {paidMicro}, metered {due}")
    else .ok due
  | settlePrepaid receipt customerId =>
    if customerId = "" then .error (.error "customer_id must be non-empty")
    else market.validateForSettlement receipt verified

def pay (config : IncentiveConfig) (market : InferenceMarket) (due : ℤ) :
    Call → Except InferenceError (ℤ × ℤ × ℤ × ℤ) × InferenceMarket
  | settle _ paidMicro =>
    match (StablecoinLedger.depositFee config paidMicro).exec market.ledger with
    | (.ok split,ledger) => (.ok (paidMicro,split),{market with ledger := ledger})
    | (.error e,ledger) => (.error (.ledger e),{market with ledger := ledger})
  | settlePrepaid _ customerId =>
    match (StablecoinLedger.customerDebitToFees config customerId due).exec market.ledger with
    | (.ok split,ledger) => (.ok (due,split),{market with ledger := ledger})
    | (.error _,ledger) =>
      (.error (.insufficientBalance customerId (ledger.customerBalance customerId) due),
        {market with ledger := ledger})

def record (market : InferenceMarket) (revenueMicro : ℤ) (split : ℤ × ℤ × ℤ) (call : Call) :
    InferenceSettlement × InferenceMarket :=
  market.recordSettlement call.receipt revenueMicro split call.customerId

theorem notMem_of_validate {market : InferenceMarket} {verified : Bool} {call : Call} {due : ℤ}
    (h : call.validate market verified=.ok due) : call.requestId ∉ market.settledRequests := by
  have hr : ∀ {receipt due}, market.validateForSettlement receipt verified=.ok due →
      receipt.requestId ∉ market.settledRequests := by
    intro receipt due h
    simp only [InferenceMarket.validateForSettlement] at h
    split at h
    next => cases h
    next =>
      split_ifs at h with hs hv
      exact hs
  cases call with
  | settle receipt paidMicro =>
    obtain ⟨due',hd,-⟩ := PyValue.bind_ok h
    exact hr hd
  | settlePrepaid receipt customerId =>
    rw [validate] at h
    split_ifs at h
    exact hr h

theorem settledRequests_pay (config : IncentiveConfig) (market : InferenceMarket) (due : ℤ)
    (call : Call) : (call.pay config market due).2.settledRequests=market.settledRequests := by
  cases call with
  | settle receipt paidMicro =>
    rw [pay]
    split <;> rfl
  | settlePrepaid receipt customerId =>
    rw [pay]
    split <;> rfl

end Call

inductive Progress
  | called
  | validated (due : ℤ)
  | paid (revenueMicro : ℤ) (split : ℤ × ℤ × ℤ)
  | returned (settlement : InferenceSettlement)
  | raised (e : InferenceError)

def Progress.inFlight : Progress → Bool
  | validated _ | paid _ _ => true
  | _ => false

inductive Event
  | debited (requestId customerId : String) (amountMicro : ℤ)
  | settled (requestId : String)

namespace Event

def debits (requestId : String) : Event → Bool
  | debited r _ _ => r=requestId
  | settled _ => false

def settles (requestId : String) : Event → Bool
  | debited _ _ _ => false
  | settled r => r=requestId

end Event

def debitEvents (call : Call) (amountMicro : ℤ) : List Event :=
  match call.customerId with
  | some customerId => [.debited call.requestId customerId amountMicro]
  | none => []

def advance (config : IncentiveConfig) (market : InferenceMarket) (verified : Bool) (call : Call) :
    Progress → Progress × InferenceMarket × List Event
  | .called =>
    match call.validate market verified with
    | .ok due => (.validated due,market,[])
    | .error e => (.raised e,market,[])
  | .validated due =>
    match call.pay config market due with
    | (.ok (revenueMicro,split),market) =>
      (.paid revenueMicro split,market,debitEvents call revenueMicro)
    | (.error e,market) => (.raised e,market,[])
  | .paid revenueMicro split =>
    let (settlement,market) := call.record market revenueMicro split
    (.returned settlement,market,[.settled call.requestId])
  | .returned settlement => (.returned settlement,market,[])
  | .raised e => (.raised e,market,[])

structure System where
  market : InferenceMarket
  calls : List (Call × Progress)

inductive Input
  | call (c : Call)
  | step (thread : ℕ) (verified : Bool)
  | registerModel (pricing : InferencePricing)
  | ledger (change : StablecoinLedger → StablecoinLedger)

def System.step (config : IncentiveConfig) (s : System) : Input → System × List Event
  | .call c => ({s with calls := s.calls++[(c,.called)]},[])
  | .step thread verified =>
    match s.calls[thread]? with
    | none => (s,[])
    | some (call,progress) =>
      let (progress,market,events) := advance config s.market verified call progress
      (⟨market,s.calls.set thread (call,progress)⟩,events)
  | .registerModel pricing => ({s with market := s.market.registerModel pricing},[])
  | .ledger change => ({s with market := {s.market with ledger := change s.market.ledger}},[])

def machine (config : IncentiveConfig) (market : InferenceMarket) : Machine System Input Event where
  start := ⟨market,[]⟩
  step := System.step config

def InFlight (s : System) (requestId : String) (thread : ℕ) : Prop :=
  ∃ call progress, s.calls[thread]?=some (call,progress) ∧ call.requestId=requestId ∧
    progress.inFlight=true

def HasPaid (s : System) (requestId : String) (thread : ℕ) : Prop :=
  ∃ call revenueMicro split, s.calls[thread]?=some (call,.paid revenueMicro split) ∧
    call.requestId=requestId

def System.starting (s : System) (thread : ℕ) : Option Call :=
  match s.calls[thread]? with
  | some (call,.called) => some call
  | _ => none

/-- A call is validated only when no call for its request is between its validation and its
record. -/
def Separate (s : System) : Input → Prop
  | .step thread _ => ∀ call ∈ s.starting thread, ∀ other ∈ s.calls,
      other.1.requestId=call.requestId → other.2.inFlight=false
  | _ => True

instance (s : System) (input : Input) : Decidable (Separate s input) := by
  cases input <;> unfold Separate <;> infer_instance

structure AtMostOnce (s : System) (events : List Event) : Prop where
  single : ∀ r i j, InFlight s r i → InFlight s r j → i=j
  fresh : ∀ r ∈ s.market.settledRequests, ∀ i, ¬InFlight s r i
  settled : ∀ r, events.countP (Event.settles r) ≤ if r ∈ s.market.settledRequests then 1 else 0
  debited : ∀ r, events.countP (Event.debits r)≤1
  paid : ∀ r, 0<events.countP (Event.debits r) →
    r ∈ s.market.settledRequests ∨ ∃ i, HasPaid s r i

section
variable {s : System} {thread : ℕ} {call : Call} {progress next : Progress}
  {market : InferenceMarket} {events : List Event}

section
variable (ht : s.calls[thread]?=some (call,progress))
include ht

theorem inFlight_set (r : String) (j : ℕ) :
    InFlight ⟨market,s.calls.set thread (call,next)⟩ r j ↔
      if thread=j then call.requestId=r ∧ next.inFlight=true else InFlight s r j := by
  have hlt : thread<s.calls.length := (List.getElem?_eq_some_iff.mp ht).1
  simp only [InFlight,List.getElem?_set,hlt]
  by_cases hj : thread=j
  · simp [hj]
  · simp [hj]

theorem hasPaid_set (hp : ∀ rev split, progress≠.paid rev split) {r : String}
    {j : ℕ} (h : HasPaid s r j) : HasPaid ⟨market,s.calls.set thread (call,next)⟩ r j := by
  obtain ⟨other,rev,split,ho,hr⟩ := h
  refine ⟨other,rev,split,?_,hr⟩
  rw [List.getElem?_set_ne,ho]
  rintro rfl
  rw [ht] at ho
  exact hp rev split (Prod.mk.inj (Option.some.inj ho)).2

end

theorem HasPaid.inFlight {r : String} {j : ℕ} (h : HasPaid s r j) : InFlight s r j := by
  obtain ⟨other,rev,split,ho,hr⟩ := h
  exact ⟨other,_,ho,hr,rfl⟩

theorem countP_debits_debitEvents (call : Call) (rev : ℤ) (r : String) :
    (debitEvents call rev).countP (Event.debits r) ≤
      if call.requestId=r then 1 else 0 := by
  rw [debitEvents]
  split
  next => simp [Event.debits]
  next => simp

theorem countP_settles_debitEvents (call : Call) (rev : ℤ) (r : String) :
    (debitEvents call rev).countP (Event.settles r)=0 := by
  rw [debitEvents]
  split
  next => rfl
  next => rfl

namespace AtMostOnce

theorem same {s' : System} (h : AtMostOnce s events) (hf : ∀ r i, InFlight s' r i → InFlight s r i)
    (hp : ∀ r i, HasPaid s r i → HasPaid s' r i)
    (hs : s'.market.settledRequests=s.market.settledRequests) : AtMostOnce s' events := by
  constructor
  · intro r i j hi hj
    exact h.single r i j (hf r i hi) (hf r j hj)
  · intro r hr i hi
    rw [hs] at hr
    exact h.fresh r hr i (hf r i hi)
  · rw [hs]
    exact h.settled
  · exact h.debited
  · intro r hr
    rw [hs]
    rcases h.paid r hr with hr|⟨i,hi⟩
    · exact .inl hr
    · exact .inr ⟨i,hp r i hi⟩

theorem validated {due : ℤ} (h : AtMostOnce s events) (ht : s.calls[thread]?=some (call,.called))
    (hn : call.requestId ∉ s.market.settledRequests)
    (hs : ∀ other, ¬InFlight s call.requestId other) :
    AtMostOnce ⟨s.market,s.calls.set thread (call,.validated due)⟩ events := by
  constructor
  · intro r i j hi hj
    rw [inFlight_set ht] at hi hj
    split_ifs at hi hj with hti htj htj
    · rw [← hti,← htj]
    · rw [← hi.1] at hj
      exact absurd hj (hs j)
    · rw [← hj.1] at hi
      exact absurd hi (hs i)
    · exact h.single r i j hi hj
  · intro r hr i hi
    rw [inFlight_set ht] at hi
    split_ifs at hi with hti
    · rw [← hi.1] at hr
      exact hn hr
    · exact h.fresh r hr i hi
  · exact h.settled
  · exact h.debited
  · intro r hr
    rcases h.paid r hr with hr|⟨i,hi⟩
    · exact .inl hr
    · exact .inr ⟨i,hasPaid_set ht (by intro _ _ h; cases h) hi⟩

theorem ends (h : AtMostOnce s events) (ht : s.calls[thread]?=some (call,progress))
    (hp : ∀ rev split, progress≠.paid rev split) (hn : next.inFlight=false)
    (hs : market.settledRequests=s.market.settledRequests) :
    AtMostOnce ⟨market,s.calls.set thread (call,next)⟩ events := by
  refine h.same (fun r i hi => ?_) (fun r i => hasPaid_set ht hp) hs
  rw [inFlight_set ht,hn] at hi
  split_ifs at hi
  · cases hi.2
  · exact hi

theorem undebited {due : ℤ} (h : AtMostOnce s events)
    (ht : s.calls[thread]?=some (call,.validated due)) :
    events.countP (Event.debits call.requestId)=0 := by
  have hf : InFlight s call.requestId thread := ⟨call,_,ht,rfl,rfl⟩
  by_contra hne
  rcases h.paid call.requestId (Nat.pos_of_ne_zero hne) with hm|⟨i,hi⟩
  · exact h.fresh _ hm thread hf
  · obtain rfl := h.single _ i thread hi.inFlight hf
    obtain ⟨other,revenue,shares,ho,-⟩ := hi
    rw [ht] at ho
    cases ho

theorem pays {due rev : ℤ} {split : ℤ × ℤ × ℤ} (h : AtMostOnce s events)
    (ht : s.calls[thread]?=some (call,.validated due))
    (hs : market.settledRequests=s.market.settledRequests) :
    AtMostOnce ⟨market,s.calls.set thread (call,.paid rev split)⟩
      (events++debitEvents call rev) := by
  have hf : InFlight s call.requestId thread := ⟨call,_,ht,rfl,rfl⟩
  have hsa : ∀ r i, InFlight ⟨market,s.calls.set thread (call,.paid rev split)⟩ r i →
      InFlight s r i := by
    intro r i hi
    rw [inFlight_set ht] at hi
    split_ifs at hi with hti
    · rw [← hti,← hi.1]
      exact hf
    · exact hi
  have hp : HasPaid ⟨market,s.calls.set thread (call,.paid rev split)⟩
      call.requestId thread := by
    have hlt : thread<s.calls.length := (List.getElem?_eq_some_iff.mp ht).1
    exact ⟨call,rev,split,by rw [List.getElem?_set_self hlt],rfl⟩
  have hn := h.undebited ht
  constructor
  · intro r i j hi hj
    exact h.single r i j (hsa r i hi) (hsa r j hj)
  · intro r hr i hi
    rw [hs] at hr
    exact h.fresh r hr i (hsa r i hi)
  · intro r
    rw [countP_append,countP_settles_debitEvents,hs]
    exact h.settled r
  · intro r
    have hr := countP_debits_debitEvents call rev r
    rw [countP_append]
    split_ifs at hr with hre
    · rw [← hre] at hr ⊢
      omega
    · have ho := h.debited r
      omega
  · intro r hr
    by_cases hre : call.requestId=r
    · rw [← hre]
      exact .inr ⟨thread,hp⟩
    · have hne := countP_debits_debitEvents call rev r
      rw [if_neg hre] at hne
      rw [countP_append] at hr
      rw [hs]
      rcases h.paid r (by omega) with hm|⟨i,hi⟩
      · exact .inl hm
      · exact .inr ⟨i,hasPaid_set ht (by intro _ _ h; cases h) hi⟩

theorem records {rev : ℤ} {split : ℤ × ℤ × ℤ} {settlement : InferenceSettlement}
    (h : AtMostOnce s events) (ht : s.calls[thread]?=some (call,.paid rev split))
    (hs : market.settledRequests=insert call.requestId s.market.settledRequests) :
    AtMostOnce ⟨market,s.calls.set thread (call,.returned settlement)⟩
      (events++[.settled call.requestId]) := by
  have hf : InFlight s call.requestId thread := ⟨call,_,ht,rfl,rfl⟩
  have hn : call.requestId ∉ s.market.settledRequests := fun hm =>
    h.fresh _ hm thread hf
  have hsa : ∀ r i, InFlight ⟨market,s.calls.set thread (call,.returned settlement)⟩ r i →
      thread≠i ∧ InFlight s r i := by
    intro r i hi
    rw [inFlight_set ht] at hi
    split_ifs at hi with hti
    · cases hi.2
    · exact ⟨hti,hi⟩
  constructor
  · intro r i j hi hj
    exact h.single r i j (hsa r i hi).2 (hsa r j hj).2
  · intro r hr i hi
    obtain ⟨hne,hi⟩ := hsa r i hi
    rw [hs,Finset.mem_insert] at hr
    rcases hr with rfl|hr
    · exact hne (h.single _ thread i hf hi)
    · exact h.fresh r hr i hi
  · intro r
    have hol := h.settled r
    rw [countP_append,hs]
    by_cases hre : call.requestId=r
    · rw [← hre,if_neg hn] at hol
      rw [← hre,Nat.le_zero.mp hol]
      simp [Event.settles]
    · simpa [Event.settles,hre,Ne.symm hre] using hol
  · intro r
    rw [countP_append]
    exact h.debited r
  · intro r hr
    rw [countP_append] at hr
    rw [hs,Finset.mem_insert]
    rcases h.paid r hr with hm|⟨i,hi⟩
    · exact .inl (.inr hm)
    · by_cases hti : thread=i
      · obtain ⟨other,_,_,ho,hre⟩ := hi
        rw [← hti,ht] at ho
        rw [← (Prod.mk.inj (Option.some.inj ho)).1] at hre
        exact .inl (.inl hre.symm)
      · obtain ⟨other,revenue,shares,ho,hre⟩ := hi
        exact .inr ⟨i,other,revenue,shares,by rwa [getElem?_set_ne hti],hre⟩

variable (config : IncentiveConfig)

theorem advances (verified : Bool) (h : AtMostOnce s events)
    (ht : s.calls[thread]?=some (call,progress))
    (hs : progress=.called → ∀ other, ¬InFlight s call.requestId other) :
    AtMostOnce ⟨(advance config s.market verified call progress).2.1,s.calls.set thread
        (call,(advance config s.market verified call progress).1)⟩
      (events++(advance config s.market verified call progress).2.2) := by
  cases progress with
  | called =>
    simp only [advance]
    cases hv : call.validate s.market verified with
    | ok due =>
      rw [append_nil]
      exact h.validated ht (Call.notMem_of_validate hv) (hs rfl)
    | error e =>
      rw [append_nil]
      exact h.ends ht (by intro _ _ h; cases h) rfl rfl
  | validated due =>
    have hse := Call.settledRequests_pay config s.market due call
    simp only [advance]
    split
    next rev split market hp =>
      rw [hp] at hse
      exact h.pays ht hse
    next e market hp =>
      rw [hp] at hse
      rw [append_nil]
      exact h.ends ht (by intro _ _ h; cases h) rfl hse
  | paid rev split => exact h.records ht rfl
  | returned settlement =>
    rw [advance,append_nil]
    exact h.ends ht (by intro _ _ h; cases h) rfl rfl
  | raised e =>
    rw [advance,append_nil]
    exact h.ends ht (by intro _ _ h; cases h) rfl rfl

theorem step {input : Input} (h : AtMostOnce s events) (hs : Separate s input) :
    AtMostOnce (s.step config input).1 (events++(s.step config input).2) := by
  cases input with
  | call c =>
    rw [System.step,append_nil]
    refine h.same (fun r i hi => ?_) (fun r i hi => ?_) rfl
    · obtain ⟨call,progress,hc,hr,hf⟩ := hi
      rw [getElem?_append] at hc
      split_ifs at hc with hlt
      · exact ⟨call,progress,hc,hr,hf⟩
      · -- the new call has not been validated
        obtain ⟨-,rfl⟩ := Prod.mk.inj (mem_singleton.mp (mem_of_getElem? hc))
        cases hf
    · obtain ⟨call,rev,split,hc,hr⟩ := hi
      refine ⟨call,rev,split,?_,hr⟩
      rw [List.getElem?_append_left (List.getElem?_eq_some_iff.mp hc).1,hc]
  | step thread ok =>
    rw [System.step]
    split
    next =>
      rw [append_nil]
      exact h
    next call progress ht =>
      refine h.advances config ok ht ?_
      rintro rfl other ⟨found,stage,hfo,hr,hf⟩
      have hst : call ∈ s.starting thread := by
        rw [System.starting,ht]
        rfl
      have hn := hs call hst (found,stage) (mem_of_getElem? hfo) hr
      rw [hf] at hn
      cases hn
  | registerModel pricing =>
    rw [System.step,append_nil]
    exact h.same (fun _ _ hi => hi) (fun _ _ hi => hi) rfl
  | ledger change =>
    rw [System.step,append_nil]
    exact h.same (fun _ _ hi => hi) (fun _ _ hi => hi) rfl

end AtMostOnce

end

theorem atMostOnce_start (market : InferenceMarket) : AtMostOnce ⟨market,[]⟩ [] where
  single _ _ _ hi := by
    obtain ⟨_,_,hn,_⟩ := hi
    cases hn
  fresh _ _ _ hi := by
    obtain ⟨_,_,hn,_⟩ := hi
    cases hn
  settled _ := Nat.zero_le _
  debited _ := Nat.zero_le _
  paid _ h := absurd h (by simp)

/-- In every interleaving in which calls for one request do not overlap, a request is settled
at most once and its customer is debited at most once for it. -/
theorem settled_once (config : IncentiveConfig) (market : InferenceMarket) (inputs : List Input)
    (h : (machine config market).Meets Separate inputs) (requestId : String) :
    ((machine config market).outputs inputs).countP (Event.settles requestId)≤1 ∧
      ((machine config market).outputs inputs).countP (Event.debits requestId)≤1 := by
  have ho : AtMostOnce ((machine config market).state inputs)
      ((machine config market).outputs inputs) :=
    Machine.invariant_of_meets (atMostOnce_start market)
      (fun _ _ _ ho hs => ho.step config hs) inputs h
  refine ⟨(ho.settled requestId).trans ?_,ho.debited requestId⟩
  split_ifs
  · exact le_refl 1
  · exact Nat.zero_le 1

section

def someReceipt : InferenceReceipt := ⟨"r","n","m",1000000,0,by decide,by decide,by decide⟩

def freshMarket : InferenceMarket :=
  ⟨StablecoinLedger.init.addBalance "c" 20,Dict.empty.set "m" ⟨"m",5,5,by decide,by decide,
    by decide⟩,∅,Dict.empty,Dict.empty⟩

def bothCalls : List Input :=
  [.call (.settlePrepaid someReceipt "c"),.call (.settlePrepaid someReceipt "c")]

def oneAfterTheOther : List Input :=
  bothCalls++[.step 0 true,.step 0 true,.step 0 true,.step 1 true]

def overlapping : List Input :=
  bothCalls++[.step 0 true,.step 1 true,.step 0 true,.step 1 true,.step 0 true,.step 1 true]

open Incentives.StablecoinLedger in
theorem oneAfterTheOther_once :
    (machine defaultConfig freshMarket).Meets Separate oneAfterTheOther ∧
    ((machine defaultConfig freshMarket).outputs oneAfterTheOther).countP
      (Event.settles "r")≤1 := by
  have h : (machine defaultConfig freshMarket).Meets Separate oneAfterTheOther := by decide +kernel
  exact ⟨h,(settled_once defaultConfig freshMarket oneAfterTheOther h "r").1⟩

open Incentives.StablecoinLedger in
theorem overlapping_debited_twice :
    ((machine defaultConfig freshMarket).outputs overlapping).countP (Event.settles "r")=2 ∧
    ((machine defaultConfig freshMarket).outputs overlapping).countP (Event.debits "r")=2 ∧
    ((machine defaultConfig freshMarket).state overlapping).market.ledger.customerBalance "c" =
      10 := by decide +kernel

end

end LatticeTransfer.Inference
