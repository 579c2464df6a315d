import LatticeTransfer.BridgeMessages

/-!
# The bridge operator

`bridge.operator.BridgeOperatorService`: a tick goes through the retry queue, polls the
commitment log and tries to bridge each new record. The answers of the outside are an argument of
the tick. A record that is appended while the retries are processed might as well have been there
before the tick, and one that is appended after the poll comes with the next.
-/

namespace LatticeTransfer.BridgeOperator
open CommitmentLog JsonText List

structure Config where
  sourceChain : String
  destChain : String
  sender : String
  recipient : String
  maxRetries : ℤ
  liveBridge : Bool

structure TickResult where
  epoch : ℕ
  recordsPolled : ℕ
  recordsBridged : ℕ
  recordsSkipped : ℕ
  recordsFailed : ℕ
  retriesAttempted : ℕ
  challengeWindowsTicked : ℕ
  error : String
deriving DecidableEq

structure Retry where
  entityId : String
  record : CommitmentRecord
  attempts : ℕ

structure Service where
  lastSeenIndex : ℕ
  bridgedEntities : Finset String
  retryQueue : List Retry
  nonce : ℕ
  epoch : ℕ

inductive Event
  | returned (entityId : String)
  | failed (entityId : String)
  | dropped (entityId : String)
deriving DecidableEq

inductive Outcome
  | result
  | nothing
  | raised
deriving DecidableEq

structure Answers where
  clock : ℕ → Json
  transfer : BridgeMessage → Outcome
  pollFails : Bool
  finalized : Option (List String)

structure Pass where
  service : Service
  result : TickResult
  events : List Event

variable (c : Config)

def recordToBridgeMessage (answers : Answers) (nonce : ℕ) (entityId : String)
    (record : CommitmentRecord) : BridgeMessage where
  msgType := "state_update"
  sourceChain := c.sourceChain
  destChain := c.destChain
  sender := c.sender
  recipient := c.recipient
  payload := .obj [("entity_id",.str entityId),("content_hash",.str record.contentHash),
    ("shard_map_root",.str record.shardMapRoot)]
  nonce := nonce
  timestamp := answers.clock nonce

def Pass.fail (pass : Pass) (entityId : String) : Pass :=
  {pass with
    result := {pass.result with recordsFailed := pass.result.recordsFailed+1}
    events := pass.events++[.failed entityId]}

def Pass.countRetry (pass : Pass) : Pass :=
  {pass with result := {pass.result with retriesAttempted := pass.result.retriesAttempted+1}}

def Pass.advance (pass : Pass) : Pass :=
  {pass with service := {pass.service with lastSeenIndex := pass.service.lastSeenIndex+1}}

@[simp] theorem Pass.countRetry_service (pass : Pass) :
    pass.countRetry.service=pass.service := rfl
@[simp] theorem Pass.countRetry_events (pass : Pass) : pass.countRetry.events=pass.events := rfl
@[simp] theorem Pass.advance_events (pass : Pass) : pass.advance.events=pass.events := rfl

@[simp] theorem Pass.advance_service (pass : Pass) : pass.advance.service =
    {pass.service with lastSeenIndex := pass.service.lastSeenIndex+1} := rfl

def tryBridge (answers : Answers) (entityId : String) (record : CommitmentRecord) (pass : Pass) :
    Bool × Pass :=
  if c.liveBridge=false then (false,pass.fail entityId)
  else
    let nonce := pass.service.nonce+1
    let pass := {pass with service := {pass.service with nonce := nonce}}
    match answers.transfer (recordToBridgeMessage c answers nonce entityId record) with
    | .raised => (false,pass.fail entityId)
    | .nothing => (false,pass.fail entityId)
    | .result => (true,{pass with
        service := {pass.service with
          bridgedEntities := insert entityId pass.service.bridgedEntities}
        result := {pass.result with recordsBridged := pass.result.recordsBridged+1}
        events := pass.events++[.returned entityId]})

def retryOne (answers : Answers) (state : Pass × List Retry) (entry : Retry) : Pass × List Retry :=
  let pass := state.1
  if c.maxRetries≤entry.attempts then
    ({pass with
      result := {pass.result with recordsFailed := pass.result.recordsFailed+1}
      events := pass.events++[.dropped entry.entityId]},state.2)
  else
    let attempt := tryBridge c answers entry.entityId entry.record pass.countRetry
    (attempt.2,if attempt.1 then state.2
      else state.2++[{entry with attempts := entry.attempts+1}])

def processRetries (answers : Answers) (pass : Pass) : Pass :=
  let done := pass.service.retryQueue.foldl (retryOne c answers) (pass,[])
  {done.1 with service := {done.1.service with retryQueue := done.2}}

def processRecord (answers : Answers) (pass : Pass) (record : CommitmentRecord) : Pass :=
  let entityId := record.entityId
  let pass := pass.advance
  if entityId ∈ pass.service.bridgedEntities then
    {pass with result := {pass.result with recordsSkipped := pass.result.recordsSkipped+1}}
  else
    let attempt := tryBridge c answers entityId record pass
    if attempt.1 then attempt.2
    else {attempt.2 with
      service := {attempt.2.service with
        retryQueue := attempt.2.service.retryQueue++[⟨entityId,record,1⟩]}}

def recordsSince (log : List CommitmentRecord) (index : ℕ) : List CommitmentRecord := log.drop index

def processRecords (answers : Answers) (log : List CommitmentRecord) (pass : Pass) : Pass :=
  let newRecords := recordsSince log pass.service.lastSeenIndex
  newRecords.foldl (processRecord c answers)
    {pass with result := {pass.result with recordsPolled := newRecords.length}}

def Service.begin (s : Service) : Pass :=
  ⟨{s with epoch := s.epoch+1},⟨s.epoch+1,0,0,0,0,0,0,""⟩,[]⟩

def tick (answers : Answers) (log : List CommitmentRecord) (s : Service) : Pass :=
  let pass := processRetries c answers s.begin
  if answers.pollFails then
    {pass with result := {pass.result with error := "poll failed" }}
  else
    let pass := processRecords c answers log pass
    {pass with result := {pass.result with
        challengeWindowsTicked := (answers.finalized.map length).getD 0}}

structure RecordLog where
  records : List CommitmentRecord
  distinct : (records.map CommitmentRecord.entityId).Nodup

namespace RecordLog

def append (log : RecordLog) (record : CommitmentRecord) : RecordLog :=
  if h : record.entityId ∈ log.records.map CommitmentRecord.entityId then log
  else ⟨log.records++[record],by
    rw [map_append]
    exact log.distinct.append (nodup_singleton _) (by simpa using h)⟩

end RecordLog

structure World where
  log : RecordLog
  service : Service

inductive Operation
  | append (record : CommitmentRecord)
  | tick (answers : Answers)

def perform (w : World) : Operation → World × List Event
  | .append record => ({w with log := w.log.append record},[])
  | .tick answers =>
    let pass := tick c answers w.log.records w.service
    ({w with service := pass.service},pass.events)

def machine : Machine World Operation Event where
  start := ⟨⟨[],nodup_nil⟩,⟨0,∅,[],0,0⟩⟩
  step := perform c

structure Desk where
  log : List String
  seen : ℕ
  queue : List (String × ℕ)
  bridged : Finset String
  trace : List Event

inductive Move (maxRetries : ℤ) : Desk → Desk → Prop
  | append {d : Desk} {id : String} (hnew : id ∉ d.log) :
    Move maxRetries d {d with log := d.log++[id]}
  | drop {d : Desk} {front back : List (String × ℕ)} {id : String} {attempts : ℕ}
    (hqueue : d.queue=front++(id,attempts)::back) (hover : maxRetries≤attempts) :
    Move maxRetries d {d with queue := front++back,trace := d.trace++[.dropped id]}
  | retryFails {d : Desk} {front back : List (String × ℕ)} {id : String} {attempts : ℕ}
    (hqueue : d.queue=front++(id,attempts)::back) (hmore : ¬maxRetries≤attempts) :
    Move maxRetries d {d with
      queue := front++(id,attempts+1)::back,trace := d.trace++[.failed id]}
  | retryReturns {d : Desk} {front back : List (String × ℕ)} {id : String} {attempts : ℕ}
    (hqueue : d.queue=front++(id,attempts)::back) :
    Move maxRetries d {d with
      queue := front++back,bridged := insert id d.bridged,trace := d.trace++[.returned id]}
  | pollFails {d : Desk} {id : String} {rest : List String}
    (hlog : d.log.drop d.seen=id::rest) :
    Move maxRetries d {d with
      seen := d.seen+1,queue := d.queue++[(id,1)],trace := d.trace++[.failed id]}
  | pollReturns {d : Desk} {id : String} {rest : List String}
    (hlog : d.log.drop d.seen=id::rest) :
    Move maxRetries d {d with
      seen := d.seen+1,bridged := insert id d.bridged,trace := d.trace++[.returned id]}

/-- The books of the desk: every record in one place, and every attempt counted. -/
structure Balanced (maxRetries : ℤ) (d : Desk) : Prop where
  nodup : d.log.Nodup
  seen_le : d.seen≤d.log.length
  tally : ∀ id, d.log.count id=(d.log.drop d.seen).count id+(d.queue.map Prod.fst).count id +
    d.trace.count (.returned id)+d.trace.count (.dropped id)
  bridged : ∀ id, id ∈ d.bridged ↔ .returned id ∈ d.trace
  tried : ∀ id, .failed id ∈ d.trace → id ∈ d.log.take d.seen
  attempts : ∀ entry ∈ d.queue, d.trace.count (.failed entry.1)=entry.2 ∧
    1≤entry.2 ∧ (entry.2 : ℤ) ≤ max 1 maxRetries
  dropped : ∀ id, .dropped id ∈ d.trace → (d.trace.count (.failed id) : ℤ)=max 1 maxRetries

section
variable {maxRetries : ℤ} {d d' : Desk} {id : String}

theorem count_snoc (trace : List Event) (e e' : Event) :
    (trace++[e]).count e'=trace.count e'+if e=e' then 1 else 0 := by
  rw [count_append,count_singleton]
  simp

theorem count_queue (front back : List (String × ℕ)) (id : String) (attempts : ℕ)
    (other : String) :
    ((front++(id,attempts)::back).map Prod.fst).count other =
      ((front++back).map Prod.fst).count other+if id=other then 1 else 0 := by
  simp only [map_append,map_cons,count_append,count_cons,beq_iff_eq]
  omega

theorem take_succ_of_drop {l rest : List String} {n : ℕ} (h : l.drop n=id::rest) :
    l.take (n+1)=l.take n++[id] ∧ l.drop (n+1)=rest ∧ n+1≤l.length := by
  have hn : n<l.length := by
    by_contra hle
    rw [drop_eq_nil_of_le (not_lt.mp hle)] at h
    cases h
  rw [drop_eq_getElem_cons hn] at h
  cases h
  exact ⟨take_succ_eq_append_getElem hn,rfl,hn⟩

namespace Balanced

variable (h : Balanced maxRetries d)
include h

theorem count_le_one (id : String) : d.log.count id≤1 :=
  nodup_iff_count_le_one.mp h.nodup id

theorem attempts_of_ne {entry : String × ℕ} (he : entry ∈ d.queue)
    {e : Event} (hne : e≠.failed entry.1) :
    (d.trace++[e]).count (.failed entry.1)=entry.2 ∧ 1≤entry.2 ∧
      (entry.2 : ℤ) ≤ max 1 maxRetries := by
  rw [count_snoc,if_neg hne]
  exact h.attempts entry he

theorem append (hn : id ∉ d.log) : Balanced maxRetries {d with log := d.log++[id]} where
  nodup := h.nodup.append (nodup_singleton _) (by simpa using hn)
  seen_le := by
    have hle := h.seen_le
    simp only [length_append]
    omega
  tally other := by
    have ht := h.tally other
    simp only [drop_append_of_le_length h.seen_le,count_append]
    omega
  bridged := h.bridged
  tried other ho := by
    rw [take_append_of_le_length h.seen_le]
    exact h.tried other ho
  attempts := h.attempts
  dropped := h.dropped

section
variable {front back : List (String × ℕ)} {attempts : ℕ}
  (hq : d.queue=front++(id,attempts)::back)
include hq

theorem of_waiting : id ∉ (front++back).map Prod.fst ∧ .dropped id ∉ d.trace := by
  have ht := h.tally id
  have hle := h.count_le_one id
  rw [hq,count_queue,if_pos rfl] at ht
  simp only [← count_eq_zero]
  omega

omit h in
theorem mem_queue {entry : String × ℕ} (he : entry ∈ front++back) : entry ∈ d.queue := by
  rw [hq,mem_append,mem_cons,or_left_comm,← mem_append]
  exact .inr he

theorem drop (hov : maxRetries≤attempts) : Balanced maxRetries
      {d with queue := front++back,trace := d.trace++[.dropped id]} where
  nodup := h.nodup
  seen_le := h.seen_le
  tally other := by
    have ht := h.tally other
    rw [hq,count_queue] at ht
    simp only [count_snoc,Event.dropped.injEq,reduceCtorEq,if_false]
    omega
  bridged other := by
    rw [h.bridged other]
    simp
  tried other ho := h.tried other (by simpa using ho)
  attempts entry he := h.attempts_of_ne (mem_queue hq he) (by simp)
  dropped other ho := by
    obtain ⟨hc,hon,hm⟩ := h.attempts (id,attempts) (by simp [hq])
    rw [mem_append,mem_singleton,Event.dropped.injEq] at ho
    simp only [count_snoc,reduceCtorEq,if_false]
    rcases ho with ho|rfl
    · exact h.dropped other ho
    · dsimp only at hc hon hm
      omega

theorem retryFails (hm : ¬maxRetries≤attempts) :
    Balanced maxRetries {d with
      queue := front++(id,attempts+1)::back,trace := d.trace++[.failed id]} where
  nodup := h.nodup
  seen_le := h.seen_le
  tally other := by
    have ht := h.tally other
    rw [hq,count_queue] at ht
    simp only [count_snoc,count_queue,reduceCtorEq,if_false]
    omega
  bridged other := by
    rw [h.bridged other]
    simp
  tried other ho := by
    have hc := (h.attempts (id,attempts) (by simp [hq])).1
    have hon := (h.attempts (id,attempts) (by simp [hq])).2.1
    rw [mem_append,mem_singleton,Event.failed.injEq] at ho
    rcases ho with ho|rfl
    · exact h.tried other ho
    · exact h.tried other (count_pos_iff.mp (by dsimp only at hc hon; omega))
  attempts entry he := by
    obtain ⟨hc,hon,hma⟩ := h.attempts (id,attempts) (by simp [hq])
    rw [mem_append,mem_cons,or_left_comm,← mem_append] at he
    rcases he with rfl|he
    · rw [count_snoc,if_pos rfl]
      dsimp only at hc hon hma ⊢
      omega
    · have ho : entry.1≠id := fun heq =>
        (h.of_waiting hq).1 (heq ▸ mem_map_of_mem he)
      exact h.attempts_of_ne (mem_queue hq he) (by simpa using ho.symm)
  dropped other ho := by
    have ho : .dropped other ∈ d.trace := by simpa using ho
    have hne : id≠other := by
      rintro rfl
      exact (h.of_waiting hq).2 ho
    rw [count_snoc,if_neg (by simpa using hne)]
    exact h.dropped other ho

theorem retryReturns :
    Balanced maxRetries {d with
      queue := front++back,bridged := insert id d.bridged,
      trace := d.trace++[.returned id]} where
  nodup := h.nodup
  seen_le := h.seen_le
  tally other := by
    have ht := h.tally other
    rw [hq,count_queue] at ht
    simp only [count_snoc,Event.returned.injEq,reduceCtorEq,if_false]
    omega
  bridged other := by
    rw [Finset.mem_insert,h.bridged other]
    simp [or_comm]
  tried other ho := h.tried other (by simpa using ho)
  attempts entry he := h.attempts_of_ne (mem_queue hq he) (by simp)
  dropped other ho := by
    rw [count_snoc]
    exact h.dropped other (by simpa using ho)

end

section
variable {rest : List String} (hlog : d.log.drop d.seen=id::rest)
include hlog

theorem of_unpolled : id ∉ d.queue.map Prod.fst ∧ .returned id ∉ d.trace ∧ .dropped id ∉ d.trace ∧
      .failed id ∉ d.trace := by
  have ht := h.tally id
  have hle := h.count_le_one id
  have hf : .failed id ∉ d.trace := fun hf => by
    have hd := disjoint_take_drop h.nodup (le_refl d.seen)
    exact hd (h.tried id hf) (by rw [hlog]; exact mem_cons_self)
  rw [hlog,count_cons_self] at ht
  rw [← count_eq_zero,← count_eq_zero,← count_eq_zero]
  exact ⟨by omega,by omega,by omega,hf⟩

theorem pollFails :
    Balanced maxRetries {d with
      seen := d.seen+1,queue := d.queue++[(id,1)],trace := d.trace++[.failed id]} where
  nodup := h.nodup
  seen_le := (take_succ_of_drop hlog).2.2
  tally other := by
    have ht := h.tally other
    rw [hlog,count_cons] at ht
    simp only [(take_succ_of_drop hlog).2.1,count_snoc,count_queue,append_nil,
      reduceCtorEq,if_false,beq_iff_eq] at ht ⊢
    omega
  bridged other := by
    rw [h.bridged other]
    simp
  tried other ho := by
    rw [(take_succ_of_drop hlog).1,mem_append]
    rw [mem_append,mem_singleton,Event.failed.injEq] at ho
    rcases ho with ho|rfl
    · exact .inl (h.tried other ho)
    · exact .inr (mem_singleton_self _)
  attempts entry he := by
    obtain ⟨hqueue,-,-,hf⟩ := h.of_unpolled hlog
    rw [mem_append,mem_singleton] at he
    rcases he with he|rfl
    · have ho : entry.1≠id := fun heq => hqueue (heq ▸ mem_map_of_mem he)
      exact h.attempts_of_ne he (by simpa using ho.symm)
    · rw [count_snoc,if_pos rfl,count_eq_zero.mpr hf]
      exact ⟨rfl,le_refl 1,le_max_left 1 maxRetries⟩
  dropped other ho := by
    have ho : .dropped other ∈ d.trace := by simpa using ho
    have hne : id≠other := by
      rintro rfl
      exact (h.of_unpolled hlog).2.2.1 ho
    rw [count_snoc,if_neg (by simpa using hne)]
    exact h.dropped other ho

theorem pollReturns :
    Balanced maxRetries {d with
      seen := d.seen+1,bridged := insert id d.bridged,
      trace := d.trace++[.returned id]} where
  nodup := h.nodup
  seen_le := (take_succ_of_drop hlog).2.2
  tally other := by
    have ht := h.tally other
    rw [hlog,count_cons] at ht
    simp only [(take_succ_of_drop hlog).2.1,count_snoc,Event.returned.injEq,reduceCtorEq,
      if_false,beq_iff_eq] at ht ⊢
    omega
  bridged other := by
    rw [Finset.mem_insert,h.bridged other]
    simp [or_comm]
  tried other ho := by
    rw [(take_succ_of_drop hlog).1,mem_append]
    exact .inl (h.tried other (by simpa using ho))
  attempts entry he := h.attempts_of_ne he (by simp)
  dropped other ho := by
    rw [count_snoc]
    exact h.dropped other (by simpa using ho)

end

end Balanced

theorem Move.balanced (h : Move maxRetries d d') (hb : Balanced maxRetries d) :
    Balanced maxRetries d' := by
  cases h with
  | append hn => exact hb.append hn
  | drop hqueue ho => exact hb.drop hqueue ho
  | retryFails hqueue hm => exact hb.retryFails hqueue hm
  | retryReturns hqueue => exact hb.retryReturns hqueue
  | pollFails hlog => exact hb.pollFails hlog
  | pollReturns hlog => exact hb.pollReturns hlog

theorem balanced_of_moves (h : Relation.ReflTransGen (Move maxRetries) d d')
    (hb : Balanced maxRetries d) : Balanced maxRetries d' := by
  induction h with
  | refl => exact hb
  | tail _ hm ih => exact hm.balanced ih

end

section
variable {c} (ans : Answers) (log : List CommitmentRecord) (trace : List Event)

def desk (log : List CommitmentRecord) (s : Service) (queue : List Retry) (trace : List Event) :
    Desk :=
  ⟨log.map CommitmentRecord.entityId,s.lastSeenIndex,
    queue.map fun entry => (entry.entityId,entry.attempts),s.bridgedEntities,trace⟩

def Pass.desk (pass : Pass) (log : List CommitmentRecord) (trace : List Event) : Desk :=
  BridgeOperator.desk log pass.service pass.service.retryQueue (trace++pass.events)

theorem tryBridge_cases (c : Config) (answers : Answers) (eid : String)
    (record : CommitmentRecord) (pass : Pass) :
    let attempt := tryBridge c answers eid record pass
    attempt.2.service.lastSeenIndex=pass.service.lastSeenIndex ∧
    attempt.2.service.retryQueue=pass.service.retryQueue ∧
    (attempt.1=true ∧ attempt.2.service.bridgedEntities=insert eid pass.service.bridgedEntities ∧
        attempt.2.events=pass.events++[.returned eid] ∨
      attempt.1=false ∧ attempt.2.service.bridgedEntities=pass.service.bridgedEntities ∧
        attempt.2.events=pass.events++[.failed eid]) := by
  unfold tryBridge
  dsimp only
  split_ifs
  · exact ⟨rfl,rfl,.inr ⟨rfl,rfl,rfl⟩⟩
  · split
    · exact ⟨rfl,rfl,.inr ⟨rfl,rfl,rfl⟩⟩
    · exact ⟨rfl,rfl,.inr ⟨rfl,rfl,rfl⟩⟩
    · exact ⟨rfl,rfl,.inl ⟨rfl,rfl,rfl⟩⟩

theorem retryOne_move (state : Pass × List Retry) (entry : Retry) (rest : List Retry) :
    let next := retryOne c ans state entry
    Move c.maxRetries
      (desk log state.1.service (state.2++entry::rest) (trace++state.1.events))
      (desk log next.1.service (next.2++rest) (trace++next.1.events)) := by
  have hqueue : (desk log state.1.service (state.2++entry::rest) (trace++state.1.events)).queue =
      state.2.map (fun entry => (entry.entityId,entry.attempts)) ++
        (entry.entityId,entry.attempts) ::
          rest.map (fun entry => (entry.entityId,entry.attempts)) := by simp [desk]
  unfold retryOne
  by_cases ho : c.maxRetries≤entry.attempts
  · rw [if_pos ho]
    convert Move.drop hqueue ho using 1
    simp [desk]
  · rw [if_neg ho]
    obtain ⟨hs,-,⟨hok,hb,he⟩|⟨hok,hb,he⟩⟩ :=
      tryBridge_cases c ans entry.entityId entry.record state.1.countRetry
    · convert Move.retryReturns hqueue using 1
      simp [desk,hs,hok,hb,he]
    · convert Move.retryFails hqueue ho using 1
      simp [desk,hs,hok,hb,he]

theorem retries_moves (pending : List Retry) (state : Pass × List Retry) :
    let done := pending.foldl (retryOne c ans) state
    Relation.ReflTransGen (Move c.maxRetries)
      (desk log state.1.service (state.2++pending) (trace++state.1.events))
      (desk log done.1.service done.2 (trace++done.1.events)) := by
  induction pending generalizing state with
  | nil =>
    rw [append_nil]
    exact .refl
  | cons entry rest ih =>
    exact .head (retryOne_move ans log trace state entry rest)
      (ih (retryOne c ans state entry))

theorem processRetries_moves (pass : Pass) : let done := processRetries c ans pass
    Relation.ReflTransGen (Move c.maxRetries) (pass.desk log trace) (done.desk log trace) :=
  retries_moves ans log trace pass.service.retryQueue (pass,[])

variable {log trace}

variable {pass : Pass}

theorem processRecord_move {record : CommitmentRecord} {rest : List CommitmentRecord}
    (hb : Balanced c.maxRetries (pass.desk log trace))
    (hlog : log.drop pass.service.lastSeenIndex=record::rest) :
    let next := processRecord c ans pass record
    Move c.maxRetries (pass.desk log trace) (next.desk log trace) ∧
      log.drop next.service.lastSeenIndex=rest := by
  have hi : (pass.desk log trace).log.drop (pass.desk log trace).seen =
      record.entityId::rest.map CommitmentRecord.entityId := by
    simp [Pass.desk,desk,← map_drop,hlog]
  have hn : record.entityId ∉ pass.advance.service.bridgedEntities := fun hm =>
    (hb.of_unpolled hi).2.1 ((hb.bridged _).mp hm)
  have hr : log.drop (pass.service.lastSeenIndex+1)=rest := by rw [← tail_drop,hlog,tail_cons]
  unfold processRecord
  rw [if_neg hn]
  obtain ⟨hs,hqueue,⟨hok,hbr,he⟩|⟨hok,hbr,he⟩⟩ :=
    tryBridge_cases c ans record.entityId record pass.advance
  · rw [if_pos hok]
    refine ⟨?_,by rw [hs,← hr]; rfl⟩
    convert Move.pollReturns hi using 1
    simp [Pass.desk,desk,hs,hqueue,hbr,he]
  · rw [if_neg (by simp [hok])]
    refine ⟨?_,by rw [hs,← hr]; rfl⟩
    convert Move.pollFails hi using 1
    simp [Pass.desk,desk,hs,hqueue,hbr,he]

theorem records_moves {rs : List CommitmentRecord}
    (hb : Balanced c.maxRetries (pass.desk log trace))
    (hlog : log.drop pass.service.lastSeenIndex=rs) :
    let done := rs.foldl (processRecord c ans) pass
    Relation.ReflTransGen (Move c.maxRetries) (pass.desk log trace) (done.desk log trace) := by
  induction rs generalizing pass with
  | nil => exact .refl
  | cons record rest ih =>
    obtain ⟨hm,hr⟩ := processRecord_move ans hb hlog
    exact .head hm (ih (hm.balanced hb) hr)

theorem processRecords_moves (hb : Balanced c.maxRetries (pass.desk log trace)) :
    let done := processRecords c ans log pass
    Relation.ReflTransGen (Move c.maxRetries) (pass.desk log trace) (done.desk log trace) := by
  let polled : Pass := {pass with result :=
    {pass.result with recordsPolled := (recordsSince log pass.service.lastSeenIndex).length}}
  have hp : Balanced c.maxRetries (polled.desk log trace) := hb
  exact records_moves ans hp rfl

theorem tick_moves {s : Service} (hb : Balanced c.maxRetries (desk log s s.retryQueue trace)) :
    let pass := tick c ans log s
    Relation.ReflTransGen (Move c.maxRetries) (desk log s s.retryQueue trace)
      (pass.desk log trace) := by
  have hbe : desk log s s.retryQueue trace=s.begin.desk log trace := by
    simp [Service.begin,Pass.desk,desk]
  rw [hbe] at hb ⊢
  have hr := processRetries_moves (c := c) ans log trace s.begin
  have hre := processRecords_moves ans (balanced_of_moves hr hb)
  unfold tick
  split_ifs
  · exact hr
  · exact hr.trans hre

end

section
variable {c} (operations : List Operation)

theorem append_move (log : RecordLog) (record : CommitmentRecord) (s : Service)
    (trace : List Event) : Relation.ReflTransGen (Move c.maxRetries)
      (desk log.records s s.retryQueue trace)
      (desk (log.append record).records s s.retryQueue trace) := by
  unfold RecordLog.append
  split_ifs with hm
  · exact .refl
  · refine .single ?_
    convert Move.append (d := desk log.records s s.retryQueue trace) hm using 1
    simp [desk]

theorem balanced_run (c : Config) : let w := (machine c).state operations
    Balanced c.maxRetries (desk w.log.records w.service w.service.retryQueue
      ((machine c).outputs operations)) := by
  refine Machine.invariant (P := fun (w : World) trace => Balanced c.maxRetries
    (desk w.log.records w.service w.service.retryQueue trace)) ?_ ?_ operations
  · constructor <;> simp [machine,desk]
  · intro w trace operation hb
    cases operation with
    | append record =>
      rw [show ((machine c).step w (.append record)).2=[] from rfl,append_nil]
      exact balanced_of_moves (append_move w.log record w.service trace) hb
    | tick answers => exact balanced_of_moves (tick_moves answers hb) hb

inductive Place
  | notPolled
  | waiting
  | bridged
  | dropped

/-- Where the record at a position of the log is. -/
def World.At (w : World) (maxRetries : ℤ) (trace : List Event) (index : ℕ) (entityId : String) :
    Place → Prop
  | .notPolled => w.service.lastSeenIndex ≤ index
  | .waiting => (w.service.retryQueue.map Retry.entityId).count entityId=1
  | .bridged => entityId ∈ w.service.bridgedEntities
  | .dropped => .dropped entityId ∈ trace ∧
    (trace.count (.failed entityId) : ℤ)=max 1 maxRetries

def Desk.amount (d : Desk) (id : String) : Place → ℕ
  | .notPolled => (d.log.drop d.seen).count id
  | .waiting => (d.queue.map Prod.fst).count id
  | .bridged => d.trace.count (.returned id)
  | .dropped => d.trace.count (.dropped id)

theorem existsUnique_place {amount : Place → ℕ}
    (h : amount .notPolled+amount .waiting+amount .bridged+amount .dropped=1) :
    ∃! place, amount place=1 := by
  have hu : ∀ place place', amount place=1 → amount place'=1 → place'=place := by
    intro place place' hp hp'
    cases place <;> cases place' <;> first | rfl | omega
  have hs : ∃ place, amount place=1 := by
    by_contra hn
    rw [not_exists] at hn
    have hpo := hn .notPolled
    have hw := hn .waiting
    have hb := hn .bridged
    have hd := hn .dropped
    omega
  obtain ⟨place,hp⟩ := hs
  exact ⟨place,hp,fun other => hu place other hp⟩

theorem mem_drop_iff {ids : List String} (hn : ids.Nodup) {index n : ℕ} {id : String}
    (hi : ids[index]?=some id) : id ∈ ids.drop n ↔ n ≤ index := by
  obtain ⟨hlt,rfl⟩ := List.getElem?_eq_some_iff.mp hi
  constructor
  · intro hm
    by_contra hb
    have ht : ids[index] ∈ ids.take n :=
      mem_take_iff_getElem.mpr ⟨index,by omega,rfl⟩
    exact disjoint_take_drop hn (le_refl n) ht hm
  · intro hle
    exact mem_drop_iff_getElem.mpr ⟨index-n,by omega,by congr 1; omega⟩

theorem Balanced.amounts {maxRetries : ℤ} {d : Desk} (h : Balanced maxRetries d) {id : String}
    (hm : id ∈ d.log) : d.amount id .notPolled+d.amount id .waiting+d.amount id .bridged +
      d.amount id .dropped=1 := by
  have hc := count_eq_one_of_mem h.nodup hm
  rw [h.tally id] at hc
  exact hc

section
variable {cap : ℤ} {w : World} {trace : List Event} {index : ℕ} {record : CommitmentRecord}

def World.desk (w : World) (trace : List Event) : Desk :=
  BridgeOperator.desk w.log.records w.service w.service.retryQueue trace

theorem amount_waiting (w : World) (trace : List Event) (id : String) :
    (w.desk trace).amount id .waiting=(w.service.retryQueue.map Retry.entityId).count id := by
  simp [Desk.amount,World.desk,desk,Function.comp_def]

theorem at_iff_amount (h : Balanced cap (w.desk trace))
    (hr : w.log.records[index]?=some record) (place : Place) :
    w.At cap trace index record.entityId place ↔ (w.desk trace).amount record.entityId place=1 := by
  have hi : (w.desk trace).log[index]?=some record.entityId := by
    rw [World.desk,desk,getElem?_map,hr]
    rfl
  have ho := h.amounts (mem_of_getElem? hi)
  have hp : ∀ place, (w.desk trace).amount record.entityId place=1 ↔
      0<(w.desk trace).amount record.entityId place := by
    intro place
    cases place <;> omega
  cases place with
  | notPolled =>
    rw [hp]
    exact (mem_drop_iff h.nodup hi).symm.trans count_pos_iff.symm
  | waiting =>
    rw [amount_waiting]
    rfl
  | bridged =>
    rw [hp]
    exact (h.bridged _).trans count_pos_iff.symm
  | dropped =>
    rw [hp]
    refine ⟨fun hat => count_pos_iff.mpr hat.1,fun hc => ?_⟩
    have hm := count_pos_iff.mp hc
    exact ⟨hm,h.dropped _ hm⟩

end

/-- Between two operations a record is in one place, and no transfer returns for it twice. -/
theorem records_in_one_place (c : Config) (operations : List Operation) :
    let w := (machine c).state operations
    let trace := (machine c).outputs operations
    ∀ (index : ℕ) (record : CommitmentRecord), w.log.records[index]?=some record →
      (∃! place, w.At c.maxRetries trace index record.entityId place) ∧
      (w.service.retryQueue.map Retry.entityId).count record.entityId≤1 ∧
      trace.count (.returned record.entityId)≤1 := by
  intro w trace index record hr
  have h : Balanced c.maxRetries (w.desk trace) := balanced_run operations c
  have hm : record.entityId ∈ (w.desk trace).log :=
    mem_map_of_mem (mem_of_getElem? hr)
  have ho := h.amounts hm
  refine ⟨?_,?_,?_⟩
  · simp only [at_iff_amount h hr]
    exact existsUnique_place ho
  · rw [← amount_waiting w trace]
    omega
  · have hle : (w.desk trace).amount record.entityId .bridged≤1 := by omega
    exact hle

def operatorConfig : Config := ⟨"suwappu_testnet","base_sepolia","","",1,true⟩

def answering (outcome : Outcome) : Operation :=
  .tick ⟨fun _ => .null,fun _ => outcome,false,none⟩

def droppedRun : List Operation :=
  [.append (sampleRecord "a"),answering .raised,answering .result]

theorem droppedRun_record_in_one_place :
    let w := (machine operatorConfig).state droppedRun
    let trace := (machine operatorConfig).outputs droppedRun
    w.log.records[0]?=some (sampleRecord "a") ∧ (∃! place, w.At 1 trace 0 "a" place) ∧
      trace=[.failed "a",.dropped "a"] :=
  ⟨rfl,(records_in_one_place operatorConfig droppedRun 0 (sampleRecord "a") rfl).1,
    by decide +kernel⟩

end

end LatticeTransfer.BridgeOperator
