import LatticeTransfer.WriterRegistry
import Mathlib.Data.Prod.Lex

/-!
# Committees of writers

`CommitteeManager` with the formation of rosters, the standby selection, the eviction handler
and the epochs. A roster is built from the writers that may transact, and after that it only
hears of state changes: an active member that leaves the transactable states is evicted, while
the change of a standby member is ignored.

`WriterRegistry` and one manager make the system. `on_writer_state_change` is documented as a
hook that the registry calls, but nothing connects the two: a call of it is an input of its own.
-/

namespace LatticeTransfer.CommitteeRoster
open WriterRegistry List

inductive EpochStrategy
  | roundCount
  | timeBased
  | manual
deriving DecidableEq

inductive FloorMode
  | hard
  | soft
deriving DecidableEq

inductive StandbyStrategy
  | priorityQueue
  | fifo
  | adminDesignated
deriving DecidableEq

inductive EvictionMode
  | immediate
  | immediateBackfill
  | epochBoundary
deriving DecidableEq

structure CommitteePolicy where
  vmTag : ℕ
  epochStrategy : EpochStrategy
  epochLength : ℤ
  epochDurationMs : ℤ
  maxCommitteeSize : ℤ
  minCommitteeSize : ℤ
  floorMode : FloorMode
  standbyStrategy : StandbyStrategy
  maxStandbySize : ℤ
  adminStandbyList : List Bytes
  requiredTiers : Option (Finset IdentityTier)
  minEpochsActive : ℤ
  requireBlsKey : Bool
  securityEviction : EvictionMode
  operationalEviction : EvictionMode
  forceInclude : Finset Bytes
  forceExclude : Finset Bytes

def CommitteePolicy.standard (vmTag : ℕ) : CommitteePolicy where
  vmTag := vmTag
  epochStrategy := .roundCount
  epochLength := 1000
  epochDurationMs := 0
  maxCommitteeSize := 0
  minCommitteeSize := 1
  floorMode := .soft
  standbyStrategy := .priorityQueue
  maxStandbySize := 0
  adminStandbyList := []
  requiredTiers := none
  minEpochsActive := 0
  requireBlsKey := true
  securityEviction := .immediate
  operationalEviction := .immediateBackfill
  forceInclude := ∅
  forceExclude := ∅

inductive CommitteeRole
  | active
  | standby
deriving DecidableEq

structure CommitteeMember where
  writerFp : Bytes
  blsPk : Bytes
  tier : IdentityTier
  joinedEpoch : ℤ
  role : CommitteeRole
deriving DecidableEq

def CommitteeMember.withRole (role : CommitteeRole) (member : CommitteeMember) : CommitteeMember :=
  {member with role := role}

structure Roster where
  vmTag : ℕ
  epoch : ℤ
  activeMembers : List CommitteeMember
  standbyMembers : List CommitteeMember
  formedAt : ℤ
  formationRound : ℤ

def tierWeight : IdentityTier → ℤ
  | .mldsa => 1
  | .bls => 2
  | .composite => 3

def scoreMember (member : CommitteeMember) : ℤ ×ₗ ℤ :=
  toLex (tierWeight member.tier,-member.joinedEpoch)

def rank (members : List CommitteeMember) : List CommitteeMember :=
  members.insertionSort fun a b => scoreMember b ≤ scoreMember a

def toMember (epoch : ℤ) (record : WriterRecord) : CommitteeMember :=
  ⟨record.identity.fingerprint,record.identity.blsPk.getD [],record.identity.tier,epoch,.active⟩

section
variable (policy : CommitteePolicy)

def passesFilters (record : WriterRecord) : Bool :=
  let tier := record.identity.tier
  if policy.requireBlsKey ∧ tier ∉ [IdentityTier.bls,.composite] then false
  else if policy.requiredTiers.any (tier ∉ ·) then false
  else if 0<policy.minEpochsActive ∧
      (record.transitionLog.countP (·.toState=.active) : ℤ)<policy.minEpochsActive then false
  else true

def isForced (record : WriterRecord) : Bool :=
  record.canTransact ∧ record.identity.fingerprint ∈ policy.forceInclude

def isEligible (record : WriterRecord) : Bool :=
  record.canTransact ∧ record.identity.fingerprint ∉ policy.forceInclude ∧
    record.identity.fingerprint ∉ policy.forceExclude ∧ passesFilters policy record

def eligibleWriters (reg : Registry) : List WriterRecord :=
  reg.activeWriters.filter (isEligible policy)++reg.activeWriters.filter (isForced policy)

def buildRoster (reg : Registry) (epoch roundNum timestamp : ℤ) : Roster :=
  let members := rank ((eligibleWriters policy reg).map (toMember epoch))
  let cap := policy.maxCommitteeSize
  let active := if 0<cap then members.take cap.toNat else members
  let pool := if 0<cap then members.drop cap.toNat else []
  let standby := if 0<policy.maxStandbySize then pool.take policy.maxStandbySize.toNat else pool
  ⟨policy.vmTag,epoch,active.map (·.withRole .active),standby.map (·.withRole .standby),
    timestamp,roundNum⟩

end

inductive EvictionReason
  | revoked
  | suspended
  | expired
deriving DecidableEq

def stateToReason : WriterState → Option EvictionReason
  | .revoked => some .revoked
  | .suspended => some .suspended
  | .expired => some .expired
  | _ => none

structure EvictionEvent where
  writerFp : Bytes
  vmTag : ℕ
  epoch : ℤ
  reason : EvictionReason
  backfillFp : Option Bytes
  timestamp : ℤ

inductive CommitteeEvent
  | memberEvicted
  | memberBackfilled
  | committeeHalted
  | belowFloor
  | floorRestored
deriving DecidableEq

structure EvictionHandler where
  events : List EvictionEvent
  halted : Bool
  pendingEvictions : List (Bytes × EvictionReason)
  emittedEvents : List CommitteeEvent

def EvictionHandler.init : EvictionHandler := ⟨[],false,[],[]⟩

def EvictionHandler.emit (handler : EvictionHandler) (events : List CommitteeEvent) :
    EvictionHandler :=
  {handler with emittedEvents := handler.emittedEvents++events}

section
variable (policy : CommitteePolicy)

def next (roster : Roster) : Option CommitteeMember :=
  match policy.standbyStrategy with
  | .priorityQueue => (rank roster.standbyMembers).head?
  | .fifo => roster.standbyMembers.head?
  | .adminDesignated => policy.adminStandbyList.findSome? fun fp =>
      -- the dictionary of the source keeps the last member of a fingerprint
      roster.standbyMembers.reverse.find? (·.writerFp=fp)

def evictionMode (newState : WriterState) : EvictionMode :=
  if newState=.revoked then policy.securityEviction else policy.operationalEviction

def checkFloor (handler : EvictionHandler) (roster : Roster) : EvictionHandler :=
  if policy.minCommitteeSize≤roster.activeMembers.length then
    if handler.halted then {handler.emit [.floorRestored] with halted := false} else handler
  else
    match policy.floorMode with
    | .hard => {handler.emit [.committeeHalted] with halted := true}
    | .soft => handler.emit [.belowFloor]

def replace (roster : Roster) (writerFp : Bytes) (replacement : Option CommitteeMember) : Roster :=
  {roster with
    activeMembers := roster.activeMembers.eraseP (·.writerFp=writerFp) ++
      (replacement.map (·.withRole .active)).toList
    standbyMembers := replacement.elim roster.standbyMembers roster.standbyMembers.erase}

def replacementFor (roster : Roster) (newState : WriterState) : Option CommitteeMember :=
  if evictionMode policy newState=.immediateBackfill then next policy roster else none

def handleStateChange (handler : EvictionHandler) (roster : Roster) (writerFp : Bytes)
    (newState : WriterState) (timestamp : ℤ) : Option EvictionEvent × EvictionHandler × Roster :=
  match stateToReason newState with
  | none => (none,handler,roster)
  | some reason =>
    if roster.activeMembers.all (·.writerFp≠writerFp) then (none,handler,roster)
    else if evictionMode policy newState=.epochBoundary then
      (none,{handler with pendingEvictions := handler.pendingEvictions++[(writerFp,reason)]},
        roster)
    else
      let replacement := replacementFor policy roster newState
      let replaced := replace roster writerFp replacement
      let backfilled := if replacement.isSome then [.memberBackfilled] else []
      let event : EvictionEvent :=
        ⟨writerFp,roster.vmTag,roster.epoch,reason,replacement.map (·.writerFp),timestamp⟩
      let checked := checkFloor policy (handler.emit (backfilled++[.memberEvicted])) replaced
      (some event,{checked with events := checked.events++[event]},replaced)

end

structure Manager where
  currentEpoch : ℤ
  epochStartRound : ℤ
  epochStartTs : ℤ
  roster : Option Roster
  eviction : EvictionHandler

namespace Manager

def init : Manager := ⟨0,0,0,none,.init⟩

variable (policy : CommitteePolicy) (reg : Registry) (manager : Manager)

def advance (currentRound timestamp : ℤ) : Manager where
  currentEpoch := manager.currentEpoch+1
  epochStartRound := currentRound
  epochStartTs := timestamp
  roster := some (buildRoster policy reg (manager.currentEpoch+1) currentRound timestamp)
  eviction := manager.eviction

def checkAdvance (currentRound timestampMs : ℤ) : Bool × Manager :=
  match policy.epochStrategy with
  | .manual => (false,manager)
  | .roundCount =>
    if currentRound-manager.epochStartRound<policy.epochLength then (false,manager)
    else (true,manager.advance policy reg currentRound timestampMs)
  | .timeBased =>
    if manager.epochStartTs=0 ∧ manager.currentEpoch=0 then
      (false,manager.advance policy reg currentRound timestampMs)
    else if timestampMs-manager.epochStartTs<policy.epochDurationMs then (false,manager)
    else (true,manager.advance policy reg currentRound timestampMs)

def adminAdvance (timestamp : ℤ) : Manager := manager.advance policy reg 0 timestamp
def emergencyAdvance (timestamp : ℤ) : Manager := manager.advance policy reg 0 timestamp

def onWriterStateChange (writerFp : Bytes) (newState : WriterState) : Manager :=
  match manager.roster with
  | none => manager
  | some roster =>
    let (_,handler,changed) :=
      handleStateChange policy manager.eviction roster writerFp newState 0
    {manager with eviction := handler,roster := some changed}

end Manager

structure System where
  registry : Registry
  manager : Manager

inductive Input
  | registry (input : WriterRegistry.Input)
  | stateChange (writerFp : Bytes) (newState : WriterState)
  | tick (currentRound timestampMs : ℤ)
  | adminAdvance (timestamp : ℤ)
  | emergencyAdvance (timestamp : ℤ)

section
variable (policy : CommitteePolicy)

def System.step (s : System) : Input → System
  | .registry input => {s with registry := (WriterRegistry.step s.registry input).1}
  | .stateChange writerFp newState =>
    {s with manager := s.manager.onWriterStateChange policy writerFp newState}
  | .tick currentRound timestampMs =>
    {s with manager := (s.manager.checkAdvance policy s.registry currentRound timestampMs).2}
  | .adminAdvance timestamp =>
    {s with manager := s.manager.adminAdvance policy s.registry timestamp}
  | .emergencyAdvance timestamp =>
    {s with manager := s.manager.emergencyAdvance policy s.registry timestamp}

def machine (config : RegistryConfig) : Machine System Input Empty :=
  ⟨⟨Registry.init config,.init⟩,fun s input => (s.step policy input,[])⟩

end

def Advances (policy : CommitteePolicy) (manager : Manager) : Input → Prop
  | .registry _ | .stateChange _ _ => False
  | .tick currentRound timestampMs =>
    match policy.epochStrategy with
    | .manual => False
    | .roundCount => policy.epochLength≤currentRound-manager.epochStartRound
    | .timeBased => manager.epochStartTs=0 ∧ manager.currentEpoch=0 ∨
        policy.epochDurationMs≤timestampMs-manager.epochStartTs
  | .adminAdvance _ | .emergencyAdvance _ => True

def Evicts (policy : CommitteePolicy) (roster : Roster) (writerFp : Bytes)
    (newState : WriterState) : Prop :=
  stateToReason newState≠none ∧ (∃ m ∈ roster.activeMembers, m.writerFp=writerFp) ∧
    evictionMode policy newState≠.epochBoundary

section
variable {policy : CommitteePolicy} {roster : Roster} {member : CommitteeMember}

theorem mem_rank {ms : List CommitteeMember} : member ∈ rank ms ↔ member ∈ ms :=
  mem_insertionSort _

theorem mem_standby_of_next (h : next policy roster=some member) :
    member ∈ roster.standbyMembers := by
  rw [next] at h
  split at h
  · exact mem_rank.mp (mem_of_mem_head? h)
  · exact mem_of_mem_head? h
  · obtain ⟨fp,-,hf⟩ := exists_of_findSome?_eq_some h
    exact mem_reverse.mp (mem_of_find?_eq_some hf)

theorem mem_standby_of_replacementFor {newState : WriterState}
    (h : replacementFor policy roster newState=some member) : member ∈ roster.standbyMembers := by
  rw [replacementFor] at h
  split_ifs at h
  exact mem_standby_of_next h

theorem events_checkFloor (policy : CommitteePolicy) (handler : EvictionHandler)
    (roster : Roster) : (checkFloor policy handler roster).events=handler.events := by
  rw [checkFloor]
  split_ifs
  · rfl
  · rfl
  · split <;> rfl

theorem handleStateChange_cases (policy : CommitteePolicy) (handler : EvictionHandler)
    (roster : Roster) (writerFp : Bytes) (newState : WriterState) (timestamp : ℤ) :
    let after := (handleStateChange policy handler roster writerFp newState timestamp).2
    ¬Evicts policy roster writerFp newState ∧ after.1.events=handler.events ∧
        after.2=roster ∨
      Evicts policy roster writerFp newState ∧ ∃ event,
        after.1.events=handler.events++[event] ∧ event.writerFp=writerFp ∧
        after.2=replace roster writerFp (replacementFor policy roster newState) := by
  intro after
  simp only [after,handleStateChange]
  split
  · next hr => exact .inl ⟨fun he => he.1 hr,rfl,rfl⟩
  · next reason hr =>
    split_ifs with ho hm
    · refine .inl ⟨fun ⟨_,⟨m,hm,hfp⟩,_⟩ => ?_,rfl,rfl⟩
      exact of_decide_eq_true (all_eq_true.mp ho m hm) hfp
    · exact .inl ⟨fun he => he.2.2 hm,rfl,rfl⟩
    all_goals
      exact .inr ⟨⟨by simp [hr],by simpa using ho,hm⟩,_,
        congrArg (· ++ _) (events_checkFloor _ _ _),rfl,rfl⟩

variable (policy) in
theorem onWriterStateChange_roster (manager : Manager) (hr : manager.roster=some roster)
    (writerFp : Bytes) (newState : WriterState) :
    ∃ changed, (manager.onWriterStateChange policy writerFp newState).roster=some changed ∧
      (¬Evicts policy roster writerFp newState ∧ changed=roster ∨
        Evicts policy roster writerFp newState ∧
          changed=replace roster writerFp (replacementFor policy roster newState)) := by
  refine ⟨_,by rw [Manager.onWriterStateChange,hr],?_⟩
  rcases handleStateChange_cases policy manager.eviction roster writerFp newState 0 with
    ⟨hn,-,hs⟩ | ⟨he,_,-,-,hs⟩
  · exact .inl ⟨hn,hs⟩
  · exact .inr ⟨he,hs⟩

theorem checkAdvance_cases (policy : CommitteePolicy) (reg : Registry) (manager : Manager)
    (round ms : ℤ) : ¬Advances policy manager (.tick round ms) ∧
        (manager.checkAdvance policy reg round ms).2=manager ∨
      Advances policy manager (.tick round ms) ∧
        (manager.checkAdvance policy reg round ms).2=manager.advance policy reg round ms := by
  simp only [Advances,Manager.checkAdvance]
  cases policy.epochStrategy with
  | manual => exact .inl ⟨id,rfl⟩
  | roundCount =>
    dsimp only
    split_ifs with h
    · exact .inl ⟨not_le.mpr h,rfl⟩
    · exact .inr ⟨not_lt.mp h,rfl⟩
  | timeBased =>
    dsimp only
    split_ifs with hf h
    · exact .inr ⟨.inl hf,rfl⟩
    · exact .inl ⟨not_or.mpr ⟨hf,not_le.mpr h⟩,rfl⟩
    · exact .inr ⟨.inr (not_lt.mp h),rfl⟩

inductive Change (policy : CommitteePolicy) (s : System) : Input → System → Prop
  | registry (input : WriterRegistry.Input) :
      Change policy s (.registry input) ⟨(WriterRegistry.step s.registry input).1,s.manager⟩
  | hook (writerFp : Bytes) (newState : WriterState) :
      Change policy s (.stateChange writerFp newState)
        ⟨s.registry,s.manager.onWriterStateChange policy writerFp newState⟩
  | idle (round ms : ℤ) : ¬Advances policy s.manager (.tick round ms) →
      Change policy s (.tick round ms) s
  | epoch (input : Input) (round timestamp : ℤ) : Advances policy s.manager input →
      Change policy s input ⟨s.registry,s.manager.advance policy s.registry round timestamp⟩

theorem step_change (policy : CommitteePolicy) (s : System) (input : Input) :
    Change policy s input (s.step policy input) := by
  cases input with
  | registry input => exact .registry input
  | stateChange writerFp newState => exact .hook writerFp newState
  | tick round ms =>
    rw [System.step]
    rcases checkAdvance_cases policy s.registry s.manager round ms with ⟨hn,h⟩|⟨ha,h⟩
    · rw [h]
      exact .idle round ms hn
    · rw [h]
      exact .epoch _ round ms ha
  | adminAdvance timestamp => exact .epoch _ 0 timestamp trivial
  | emergencyAdvance timestamp => exact .epoch _ 0 timestamp trivial

end

def Roster.fingerprints (roster : Roster) : List Bytes :=
  (roster.activeMembers++roster.standbyMembers).map CommitteeMember.writerFp

section
variable {roster : Roster}

theorem fingerprints_replace (writerFp : Bytes) {replacement : Option CommitteeMember}
    (h : ∀ m ∈ replacement, m ∈ roster.standbyMembers) :
    (replace roster writerFp replacement).fingerprints.Perm
      ((roster.activeMembers.eraseP (·.writerFp=writerFp)++roster.standbyMembers).map
        CommitteeMember.writerFp) := by
  rw [Roster.fingerprints,replace]
  cases replacement with
  | none => simp
  | some m =>
    have hp := (perm_cons_erase (h m rfl)).map CommitteeMember.writerFp
    simp only [map_append,append_assoc]
    exact (hp.symm).append_left _

theorem ne_of_mem_eraseP {ms : List CommitteeMember} {writerFp : Bytes}
    {evicted m : CommitteeMember} (hn : (ms.map CommitteeMember.writerFp).Nodup)
    (he : evicted ∈ ms) (hfp : evicted.writerFp=writerFp)
    (h : m ∈ ms.eraseP (·.writerFp=writerFp)) : m.writerFp≠writerFp := by
  obtain ⟨found,before,after,hb,hf,hme,her⟩ :=
    exists_of_eraseP (p := fun m : CommitteeMember => decide (m.writerFp=writerFp))
      he (decide_eq_true hfp)
  rw [her] at h
  rcases mem_append.mp h with hm|hm
  · simpa using hb m hm
  · rw [hme,map_append] at hn
    have hc := (nodup_cons.mp (nodup_append.mp hn).2.1).1
    rw [← of_decide_eq_true hf]
    exact fun heq => hc (heq ▸ mem_map_of_mem hm)

end

def Transactable (reg : Registry) (writerFp : Bytes) : Prop :=
  ∃ record, reg.lookup writerFp=some record ∧ record.state ∈ transactableStates

def Unseats (reg : Registry) (writerFp : Bytes) : WriterRegistry.Input → Prop
  | .suspend fingerprint _ _ _ | .revoke fingerprint _ _ _ => fingerprint=writerFp
  | .checkExpirations currentEpoch => writerFp ∈ reg.toExpire currentEpoch
  | _ => False

section
variable {op : Operation} {reg reg' : Registry} {moves : List Move} {writerFp fp : Bytes}
  {record : WriterRecord}

theorem transactable_of_writes (hw : reg.Writes reg' fp record) : Transactable reg' writerFp ↔
      if fp=writerFp then record.state ∈ transactableStates else Transactable reg writerFp := by
  rw [Transactable,hw.lookup]
  split_ifs
  · simp
  · rfl

theorem transactable_of_takes {source target : WriterState} (h : op.Takes source target)
    (ho : op ∉ [.suspend,.revoke,.expire]) : target ∈ transactableStates := by
  cases op <;> simp_all [Operation.Takes,transactableStates]

theorem transactable_of_step (hst : Step op reg reg' moves)
    (ho : op ∉ [.suspend,.revoke,.expire]) (h : Transactable reg writerFp) :
    Transactable reg' writerFp := by
  cases hst with
  | stay => exact h
  | enroll hn hr hp hlo hw =>
    rw [transactable_of_writes hw]
    split_ifs with hfp
    · obtain ⟨found,hl,-⟩ := h
      rw [← hfp,hn] at hl
      cases hl
    · exact h
  | edit hl hs hlo hw =>
    rw [transactable_of_writes hw]
    split_ifs with hfp
    · subst hfp
      obtain ⟨found,hf,ht⟩ := h
      cases hl.symm.trans hf
      exact hs ▸ ht
    · exact h
  | move hm ht =>
    rw [transactable_of_writes hm.writes]
    split_ifs
    · exact transactable_of_takes ht ho
    · exact h
  | revoke hm hop hs => simp [hop] at ho

theorem transactable_of_steps (hs : Steps op reg reg' moves)
    (ho : op ∉ [.suspend,.revoke,.expire]) (h : Transactable reg writerFp) :
    Transactable reg' writerFp := by
  induction hs with
  | nil => exact h
  | cons hst hr ih => exact ih (transactable_of_step hst ho h)

theorem transition_of_transactable {target : WriterState}
    (ht : target=.suspended ∨ target=.revoked) (h : Transactable reg fp)
    (actor : Bytes) (reason : String) (now : ℤ) :
    ∃ moved, reg.transition fp target actor reason now=.ok moved := by
  obtain ⟨record,hl,hs⟩ := h
  refine Registry.transition_of_valid hl ?_
  rcases ht with rfl|rfl <;> cases hr : record.state <;> simp_all [transactableStates] <;> decide

theorem transactable_step_iff (h : Transactable reg writerFp) (input : WriterRegistry.Input) :
    Transactable (WriterRegistry.step reg input).1 writerFp ↔ ¬Unseats reg writerFp input := by
  cases input with
  | suspend fp reason actor now =>
    simp only [WriterRegistry.step,Input.call,Unseats]
    cases hc : reg.suspend fp reason actor now with
    | error e =>
      refine iff_of_true h fun hfp => ?_
      obtain ⟨moved,hm⟩ := transition_of_transactable (.inl rfl) (hfp ▸ h) actor reason now
      rw [Registry.suspend,hm] at hc
      cases hc
    | ok reg' =>
      obtain ⟨record,record',hm,hs⟩ := Registry.suspend_ok hc
      rw [transactable_of_writes hm.writes,hs]
      simp [transactableStates,h]
  | revoke fp reason actor now =>
    simp only [WriterRegistry.step,Input.call,Unseats]
    cases hc : reg.revoke fp reason actor now with
    | error e =>
      refine iff_of_true h fun hfp => ?_
      obtain ⟨moved,hm⟩ := transition_of_transactable (.inr rfl) (hfp ▸ h) actor reason now
      rw [Registry.revoke,hm] at hc
      cases hc
    | ok reg' =>
      obtain ⟨mid,record,record',hm,hs,rfl⟩ := Registry.revoke_ok hc
      change Transactable mid writerFp ↔ _
      rw [transactable_of_writes hm.writes,hs]
      simp [transactableStates,h]
  | checkExpirations epoch =>
    obtain ⟨reg',hc,-,hl⟩ := checkExpirations_steps reg epoch
    have hl := hl writerFp
    simp only [WriterRegistry.step,Input.call,hc,Unseats,Except.map]
    rw [Transactable]
    split_ifs at hl with hd
    · obtain ⟨found,hf,he⟩ := Option.map_eq_some_iff.mp hl
      simp [hf,he,hd,transactableStates]
    · rw [hl]
      exact iff_of_true h hd
  | _ =>
    refine iff_of_true (transactable_of_steps (step_steps reg _) ?_ h) id
    simp [Input.operation]

end

section
variable {policy : CommitteePolicy} {reg : Registry}

theorem transactable_of_mem_activeWriters {record : WriterRecord} (h : record ∈ reg.activeWriters) :
    Transactable reg record.identity.fingerprint := by
  obtain ⟨hm,hs⟩ := mem_filter.mp h
  obtain ⟨fp,hl⟩ := (reg.records.mem_values_iff record).mp hm
  refine ⟨record,?_,of_decide_eq_true hs⟩
  rw [reg.keyed fp record hl]
  exact hl

theorem nodup_activeWriters (reg : Registry) :
    (reg.activeWriters.map fun record => record.identity.fingerprint).Nodup := by
  have hk : (reg.records.values.map fun record => record.identity.fingerprint) =
      reg.records.keys := by
    rw [Dict.values,map_map]
    refine map_congr_left fun entry he => ?_
    exact reg.keyed _ _ ((Dict.get?_eq_some_iff _ _ _).mpr he)
  have hn : reg.records.keys.Nodup := reg.records.nodup
  rw [← hk] at hn
  exact hn.sublist (filter_sublist.map _)

variable (policy reg) (epoch roundNum timestamp : ℤ)

theorem nodup_eligibleWriters :
    ((eligibleWriters policy reg).map fun record => record.identity.fingerprint).Nodup := by
  have hf (p : WriterRecord → Bool) :
      ((reg.activeWriters.filter p).map fun record => record.identity.fingerprint).Nodup :=
    (nodup_activeWriters reg).sublist (filter_sublist.map _)
  rw [eligibleWriters,map_append]
  refine nodup_append.mpr ⟨hf _,hf _,?_⟩
  intro fp hfp other ho heq
  obtain ⟨record,hr,rfl⟩ := mem_map.mp hfp
  obtain ⟨forced,hfo,rfl⟩ := mem_map.mp ho
  -- a writer the policy forces in is never taken as an ordinary candidate
  have he := of_decide_eq_true (mem_filter.mp hr).2
  have hfo := of_decide_eq_true (mem_filter.mp hfo).2
  exact he.2.1 (heq ▸ hfo.2)

theorem seats_sublist (members : List CommitteeMember) (cap standbySize : ℤ) :
    let pool := if 0<cap then members.drop cap.toNat else []
    ((if 0<cap then members.take cap.toNat else members) ++
      if 0<standbySize then pool.take standbySize.toNat else pool).Sublist members := by
  intro pool
  have hp : (if 0<standbySize then pool.take standbySize.toNat else pool).Sublist pool := by
    split_ifs
    · exact take_sublist _ _
    · exact .refl _
  refine (hp.append_left _).trans ?_
  dsimp only [pool]
  split_ifs
  · rw [take_append_drop]
  · rw [append_nil]

theorem fingerprints_buildRoster :
    (buildRoster policy reg epoch roundNum timestamp).fingerprints.Subperm
      ((eligibleWriters policy reg).map fun record => record.identity.fingerprint) := by
  have hs := seats_sublist (rank ((eligibleWriters policy reg).map (toMember epoch)))
    policy.maxCommitteeSize policy.maxStandbySize
  have hsu := hs.map CommitteeMember.writerFp
  have hr := (perm_insertionSort (fun a b => scoreMember b ≤ scoreMember a)
    ((eligibleWriters policy reg).map (toMember epoch))).map CommitteeMember.writerFp
  rw [map_map] at hr
  rw [buildRoster,Roster.fingerprints,map_append,map_map,map_map]
  rw [map_append] at hsu
  exact hsu.subperm.trans hr.subperm

theorem transactable_buildRoster :
    ∀ m ∈ (buildRoster policy reg epoch roundNum timestamp).activeMembers,
      Transactable reg m.writerFp := by
  intro m hm
  have hs : m.writerFp ∈ (buildRoster policy reg epoch roundNum timestamp).fingerprints :=
    mem_map_of_mem (mem_append_left _ hm)
  obtain ⟨record,hr,hfp⟩ :=
    mem_map.mp ((fingerprints_buildRoster _ _ _ _ _).subset hs)
  rw [← hfp]
  rcases mem_append.mp hr with h|h
  · exact transactable_of_mem_activeWriters (mem_filter.mp h).1
  · exact transactable_of_mem_activeWriters (mem_filter.mp h).1

theorem distinct_buildRoster :
    (buildRoster policy reg epoch roundNum timestamp).fingerprints.Nodup := by
  obtain ⟨ms,hp,hs⟩ :=
    fingerprints_buildRoster policy reg epoch roundNum timestamp
  exact hp.nodup_iff.mp ((nodup_eligibleWriters policy reg).sublist hs)

end

/-- Every active committee member is in a transactable writer state. -/
def Seated (s : System) : Prop :=
  ∀ roster ∈ s.manager.roster, ∀ m ∈ roster.activeMembers, Transactable s.registry m.writerFp

/-- No active member is suspended, revoked or expired, and a standby member that the hook
promotes may transact. -/
def KeepsSeats (policy : CommitteePolicy) (s : System) : Input → Prop
  | .registry input => ∀ roster ∈ s.manager.roster, ∀ m ∈ roster.activeMembers,
      ¬Unseats s.registry m.writerFp input
  | .stateChange writerFp newState => ∀ roster ∈ s.manager.roster,
      Evicts policy roster writerFp newState →
        ∀ standby ∈ replacementFor policy roster newState, Transactable s.registry standby.writerFp
  | _ => True

section
variable {policy : CommitteePolicy} {s : System}

theorem Seated.step (h : Seated s) {input : Input} (hk : KeepsSeats policy s input) :
    Seated (s.step policy input) := by
  have hst := step_change policy s input
  generalize s.step policy input=s' at hst
  cases hst with
  | registry input =>
    exact fun roster hr m hm => (transactable_step_iff (h roster hr m hm) input).mpr
      (hk roster hr m hm)
  | hook writerFp newState =>
    intro changed hc m hm
    cases hr : s.manager.roster with
    | none => simp [Manager.onWriterStateChange,hr] at hc
    | some roster =>
      obtain ⟨after,ha,hcases⟩ := onWriterStateChange_roster policy s.manager hr writerFp newState
      obtain rfl : after=changed := Option.some.inj (ha.symm.trans hc)
      rcases hcases with ⟨-,rfl⟩|⟨he,rfl⟩
      · exact h _ hr m hm
      · rcases mem_append.mp hm with hm|hm
        · exact h roster hr m (mem_of_mem_eraseP hm)
        · obtain ⟨standby,hs,rfl⟩ := Option.map_eq_some_iff.mp (Option.mem_toList.mp hm)
          exact hk roster hr he standby hs
  | idle => exact h
  | epoch _ round timestamp =>
    intro roster hr
    cases hr
    exact transactable_buildRoster _ _ _ _ _

theorem keepsSeats_of_seated (h : Seated s) {input : Input}
    (hs : Seated (s.step policy input)) : KeepsSeats policy s input := by
  cases input with
  | registry input =>
    exact fun roster hr m hm => (transactable_step_iff (h roster hr m hm) input).mp
      (hs roster hr m hm)
  | stateChange writerFp newState =>
    intro roster hr he standby hst
    obtain ⟨after,ha,⟨hn,-⟩|⟨-,rfl⟩⟩ :=
      onWriterStateChange_roster policy s.manager hr writerFp newState
    · exact absurd he hn
    · refine hs _ ha (standby.withRole .active) (mem_append_right _ ?_)
      rw [Option.mem_def.mp hst]
      exact mem_singleton_self _
  | _ => trivial

/-- Every active member may transact in every state of a run exactly if no operation of the
registry takes an active member out of the transactable states and the hook promotes no standby
member outside them. -/
theorem seated_iff_keepsSeats (config : RegistryConfig) (policy : CommitteePolicy)
    (inputs : List Input) :
    (∀ before, before <+: inputs → Seated ((machine policy config).state before)) ↔
      (machine policy config).Meets (KeepsSeats policy) inputs := by
  refine Machine.forall_prefix_iff_meets (J := fun _ _ => True) (P := fun s _ => Seated s)
    (fun _ => trivial) (fun roster hr => ?_) (fun _ _ _ _ h hk => h.step hk) (fun _ _ h => h)
    (fun _ _ _ _ h hs => keepsSeats_of_seated h hs) inputs
  cases hr

instance (reg : Registry) (writerFp : Bytes) : Decidable (Transactable reg writerFp) :=
  inferInstanceAs (Decidable (∃ record ∈ reg.lookup writerFp, record.state ∈ transactableStates))

instance (s : System) : Decidable (Seated s) := by
  unfold Seated
  infer_instance

def CommitteePolicy.Immediate (policy : CommitteePolicy) : Prop :=
  policy.securityEviction≠.epochBoundary ∧ policy.operationalEviction≠.epochBoundary

def member (fp : Bytes) : WriterIdentity := ⟨.bls,fp,none,some fp⟩

def oneSeat : CommitteePolicy := {CommitteePolicy.standard 0 with maxCommitteeSize := 1}

def formedRun : List Input :=
  [.registry (.enroll (member [1]) 0),.registry (.approve [1] [9] 0),
    .registry (.enroll (member [2]) 0),.registry (.approve [2] [9] 0),.adminAdvance 1]

def promotedRun : List Input :=
  formedRun++[.registry (.suspend [2] "audit" [9] 2),.stateChange [2] .suspended,
    .registry (.suspend [1] "audit" [9] 3),.stateChange [1] .suspended]

theorem suspended_members_seated : oneSeat.Immediate ∧ ¬Seated ((machine oneSeat .standard).state
        (formedRun++[.registry (.suspend [1] "audit" [9] 2)])) ∧
      ¬Seated ((machine oneSeat .standard).state promotedRun) :=
  ⟨⟨nofun,nofun⟩,by decide,by decide⟩

end

def BelowFloor (policy : CommitteePolicy) (roster : Roster) : Prop :=
  policy.floorMode=.hard ∧ (roster.activeMembers.length : ℤ)<policy.minCommitteeSize

/-- `is_halted` holds exactly if the current roster is below a hard floor. -/
def HaltAgrees (policy : CommitteePolicy) (manager : Manager) : Prop :=
  manager.eviction.halted=true ↔ ∃ roster ∈ manager.roster, BelowFloor policy roster

def seats (policy : CommitteePolicy) (reg : Registry) : ℤ :=
  if 0<policy.maxCommitteeSize then
    min policy.maxCommitteeSize (eligibleWriters policy reg).length
  else (eligibleWriters policy reg).length

/-- When an epoch begins under a hard floor, the writers that are eligible fill the committee up
to the floor exactly if the current roster reaches it. -/
def FormsInStep (policy : CommitteePolicy) (s : System) (input : Input) : Prop :=
  Advances policy s.manager input → policy.floorMode=.hard →
    (seats policy s.registry<policy.minCommitteeSize ↔
      ∃ roster ∈ s.manager.roster, (roster.activeMembers.length : ℤ)<policy.minCommitteeSize)

section
variable {policy : CommitteePolicy} {m : Manager}

theorem halted_checkFloor {handler : EvictionHandler} {roster : Roster}
    (h : handler.halted=true → policy.floorMode=.hard) :
    (checkFloor policy handler roster).halted=true ↔ BelowFloor policy roster := by
  rw [checkFloor,BelowFloor]
  split_ifs with hs hh
  · exact iff_of_false (by simp) fun hb => not_le.mpr hb.2 hs
  · exact iff_of_false hh fun hb => not_le.mpr hb.2 hs
  · cases hm : policy.floorMode with
    | hard => exact iff_of_true rfl ⟨rfl,not_le.mp hs⟩
    | soft =>
      rw [hm] at h
      exact iff_of_false (fun hh => nomatch h hh) fun hb => nomatch hb.1

theorem HaltAgrees.onWriterStateChange (h : HaltAgrees policy m) (writerFp : Bytes)
    (newState : WriterState) :
    HaltAgrees policy (m.onWriterStateChange policy writerFp newState) := by
  rw [Manager.onWriterStateChange]
  cases hr : m.roster with
  | none => exact h
  | some roster =>
    have hm : m.eviction.halted=true → policy.floorMode=.hard := by
      intro hh
      obtain ⟨_,-,hb⟩ := h.mp hh
      exact hb.1
    have hbe : m.eviction.halted=true ↔ BelowFloor policy roster := by simpa [HaltAgrees,hr] using h
    simp only [HaltAgrees,Option.mem_some_iff,exists_eq_left',handleStateChange]
    split
    · exact hbe
    · split_ifs
      · exact hbe
      · exact hbe
      all_goals exact halted_checkFloor hm

theorem length_buildRoster (policy : CommitteePolicy) (reg : Registry)
    (epoch roundNum timestamp : ℤ) :
    ((buildRoster policy reg epoch roundNum timestamp).activeMembers.length : ℤ) =
      seats policy reg := by
  have hl : (rank ((eligibleWriters policy reg).map (toMember epoch))).length =
      (eligibleWriters policy reg).length := by rw [rank,length_insertionSort,length_map]
  rw [buildRoster,seats,length_map]
  split_ifs with hc
  · rw [length_take,hl]
    omega
  · rw [hl]

theorem haltAgrees_advance_iff {s : System} (h : HaltAgrees policy s.manager) {input : Input}
    (ha : Advances policy s.manager input) (round timestamp : ℤ) :
    HaltAgrees policy (s.manager.advance policy s.registry round timestamp) ↔
      FormsInStep policy s input := by
  have hl := length_buildRoster policy s.registry (s.manager.currentEpoch+1) round timestamp
  rw [HaltAgrees] at h ⊢
  simp only [Manager.advance,Option.mem_some_iff,exists_eq_left',h,FormsInStep,ha,forall_const,
    BelowFloor,hl]
  by_cases hm : policy.floorMode=.hard
  · simp only [hm,true_and,forall_const]
    exact iff_comm
  · simp [hm]

theorem haltAgrees_step_iff {s : System} (h : HaltAgrees policy s.manager) (input : Input) :
    HaltAgrees policy (s.step policy input).manager ↔ FormsInStep policy s input := by
  have hst := step_change policy s input
  generalize s.step policy input=s' at hst
  cases hst with
  | registry input => exact iff_of_true h fun ha => ha.elim
  | hook writerFp newState => exact iff_of_true (h.onWriterStateChange _ _) fun ha => ha.elim
  | idle round ms hn => exact iff_of_true h fun ha => absurd ha hn
  | epoch _ round timestamp ha => exact haltAgrees_advance_iff h ha round timestamp

theorem halted_iff_below_floor (config : RegistryConfig) (policy : CommitteePolicy)
    (inputs : List Input) : (∀ before, before <+: inputs →
        HaltAgrees policy ((machine policy config).state before).manager) ↔
      (machine policy config).Meets (FormsInStep policy) inputs :=
  Machine.forall_prefix_iff_meets (M := machine policy config) (J := fun _ _ => True)
    (Q := fun s _ => HaltAgrees policy s.manager) (fun _ => trivial)
    (by simp [HaltAgrees,machine,Manager.init,EvictionHandler.init])
    (fun _ _ input _ h hf => (haltAgrees_step_iff h input).mpr hf) (fun _ _ h => h)
    (fun _ _ input _ h hs => (haltAgrees_step_iff h input).mp hs) inputs

end

theorem emptyCommittee_not_halted : ¬HaltAgrees {CommitteePolicy.standard 0 with floorMode := .hard}
      ((machine {CommitteePolicy.standard 0 with floorMode := .hard} .standard).state
        [.adminAdvance 1]).manager :=
  fun h => absurd (h.mpr ⟨_,rfl,rfl,by decide⟩) (by decide)

structure WellFormed (policy : CommitteePolicy) (handler : EvictionHandler) (roster : Roster) :
    Prop where
  distinct : roster.fingerprints.Nodup
  active_le : 0<policy.maxCommitteeSize →
    (roster.activeMembers.length : ℤ)≤policy.maxCommitteeSize
  standby_le : 0<policy.maxStandbySize →
    (roster.standbyMembers.length : ℤ)≤policy.maxStandbySize
  evicted : ∀ event ∈ handler.events, event.writerFp ∉ roster.fingerprints

def change (policy : CommitteePolicy) (state : EvictionHandler × Roster)
    (c : Bytes × WriterState × ℤ) : EvictionHandler × Roster :=
  (handleStateChange policy state.1 state.2 c.1 c.2.1 c.2.2).2

section
variable {policy : CommitteePolicy} {handler : EvictionHandler} {roster : Roster}

theorem WellFormed.replace (h : WellFormed policy handler roster) {event : EvictionEvent}
    {replacement : Option CommitteeMember} {handler' : EvictionHandler}
    (he : handler'.events=handler.events++[event])
    (hm : ∃ m ∈ roster.activeMembers, m.writerFp=event.writerFp)
    (hr : ∀ m ∈ replacement, m ∈ roster.standbyMembers) :
    WellFormed policy handler' (replace roster event.writerFp replacement) := by
  obtain ⟨m,hm,hfp⟩ := hm
  have hp := fingerprints_replace event.writerFp hr
  have hs : ((roster.activeMembers.eraseP (·.writerFp=event.writerFp) ++
      roster.standbyMembers).map CommitteeMember.writerFp).Sublist roster.fingerprints :=
    (eraseP_sublist.append_right _).map _
  have hd := h.distinct
  rw [Roster.fingerprints,map_append] at hd
  obtain ⟨ha,-,hdi⟩ := nodup_append.mp hd
  have hl : (roster.activeMembers.eraseP (·.writerFp=event.writerFp)).length+1 =
      roster.activeMembers.length := by
    rw [length_eraseP_of_mem hm (decide_eq_true hfp)]
    exact Nat.sub_add_cancel (length_pos_of_mem hm)
  have hst : (replacement.elim roster.standbyMembers roster.standbyMembers.erase).length ≤
      roster.standbyMembers.length := by
    cases replacement with
    | none => exact le_rfl
    | some m => exact length_erase_le
  have hmo : (replacement.map (·.withRole .active)).toList.length≤1 := by cases replacement <;> simp
  refine ⟨hp.nodup_iff.mpr (h.distinct.sublist hs),fun hc => ?_,fun hc => ?_,
    fun found hf hin => ?_⟩
  · have hle := h.active_le hc
    simp only [CommitteeRoster.replace,length_append]
    omega
  · have hle := h.standby_le hc
    simp only [CommitteeRoster.replace]
    omega
  · rw [hp.mem_iff] at hin
    rw [he,mem_append,mem_singleton] at hf
    rcases hf with hol|rfl
    · exact h.evicted found hol (hs.subset hin)
    · rw [map_append,mem_append] at hin
      rcases hin with hin|hin
      · obtain ⟨other,ho,heq⟩ := mem_map.mp hin
        exact ne_of_mem_eraseP ha hm hfp ho heq
      · exact hdi _ (mem_map_of_mem hm) _ hin hfp

theorem wellFormed_buildRoster (policy : CommitteePolicy) (reg : Registry)
    (epoch roundNum timestamp : ℤ) :
    WellFormed policy .init (buildRoster policy reg epoch roundNum timestamp) where
  distinct := distinct_buildRoster _ _ _ _ _
  active_le hc := by
    simp only [buildRoster,if_pos hc,length_map,length_take]
    omega
  standby_le hc := by
    simp only [buildRoster,if_pos hc,length_map,length_take]
    omega
  evicted := nofun

theorem WellFormed.changes {state : EvictionHandler × Roster}
    (h : WellFormed policy state.1 state.2) (changes : List (Bytes × WriterState × ℤ)) :
    WellFormed policy (changes.foldl (change policy) state).1
      (changes.foldl (change policy) state).2 := by
  induction changes generalizing state with
  | nil => exact h
  | cons c rest ih =>
    refine ih ?_
    rcases handleStateChange_cases policy state.1 state.2 c.1 c.2.1 c.2.2 with
      ⟨-,he,hr⟩ | ⟨hev,event,he,hfp,hr⟩
    · rw [change,hr]
      exact {h with evicted := he ▸ h.evicted}
    · have hn := h.replace he (hfp ▸ hev.2.1)
        fun m (hm : m ∈ replacementFor policy state.2 c.2.1) => mem_standby_of_replacementFor hm
      rw [hfp] at hn
      rw [change,hr]
      exact hn

/-- Whatever state changes follow, no writer sits twice, the caps hold and an evicted writer does
not come back. -/
theorem rosters_wellFormed (policy : CommitteePolicy) (reg : Registry)
    (epoch roundNum timestamp : ℤ) (changes : List (Bytes × WriterState × ℤ)) :
    let after := changes.foldl (change policy)
      (.init,buildRoster policy reg epoch roundNum timestamp)
    WellFormed policy after.1 after.2 :=
  (wellFormed_buildRoster policy reg epoch roundNum timestamp).changes changes

end

end LatticeTransfer.CommitteeRoster
