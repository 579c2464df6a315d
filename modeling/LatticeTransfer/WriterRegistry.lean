import LatticeTransfer.Machine
import LatticeTransfer.PyValue

/-!
# The lifecycle of writers

`WriterRegistry` with the transition table of the writer states. Every operation goes
through `transition`, which looks only at the table: an operation that does not check the
state itself takes every edge into its target.

The registry never sets `expires_at`; the owner of a record does, by an input of its own.
-/

namespace LatticeTransfer.WriterRegistry
open List
open PyValue (bind_ok)

inductive IdentityTier
  | mldsa
  | bls
  | composite
deriving DecidableEq

inductive WriterState
  | pending
  | probation
  | active
  | suspended
  | expired
  | revoked
deriving DecidableEq

def WriterState.value : WriterState → String
  | .pending => "pending"
  | .probation => "probation"
  | .active => "active"
  | .suspended => "suspended"
  | .expired => "expired"
  | .revoked => "revoked"

def WriterState.name : WriterState → String
  | .pending => "PENDING"
  | .probation => "PROBATION"
  | .active => "ACTIVE"
  | .suspended => "SUSPENDED"
  | .expired => "EXPIRED"
  | .revoked => "REVOKED"

def transactableStates : List WriterState := [.active,.probation]

def validWriterTransitions : List (WriterState × WriterState) :=
  [(.pending,.probation),(.pending,.active),(.pending,.revoked),
    (.probation,.active),(.probation,.suspended),(.probation,.revoked),
    (.active,.suspended),(.active,.expired),(.active,.revoked),
    (.suspended,.active),(.suspended,.revoked),(.expired,.active),(.expired,.revoked)]

def validateWriterTransition (current target : WriterState) : Bool × String :=
  let source := current.name
  let goal := target.name
  if current=target then (false,s!"no-op transition: {source} → {goal}")
  else if (current,target) ∈ validWriterTransitions then (true,"")
  else (false,s!"invalid transition: {source} → {goal}")

structure TransitionEntry where
  timestamp : ℤ
  fromState : WriterState
  toState : WriterState
  actorFp : Bytes
  reason : String
  isEmergency : Bool

structure WriterIdentity where
  tier : IdentityTier
  fingerprint : Bytes
  mldsaVk : Option Bytes
  blsPk : Option Bytes

inductive ApprovalPath
  | admin
  | sponsor
  | self

structure WriterRecord where
  identity : WriterIdentity
  state : WriterState
  approvalPath : ApprovalPath
  enrolledAt : ℤ
  approvedAt : Option ℤ
  approvedBy : Option Bytes
  sponsors : List Bytes
  probationUntil : Option ℤ
  expiresAt : Option ℤ
  suspensionReason : Option String
  transitionLog : List TransitionEntry

def WriterRecord.moved (record : WriterRecord) (entry : TransitionEntry) : WriterRecord :=
  {record with transitionLog := record.transitionLog++[entry],state := entry.toState}

def WriterRecord.addSponsor (sponsorFp : Bytes) (record : WriterRecord) : WriterRecord :=
  {record with sponsors := record.sponsors++[sponsorFp]}

def WriterRecord.setExpiresAt (expiresAt : Option ℤ) (record : WriterRecord) : WriterRecord :=
  {record with expiresAt := expiresAt}

def WriterRecord.canTransact (record : WriterRecord) : Bool := record.state ∈ transactableStates

structure ProbationModifiers where
  rateLimitDivisor : ℤ
  feeMultiplierFactor : Float
  blockedOperations : List String

structure RegistryConfig where
  sponsorThreshold : ℤ
  probationEpochs : ℤ
  probationModifiers : ProbationModifiers

def RegistryConfig.standard : RegistryConfig := ⟨2,10,⟨2,2.0,["deploy"]⟩⟩

/-- A record is filed under the fingerprint of its own identity. -/
structure Registry where
  config : RegistryConfig
  records : Dict Bytes WriterRecord
  revoked : Finset Bytes
  keyed : ∀ fp record, records.get? fp=some record → record.identity.fingerprint=fp

def short (fingerprint : Bytes) : String :=
  String.ofList ((PyValue.hexDigits fingerprint).take 16)

namespace Registry

def init (config : RegistryConfig) : Registry :=
  ⟨config,Dict.empty,∅,fun _ _ h => by cases h⟩

def put (reg : Registry) (record : WriterRecord) : Registry where
  config := reg.config
  records := reg.records.set record.identity.fingerprint record
  revoked := reg.revoked
  keyed fp found h := by
    rw [Dict.get?_set] at h
    split_ifs at h with hfp
    · cases h
      exact hfp
    · exact reg.keyed fp found h

variable (reg : Registry)

def lookup (fingerprint : Bytes) : Option WriterRecord := reg.records.get? fingerprint

def getOrRaise (fingerprint : Bytes) : Except PyError WriterRecord :=
  match reg.lookup fingerprint with
  | none => .error .keyError
  | some record => .ok record

def edit (fingerprint : Bytes) (change : WriterRecord → WriterRecord) : Registry :=
  match reg.lookup fingerprint with
  | none => reg
  | some record => reg.put (change record)

def transition (fingerprint : Bytes) (target : WriterState) (actorFp : Bytes) (reason : String)
    (timestamp : ℤ) : Except PyError Registry := do
  let record ← reg.getOrRaise fingerprint
  let writer := short fingerprint
  match validateWriterTransition record.state target with
  | (false,msg) => .error (.valueError s!"Transition rejected for {writer}…: {msg}")
  | (true,_) => .ok (reg.put (record.moved ⟨timestamp,record.state,target,actorFp,reason,false⟩))

def enroll (identity : WriterIdentity) (timestamp : ℤ) : Except PyError Registry :=
  let writer := short identity.fingerprint
  if identity.fingerprint ∈ reg.revoked then
    .error (.valueError s!"Writer {writer}… was previously revoked and cannot re-enroll.")
  else
    match reg.lookup identity.fingerprint with
    | some record =>
      let state := record.state.value
      .error (.valueError s!"Writer {writer}… is already registered (state={state}).")
    | none => .ok (reg.put ⟨identity,.pending,.sponsor,timestamp,none,none,[],none,none,none,[]⟩)

def approve (fingerprint adminFp : Bytes) (timestamp : ℤ) : Except PyError Registry := do
  let record ← reg.getOrRaise fingerprint
  let state := record.state.value
  if record.state≠.pending then
    .error (.valueError s!"approve requires PENDING state; writer is {state}.")
  else
    let moved ← reg.transition fingerprint .active adminFp "admin approval" timestamp
    return moved.edit fingerprint fun record =>
      {record with
        approvedAt := some timestamp,approvedBy := some adminFp,approvalPath := .admin}

def sponsor (fingerprint sponsorFp : Bytes) (timestamp : ℤ) : Except PyError Registry := do
  let record ← reg.getOrRaise fingerprint
  let state := record.state.value
  let sponsoring := short sponsorFp
  if record.state≠.pending then
    .error (.valueError s!"sponsor only operates on PENDING writers; writer is {state}.")
  else if !(reg.lookup sponsorFp).any WriterRecord.canTransact then
    .error (.valueError s!"Sponsor {sponsoring}… must be an ACTIVE or PROBATION writer.")
  else if sponsorFp ∈ record.sponsors then return reg
  else
    let sponsored := reg.edit fingerprint (WriterRecord.addSponsor sponsorFp)
    let count := record.sponsors.length+1
    let threshold := reg.config.sponsorThreshold
    if threshold≤count then
      let moved ← sponsored.transition fingerprint .probation sponsorFp
        s!"sponsor threshold met ({count}/{threshold})" timestamp
      return moved.edit fingerprint fun record =>
        {record with
          probationUntil := some (timestamp+reg.config.probationEpochs)
          approvalPath := .sponsor}
    else return sponsored

def promote (fingerprint : Bytes) (timestamp : ℤ) : Except PyError Registry := do
  let record ← reg.getOrRaise fingerprint
  reg.transition fingerprint .active record.identity.fingerprint
    "probation completed; promoted to active" timestamp

def suspend (fingerprint : Bytes) (reason : String) (actorFp : Bytes) (timestamp : ℤ) :
    Except PyError Registry := do
  let moved ← reg.transition fingerprint .suspended actorFp reason timestamp
  return moved.edit fingerprint fun record => {record with suspensionReason := some reason}

def reinstate (fingerprint actorFp : Bytes) (timestamp : ℤ) : Except PyError Registry := do
  let moved ← reg.transition fingerprint .active actorFp "suspension lifted; reinstated" timestamp
  return moved.edit fingerprint fun record => {record with suspensionReason := none}

def revoke (fingerprint : Bytes) (reason : String) (actorFp : Bytes) (timestamp : ℤ) :
    Except PyError Registry := do
  let moved ← reg.transition fingerprint .revoked actorFp reason timestamp
  return {moved with revoked := insert fingerprint moved.revoked}

def renew (fingerprint actorFp : Bytes) (timestamp : ℤ) : Except PyError Registry :=
  reg.transition fingerprint .active actorFp "credential renewed" timestamp

def isDue (currentEpoch : ℤ) (record : WriterRecord) : Bool :=
  record.state=.active ∧ ∃ expiresAt ∈ record.expiresAt, 0<expiresAt ∧ expiresAt≤currentEpoch

def toExpire (currentEpoch : ℤ) : List Bytes :=
  (reg.records.entries.filter fun entry => isDue currentEpoch entry.2).map Prod.fst

def expire (currentEpoch : ℤ) (fingerprint : Bytes) : Except PyError Registry :=
  let due := ((reg.lookup fingerprint).bind WriterRecord.expiresAt).getD 0
  reg.transition fingerprint .expired fingerprint s!"credential expired at epoch {due}" currentEpoch

def checkExpirations (currentEpoch : ℤ) : Except PyError (List Bytes × Registry) := do
  let due := reg.toExpire currentEpoch
  let expired ← due.foldlM (fun reg fingerprint => reg.expire currentEpoch fingerprint) reg
  return (due,expired)

def activeWriters : List WriterRecord := reg.records.values.filter WriterRecord.canTransact

end Registry

inductive Operation
  | enroll
  | approve
  | sponsor
  | promote
  | suspend
  | reinstate
  | revoke
  | renew
  | expire
  | assign
deriving DecidableEq

inductive Input
  | enroll (identity : WriterIdentity) (timestamp : ℤ)
  | approve (fingerprint adminFp : Bytes) (timestamp : ℤ)
  | sponsor (fingerprint sponsorFp : Bytes) (timestamp : ℤ)
  | promote (fingerprint : Bytes) (timestamp : ℤ)
  | suspend (fingerprint : Bytes) (reason : String) (actorFp : Bytes) (timestamp : ℤ)
  | reinstate (fingerprint actorFp : Bytes) (timestamp : ℤ)
  | revoke (fingerprint : Bytes) (reason : String) (actorFp : Bytes) (timestamp : ℤ)
  | renew (fingerprint actorFp : Bytes) (timestamp : ℤ)
  | checkExpirations (currentEpoch : ℤ)
  | setExpiresAt (fingerprint : Bytes) (expiresAt : Option ℤ)

structure Move where
  operation : Operation
  fingerprint : Bytes
  source : WriterState
  target : WriterState
deriving DecidableEq

def Input.operation : Input → Operation
  | .enroll .. => .enroll
  | .approve .. => .approve
  | .sponsor .. => .sponsor
  | .promote .. => .promote
  | .suspend .. => .suspend
  | .reinstate .. => .reinstate
  | .revoke .. => .revoke
  | .renew .. => .renew
  | .checkExpirations .. => .expire
  | .setExpiresAt .. => .assign

def Input.writer : Input → Option Bytes
  | .enroll identity _ => some identity.fingerprint
  | .approve fingerprint _ _ | .sponsor fingerprint _ _ | .promote fingerprint _
  | .suspend fingerprint _ _ _ | .reinstate fingerprint _ _ | .revoke fingerprint _ _ _
  | .renew fingerprint _ _ | .setExpiresAt fingerprint _ => some fingerprint
  | .checkExpirations _ => none

def Input.call (reg : Registry) : Input → Except PyError Registry
  | .enroll identity timestamp => reg.enroll identity timestamp
  | .approve fingerprint adminFp timestamp => reg.approve fingerprint adminFp timestamp
  | .sponsor fingerprint sponsorFp timestamp => reg.sponsor fingerprint sponsorFp timestamp
  | .promote fingerprint timestamp => reg.promote fingerprint timestamp
  | .suspend fingerprint reason actorFp timestamp =>
    reg.suspend fingerprint reason actorFp timestamp
  | .reinstate fingerprint actorFp timestamp => reg.reinstate fingerprint actorFp timestamp
  | .revoke fingerprint reason actorFp timestamp => reg.revoke fingerprint reason actorFp timestamp
  | .renew fingerprint actorFp timestamp => reg.renew fingerprint actorFp timestamp
  | .checkExpirations currentEpoch => (reg.checkExpirations currentEpoch).map Prod.snd
  | .setExpiresAt fingerprint expiresAt =>
    .ok (reg.edit fingerprint (WriterRecord.setExpiresAt expiresAt))

def moveOf (operation : Operation) (before after : Registry) (fingerprint : Bytes) : Option Move :=
  match before.lookup fingerprint, after.lookup fingerprint with
  | some old, some new =>
    if old.state=new.state then none
    else some ⟨operation,fingerprint,old.state,new.state⟩
  | _, _ => none

def Input.moves (before after : Registry) : Input → List Move
  | .checkExpirations currentEpoch => (before.toExpire currentEpoch).map fun fingerprint =>
      ⟨.expire,fingerprint,.active,.expired⟩
  | input => (input.writer.bind (moveOf input.operation before after)).toList

def step (reg : Registry) (input : Input) : Registry × List Move :=
  match input.call reg with
  | .error _ => (reg,[])
  | .ok reg' => (reg',input.moves reg reg')

def machine (config : RegistryConfig) : Machine Registry Input Move := ⟨Registry.init config,step⟩

namespace Registry
variable {reg reg' : Registry} {fp : Bytes} {record : WriterRecord}

theorem lookup_put (reg : Registry) (record : WriterRecord) (fp : Bytes) :
    (reg.put record).lookup fp =
      if record.identity.fingerprint=fp then some record else reg.lookup fp :=
  Dict.get?_set _ _ _ _

theorem getOrRaise_ok (h : reg.getOrRaise fp=.ok record) : reg.lookup fp=some record := by
  rw [getOrRaise] at h
  cases hl : reg.lookup fp with
  | none =>
    rw [hl] at h
    cases h
  | some found =>
    rw [hl] at h
    rw [Except.ok.inj h]

theorem getOrRaise_of_lookup (h : reg.lookup fp=some record) : reg.getOrRaise fp=.ok record := by
  rw [getOrRaise,h]

structure Writes (reg reg' : Registry) (fingerprint : Bytes) (record : WriterRecord) : Prop where
  lookup : ∀ other, reg'.lookup other =
    if fingerprint=other then some record else reg.lookup other
  revoked : reg'.revoked=reg.revoked

theorem Writes.lookup_self (h : Writes reg reg' fp record) : reg'.lookup fp=some record := by
  rw [h.lookup,if_pos rfl]

theorem Writes.trans {mid : Registry} {first : WriterRecord} (h1 : Writes reg mid fp first)
    (h2 : Writes mid reg' fp record) : Writes reg reg' fp record := by
  refine ⟨fun other => ?_,h2.revoked.trans h1.revoked⟩
  rw [h2.lookup,h1.lookup]
  split_ifs <;> rfl

theorem writes_put (reg : Registry) (h : record.identity.fingerprint=fp) :
    Writes reg (reg.put record) fp record :=
  ⟨fun other => by rw [lookup_put,h],rfl⟩

theorem writes_edit {change : WriterRecord → WriterRecord}
    (h : reg.lookup fp=some record) (hid : (change record).identity=record.identity) :
    Writes reg (reg.edit fp change) fp (change record) := by
  rw [edit,h]
  exact writes_put reg ((congrArg _ hid).trans (reg.keyed _ _ h))

theorem not_valid_self (state : WriterState) : (state,state) ∉ validWriterTransitions := by
  cases state <;> decide

theorem validateWriterTransition_eq_true {cur target : WriterState} {msg : String} :
    validateWriterTransition cur target=(true,msg) ↔
      (cur,target) ∈ validWriterTransitions ∧ msg = "" := by
  rw [validateWriterTransition]
  split_ifs with heq hv
  · subst heq
    simp [not_valid_self]
  · simp [hv]
  · simp [hv]

variable {target : WriterState} {actor : Bytes} {reason : String} {now : ℤ}

structure Moves (reg reg' : Registry) (fingerprint : Bytes) (record record' : WriterRecord) :
    Prop where
  lookup : reg.lookup fingerprint=some record
  valid : (record.state,record'.state) ∈ validWriterTransitions
  log : ∃ entry, record'.transitionLog=record.transitionLog++[entry] ∧
    entry.fromState=record.state ∧ entry.toState=record'.state
  writes : Writes reg reg' fingerprint record'

theorem Moves.edit {record' : WriterRecord} (h : Moves reg reg' fp record record')
    {change : WriterRecord → WriterRecord} (hid : (change record').identity=record'.identity)
    (hs : (change record').state=record'.state)
    (hl : (change record').transitionLog=record'.transitionLog) :
    Moves reg (reg'.edit fp change) fp record (change record') := by
  refine ⟨h.lookup,?_,?_,h.writes.trans (writes_edit h.writes.lookup_self hid)⟩
  · rw [hs]
    exact h.valid
  · rw [hs,hl]
    exact h.log

theorem transition_ok (h : reg.transition fp target actor reason now=.ok reg') :
    ∃ record record', Moves reg reg' fp record record' ∧ record'.state=target := by
  obtain ⟨record,hr,h⟩ := bind_ok h
  have hl := getOrRaise_ok hr
  split at h
  · cases h
  · next msg hv =>
    cases h
    have hk : record.identity.fingerprint=fp := reg.keyed _ _ hl
    exact ⟨record,_,⟨hl,(validateWriterTransition_eq_true.mp hv).1,
      ⟨_,rfl,rfl,rfl⟩,writes_put reg hk⟩,rfl⟩

theorem transition_of_valid (hl : reg.lookup fp=some record)
    (hv : (record.state,target) ∈ validWriterTransitions) :
    ∃ reg', reg.transition fp target actor reason now=.ok reg' := by
  have hva := validateWriterTransition_eq_true.mpr ⟨hv,rfl⟩
  rw [transition,getOrRaise_of_lookup hl]
  refine ⟨reg.put (record.moved ⟨now,record.state,target,actor,reason,false⟩),?_⟩
  simp [bind,Except.bind,hva]

section
variable (hl : reg.lookup fp=some record) (hv : (record.state,.active) ∈ validWriterTransitions)
include hl hv

theorem promote_of_valid : ∃ reg', reg.promote fp now=.ok reg' := by
  rw [promote,getOrRaise_of_lookup hl]
  exact transition_of_valid hl hv

theorem reinstate_of_valid : ∃ reg', reg.reinstate fp actor now=.ok reg' := by
  obtain ⟨mid,hm⟩ : ∃ mid, reg.transition fp .active actor
      "suspension lifted; reinstated" now=.ok mid := transition_of_valid hl hv
  rw [reinstate,hm]
  exact ⟨_,rfl⟩

end

theorem enroll_ok {identity : WriterIdentity} (h : reg.enroll identity now=.ok reg') :
    identity.fingerprint ∉ reg.revoked ∧ reg.lookup identity.fingerprint=none ∧
      ∃ record, record.state=.pending ∧ record.transitionLog=[] ∧
        Writes reg reg' identity.fingerprint record := by
  rw [enroll] at h
  split_ifs at h with hr
  split at h
  · cases h
  · next hn =>
    cases h
    exact ⟨hr,hn,_,rfl,rfl,writes_put reg rfl⟩

theorem approve_ok {adminFp : Bytes} (h : reg.approve fp adminFp now=.ok reg') :
    ∃ record record', Moves reg reg' fp record record' ∧ record.state=.pending ∧
      record'.state=.active := by
  obtain ⟨record,hr,h⟩ := bind_ok h
  split_ifs at h with hp
  obtain ⟨mid,hmi,h⟩ := bind_ok h
  cases h
  obtain ⟨found,moved,hm,ha⟩ := transition_ok hmi
  have hs : found=record :=
    Option.some.inj (hm.lookup.symm.trans (getOrRaise_ok hr))
  rw [hs] at hm
  exact ⟨record,_,hm.edit rfl rfl rfl,not_not.mp hp,ha⟩

theorem sponsor_ok {sponsorFp : Bytes} (h : reg.sponsor fp sponsorFp now=.ok reg') : reg'=reg ∨
      (∃ record record', reg.lookup fp=some record ∧ record'.state=record.state ∧
        record'.transitionLog=record.transitionLog ∧ Writes reg reg' fp record') ∨
      ∃ record record', Moves reg reg' fp record record' ∧ record.state=.pending ∧
        record'.state=.probation := by
  obtain ⟨record,hr,h⟩ := bind_ok h
  have hl := getOrRaise_ok hr
  have hs : Writes reg (reg.edit fp (.addSponsor sponsorFp))
      fp (record.addSponsor sponsorFp) := writes_edit hl rfl
  dsimp only at h
  split_ifs at h with hpe hsp hd ht
  · exact .inl (Except.ok.inj h).symm
  · obtain ⟨mid,hmi,h⟩ := bind_ok h
    cases h
    obtain ⟨found,moved,hm,hp⟩ := transition_ok hmi
    have hsa := Option.some.inj (hm.lookup.symm.trans hs.lookup_self)
    have hst : found.state=record.state := by
      rw [hsa]
      rfl
    have hlo : found.transitionLog=record.transitionLog := by
      rw [hsa]
      rfl
    have ha : Moves reg mid fp record moved :=
      ⟨hl,hst ▸ hm.valid,hst ▸ hlo ▸ hm.log,hs.trans hm.writes⟩
    exact .inr (.inr ⟨record,_,ha.edit rfl rfl rfl,not_not.mp hpe,hp⟩)
  · cases h
    exact .inr (.inl ⟨record,record.addSponsor sponsorFp,hl,rfl,rfl,hs⟩)

theorem promote_ok (h : reg.promote fp now=.ok reg') :
    ∃ record record', Moves reg reg' fp record record' ∧ record'.state=.active := by
  obtain ⟨record,_,h⟩ := bind_ok h
  exact transition_ok h

theorem suspend_ok (h : reg.suspend fp reason actor now=.ok reg') :
    ∃ record record', Moves reg reg' fp record record' ∧ record'.state=.suspended := by
  obtain ⟨mid,hmi,h⟩ := bind_ok h
  cases h
  obtain ⟨record,moved,hm,hs⟩ := transition_ok hmi
  exact ⟨record,_,hm.edit rfl rfl rfl,hs⟩

theorem reinstate_ok (h : reg.reinstate fp actor now=.ok reg') :
    ∃ record record', Moves reg reg' fp record record' ∧ record'.state=.active := by
  obtain ⟨mid,hmi,h⟩ := bind_ok h
  cases h
  obtain ⟨record,moved,hm,hs⟩ := transition_ok hmi
  exact ⟨record,_,hm.edit rfl rfl rfl,hs⟩

theorem revoke_ok (h : reg.revoke fp reason actor now=.ok reg') :
    ∃ mid record record', Moves reg mid fp record record' ∧ record'.state=.revoked ∧
      reg'={mid with revoked := insert fp mid.revoked} := by
  obtain ⟨mid,hmi,h⟩ := bind_ok h
  obtain ⟨record,record',hm,hs⟩ := transition_ok hmi
  exact ⟨mid,record,record',hm,hs,(Except.ok.inj h).symm⟩

/-- The credential has an end, and the end has come. -/
def Lapsed (currentEpoch : ℤ) (record : WriterRecord) : Prop :=
  ∃ expiresAt ∈ record.expiresAt, 0<expiresAt ∧ expiresAt≤currentEpoch

theorem isDue_iff {epoch : ℤ} :
    isDue epoch record=true ↔ record.state=.active ∧ Lapsed epoch record :=
  decide_eq_true_iff

theorem mem_toExpire {epoch : ℤ} : fp ∈ reg.toExpire epoch ↔
    ∃ record, reg.lookup fp=some record ∧ record.state=.active ∧ Lapsed epoch record := by
  simp [toExpire,lookup,isDue_iff,Dict.get?_eq_some_iff]

theorem nodup_toExpire (reg : Registry) (epoch : ℤ) : (reg.toExpire epoch).Nodup :=
  reg.records.nodup.sublist (filter_sublist.map _)

end Registry

/-- The edges of the table that the code of an operation lets it take. -/
def Operation.Takes : Operation → WriterState → WriterState → Prop
  | .approve, source, target => source=.pending ∧ target=.active
  | .sponsor, source, target => source=.pending ∧ target=.probation
  | .promote, _, target | .reinstate, _, target | .renew, _, target => target=.active
  | .suspend, _, target => target=.suspended
  | .expire, source, target => source=.active ∧ target=.expired
  | _, _, _ => False

open Registry in
inductive Step (operation : Operation) (reg : Registry) : Registry → List Move → Prop
  | stay : Step operation reg reg []
  | enroll {reg' : Registry} {fingerprint : Bytes} {record : WriterRecord}
      (hnew : reg.lookup fingerprint=none) (hrevoked : fingerprint ∉ reg.revoked)
      (hpending : record.state=.pending) (hlog : record.transitionLog=[])
      (hwrites : Writes reg reg' fingerprint record) : Step operation reg reg' []
  | edit {reg' : Registry} {fingerprint : Bytes} {record record' : WriterRecord}
      (hlookup : reg.lookup fingerprint=some record) (hstate : record'.state=record.state)
      (hlog : record'.transitionLog=record.transitionLog)
      (hwrites : Writes reg reg' fingerprint record') : Step operation reg reg' []
  | move {reg' : Registry} {fingerprint : Bytes} {record record' : WriterRecord}
      (hmoves : Moves reg reg' fingerprint record record')
      (htakes : operation.Takes record.state record'.state) :
      Step operation reg reg' [⟨operation,fingerprint,record.state,record'.state⟩]
  | revoke {mid : Registry} {fingerprint : Bytes} {record record' : WriterRecord}
      (hmoves : Moves reg mid fingerprint record record') (hoperation : operation=.revoke)
      (hstate : record'.state=.revoked) :
      Step operation reg {mid with revoked := insert fingerprint mid.revoked}
        [⟨operation,fingerprint,record.state,record'.state⟩]

inductive Steps (operation : Operation) : Registry → Registry → List Move → Prop
  | nil {reg : Registry} : Steps operation reg reg []
  | cons {reg mid reg' : Registry} {moves more : List Move} (hstep : Step operation reg mid moves)
      (hrest : Steps operation mid reg' more) : Steps operation reg reg' (moves++more)

theorem Step.steps {operation : Operation} {reg reg' : Registry} {moves : List Move}
    (h : Step operation reg reg' moves) : Steps operation reg reg' moves := by
  have ho := Steps.cons h .nil
  rwa [append_nil] at ho

section
variable {op : Operation} {reg reg' : Registry} {fp : Bytes} {record record' : WriterRecord}

theorem moveOf_of_moves (h : reg.Moves reg' fp record record') : moveOf op reg reg' fp =
      some ⟨op,fp,record.state,record'.state⟩ := by
  have hne : record.state≠record'.state := fun heq =>
    Registry.not_valid_self record.state (heq ▸ h.valid)
  rw [moveOf,h.lookup,h.writes.lookup_self]
  exact if_neg hne

theorem moveOf_of_edit (hl : reg.lookup fp=some record)
    (hs : record'.state=record.state) (hw : reg.Writes reg' fp record') :
    moveOf op reg reg' fp=none := by
  rw [moveOf,hl,hw.lookup_self]
  exact if_pos hs.symm

theorem moveOf_self (operation : Operation) (reg : Registry) (fp : Bytes) :
    moveOf operation reg reg fp=none := by
  rw [moveOf]
  cases reg.lookup fp with
  | none => rfl
  | some record => exact if_pos rfl

theorem expire_steps (epoch : ℤ) {due : List Bytes} (hn : due.Nodup)
    (ha : ∀ fp ∈ due, ∃ record, reg.lookup fp=some record ∧ record.state=.active) :
    ∃ reg', due.foldlM (fun reg fp => reg.expire epoch fp) reg=.ok reg' ∧
      Steps .expire reg reg' (due.map fun fp => ⟨.expire,fp,.active,.expired⟩) ∧
      ∀ fp, if fp ∈ due then (reg'.lookup fp).map WriterRecord.state=some .expired
        else reg'.lookup fp=reg.lookup fp := by
  induction due generalizing reg with
  | nil => exact ⟨reg,rfl,.nil,fun fp => rfl⟩
  | cons fp due ih =>
    obtain ⟨record,hlo,hst⟩ := ha fp mem_cons_self
    obtain ⟨mid,hmi⟩ : ∃ mid, reg.expire epoch fp=.ok mid :=
      Registry.transition_of_valid hlo (hst ▸ by decide)
    obtain ⟨found,moved,hm,he⟩ := Registry.transition_ok hmi
    have hf : found.state=.active := by
      rw [← Option.some.inj (hlo.symm.trans hm.lookup)]
      exact hst
    obtain ⟨hne,hn⟩ := nodup_cons.mp hn
    have ho : ∀ other ∈ due, ∃ record, mid.lookup other=some record ∧
        record.state=.active := by
      intro other hot
      rw [hm.writes.lookup,if_neg fun heq : fp=other => hne (heq ▸ hot)]
      exact ha other (mem_cons_of_mem _ hot)
    obtain ⟨last,hfo,hs,hl⟩ := ih hn ho
    refine ⟨last,?_,?_,fun other => ?_⟩
    · rw [foldlM_cons,hmi]
      exact hfo
    · have hfi : Step .expire reg mid [⟨.expire,fp,found.state,moved.state⟩] :=
        .move hm ⟨hf,he⟩
      rw [hf,he] at hfi
      exact .cons hfi hs
    · have hoth := hl other
      rw [hm.writes.lookup] at hoth
      by_cases heq : fp=other
      · subst heq
        rw [if_neg hne,if_pos rfl] at hoth
        rw [if_pos mem_cons_self,hoth,Option.map_some,he]
      · simpa only [mem_cons,Ne.symm heq,false_or,if_neg heq] using hoth

theorem checkExpirations_steps (reg : Registry) (epoch : ℤ) :
    ∃ reg', reg.checkExpirations epoch=.ok (reg.toExpire epoch,reg') ∧
      Steps .expire reg reg'
        ((reg.toExpire epoch).map fun fp => ⟨.expire,fp,.active,.expired⟩) ∧
      ∀ fp, if fp ∈ reg.toExpire epoch then
          (reg'.lookup fp).map WriterRecord.state=some .expired
        else reg'.lookup fp=reg.lookup fp := by
  obtain ⟨reg',hf,hs⟩ := expire_steps epoch (reg.nodup_toExpire epoch)
    fun fp hfp => (Registry.mem_toExpire.mp hfp).imp fun _ h => ⟨h.1,h.2.1⟩
  refine ⟨reg',?_,hs⟩
  rw [Registry.checkExpirations]
  simp only [hf]
  rfl

variable (op)

theorem step_of_moves (h : reg.Moves reg' fp record record')
    (ht : op.Takes record.state record'.state) :
    Step op reg reg' (moveOf op reg reg' fp).toList := by
  rw [moveOf_of_moves h]
  exact .move h ht

theorem step_of_edit (hl : reg.lookup fp=some record) (hs : record'.state=record.state)
    (hlo : record'.transitionLog=record.transitionLog) (hw : reg.Writes reg' fp record') :
    Step op reg reg' (moveOf op reg reg' fp).toList := by
  rw [moveOf_of_edit hl hs hw]
  exact .edit hl hs hlo hw

theorem step_of_stay (reg : Registry) (fp : Bytes) :
    Step op reg reg (moveOf op reg reg fp).toList := by
  rw [moveOf_self]
  exact .stay

variable {op}

theorem call_steps {input : Input} (h : input.call reg=.ok reg') :
    Steps input.operation reg reg' (input.moves reg reg') := by
  cases input with
  | enroll identity timestamp =>
    obtain ⟨hr,hne,record,hpe,hlo,hw⟩ := Registry.enroll_ok h
    have hn : moveOf .enroll reg reg' identity.fingerprint=none := by rw [moveOf,hne]
    change Steps .enroll reg reg' (moveOf .enroll reg reg' identity.fingerprint).toList
    rw [hn]
    exact (Step.enroll hne hr hpe hlo hw).steps
  | approve fp adminFp timestamp =>
    obtain ⟨record,record',hm,hpe,ha⟩ := Registry.approve_ok h
    exact (step_of_moves .approve hm ⟨hpe,ha⟩).steps
  | sponsor fp sponsorFp timestamp =>
    rcases Registry.sponsor_ok h with rfl|⟨record,record',hl,hsta,hlo,hw⟩ |
      ⟨record,record',hm,hpe,hp⟩
    · exact (step_of_stay .sponsor reg' fp).steps
    · exact (step_of_edit .sponsor hl hsta hlo hw).steps
    · exact (step_of_moves .sponsor hm ⟨hpe,hp⟩).steps
  | promote fp timestamp =>
    obtain ⟨record,record',hm,ha⟩ := Registry.promote_ok h
    exact (step_of_moves .promote hm ha).steps
  | suspend fp reason actorFp timestamp =>
    obtain ⟨record,record',hm,hs⟩ := Registry.suspend_ok h
    exact (step_of_moves .suspend hm hs).steps
  | reinstate fp actorFp timestamp =>
    obtain ⟨record,record',hm,ha⟩ := Registry.reinstate_ok h
    exact (step_of_moves .reinstate hm ha).steps
  | revoke fp reason actorFp timestamp =>
    obtain ⟨mid,record,record',hm,hr,rfl⟩ := Registry.revoke_ok h
    change Steps .revoke reg _ (moveOf .revoke reg mid fp).toList
    rw [moveOf_of_moves hm]
    exact (Step.revoke hm rfl hr).steps
  | renew fp actorFp timestamp =>
    obtain ⟨record,record',hm,ha⟩ := Registry.transition_ok h
    exact (step_of_moves .renew hm ha).steps
  | checkExpirations epoch =>
    obtain ⟨expired,hc,hst,-⟩ := checkExpirations_steps reg epoch
    obtain rfl : expired=reg' := by
      rw [Input.call,hc] at h
      exact Except.ok.inj h
    exact hst
  | setExpiresAt fp expiresAt =>
    cases h
    cases hl : reg.lookup fp with
    | none =>
      rw [Registry.edit,hl]
      exact (step_of_stay .assign reg fp).steps
    | some record =>
      have hw : reg.Writes (reg.edit fp (.setExpiresAt expiresAt))
        fp (record.setExpiresAt expiresAt) := Registry.writes_edit hl rfl
      have hsta : (record.setExpiresAt expiresAt).state=record.state := rfl
      exact (step_of_edit .assign hl hsta rfl hw).steps

theorem step_steps (reg : Registry) (input : Input) :
    Steps input.operation reg (step reg input).1 (step reg input).2 := by
  rw [step]
  cases h : input.call reg with
  | error e => exact .nil
  | ok reg' => exact call_steps h

end

def Path : WriterState → List TransitionEntry → WriterState → Prop
  | source, [], target => source=target
  | source, entry::rest, target =>
    entry.fromState=source ∧ (entry.fromState,entry.toState) ∈ validWriterTransitions ∧
      Path entry.toState rest target

theorem Path.snoc {source target : WriterState} {log : List TransitionEntry}
    {entry : TransitionEntry} (h : Path source log target) (hf : entry.fromState=target)
    (hv : (entry.fromState,entry.toState) ∈ validWriterTransitions) :
    Path source (log++[entry]) entry.toState := by
  induction log generalizing source with
  | nil => exact ⟨hf.trans h.symm,hv,rfl⟩
  | cons first rest ih => exact ⟨h.1,h.2.1,ih h.2.2⟩

structure Consistent (reg : Registry) : Prop where
  log : ∀ fp record, reg.lookup fp=some record →
    Path .pending record.transitionLog record.state
  revoked : ∀ fp, fp ∈ reg.revoked ↔
    ∃ record, reg.lookup fp=some record ∧ record.state=.revoked

section
variable {operation : Operation} {reg reg' mid : Registry} {moves : List Move} {fp : Bytes}
  {record record' : WriterRecord}

theorem Consistent.of_writes (h : Consistent reg) (hw : reg.Writes reg' fp record)
    (hl : Path .pending record.transitionLog record.state)
    (hs : fp ∈ reg.revoked ↔ record.state=.revoked) : Consistent reg' := by
  refine ⟨fun other found hf => ?_,fun other => ?_⟩
  · rw [hw.lookup] at hf
    split_ifs at hf with ho
    · cases hf
      exact hl
    · exact h.log other found hf
  · rw [hw.revoked,hw.lookup]
    split_ifs with ho
    · subst ho
      simpa using hs
    · exact h.revoked other

theorem Consistent.notMem_revoked (h : Consistent reg) (hl : reg.lookup fp=some record)
    (hs : record.state≠.revoked) : fp ∉ reg.revoked := by
  rw [h.revoked]
  rintro ⟨found,hf,hr⟩
  rw [hl] at hf
  cases hf
  exact hs hr

theorem Consistent.path_of_moves (h : Consistent reg) (hm : reg.Moves reg' fp record record') :
    Path .pending record'.transitionLog record'.state := by
  obtain ⟨entry,hl,hf,hto⟩ := hm.log
  rw [hl,← hto]
  refine (h.log fp record hm.lookup).snoc hf ?_
  rw [hf,hto]
  exact hm.valid

theorem ne_revoked_of_valid {source target : WriterState}
    (h : (source,target) ∈ validWriterTransitions) : source≠.revoked := by
  rintro rfl
  revert h
  cases target <;> decide

theorem ne_revoked_of_takes {source target : WriterState} (h : operation.Takes source target) :
    target≠.revoked := by
  rintro rfl
  cases operation <;> simp [Operation.Takes] at h

theorem Step.consistent (hs : Step operation reg reg' moves) (h : Consistent reg) :
    Consistent reg' := by
  cases hs with
  | stay => exact h
  | enroll hn hr hp hlo hw =>
    refine h.of_writes hw ?_ ?_
    · rw [hlo,hp]
      rfl
    · simp [hr,hp]
  | edit hl hst hlo hw =>
    refine h.of_writes hw ?_ ?_
    · rw [hlo,hst]
      exact h.log _ _ hl
    · rw [h.revoked,hl,hst]
      simp
  | move hm ht =>
    refine h.of_writes hm.writes (h.path_of_moves hm) ?_
    have hb := h.notMem_revoked hm.lookup (ne_revoked_of_valid hm.valid)
    exact iff_of_false hb (ne_revoked_of_takes ht)
  | @revoke mid fp record record' hm hop hst =>
    refine ⟨fun other found hf => ?_,fun other => ?_⟩
    · have hl : mid.lookup other=some found := hf
      rw [hm.writes.lookup] at hl
      split_ifs at hl with ho
      · cases hl
        exact h.path_of_moves hm
      · exact h.log other found hl
    · change other ∈ insert fp mid.revoked ↔ ∃ r, mid.lookup other=some r ∧ r.state=.revoked
      rw [Finset.mem_insert,hm.writes.revoked,hm.writes.lookup,h.revoked]
      split_ifs with ho
      · subst ho
        simp [hst]
      · simp [Ne.symm ho]

theorem Step.revoked_subset (hs : Step operation reg reg' moves) : reg.revoked ⊆ reg'.revoked := by
  cases hs with
  | stay => exact subset_rfl
  | enroll _ _ _ _ hw => exact hw.revoked.ge
  | edit _ _ _ hw => exact hw.revoked.ge
  | move hm _ => exact hm.writes.revoked.ge
  | revoke hm _ _ =>
    exact hm.writes.revoked.ge.trans (Finset.subset_insert _ _)

theorem Steps.consistent (hs : Steps operation reg reg' moves) (h : Consistent reg) :
    Consistent reg' := by
  induction hs with
  | nil => exact h
  | cons hst _ ih => exact ih (hst.consistent h)

theorem Steps.revoked_subset (hs : Steps operation reg reg' moves) :
    reg.revoked ⊆ reg'.revoked := by
  induction hs with
  | nil => exact subset_rfl
  | cons hst _ ih => exact hst.revoked_subset.trans ih

theorem consistent_init (config : RegistryConfig) : Consistent (Registry.init config) := by
  refine ⟨fun fp record h => ?_,fun fp => ?_⟩
  · cases h
  · simp [Registry.init,Registry.lookup]

theorem consistent_state (config : RegistryConfig) (inputs : List Input) :
    Consistent ((machine config).state inputs) :=
  Machine.invariant
    (consistent_init config) (fun reg _ input h => (step_steps reg input).consistent h) inputs

theorem enroll_of_revoked {identity : WriterIdentity} (h : identity.fingerprint ∈ reg.revoked)
    (timestamp : ℤ) : ∃ m, reg.enroll identity timestamp=.error (.valueError m) :=
  ⟨_,if_pos h⟩

/-- In every run the log of a writer is a path from `PENDING` to its state, the revoked set has
the writers in the state `REVOKED`, and whoever is in it stays there and cannot enroll. -/
theorem logs_and_revocations_agree (config : RegistryConfig) (inputs more : List Input) :
    let reg := (machine config).state inputs
    let later := (machine config).state (inputs++more)
    (∀ fp record, reg.lookup fp=some record → Path .pending record.transitionLog record.state) ∧
      (∀ fp, fp ∈ reg.revoked ↔ ∃ record, reg.lookup fp=some record ∧ record.state=.revoked) ∧
      ∀ fp record, reg.lookup fp=some record → record.state=.revoked →
        (∃ record, later.lookup fp=some record ∧ record.state=.revoked) ∧
        ∀ identity timestamp, identity.fingerprint=fp →
          ∃ message, later.enroll identity timestamp=.error (.valueError message) := by
  have hn := consistent_state config inputs
  have hl := consistent_state config (inputs++more)
  refine ⟨hn.log,hn.revoked,fun fp record hlo hr => ?_⟩
  have hk : fp ∈ ((machine config).state (inputs++more)).revoked :=
    Machine.persists (M := machine config) (C := fun _ _ => True)
      (fun reg input hm _ => (step_steps reg input).revoked_subset hm)
      ((hn.revoked fp).mpr ⟨record,hlo,hr⟩) more fun _ _ _ _ => trivial
  refine ⟨(hl.revoked fp).mp hk,fun identity timestamp hi => ?_⟩
  rw [← hi] at hk
  exact enroll_of_revoked hk timestamp

end

/-- Whoever may transact was approved or sponsored, and only `reinstate` lifts a suspension. -/
structure Sanctioned (reg : Registry) (moves : List Move) : Prop where
  approved : ∀ fp record, reg.lookup fp=some record → record.state ∈ transactableStates →
    ∃ move ∈ moves, move.fingerprint=fp ∧
      (move.operation=.approve ∨ move.operation=.sponsor)
  reinstated : ∀ move ∈ moves, move.source=.suspended → move.target ∈ transactableStates →
    move.operation=.reinstate

/-- The operations that do not look at the state are used in the states they are for. -/
def Orderly (reg : Registry) : Input → Prop
  | .promote fingerprint _ | .renew fingerprint _ _ =>
    ∀ record ∈ reg.lookup fingerprint, record.state≠.pending ∧ record.state≠.suspended
  | .reinstate fingerprint _ _ => ∀ record ∈ reg.lookup fingerprint, record.state≠.pending
  | _ => True

def Move.Orderly (move : Move) : Prop :=
  (move.operation=.promote ∨ move.operation=.renew →
    move.source≠.pending ∧ move.source≠.suspended) ∧
  (move.operation=.reinstate → move.source≠.pending)

section
variable {operation : Operation} {reg reg' : Registry} {moves before : List Move} {fp : Bytes}
  {record record' : WriterRecord}

def LeftPending (reg : Registry) (moves : List Move) : Prop :=
  ∀ move ∈ moves, ∃ record, reg.lookup move.fingerprint=some record ∧ record.state≠.pending

theorem ne_pending_of_valid {source target : WriterState}
    (h : (source,target) ∈ validWriterTransitions) : target≠.pending := by
  rintro rfl
  revert h
  cases source <;> decide

theorem LeftPending.of_writes (h : LeftPending reg before) (hw : reg.Writes reg' fp record')
    (hs : ∀ record, reg.lookup fp=some record → record.state≠.pending →
      record'.state≠.pending) : LeftPending reg' before := by
  intro move hm
  obtain ⟨record,hlo,hl⟩ := h move hm
  rw [hw.lookup]
  split_ifs with hfp
  · subst hfp
    exact ⟨record',rfl,hs record hlo hl⟩
  · exact ⟨record,hlo,hl⟩

theorem LeftPending.of_moves (h : LeftPending reg before) (hmo : reg.Moves reg' fp record record') :
    LeftPending reg' (before++[⟨operation,fp,record.state,record'.state⟩]) := by
  have hl := ne_pending_of_valid hmo.valid
  intro move hm
  rcases mem_append.mp hm with ho|hn
  · exact h.of_writes hmo.writes (fun _ _ _ => hl) move ho
  · rw [mem_singleton.mp hn]
    exact ⟨record',hmo.writes.lookup_self,hl⟩

theorem Step.leftPending (hs : Step operation reg reg' moves) (h : LeftPending reg before) :
    LeftPending reg' (before++moves) := by
  cases hs with
  | stay => rwa [append_nil]
  | enroll hn _ _ _ hw =>
    rw [append_nil]
    refine h.of_writes hw fun record hlo => ?_
    rw [hn] at hlo
    cases hlo
  | edit hlo hst _ hw =>
    rw [append_nil]
    refine h.of_writes hw fun record hf hl => ?_
    rw [hlo] at hf
    cases hf
    rwa [hst]
  | move hm _ => exact h.of_moves hm
  | @revoke mid fp record record' hm _ _ =>
    have hmi : LeftPending mid (before++[⟨operation,fp,record.state,record'.state⟩]) :=
      h.of_moves hm
    exact hmi

theorem Steps.leftPending (hs : Steps operation reg reg' moves) (h : LeftPending reg before) :
    LeftPending reg' (before++moves) := by
  induction hs generalizing before with
  | nil => rwa [append_nil]
  | cons hst _ ih =>
    rw [← append_assoc]
    exact ih (hst.leftPending h)

structure Vetted (reg : Registry) (moves : List Move) : Prop where
  approved : ∀ fp record, reg.lookup fp=some record → record.state≠.pending →
    record.state≠.revoked → ∃ move ∈ moves, move.fingerprint=fp ∧
      (move.operation=.approve ∨ move.operation=.sponsor)
  reinstated : ∀ move ∈ moves, move.source=.suspended → move.target ∈ transactableStates →
    move.operation=.reinstate

theorem Vetted.sanctioned (h : Vetted reg moves) : Sanctioned reg moves := by
  refine ⟨fun fp record hl ha => h.approved fp record hl ?_ ?_,h.reinstated⟩
  · rintro hp
    rw [hp] at ha
    revert ha
    decide
  · rintro hr
    rw [hr] at ha
    revert ha
    decide

theorem Vetted.of_writes (h : Vetted reg before) (hw : reg.Writes reg' fp record')
    (hst : record'.state≠.pending → ∃ record, reg.lookup fp=some record ∧
      record.state=record'.state) : Vetted reg' before := by
  refine ⟨fun other found hf hp hr => ?_,h.reinstated⟩
  rw [hw.lookup] at hf
  split_ifs at hf with ho
  · subst ho
    cases hf
    obtain ⟨record,hl,hs⟩ := hst hp
    exact h.approved fp record hl (hs ▸ hp) (hs ▸ hr)
  · exact h.approved other found hf hp hr

theorem Vetted.of_moves (h : Vetted reg before) (hmo : reg.Moves reg' fp record record')
    (ha : record'.state≠.revoked → record.state≠.pending ∨ operation=.approve ∨ operation=.sponsor)
    (hr : record.state=.suspended → record'.state ∈ transactableStates → operation=.reinstate) :
    Vetted reg' (before++[⟨operation,fp,record.state,record'.state⟩]) := by
  refine ⟨fun other found hf hp hre => ?_,fun move hm => ?_⟩
  · rw [hmo.writes.lookup] at hf
    split_ifs at hf with ho
    · subst ho
      cases hf
      rcases ha hre with hl|hop
      · obtain ⟨move,hm,hw⟩ :=
          h.approved fp record hmo.lookup hl (ne_revoked_of_valid hmo.valid)
        exact ⟨move,mem_append_left _ hm,hw⟩
      · exact ⟨_,mem_append_right _ mem_cons_self,rfl,hop⟩
    · obtain ⟨move,hm,hw⟩ := h.approved other found hf hp hre
      exact ⟨move,mem_append_left _ hm,hw⟩
  · rcases mem_append.mp hm with hol|hn
    · exact h.reinstated move hol
    · rw [mem_singleton.mp hn]
      exact hr

theorem Operation.Takes.approved {source target : WriterState}
    (h : operation.Takes source target) (hv : (source,target) ∈ validWriterTransitions)
    (ho : Move.Orderly ⟨operation,fp,source,target⟩) :
    source≠.pending ∨ operation=.approve ∨ operation=.sponsor := by
  cases operation with
  | approve => exact .inr (.inl rfl)
  | sponsor => exact .inr (.inr rfl)
  | promote => exact .inl (ho.1 (.inl rfl)).1
  | renew => exact .inl (ho.1 (.inr rfl)).1
  | reinstate => exact .inl (ho.2 rfl)
  | suspend =>
    obtain rfl : target=.suspended := h
    refine .inl fun hp => ?_
    subst hp
    revert hv
    decide
  | expire => exact .inl fun hp => by cases hp.symm.trans h.1
  | _ => exact absurd h id

theorem Operation.Takes.reinstated {target : WriterState} (h : operation.Takes .suspended target)
    (ho : Move.Orderly ⟨operation,fp,.suspended,target⟩)
    (ha : target ∈ transactableStates) : operation=.reinstate := by
  cases operation with
  | approve => cases h.1
  | sponsor => cases h.1
  | promote => exact absurd rfl (ho.1 (.inl rfl)).2
  | renew => exact absurd rfl (ho.1 (.inr rfl)).2
  | reinstate => rfl
  | suspend =>
    obtain rfl : target=.suspended := h
    exact absurd ha (by decide)
  | expire => cases h.1
  | _ => exact absurd h id

theorem Step.vetted (hst : Step operation reg reg' moves) (ho : ∀ m ∈ moves, m.Orderly)
    (h : Vetted reg before) : Vetted reg' (before++moves) := by
  cases hst with
  | stay => rwa [append_nil]
  | enroll _ _ hp _ hw =>
    rw [append_nil]
    exact h.of_writes hw fun hl => absurd hp hl
  | edit hlo hsta _ hw =>
    rw [append_nil]
    exact h.of_writes hw fun _ => ⟨_,hlo,hsta.symm⟩
  | @move reg' fp record record' hmo ht =>
    have hm := ho _ mem_cons_self
    refine h.of_moves hmo (fun _ => ht.approved hmo.valid hm) ?_
    intro hs ha
    rw [hs] at ht hm
    exact ht.reinstated hm ha
  | @revoke mid fp record record' hmo hop hsta =>
    have hmi : Vetted mid (before++[⟨operation,fp,record.state,record'.state⟩]) := by
      refine h.of_moves hmo (fun hne => absurd hsta hne) fun _ ha => ?_
      rw [hsta] at ha
      exact absurd ha (by decide)
    exact ⟨hmi.approved,hmi.reinstated⟩

theorem Steps.vetted (hs : Steps operation reg reg' moves)
    (ho : ∀ m ∈ moves, m.Orderly) (h : Vetted reg before) : Vetted reg' (before++moves) := by
  induction hs generalizing before with
  | nil => rwa [append_nil]
  | cons hst _ ih =>
    obtain ⟨hf,hr⟩ := forall_mem_append.mp ho
    rw [← append_assoc]
    exact ih hr (hst.vetted hf h)

theorem Steps.operation_eq (hs : Steps operation reg reg' moves) :
    ∀ m ∈ moves, m.operation=operation := by
  induction hs with
  | nil => exact forall_mem_nil _
  | cons hst _ ih =>
    refine forall_mem_append.mpr ⟨?_,ih⟩
    cases hst with
    | stay | enroll _ _ _ _ _ | edit _ _ _ _ => exact forall_mem_nil _
    | move _ _ | revoke _ _ _ => exact forall_mem_singleton.mpr rfl

variable {input : Input}

theorem moves_of_writer (h : input.writer=some fp) :
    input.moves reg reg'=(moveOf input.operation reg reg' fp).toList := by
  have hb : (input.writer.bind (moveOf input.operation reg reg')).toList =
      (moveOf input.operation reg reg' fp).toList := by
    rw [h]
    rfl
  cases input with
  | checkExpirations epoch => cases h
  | _ => exact hb

theorem source_of_mem_step (hw : input.writer=some fp) {m : Move} (h : m ∈ (step reg input).2) :
    ∃ record, reg.lookup fp=some record ∧ m.source=record.state := by
  rw [step] at h
  cases hc : input.call reg with
  | error e =>
    rw [hc] at h
    cases h
  | ok reg' =>
    rw [hc] at h
    dsimp only at h
    rw [moves_of_writer hw,Option.mem_toList,moveOf] at h
    split at h
    · next old new ho hn =>
      split_ifs at h
      cases h
      exact ⟨old,ho,rfl⟩
    · cases h

theorem moves_orderly (h : Orderly reg input) : ∀ m ∈ (step reg input).2, m.Orderly := by
  intro m hm
  have ho := (step_steps reg input).operation_eq m hm
  rw [Move.Orderly,ho]
  cases input with
  | promote fp timestamp | renew fp actorFp timestamp =>
    obtain ⟨record,hl,hs⟩ := source_of_mem_step rfl hm
    rw [hs]
    exact ⟨fun _ => h record hl,by simp [Input.operation]⟩
  | reinstate fp actorFp timestamp =>
    obtain ⟨record,hl,hs⟩ := source_of_mem_step rfl hm
    rw [hs]
    exact ⟨by simp [Input.operation],fun _ => h record hl⟩
  | _ => simp [Input.operation]

theorem Sanctioned.source (hw : input.writer=some fp) (hl : LeftPending reg before)
    (h : Sanctioned (step reg input).1 (before++(step reg input).2))
    (hc : input.call reg=.ok reg') (hmo : reg.Moves reg' fp record record')
    (ha : record'.state=.active) :
    (input.operation≠.approve → input.operation≠.sponsor → record.state≠.pending) ∧
      (input.operation≠.reinstate → record.state≠.suspended) := by
  have hst : step reg input=(reg',[⟨input.operation,fp,record.state,.active⟩]) := by
    rw [step,hc]
    dsimp only
    rw [moves_of_writer hw,moveOf_of_moves hmo,ha]
    rfl
  rw [hst] at h
  constructor
  · intro hap hs hp
    obtain ⟨move,hm,hfp,ho⟩ := h.approved fp record' hmo.writes.lookup_self
      (by rw [ha]; decide)
    rcases mem_append.mp hm with hol|hn
    · obtain ⟨found,hf,hne⟩ := hl move hol
      rw [hfp,hmo.lookup] at hf
      cases hf
      exact hne hp
    · rw [mem_singleton.mp hn] at ho
      exact ho.elim hap hs
  · intro hr hsu
    have ha : WriterState.active ∈ transactableStates := by decide
    exact hr
      (h.reinstated _ (mem_append_right _ mem_cons_self) hsu ha)

theorem valid_active_of_pending_or_suspended {state : WriterState}
    (h : state=.pending ∨ state=.suspended) : (state,.active) ∈ validWriterTransitions := by
  rcases h with rfl|rfl <;> decide

theorem Sanctioned.orderly (hl : LeftPending reg before)
    (h : Sanctioned (step reg input).1 (before++(step reg input).2)) : Orderly reg input := by
  cases input with
  | promote fp timestamp =>
    intro record hlo
    by_contra hst
    have hv := valid_active_of_pending_or_suspended (or_iff_not_and_not.mpr hst)
    obtain ⟨reg',hc⟩ : ∃ reg', reg.promote fp timestamp=.ok reg' :=
      Registry.promote_of_valid hlo hv
    obtain ⟨found,record',hm,ha⟩ := Registry.promote_ok hc
    cases hlo.symm.trans hm.lookup
    have hs := h.source rfl hl hc hm ha
    exact hst ⟨hs.1 nofun nofun,hs.2 nofun⟩
  | renew fp actorFp timestamp =>
    intro record hlo
    by_contra hst
    have hv := valid_active_of_pending_or_suspended (or_iff_not_and_not.mpr hst)
    obtain ⟨reg',hc⟩ : ∃ reg', reg.renew fp actorFp timestamp=.ok reg' :=
      Registry.transition_of_valid hlo hv
    obtain ⟨found,record',hm,ha⟩ := Registry.transition_ok hc
    cases hlo.symm.trans hm.lookup
    have hs := h.source rfl hl hc hm ha
    exact hst ⟨hs.1 nofun nofun,hs.2 nofun⟩
  | reinstate fp actorFp timestamp =>
    intro record hlo hp
    have hv := valid_active_of_pending_or_suspended (.inl hp)
    obtain ⟨reg',hc⟩ : ∃ reg', reg.reinstate fp actorFp timestamp=.ok reg' :=
      Registry.reinstate_of_valid hlo hv
    obtain ⟨found,record',hm,ha⟩ := Registry.reinstate_ok hc
    cases hlo.symm.trans hm.lookup
    exact (h.source rfl hl hc hm ha).1 nofun nofun hp
  | _ => trivial

/-- In every state of a run whoever may transact was approved or sponsored before, and every
suspension that ended was lifted by `reinstate`, exactly if the run is orderly. -/
theorem sanctioned_iff_orderly (config : RegistryConfig) (inputs : List Input) :
    (∀ before, before <+: inputs →
        Sanctioned ((machine config).state before) ((machine config).outputs before)) ↔
      (machine config).Meets Orderly inputs := by
  refine Machine.forall_prefix_iff_meets (J := LeftPending) (Q := Vetted) ?_ ?_ ?_
    (fun _ _ h => h.sanctioned) (fun reg moves input hl _ h => h.orderly hl) inputs
  · exact Machine.invariant (forall_mem_nil _)
      fun reg moves input h => (step_steps reg input).leftPending h
  · refine ⟨fun fp record hlo => ?_,forall_mem_nil _⟩
    cases hlo
  · exact fun reg moves input _ h ho =>
      (step_steps reg input).vetted (moves_orderly ho) h

end

section

def firstWriter : WriterIdentity := ⟨.mldsa,[1],some [1],none⟩

def promotedRun : List Input := [.enroll firstWriter 0,.promote [1] 1]

def renewedRun : List Input :=
  [.enroll firstWriter 0,.approve [1] [9] 1,.suspend [1] "abuse" [9] 2,.renew [1] [1] 3]

theorem promoted_and_renewed_not_sanctioned : ¬Sanctioned ((machine .standard).state promotedRun)
        ((machine .standard).outputs promotedRun) ∧
      ¬Sanctioned ((machine .standard).state renewedRun)
        ((machine .standard).outputs renewedRun) := by
  constructor
  · intro h
    have hs : (((machine .standard).state promotedRun).lookup [1]).map WriterRecord.state =
        some .active := by decide
    have hmo : ∀ move ∈ (machine .standard).outputs promotedRun,
        ¬(move.operation=.approve ∨ move.operation=.sponsor) := by decide
    obtain ⟨record,hl,ha⟩ := Option.map_eq_some_iff.mp hs
    obtain ⟨move,hm,-,ho⟩ := h.approved [1] record hl (ha ▸ by decide)
    exact hmo move hm ho
  · intro h
    have hm : ⟨.renew,[1],.suspended,.active⟩ ∈
        (machine .standard).outputs renewedRun := by decide
    cases h.reinstated _ hm rfl (by decide)

end

section
open Registry

/-- A renewal leaves the end of the credential as it was. -/
theorem mem_toExpire_of_renew {reg reg' : Registry} {fp actorFp : Bytes} {timestamp : ℤ}
    (h : reg.renew fp actorFp timestamp=.ok reg') (epoch : ℤ) : fp ∈ reg'.toExpire epoch ↔
      ∃ record, reg.lookup fp=some record ∧ Lapsed epoch record := by
  obtain ⟨record,hr,h⟩ := bind_ok h
  have hl := getOrRaise_ok hr
  split at h
  · cases h
  · cases h
    have hk : record.identity.fingerprint=fp := reg.keyed _ _ hl
    simp [mem_toExpire,lookup_put,WriterRecord.moved,Lapsed,hk,hl]

/-- After a check the only writers that can transact with a lapsed credential are those on
probation, and a renewed writer is due at once if its credential had lapsed. -/
theorem lapsed_after_check_iff (config : RegistryConfig) (inputs : List Input)
    (currentEpoch : ℤ) :
    let reg := (machine config).state inputs
    (∃ reg', reg.checkExpirations currentEpoch=.ok (reg.toExpire currentEpoch,reg') ∧
      ((∃ fp record, reg'.lookup fp=some record ∧ record.canTransact=true ∧
          Lapsed currentEpoch record) ↔
        ∃ fp record, reg.lookup fp=some record ∧ record.state=.probation ∧
          Lapsed currentEpoch record)) ∧
    ∀ fp actorFp timestamp reg', reg.renew fp actorFp timestamp=.ok reg' →
      (fp ∈ reg'.toExpire currentEpoch ↔
        ∃ record, reg.lookup fp=some record ∧ Lapsed currentEpoch record) := by
  intro reg
  obtain ⟨reg',hc,-,ha⟩ := checkExpirations_steps reg currentEpoch
  refine ⟨⟨reg',hc,?_,?_⟩,fun fp actorFp timestamp reg' h => mem_toExpire_of_renew h _⟩
  · rintro ⟨fp,record,hlo,hca,hl⟩
    have hfp := ha fp
    split_ifs at hfp with hd
    · rw [hlo,Option.map_some,Option.some.injEq] at hfp
      simp [WriterRecord.canTransact,transactableStates,hfp] at hca
    · rw [hlo] at hfp
      refine ⟨fp,record,hfp.symm,?_,hl⟩
      have hs : record.state=.active ∨ record.state=.probation := by
        simpa [WriterRecord.canTransact,transactableStates] using hca
      refine hs.resolve_left fun hac => hd ?_
      exact mem_toExpire.mpr ⟨record,hfp.symm,hac,hl⟩
  · rintro ⟨fp,record,hlo,hs,hl⟩
    have hfp := ha fp
    rw [if_neg] at hfp
    · refine ⟨fp,record,hfp.trans hlo,?_,hl⟩
      simp [WriterRecord.canTransact,transactableStates,hs]
    · intro hd
      obtain ⟨found,hf,hac,-⟩ := mem_toExpire.mp hd
      rw [hlo] at hf
      rw [← Option.some.inj hf,hs] at hac
      cases hac

def secondWriter : WriterIdentity := ⟨.mldsa,[2],some [2],none⟩

def lapsedRun : List Input :=
  [.enroll firstWriter 0,.approve [1] [9] 1,.enroll secondWriter 2,.sponsor [2] [1] 3,
    .setExpiresAt [1] (some 5),.setExpiresAt [2] (some 5),.checkExpirations 5,
    .renew [1] [1] 5,.checkExpirations 5]

theorem lapsedRun_probation_kept_renewal_expired :
    let reg := (machine ⟨1,10,RegistryConfig.standard.probationModifiers⟩).state lapsedRun
    (reg.lookup [2]).map (fun record => (record.state,record.expiresAt)) =
        some (.probation,some 5) ∧
      (reg.lookup [1]).map WriterRecord.state=some .expired := by decide +kernel

end

end LatticeTransfer.WriterRegistry
