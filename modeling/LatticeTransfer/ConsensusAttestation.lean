import LatticeTransfer.ConsensusBatches
import LatticeTransfer.DkgCeremony

/-!
# Attested batches

`DagBftAdapter` together with the parts of `CommitteeManager`, `EpochManager` and
`CommitteeSync` that decide which keys it signs with. A committed batch is signed by
the first keys of the epoch, as many as the quorum of the validator set; the keys
share a polynomial whose degree depends on the threshold of the policy. The two
numbers are chosen independently, and a restarted adapter may hold keys of an
earlier epoch: `Signable` says when the signature of a decision verifies.
-/

namespace LatticeTransfer.ConsensusAttestation
open PyValue ScalarField ScalarPoly ShamirSharing Backend ConsensusDag ConsensusBatches Dkg List
open ThresholdSigning

def domainConsensusAck : Bytes := "ETP-CONSENSUS-ACK:v1".toUTF8.data.toList

inductive EpochStrategy
  | roundCount
  | timeBased
  | manual
deriving DecidableEq

structure CommitteePolicy where
  vmTag : ℕ
  epochStrategy : EpochStrategy
  epochLength : ℤ
  epochDurationMs : ℤ
  dkgThreshold : ℕ
  dkgTimeoutRounds : ℕ

abbrev Members := {l : PyList Bytes // l.val.Nodup}

structure Roster where
  epoch : ℕ
  activeMembers : List Bytes

structure Manager where
  currentEpoch : ℕ
  epochStartRound : ℤ
  epochStartTs : ℤ
  roster : Option Roster
  dkgRegistry : Dict ℕ Result
  signingKeys : Dict ℕ (List ThresholdSigningKey)

structure ValidatorSet where
  epoch : ℕ
  size : ℕ

def ValidatorSet.fromRoster (roster : Roster) : ValidatorSet :=
  ⟨roster.epoch,roster.activeMembers.length⟩

def ValidatorSet.quorumThreshold (vs : ValidatorSet) : ℕ := 2*((vs.size-1) / 3)+1

structure Adapter where
  syncEpoch : ℕ
  syncValidatorSet : Option ValidatorSet
  validatorSet : Option ValidatorSet
  signingKeys : Option (List ThresholdSigningKey)
  currentEpoch : ℕ

structure State where
  manager : Manager
  adapter : Adapter

structure AttestEvent where
  epoch : ℕ
  round : ℕ
  timestampMs : ℤ
  batchDigest : Bytes
  signature : Bytes

structure Attestation where
  event : AttestEvent
  batchBytes : Bytes

inductive Input (policy : CommitteePolicy)
  | managerTick (round timestampMs : ℤ) (members : Members)
      (draws : Bytes → Dealing policy.dkgThreshold)
  | forceAdvance (timestampMs : ℤ) (members : Members)
  | evict (fp : Bytes) (backfill : Option Bytes)
  | construct
  | start
  | tick
  | decide (decision : CommitDecision)

section
variable {G₁ G₂ G₃ : Type} [AddCommGroup G₁] [Module (ZMod R) G₁] [AddCommGroup G₂]
  [Module (ZMod R) G₂] [AddCommGroup G₃] [Module (ZMod R) G₃] [DecidableEq G₁]
  (B : Backend G₁ G₂ G₃) (sha3 : Bytes → Bytes) (policy : CommitteePolicy)

namespace Manager

def init : Manager := ⟨0,0,0,none,Dict.empty,Dict.empty⟩

def advance (m : Manager) (round timestampMs : ℤ) (members : Members) : Manager :=
  {m with
    currentEpoch := m.currentEpoch+1
    roster := some ⟨m.currentEpoch+1,members.val.val⟩
    epochStartRound := round
    epochStartTs := timestampMs}

/-- `check_advance`; the first call of the time-based strategy advances without saying so. -/
def checkAdvance (m : Manager) (round timestampMs : ℤ) (members : Members) : Bool × Manager :=
  match policy.epochStrategy with
  | .manual => (false,m)
  | .roundCount =>
    if round-m.epochStartRound<policy.epochLength then (false,m)
    else (true,m.advance round timestampMs members)
  | .timeBased =>
    if m.epochStartTs=0 ∧ m.currentEpoch=0 then (false,m.advance round timestampMs members)
    else if timestampMs-m.epochStartTs<policy.epochDurationMs then (false,m)
    else (true,m.advance round timestampMs members)

def dkgConfig (m : Manager) (members : Members) : SessionConfig where
  vmTag := policy.vmTag
  epoch := m.currentEpoch
  threshold := policy.dkgThreshold
  participants := members.val
  timeoutRounds := policy.dkgTimeoutRounds
  startRound := 0

def storeKeys (m : Manager) (outcomes : List (Result × ThresholdSigningKey)) :
    Except PyError Manager :=
  match outcomes.getLast? with
  | none => .error .nameError
  | some (result,_) =>
    if (m.dkgRegistry.get? result.epoch).isSome then
      let epoch := result.epoch
      .error (.valueError s!"epoch {epoch} already has a group key")
    else if result.vmTag≠policy.vmTag then
      let found := result.vmTag
      let expected := policy.vmTag
      .error (.valueError s!"vm_tag mismatch: {found} != {expected}")
    else .ok {m with
      dkgRegistry := m.dkgRegistry.set result.epoch result
      signingKeys := m.signingKeys.set m.currentEpoch (outcomes.map Prod.snd)}

def runCeremony (m : Manager) (members : Members) (draws : Bytes → Dealing policy.dkgThreshold) :
    Except PyError Unit × Manager :=
  if members.val.val.length<policy.dkgThreshold then (.ok (),m)
  else
    match prepareSessions B (m.dkgConfig policy members) draws with
    | .error e => (.error e,m)
    | .ok sessions =>
      match (finalizeAll B sessions).bind (m.storeKeys policy) with
      | .ok m' => (.ok (),m')
      | .error (.valueError _) => (.ok (),m)
      | .error .keyError => (.ok (),m)
      | .error e => (.error e,m)

def tick (m : Manager) (round timestampMs : ℤ) (members : Members)
    (draws : Bytes → Dealing policy.dkgThreshold) : Except PyError Bool × Manager :=
  let (advanced,m) := m.checkAdvance policy round timestampMs members
  if advanced ∧ 0<policy.dkgThreshold then
    let (outcome,m) := m.runCeremony B policy members draws
    (outcome.map fun _ => advanced,m)
  else (.ok advanced,m)

def evict (m : Manager) (fp : Bytes) (backfill : Option Bytes) : Manager :=
  { m with roster := m.roster.map fun r =>
    {r with activeMembers := r.activeMembers.erase fp++backfill.toList}}

end Manager

namespace Adapter

def construct (m : Manager) : Adapter := ⟨m.currentEpoch,none,none,none,m.currentEpoch⟩

def takeKeys (a : Adapter) (m : Manager) (epoch : ℕ) : Adapter :=
  match m.signingKeys.get? epoch with
  | some (k::ks) => {a with signingKeys := some (k::ks)}
  | _ => a

def start (a : Adapter) (m : Manager) : Except PyError Adapter :=
  match m.roster with
  | none => .error (.runtimeError "No roster available — cannot start adapter")
  | some roster =>
    let vs := ValidatorSet.fromRoster roster
    let a := {a with
      validatorSet := some vs
      syncValidatorSet := some vs
      currentEpoch := m.currentEpoch}
    .ok (if (m.dkgRegistry.get? m.currentEpoch).isSome then a.takeKeys m m.currentEpoch else a)

def handleEpochTransition (a : Adapter) (m : Manager) (newEpoch : ℕ) : Adapter :=
  let a := {a with currentEpoch := newEpoch,validatorSet := a.syncValidatorSet}
  if a.validatorSet.isNone then a
  else if (m.dkgRegistry.get? newEpoch).isSome then a.takeKeys m newEpoch
  else {a with signingKeys := none}

def tick (a : Adapter) (m : Manager) : Adapter :=
  if m.currentEpoch≤a.syncEpoch then a
  else
    let a := {a with syncEpoch := m.currentEpoch}
    let a := match m.roster with
      | none => a
      | some roster => {a with syncValidatorSet := some (ValidatorSet.fromRoster roster)}
    a.handleEpochTransition m m.currentEpoch

end Adapter

def intToBytes (w n : ℕ) : Except PyError Bytes :=
  if n<256^w then .ok (toBigEndian w n) else .error .overflowError

def serializeBatch (batch : OrderedBatch) : Except PyError Bytes := do
  let round ← intToBytes 8 batch.round
  let epoch ← intToBytes 8 batch.epoch
  let count ← intToBytes 4 batch.transactions.length
  let transactions ← batch.transactions.mapM fun tx => do
    return (← intToBytes 4 tx.length)++tx
  return sha3 (round++epoch++count++transactions.flatten)

def aggregateAcks (keys : List ThresholdSigningKey) (vs : ValidatorSet) (cert : Certificate) :
    Except PyError (Option Bytes) :=
  let partials := (sorted (· ≤ ·) cert.signers).filterMap fun signer =>
    keys[signer]?.map fun k => partialSign B k (cert.digest sha3) domainConsensusAck
  if vs.quorumThreshold≤partials.length then
    (combinePartialSignatures B partials vs.quorumThreshold).map some
  else .ok none

def signDecision (epoch : ℕ) (keys : List ThresholdSigningKey) (vs : ValidatorSet)
    (decision : CommitDecision) (batch : OrderedBatch) : Except PyError (List Attestation) := do
  let _ ← aggregateAcks B sha3 keys vs decision.leaderCertificate
  let batchBytes ← serializeBatch sha3 batch
  let threshold := vs.quorumThreshold
  let partials := (keys.take threshold).map fun k => partialSign B k batchBytes domainAttestation
  if threshold≤partials.length then
    let signature ← combinePartialSignatures B partials threshold
    return [⟨⟨epoch,batch.round,batch.timestampMs,sha3 batchBytes,signature⟩,batchBytes⟩]
  else return []

def processDecision (a : Adapter) (decision : CommitDecision) : Except PyError (List Attestation) :=
  match a.signingKeys, a.validatorSet with
  | some keys, some vs =>
    signDecision B sha3 a.currentEpoch keys vs decision (toOrderedBatch decision a.currentEpoch)
  | _, _ => .ok []

def step (s : State) : Input policy → State × List Attestation
  | .managerTick round timestampMs members draws =>
    ({s with manager := (s.manager.tick B policy round timestampMs members draws).2},[])
  | .forceAdvance timestampMs members =>
    ({s with manager := s.manager.advance 0 timestampMs members},[])
  | .evict fp backfill => ({s with manager := s.manager.evict fp backfill},[])
  | .construct => ({s with adapter := Adapter.construct s.manager},[])
  | .start =>
    match s.adapter.start s.manager with
    | .error _ => (s,[])
    | .ok a => ({s with adapter := a},[])
  | .tick => ({s with adapter := s.adapter.tick s.manager},[])
  | .decide decision =>
    match processDecision B sha3 s.adapter decision with
    | .error _ => (s,[])
    | .ok attested => (s,attested)

def machine : Machine State (Input policy) Attestation :=
  ⟨⟨Manager.init,Adapter.construct Manager.init⟩,step B sha3 policy⟩

/-- The keys of an epoch hold the shares of one polynomial, whose value at zero gives the group key
registered for the epoch. -/
structure IssuedBy (m : Manager) (epoch : ℕ) (keys : List ThresholdSigningKey)
    (f : Polynomial (ZMod R)) (result : Result) : Prop where
  degree : f.degree<policy.dkgThreshold
  holds : Holds f keys
  registered : m.dkgRegistry.get? epoch=some result
  groupPk : result.groupPk=B.g1Serialize (f.eval 0 • B.generator)
  key : ∀ k ∈ keys, k.epoch=epoch ∧ k.groupPk=result.groupPk

structure Manager.Valid (m : Manager) : Prop where
  issued : ∀ epoch keys, m.signingKeys.get? epoch=some keys →
    ∃ f result, IssuedBy B policy m epoch keys f result
  bounded : ∀ epoch result, m.dkgRegistry.get? epoch=some result → epoch ≤ m.currentEpoch

structure Manager.Extends (m m' : Manager) : Prop where
  dkgRegistry : ∀ epoch result, m.dkgRegistry.get? epoch=some result →
    m'.dkgRegistry.get? epoch=some result
  signingKeys : ∀ epoch keys, m.signingKeys.get? epoch=some keys →
    m'.signingKeys.get? epoch=some keys

def Manager.Enters (m entered : Manager) : Prop :=
  m.currentEpoch=entered.currentEpoch ∧ m.roster=entered.roster

/-- The first call of the time-based strategy. -/
def Manager.Silent (m : Manager) : Prop :=
  policy.epochStrategy=.timeBased ∧ m.epochStartTs=0 ∧ m.currentEpoch=0

theorem Manager.Extends.refl (m : Manager) : m.Extends m := ⟨fun _ _ h => h,fun _ _ h => h⟩

variable {B policy}

variable {m : Manager} {f : Polynomial (ZMod R)} {result : Result}

theorem IssuedBy.extend {m' : Manager} {epoch : ℕ} {keys : List ThresholdSigningKey}
    (h : IssuedBy B policy m epoch keys f result) (he : m.Extends m') :
    IssuedBy B policy m' epoch keys f result :=
  {h with registered := he.dkgRegistry _ _ h.registered}

theorem Manager.Valid.advance (h : m.Valid B policy) (round ms : ℤ) (members : Members) :
    (m.advance round ms members).Valid B policy :=
  ⟨fun epoch keys hk => (h.issued epoch keys hk).imp fun _ hf =>
      hf.imp fun _ hi => {hi with},
    fun epoch result hr => (h.bounded epoch result hr).trans (Nat.le_succ _)⟩

theorem Manager.Valid.storeKeys (h : m.Valid B policy) (hf : m.dkgRegistry.get? m.currentEpoch=none)
    {outcomes : List (Result × ThresholdSigningKey)} {key : ThresholdSigningKey}
    (hl : outcomes.getLast?=some (result,key)) (he : result.epoch=m.currentEpoch)
    (hvm : result.vmTag=policy.vmTag) (hd : f.degree<policy.dkgThreshold)
    (hh : Holds f (outcomes.map Prod.snd))
    (hpk : result.groupPk=B.g1Serialize (f.eval 0 • B.generator))
    (hk : ∀ k ∈ outcomes.map Prod.snd, k.epoch=m.currentEpoch ∧ k.groupPk=result.groupPk) :
    ∃ m', m.storeKeys policy outcomes=.ok m' ∧ m'.Valid B policy ∧ m.Extends m' ∧
      m'.Enters m ∧ m'.dkgRegistry.get? m.currentEpoch=some result := by
  have hex : m.Extends {m with
      dkgRegistry := m.dkgRegistry.set result.epoch result
      signingKeys := m.signingKeys.set m.currentEpoch (outcomes.map Prod.snd)} := by
    refine ⟨fun epoch r hr => ?_,fun epoch ks hks => ?_⟩
    · refine (Dict.get?_set_ne _ _ ?_).trans hr
      rintro rfl
      rw [he,hf] at hr
      cases hr
    · refine (Dict.get?_set_ne _ _ ?_).trans hks
      rintro rfl
      obtain ⟨_,_,hi⟩ := h.issued _ _ hks
      have hre := hi.registered
      rw [hf] at hre
      cases hre
  refine ⟨_,?_,⟨fun epoch ks hks => ?_,fun epoch r hr => ?_⟩,hex,⟨rfl,rfl⟩,?_⟩
  · rw [Manager.storeKeys,hl]
    dsimp only
    rw [he,hf,if_neg (by simp),if_neg (not_not.mpr hvm)]
  · rw [Dict.get?_set] at hks
    split_ifs at hks with hs
    · cases hks
      subst hs
      refine ⟨f,result,hd,hh,?_,hpk,hk⟩
      rw [he,Dict.get?_set_self]
    · obtain ⟨f',result',hi⟩ := h.issued epoch ks hks
      exact ⟨f',result',hi.extend hex⟩
  · rw [Dict.get?_set] at hr
    split_ifs at hr with hs
    · rw [← hs,he]
    · exact h.bounded epoch r hr
  · rw [← he,Dict.get?_set_self]

theorem Manager.Valid.runCeremony (h : m.Valid B policy)
    (hf : m.dkgRegistry.get? m.currentEpoch=none) (ht : 0<policy.dkgThreshold)
    (ms : Members) (draws : Bytes → Dealing policy.dkgThreshold) :
    (m.runCeremony B policy ms draws).1=.ok () ∧
      (m.runCeremony B policy ms draws).2.Valid B policy ∧
      m.Extends (m.runCeremony B policy ms draws).2 ∧ (m.runCeremony B policy ms draws).2.Enters m ∧
      (policy.dkgThreshold ≤ ms.val.val.length →
        ((m.runCeremony B policy ms draws).2.dkgRegistry.get? m.currentEpoch).isSome) := by
  rw [Manager.runCeremony]
  split_ifs with hsi
  · exact ⟨rfl,h,.refl m,⟨rfl,rfl⟩,fun hle => absurd hsi (not_lt.mpr hle)⟩
  · obtain ⟨sessions,outcome,hp,hfi,hou⟩ :=
      prepareSessions_ok B (m.dkgConfig policy ms) draws
        ms.property ht (not_lt.mp hsi)
    have hne : ms.val.val≠[] := ne_nil_of_length_pos (by omega)
    have hl : (ms.val.val.map outcome).getLast? =
        some (outcome (ms.val.val.getLast hne)) := by
      rw [getLast?_map,getLast?_eq_some_getLast hne]
      rfl
    have ha := hou _ (getLast_mem hne)
    have hke : ∀ k ∈ (ms.val.val.map outcome).map Prod.snd, k.epoch=m.currentEpoch ∧
        k.groupPk=(outcome (ms.val.val.getLast hne)).1.groupPk := by
      intro k hk
      obtain ⟨o,ho,rfl⟩ := mem_map.mp hk
      obtain ⟨fp,hfp,rfl⟩ := mem_map.mp ho
      have hfpo := hou fp hfp
      exact ⟨hfpo.epoch_key,hfpo.groupPk_key.trans (hfpo.groupPk.trans ha.groupPk.symm)⟩
    have hn : ((ms.val.val.map outcome).map Prod.snd).Nodup := by
      refine .of_map ThresholdSigningKey.participantFp ?_
      rw [map_map,map_map]
      refine (map_congr_left (g := id) fun fp hfp => ?_) ▸
        (map_id ms.val.val).symm ▸ ms.property
      exact (hou fp hfp).participantFp
    obtain ⟨m',hs,hv,he,hen,hr⟩ := h.storeKeys hf hl ha.epoch ha.vmTag
      (degree_groupPoly_lt (m.dkgConfig policy ms) draws)
      (holds_of_outcome B hou hn (.refl _)) ha.groupPk hke
    have hb : (finalizeAll B sessions).bind (m.storeKeys policy)=.ok m' := by
      rw [hfi]
      exact hs
    rw [hp]
    dsimp only
    rw [hb]
    exact ⟨rfl,hv,he,hen,fun _ => Option.isSome_iff_exists.mpr ⟨_,hr⟩⟩

variable (policy) in
theorem Manager.checkAdvance_cases (m : Manager) (round ms : ℤ) (members : Members) :
    ¬m.Silent policy ∧ (m.checkAdvance policy round ms members = (true,m.advance round ms members) ∨
          m.checkAdvance policy round ms members=(false,m)) ∨
      m.Silent policy ∧ m.checkAdvance policy round ms members =
        (false,m.advance round ms members) := by
  rw [checkAdvance,Manager.Silent]
  cases policy.epochStrategy with
  | manual => exact .inl ⟨nofun,.inr rfl⟩
  | roundCount =>
    dsimp only
    split_ifs
    · exact .inl ⟨nofun,.inr rfl⟩
    · exact .inl ⟨nofun,.inl rfl⟩
  | timeBased =>
    dsimp only
    split_ifs with hf
    · exact .inr ⟨⟨rfl,hf⟩,rfl⟩
    · exact .inl ⟨fun h => hf h.2,.inr rfl⟩
    · exact .inl ⟨fun h => hf h.2,.inl rfl⟩

theorem Manager.Valid.fresh (h : m.Valid B policy) :
    m.dkgRegistry.get? (m.currentEpoch+1)=none := by
  refine Option.eq_none_iff_forall_ne_some.mpr fun result hr => ?_
  have hle := h.bounded _ result hr
  omega

theorem Manager.Valid.tick (h : m.Valid B policy) (round ms : ℤ) (members : Members)
    (draws : Bytes → Dealing policy.dkgThreshold) :
    (m.tick B policy round ms members draws).2.Valid B policy ∧
      m.Extends (m.tick B policy round ms members draws).2 := by
  have hva := h.advance round ms members
  rw [Manager.tick]
  rcases m.checkAdvance_cases policy round ms members with ⟨-,ha|hs⟩|⟨-,ha⟩
  · rw [ha]
    dsimp only
    split_ifs with hru
    · obtain ⟨-,hv,he,-⟩ := hva.runCeremony h.fresh hru.2 members draws
      exact ⟨hv,⟨he.dkgRegistry,he.signingKeys⟩⟩
    · exact ⟨hva,⟨fun _ _ hr => hr,fun _ _ hk => hk⟩⟩
  · rw [hs]
    exact ⟨h,.refl m⟩
  · rw [ha]
    exact ⟨hva,⟨fun _ _ hr => hr,fun _ _ hk => hk⟩⟩

theorem Manager.Valid.tick_cases (h : m.Valid B policy) (round ms : ℤ)
    (members : Members) (draws : Bytes → Dealing policy.dkgThreshold) :
    let out := m.tick B policy round ms members draws
    ¬m.Silent policy ∧ (out.1=.ok true ∧ out.2.Enters (m.advance round ms members) ∧
          (0<policy.dkgThreshold → policy.dkgThreshold ≤ members.val.val.length →
            (out.2.dkgRegistry.get? (m.currentEpoch+1)).isSome) ∨
        out.1=.ok false ∧ out.2=m) ∨
      m.Silent policy ∧ out.1=.ok false ∧ out.2=m.advance round ms members := by
  rw [Manager.tick]
  rcases m.checkAdvance_cases policy round ms members with ⟨hn,ha|hs⟩|⟨hsi,ha⟩
  · rw [ha]
    dsimp only
    split_ifs with hr
    · obtain ⟨hok,-,-,hen,hre⟩ :=
        (h.advance round ms members).runCeremony h.fresh hr.2 members draws
      exact .inl ⟨hn,.inl ⟨by rw [hok]; rfl,hen,fun _ => hre⟩⟩
    · exact .inl ⟨hn,.inl ⟨rfl,⟨rfl,rfl⟩,fun ht => absurd ⟨rfl,ht⟩ hr⟩⟩
  · rw [hs]
    exact .inl ⟨hn,.inr ⟨rfl,rfl⟩⟩
  · rw [ha]
    exact .inr ⟨hsi,rfl,rfl⟩

def Manager.Holds (m : Manager) (keys : Option (List ThresholdSigningKey)) : Prop :=
  ∀ ks, keys=some ks → ∃ epoch, m.signingKeys.get? epoch=some ks

structure Valid (B : Backend G₁ G₂ G₃) (policy : CommitteePolicy) (s : State) : Prop where
  manager : s.manager.Valid B policy
  held : s.manager.Holds s.adapter.signingKeys

theorem Manager.holds_none (m : Manager) : m.Holds none := fun _ h => by cases h

section
variable {a : Adapter} {m : Manager} (h : m.Holds a.signingKeys)
include h

theorem Adapter.holds_takeKeys (epoch : ℕ) : m.Holds (a.takeKeys m epoch).signingKeys := by
  rw [takeKeys]
  split
  next k ks hg =>
    intro keys hk
    cases hk
    exact ⟨epoch,hg⟩
  next => exact h

theorem Adapter.holds_start {a' : Adapter} (hs : a.start m=.ok a') : m.Holds a'.signingKeys := by
  rw [start] at hs
  cases hr : m.roster with
  | none =>
    rw [hr] at hs
    cases hs
  | some roster =>
    rw [hr] at hs
    cases hs
    split_ifs
    · refine holds_takeKeys ?_ m.currentEpoch
      exact h
    · exact h

theorem Adapter.holds_handleEpochTransition (newEpoch : ℕ) :
    m.Holds (a.handleEpochTransition m newEpoch).signingKeys := by
  rw [handleEpochTransition]
  split_ifs
  · exact h
  · refine holds_takeKeys ?_ newEpoch
    exact h
  · exact m.holds_none

theorem Adapter.holds_tick : m.Holds (a.tick m).signingKeys := by
  rw [tick]
  split_ifs
  · exact h
  · refine holds_handleEpochTransition ?_ m.currentEpoch
    cases m.roster with
    | none => exact h
    | some roster => exact h

end

theorem Valid.step {s : State} (h : Valid B policy s) (i : Input policy) :
    Valid B policy (step B sha3 policy s i).1 ∧
      s.manager.Extends (step B sha3 policy s i).1.manager := by
  have hm : ∀ m', m'.Valid B policy → s.manager.Extends m' →
      Valid B policy {s with manager := m'} ∧ s.manager.Extends m' := by
    intro m' hv hex
    refine ⟨⟨hv,fun keys hke => ?_⟩,hex⟩
    obtain ⟨epoch,he⟩ := h.held keys hke
    exact ⟨epoch,hex.signingKeys _ _ he⟩
  cases i with
  | managerTick round ms members draws =>
    obtain ⟨hv,hex⟩ := h.manager.tick round ms members draws
    exact hm _ hv hex
  | forceAdvance ms members =>
    exact hm _ (h.manager.advance 0 ms members)
      ⟨fun _ _ hr => hr,fun _ _ hk => hk⟩
  | evict fp backfill =>
    have hv : (s.manager.evict fp backfill).Valid B policy :=
      ⟨fun epoch keys hke => (h.manager.issued epoch keys hke).imp fun _ hf =>
          hf.imp fun _ hi => {hi with},h.manager.bounded⟩
    exact hm _ hv ⟨fun _ _ hr => hr,fun _ _ hk => hk⟩
  | construct => exact ⟨⟨h.manager,s.manager.holds_none⟩,.refl _⟩
  | start =>
    simp only [ConsensusAttestation.step]
    cases hs : s.adapter.start s.manager with
    | error e => exact ⟨h,.refl _⟩
    | ok a => exact ⟨⟨h.manager,Adapter.holds_start h.held hs⟩,.refl _⟩
  | tick => exact ⟨⟨h.manager,Adapter.holds_tick h.held⟩,.refl _⟩
  | decide d =>
    simp only [ConsensusAttestation.step]
    cases processDecision B sha3 s.adapter d with
    | error e => exact ⟨h,.refl _⟩
    | ok attested => exact ⟨h,.refl _⟩

theorem valid_state (inputs : List (Input policy)) :
    Valid B policy ((machine B sha3 policy).state inputs) := by
  refine Machine.invariant (P := fun s _ => Valid B policy s) ?_ (fun s _ i h => ?_) inputs
  · exact ⟨⟨nofun,nofun⟩,Manager.holds_none _⟩
  · exact (h.step sha3 i).1

/-- A tick of the manager that is not the first of the time-based strategy. -/
def Announced (s : State) : Input policy → Prop
  | .managerTick _ _ _ _ => ¬s.manager.Silent policy
  | _ => False

variable (B policy) in
/-- After every run the value that `tick` returns is right but for the first tick of the
time-based strategy, and an epoch with enough members has keys exactly if another tick began
it. -/
theorem announced_epochs_have_keys (inputs : List (Input policy)) :
    let s := (machine B sha3 policy).state inputs
    (∀ round timestampMs members draws,
      ((s.manager.tick B policy round timestampMs members draws).1=.ok true ↔
        s.manager.currentEpoch <
          (s.manager.tick B policy round timestampMs members draws).2.currentEpoch) ↔
      ¬s.manager.Silent policy) ∧
    ∀ input roster, let m' := (step B sha3 policy s input).1.manager
      s.manager.currentEpoch < m'.currentEpoch → 0<policy.dkgThreshold →
      m'.roster=some roster → policy.dkgThreshold≤roster.activeMembers.length →
      ((m'.dkgRegistry.get? m'.currentEpoch).isSome ↔ Announced s input) := by
  intro s
  have h : Valid B policy s := valid_state sha3 inputs
  refine ⟨fun round timestampMs members draws => ?_,fun input roster => ?_⟩
  · rcases h.manager.tick_cases round timestampMs members draws with
      ⟨hn,⟨ha,hen,-⟩ | ⟨ha,hm⟩⟩ | ⟨hsi,ha,hm⟩
    · simp [ha,hn,hen.1,Manager.advance]
    · simp [ha,hn,hm]
    · simp [ha,hsi,hm,Manager.advance]
  · intro m' hlt ht hro hs
    cases input with
    | managerTick round timestampMs members draws =>
      rcases h.manager.tick_cases round timestampMs members draws with
        ⟨hn,⟨-,hen,hr⟩ | ⟨-,hm⟩⟩ | ⟨hsi,-,hm⟩
      · cases hen.2.symm.trans hro
        have hep : m'.currentEpoch=s.manager.currentEpoch+1 := hen.1
        rw [hep]
        exact iff_of_true (hr ht hs) hn
      · exact absurd hlt (by simp [m',step,hm])
      · have hno := h.manager.fresh
        simp [m',step,hm,Manager.advance,hno,Announced,hsi]
    | forceAdvance timestampMs members =>
      have hno := h.manager.fresh
      simp [m',step,Manager.advance,hno,Announced]
    | evict fp backfill => exact absurd hlt (lt_irrefl _)
    | construct => exact absurd hlt (lt_irrefl _)
    | start =>
      refine absurd hlt ?_
      simp only [m',step]
      cases s.adapter.start s.manager <;> exact lt_irrefl _
    | tick => exact absurd hlt (lt_irrefl _)
    | decide decision =>
      refine absurd hlt ?_
      simp only [m',step]
      cases processDecision B sha3 s.adapter decision <;> exact lt_irrefl _

variable (B) in
def Verifies (m : Manager) (a : Attestation) : Prop :=
  ((m.dkgRegistry.get? a.event.epoch).map fun result =>
    thresholdVerify B result.groupPk a.batchBytes a.event.signature domainAttestation) =
      some (.ok true)

instance (m : Manager) (a : Attestation) : Decidable (Verifies B m a) :=
  inferInstanceAs (Decidable (_ = _))

theorem Verifies.extend {m' : Manager} {a : Attestation} (h : Verifies B m a) (he : m.Extends m')
    : Verifies B m' a := by
  obtain ⟨result,hr,hv⟩ := Option.map_eq_some_iff.mp h
  exact Option.map_eq_some_iff.mpr ⟨result,he.dkgRegistry _ _ hr,hv⟩

/-- The keys belong to the epoch, their group key is not the identity, and the quorum of the
validator set is not below the threshold of the policy. -/
def Signable (s : State) : Input policy → Prop
  | .decide _ => ∀ keys ∈ s.adapter.signingKeys, ∀ vs ∈ s.adapter.validatorSet,
      policy.dkgThreshold≤vs.quorumThreshold ∧
        ∀ k ∈ keys, k.epoch=s.adapter.currentEpoch ∧ k.groupPk≠List.replicate 96 0
  | _ => True

instance (s : State) : ∀ i : Input policy, Decidable (Signable s i)
  | .decide _ => inferInstanceAs (Decidable (∀ keys ∈ s.adapter.signingKeys, _))
  | .managerTick _ _ _ _ | .forceAdvance _ _ | .evict _ _ | .construct | .start | .tick =>
    inferInstanceAs (Decidable True)

theorem verifies_of_signDecision {epoch current : ℕ} {keys : List ThresholdSigningKey}
    (hi : IssuedBy B policy m epoch keys f result) (ht : B.verifyDst=blsDst)
    {vs : ValidatorSet} (hq : policy.dkgThreshold≤vs.quorumThreshold)
    (hke : ∀ k ∈ keys, k.epoch=current ∧ k.groupPk≠List.replicate 96 0)
    {d : CommitDecision} {batch : OrderedBatch} {attested : List Attestation}
    (hsi : signDecision B sha3 current keys vs d batch=.ok attested) :
    ∀ a ∈ attested, Verifies B m a := by
  rw [signDecision] at hsi
  cases ha : aggregateAcks B sha3 keys vs d.leaderCertificate with
  | error e =>
    rw [ha] at hsi
    cases hsi
  | ok acks =>
    cases hb : serializeBatch sha3 batch with
    | error e =>
      rw [ha,hb] at hsi
      cases hsi
    | ok bytes =>
      rw [ha,hb] at hsi
      simp only [bind,Except.bind,length_map] at hsi
      split_ifs at hsi with hsiz
      · have hd : f.degree<(keys.take vs.quorumThreshold).length :=
          hi.degree.trans_le (Nat.cast_le.mpr (hq.trans hsiz))
        have hh := hi.holds.sublist (take_sublist vs.quorumThreshold keys)
        rw [combine_partials B hh hd hsiz] at hsi
        cases hsi
        have hne : 0<(keys.take vs.quorumThreshold).length :=
          (Nat.succ_pos _).trans_le hsiz
        obtain ⟨k,hk⟩ := exists_mem_of_length_pos hne
        have hkm := (take_sublist _ _).subset hk
        obtain rfl : epoch=current := (hi.key k hkm).1.symm.trans (hke k hkm).1
        have hs : f.eval 0≠0 := by
          intro hz
          refine (hke k hkm).2 ?_
          rw [(hi.key k hkm).2,hi.groupPk,hz,zero_smul,g1Serialize,if_pos rfl]
        refine forall_mem_singleton.mpr
          (Option.map_eq_some_iff.mpr ⟨result,hi.registered,?_⟩)
        rw [hi.groupPk]
        exact (thresholdVerify_iff B (f.eval 0) bytes domainAttestation).mpr
          ⟨hs,by rw [ht]⟩
      · cases hsi
        simp

theorem mem_step {s : State} {i : Input policy} {a : Attestation}
    (h : a ∈ (step B sha3 policy s i).2) :
    ∃ d keys vs attested, i=.decide d ∧ s.adapter.signingKeys=some keys ∧
      s.adapter.validatorSet=some vs ∧ (step B sha3 policy s i).1=s ∧ a ∈ attested ∧
      signDecision B sha3 s.adapter.currentEpoch keys vs d
        (toOrderedBatch d s.adapter.currentEpoch)=.ok attested := by
  cases i with
  | decide d =>
    simp only [step,processDecision] at h ⊢
    cases hk : s.adapter.signingKeys with
    | none => simp [hk] at h
    | some keys =>
      cases hvs : s.adapter.validatorSet with
      | none => simp [hvs] at h
      | some vs =>
        rw [hk,hvs] at h
        dsimp only at h
        cases hsi : signDecision B sha3 s.adapter.currentEpoch keys vs d
            (toOrderedBatch d s.adapter.currentEpoch) with
        | error e => simp [hsi] at h
        | ok attested =>
          rw [hsi] at h
          exact ⟨d,keys,vs,attested,rfl,rfl,rfl,by simp [hsi],h,hsi⟩
  | start =>
    simp only [step] at h
    cases hs : s.adapter.start s.manager with
    | error e => simp [hs] at h
    | ok a => simp [hs] at h
  | _ => simp [step] at h

theorem attestations_verify (htag : B.verifyDst=blsDst) (inputs : List (Input policy))
    (h : (machine B sha3 policy).Meets Signable inputs) :
    ∀ a ∈ (machine B sha3 policy).outputs inputs,
      Verifies B ((machine B sha3 policy).state inputs).manager a := by
  refine (Machine.invariant_of_meets (P := fun s out => Valid B policy s ∧
    ∀ a ∈ out, Verifies B s.manager a) ?_ ?_ inputs h).2
  · exact ⟨valid_state sha3 [],by simp⟩
  · rintro s out i ⟨hv,ho⟩ hs
    obtain ⟨hn,hex⟩ := hv.step sha3 i
    refine ⟨hn,fun a ha => ?_⟩
    rcases mem_append.mp ha with hol|hne
    · exact (ho a hol).extend hex
    · obtain ⟨decision,keys,vs,attested,rfl,hk,hvs,hsa,hm,hsi⟩ :=
        mem_step sha3 hne
      obtain ⟨hq,hal⟩ := hs keys hk vs hvs
      obtain ⟨epoch,he⟩ := hv.held keys hk
      obtain ⟨f,result,hi⟩ := hv.manager.issued epoch keys he
      have hve := verifies_of_signDecision sha3 hi htag hq hal hsi a hm
      change Verifies B (step B sha3 policy s (.decide decision)).1.manager a
      rw [hsa]
      exact hve

end

section

def memberPolicy (threshold : ℕ) : CommitteePolicy := ⟨1,.roundCount,1,0,threshold,10⟩

def memberDraws (threshold : ℕ) : Bytes → Dealing threshold := fun fp =>
  ⟨List.replicate threshold fp.length,List.replicate threshold 5,by simp,by simp⟩

theorem encodable_empty : Encodable 0 0 [] ∅ := by decide

def emptyDecision : CommitDecision where
  leaderCertificate := ⟨⟨0,0,[],∅,0,encodable_empty⟩,{0}⟩
  committedBlocks := []
  round := 0

def attestingRun (threshold : ℕ) (members : Members) : List (Input (memberPolicy threshold)) :=
  [.managerTick 1 1 members (memberDraws threshold),.start,.decide emptyDecision]

theorem four_members_attest :
    (machine (scalarBackend false) id (memberPolicy 3)).outputs
        (attestingRun 3 ⟨⟨[[1],[2],[3],[4]],by decide⟩,by decide⟩)≠[] ∧
      ∀ a ∈ (machine (scalarBackend false) id (memberPolicy 3)).outputs
          (attestingRun 3 ⟨⟨[[1],[2],[3],[4]],by decide⟩,by decide⟩),
        Verifies (scalarBackend false) ((machine (scalarBackend false) id (memberPolicy 3)).state
          (attestingRun 3 ⟨⟨[[1],[2],[3],[4]],by decide⟩,by decide⟩)).manager a :=
  ⟨fun h => absurd (congrArg isEmpty h) (by decide +kernel),
    attestations_verify id rfl _ ((Machine.meetsFrom_start_iff _ _ _).mp (by decide +kernel))⟩

theorem three_members_attestation_rejected :
    ∃ a ∈ (machine (scalarBackend false) id (memberPolicy 2)).outputs
        (attestingRun 2 ⟨⟨[[1],[2],[3]],by decide⟩,by decide⟩),
      ¬Verifies (scalarBackend false) ((machine (scalarBackend false) id (memberPolicy 2)).state
        (attestingRun 2 ⟨⟨[[1],[2],[3]],by decide⟩,by decide⟩)).manager a := by decide +kernel

def silentRun : List (Input ⟨1,.timeBased,1,1,1,10⟩) :=
  [.managerTick 1 1 ⟨⟨[[1]],by decide⟩,by decide⟩ (memberDraws 1),
    .forceAdvance 2 ⟨⟨[[1]],by decide⟩,by decide⟩]

theorem silentRun_no_keys :
    let m := ((machine (scalarBackend false) id ⟨1,.timeBased,1,1,1,10⟩).state
      silentRun).manager
    (Manager.init.tick (scalarBackend false) ⟨1,.timeBased,1,1,1,10⟩ 1 1
        ⟨⟨[[1]],by decide⟩,by decide⟩ (memberDraws 1)).1=.ok false ∧
      m.currentEpoch=2 ∧ m.dkgRegistry.get? 1=none ∧ m.dkgRegistry.get? 2=none :=
  ⟨rfl,rfl,rfl,rfl⟩

end
end LatticeTransfer.ConsensusAttestation
