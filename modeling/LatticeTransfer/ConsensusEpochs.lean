import LatticeTransfer.ConsensusAttestation
import LatticeTransfer.ConsensusEngine

/-!
# Transactions across epochs

`DagBftAdapter` with its consensus backend: transactions are submitted to the engine, rounds
are driven and batches read, and a tick after an epoch change gives the backend a new engine
for the new validator set. The engine that was replaced stays readable through a stream that
was opened before.
-/

namespace LatticeTransfer.ConsensusEpochs
open PyValue ScalarField ConsensusDag ConsensusCommit ConsensusBatches
open ConsensusEngine (Engine FaultConfig)
open ConsensusAttestation (CommitteePolicy Members Manager processDecision)

structure LocalConsensusBackend (sha3 : Bytes → Bytes) where
  size : ℕ
  engine : Engine sha3 size

/-- `committee` is the manager and what the adapter keeps of it, `members` and `evicted` belong
to the validator set of `CommitteeSync`. The first of the engines is that of the backend. -/
structure Adapter (sha3 : Bytes → Bytes) where
  committee : ConsensusAttestation.State
  members : List Bytes
  evicted : List Bytes
  engines : List (LocalConsensusBackend sha3)
  running : Bool
  accepted : List Bytes
  emitted : List Bytes

inductive Input (policy : CommitteePolicy)
  | managerTick (round timestampMs : ℤ) (members : Members)
      (draws : Bytes → Dealing policy.dkgThreshold)
  | forceAdvance (timestampMs : ℤ) (members : Members)
  | evict (fp : Bytes) (backfill : Option Bytes)
  | construct
  | start
  | stop
  | submitTransaction (tx : Bytes)
  | injectFault (fault : FaultConfig)
  | driveRounds (rounds : ℕ) (time : ℕ → ℕ → ℤ)
  | nextBatch (stream : ℕ)
  | tick

section
variable {G₁ G₂ G₃ : Type} [AddCommGroup G₁] [Module (ZMod R) G₁] [AddCommGroup G₂]
  [Module (ZMod R) G₂] [AddCommGroup G₃] [Module (ZMod R) G₃] [DecidableEq G₁]
  (B : Backend G₁ G₂ G₃) {sha3 : Bytes → Bytes} (policy : CommitteePolicy) (iter : Iteration)

namespace Adapter

def construct (m : Manager) : Adapter sha3 :=
  ⟨⟨m,ConsensusAttestation.Adapter.construct m⟩,[],[],[],false,[],[]⟩

variable (a : Adapter sha3)

def setManager (m : Manager) : Adapter sha3 :=
  {a with committee := {a.committee with manager := m}}

def rebuild (size : ℕ) : Adapter sha3 :=
  {a with engines := ⟨size,Engine.create none⟩::a.engines}

def start : Adapter sha3 :=
  match a.committee.adapter.start a.committee.manager, a.committee.manager.roster with
  | .ok adapter, some roster =>
    {a with
      committee := {a.committee with adapter := adapter}
      members := roster.activeMembers
      evicted := []
      running := true}.rebuild roster.activeMembers.length
  | _, _ => a

def submitTransaction (tx : Bytes) : Adapter sha3 :=
  match a.engines with
  | [] => a
  | b::replaced =>
    if a.running=true then
      {a with
        engines := ⟨b.size,b.engine.submitTransactions [tx]⟩::replaced
        accepted := a.accepted++[tx]}
    else a

def injectFault (fault : FaultConfig) : Adapter sha3 :=
  match a.engines with
  | [] => a
  | b::replaced => {a with engines := ⟨b.size,b.engine.injectFault fault⟩::replaced}

def emit (decisions : List CommitDecision) : Adapter sha3 :=
  match decisions.mapM (processDecision B sha3 a.committee.adapter) with
  | .error _ => a
  | .ok _ => {a with emitted := a.emitted++decisions.flatMap fun decision =>
      (toOrderedBatch decision a.committee.adapter.currentEpoch).transactions}

def driveRounds (rounds : ℕ) (time : ℕ → ℕ → ℤ) : Adapter sha3 :=
  match a.engines with
  | [] => a
  | b::replaced =>
    match b.engine.runRounds iter (fun round v => time round v) rounds with
    | (.error _,engine) => {a with engines := ⟨b.size,engine⟩::replaced}
    | (.ok decisions,engine) =>
      {a with engines := ⟨b.size,engine⟩::replaced}.emit B decisions

def nextBatch (stream : ℕ) : Adapter sha3 :=
  match a.engines[stream]? with
  | none => a
  | some b =>
    match b.engine.commitQueue with
    | [] => a
    | decision::queue =>
      let read := ⟨b.size,{b.engine with commitQueue := queue}⟩
      {a with engines := a.engines.set stream read}.emit B [decision]

def newEvictions (active : List Bytes) : List (Bytes × ℕ) → List Bytes → List (Bytes × ℕ)
  | [], _ => []
  | (fp,index)::rest, known =>
    if fp ∈ known ∨ fp ∈ active then newEvictions active rest known
    else (fp,index)::newEvictions active rest (fp::known)

def onTick : Adapter sha3 × List (Bytes × ℕ) :=
  let manager := a.committee.manager
  let synced := if a.committee.adapter.syncEpoch < manager.currentEpoch then
      match manager.roster with
      | none => a
      | some roster => {a with members := roster.activeMembers,evicted := []}
    else a
  let adapter := a.committee.adapter.tick manager
  let gone := match adapter.syncValidatorSet, manager.roster with
    | some _, some roster => newEvictions roster.activeMembers synced.members.zipIdx synced.evicted
    | _, _ => []
  ({synced with
    committee := {a.committee with adapter := adapter}
    evicted := synced.evicted++gone.map Prod.fst},gone)

def rebuildsTo : Option ℕ :=
  if a.committee.adapter.syncEpoch<a.committee.manager.currentEpoch ∧ a.engines≠[] then
    (a.committee.adapter.tick a.committee.manager).validatorSet.map
      ConsensusAttestation.ValidatorSet.size
  else none

def crash (a : Adapter sha3) (gone : List (Bytes × ℕ)) : Adapter sha3 :=
  gone.foldl (fun a member => a.injectFault ⟨member.2,.crash,0,none,[]⟩) a

def tick : Adapter sha3 :=
  let (synced,gone) := a.onTick
  match a.rebuildsTo with
  | none => synced.crash gone
  | some size => (synced.rebuild size).crash gone

end Adapter

def step (a : Adapter sha3) : Input policy → Adapter sha3 × List (Adapter sha3)
  | .managerTick round timestampMs members draws =>
    (a.setManager (a.committee.manager.tick B policy round timestampMs members draws).2,[])
  | .forceAdvance timestampMs members =>
    (a.setManager (a.committee.manager.advance 0 timestampMs members),[])
  | .evict fp backfill => (a.setManager (a.committee.manager.evict fp backfill),[])
  | .construct => (Adapter.construct a.committee.manager,[])
  | .start => (a.start,[])
  | .stop => ({a with running := false},[])
  | .submitTransaction tx => (a.submitTransaction tx,[])
  | .injectFault fault => (a.injectFault fault,[])
  | .driveRounds rounds time => (a.driveRounds B iter rounds time,[])
  | .nextBatch stream => (a.nextBatch B stream,[])
  | .tick => (a.tick,if a.rebuildsTo.isSome then [a.tick] else [])

def machine (sha3 : Bytes → Bytes) : Machine (Adapter sha3) (Input policy) (Adapter sha3) :=
  ⟨Adapter.construct Manager.init,step B policy iter⟩

/-- The engine still has the transaction: in the mempool, in a block that a validator has not
committed, or in a decision that was not read. -/
def HasPending {n : ℕ} (e : Engine sha3 n) (tx : Bytes) : Prop :=
  tx ∈ e.mempool ∨
    (∃ v, ∃ block ∈ (e.validators v).dag.blocksByDigest.values,
      tx ∈ block.payload ∧ block.digest sha3 ∉ (e.validators v).committedDigests) ∨
    ∃ decision ∈ e.commitQueue, tx ∈ decision.committedBlocks.flatMap Block.payload

instance {n : ℕ} (e : Engine sha3 n) (tx : Bytes) : Decidable (HasPending e tx) := by
  unfold HasPending
  infer_instance

theorem not_hasPending_create {n : ℕ} (tx : Bytes) :
    ¬HasPending (Engine.create none : Engine sha3 n) tx := by
  rintro (h|⟨v,block,h,-⟩|⟨d,h,-⟩)
  all_goals cases h

namespace Adapter

def Pending (a : Adapter sha3) (tx : Bytes) : Prop :=
  ∃ b ∈ a.engines.head?, HasPending b.engine tx

instance (a : Adapter sha3) (tx : Bytes) : Decidable (a.Pending tx) := by
  unfold Pending
  infer_instance

/-- Every accepted transaction is in an emitted batch or still pending. -/
def Conserves (a : Adapter sha3) : Prop := ∀ tx ∈ a.accepted, tx ∉ a.emitted → a.Pending tx

instance (a : Adapter sha3) : Decidable a.Conserves := by
  unfold Conserves
  infer_instance

structure SameTransactions (a a' : Adapter sha3) : Prop where
  accepted : a'.accepted=a.accepted
  emitted : a'.emitted=a.emitted
  pending : ∀ tx, a'.Pending tx ↔ a.Pending tx

theorem SameTransactions.trans {a b c : Adapter sha3} (hab : a.SameTransactions b)
    (hbc : b.SameTransactions c) : a.SameTransactions c :=
  ⟨hbc.accepted.trans hab.accepted,hbc.emitted.trans hab.emitted,
    fun tx => (hbc.pending tx).trans (hab.pending tx)⟩

theorem SameTransactions.conserves_iff {a a' : Adapter sha3} (h : a.SameTransactions a') :
    a'.Conserves ↔ a.Conserves := by simp only [Conserves,h.accepted,h.emitted,h.pending]

theorem sameTransactions_of_engines {a a' : Adapter sha3} (ha : a'.accepted=a.accepted)
    (he : a'.emitted=a.emitted) (hen : a'.engines=a.engines) : a.SameTransactions a' :=
  ⟨ha,he,fun tx => by rw [Pending,Pending,hen]⟩

theorem sameTransactions_injectFault (a : Adapter sha3) (fault : FaultConfig) :
    a.SameTransactions (a.injectFault fault) := by
  unfold injectFault
  cases he : a.engines with
  | nil => exact sameTransactions_of_engines rfl rfl rfl
  | cons b replaced =>
    refine ⟨rfl,rfl,fun tx => ?_⟩
    simp only [Pending,he,List.head?_cons,Option.mem_some_iff,exists_eq_left']
    exact .rfl

theorem sameTransactions_crash (a : Adapter sha3) (gone : List (Bytes × ℕ)) :
    a.SameTransactions (a.crash gone) := by
  induction gone generalizing a with
  | nil => exact sameTransactions_of_engines rfl rfl rfl
  | cons member gone ih =>
    have hf := a.sameTransactions_injectFault ⟨member.2,.crash,0,none,[]⟩
    exact hf.trans (ih (a.injectFault ⟨member.2,.crash,0,none,[]⟩))

theorem sameTransactions_onTick (a : Adapter sha3) : a.SameTransactions a.onTick.1 := by
  unfold onTick
  dsimp only
  split_ifs
  · cases a.committee.manager.roster with
    | none => exact sameTransactions_of_engines rfl rfl rfl
    | some roster => exact sameTransactions_of_engines rfl rfl rfl
  · exact sameTransactions_of_engines rfl rfl rfl

theorem conserves_rebuild_iff (a : Adapter sha3) (size : ℕ) :
    (a.rebuild size).Conserves ↔ ∀ tx ∈ a.accepted, tx ∈ a.emitted := by
  refine forall₂_congr fun tx _ => ?_
  have he : ¬(a.rebuild size).Pending tx := by
    rintro ⟨b,hb,hp⟩
    cases hb
    exact not_hasPending_create tx hp
  constructor
  · exact fun h => by_contra fun hem => he (h hem)
  · exact fun h hem => absurd h hem

-- the engine of the new epoch is empty, and the faults put in it leave it so
theorem conserves_tick_iff {a : Adapter sha3} {size : ℕ} (h : a.rebuildsTo=some size) :
    a.tick.Conserves ↔ ∀ tx ∈ a.accepted, tx ∈ a.emitted := by
  have hs := a.sameTransactions_onTick
  simp only [tick,h]
  rw [((a.onTick.1.rebuild size).sameTransactions_crash a.onTick.2).conserves_iff,
    conserves_rebuild_iff,hs.accepted,hs.emitted]

end Adapter

/-- An epoch change comes only after every accepted transaction was emitted. -/
def Drained (a : Adapter sha3) : Input policy → Prop
  | .tick => a.rebuildsTo.isSome → ∀ tx ∈ a.accepted, tx ∈ a.emitted
  | _ => True

theorem step_conserves_iff (a : Adapter sha3) (i : Input policy) :
    (∀ rebuilt ∈ (step B policy iter a i).2, rebuilt.Conserves) ↔ Drained policy a i := by
  cases i with
  | tick =>
    cases hs : a.rebuildsTo with
    | none => simp [step,Drained,hs]
    | some size => simpa [step,Drained,hs] using Adapter.conserves_tick_iff hs
  | _ => exact iff_of_true (List.forall_mem_nil _) trivial

/-- Nothing is lost at any epoch change of a run exactly if there never was anything to keep. -/
theorem epoch_changes_conserve_iff (inputs : List (Input policy)) :
    (∀ rebuilt ∈ (machine B policy iter sha3).outputs inputs, rebuilt.Conserves) ↔
      (machine B policy iter sha3).Meets (Drained policy) inputs := by
  refine Machine.iff_meets (J := fun _ _ => True)
    (P := fun out : List (Adapter sha3) => ∀ rebuilt ∈ out, rebuilt.Conserves)
    (fun _ => trivial) (List.forall_mem_nil _) (fun a out i _ => ?_) inputs
  rw [List.forall_mem_append]
  exact and_congr_right fun _ => step_conserves_iff B policy iter a i

end

section
open ConsensusAttestation (memberPolicy memberDraws)

def fourMembers : Members := ⟨⟨[[1],[2],[3],[4]],by decide⟩,by decide⟩

def waitingRun : List (Input (memberPolicy 0)) :=
  [.managerTick 1 1 fourMembers (memberDraws 0),.construct,.start,.submitTransaction [7],
    .managerTick 2 2 fourMembers (memberDraws 0),.tick]

theorem waitingRun_loses_transaction :
    ∃ rebuilt ∈ (machine (scalarBackend false) (memberPolicy 0) sortedIteration id).outputs
        waitingRun, [7] ∈ rebuilt.accepted ∧ [7] ∉ rebuilt.emitted ∧ ¬rebuilt.Pending [7] := by
  decide +kernel

example : ((machine (scalarBackend false) (memberPolicy 0) sortedIteration id).outputs
      (waitingRun.insertIdx 4 (.driveRounds 2 fun _ _ => 0))).map
        (fun rebuilt => (rebuilt.accepted,rebuilt.emitted))=[([[7]],[[7]])] := by decide +kernel

end

end LatticeTransfer.ConsensusEpochs
