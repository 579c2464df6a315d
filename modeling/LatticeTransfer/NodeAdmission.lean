import LatticeTransfer.TransitionVotes

/-!
# Endorsed nodes

`NodeAdmissionManager`: a node applies, collects endorsements and moves on when there are `m`.
A vote is checked under the key the caller hands in. The node it is counted for, the key hash it
is counted under and the application it was signed for are not part of that check.

A run also records who signed an endorsement for which node, and how many signatures there were
when a node applied.
-/

namespace LatticeTransfer.NodeAdmission
open MerkleTree CommitmentLog TransitionVotes List
open MerkleLog (MLDSA)

inductive AdmissionState
  | applying
  | endorsed
  | admitted
  | active
  | suspended
  | evicted
deriving DecidableEq

inductive AdmissionError
  | python (e : PyError)
  | invalidTransition (current target : AdmissionState)

def validAdmissionTransitions : List (AdmissionState × AdmissionState) :=
  [(.applying,.endorsed),(.endorsed,.admitted),(.admitted,.active),(.active,.suspended),
    (.suspended,.active),(.active,.evicted),(.suspended,.evicted)]

structure EndorsementVote where
  endorserVkHash : String
  applicantNodeId : String
  signature : Bytes
  timestamp : UInt64
  endorserLabel : String

structure AdmissionRecord where
  nodeId : String
  applicantVkHash : String
  state : AdmissionState
  appliedAt : UInt64
  endorsements : List EndorsementVote
  requiredEndorsements : ℕ
  totalOperators : ℕ
  admittedAt : UInt64
  activatedAt : UInt64
  suspendedAt : UInt64
  rejectionReason : String

def AdmissionRecord.voters (record : AdmissionRecord) : List String :=
  record.endorsements.map EndorsementVote.endorserVkHash

structure Manager where
  m : ℕ
  n : ℕ
  one_le_m : 1 ≤ m
  m_le_n : m≤n
  records : Dict String AdmissionRecord

def endorsementPayload (nodeId : String) (vk : Bytes) : Bytes :=
  encodeText "SUWAPPU-LTP:node-endorsement:v1\x00" ++ encodeText nodeId++vk

section
variable (P : SecurityProfile) (S : MLDSA)

def verifyEndorsement (vote : EndorsementVote) (endorserVk : Bytes) : Except PyError Bool :=
  mldsaVerify P S endorserVk (endorsementPayload vote.applicantNodeId endorserVk) vote.signature

def checkEndorsement (vote : EndorsementVote) : Option Bytes → Except AdmissionError Unit
  | none => .ok ()
  | some endorserVk =>
    match verifyEndorsement P S vote endorserVk with
    | .error e => .error (.python e)
    | .ok true => .ok ()
    | .ok false => .error (.python (.valueError "Endorsement signature verification failed"))

namespace Manager
variable (manager : Manager)

def store (nodeId : String) (record : AdmissionRecord) : Manager :=
  {manager with records := manager.records.set nodeId record}

def apply (nodeId applicantVkHash : String) (now : UInt64) : Except AdmissionError Manager :=
  if (manager.records.get? nodeId).any (·.state≠.evicted) then
    .error (.python (.valueError s!"Node '{nodeId}' already has active application"))
  else .ok (manager.store nodeId
    ⟨nodeId,applicantVkHash,.applying,now,[],manager.m,manager.n,0,0,0,""⟩)

def endorse (nodeId : String) (vote : EndorsementVote) (endorserVk : Option Bytes) :
    Except AdmissionError Manager := do
  checkEndorsement P S vote endorserVk
  match manager.records.get? nodeId with
  | none => .error (.python .keyError)
  | some record =>
    if record.state≠.applying then
      .error (.python (.valueError s!"Node '{nodeId}' is not in APPLYING state"))
    else if vote.endorserVkHash ∈ record.voters then
      let endorser := Manager.short vote.endorserVkHash
      .error (.python (.valueError s!"Endorser {endorser} already endorsed '{nodeId}'"))
    else
      let endorsements := record.endorsements++[vote]
      let state := if record.requiredEndorsements≤endorsements.length then .endorsed
        else record.state
      .ok (manager.store nodeId {record with endorsements := endorsements,state := state})

def transition (nodeId : String) (target : AdmissionState)
    (edit : AdmissionRecord → AdmissionRecord) : Except AdmissionError Manager :=
  match manager.records.get? nodeId with
  | none => .error (.python .keyError)
  | some record =>
    if (record.state,target) ∈ validAdmissionTransitions then
      .ok (manager.store nodeId (edit {record with state := target}))
    else .error (.invalidTransition record.state target)

def admitNode (nodeId : String) (now : UInt64) : Except AdmissionError Manager :=
  manager.transition nodeId .admitted fun record => {record with admittedAt := now}

def activate (nodeId : String) (now : UInt64) : Except AdmissionError Manager :=
  manager.transition nodeId .active fun record => {record with activatedAt := now}

def suspend (nodeId reason : String) (now : UInt64) : Except AdmissionError Manager :=
  manager.transition nodeId .suspended fun record =>
    {record with suspendedAt := now,rejectionReason := reason}

def reactivate (nodeId : String) : Except AdmissionError Manager :=
  manager.transition nodeId .active fun record => {record with rejectionReason := "" }

def evict (nodeId reason : String) : Except AdmissionError Manager :=
  manager.transition nodeId .evicted fun record => {record with rejectionReason := reason}

end Manager

inductive Input
  | sign (vk : Bytes) (nodeId : String)
  | apply (nodeId applicantVkHash : String) (now : UInt64)
  | endorse (nodeId : String) (vote : EndorsementVote) (endorserVk : Bytes)
  | admitNode (nodeId : String) (now : UInt64)
  | activate (nodeId : String) (now : UInt64)
  | suspend (nodeId reason : String) (now : UInt64)
  | reactivate (nodeId : String)
  | evict (nodeId reason : String)

structure System where
  manager : Manager
  signed : List (Bytes × String)
  since : String → ℕ

def Manager.call (manager : Manager) : Input → Except AdmissionError Manager
  | .sign _ _ => .ok manager
  | .apply nodeId applicantVkHash now => manager.apply nodeId applicantVkHash now
  | .endorse nodeId vote endorserVk => manager.endorse P S nodeId vote (some endorserVk)
  | .admitNode nodeId now => manager.admitNode nodeId now
  | .activate nodeId now => manager.activate nodeId now
  | .suspend nodeId reason now => manager.suspend nodeId reason now
  | .reactivate nodeId => manager.reactivate nodeId
  | .evict nodeId reason => manager.evict nodeId reason

def System.step (s : System) (input : Input) : System :=
  match s.manager.call P S input with
  | .error _ => s
  | .ok manager =>
    { manager := manager
      signed := match input with
        | .sign vk nodeId => s.signed++[(vk,nodeId)]
        | _ => s.signed
      since := match input with
        | .apply nodeId _ _ => Function.update s.since nodeId s.signed.length
        | _ => s.since}

def machine (m n : ℕ) (hm : 1 ≤ m) (hn : m≤n) : Machine System Input Empty :=
  ⟨⟨⟨m,n,hm,hn,Dict.empty⟩,[],fun _ => 0⟩,fun s input => (s.step P S input,[])⟩

/-- The endorsements that were signed since the node's current application. -/
def System.recent (s : System) (nodeId : String) : List (Bytes × String) :=
  s.signed.drop (s.since nodeId)

/-- A signature that verifies was made by the holder of the key. -/
def Unforged (s : System) : Input → Prop
  | .endorse _ vote endorserVk => verifyEndorsement P S vote endorserVk=.ok true →
      (endorserVk,vote.applicantNodeId) ∈ s.signed
  | _ => True

/-- What the manager does not check: the vote names this node and the key it is checked with,
and that key had not endorsed the node before the current application. -/
def Careful (H : CanonicalHash) (s : System) : Input → Prop
  | .endorse nodeId vote endorserVk => vote.applicantNodeId=nodeId ∧
      vote.endorserVkHash=canonicalHash H endorserVk ∧
      (endorserVk,nodeId) ∉ s.signed.take (s.since nodeId)
  | _ => True

/-- The votes of a record belong to keys that endorsed the node recently. -/
structure Backed (H : CanonicalHash) (m : ℕ) (recent : List (Bytes × String)) (nodeId : String)
    (record : AdmissionRecord) : Prop where
  keys : ∃ keys : List Bytes, keys.map (canonicalHash H)=record.voters ∧
    ∀ vk ∈ keys, (vk,nodeId) ∈ recent
  distinct : record.voters.Nodup
  required : record.requiredEndorsements=m
  enough : record.state≠.applying → m≤record.endorsements.length

def AllBacked (H : CanonicalHash) (m : ℕ) (s : System) : Prop :=
  s.manager.m=m ∧ ∀ nodeId record, s.manager.records.get? nodeId=some record →
    Backed H m (s.recent nodeId) nodeId record

variable {P S} {H : CanonicalHash} {m : ℕ} {s : System} {nodeId : String}

theorem AllBacked.store (h : AllBacked H m s) {record : AdmissionRecord}
    (hr : Backed H m (s.recent nodeId) nodeId record) :
    AllBacked H m {s with manager := s.manager.store nodeId record} := by
  refine ⟨h.1,fun other found hf => ?_⟩
  rw [Manager.store,Dict.get?_set] at hf
  split_ifs at hf with ho
  · cases hf
    exact ho ▸ hr
  · exact h.2 other found hf

theorem Backed.mono {recent recent' : List (Bytes × String)} {record : AdmissionRecord}
    (h : Backed H m recent nodeId record) (hs : recent ⊆ recent') :
    Backed H m recent' nodeId record := by
  obtain ⟨keys,hk,hr⟩ := h.keys
  exact {h with keys := ⟨keys,hk,fun vk hvk => hs (hr vk hvk)⟩}

section
variable (h : AllBacked H m s)
include h

theorem AllBacked.transition {target : AdmissionState} {edit : AdmissionRecord → AdmissionRecord}
    {manager : Manager} (hc : s.manager.transition nodeId target edit=.ok manager)
    (he : ∀ record, (edit record).endorsements=record.endorsements ∧
      (edit record).requiredEndorsements=record.requiredEndorsements)
    (ht : ∀ state, (state,target) ∈ validAdmissionTransitions → state≠.applying) :
    AllBacked H m {s with manager := manager} := by
  rw [Manager.transition] at hc
  split at hc
  · cases hc
  · rename_i record hr
    split_ifs at hc with hv
    · cases hc
      obtain ⟨hvo,hre⟩ := he {record with state := target}
      have hb := h.2 nodeId record hr
      refine h.store ⟨?_,?_,hre.trans hb.required,fun _ => ?_⟩
      · rw [AdmissionRecord.voters,hvo]
        exact hb.keys
      · rw [AdmissionRecord.voters,hvo]
        exact hb.distinct
      · rw [hvo]
        exact hb.enough (ht record.state hv)

theorem AllBacked.apply {applicantVkHash : String} {now : UInt64} {manager : Manager}
    (hc : s.manager.apply nodeId applicantVkHash now=.ok manager) :
    AllBacked H m {s with
      manager := manager
      since := Function.update s.since nodeId s.signed.length} := by
  rw [Manager.apply] at hc
  split_ifs at hc
  cases hc
  refine ⟨h.1,fun other found hf => ?_⟩
  rw [Manager.store,Dict.get?_set] at hf
  split_ifs at hf with ho
  · cases hf
    exact ⟨⟨[],rfl,nofun⟩,nodup_nil,h.1,fun hs => absurd rfl hs⟩
  · simp only [System.recent,Function.update_of_ne (Ne.symm ho)]
    exact h.2 other found hf

theorem AllBacked.endorse {vote : EndorsementVote} {endorserVk : Bytes} {manager : Manager}
    (hu : Unforged P S s (.endorse nodeId vote endorserVk))
    (hc : Careful H s (.endorse nodeId vote endorserVk))
    (hca : s.manager.endorse P S nodeId vote (some endorserVk)=.ok manager) :
    AllBacked H m {s with manager := manager} := by
  obtain ⟨rfl,hh,hn⟩ := hc
  obtain ⟨_,hch,he⟩ := PyValue.bind_ok hca
  have hs : (endorserVk,vote.applicantNodeId) ∈ s.signed := by
    refine hu ?_
    rw [checkEndorsement] at hch
    split at hch
    · cases hch
    · assumption
    · cases hch
  have hr : (endorserVk,vote.applicantNodeId) ∈ s.recent vote.applicantNodeId := by
    rw [← take_append_drop (s.since vote.applicantNodeId) s.signed,mem_append] at hs
    exact hs.resolve_left hn
  split at he
  · cases he
  · rename_i record hre
    split_ifs at he with hst hv
    · cases he
      have hb := h.2 _ record hre
      obtain ⟨keys,hke,hk⟩ := hb.keys
      have hvo : (record.endorsements++[vote]).map EndorsementVote.endorserVkHash =
          record.voters++[vote.endorserVkHash] := map_append
      refine h.store ⟨⟨keys++[endorserVk],?_,?_⟩,?_,hb.required,fun hl => ?_⟩
      · rw [AdmissionRecord.voters,hvo,map_append,hke,hh]
        rfl
      · simp only [mem_append,mem_singleton]
        rintro vk (hvk|rfl)
        · exact hk vk hvk
        · exact hr
      · rw [AdmissionRecord.voters,hvo]
        exact nodup_append_comm.mp (nodup_cons.mpr ⟨hv,hb.distinct⟩)
      · rw [← hb.required]
        by_contra hf
        simp only [if_neg hf] at hl
        exact hl (not_not.mp hst)

theorem AllBacked.step {input : Input} (hu : Unforged P S s input) (hc : Careful H s input) :
    AllBacked H m (s.step P S input) := by
  unfold System.step
  cases hca : s.manager.call P S input with
  | error e => exact h
  | ok manager =>
    cases input with
    | sign vk nodeId =>
      cases hca
      refine ⟨h.1,fun other record hr => (h.2 other record hr).mono ?_⟩
      simp only [System.recent,drop_append]
      exact subset_append_left _ _
    | apply nodeId applicantVkHash now => exact h.apply hca
    | endorse nodeId vote endorserVk => exact h.endorse hu hc hca
    | _ =>
      simp only [Manager.call] at hca
      exact h.transition hca (fun _ => ⟨rfl,rfl⟩) fun state => by cases state <;> decide

end

/-- In a careful run a node leaves `APPLYING` only with `m` keys that endorsed it since it
applied. -/
theorem endorsed_by_m_keys (H : CanonicalHash) {n : ℕ} (hm : 1 ≤ m) (hn : m≤n)
    (inputs : List Input) (hunforged : (machine P S m n hm hn).Meets (Unforged P S) inputs)
    (hcareful : (machine P S m n hm hn).Meets (Careful H) inputs) :
    let s := (machine P S m n hm hn).state inputs
    ∀ nodeId record, s.manager.records.get? nodeId=some record → record.state≠.applying →
      ∃ keys : List Bytes, keys.Nodup ∧ m≤keys.length ∧
        ∀ vk ∈ keys, (vk,nodeId) ∈ s.recent nodeId := by
  intro s nodeId record hr hs
  have hb := Machine.invariant_of_meets (M := machine P S m n hm hn)
    (C := fun s input => Unforged P S s input ∧ Careful H s input)
    (P := fun s _ => AllBacked H m s) ⟨rfl,nofun⟩
    (fun s _ input h hi => h.step hi.1 hi.2) inputs
    fun before input after hsp => ⟨hunforged before input after hsp,hcareful before input after hsp⟩
  obtain ⟨⟨keys,hk,hre⟩,hd,-,he⟩ := hb.2 nodeId record hr
  refine ⟨keys,?_,?_,hre⟩
  · rw [← hk] at hd
    exact hd.of_map _
  · have hl := congrArg length hk
    rw [length_map,AdmissionRecord.voters,length_map] at hl
    rw [hl]
    exact he hs

end

section

def voteOf (key voter : Byte) (nodeId : String) : EndorsementVote :=
  ⟨vkHash voter,nodeId,[key],0,""⟩

def endorsedRun : List Input :=
  [.apply "a" "" 0,.sign [1] "a",.sign [2] "a",.endorse "a" (voteOf 1 1 "a") [1],
    .endorse "a" (voteOf 2 2 "a") [2]]

def relabelledRun : List Input :=
  [.apply "a" "" 0,.sign [1] "b",.endorse "a" (voteOf 1 1 "b") [1],
    .endorse "a" (voteOf 1 2 "b") [1]]

def twoOfThree : Machine System Input Empty :=
  machine byteProfile byteScheme 2 3 (by decide) (by decide)

theorem endorsedRun_two_keys :
    ((twoOfThree.state endorsedRun).manager.records.get? "a").map AdmissionRecord.state =
        some .endorsed ∧
      ∀ record, (twoOfThree.state endorsedRun).manager.records.get? "a" = some record →
        record.state≠.applying → ∃ keys : List Bytes, keys.Nodup ∧ 2≤keys.length ∧
          ∀ vk ∈ keys, (vk,"a") ∈ (twoOfThree.state endorsedRun).recent "a" := by
  refine ⟨by decide +kernel,endorsed_by_m_keys cutHash (by decide) (by decide) endorsedRun
    ?_ ?_ "a"⟩
  · exact (twoOfThree.meetsFrom_start_iff _ _).mp
      ⟨trivial,trivial,trivial,fun _ => by decide +kernel,fun _ => by decide +kernel,trivial⟩
  · exact (twoOfThree.meetsFrom_start_iff _ _).mp ⟨trivial,trivial,trivial,
      ⟨rfl,rfl,by decide +kernel⟩,⟨rfl,rfl,by decide +kernel⟩,trivial⟩

theorem relabelledRun_one_key :
    ((twoOfThree.state relabelledRun).manager.records.get? "a").map AdmissionRecord.state =
        some .endorsed ∧ (twoOfThree.state relabelledRun).signed=[([1],"b")] := by decide +kernel

end

end LatticeTransfer.NodeAdmission
