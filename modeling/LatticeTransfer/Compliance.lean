import LatticeTransfer.CommitmentLog

/-!
# The compliance audit log

`ComplianceAuditLogger` binds each event to the one before it by a hash, and drops the events whose
retention is over. The JSON text of an event is a parameter.
-/

namespace LatticeTransfer.Compliance
open MerkleTree CommitmentLog List

structure AuditLogger (Event : Type) where
  events : List Event
  chainHashes : List String
  headHash : String

inductive Operation (Event : Type)
  | log (event : Event)
  | evictExpired (currentEpoch : ℤ)

variable {Event : Type} (H : CanonicalHash) (eventBytes : Event → Bytes) (epoch : Event → ℤ)
  (retentionEpochs : ℤ)

def genesis : String := canonicalHash H (encodeText "audit-log-genesis")

def chainHash (prevHash : String) (event : Event) : String :=
  canonicalHash H (eventBytes event++encodeText prevHash)

def verifyFrom (prevHash : String) (i : ℕ) : List Event → List String → Bool × ℕ
  | event::events, stored::hashes =>
    let expected := chainHash H eventBytes prevHash event
    if expected≠stored then (false,i) else verifyFrom expected (i+1) events hashes
  | _, _ => (true,i)

namespace AuditLogger
variable (s : AuditLogger Event)

def log (event : Event) : AuditLogger Event :=
  let hash := chainHash H eventBytes s.headHash event
  ⟨s.events++[event],s.chainHashes++[hash],hash⟩

def verifyChainIntegrity : Bool × ℕ :=
  verifyFrom H eventBytes (genesis H) 0 s.events s.chainHashes

def evictExpired (currentEpoch : ℤ) : AuditLogger Event :=
  let keepFrom := s.events.findIdx fun event => currentEpoch-retentionEpochs≤epoch event
  {s with events := s.events.drop keepFrom,chainHashes := s.chainHashes.drop keepFrom}

def Linked : Prop := ∀ events hashes,
  verifyFrom H eventBytes (genesis H) 0 (s.events++events) (s.chainHashes++hashes) =
    verifyFrom H eventBytes s.headHash s.events.length events hashes

end AuditLogger

def machine : Machine (AuditLogger Event) (Operation Event) Empty where
  start := ⟨[],[],genesis H⟩
  step s
    | .log event => (s.log H eventBytes event,[])
    | .evictExpired currentEpoch => (s.evictExpired epoch retentionEpochs currentEpoch,[])

/-- The eviction keeps the first event or drops all of them, and nothing is logged after all events
were dropped. -/
def Retains (s : AuditLogger Event) : Operation Event → Prop
  | .log _ => s.events=[] → s.headHash=genesis H
  | .evictExpired currentEpoch =>
    (∀ first ∈ s.events.head?, currentEpoch-retentionEpochs≤epoch first) ∨
      ∀ event ∈ s.events, epoch event<currentEpoch-retentionEpochs

def AuditLogger.Intact (s : AuditLogger Event) : Prop :=
  s.events=[] ∧ s.chainHashes=[] ∨ s.Linked H eventBytes

variable {H eventBytes epoch retentionEpochs} {s : AuditLogger Event}

theorem linked_log (h : s.Linked H eventBytes) (event : Event) :
    (s.log H eventBytes event).Linked H eventBytes := by
  intro events hashes
  dsimp only [AuditLogger.log]
  rw [append_assoc,append_assoc,h]
  simp [verifyFrom]

theorem intact_evictExpired (hl : s.chainHashes.length=s.events.length)
    (h : s.Intact H eventBytes) {now : ℤ}
    (hr : Retains H epoch retentionEpochs s (.evictExpired now)) :
    (s.evictExpired epoch retentionEpochs now).Intact H eventBytes := by
  rcases hr with hf|ha
  · -- the first event stays, and with it all the others
    have hz : (s.events.findIdx fun event => now-retentionEpochs≤epoch event)=0 := by
      cases he : s.events with
      | nil => rfl
      | cons first rest =>
        rw [findIdx_cons,decide_eq_true (hf first (by rw [he]; rfl))]
        rfl
    rwa [AuditLogger.evictExpired,hz]
  · have hz : (s.events.findIdx fun event => now-retentionEpochs≤epoch event) =
        s.events.length := by
      refine findIdx_eq_length.mpr fun event he => ?_
      exact decide_eq_false (not_le.mpr (ha event he))
    refine .inl ⟨?_,?_⟩
    · rw [AuditLogger.evictExpired,hz]
      exact drop_length
    · rw [AuditLogger.evictExpired,hz,← hl]
      exact drop_length

variable (H eventBytes epoch retentionEpochs)

/-- Until an event is dropped before one that stays or comes, the check accepts the log. -/
theorem chain_intact_of_retained (ops : List (Operation Event))
    (h : (machine H eventBytes epoch retentionEpochs).Meets (Retains H epoch retentionEpochs) ops) :
    let s := (machine H eventBytes epoch retentionEpochs).state ops
    s.verifyChainIntegrity H eventBytes=(true,s.events.length) := by
  have hi := Machine.invariant_of_meets (P := fun s _ => s.chainHashes.length=s.events.length ∧
    s.Intact H eventBytes) ⟨rfl,.inl ⟨rfl,rfl⟩⟩ (fun s _ op hs hr => ?_) ops h
  · rcases hi.2 with ⟨he,-⟩|hl
    · simp [AuditLogger.verifyChainIntegrity,he,verifyFrom]
    · simpa [AuditLogger.verifyChainIntegrity,verifyFrom] using hl [] []
  · obtain ⟨hl,hs⟩ := hs
    cases op with
    | log event =>
      refine ⟨by simp [machine,AuditLogger.log,hl],.inr (linked_log ?_ event)⟩
      rcases hs with ⟨he,hc⟩|hs
      · intro events hashes
        rw [he,hc,hr he]
        rfl
      · exact hs
    | evictExpired now =>
      refine ⟨?_,intact_evictExpired hl hs hr⟩
      simp [machine,AuditLogger.evictExpired,hl]

def timed : Machine (AuditLogger (ℤ × Bytes)) (Operation (ℤ × Bytes)) Empty :=
  machine cutHash Prod.snd Prod.fst 5

theorem timed_log_intact : timed.Meets (Retains cutHash Prod.fst 5)
        ([.log (0,[1])]++[.evictExpired 5]++[.evictExpired 9]) ∧
      (timed.state [.log (0,[1]),.evictExpired 5,.evictExpired 9]).verifyChainIntegrity
        cutHash Prod.snd=(true,0) := by
  have h : timed.Meets (Retains cutHash Prod.fst 5)
      ([.log (0,[1])]++[.evictExpired 5]++[.evictExpired 9]) := by
    refine timed.meets_snoc.mpr ⟨timed.meets_snoc.mpr ⟨timed.meets_snoc.mpr
      ⟨timed.meets_nil _,fun _ => rfl⟩,.inl ?_⟩,.inr ?_⟩
    · decide
    · decide
  exact ⟨h,chain_intact_of_retained _ _ _ _ _ h⟩

theorem evicted_log_rejected :
    (timed.state [.log (0,[1]),.log (9,[2]),.evictExpired 9]).verifyChainIntegrity
      cutHash Prod.snd=(false,0) := by decide +kernel

end LatticeTransfer.Compliance
