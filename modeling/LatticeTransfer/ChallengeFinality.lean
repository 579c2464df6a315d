import LatticeTransfer.ChallengeManager

/-!
# Windows that are over

A window that is finalized, resolved or expired is left alone by every call but one:
`open_challenge_window` looks for an active window only and replaces any other.
-/

namespace LatticeTransfer.ChallengeManager
open MerkleTree
open MerkleLog (MLDSA)
open Method (exec_bind exec_call exec_discard exec_get)

variable (P : SecurityProfile) (S : MLDSA) (H : CanonicalHash)

def ChallengeStatus.Terminal (status : ChallengeStatus) : Prop :=
  status=.finalized ∨ status=.resolved ∨ status=.expired

instance (status : ChallengeStatus) : Decidable status.Terminal :=
  inferInstanceAs (Decidable (_ ∨ _))

namespace ChallengeStatus
variable {status : ChallengeStatus}

theorem terminal_iff : status.Terminal ↔ ¬(status=.open ∨ status=.challenged) := by
  cases status <;> simp [Terminal]

end ChallengeStatus

theorem tickRecord_of_terminal {T : Type} [LinearOrder T] {record : ChallengeRecord T}
    (hterminal : record.status.Terminal) (now : T) : tickRecord now record=record := by
  have ho := not_or.mp (ChallengeStatus.terminal_iff.mp hterminal)
  rw [tickRecord,if_neg fun h => ho.1 h.1,if_neg fun h => ho.2 h.1]

section
variable {T : Type} {entityId : String} {record : ChallengeRecord T} {d : Windows T}
  (hrc : d.get? entityId=some record) (ht : record.status.Terminal)
include hrc ht

theorem MovesTo.keeps_terminal {other : String} {status : ChallengeStatus} {d' : Windows T}
    (hm : MovesTo other status d d') : d'.get? entityId=some record := by
  rcases hm with rfl|⟨found,_,hf,ha,_,hw⟩
  · exact hrc
  · have hne : other≠entityId := by
      rintro rfl
      rw [hrc] at hf
      cases hf
      exact ChallengeStatus.terminal_iff.mp ht ha
    rw [hw entityId,if_neg hne]
    exact hrc

theorem tick_keeps_terminal [LinearOrder T] [Zero T] (clock : T) (now : Option T) :
    ((tick clock now).exec d).2.get? entityId=some record := by
  simp only [tick,exec_bind,exec_get,Method.exec_modify,Method.exec_pure,
    Dict.get?_mapValues,hrc,Option.map_some,tickRecord_of_terminal ht]

end

section
variable {T : Type} [Add T] [Zero T] (challengePeriod : T)

/-- A window is opened, if the digest is well formed, only for an entity whose last window is not
over. -/
def OpensOnce (d : Windows T) : Operation T → Prop
  | .openChallengeWindow _ entityId anchorDigest => anchorDigest.length=32 →
      ∀ record, d.get? entityId=some record → ¬record.status.Terminal
  | _ => True

variable {entityId : String} {record : ChallengeRecord T} {d : Windows T}

theorem openChallengeWindow_of_not_terminal {other : String}
    (hrecord : d.get? entityId=some record) (hterminal : record.status.Terminal) {now : T}
    {digest : Bytes} (ho : OpensOnce d (.openChallengeWindow now other digest)) :
    ((openChallengeWindow challengePeriod now other digest).exec d).2.get? entityId =
      some record := by
  simp only [openChallengeWindow]
  split_ifs with hl
  · exact hrecord
  · rw [exec_bind,exec_get]
    dsimp only
    split_ifs with ha
    · exact hrecord
    · have hne : other≠entityId := by
        rintro rfl
        exact ho (not_not.mp hl) record hrecord hterminal
      exact ((Dict.get?_set _ _ _ _).trans (if_neg hne)).trans hrecord

theorem openChallengeWindow_of_terminal (hrecord : d.get? entityId=some record)
    (hterminal : record.status.Terminal) (now : T) {digest : Bytes} (hl : digest.length=32) :
    ((openChallengeWindow challengePeriod now entityId digest).exec d).2.get? entityId =
      some ⟨entityId,digest,.open,now,now+challengePeriod,"",[],"",0,""⟩ := by
  have ho := ChallengeStatus.terminal_iff.mp hterminal
  simp only [openChallengeWindow]
  rw [if_neg (not_not.mpr hl),exec_bind,exec_get]
  dsimp only
  rw [if_neg (by simpa [hrecord] using ho)]
  exact (Dict.get?_set _ _ _ _).trans (if_pos rfl)

variable [LinearOrder T]

theorem step_keeps_terminal {operation : Operation T} (hrecord : d.get? entityId=some record)
    (hterminal : record.status.Terminal) (ho : OpensOnce d operation) :
    ((machine P S H challengePeriod).step d operation).1.get? entityId=some record := by
  change ((perform P S H challengePeriod operation).exec d).2.get? entityId=some record
  cases operation with
  | openChallengeWindow now other digest =>
    rw [perform,exec_discard]
    exact openChallengeWindow_of_not_terminal challengePeriod hrecord hterminal ho
  | submitChallenge now other proof who =>
    rw [perform,exec_discard]
    rcases submitChallenge_exec P S H now other proof who d with hs|⟨-,hm⟩
    · rw [hs]
      exact hrecord
    · exact hm.keeps_terminal hrecord hterminal
  | resolveChallenge now other res =>
    rw [perform,exec_discard]
    exact (resolveChallenge_exec res).keeps_terminal hrecord hterminal
  | resolveWithProof now other ok =>
    rw [perform,exec_discard]
    exact (resolveWithProof_exec ok).keeps_terminal hrecord hterminal
  | tick clock now =>
    exact tick_keeps_terminal hrecord hterminal clock now

theorem exists_replaced {operation : Operation T} (h : ¬OpensOnce d operation) :
    ∃ entityId record, d.get? entityId=some record ∧ record.status.Terminal ∧
      ((machine P S H challengePeriod).step d operation).1.get? entityId≠some record := by
  cases operation with
  | openChallengeWindow now entityId digest =>
    simp only [OpensOnce,not_forall,not_not] at h
    obtain ⟨hl,record,hrecord,hterminal⟩ := h
    refine ⟨entityId,record,hrecord,hterminal,fun hs => ?_⟩
    change ((perform P S H challengePeriod _).exec d).2.get? entityId=some record at hs
    rw [perform,exec_discard,
      openChallengeWindow_of_terminal challengePeriod hrecord hterminal now hl] at hs
    rw [← Option.some.inj hs] at hterminal
    exact ChallengeStatus.terminal_iff.mp hterminal (.inl rfl)
  | submitChallenge | resolveChallenge | resolveWithProof | tick => exact absurd trivial h

/-- A window that is over stays as it is for the rest of the run, and is never replaced, in
exactly the runs that open no window for an entity whose last one is over. -/
theorem terminal_forever_iff (operations : List (Operation T)) :
    (∀ before mid after entityId record, operations=before++mid++after →
      ((machine P S H challengePeriod).state before).get? entityId=some record →
      record.status.Terminal →
      ((machine P S H challengePeriod).state (before++mid)).get? entityId=some record) ↔
      (machine P S H challengePeriod).Meets OpensOnce operations := by
  constructor
  · intro h before operation after hs
    by_contra hn
    obtain ⟨entityId,record,hrecord,hterminal,hr⟩ :=
      exists_replaced P S H challengePeriod hn
    have hsa := h before [operation] after entityId record (by rw [hs]; simp) hrecord
      hterminal
    rw [Machine.state_snoc] at hsa
    exact hr hsa
  · intro h before mid after entityId record hs hrecord hterminal
    refine Machine.persists (C := OpensOnce)
      (fun d operation hd ho => step_keeps_terminal P S H challengePeriod hd hterminal ho)
      hrecord mid ?_
    intro done operation rest hm
    exact h (before++done) operation (rest++after) (by rw [hs,hm]; simp)

end

def reopenedRun : List (Operation ℕ) :=
  [.openChallengeWindow 0 "a" (List.replicate 32 0),
    .submitChallenge 1 "a" (.invalidSignature ⟨List.replicate 32 0,[1],[],[]⟩) "watcher",
    .resolveChallenge 2 "a" "valid_fraud",
    .openChallengeWindow 3 "a" (List.replicate 32 0),
    .tick 200 none]

def statusAfter (operations : List (Operation ℕ)) : Option ChallengeStatus :=
  (((machine headProfile MerkleLog.plainScheme cutHash 100).state operations).get? "a").map
    ChallengeRecord.status

theorem reopenedRun_fraud_finalized : statusAfter (reopenedRun.take 3)=some .resolved ∧
      statusAfter (reopenedRun.take 4)=some .open ∧ statusAfter reopenedRun=some .finalized := by
  decide +kernel

end LatticeTransfer.ChallengeManager
