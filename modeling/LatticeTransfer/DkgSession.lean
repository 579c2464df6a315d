import LatticeTransfer.CurveBackend

/-!
# Sessions of the distributed key generation

`PedersenVSS` and `DKGSession`. A dealer publishes two vectors of commitments to the
coefficients of its secret polynomial, the second one blinded, and sends every
other participant its shares. A session collects what it receives, complains about
shares that do not open the blinded commitments, and derives its share of the group
secret and the group public key from the dealers left after the complaints. The
random coefficients are inputs of `begin`.

A session keeps the qualified dealers in the order of its dictionary; the source
iterates over a set, and nothing it computes depends on the order.
-/

namespace LatticeTransfer
open ScalarField ScalarPoly ShamirSharing Backend List

section
variable {G₁ G₂ G₃ : Type} [AddCommGroup G₁] [Module (ZMod R) G₁] [AddCommGroup G₂]
  [Module (ZMod R) G₂] [AddCommGroup G₃] [Module (ZMod R) G₃] [DecidableEq G₁]
  (B : Backend G₁ G₂ G₃)

structure Dealing (threshold : ℕ) where
  secret : List ℤ
  blinding : List ℤ
  length_secret : secret.length=threshold
  length_blinding : blinding.length=threshold

namespace PedersenVss

omit [DecidableEq G₁] in
def openPoint (share blinding : ℤ) : G₁ :=
  g1ScalarMul B.generator share+g1ScalarMul B.hPoint blinding

def generateCommitments (secret blinding : List ℤ) : List Bytes × List Bytes :=
  ((secret.zip blinding).map fun c => B.g1Serialize (g1ScalarMul B.generator c.1),
    (secret.zip blinding).map fun c => B.g1Serialize (openPoint B c.1 c.2))

def createShare (secret blinding : List ℤ) (recipientIndex : ℤ) : ℤ × ℤ :=
  (evaluate secret recipientIndex,evaluate blinding recipientIndex)

def combineCommitments (recipientIndex : ℤ) (pedersen : List Bytes) (acc : G₁ × ℤ) :
    Except PyError (G₁ × ℤ) :=
  pedersen.foldlM (fun acc commitment => do
    let point ← B.g1Deserialize commitment
    return (acc.1+g1ScalarMul point acc.2,mul acc.2 recipientIndex)) acc

def verifyShare (recipientIndex share blindingShare : ℤ) (pedersen : List Bytes) :
    Except PyError Bool := do
  let combined ← combineCommitments B recipientIndex pedersen (0,1)
  return openPoint B share blindingShare=combined.1

theorem combineCommitments_serialize (x : ℤ) (points : List G₁) (acc : G₁ × ℤ) :
    ∃ power, combineCommitments B x (points.map B.g1Serialize) acc =
      .ok (acc.1+(acc.2 : ZMod R) • hornerSum (x : ZMod R) points,power) := by
  induction points generalizing acc with
  | nil => exact ⟨acc.2,by simp; rfl⟩
  | cons p points ih =>
    obtain ⟨power,hr⟩ := ih (acc.1+g1ScalarMul p acc.2,mul acc.2 x)
    refine ⟨power,?_⟩
    rw [combineCommitments,map_cons,foldlM_cons,B.g1Deserialize_g1Serialize]
    refine hr.trans ?_
    rw [hornerSum_cons,cast_mul,smul_add,mul_smul,g1ScalarMul,add_assoc]

theorem verifyShare_serialize (x share blinding : ℤ) (points : List G₁) :
    verifyShare B x share blinding (points.map B.g1Serialize) =
      .ok (decide (openPoint B share blinding=hornerSum (x : ZMod R) points)) := by
  obtain ⟨power,hc⟩ := combineCommitments_serialize B x points (0,1)
  rw [verifyShare,hc]
  simp only [Int.cast_one,one_smul,zero_add]
  rfl

omit [DecidableEq G₁] in
theorem hornerSum_openPoint (x : ℤ) {secret blinding : List ℤ} (h : secret.length=blinding.length) :
    hornerSum (x : ZMod R) ((secret.zip blinding).map fun c => openPoint B c.1 c.2) =
      openPoint B (evaluate secret x) (evaluate blinding x) := by
  have hp : ((secret.zip blinding).map fun c => openPoint B c.1 c.2) =
      zipWith (· + ·) ((secret.map (Int.cast : ℤ → ZMod R)).map (· • B.generator))
        ((blinding.map (Int.cast : ℤ → ZMod R)).map (· • B.hPoint)) := by
    simp only [zip,map_zipWith,zipWith_map]
    rfl
  rw [hp,hornerSum_zipWith_add _ (by simp [h]),hornerSum_smul,hornerSum_smul,openPoint,
    g1ScalarMul,g1ScalarMul,cast_evaluate,cast_evaluate]
  rfl

theorem verifyShare_generateCommitments {t : ℕ} (d : Dealing t) (x share blinding : ℤ) :
    verifyShare B x share blinding (generateCommitments B d.secret d.blinding).2 =
      .ok (decide (openPoint B share blinding =
        openPoint B (evaluate d.secret x) (evaluate d.blinding x))) := by
  have hl := d.length_secret.trans d.length_blinding.symm
  have hp : (generateCommitments B d.secret d.blinding).2 =
      ((d.secret.zip d.blinding).map fun c => openPoint B c.1 c.2).map B.g1Serialize := by
    rw [map_map]
    rfl
  rw [hp,verifyShare_serialize,hornerSum_openPoint B x hl]

theorem generateCommitments_feldman {t : ℕ} (ht : 0<t) (d : Dealing t) :
    ∃ rest, (generateCommitments B d.secret d.blinding).1 =
      B.g1Serialize ((toPolynomial d.secret).eval 0 • B.generator)::rest := by
  obtain ⟨t,rfl⟩ := Nat.exists_eq_add_one.mpr ht
  obtain ⟨c,secret,hs⟩ := exists_cons_of_length_eq_add_one d.length_secret
  obtain ⟨b,blinding,hb⟩ := exists_cons_of_length_eq_add_one d.length_blinding
  rw [hs,hb]
  refine ⟨_,congrArg₂ cons (congrArg B.g1Serialize ?_) rfl⟩
  rw [toPolynomial,eval_zero_ofCoeffs]
  rfl

end PedersenVss

namespace Dkg
open PedersenVss

inductive State
  | idle
  | committing
  | sharing
  | verifying
  | complaining
  | finalizing
  | completed
  | failed
deriving DecidableEq

def State.value : State → String
  | .idle => "idle"
  | .committing => "committing"
  | .sharing => "sharing"
  | .verifying => "verifying"
  | .complaining => "complaining"
  | .finalizing => "finalizing"
  | .completed => "completed"
  | .failed => "failed"

structure Commitment where
  dealerFp : Bytes
  feldmanCommitments : List Bytes
  pedersenCommitments : List Bytes
  roundId : ℕ
deriving DecidableEq

structure Share where
  dealerFp : Bytes
  recipientFp : Bytes
  share : ℤ
  blindingShare : ℤ
deriving DecidableEq

structure Complaint where
  complainantFp : Bytes
  dealerFp : Bytes
  revealedShare : ℤ
  revealedBlinding : ℤ
  roundId : ℕ
deriving DecidableEq

structure SessionConfig where
  vmTag : ℕ
  epoch : ℕ
  threshold : ℕ
  participants : PyList Bytes
  timeoutRounds : ℕ
  startRound : ℕ

structure Result where
  vmTag : ℕ
  epoch : ℕ
  groupPk : Bytes
  participantVks : List (Bytes × Bytes)
  threshold : ℕ
  qualSet : List Bytes
  mySecretShare : ℤ
deriving Inhabited

structure ThresholdSigningKey where
  participantFp : Bytes
  participantIndex : ℕ
  secretShare : ℤ
  groupPk : Bytes
  threshold : ℕ
  epoch : ℕ
  vmTag : ℕ
deriving DecidableEq, Inhabited

structure Session where
  config : SessionConfig
  state : State
  myFp : Bytes
  myIndex : ℕ
  secretPoly : Option (List ℤ)
  blindingPoly : Option (List ℤ)
  commitments : Dict Bytes Commitment
  shares : Dict Bytes Share
  complaints : List Complaint
  qual : List Bytes

namespace Session

def init (config : SessionConfig) (myFp : Bytes) (myIndex : ℕ) : Session :=
  ⟨config,.idle,myFp,myIndex,none,none,Dict.empty,Dict.empty,[],[]⟩

def ownCommitment (config : SessionConfig) (fp : Bytes) {t : ℕ} (d : Dealing t) : Commitment :=
  ⟨fp,(generateCommitments B d.secret d.blinding).1,
    (generateCommitments B d.secret d.blinding).2,config.startRound⟩

def shareFor (fp : Bytes) {t : ℕ} (d : Dealing t) (recipientFp : Bytes) (index : ℕ) : Share :=
  ⟨fp,recipientFp,(createShare d.secret d.blinding index).1,
    (createShare d.secret d.blinding index).2⟩

def dealShares (config : SessionConfig) (fp : Bytes) {t : ℕ} (d : Dealing t) : Dict Bytes Share :=
  (config.participants.val.zipIdx 1).foldl (fun shares p =>
    if p.1=fp then shares else shares.set p.1 (shareFor fp d p.1 p.2)) Dict.empty

def begin (s : Session) {t : ℕ} (d : Dealing t) :
    Except PyError (Session × Commitment × Dict Bytes Share) :=
  let state := s.state.value
  if s.state≠.idle then
    .error (.valueError s!"cannot begin: state is not IDLE (is {state})")
  else
    let commitment := ownCommitment B s.config s.myFp d
    .ok ({s with
        secretPoly := some d.secret
        blindingPoly := some d.blinding
        commitments := s.commitments.set s.myFp commitment
        state := .committing},
      commitment,dealShares s.config s.myFp d)

def receiveCommitment (s : Session) (commitment : Commitment) : Session :=
  {s with commitments := s.commitments.set commitment.dealerFp commitment}

def endCommitmentPhase (s : Session) : Session := {s with state := .sharing}

def receiveShare (s : Session) (share : Share) : Session :=
  {s with shares := s.shares.set share.dealerFp share}

def checkShare (s : Session) (entry : Bytes × Share) : Except PyError (List Complaint) :=
  match s.commitments.get? entry.1 with
  | none => .ok []
  | some commitment => do
    let valid ← verifyShare B s.myIndex entry.2.share entry.2.blindingShare
      commitment.pedersenCommitments
    return if valid then []
      else [⟨s.myFp,entry.1,entry.2.share,entry.2.blindingShare,s.config.startRound⟩]

def endSharingPhase (s : Session) : Except PyError (List Complaint) × Session :=
  match s.shares.entries.mapM (s.checkShare B) with
  | .error e => (.error e,{s with state := .verifying})
  | .ok complaints =>
    (.ok complaints.flatten,{s with complaints := complaints.flatten,state := .complaining})

def receiveComplaint (s : Session) (complaint : Complaint) : Session :=
  {s with complaints := s.complaints++[complaint]}

def indexOf (participants : List Bytes) (fp : Bytes) : Except PyError ℕ :=
  if fp ∈ participants then .ok (participants.idxOf fp)
  else .error (.valueError "value is not in list")

def upholds (s : Session) (complaint : Complaint) : Except PyError Bool :=
  match s.commitments.get? complaint.dealerFp with
  | none => .ok false
  | some commitment => do
    let index ← indexOf s.config.participants.val complaint.complainantFp
    let valid ← verifyShare B (index+1 : ℕ) complaint.revealedShare complaint.revealedBlinding
      commitment.pedersenCommitments
    return !valid

def resolveComplaints (s : Session) : List Complaint → List Bytes → Except PyError Unit × List Bytes
  | [], qual => (.ok (),qual)
  | complaint::complaints, qual =>
    match s.upholds B complaint with
    | .error e => (.error e,qual)
    | .ok upheld => s.resolveComplaints complaints
        (if upheld then qual.filter (· ≠ complaint.dealerFp) else qual)

def publicPoint (s : Session) (fp : Bytes) : Except PyError G₁ :=
  match s.commitments.get? fp with
  | none => .error .keyError
  | some commitment =>
    match commitment.feldmanCommitments with
    | [] => .error (.indexError "list index out of range")
    | first::_ => B.g1Deserialize first

def groupPoint (s : Session) (qual : List Bytes) (acc : G₁) : Except PyError G₁ :=
  qual.foldlM (fun acc fp => do return acc+(← s.publicPoint B fp)) acc

def addShare (s : Session) (acc : ℤ) (fp : Bytes) : Except PyError ℤ :=
  if fp=s.myFp then
    match s.secretPoly with
    | none => .error .attributeError
    | some secret => .ok (add acc (evaluate secret s.myIndex))
  else
    match s.shares.get? fp with
    | none => .ok acc
    | some share => .ok (add acc share.share)

def deriveKeys (s : Session) (qual : List Bytes) :
    Except PyError (Result × ThresholdSigningKey) := do
  let group ← s.groupPoint B qual 0
  let share ← qual.foldlM s.addShare 0
  let vk := B.g1Serialize (g1ScalarMul B.generator share)
  let groupPk := B.g1Serialize group
  return (⟨s.config.vmTag,s.config.epoch,groupPk,[(s.myFp,vk)],s.config.threshold,qual,share⟩,
    ⟨s.myFp,s.myIndex,share,groupPk,s.config.threshold,s.config.epoch,s.config.vmTag⟩)

def finalize (s : Session) : Except PyError (Result × ThresholdSigningKey) × Session :=
  match s.resolveComplaints B s.complaints s.commitments.keys with
  | (.error e,qual) => (.error e,{s with qual := qual,state := .finalizing})
  | (.ok _,qual) =>
    let size := qual.length
    let threshold := s.config.threshold
    if size<threshold then
      (.error (.valueError s!"QUAL set too small: {size} < threshold {threshold}"),
        {s with qual := qual,state := .failed})
    else
      match s.deriveKeys B qual with
      | .error e => (.error e,{s with qual := qual,state := .finalizing})
      | .ok keys => (.ok keys,{s with qual := qual,state := .completed})

def distribute (s : Session) (commitments : List Commitment) : Session :=
  commitments.foldl (fun s c => if c.dealerFp≠s.myFp then s.receiveCommitment c else s) s

def gathered (config : SessionConfig) (fp : Bytes) (index : ℕ) {t : ℕ} (d : Dealing t)
    (commitments : List Commitment) (shares : List Share) : Session where
  config := config
  state := .sharing
  myFp := fp
  myIndex := index
  secretPoly := some d.secret
  blindingPoly := some d.blinding
  commitments := Dict.setAll Commitment.dealerFp
    (Dict.empty.set fp (ownCommitment B config fp d)) (commitments.filter (·.dealerFp≠fp))
  shares := Dict.setAll Share.dealerFp Dict.empty shares
  complaints := []
  qual := []

theorem distribute_eq (s : Session) (commitments : List Commitment) :
    s.distribute commitments={s with
      commitments := Dict.setAll Commitment.dealerFp s.commitments
        (commitments.filter (·.dealerFp≠s.myFp))} := by
  induction commitments generalizing s with
  | nil => rfl
  | cons c commitments ih =>
    rw [distribute,foldl_cons,filter_cons]
    by_cases hc : c.dealerFp=s.myFp
    · simp only [hc,ne_eq]
      exact ih s
    · simp only [hc,ne_eq]
      exact ih (s.receiveCommitment c)

theorem foldl_receiveShare (s : Session) (shares : List Share) : shares.foldl receiveShare s =
      {s with shares := Dict.setAll Share.dealerFp s.shares shares} := by
  induction shares generalizing s with
  | nil => rfl
  | cons share shares ih => exact ih (s.receiveShare share)

theorem foldl_receiveComplaint (s : Session) (complaints : List Complaint) :
    complaints.foldl receiveComplaint s = {s with complaints := s.complaints++complaints} := by
  induction complaints generalizing s with
  | nil => simp
  | cons complaint complaints ih =>
    rw [foldl_cons,ih,receiveComplaint,append_assoc]
    rfl

variable {t : ℕ}

theorem begin_init (config : SessionConfig) (fp : Bytes) (index : ℕ) (d : Dealing t) :
    ∃ s, (init config fp index).begin B d =
        .ok (s,ownCommitment B config fp d,dealShares config fp d) ∧
      s.myFp=fp ∧ ∀ commitments shares,
        shares.foldl receiveShare (s.distribute commitments).endCommitmentPhase =
          gathered B config fp index d commitments shares := by
  refine ⟨_,rfl,rfl,fun commitments shares => ?_⟩
  rw [foldl_receiveShare,distribute_eq]
  rfl

section
variable {config : SessionConfig} {fp dealer : Bytes} {index t : ℕ}
  {cs : List Commitment} {shares : List Share}

theorem get?_commitments_gathered {d : Dealing t} {c : Commitment}
    (hg : (gathered B config fp index d cs shares).commitments.get? dealer=some c) :
    dealer=fp ∧ c=ownCommitment B config fp d ∨ dealer≠fp ∧ c ∈ cs ∧ c.dealerFp=dealer := by
  rcases Dict.get?_setAll hg with ⟨hm,hk⟩|hs
  · obtain ⟨hc,hne⟩ := mem_filter.mp hm
    rw [decide_eq_true_eq,hk] at hne
    exact .inr ⟨hne,hc,hk⟩
  · rw [Dict.get?_set] at hs
    split_ifs at hs with hfp
    · exact .inl ⟨hfp.symm,(Option.some.inj hs).symm⟩
    · cases hs

variable (config index shares) in
theorem exists_commitment_gathered (d : Dealing t) (h : dealer=fp ∨ ∃ c ∈ cs, c.dealerFp=dealer) :
    ∃ c, (gathered B config fp index d cs shares).commitments.get? dealer=some c := by
  refine Dict.exists_get?_setAll ?_
  by_cases hfp : dealer=fp
  · exact .inr ⟨_,by rw [hfp,Dict.get?_set_self]⟩
  · obtain ⟨c,hc,hk⟩ := h.resolve_left hfp
    refine .inl ⟨c,mem_filter.mpr ⟨hc,?_⟩,hk⟩
    rw [decide_eq_true_eq,hk]
    exact hfp

def Committed (config : SessionConfig) (dealing : Bytes → Dealing t)
    (commitments : List Commitment) : Prop :=
  ∀ c ∈ commitments, c=ownCommitment B config c.dealerFp (dealing c.dealerFp)

variable {dealing : Bytes → Dealing t}

variable (h : Committed B config dealing cs)
include h

theorem Committed.get? {c : Commitment}
    (hg : (gathered B config fp index (dealing fp) cs shares).commitments.get? dealer =
      some c) : c=ownCommitment B config dealer (dealing dealer) := by
  rcases get?_commitments_gathered B hg with ⟨rfl,rfl⟩|⟨_,hm,rfl⟩
  · rfl
  · exact h c hm

theorem Committed.mem_dealers :
    (gathered B config fp index (dealing fp) cs shares).commitments.get? dealer =
        some (ownCommitment B config dealer (dealing dealer)) ↔
      dealer=fp ∨ ∃ c ∈ cs, c.dealerFp=dealer := by
  constructor
  · intro hg
    rcases get?_commitments_gathered B hg with ⟨hfp,_⟩|⟨_,hm,hk⟩
    · exact .inl hfp
    · exact .inr ⟨_,hm,hk⟩
  · intro hd
    obtain ⟨c,hc⟩ := exists_commitment_gathered B config index shares (dealing fp) hd
    rw [hc,h.get? B hc]

end

variable {s : Session} {qual : List Bytes}

theorem resolveComplaints_ok {cs : List Complaint} {qual' : List Bytes}
    (h : s.resolveComplaints B cs qual=(.ok (),qual')) :
    qual'.Sublist qual ∧ (∀ c ∈ cs, ∃ upheld, s.upholds B c=.ok upheld) ∧
      ∀ d, d ∈ qual' ↔ d ∈ qual ∧ ∀ c ∈ cs, c.dealerFp=d → s.upholds B c=.ok false := by
  induction cs generalizing qual with
  | nil =>
    obtain rfl : qual=qual' := congrArg Prod.snd h
    exact ⟨.refl _,by simp,by simp⟩
  | cons c cs ih =>
    rw [resolveComplaints] at h
    cases hc : s.upholds B c with
    | error e =>
      rw [hc] at h
      cases h
    | ok upheld =>
      rw [hc] at h
      obtain ⟨hs,ht,hm⟩ := ih h
      have ha := forall_mem_cons.mpr ⟨⟨upheld,hc⟩,ht⟩
      cases upheld with
      | false =>
        refine ⟨hs,ha,fun d => (hm d).trans ?_⟩
        simp [hc]
      | true =>
        have hh : ∀ d, (c.dealerFp=d → s.upholds B c=.ok false) ↔ d≠c.dealerFp := by
          intro d
          rw [hc]
          constructor
          · intro h heq
            cases h heq.symm
          · intro hne heq
            exact absurd heq.symm hne
        refine ⟨hs.trans filter_sublist,ha,fun d => (hm d).trans ?_⟩
        rw [if_pos rfl,mem_filter,decide_eq_true_eq,forall_mem_cons,hh,and_assoc]

variable {config : SessionConfig} {d : Dealing t}

theorem upholds_ownCommitment {c : Complaint}
    (hd : s.commitments.get? c.dealerFp=some (ownCommitment B config c.dealerFp d)) {i : ℕ}
    (hi : indexOf s.config.participants.val c.complainantFp=.ok i) :
    s.upholds B c=.ok !decide (openPoint B c.revealedShare c.revealedBlinding =
      openPoint B (evaluate d.secret (i+1 : ℕ)) (evaluate d.blinding (i+1 : ℕ))) := by
  simp only [upholds,hd,hi,ownCommitment,verifyShare_generateCommitments]
  rfl

theorem checkShare_ownCommitment {entry : Bytes × Share}
    (hd : s.commitments.get? entry.1=some (ownCommitment B config entry.1 d)) :
    s.checkShare B entry=.ok (if openPoint B entry.2.share entry.2.blindingShare =
        openPoint B (evaluate d.secret s.myIndex) (evaluate d.blinding s.myIndex) then []
      else [⟨s.myFp,entry.1,entry.2.share,entry.2.blindingShare,s.config.startRound⟩]) := by
  simp only [checkShare,hd,ownCommitment,bind,Except.bind,
    verifyShare_generateCommitments,decide_eq_true_eq]
  rfl

theorem checkShare_dealer {entry : Bytes × Share} {complaints : List Complaint}
    (h : s.checkShare B entry=.ok complaints) : ∀ c ∈ complaints, c.dealerFp=entry.1 := by
  rw [checkShare] at h
  cases hg : s.commitments.get? entry.1 with
  | none =>
    rw [hg] at h
    obtain rfl : []=complaints := Except.ok.inj h
    simp
  | some com =>
    rw [hg] at h
    dsimp only at h
    cases hv : verifyShare B s.myIndex entry.2.share entry.2.blindingShare
        com.pedersenCommitments with
    | error e =>
      rw [hv] at h
      cases h
    | ok valid =>
      rw [hv] at h
      cases h
      split_ifs <;> simp

variable {keys : Result × ThresholdSigningKey}

theorem finalize_ok (h : (s.finalize B).1=.ok keys) :
    ∃ qual, s.resolveComplaints B s.complaints s.commitments.keys=(.ok (),qual) ∧
      s.deriveKeys B qual=.ok keys := by
  rw [finalize] at h
  cases hr : s.resolveComplaints B s.complaints s.commitments.keys with
  | mk outcome qual =>
    rw [hr] at h
    cases outcome with
    | error e => cases h
    | ok _ =>
      dsimp only at h
      split_ifs at h
      refine ⟨qual,rfl,?_⟩
      cases hd : s.deriveKeys B qual with
      | error e =>
        rw [hd] at h
        cases h
      | ok derived =>
        rw [hd] at h
        exact h

theorem finalize_eq_ok (hr : s.resolveComplaints B s.complaints s.commitments.keys=(.ok (),qual))
    (hs : s.config.threshold≤qual.length) (hd : s.deriveKeys B qual=.ok keys) :
    (s.finalize B).1=.ok keys := by
  rw [finalize,hr]
  dsimp only
  rw [if_neg (not_lt.mpr hs),hd]

structure Backed (s : Session) (f : Bytes → Polynomial (ZMod R)) (qual : List Bytes) : Prop where
  publicPoint : ∀ fp ∈ qual, s.publicPoint B fp=.ok ((f fp).eval 0 • B.generator)
  addShare : ∀ fp ∈ qual, ∃ share : ℤ, (share : ZMod R)=(f fp).eval (s.myIndex : ZMod R) ∧
    ∀ acc, s.addShare acc fp=.ok (add acc share)

omit [DecidableEq G₁] in
theorem groupPoint_eq_ok {point : Bytes → G₁} (h : ∀ fp ∈ qual, s.publicPoint B fp=.ok (point fp))
    (acc : G₁) : s.groupPoint B qual acc=.ok (acc+(qual.map point).sum) := by
  induction qual generalizing acc with
  | nil =>
    rw [map_nil,sum_nil,add_zero]
    rfl
  | cons fp qual ih =>
    rw [forall_mem_cons] at h
    rw [groupPoint,foldlM_cons,h.1,map_cons,sum_cons,← add_assoc]
    exact ih h.2 _

section
variable {f : Bytes → Polynomial (ZMod R)}

theorem foldlM_addShare
    (h : ∀ fp ∈ qual, ∃ share : ℤ, (share : ZMod R)=(f fp).eval (s.myIndex : ZMod R) ∧
      ∀ acc, s.addShare acc fp=.ok (add acc share)) {acc : ℤ} (ha : 0≤acc ∧ acc<R) :
    ∃ share : ℤ, qual.foldlM s.addShare acc=.ok share ∧ (0 ≤ share ∧ share<R) ∧
      (share : ZMod R)=acc+(qual.map f).sum.eval (s.myIndex : ZMod R) := by
  induction qual generalizing acc with
  | nil => exact ⟨acc,rfl,ha,by simp⟩
  | cons fp qual ih =>
    rw [forall_mem_cons] at h
    obtain ⟨share,hs,had⟩ := h.1
    have hp : (0 : ℤ)<R := by decide
    have hn : 0≤add acc share ∧ add acc share<R :=
      ⟨Int.emod_nonneg _ hp.ne',Int.emod_lt_of_pos _ hp⟩
    obtain ⟨total,hf,hr,ht⟩ := ih h.2 hn
    refine ⟨total,?_,hr,?_⟩
    · rw [foldlM_cons,had]
      exact hf
    · rw [ht,cast_add,hs,map_cons,sum_cons,Polynomial.eval_add,add_assoc]

theorem deriveKeys_of_backed (h : s.Backed B f qual) :
    ∃ result key, s.deriveKeys B qual=.ok (result,key) ∧
      result.groupPk=B.g1Serialize ((qual.map f).sum.eval 0 • B.generator) ∧
      result.qualSet=qual ∧ result.epoch=s.config.epoch ∧ result.vmTag=s.config.vmTag ∧
      key.groupPk=result.groupPk ∧ key.participantFp=s.myFp ∧
      key.participantIndex=s.myIndex ∧ key.epoch=s.config.epoch ∧
      (0≤key.secretShare ∧ key.secretShare<R) ∧
      (key.secretShare : ZMod R)=(qual.map f).sum.eval (s.myIndex : ZMod R) := by
  have hg := groupPoint_eq_ok B h.publicPoint 0
  obtain ⟨share,hf,hr,hs⟩ :=
    foldlM_addShare h.addShare (show 0≤(0 : ℤ) ∧ (0 : ℤ)<R from ⟨le_rfl,by decide⟩)
  have hsu : (qual.map fun fp => (f fp).eval 0 • B.generator).sum =
      (qual.map f).sum.eval 0 • B.generator := by
    rw [Polynomial.eval_listSum,sum_smul,map_map,map_map]
    rfl
  rw [zero_add,hsu] at hg
  rw [Int.cast_zero,zero_add] at hs
  simp only [deriveKeys,hg,hf]
  exact ⟨_,_,rfl,rfl,rfl,rfl,rfl,rfl,rfl,rfl,rfl,hr,hs⟩

end

omit [DecidableEq G₁] in
theorem groupPoint_ok {acc point : G₁} (h : s.groupPoint B qual acc=.ok point) :
    ∀ fp ∈ qual, ∃ p, s.publicPoint B fp=.ok p := by
  induction qual generalizing acc with
  | nil => simp
  | cons fp qual ih =>
    rw [groupPoint,foldlM_cons] at h
    cases hfp : s.publicPoint B fp with
    | error e =>
      rw [hfp] at h
      cases h
    | ok p =>
      rw [hfp] at h
      exact forall_mem_cons.mpr ⟨⟨p,hfp⟩,ih h⟩

theorem deriveKeys_ok (h : s.deriveKeys B qual=.ok keys) :
    ∀ fp ∈ qual, ∃ p, s.publicPoint B fp=.ok p := by
  cases hg : s.groupPoint B qual 0 with
  | error e =>
    rw [deriveKeys,hg] at h
    cases h
  | ok point => exact groupPoint_ok B hg

theorem publicPoint_ownCommitment {fp : Bytes} (ht : 0<t)
    (hfp : s.commitments.get? fp=some (ownCommitment B config fp d)) :
    s.publicPoint B fp=.ok ((toPolynomial d.secret).eval 0 • B.generator) := by
  obtain ⟨rest,hr⟩ := generateCommitments_feldman B ht d
  simp [publicPoint,hfp,ownCommitment,hr,B.g1Deserialize_g1Serialize]

theorem threshold_pos_of_publicPoint {fp : Bytes}
    (hfp : s.commitments.get? fp=some (ownCommitment B config fp d)) {point : G₁}
    (h : s.publicPoint B fp=.ok point) : 0<t := by
  by_contra hz
  obtain rfl : t=0 := by omega
  have hn : (generateCommitments B d.secret d.blinding).1=[] := by
    rw [eq_nil_of_length_eq_zero d.length_secret]
    rfl
  simp only [publicPoint,hfp,ownCommitment,hn] at h
  cases h

end Session
end Dkg
end
end LatticeTransfer
