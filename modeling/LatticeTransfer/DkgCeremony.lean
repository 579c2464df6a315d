import LatticeTransfer.ThresholdSigning

/-!
# Ceremonies of honest dealers

`CommitteeManager._run_dkg_ceremony`: every participant runs a session, the
commitments and shares are distributed, and all of them finalize. The shares they
end with are the values of the sum of their polynomials.
-/

namespace LatticeTransfer
open ScalarField ScalarPoly ShamirSharing Backend List

namespace Dkg
open PedersenVss ThresholdSigning

section
variable {G₁ G₂ G₃ : Type} [AddCommGroup G₁] [Module (ZMod R) G₁] [AddCommGroup G₂]
  [Module (ZMod R) G₂] [AddCommGroup G₃] [Module (ZMod R) G₃] [DecidableEq G₁]
  (B : Backend G₁ G₂ G₃)

namespace Session

def collect (s : Session) (allShares : List (Dict Bytes Share)) : Session :=
  allShares.foldl (fun s shares =>
    match shares.get? s.myFp with
    | none => s
    | some share => s.receiveShare share) s

def checkShares (s : Session) : Except PyError Session :=
  match s.endSharingPhase B with
  | (.error e,_) => .error e
  | (.ok _,s) => .ok s

theorem collect_eq (s : Session) (allShares : List (Dict Bytes Share)) :
    s.collect allShares=(allShares.filterMap (·.get? s.myFp)).foldl receiveShare s := by
  induction allShares generalizing s with
  | nil => rfl
  | cons shares allShares ih =>
    rw [collect,foldl_cons,filterMap_cons]
    cases hg : shares.get? s.myFp with
    | none => exact ih s
    | some share => exact ih (s.receiveShare share)

end Session
open Session

def sessions (config : SessionConfig) : List Session :=
  (config.participants.val.zipIdx 1).map fun p => init config p.1 p.2

def prepareSessions (config : SessionConfig) (draws : Bytes → Dealing config.threshold) :
    Except PyError (List Session) := do
  let begun ← (sessions config).mapM fun s => s.begin B (draws s.myFp)
  let commitments := begun.map fun b => b.2.1
  let allShares := begun.map fun b => b.2.2
  let distributed := begun.map fun b => (b.1.distribute commitments).endCommitmentPhase
  distributed.mapM fun s => (s.collect allShares).checkShares B

def finalizeAll (sessions : List Session) : Except PyError (List (Result × ThresholdSigningKey)) :=
  sessions.mapM fun s => (s.finalize B).1

def runDkgCeremony (config : SessionConfig) (draws : Bytes → Dealing config.threshold) :
    Except PyError (List (Result × ThresholdSigningKey)) := do
  finalizeAll B (← prepareSessions B config draws)

def signAsCommittee (keys : List ThresholdSigningKey) (threshold : ℕ) (message domain : Bytes) :
    Except PyError Bytes :=
  combinePartialSignatures B ((keys.take threshold).map fun k => partialSign B k message domain)
    threshold

section
variable {config : SessionConfig} (draws : Bytes → Dealing config.threshold)

def indexIn (config : SessionConfig) (fp : Bytes) : ℕ := config.participants.val.idxOf fp+1

def honestCommitments : List Commitment :=
  config.participants.val.map fun fp => ownCommitment B config fp (draws fp)

def honestShares (fp : Bytes) : List Share :=
  (config.participants.val.map fun d => dealShares config d (draws d)).filterMap (·.get? fp)

noncomputable def groupPoly : Polynomial (ZMod R) :=
  (config.participants.val.map fun fp => toPolynomial (draws fp).secret).sum

def groupSecret : ℤ := (config.participants.val.map fun fp => (draws fp).secret.headD 0).sum

theorem zipIdx_of_nodup {l : List Bytes} (h : l.Nodup) :
    l.zipIdx 1=l.map fun a => (a,l.idxOf a+1) := by
  refine ext_getElem (by simp) fun i h1 h2 => ?_
  rw [getElem_zipIdx,getElem_map,h.idxOf_getElem,add_comm]

theorem dealShares_eq (hn : config.participants.val.Nodup) (dealer : Bytes) {t : ℕ}
    (d : Dealing t) : dealShares config dealer d=Dict.setAll Share.recipientFp Dict.empty
      ((config.participants.val.filter (· ≠ dealer)).map fun fp =>
        shareFor dealer d fp (indexIn config fp)) := by
  have hf : ∀ (l : List Bytes) (shares : Dict Bytes Share),
      (l.map fun a => (a,indexIn config a)).foldl (fun shares p =>
          if p.1=dealer then shares else shares.set p.1 (shareFor dealer d p.1 p.2)) shares =
        Dict.setAll Share.recipientFp shares
          ((l.filter (· ≠ dealer)).map fun fp => shareFor dealer d fp (indexIn config fp)) := by
    intro l
    induction l with
    | nil => exact fun _ => rfl
    | cons a l ih =>
      intro shares
      rw [map_cons,foldl_cons,filter_cons,ih]
      by_cases ha : a=dealer
      · simp [ha]
      · simp only [ha,ne_eq]
        rfl
  rw [dealShares,zipIdx_of_nodup hn]
  exact hf _ _

theorem mem_honestShares (hn : config.participants.val.Nodup) {fp : Bytes} {share : Share} :
    share ∈ honestShares draws fp ↔ ∃ dealer ∈ config.participants.val, dealer≠fp ∧
      fp ∈ config.participants.val ∧
        share=shareFor dealer (draws dealer) fp (indexIn config fp) := by
  have hg : ∀ dealer share, (dealShares config dealer (draws dealer)).get? fp=some share →
      dealer≠fp ∧ fp ∈ config.participants.val ∧
        share=shareFor dealer (draws dealer) fp (indexIn config fp) := by
    intro dealer share hg
    rw [dealShares_eq hn] at hg
    rcases Dict.get?_setAll hg with ⟨hm,hk⟩|he
    · obtain ⟨a,ha,rfl⟩ := mem_map.mp hm
      obtain rfl : a=fp := hk
      obtain ⟨hp,hne⟩ := mem_filter.mp ha
      rw [decide_eq_true_eq] at hne
      exact ⟨hne.symm,hp,rfl⟩
    · cases he
  simp only [honestShares,mem_filterMap,mem_map]
  constructor
  · rintro ⟨_,⟨dealer,hd,rfl⟩,hs⟩
    exact ⟨dealer,hd,hg dealer share hs⟩
  · rintro ⟨dealer,hd,hne,hfp,rfl⟩
    refine ⟨_,⟨dealer,hd,rfl⟩,?_⟩
    have hso : ∃ share, (dealShares config dealer (draws dealer)).get? fp=some share := by
      rw [dealShares_eq hn]
      refine Dict.exists_get?_setAll (.inl ⟨_,mem_map.mpr ⟨fp,?_,rfl⟩,rfl⟩)
      rw [mem_filter,decide_eq_true_eq]
      exact ⟨hfp,hne.symm⟩
    obtain ⟨share,hs⟩ := hso
    rw [hs,(hg dealer share hs).2.2]

theorem committed_honestCommitments : Committed B config draws (honestCommitments B draws) := by
  intro c hc
  obtain ⟨fp,_,rfl⟩ := mem_map.mp hc
  rfl

def honestSession (fp : Bytes) : Session :=
  gathered B config fp (indexIn config fp) (draws fp) (honestCommitments B draws)
    (honestShares draws fp)

variable {draws} {fp : Bytes} {dealer : Bytes}

theorem mem_dealers_honestSession (hfp : fp ∈ config.participants.val) :
    (dealer=fp ∨ ∃ c ∈ honestCommitments B draws, c.dealerFp=dealer) ↔
      dealer ∈ config.participants.val := by
  constructor
  · rintro (rfl|⟨c,hc,rfl⟩)
    · exact hfp
    · obtain ⟨a,ha,rfl⟩ := mem_map.mp hc
      exact ha
  · intro hd
    exact .inr ⟨_,mem_map_of_mem hd,rfl⟩

theorem get?_commitments_honestSession (hfp : fp ∈ config.participants.val) :
    (honestSession B draws fp).commitments.get? dealer =
        some (ownCommitment B config dealer (draws dealer)) ↔ dealer ∈ config.participants.val :=
  ((committed_honestCommitments B draws).mem_dealers B).trans (mem_dealers_honestSession B hfp)

variable (draws) in
theorem keys_perm_honestSession (hn : config.participants.val.Nodup)
    (hfp : fp ∈ config.participants.val) :
    (honestSession B draws fp).commitments.keys.Perm config.participants.val := by
  refine (perm_ext_iff_of_nodup (honestSession B draws fp).commitments.nodup hn).mpr
    fun dealer => ?_
  refine ((honestSession B draws fp).commitments.mem_keys_iff dealer).trans ?_
  constructor
  · rintro ⟨c,hc⟩
    obtain rfl := (committed_honestCommitments B draws).get? B hc
    exact (get?_commitments_honestSession B hfp).mp hc
  · intro hd
    exact ⟨_,(get?_commitments_honestSession B hfp).mpr hd⟩

section
variable (hn : config.participants.val.Nodup)
include hn

theorem shares_honestSession {share : Share}
    (h : (honestSession B draws fp).shares.get? dealer=some share) :
    dealer ∈ config.participants.val ∧
      share=shareFor dealer (draws dealer) fp (indexIn config fp) := by
  rcases Dict.get?_setAll h with ⟨hm,hk⟩|he
  · obtain ⟨d,hd,_,_,rfl⟩ := (mem_honestShares draws hn).mp hm
    obtain rfl : d=dealer := hk
    exact ⟨hd,rfl⟩
  · cases he

theorem get?_shares_honestSession (hfp : fp ∈ config.participants.val)
    (hd : dealer ∈ config.participants.val) (hne : dealer≠fp) :
    (honestSession B draws fp).shares.get? dealer =
      some (shareFor dealer (draws dealer) fp (indexIn config fp)) := by
  have hso : ∃ share, (honestSession B draws fp).shares.get? dealer=some share :=
    Dict.exists_get?_setAll (.inl ⟨shareFor dealer (draws dealer) fp (indexIn config fp),
      (mem_honestShares draws hn).mpr ⟨dealer,hd,hne,hfp,rfl⟩,rfl⟩)
  obtain ⟨share,hs⟩ := hso
  rw [hs,(shares_honestSession B hn hs).2]

theorem checkShares_honestSession (hfp : fp ∈ config.participants.val) :
    (honestSession B draws fp).checkShares B =
      .ok {honestSession B draws fp with state := .complaining} := by
  have hc : ∀ entry ∈ (honestSession B draws fp).shares.entries,
      (honestSession B draws fp).checkShare B entry=.ok ((fun _ => []) entry) := by
    intro entry he
    obtain ⟨hd,hs⟩ := shares_honestSession B hn
      ((Dict.get?_eq_some_iff _ _ _).mpr he)
    rw [checkShare_ownCommitment B ((get?_commitments_honestSession B hfp).mpr hd),if_pos]
    rw [hs]
    rfl
  have hf : ((honestSession B draws fp).shares.entries.map
      fun _ => ([] : List Complaint)).flatten=[] := by
    rw [flatten_eq_nil_iff]
    intro l hl
    obtain ⟨_,_,rfl⟩ := mem_map.mp hl
    rfl
  rw [checkShares,endSharingPhase,PyValue.mapM_eq_ok_of_forall hc]
  simp only [hf]
  rfl

theorem backed_honestSession (ht : 0<config.threshold) (hfp : fp ∈ config.participants.val) :
    ({honestSession B draws fp with state := .complaining} : Session).Backed B
      (fun dealer => toPolynomial (draws dealer).secret)
      (honestSession B draws fp).commitments.keys := by
  have hk := fun dealer => (keys_perm_honestSession B draws hn hfp).mem_iff
    (a := dealer)
  refine ⟨fun dealer hd => ?_,fun dealer hd => ?_⟩
  · exact publicPoint_ownCommitment B ht
      ((get?_commitments_honestSession B hfp).mpr ((hk dealer).mp hd))
  · refine ⟨evaluate (draws dealer).secret (indexIn config fp),?_,fun acc => ?_⟩
    · rw [cast_evaluate]
      rfl
    · rw [addShare]
      split_ifs with hs
      · obtain rfl : dealer=fp := hs
        rfl
      · rw [show ({honestSession B draws fp with state := .complaining} : Session).shares.get?
          dealer=_ from get?_shares_honestSession B hn hfp ((hk dealer).mp hd) hs]
        rfl

end

variable (draws fp) in
structure Outcome (outcome : Result × ThresholdSigningKey) : Prop where
  groupPk : outcome.1.groupPk=B.g1Serialize ((groupPoly draws).eval 0 • B.generator)
  groupPk_key : outcome.2.groupPk=outcome.1.groupPk
  epoch : outcome.1.epoch=config.epoch
  vmTag : outcome.1.vmTag=config.vmTag
  epoch_key : outcome.2.epoch=config.epoch
  participantFp : outcome.2.participantFp=fp
  participantIndex : outcome.2.participantIndex=indexIn config fp
  share : (outcome.2.secretShare : ZMod R)=(groupPoly draws).eval (indexIn config fp : ZMod R)

variable (draws) in
theorem finalize_honestSession (hno : config.participants.val.Nodup)
    (ht : 0<config.threshold) (hn : config.threshold≤config.participants.val.length)
    (hfp : fp ∈ config.participants.val) : ∃ outcome, Outcome B draws fp outcome ∧
      (({honestSession B draws fp with state := .complaining} : Session).finalize B).1 =
        .ok outcome := by
  have hp := keys_perm_honestSession B draws hno hfp
  have hsu : ((honestSession B draws fp).commitments.keys.map
      fun dealer => toPolynomial (draws dealer).secret).sum=groupPoly draws :=
    (hp.map _).sum_eq
  obtain ⟨result,key,hd,hpk,_,he,hvm,hkp,hkf,hki,hk,_,hs⟩ :=
    deriveKeys_of_backed B (backed_honestSession B hno ht hfp)
  rw [hsu] at hpk hs
  refine ⟨(result,key),⟨hpk,hkp,he,hvm,hk,hkf,hki,hs⟩,?_⟩
  refine finalize_eq_ok B rfl ?_ hd
  rw [hp.length_eq]
  exact hn

variable (config draws) in
theorem prepareSessions_ok (hno : config.participants.val.Nodup) (ht : 0<config.threshold)
    (hn : config.threshold≤config.participants.val.length) :
    ∃ (sessions : List Session) (outcome : Bytes → Result × ThresholdSigningKey),
      prepareSessions B config draws=.ok sessions ∧
        finalizeAll B sessions=.ok (config.participants.val.map outcome) ∧
        ∀ fp ∈ config.participants.val, Outcome B draws fp (outcome fp) := by
  have hf := fun fp (hfp : fp ∈ config.participants.val) =>
    finalize_honestSession B draws hno ht hn hfp
  choose! outcome ho hfi using hf
  refine ⟨config.participants.val.map fun fp =>
    {honestSession B draws fp with state := .complaining},outcome,?_,?_,ho⟩
  swap
  · rw [finalizeAll,mapM_map]
    exact PyValue.mapM_eq_ok_of_forall hfi
  choose s hb hfp hg using fun fp =>
    begin_init B config fp (indexIn config fp) (draws fp)
  have hs : sessions config =
      config.participants.val.map fun fp => init config fp (indexIn config fp) := by
    rw [sessions,zipIdx_of_nodup hno,map_map]
    rfl
  have hbe : (sessions config).mapM (fun s => s.begin B (draws s.myFp)) =
      .ok (config.participants.val.map fun fp =>
        (s fp,ownCommitment B config fp (draws fp),dealShares config fp (draws fp))) := by
    rw [hs,mapM_map]
    exact PyValue.mapM_eq_ok_of_forall fun fp _ => hb fp
  have hc : ∀ fp ∈ config.participants.val,
      (((s fp).distribute (honestCommitments B draws)).endCommitmentPhase.collect
        (config.participants.val.map fun d => dealShares config d (draws d))).checkShares B =
          .ok {honestSession B draws fp with state := .complaining} := by
    intro fp hme
    have hm : ((s fp).distribute (honestCommitments B draws)).endCommitmentPhase.myFp=fp := by
      rw [distribute_eq]
      exact hfp fp
    rw [collect_eq,hm,hg]
    exact checkShares_honestSession B hno hme
  have hma := PyValue.mapM_eq_ok_of_forall hc
  rw [prepareSessions,hbe]
  simp only [bind,Except.bind,map_map,mapM_map]
  exact hma

variable (draws) in
theorem runDkgCeremony_ok (hno : config.participants.val.Nodup) (ht : 0<config.threshold)
    (hn : config.threshold≤config.participants.val.length) :
    ∃ outcome : Bytes → Result × ThresholdSigningKey,
      runDkgCeremony B config draws=.ok (config.participants.val.map outcome) ∧
        ∀ fp ∈ config.participants.val, Outcome B draws fp (outcome fp) := by
  obtain ⟨sessions,outcome,hp,hf,ho⟩ :=
    prepareSessions_ok B config draws hno ht hn
  refine ⟨outcome,?_,ho⟩
  rw [runDkgCeremony,hp]
  exact hf

theorem degree_sum_secrets_lt {t : ℕ} (dealing : Bytes → Dealing t) (dealers : List Bytes) :
    (dealers.map fun fp => toPolynomial (dealing fp).secret).sum.degree<t := by
  rw [← Polynomial.mem_degreeLT]
  refine list_sum_mem fun f hf => ?_
  obtain ⟨fp,_,rfl⟩ := mem_map.mp hf
  have hd := degree_ofCoeffs_lt ((dealing fp).secret.map (Int.cast : ℤ → ZMod R))
  rw [length_map,(dealing fp).length_secret] at hd
  rwa [Polynomial.mem_degreeLT]

variable (config draws) in
theorem degree_groupPoly_lt : (groupPoly draws).degree<config.threshold :=
  degree_sum_secrets_lt draws _

variable (draws) in
theorem eval_zero_groupPoly : (groupPoly draws).eval 0=(groupSecret draws : ZMod R) := by
  rw [groupPoly,groupSecret,Polynomial.eval_listSum,map_map,Int.cast_list_sum,map_map]
  refine congrArg sum (map_congr_left fun fp _ => ?_)
  rw [Function.comp_apply,Function.comp_apply,toPolynomial,eval_zero_ofCoeffs]
  cases (draws fp).secret with
  | nil => simp
  | cons c secret => rfl

theorem holds_of_outcome {outcome : Bytes → Result × ThresholdSigningKey}
    (hou : ∀ fp ∈ config.participants.val, Outcome B draws fp (outcome fp))
    {signers : List ThresholdSigningKey} (hs : signers.Nodup)
    (hsu : signers ⊆ (config.participants.val.map outcome).map Prod.snd) :
    Holds (groupPoly draws) signers := by
  have hm : ∀ k ∈ signers, ∃ fp ∈ config.participants.val, k=(outcome fp).2 := by
    intro k hk
    obtain ⟨o,ho,rfl⟩ := mem_map.mp (hsu hk)
    obtain ⟨fp,hfp,rfl⟩ := mem_map.mp ho
    exact ⟨fp,hfp,rfl⟩
  refine ⟨fun k hk => ?_,?_,fun k hk => ?_⟩
  · obtain ⟨fp,hfp,rfl⟩ := hm k hk
    rw [(hou fp hfp).share,(hou fp hfp).participantIndex]
  · refine hs.map_on fun k hk k' hk' hi => ?_
    obtain ⟨fp,hfp,rfl⟩ := hm k hk
    obtain ⟨fp',hfp',rfl⟩ := hm k' hk'
    rw [(hou fp hfp).participantIndex,(hou fp' hfp').participantIndex] at hi
    rw [idxOf_inj hfp |>.mp (Nat.succ.inj hi)]
  · obtain ⟨fp,hfp,rfl⟩ := hm k hk
    rw [(hou fp hfp).participantIndex,indexIn]
    have hlt : config.participants.val.idxOf fp<config.participants.val.length :=
      idxOf_lt_length_of_mem hfp
    have hsi := config.participants.property
    have hR : 2^63<R := by decide
    omega

variable (draws) in
/-- The final shares interpolate to the sum of the secrets, the group key is the generator times
that sum, and any `threshold` signers combine to one signature, which the group key accepts. -/
def CeremonyCorrect (message domain : Bytes) : Prop :=
  ∃ outcomes signature, runDkgCeremony B config draws=.ok outcomes ∧
    outcomes.map (·.2.participantFp)=config.participants.val ∧
    (∀ o ∈ outcomes, o.1.groupPk=B.g1Serialize (g1ScalarMul B.generator (groupSecret draws))) ∧
    (∀ signers : List ThresholdSigningKey, signers.Nodup → signers ⊆ outcomes.map Prod.snd →
      config.threshold ≤ signers.length →
        interpolate signers=groupSecret draws % R ∧
        combinePartialSignatures B (signers.map fun k => partialSign B k message domain)
          config.threshold=.ok signature) ∧
    ∀ o ∈ outcomes, thresholdVerify B o.1.groupPk message signature domain=.ok true

variable (draws) in
theorem ceremonyCorrect_iff (hnodup : config.participants.val.Nodup)
    (ht : 1≤config.threshold) (hn : config.threshold≤config.participants.val.length)
    (message domain : Bytes) : CeremonyCorrect B draws message domain ↔
      (groupSecret draws : ZMod R)≠0 ∧ B.pairing B.generator (B.hashToG2 (domain++message) blsDst) =
          B.pairing B.generator (B.hashToG2 (domain++message) B.verifyDst) := by
  obtain ⟨outcome,hr,hou⟩ := runDkgCeremony_ok B draws hnodup ht hn
  have hpk : ∀ o ∈ config.participants.val.map outcome,
      o.1.groupPk=B.g1Serialize ((groupSecret draws : ZMod R) • B.generator) := by
    intro o ho
    obtain ⟨fp,hfp,rfl⟩ := mem_map.mp ho
    rw [(hou fp hfp).groupPk,eval_zero_groupPoly]
  have hc : ∀ signers : List ThresholdSigningKey, signers.Nodup →
      signers ⊆ (config.participants.val.map outcome).map Prod.snd →
      config.threshold ≤ signers.length →
        interpolate signers=groupSecret draws % R ∧
        combinePartialSignatures B (signers.map fun k => partialSign B k message domain)
          config.threshold=.ok (B.signature
            ((groupSecret draws : ZMod R) • B.hashToG2 (domain++message) blsDst)) := by
    intro signers hs hsu hsiz
    have hh := holds_of_outcome B hou hs hsu
    have hd : (groupPoly draws).degree<signers.length :=
      (degree_groupPoly_lt config draws).trans_le (Nat.cast_le.mpr hsiz)
    have hp : (0 : ℤ)<R := by decide
    rw [combine_partials B hh hd hsiz,eval_zero_groupPoly]
    refine ⟨intCast_inj_of_lt (interpolate_mem_range signers)
      ⟨Int.emod_nonneg _ hp.ne',Int.emod_lt_of_pos _ hp⟩ ?_,rfl⟩
    rw [cast_interpolate hh hd,eval_zero_groupPoly,ZMod.intCast_mod]
  have hf : (config.participants.val.map outcome).map (·.2.participantFp) =
      config.participants.val := by
    rw [map_map]
    refine (map_congr_left fun fp hfp => ?_).trans (map_id _)
    exact (hou fp hfp).participantFp
  have hv := thresholdVerify_iff B (groupSecret draws : ZMod R) message domain
  constructor
  · rintro ⟨outcomes,signature,hr',_,_,hsig,ha⟩
    cases hr.symm.trans hr'
    have hk : ((config.participants.val.map outcome).map Prod.snd).Nodup := by
      refine .of_map ThresholdSigningKey.participantFp ?_
      rw [map_map]
      exact hf.symm ▸ hnodup
    have hsiz : config.threshold ≤
        ((config.participants.val.map outcome).map Prod.snd).length := by
      rwa [length_map,length_map]
    have hal := (hsig _ hk (.refl _) hsiz).2
    have hsi := Except.ok.inj
      (hal.symm.trans (hc _ hk (.refl _) hsiz).2)
    obtain ⟨fp,hfp⟩ := exists_mem_of_length_pos (ht.trans hn)
    have hm := mem_map_of_mem (f := outcome) hfp
    have hl := ha _ hm
    rw [hpk _ hm,hsi] at hl
    exact hv.mp hl
  · intro hco
    refine ⟨_,_,hr,hf,hpk,hc,fun o ho => ?_⟩
    rw [hpk o ho]
    exact hv.mpr hco

end
end

def pairConfig : SessionConfig := ⟨1,1,2,⟨[[1],[2]],by decide⟩,10,0⟩

def pairDraws : Bytes → Dealing pairConfig.threshold := fun fp =>
  if fp=[1] then ⟨[3,4],[5,6],rfl,rfl⟩ else ⟨[7,8],[9,10],rfl,rfl⟩

theorem pair_ceremony_correct :
    CeremonyCorrect (scalarBackend false) pairDraws [1] domainAttestation :=
  (ceremonyCorrect_iff (scalarBackend false) pairDraws (by decide) (by decide) (by decide) [1]
    domainAttestation).mpr ⟨by decide,rfl⟩

def signAndVerify {G₁ G₂ G₃ : Type} [AddCommGroup G₁] [Module (ZMod R) G₁] [AddCommGroup G₂]
    [Module (ZMod R) G₂] [AddCommGroup G₃] [Module (ZMod R) G₃] [DecidableEq G₁]
    (B : Backend G₁ G₂ G₃) {config : SessionConfig} (draws : Bytes → Dealing config.threshold)
    (message domain : Bytes) : Except PyError (List Bool) := do
  let outcomes ← runDkgCeremony B config draws
  let signature ← signAsCommittee B (outcomes.map Prod.snd) config.threshold message domain
  outcomes.mapM fun o => thresholdVerify B o.1.groupPk message signature domain

def cancellingDraws : Bytes → Dealing pairConfig.threshold := fun fp =>
  if fp=[1] then ⟨[3,4],[5,6],rfl,rfl⟩ else ⟨[R-3,8],[9,10],rfl,rfl⟩

theorem pair_signatures_rejected :
    signAndVerify (scalarBackend true) pairDraws [1] domainAttestation=.ok [false,false] ∧
      signAndVerify (scalarBackend false) cancellingDraws [1] domainAttestation =
        .ok [false,false] := by decide +kernel

end Dkg
end LatticeTransfer
