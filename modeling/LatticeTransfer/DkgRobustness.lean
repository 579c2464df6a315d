import LatticeTransfer.DkgCeremony

/-!
# Dishonest dealers and complaints

A participant goes through a ceremony in which the commitments and the complaints are
broadcast to everyone and the shares are sent to it alone; all of them may come from
dishonest dealers. A session excludes a dealer when a complaint reveals a pair that does
not open the dealer's blinded commitments. The pair is the complainant's word, and the
Feldman commitments, which give the group key, are never compared with the blinded ones.
-/

namespace LatticeTransfer
open ScalarField ScalarPoly ShamirSharing Backend List PyValue

namespace Dkg
open PedersenVss Session

section
variable {G₁ G₂ G₃ : Type} [AddCommGroup G₁] [Module (ZMod R) G₁] [AddCommGroup G₂]
  [Module (ZMod R) G₂] [AddCommGroup G₃] [Module (ZMod R) G₃] [DecidableEq G₁]
  (B : Backend G₁ G₂ G₃)

structure Broadcast where
  commitments : List Commitment
  complaints : List Complaint

structure Party (config : SessionConfig) where
  fp : Bytes
  draw : Dealing config.threshold
  shares : List Share

def Party.session {config : SessionConfig} (p : Party config) (b : Broadcast) :
    Except PyError Session := do
  let (s,_,_) ← (init config p.fp (indexIn config p.fp)).begin B p.draw
  let s := (s.distribute b.commitments).endCommitmentPhase
  let s ← (p.shares.foldl receiveShare s).checkShares B
  return b.complaints.foldl receiveComplaint s

variable {config : SessionConfig} {b : Broadcast}

def Party.gathered (p : Party config) (b : Broadcast) : Session :=
  Session.gathered B config p.fp (indexIn config p.fp) p.draw b.commitments p.shares

theorem Party.session_ok {p : Party config} {s : Session} (h : p.session B b=.ok s) :
    ∃ own, (p.gathered B b).shares.entries.mapM ((p.gathered B b).checkShare B)=.ok own ∧
      s={p.gathered B b with
        state := .complaining,complaints := own.flatten++b.complaints} := by
  obtain ⟨s0,hb,_,hg⟩ := begin_init B config p.fp (indexIn config p.fp) p.draw
  simp only [Party.session,hb,bind,Except.bind,hg,checkShares,endSharingPhase] at h
  cases ho : (p.gathered B b).shares.entries.mapM ((p.gathered B b).checkShare B) with
  | error e =>
    rw [Party.gathered] at ho
    rw [ho] at h
    cases h
  | ok own =>
    refine ⟨own,rfl,?_⟩
    rw [Party.gathered] at ho
    rw [ho] at h
    refine (Except.ok.inj h).symm.trans ?_
    rw [foldl_receiveComplaint]
    rfl

section

/-- A dealer that published the commitments of its dealing and sent `p` its share. -/
structure FollowsProtocol (b : Broadcast) (p : Party config) (dealer : Bytes)
    (d : Dealing config.threshold) : Prop where
  published : ownCommitment B config dealer d ∈ b.commitments
  only : ∀ c ∈ b.commitments, c.dealerFp=dealer → c=ownCommitment B config dealer d
  share : ∀ s ∈ p.shares, s.dealerFp=dealer → s=shareFor dealer d p.fp (indexIn config p.fp)
  own : dealer=p.fp → p.draw=d

/-- The pair a complaint reveals opens the same point as the share the dealer sent. -/
def RevealsShare (config : SessionConfig) (d : Dealing config.threshold) (c : Complaint) : Prop :=
  openPoint B c.revealedShare c.revealedBlinding =
    openPoint B (evaluate d.secret (indexIn config c.complainantFp))
      (evaluate d.blinding (indexIn config c.complainantFp))

variable {p : Party config} {dealer : Bytes} {d : Dealing config.threshold}

theorem FollowsProtocol.get?_commitments (h : FollowsProtocol B b p dealer d) :
    (p.gathered B b).commitments.get? dealer=some (ownCommitment B config dealer d) := by
  have hd : dealer=p.fp ∨ ∃ c ∈ b.commitments, c.dealerFp=dealer :=
    .inr ⟨_,h.published,rfl⟩
  obtain ⟨c,hc⟩ :=
    exists_commitment_gathered B config (indexIn config p.fp) p.shares p.draw hd
  rw [Party.gathered,hc]
  rcases get?_commitments_gathered B hc with ⟨hfp,rfl⟩|⟨_,hm,hk⟩
  · rw [h.own hfp,hfp]
  · rw [h.only c hm hk]

theorem upholds_eq_false_iff {s : Session} {c : Complaint} {upheld : Bool} (hc : s.config=config)
    (hd : s.commitments.get? c.dealerFp=some (ownCommitment B config c.dealerFp d))
    (hok : s.upholds B c=.ok upheld) : s.upholds B c=.ok false ↔ RevealsShare B config d c := by
  have hi : indexOf s.config.participants.val c.complainantFp =
      .ok (config.participants.val.idxOf c.complainantFp) := by
    rw [indexOf,hc]
    split_ifs with hm
    · rfl
    · simp only [upholds,hd,indexOf,hc,if_neg hm] at hok
      cases hok
  rw [upholds_ownCommitment B hd hi,RevealsShare,indexIn]
  constructor
  · intro h
    simpa using Except.ok.inj h
  · intro h
    simp only [h]
    rfl

/-- An honest dealer stays qualified exactly when every complaint against it reveals the share
it sent. -/
theorem honest_dealer_mem_qual_iff (h : FollowsProtocol B b p dealer d) {s : Session}
    (hs : p.session B b=.ok s) {qual : List Bytes}
    (hqual : s.resolveComplaints B s.complaints s.commitments.keys=(.ok (),qual)) :
    dealer ∈ qual ↔ ∀ c ∈ b.complaints, c.dealerFp=dealer → RevealsShare B config d c := by
  obtain ⟨own,ho,rfl⟩ := p.session_ok B hs
  have hg := h.get?_commitments
  have hk : dealer ∈ (p.gathered B b).commitments.keys :=
    ((p.gathered B b).commitments.mem_keys_iff dealer).mpr ⟨_,hg⟩
  obtain ⟨_,hu,hme⟩ := resolveComplaints_ok B hqual
  -- the share of an honest dealer never makes the participant complain itself
  have hn : ∀ c ∈ own.flatten, c.dealerFp≠dealer := by
    intro c hc hd
    obtain ⟨cs,hcs,hcm⟩ := mem_flatten.mp hc
    obtain ⟨entry,he,hch⟩ := (mapM_ok ho).2 cs hcs
    obtain rfl : entry.1=dealer := (checkShare_dealer B hch c hcm).symm.trans hd
    have hsh : entry.2=shareFor entry.1 d p.fp (indexIn config p.fp) := by
      rcases Dict.get?_setAll ((Dict.get?_eq_some_iff _ _ _).mpr he) with ⟨hs,hke⟩|hni
      · exact h.share _ hs hke
      · cases hni
    rw [checkShare_ownCommitment B hg,if_pos (by rw [hsh]; rfl)] at hch
    cases hch
    cases hcm
  rw [hme dealer,and_iff_right hk]
  constructor
  · intro ha c hc hd
    subst hd
    have hme : c ∈ own.flatten++b.complaints := mem_append_right _ hc
    obtain ⟨upheld,hok⟩ := hu c hme
    exact (upholds_eq_false_iff B rfl hg hok).mp (ha c hme rfl)
  · intro ha c hc hd
    obtain ⟨upheld,hok⟩ := hu c hc
    subst hd
    rcases mem_append.mp hc with hm|hr
    · exact absurd rfl (hn c hm)
    · exact (upholds_eq_false_iff B rfl hg hok).mpr (ha c hr rfl)

end

section

/-- The pairs `p` receives, each with the pair its dealer is committed to. -/
def openings (dealing : Bytes → Dealing config.threshold) (p : Party config) : List (ℤ × ℤ) :=
  p.shares.flatMap fun s => [(s.share,s.blindingShare),
    createShare (dealing s.dealerFp).secret (dealing s.dealerFp).blinding (indexIn config p.fp)]

/-- No point is opened in two ways. -/
def Binding (pairs : List (ℤ × ℤ)) : Prop :=
  ∀ x ∈ pairs, ∀ y ∈ pairs, openPoint B x.1 x.2=openPoint B y.1 y.2 → (x.1 : ZMod R)=y.1

/-- A participant that follows the protocol: it publishes its commitment and its complaints. -/
structure HonestRun (b : Broadcast) (p : Party config) (s : Session) : Prop where
  session : p.session B b=.ok s
  published : ownCommitment B config p.fp p.draw ∈ b.commitments
  complained : ∀ c ∈ s.complaints, c ∈ b.complaints

/-- Every dealer publishes both commitments of one dealing, and sends `p` some share. -/
structure Consistent (b : Broadcast) (dealing : Bytes → Dealing config.threshold)
    (p : Party config) : Prop where
  committed : Committed B config dealing b.commitments
  own : dealing p.fp=p.draw
  delivered : ∀ c ∈ b.commitments, c.dealerFp≠p.fp → ∃ s ∈ p.shares, s.dealerFp=c.dealerFp

def Qualified (b : Broadcast) (dealing : Bytes → Dealing config.threshold) (dealer : Bytes) :
    Prop :=
  (∃ c ∈ b.commitments, c.dealerFp=dealer) ∧
    ∀ c ∈ b.complaints, c.dealerFp=dealer → RevealsShare B config (dealing dealer) c

/-- The shares of two participants lie on one polynomial of degree below the threshold, whose
value at zero gives the group key of both. -/
def OnePolynomial (config : SessionConfig) (outcomes : List (Result × ThresholdSigningKey)) :
    Prop :=
  ∃ P : Polynomial (ZMod R), P.degree<config.threshold ∧ ∀ o ∈ outcomes,
    (o.2.secretShare : ZMod R)=P.eval (o.2.participantIndex : ZMod R) ∧
      o.1.groupPk=B.g1Serialize (P.eval 0 • B.generator)

variable {p : Party config} {dealing : Bytes → Dealing config.threshold} {s : Session}

section
variable (h : Consistent B b dealing p) (hpub : ownCommitment B config p.fp p.draw ∈ b.commitments)
include h hpub

theorem Consistent.get?_commitments {dealer : Bytes} : (p.gathered B b).commitments.get? dealer =
        some (ownCommitment B config dealer (dealing dealer)) ↔
      ∃ c ∈ b.commitments, c.dealerFp=dealer := by
  rw [Party.gathered,← h.own]
  refine (h.committed.mem_dealers B).trans (or_iff_right_of_imp ?_)
  rintro rfl
  exact ⟨_,hpub,rfl⟩

theorem Consistent.mem_keys {dealer : Bytes} :
    dealer ∈ (p.gathered B b).commitments.keys ↔ ∃ c ∈ b.commitments, c.dealerFp=dealer := by
  rw [Dict.mem_keys_iff,← h.get?_commitments B hpub]
  constructor
  · rintro ⟨c,hc⟩
    have hg := hc
    rw [Party.gathered,← h.own] at hg
    rw [hc,h.committed.get? B hg]
  · intro hc
    exact ⟨_,hc⟩

end

section
variable (hrun : HonestRun B b p s) (h : Consistent B b dealing p)
include hrun h

theorem HonestRun.mem_qual_iff {qual : List Bytes}
    (hq : s.resolveComplaints B s.complaints s.commitments.keys=(.ok (),qual)) (dealer : Bytes) :
    dealer ∈ qual ↔ Qualified B b dealing dealer := by
  obtain ⟨own,_,rfl⟩ := p.session_ok B hrun.session
  obtain ⟨_,ht,hm⟩ := resolveComplaints_ok B hq
  refine (hm dealer).trans ?_
  refine (and_congr_left' (h.mem_keys B hrun.published)).trans (and_congr_right fun hd => ?_)
  have hg := (h.get?_commitments B hrun.published).mpr hd
  constructor
  · intro ha c hc hk
    subst hk
    have hc' : c ∈ own.flatten++b.complaints := mem_append_right _ hc
    obtain ⟨upheld,hok⟩ := ht c hc'
    exact (upholds_eq_false_iff B rfl hg hok).mp (ha c hc' rfl)
  · intro ha c hc hk
    subst hk
    obtain ⟨upheld,hok⟩ := ht c hc
    exact (upholds_eq_false_iff B rfl hg hok).mpr (ha c (hrun.complained c hc) rfl)

theorem HonestRun.share_of_qualified (hbi : Binding B (openings dealing p)) {dealer : Bytes}
    (hq : Qualified B b dealing dealer) (hne : dealer≠p.fp) :
    ∃ share, s.shares.get? dealer=some share ∧ (share.share : ZMod R) =
      (toPolynomial (dealing dealer).secret).eval (indexIn config p.fp : ZMod R) := by
  obtain ⟨own,how,rfl⟩ := p.session_ok B hrun.session
  have hg := (h.get?_commitments B hrun.published).mpr hq.1
  obtain ⟨c,hc,hk⟩ := hq.1
  have hso : ∃ share, (p.gathered B b).shares.get? dealer=some share := by
    obtain ⟨sh,hsh,hf⟩ := h.delivered c hc (hk ▸ hne)
    exact Dict.exists_get?_setAll (.inl ⟨sh,hsh,hf.trans hk⟩)
  obtain ⟨share,hs⟩ := hso
  refine ⟨share,hs,?_⟩
  have hr : share ∈ p.shares ∧ share.dealerFp=dealer := by
    rcases Dict.get?_setAll hs with hme|hn
    · exact hme
    · cases hn
  -- a share that opens another point would have led to a complaint that excludes the dealer
  have ho : openPoint B share.share share.blindingShare =
      openPoint B (evaluate (dealing dealer).secret (indexIn config p.fp))
        (evaluate (dealing dealer).blinding (indexIn config p.fp)) := by
    by_contra hd
    obtain ⟨cs,hcs,hch⟩ :=
      (mapM_ok how).1 (dealer,share) ((Dict.get?_eq_some_iff _ _ _).mp hs)
    rw [checkShare_ownCommitment B hg] at hch
    obtain rfl := (if_neg hd).symm.trans (Except.ok.inj hch)
    have hm : (⟨p.fp,dealer,share.share,share.blindingShare,config.startRound⟩ :
        Complaint) ∈ own.flatten++b.complaints :=
      mem_append_left _ (mem_flatten.mpr ⟨_,hcs,mem_singleton_self _⟩)
    exact hd (hq.2 _ (hrun.complained _ hm) rfl)
  have hp : ∀ x ∈ [(share.share,share.blindingShare),createShare (dealing dealer).secret
      (dealing dealer).blinding (indexIn config p.fp)], x ∈ openings dealing p := by
    intro x hx
    refine mem_flatMap.mpr ⟨share,hr.1,?_⟩
    rwa [hr.2]
  have hb := hbi _ (hp _ mem_cons_self) _
    (hp _ (mem_cons_of_mem _ (mem_singleton_self _))) ho
  rw [hb,createShare,cast_evaluate,Int.cast_natCast]

theorem HonestRun.outcome (hbi : Binding B (openings dealing p))
    {o : Result × ThresholdSigningKey} (ho : (s.finalize B).1=.ok o) :
    ∃ qual : List Bytes, qual.Nodup ∧ (∀ dealer, dealer ∈ qual ↔ Qualified B b dealing dealer) ∧
      (o.2.secretShare : ZMod R) =
        (qual.map fun dealer => toPolynomial (dealing dealer).secret).sum.eval
          (o.2.participantIndex : ZMod R) ∧ o.1.groupPk=B.g1Serialize
        ((qual.map fun dealer => toPolynomial (dealing dealer).secret).sum.eval 0 •
          B.generator) := by
  obtain ⟨qual,hqu,hd⟩ := finalize_ok B ho
  have hm := hrun.mem_qual_iff B h hqu
  have hsu := (resolveComplaints_ok B hqu).1
  have hs := fun dealer (hq : Qualified B b dealing dealer) hne =>
    hrun.share_of_qualified B h hbi hq hne
  have hpub := hrun.published
  obtain ⟨own,_,rfl⟩ := p.session_ok B hrun.session
  have hg := deriveKeys_ok B hd
  have hb : ({p.gathered B b with
      state := .complaining,complaints := own.flatten++b.complaints} : Session).Backed B
        (fun dealer => toPolynomial (dealing dealer).secret) qual := by
    refine ⟨fun dealer hde => ?_,fun dealer hde => ?_⟩
    · have hge := (h.get?_commitments B hpub).mpr ((hm dealer).mp hde).1
      obtain ⟨point,hp⟩ := hg dealer hde
      exact publicPoint_ownCommitment B (threshold_pos_of_publicPoint B hge hp) hge
    · by_cases hne : dealer=p.fp
      · subst hne
        refine ⟨evaluate (dealing p.fp).secret (indexIn config p.fp),?_,fun acc => ?_⟩
        · rw [cast_evaluate]
          rfl
        · rw [h.own]
          exact if_pos rfl
      · obtain ⟨share,hge,hsh⟩ := hs dealer ((hm dealer).mp hde) hne
        refine ⟨share.share,hsh,fun acc => ?_⟩
        rw [addShare,hge]
        exact if_neg hne
  obtain ⟨result,key,hk,hpk,_,_,_,_,_,hi,_,_,hsh⟩ :=
    deriveKeys_of_backed B hb
  cases hk.symm.trans hd
  refine ⟨qual,hsu.nodup (p.gathered B b).commitments.nodup,hm,?_,hpk⟩
  rw [hi]
  exact hsh

end

theorem honest_shares_on_one_polynomial {q : Party config} {s₁ s₂ : Session}
    (hp : HonestRun B b p s₁) (hq : HonestRun B b q s₂)
    (hpc : Consistent B b dealing p) (hqc : Consistent B b dealing q)
    (hpb : Binding B (openings dealing p)) (hqb : Binding B (openings dealing q))
    {o₁ o₂ : Result × ThresholdSigningKey}
    (ho₁ : (s₁.finalize B).1=.ok o₁) (ho₂ : (s₂.finalize B).1=.ok o₂) :
    OnePolynomial B config [o₁,o₂] := by
  obtain ⟨qual1,hn1,hm1,hs1,hpk1⟩ := hp.outcome B hpc hpb ho₁
  obtain ⟨qual2,hn2,hm2,hs2,hpk2⟩ := hq.outcome B hqc hqb ho₂
  have hpe : qual1.Perm qual2 :=
    (perm_ext_iff_of_nodup hn1 hn2).mpr fun dealer =>
      (hm1 dealer).trans (hm2 dealer).symm
  have hs := (hpe.map fun dealer => toPolynomial (dealing dealer).secret).sum_eq
  rw [← hs] at hs2 hpk2
  refine ⟨_,?_,forall_mem_cons.mpr ⟨⟨hs1,hpk1⟩,forall_mem_singleton.mpr ⟨hs2,hpk2⟩⟩⟩
  exact degree_sum_secrets_lt dealing qual1

end
end

section

def trioConfig : SessionConfig := ⟨1,1,2,⟨[[1],[2],[3]],by decide⟩,10,0⟩

def trioDraws : Bytes → Dealing trioConfig.threshold := fun fp =>
  if fp=[1] then ⟨[3,4],[5,6],by decide,by decide⟩
  else if fp=[2] then ⟨[7,8],[9,10],by decide,by decide⟩
  else ⟨[11,12],[13,14],rfl,rfl⟩

def trioParty (fp : Bytes) : Party trioConfig := ⟨fp,trioDraws fp,honestShares trioDraws fp⟩

def trioBroadcast (complaints : List Complaint) : Broadcast :=
  ⟨honestCommitments (scalarBackend false) trioDraws,complaints⟩

theorem trio_follows (cs : List Complaint) :
    FollowsProtocol (scalarBackend false) (trioBroadcast cs) (trioParty [2]) [1]
      (trioDraws [1]) where
  published := mem_cons_self
  only := by
    have h : ∀ c ∈ honestCommitments (scalarBackend false) trioDraws, c.dealerFp=[1] →
        c=ownCommitment (scalarBackend false) trioConfig [1] (trioDraws [1]) := by decide +kernel
    exact h
  share := by decide +kernel
  own := fun h => absurd h (by decide)

theorem trio_keeps_dealer : ∃ s qual,
    (trioParty [2]).session (scalarBackend false) (trioBroadcast [⟨[3],[1],15,23,0⟩])=.ok s ∧
      s.resolveComplaints (scalarBackend false) s.complaints s.commitments.keys =
        (.ok (),qual) ∧ [1] ∈ qual := by
  have hrun : ((trioParty [2]).session (scalarBackend false)
      (trioBroadcast [⟨[3],[1],15,23,0⟩])).map (fun s =>
        s.resolveComplaints (scalarBackend false) s.complaints s.commitments.keys) =
          .ok (.ok (),[[2],[1],[3]]) := by decide +kernel
  obtain ⟨s,hs,hq⟩ := exists_of_map_eq_ok hrun
  have hr : ∀ c ∈ (trioBroadcast [⟨[3],[1],15,23,0⟩]).complaints, c.dealerFp=[1] →
      RevealsShare (scalarBackend false) trioConfig (trioDraws [1]) c := by
    simp only [RevealsShare]
    decide +kernel
  exact ⟨s,_,hs,hq,(honest_dealer_mem_qual_iff (scalarBackend false) (trio_follows _) hs hq).mpr hr⟩

theorem trio_excludes_honest_dealer :
    FollowsProtocol (scalarBackend false) (trioBroadcast [⟨[3],[1],0,0,0⟩]) (trioParty [2])
        [1] (trioDraws [1]) ∧ ((trioParty [2]).session (scalarBackend false)
        (trioBroadcast [⟨[3],[1],0,0,0⟩])).bind
          (fun s => (s.finalize (scalarBackend false)).1.map (·.1.qualSet)) = .ok [[2],[3]] :=
  ⟨trio_follows _,by decide +kernel⟩

theorem exists_honestRun {α : Type} {b : Broadcast} {p : Party trioConfig}
    {part : Result × ThresholdSigningKey → α} {value : α} {own : List Complaint}
    (hrun : (p.session (scalarBackend false) b).map (fun s =>
      (s.complaints,(s.finalize (scalarBackend false)).1.map part))=.ok (own,.ok value))
    (hown : own ⊆ b.complaints)
    (hp : ownCommitment (scalarBackend false) trioConfig p.fp p.draw ∈ b.commitments) :
    ∃ s o, HonestRun (scalarBackend false) b p s ∧
      (s.finalize (scalarBackend false)).1=.ok o ∧ part o=value := by
  obtain ⟨s,hs,hf⟩ := exists_of_map_eq_ok hrun
  obtain ⟨hc,hpa⟩ := Prod.ext_iff.mp hf
  obtain ⟨o,ho,hv⟩ := exists_of_map_eq_ok hpa
  exact ⟨s,o,⟨hs,hp,(show s.complaints=own from hc) ▸ hown⟩,ho,hv⟩

def cheatedParty (fp : Bytes) : Party trioConfig where
  fp := fp
  draw := trioDraws fp
  shares := (honestShares trioDraws fp).map fun share =>
    if fp=[1] ∧ share.dealerFp=[3] then {share with share := 0} else share

def cheatedBroadcast : Broadcast := trioBroadcast [⟨[1],[3],0,27,0⟩]

theorem cheated_run {fp : Bytes} (hfp : fp=[1] ∨ fp=[2]) :
    Consistent (scalarBackend false) cheatedBroadcast trioDraws (cheatedParty fp) ∧
      Binding (scalarBackend false) (openings trioDraws (cheatedParty fp)) ∧
      ∃ s o, HonestRun (scalarBackend false) cheatedBroadcast (cheatedParty fp) s ∧
        (s.finalize (scalarBackend false)).1=.ok o ∧ o.1.qualSet.Perm [[1],[2]] := by
  have ha : ∀ fp ∈ [[1],[2]],
      (∀ c ∈ cheatedBroadcast.commitments, c.dealerFp≠fp →
        ∃ s ∈ (cheatedParty fp).shares, s.dealerFp=c.dealerFp) ∧
      (∀ x ∈ openings trioDraws (cheatedParty fp), ∀ y ∈ openings trioDraws (cheatedParty fp),
        openPoint (scalarBackend false) x.1 x.2 =
          openPoint (scalarBackend false) y.1 y.2 → (x.1 : ZMod R)=y.1) ∧
      ((cheatedParty fp).session (scalarBackend false) cheatedBroadcast).map (fun s =>
        (s.complaints,(s.finalize (scalarBackend false)).1.map fun o =>
          decide (o.1.qualSet.Perm [[1],[2]]))) =
        .ok (if fp=[1] then cheatedBroadcast.complaints++cheatedBroadcast.complaints
          else cheatedBroadcast.complaints,.ok true) ∧
      ownCommitment (scalarBackend false) trioConfig fp (trioDraws fp) ∈
        cheatedBroadcast.commitments := by decide +kernel
  obtain ⟨hd,hb,hrun,hp⟩ := ha fp (by simpa using hfp)
  obtain ⟨s,o,hs,ho,hq⟩ := exists_honestRun hrun (by split_ifs <;> simp) hp
  exact ⟨⟨committed_honestCommitments _ _,rfl,hd⟩,hb,s,o,hs,ho,of_decide_eq_true hq⟩

theorem trio_on_one_polynomial : ∃ s₁ s₂ o₁ o₂,
    HonestRun (scalarBackend false) cheatedBroadcast (cheatedParty [1]) s₁ ∧
      HonestRun (scalarBackend false) cheatedBroadcast (cheatedParty [2]) s₂ ∧
      (s₁.finalize (scalarBackend false)).1=.ok o₁ ∧ o₁.1.qualSet.Perm [[1],[2]] ∧
      (s₂.finalize (scalarBackend false)).1=.ok o₂ ∧ o₂.1.qualSet.Perm [[1],[2]] ∧
      OnePolynomial (scalarBackend false) trioConfig [o₁,o₂] := by
  obtain ⟨hc1,hb1,s₁,o₁,hr1,ho1,hq1⟩ := cheated_run (.inl rfl)
  obtain ⟨hc2,hb2,s₂,o₂,hr2,ho2,hq2⟩ := cheated_run (.inr rfl)
  exact ⟨s₁,s₂,o₁,o₂,hr1,hr2,ho1,hq1,ho2,hq2,
    honest_shares_on_one_polynomial (scalarBackend false) hr1 hr2 hc1 hc2 hb1 hb2 ho1 ho2⟩

def biasedBroadcast : Broadcast :=
  ⟨[ownCommitment (scalarBackend false) trioConfig [1] (trioDraws [1]),
    ownCommitment (scalarBackend false) trioConfig [2] (trioDraws [2]),
    {ownCommitment (scalarBackend false) trioConfig [3] (trioDraws [3]) with
      feldmanCommitments := (PedersenVss.generateCommitments (scalarBackend false) [20,12]
        [13,14]).1}],[]⟩

theorem eval_zero_of_degree_lt_two {P : Polynomial (ZMod R)} (hd : P.degree<2) :
    P.eval 0=2*P.eval 1-P.eval 2 := by
  have hle : P.degree≤1 := Order.lt_succ_iff.mp hd
  rw [Polynomial.eq_X_add_C_of_degree_le_one hle]
  simp only [Polynomial.eval_add,Polynomial.eval_mul,Polynomial.eval_C,Polynomial.eval_X]
  ring

theorem biased_group_key : ∃ s₁ s₂ o₁ o₂,
    HonestRun (scalarBackend false) biasedBroadcast (trioParty [1]) s₁ ∧
      HonestRun (scalarBackend false) biasedBroadcast (trioParty [2]) s₂ ∧
      (s₁.finalize (scalarBackend false)).1=.ok o₁ ∧ (s₂.finalize (scalarBackend false)).1=.ok o₂ ∧
      ¬OnePolynomial (scalarBackend false) trioConfig [o₁,o₂] := by
  have hr1 : ((trioParty [1]).session (scalarBackend false) biasedBroadcast).map (fun s =>
      (s.complaints,(s.finalize (scalarBackend false)).1.map
        (fun o => (o.2.secretShare,o.2.participantIndex,o.1.groupPk)))) =
        .ok ([],.ok (45,1,(scalarBackend false).g1Serialize 30)) := by decide +kernel
  have hr2 : ((trioParty [2]).session (scalarBackend false) biasedBroadcast).map (fun s =>
      (s.complaints,(s.finalize (scalarBackend false)).1.map
        (fun o => (o.2.secretShare,o.2.participantIndex,o.1.groupPk)))) =
        .ok ([],.ok (69,2,(scalarBackend false).g1Serialize 30)) := by decide +kernel
  have hpu1 : ownCommitment (scalarBackend false) trioConfig [1] (trioDraws [1]) ∈
      biasedBroadcast.commitments := mem_cons_self
  have hpu2 : ownCommitment (scalarBackend false) trioConfig [2] (trioDraws [2]) ∈
      biasedBroadcast.commitments := mem_cons_of_mem _ mem_cons_self
  obtain ⟨s₁,o₁,hs1,ho1,hp1⟩ := exists_honestRun hr1 (nil_subset _) hpu1
  obtain ⟨s₂,o₂,hs2,ho2,hp2⟩ := exists_honestRun hr2 (nil_subset _) hpu2
  refine ⟨s₁,s₂,o₁,o₂,hs1,hs2,ho1,ho2,?_⟩
  rintro ⟨P,hd,ha⟩
  simp only [Prod.mk.injEq] at hp1 hp2
  obtain ⟨hsh1,hpk1⟩ := ha o₁ mem_cons_self
  obtain ⟨hsh2,_⟩ := ha o₂ (mem_cons_of_mem _ (mem_singleton_self _))
  rw [hp1.1,hp1.2.1] at hsh1
  rw [hp2.1,hp2.2.1] at hsh2
  rw [hp1.2.2] at hpk1
  have hz : (30 : ZMod R)=P.eval 0 • (1 : ZMod R) :=
    (scalarBackend false).g1Serialize_injective hpk1
  have hl := eval_zero_of_degree_lt_two hd
  rw [hl,show P.eval 1=45 from hsh1.symm,
    show P.eval 2=69 from hsh2.symm] at hz
  exact absurd hz (by decide)

end
end Dkg
end LatticeTransfer
