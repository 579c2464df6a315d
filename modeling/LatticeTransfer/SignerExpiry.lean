import LatticeTransfer.AnchorRegistry
import LatticeTransfer.SignerPolicy

/-!
# Keys whose grace period is over

A rotation with a grace period leaves the flag of the old key and records an expiry, which only
the anchoring functions and `transitionState` read. The calls of a key after its expiry are
compared with those of the same key after a revocation. The numbers of a key are compared with
those that `sequencing.py` accepts.
-/

namespace LatticeTransfer.AnchorRegistry
open Solidity Function

namespace Registry

def revoked (s : Registry) (vk : Bytes32) : Registry :=
  {s with authorizedSigners := Function.update s.authorizedSigners vk false}

def Expired (s : Registry) (env : Env) (vk : Bytes32) : Prop :=
  s.signerExpiresAt vk≠0 ∧ (s.signerExpiresAt vk).toNat<env.timestamp.toNat

instance (s : Registry) (env : Env) (vk : Bytes32) : Decidable (s.Expired env vk) :=
  inferInstanceAs (Decidable (_ ∧ _))

/-- The call ends as it would with the key revoked, and what it writes differs in the flag only. -/
def ActsRevoked (s : Registry) (t : Transaction) (vk : Bytes32) : Prop :=
  (s.revoked vk).call t.1 t.2=(s.call t.1 t.2).map (revoked · vk)

/-- What an anchor needs apart from the authorization of its signer. -/
structure Ready (s : Registry) (env : Env) (item : AnchorItem) : Prop where
  value : env.value=0
  running : s.paused=false
  digest_ne : item.anchorDigest≠0
  entity_ne : item.entityIdHash≠0
  root_ne : item.merkleRoot≠0
  signer_ne : item.signerVkHash≠0
  fresh : (s.anchors item.anchorDigest).anchoredAt=0
  bound : s.entitySigners item.entityIdHash=0 ∨
    s.entitySigners item.entityIdHash=item.signerVkHash
  raises : s.signerSequences item.signerVkHash < item.sequence
  timely : uint64 env.timestamp < item.validUntil
  valid : isValidTransition (s.entityStates item.entityIdHash) stateAnchored=true

end Registry

def Message.namedKeys : Message → List Bytes32
  | .registerSigner vkHash => [vkHash]
  | .rotateSigner oldVkHash newVkHash => [oldVkHash,newVkHash]
  | .rotateSignerWithGrace oldVkHash newVkHash _ => [oldVkHash,newVkHash]
  | .reassignEntitySigner _ newSignerVkHash => [newSignerVkHash]
  | _ => []

def Message.registers : Message → Option Bytes32
  | .registerSigner vkHash => some vkHash
  | .rotateSigner _ newVkHash => some newVkHash
  | .rotateSignerWithGrace _ newVkHash _ => some newVkHash
  | _ => none

/-- The admin registers, rotates and assigns no key whose expiry has passed. -/
def SparesExpired (s : Registry) (t : Transaction) : Prop :=
  t.1.sender=s.admin → ∀ vk ∈ t.2.namedKeys, ¬s.Expired t.1 vk

instance (s : Registry) (t : Transaction) : Decidable (SparesExpired s t) :=
  haveI : Decidable (∀ vk ∈ t.2.namedKeys, ¬s.Expired t.1 vk) := List.decidableBAll _ _
  inferInstanceAs (Decidable (_ → ∀ vk ∈ t.2.namedKeys, ¬s.Expired t.1 vk))

section
variable {ε α β σ τ : Type} {m : σ → τ}

theorem bind_map_of_map {x : Result ε α} {y : Result ε β} {k : α → β} {f : α → Result ε σ}
    {g : β → Result ε τ} (hxy : y=x.map k) (h : ∀ a, x=.ok a → g (k a)=(f a).map m) :
    (y >>= g)=(x >>= f).map m := by
  subst hxy
  cases x with
  | error e => rfl
  | ok a => exact h a rfl

theorem bind_map {x : Result ε α} {f : α → Result ε σ} {g : α → Result ε τ}
    (h : ∀ a, x=.ok a → g a=(f a).map m) : (x >>= g)=(x >>= f).map m := by
  cases x with
  | error e => rfl
  | ok a => exact h a rfl

theorem ite_map {cond : Prop} [Decidable cond] {x y : Result ε σ} {x' y' : Result ε τ}
    (hp : x'=x.map m) (hn : y'=y.map m) :
    (if cond then x' else y')=(if cond then x else y).map m := by
  split_ifs
  · exact hp
  · exact hn

end

namespace Registry
variable {s s' : Registry} {env : Env} {vk : Bytes32} {key : Bytes32}

theorem revoked_authorizedSigners_of_ne (hne : key≠vk) :
    (s.revoked vk).authorizedSigners key=s.authorizedSigners key :=
  update_of_ne hne _ _

theorem checkSigner_revoked (h : s.Expired env vk) (key : Bytes32) :
    (s.revoked vk).checkSigner env key=s.checkSigner env key := by
  rcases eq_or_ne key vk with rfl|hne
  · have hf : (s.revoked key).authorizedSigners key=false := update_self ..
    simp only [checkSigner,hf]
    cases s.authorizedSigners key with
    | false => rfl
    | true =>
      have he : revertIf (s.signerExpiresAt key≠0 ∧
          (s.signerExpiresAt key).toNat<env.timestamp.toNat) (Error.unauthorizedSigner key) =
          .error (.custom (.unauthorizedSigner key)) := if_pos h
      change _ = revertIf (s.signerExpiresAt key≠0 ∧ _) _
      rw [he]
      rfl
  · rw [checkSigner,revoked_authorizedSigners_of_ne hne]
    rfl

theorem bindSigner_revoked (entity key : Bytes32) :
    (s.revoked vk).bindSigner entity key=(s.bindSigner entity key).map (revoked · vk) := by
  unfold bindSigner
  exact ite_map rfl (bind_map fun _ _ => rfl)

theorem anchorItem_revoked (h : s.Expired env vk) (item : AnchorItem) :
    (s.revoked vk).anchorItem env item=(s.anchorItem env item).map (revoked · vk) := by
  refine bind_map fun _ _ => bind_map fun _ _ => bind_map fun _ _ => bind_map fun _ _ =>
    bind_map fun _ _ => ?_
  rw [checkSigner_revoked h]
  refine bind_map fun _ _ => bind_map_of_map (bindSigner_revoked _ _) fun bound hb => ?_
  have he : (bound.revoked vk).enterState item.entityIdHash stateAnchored item.signerVkHash
      item.sequence=(bound.enterState item.entityIdHash stateAnchored item.signerVkHash
      item.sequence).map (revoked · vk) := bind_map fun _ _ => rfl
  exact bind_map fun _ _ => bind_map_of_map he fun entered _ => rfl

theorem anchorItem_expiry {item : AnchorItem} (h : s.anchorItem env item=.ok s') :
    s'.signerExpiresAt=s.signerExpiresAt := by
  rw [(anchorItem_ok h).writes]
  rfl

section
variable (h : s.Expired env vk)
include h

theorem anchorAll_revoked (items : List AnchorItem) :
    (s.revoked vk).anchorAll env items=(s.anchorAll env items).map (revoked · vk) := by
  induction items generalizing s with
  | nil => rfl
  | cons item rest ih =>
    refine bind_map_of_map (anchorItem_revoked h item) fun next hn => ?_
    exact ih (by rwa [Expired,anchorItem_expiry hn])

theorem transitionState_revoked (entity : Bytes32) (newState : Uint8) (key : Bytes32)
    (seq validUntil : Uint64) :
    (s.revoked vk).transitionState env entity newState key seq validUntil =
      (s.transitionState env entity newState key seq validUntil).map (revoked · vk) := by
  refine bind_map fun _ _ => bind_map fun _ _ => bind_map fun _ _ => ?_
  rw [checkSigner_revoked h]
  refine bind_map fun _ _ => bind_map_of_map (bindSigner_revoked _ _) fun bound hb => ?_
  exact bind_map fun _ _ => bind_map fun _ _ => rfl

theorem anchorWithBinding_revoked (item : AnchorItem) (statementHash signatureHash : Bytes32) :
    (s.revoked vk).anchorWithBinding env item statementHash signatureHash =
      (s.anchorWithBinding env item statementHash signatureHash).map (revoked · vk) := by
  refine bind_map fun _ _ => bind_map_of_map (anchorItem_revoked h item) fun next hn => ?_
  exact ite_map rfl rfl

end

theorem revoked_setFlag (hne : key≠vk) (flag : Bool) :
    {s.revoked vk with
      authorizedSigners := Function.update (s.revoked vk).authorizedSigners key flag} =
    revoked {s with authorizedSigners := Function.update s.authorizedSigners key flag} vk := by
  simp only [revoked]
  rw [update_comm hne.symm]

theorem registerSigner_revoked (hne : env.sender=s.admin → key≠vk) :
    (s.revoked vk).registerSigner env key=(s.registerSigner env key).map (revoked · vk) := by
  refine bind_map fun _ ha => bind_map fun _ _ => ?_
  have hk := hne (onlyAdmin_ok ha)
  rw [revoked_authorizedSigners_of_ne hk]
  exact bind_map fun _ _ => congrArg _ (revoked_setFlag hk true)

theorem revokeSigner_revoked (hne : key≠vk) :
    (s.revoked vk).revokeSigner env key=(s.revokeSigner env key).map (revoked · vk) := by
  refine bind_map fun _ ha => ?_
  rw [revoked_authorizedSigners_of_ne hne]
  exact bind_map fun _ _ => congrArg _ (revoked_setFlag hne false)

theorem rotate_revoked {old new : Bytes32} (grace : Uint64) (ho : old≠vk) (hn : new≠vk) :
    (s.revoked vk).rotate env old new grace = (s.rotate env old new grace).map (revoked · vk) := by
  refine bind_map fun _ _ => ?_
  rw [revoked_authorizedSigners_of_ne ho]
  refine bind_map fun _ _ => ?_
  rw [revoked_authorizedSigners_of_ne hn]
  refine bind_map fun _ _ => ?_
  split_ifs with hg
  · simp only [revoked,update_comm hn.symm,update_comm ho.symm]
    rfl
  · refine bind_map fun _ _ => ?_
    simp only [revoked,update_comm hn.symm]
    rfl

theorem reassignEntitySigner_revoked {entity : Bytes32} (hne : env.sender=s.admin → key≠vk) :
    (s.revoked vk).reassignEntitySigner env entity key =
      (s.reassignEntitySigner env entity key).map (revoked · vk) := by
  refine bind_map fun _ ha => bind_map fun _ _ => bind_map fun _ _ => ?_
  rw [revoked_authorizedSigners_of_ne (hne (onlyAdmin_ok ha))]
  exact bind_map fun _ _ => rfl

theorem actsRevoked_of_expired {t : Transaction} (h : s.Expired t.1 vk)
    (hs : SparesExpired s t) (hr : t.2≠.revokeSigner vk) : s.ActsRevoked t vk := by
  obtain ⟨env,msg⟩ := t
  have hne : ∀ key ∈ msg.namedKeys, env.sender=s.admin → key≠vk := by
    rintro key hk ha rfl
    exact hs ha key hk h
  refine bind_map fun _ _ => ?_
  cases msg with
  | anchor item => exact bind_map fun _ _ => anchorItem_revoked h item
  | batchAnchor items =>
    exact bind_map fun _ _ => bind_map fun _ _ => bind_map fun _ _ => bind_map fun _ _ =>
      anchorAll_revoked h _
  | transitionState entity newState key seq validUntil =>
    exact transitionState_revoked h entity newState key seq validUntil
  | anchorWithBinding item statementHash signatureHash =>
    exact anchorWithBinding_revoked h item statementHash signatureHash
  | registerSigner key => exact registerSigner_revoked (hne key (by simp [Message.namedKeys]))
  | revokeSigner key => exact revokeSigner_revoked fun heq => hr (by rw [heq])
  | rotateSigner old new =>
    exact bind_map fun _ ha => rotate_revoked 0
      (hne old (by simp [Message.namedKeys]) (onlyAdmin_ok ha))
      (hne new (by simp [Message.namedKeys]) (onlyAdmin_ok ha))
  | rotateSignerWithGrace old new grace =>
    exact bind_map fun _ ha => bind_map fun _ _ => rotate_revoked grace
      (hne old (by simp [Message.namedKeys]) (onlyAdmin_ok ha))
      (hne new (by simp [Message.namedKeys]) (onlyAdmin_ok ha))
  | reassignEntitySigner entity key =>
    exact reassignEntitySigner_revoked (hne key (by simp [Message.namedKeys]))
  | disputeBinding entity fraudProofHash =>
    exact bind_map fun _ _ => bind_map fun _ _ => bind_map fun _ _ => rfl
  | transferAdmin newAdmin => exact bind_map fun _ _ => bind_map fun _ _ => rfl
  | pause | unpause | setBindingDisputeVerifier verifier => exact bind_map fun _ _ => rfl

theorem call_anchor_of_ready {item : AnchorItem} (hr : s.Ready env item)
    (hs : s.checkSigner env item.signerVkHash=.ok ()) : ∃ s', s.call env (.anchor item)=.ok s' := by
  have hbi : s.bindSigner item.entityIdHash item.signerVkHash =
      .ok {s with entitySigners :=
        Function.update s.entitySigners item.entityIdHash item.signerVkHash} := by
    unfold bindSigner
    rcases hr.bound with hf|hb
    · rw [if_pos hf]
      rfl
    · rw [if_neg (by rw [hb]; exact hr.signer_ne),hb,revertIf,if_neg (by simp),
        ← hb,update_eq_self]
      rfl
  simp only [call,dispatch,anchor,anchorItem,bind_eq_ok,revertIf_eq_ok,nonpayable_eq_ok,
    whenNotPaused,checkSequence,enterState,hbi,hs]
  refine ⟨_,(),hr.value,(),by simp [hr.running],(),hr.digest_ne,(),
    hr.entity_ne,(),hr.root_ne,(),hr.signer_ne,(),
    by simp [hr.fresh],(),trivial,
    _,rfl,(),⟨(),BitVec.not_le.mpr hr.raises,BitVec.not_le.mpr hr.timely⟩,_,
    ⟨(),by simp [hr.valid],rfl⟩,rfl⟩

theorem rotate_registers {oldVkHash newVkHash : Bytes32} {grace : Uint64}
    (h : s.rotate env oldVkHash newVkHash grace=.ok s') : s'.authorizedSigners newVkHash=true ∧
      s'.signerExpiresAt newVkHash=s.signerExpiresAt newVkHash := by
  simp only [rotate,bind_eq_ok,revertIf_eq_ok,Bool.not_eq_false,Bool.not_eq_true] at h
  obtain ⟨_,_,_,ho,_,hn,h⟩ := h
  have hne : newVkHash≠oldVkHash := by
    rintro rfl
    rw [ho] at hn
    cases hn
  split_ifs at h with hg
  · cases h
    simp [update_of_ne hne]
  · obtain ⟨expiresAt,_,h⟩ := bind_eq_ok.mp h
    cases h
    simp [update_of_ne hne]

theorem call_registers {msg : Message} (hr : msg.registers=some vk)
    (h : s.call env msg=.ok s') : env.sender=s.admin ∧ s'.authorizedSigners vk=true ∧
      s'.signerExpiresAt vk=s.signerExpiresAt vk := by
  obtain ⟨_,_,h⟩ := bind_eq_ok.mp h
  cases msg with
  | registerSigner key =>
    cases hr
    simp only [dispatch,registerSigner,bind_eq_ok,pure_eq_ok] at h
    obtain ⟨_,ha,_,_,_,_,rfl⟩ := h
    exact ⟨onlyAdmin_ok ha,update_self ..,rfl⟩
  | rotateSigner old new =>
    cases hr
    obtain ⟨_,ha,h⟩ := bind_eq_ok.mp h
    exact ⟨onlyAdmin_ok ha,rotate_registers h⟩
  | rotateSignerWithGrace old new grace =>
    cases hr
    obtain ⟨_,ha,h⟩ := bind_eq_ok.mp h
    obtain ⟨_,_,h⟩ := bind_eq_ok.mp h
    exact ⟨onlyAdmin_ok ha,rotate_registers h⟩
  | _ => cases hr

theorem checkSigner_of_registers {t : Transaction} (hs : SparesExpired s t)
    (hr : t.2.registers=some vk) (h : s.call t.1 t.2=.ok s')
    (ht : env.timestamp=t.1.timestamp) : s'.checkSigner env vk=.ok () := by
  obtain ⟨ha,hf,he⟩ := call_registers hr h
  have hn : vk ∈ t.2.namedKeys := by
    cases hm : t.2 <;> simp_all [Message.registers,Message.namedKeys]
  have hl := hs ha vk hn
  simp only [checkSigner,bind_eq_ok,revertIf_eq_ok,hf,he,ht]
  exact ⟨(),by simp,hl⟩

end Registry

/-- In a run whose admin spares expired keys, an expired key acts like a revoked one in every call
but its own revocation, and a key that was just registered can anchor. -/
theorem expired_keys_act_revoked (admin : Address) (inputs : List Transaction)
    (h : (machine admin).Meets SparesExpired inputs) (before : List Transaction) (t : Transaction)
    (after : List Transaction) (hsplit : inputs=before++t::after) :
    (∀ vk, ((machine admin).state before).Expired t.1 vk → t.2≠.revokeSigner vk →
      ((machine admin).state before).ActsRevoked t vk) ∧
    ∀ vk s', t.2.registers=some vk → ((machine admin).state before).call t.1 t.2=.ok s' →
      ∀ env item, env.timestamp=t.1.timestamp → item.signerVkHash=vk → s'.Ready env item →
        ∃ s'', s'.call env (.anchor item)=.ok s'' := by
  have hs := h before t after hsplit
  constructor
  · intro vk he hr
    exact Registry.actsRevoked_of_expired he hs hr
  · rintro vk s' hre hc env item ht rfl hrea
    exact Registry.call_anchor_of_ready hrea
      (Registry.checkSigner_of_registers hs hre hc ht)

def laterCall (message : Message) : Transaction := (⟨1,0,2000,1⟩,message)

def graceRun : List Transaction :=
  [.registerSigner 10,.rotateSignerWithGrace 10 11 100].map adminCall

def lateAnchor : Transaction := laterCall (.anchor {item 20 30 10 1 with validUntil := 3000})

theorem graceRun_old_key_acts_revoked :
    let s := (machine 1).state graceRun
    let s' := (machine 1).state (graceRun++[laterCall (.registerSigner 12)])
    s.Expired lateAnchor.1 10 ∧ s.ActsRevoked lateAnchor 10 ∧
      ∃ s'', s'.call lateAnchor.1 (.anchor {item 20 30 12 1 with validUntil := 3000}) =
        .ok s'' := by
  have he : ((machine 1).state graceRun).Expired lateAnchor.1 10 := by decide +kernel
  have hm : (machine 1).Meets SparesExpired (graceRun++[lateAnchor]) := by decide +kernel
  have hm' : (machine 1).Meets SparesExpired (graceRun++[laterCall (.registerSigner 12)]) := by
    decide +kernel
  have ha := (expired_keys_act_revoked 1 _ hm graceRun lateAnchor [] rfl).1 10 he
  have hr := (expired_keys_act_revoked 1 _ hm' graceRun (laterCall (.registerSigner 12)) [] rfl).2
    12 ((machine 1).state (graceRun++[laterCall (.registerSigner 12)])) rfl rfl
  exact ⟨he,ha nofun,hr _ _ rfl rfl (by constructor <;> decide +kernel)⟩

def refusal : Result Error Registry → Option (Revert Error)
  | .ok _ => none
  | .error e => some e

/-- After its grace period the key is refused by `registerSigner` and accepted by `rotateSigner`
and `reassignEntitySigner`, each the other way round for a revoked key; once it is revoked and
registered again it cannot anchor. -/
theorem graceRun_old_key_keeps_flag :
    let s := (machine 1).state graceRun
    let env := (laterCall .pause).1
    s.Expired env 10 ∧
      refusal (s.call env (.registerSigner 10))=some (.custom (.signerAlreadyRegistered 10)) ∧
      refusal ((s.revoked 10).call env (.registerSigner 10))=none ∧
      refusal (s.call env (.rotateSigner 10 12))=none ∧
      refusal ((s.revoked 10).call env (.rotateSigner 10 12)) =
        some (.custom (.signerNotRegistered 10)) ∧
      refusal (s.call env (.reassignEntitySigner 30 10))=none ∧
      refusal ((s.revoked 10).call env (.reassignEntitySigner 30 10)) =
        some (.custom (.unauthorizedSigner 10)) ∧
      refusal (((machine 1).state (graceRun++[laterCall (.revokeSigner 10),
        laterCall (.registerSigner 10)])).call lateAnchor.1 lateAnchor.2) =
        some (.custom (.unauthorizedSigner 10)) := by decide +kernel

section
open SequenceTracker MerkleTree

/-- A receipt; the tracker reads its clock within the second of the block. -/
structure Receipt where
  sequence : Uint64
  validUntil : Uint64
  env : Env
  now : ℚ
  second : ((uint64 env.timestamp).toNat : ℚ)≤now ∧ now<(uint64 env.timestamp).toNat+1

variable (H : CanonicalHash) (chainId : String) (vk : Bytes) (vkHash : Bytes32)

/-- Which of the two accepts a receipt; each keeps the number of one that it accepts. The registry
has no number of the signer yet. -/
def twoChecks (registry : Registry) :
    Machine (SequenceTracker × Registry) Receipt (Bool × Bool) where
  start := (⟨chainId,Dict.empty⟩,{registry with
    signerSequences := update registry.signerSequences vkHash 0})
  step s r :=
    let tracked := s.1.validateAndAdvance H vk r.sequence.toNat chainId r.validUntil.toNat r.now
    let checked := s.2.checkSequence r.env vkHash r.sequence r.validUntil
    ((tracked.toOption.getD s.1,if checked.isOk then {s.2 with
        signerSequences := update s.2.signerSequences vkHash r.sequence} else s.2),
      [(tracked.isOk,checked.isOk)])

/-- A receipt that has not expired does not number the first act of its signer with zero. -/
def Counted (s : SequenceTracker × Registry) (r : Receipt) : Prop :=
  r.sequence=0 → r.now<r.validUntil.toNat → 0 ≤ s.1.currentSequence H vk

structure SameMark (s : SequenceTracker × Registry) : Prop where
  chain : s.1.chainId=chainId
  mark : ((s.2.signerSequences vkHash).toNat : ℤ)=max 0 (s.1.currentSequence H vk)

variable {chainId} {s : SequenceTracker × Registry}

theorem checkSequence_isOk (s : Registry) (r : Receipt) :
    (s.checkSequence r.env vkHash r.sequence r.validUntil).isOk=true ↔
      (s.signerSequences vkHash).toNat<r.sequence.toNat ∧ r.now<r.validUntil.toNat := by
  have hn : r.now<r.validUntil.toNat ↔ uint64 r.env.timestamp<r.validUntil := by
    rw [BitVec.lt_def]
    constructor
    · exact fun h => by exact_mod_cast r.second.1.trans_lt h
    · exact fun h => r.second.2.trans_le (by exact_mod_cast h)
  have hok : (s.checkSequence r.env vkHash r.sequence r.validUntil).isOk=true ↔
      s.checkSequence r.env vkHash r.sequence r.validUntil=.ok () := by
    cases s.checkSequence r.env vkHash r.sequence r.validUntil <;> simp [Except.isOk,Except.toBool]
  rw [hok,hn,← BitVec.lt_def]
  simp [Registry.checkSequence,bind_eq_ok]

theorem validateAndAdvance_eq {t : SequenceTracker} (h : t.chainId=chainId) (r : Receipt) :
    ∃ e, t.validateAndAdvance H vk r.sequence.toNat chainId r.validUntil.toNat r.now =
      if t.currentSequence H vk<r.sequence.toNat ∧ r.now<r.validUntil.toNat then
        .ok {t with hwm := t.hwm.set (signerFingerprint H vk) r.sequence.toNat}
      else .error e := by
  rw [validateAndAdvance,if_neg (not_not.mpr h.symm)]
  by_cases hn : r.now<r.validUntil.toNat
  · rw [if_neg (not_le.mpr hn)]
    by_cases hs : t.currentSequence H vk<r.sequence.toNat
    · exact ⟨.expired,by rw [if_neg (not_le.mpr hs),if_pos ⟨hs,hn⟩]⟩
    · exact ⟨_,by rw [if_pos (not_lt.mp hs),if_neg fun h => hs h.1]⟩
  · exact ⟨_,by rw [if_pos (not_lt.mp hn),if_neg fun h => hn h.2]⟩

variable {H vk vkHash}

theorem SameMark.step (h : SameMark H chainId vk vkHash s) (registry : Registry) (r : Receipt) :
    let out := (twoChecks H chainId vk vkHash registry).step s r
    SameMark H chainId vk vkHash out.1 ∧
      ((∀ accepted ∈ out.2, accepted.1=accepted.2) ↔ Counted H vk s r) := by
  obtain ⟨e,he⟩ := validateAndAdvance_eq H vk h.chain r
  have hc := checkSequence_isOk vkHash s.2 r
  have hm := h.mark
  have hz : r.sequence=0 ↔ r.sequence.toNat=0 := BitVec.toNat_eq
  simp only [twoChecks,he,List.forall_mem_singleton,Counted,hz]
  have hset : (s.1.hwm.set (signerFingerprint H vk) r.sequence.toNat).get?
      (signerFingerprint H vk)=some (r.sequence.toNat : ℤ) := Dict.get?_set_self ..
  by_cases ha : s.1.currentSequence H vk<r.sequence.toNat ∧ r.now<r.validUntil.toNat
  · rw [if_pos ha]
    by_cases hb : (s.2.signerSequences vkHash).toNat<r.sequence.toNat
    · rw [if_pos (hc.mpr ⟨hb,ha.2⟩),hc.mpr ⟨hb,ha.2⟩]
      refine ⟨⟨h.chain,?_⟩,iff_of_true rfl fun hs => by omega⟩
      simp [Except.toOption,currentSequence,hset]
    · have hr := mt hc.mp fun hr => hb hr.1
      rw [if_neg hr,Bool.eq_false_of_not_eq_true hr]
      refine ⟨⟨h.chain,?_⟩,iff_of_false nofun fun hs => ?_⟩
      · simp only [Except.toOption,Option.getD_some,currentSequence,hset]
        omega
      · have hcur := hs (by omega) ha.2
        omega
  · have hr := mt hc.mp fun hr => ha ⟨by omega,hr.2⟩
    rw [if_neg ha,if_neg hr,Bool.eq_false_of_not_eq_true hr]
    refine ⟨h,iff_of_true rfl fun hs hn => ?_⟩
    have hle := not_lt.mp fun hlt => ha ⟨hlt,hn⟩
    omega

/-- The two agree on every receipt of a run exactly if the numbers of the signer do not start at
zero. -/
theorem checks_agree_iff_counted (registry : Registry) (receipts : List Receipt) :
    (∀ accepted ∈ (twoChecks H chainId vk vkHash registry).outputs receipts,
        accepted.1=accepted.2) ↔
      (twoChecks H chainId vk vkHash registry).Meets (Counted H vk) receipts := by
  have hi := Machine.invariant (M := twoChecks H chainId vk vkHash registry)
    (P := fun s _ => SameMark H chainId vk vkHash s) ⟨rfl,by simp [twoChecks,currentSequence]⟩
    fun s _ r h => (h.step registry r).1
  refine Machine.iff_meets (J := fun s _ => SameMark H chainId vk vkHash s)
    (P := fun out : List (Bool × Bool) => ∀ x ∈ out, x.1=x.2) hi (List.forall_mem_nil _)
    (fun s out r h => ?_) receipts
  rw [List.forall_mem_append,(h.step registry r).2]

def firstReceipt : Receipt := ⟨0,10,⟨0,0,5,1⟩,5,by decide +kernel⟩

theorem firstReceipt_accepted_by_tracker_only :
    (twoChecks cutHash "l1" [7] 1 (initialStorage 0)).outputs [firstReceipt] =
      [(true,false)] := by decide +kernel

end

end LatticeTransfer.AnchorRegistry
