import LatticeTransfer.AnchorRecords

/-!
# The signer of an entity and its binding statement

The signer that an entity is bound to and the statement that was recorded for it are kept in two
mappings. They agree until the entity is reassigned to a signer other than that of the statement.
-/

namespace LatticeTransfer.AnchorRegistry
open Solidity Function

def Disputable (s : Registry) (entity : Bytes32) : Prop :=
  (s.bindingStatements entity).bindingTimestamp≠0 ∧ (s.bindingStatements entity).disputed=false

def StatementsAgree (s : Registry) : Prop :=
  ∀ entity, Disputable s entity →
    s.entitySigners entity=(s.bindingStatements entity).signerVkHash

def StatementsSigned (s : Registry) : Prop :=
  ∀ entity, Disputable s entity → (s.bindingStatements entity).signerVkHash≠0

/-- An accepted dispute clears the binding that its statement is about, and no other. -/
def ClearsDisputed (s : Registry) : Prop :=
  ∀ t s' entity, s.call t.1 t.2=.ok s' → s.Disputes t entity →
    s.entitySigners entity=(s.bindingStatements entity).signerVkHash ∧
      s'.entitySigners entity=0 ∧
      ∀ other, other≠entity → s'.entitySigners other=s.entitySigners other

/-- An accepted reassignment of an entity with such a statement is to the signer it names. -/
def ReassignsToStated (s : Registry) (t : Transaction) : Prop :=
  ∀ entity vk, s.Reassigns t entity vk → Disputable s entity →
    vk=(s.bindingStatements entity).signerVkHash

section
variable {s s' : Registry} {env : Env} {m : Message}

open Registry

theorem anchorItem_bindings {item : AnchorItem} (h : s.anchorItem env item=.ok s') :
    s'.bindingStatements=s.bindingStatements ∧
      s'.entitySigners=Function.update s.entitySigners item.entityIdHash item.signerVkHash ∧
      item.signerVkHash≠0 := by
  have hw := (anchorItem_ok h).writes
  simp only [anchorItem,bind_eq_ok,revertIf_eq_ok] at h
  obtain ⟨_,_,_,_,_,_,_,hs,-⟩ := h
  rw [hw]
  exact ⟨rfl,rfl,hs⟩

theorem anchorAll_bindings {items : List AnchorItem} (h : s.anchorAll env items=.ok s') :
    s'.bindingStatements=s.bindingStatements ∧
      ∀ entity, s.entitySigners entity≠0 → s'.entitySigners entity=s.entitySigners entity := by
  induction items generalizing s with
  | nil =>
    cases h
    exact ⟨rfl,fun _ _ => rfl⟩
  | cons item rest ih =>
    obtain ⟨next,hi,hres⟩ := anchorAll_cons_ok.mp h
    obtain ⟨hs,hsi,-⟩ := anchorItem_bindings hi
    obtain ⟨hr,hre⟩ := ih hres
    refine ⟨hr.trans hs,fun entity hb => ?_⟩
    have hn : next.entitySigners entity=s.entitySigners entity := by
      rw [hsi]
      rcases eq_or_ne entity item.entityIdHash with rfl|hne
      · rw [update_self]
        exact ((anchorItem_ok hi).bound.resolve_left hb).symm
      · exact update_of_ne hne _ _
    rw [hre entity (by rwa [hn]),hn]

theorem disputable_congr {entity : Bytes32}
    (h : s'.bindingStatements entity=s.bindingStatements entity) :
    Disputable s' entity ↔ Disputable s entity := by rw [Disputable,Disputable,h]

/-- A disputable statement is new and names the signer of its entity, or it stays; then the signer
stays too, unless the call reassigns the entity. -/
theorem disputable_call {entity : Bytes32} (h : s.call env m=.ok s')
    (hd : Disputable s' entity) : ((s'.bindingStatements entity).signerVkHash≠0 ∧
      s'.entitySigners entity=(s'.bindingStatements entity).signerVkHash) ∨
    s'.bindingStatements entity=s.bindingStatements entity ∧
      (s.entitySigners entity≠0 → s'.entitySigners entity=s.entitySigners entity ∨
        s.Reassigns (env,m) entity (s'.entitySigners entity)) := by
  cases call_effect h with
  | anchored hi =>
    obtain ⟨hs,hsi⟩ := anchorAll_bindings hi
    exact .inr ⟨congrFun hs entity,fun hb => .inl (hsi entity hb)⟩
  | bound item statementHash signatureHash next hf hit =>
    obtain ⟨hs,hsi,hsig⟩ := anchorItem_bindings (anchorAll_singleton.mp hit)
    rcases eq_or_ne entity item.entityIdHash with rfl|hne
    · left
      simpa [recordBinding,hsi] using hsig
    · right
      simp [recordBinding,update_of_ne hne,hs,hsi]
  | moved other newState vk seq validUntil hfr hr hv =>
    refine .inr ⟨rfl,fun hb => .inl ?_⟩
    rcases eq_or_ne entity other with rfl|hne
    · simpa using (hfr.resolve_left hb).symm
    · exact update_of_ne hne _ _
  | reassigned other vk hre =>
    refine .inr ⟨rfl,fun _ => ?_⟩
    rcases eq_or_ne entity other with rfl|hne
    · right
      simpa using hre
    · exact .inl (update_of_ne hne _ _)
  | disputed disputed fraudProofHash hdi =>
    rcases eq_or_ne entity disputed with rfl|hne
    · simp [Disputable,recordBinding] at hd
    · right
      simp [recordBinding,update_of_ne hne]
  | rotated _ _ _ hsa | administered _ hsa =>
    exact .inr ⟨congrFun hsa.statements entity,fun _ => .inl (congrFun hsa.signers entity)⟩

theorem statementsSigned_call (hs : StatementsSigned s) (h : s.call env m=.ok s') :
    StatementsSigned s' := by
  intro entity hd
  rcases disputable_call h hd with ⟨hsi,-⟩|⟨hsa,-⟩
  · exact hsi
  · rw [hsa]
    exact hs entity ((disputable_congr hsa).mp hd)

theorem statementsAgree_call (hs : StatementsSigned s) (ha : StatementsAgree s)
    (hst : ReassignsToStated s (env,m)) (h : s.call env m=.ok s') : StatementsAgree s' := by
  intro entity hd
  rcases disputable_call h hd with ⟨-,hag⟩|⟨hsa,hsi⟩
  · exact hag
  have hb := (disputable_congr hsa).mp hd
  have hbo := ha entity hb
  rw [hsa]
  rcases hsi (hbo ▸ hs entity hb) with hk|hr
  · rw [hk,hbo]
  · exact hst entity _ hr hb

theorem clearsDisputed_of_agree (ha : StatementsAgree s) : ClearsDisputed s := by
  rintro ⟨env,m⟩ s' entity h ⟨⟨fraudProofHash,hm⟩,-,-,-,hr,hu⟩
  refine ⟨ha entity ⟨hr,hu⟩,?_⟩
  obtain rfl : m=.disputeBinding entity fraudProofHash := hm
  obtain ⟨_,-,h⟩ := bind_eq_ok.mp h
  simp only [dispatch,disputeBinding,bind_eq_ok,pure_eq_ok] at h
  obtain ⟨_,-,_,-,_,-,rfl⟩ := h
  exact ⟨update_self ..,fun other hne => update_of_ne hne _ _⟩

theorem call_reassigns {t : Transaction} {entity vk : Bytes32} (h : s.Reassigns t entity vk) :
    s.call t.1 t.2 = .ok {s with entitySigners := Function.update s.entitySigners entity vk} := by
  obtain ⟨hm,hv,ha,he,hvk,hau⟩ := h
  have hp : (nonpayable t.1 : Result Error Unit)=.ok () := nonpayable_eq_ok.mpr hv
  have hs : s.onlyAdmin t.1=.ok () := revertIf_eq_ok.mpr (not_not.mpr ha)
  simp only [hm,call,dispatch,reassignEntitySigner,hp,hs,revertIf,if_neg he,if_neg hvk,hau]
  rfl

end

/-- The statements agree with the bindings, and a dispute clears only the binding it is about, in
every state of exactly the runs that reassign no entity away from its undisputed statement. -/
theorem statements_agree_iff (admin : Address) (inputs : List Transaction) :
    (∀ before, before <+: inputs → StatementsAgree ((machine admin).state before) ∧
        ClearsDisputed ((machine admin).state before)) ↔
      (machine admin).Meets ReassignsToStated inputs := by
  refine Machine.forall_prefix_iff_meets (J := fun s _ => StatementsSigned s)
    (P := fun s _ => StatementsAgree s ∧ ClearsDisputed s) (Q := fun s _ => StatementsAgree s)
    ?_ ?_ ?_ ?_ ?_ inputs
  · refine Machine.invariant (P := fun s _ => StatementsSigned s) ?_ ?_
    · exact fun entity hd => absurd rfl hd.1
    · intro s out t hs
      exact step_induction admin hs fun s' =>
        statementsSigned_call hs
  · exact fun entity hd => absurd rfl hd.1
  · intro s out t hs ha hst
    exact step_induction admin ha fun s' =>
      statementsAgree_call hs ha hst
  · exact fun s out ha => ⟨ha,clearsDisputed_of_agree ha⟩
  · rintro s out t - - ⟨hn,-⟩ entity vk hr hd
    rw [step_eq,call_reassigns hr] at hn
    have ha := hn entity hd
    simpa [settle] using ha

def reassignedRun : List Transaction :=
  [.registerSigner 10,.registerSigner 11,.setBindingDisputeVerifier 1,
    .anchorWithBinding (item 20 30 10 1) 40 41,.reassignEntitySigner 30 11].map adminCall

theorem reassignedRun_dispute_clears_new_signer :
    (((machine 1).state reassignedRun).bindingStatements 30).bindingTimestamp=1000 ∧
      (((machine 1).state reassignedRun).bindingStatements 30).disputed=false ∧
      (((machine 1).state reassignedRun).bindingStatements 30).signerVkHash=10 ∧
      ((machine 1).state reassignedRun).entitySigners 30=11 ∧
      ((machine 1).state (reassignedRun++[adminCall (.disputeBinding 30 50)])).entitySigners 30 =
        0 := by decide +kernel

end LatticeTransfer.AnchorRegistry
