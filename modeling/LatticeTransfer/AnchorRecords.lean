import LatticeTransfer.AnchorRegistry

/-!
# Anchor records and the states of entities

What an accepted call has checked and written, for all messages at once. From it follow the
permanence of a stored record, the equality of a batch with the calls for its items, and the
origin of the state of an entity.
-/

namespace LatticeTransfer.AnchorRegistry
open Solidity List Function
open Machine (state_snoc)

namespace Registry

def isAnchored (s : Registry) (anchorDigest : Bytes32) : Bool :=
  (s.anchors anchorDigest).anchoredAt≠0

variable {s s' : Registry} {env : Env} {m : Message}

theorem Effect.anchors_eq (h : Effect s env m s') : s'.anchors=s.anchors ∨
      ∃ next, s.anchorAll env m.items=.ok next ∧ s'.anchors=next.anchors := by
  cases h with
  | anchored hi => exact .inr ⟨s',hi,rfl⟩
  | bound item statementHash signatureHash next hf hit => exact .inr ⟨next,hit,rfl⟩
  | moved | reassigned | disputed => exact .inl rfl
  | rotated _ _ _ hs | administered _ hs => exact .inl hs.anchors

end Registry

theorem step_eq (admin : Address) (s : Registry) (t : Transaction) :
    ((machine admin).step s t).1=settle s (s.call t.1 t.2) := rfl

theorem step_induction (admin : Address) {s : Registry} {t : Transaction} {P : Registry → Prop}
    (hs : P s) (hc : ∀ s', s.call t.1 t.2=.ok s' → P s') : P ((machine admin).step s t).1 := by
  rw [step_eq]
  cases h : s.call t.1 t.2 with
  | error e => exact hs
  | ok s' => exact hc s' h

section
variable {s s' : Registry} {env : Env} {msg : Message}

open Registry

variable {item : AnchorItem}

theorem anchorItem_anchors (h : s.anchorItem env item=.ok s') :
    s'.anchors=Function.update s.anchors item.anchorDigest
      ((s.storeRecord env item).anchors item.anchorDigest) := by
  rw [(anchorItem_ok h).writes]
  simp [storeRecord]

variable {digest : Bytes32}

theorem anchorItem_keeps_record (h : s.anchorItem env item=.ok s')
    (hs : s.isAnchored digest=true) : s'.anchors digest=s.anchors digest := by
  rw [anchorItem_anchors h,update_of_ne]
  rintro rfl
  simp [isAnchored,(anchorItem_ok h).fresh] at hs

theorem anchorAll_keeps_record {items : List AnchorItem} (h : s.anchorAll env items=.ok s')
    (hs : s.isAnchored digest=true) : s'.anchors digest=s.anchors digest := by
  induction items generalizing s with
  | nil => rw [Except.ok.inj h]
  | cons item rest ih =>
    obtain ⟨next,hi,hr⟩ := anchorAll_cons_ok.mp h
    have hsa := anchorItem_keeps_record hi hs
    rw [ih hr (by rwa [isAnchored,hsa]),hsa]

theorem call_keeps_record (h : s.call env msg=.ok s') (hs : s.isAnchored digest=true) :
    s'.anchors digest=s.anchors digest := by
  rcases (call_effect h).anchors_eq with hsa|⟨next,hi,hn⟩
  · rw [hsa]
  · rw [hn,anchorAll_keeps_record hi hs]

theorem anchorItem_stores (h : s.anchorItem env item=.ok s') (ht : uint64 env.timestamp≠0) :
    s'.isAnchored item.anchorDigest=true ∧
      (s'.anchors item.anchorDigest).entityIdHash=item.entityIdHash := by
  rw [isAnchored,anchorItem_anchors h]
  simpa [storeRecord] using ht

theorem anchorAll_stores {items : List AnchorItem} (h : s.anchorAll env items=.ok s')
    (ht : uint64 env.timestamp≠0) (hw : s'.anchors digest≠s.anchors digest) :
    s'.isAnchored digest=true := by
  induction items generalizing s with
  | nil => exact absurd (by rw [Except.ok.inj h]) hw
  | cons item rest ih =>
    obtain ⟨next,hi,hr⟩ := anchorAll_cons_ok.mp h
    by_cases hd : digest=item.anchorDigest
    · obtain ⟨hs,-⟩ := anchorItem_stores hi ht
      rw [hd,isAnchored,anchorAll_keeps_record hr hs]
      exact hs
    · apply ih hr
      rwa [anchorItem_anchors hi,update_of_ne hd]

theorem call_stores (h : s.call env msg=.ok s') (ht : uint64 env.timestamp≠0)
    (hw : s'.anchors digest≠s.anchors digest) : s'.isAnchored digest=true := by
  rcases (call_effect h).anchors_eq with hs|⟨next,hi,hn⟩
  · exact absurd (by rw [hs]) hw
  · rw [hn] at hw
    rw [isAnchored,hn]
    exact anchorAll_stores hi ht hw

theorem state_keeps_record (admin : Address) (before after : List Transaction)
    (hs : ((machine admin).state before).isAnchored digest=true) :
    ((machine admin).state (before++after)).anchors digest =
      ((machine admin).state before).anchors digest := by
  refine Machine.persists (C := fun _ _ => True)
    (P := fun s : Registry => s.anchors digest=((machine admin).state before).anchors digest)
    (fun s t hsa _ => ?_) rfl after (fun _ _ _ _ => trivial)
  refine step_induction admin (P := fun s => s.anchors digest=_) hsa fun s' hc => ?_
  rw [call_keeps_record hc (by rwa [isAnchored,hsa]),hsa]

end

def BatchItems.ofItems (items : List AnchorItem) : BatchItems where
  anchorDigests := items.map (·.anchorDigest)
  entityIdHashes := items.map (·.entityIdHash)
  merkleRoots := items.map (·.merkleRoot)
  policyHashes := items.map (·.policyHash)
  signerVkHashes := items.map (·.signerVkHash)
  sequences := items.map (·.sequence)
  validUntils := items.map (·.validUntil)
  receiptTypes := items.map (·.receiptType)

section
variable {s s' : Registry} {env : Env}

open Registry

theorem items_ofItems (items : List AnchorItem) :
    (Message.batchAnchor (.ofItems items)).items=items := by
  apply ext_getElem
  · simp [Message.items,BatchItems.ofItems]
  · intro i hi hlt
    simp [Message.items,BatchItems.ofItems,itemAt,hlt]

def single (env : Env) (item : AnchorItem) : Transaction := (env,.anchor item)

variable {item : AnchorItem}

theorem call_anchor_of_open (hv : env.value=0) (ho : s.paused=false) :
    s.call env (.anchor item)=s.anchorItem env item := by
  have hp : (nonpayable env : Result Error Unit)=.ok () := nonpayable_eq_ok.mpr hv
  have hr : s.whenNotPaused=.ok () := revertIf_eq_ok.mpr (by simp [ho])
  simp only [call,dispatch,anchor,hp,hr]
  rfl

theorem call_anchor_ok (h : s.call env (.anchor item)=.ok s') : env.value=0 ∧ s.paused=false := by
  obtain ⟨_,hv,h⟩ := bind_eq_ok.mp h
  obtain ⟨_,ho,-⟩ := bind_eq_ok.mp h
  exact ⟨nonpayable_eq_ok.mp hv,by simpa using revertIf_eq_ok.mp ho⟩

theorem anchorItem_paused (h : s.anchorItem env item=.ok s') : s'.paused=s.paused := by
  rw [(anchorItem_ok h).writes]
  rfl

theorem foldlM_anchor_of_open (hv : env.value=0) (ho : s.paused=false) (items : List AnchorItem) :
    items.foldlM (fun s item => s.call env (.anchor item)) s=s.anchorAll env items := by
  induction items generalizing s with
  | nil => rfl
  | cons item rest ih =>
    rw [anchorAll,foldlM_cons,foldlM_cons,call_anchor_of_open hv ho]
    cases hi : s.anchorItem env item with
    | error e => rfl
    | ok next => exact ih ((anchorItem_paused hi).trans ho)

theorem call_batch_ok_iff {items : List AnchorItem} (hne : items≠[])
    (hl : items.length ≤ maxBatchSize) : s.call env (.batchAnchor (.ofItems items))=.ok s' ↔
      items.foldlM (fun s item => s.call env (.anchor item)) s=.ok s' := by
  have hb : s.call env (.batchAnchor (.ofItems items))=.ok s' ↔
      env.value=0 ∧ s.paused=false ∧ s.anchorAll env items=.ok s' := by
    have hi := items_ofItems items
    rw [Message.items] at hi
    simp only [call,dispatch,batchAnchor,bind_eq_ok,whenNotPaused,hi]
    simp [BatchItems.ofItems,hne,hl]
  rw [hb]
  constructor
  · rintro ⟨hv,ho,h⟩
    rwa [foldlM_anchor_of_open hv ho]
  · intro h
    obtain ⟨item,rest,rfl⟩ := exists_cons_of_ne_nil hne
    obtain ⟨next,hit,-⟩ := bind_eq_ok.mp h
    obtain ⟨hv,ho⟩ := call_anchor_ok hit
    exact ⟨hv,ho,by rwa [← foldlM_anchor_of_open hv ho]⟩

theorem state_of_foldlM (admin : Address) {inputs : List Transaction} {items : List AnchorItem}
    (h : items.foldlM (fun s item => s.call env (.anchor item)) ((machine admin).state inputs) =
      .ok s') : (machine admin).state (inputs++items.map (single env))=s' := by
  induction items generalizing inputs with
  | nil => rw [map_nil,append_nil,Except.ok.inj h]
  | cons item rest ih =>
    rw [foldlM_cons] at h
    obtain ⟨next,hi,hr⟩ := bind_eq_ok.mp h
    have hn : (machine admin).state (inputs++[single env item])=next := by
      rw [state_snoc,step_eq,single,hi]
      rfl
    rw [← hn] at hr
    rw [← ih hr,append_assoc]
    rfl

/-- Every call for an item is accepted where the calls before it have led. -/
def EachAccepted (admin : Address) (inputs : List Transaction) (env : Env)
    (items : List AnchorItem) : Prop :=
  ∀ done item rest, items=done++item::rest →
    ∃ s', ((machine admin).state (inputs++done.map (single env))).call env (.anchor item)=.ok s'

theorem eachAccepted_iff (admin : Address) (inputs : List Transaction) (items : List AnchorItem) :
    EachAccepted admin inputs env items ↔ ∃ s',
      items.foldlM (fun s item => s.call env (.anchor item)) ((machine admin).state inputs) =
        .ok s' := by
  induction items generalizing inputs with
  | nil => exact ⟨fun _ => ⟨_,rfl⟩,fun _ done item rest h => by simp at h⟩
  | cons item rest ih =>
    have hs : EachAccepted admin inputs env (item::rest) ↔
        (∃ next, ((machine admin).state inputs).call env (.anchor item)=.ok next) ∧
          EachAccepted admin (inputs++[single env item]) env rest := by
      constructor
      · intro h
        refine ⟨by simpa using h [] item rest rfl,fun done other more hr => ?_⟩
        have ho := h (item::done) other more (by rw [hr]; rfl)
        rwa [map_cons,append_cons] at ho
      · rintro ⟨hi,hr⟩ done other more h
        cases done with
        | nil =>
          cases h
          simpa using hi
        | cons first done =>
          obtain ⟨rfl,hm⟩ := List.cons.inj h
          have ho := hr done other more hm
          rwa [map_cons,append_cons]
    rw [hs,ih]
    simp only [foldlM_cons,bind_eq_ok]
    constructor
    · rintro ⟨⟨next,hi⟩,s',hr⟩
      rw [state_snoc,step_eq,single,hi] at hr
      exact ⟨s',next,hi,hr⟩
    · rintro ⟨s',next,hi,hr⟩
      refine ⟨⟨next,hi⟩,s',?_⟩
      rwa [state_snoc,step_eq,single,hi]

end

/-- A stored record never changes, every record written under a nonzero time is stored, and a
batch does what the calls for its items do. -/
theorem records_permanent_and_batch_is_sequence (admin : Address) (inputs : List Transaction) :
    (∀ before after digest, inputs=before++after →
      ((machine admin).state before).isAnchored digest=true →
      ((machine admin).state inputs).anchors digest =
        ((machine admin).state before).anchors digest) ∧
    (∀ before t after digest, inputs=before++t::after → uint64 t.1.timestamp≠0 →
      ((machine admin).state (before++[t])).anchors digest ≠
        ((machine admin).state before).anchors digest →
      ((machine admin).state (before++[t])).isAnchored digest=true) ∧
    ∀ (env : Env) (items : List AnchorItem), 1 ≤ items.length → items.length ≤ maxBatchSize →
      ((∃ s', ((machine admin).state inputs).call env (.batchAnchor (.ofItems items))=.ok s') ↔
        EachAccepted admin inputs env items) ∧ (EachAccepted admin inputs env items →
        (machine admin).state (inputs++[(env,.batchAnchor (.ofItems items))]) =
          (machine admin).state (inputs++items.map (single env))) := by
  refine ⟨?_,?_,?_⟩
  · rintro before after digest rfl hs
    exact state_keeps_record admin before after hs
  · intro before t after digest _ ht
    rw [state_snoc]
    exact step_induction admin
      (fun h => absurd rfl h) fun s' hc => call_stores hc ht
  · intro env items hp hl
    have hne : items≠[] := length_pos_iff.mp hp
    rw [eachAccepted_iff]
    refine ⟨exists_congr fun s' => call_batch_ok_iff hne hl,?_⟩
    rintro ⟨s',h⟩
    rw [state_of_foldlM admin h,state_snoc,step_eq,(call_batch_ok_iff hne hl).mpr h]
    rfl

def recordRun : List Transaction :=
  [.registerSigner 10,.anchor (item 20 30 10 1)].map adminCall

def twoItems : List AnchorItem := [item 21 31 10 2,item 22 32 10 3]

theorem recordRun_keeps_record_and_batches :
    ((machine 1).state (recordRun++[adminCall .pause])).anchors 20 =
        ((machine 1).state recordRun).anchors 20 ∧
      (machine 1).state (recordRun++[adminCall (.batchAnchor (.ofItems twoItems))]) =
        (machine 1).state (recordRun++twoItems.map (single (adminCall .pause).1)) := by
  have hs : ((machine 1).state recordRun).isAnchored 20=true := by decide +kernel
  have ha : (((machine 1).state recordRun).call (adminCall .pause).1
      (.batchAnchor (.ofItems twoItems))).toBool=true := by decide +kernel
  constructor
  · exact (records_permanent_and_batch_is_sequence 1 (recordRun++[adminCall .pause])).1
      recordRun _ 20 rfl hs
  · obtain ⟨hi,hsa⟩ := (records_permanent_and_batch_is_sequence 1 recordRun).2.2
      (adminCall .pause).1 twoItems (by decide) (by decide)
    apply hsa
    apply hi.mp
    cases hc : ((machine 1).state recordRun).call (adminCall .pause).1
        (.batchAnchor (.ofItems twoItems)) with
    | ok s' => exact ⟨s',rfl⟩
    | error e =>
      rw [hc] at ha
      cases ha

section
variable {s s' : Registry} {env : Env} {message : Message} {entity : Bytes32}

open Registry

def HasRecord (s : Registry) (entity : Bytes32) : Prop :=
  ∃ digest, s.isAnchored digest=true ∧ (s.anchors digest).entityIdHash=entity

def ClaimsAnchor (s : Registry) (entity : Bytes32) : Prop :=
  s.entityStates entity=stateAnchored ∨ s.entityStates entity=stateMaterialized

/-- The ways to `stateAnchored` that store no record: a change of the state alone, and an anchor
in a block whose time is a multiple of `2 ^ 64`. -/
def MovesWithoutRecord (t : Transaction) (entity : Bytes32) : Prop :=
  (∃ vk sequence validUntil, t.2=.transitionState entity stateAnchored vk sequence validUntil) ∨
    uint64 t.1.timestamp=0 ∧ ∃ item ∈ t.2.items, item.entityIdHash=entity

theorem HasRecord.of_keeps (h : HasRecord s entity)
    (hk : ∀ digest, s.isAnchored digest=true → s'.anchors digest=s.anchors digest) :
    HasRecord s' entity := by
  obtain ⟨digest,hs,he⟩ := h
  have hsa := hk digest hs
  exact ⟨digest,by rwa [isAnchored,hsa],by rwa [hsa]⟩

theorem anchorAll_state {items : List AnchorItem} (h : s.anchorAll env items=.ok s')
    (entity : Bytes32) : s'.entityStates entity=s.entityStates entity ∨
      (∃ item ∈ items, item.entityIdHash=entity) ∧
        (uint64 env.timestamp≠0 → HasRecord s' entity) := by
  induction items generalizing s with
  | nil => exact .inl (by rw [Except.ok.inj h])
  | cons item rest ih =>
    obtain ⟨next,hi,hre⟩ := anchorAll_cons_ok.mp h
    by_cases he : entity=item.entityIdHash
    · refine .inr ⟨⟨item,mem_cons_self,he.symm⟩,fun ht => ?_⟩
      have hn : HasRecord next entity :=
        ⟨item.anchorDigest,he ▸ anchorItem_stores hi ht⟩
      exact hn.of_keeps fun digest => anchorAll_keeps_record hre
    · have hn : next.entityStates entity=s.entityStates entity := by
        rw [(anchorItem_ok hi).writes]
        exact update_of_ne he _ _
      rw [← hn]
      refine (ih hre).imp_right ?_
      rintro ⟨⟨other,ho,heq⟩,hr⟩
      exact ⟨⟨other,mem_cons_of_mem _ ho,heq⟩,hr⟩

theorem isValidTransition_materialized {source : Uint8}
    (h : isValidTransition source stateMaterialized=true) : source=stateAnchored := by
  revert source
  decide

theorem claimsAnchor_of_call (h : s.call env message=.ok s') (hc : ClaimsAnchor s' entity) :
    ClaimsAnchor s entity ∨ HasRecord s' entity ∨ MovesWithoutRecord (env,message) entity := by
  have hi : ∀ {next : Registry}, s.anchorAll env message.items=.ok next →
      ClaimsAnchor next entity →
      ClaimsAnchor s entity ∨ HasRecord next entity ∨
        MovesWithoutRecord (env,message) entity := by
    intro next ha hn
    rcases anchorAll_state ha entity with hs|⟨hit,hr⟩
    · exact .inl (by rwa [ClaimsAnchor,← hs])
    · by_cases ht : uint64 env.timestamp=0
      · exact .inr (.inr (.inr ⟨ht,hit⟩))
      · exact .inr (.inl (hr ht))
  cases call_effect h with
  | anchored ha => exact hi ha hc
  | bound item statementHash signatureHash next hf hit =>
    have hn := hi hit hc
    exact hn
  | moved other newState vk seq validUntil hb hra hv =>
    rcases eq_or_ne entity other with rfl|hne
    · simp only [ClaimsAnchor,update_self] at hc
      rcases hc with rfl|rfl
      · exact .inr (.inr (.inl ⟨vk,seq,validUntil,rfl⟩))
      · exact .inl (.inl (isValidTransition_materialized hv))
    · simp only [ClaimsAnchor,update_of_ne hne] at hc
      exact .inl hc
  | reassigned => exact .inl hc
  | disputed other fraudProofHash hd =>
    rcases eq_or_ne entity other with rfl|hne
    · simp [ClaimsAnchor,stateUnknown,stateAnchored,stateMaterialized] at hc
    · simp only [ClaimsAnchor,update_of_ne hne] at hc
      exact .inl hc
  | rotated _ _ _ hs | administered _ hs =>
    rw [ClaimsAnchor,hs.states] at hc
    exact .inl hc

/-- An entity that is anchored or materialized has a record, unless an accepted call has moved it
to `stateAnchored` without storing one. -/
theorem claimsAnchor_has_record_or_moved (admin : Address) (inputs : List Transaction)
    (entity : Bytes32) (hclaims : ClaimsAnchor ((machine admin).state inputs) entity) :
    HasRecord ((machine admin).state inputs) entity ∨ ∃ before t after, inputs=before++t::after ∧
        (∃ s', ((machine admin).state before).call t.1 t.2=.ok s') ∧
        MovesWithoutRecord t entity := by
  induction inputs using reverseRecOn with
  | nil => simp [ClaimsAnchor,Machine.state,Machine.run,machine,initialStorage,stateAnchored,
      stateMaterialized] at hclaims
  | append_singleton inputs t ih =>
    have he : ClaimsAnchor ((machine admin).state inputs) entity →
        HasRecord ((machine admin).state (inputs++[t])) entity ∨
          ∃ before u after, inputs++[t]=before++u::after ∧
            (∃ s', ((machine admin).state before).call u.1 u.2=.ok s') ∧
            MovesWithoutRecord u entity := by
      intro hb
      refine (ih hb).imp (fun hr => ?_) ?_
      · exact hr.of_keeps fun digest => state_keeps_record admin inputs [t]
      · rintro ⟨before,u,after,rfl,hm⟩
        exact ⟨before,u,after++[t],by simp,hm⟩
    cases hc : ((machine admin).state inputs).call t.1 t.2 with
    | error e =>
      rw [state_snoc,step_eq,hc] at hclaims
      exact he hclaims
    | ok s' =>
      have hs : (machine admin).state (inputs++[t])=s' := by
        rw [state_snoc,step_eq,hc]
        rfl
      rw [hs] at hclaims
      rcases claimsAnchor_of_call hc hclaims with hb|hr|hm
      · exact he hb
      · exact .inl (by rwa [hs])
      · exact .inr ⟨inputs,t,[],rfl,⟨s',hc⟩,hm⟩

def materializedRun : List Transaction :=
  [.registerSigner 10,.anchor (item 20 30 10 1),
    .transitionState 30 stateMaterialized 10 2 2000].map adminCall

theorem materializedRun_has_record :
    ((machine 1).state materializedRun).entityStates 30=stateMaterialized ∧
      HasRecord ((machine 1).state materializedRun) 30 := by
  have hs : ((machine 1).state materializedRun).entityStates 30=stateMaterialized := by
    decide +kernel
  refine ⟨hs,?_⟩
  refine (claimsAnchor_has_record_or_moved 1 materializedRun 30 (.inr hs)).resolve_right ?_
  rintro ⟨before,t,after,hsp,-,hm⟩
  have hme : t ∈ materializedRun := by
    rw [hsp]
    simp
  have hn : ∀ t ∈ materializedRun, ¬MovesWithoutRecord t 30 := by
    simp [materializedRun,adminCall,MovesWithoutRecord,stateMaterialized,stateAnchored,uint64]
  exact hn t hme hm

theorem anchors_of_no_items (admin : Address) (inputs : List Transaction)
    (h : ∀ t ∈ inputs, t.2.items=[]) :
    ((machine admin).state inputs).anchors=fun _ => noRecord := by
  induction inputs using reverseRecOn with
  | nil => rfl
  | append_singleton inputs t ih =>
    have hb := ih fun u hu => h u (mem_append_left _ hu)
    rw [state_snoc]
    refine step_induction admin (P := fun s => s.anchors=_) hb fun s' hc => ?_
    rcases (call_effect hc).anchors_eq with hs|⟨next,hi,hn⟩
    · rw [hs,hb]
    · rw [h t (by simp)] at hi
      rw [hn,← Except.ok.inj hi,hb]

def movedRun : List Transaction :=
  [.registerSigner 10,.transitionState 30 stateAnchored 10 1 2000].map adminCall

theorem movedRun_anchored_without_record :
    ((machine 1).state movedRun).entityStates 30=stateAnchored ∧
      ∀ digest, ((machine 1).state movedRun).isAnchored digest=false ∧
        (((machine 1).state movedRun).anchors digest).entityIdHash≠30 := by
  have hs : ((machine 1).state movedRun).entityStates 30=stateAnchored := by decide +kernel
  have he := anchors_of_no_items 1 movedRun (by simp [movedRun,adminCall,Message.items])
  refine ⟨hs,fun digest => ?_⟩
  rw [isAnchored,he]
  simp [noRecord]

end

end LatticeTransfer.AnchorRegistry
