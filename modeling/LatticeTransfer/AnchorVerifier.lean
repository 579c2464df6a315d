import LatticeTransfer.AnchorStatus
import LatticeTransfer.Machine

/-!
# Confirmation and finality of anchors

`AnchorVerifier`: a tick reads the receipts of the SUBMITTED entities and stores the block of
each, then reads the height of the chain and finalizes the CONFIRMED entities whose stored block
is deep enough. The receipt is not read again, so the stored block may be that of a chain that
is gone. Every read of a tick sees the chain of its own moment.
-/

namespace LatticeTransfer.Anchoring
open Method List

structure Receipt where
  blockNumber : Option ℤ
  gasUsed : Option ℤ
  status : Option ℤ

structure Chain where
  head : ℤ
  receipt : String → Option Receipt

def Chain.Holds (chain : Chain) (txHash : String) (block : ℤ) : Prop :=
  ∃ receipt, chain.receipt txHash=some receipt ∧ receipt.blockNumber.getD 0=block ∧
    receipt.status.getD 0≠0

structure VerifierConfig (T : Type) where
  anchorFinalityDepth : ℤ
  anchorMaxRpcRetries : ℤ
  anchorMaxWaitSeconds : T

structure AnchorVerifyResult where
  epoch : ℕ
  submittedChecked : ℕ := 0
  receiptsFound : ℕ := 0
  confirmed : ℕ := 0
  finalized : ℕ := 0
  failed : ℕ := 0
  stillPending : ℕ := 0
  errors : ℕ := 0
  error : String := ""

/-- What the calls of one tick see: the chain at the query of a receipt, the chain at the query
of the height, and the chain when the entities are marked. -/
structure View (T : Type) where
  clock : T
  receiptQuery : String → Except PyError Chain
  heightQuery : Except String Chain
  atMark : Chain

namespace Verifier
variable {T : Type}

def attempt {α : Type} (call : Method (Tracker T) α)
    (onOk onError : AnchorVerifyResult → AnchorVerifyResult)
    (s : Tracker T × AnchorVerifyResult) : Tracker T × AnchorVerifyResult :=
  match call.exec s.1 with
  | (.ok _,tracker) => (tracker,onOk s.2)
  | (.error _,tracker) => (tracker,onError s.2)

def countFailed (result : AnchorVerifyResult) : AnchorVerifyResult :=
  {result with failed := result.failed+1}

def countError (result : AnchorVerifyResult) : AnchorVerifyResult :=
  {result with errors := result.errors+1}

def retryEntity (maxRetries : ℤ) (s : Tracker T × AnchorVerifyResult) (entityId : String) :
    Tracker T × AnchorVerifyResult :=
  match (Tracker.incrementRetry entityId).exec s.1 with
  | (.error _,tracker) => (tracker,countError s.2)
  | (.ok count,tracker) =>
    if maxRetries≤count then
      attempt (Tracker.markFailed entityId s!"max RPC retries ({maxRetries}) exceeded")
        countFailed countError (tracker,s.2)
    else (tracker,countError s.2)

def unminedEntity [LinearOrder T] [Sub T] (clock maxWait : T)
    (s : Tracker T × AnchorVerifyResult) (entityId : String) : Tracker T × AnchorVerifyResult :=
  if (s.1.get? entityId).any fun record => maxWait<clock-record.submittedAt then
    attempt (Tracker.markFailed entityId "tx_not_mined") countFailed id s
  else (s.1,{s.2 with stillPending := s.2.stillPending+1})

def revertedEntity (s : Tracker T × AnchorVerifyResult) (entityId : String) :
    Tracker T × AnchorVerifyResult :=
  attempt (Tracker.markFailed entityId "transaction reverted") countFailed id s

def confirmEntity (clock : T) (receipt : Receipt) (s : Tracker T × AnchorVerifyResult)
    (entityId : String) : Tracker T × AnchorVerifyResult :=
  attempt (Tracker.markConfirmed clock entityId (receipt.blockNumber.getD 0)
    (receipt.gasUsed.getD 0)) (fun result => {result with confirmed := result.confirmed+1}) id s

def groupByTx (records : List (AnchorRecord T)) : Dict String (List String) :=
  records.foldl (fun byTx record => byTx.set record.txHash
    ((byTx.get? record.txHash).getD []++[record.entityId])) Dict.empty

section
variable [LinearOrder T] [Sub T] (config : VerifierConfig T) (view : View T)

def confirmTx (s : Tracker T × AnchorVerifyResult) (group : String × List String) :
    Tracker T × AnchorVerifyResult :=
  match view.receiptQuery group.1 with
  | .error _ => group.2.foldl (retryEntity config.anchorMaxRpcRetries) s
  | .ok chain =>
    match chain.receipt group.1 with
    | none => group.2.foldl (unminedEntity view.clock config.anchorMaxWaitSeconds) s
    | some receipt =>
      let s := (s.1,{s.2 with receiptsFound := s.2.receiptsFound+1})
      if receipt.status.getD 0=0 then group.2.foldl revertedEntity s
      else group.2.foldl (confirmEntity view.clock receipt) s

def phaseConfirm (s : Tracker T × AnchorVerifyResult) : Tracker T × AnchorVerifyResult :=
  let submitted := Tracker.getByStatus s.1 .submitted
  (groupByTx submitted).entries.foldl (confirmTx config view)
    (s.1,{s.2 with submittedChecked := submitted.length})

omit [LinearOrder T] [Sub T] in
def finalizeEntity (depth currentBlock : ℤ) (s : Tracker T × AnchorVerifyResult)
    (record : AnchorRecord T) : Tracker T × AnchorVerifyResult :=
  let confirmations := currentBlock-record.blockNumber
  if depth≤confirmations then
    attempt (Tracker.markFinalized record.entityId)
      (fun result => {result with finalized := result.finalized+1}) id s
  else if confirmations<0 then
    attempt (Tracker.markFailed record.entityId "chain reorg detected") countFailed id s
  else s

def phaseFinalize (s : Tracker T × AnchorVerifyResult) : Tracker T × AnchorVerifyResult :=
  let confirmed := Tracker.getByStatus s.1 .confirmed
  if confirmed=[] then s
  else
    match view.heightQuery with
    | .error message => (s.1,{s.2 with error := message})
    | .ok chain => confirmed.foldl (finalizeEntity config.anchorFinalityDepth chain.head) s

def tick (epoch : ℕ) (tracker : Tracker T) : Tracker T × AnchorVerifyResult :=
  phaseFinalize config view (phaseConfirm config view (tracker,{epoch := epoch}))

end

/-- The block from which the tick counts the confirmations of a record: the stored one, or that
of the receipt it reads itself. -/
def storedBlock (view : View T) (record : AnchorRecord T) : Option ℤ :=
  match record.status with
  | .confirmed => some record.blockNumber
  | .submitted =>
    match view.receiptQuery record.txHash with
    | .error _ => none
    | .ok chain => (chain.receipt record.txHash).bind fun receipt =>
        if receipt.status.getD 0=0 then none else some (receipt.blockNumber.getD 0)
  | _ => none

def confirmedBlock (record : AnchorRecord T) : Option ℤ :=
  if record.status=.confirmed then some record.blockNumber else none

def Keyed (d : Tracker T) : Prop := ∀ e record, d.get? e=some record → record.entityId=e

variable {d d' : Tracker T} {e : String} {r r' : AnchorRecord T} {view : View T}

theorem attempt_fst {α : Type} (call : Method (Tracker T) α)
    (onOk onError : AnchorVerifyResult → AnchorVerifyResult) (s : Tracker T × AnchorVerifyResult) :
    (attempt call onOk onError s).1=(call.exec s.1).2 := by
  rw [attempt]
  split <;> simp_all

theorem foldl_through {α β : Type} {f : β → α → β} {P Q : β → Prop} {items : List α} {x : α}
    (hx : x ∈ items) (hn : items.Nodup) (hP : ∀ s, ∀ y ∈ items, y≠x → P s → P (f s y))
    (hQ : ∀ s, ∀ y ∈ items, y≠x → Q s → Q (f s y)) (hst : ∀ s, P s → Q (f s x)) {s : β}
    (h : P s) : Q (items.foldl f s) := by
  obtain ⟨l,l',rfl⟩ := append_of_mem hx
  obtain ⟨-,hr,hd⟩ := nodup_append.mp hn
  rw [foldl_append,foldl_cons]
  refine foldlRecOn _ _ (hst _ (foldlRecOn _ _ h fun s hs y hy => ?_)) fun s hs y hy => ?_
  · exact hP s y (mem_append_left _ hy) (hd y hy x mem_cons_self) hs
  · exact hQ s y (mem_append_right _ (mem_cons_of_mem _ hy))
      (fun heq => (nodup_cons.mp hr).1 (heq ▸ hy)) hs

section

structure Confirms (view : View T) (r r' : AnchorRecord T) : Prop where
  entityId : r'.entityId=r.entityId
  txHash : r'.txHash=r.txHash
  block : confirmedBlock r'=storedBlock view r
  finalized : r'.status=.finalized ↔ r.status=.finalized

theorem Confirms.refl (h : r.status≠.submitted) : Confirms view r r := by
  refine ⟨rfl,rfl,?_,Iff.rfl⟩
  rw [confirmedBlock,storedBlock]
  split_ifs with hc
  · rw [hc]
  · cases hs : r.status <;> simp_all

theorem Confirms.stays (hs : r.status=.submitted) (hb : storedBlock view r=none)
    (he : r'.entityId=r.entityId) (ht : r'.txHash=r.txHash)
    (hst : r'.status=.submitted ∨ r'.status=.failed) : Confirms view r r' := by
  refine ⟨he,ht,?_,?_⟩
  · rw [hb,confirmedBlock]
    rcases hst with h|h <;> simp [h]
  · rcases hst with h|h <;> simp [h,hs]

variable (s : Tracker T × AnchorVerifyResult)

theorem frame_markFailed {x : String} (h : x≠e) (error : String)
    (onOk onError : AnchorVerifyResult → AnchorVerifyResult) :
    (attempt (Tracker.markFailed x error) onOk onError s).1.get? e=s.1.get? e := by
  rw [attempt_fst,Tracker.markFailed,exec_discard]
  exact lifecycle.move_frame h _

theorem frame_retryEntity {x : String} (h : x≠e) (cap : ℤ) :
    (retryEntity cap s x).1.get? e=s.1.get? e := by
  have hr : ((Tracker.incrementRetry x).exec s.1).2.get? e=s.1.get? e := by
    rw [Tracker.incrementRetry,exec_bind,exec_get]
    dsimp only
    split
    · rfl
    · exact (Lifecycle.writes_set _ _ _ _).trans (if_neg h)
  rw [retryEntity]
  split
  next e' tracker he =>
    rw [he] at hr
    exact hr
  next count tracker he =>
    rw [he] at hr
    split_ifs
    · exact (frame_markFailed (tracker,s.2) h _ _ _).trans hr
    · exact hr

variable {s} (hg : s.1.get? e=some r) (hs : r.status=.submitted)
include hg hs

theorem markFailed_submitted (error : String)
    (onOk onError : AnchorVerifyResult → AnchorVerifyResult) :
    (attempt (Tracker.markFailed e error) onOk onError s).1.get? e =
      some {r with status := .failed,error := error} := by
  rw [attempt_fst,Tracker.markFailed,exec_discard]
  exact lifecycle.move_of_valid hg (by simp only [lifecycle,hs]; decide) _

theorem retryEntity_submitted (cap : ℤ) : ∃ r', (retryEntity cap s e).1.get? e=some r' ∧
    r'.entityId=r.entityId ∧ r'.txHash=r.txHash ∧ (r'.status=.submitted ∨ r'.status=.failed) := by
  have hr : (Tracker.incrementRetry e).exec s.1=(.ok (r.retryCount+1),
      s.1.set e {r with retryCount := r.retryCount+1}) := by
    rw [Tracker.incrementRetry,exec_bind,exec_get]
    simp only [hg]
    rfl
  have hw : (s.1.set e {r with retryCount := r.retryCount+1}).get? e =
      some {r with retryCount := r.retryCount+1} := Dict.get?_set_self _ _ _
  simp only [retryEntity,hr]
  split_ifs
  · have hf := markFailed_submitted (s := (_,s.2)) hw hs
      s!"max RPC retries ({cap}) exceeded" countFailed countError
    exact ⟨_,hf,rfl,rfl,.inr rfl⟩
  · exact ⟨_,hw,rfl,rfl,.inl hs⟩

end

theorem mem_values (h : Keyed d) {status : AnchorStatus} :
    r ∈ Tracker.getByStatus d status ↔ d.get? r.entityId=some r ∧ r.status=status := by
  rw [Tracker.getByStatus,mem_filter,Dict.mem_values_iff,decide_eq_true_iff]
  refine and_congr_left fun _ => ⟨fun ⟨e,he⟩ => ?_,fun hr => ⟨_,hr⟩⟩
  rwa [h e r he]

theorem nodup_getByStatus (h : Keyed d) (status : AnchorStatus) :
    ((Tracker.getByStatus d status).map AnchorRecord.entityId).Nodup := by
  have hk : d.values.map AnchorRecord.entityId=d.keys := by
    rw [Dict.values,map_map]
    refine map_congr_left fun entry he => ?_
    exact h _ _ ((Dict.get?_eq_some_iff _ _ _).mpr he)
  have hn : d.keys.Nodup := d.nodup
  rw [← hk] at hn
  exact hn.sublist (filter_sublist.map _)

theorem groupByTx_get? (records : List (AnchorRecord T)) (tx : String) :
    ((groupByTx records).get? tx).getD [] =
        (records.filter (·.txHash=tx)).map AnchorRecord.entityId ∧
      ((groupByTx records).get? tx=none → ∀ record ∈ records, record.txHash≠tx) := by
  induction records using reverseRecOn with
  | nil => exact ⟨rfl,fun _ => forall_mem_nil _⟩
  | append_singleton records record ih =>
    have hst : groupByTx (records++[record])=(groupByTx records).set record.txHash
        (((groupByTx records).get? record.txHash).getD []++[record.entityId]) := by
      rw [groupByTx,foldl_append]
      rfl
    rw [hst,Dict.get?_set,filter_append,map_append]
    split_ifs with htx
    · subst htx
      simp [ih.1]
    · refine ⟨by simp [ih.1,htx],fun hn => forall_mem_append.mpr ⟨ih.2 hn,?_⟩⟩
      simpa using htx

theorem mem_group {records : List (AnchorRecord T)} {group : String × List String}
    (h : group ∈ (groupByTx records).entries) :
    group.2=(records.filter (·.txHash=group.1)).map AnchorRecord.entityId := by
  have hg := (Dict.get?_eq_some_iff _ _ _).mpr h
  rw [← (groupByTx_get? records group.1).1,hg]
  rfl

section
variable [LinearOrder T] [Sub T] (config : VerifierConfig T) (view)

theorem frame_confirmTx (s : Tracker T × AnchorVerifyResult) {group : String × List String}
    (h : e ∉ group.2) : (confirmTx config view s group).1.get? e=s.1.get? e := by
  have hf : ∀ {f : Tracker T × AnchorVerifyResult → String → Tracker T × AnchorVerifyResult},
      (∀ s x, x≠e → (f s x).1.get? e=s.1.get? e) → ∀ s,
        (group.2.foldl f s).1.get? e=s.1.get? e := fun hf s =>
    foldlRecOn (motive := fun after : Tracker T × AnchorVerifyResult =>
      after.1.get? e=s.1.get? e) _ _ rfl fun after ha x hx =>
        (hf after x fun heq => h (heq ▸ hx)).trans ha
  rw [confirmTx]
  split
  · exact hf (fun s x hx => frame_retryEntity s hx _) s
  · split
    · refine hf (fun s x hx => ?_) s
      rw [unminedEntity]
      split_ifs
      · exact frame_markFailed s hx _ _ _
      · rfl
    · dsimp only
      split_ifs
      · exact hf (fun s x hx => frame_markFailed s hx _ _ _) (s.1,_)
      · refine hf (fun s x hx => ?_) (s.1,_)
        rw [confirmEntity,attempt_fst,Tracker.markConfirmed,exec_discard]
        exact lifecycle.move_frame hx _

theorem confirmTx_submitted {s : Tracker T × AnchorVerifyResult} {group : String × List String}
    (hg : s.1.get? e=some r) (hs : r.status=.submitted) (ht : r.txHash=group.1)
    (hm : e ∈ group.2) (hn : group.2.Nodup) :
    ∃ r', (confirmTx config view s group).1.get? e=some r' ∧ Confirms view r r' := by
  have hst : ∀ {f : Tracker T × AnchorVerifyResult → String → Tracker T × AnchorVerifyResult},
      (∀ s x, x≠e → (f s x).1.get? e=s.1.get? e) →
      (∀ s, s.1.get? e=some r → ∃ r', (f s e).1.get? e=some r' ∧ Confirms view r r') →
      ∀ s, s.1.get? e=some r →
        ∃ r', (group.2.foldl f s).1.get? e=some r' ∧ Confirms view r r' := by
    intro f hf ho s h
    exact foldl_through (P := fun s => s.1.get? e=some r)
      (Q := fun s => ∃ r', s.1.get? e=some r' ∧ Confirms view r r') hm hn
      (fun s y _ hy h => (hf s y hy).trans h) (fun s y _ hy h => (hf s y hy).symm ▸ h) ho h
  rw [confirmTx]
  cases hq : view.receiptQuery group.1 with
  | error _ =>
    have hb : storedBlock view r=none := by simp [storedBlock,hs,ht,hq]
    refine hst (fun s x hx => frame_retryEntity s hx _) (fun s h => ?_) s hg
    obtain ⟨r',hr,he,htx,hst⟩ := retryEntity_submitted h hs config.anchorMaxRpcRetries
    exact ⟨r',hr,.stays hs hb he htx hst⟩
  | ok chain =>
    cases hrc : chain.receipt group.1 with
    | none =>
      have hb : storedBlock view r=none := by simp [storedBlock,hs,ht,hq,hrc]
      simp only [hrc]
      refine hst (fun s x hx => ?_) (fun s h => ?_) s hg
      · rw [unminedEntity]
        split_ifs
        · exact frame_markFailed s hx _ _ _
        · rfl
      · rw [unminedEntity]
        split_ifs
        · exact ⟨_,markFailed_submitted h hs _ _ _,.stays hs hb rfl rfl (.inr rfl)⟩
        · exact ⟨r,h,.stays hs hb rfl rfl (.inl hs)⟩
    | some receipt =>
      simp only [hrc]
      split_ifs with h0
      · have hb : storedBlock view r=none := by simp [storedBlock,hs,ht,hq,hrc,h0]
        refine hst (fun s x hx => frame_markFailed s hx _ _ _) (fun s h => ?_) (s.1,_) hg
        exact ⟨_,markFailed_submitted h hs _ _ _,.stays hs hb rfl rfl (.inr rfl)⟩
      · have hb : storedBlock view r=some (receipt.blockNumber.getD 0) := by
          simp [storedBlock,hs,ht,hq,hrc,h0]
        refine hst (fun s x hx => ?_) (fun s h => ?_) (s.1,_) hg
        · rw [confirmEntity,attempt_fst,Tracker.markConfirmed,exec_discard]
          exact lifecycle.move_frame hx _
        · refine ⟨{r with
              status := .confirmed
              blockNumber := receipt.blockNumber.getD 0
              gasUsed := receipt.gasUsed.getD 0
              confirmedAt := view.clock},?_,rfl,rfl,hb.symm,iff_of_false (by simp) (by simp [hs])⟩
          rw [confirmEntity,attempt_fst,Tracker.markConfirmed,exec_discard]
          exact lifecycle.move_of_valid h (by simp only [lifecycle,hs]; decide) _

theorem phaseConfirm_record (hd : Keyed d) (result : AnchorVerifyResult) (e : String) :
    Option.Rel (Confirms view) (d.get? e) ((phaseConfirm config view (d,result)).1.get? e) := by
  rw [phaseConfirm]
  dsimp only
  have hin : ∀ group ∈ (groupByTx (Tracker.getByStatus d .submitted)).entries, e ∈ group.2 →
      ∃ r, d.get? e=some r ∧ r.status=.submitted ∧ r.txHash=group.1 := by
    intro group hg he
    rw [mem_group hg] at he
    obtain ⟨r,hr,rfl⟩ := mem_map.mp he
    obtain ⟨hr,ht⟩ := mem_filter.mp hr
    obtain ⟨hr,hs⟩ := (mem_values hd).mp hr
    exact ⟨r,hr,hs,of_decide_eq_true ht⟩
  by_cases hsub : ∃ r, d.get? e=some r ∧ r.status=.submitted
  · obtain ⟨r,hr,hs⟩ := hsub
    have hid := hd e r hr
    have hm : r ∈ Tracker.getByStatus d .submitted := (mem_values hd).mpr ⟨hid ▸ hr,hs⟩
    obtain ⟨ids,hids⟩ := Option.ne_none_iff_exists'.mp fun hn =>
      (groupByTx_get? _ r.txHash).2 hn r hm rfl
    have hg := (Dict.get?_eq_some_iff _ _ _).mp hids
    have heq : ids=_ := mem_group hg
    have hmem : e ∈ ids := by
      rw [heq,mem_map]
      exact ⟨r,mem_filter.mpr ⟨hm,decide_eq_true rfl⟩,hid⟩
    have hnd : ids.Nodup := by
      rw [heq]
      exact (nodup_getByStatus hd .submitted).sublist (filter_sublist.map _)
    have hother : ∀ y ∈ (groupByTx (Tracker.getByStatus d .submitted)).entries,
        y≠(r.txHash,ids) → e ∉ y.2 := by
      intro y hy hne he
      obtain ⟨r',hr',-,htx⟩ := hin y hy he
      cases hr.symm.trans hr'
      have hyg := (Dict.get?_eq_some_iff _ _ _).mpr hy
      rw [← htx,hids] at hyg
      exact hne (Prod.ext htx.symm (Option.some.inj hyg).symm)
    obtain ⟨r',hr',hc⟩ := foldl_through (f := confirmTx config view)
      (P := fun s => s.1.get? e=some r)
      (Q := fun s => ∃ r', s.1.get? e=some r' ∧ Confirms view r r') hg
      (List.Nodup.of_map _ (groupByTx (Tracker.getByStatus d .submitted)).nodup)
      (fun s y hy hne h => (frame_confirmTx view config s (hother y hy hne)).trans h)
      (fun s y hy hne h => (frame_confirmTx view config s (hother y hy hne)).symm ▸ h)
      (fun s h => confirmTx_submitted view config h hs rfl hmem hnd)
      (s := (d,{result with
        submittedChecked := (Tracker.getByStatus d .submitted).length})) hr
    rw [hr,hr']
    exact .some hc
  · have hsame := foldlRecOn (motive := fun s : Tracker T × AnchorVerifyResult =>
        s.1.get? e=d.get? e) (groupByTx (Tracker.getByStatus d .submitted)).entries
      (confirmTx config view) (b := (d,{result with
        submittedChecked := (Tracker.getByStatus d .submitted).length})) rfl
      fun s hs group hg => (frame_confirmTx view config s fun he =>
        hsub ((hin group hg he).imp fun _ h => ⟨h.1,h.2.1⟩)).trans hs
    rw [hsame]
    cases hr : d.get? e with
    | none => exact .none
    | some r => exact .some (.refl fun hs => hsub ⟨r,hr,hs⟩)

structure Decides (r r' : AnchorRecord T) : Prop where
  entityId : r'.entityId=r.entityId
  txHash : r'.txHash=r.txHash
  finalized : r'.status=.finalized ↔ r.status=.finalized ∨
    ∃ chain, view.heightQuery=.ok chain ∧
      ∃ block ∈ storedBlock view r, config.anchorFinalityDepth≤chain.head-block

omit [LinearOrder T] [Sub T] in
theorem finalizeEntity_frame (s : Tracker T × AnchorVerifyResult) {depth head : ℤ}
    (h : r.entityId≠e) : (finalizeEntity depth head s r).1.get? e=s.1.get? e := by
  rw [finalizeEntity]
  split_ifs
  · rw [attempt_fst,Tracker.markFinalized,exec_discard]
    exact lifecycle.transition_frame h
  · exact frame_markFailed s h _ _ _
  · rfl

omit [LinearOrder T] [Sub T] in
theorem finalizeEntity_confirmed {s : Tracker T × AnchorVerifyResult} {depth head : ℤ}
    (hg : s.1.get? r.entityId=some r) (hs : r.status=.confirmed) :
    ∃ r', (finalizeEntity depth head s r).1.get? r.entityId=some r' ∧
      r'.entityId=r.entityId ∧ r'.txHash=r.txHash ∧
      (r'.status=.finalized ↔ depth≤head-r.blockNumber) := by
  rw [finalizeEntity]
  split_ifs with hde hre
  · refine ⟨{r with status := .finalized},?_,rfl,rfl,iff_of_true rfl hde⟩
    rw [attempt_fst,Tracker.markFinalized,exec_discard,lifecycle.transition_of_valid hg
      (by simp only [lifecycle,hs]; decide)]
    exact Dict.get?_set_self _ _ _
  · refine ⟨{r with status := .failed,error := "chain reorg detected" },?_,rfl,rfl,
      iff_of_false (by simp) hde⟩
    rw [attempt_fst,Tracker.markFailed,exec_discard]
    exact lifecycle.move_of_valid hg (by simp only [lifecycle,hs]; decide) _
  · exact ⟨r,hg,rfl,rfl,iff_of_false (by simp [hs]) hde⟩

omit [LinearOrder T] [Sub T] in
theorem finalize_record (hd : Keyed d) (hr : d.get? e=some r) (depth head : ℤ)
    (result : AnchorVerifyResult) :
    ∃ r', ((Tracker.getByStatus d .confirmed).foldl (finalizeEntity depth head)
        (d,result)).1.get? e=some r' ∧ r'.entityId=r.entityId ∧ r'.txHash=r.txHash ∧
      (r'.status=.finalized ↔ r.status=.finalized ∨
        ∃ block ∈ confirmedBlock r, depth≤head-block) := by
  obtain rfl := hd e r hr
  have hne : ∀ y ∈ Tracker.getByStatus d .confirmed, y≠r → y.entityId≠r.entityId := by
    intro y hy hy' heq
    have hg := ((mem_values hd).mp hy).1
    rw [heq,hr] at hg
    exact hy' (Option.some.inj hg).symm
  by_cases hs : r.status=.confirmed
  · obtain ⟨r',hr',he,ht,hf⟩ := foldl_through (f := finalizeEntity depth head)
      (P := fun s => s.1.get? r.entityId=some r)
      (Q := fun s => ∃ r', s.1.get? r.entityId=some r' ∧ r'.entityId=r.entityId ∧
        r'.txHash=r.txHash ∧ (r'.status=.finalized ↔ depth≤head-r.blockNumber))
      ((mem_values hd).mpr ⟨hr,hs⟩) ((nodup_getByStatus hd .confirmed).of_map _)
      (fun s y hy hn h => (finalizeEntity_frame s (hne y hy hn)).trans h)
      (fun s y hy hn h => (finalizeEntity_frame s (hne y hy hn)).symm ▸ h)
      (fun s h => finalizeEntity_confirmed h hs) (s := (d,result)) hr
    exact ⟨r',hr',he,ht,by simp [hf,confirmedBlock,hs]⟩
  · refine ⟨r,?_,rfl,rfl,by simp [confirmedBlock,hs]⟩
    exact foldlRecOn (motive := fun s : Tracker T × AnchorVerifyResult =>
      s.1.get? r.entityId=some r) _ _ hr fun s h y hy => (finalizeEntity_frame s
        (hne y hy fun heq => hs (heq ▸ ((mem_values hd).mp hy).2))).trans h

omit [LinearOrder T] [Sub T] in
theorem phaseFinalize_record {s : Tracker T × AnchorVerifyResult} (hd : Keyed s.1)
    (hr : s.1.get? e=some r) :
    ∃ r', (phaseFinalize config view s).1.get? e=some r' ∧ r'.entityId=r.entityId ∧
      r'.txHash=r.txHash ∧ (r'.status=.finalized ↔ r.status=.finalized ∨
        ∃ chain, view.heightQuery=.ok chain ∧
          ∃ block ∈ confirmedBlock r, config.anchorFinalityDepth≤chain.head-block) := by
  rw [phaseFinalize]
  dsimp only
  split_ifs with hn
  · refine ⟨r,hr,rfl,rfl,(or_iff_left ?_).symm⟩
    rintro ⟨-,-,block,hb,-⟩
    rw [confirmedBlock] at hb
    split_ifs at hb with hs
    · exact not_mem_nil (hn ▸ (mem_values hd).mpr ⟨(hd e r hr).symm ▸ hr,hs⟩)
    · cases hb
  · cases hh : view.heightQuery with
    | error m => exact ⟨r,hr,rfl,rfl,by simp⟩
    | ok chain =>
      obtain ⟨r',hr',he,ht,hf⟩ :=
        finalize_record hd hr config.anchorFinalityDepth chain.head s.2
      exact ⟨r',hr',he,ht,by simpa using hf⟩

omit [LinearOrder T] [Sub T] in
theorem keyed_of_rel {R : AnchorRecord T → AnchorRecord T → Prop} (hd : Keyed d)
    (h : ∀ e, Option.Rel R (d.get? e) (d'.get? e))
    (hR : ∀ {r r'}, R r r' → r'.entityId=r.entityId) : Keyed d' := by
  intro e r' hr'
  have he := h e
  rw [hr'] at he
  cases hr : d.get? e with
  | none => rw [hr] at he; cases he
  | some r =>
    rw [hr] at he
    have hrr : R r r' := by cases he; assumption
    exact (hR hrr).trans (hd e r hr)

omit [LinearOrder T] [Sub T] in
theorem phaseFinalize_none {s : Tracker T × AnchorVerifyResult} (hd : Keyed s.1)
    (hn : s.1.get? e=none) : (phaseFinalize config view s).1.get? e=none := by
  rw [phaseFinalize]
  dsimp only
  split_ifs
  · exact hn
  · split
    · exact hn
    · refine foldlRecOn (motive := fun after : Tracker T × AnchorVerifyResult =>
        after.1.get? e=none) _ _ hn fun after h y hy => (finalizeEntity_frame after ?_).trans h
      intro heq
      have hg := ((mem_values hd).mp hy).1
      rw [heq,hn] at hg
      cases hg

theorem tick_record (hd : Keyed d) (epoch : ℕ) (e : String) :
    Option.Rel (Decides view config) (d.get? e) ((tick config view epoch d).1.get? e) := by
  have hc := phaseConfirm_record view config hd {epoch := epoch}
  have hk : Keyed (phaseConfirm config view (d,{epoch := epoch})).1 :=
    keyed_of_rel hd hc fun h => h.entityId
  have he := hc e
  rw [tick]
  generalize phaseConfirm config view (d,{epoch := epoch})=s at he hk
  cases hr : d.get? e with
  | none =>
    rw [hr] at he
    cases hs : s.1.get? e with
    | none => rw [phaseFinalize_none view config hk hs]; exact .none
    | some _ => rw [hs] at he; cases he
  | some r =>
    rw [hr] at he
    cases hs : s.1.get? e with
    | none => rw [hs] at he; cases he
    | some r1 =>
      rw [hs] at he
      obtain ⟨he1,ht1,hb,hf1⟩ : Confirms view r r1 := by cases he; assumption
      obtain ⟨r',hr',he',ht',hf'⟩ := phaseFinalize_record view config hk hs
      rw [hr']
      exact .some ⟨he'.trans he1,ht'.trans ht1,by rw [hf',hf1,hb]⟩

end

end Verifier

section
variable {T : Type} [Zero T]

def Tracker.reconcileEntity (now : T) (entityId : String) (anchorDigest : Bytes) :
    Method (Tracker T) Unit := do
  if ((← get).get? entityId).isSome then pure ()
  else do
    markPending now entityId anchorDigest 0
    markSubmitted entityId "reconciled"
    markConfirmed now entityId 0 0
    markFinalized entityId

def KeepsKeys (d d' : Tracker T) : Prop := Verifier.Keyed d → Verifier.Keyed d'

instance : Std.Refl (KeepsKeys (T := T)) := ⟨fun _ => id⟩

instance : IsTrans (Tracker T) KeepsKeys := ⟨fun _ _ _ h h' hd => h' (h hd)⟩

omit [Zero T] in
theorem keyed_writes {d d' : Tracker T} {entityId : String} {record : AnchorRecord T}
    (hd : Verifier.Keyed d) (hw : Lifecycle.Writes entityId record d d')
    (hr : record.entityId=entityId) : Verifier.Keyed d' := by
  intro e found hf
  rw [hw e] at hf
  split_ifs at hf with he
  · cases hf
    rw [hr,he]
  · exact hd e found hf

theorem keeps_markPending (now : T) (entityId : String) (digest : Bytes) (chainId : ℤ) :
    Method.Keeps KeepsKeys (Tracker.markPending now entityId digest chainId) := by
  intro d hd
  simp only [Tracker.markPending]
  split_ifs
  · exact hd
  · exact keyed_writes hd (Lifecycle.writes_set _ _ _) rfl

omit [Zero T] in
theorem keeps_move (entityId : String) (status : AnchorStatus)
    (change : AnchorRecord T → AnchorRecord T)
    (hc : ∀ record, (change record).entityId=record.entityId) :
    Method.Keeps (KeepsKeys (T := T)) (discard (lifecycle.move entityId status change)) := by
  intro d hd
  rw [exec_discard]
  rcases lifecycle.move_exec entityId status change d with ⟨e,he⟩|⟨old,ho,_,_,hw⟩
  · rw [he]
    exact hd
  · exact keyed_writes hd hw ((hc _).trans (hd entityId old ho))

omit [Zero T] in
theorem keeps_markSubmitted (entityId txHash : String) :
    Method.Keeps (KeepsKeys (T := T)) (Tracker.markSubmitted entityId txHash) :=
  keeps_move _ _ (fun record => {record with txHash := txHash}) fun _ => rfl

omit [Zero T] in
theorem keeps_markConfirmed (now : T) (entityId : String) (block gas : ℤ) :
    Method.Keeps KeepsKeys (Tracker.markConfirmed now entityId block gas) :=
  keeps_move _ _ (fun record => {record with
    blockNumber := block
    gasUsed := gas
    confirmedAt := now}) fun _ => rfl

omit [Zero T] in
theorem keeps_markFailed (entityId error : String) :
    Method.Keeps (KeepsKeys (T := T)) (Tracker.markFailed entityId error) :=
  keeps_move _ _ (fun record => {record with error := error}) fun _ => rfl

omit [Zero T] in
theorem keeps_markFinalized (entityId : String) :
    Method.Keeps (KeepsKeys (T := T)) (Tracker.markFinalized entityId) := by
  intro d hd
  rw [Tracker.markFinalized,exec_discard]
  rcases lifecycle.transition_exec entityId .finalized d with ⟨e,he⟩|⟨old,ho,_,hok⟩
  · rw [he]
    exact hd
  · rw [hok]
    exact keyed_writes hd (Lifecycle.writes_set _ _ _) (hd entityId old ho)

theorem keeps_reconcileEntity (now : T) (entityId : String) (digest : Bytes) :
    Method.Keeps KeepsKeys (Tracker.reconcileEntity now entityId digest) := by
  refine .bind keeps_get fun d => ?_
  split_ifs
  · exact keeps_pure ()
  · refine (keeps_markPending now entityId digest 0).bind fun _ =>
      (keeps_markSubmitted entityId "reconciled").bind fun _ =>
        (keeps_markConfirmed now entityId 0 0).bind fun _ => keeps_markFinalized entityId

inductive VerifierInput (T : Type)
  | markPending (now : T) (entityId : String) (anchorDigest : Bytes) (chainId : ℤ)
  | markSubmitted (entityId txHash : String)
  | markFailed (entityId error : String)
  | reconcile (now : T) (entityId : String) (anchorDigest : Bytes)
  | tick (epoch : ℕ) (view : View T)

variable [LinearOrder T] [Sub T] (config : VerifierConfig T)

def VerifierInput.apply (d : Tracker T) : VerifierInput T → Tracker T
  | .markPending now entityId digest chainId =>
    ((Tracker.markPending now entityId digest chainId).exec d).2
  | .markSubmitted entityId txHash => ((Tracker.markSubmitted entityId txHash).exec d).2
  | .markFailed entityId error => ((Tracker.markFailed entityId error).exec d).2
  | .reconcile now entityId digest => ((Tracker.reconcileEntity now entityId digest).exec d).2
  | .tick epoch view => (Verifier.tick config view epoch d).1

def verifier : Machine (Tracker T) (VerifierInput T) Empty where
  start := Dict.empty
  step d input := (input.apply config d,[])

def Chain.Deep (chain : Chain) (depth : ℤ) (txHash : String) : Prop :=
  ∃ block, chain.Holds txHash block ∧ depth≤chain.head-block

def FinalizesDeep (d : Tracker T) : VerifierInput T → Prop
  | .tick epoch view => ∀ e record, (Verifier.tick config view epoch d).1.get? e=some record →
      record.status=.finalized →
      ¬(∃ record, d.get? e=some record ∧ record.status=.finalized) →
      view.atMark.Deep config.anchorFinalityDepth record.txHash
  | _ => True

/-- Every transaction that is deep enough by the block known of it is so on the chain itself when
the entities are marked. -/
def Stable (d : Tracker T) : VerifierInput T → Prop
  | .tick _ view => ∀ chain, view.heightQuery=.ok chain → ∀ e record, d.get? e=some record →
      ∀ block ∈ Verifier.storedBlock view record,
        config.anchorFinalityDepth≤chain.head-block →
          view.atMark.Deep config.anchorFinalityDepth record.txHash
  | _ => True

open Verifier

omit [Zero T] in
theorem finalizesDeep_iff_stable {d : Tracker T} (hd : Keyed d) (input : VerifierInput T) :
    FinalizesDeep config d input ↔ Stable config d input := by
  cases input with
  | tick epoch view =>
    have htick := tick_record view config hd epoch
    constructor
    · intro h chain hh e record hr block hb hde
      have he := htick e
      rw [hr] at he
      cases hr' : (tick config view epoch d).1.get? e with
      | none => rw [hr'] at he; cases he
      | some r' =>
        rw [hr'] at he
        obtain ⟨-,ht,hf⟩ : Decides view config record r' := by cases he; assumption
        rw [← ht]
        refine h e r' hr' (hf.mpr (.inr ⟨chain,hh,block,hb,hde⟩)) ?_
        rintro ⟨found,hfo,hfi⟩
        cases hr.symm.trans hfo
        simp [storedBlock,hfi] at hb
    · intro h e r' hr' hf hn
      have he := htick e
      rw [hr'] at he
      cases hr : d.get? e with
      | none => rw [hr] at he; cases he
      | some r =>
        rw [hr] at he
        obtain ⟨-,ht,hfi⟩ : Decides view config r r' := by cases he; assumption
        rcases hfi.mp hf with hfi|⟨chain,hh,block,hb,hde⟩
        · exact absurd ⟨r,hr,hfi⟩ hn
        · rw [ht]
          exact h chain hh e r hr block hb hde
  | markPending | markSubmitted | markFailed | reconcile => exact Iff.rfl

theorem keyed_apply {d : Tracker T} (hd : Keyed d) (input : VerifierInput T) :
    Keyed (input.apply config d) := by
  cases input with
  | markPending now entityId digest chainId =>
    exact keeps_markPending now entityId digest chainId d hd
  | markSubmitted entityId txHash => exact keeps_markSubmitted entityId txHash d hd
  | markFailed entityId error => exact keeps_markFailed entityId error d hd
  | reconcile now entityId digest => exact keeps_reconcileEntity now entityId digest d hd
  | tick epoch view =>
    exact keyed_of_rel hd (tick_record view config hd epoch) fun h => h.entityId

/-- What the verifier finalizes is on the chain with enough confirmations, in every tick of a
run, exactly if the ticks are stable. -/
theorem finalized_deep_iff (inputs : List (VerifierInput T)) :
    (verifier config).Meets (FinalizesDeep config) inputs ↔
      (verifier config).Meets (Stable config) inputs := by
  have hk : ∀ before, Keyed ((verifier config).state before) :=
    Machine.invariant (P := fun d _ => Keyed d) (fun _ _ hf => by cases hf)
      fun _ _ input hd => keyed_apply config hd input
  exact forall_congr' fun before => forall_congr' fun input => forall_congr' fun after =>
    forall_congr' fun _ => finalizesDeep_iff_stable config (hk before) input

end

def sampleChain (head : ℤ) (included : Bool) : Chain where
  head := head
  receipt txHash := if included ∧ txHash = "0x01" then some ⟨some 5,some 21000,some 1⟩ else none

def stillView (chain : Chain) : View ℕ where
  clock := 0
  receiptQuery _ := .ok chain
  heightQuery := .ok chain
  atMark := chain

def twoConfirmations : VerifierConfig ℕ where
  anchorFinalityDepth := 2
  anchorMaxRpcRetries := 3
  anchorMaxWaitSeconds := 100

def confirmedThen (chain : Chain) : List (VerifierInput ℕ) :=
  [.markPending 0 "e" (replicate 32 0) 1,.markSubmitted "e" "0x01",
    .tick 1 (stillView (sampleChain 5 true)),.tick 2 (stillView chain)]

/-- A reorganization dropped the transaction after it was confirmed, and the chain grew past the
stored block. -/
theorem droppedTransaction_finalized :
    ((verifier twoConfirmations).state (confirmedThen (sampleChain 7 false))).get? "e" =
        some ⟨"e",replicate 32 0,.finalized,"0x01",5,21000,0,0,"",0,1⟩ ∧
      (∀ txHash, (sampleChain 7 false).receipt txHash=none) ∧
      ¬(verifier twoConfirmations).Meets (FinalizesDeep twoConfirmations)
        (confirmedThen (sampleChain 7 false)) := by
  have hs : ((verifier twoConfirmations).state (confirmedThen (sampleChain 7 false))).get? "e" =
      some ⟨"e",replicate 32 0,.finalized,"0x01",5,21000,0,0,"",0,1⟩ := by decide +kernel
  have hg : ∀ txHash, (sampleChain 7 false).receipt txHash=none := fun _ => rfl
  refine ⟨hs,hg,fun h => ?_⟩
  obtain ⟨_,⟨receipt,hr,_⟩,_⟩ := h ((confirmedThen (sampleChain 7 false)).take 3)
    (.tick 2 (stillView (sampleChain 7 false))) [] rfl "e" _ hs rfl (by
      rintro ⟨record,hre,hf⟩
      cases hre
      cases hf)
  cases (hg _).symm.trans hr

end LatticeTransfer.Anchoring
