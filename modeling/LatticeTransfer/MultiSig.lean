import LatticeTransfer.CallTree
import Mathlib.Data.FinEnum

/-!
# The multi-signature wallet

`LTPMultiSig`: owners submit and confirm transactions, and one with enough confirmations
can be executed. The owners and the threshold change through transactions that the wallet
sends to itself. Every send of the wallet is the execution of a transaction, so the log of
the payments is the log of the executions, with the storage in which each took place.
-/

namespace LatticeTransfer.MultiSig
open Solidity CallTree List Program

/-- A call of the wallet; `view` is one of its getters. The data of a transaction is the
call it makes if it is sent to the wallet. -/
inductive Message
  | receive
  | view
  | submitTransaction (receiver : Address) (value : Uint256) (data : Option Message)
  | confirmTransaction (txId : ℕ)
  | revokeConfirmation (txId : ℕ)
  | executeTransaction (txId : ℕ)
  | addOwner (owner : Address)
  | removeOwner (owner : Address)
  | changeThreshold (newThreshold : Uint256)

structure Transaction where
  receiver : Address
  value : Uint256
  data : Option Message
  executed : Bool
  confirmations : Uint256

structure Storage where
  owners : List Address
  isOwner : Address → Bool
  threshold : Uint256
  transactions : List Transaction
  confirmations : ℕ → Address → Bool

inductive Error
  | notOwner (caller : Address)
  | txNotFound (txId : ℕ)
  | txAlreadyExecuted (txId : ℕ)
  | txAlreadyConfirmed (txId : ℕ) (owner : Address)
  | txNotConfirmed (txId : ℕ) (owner : Address)
  | insufficientConfirmations (txId : ℕ) (have_ need : Uint256)
  | txExecutionFailed (txId : ℕ)
  | invalidThreshold (threshold : Uint256) (ownerCount : ℕ)
  | duplicateOwner (owner : Address)
  | zeroAddress
  | onlySelf
deriving DecidableEq

abbrev Body := Program Error Storage Message

namespace Storage
variable (s : Storage) (env : Env)

def insertOwner (owner : Address) : Result Error Storage := do
  revertIf (owner=0) .zeroAddress
  revertIf (s.isOwner owner=true) (.duplicateOwner owner)
  return {s with
    isOwner := Function.update s.isOwner owner true
    owners := s.owners++[owner]}

def onlyOwner : Result Error Unit :=
  revertIf (s.isOwner env.sender=false) (.notOwner env.sender)

def onlySelf (this : Address) : Result Error Unit := revertIf (env.sender≠this) .onlySelf

def txExists (txId : ℕ) : Result Error Unit :=
  revertIf (s.transactions.length≤txId) (.txNotFound txId)

def transactionAt (txId : ℕ) : Result Error Transaction :=
  match s.transactions[txId]? with
  | some t => .ok t
  | none => .error .panic

def notExecuted (txId : ℕ) : Result Error Unit := do
  let t ← s.transactionAt txId
  revertIf (t.executed=true) (.txAlreadyExecuted txId)

def pending (txId : ℕ) : Result Error Transaction := do
  nonpayable env
  s.onlyOwner env
  s.txExists txId
  s.notExecuted txId
  s.transactionAt txId

def setConfirmed (txId : ℕ) (owner : Address) (confirmed : Bool) : Storage :=
  let recorded := Function.update (s.confirmations txId) owner confirmed
  {s with confirmations := Function.update s.confirmations txId recorded}

def setTransaction (txId : ℕ) (t : Transaction) : Storage :=
  {s with transactions := s.transactions.set txId t}

def confirm (txId : ℕ) : Result Error Storage := do
  revertIf (s.confirmations txId env.sender=true) (.txAlreadyConfirmed txId env.sender)
  let s := s.setConfirmed txId env.sender true
  let t ← s.transactionAt txId
  let count ← checkedAdd t.confirmations 1
  return s.setTransaction txId {t with confirmations := count}

def submitTransaction (receiver : Address) (value : Uint256) (data : Option Message) :
    Result Error Storage := do
  nonpayable env
  s.onlyOwner env
  let txId := s.transactions.length
  let txn : Transaction := ⟨receiver,value,data,false,0⟩
  let s := {s with transactions := s.transactions++[txn]}
  s.confirm env txId

def confirmTransaction (txId : ℕ) : Result Error Storage := do
  let _ ← s.pending env txId
  s.confirm env txId

def revokeConfirmation (txId : ℕ) : Result Error Storage := do
  let t ← s.pending env txId
  revertIf (s.confirmations txId env.sender=false) (.txNotConfirmed txId env.sender)
  let s := s.setConfirmed txId env.sender false
  let count ← checkedSub t.confirmations 1
  return s.setTransaction txId {t with confirmations := count}

def executeTransaction (txId : ℕ) : Body :=
  .check (do
    let txn ← s.pending env txId
    revertIf (txn.confirmations<s.threshold)
      (.insufficientConfirmations txId txn.confirmations s.threshold)
    return txn) fun txn =>
  .send (s.setTransaction txId {txn with executed := true}) txn.receiver txn.value txn.data
    fun success s => .check (revertIf (success=false) (.txExecutionFailed txId)) fun _ => .done s

def addOwner (this owner : Address) : Result Error Storage := do
  nonpayable env
  onlySelf env this
  s.insertOwner owner

def dropOwner (owner : Address) : List Address → List Address
  | [] => []
  | x::rest =>
    if x=owner then
      match rest.getLast? with
      | none => []
      | some last => last::rest.dropLast
    else x::dropOwner owner rest

def removeOwner (this owner : Address) : Result Error Storage := do
  nonpayable env
  onlySelf env this
  revertIf (s.isOwner owner=false) (.notOwner owner)
  let s := {s with
    isOwner := Function.update s.isOwner owner false
    owners := dropOwner owner s.owners}
  if s.owners.length<s.threshold.toNat then
    return {s with threshold := BitVec.ofNat 256 s.owners.length}
  else return s

def changeThreshold (this : Address) (newThreshold : Uint256) : Result Error Storage := do
  nonpayable env
  onlySelf env this
  revertIf (newThreshold=0 ∨ s.owners.length<newThreshold.toNat)
    (.invalidThreshold newThreshold s.owners.length)
  return {s with threshold := newThreshold}

def view : Result Error Storage := do
  nonpayable env
  return s

def dispatch (this : Address) : Message → Body
  | .receive => .done s
  | .view => .check (s.view env) .done
  | .submitTransaction receiver value data =>
    .check (s.submitTransaction env receiver value data) .done
  | .confirmTransaction txId => .check (s.confirmTransaction env txId) .done
  | .revokeConfirmation txId => .check (s.revokeConfirmation env txId) .done
  | .executeTransaction txId => s.executeTransaction env txId
  | .addOwner owner => .check (s.addOwner env this owner) .done
  | .removeOwner owner => .check (s.removeOwner env this owner) .done
  | .changeThreshold newThreshold => .check (s.changeThreshold env this newThreshold) .done

end Storage

def contract (this : Address) : Contract Error Storage Message where
  this := this
  call s env := s.dispatch env this

def construct (owners : List Address) (threshold : Uint256) : Result Error Storage := do
  revertIf (owners.length=0) (.invalidThreshold threshold 0)
  revertIf (threshold=0 ∨ owners.length<threshold.toNat)
    (.invalidThreshold threshold owners.length)
  let s ← owners.foldlM Storage.insertOwner ⟨[],fun _ => false,0,[],fun _ _ => false⟩
  return {s with threshold := threshold}

section
variable {owner : Address}

theorem dropOwner_perm {owners : List Address} (h : owner ∈ owners) :
    (Storage.dropOwner owner owners).Perm (owners.erase owner) := by
  induction owners with
  | nil => simp at h
  | cons x rest ih =>
    rw [Storage.dropOwner]
    split_ifs with hx
    · rw [hx,erase_cons_head]
      rcases eq_nil_or_concat rest with rfl|⟨front,last,rfl⟩
      · rfl
      · simpa using (perm_append_singleton last front).symm
    · have hr : owner ∈ rest := (mem_cons.mp h).resolve_left (Ne.symm hx)
      rw [erase_cons_tail (by simpa using hx)]
      exact (ih hr).cons x

end

def confirmers (s : Storage) (txId : ℕ) : Finset Address :=
  Finset.univ.filter fun a => s.confirmations txId a=true

def confirmingOwners (s : Storage) (txId : ℕ) : Finset Address :=
  Finset.univ.filter fun a => s.isOwner a=true ∧ s.confirmations txId a=true

structure Consistent (s : Storage) : Prop where
  nodup : s.owners.Nodup
  isOwner_iff : ∀ a, s.isOwner a=true ↔ a ∈ s.owners
  counted : ∀ (txId : ℕ) t, s.transactions[txId]?=some t →
    t.confirmations.toNat=(confirmers s txId).card
  fresh : ∀ txId, s.transactions.length≤txId → confirmers s txId=∅

structure Keeps (s s' : Storage) : Prop where
  consistent : Consistent s'
  executed : ∀ (txId : ℕ) (t' : Transaction), s'.transactions[txId]?=some t' →
    t'.executed=true → ∃ t : Transaction, s.transactions[txId]?=some t ∧ t.executed=true

theorem Keeps.of_eq {s s' : Storage} (h : Consistent s')
    (htr : s'.transactions=s.transactions) : Keeps s s' :=
  ⟨h,fun _ t ht he => ⟨t,htr ▸ ht,he⟩⟩

theorem Keeps.trans {s s' s'' : Storage} (h : Keeps s s') (h' : Keeps s' s'') : Keeps s s'' :=
  ⟨h'.consistent,fun txId t'' ht'' he => by
    obtain ⟨t',ht',he'⟩ := h'.executed txId t'' ht'' he
    exact h.executed txId t' ht' he'⟩

structure SameOwners (s s' : Storage) : Prop where
  owners : s'.owners=s.owners
  threshold : s'.threshold=s.threshold

section
variable {s s' : Storage} {env : Env} {txId : ℕ} {t : Transaction}

theorem transactionAt_eq_ok : s.transactionAt txId=.ok t ↔ s.transactions[txId]?=some t := by
  rw [Storage.transactionAt]
  split <;> simp_all

theorem pending_ok (h : s.pending env txId=.ok t) :
    s.isOwner env.sender=true ∧ s.transactions[txId]?=some t ∧ t.executed=false := by
  simp only [Storage.pending,Storage.onlyOwner,Storage.notExecuted,bind_eq_ok,revertIf_eq_ok,
    transactionAt_eq_ok,Bool.not_eq_false,Bool.not_eq_true] at h
  obtain ⟨_,_,_,ho,_,_,_,⟨t',ht',hp⟩,ht⟩ := h
  cases ht'.symm.trans ht
  exact ⟨ho,ht,hp⟩

theorem getElem?_setTransaction_cases {t' : Transaction} {id : ℕ} {found : Transaction}
    (h : (s.setTransaction txId t').transactions[id]?=some found) :
    id=txId ∧ found=t' ∨ id≠txId ∧ s.transactions[id]?=some found := by
  rcases eq_or_ne id txId with rfl|hne
  · have hlt := (List.getElem?_eq_some_iff.mp h).1
    rw [Storage.setTransaction,length_set] at hlt
    rw [Storage.setTransaction,List.getElem?_set_self hlt] at h
    exact .inl ⟨rfl,(Option.some.inj h).symm⟩
  · rw [Storage.setTransaction,List.getElem?_set_ne (Ne.symm hne)] at h
    exact .inr ⟨hne,h⟩

theorem confirmers_setConfirmed_true (s : Storage) (txId : ℕ) (a : Address) :
    confirmers (s.setConfirmed txId a true) txId=insert a (confirmers s txId) := by
  ext b
  rcases eq_or_ne b a with rfl|hne
  · simp [confirmers,Storage.setConfirmed]
  · simp [confirmers,Storage.setConfirmed,hne]

theorem confirmers_setConfirmed_false (s : Storage) (txId : ℕ) (a : Address) :
    confirmers (s.setConfirmed txId a false) txId=(confirmers s txId).erase a := by
  ext b
  rcases eq_or_ne b a with rfl|hne
  · simp [confirmers,Storage.setConfirmed]
  · simp [confirmers,Storage.setConfirmed,hne]

theorem confirmers_setConfirmed_of_ne {other : ℕ} (hne : other≠txId) (s : Storage) (a : Address)
    (confirmed : Bool) : confirmers (s.setConfirmed txId a confirmed) other=confirmers s other := by
  simp [confirmers,Storage.setConfirmed,hne]

theorem keeps_setConfirmed {a : Address} {confirmed : Bool} {count : Uint256} (hs : Consistent s)
    (ht : s.transactions[txId]?=some t)
    (hc : count.toNat=(confirmers (s.setConfirmed txId a confirmed) txId).card) :
    let s' := (s.setConfirmed txId a confirmed).setTransaction txId
      {t with confirmations := count}
    Keeps s s' ∧ SameOwners s s' := by
  have hlt : txId<s.transactions.length := (List.getElem?_eq_some_iff.mp ht).1
  refine ⟨⟨⟨hs.nodup,hs.isOwner_iff,fun id t' ht' => ?_,fun id hle => ?_⟩,
    fun id t' ht' he => ?_⟩,rfl,rfl⟩
  · rcases getElem?_setTransaction_cases ht' with ⟨rfl,rfl⟩|⟨hne,ho⟩
    · exact hc
    · refine (hs.counted id t' ho).trans ?_
      exact congrArg Finset.card (confirmers_setConfirmed_of_ne hne s a confirmed).symm
  · have hle' : s.transactions.length ≤ id := length_set.symm.le.trans hle
    have hne : id≠txId := by omega
    exact (confirmers_setConfirmed_of_ne hne s a confirmed).trans (hs.fresh id hle')
  · rcases getElem?_setTransaction_cases ht' with ⟨rfl,rfl⟩|⟨-,ho⟩
    · exact ⟨t,ht,he⟩
    · exact ⟨t',ho,he⟩

theorem keeps_confirm (hs : Consistent s) (h : s.confirm env txId=.ok s') :
    Keeps s s' ∧ SameOwners s s' := by
  simp only [Storage.confirm,bind_eq_ok,transactionAt_eq_ok,checkedAdd_eq_ok,pure_eq_ok] at h
  obtain ⟨_,hu,t,ht,count,hc,rfl⟩ := h
  have hn : env.sender ∉ confirmers s txId := by simpa [confirmers] using hu
  refine keeps_setConfirmed hs ht ?_
  rw [confirmers_setConfirmed_true,Finset.card_insert_of_notMem hn,← hs.counted txId t ht]
  exact hc.symm

theorem keeps_submitTransaction {rcv : Address} {value : Uint256} {data : Option Message}
    (hs : Consistent s) (h : s.submitTransaction env rcv value data=.ok s') :
    Keeps s s' ∧ SameOwners s s' := by
  simp only [Storage.submitTransaction,bind_eq_ok] at h
  obtain ⟨_,_,_,_,hc⟩ := h
  set txn : Transaction := ⟨rcv,value,data,false,0⟩ with htx
  set pushed : Storage := {s with transactions := s.transactions++[txn]} with hp
  have hca : ∀ (id : ℕ) (t' : Transaction), pushed.transactions[id]?=some t' →
      s.transactions[id]?=some t' ∨ id=s.transactions.length ∧ t'=txn := by
    intro id t' ht'
    rw [List.getElem?_append] at ht'
    split_ifs at ht' with hlt
    · exact .inl ht'
    · have hi := (List.getElem?_eq_some_iff.mp ht').1
      rw [length_singleton] at hi
      exact .inr ⟨by omega,mem_singleton.mp (mem_of_getElem? ht')⟩
  have hk : Keeps s pushed := by
    refine ⟨⟨hs.nodup,hs.isOwner_iff,fun id t' ht' => ?_,fun id hle => hs.fresh id ?_⟩,
      fun id t' ht' he => ?_⟩
    · rcases hca id t' ht' with hol|⟨rfl,rfl⟩
      · exact hs.counted id t' hol
      · exact (congrArg Finset.card (hs.fresh _ le_rfl)).symm
    · rw [length_append] at hle
      omega
    · rcases hca id t' ht' with hol|⟨-,rfl⟩
      · exact ⟨t',hol,he⟩
      · exact absurd he Bool.false_ne_true
  obtain ⟨hco,ho,ht⟩ := keeps_confirm hk.consistent hc
  exact ⟨hk.trans hco,ho,ht⟩

theorem keeps_revokeConfirmation (hs : Consistent s) (h : s.revokeConfirmation env txId=.ok s') :
    Keeps s s' ∧ SameOwners s s' := by
  simp only [Storage.revokeConfirmation,bind_eq_ok,checkedSub_eq_ok,pure_eq_ok] at h
  obtain ⟨t,hp,_,hc,count,hco,rfl⟩ := h
  obtain ⟨-,ht,-⟩ := pending_ok hp
  have hm : env.sender ∈ confirmers s txId := by simpa [confirmers] using hc
  have ho := hs.counted txId t ht
  have hon : (1 : Uint256).toNat=1 := rfl
  refine keeps_setConfirmed hs ht ?_
  rw [confirmers_setConfirmed_false,Finset.card_erase_of_mem hm]
  omega

theorem keeps_insertOwner {owner : Address} (hs : Consistent s)
    (h : s.insertOwner owner=.ok s') : Keeps s s' := by
  simp only [Storage.insertOwner,bind_eq_ok,revertIf_eq_ok,pure_eq_ok] at h
  obtain ⟨_,_,_,hnew,rfl⟩ := h
  have hn : owner ∉ s.owners := fun hm => hnew ((hs.isOwner_iff owner).mpr hm)
  refine .of_eq ⟨?_,fun a => ?_,hs.counted,hs.fresh⟩ rfl
  · exact nodup_append.mpr ⟨hs.nodup,nodup_singleton _,by
      rintro a ha b hb rfl
      exact hn (mem_singleton.mp hb ▸ ha)⟩
  · rcases eq_or_ne a owner with rfl|hne
    · simp
    · simpa [hne] using hs.isOwner_iff a

theorem keeps_removeOwner {this owner : Address} (hs : Consistent s)
    (h : s.removeOwner env this owner=.ok s') : Keeps s s' := by
  simp only [Storage.removeOwner,bind_eq_ok,revertIf_eq_ok,Bool.not_eq_false] at h
  obtain ⟨_,_,_,_,_,ho,h⟩ := h
  have hm : owner ∈ s.owners := (hs.isOwner_iff owner).mp ho
  have hp := dropOwner_perm hm
  have hn : (Storage.dropOwner owner s.owners).Nodup :=
    hp.nodup_iff.mpr (hs.nodup.erase owner)
  have hi : ∀ a, Function.update s.isOwner owner false a=true ↔
      a ∈ Storage.dropOwner owner s.owners := by
    intro a
    rw [hp.mem_iff,hs.nodup.mem_erase_iff]
    rcases eq_or_ne a owner with rfl|hne
    · simp
    · simpa [hne] using hs.isOwner_iff a
  split_ifs at h
  all_goals
    obtain rfl := pure_eq_ok.mp h
    exact .of_eq ⟨hn,hi,hs.counted,hs.fresh⟩ rfl

theorem keeps_changeThreshold {this : Address} {newThreshold : Uint256} (hs : Consistent s)
    (h : s.changeThreshold env this newThreshold=.ok s') : Keeps s s' := by
  simp only [Storage.changeThreshold,bind_eq_ok,pure_eq_ok] at h
  obtain ⟨_,_,_,_,_,_,rfl⟩ := h
  exact .of_eq ⟨hs.nodup,hs.isOwner_iff,hs.counted,hs.fresh⟩ rfl

theorem consistent_setExecuted (hs : Consistent s) (ht : s.transactions[txId]?=some t) :
    Consistent (s.setTransaction txId {t with executed := true}) := by
  refine ⟨hs.nodup,hs.isOwner_iff,fun id t' ht' => ?_,fun id hle => hs.fresh id ?_⟩
  · rcases getElem?_setTransaction_cases ht' with ⟨rfl,rfl⟩|⟨-,ho⟩
    · exact hs.counted id t ht
    · exact hs.counted id t' ho
  · rwa [Storage.setTransaction,length_set] at hle

end

abbrev Wallet := World Storage Message

structure Execution (p : Payment Storage Message) (txId : ℕ) : Prop where
  message : p.message=.executeTransaction txId
  consistent : Consistent p.storage
  reached : ∃ t, p.storage.transactions[txId]?=some t ∧ p.storage.threshold≤t.confirmations

structure Valid (w : Wallet) : Prop where
  consistent : Consistent w.storage
  executions : ∀ p ∈ w.sent, ∃ txId, Execution p txId
  logged : ∀ (txId : ℕ) (t : Transaction), w.storage.transactions[txId]?=some t →
    t.executed=true → ∃ p ∈ w.sent, p.message=.executeTransaction txId

def guarantee : Guarantee Storage Message := .ofInvariant Valid

section
variable {w : Wallet} {env : Env} {this : Address} {m : Message}

theorem Valid.keeps {s' : Storage} (hw : Valid w) (h : Keeps w.storage s') :
    Valid {w.receive message env.value with storage := s'} where
  consistent := h.consistent
  executions := hw.executions
  logged txId t ht he := by
    obtain ⟨told,hto,ho⟩ := h.executed txId t ht he
    exact hw.logged txId told hto ho

theorem meets_keeps {result : Result Error Storage} (hw : Valid w)
    (h : ∀ s', result=.ok s' → Keeps w.storage s') :
    (Program.check result .done : Body).Meets guarantee m w (w.receive m env.value) :=
  meets_check.mpr fun s' hs' => ⟨hw.keeps (h s' hs'),trivial⟩

theorem meets_executeTransaction_of {I : Wallet → Prop} {txId : ℕ}
    (h : ∀ t, w.storage.transactions[txId]?=some t → w.storage.threshold≤t.confirmations →
      I ({w.receive (.executeTransaction txId) env.value with
        storage := w.storage.setTransaction txId {t with executed := true}}.pay
          (.executeTransaction txId) t.receiver t.value)) :
    (w.storage.executeTransaction env txId).Meets (.ofInvariant I) (.executeTransaction txId) w
      (w.receive (.executeTransaction txId) env.value) := by
  refine meets_check.mpr fun txn htx => ?_
  simp only [bind_eq_ok,revertIf_eq_ok,pure_eq_ok] at htx
  obtain ⟨t,hp,_,hr,rfl⟩ := htx
  obtain ⟨-,ht,-⟩ := pending_ok hp
  refine ⟨meets_check.mpr fun _ hf => ?_,fun _ _ => trivial,
    fun _ => ⟨⟨h t ht (BitVec.not_lt.mp hr),trivial⟩,fun w' hw' _ => ?_⟩⟩
  · exact absurd rfl (revertIf_eq_ok.mp hf)
  · exact meets_check.mpr fun _ _ => ⟨hw',trivial⟩

theorem meets_executeTransaction {txId : ℕ} (hw : Valid w) :
    (w.storage.executeTransaction env txId).Meets guarantee (.executeTransaction txId) w
      (w.receive (.executeTransaction txId) env.value) := by
  refine meets_executeTransaction_of fun t ht hr => ?_
  have hm := consistent_setExecuted hw.consistent ht
  have hlt : txId<w.storage.transactions.length := (List.getElem?_eq_some_iff.mp ht).1
  refine ⟨hm,fun p hp => ?_,fun id t' ht' he => ?_⟩
  · rcases mem_append.mp hp with hp|hp
    · exact hw.executions p hp
    · rw [mem_singleton.mp hp]
      exact ⟨txId,rfl,hm,_,List.getElem?_set_self hlt,hr⟩
  · rcases getElem?_setTransaction_cases ht' with ⟨rfl,-⟩|⟨-,ho⟩
    · exact ⟨_,mem_append_right _ (mem_singleton_self _),rfl⟩
    · obtain ⟨p,hp,hme⟩ := hw.logged id t' ho he
      exact ⟨p,mem_append_left _ hp,hme⟩

theorem contract_keeps (this : Address) : (contract this).Keeps guarantee where
  deposit w amount hw := ⟨⟨hw.consistent,hw.executions,hw.logged⟩,trivial⟩
  call w env m _ hw := by
    have hs := hw.consistent
    cases m with
    | receive => exact ⟨hw.keeps (.of_eq hs rfl),trivial⟩
    | view =>
      refine meets_keeps hw fun s' h => ?_
      simp only [Storage.view,bind_eq_ok,pure_eq_ok] at h
      obtain ⟨_,_,rfl⟩ := h
      exact .of_eq hs rfl
    | submitTransaction rcv value data =>
      exact meets_keeps hw fun s' h => (keeps_submitTransaction hs h).1
    | confirmTransaction txId =>
      refine meets_keeps hw fun s' h => ?_
      obtain ⟨_,_,hc⟩ := bind_eq_ok.mp h
      exact (keeps_confirm hs hc).1
    | revokeConfirmation txId => exact meets_keeps hw fun s' h => (keeps_revokeConfirmation hs h).1
    | executeTransaction txId => exact meets_executeTransaction hw
    | addOwner owner =>
      refine meets_keeps hw fun s' h => ?_
      simp only [Storage.addOwner,bind_eq_ok] at h
      obtain ⟨_,_,_,_,hi⟩ := h
      exact keeps_insertOwner hs hi
    | removeOwner owner => exact meets_keeps hw fun s' => keeps_removeOwner hs
    | changeThreshold newThreshold => exact meets_keeps hw fun s' => keeps_changeThreshold hs

end

section

theorem foldlM_insertOwner {owners : List Address} {s s' : Storage} (hs : Consistent s)
    (h : owners.foldlM Storage.insertOwner s=.ok s') :
    Consistent s' ∧ s'.transactions=s.transactions := by
  induction owners generalizing s with
  | nil =>
    obtain rfl := pure_eq_ok.mp h
    exact ⟨hs,rfl⟩
  | cons owner rest ih =>
    obtain ⟨next,hi,hr⟩ := bind_eq_ok.mp h
    obtain ⟨hc,ht⟩ := ih (keeps_insertOwner hs hi).consistent hr
    refine ⟨hc,ht.trans ?_⟩
    simp only [Storage.insertOwner,bind_eq_ok,pure_eq_ok] at hi
    obtain ⟨_,_,_,_,rfl⟩ := hi
    rfl

theorem construct_valid {owners : List Address} {threshold : Uint256} {s : Storage}
    (h : construct owners threshold=.ok s) (bal : ℕ) : Valid (⟨s,bal,[],[]⟩ : Wallet) := by
  simp only [construct,bind_eq_ok,pure_eq_ok] at h
  obtain ⟨_,_,_,_,filled,hfi,rfl⟩ := h
  have he : Consistent ⟨[],fun _ => false,0,[],fun _ _ => false⟩ :=
    ⟨nodup_nil,by simp,by simp,fun _ _ => by simp [confirmers]⟩
  obtain ⟨hf,hn⟩ := foldlM_insertOwner he hfi
  refine ⟨⟨hf.nodup,hf.isOwner_iff,hf.counted,hf.fresh⟩,by simp,
    fun txId t ht => ?_⟩
  change filled.transactions[txId]?=some t at ht
  simp [hn] at ht

theorem Execution.threshold_le {p : Payment Storage Message} {txId : ℕ} (h : Execution p txId)
    (ho : ∀ a, p.storage.confirmations txId a=true → p.storage.isOwner a=true) :
    p.storage.threshold.toNat≤(confirmingOwners p.storage txId).card := by
  obtain ⟨t,ht,hr⟩ := h.reached
  have hs : confirmers p.storage txId ⊆ confirmingOwners p.storage txId := by
    intro a ha
    have hc := (Finset.mem_filter.mp ha).2
    exact Finset.mem_filter.mpr ⟨Finset.mem_univ a,ho a hc,hc⟩
  calc p.storage.threshold.toNat≤t.confirmations.toNat := hr
    _ = (confirmers p.storage txId).card := h.consistent.counted txId t ht
    _ ≤ (confirmingOwners p.storage txId).card := Finset.card_le_card hs

variable {owners : List Address} {threshold : Uint256} {s : Storage}

/-- Each executed transaction has an entry in the log, and each entry in which every recorded
confirmation is that of an owner had at least the threshold of confirming owners. -/
theorem executed_with_threshold_of_owners (h : construct owners threshold=.ok s)
    (this : Address) (balance : ℕ) (actions : List (Action Message)) :
    ∀ w ∈ (machine (contract this) ⟨s,balance,[],[]⟩).outputs actions,
      (∀ (txId : ℕ) (t : Transaction), w.storage.transactions[txId]?=some t →
        t.executed=true → ∃ p ∈ w.sent, p.message=.executeTransaction txId) ∧
      ∀ p ∈ w.sent, ∀ txId, p.message=.executeTransaction txId →
        (∀ a, p.storage.confirmations txId a=true → p.storage.isOwner a=true) →
        p.storage.threshold.toNat≤(confirmingOwners p.storage txId).card := by
  intro w hw
  have hv : Valid w :=
    ((run_ends (contract_keeps this) (construct_valid h balance) actions).2.2 w hw).1
  refine ⟨hv.logged,fun p hp txId hm ho => ?_⟩
  obtain ⟨txId',he⟩ := hv.executions p hp
  obtain rfl : txId'=txId := by
    have hs := he.message.symm.trans hm
    exact Message.executeTransaction.inj hs
  exact he.threshold_le ho

end

section

def twoOfThree : Storage where
  owners := [1,2,3]
  isOwner := Function.update (Function.update (Function.update (fun _ => false) 1 true) 2 true)
    3 true
  threshold := 2
  transactions := []
  confirmations _ _ := false

def wallet : Machine Wallet (Action Message) Wallet :=
  machine (contract 99) ⟨twoOfThree,0,[],[]⟩

def act (owner : Address) (message : Message) (replies : List (Reply Message)) : Action Message :=
  .call ⟨owner,0,1000,1⟩ message replies

def confirmedRun : List (Action Message) :=
  [act 1 (.submitTransaction 50 0 none) [],act 2 (.confirmTransaction 0) []]

def execution : Action Message := act 2 (.executeTransaction 0) [.outside true []]

def lastExecution (w : Wallet) : Payment Storage Message :=
  w.sent.getLastD ⟨.receive,twoOfThree,0,0⟩

theorem lastExecution_mem {w : Wallet} (h : 0<w.sent.length) : lastExecution w ∈ w.sent := by
  have hne : w.sent≠[] := ne_nil_of_length_pos h
  rw [lastExecution,getLastD_eq_getLast?,getLast?_eq_some_getLast hne]
  exact getLast_mem hne

def Message.executes : Message → Option ℕ
  | .executeTransaction txId => some txId
  | _ => none

theorem wallet_execution {acts : List (Action Message)} {txId : ℕ}
    (h : 0<(wallet.state acts).sent.length)
    (hl : (lastExecution (wallet.state acts)).message.executes=some txId) :
    Execution (lastExecution (wallet.state acts)) txId := by
  have hc : construct [1,2,3] 2=.ok twoOfThree := rfl
  have hv : Valid (wallet.state acts) :=
    (run_ends (contract_keeps 99) (construct_valid hc 0) acts).1
  obtain ⟨other,he⟩ := hv.executions _ (lastExecution_mem h)
  rw [he.message] at hl
  exact Option.some.inj hl ▸ he

theorem confirmedRun_confirmers {p : Payment Storage Message}
    (hp : lastExecution (wallet.state (confirmedRun++[execution]))=p) (h : Execution p 0) :
    confirmers p.storage 0={1,2} := by
  obtain ⟨t,ht,-⟩ := h.reached
  have hc : (p.storage.transactions[0]?.map (·.confirmations.toNat))=some 2 := by
    rw [← hp]
    decide +kernel
  rw [ht] at hc
  have hca : (confirmers p.storage 0).card≤({1,2} : Finset Address).card := by
    rw [← h.consistent.counted 0 t ht]
    exact (Option.some.inj hc).le
  refine (Finset.eq_of_subset_of_card_le (fun a ha => ?_) hca).symm
  have hco : p.storage.confirmations 0 1=true ∧ p.storage.confirmations 0 2=true := by
    rw [← hp]
    decide +kernel
  refine Finset.mem_filter.mpr ⟨Finset.mem_univ a,?_⟩
  rcases Finset.mem_insert.mp ha with rfl|ha
  · exact hco.1
  · exact Finset.mem_singleton.mp ha ▸ hco.2

theorem confirmedRun_executed_by_owners : construct [1,2,3] 2=.ok twoOfThree ∧
      ∃ w ∈ wallet.outputs (confirmedRun++[execution]), ∃ p ∈ w.sent,
        p.message=.executeTransaction 0 ∧ 2≤(confirmingOwners p.storage 0).card := by
  have hc : construct [1,2,3] 2=.ok twoOfThree := rfl
  have hl : 0<(wallet.state (confirmedRun++[execution])).sent.length := by decide +kernel
  have he : Execution _ 0 := wallet_execution hl (by decide +kernel)
  have hm : wallet.state (confirmedRun++[execution]) ∈
      wallet.outputs (confirmedRun++[execution]) :=
    state_mem_outputs (contract 99) _ confirmedRun _ (.executeTransaction 0) _ (by decide)
  have ht : (lastExecution (wallet.state (confirmedRun++[execution]))).storage.threshold
      = 2 := by decide +kernel
  have ho : (lastExecution (wallet.state (confirmedRun++[execution]))).storage.isOwner 1 ∧
      (lastExecution (wallet.state (confirmedRun++[execution]))).storage.isOwner 2 := by
    decide +kernel
  refine ⟨hc,_,hm,_,lastExecution_mem hl,he.message,?_⟩
  have hle := (executed_with_threshold_of_owners hc 99 0 _ _ hm).2 _
    (lastExecution_mem hl) 0 he.message fun a ha => ?_
  · rwa [ht] at hle
  · have hp : a ∈ ({1,2} : Finset Address) := by
      rw [← confirmedRun_confirmers rfl he]
      exact Finset.mem_filter.mpr ⟨Finset.mem_univ a,ha⟩
    rcases Finset.mem_insert.mp hp with rfl|hp
    · exact ho.1
    · exact Finset.mem_singleton.mp hp ▸ ho.2

def removedRun : List (Action Message) :=
  confirmedRun++[act 2 (.submitTransaction 99 0 (some (.removeOwner 1))) [],
    act 3 (.confirmTransaction 1) [],act 2 (.executeTransaction 1) [.enters []]]

theorem confirmingOwners_eq {s : Storage} (hs : Consistent s) (txId : ℕ) :
    confirmingOwners s txId=s.owners.toFinset.filter fun a => s.confirmations txId a=true := by
  ext a
  simp [confirmingOwners,hs.isOwner_iff]

theorem removedRun_executed_by_one_owner :
    ∃ p ∈ (wallet.state (removedRun++[execution])).sent, p.message=.executeTransaction 0 ∧
      p.storage.threshold=2 ∧ (confirmingOwners p.storage 0).card=1 := by
  have hl : 0<(wallet.state (removedRun++[execution])).sent.length := by decide +kernel
  have he : Execution _ 0 := wallet_execution hl (by decide +kernel)
  refine ⟨_,lastExecution_mem hl,he.message,by decide +kernel,?_⟩
  rw [confirmingOwners_eq he.consistent]
  decide +kernel

end

end LatticeTransfer.MultiSig
