import LatticeTransfer.MultiSig

/-!
# The owners and the threshold of the wallet

The array of owners follows the flags in every call. The threshold stays between one and the
number of owners until `removeOwner` takes the last owner, where it becomes zero. The number of
owners is known from the calls that were accepted.
-/

namespace LatticeTransfer.MultiSig
open Solidity CallTree List Program

structure OwnersSound (s : Storage) : Prop where
  nodup : s.owners.Nodup
  isOwner_iff : ∀ a, s.isOwner a=true ↔ a ∈ s.owners
  threshold_pos : 1 ≤ s.threshold.toNat
  threshold_le : s.threshold.toNat ≤ s.owners.length

def Message.removes : Message → Bool
  | .removeOwner _ => true
  | _ => false

def Message.adds : Message → Bool
  | .addOwner _ => true
  | _ => false

def removals (log : List (Message × Uint256)) : ℕ := log.countP (·.1.removes)
def additions (log : List (Message × Uint256)) : ℕ := log.countP (·.1.adds)

/-- At no moment have the accepted removals taken all the owners, the `count` of the beginning and
those that were added. -/
def SparesLast (count : ℕ) (log : List (Message × Uint256)) : Prop :=
  ∀ before ∈ log.inits, removals before<count+additions before

instance (count : ℕ) (log : List (Message × Uint256)) : Decidable (SparesLast count log) :=
  inferInstanceAs (Decidable (∀ before ∈ log.inits, _))

/-- The calls so far account for the number of owners, and the threshold is sound unless they have
removed the last one. -/
structure Accounted (count : ℕ) (w : Wallet) : Prop where
  consistent : Consistent w.storage
  tally : w.storage.owners.length+removals w.received=count+additions w.received
  threshold : SparesLast count w.received →
    1≤w.storage.threshold.toNat ∧ w.storage.threshold.toNat≤w.storage.owners.length

section
variable {count : ℕ} {log : List (Message × Uint256)} {entry : Message × Uint256}

theorem SparesLast.earlier (h : SparesLast count (log++[entry])) : SparesLast count log := by
  intro before hb
  have hl := (mem_inits _ _).mp hb
  exact h before ((mem_inits _ _).mpr (hl.trans (prefix_append log [entry])))

theorem SparesLast.now (h : SparesLast count log) : removals log<count+additions log :=
  h log ((mem_inits _ _).mpr prefix_rfl)

theorem removals_snoc (log : List (Message × Uint256)) (entry : Message × Uint256) :
    removals (log++[entry])=removals log+if entry.1.removes then 1 else 0 := by simp [removals]

theorem additions_snoc (log : List (Message × Uint256)) (entry : Message × Uint256) :
    additions (log++[entry])=additions log+if entry.1.adds then 1 else 0 := by simp [additions]

end

section
variable {s s' : Storage} {env : Env}

theorem insertOwner_length {owner : Address} (h : s.insertOwner owner=.ok s') :
    s'.owners.length=s.owners.length+1 ∧ s'.threshold=s.threshold := by
  simp only [Storage.insertOwner,bind_eq_ok,pure_eq_ok] at h
  obtain ⟨_,_,_,_,rfl⟩ := h
  exact ⟨length_append,rfl⟩

theorem removeOwner_length {this owner : Address} (hs : Consistent s)
    (h : s.removeOwner env this owner=.ok s') : s'.owners.length+1=s.owners.length ∧
      s'.threshold.toNat=min s.threshold.toNat s'.owners.length := by
  simp only [Storage.removeOwner,bind_eq_ok,revertIf_eq_ok,Bool.not_eq_false] at h
  obtain ⟨_,_,_,_,_,ho,h⟩ := h
  have hm : owner ∈ s.owners := (hs.isOwner_iff owner).mp ho
  have hl : (Storage.dropOwner owner s.owners).length+1=s.owners.length := by
    rw [(dropOwner_perm hm).length_eq,length_erase_of_mem hm]
    have hp := length_pos_of_mem hm
    omega
  split_ifs at h with hlo
  · obtain rfl := pure_eq_ok.mp h
    refine ⟨hl,?_⟩
    have hlt : (Storage.dropOwner owner s.owners).length<2^256 :=
      lt_trans hlo s.threshold.isLt
    simp only [BitVec.toNat_ofNat,Nat.mod_eq_of_lt hlt]
    exact (min_eq_right hlo.le).symm
  · obtain rfl := pure_eq_ok.mp h
    exact ⟨hl,(min_eq_left (not_lt.mp hlo)).symm⟩

theorem changeThreshold_ok {this : Address} {newThreshold : Uint256}
    (h : s.changeThreshold env this newThreshold=.ok s') :
    s'.owners=s.owners ∧ 1 ≤ s'.threshold.toNat ∧ s'.threshold.toNat ≤ s.owners.length := by
  simp only [Storage.changeThreshold,bind_eq_ok,revertIf_eq_ok,pure_eq_ok,not_or,not_lt] at h
  obtain ⟨_,_,_,_,_,⟨hne,hle⟩,rfl⟩ := h
  refine ⟨rfl,Nat.one_le_iff_ne_zero.mpr fun hz => hne ?_,hle⟩
  exact BitVec.eq_of_toNat_eq hz

end

section
variable {count : ℕ} {w : Wallet} {env : Env} {m : Message}

theorem Accounted.same {s' : Storage} (hw : Accounted count w) (hs : Consistent s')
    (hsa : SameOwners w.storage s') (hr : message.removes=false)
    (ha : message.adds=false) (value : Uint256) :
    Accounted count {w.receive message value with storage := s'} := by
  refine ⟨hs,?_,fun hsp => ?_⟩
  · simp only [World.receive,removals_snoc,additions_snoc,hr,ha,hsa.owners]
    exact hw.tally
  · simp only [hsa.owners,hsa.threshold]
    exact hw.threshold hsp.earlier

theorem meets_same {result : Result Error Storage} (hw : Accounted count w)
    (hr : m.removes=false) (ha : m.adds=false)
    (h : ∀ s', result=.ok s' → Keeps w.storage s' ∧ SameOwners w.storage s') :
    (Program.check result .done : Body).Meets (.ofInvariant (Accounted count)) m w
      (w.receive m env.value) :=
  meets_check.mpr fun s' hs' =>
    ⟨hw.same (h s' hs').1.consistent (h s' hs').2 hr ha env.value,trivial⟩

theorem accounted_addOwner {this owner : Address} {s' : Storage} (hw : Accounted count w)
    (h : w.storage.addOwner env this owner=.ok s') :
    Accounted count {w.receive (.addOwner owner) env.value with storage := s'} := by
  simp only [Storage.addOwner,bind_eq_ok] at h
  obtain ⟨_,_,_,_,hi⟩ := h
  obtain ⟨hl,ht⟩ := insertOwner_length hi
  have hta := hw.tally
  refine ⟨(keeps_insertOwner hw.consistent hi).consistent,?_,fun hs => ?_⟩
  · simp only [World.receive,removals_snoc,additions_snoc,Message.removes,Message.adds,if_true]
    simp only [Bool.false_eq_true,if_false]
    omega
  · obtain ⟨hp,hle⟩ := hw.threshold hs.earlier
    simp only [ht]
    omega

theorem accounted_removeOwner {this owner : Address} {s' : Storage} (hw : Accounted count w)
    (h : w.storage.removeOwner env this owner=.ok s') :
    Accounted count {w.receive (.removeOwner owner) env.value with storage := s'} := by
  obtain ⟨hl,ht⟩ := removeOwner_length hw.consistent h
  have hta : s'.owners.length+removals (w.received++[(.removeOwner owner,env.value)]) =
      count+additions (w.received++[(.removeOwner owner,env.value)]) := by
    have hb := hw.tally
    simp only [removals_snoc,additions_snoc,Message.removes,Message.adds,if_true,
      Bool.false_eq_true,if_false]
    omega
  refine ⟨(keeps_removeOwner hw.consistent h).consistent,hta,fun hs => ?_⟩
  -- an owner is left, so the smaller of the old threshold and the new number is not zero
  have hlef : removals (w.received++[(.removeOwner owner,env.value)]) <
      count+additions (w.received++[(.removeOwner owner,env.value)]) := hs.now
  obtain ⟨hp,hle⟩ := hw.threshold hs.earlier
  dsimp only
  omega

theorem contract_keeps_accounted (this : Address) (count : ℕ) :
    (contract this).Keeps (.ofInvariant (Accounted count)) where
  deposit w amount hw := ⟨⟨hw.consistent,hw.tally,hw.threshold⟩,trivial⟩
  call w env m _ hw := by
    have hs := hw.consistent
    cases m with
    | receive => exact ⟨hw.same hs ⟨rfl,rfl⟩ rfl rfl env.value,trivial⟩
    | view =>
      refine meets_same hw rfl rfl fun s' h => ?_
      simp only [Storage.view,bind_eq_ok,pure_eq_ok] at h
      obtain ⟨_,_,rfl⟩ := h
      exact ⟨.of_eq hs rfl,rfl,rfl⟩
    | submitTransaction rcv value data =>
      exact meets_same hw rfl rfl fun s' => keeps_submitTransaction hs
    | confirmTransaction txId =>
      refine meets_same hw rfl rfl fun s' h => ?_
      obtain ⟨_,_,hc⟩ := bind_eq_ok.mp h
      exact keeps_confirm hs hc
    | revokeConfirmation txId => exact meets_same hw rfl rfl fun s' => keeps_revokeConfirmation hs
    | executeTransaction txId =>
      refine meets_executeTransaction_of fun t ht _ => ?_
      have hm : Accounted count {w.receive (.executeTransaction txId) env.value with
          storage := w.storage.setTransaction txId {t with executed := true}} :=
        hw.same (consistent_setExecuted hs ht) ⟨rfl,rfl⟩ rfl rfl env.value
      exact ⟨hm.consistent,hm.tally,hm.threshold⟩
    | addOwner owner =>
      exact meets_check.mpr fun s' h => ⟨accounted_addOwner hw h,trivial⟩
    | removeOwner owner =>
      exact meets_check.mpr fun s' h => ⟨accounted_removeOwner hw h,trivial⟩
    | changeThreshold newThreshold =>
      refine meets_check.mpr fun s' h => ⟨⟨(keeps_changeThreshold hs h).consistent,?_,
        fun _ => ?_⟩,trivial⟩
      · obtain ⟨ho,-⟩ := changeThreshold_ok h
        simp only [World.receive,removals_snoc,additions_snoc,ho]
        exact hw.tally
      · obtain ⟨ho,hp,hle⟩ := changeThreshold_ok h
        exact ⟨hp,by rwa [ho]⟩

end

section
variable {owners : List Address} {threshold : Uint256} {s : Storage}

theorem foldlM_insertOwner_length {start : Storage}
    (h : owners.foldlM Storage.insertOwner start=.ok s) :
    s.owners.length=start.owners.length+owners.length := by
  induction owners generalizing start with
  | nil => rw [pure_eq_ok.mp h,length_nil,Nat.add_zero]
  | cons owner rest ih =>
    obtain ⟨next,hi,hr⟩ := bind_eq_ok.mp h
    rw [ih hr,(insertOwner_length hi).1,length_cons]
    omega

theorem construct_accounted (h : construct owners threshold=.ok s) (bal : ℕ) :
    Accounted owners.length (⟨s,bal,[],[]⟩ : Wallet) := by
  have hv := construct_valid h bal
  simp only [construct,bind_eq_ok,revertIf_eq_ok,pure_eq_ok,not_or] at h
  obtain ⟨_,_,_,⟨hne,hle⟩,filled,hf,rfl⟩ := h
  have hl : filled.owners.length=owners.length := by
    rw [foldlM_insertOwner_length hf]
    exact Nat.zero_add _
  refine ⟨hv.consistent,?_,fun _ => ⟨Nat.one_le_iff_ne_zero.mpr fun hz => hne ?_,?_⟩⟩
  · simpa [removals,additions] using hl
  · exact BitVec.eq_of_toNat_eq hz
  · simpa [hl] using hle

/-- After construction the owners are exactly the flagged addresses, without duplicates. The
threshold is between one and their number in every world whose calls have not removed the last
owner. -/
theorem owners_sound_of_last_spared (h : construct owners threshold=.ok s) (this : Address)
    (balance : ℕ) (actions : List (Action Message)) (w : Wallet)
    (hw : w=(machine (contract this) ⟨s,balance,[],[]⟩).state actions ∨
      w ∈ (machine (contract this) ⟨s,balance,[],[]⟩).outputs actions) :
    (w.storage.owners.Nodup ∧ ∀ a, w.storage.isOwner a=true ↔ a ∈ w.storage.owners) ∧
      (SparesLast owners.length w.received → OwnersSound w.storage) := by
  obtain ⟨hs,-,hse⟩ := run_ends (contract_keeps_accounted this owners.length)
    (construct_accounted h balance) actions
  have ha : Accounted owners.length w := by
    rcases hw with rfl|hw
    · exact hs
    · exact (hse w hw).1
  refine ⟨⟨ha.consistent.nodup,ha.consistent.isOwner_iff⟩,fun hspared => ?_⟩
  obtain ⟨hp,hle⟩ := ha.threshold hspared
  exact ⟨ha.consistent.nodup,ha.consistent.isOwner_iff,hp,hle⟩

theorem removedRun_owners_sound : construct [1,2,3] 2=.ok twoOfThree ∧
      SparesLast 3 (wallet.state removedRun).received ∧
      OwnersSound (wallet.state removedRun).storage := by
  have hc : construct [1,2,3] 2=.ok twoOfThree := rfl
  have hs : SparesLast 3 (wallet.state removedRun).received := by decide +kernel
  exact ⟨hc,hs,(owners_sound_of_last_spared hc 99 0 removedRun _ (.inl rfl)).2 hs⟩

def oneOfOne : Storage where
  owners := [1]
  isOwner := Function.update (fun _ => false) 1 true
  threshold := 1
  transactions := []
  confirmations _ _ := false

def lastRemovedRun : List (Action Message) :=
  [act 1 (.submitTransaction 99 0 (some (.removeOwner 1))) [],
    act 1 (.executeTransaction 0) [.enters []]]

theorem lastRemovedRun_threshold_zero : construct [1] 1=.ok oneOfOne ∧
      ((machine (contract 99) ⟨oneOfOne,0,[],[]⟩).state lastRemovedRun).storage.owners=[] ∧
      ((machine (contract 99) ⟨oneOfOne,0,[],[]⟩).state lastRemovedRun).storage.threshold = 0 := by
  refine ⟨rfl,?_⟩
  decide +kernel

end

end LatticeTransfer.MultiSig
