import LatticeTransfer.PyValue
import Mathlib.Data.Finsupp.Weight

/-!
# Double-entry books

A book has money in buckets and counts what came in and what went out. Every posting is a deposit
into a bucket, a transfer between two buckets or a withdrawal from one, and none takes more than
the bucket holds. A sound book has no negative bucket and holds what was deposited and not
withdrawn; every sequence of postings keeps it sound.
-/

namespace LatticeTransfer

noncomputable section

@[ext] structure Book (κ M : Type*) [AddCommGroup M] where
  balance : κ →₀ M
  deposited : M
  withdrawn : M

namespace Book
open Finsupp Relation
variable {κ M : Type*} [AddCommGroup M]

def held (b : Book κ M) : M := b.balance.degree

def deposit (b : Book κ M) (k : κ) (a : M) : Book κ M :=
  ⟨b.balance+single k a,b.deposited+a,b.withdrawn⟩

def transfer (b : Book κ M) (source target : κ) (a : M) : Book κ M :=
  {b with balance := b.balance-single source a+single target a}

def withdraw (b : Book κ M) (k : κ) (a : M) : Book κ M :=
  ⟨b.balance-single k a,b.deposited,b.withdrawn+a⟩

section
variable (b : Book κ M)

@[simp] theorem held_deposit (k : κ) (a : M) : (b.deposit k a).held=b.held+a := by
  simp [held,deposit]

@[simp] theorem held_transfer (source target : κ) (a : M) :
    (b.transfer source target a).held=b.held := by simp [held,transfer]

@[simp] theorem held_withdraw (k : κ) (a : M) : (b.withdraw k a).held=b.held-a := by
  simp [held,withdraw]

theorem balance_transfer_source {source target : κ} (h : source≠target) (a : M) :
    (b.transfer source target a).balance source=b.balance source-a := by
  simp [transfer,single_eq_of_ne h]

end

section
variable [PartialOrder M] [IsOrderedAddMonoid M]

inductive Posts : Book κ M → Book κ M → Prop
  | deposit (b : Book κ M) (k : κ) {a : M} (h : 0≤a) : Posts b (b.deposit k a)
  | transfer (b : Book κ M) {source : κ} (target : κ) {a : M} (h : 0≤a)
      (hheld : a≤b.balance source) : Posts b (b.transfer source target a)
  | withdraw (b : Book κ M) {k : κ} {a : M} (h : 0≤a) (hheld : a≤b.balance k) :
      Posts b (b.withdraw k a)

structure Sound (b : Book κ M) : Prop where
  nonneg : ∀ k, 0≤b.balance k
  conserved : b.held=b.deposited-b.withdrawn

theorem sub_single_nonneg {bal : κ →₀ M} (h : ∀ k, 0≤bal k) {k : κ} {a : M}
    (hh : a≤bal k) (k' : κ) : 0≤(bal-single k a) k' := by
  classical
  rw [Finsupp.sub_apply,single_apply,sub_nonneg]
  split_ifs with hk
  · exact hk ▸ hh
  · exact h k'

theorem Sound.posts {b b' : Book κ M} (h : b.Sound) (hp : Posts b b') : b'.Sound := by
  cases hp with
  | deposit k ha =>
    refine ⟨fun k' => add_nonneg (h.nonneg k') (Finsupp.single_nonneg.mpr ha k'),?_⟩
    rw [held_deposit,h.conserved]
    exact sub_add_eq_add_sub _ _ _
  | transfer target ha hh =>
    refine ⟨fun k' => add_nonneg (sub_single_nonneg h.nonneg hh k')
      (Finsupp.single_nonneg.mpr ha k'),?_⟩
    rw [held_transfer,h.conserved]
    rfl
  | withdraw ha hh =>
    refine ⟨sub_single_nonneg h.nonneg hh,?_⟩
    rw [held_withdraw,h.conserved]
    exact sub_sub _ _ _

theorem Sound.run {b b' : Book κ M} (h : b.Sound) (hp : ReflTransGen Posts b b') : b'.Sound := by
  induction hp with
  | refl => exact h
  | tail _ hl ih => exact ih.posts hl

theorem posts_shares (b : Book κ M) {source x y : κ} (z : κ) {a1 a2 a3 : M} (hx : source≠x)
    (hy : source≠y) (h1 : 0≤a1) (h2 : 0≤a2) (h3 : 0≤a3)
    (hh : a1+a2+a3≤b.balance source) : ReflTransGen Posts b
      (((b.transfer source x a1).transfer source y a2).transfer source z a3) := by
  have hp : a1+a2≤b.balance source := (le_add_of_nonneg_right h3).trans hh
  have hf : a1≤b.balance source := (le_add_of_nonneg_right h2).trans hp
  have hs : a2≤(b.transfer source x a1).balance source := by
    rw [balance_transfer_source b hx]
    exact le_sub_iff_add_le'.mpr hp
  have ht : a3≤((b.transfer source x a1).transfer source y a2).balance source := by
    rw [balance_transfer_source _ hy,balance_transfer_source b hx,sub_sub]
    exact le_sub_iff_add_le'.mpr hh
  exact ((ReflTransGen.single (.transfer b x h1 hf)).tail (.transfer _ y h2 hs)).tail
    (.transfer _ z h3 ht)

end
end Book

namespace Dict
open Finsupp
variable {κ α M : Type*} [DecidableEq κ] [AddCommGroup M]

def toFinsupp (f : α → M) (d : Dict κ α) : κ →₀ M :=
  (d.entries.map fun e => single e.1 (f e.2)).sum

def valueAt (f : α → M) (d : Dict κ α) (key : κ) : M := ((d.get? key).map f).getD 0

theorem toFinsupp_apply (f : α → M) (d : Dict κ α) (key : κ) :
    d.toFinsupp f key=d.valueAt f key := by
  obtain ⟨es,hn⟩ := d
  simp only [toFinsupp,valueAt,get?]
  induction es with
  | nil => rfl
  | cons e rest ih =>
    obtain ⟨hf,hr⟩ := List.nodup_cons.mp hn
    rw [List.map_cons,List.sum_cons,Finsupp.add_apply,ih hr,lookup,single_apply]
    split_ifs with hk
    · have hno : lookup key rest=none := by
        cases hl : lookup key rest with
        | none => rfl
        | some value =>
          have hm := (get?_eq_some_iff ⟨rest,hr⟩ key value).mp hl
          exact absurd (List.mem_map.mpr ⟨_,hm,hk.symm⟩) hf
      simp [hno]
    · exact zero_add _

omit [DecidableEq κ] in
theorem degree_toFinsupp (f : α → M) (d : Dict κ α) :
    (d.toFinsupp f).degree=(d.values.map f).sum := by
  rw [toFinsupp,map_list_sum,values]
  simp [Function.comp_def]

variable (f : α → M) (d : Dict κ α) (key : κ)

theorem toFinsupp_set (value : α) :
    (d.set key value).toFinsupp f=d.toFinsupp f+single key (f value-d.valueAt f key) := by
  ext other
  rw [Finsupp.add_apply,toFinsupp_apply,toFinsupp_apply,single_apply,valueAt,get?_set]
  split_ifs with hk
  · rw [← hk]
    exact (add_sub_cancel _ _).symm
  · exact (add_zero _).symm

theorem toFinsupp_erase : (d.erase key).toFinsupp f=d.toFinsupp f-single key (d.valueAt f key) := by
  ext other
  rw [Finsupp.sub_apply,toFinsupp_apply,toFinsupp_apply,single_apply,valueAt,get?_erase]
  split_ifs with hk
  · rw [← hk]
    exact (sub_self _).symm
  · exact (sub_zero _).symm

end Dict

end

end LatticeTransfer
