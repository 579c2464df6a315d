import Mathlib.Data.Nat.Log
import Mathlib.Tactic.Ring

/-!
# Left-complete trees over lists

A list of more than one element is split at the largest power of two below its
length, and each half is split again. `split_induction` is the induction rule of
that recursion, `subtreeAt` follows left/right decisions from the root to the part
of the list below them, and `leafAt` does the same on positions alone.
-/

namespace LatticeTransfer.SplitTree
open List

def doubleWhile (n : ℕ) : ℕ → ℕ → ℕ
  | 0, k => k
  | fuel+1, k => if k*2<n then doubleWhile n fuel (k*2) else k

def largestPow2Below (n : ℕ) : ℕ := doubleWhile n n 1

theorem doubleWhile_spec (n fuel k : ℕ) (hk : ∃ e, k=2^e) (hlt : k<n)
    (hf : n≤2^(fuel+1)*k) : (∃ e, doubleWhile n fuel k=2^e) ∧ doubleWhile n fuel k<n ∧
      n≤2*doubleWhile n fuel k := by
  induction fuel generalizing k with
  | zero => exact ⟨hk,hlt,by simpa [doubleWhile] using hf⟩
  | succ fuel ih =>
    simp only [doubleWhile]
    split_ifs with h
    · obtain ⟨e,rfl⟩ := hk
      refine ih (2^e*2) ⟨e+1,(pow_succ 2 e).symm⟩ h ?_
      calc n≤2^(fuel+1+1)*2^e := hf
        _ = 2^(fuel+1)*(2^e*2) := by ring
    · exact ⟨hk,hlt,by omega⟩

variable {n : ℕ}

theorem largestPow2Below_spec (hn : 1<n) :
    (∃ e, largestPow2Below n=2^e) ∧ largestPow2Below n<n ∧ n≤2*largestPow2Below n := by
  refine doubleWhile_spec n n 1 ⟨0,rfl⟩ hn ?_
  have h : n<2^n := Nat.lt_two_pow_self
  omega

theorem split_lt (hn : 1<n) : largestPow2Below n<n := (largestPow2Below_spec hn).2.1

theorem split_pos (hn : 1<n) : 0<largestPow2Below n := by
  have h := (largestPow2Below_spec hn).2.2
  omega

theorem sub_split_lt (hn : 1<n) : n-largestPow2Below n<n :=
  Nat.sub_lt (Nat.zero_lt_of_lt hn) (split_pos hn)

theorem largestPow2Below_unique {e : ℕ} (hlo : 2^e<n) (hhi : n≤2*2^e) : largestPow2Below n=2^e := by
  have hn : 1<n := lt_of_le_of_lt Nat.one_le_two_pow hlo
  obtain ⟨⟨a,ha⟩,hlt,hle⟩ := largestPow2Below_spec hn
  rw [ha] at hlt hle ⊢
  rw [← pow_succ'] at hhi hle
  have h1 : a<e+1 := (Nat.pow_lt_pow_iff_right (by omega)).mp (lt_of_lt_of_le hlt hhi)
  have h2 : e<a+1 := (Nat.pow_lt_pow_iff_right (by omega)).mp (lt_of_lt_of_le hlo hle)
  rw [show a=e by omega]

variable {m : ℕ}

theorem split_stable (hm : largestPow2Below n < m) (hmn : m≤n) :
    largestPow2Below m=largestPow2Below n := by
  by_cases hn : 1<n
  · obtain ⟨⟨e,he⟩,_,hle⟩ := largestPow2Below_spec hn
    rw [he] at hm hle ⊢
    exact largestPow2Below_unique hm (hmn.trans hle)
  · have hs : ∀ n≤1, largestPow2Below n=1 := by decide
    rw [hs n (by omega)] at hm
    omega

variable {α : Type*}

variable {l : List α}

theorem exists_eq_singleton (hne : l≠[]) (h : ¬1<l.length) : ∃ a, l=[a] := by
  have hp := length_pos_iff.mpr hne
  exact length_eq_one_iff.mp (by omega)

theorem length_take_split (h : 1<l.length) :
    (l.take (largestPow2Below l.length)).length=largestPow2Below l.length := by
  have hlt := split_lt h
  rw [length_take]
  omega

theorem length_drop_split (l : List α) : (l.drop (largestPow2Below l.length)).length =
    l.length-largestPow2Below l.length := length_drop

theorem length_take_split_lt (h : 1<l.length) :
    (l.take (largestPow2Below l.length)).length<l.length := by
  rw [length_take_split h]
  exact split_lt h

theorem length_drop_split_lt (h : 1<l.length) :
    (l.drop (largestPow2Below l.length)).length<l.length := by
  rw [length_drop_split]
  exact sub_split_lt h

def subtreeAt (l : List α) : List Bool → Option (List α)
  | [] => some l
  | b::bs =>
    if 1<l.length then
      if b then subtreeAt (l.take (largestPow2Below l.length)) bs
      else subtreeAt (l.drop (largestPow2Below l.length)) bs
    else none

def leafAt (n : ℕ) : List Bool → Option ℕ
  | [] => if n=1 then some 0 else none
  | b::bs =>
    if 1<n then
      if b then leafAt (largestPow2Below n) bs
      else (leafAt (n-largestPow2Below n) bs).map (· + largestPow2Below n)
    else none

theorem take_split_ne_nil (h : 1<l.length) : l.take (largestPow2Below l.length)≠[] :=
  ne_nil_of_length_pos (by rw [length_take_split h]; exact split_pos h)

theorem drop_split_ne_nil (h : 1<l.length) : l.drop (largestPow2Below l.length)≠[] :=
  ne_nil_of_length_pos (by rw [length_drop_split]; have hlt := split_lt h; omega)

theorem split_induction {P : (l : List α) → l≠[] → Prop} (single : ∀ a, P [a] (cons_ne_nil a []))
    (node : ∀ (l : List α) (h : 1<l.length), P _ (take_split_ne_nil h) →
      P _ (drop_split_ne_nil h) → P l (ne_nil_of_length_pos (Nat.zero_lt_of_lt h)))
    (l : List α) (hl : l≠[]) : P l hl := by
  generalize hn : l.length=n
  induction n using Nat.strongRecOn generalizing l with
  | ind n ih =>
    subst hn
    by_cases h : 1<l.length
    · have hlt := split_lt h
      have hp := split_pos h
      have ht := length_take_split h
      have hd := length_drop_split l
      exact node l h (ih _ (by omega) _ _ rfl) (ih _ (by omega) _ _ rfl)
    · obtain ⟨a,rfl⟩ := exists_eq_singleton hl h
      exact single a

theorem take_split_prefix (hm : largestPow2Below l.length < m) (hle : m≤l.length) :
    (l.take m).take (largestPow2Below (l.take m).length)=l.take (largestPow2Below l.length) ∧
      (l.take m).drop (largestPow2Below (l.take m).length) =
        (l.drop (largestPow2Below l.length)).take (m-largestPow2Below l.length) := by
  rw [length_take_of_le hle,split_stable hm hle,take_take,drop_take,
    Nat.min_eq_left (Nat.le_of_lt hm)]
  exact ⟨rfl,rfl⟩

theorem leafAt_lt {j : ℕ} {bs : List Bool} (h : leafAt n bs=some j) : j<n := by
  induction bs generalizing n j with
  | nil =>
    simp only [leafAt] at h
    split_ifs at h with hn
    cases h
    omega
  | cons b bs ih =>
    simp only [leafAt] at h
    split_ifs at h with hn hb
    · exact (ih h).trans (split_lt hn)
    · obtain ⟨i,hi,rfl⟩ := Option.map_eq_some_iff.mp h
      have hlt := ih hi
      omega

theorem subtreeAt_eq_singleton_iff (l : List α) (bs : List Bool) (a : α) :
    subtreeAt l bs=some [a] ↔ ∃ j, leafAt l.length bs=some j ∧ l[j]?=some a := by
  induction bs generalizing l with
  | nil =>
    simp only [subtreeAt,leafAt,Option.some.injEq]
    constructor
    · rintro rfl
      exact ⟨0,rfl,rfl⟩
    · rintro ⟨j,hj,hg⟩
      split_ifs at hj with ho
      · obtain ⟨b,rfl⟩ := length_eq_one_iff.mp ho
        cases hj
        simpa using hg
  | cons b bs ih =>
    by_cases h : 1<l.length
    · cases b with
      | true =>
        simp only [subtreeAt,leafAt,h,↓reduceIte,ih,length_take_split h]
        refine exists_congr fun j => and_congr_right fun hj => ?_
        rw [getElem?_take_of_lt (leafAt_lt hj)]
      | false =>
        simp only [subtreeAt,leafAt,h,↓reduceIte,ih,length_drop_split,Bool.false_eq_true]
        constructor
        · rintro ⟨j,hj,hg⟩
          refine ⟨j+largestPow2Below l.length,by rw [hj]; rfl,?_⟩
          rwa [getElem?_drop,Nat.add_comm] at hg
        · rintro ⟨j,hj,hg⟩
          obtain ⟨i,hi,rfl⟩ := Option.map_eq_some_iff.mp hj
          refine ⟨i,hi,?_⟩
          rwa [getElem?_drop,Nat.add_comm]
    · simp [subtreeAt,leafAt,h]

/-- The subtrees that rebuild a list and its prefix of length `m`, leaves first. With
`start` the prefix is known, and is left out where it is a whole subtree. -/
def parts (m : ℕ) (l : List α) (start : Bool) : List (List α) :=
  if m=l.length then
    if start then [] else [l]
  else if 1<l.length then
    let k := largestPow2Below l.length
    if m≤k then parts m (l.take k) start++[l.drop k]
    else parts (m-k) (l.drop k) false++[l.take k]
  else []
termination_by l.length
decreasing_by exacts [length_take_split_lt ‹_›,length_drop_split_lt ‹_›]

section
variable {start : Bool} (heq : m≠l.length) (hlen : 1<l.length)
include heq hlen

theorem parts_left (hk : m≤largestPow2Below l.length) :
    parts m l start=parts m (l.take (largestPow2Below l.length)) start ++
      [l.drop (largestPow2Below l.length)] := by
  rw [parts,if_neg heq,if_pos hlen]
  rw [if_pos hk]

theorem parts_right (hk : largestPow2Below l.length < m) :
    parts m l start=parts (m-largestPow2Below l.length)
      (l.drop (largestPow2Below l.length)) false++[l.take (largestPow2Below l.length)] := by
  rw [parts,if_neg heq,if_pos hlen]
  rw [if_neg (by omega)]

end

theorem parts_induction {P : ℕ → List α → Bool → Prop}
    (whole : ∀ l start, l≠[] → P l.length l start)
    (left : ∀ m (l : List α) start, 1<l.length → 1 ≤ m → m≤largestPow2Below l.length →
      P m (l.take (largestPow2Below l.length)) start → P m l start)
    (right : ∀ m (l : List α) start, 1<l.length → largestPow2Below l.length < m → m<l.length →
      P (m-largestPow2Below l.length) (l.drop (largestPow2Below l.length)) false → P m l start)
    (m : ℕ) (l : List α) (start : Bool) (hm : 1 ≤ m) (hle : m≤l.length) : P m l start := by
  generalize hn : l.length=n
  induction n using Nat.strongRecOn generalizing m l start with
  | ind n ih =>
    subst hn
    by_cases heq : m=l.length
    · rw [heq]
      exact whole l start (ne_nil_of_length_pos (by omega))
    · have hlen : 1<l.length := by omega
      have hlt := split_lt hlen
      have hp := split_pos hlen
      have ht := length_take_split hlen
      have hd := length_drop_split l
      by_cases hk : m≤largestPow2Below l.length
      · exact left m l start hlen hm hk (ih _ hlt m _ start hm (by omega) ht)
      · exact right m l start hlen (by omega) (by omega)
          (ih _ (by omega) _ _ false (by omega) (by omega) hd)

theorem parts_whole (l : List α) (start : Bool) :
    parts l.length l start=if start then [] else [l] := by rw [parts,if_pos rfl]

def coverage (ls : List (List α)) : ℕ := (ls.map length).sum

theorem coverage_append_singleton (ls : List (List α)) (l : List α) :
    coverage (ls++[l])=coverage ls+l.length := by simp [coverage]

theorem coverage_parts_false (m : ℕ) (l : List α) (hm : 1 ≤ m) (hle : m≤l.length) :
    coverage (parts m l false)=l.length := by
  refine parts_induction (P := fun m l start => start=false →
    coverage (parts m l start)=l.length) ?_ ?_ ?_ m l false hm hle rfl
  · rintro l start-rfl
    simp [parts_whole,coverage]
  · intro m l start hlen hm hk ih hs
    have hlt := split_lt hlen
    rw [parts_left (by omega) hlen hk,coverage_append_singleton,ih hs,
      length_take_split hlen,length_drop_split]
    omega
  · intro m l start hlen hk hm ih hs
    rw [parts_right (by omega) hlen hk,coverage_append_singleton,ih rfl,
      length_take_split hlen,length_drop_split]
    omega

theorem coverage_parts_true (hm : 1 ≤ m) (hlt : m<l.length) :
    coverage (parts m l true)+m=l.length ∧ (∃ e, m=2^e) ∨
      coverage (parts m l true)=l.length ∧ ¬ ∃ e, m=2^e := by
  generalize hn : l.length=n
  induction n using Nat.strongRecOn generalizing l with
  | ind n ih =>
    subst hn
    have hlen : 1<l.length := by omega
    have ht := length_take_split hlen
    have hd := length_drop_split l
    obtain ⟨⟨e,he⟩,hs,hh⟩ := largestPow2Below_spec hlen
    by_cases hk : m≤largestPow2Below l.length
    · rw [parts_left (by omega) hlen hk,coverage_append_singleton]
      rcases Nat.eq_or_lt_of_le hk with heq|hl
      · left
        have hw := parts_whole (l.take (largestPow2Below l.length)) true
        rw [ht,← heq] at hw
        rw [← heq,hw]
        exact ⟨by simp [coverage]; omega,e,heq.trans he⟩
      · rcases ih _ hs (by omega) ht with ⟨hc,hp⟩|⟨hc,hp⟩
        · exact .inl ⟨by omega,hp⟩
        · exact .inr ⟨by omega,hp⟩
    · right
      rw [parts_right (by omega) hlen (by omega),coverage_append_singleton,
        coverage_parts_false _ _ (by omega) (by omega)]
      refine ⟨by omega,?_⟩
      -- a power of two above the split point is at least twice the split point
      rintro ⟨a,rfl⟩
      rw [he] at hk hh
      have hlo : e<a := (Nat.pow_lt_pow_iff_right (by omega)).mp (not_le.mp hk)
      have hhi : 2*2^e≤2^a := by
        rw [← pow_succ']
        exact Nat.pow_le_pow_right (by omega) hlo
      omega

theorem length_eq_of_parts_eq {l' : List α} (hm : 1 ≤ m) (hle : m≤l.length) (hle' : m≤l'.length)
    (h : parts m l true=parts m l' true) : l.length=l'.length := by
  have hn : ∀ l : List α, m<l.length → parts m l true≠[] := by
    intro l hlt hn
    have hlen : 1<l.length := by omega
    by_cases hk : m≤largestPow2Below l.length
    · rw [parts_left (by omega) hlen hk] at hn
      exact append_ne_nil_of_right_ne_nil _ (cons_ne_nil _ _) hn
    · rw [parts_right (by omega) hlen (by omega)] at hn
      exact append_ne_nil_of_right_ne_nil _ (cons_ne_nil _ _) hn
  have hw : ∀ l : List α, m=l.length → parts m l true=[] := by
    rintro l rfl
    exact parts_whole l true
  rcases Nat.eq_or_lt_of_le hle with heq | hlt <;> rcases Nat.eq_or_lt_of_le hle' with heq'|hlt'
  · exact heq.symm.trans heq'
  · exact absurd (h.symm.trans (hw l heq)) (hn l' hlt')
  · exact absurd (h.trans (hw l' heq')) (hn l hlt)
  · rcases coverage_parts_true hm hlt with ⟨hc,hp⟩|⟨hc,hp⟩ <;>
      rcases coverage_parts_true hm hlt' with ⟨hc',hp'⟩|⟨hc',hp'⟩
    · rw [← hc,← hc',h]
    · exact absurd hp hp'
    · exact absurd hp' hp
    · rw [← hc,← hc',h]

end LatticeTransfer.SplitTree
