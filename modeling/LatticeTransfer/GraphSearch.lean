import Mathlib.Algebra.Order.BigOperators.Group.Finset

/-!
# Breadth-first search over a partial store

The loop takes a key from the front of a queue, drops it when it was visited or is
to be skipped, and otherwise looks it up and queues its successors. Keys without a
value are visited but lead nowhere. `Reaches` is the reachability relation the
loop computes, and `run_spec` says that it does so within a number of steps that
the stored successors bound.
-/

namespace LatticeTransfer.GraphSearch
open List

variable {κ ν : Type*} [DecidableEq κ]

/-- The loop state; `visited` lists the visited keys in the order of their first visit. -/
structure Search (κ ν : Type*) where
  queue : List κ
  visited : List κ
  result : List ν

section
variable (get : κ → Option ν) (next : ν → List κ) (skip : Finset κ)

def step (s : Search κ ν) : Search κ ν :=
  match s.queue with
  | [] => s
  | key::rest =>
    if key ∈ s.visited ∨ key ∈ skip then {s with queue := rest}
    else
      match get key with
      | none => ⟨rest,s.visited++[key],s.result⟩
      | some value =>
        ⟨rest++(next value).filter fun k => k ∉ s.visited++[key] ∧ k ∉ skip,
          s.visited++[key],s.result++[value]⟩

def run : ℕ → Search κ ν → Search κ ν
  | 0, s => s
  | fuel+1, s => if s.queue.isEmpty then s else run fuel (step get next skip s)

inductive Reaches (edge : ν → κ → Prop) (start : κ) : κ → Prop
  | start : start ∉ skip → Reaches edge start start
  | step {key k : κ} {value : ν} : Reaches edge start key → get key=some value →
      edge value k → k ∉ skip → Reaches edge start k

def weight (key : κ) : ℕ := ((get key).map fun value => (next value).length).getD 0

def measure (keys : Finset κ) (s : Search κ ν) : ℕ :=
  s.queue.length+∑ key ∈ keys.filter (· ∉ s.visited), weight get next key

end

variable {get : κ → Option ν} {next : ν → List κ} {skip : Finset κ} {start : κ} {keys : Finset κ}
  {s : Search κ ν}

section
variable (hk : ∀ key value, get key=some value → key ∈ keys)
include hk

theorem measure_step (hne : s.queue≠[]) :
    measure get next keys (step get next skip s) < measure get next keys s := by
  obtain ⟨queue,visited,result⟩ := s
  cases queue with
  | nil => exact absurd rfl hne
  | cons key rest =>
    have hf : keys.filter (· ∉ visited++[key])=(keys.filter (· ∉ visited)).erase key := by
      ext k
      simp only [mem_append,mem_singleton,Finset.mem_filter,Finset.mem_erase]
      tauto
    have hle : ∑ k ∈ keys.filter (· ∉ visited++[key]), weight get next k ≤
        ∑ k ∈ keys.filter (· ∉ visited), weight get next k := by
      rw [hf]
      exact Finset.sum_le_sum_of_subset (Finset.erase_subset _ _)
    simp only [step]
    split_ifs with hs
    · simp only [measure,length_cons]
      omega
    · cases hg : get key with
      | none =>
        simp only [measure,length_cons]
        omega
      | some value =>
        have hm : key ∈ keys.filter (· ∉ visited) :=
          Finset.mem_filter.mpr ⟨hk key value hg,fun h => hs (.inl h)⟩
        have hsu := Finset.add_sum_erase _ (weight get next) hm
        have hw : weight get next key=(next value).length := by simp [weight,hg]
        have hn := length_filter_le
          (fun k => decide (k ∉ visited++[key] ∧ k ∉ skip)) (next value)
        simp only [measure,length_cons,length_append,hf]
        omega

theorem run_queue_nil (fuel : ℕ) (s : Search κ ν) (hf : measure get next keys s≤fuel) :
    (run get next skip fuel s).queue=[] := by
  induction fuel generalizing s with
  | zero =>
    have hz : s.queue.length=0 := by
      have h := Nat.le_zero.mp hf
      rw [measure] at h
      omega
    exact length_eq_zero_iff.mp hz
  | succ fuel ih =>
    rw [run]
    split_ifs with hn
    · exact isEmpty_iff.mp hn
    · have hlt : measure get next keys (step get next skip s) < measure get next keys s :=
        measure_step hk fun h => hn (isEmpty_iff.mpr h)
      exact ih _ (by omega)

end

structure Valid (get : κ → Option ν) (next : ν → List κ) (skip : Finset κ) (start : κ)
    (s : Search κ ν) : Prop where
  nodup : s.visited.Nodup
  result : s.result=s.visited.filterMap get
  visited : ∀ key ∈ s.visited, Reaches get skip (fun value k => k ∈ next value) start key
  queued : ∀ key ∈ s.queue, key ∈ skip ∨ Reaches get skip (fun value k => k ∈ next value) start key
  start : start ∉ skip → start ∈ s.visited ∨ start ∈ s.queue
  closed : ∀ key ∈ s.visited, ∀ value, get key=some value → ∀ k ∈ next value, k ∉ skip →
    k ∈ s.visited ∨ k ∈ s.queue

theorem Valid.init : Valid get next skip start ⟨[start],[],[]⟩ where
  nodup := nodup_nil
  result := rfl
  visited := fun _ h => absurd h not_mem_nil
  queued := by
    intro key hk
    rw [mem_singleton.mp hk]
    by_cases hs : start ∈ skip
    · exact .inl hs
    · exact .inr (.start hs)
  start := fun _ => .inr (mem_singleton_self start)
  closed := fun _ h => absurd h not_mem_nil

section
omit [DecidableEq κ]
variable {key : κ} {rest seen : List κ} {result : List ν}

variable (hv : Valid get next skip start ⟨key::rest,seen,result⟩)
include hv

theorem Valid.drop (hd : key ∈ seen ∨ key ∈ skip) :
    Valid get next skip start ⟨rest,seen,result⟩ := by
  have hke : ∀ k, k ∉ skip → k ∈ seen ∨ k ∈ key::rest → k ∈ seen ∨ k ∈ rest := by
    intro k hk hm
    rcases hm with hm|hm
    · exact .inl hm
    · rcases mem_cons.mp hm with rfl|hm
      · exact .inl (hd.resolve_right hk)
      · exact .inr hm
  exact ⟨hv.nodup,hv.result,hv.visited,fun k hk => hv.queued k (mem_cons_of_mem _ hk),
    fun h => hke start h (hv.start h),
    fun x hx value hg k hk hs => hke k hs (hv.closed x hx value hg k hk hs)⟩

theorem Valid.nodup_visit (hn : key ∉ seen) : (seen++[key]).Nodup := by
  rw [nodup_append]
  refine ⟨hv.nodup,nodup_singleton key,?_⟩
  rintro a ha b hb rfl
  rw [mem_singleton.mp hb] at ha
  exact hn ha

theorem Valid.visit (hn : key ∉ seen) (hs : key ∉ skip) {more : List κ} {found : List ν}
    (hf : found=result++[key].filterMap get)
    (hm : ∀ k ∈ more, ∃ value, get key=some value ∧ k ∈ next value ∧ k ∉ skip)
    (ha : ∀ value, get key=some value → ∀ k ∈ next value, k ∉ skip → k ∈ seen++[key] ∨ k ∈ more) :
    Valid get next skip start ⟨rest++more,seen++[key],found⟩ := by
  have hr : Reaches get skip (fun value k => k ∈ next value) start key :=
    (hv.queued key mem_cons_self).resolve_left hs
  have hmo : ∀ k, k ∈ seen ∨ k ∈ key::rest →
      k ∈ seen++[key] ∨ k ∈ rest++more := by
    intro k hk
    simp only [mem_append,mem_cons] at hk ⊢
    tauto
  refine ⟨hv.nodup_visit hn,?_,?_,?_,fun h => hmo start (hv.start h),?_⟩
  · rw [hf,filterMap_append,← hv.result]
  · intro k hk
    rcases mem_append.mp hk with hk|hk
    · exact hv.visited k hk
    · rw [mem_singleton.mp hk]
      exact hr
  · intro k hk
    rcases mem_append.mp hk with hk|hk
    · exact hv.queued k (mem_cons_of_mem _ hk)
    · obtain ⟨value,hg,he,hk⟩ := hm k hk
      exact .inr (hr.step hg he hk)
  · intro x hx value hg k hk hks
    rcases mem_append.mp hx with hx|hx
    · exact hmo k (hv.closed x hx value hg k hk hks)
    · rw [mem_singleton.mp hx] at hg
      exact (ha value hg k hk hks).imp_right (mem_append_right rest)

end

theorem Valid.step (hv : Valid get next skip start s) :
    Valid get next skip start (step get next skip s) := by
  obtain ⟨queue,visited,result⟩ := s
  cases queue with
  | nil => exact hv
  | cons key rest =>
    simp only [step]
    split_ifs with hd
    · exact hv.drop hd
    · rw [not_or] at hd
      cases hg : get key with
      | none =>
        have hvi : Valid get next skip start ⟨rest++[],visited++[key],result⟩ :=
          hv.visit hd.1 hd.2 (by simp [hg]) (by simp) (by simp [hg])
        rwa [append_nil] at hvi
      | some value =>
        refine hv.visit hd.1 hd.2 (by simp [hg]) ?_ ?_
        · intro k hk
          obtain ⟨hk,hn⟩ := mem_filter.mp hk
          exact ⟨value,hg,hk,(of_decide_eq_true hn).2⟩
        · intro v hva k hk hs
          cases hg.symm.trans hva
          by_cases hk' : k ∈ visited++[key]
          · exact .inl hk'
          · exact .inr (mem_filter.mpr ⟨hk,decide_eq_true ⟨hk',hs⟩⟩)

theorem Valid.run (hv : Valid get next skip start s) (fuel : ℕ) :
    Valid get next skip start (run get next skip fuel s) := by
  induction fuel generalizing s with
  | zero => exact hv
  | succ fuel ih =>
    rw [run]
    split_ifs
    · exact hv
    · exact ih hv.step

theorem run_spec (hke : ∀ key value, get key=some value → key ∈ keys) {fuel : ℕ}
    (hf : 1+∑ key ∈ keys, weight get next key≤fuel) :
    let s := run get next skip fuel ⟨[start],[],[]⟩
    s.queue=[] ∧ s.visited.Nodup ∧ s.result=s.visited.filterMap get ∧
      ∀ key, key ∈ s.visited ↔ Reaches get skip (fun value k => k ∈ next value) start key := by
  intro s
  have hv : Valid get next skip start s := Valid.init.run fuel
  have hn : s.queue=[] := run_queue_nil hke fuel _ (by simpa [measure] using hf)
  refine ⟨hn,hv.nodup,hv.result,fun key => ⟨hv.visited key,fun hr => ?_⟩⟩
  induction hr with
  | start hs =>
    have h := hv.start hs
    rw [hn] at h
    exact h.resolve_right not_mem_nil
  | step _ hg hk hs ih =>
    have h := hv.closed _ ih _ hg _ hk hs
    rw [hn] at h
    exact h.resolve_right not_mem_nil

omit [DecidableEq κ] in
/-- Where everything reached is stored, another store reaches no more, as long as the two
agree on the keys they both have. -/
theorem Reaches.of_complete {get' : κ → Option ν} {edge : ν → κ → Prop}
    (hc : ∀ key, Reaches get' skip edge start key → ∃ value, get' key=some value)
    (ha : ∀ key x y, get key=some x → get' key=some y → x=y) {key : κ}
    (hr : Reaches get skip edge start key) : Reaches get' skip edge start key := by
  induction hr with
  | start hs => exact .start hs
  | step _ hg hk hs ih =>
    obtain ⟨y,hy⟩ := hc _ ih
    obtain rfl := ha _ _ _ hg hy
    exact ih.step hy hk hs

end LatticeTransfer.GraphSearch
