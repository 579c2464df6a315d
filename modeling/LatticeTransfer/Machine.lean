import Mathlib.Data.List.Induction
import Mathlib.Logic.Function.Basic

/-!
# Runs of machines with outputs

A deterministic machine reads inputs and emits outputs. `Meets` says that every step of
a run is taken in a state and on an input that meet a condition. `invariant_of_meets`
carries an invariant along the runs that meet it; `iff_meets` and
`forall_prefix_iff_meets` are for a property of the outputs, or of the states, that a
step keeps exactly when it meets the condition.
-/

namespace LatticeTransfer
open List

structure Machine (σ ι ο : Type*) where
  start : σ
  step : σ → ι → σ × List ο

namespace Machine
variable {σ ι ο : Type*} (M : Machine σ ι ο)

def run (inputs : List ι) : σ × List ο :=
  inputs.foldl (fun r i => ((M.step r.1 i).1,r.2++(M.step r.1 i).2)) (M.start,[])

def state (inputs : List ι) : σ := (M.run inputs).1
def outputs (inputs : List ι) : List ο := (M.run inputs).2

@[simp] theorem state_nil : M.state []=M.start := rfl
@[simp] theorem outputs_nil : M.outputs []=[] := rfl

theorem state_snoc (inputs : List ι) (i : ι) :
    M.state (inputs++[i])=(M.step (M.state inputs) i).1 := by
  rw [state,run,foldl_append]
  rfl

theorem outputs_snoc (inputs : List ι) (i : ι) :
    M.outputs (inputs++[i])=M.outputs inputs++(M.step (M.state inputs) i).2 := by
  rw [outputs,run,foldl_append]
  rfl

def Meets (C : σ → ι → Prop) (inputs : List ι) : Prop :=
  ∀ before i after, inputs=before++i::after → C (M.state before) i

theorem meets_nil (C : σ → ι → Prop) : M.Meets C [] := by
  intro before i after h
  simp at h

variable {C : σ → ι → Prop}

theorem forall_split_snoc {D : List ι → ι → Prop} {inputs : List ι} {i : ι} :
    (∀ before j after, inputs++[i]=before++j::after → D before j) ↔
      (∀ before j after, inputs=before++j::after → D before j) ∧ D inputs i := by
  constructor
  · intro h
    refine ⟨fun before j after hs => ?_,h inputs i [] rfl⟩
    exact h before j (after++[i]) (by rw [hs]; simp)
  · rintro ⟨h,hl⟩ before j after hs
    rcases eq_nil_or_concat after with rfl|⟨rest,x,rfl⟩
    · obtain ⟨rfl,hij⟩ := append_inj' hs rfl
      rw [← head_eq_of_cons_eq hij]
      exact hl
    · rw [concat_eq_append,← cons_append,← append_assoc] at hs
      exact h before j rest (append_inj' hs rfl).1

theorem meets_snoc {inputs : List ι} {i : ι} :
    M.Meets C (inputs++[i]) ↔ M.Meets C inputs ∧ C (M.state inputs) i :=
  forall_split_snoc

variable {M}

variable {P J : σ → List ο → Prop}

theorem invariant_over {Q : σ → List ο → Prop}
    (hi : ∀ inputs, J (M.state inputs) (M.outputs inputs)) (hs : Q M.start [])
    (hst : ∀ s out i, J s out → Q s out → C s i → Q (M.step s i).1 (out++(M.step s i).2))
    (inputs : List ι) (h : M.Meets C inputs) : Q (M.state inputs) (M.outputs inputs) := by
  induction inputs using reverseRecOn with
  | nil => exact hs
  | append_singleton inputs i ih =>
    obtain ⟨hp,hl⟩ := M.meets_snoc.mp h
    rw [state_snoc,outputs_snoc]
    exact hst _ _ i (hi inputs) (ih hp) hl

theorem invariant_of_meets (hs : P M.start [])
    (hst : ∀ s out i, P s out → C s i → P (M.step s i).1 (out++(M.step s i).2))
    (inputs : List ι) (h : M.Meets C inputs) : P (M.state inputs) (M.outputs inputs) :=
  invariant_over (J := fun _ _ => True) (fun _ => trivial) hs (fun s out i _ => hst s out i)
    inputs h

theorem invariant (hs : P M.start [])
    (hst : ∀ s out i, P s out → P (M.step s i).1 (out++(M.step s i).2)) (inputs : List ι) :
    P (M.state inputs) (M.outputs inputs) :=
  invariant_of_meets (C := fun _ _ => True) hs (fun s out i hp _ => hst s out i hp) inputs
    fun _ _ _ _ => trivial

theorem related_of_meets {τ ρ : Type*} {N : Machine τ ι ρ} {R : σ → τ → Prop}
    (hs : R M.start N.start) (hst : ∀ s t i, R s t → C s i → R (M.step s i).1 (N.step t i).1)
    (inputs : List ι) (h : M.Meets C inputs) : R (M.state inputs) (N.state inputs) := by
  induction inputs using reverseRecOn with
  | nil => exact hs
  | append_singleton inputs i ih =>
    obtain ⟨hp,hl⟩ := M.meets_snoc.mp h
    rw [state_snoc,state_snoc]
    exact hst _ _ i (ih hp) hl

theorem persists {P : σ → Prop} (hst : ∀ s i, P s → C s i → P (M.step s i).1) {before : List ι}
    (hP : P (M.state before)) (after : List ι)
    (h : ∀ mid i rest, after=mid++i::rest → C (M.state (before++mid)) i) :
    P (M.state (before++after)) := by
  induction after using reverseRecOn with
  | nil => rwa [append_nil]
  | append_singleton after i ih =>
    rw [← append_assoc,state_snoc]
    refine hst _ i (ih fun mid j rest hs => ?_) (h after i [] rfl)
    exact h mid j (rest++[i]) (by rw [hs]; simp)

theorem bad_of_not_meets {B : List ο → Prop} (hi : ∀ inputs, J (M.state inputs) (M.outputs inputs))
    (hb : ∀ s out i, J s out → ¬C s i → B (out++(M.step s i).2))
    (hm : ∀ out more, B out → B (out++more)) (inputs : List ι) (h : ¬M.Meets C inputs) :
    B (M.outputs inputs) := by
  induction inputs using reverseRecOn with
  | nil => exact absurd (M.meets_nil C) h
  | append_singleton inputs i ih =>
    rw [outputs_snoc]
    by_cases hp : M.Meets C inputs
    · exact hb _ _ i (hi inputs) fun hl => h (M.meets_snoc.mpr ⟨hp,hl⟩)
    · exact hm _ _ (ih hp)

/-- A property of the outputs that each step keeps exactly on a condition. -/
theorem iff_meets {P : List ο → Prop} (hi : ∀ inputs, J (M.state inputs) (M.outputs inputs))
    (hs : P []) (hst : ∀ s out i, J s out → (P (out++(M.step s i).2) ↔ P out ∧ C s i))
    (inputs : List ι) : P (M.outputs inputs) ↔ M.Meets C inputs := by
  induction inputs using reverseRecOn with
  | nil => exact iff_of_true hs (M.meets_nil C)
  | append_singleton inputs i ih =>
    rw [outputs_snoc,meets_snoc,← ih]
    exact hst _ _ i (hi inputs)

/-- Two conditions that agree wherever an invariant holds are met by the same runs. -/
theorem meets_iff_of_invariant {A B : σ → ι → Prop} {P : σ → Prop} (hs : P M.start)
    (hste : ∀ s i, P s → C s i → P (M.step s i).1) (hi : ∀ s i, P s → C s i → (A s i ↔ B s i))
    (inputs : List ι) (h : M.Meets C inputs) : M.Meets A inputs ↔ M.Meets B inputs := by
  induction inputs using reverseRecOn with
  | nil => exact iff_of_true (M.meets_nil A) (M.meets_nil B)
  | append_singleton inputs i ih =>
    obtain ⟨hp,hl⟩ := M.meets_snoc.mp h
    have hst : P (M.state inputs) :=
      invariant_of_meets hs (fun s _ i => hste s i) inputs hp
    rw [meets_snoc,meets_snoc,ih hp,hi _ _ hst hl]

/-- A property that holds in every state of a run exactly if each step meets a condition. The
invariant that carries it may say more. -/
theorem forall_prefix_iff_meets {Q : σ → List ο → Prop}
    (hi : ∀ inputs, J (M.state inputs) (M.outputs inputs)) (hs : Q M.start [])
    (hst : ∀ s out i, J s out → Q s out → C s i → Q (M.step s i).1 (out++(M.step s i).2))
    (hc : ∀ s out, Q s out → P s out)
    (hn : ∀ s out i, J s out → Q s out → P (M.step s i).1 (out++(M.step s i).2) → C s i)
    (inputs : List ι) :
    (∀ before, before <+: inputs → P (M.state before) (M.outputs before)) ↔ M.Meets C inputs := by
  constructor
  · intro h
    induction inputs using reverseRecOn with
    | nil => exact M.meets_nil C
    | append_singleton inputs i ih =>
      have hm := ih fun before hb => h before (hb.trans (prefix_append _ _))
      have hl := h _ prefix_rfl
      rw [state_snoc,outputs_snoc] at hl
      exact M.meets_snoc.mpr ⟨hm,hn _ _ i (hi inputs) (invariant_over hi hs hst inputs hm) hl⟩
  · rintro h before ⟨after,rfl⟩
    have hb : M.Meets C before := fun first i rest hsp =>
      h first i (rest++after) (by rw [hsp,append_assoc]; rfl)
    exact hc _ _ (invariant_over hi hs hst before hb)

section
variable (M)

def MeetsFrom (C : σ → ι → Prop) : σ → List ι → Prop
  | _, [] => True
  | s, i::rest => C s i ∧ MeetsFrom C (M.step s i).1 rest

theorem state_eq_foldl (inputs : List ι) :
    M.state inputs=inputs.foldl (fun s i => (M.step s i).1) M.start := by
  induction inputs using reverseRecOn with
  | nil => rfl
  | append_singleton inputs i ih => rw [state_snoc,ih,foldl_append]; rfl

theorem meetsFrom_snoc (C : σ → ι → Prop) (inputs : List ι) (i : ι) (s : σ) :
    M.MeetsFrom C s (inputs++[i]) ↔
      M.MeetsFrom C s inputs ∧ C (inputs.foldl (fun s i => (M.step s i).1) s) i := by
  induction inputs generalizing s with
  | nil => simp [MeetsFrom]
  | cons j rest ih => simp [MeetsFrom,ih,and_assoc]

theorem meetsFrom_start_iff (C : σ → ι → Prop) (inputs : List ι) :
    M.MeetsFrom C M.start inputs ↔ M.Meets C inputs := by
  induction inputs using reverseRecOn with
  | nil => exact iff_of_true trivial (M.meets_nil C)
  | append_singleton inputs i ih => rw [meetsFrom_snoc,meets_snoc,ih,state_eq_foldl]

instance decidableMeetsFrom (C : σ → ι → Prop) [∀ s i, Decidable (C s i)] :
    ∀ s inputs, Decidable (M.MeetsFrom C s inputs)
  | _, [] => inferInstanceAs (Decidable True)
  | s, i::rest =>
    haveI := decidableMeetsFrom C (M.step s i).1 rest
    inferInstanceAs (Decidable (C s i ∧ M.MeetsFrom C (M.step s i).1 rest))

instance (C : σ → ι → Prop) [∀ s i, Decidable (C s i)] (inputs : List ι) :
    Decidable (M.Meets C inputs) :=
  decidable_of_iff _ (M.meetsFrom_start_iff C inputs)

end

section
variable {κ α : Type*} [DecidableEq κ] (N : κ → Machine σ ι ο)

def interleave : Machine (κ → σ) (κ × ι) (κ × ο) where
  start v := (N v).start
  step s i := (Function.update s i.1 ((N i.1).step (s i.1) i.2).1,
    ((N i.1).step (s i.1) i.2).2.map (Prod.mk i.1))

def addressed (v : κ) (items : List (κ × α)) : List α :=
  items.filterMap fun x => if x.1=v then some x.2 else none

theorem mem_addressed {v : κ} {items : List (κ × α)} {x : α} :
    x ∈ addressed v items ↔ (v,x) ∈ items := by
  rw [addressed,mem_filterMap]
  constructor
  · rintro ⟨⟨u,y⟩,hm,hy⟩
    split_ifs at hy with hu
    · rw [← hu,← Option.some.inj hy]
      exact hm
  · intro hm
    exact ⟨(v,x),hm,if_pos rfl⟩

theorem addressed_append (v : κ) (items more : List (κ × α)) :
    addressed v (items++more)=addressed v items++addressed v more := filterMap_append

theorem addressed_map (v u : κ) (items : List α) :
    addressed v (items.map (Prod.mk u))=if u=v then items else [] := by
  induction items with
  | nil => split_ifs <;> rfl
  | cons x rest ih =>
    rw [addressed] at ih ⊢
    rw [map_cons,filterMap_cons,ih]
    split_ifs <;> rfl

section
variable (inputs : List (κ × ι)) (v : κ)

theorem interleave_run : (interleave N).state inputs v=(N v).state (addressed v inputs) ∧
      addressed v ((interleave N).outputs inputs)=(N v).outputs (addressed v inputs) := by
  induction inputs using reverseRecOn with
  | nil => exact ⟨rfl,rfl⟩
  | append_singleton inputs i ih =>
    obtain ⟨hs,ho⟩ := ih
    rw [state_snoc,outputs_snoc,addressed_append,addressed_append]
    by_cases hi : i.1=v
    · have ha : addressed v [i]=[i.2] := by simp [addressed,hi]
      rw [ha,state_snoc,outputs_snoc,← hs,← ho,← hi]
      refine ⟨Function.update_self _ _ _,?_⟩
      simp only [interleave,addressed_map,if_true]
    · have ha : addressed v [i]=[] := by simp [addressed,hi]
      rw [ha,append_nil,← hs,← ho]
      refine ⟨Function.update_of_ne (.symm hi) _ _,?_⟩
      simp only [interleave,addressed_map,hi,if_false,append_nil]

theorem state_interleave : (interleave N).state inputs v=(N v).state (addressed v inputs) :=
  (interleave_run N inputs v).1

end

theorem mem_outputs_interleave {inputs : List (κ × ι)} {v : κ} {o : ο} :
    (v,o) ∈ (interleave N).outputs inputs ↔ o ∈ (N v).outputs (addressed v inputs) := by
  rw [← (interleave_run N inputs v).2,mem_addressed]

end

end Machine
end LatticeTransfer
