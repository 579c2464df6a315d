import LatticeTransfer.Method

/-!
# Records that move along listed transitions

A dictionary of records, each with a status, where a change of status is only made along a
listed pair. A change that is not listed, or of a record that does not exist, raises and leaves
the dictionary as it was.
-/

namespace LatticeTransfer

/-- How the records of a dictionary carry their status, and the error of a pair that is not
listed. -/
structure Lifecycle (κ α σ : Type) where
  status : α → σ
  withStatus : α → σ → α
  valid : List (σ × σ)
  invalid : κ → σ → σ → PyError

namespace Lifecycle
variable {κ α σ : Type} [DecidableEq κ] [DecidableEq σ] (L : Lifecycle κ α σ)

def transition (key : κ) (target : σ) : Method (Dict κ α) α := do
  match (← get).get? key with
  | none => throw .keyError
  | some record =>
    if (L.status record,target) ∉ L.valid then throw (L.invalid key (L.status record) target)
    else do
      modify (·.set key (L.withStatus record target))
      return L.withStatus record target

def move (key : κ) (target : σ) (change : α → α) : Method (Dict κ α) α := do
  let record ← L.transition key target
  modify (·.set key (change record))
  return change record

theorem transition_exec (key : κ) (target : σ) (d : Dict κ α) :
    (∃ e, (L.transition key target).exec d=(.error e,d)) ∨
      ∃ record, d.get? key=some record ∧ (L.status record,target) ∈ L.valid ∧
        (L.transition key target).exec d =
          (.ok (L.withStatus record target),d.set key (L.withStatus record target)) := by
  rw [transition,Method.exec_bind,Method.exec_get]
  dsimp only
  split
  next => exact .inl ⟨_,rfl⟩
  next record hr =>
    split_ifs with hv
    · exact .inr ⟨record,hr,hv,rfl⟩
    · exact .inl ⟨_,rfl⟩

def Writes (key : κ) (record : α) (d d' : Dict κ α) : Prop :=
  ∀ other, d'.get? other=if key=other then some record else d.get? other

theorem writes_set (key : κ) (record : α) (d : Dict κ α) : Writes key record d (d.set key record) :=
  fun other => d.get?_set key other record

theorem Writes.set {key : κ} {first record : α} {d d' : Dict κ α} (h : Writes key first d d') :
    Writes key record d (d'.set key record) := by
  intro other
  rw [writes_set key record d' other,h other]
  split_ifs <;> rfl

theorem move_exec (key : κ) (target : σ) (change : α → α) (d : Dict κ α) :
    (∃ e, (L.move key target change).exec d=(.error e,d)) ∨
      ∃ record, d.get? key=some record ∧ (L.status record,target) ∈ L.valid ∧
        ((L.move key target change).exec d).1=.ok (change (L.withStatus record target)) ∧
        Writes key (change (L.withStatus record target)) d
          ((L.move key target change).exec d).2 := by
  rw [move,Method.exec_bind]
  rcases L.transition_exec key target d with ⟨e,he⟩|⟨record,hr,hv,hok⟩
  · rw [he]
    exact .inl ⟨e,rfl⟩
  · rw [hok]
    exact .inr ⟨record,hr,hv,rfl,(writes_set _ _ _).set⟩

section
variable {key other : κ} {target : σ} {record : α} {d : Dict κ α}

theorem move_frame (h : key≠other) (change : α → α) :
    ((L.move key target change).exec d).2.get? other=d.get? other := by
  rcases L.move_exec key target change d with ⟨e,he⟩|⟨_,_,_,_,hw⟩
  · rw [he]
  · rw [hw,if_neg h]

theorem transition_frame (h : key≠other) :
    ((L.transition key target).exec d).2.get? other=d.get? other := by
  rcases L.transition_exec key target d with ⟨e,he⟩|⟨_,_,_,hok⟩
  · rw [he]
  · rw [hok,writes_set,if_neg h]

variable (hr : d.get? key=some record) (hv : (L.status record,target) ∈ L.valid)
include hr hv

theorem transition_of_valid : (L.transition key target).exec d =
    (.ok (L.withStatus record target),d.set key (L.withStatus record target)) := by
  rw [transition,Method.exec_bind,Method.exec_get]
  simp only [hr,hv,not_true_eq_false,if_false]
  rfl

theorem move_of_valid (change : α → α) : ((L.move key target change).exec d).2.get? key =
      some (change (L.withStatus record target)) := by
  rw [move,Method.exec_bind,L.transition_of_valid hr hv]
  exact (writes_set _ _ _ _).trans (if_pos rfl)

end

end Lifecycle
end LatticeTransfer
