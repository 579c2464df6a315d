import LatticeTransfer.PyValue

/-!
# Methods that raise and change their object

A method runs on the state of its object. When it raises, what it changed before stays
changed, so the state is part of the result in both cases. `exec_bind_ok` takes a
successful run apart at a sequence point, and `Keeps` collects what a method preserves
whether it returns or raises.
-/

namespace LatticeTransfer

abbrev Method (σ α : Type) := ExceptT PyError (StateM σ) α

namespace Method
variable {σ τ α β : Type}

def exec (m : Method σ α) (s : σ) : Except PyError α × σ := StateT.run (ExceptT.run m) s

def call (x : Except PyError α) : Method σ α := ExceptT.mk (pure x)

def on (get : σ → τ) (set : σ → τ → σ) (m : Method τ α) : Method σ α :=
  ExceptT.mk fun s => ((m.exec (get s)).1,set s (m.exec (get s)).2)

def first (m : Method σ α) : Method (σ × τ) α := m.on Prod.fst fun s a => (a,s.2)
def second (m : Method τ α) : Method (σ × τ) α := m.on Prod.snd fun s b => (s.1,b)

def attempt (m : Method σ α) : Method σ (Except PyError α) :=
  ExceptT.mk fun s => (.ok (m.exec s).1,(m.exec s).2)

@[simp] theorem exec_pure (a : α) (s : σ) : (pure a : Method σ α).exec s=(.ok a,s) := rfl

@[simp] theorem exec_call (x : Except PyError α) (s : σ) : (call x).exec s=(x,s) := rfl

@[simp] theorem exec_throw (e : PyError) (s : σ) :
    (throw e : Method σ α).exec s=(.error e,s) := rfl

@[simp] theorem exec_get (s : σ) : (get : Method σ σ).exec s=(.ok s,s) := rfl

@[simp] theorem exec_modify (f : σ → σ) (s : σ) :
    (modify f : Method σ Unit).exec s=(.ok (),f s) := rfl

@[simp] theorem exec_on (get : σ → τ) (set : σ → τ → σ) (m : Method τ α) (s : σ) :
    (m.on get set).exec s=((m.exec (get s)).1,set s (m.exec (get s)).2) := rfl

variable (m : Method σ α)

@[simp] theorem exec_attempt (s : σ) :
    m.attempt.exec s=(.ok (m.exec s).1,(m.exec s).2) := rfl

theorem exec_bind (f : α → Method σ β) (s : σ) :
    (m >>= f).exec s=match m.exec s with
      | (.ok a,s1) => (f a).exec s1
      | (.error e,s1) => (.error e,s1) := by
  change (ExceptT.bindCont f (m.exec s).1).run (m.exec s).2=_
  rcases m.exec s with ⟨_|a,s1⟩ <;> rfl

theorem exec_bind_ok {m : Method σ α} {f : α → Method σ β} {s s' : σ} {b : β}
    (h : (m >>= f).exec s=(.ok b,s')) : ∃ a s1, m.exec s=(.ok a,s1) ∧ (f a).exec s1=(.ok b,s') := by
  rw [exec_bind] at h
  split at h
  next a s1 hm => exact ⟨a,s1,hm,h⟩
  next => cases h

theorem exec_bind_pure (f : α → β) (s : σ) :
    ((m >>= fun a => pure (f a)).exec s).2=(m.exec s).2 := by
  rw [exec_bind]
  rcases m.exec s with ⟨_|a,s1⟩ <;> rfl

theorem exec_discard (s : σ) : ((discard m).exec s).2=(m.exec s).2 :=
  exec_bind_pure m (fun _ => ()) s

theorem exec_eq_ok {m : Method σ α} {s : σ} {a : α} (h : (m.exec s).1=.ok a) :
    m.exec s=(.ok a,(m.exec s).2) := Prod.ext h rfl

theorem exec_call_bind_ok {x : Except PyError α} {f : α → Method σ β} {s s' : σ} {b : β}
    (h : (call x >>= f).exec s=(.ok b,s')) : ∃ a, x=.ok a ∧ (f a).exec s=(.ok b,s') := by
  obtain ⟨a,s1,hc,hr⟩ := exec_bind_ok h
  cases hc
  exact ⟨a,rfl,hr⟩

theorem exec_foldlM_of_ok {f : β → α → Method σ β} {step : σ → α → σ}
    (h : ∀ b a s, ∃ b', (f b a).exec s=(.ok b',step s a)) (as : List α) (b : β) (s : σ) :
    ∃ b', (as.foldlM f b).exec s=(.ok b',as.foldl step s) := by
  induction as generalizing b s with
  | nil => exact ⟨b,rfl⟩
  | cons a as ih =>
    obtain ⟨b1,hb⟩ := h b a s
    obtain ⟨b',hr⟩ := ih b1 (step s a)
    refine ⟨b',?_⟩
    rw [List.foldlM_cons,exec_bind,hb]
    exact hr

theorem exec_on_ok {get : σ → τ} {set : σ → τ → σ} {m : Method τ α} {s s' : σ} {a : α}
    (h : (m.on get set).exec s=(.ok a,s')) : ∃ t, m.exec (get s)=(.ok a,t) ∧ s'=set s t := by
  obtain ⟨hok,hs⟩ := Prod.mk.inj h
  exact ⟨_,Prod.ext hok rfl,hs.symm⟩

theorem exec_first_ok {m : Method σ α} {s s' : σ × τ} {a : α}
    (h : (first m).exec s=(.ok a,s')) : m.exec s.1=(.ok a,s'.1) ∧ s'.2=s.2 := by
  obtain ⟨t,hm,rfl⟩ := exec_on_ok h
  exact ⟨hm,rfl⟩

theorem exec_second_ok {m : Method τ α} {s s' : σ × τ} {a : α}
    (h : (second m).exec s=(.ok a,s')) : m.exec s.2=(.ok a,s'.2) ∧ s'.1=s.1 := by
  obtain ⟨t,hm,rfl⟩ := exec_on_ok h
  exact ⟨hm,rfl⟩

/-- Every run of the method, also one that raises, ends in a state related to its start. -/
def Keeps (R : σ → σ → Prop) (m : Method σ α) : Prop := ∀ s, R s (m.exec s).2

variable {R : σ → σ → Prop}

theorem keeps_call [Std.Refl R] (x : Except PyError α) : Keeps R (call x) := fun s =>
  Std.Refl.refl s

theorem keeps_throw [Std.Refl R] (e : PyError) : Keeps R (throw e : Method σ α) := fun s =>
  Std.Refl.refl s

theorem keeps_pure [Std.Refl R] (a : α) : Keeps R (pure a : Method σ α) := fun s =>
  Std.Refl.refl s

theorem keeps_get [Std.Refl R] : Keeps R (get : Method σ σ) := fun s => Std.Refl.refl s

theorem keeps_modify {f : σ → σ} (h : ∀ s, R s (f s)) : Keeps R (modify f : Method σ Unit) := h

theorem Keeps.bind [IsTrans σ R] {m : Method σ α} {f : α → Method σ β} (hm : Keeps R m)
    (hf : ∀ a, Keeps R (f a)) : Keeps R (m >>= f) := by
  intro s
  have hs := hm s
  rw [exec_bind]
  split
  next a s1 heq =>
    rw [heq] at hs
    exact IsTrans.trans _ _ _ hs (hf a s1)
  next e s1 heq =>
    rw [heq] at hs
    exact hs

theorem Keeps.foldlM [Std.Refl R] [IsTrans σ R] {f : β → α → Method σ β} {as : List α}
    (hf : ∀ b, ∀ a ∈ as, Keeps R (f b a)) (b : β) : Keeps R (as.foldlM f b) := by
  induction as generalizing b with
  | nil => exact keeps_pure b
  | cons a as ih =>
    refine (hf b a List.mem_cons_self).bind fun b => ih (fun b a ha => ?_) b
    exact hf b a (List.mem_cons_of_mem _ ha)

theorem Keeps.forM [Std.Refl R] [IsTrans σ R] {f : α → Method σ PUnit} {as : List α}
    (hf : ∀ a ∈ as, Keeps R (f a)) : Keeps R (as.forM f) := by
  induction as with
  | nil => exact keeps_pure _
  | cons a as ih =>
    change Keeps R (f a >>= fun _ => as.forM f)
    exact (hf a List.mem_cons_self).bind fun _ => ih fun b hb => hf b (List.mem_cons_of_mem _ hb)

theorem Keeps.mono {Q : σ → σ → Prop} {m : Method σ α} (h : Keeps R m)
    (hRQ : ∀ s s', R s s' → Q s s') : Keeps Q m := fun s => hRQ s _ (h s)

section
variable {get : σ → τ} {set : σ → τ → σ}

theorem keeps_on (m : Method τ α) (h : ∀ s t, R s (set s t)) :
    Keeps R (m.on get set) := fun s => h s _

theorem Keeps.on (hg : ∀ s t, get (set s t)=t) {Q : τ → τ → Prop} {m : Method τ α}
    (h : Keeps Q m) : Keeps (fun s s' => Q (get s) (get s')) (m.on get set) := by
  intro s
  have hs : get ((m.on get set).exec s).2=(m.exec (get s)).2 := hg s _
  exact hs.symm ▸ h (get s)

end

def Both (R : σ → σ → Prop) (Q : τ → τ → Prop) (s s' : σ × τ) : Prop := R s.1 s'.1 ∧ Q s.2 s'.2

instance {Q : τ → τ → Prop} [Std.Refl R] [Std.Refl Q] : Std.Refl (Both R Q) :=
  ⟨fun s => ⟨Std.Refl.refl s.1,Std.Refl.refl s.2⟩⟩

instance {Q : τ → τ → Prop} [IsTrans σ R] [IsTrans τ Q] : IsTrans (σ × τ) (Both R Q) :=
  ⟨fun _ _ _ h₁ h₂ => ⟨IsTrans.trans _ _ _ h₁.1 h₂.1,IsTrans.trans _ _ _ h₁.2 h₂.2⟩⟩

theorem Keeps.first {Q : τ → τ → Prop} [Std.Refl Q] {m : Method σ α} (h : Keeps R m) :
    Keeps (Both R Q) (first m) := fun s => ⟨h s.1,Std.Refl.refl s.2⟩

theorem Keeps.second {Q : τ → τ → Prop} [Std.Refl R] {m : Method τ α} (h : Keeps Q m) :
    Keeps (Both R Q) (second m) := fun s => ⟨Std.Refl.refl s.1,h s.2⟩

section
variable {υ : Type} {R : σ → υ → Prop} {Q : τ → υ → Prop}

def Agree (R : σ → υ → Prop) (m : Method σ α) (m' : Method υ α) (s : σ) (t : υ) : Prop :=
  (m.exec s).1=(m'.exec t).1 ∧ R (m.exec s).2 (m'.exec t).2

theorem agree_pure (a : α) {s : σ} {t : υ} (h : R s t) :
    Agree R (pure a : Method σ α) (pure a) s t := ⟨rfl,h⟩

theorem Agree.bind {m : Method σ α} {m' : Method υ α} {f : α → Method σ β} {f' : α → Method υ β}
    {s : σ} {t : υ} (hm : Agree R m m' s t)
    (hf : ∀ a s t, R s t → Agree R (f a) (f' a) s t) : Agree R (m >>= f) (m' >>= f') s t := by
  obtain ⟨hr,hs⟩ := hm
  rw [Agree,exec_bind,exec_bind]
  generalize m.exec s=x at hr hs
  generalize m'.exec t=y at hr hs
  obtain ⟨_|a,s'⟩ := x <;> obtain ⟨_ | b,t'⟩ := y <;> cases hr
  · exact ⟨rfl,hs⟩
  · exact hf a s' t' hs

def SameFirst (Q : τ → υ → Prop) (s : σ × τ) (t : σ × υ) : Prop := s.1=t.1 ∧ Q s.2 t.2

theorem agree_first (m : Method σ α) {s : σ × τ} {t : σ × υ} (h : SameFirst Q s t) :
    Agree (SameFirst Q) (first m) (first m) s t := by
  obtain ⟨hf,hs⟩ := h
  refine ⟨?_,?_,hs⟩
  · change (m.exec s.1).1=(m.exec t.1).1
    rw [hf]
  · change (m.exec s.1).2=(m.exec t.1).2
    rw [hf]

theorem Agree.second {m : Method τ α} {m' : Method υ α} {s : σ × τ} {t : σ × υ}
    (hf : s.1=t.1) (h : Agree Q m m' s.2 t.2) :
    Agree (SameFirst Q) (second m) (second m') s t := ⟨h.1,hf,h.2⟩

end

end Method
end LatticeTransfer
