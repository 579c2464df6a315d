import LatticeTransfer.PyValue

/-!
# Functions that revert

Words, addresses and the arithmetic of Solidity. A function of a contract takes the
storage to a new storage or reverts, and a call that reverts leaves the storage as it was.
A mapping is a total function, written with `Function.update`.
-/

namespace LatticeTransfer.Solidity
open BitVec

abbrev Address := BitVec 160
abbrev Bytes32 := BitVec 256
abbrev Uint256 := BitVec 256
abbrev Uint64 := BitVec 64
abbrev Uint8 := BitVec 8

structure Env where
  sender : Address
  value : Uint256
  timestamp : Uint256
  chainid : Uint256

inductive Revert (ε : Type)
  | custom (error : ε)
  | reason (text : String)
  | panic
  | empty
deriving DecidableEq

variable {ε σ α β : Type} {w : ℕ}

abbrev Result (ε α : Type) := Except (Revert ε) α

def revertIf (condition : Prop) [Decidable condition] (error : ε) : Result ε Unit :=
  if condition then .error (.custom error) else .ok ()

def require (condition : Prop) [Decidable condition] (text : String) : Result ε Unit :=
  if condition then .ok () else .error (.reason text)

def nonpayable (env : Env) : Result ε Unit := if env.value=0 then .ok () else .error .empty

def checkedAdd (a b : BitVec w) : Result ε (BitVec w) :=
  if a.toNat+b.toNat<2^w then .ok (a+b) else .error .panic

def checkedSub (a b : BitVec w) : Result ε (BitVec w) :=
  if b.toNat≤a.toNat then .ok (a-b) else .error .panic

def checkedMul (a b : BitVec w) : Result ε (BitVec w) :=
  if a.toNat*b.toNat<2^w then .ok (a*b) else .error .panic

def uint64 (x : Uint256) : Uint64 := x.setWidth 64

def encodePacked (x : BitVec w) : Bytes := PyValue.toBigEndian (w / 8) x.toNat

def stringBytes (text : String) : Bytes := text.toUTF8.data.toList

def digits (bytes : Bytes) : Bytes32 :=
  BitVec.ofNat 256 (bytes.foldl (fun n x => n*257+(x.toNat+1)) 0)

def settle (s : σ) : Result ε σ → σ
  | .ok s' => s'
  | .error _ => s

theorem bind_eq_ok {x : Result ε α} {f : α → Result ε β} {b : β} :
    (x >>= f)=.ok b ↔ ∃ a, x=.ok a ∧ f a=.ok b := by
  cases x with
  | error e => simp [bind,Except.bind]
  | ok a => simp [bind,Except.bind]

theorem pure_eq_ok {a b : α} : (pure a : Result ε α)=.ok b ↔ a=b :=
  ⟨Except.ok.inj,congrArg _⟩

@[simp] theorem revertIf_eq_ok {condition : Prop} [Decidable condition] {error : ε} {u : Unit} :
    revertIf condition error=.ok u ↔ ¬condition := by
  by_cases h : condition <;> simp [revertIf]

@[simp] theorem require_eq_ok {condition : Prop} [Decidable condition] {text : String} {u : Unit} :
    (require condition text : Result ε Unit)=.ok u ↔ condition := by
  by_cases h : condition <;> simp [require]

@[simp] theorem nonpayable_eq_ok {env : Env} {u : Unit} :
    (nonpayable env : Result ε Unit)=.ok u ↔ env.value=0 := by
  by_cases h : env.value=0 <;> simp [nonpayable]

theorem checkedAdd_of_lt {a b : BitVec w} (h : a.toNat+b.toNat<2^w) :
    (checkedAdd a b : Result ε (BitVec w))=.ok (a+b) := if_pos h

variable {a b c : BitVec w}

theorem checked_eq_ok {n : ℕ} (ha : a.toNat=n % 2^w) :
    (if n<2^w then .ok a else .error .panic : Result ε (BitVec w))=.ok c ↔ n=c.toNat := by
  split_ifs with h
  · rw [Except.ok.injEq,← toNat_inj,ha,Nat.mod_eq_of_lt h]
  · have hne : n≠c.toNat := fun hn => h (hn ▸ c.isLt)
    simp [hne]

theorem checkedAdd_eq_ok : (checkedAdd a b : Result ε (BitVec w))=.ok c ↔ a.toNat+b.toNat=c.toNat :=
  checked_eq_ok (toNat_add a b)

theorem checkedMul_eq_ok : (checkedMul a b : Result ε (BitVec w))=.ok c ↔ a.toNat*b.toNat=c.toNat :=
  checked_eq_ok (toNat_mul a b)

theorem checkedSub_eq_ok :
    (checkedSub a b : Result ε (BitVec w))=.ok c ↔ c.toNat+b.toNat=a.toNat := by
  rw [checkedSub]
  split_ifs with h
  · rw [Except.ok.injEq,← toNat_inj,toNat_sub_of_le h]
    omega
  · have hne : c.toNat+b.toNat≠a.toNat := fun hs => h (by omega)
    simp [hne]

end LatticeTransfer.Solidity
