import Mathlib.Data.List.Lex
import Mathlib.Data.UInt
import Mathlib.Tactic.Ring

/-!
# Byte strings, exceptions and dictionaries of the host language

Python's built-in values as the models use them. A dictionary keeps its entries
in insertion order, an assignment to a present key keeps its place, and the keys
are distinct by construction. Fixed-width packing is big-endian, as in the
`struct` formats `>I` and `>Q` and in `int.to_bytes`.
-/

namespace LatticeTransfer
open List

abbrev Byte := UInt8
abbrev Bytes := List Byte

instance Bytes.lawfulBEq : LawfulBEq Bytes := inferInstance

/-- A byte string the interpreter can hold: `sys.maxsize` bounds its length. -/
abbrev ByteString := {b : Bytes // b.length≤2^63-1}

abbrev PyList (α : Type*) := {l : List α // l.length≤2^63-1}

inductive PyError
  | valueError (message : String)
  | assertionError (message : String)
  | indexError (message : String)
  | keyError
  | typeError
  | attributeError
  | nameError
  | runtimeError (message : String)
  | permissionError (message : String)
  | structError
  | overflowError
  | integrityError
  | ledgerError (message : String)
  | depositError (message : String)
deriving DecidableEq, Repr

namespace PyValue

def toBigEndian : ℕ → ℕ → Bytes
  | 0, _ => []
  | w+1, n => toBigEndian w (n / 256)++[UInt8.ofNat (n % 256)]

def ofBigEndian (b : Bytes) : ℕ := b.foldl (fun acc x => acc*256+x.toNat) 0

@[simp] theorem length_toBigEndian (w n : ℕ) : (toBigEndian w n).length=w := by
  induction w generalizing n with
  | zero => rfl
  | succ w ih => simp [toBigEndian,ih]

theorem ofBigEndian_toBigEndian (w n : ℕ) (hn : n<256^w) : ofBigEndian (toBigEndian w n)=n := by
  induction w generalizing n with
  | zero =>
    have h0 : n=0 := by simpa using hn
    subst h0
    rfl
  | succ w ih =>
    have hd : n / 256<256^w := by
      rw [Nat.div_lt_iff_lt_mul (by omega)]
      exact hn
    have hr := ih (n / 256) hd
    simp only [ofBigEndian] at hr ⊢
    rw [toBigEndian,foldl_append]
    simp only [foldl_cons,foldl_nil,UInt8.toNat_ofNat']
    omega

theorem toBigEndian_append_inj {w m n : ℕ} {rest rest' : Bytes} (hm : m<256^w)
    (hn : n<256^w) (h : toBigEndian w m++rest=toBigEndian w n++rest') : m=n ∧ rest=rest' := by
  obtain ⟨hint,hr⟩ := append_inj h (by simp)
  have hd := congrArg ofBigEndian hint
  rw [ofBigEndian_toBigEndian w m hm,ofBigEndian_toBigEndian w n hn] at hd
  exact ⟨hd,hr⟩

theorem framed_append_inj {w : ℕ} {x y rest rest' : Bytes} (hx : x.length<256^w)
    (hy : y.length<256^w) (h : toBigEndian w x.length++x++rest=toBigEndian w y.length++y++rest') :
    x=y ∧ rest=rest' := by
  rw [append_assoc,append_assoc] at h
  obtain ⟨hl,h⟩ := toBigEndian_append_inj hx hy h
  exact append_inj h hl

/-- The items can be read back if their number is known or nothing follows them. -/
theorem flatMap_framed_inj {w : ℕ} (hw : 0<w) {items items' : List Bytes} {rest rest' : Bytes}
    (h : ∀ x ∈ items, x.length<256^w) (h' : ∀ x ∈ items', x.length<256^w)
    (he : items.length=items'.length ∨ rest=[] ∧ rest'=[])
    (heq : items.flatMap (fun x => toBigEndian w x.length++x)++rest =
      items'.flatMap (fun x => toBigEndian w x.length++x)++rest') : items=items' ∧ rest=rest' := by
  have hne (x tail : Bytes) : toBigEndian w x.length++x++tail≠[] := by
    simp [← length_eq_zero_iff,hw.ne']
  induction items generalizing items' with
  | nil =>
    cases items' with
    | nil => exact ⟨rfl,heq⟩
    | cons y ys =>
      -- the counts differ, so both encodings end with the items
      obtain ⟨rfl,rfl⟩ := he.resolve_left (by simp)
      rw [flatMap_cons,append_assoc] at heq
      exact absurd heq.symm (hne y _)
  | cons x xs ih =>
    cases items' with
    | nil =>
      obtain ⟨rfl,rfl⟩ := he.resolve_left (by simp)
      rw [flatMap_cons,append_assoc] at heq
      exact absurd heq (hne x _)
    | cons y ys =>
      rw [forall_mem_cons] at h h'
      rw [flatMap_cons,flatMap_cons,append_assoc (_ ++ x),append_assoc (_ ++ y)] at heq
      obtain ⟨rfl,hi⟩ := framed_append_inj h.1 h'.1 heq
      obtain ⟨rfl,hr⟩ := ih h.2 h'.2 (by simpa using he) hi
      exact ⟨rfl,hr⟩

variable (b : Bytes)

theorem ofBigEndian_concat (x : UInt8) : ofBigEndian (b++[x])=ofBigEndian b*256+x.toNat := by
  rw [ofBigEndian,foldl_append]
  rfl

theorem ofBigEndian_lt : ofBigEndian b<256^b.length := by
  induction b using reverseRecOn with
  | nil => exact Nat.one_pos
  | append_singleton b x ih =>
    have hx : x.toNat<256 := x.toNat_lt
    rw [ofBigEndian_concat,length_append,length_singleton]
    omega

theorem ofBigEndian_inj {a b : Bytes} (hl : a.length=b.length)
    (h : ofBigEndian a=ofBigEndian b) : a=b := by
  induction a using reverseRecOn generalizing b with
  | nil => exact (length_eq_zero_iff.mp hl.symm).symm
  | append_singleton a x ih =>
    rcases eq_nil_or_concat b with rfl|⟨b,y,rfl⟩
    · simp at hl
    · rw [ofBigEndian_concat,concat_eq_append,ofBigEndian_concat] at h
      have hx : x.toNat<256 := x.toNat_lt
      have hy : y.toNat<256 := y.toNat_lt
      have hxy : x=y := UInt8.toNat_inj.mp (by omega)
      rw [ih (by simpa using hl) (by omega),hxy,concat_eq_append]

def pack (w n : ℕ) : Except PyError Bytes :=
  if n<256^w then .ok (toBigEndian w n) else .error .structError

def unpack (w : ℕ) (b : Bytes) : Except PyError ℕ :=
  if b.length=w then .ok (ofBigEndian b) else .error .structError

theorem unpack_toBigEndian {w n : ℕ} (hn : n<256^w) : unpack w (toBigEndian w n)=.ok n := by
  simp [unpack,ofBigEndian_toBigEndian w n hn]

def hexDigit (n : ℕ) : Char := if n<10 then Char.ofNat (48+n) else Char.ofNat (87+n)

def hexValue (c : Char) : Option ℕ :=
  if '0' ≤ c ∧ c ≤ '9' then some (c.toNat-48)
  else if 'a' ≤ c ∧ c ≤ 'f' then some (c.toNat-87)
  else if 'A' ≤ c ∧ c ≤ 'F' then some (c.toNat-55)
  else none

def hexDigits : Bytes → List Char
  | [] => []
  | b::bs => hexDigit (b.toNat / 16)::hexDigit (b.toNat % 16)::hexDigits bs

def hex (b : Bytes) : String := String.ofList (hexDigits b)

theorem hexValue_hexDigit : ∀ n<16, hexValue (hexDigit n)=some n := by decide

theorem ofNat_nibbles (x : Byte) : UInt8.ofNat (x.toNat / 16*16+x.toNat % 16)=x := by
  rw [Nat.div_add_mod',UInt8.ofNat_toNat]

def isHexBlank (c : Char) : Bool :=
  c == ' ' || c == '\t' || c == '\n' || c == '\r' || c == '\x0b' || c == '\x0c'

/-- `bytes.fromhex`, with blanks between the pairs of digits. -/
def fromHexText : List Char → Option Bytes
  | [] => some []
  | [c] => if isHexBlank c then some [] else none
  | hi::lo::rest =>
    if isHexBlank hi then fromHexText (lo::rest)
    else
      match hexValue hi, hexValue lo with
      | some h, some l => (fromHexText rest).map (UInt8.ofNat (h*16+l) :: ·)
      | _, _ => none

theorem isHexBlank_hexDigit : ∀ n<16, isHexBlank (hexDigit n)=false := by decide

theorem fromHexText_hexDigits : fromHexText (hexDigits b)=some b := by
  induction b with
  | nil => rfl
  | cons x b ih =>
    have hlt : x.toNat<256 := x.toNat_lt
    rw [hexDigits,fromHexText,isHexBlank_hexDigit _ (by omega),
      hexValue_hexDigit _ (by omega),hexValue_hexDigit _ (by omega),ih]
    simp [ofNat_nibbles x]

def fromHex (s : String) : Except PyError Bytes :=
  (fromHexText s.toList).elim
    (.error (.valueError "non-hexadecimal number found in fromhex() arg")) .ok

theorem fromHex_hex : fromHex (hex b)=.ok b := by
  rw [fromHex,hex,String.toList_ofList,fromHexText_hexDigits,Option.elim]

def bytesLe (a b : Bytes) : Prop := a.map UInt8.toNat≤b.map UInt8.toNat

instance : DecidableRel bytesLe := fun a b =>
  inferInstanceAs (Decidable (a.map UInt8.toNat≤b.map UInt8.toNat))

instance : Std.Total bytesLe := ⟨fun a b => le_total (a.map UInt8.toNat) (b.map UInt8.toNat)⟩

instance : IsTrans Bytes bytesLe := ⟨fun _ _ _ h₁ h₂ => le_trans h₁ h₂⟩

instance : Std.Antisymm bytesLe := ⟨fun _ _ h₁ h₂ =>
  map_injective_iff.mpr (fun _ _ h => UInt8.toNat_inj.mp h) (le_antisymm h₁ h₂)⟩

section
variable {α : Type*} (r : α → α → Prop) [DecidableRel r] [Std.Total r] [IsTrans α r]
  [Std.Antisymm r]

def sorted (s : Finset α) : List α :=
  Quot.liftOn s.val (insertionSort r) fun l l' h =>
    List.Perm.eq_of_pairwise (fun a b _ _ => Std.Antisymm.antisymm a b)
      (pairwise_insertionSort r l) (pairwise_insertionSort r l')
      ((perm_insertionSort r l).trans (h.trans (perm_insertionSort r l').symm))

theorem mem_sorted (s : Finset α) (a : α) : a ∈ sorted r s ↔ a ∈ s := by
  obtain ⟨⟨l⟩,hl⟩ := s
  exact mem_insertionSort r

theorem perm_sorted_toFinset [DecidableEq α] {l : List α} (h : l.Nodup) :
    (sorted r l.toFinset).Perm l := by
  have hv : l.toFinset.val=(l : Multiset α) := by rw [toFinset_val,h.dedup]
  rw [sorted,hv]
  exact perm_insertionSort r l

end

section
variable {α β ε : Type*} {f : α → Except ε β}

variable {l : List α}

theorem mapM_eq_ok_of_forall {g : α → β} (h : ∀ a ∈ l, f a=.ok (g a)) : l.mapM f=.ok (l.map g) := by
  induction l with
  | nil => rfl
  | cons a l ih =>
    rw [forall_mem_cons] at h
    rw [mapM_cons,h.1,ih h.2]
    rfl

theorem bind_ok {ε α β : Type} {b : β} {g : α → Except ε β} :
    ∀ {x : Except ε α}, x >>= g=.ok b → ∃ a, x=.ok a ∧ g a=.ok b
  | .ok a, h => ⟨a,rfl,h⟩

theorem exists_ok_of_any {x : Except ε α} {p : α → Bool} (h : x.toOption.any p=true) :
    ∃ a, x=.ok a ∧ p a=true := by
  cases x with
  | error e => cases h
  | ok a => exact ⟨a,rfl,h⟩

theorem exists_of_map_eq_ok {x : Except ε α} {g : α → β} {b : β} (h : x.map g=.ok b) :
    ∃ a, x=.ok a ∧ g a=b := by
  cases x with
  | error e => cases h
  | ok a => exact ⟨a,rfl,Except.ok.inj h⟩

variable {bs : List β}

theorem forall₂_of_mapM_ok (h : l.mapM f=.ok bs) : List.Forall₂ (fun a b => f a=.ok b) l bs := by
  induction l generalizing bs with
  | nil =>
    obtain rfl : []=bs := Except.ok.inj h
    exact .nil
  | cons a l ih =>
    rw [mapM_cons] at h
    cases ha : f a with
    | error e =>
      rw [ha] at h
      cases h
    | ok b =>
      cases hl : l.mapM f with
      | error e =>
        rw [ha,hl] at h
        cases h
      | ok rest =>
        rw [ha,hl] at h
        obtain rfl : b::rest=bs := Except.ok.inj h
        exact .cons ha (ih hl)

theorem mapM_ok_getD (h : l.mapM f=.ok bs) {i : ℕ} (hi : i<l.length) (default : β) :
    f (l.get ⟨i,hi⟩)=.ok (bs.getD i default) := by
  have hp := forall₂_of_mapM_ok h
  have hbs : i<bs.length := hp.length_eq ▸ hi
  rw [getD_eq_getElem?_getD,getElem?_eq_getElem hbs]
  exact hp.get hi hbs

theorem exists_mapM_ok (h : ∀ a ∈ l, ∃ b, f a=.ok b) : ∃ bs, l.mapM f=.ok bs := by
  induction l with
  | nil => exact ⟨[],rfl⟩
  | cons a l ih =>
    rw [forall_mem_cons] at h
    obtain ⟨⟨b,hb⟩,hr⟩ := h
    obtain ⟨bs,hbs⟩ := ih hr
    refine ⟨b::bs,?_⟩
    rw [mapM_cons,hb,hbs]
    rfl

theorem mapM_ok_of_forall₂ (h : List.Forall₂ (fun a b => f a=.ok b) l bs) : l.mapM f=.ok bs := by
  induction h with
  | nil => rfl
  | cons ha _ ih =>
    rw [mapM_cons,ha,ih]
    rfl

theorem mapM_perm_ok {l' : List α} (hp : l.Perm l') (h : l.mapM f=.ok bs) :
    ∃ bs', l'.mapM f=.ok bs' ∧ bs.Perm bs' := by
  have hc : ∀ (a : α) (l : List α), (a::l).mapM f=f a >>= fun b =>
      l.mapM f >>= fun bs => .ok (b::bs) := fun a l => mapM_cons
  induction hp generalizing bs with
  | nil => exact ⟨bs,h,.refl bs⟩
  | cons a _ ih =>
    cases forall₂_of_mapM_ok h with
    | cons ha hr =>
      obtain ⟨bs',hbs',hp⟩ := ih (mapM_ok_of_forall₂ hr)
      exact ⟨_ :: bs',by rw [hc,ha,hbs']; rfl,hp.cons _⟩
  | swap a a' l =>
    cases forall₂_of_mapM_ok h with
    | cons ha' hr =>
      cases hr with
      | cons ha hr =>
        refine ⟨_,?_,.swap _ _ _⟩
        rw [hc,ha,hc,ha',mapM_ok_of_forall₂ hr]
        rfl
  | trans _ _ ih ih' =>
    obtain ⟨bs1,h1,hp1⟩ := ih h
    obtain ⟨bs2,h2,hp2⟩ := ih' h1
    exact ⟨bs2,h2,hp1.trans hp2⟩

theorem mapM_ok (h : l.mapM f=.ok bs) :
    (∀ a ∈ l, ∃ b ∈ bs, f a=.ok b) ∧ ∀ b ∈ bs, ∃ a ∈ l, f a=.ok b := by
  have hp := forall₂_of_mapM_ok h
  clear h
  induction hp with
  | nil => simp
  | cons hab _ ih =>
    constructor
    · refine forall_mem_cons.mpr ⟨⟨_,mem_cons_self,hab⟩,fun a' ha' => ?_⟩
      obtain ⟨b',hb',hfa'⟩ := ih.1 a' ha'
      exact ⟨b',mem_cons_of_mem _ hb',hfa'⟩
    · refine forall_mem_cons.mpr ⟨⟨_,mem_cons_self,hab⟩,fun b' hb' => ?_⟩
      obtain ⟨a',ha',hfa'⟩ := ih.2 b' hb'
      exact ⟨a',mem_cons_of_mem _ ha',hfa'⟩

end

end PyValue

structure Dict (κ α : Type*) where
  entries : List (κ × α)
  nodup : (entries.map Prod.fst).Nodup

namespace Dict
variable {κ α : Type*} [DecidableEq κ]

def empty : Dict κ α := ⟨[],nodup_nil⟩

def keys (d : Dict κ α) : List κ := d.entries.map Prod.fst
def values (d : Dict κ α) : List α := d.entries.map Prod.snd
def size (d : Dict κ α) : ℕ := d.entries.length

def lookup (key : κ) : List (κ × α) → Option α
  | [] => none
  | e::es => if e.1=key then some e.2 else lookup key es

def get? (d : Dict κ α) (key : κ) : Option α := lookup key d.entries

def assign (key : κ) (value : α) : List (κ × α) → List (κ × α)
  | [] => [(key,value)]
  | e::es => if e.1=key then (key,value)::es else e::assign key value es

theorem keys_assign (key : κ) (value : α) (es : List (κ × α)) :
    (assign key value es).map Prod.fst =
      if key ∈ es.map Prod.fst then es.map Prod.fst else es.map Prod.fst++[key] := by
  induction es with
  | nil => rfl
  | cons e es ih =>
    by_cases he : e.1=key
    · simp [assign,he]
    · simp only [assign,he,↓reduceIte,map_cons,ih,mem_cons,Ne.symm he,false_or]
      split_ifs <;> rfl

def set (d : Dict κ α) (key : κ) (value : α) : Dict κ α :=
  ⟨assign key value d.entries,by
    rw [keys_assign]
    split_ifs with h
    · exact d.nodup
    · exact nodup_append.mpr ⟨d.nodup,nodup_singleton key,by
        intro a ha b hb hab
        rw [mem_singleton] at hb
        exact h (hb ▸ hab ▸ ha)⟩⟩

@[simp] theorem get?_empty (key : κ) : (empty : Dict κ α).get? key=none := rfl

section
variable (d : Dict κ α)

@[simp] theorem get?_set_self (key : κ) (value : α) : (d.set key value).get? key=some value := by
  obtain ⟨es,hes⟩ := d
  simp only [get?,set]
  clear hes
  induction es with
  | nil => simp [assign,lookup]
  | cons e es ih =>
    by_cases he : e.1=key
    · simp [assign,lookup,he]
    · simpa [assign,lookup,he] using ih

theorem get?_set_ne {key other : κ} (value : α) (h : key≠other) :
    (d.set key value).get? other=d.get? other := by
  obtain ⟨es,hes⟩ := d
  simp only [get?,set]
  clear hes
  induction es with
  | nil => simp [assign,lookup,h]
  | cons e es ih =>
    by_cases he : e.1=key
    · subst he
      simp [assign,lookup,h]
    · simp [assign,he,lookup,ih]

theorem get?_set (key other : κ) (value : α) :
    (d.set key value).get? other=if key=other then some value else d.get? other := by
  by_cases h : key=other
  · subst h
    simp
  · rw [get?_set_ne d value h,if_neg h]

theorem get?_eq_some_iff (key : κ) (value : α) :
    d.get? key=some value ↔ (key,value) ∈ d.entries := by
  obtain ⟨es,hes⟩ := d
  simp only [get?]
  induction es with
  | nil => simp [lookup]
  | cons e es ih =>
    rw [map_cons,nodup_cons] at hes
    by_cases he : e.1=key
    · subst he
      have hn : (e.1,value) ∉ es := fun hm => hes.1 (mem_map.mpr ⟨(e.1,value),hm,rfl⟩)
      simp only [lookup,↓reduceIte,Option.some.injEq,mem_cons,hn,or_false]
      constructor
      · intro h
        rw [← h]
      · intro h
        rw [← h]
    · have hne : (key,value)≠e := fun h => he (h ▸ rfl)
      simp [lookup,he,ih hes.2,hne]

theorem mem_keys_iff (key : κ) : key ∈ d.keys ↔ ∃ value, d.get? key=some value := by
  simp only [get?_eq_some_iff,keys,mem_map]
  constructor
  · rintro ⟨e,he,rfl⟩
    exact ⟨e.2,he⟩
  · rintro ⟨value,hv⟩
    exact ⟨(key,value),hv,rfl⟩

theorem keys_set_of_notMem {key : κ} (value : α) (hn : key ∉ d.keys) :
    (d.set key value).keys=d.keys++[key] :=
  (keys_assign key value d.entries).trans (if_neg hn)

end

omit [DecidableEq κ] in
theorem length_keys (d : Dict κ α) : d.keys.length=d.size := length_map _

theorem size_set_le (d : Dict κ α) (key : κ) (value : α) : (d.set key value).size≤d.size+1 := by
  rw [← length_keys,← length_keys]
  have hk : (d.set key value).keys=if key ∈ d.keys then d.keys else d.keys++[key] :=
    keys_assign key value d.entries
  rw [hk]
  split_ifs
  · exact Nat.le_succ _
  · rw [length_append,length_singleton]

theorem mem_values_iff (d : Dict κ α) (value : α) :
    value ∈ d.values ↔ ∃ key, d.get? key=some value := by
  simp only [get?_eq_some_iff,values,mem_map,Prod.exists,exists_eq_right]

def filter (p : κ → α → Bool) (d : Dict κ α) : Dict κ α :=
  ⟨d.entries.filter fun e => p e.1 e.2,d.nodup.sublist (filter_sublist.map _)⟩

def erase (d : Dict κ α) (key : κ) : Dict κ α := d.filter fun k _ => k≠key

theorem get?_filter (p : κ → α → Bool) (d : Dict κ α) (key : κ) :
    (d.filter p).get? key=(d.get? key).filter (p key) := by
  refine Option.ext fun value => ?_
  rw [get?_eq_some_iff,filter,mem_filter,← get?_eq_some_iff,Option.filter_eq_some_iff]

theorem get?_filter_keys (p : κ → Bool) (d : Dict κ α) (key : κ) :
    (d.filter fun k _ => p k).get? key=if p key then d.get? key else none := by
  rw [get?_filter]
  cases p key <;> cases d.get? key <;> rfl

theorem get?_erase (d : Dict κ α) (key other : κ) :
    (d.erase key).get? other=if key=other then none else d.get? other := by
  rw [erase,get?_filter_keys]
  by_cases h : key=other
  · rw [if_pos h,if_neg (by simpa using h.symm)]
  · rw [if_neg h,if_pos (by simpa using Ne.symm h)]

def mapValues (f : α → α) (d : Dict κ α) : Dict κ α :=
  ⟨d.entries.map fun e => (e.1,f e.2),by
    rw [map_map]
    exact d.nodup⟩

theorem get?_mapValues (f : α → α) (d : Dict κ α) (key : κ) :
    (d.mapValues f).get? key=(d.get? key).map f := by
  obtain ⟨es,hes⟩ := d
  simp only [get?,mapValues]
  clear hes
  induction es with
  | nil => rfl
  | cons e es ih =>
    by_cases he : e.1=key
    · simp [lookup,he]
    · simpa [lookup,he] using ih

def update (d other : Dict κ α) : Dict κ α := other.entries.foldl (fun d e => d.set e.1 e.2) d

theorem get?_update (d other : Dict κ α) (key : κ) :
    (d.update other).get? key=(other.get? key).or (d.get? key) := by
  obtain ⟨es,hes⟩ := other
  rw [update]
  simp only [get?]
  induction es generalizing d with
  | nil => rfl
  | cons e es ih =>
    rw [map_cons,nodup_cons] at hes
    rw [foldl_cons,ih (d.set e.1 e.2) hes.2]
    have hse : lookup key (d.set e.1 e.2).entries=_ := d.get?_set e.1 key e.2
    rw [hse,lookup]
    split_ifs with he
    · subst he
      have hn : lookup e.1 es=none := by
        by_contra hs
        obtain ⟨value,hv⟩ := Option.ne_none_iff_exists'.mp hs
        have hm := (get?_eq_some_iff ⟨es,hes.2⟩ e.1 value).mp hv
        exact hes.1 (mem_map.mpr ⟨_,hm,rfl⟩)
      rw [hn]
      rfl
    · rfl

def setAll (key : α → κ) (d : Dict κ α) (values : List α) : Dict κ α :=
  values.foldl (fun d a => d.set (key a) a) d

variable {key : α → κ} {d : Dict κ α} {values : List α} {k : κ}

theorem get?_setAll {a : α} (h : (setAll key d values).get? k=some a) :
    a ∈ values ∧ key a=k ∨ d.get? k=some a := by
  induction values generalizing d with
  | nil => exact .inr h
  | cons b values ih =>
    rcases ih h with ⟨hm,hke⟩|hs
    · exact .inl ⟨mem_cons_of_mem _ hm,hke⟩
    · rw [get?_set] at hs
      split_ifs at hs with hk
      · cases hs
        exact .inl ⟨mem_cons_self,hk⟩
      · exact .inr hs

theorem exists_get?_setAll (h : (∃ a ∈ values, key a=k) ∨ ∃ a, d.get? k=some a) :
    ∃ a, (setAll key d values).get? k=some a := by
  induction values generalizing d with
  | nil =>
    rcases h with ⟨a,ha,_⟩|h
    · cases ha
    · exact h
  | cons b values ih =>
    refine ih ?_
    by_cases hk : key b=k
    · exact .inr ⟨b,by rw [← hk,get?_set_self]⟩
    · rw [get?_set_ne d b hk]
      rcases h with ⟨a,ha,hak⟩|h
      · rcases mem_cons.mp ha with rfl|ha
        · exact absurd hak hk
        · exact .inl ⟨a,ha,hak⟩
      · exact .inr h

end Dict
end LatticeTransfer
