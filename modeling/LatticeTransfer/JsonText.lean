import LatticeTransfer.PyValue
import Mathlib.Data.List.TakeWhile

/-!
# JSON text

The values of the `json` module, the compact text it writes for them and the reader. The
writer escapes every character outside printable ASCII; the reader accepts blanks
between the tokens and every escape. A float is kept as the text of its `repr`, an
object as its pairs in the order of the text. What the writer writes is read back as the
same value.
-/

namespace LatticeTransfer.JsonText
open PyValue List

def isNumberChar (c : Char) : Bool :=
  c.isDigit || c == '-' || c == '+' || c == '.' || c == 'e' || c == 'E'

def isDigits (t : List Char) : Bool := !t.isEmpty && t.all Char.isDigit

def isWhole (t : List Char) : Bool := isDigits t && (t.length == 1 || t.head? != some '0')

def dropSign : List Char → List Char
  | '-' :: t => t
  | t => t

def isExponent : List Char → Bool
  | 'e' :: '+' :: t | 'e' :: '-' :: t | 'E' :: '+' :: t | 'E' :: '-' :: t => isDigits t
  | 'e' :: t | 'E' :: t => isDigits t
  | _ => false

def isFraction : List Char → Bool
  | '.' :: t =>
    let tail := t.dropWhile Char.isDigit
    !(t.takeWhile Char.isDigit).isEmpty && (tail.isEmpty || isExponent tail)
  | t => isExponent t

def isFloatText (t : List Char) : Bool :=
  let body := dropSign t
  t.all isNumberChar && isWhole (body.takeWhile Char.isDigit) &&
    isFraction (body.dropWhile Char.isDigit)

structure FloatText where
  text : List Char
  valid : isFloatText text=true
deriving DecidableEq

inductive Json
  | null
  | bool (b : Bool)
  | nan
  | infinity (negative : Bool)
  | int (n : ℤ)
  | float (x : FloatText)
  | str (s : String)
  | arr (items : List Json)
  | obj (fields : List (String × Json))

section

def hex4 (n : ℕ) : List Char :=
  [hexDigit (n / 4096),hexDigit (n / 256 % 16),hexDigit (n / 16 % 16),hexDigit (n % 16)]

def unicodeEscape (n : ℕ) : List Char := '\\' :: 'u' :: hex4 n

def escapeChar (c : Char) : List Char :=
  match c with
  | '"' => ['\\','"']
  | '\\' => ['\\','\\']
  | '\n' => ['\\','n']
  | '\r' => ['\\','r']
  | '\t' => ['\\','t']
  | '\x08' => ['\\','b']
  | '\x0c' => ['\\','f']
  | c =>
    let n := c.toNat
    if 0x20≤n ∧ n≤0x7e then [c]
    else if n<0x10000 then unicodeEscape n
    else unicodeEscape (0xd800+(n-0x10000) / 1024) ++
      unicodeEscape (0xdc00+(n-0x10000) % 1024)

def renderText (s : String) : List Char := '"' :: (s.toList.flatMap escapeChar++['"'])

def renderInt : ℤ → List Char
  | .ofNat n => Nat.toDigits 10 n
  | .negSucc n => '-' :: Nat.toDigits 10 (n+1)

def str (n : ℤ) : String := String.ofList (renderInt n)

mutual

def render : Json → List Char
  | .null => ['n','u','l','l']
  | .bool true => ['t','r','u','e']
  | .bool false => ['f','a','l','s','e']
  | .nan => ['N','a','N']
  | .infinity false => ['I','n','f','i','n','i','t','y']
  | .infinity true => ['-','I','n','f','i','n','i','t','y']
  | .int n => renderInt n
  | .float x => x.text
  | .str s => renderText s
  | .arr items => '[' :: (renderItems items++[']'])
  | .obj fields => '{' :: (renderFields fields++['}'])

def renderItems : List Json → List Char
  | [] => []
  | [v] => render v
  | v::w::vs => render v ++ ',' :: renderItems (w::vs)

def renderFields : List (String × Json) → List Char
  | [] => []
  | [(key,v)] => renderText key ++ ':' :: render v
  | (key,v)::f::fs => renderText key ++ ':' :: (render v ++ ',' :: renderFields (f::fs))

end

def dumps (v : Json) : String := String.ofList (render v)

mutual

def sortKeys : Json → Json
  | .arr items => .arr (sortItems items)
  | .obj fields => .obj ((sortFields fields).insertionSort fun p q => p.1≤q.1)
  | v => v

def sortItems : List Json → List Json
  | [] => []
  | v::vs => sortKeys v::sortItems vs

def sortFields : List (String × Json) → List (String × Json)
  | [] => []
  | (key,v)::fs => (key,sortKeys v)::sortFields fs

end

end

section

def isBlank (c : Char) : Bool := c == ' ' || c == '\t' || c == '\n' || c == '\r'

def skipBlanks (s : List Char) : List Char := s.dropWhile isBlank

def readHex4 : List Char → Option (ℕ × List Char)
  | a::b::c::d::s => do
    let a ← hexValue a
    let b ← hexValue b
    let c ← hexValue c
    let d ← hexValue d
    return (((a*16+b)*16+c)*16+d,s)
  | _ => none

def readUnicode (s : List Char) : Option (Char × List Char) := do
  let (high,s) ← readHex4 s
  if 0xd800≤high ∧ high<0xdc00 then
    match s with
    | '\\' :: 'u' :: s => do
      let (low,s) ← readHex4 s
      if 0xdc00≤low ∧ low<0xe000 then
        return (Char.ofNat (0x10000+(high-0xd800)*1024+(low-0xdc00)),s)
      else none
    | _ => none
  else if 0xdc00≤high ∧ high<0xe000 then none
  else return (Char.ofNat high,s)

def readEscape : List Char → Option (Char × List Char)
  | 'u' :: s => readUnicode s
  | '"' :: s => some ('"',s)
  | '\\' :: s => some ('\\',s)
  | '/' :: s => some ('/',s)
  | 'b' :: s => some ('\x08',s)
  | 'f' :: s => some ('\x0c',s)
  | 'n' :: s => some ('\n',s)
  | 'r' :: s => some ('\r',s)
  | 't' :: s => some ('\t',s)
  | _ => none

def readChar : List Char → Option (Char × List Char)
  | [] => none
  | c::s =>
    if c = '\\' then readEscape s
    else if c.toNat<0x20 then none
    else some (c,s)

def readChars : ℕ → List Char → Option (List Char × List Char)
  | 0, _ => none
  | fuel+1, s =>
    if s.head?=some '"' then some ([],s.tail)
    else do
      let (c,s) ← readChar s
      let (cs,s) ← readChars fuel s
      return (c::cs,s)

def readText : List Char → Option (String × List Char)
  | '"' :: s => (readChars (s.length+1) s).map fun r => (String.ofList r.1,r.2)
  | _ => none

def readNumber (t : List Char) : Option Json :=
  if h : isFloatText t=true then some (.float ⟨t,h⟩)
  else if isWhole (dropSign t) then
    let n : ℤ := Nat.ofDigitChars 10 (dropSign t) 0
    some (.int (if t.head?=some '-' then -n else n))
  else none

def readLiteral : List Char → Option (Json × List Char)
  | 'n' :: 'u' :: 'l' :: 'l' :: s => some (.null,s)
  | 't' :: 'r' :: 'u' :: 'e' :: s => some (.bool true,s)
  | 'f' :: 'a' :: 'l' :: 's' :: 'e' :: s => some (.bool false,s)
  | 'N' :: 'a' :: 'N' :: s => some (.nan,s)
  | 'I' :: 'n' :: 'f' :: 'i' :: 'n' :: 'i' :: 't' :: 'y' :: s => some (.infinity false,s)
  | '-' :: 'I' :: 'n' :: 'f' :: 'i' :: 'n' :: 'i' :: 't' :: 'y' :: s => some (.infinity true,s)
  | _ => none

def readScalar (s : List Char) : Option (Json × List Char) :=
  match readNumber (s.takeWhile isNumberChar) with
  | some v => some (v,s.dropWhile isNumberChar)
  | none => readLiteral s

mutual

def readValue : ℕ → List Char → Option (Json × List Char)
  | 0, _ => none
  | fuel+1, s =>
    match s with
    | '"' :: _ => (readText s).map fun r => (.str r.1,r.2)
    | '[' :: s =>
      match skipBlanks s with
      | ']' :: s => some (.arr [],s)
      | s => (readItems fuel s).map fun r => (.arr r.1,r.2)
    | '{' :: s =>
      match skipBlanks s with
      | '}' :: s => some (.obj [],s)
      | s => (readFields fuel s).map fun r => (.obj r.1,r.2)
    | s => readScalar s

def readItems : ℕ → List Char → Option (List Json × List Char)
  | 0, _ => none
  | fuel+1, s => do
    let (v,s) ← readValue fuel s
    match skipBlanks s with
    | ',' :: s =>
      let (vs,s) ← readItems fuel (skipBlanks s)
      return (v::vs,s)
    | ']' :: s => return ([v],s)
    | _ => none

def readFields : ℕ → List Char → Option (List (String × Json) × List Char)
  | 0, _ => none
  | fuel+1, s => do
    let (key,s) ← readText s
    match skipBlanks s with
    | ':' :: s =>
      let (v,s) ← readValue fuel (skipBlanks s)
      match skipBlanks s with
      | ',' :: s =>
        let (fs,s) ← readFields fuel (skipBlanks s)
        return ((key,v)::fs,s)
      | '}' :: s => return ([(key,v)],s)
      | _ => none
    | _ => none

end

def loads (text : String) : Option Json := do
  let s := skipBlanks text.toList
  let (v,s) ← readValue (s.length+1) s
  if skipBlanks s=[] then some v else none

def Json.item (d : Json) (key : String) : Except PyError Json :=
  match d with
  | .obj fields =>
    match fields.reverse.find? fun f => f.1=key with
    | some f => .ok f.2
    | none => .error .keyError
  | _ => .error .typeError

def Json.text : Json → Except PyError String
  | .str s => .ok s
  | _ => .error .typeError

end

section

variable {n : ℕ}

theorem readHex4_hex4 (hn : n<0x10000) (s : List Char) : readHex4 (hex4 n++s)=some (n,s) := by
  have hv := hexValue_hexDigit
  have h1 := hv (n / 4096) (by omega)
  have h2 := hv (n / 256 % 16) (by omega)
  have h3 := hv (n / 16 % 16) (by omega)
  have h4 := hv (n % 16) (by omega)
  have hs : ((n / 4096*16+n / 256 % 16)*16+n / 16 % 16)*16+n % 16=n := by omega
  simp [hex4,readHex4,h1,h2,h3,h4,hs]

theorem readUnicode_low (hn : n<0x10000) (hp : ¬(0xd800≤n ∧ n<0xe000)) (s : List Char) :
    readUnicode (hex4 n++s)=some (Char.ofNat n,s) := by
  have hh : ¬(0xd800≤n ∧ n<0xdc00) := by omega
  have hl : ¬(0xdc00≤n ∧ n<0xe000) := by omega
  simp only [readUnicode,readHex4_hex4 hn,bind,Option.bind,hh,hl,↓reduceIte,pure]

theorem readUnicode_pair {high low : ℕ} (hh : 0xd800≤high ∧ high<0xdc00)
    (hl : 0xdc00≤low ∧ low<0xe000) (s : List Char) :
    readUnicode (hex4 high++(unicodeEscape low++s)) =
      some (Char.ofNat (0x10000+(high-0xd800)*1024+(low-0xdc00)),s) := by
  have h1 : high<0x10000 := by omega
  have h2 : low<0x10000 := by omega
  simp only [readUnicode,readHex4_hex4 h1,unicodeEscape,cons_append,bind,Option.bind,
    hh,and_self,↓reduceIte,readHex4_hex4 h2,hl,pure]

theorem isValidChar_toNat (c : Char) : c.toNat<0x110000 ∧ ¬(0xd800≤c.toNat ∧ c.toNat<0xe000) := by
  have hv : c.toNat.isValidChar := c.valid
  omega

theorem readChar_escapeChar (c : Char) (s : List Char) : readChar (escapeChar c++s)=some (c,s) := by
  obtain ⟨hm,hpa⟩ := isValidChar_toNat c
  unfold escapeChar
  split
  · rfl
  · rfl
  · rfl
  · rfl
  · rfl
  · rfl
  · rfl
  next hq hs _ _ _ _ _ =>
  dsimp only
  split_ifs with hp hl
  · have hc : ¬c.toNat<0x20 := not_lt.mpr hp.1
    exact (if_neg hs).trans (if_neg hc)
  · have hr := readUnicode_low hl hpa s
    rwa [Char.ofNat_toNat] at hr
  · have hr := readUnicode_pair (s := s)
      (show 0xd800≤0xd800+(c.toNat-0x10000) / 1024 ∧ _ from by omega)
      (show 0xdc00≤0xdc00+(c.toNat-0x10000) % 1024 ∧ _ from by omega)
    have hsu : 0x10000+(0xd800+(c.toNat-0x10000) / 1024-0xd800)*1024 +
        (0xdc00+(c.toNat-0x10000) % 1024-0xdc00)=c.toNat := by omega
    rw [hsu,Char.ofNat_toNat] at hr
    exact hr

theorem exists_escapeChar (c : Char) : ∃ d t, escapeChar c=d::t ∧ d ≠ '"' := by
  unfold escapeChar
  split
  case h_8 hq _ _ _ _ _ _ =>
    dsimp only
    split_ifs
    · exact ⟨c,[],rfl,hq⟩
    all_goals exact ⟨_,_,rfl,by decide⟩
  all_goals exact ⟨_,_,rfl,by decide⟩

variable {fuel : ℕ}

theorem readChars_escaped (cs rest : List Char) (hf : cs.length<fuel) :
    readChars fuel (cs.flatMap escapeChar ++ '"' :: rest)=some (cs,rest) := by
  induction cs generalizing fuel with
  | nil =>
    obtain ⟨fuel,rfl⟩ := Nat.exists_eq_add_one_of_ne_zero hf.ne'
    rfl
  | cons c cs ih =>
    obtain ⟨fuel,rfl⟩ := Nat.exists_eq_add_one_of_ne_zero (Nat.ne_zero_of_lt hf)
    have hr := ih (Nat.lt_of_succ_lt_succ hf)
    have hre := readChar_escapeChar c (cs.flatMap escapeChar ++ '"' :: rest)
    obtain ⟨d,t,he,hd⟩ := exists_escapeChar c
    have hh : (escapeChar c++(cs.flatMap escapeChar ++ '"' :: rest)).head?≠some '"' := by
      rw [he]
      simpa using hd
    rw [flatMap_cons,append_assoc,readChars,if_neg hh,hre]
    simp [hr]

theorem length_le_length_escaped (cs : List Char) : cs.length≤(cs.flatMap escapeChar).length := by
  induction cs with
  | nil => exact le_rfl
  | cons c cs ih =>
    obtain ⟨d,t,he,_⟩ := exists_escapeChar c
    rw [flatMap_cons,he,length_append,length_cons,length_cons]
    omega

theorem readText_renderText (s : String) (rest : List Char) :
    readText (renderText s++rest)=some (s,rest) := by
  have hl := length_le_length_escaped s.toList
  have hf : s.toList.length<(s.toList.flatMap escapeChar ++ '"' :: rest).length+1 := by
    rw [length_append]
    omega
  have hr := readChars_escaped s.toList rest hf
  simp only [renderText,cons_append,append_assoc,nil_append,readText,
    hr,Option.map_some,String.ofList_toList]

theorem isDigits_toDigits (n : ℕ) : isDigits (Nat.toDigits 10 n)=true := by
  have ha : (Nat.toDigits 10 n).all Char.isDigit=true := by
    rw [all_eq_true]
    intro c hc
    exact Nat.isDigit_of_mem_toDigits (by decide) (by decide) hc
  have hne : (Nat.toDigits 10 n).isEmpty=false := by simp
  rw [isDigits,hne,ha]
  rfl

theorem digitChar_ne_zero : ∀ d<10, 0<d → Nat.digitChar d ≠ '0' := by decide

theorem head_toDigits (hn : 0<n) : (Nat.toDigits 10 n).head?≠some '0' := by
  induction n using Nat.strong_induction_on with
  | h n ih =>
    rw [Nat.toDigits_eq_if (by decide)]
    split_ifs with hs
    · simpa using digitChar_ne_zero n hs hn
    · have hh := ih (n / 10) (by omega) (by omega)
      rwa [head?_append_of_ne_nil _ Nat.toDigits_ne_nil]

theorem isWhole_toDigits (n : ℕ) : isWhole (Nat.toDigits 10 n)=true := by
  rw [isWhole,isDigits_toDigits,Bool.true_and,Bool.or_eq_true]
  by_cases hn : 0<n
  · exact .inr (bne_iff_ne.mpr (head_toDigits hn))
  · obtain rfl : n=0 := by omega
    exact .inl rfl

variable {t : List Char}

theorem all_isNumberChar_of_isDigits (h : isDigits t=true) : t.all isNumberChar=true := by
  rw [isDigits,Bool.and_eq_true] at h
  rw [all_eq_true] at h ⊢
  intro c hc
  rw [isNumberChar,h.2 c hc]
  rfl

theorem isFloatText_eq_false (h : isDigits (dropSign t)=true) : isFloatText t=false := by
  rw [isDigits,Bool.and_eq_true,all_eq_true] at h
  have hd : (dropSign t).dropWhile Char.isDigit=[] := dropWhile_eq_nil_iff.mpr h.2
  simp only [isFloatText,hd]
  exact Bool.and_false _

theorem dropSign_of_isDigits (h : isDigits t=true) : dropSign t=t := by
  unfold dropSign
  split
  · simp [isDigits] at h
  · rfl

theorem readNumber_of_isWhole (h : isWhole (dropSign t)=true) :
    readNumber t=some (.int (if t.head?=some '-' then -(Nat.ofDigitChars 10 (dropSign t) 0 : ℤ)
      else Nat.ofDigitChars 10 (dropSign t) 0)) := by
  have hd := (Bool.and_eq_true _ _ ▸ h : _ ∧ _).1
  rw [readNumber,dif_neg (Bool.eq_false_iff.mp (isFloatText_eq_false hd)),if_pos h]

theorem readNumber_renderInt (n : ℤ) : readNumber (renderInt n)=some (.int n) := by
  cases n with
  | ofNat n =>
    have hdr := dropSign_of_isDigits (isDigits_toDigits n)
    have hh : (Nat.toDigits 10 n).head?≠some '-' := by
      intro hh
      have hd := Nat.isDigit_of_mem_toDigits (by decide) (by decide) (mem_of_head? hh)
      exact absurd hd (by decide)
    rw [renderInt,readNumber_of_isWhole (hdr.symm ▸ isWhole_toDigits n),if_neg hh,hdr,
      Nat.ofDigitChars_ten_toDigits]
    rfl
  | negSucc n =>
    have hr := readNumber_of_isWhole (t := '-' :: Nat.toDigits 10 (n+1))
      (isWhole_toDigits (n+1))
    rw [renderInt,hr,dropSign,Nat.ofDigitChars_ten_toDigits]
    rfl

theorem all_isNumberChar_renderInt (n : ℤ) : (renderInt n).all isNumberChar=true := by
  cases n with
  | ofNat n => exact all_isNumberChar_of_isDigits (isDigits_toDigits n)
  | negSucc n =>
    rw [renderInt,all_cons,all_isNumberChar_of_isDigits (isDigits_toDigits (n+1))]
    rfl

theorem str_injective : Function.Injective str := by
  intro m n h
  have hr := congrArg readNumber (String.ofList_injective h)
  rw [readNumber_renderInt,readNumber_renderInt] at hr
  exact Json.int.inj (Option.some.inj hr)

def Ends (rest : List Char) : Prop := ∀ c ∈ rest.head?, isNumberChar c=false

theorem readScalar_number {rest : List Char} {v : Json} (ha : t.all isNumberChar=true)
    (hr : readNumber t=some v) (hre : Ends rest) : readScalar (t++rest)=some (v,rest) := by
  have ht : rest.takeWhile isNumberChar=[] := by
    cases rest with
    | nil => rfl
    | cons c rest => exact takeWhile_cons_of_neg (by simp [hre c rfl])
  have hd : rest.dropWhile isNumberChar=rest := by
    cases rest with
    | nil => rfl
    | cons c rest => exact dropWhile_cons_of_neg (by simp [hre c rfl])
  rw [all_eq_true] at ha
  rw [readScalar,takeWhile_append_of_pos ha,dropWhile_append_of_pos ha,ht,hd,append_nil,hr]

theorem renderInt_ne_nil (n : ℤ) : renderInt n≠[] := by
  cases n with
  | ofNat n => exact Nat.toDigits_ne_nil
  | negSucc n => exact cons_ne_nil _ _

theorem FloatText.all_isNumberChar (x : FloatText) : x.text.all isNumberChar=true := by
  have hv := x.valid
  rw [isFloatText,Bool.and_eq_true,Bool.and_eq_true] at hv
  exact hv.1.1

theorem FloatText.ne_nil (x : FloatText) : x.text≠[] := by
  intro hn
  have hv := x.valid
  rw [hn] at hv
  exact absurd hv (by decide)

def Opens (t : List Char) : Prop := ∃ c s, t=c::s ∧ isBlank c=false ∧ c ≠ ']'

theorem opens_of_isNumberChar (hne : t≠[]) (ha : t.all isNumberChar=true) : Opens t := by
  obtain ⟨c,s,rfl⟩ := exists_cons_of_ne_nil hne
  have hc : isNumberChar c=true := all_eq_true.mp ha c mem_cons_self
  refine ⟨c,s,rfl,?_,?_⟩
  · by_contra hb
    simp only [Bool.not_eq_false,isBlank,Bool.or_eq_true,beq_iff_eq] at hb
    rcases hb with ((rfl|rfl)|rfl)|rfl <;> exact absurd hc (by decide)
  · intro hcl
    subst hcl
    exact absurd hc (by decide)

theorem opens_render (v : Json) : Opens (render v) := by
  cases v with
  | null | nan | str _ | arr _ | obj _ => exact ⟨_,_,rfl,by decide,by decide⟩
  | bool b => cases b <;> exact ⟨_,_,rfl,by decide,by decide⟩
  | infinity negative => cases negative <;> exact ⟨_,_,rfl,by decide,by decide⟩
  | int n => exact opens_of_isNumberChar (renderInt_ne_nil n) (all_isNumberChar_renderInt n)
  | float x => exact opens_of_isNumberChar x.ne_nil x.all_isNumberChar

theorem Opens.append (h : Opens t) (rest : List Char) : Opens (t++rest) := by
  obtain ⟨c,s,rfl,hb,hc⟩ := h
  exact ⟨c,s++rest,rfl,hb,hc⟩

theorem Opens.skipBlanks (h : Opens t) : skipBlanks t=t := by
  obtain ⟨c,s,rfl,hb,_⟩ := h
  exact dropWhile_cons_of_neg (by simp [hb])

theorem ends_cons {c : Char} (hc : isNumberChar c=false) (rest : List Char) : Ends (c::rest) := by
  intro d hd
  obtain rfl : c=d := Option.some.inj hd
  exact hc

theorem readValue_number {rest : List Char} {v : Json} (fuel : ℕ) (hne : t≠[])
    (ha : t.all isNumberChar=true) (hr : readNumber t=some v) (hre : Ends rest) :
    readValue (fuel+1) (t++rest)=some (v,rest) := by
  have hs := readScalar_number ha hr hre
  obtain ⟨c,s,rfl⟩ := exists_cons_of_ne_nil hne
  have hc : isNumberChar c=true := all_eq_true.mp ha c mem_cons_self
  unfold readValue
  split
  case h_4 => exact hs
  all_goals
    next h =>
    obtain rfl := (List.cons.inj h).1
    exact absurd hc (by decide)

theorem opens_renderItems (v : Json) (vs : List Json) : Opens (renderItems (v::vs)) := by
  cases vs with
  | nil => exact opens_render v
  | cons w vs => exact (opens_render v).append _

theorem readValue_items {s : List Char} (fuel : ℕ) (h : Opens s) :
    readValue (fuel+1) ('[' :: s)=(readItems fuel s).map fun r => (.arr r.1,r.2) := by
  have hs := h.skipBlanks
  obtain ⟨c,t,rfl,_,hc⟩ := h
  simp only [readValue,hs]
  split
  next heq => exact absurd (List.cons.inj heq).1 hc
  next => rfl

theorem exists_renderFields (f : String × Json) (fs : List (String × Json)) :
    ∃ s, renderFields (f::fs) = '"' :: s := by
  cases fs with
  | nil => exact ⟨_,rfl⟩
  | cons g fs => exact ⟨_,rfl⟩

structure ReadsBack (fuel : ℕ) : Prop where
  value : ∀ v rest, (render v).length<fuel → Ends rest →
    readValue fuel (render v++rest)=some (v,rest)
  items : ∀ v vs rest, (renderItems (v::vs)).length+1<fuel →
    readItems fuel (renderItems (v::vs) ++ ']' :: rest)=some (v::vs,rest)
  fields : ∀ f fs rest, (renderFields (f::fs)).length+1<fuel →
    readFields fuel (renderFields (f::fs) ++ '}' :: rest)=some (f::fs,rest)

theorem ReadsBack.value_succ (h : ReadsBack fuel) (v : Json) (rest : List Char)
    (hf : (render v).length<fuel+1) (hr : Ends rest) :
    readValue (fuel+1) (render v++rest)=some (v,rest) := by
  cases v with
  | null => rfl
  | bool b => cases b <;> rfl
  | nan => rfl
  | infinity negative => cases negative <;> rfl
  | int n =>
    exact readValue_number fuel (renderInt_ne_nil n) (all_isNumberChar_renderInt n)
      (readNumber_renderInt n) hr
  | float x =>
    have hre : readNumber x.text=some (.float x) := by rw [readNumber,dif_pos x.valid]
    exact readValue_number fuel x.ne_nil x.all_isNumberChar hre hr
  | str s =>
    have hre := readText_renderText s rest
    simp only [render,readValue] at hre ⊢
    rw [hre]
    rfl
  | arr items =>
    cases items with
    | nil => rfl
    | cons v vs =>
      have hl : (renderItems (v::vs)).length+1<fuel := by
        simp only [render,length_cons,length_append] at hf
        omega
      have hre := h.items v vs rest hl
      rw [render,cons_append,append_assoc,singleton_append,
        readValue_items fuel ((opens_renderItems v vs).append _),hre]
      rfl
  | obj fields =>
    cases fields with
    | nil => rfl
    | cons f fs =>
      have hl : (renderFields (f::fs)).length+1<fuel := by
        simp only [render,length_cons,length_append] at hf
        omega
      have hre := h.fields f fs rest hl
      obtain ⟨s,hs⟩ := exists_renderFields f fs
      have hb : readValue (fuel+1) ('{' :: '"' :: (s ++ '}' :: rest)) =
          (readFields fuel ('"' :: (s ++ '}' :: rest))).map fun r => (.obj r.1,r.2) := rfl
      rw [hs,cons_append] at hre
      rw [render,hs,cons_append,append_assoc,singleton_append,cons_append,hb,hre]
      rfl

theorem ReadsBack.items_succ (h : ReadsBack fuel) (v : Json) (vs : List Json) (rest : List Char)
    (hf : (renderItems (v::vs)).length+1<fuel+1) :
    readItems (fuel+1) (renderItems (v::vs) ++ ']' :: rest)=some (v::vs,rest) := by
  cases vs with
  | nil =>
    have hr := h.value v (']' :: rest) (by simpa [renderItems] using hf)
      (ends_cons (by decide) rest)
    simp only [renderItems,readItems,hr]
    rfl
  | cons w vs =>
    simp only [renderItems,length_append,length_cons] at hf
    have hr := h.value v (',' :: (renderItems (w::vs) ++ ']' :: rest)) (by omega)
      (ends_cons (by decide) _)
    have hi := h.items w vs rest (by omega)
    have hs := ((opens_renderItems w vs).append (']' :: rest)).skipBlanks
    have hc : skipBlanks (',' :: (renderItems (w::vs) ++ ']' :: rest)) =
        ',' :: (renderItems (w::vs) ++ ']' :: rest) := rfl
    rw [renderItems]
    simp [readItems,hr,hc,hs,hi]

theorem ReadsBack.fields_succ (h : ReadsBack fuel) (f : String × Json) (fs : List (String × Json))
    (rest : List Char) (hfu : (renderFields (f::fs)).length+1<fuel+1) :
    readFields (fuel+1) (renderFields (f::fs) ++ '}' :: rest)=some (f::fs,rest) := by
  obtain ⟨key,v⟩ := f
  have ho := opens_render v
  cases fs with
  | nil =>
    simp only [renderFields,length_append,length_cons] at hfu
    have ht := readText_renderText key (':' :: (render v ++ '}' :: rest))
    have hr := h.value v ('}' :: rest) (by omega) (ends_cons (by decide) rest)
    have hsk := (ho.append ('}' :: rest)).skipBlanks
    have hc : skipBlanks (':' :: (render v ++ '}' :: rest)) =
        ':' :: (render v ++ '}' :: rest) := rfl
    have hcl : skipBlanks ('}' :: rest) = '}' :: rest := rfl
    rw [renderFields]
    simp [readFields,ht,hc,hsk,hr,hcl]
  | cons g fs =>
    simp only [renderFields,length_append,length_cons] at hfu
    have ht := readText_renderText key
      (':' :: (render v ++ ',' :: (renderFields (g::fs) ++ '}' :: rest)))
    have hr := h.value v (',' :: (renderFields (g::fs) ++ '}' :: rest)) (by omega)
      (ends_cons (by decide) _)
    have hf := h.fields g fs rest (by omega)
    have hsk := (ho.append (',' :: (renderFields (g::fs) ++ '}' :: rest))).skipBlanks
    have hc : skipBlanks (':' :: (render v ++ ',' :: (renderFields (g::fs) ++ '}' :: rest))) =
        ':' :: (render v ++ ',' :: (renderFields (g::fs) ++ '}' :: rest)) := rfl
    have hco : skipBlanks (',' :: (renderFields (g::fs) ++ '}' :: rest)) =
        ',' :: (renderFields (g::fs) ++ '}' :: rest) := rfl
    have hn : skipBlanks (renderFields (g::fs) ++ '}' :: rest) =
        renderFields (g::fs) ++ '}' :: rest := by
      obtain ⟨s,hs⟩ := exists_renderFields g fs
      rw [hs]
      rfl
    rw [renderFields]
    simp [readFields,ht,hc,hsk,hr,hco,hn,hf]

theorem readsBack (fuel : ℕ) : ReadsBack fuel := by
  induction fuel with
  | zero => exact ⟨by omega,by omega,by omega⟩
  | succ fuel ih => exact ⟨ih.value_succ,ih.items_succ,ih.fields_succ⟩

theorem loads_dumps (v : Json) : loads (dumps v)=some v := by
  have hs := (opens_render v).skipBlanks
  have he : Ends [] := by
    intro c hc
    cases hc
  have hr := (readsBack ((render v).length+1)).value v [] (Nat.lt_succ_self _) he
  rw [append_nil] at hr
  simp only [loads,dumps,String.toList_ofList,hs,hr]
  rfl

theorem render_injective : Function.Injective render := by
  intro v w h
  have hl := congrArg loads (congrArg String.ofList h)
  exact Option.some.inj ((loads_dumps v).symm.trans (hl.trans (loads_dumps w)))

instance : DecidableEq Json := fun _ _ => decidable_of_iff _ render_injective.eq_iff

end

example : (loads " [1, -2.5e3, \"a\\u00e9\\n\", \x7b\"k\" : null\x7d]").map dumps =
    some "[1,-2.5e3,\"a\\u00e9\\n\",\x7b\"k\":null\x7d]" := by decide +kernel

end LatticeTransfer.JsonText
