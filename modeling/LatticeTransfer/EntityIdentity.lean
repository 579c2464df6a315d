import LatticeTransfer.CommitmentLog
import Mathlib.Data.String.Basic

/-!
# Entities and their identifiers

`canonicalize_shape` and `Entity.compute_id`. An entity is its content together with
a canonical shape, and its identifier hashes the content, the shape, the timestamp
and the key of the sender one after the other. The timestamp and the key have fixed
lengths, the content and the shape do not.

Of the characters outside ASCII only the Kelvin sign has a lower case inside it; the
others keep their place. No canonical media type or parameter name holds one, and the
messages leave the lowered text out.
-/

namespace LatticeTransfer
open MerkleTree CommitmentLog

namespace Shape

def isSpace (c : Char) : Bool :=
  let n := c.toNat
  (9≤n && n≤13) || (28≤n && n≤32) || n == 0x85 || n == 0xA0 || n == 0x1680 ||
    (0x2000≤n && n≤0x200A) || n == 0x2028 || n == 0x2029 || n == 0x202F || n == 0x205F ||
    n == 0x3000

def stripEnd (s : List Char) : List Char := (s.reverse.dropWhile isSpace).reverse

def strip (s : List Char) : List Char := stripEnd (s.dropWhile isSpace)

def lower (c : Char) : Char :=
  if 'A' ≤ c ∧ c ≤ 'Z' then Char.ofNat (c.toNat+32)
  else if c.toNat=0x212A then 'k'
  else c

def isAlphanumeric (c : Char) : Bool :=
  ('a' ≤ c && c ≤ 'z') || ('A' ≤ c && c ≤ 'Z') || ('0' ≤ c && c ≤ '9')

def matchesToken : List Char → Bool
  | [] => false
  | c::cs => isAlphanumeric c &&
      cs.all fun d => isAlphanumeric d || "!#$&-^_.+".toList.contains d

def matchesMediaType (s : List Char) : Bool :=
  match s.splitOn '/' with
  | [kind,subtype] => matchesToken kind && matchesToken subtype
  | _ => false

def matchesParam (s : List Char) : Bool :=
  let s := s.dropWhile isSpace
  let isName := fun c => isAlphanumeric c || c == '-'
  match (s.dropWhile isName).dropWhile isSpace with
  | '=' :: rest =>
    let value := rest.dropWhile isSpace
    !(s.takeWhile isName).isEmpty && !value.isEmpty && value.all fun c => !isSpace c
  | _ => false

def chompNewline (s : List Char) : List Char :=
  if s.getLast?=some '\n' then s.dropLast else s

def matchesShapePattern (canonical : List Char) : Bool :=
  match canonical.splitOn ';' with
  | [] => false
  | [mediaType] => matchesMediaType (chompNewline mediaType)
  | mediaType::p::ps =>
    matchesMediaType (stripEnd mediaType) && ((p::ps).dropLast.all (matchesParam ∘ stripEnd) &&
      ((p::ps).getLast?.any (matchesParam ∘ chompNewline)))

def splitParam (param : List Char) : Except PyError (List Char × List Char) :=
  if '=' ∈ param then
    .ok ((strip (param.takeWhile (· ≠ '='))).map lower,strip ((param.dropWhile (· ≠ '=')).drop 1))
  else
    let text := String.ofList param
    .error (.valueError s!"Invalid shape parameter (missing '='): '{text}'")

def canonicalText (mediaType : List Char) (params : List (List Char × List Char)) : List Char :=
  mediaType++params.flatMap fun p => ';' :: (p.1 ++ '=' :: p.2)

def canonicalizeShape (shape : String) : Except PyError String := do
  if shape = "" then .error (.valueError "Shape must be a non-empty string, got: ''")
  let parts := shape.toList.splitOn ';'
  let mediaType := (strip (parts.headD [])).map lower
  if '/' ∉ mediaType then
    .error (.valueError
      s!"Invalid shape '{shape}': must be a media type (type/subtype). See LTP Whitepaper §1.1.1.")
  let params ← ((parts.tail.map strip).filter (· ≠ [])).mapM splitParam
  let canonical := canonicalText mediaType (params.insertionSort fun p q => p.1≤q.1)
  if matchesShapePattern canonical then return String.ofList canonical
  else .error (.valueError
    s!"Invalid shape '{shape}': does not match media type format. See LTP Whitepaper §1.1.1.")

example : canonicalizeShape "application/JSON ; Schema=v1; charset = utf-8" =
    .ok "application/json;charset=utf-8;schema=v1" := by decide +kernel

end Shape

structure Entity where
  content : Bytes
  shape : String
  canonical : ∃ raw, Shape.canonicalizeShape raw=.ok shape

namespace Entity

def create (content : Bytes) (shape : String) : Except PyError Entity :=
  match h : Shape.canonicalizeShape shape with
  | .error e => .error e
  | .ok canonical => .ok ⟨content,canonical,shape,h⟩

def identityInput (content : Bytes) (shape : String) (timestamp : UInt64) (senderVk : Bytes) :
    Bytes :=
  content++encodeText shape++PyValue.toBigEndian 8 timestamp.toNat++senderVk

variable (H : CanonicalHash)

def computeId (e : Entity) (senderVk : Bytes) (timestamp : UInt64) : String :=
  canonicalHash H (identityInput e.content e.shape timestamp senderVk)

theorem encodeText_injective : Function.Injective encodeText := by
  intro s t h
  exact String.toByteArray_inj.mp (ByteArray.ext (Array.toList_inj.mp h))

theorem canonicalHash_inj {queries : List Bytes} (hf : CollisionFree H queries) {x y : Bytes}
    (hx : x ∈ queries) (hy : y ∈ queries) (h : canonicalHash H x=canonicalHash H y) : x=y := by
  refine hf x hx y hy ?_
  have hh : PyValue.hex (H.run x)=PyValue.hex (H.run y) := String.append_right_inj _ |>.mp h
  have hd := congrArg PyValue.fromHex hh
  rw [PyValue.fromHex_hex,PyValue.fromHex_hex] at hd
  exact Except.ok.inj hd

theorem timestamp_inj {s t : UInt64}
    (h : PyValue.toBigEndian 8 s.toNat=PyValue.toBigEndian 8 t.toNat) : s=t := by
  have hs := PyValue.ofBigEndian_toBigEndian 8 s.toNat s.toNat_lt
  have ht := PyValue.ofBigEndian_toBigEndian 8 t.toNat t.toNat_lt
  rw [h,ht] at hs
  exact UInt64.toNat_inj.mp hs.symm

theorem identityInput_eq_iff {content content' : Bytes} {shape shape' : String}
    {now now' : UInt64} {senderVk senderVk' : Bytes}
    (hvk : senderVk.length=senderVk'.length) : identityInput content shape now senderVk =
        identityInput content' shape' now' senderVk' ↔
      content++encodeText shape=content'++encodeText shape' ∧ now=now' ∧ senderVk=senderVk' := by
  constructor
  · intro h
    obtain ⟨hl,hk⟩ := List.append_inj' h hvk
    obtain ⟨hj,ht⟩ := List.append_inj' hl (by simp)
    exact ⟨hj,timestamp_inj ht,hk⟩
  · rintro ⟨hj,rfl,rfl⟩
    rw [identityInput,identityInput,hj]

def Binds (e e' : Entity) (senderVk senderVk' : Bytes) (timestamp timestamp' : UInt64) : Prop :=
  e.computeId H senderVk timestamp=e'.computeId H senderVk' timestamp' →
    e.content=e'.content ∧ e.shape=e'.shape ∧ timestamp=timestamp' ∧ senderVk=senderVk'

theorem computeId_binds_iff {e e' : Entity} {senderVk senderVk' : Bytes}
    {timestamp timestamp' : UInt64}
    (hfree : CollisionFree H [identityInput e.content e.shape timestamp senderVk,
      identityInput e'.content e'.shape timestamp' senderVk'])
    (hvk : senderVk.length=senderVk'.length) :
    Binds H e e' senderVk senderVk' timestamp timestamp' ↔
      (encodeText e.shape).length=(encodeText e'.shape).length ∨
        e.content++encodeText e.shape≠e'.content++encodeText e'.shape ∨
        timestamp≠timestamp' ∨ senderVk≠senderVk' := by
  constructor
  · intro hb
    by_contra hn
    push Not at hn
    obtain ⟨hl,hj,rfl,rfl⟩ := hn
    refine hl ?_
    have hid : e.computeId H senderVk timestamp=e'.computeId H senderVk timestamp :=
      congrArg (canonicalHash H) ((identityInput_eq_iff rfl).mpr ⟨hj,rfl,rfl⟩)
    rw [(hb hid).2.1]
  · intro hco hid
    have hi := canonicalHash_inj H hfree (by simp) (by simp) hid
    obtain ⟨hj,ht,hk⟩ := (identityInput_eq_iff hvk).mp hi
    rcases hco with hl|hj'|ht'|hk'
    · obtain ⟨hc,hs⟩ := List.append_inj' hj hl
      exact ⟨hc,encodeText_injective hs,ht,hk⟩
    · exact absurd hj hj'
    · exact absurd ht ht'
    · exact absurd hk hk'

def plainEntity : Entity := ⟨[0x78],"text/plain","text/plain",by decide +kernel⟩

def shiftedEntity : Entity := ⟨[0x78,0x74],"ext/plain","ext/plain",by decide +kernel⟩

theorem plainEntity_binds : Binds cutHash plainEntity
    ⟨[0x79],"text/plain","text/plain",by decide +kernel⟩ [1] [1] 0 0 :=
  (computeId_binds_iff cutHash (by decide +kernel) rfl).mpr (.inl rfl)

theorem shiftedEntity_same_id :
    plainEntity.computeId cutHash [1] 0=shiftedEntity.computeId cutHash [1] 0 ∧
      plainEntity.content≠shiftedEntity.content ∧ plainEntity.shape≠shiftedEntity.shape := by
  decide +kernel

end Entity
end LatticeTransfer
