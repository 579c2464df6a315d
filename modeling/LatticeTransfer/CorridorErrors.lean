import LatticeTransfer.CorridorWire

/-!
# The exceptions of the corridor

The decoders of `corridor.wire` are to raise `WireFormatError` and nothing else, whatever JSON value
they are given, and `verify_attestation` an `LtpError`. `RaisesOnly` says that of a computation. A
decoder reads its fields in an order, and the first one that it cannot read decides (`AllFine`).

Four things get through: a value that is not an object, an infinite float in an integer field, a
number or a MAC that only the constructor of a state anchor refuses, and a number of an attestation
that does not fit into eight bytes.
-/

namespace LatticeTransfer
open PyValue

section
variable {ε α β : Type}

def RaisesOnly (allowed : ε → Prop) (x : Except ε α) : Prop := ∀ e, x=.error e → allowed e

variable {allowed : ε → Prop} {x : Except ε α}

namespace RaisesOnly

theorem ok (a : α) : RaisesOnly allowed (.ok a : Except ε α) := by
  intro e h
  cases h

theorem error {e : ε} (h : allowed e) : RaisesOnly allowed (.error e : Except ε α) := by
  intro e' he'
  cases he'
  exact h

variable {f : α → Except ε β}

theorem bind_iff : RaisesOnly allowed (x >>= f) ↔
    RaisesOnly allowed x ∧ ∀ a, x=.ok a → RaisesOnly allowed (f a) := by
  cases x with
  | error e => exact ⟨fun h => ⟨.error (h e rfl),nofun⟩,fun h => .error (h.1 e rfl)⟩
  | ok a =>
    refine ⟨fun h => ⟨.ok a,?_⟩,fun h => h.2 a rfl⟩
    rintro _ ⟨⟩
    exact h

theorem bind (hx : RaisesOnly allowed x) (hf : ∀ a, x=.ok a → RaisesOnly allowed (f a)) :
    RaisesOnly allowed (x >>= f) := bind_iff.mpr ⟨hx,hf⟩

theorem mapM (h : ∀ a, RaisesOnly allowed (f a)) (l : List α) : RaisesOnly allowed (l.mapM f) := by
  induction l with
  | nil => exact ok []
  | cons a l ih =>
    rw [List.mapM_cons]
    exact (h a).bind fun b _ => ih.bind fun bs _ => ok (b::bs)

end RaisesOnly

/-- When a reading raises only what it may, and when it succeeds. -/
structure Reading where
  fine : Prop
  reads : Prop

def AllFine : List Reading → Prop
  | [] => True
  | reading::rest => reading.fine ∧ (reading.reads → AllFine rest)

def anyway (x : Except ε α) : Reading := ⟨True,x.isOk=true⟩

variable {f : α → Except ε β} {reading : Reading} {rest : List Reading}

theorem bind_iff_allFine (hx : RaisesOnly allowed x ↔ reading.fine)
    (hr : reading.reads ↔ x.isOk=true)
    (hf : ∀ a, x=.ok a → (RaisesOnly allowed (f a) ↔ AllFine rest)) :
    RaisesOnly allowed (x >>= f) ↔ AllFine (reading::rest) := by
  rw [RaisesOnly.bind_iff,AllFine,hx,hr]
  refine and_congr_right fun _ => ?_
  cases x with
  | error e => exact iff_of_true nofun nofun
  | ok a =>
    constructor
    · exact fun h _ => (hf a rfl).mp (h a rfl)
    · rintro h _ ⟨⟩
      exact (hf a rfl).mpr (h rfl)

theorem anyway_bind_iff (hx : RaisesOnly allowed x)
    (hf : ∀ a, x=.ok a → (RaisesOnly allowed (f a) ↔ AllFine rest)) :
    RaisesOnly allowed (x >>= f) ↔ AllFine (anyway x::rest) :=
  bind_iff_allFine (iff_of_true hx trivial) Iff.rfl hf

theorem mapM_iff_allFine {readings : α → Reading} {l : List α}
    (hx : ∀ a, RaisesOnly allowed (f a) ↔ (readings a).fine)
    (hr : ∀ a, (readings a).reads ↔ (f a).isOk=true) :
    RaisesOnly allowed (l.mapM f) ↔ AllFine (l.map readings) := by
  induction l with
  | nil => exact iff_of_true (.ok []) trivial
  | cons a l ih =>
    rw [List.mapM_cons,List.map_cons]
    refine bind_iff_allFine (hx a) (hr a) fun b _ => ?_
    rw [← ih,RaisesOnly.bind_iff]
    exact and_iff_left fun bs _ => .ok (b::bs)

end

namespace Corridors
open JsonText
open MerkleTree (cutHash)

def WireError.IsWireFormat : WireError → Prop
  | .wireFormat _ => True
  | .raised _ => False

def LtpError.IsLtp : LtpError → Prop
  | .raised _ => False
  | _ => True

def IsTypeOrValueError : PyError → Prop
  | .typeError => True
  | .valueError _ => True
  | _ => False

/-- `int()` of a text raises a `ValueError` if anything. -/
def IntConversions.Lawful (N : IntConversions) : Prop :=
  ∀ s, RaisesOnly (fun e => ∃ message, e=.valueError message) (N.ofText s)

abbrev Clean {α : Type} (x : Except WireError α) : Prop := RaisesOnly WireError.IsWireFormat x

section
variable (N : IntConversions)

def ofObject {α : Type} (decode : WireDict → Except WireError α) : Json → Except WireError α
  | .obj d => decode d
  | _ => .error (.raised .typeError)

def isText (s : String) : Json → Bool
  | .str t => t=s
  | _ => false

def missingCid {α : Type} : Except WireError α := .error (.wireFormat "missing field 'cid'")

def commitmentFromJson : Json → Except WireError Commitment
  | .obj d => commitmentFromDict N d
  | .arr items => if items.any (isText "cid") then .error (.raised .typeError) else missingCid
  | .str s => if "cid".toList <:+: s.toList then .error (.raised .typeError) else missingCid
  | _ => .error (.raised .typeError)

def WireType.fromJson : (t : WireType) → Json → Except WireError t.Value
  | .attestationPayload => ofObject (attestationPayloadFromDict N)
  | .witnessSignature => ofObject (witnessSignatureFromDict N)
  | .corridorAttestation => ofObject (corridorAttestationFromDict N)
  | .superNode => ofObject (superNodeFromDict N)
  | .corridor => ofObject (corridorFromDict N)
  | .cid => cidFromDict
  | .daSla => ofObject (daSlaFromDict N)
  | .commitment => commitmentFromJson N
  | .didRotationStatement => ofObject (didRotationStatementFromDict N)
  | .didStarkProof => ofObject (didStarkProofFromDict N)
  | .stateAnchor => ofObject (stateAnchorFromDict N)

end

section
variable (N : IntConversions)

def Infinite : Json → Prop
  | .infinity _ => True
  | .float x => N.ofFloat x=none
  | _ => False

def integer (x : Json) : Reading := ⟨¬Infinite N x,(toInt N x).isOk=true⟩

def number (d : WireDict) (name : String) : Reading :=
  ⟨∀ x, lookup d name=some x → ¬Infinite N x,(intField N d name true).isOk=true⟩

def nested {α : Type} (d : WireDict) (name : String) (fields : WireDict → List Reading)
    (decode : WireDict → Except WireError α) : Reading :=
  ⟨∀ s, lookup d name=some (.obj s) → AllFine (fields s),(dictField d name >>= decode).isOk=true⟩

def itemsOf {α : Type} (d : WireDict) (name : String) (fields : List Json → List Reading)
    (decode : List Json → Except WireError α) : Reading :=
  ⟨∀ l, lookup d name=some (.arr l) → AllFine (fields l),(listField d name >>= decode).isOk=true⟩

def payloadFields (d : WireDict) : List Reading :=
  [number N d "source_chain",number N d "target_chain",number N d "source_height",
    anyway (hexBytes d "state_root" (some 32)),number N d "timestamp_round"]

def signersOf (l : List Json) : Except WireError (List ℤ) :=
  orWireFormat "signers must be a list of integers" (l.mapM (toInt N))

def attestationFields (d : WireDict) : List Reading :=
  [itemsOf d "signers" (List.map (integer N)) (signersOf N),
    nested d "payload" (payloadFields N) (attestationPayloadFromDict N)]

def superNodeFields (d : WireDict) : List Reading :=
  [anyway (popField N d),number N d "authority",number N d "corridor"]

def memberField (x : Json × ℕ) : Reading :=
  ⟨∀ s, x.1=.obj s → AllFine (superNodeFields N s),(memberFromDict N x).isOk=true⟩

def corridorFields (d : WireDict) : List Reading :=
  [itemsOf d "members" (fun l => l.zipIdx.map (memberField N))
    (fun l => l.zipIdx.mapM (memberFromDict N)),number N d "id"]

def daSlaFields (d : WireDict) : List Reading :=
  [number N d "retention_rounds",number N d "max_retrieval_latency_rounds"]

def commitmentFields (d : WireDict) : List Reading :=
  [anyway (item d "cid" >>= cidFromDict),number N d "size_bytes",number N d "stored_at",
    nested d "sla" (daSlaFields N) (daSlaFromDict N)]

def statementFields (d : WireDict) : List Reading :=
  [anyway (hexBytes d "did" (some 32)),anyway (hexBytes d "old_doc_hash" (some 32)),
    anyway (hexBytes d "new_doc_hash" (some 32)),number N d "source_chain",
    number N d "target_chain",number N d "source_height"]

def starkProofFields (d : WireDict) : List Reading :=
  [nested d "statement" (statementFields N) (didRotationStatementFromDict N),
    number N d "signing_method_id"]

def AnchorInRange (d : WireDict) : Prop :=
  (∀ n, intField N d "chain_id" true=.ok n → n<(2^32 : ℕ)) ∧
    (∀ n, intField N d "height" true=.ok n → n<(2^64 : ℕ)) ∧
    ∀ mac, hexBytes d "mac" none=.ok mac → mac.length=32

def anchorFields (d : WireDict) : List Reading :=
  [number N d "auth_scheme",anyway (intField N d "auth_scheme" true >>= schemeOf),
    number N d "chain_id",number N d "height",anyway (hexBytes d "state_root" (some 32)),
    anyway (hexBytes d "parent" (some 32)),anyway (hexBytes d "mac" none),
    ⟨AnchorInRange N d,True⟩]

def OnObject (fields : WireDict → List Reading) : Json → Prop
  | .obj d => AllFine (fields d)
  | _ => False

/-- The test for the identifier refuses a list and a text in which it finds none. -/
def CommitmentDecodable : Json → Prop
  | .obj d => AllFine (commitmentFields N d)
  | .arr items => items.any (isText "cid")=false
  | .str s => ¬ "cid".toList <:+: s.toList
  | _ => False

/-- The value is an object, and the first field that cannot be read holds no infinite number. -/
def WireType.Decodable : WireType → Json → Prop
  | .attestationPayload => OnObject (payloadFields N)
  | .witnessSignature => OnObject fun d => [number N d "witness"]
  | .corridorAttestation => OnObject (attestationFields N)
  | .superNode => OnObject (superNodeFields N)
  | .corridor => OnObject (corridorFields N)
  | .cid => fun _ => True
  | .daSla => OnObject (daSlaFields N)
  | .commitment => CommitmentDecodable N
  | .didRotationStatement => OnObject (statementFields N)
  | .didStarkProof => OnObject (starkProofFields N)
  | .stateAnchor => OnObject (anchorFields N)

def AttestationPayload.Fits (p : AttestationPayload) : Prop :=
  p.sourceChain<256^8 ∧ p.targetChain<256^8 ∧ p.sourceHeight<256^8 ∧
    p.timestampRound<256^8

end

section
variable {N : IntConversions} {d : WireDict} {name : String}

theorem clean_item : Clean (item d name) := by
  unfold item
  split
  · exact .ok _
  · exact .error trivial

theorem item_eq_ok {x : Json} (h : item d name=.ok x) : lookup d name=some x := by
  unfold item at h
  split at h
  next value hv => rw [hv,Except.ok.inj h]
  next => cases h

theorem clean_hexBytes (expected : Option ℕ) : Clean (hexBytes d name expected) := by
  refine clean_item.bind fun value _ => ?_
  split
  · split
    · exact .error trivial
    · dsimp only
      split
      · exact .ok _
      · split_ifs
        · exact .error trivial
        · exact .ok _
  · exact .error trivial

theorem clean_dictField : Clean (dictField d name) := by
  refine clean_item.bind fun value _ => ?_
  split
  · exact .ok _
  · exact .error trivial

theorem clean_listField : Clean (listField d name) := by
  refine clean_item.bind fun value _ => ?_
  split
  · exact .ok _
  · exact .error trivial

theorem dictField_eq_ok {fields : WireDict} (h : dictField d name=.ok fields) :
    lookup d name=some (.obj fields) := by
  obtain ⟨value,hv,h⟩ := bind_ok h
  split at h
  · rw [item_eq_ok hv,Except.ok.inj h]
  · cases h

theorem listField_eq_ok {items : List Json} (h : listField d name=.ok items) :
    lookup d name=some (.arr items) := by
  obtain ⟨value,hv,h⟩ := bind_ok h
  split at h
  · rw [item_eq_ok hv,Except.ok.inj h]
  · cases h

theorem toInt_raises_iff (hN : N.Lawful) (x : Json) :
    RaisesOnly IsTypeOrValueError (toInt N x) ↔ ¬Infinite N x := by
  cases x with
  | infinity negative => exact iff_of_false (fun h => h _ rfl) (not_not.mpr trivial)
  | float x =>
    rw [toInt,Infinite]
    cases N.ofFloat x with
    | none => exact iff_of_false (fun h => h _ rfl) (not_not.mpr rfl)
    | some n => exact iff_of_true (.ok n) (Option.some_ne_none n)
  | str s =>
    refine iff_of_true (fun e he => ?_) id
    obtain ⟨m,rfl⟩ := hN s e he
    trivial
  | bool b => exact iff_of_true (.ok _) id
  | int n => exact iff_of_true (.ok _) id
  | _ => exact iff_of_true (.error trivial) id

theorem clean_orWireFormat_iff {α : Type} {x : Except PyError α} (m : String) :
    Clean (orWireFormat m x) ↔ RaisesOnly IsTypeOrValueError x := by
  unfold orWireFormat
  split
  · exact iff_of_true (.ok _) (.ok _)
  · exact iff_of_true (.error trivial) (.error trivial)
  · exact iff_of_true (.error trivial) (.error trivial)
  next e ht hv =>
    refine iff_of_false (fun h => h _ rfl) fun h => ?_
    have he := h e rfl
    cases e <;> simp_all [IsTypeOrValueError]

theorem clean_intField_iff (hN : N.Lawful) :
    Clean (intField N d name true) ↔ (number N d name).fine := by
  have hc : ∀ raw, Clean (do
      let value ← orWireFormat s!"field '{name}' is not an integer" (toInt N raw)
      if true && value<0 then
        .error (.wireFormat s!"field '{name}' must be non-negative, got {value}")
      else .ok value) ↔ ¬Infinite N raw := by
    intro raw
    rw [← toInt_raises_iff hN,← clean_orWireFormat_iff s!"field '{name}' is not an integer"]
    refine RaisesOnly.bind_iff.trans (and_iff_left fun value _ => ?_)
    split_ifs
    · exact .error trivial
    · exact .ok _
  refine RaisesOnly.bind_iff.trans ?_
  simp only [hc]
  refine ⟨fun h x hx => h.2 x ?_,fun h => ⟨clean_item,fun x hx => h x (item_eq_ok hx)⟩⟩
  rw [item,hx]

variable {α β : Type} {f : α → Except WireError β} {rest : List Reading}

theorem number_bind_iff (hN : N.Lawful) {f : ℤ → Except WireError β}
    (hf : ∀ n, intField N d name true=.ok n → (Clean (f n) ↔ AllFine rest)) :
    Clean (intField N d name true >>= f) ↔ AllFine (number N d name::rest) :=
  bind_iff_allFine (clean_intField_iff hN) Iff.rfl hf

theorem nested_bind_iff {decode : WireDict → Except WireError α} {fields : WireDict → List Reading}
    (hd : ∀ s, Clean (decode s) ↔ AllFine (fields s)) (hf : ∀ a, (Clean (f a) ↔ AllFine rest)) :
    Clean (dictField d name >>= fun s => decode s >>= f) ↔
      AllFine (nested d name fields decode::rest) := by
  rw [← bind_assoc]
  refine bind_iff_allFine ?_ Iff.rfl fun a _ => hf a
  rw [RaisesOnly.bind_iff,nested]
  simp only [hd]
  refine ⟨fun h s hs => h.2 s ?_,fun h => ⟨clean_dictField,fun s hs => h s (dictField_eq_ok hs)⟩⟩
  rw [dictField,item,hs]
  rfl

theorem itemsOf_bind_iff {decode : List Json → Except WireError α}
    {fields : List Json → List Reading} (hd : ∀ l, Clean (decode l) ↔ AllFine (fields l))
    (hf : ∀ a, (Clean (f a) ↔ AllFine rest)) :
    Clean (listField d name >>= fun l => decode l >>= f) ↔
      AllFine (itemsOf d name fields decode::rest) := by
  rw [← bind_assoc]
  refine bind_iff_allFine ?_ Iff.rfl fun a _ => hf a
  rw [RaisesOnly.bind_iff,itemsOf]
  simp only [hd]
  refine ⟨fun h l hl => h.2 l ?_,fun h => ⟨clean_listField,fun l hl => h l (listField_eq_ok hl)⟩⟩
  rw [listField,item,hl]
  rfl

theorem intField_nonneg {n : ℤ} (h : intField N d name true=.ok n) : 0≤n := by
  obtain ⟨raw,-,h⟩ := bind_ok h
  obtain ⟨value,-,h⟩ := bind_ok h
  split_ifs at h with hn
  rw [← Except.ok.inj h]
  simpa using hn

theorem length_of_hexBytes {size : ℕ} {b : Bytes} (h : hexBytes d name (some size)=.ok b) :
    b.length=size := by
  obtain ⟨value,-,h⟩ := bind_ok h
  split at h
  · split at h
    · cases h
    · dsimp only at h
      split_ifs at h with hs
      rw [← Except.ok.inj h]
      exact not_not.mp hs
  · cases h

end

section

theorem nonNegative_of_nonneg (name : String) {v : ℤ} (h : 0≤v) :
    nonNegative name v=.ok v.toNat := if_neg (not_lt.mpr h)

theorem AttestationPayload.make_ok {sourceChain targetChain height timestampRound : ℤ}
    {stateRoot : Bytes} (hs : 0 ≤ sourceChain) (ht : 0≤targetChain)
    (hh : 0≤height) (hro : stateRoot.length=32) (hr : 0≤timestampRound) : Clean (construct
      (AttestationPayload.make sourceChain targetChain height stateRoot timestampRound)) := by
  rw [AttestationPayload.make,dif_pos hro,nonNegative_of_nonneg _ hs,
    nonNegative_of_nonneg _ ht,nonNegative_of_nonneg _ hh,
    nonNegative_of_nonneg _ hr]
  exact .ok _

theorem DidRotationStatement.make_ok {did oldDocHash newDocHash : Bytes}
    {sourceChain targetChain height : ℤ} (hd : did.length=32)
    (ho : oldDocHash.length=32) (hn : newDocHash.length=32) (hs : 0 ≤ sourceChain)
    (ht : 0≤targetChain) (hh : 0≤height) :
    Clean (construct (DidRotationStatement.make did oldDocHash newDocHash sourceChain targetChain
      height)) := by
  rw [DidRotationStatement.make,dif_pos hd,dif_pos ho,dif_pos hn,
    nonNegative_of_nonneg _ hs,nonNegative_of_nonneg _ ht,
    nonNegative_of_nonneg _ hh]
  exact .ok _

theorem StateAnchor.make_clean_iff {chainId height : ℤ} {stateRoot parent mac : Bytes}
    (authScheme : AuthScheme) (hc : 0≤chainId) (hh : 0≤height) (hr : stateRoot.length=32)
    (hp : parent.length=32) :
    Clean (construct (StateAnchor.make chainId height stateRoot parent mac authScheme)) ↔
      chainId<(2^32 : ℕ) ∧ height<(2^64 : ℕ) ∧ mac.length=32 := by
  rw [StateAnchor.make]
  split_ifs with h1 h2 hm
  · exact iff_of_true (.ok _) ⟨h1.2,h2.2,hm⟩
  · exact iff_of_false (fun h => h _ rfl) fun h => hm h.2.2
  · exact iff_of_false (fun h => h _ rfl) fun h => h2 ⟨hh,h.2.1⟩
  · exact iff_of_false (fun h => h _ rfl) fun h => h1 ⟨hc,h.1⟩

end

section
variable {N : IntConversions} (hN : N.Lawful) {d : WireDict}
include hN

theorem clean_attestationPayload_iff :
    Clean (attestationPayloadFromDict N d) ↔ AllFine (payloadFields N d) := by
  refine number_bind_iff hN fun sourceChain hs => ?_
  refine number_bind_iff hN fun targetChain ht => ?_
  refine number_bind_iff hN fun height hh => ?_
  refine anyway_bind_iff (clean_hexBytes _) fun stateRoot hro => ?_
  refine number_bind_iff hN fun timestampRound hr => iff_of_true ?_ trivial
  exact AttestationPayload.make_ok (intField_nonneg hs) (intField_nonneg ht)
    (intField_nonneg hh) (length_of_hexBytes hro) (intField_nonneg hr)

theorem clean_witnessSignature_iff :
    Clean (witnessSignatureFromDict N d) ↔ AllFine [number N d "witness"] :=
  number_bind_iff hN fun _ _ => iff_of_true ((clean_hexBytes _).bind fun _ _ => .ok _) trivial

theorem clean_corridorAttestation_iff :
    Clean (corridorAttestationFromDict N d) ↔ AllFine (attestationFields N d) := by
  refine itemsOf_bind_iff (fun l => ?_) fun signers => ?_
  · refine (clean_orWireFormat_iff _).trans ?_
    exact mapM_iff_allFine (toInt_raises_iff hN) fun _ => Iff.rfl
  · refine nested_bind_iff (fun _ => clean_attestationPayload_iff hN) fun payload => ?_
    exact iff_of_true ((clean_hexBytes _).bind fun _ _ => .ok _) trivial

omit hN in
theorem clean_popField : Clean (popField N d) := by
  unfold popField
  split
  · split_ifs
    · exact clean_hexBytes _
    · exact .ok _
  · exact .ok _

theorem clean_superNode_iff : Clean (superNodeFromDict N d) ↔ AllFine (superNodeFields N d) := by
  refine anyway_bind_iff clean_popField fun pop _ => ?_
  refine number_bind_iff hN fun authority _ => ?_
  refine number_bind_iff hN fun corridor _ => ?_
  exact iff_of_true ((clean_hexBytes _).bind fun _ _ => .ok _) trivial

theorem clean_member_iff (x : Json × ℕ) : Clean (memberFromDict N x) ↔ (memberField N x).fine := by
  obtain ⟨x,i⟩ := x
  cases x with
  | obj fields =>
    refine (clean_superNode_iff hN).trans ⟨fun h s hs => ?_,fun h => h fields rfl⟩
    cases hs
    exact h
  | _ => exact iff_of_true (.error trivial) nofun

theorem clean_corridor_iff : Clean (corridorFromDict N d) ↔ AllFine (corridorFields N d) := by
  refine itemsOf_bind_iff (fun l => ?_) fun members => ?_
  · exact mapM_iff_allFine (clean_member_iff hN) fun _ => Iff.rfl
  · exact number_bind_iff hN fun _ _ => iff_of_true (.ok _) trivial

omit hN in
theorem clean_cid (x : Json) : Clean (cidFromDict x) := by
  cases x with
  | str s =>
    unfold cidFromDict
    dsimp only
    split
    · exact .error trivial
    · refine (clean_orWireFormat_iff _).mpr ?_
      unfold Cid.make
      split_ifs
      · exact .ok _
      · exact .error trivial
  | _ => exact .error trivial

theorem clean_daSla_iff : Clean (daSlaFromDict N d) ↔ AllFine (daSlaFields N d) := by
  refine number_bind_iff hN fun retentionRounds _ => ?_
  exact number_bind_iff hN fun _ _ => iff_of_true (.ok _) trivial

theorem clean_commitment_iff : Clean (commitmentFromDict N d) ↔ AllFine (commitmentFields N d) := by
  rw [commitmentFromDict,← bind_assoc]
  refine anyway_bind_iff (clean_item.bind fun value _ => clean_cid value) fun cid _ => ?_
  refine number_bind_iff hN fun sizeBytes _ => ?_
  refine number_bind_iff hN fun storedAt _ => ?_
  exact nested_bind_iff (fun _ => clean_daSla_iff hN) fun _ => iff_of_true (.ok _) trivial

theorem clean_didRotationStatement_iff :
    Clean (didRotationStatementFromDict N d) ↔ AllFine (statementFields N d) := by
  refine anyway_bind_iff (clean_hexBytes _) fun did hd => ?_
  refine anyway_bind_iff (clean_hexBytes _) fun oldDocHash ho => ?_
  refine anyway_bind_iff (clean_hexBytes _) fun newDocHash hn => ?_
  refine number_bind_iff hN fun sourceChain hs => ?_
  refine number_bind_iff hN fun targetChain ht => ?_
  refine number_bind_iff hN fun height hh => iff_of_true ?_ trivial
  exact DidRotationStatement.make_ok (length_of_hexBytes hd) (length_of_hexBytes ho)
    (length_of_hexBytes hn) (intField_nonneg hs) (intField_nonneg ht)
    (intField_nonneg hh)

theorem clean_didStarkProof_iff :
    Clean (didStarkProofFromDict N d) ↔ AllFine (starkProofFields N d) := by
  refine nested_bind_iff (fun _ => clean_didRotationStatement_iff hN) fun statement => ?_
  refine number_bind_iff hN fun signingMethodId _ => iff_of_true ?_ trivial
  refine (clean_hexBytes _).bind fun sig _ => ?_
  exact (clean_hexBytes _).bind fun friProof _ => .ok _

theorem clean_stateAnchor_iff : Clean (stateAnchorFromDict N d) ↔ AllFine (anchorFields N d) := by
  have hs : ∀ raw, Clean (schemeOf raw) := by
    intro raw
    unfold schemeOf
    split
    · exact .error trivial
    · exact .ok _
  refine number_bind_iff hN fun raw hraw => ?_
  refine bind_iff_allFine (iff_of_true (hs raw) trivial) ?_ fun authScheme _ => ?_
  · rw [anyway,hraw]
    rfl
  refine number_bind_iff hN fun chainId hch => ?_
  refine number_bind_iff hN fun height hhe => ?_
  refine anyway_bind_iff (clean_hexBytes _) fun stateRoot hro => ?_
  refine anyway_bind_iff (clean_hexBytes _) fun parent hp => ?_
  refine anyway_bind_iff (clean_hexBytes _) fun mac hmac => ?_
  refine (StateAnchor.make_clean_iff authScheme (intField_nonneg hch) (intField_nonneg hhe)
    (length_of_hexBytes hro) (length_of_hexBytes hp)).trans ?_
  simp [AllFine,AnchorInRange,hch,hhe,hmac]

theorem clean_commitmentFromJson_iff (x : Json) :
    Clean (commitmentFromJson N x) ↔ CommitmentDecodable N x := by
  cases x with
  | obj d => exact clean_commitment_iff hN
  | arr items =>
    rw [commitmentFromJson,CommitmentDecodable]
    split_ifs with hc
    · exact iff_of_false (fun h => h _ rfl) (by simp [hc])
    · exact iff_of_true (.error trivial) (by simpa using hc)
  | str s =>
    rw [commitmentFromJson,CommitmentDecodable]
    split_ifs with hc
    · exact iff_of_false (fun h => h _ rfl) (not_not.mpr hc)
    · exact iff_of_true (.error trivial) hc
  | _ => exact iff_of_false (fun h => h _ rfl) id

omit hN in
theorem clean_ofObject_iff {α : Type} {decode : WireDict → Except WireError α}
    {fields : WireDict → List Reading} (hd : ∀ d, Clean (decode d) ↔ AllFine (fields d))
    (x : Json) : Clean (ofObject decode x) ↔ OnObject fields x := by
  cases x with
  | obj d => exact hd d
  | _ => exact iff_of_false (fun h => h _ rfl) id

theorem clean_fromJson_iff (t : WireType) (x : Json) :
    Clean (t.fromJson N x) ↔ t.Decodable N x := by
  cases t with
  | attestationPayload => exact clean_ofObject_iff (fun _ => clean_attestationPayload_iff hN) x
  | witnessSignature => exact clean_ofObject_iff (fun _ => clean_witnessSignature_iff hN) x
  | corridorAttestation => exact clean_ofObject_iff (fun _ => clean_corridorAttestation_iff hN) x
  | superNode => exact clean_ofObject_iff (fun _ => clean_superNode_iff hN) x
  | corridor => exact clean_ofObject_iff (fun _ => clean_corridor_iff hN) x
  | cid => exact iff_of_true (clean_cid x) trivial
  | daSla => exact clean_ofObject_iff (fun _ => clean_daSla_iff hN) x
  | commitment => exact clean_commitmentFromJson_iff hN x
  | didRotationStatement => exact clean_ofObject_iff (fun _ => clean_didRotationStatement_iff hN) x
  | didStarkProof => exact clean_ofObject_iff (fun _ => clean_didStarkProof_iff hN) x
  | stateAnchor => exact clean_ofObject_iff (fun _ => clean_stateAnchor_iff hN) x

end

section
variable {G₁ G₂ : Type} [AddCommMonoid G₁] [AddCommMonoid G₂] (B : Bls G₁ G₂)
  (sha3 : MerkleTree.CanonicalHash)

/-- The verification comes to the digest: the corridor is complete and knows the signers. -/
def Reaches (corridor : Corridor) (a : CorridorAttestation) : Prop :=
  corridor.members.length=quorumSize ∧ quorumThreshold≤a.signers.card ∧
    ∀ signer ∈ a.signers, ∃ pk, corridor.memberPubkey signer=some pk

theorem canonicalDigest_overflow {payload : AttestationPayload} (h : ¬payload.Fits) :
    payload.canonicalDigest sha3=.error .overflowError := by
  unfold AttestationPayload.canonicalDigest toBytes8
  by_cases hs : payload.sourceChain<256^8
  · rw [if_pos hs]
    by_cases ht : payload.targetChain<256^8
    · rw [if_pos ht]
      by_cases hh : payload.sourceHeight<256^8
      · rw [if_pos hh,if_neg fun hr => h ⟨hs,ht,hh,hr⟩]
        rfl
      · rw [if_neg hh]
        rfl
    · rw [if_neg ht]
      rfl
  · rw [if_neg hs]
    rfl

theorem verifyAttestation_overflow {corridor : Corridor} {a : CorridorAttestation}
    (hr : Reaches corridor a) (h : ¬a.payload.Fits) :
    verifyAttestation B sha3 corridor a=.error (.raised .overflowError) := by
  obtain ⟨hs,hq,hm⟩ := hr
  have hk : (sorted (· ≤ ·) a.signers).mapM (signerKey corridor) =
      .ok (keysOf corridor (sorted (· ≤ ·) a.signers)) :=
    signerKey_mapM fun w hw => hm w ((mem_sorted _ _ _).mp hw)
  simp only [verifyAttestation,requireCorridorSize_of_size hs,bind,Except.bind,
    not_lt.mpr hq,if_false,hk,canonicalDigest_overflow sha3 h,raising,
    Except.mapError]

variable (c : Corridor)

theorem signerKey_raises (signer : AuthorityId) :
    RaisesOnly LtpError.IsLtp (signerKey c signer) := by
  unfold signerKey
  split
  · exact .error trivial
  · exact .ok _

theorem exists_key {corridor : Corridor} {signer : AuthorityId} {pk : Bytes}
    (h : signerKey corridor signer=.ok pk) : corridor.memberPubkey signer=some pk := by
  unfold signerKey at h
  split at h
  next => cases h
  next found hf => rw [hf,Except.ok.inj h]

theorem requireCorridorSize_raises : RaisesOnly LtpError.IsLtp (requireCorridorSize c) := by
  unfold requireCorridorSize
  split_ifs
  · exact .error trivial
  · exact .ok _

theorem size_of_requireCorridorSize {corridor : Corridor}
    (h : requireCorridorSize corridor=.ok ()) : corridor.members.length=quorumSize := by
  by_contra hs
  rw [requireCorridorSize,if_pos hs] at h
  cases h

theorem verifyAttestation_raises_iff (a : CorridorAttestation) :
    RaisesOnly LtpError.IsLtp (verifyAttestation B sha3 c a) ↔ (Reaches c a → a.payload.Fits) := by
  constructor
  · intro h hr
    by_contra hf
    exact h _ (verifyAttestation_overflow B sha3 hr hf)
  · intro h
    refine (requireCorridorSize_raises c).bind fun _ hsi => ?_
    split_ifs with hq
    · exact .error trivial
    · refine (RaisesOnly.mapM (signerKey_raises c) _).bind fun pks hp => ?_
      have hr : Reaches c a := by
        refine ⟨size_of_requireCorridorSize hsi,not_lt.mp hq,fun signer hs => ?_⟩
        obtain ⟨pk,-,hpk⟩ := (mapM_ok hp).1 signer
          ((mem_sorted _ _ _).mpr hs)
        exact ⟨pk,exists_key hpk⟩
      obtain ⟨hso,ht,hh,hro⟩ := h hr
      obtain ⟨digest,hd⟩ := canonicalDigest_of_fits sha3 hso ht hh hro
      rw [hd]
      refine (RaisesOnly.ok digest).bind fun _ _ => ?_
      split_ifs
      · exact .error trivial
      · exact .ok _

/-- The decoders and the verification raise their own errors, apart from what gets through. -/
theorem corridor_raises_own_errors (N : IntConversions) (hN : N.Lawful) :
    (∀ (t : WireType) (x : Json), Clean (t.fromJson N x) ↔ t.Decodable N x) ∧
    ∀ (corridor : Corridor) (a : CorridorAttestation),
      RaisesOnly LtpError.IsLtp (verifyAttestation B sha3 corridor a) ↔
        (Reaches corridor a → a.payload.Fits) :=
  ⟨clean_fromJson_iff hN,verifyAttestation_raises_iff B sha3⟩

end

section

def plainNumbers : IntConversions :=
  ⟨fun _ => .error (.valueError "invalid literal"),fun _ => none,fun _ => false⟩

theorem plainNumbers_lawful : plainNumbers.Lawful :=
  fun _ => .error ⟨_,rfl⟩

def badSignature : WireDict := [("witness",.int 3),("signature",.str "zz")]

theorem badSignature_decodable :
    WireType.witnessSignature.Decodable plainNumbers (.obj badSignature) := by
  refine ⟨fun x hx => ?_,fun _ => trivial⟩
  obtain rfl : Json.int 3=x := Option.some.inj hx
  exact id

def sevenSigners : Finset AuthorityId := {0,1,2,3,4,5,6}

def attestationAt (height : ℕ) : CorridorAttestation :=
  ⟨⟨1,2,height,List.replicate 32 0,4,somePayload.length_stateRoot⟩,List.replicate 96 0,sevenSigners⟩

theorem attestationAt_reaches (height : ℕ) : Reaches nineMembers (attestationAt height) := by
  have hq : quorumThreshold ≤ sevenSigners.card := by decide
  have hk : ∀ signer ∈ sevenSigners, (nineMembers.memberPubkey signer).isSome := by decide
  exact ⟨rfl,hq,fun signer hs => Option.isSome_iff_exists.mp (hk signer hs)⟩

theorem badSignature_refused :
    WireType.witnessSignature.Decodable plainNumbers (.obj badSignature) ∧
    Clean (WireType.witnessSignature.fromJson plainNumbers (.obj badSignature)) ∧
    RaisesOnly LtpError.IsLtp
      (verifyAttestation multiplesBls cutHash nineMembers (attestationAt 5)) := by
  have ho := corridor_raises_own_errors multiplesBls cutHash plainNumbers
    plainNumbers_lawful
  refine ⟨badSignature_decodable,(ho.1 .witnessSignature _).mpr badSignature_decodable,?_⟩
  exact (ho.2 nineMembers (attestationAt 5)).mpr fun _ =>
    ⟨by decide,by decide,by decide,by decide⟩

def wideAnchor : WireDict :=
  [("chain_id",.int (2^32)),("height",.int 1),("state_root",hexText (List.replicate 32 0)),
    ("parent",hexText (List.replicate 32 0)),("mac",hexText (List.replicate 32 0)),
    ("auth_scheme",.int 0)]

theorem wideAnchor_raises : stateAnchorFromDict plainNumbers wideAnchor =
    .error (.raised (.valueError "chain_id must fit in u32")) := by
  rw [stateAnchorFromDict,hexBytes_of_item rfl (by simp),
    hexBytes_of_item rfl (by simp),
    hexBytes_of_item rfl (by simp)]
  rfl

theorem corridor_lets_through :
    WireType.attestationPayload.fromJson plainNumbers (.arr [])=.error (.raised .typeError) ∧
    WireType.attestationPayload.fromJson plainNumbers
      (.obj [("source_chain",.infinity false)])=.error (.raised .overflowError) ∧
    WireType.stateAnchor.fromJson plainNumbers (.obj wideAnchor) =
      .error (.raised (.valueError "chain_id must fit in u32")) ∧
    WireType.corridorAttestation.fromJson plainNumbers
      (.obj (corridorAttestationToDict (attestationAt (2^64)))) = .ok (attestationAt (2^64)) ∧
    verifyAttestation multiplesBls cutHash nineMembers (attestationAt (2^64)) =
      .error (.raised .overflowError) := by
  have ha : ∀ d, WireType.stateAnchor.fromJson plainNumbers (.obj d) =
    stateAnchorFromDict plainNumbers d := fun _ => rfl
  have hat : ∀ d, WireType.corridorAttestation.fromJson plainNumbers (.obj d) =
    corridorAttestationFromDict plainNumbers d := fun _ => rfl
  refine ⟨rfl,rfl,(ha _).trans wideAnchor_raises,(hat _).trans ?_,?_⟩
  · have hl : (attestationAt (2^64)).InRange := List.length_replicate
    exact corridorAttestation_roundTrip plainNumbers hl
  · refine verifyAttestation_overflow _ _ (attestationAt_reaches _) fun hf => ?_
    exact absurd hf.2.2.1 (by decide)

end

end Corridors
end LatticeTransfer
