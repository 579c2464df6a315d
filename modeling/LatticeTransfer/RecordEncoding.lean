import LatticeTransfer.EnvelopeAuthenticity

/-!
# Commitment records as leaves

The leaf encoding of a record is read back field by field: texts and parameters are framed by
their lengths, and exactly three fields follow the parameters, so their number is determined.
It leaves out the time to live, whether a parameter is a number or its decimal text, and
whether an empty predecessor is one.
-/

namespace LatticeTransfer.RecordEncoding
open MerkleTree List PyValue CommitmentLog
open CanonicalEncoder (lengthPrefixed_ok)
open MerkleInclusion (PortableMerkleProof)
open Entity (encodeText_injective timestamp_inj)

def framed (part : Bytes) : Bytes := toBigEndian 4 part.length++part

def textParts (r : CommitmentRecord) : List Bytes :=
  [r.entityId,r.senderId,r.shardMapRoot,r.contentHash,r.shape,r.shapeHash].map encodeText

def trailer (r : CommitmentRecord) : List Bytes :=
  [encodeText (r.predecessor.getD ""),r.signature,r.senderVk]

theorem joinPrefixed_eq_ok {parts : List Bytes} {joined : Bytes}
    (h : joinPrefixed parts=.ok joined) :
    (∀ part ∈ parts, part.length<256^4) ∧ joined=parts.flatMap framed := by
  obtain ⟨enc,hm,hj⟩ := bind_ok h
  obtain rfl := Except.ok.inj hj
  have ha := forall₂_of_mapM_ok hm
  clear h hm hj
  induction ha with
  | nil => exact ⟨nofun,rfl⟩
  | cons hp _ ih =>
    obtain ⟨hlt,rfl⟩ := lengthPrefixed_ok hp
    exact ⟨forall_mem_cons.mpr ⟨hlt,ih.1⟩,by rw [flatMap_cons,flatten_cons,ih.2,framed]⟩

theorem toBytes_eq_ok {r : CommitmentRecord} {bytes : Bytes} (h : r.toBytes=.ok bytes) :
    (∀ part ∈ textParts r, part.length<256^4) ∧
      (∀ part ∈ r.paramParts++trailer r, part.length<256^4) ∧
      bytes=encodeText "LTP-RECORD-v1\x00" ++ (encodeText "LTP-COMMIT-v1\x00" ++
        ((textParts r).flatMap framed++(toBigEndian 8 r.timestamp.toNat ++
          (r.paramParts++trailer r).flatMap framed))) := by
  obtain ⟨payload,hp,h⟩ := bind_ok h
  obtain ⟨last,hl,h⟩ := bind_ok h
  obtain ⟨texts,ht,hp⟩ := bind_ok hp
  obtain ⟨params,hpa,hp⟩ := bind_ok hp
  obtain ⟨hte,rfl⟩ := joinPrefixed_eq_ok ht
  obtain ⟨hpar,rfl⟩ := joinPrefixed_eq_ok hpa
  obtain ⟨hla,rfl⟩ := joinPrefixed_eq_ok hl
  cases hp
  cases h
  refine ⟨hte,fun part hpart => (mem_append.mp hpart).elim (hpar part) (hla part),?_⟩
  simp only [flatMap_append,append_assoc]
  rfl

theorem parts_of_toBytes {r r' : CommitmentRecord} {bytes : Bytes} (h : r.toBytes=.ok bytes)
    (h' : r'.toBytes=.ok bytes) :
    textParts r=textParts r' ∧ r.timestamp=r'.timestamp ∧ r.paramParts=r'.paramParts ∧
      trailer r=trailer r' := by
  obtain ⟨hte,hla,rfl⟩ := toBytes_eq_ok h
  obtain ⟨ht',hl',heq⟩ := toBytes_eq_ok h'
  have hb := append_cancel_left (append_cancel_left heq)
  obtain ⟨ht,hr⟩ := flatMap_framed_inj four_pos hte ht' (.inl rfl) hb
  obtain ⟨hs,hpa⟩ := append_inj hr (by simp)
  rw [← append_nil (flatMap _ _),← append_nil (flatMap framed (_ ++ trailer r'))] at hpa
  obtain ⟨ha,-⟩ := flatMap_framed_inj four_pos hla hl' (.inr ⟨rfl,rfl⟩) hpa
  obtain ⟨hp,hl⟩ := append_inj' ha rfl
  exact ⟨ht,timestamp_inj hs,hp,hl⟩

theorem nat_repr_injective : Function.Injective Nat.repr := by
  intro m n h
  have hd := congrArg String.toList h
  rw [Nat.repr_eq_ofList_toDigits,Nat.repr_eq_ofList_toDigits,String.toList_ofList,
    String.toList_ofList] at hd
  rw [← @Nat.ofDigitChars_ten_toDigits m,hd,Nat.ofDigitChars_ten_toDigits]

theorem nat_repr_ne_minus (n : ℕ) (s : String) : n.repr ≠ "-" ++ s := by
  intro h
  have hm : '-' ∈ n.repr.toList := by
    rw [h,String.toList_append]
    exact mem_append_left _ mem_cons_self
  rw [Nat.repr_eq_ofList_toDigits,String.toList_ofList] at hm
  exact absurd (Nat.isDigit_of_mem_toDigits (by decide) le_rfl hm) (by decide)

def isText : ParamValue → Bool
  | .int _ => false
  | .text _ => true

theorem eq_of_str {v w : ParamValue} (hk : isText v=isText w) (h : v.str=w.str) : v=w := by
  cases v with
  | text s =>
    cases w with
    | int n => cases hk
    | text t => exact congrArg _ h
  | int m =>
    cases w with
    | text t => cases hk
    | int n =>
      refine congrArg _ ?_
      cases m with
      | ofNat m =>
        cases n with
        | ofNat n => exact congrArg _ (nat_repr_injective h)
        | negSucc n => exact absurd h (nat_repr_ne_minus m _)
      | negSucc m =>
        cases n with
        | ofNat n => exact absurd h.symm (nat_repr_ne_minus n _)
        | negSucc n =>
          exact congrArg _ (Nat.succ.inj (nat_repr_injective (String.append_right_inj _ |>.mp h)))

theorem flatMap_pair_inj {α : Type*} {f : α → Bytes} (hf : Function.Injective f)
    {g g' : α → Bytes} {l l' : List α}
    (h : (l.flatMap fun a => [f a,g a])=l'.flatMap fun a => [f a,g' a]) :
    l=l' ∧ ∀ a ∈ l, g a=g' a := by
  induction l generalizing l' with
  | nil =>
    cases l' with
    | nil => exact ⟨rfl,nofun⟩
    | cons b l' => cases h
  | cons a l ih =>
    cases l' with
    | nil => cases h
    | cons b l' =>
      obtain ⟨ha,ht⟩ := List.cons.inj h
      obtain ⟨hg,hr⟩ := List.cons.inj ht
      obtain rfl := hf ha
      obtain ⟨rfl,hal⟩ := ih hr
      exact ⟨rfl,forall_mem_cons.mpr ⟨hg,hal⟩⟩

def paramText (r : CommitmentRecord) (key : String) : Option String :=
  (r.encodingParams.get? key).map ParamValue.str

theorem paramParts_eq (r : CommitmentRecord) : r.paramParts =
    (r.encodingParams.keys.insertionSort (· ≤ ·)).flatMap fun key =>
      [encodeText key,encodeText ((paramText r key).getD "")] := by
  refine flatMap_congr fun key hk => ?_
  obtain ⟨value,hv⟩ := (Dict.mem_keys_iff _ _).mp ((mem_insertionSort _).mp hk)
  simp [hv,paramText]

theorem paramText_of_paramParts {r r' : CommitmentRecord} (h : r.paramParts=r'.paramParts)
    (key : String) : paramText r key=paramText r' key := by
  rw [paramParts_eq,paramParts_eq] at h
  obtain ⟨hke,hte⟩ := flatMap_pair_inj encodeText_injective h
  have hm : key ∈ r.encodingParams.keys ↔ key ∈ r'.encodingParams.keys := by
    rw [← mem_insertionSort (· ≤ ·),hke,mem_insertionSort]
  by_cases hk : key ∈ r.encodingParams.keys
  · have ht := encodeText_injective (hte key ((mem_insertionSort _).mpr hk))
    obtain ⟨v,hv⟩ := (Dict.mem_keys_iff _ _).mp hk
    obtain ⟨v',hv'⟩ := (Dict.mem_keys_iff _ _).mp (hm.mp hk)
    simpa [paramText,hv,hv'] using ht
  · have hn {d : Dict String ParamValue} (hd : key ∉ d.keys) : d.get? key=none :=
      Option.eq_none_iff_forall_ne_some.mpr fun v hv => hd ((Dict.mem_keys_iff _ _).mpr ⟨v,hv⟩)
    rw [paramText,paramText,hn hk,hn (hm.not.mp hk)]

/-- Equal in every field, the parameters as dictionaries. -/
def SameFields (r r' : CommitmentRecord) : Prop :=
  r={r' with encodingParams := r.encodingParams} ∧
    ∀ key, r.encodingParams.get? key=r'.encodingParams.get? key

/-- Records of one encoding are equal exactly if they agree in what is not written: the time to
live, the presence of a predecessor and the kinds of the parameters. -/
theorem toBytes_eq_sameFields_iff (r r' : CommitmentRecord) (bytes : Bytes)
    (h : r.toBytes=.ok bytes) (h' : r'.toBytes=.ok bytes) :
    SameFields r r' ↔ r.ttlEpochs=r'.ttlEpochs ∧ (r.predecessor=none ↔ r'.predecessor=none) ∧
      ∀ key, (r.encodingParams.get? key).map isText=(r'.encodingParams.get? key).map isText := by
  constructor
  · rintro ⟨hr,hpa⟩
    rw [hr]
    exact ⟨rfl,.rfl,fun key => by rw [hpa]⟩
  · rintro ⟨hl,hpr,hki⟩
    obtain ⟨ht,hst,hp,htr⟩ := parts_of_toBytes h h'
    have hva (key : String) : r.encodingParams.get? key=r'.encodingParams.get? key := by
      have hs := paramText_of_paramParts hp key
      have hk := hki key
      rw [paramText,paramText] at hs
      cases hv : r.encodingParams.get? key with
      | none => simpa [hv,eq_comm] using hs
      | some v =>
        rw [hv] at hs hk
        obtain ⟨w,hw,hstr⟩ := Option.map_eq_some_iff.mp hs.symm
        rw [hw] at hk
        rw [hw,eq_of_str (Option.some.inj hk) hstr.symm]
    refine ⟨?_,hva⟩
    obtain ⟨_,_,_,_,params,_,_,_,_,pred,_,_⟩ := r
    obtain ⟨_,_,_,_,_,_,_,_,_,pred',_,_⟩ := r'
    simp only [textParts,trailer,map_cons,cons.injEq,encodeText_injective.eq_iff] at ht htr
    obtain rfl : pred=pred' := by cases pred <;> cases pred' <;> simp_all
    simp_all

def nkRecord : CommitmentRecord := {sampleRecord "a" with
  encodingParams := (Dict.empty.set "n" (.int 8)).set "k" (.int 4)}

def knRecord : CommitmentRecord := {sampleRecord "a" with
  encodingParams := (Dict.empty.set "k" (.int 4)).set "n" (.int 8)}

theorem nkRecord_sameFields_iff : ∃ bytes, nkRecord.toBytes=.ok bytes ∧ knRecord.toBytes=.ok bytes ∧
    (SameFields nkRecord knRecord ↔ nkRecord.ttlEpochs=knRecord.ttlEpochs ∧
      (nkRecord.predecessor=none ↔ knRecord.predecessor=none) ∧
      ∀ key, (nkRecord.encodingParams.get? key).map isText =
        (knRecord.encodingParams.get? key).map isText) := by
  have hok : nkRecord.toBytes.isOk=true := by decide +kernel
  have heq : knRecord.toBytes=nkRecord.toBytes := by decide +kernel
  cases h : nkRecord.toBytes with
  | error e =>
    rw [h] at hok
    cases hok
  | ok bytes =>
    have h' := heq.trans h
    exact ⟨bytes,rfl,h',toBytes_eq_sameFields_iff nkRecord knRecord bytes h h'⟩

theorem ttl_not_encoded : (sampleRecord "a").toBytes.isOk=true ∧
      {sampleRecord "a" with ttlEpochs := some 1}.toBytes=(sampleRecord "a").toBytes ∧
      {sampleRecord "a" with predecessor := some "" }.toBytes=(sampleRecord "a").toBytes ∧
      {sampleRecord "a" with encodingParams := Dict.empty.set "n" (.text "8")}.toBytes =
        (sampleRecord "a").toBytes :=
  ⟨by decide +kernel,rfl,rfl,by decide +kernel⟩

structure VerificationResult where
  valid : Bool
  reason : String
  artifact : String
  details : Dict String ℕ

def chainResult (valid : Bool) (reason : String) : VerificationResult :=
  ⟨valid,reason,"commitment-chain",Dict.empty⟩

def invalidProof (H : CanonicalHash) :
    ℕ → List (CommitmentRecord × PortableMerkleProof) → Option VerificationResult
  | _, [] => none
  | i, (_,proof)::rest =>
    if !proof.verify H then some (chainResult false s!"merkle proof invalid at index {i}")
    else invalidProof H (i+1) rest

def verifyCommitmentChain (H : CanonicalHash) (records : List CommitmentRecord)
    (proofs : List PortableMerkleProof) : VerificationResult :=
  let count := records.length
  let proofCount := proofs.length
  if count≠proofCount then
    chainResult false s!"record/proof count mismatch: {count} != {proofCount}"
  else if records.isEmpty then chainResult true "empty chain is trivially valid"
  else
    match invalidProof H 0 (records.zip proofs) with
    | some failed => failed
    | none => {chainResult true s!"chain of {count} records verified" with
        details := Dict.empty.set "chain_length" count}

theorem invalidProof_valid {H : CanonicalHash} {i : ℕ}
    {items : List (CommitmentRecord × PortableMerkleProof)} :
    (invalidProof H i items).all VerificationResult.valid=true ↔
      ∀ item ∈ items, item.2.verify H=true := by
  induction items generalizing i with
  | nil => exact ⟨nofun,fun _ => rfl⟩
  | cons item items ih =>
    rw [invalidProof,forall_mem_cons]
    cases item.2.verify H with
    | false => simp [chainResult]
    | true => simpa using ih

theorem verifyCommitmentChain_valid_iff {H : CanonicalHash} {rs : List CommitmentRecord}
    {proofs : List PortableMerkleProof} : (verifyCommitmentChain H rs proofs).valid=true ↔
      rs.length=proofs.length ∧ ∀ proof ∈ proofs, proof.verify H=true := by
  by_cases hl : rs.length=proofs.length
  · have ha : (∀ proof ∈ proofs, proof.verify H=true) ↔
        ∀ item ∈ rs.zip proofs, item.2.verify H=true := by
      nth_rewrite 1 [← map_snd_zip hl.ge,forall_mem_map]
      rfl
    rw [ha,← invalidProof_valid,verifyCommitmentChain]
    cases rs with
    | nil => simp [chainResult,invalidProof,hl.symm]
    | cons record rs =>
      simp only [hl]
      cases invalidProof H 0 ((record::rs).zip proofs) with
      | none => simp [chainResult]
      | some failed => simp
  · simp [verifyCommitmentChain,hl,chainResult]

/-- Each proof is about its record, and each record names the one before it. -/
def Linked (H : CanonicalHash) (names : CommitmentRecord → CommitmentRecord → Prop)
    (records : List CommitmentRecord) (proofs : List PortableMerkleProof) : Prop :=
  Forall₂ (fun record proof => ∃ bytes, record.toBytes=.ok bytes ∧
    proof.leafHash=leafHash H bytes) records proofs ∧
    records.IsChain fun earlier later => names later earlier

def loneProof (leaf : Bytes) : PortableMerkleProof := ⟨1,.commitmentLog,0,1,leaf,leaf,[],[]⟩

theorem loneProof_verify (H : CanonicalHash) (leaf : Bytes) : (loneProof leaf).verify H=true := by
  simp [loneProof,PortableMerkleProof.verify]

/-- The records are never read: for every chain but the empty one, and whatever it means to name
a predecessor, some accepted proofs are not about the records. -/
theorem valid_chain_linked_iff (H : CanonicalHash)
    (names : CommitmentRecord → CommitmentRecord → Prop) (records : List CommitmentRecord) :
    (∀ proofs, (verifyCommitmentChain H records proofs).valid=true →
      Linked H names records proofs) ↔ records=[] := by
  constructor
  · intro h
    by_contra hne
    obtain ⟨record,rest,rfl⟩ := exists_cons_of_ne_nil hne
    -- the leaf is longer than every hash
    let proofs := replicate (record::rest).length (loneProof (replicate (H.size+1) 0))
    have hv : (verifyCommitmentChain H (record::rest) proofs).valid=true := by
      refine verifyCommitmentChain_valid_iff.mpr ⟨length_replicate.symm,fun proof hp => ?_⟩
      rw [eq_of_mem_replicate hp]
      exact loneProof_verify H _
    obtain ⟨⟨bytes,-,hleaf⟩,-⟩ := forall₂_cons.mp (h proofs hv).1
    have hlen := congrArg length hleaf
    rw [length_leafHash] at hlen
    simp [loneProof] at hlen
  · rintro rfl proofs hv
    have hl := (verifyCommitmentChain_valid_iff.mp hv).1
    rw [length_eq_zero_iff.mp hl.symm]
    exact ⟨.nil,.nil⟩

theorem unlinked_chain_valid :
    (verifyCommitmentChain cutHash [sampleRecord "a",sampleRecord "b"]
        [loneProof [7],loneProof [7]]).valid=true ∧
      (sampleRecord "a").toBytes.toOption.map (leafHash cutHash) ≠
        some (loneProof [7]).leafHash ∧ (sampleRecord "b").predecessor=none := by decide +kernel

end LatticeTransfer.RecordEncoding
