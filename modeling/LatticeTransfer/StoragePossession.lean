import LatticeTransfer.CommitmentLog

/-!
# Proofs of data possession

The verifier holds the hash of every shard. The expected tag of a challenge is computed from
those hashes, and a node that holds the shards hashes them first and goes on from there. The
data enter only through their hashes, so whoever knows the hashes can answer.
-/

namespace LatticeTransfer.StoragePossession
open MerkleTree CommitmentLog List

structure PDPChallenge where
  challengeId : String
  epoch : ℤ
  shardIndices : List ℤ
  coefficients : List Bytes
  deadlineEpoch : ℤ

structure PDPProof where
  challengeId : String
  aggregateTag : Bytes
  responseTimeMs : ℚ
  indicesProven : ℕ

structure PDPVerifier where
  commitments : Dict String (Dict ℤ String)

def PDPVerifier.registerCommitment (v : PDPVerifier) (entityId : String)
    (shardHashes : Dict ℤ String) : PDPVerifier :=
  ⟨v.commitments.set entityId shardHashes⟩

/-- The exclusive or of the tags over the length of the first one. A shorter tag has no
`part[i]` and raises, of a longer one the rest is not read. -/
def aggregate (parts : List Bytes) : Except PyError Bytes :=
  parts.foldlM (fun sum part =>
    if part.length<sum.length then .error (.indexError "index out of range")
    else .ok (zipWith (· ^^^ ·) sum part)) (replicate ((parts.head?.map length).getD 32) 0)

def PDPChallenge.pairs (challenge : PDPChallenge) : List (ℤ × Bytes) :=
  challenge.shardIndices.zip challenge.coefficients

variable (canonical internal : CanonicalHash)

def tag (shardHash : String) (coeff : Bytes) : Bytes :=
  internal.run (encodeText shardHash++coeff)

def PDPVerifier.generateExpectedTag (v : PDPVerifier) (entityId : String)
    (challenge : PDPChallenge) : Except PyError (Option Bytes) :=
  match v.commitments.get? entityId with
  | none => .ok none
  | some shardHashes =>
    match challenge.pairs.mapM fun (idx,coeff) =>
      (shardHashes.get? idx).map (tag internal · coeff) with
    | none => .ok none
    | some parts => if parts=[] then .ok none else some <$> aggregate parts

def PDPVerifier.verifyProof (v : PDPVerifier) (entityId : String) (challenge : PDPChallenge)
    (proof : PDPProof) : Except PyError Bool := do
  if proof.challengeId≠challenge.challengeId then return false
  match ← v.generateExpectedTag internal entityId challenge with
  | none => return false
  | some expected => return proof.aggregateTag=expected

def respond (challenge : PDPChallenge) (parts : List Bytes) (elapsed : ℚ) :
    Except PyError PDPProof := do
  let aggregateTag ← aggregate parts
  return ⟨challenge.challengeId,aggregateTag,elapsed,challenge.shardIndices.length⟩

def computeProofFromShards (shardData : Dict ℤ Bytes) (challenge : PDPChallenge) (elapsed : ℚ) :
    Except PyError PDPProof :=
  respond challenge (challenge.pairs.map fun (idx,coeff) =>
    match shardData.get? idx with
    | none => replicate 32 0
    | some data => tag internal (canonicalHash canonical data) coeff) elapsed

/-- The answer of a node that kept the hashes of its shards and dropped the shards. -/
def proofFromHashes (shardHashes : Dict ℤ String) (challenge : PDPChallenge) (elapsed : ℚ) :
    Except PyError PDPProof :=
  respond challenge (challenge.pairs.filterMap fun (idx,coeff) =>
    (shardHashes.get? idx).map (tag internal · coeff)) elapsed

/-- The challenge asks for nothing, or for a shard without a registered hash. -/
def Unanswerable (shardHashes : Dict ℤ String) (challenge : PDPChallenge) : Prop :=
  challenge.pairs=[] ∨ ∃ pair ∈ challenge.pairs, shardHashes.get? pair.1=none

/-- The node holds the challenged shards that the hashes commit to. -/
def Holds (shardData : Dict ℤ Bytes) (shardHashes : Dict ℤ String) (challenge : PDPChallenge) :
    Prop :=
  ∀ pair ∈ challenge.pairs, ∃ data, shardData.get? pair.1=some data ∧
    shardHashes.get? pair.1=some (canonicalHash canonical data)

variable {canonical internal} {v : PDPVerifier} {entityId : String} {shardHashes : Dict ℤ String}
  {challenge : PDPChallenge}

theorem computeProofFromShards_eq {shardData : Dict ℤ Bytes}
    (h : Holds canonical shardData shardHashes challenge) (elapsed : ℚ) :
    computeProofFromShards canonical internal shardData challenge elapsed =
      proofFromHashes internal shardHashes challenge elapsed := by
  rw [computeProofFromShards,← filterMap_eq_map]
  congr 1
  refine filterMap_congr fun pair hp => ?_
  obtain ⟨data,hd,hh⟩ := h pair hp
  simp [hd,hh]

theorem exists_aggregate {parts : List Bytes} {n : ℕ} (h : ∀ part ∈ parts, part.length=n) :
    ∃ sum, aggregate parts=.ok sum := by
  have loop : ∀ (parts : List Bytes) (sum : Bytes), (∀ part ∈ parts, part.length=n) →
      sum.length=n → ∃ total, parts.foldlM (fun sum part => if part.length<sum.length then
        .error (.indexError "index out of range") else .ok (zipWith (· ^^^ ·) sum part)) sum =
          (.ok total : Except PyError Bytes) := by
    intro parts
    induction parts with
    | nil => exact fun sum _ _ => ⟨sum,rfl⟩
    | cons part parts ih =>
      intro sum hp hs
      obtain ⟨hpart,hrest⟩ := forall_mem_cons.mp hp
      rw [foldlM_cons,if_neg (by omega)]
      exact ih _ hrest (by simp [hs,hpart])
  cases parts with
  | nil => exact ⟨_,rfl⟩
  | cons part parts => exact loop _ _ h (by simp [h part])

theorem mapM_eq_filterMap {α β : Type} {f : α → Option β} {items : List α}
    (h : ∀ item ∈ items, f item≠none) : items.mapM f=some (items.filterMap f) := by
  induction items with
  | nil => rfl
  | cons x items ih =>
    obtain ⟨hx,hrest⟩ := forall_mem_cons.mp h
    obtain ⟨y,hy⟩ := Option.ne_none_iff_exists'.mp hx
    simp [ih hrest,hy]

theorem mapM_eq_none {α β : Type} {f : α → Option β} {items : List α} {item : α}
    (hm : item ∈ items) (hf : f item=none) : items.mapM f=none := by
  induction items with
  | nil => cases hm
  | cons x items ih =>
    rcases mem_cons.mp hm with rfl|hm
    · simp [hf]
    · simp [ih hm]

variable (hr : v.commitments.get? entityId=some shardHashes)
include hr

theorem generateExpectedTag_none (h : Unanswerable shardHashes challenge) :
    v.generateExpectedTag internal entityId challenge=.ok none := by
  simp only [PDPVerifier.generateExpectedTag,hr]
  obtain hp|⟨pair,hp,hn⟩ := h
  · rw [hp]
    rfl
  · rw [mapM_eq_none hp (by simp [hn])]

theorem generateExpectedTag_some (h : ¬Unanswerable shardHashes challenge) :
    v.generateExpectedTag internal entityId challenge=some <$> aggregate
      (challenge.pairs.filterMap fun (idx,coeff) =>
        (shardHashes.get? idx).map (tag internal · coeff)) := by
  obtain ⟨hne,hall⟩ := not_or.mp h
  have hsome : ∀ pair ∈ challenge.pairs,
      (shardHashes.get? pair.1).map (tag internal · pair.2)≠none := fun pair hp hn =>
    hall ⟨pair,hp,Option.map_eq_none_iff.mp hn⟩
  simp only [PDPVerifier.generateExpectedTag,hr]
  rw [mapM_eq_filterMap hsome]
  refine if_neg fun hnil => ?_
  obtain ⟨pair,hp⟩ := exists_mem_of_ne_nil _ hne
  exact hsome pair hp (filterMap_eq_nil_iff.mp hnil pair hp)

omit hr in
variable (internal shardHashes challenge) in
theorem exists_proofFromHashes (elapsed : ℚ) : ∃ sum,
    aggregate (challenge.pairs.filterMap fun (idx,coeff) =>
      (shardHashes.get? idx).map (tag internal · coeff))=.ok sum ∧
    proofFromHashes internal shardHashes challenge elapsed =
      .ok ⟨challenge.challengeId,sum,elapsed,challenge.shardIndices.length⟩ := by
  have hlen : ∀ part ∈ challenge.pairs.filterMap fun (idx,coeff) =>
      (shardHashes.get? idx).map (tag internal · coeff), part.length=internal.size := by
    intro part hp
    obtain ⟨pair,-,hp⟩ := mem_filterMap.mp hp
    obtain ⟨shardHash,-,rfl⟩ := Option.map_eq_some_iff.mp hp
    exact internal.length_run _
  obtain ⟨sum,hs⟩ := exists_aggregate hlen
  exact ⟨sum,hs,by rw [proofFromHashes,respond,hs]; rfl⟩

/-- No answer from the hashes is accepted exactly for the challenges that ask for nothing or for
a shard without a hash. Every other challenge is answered by the tag of the hashes, which the
holder of the shards sends too. -/
theorem possession_iff_unanswerable (canonical : CanonicalHash) (elapsed : ℚ) :
    (∀ shardData, Holds canonical shardData shardHashes challenge →
      computeProofFromShards canonical internal shardData challenge elapsed =
        proofFromHashes internal shardHashes challenge elapsed) ∧
    ((∀ answer : Dict ℤ String → PDPChallenge → PDPProof, v.verifyProof internal entityId challenge
        (answer shardHashes challenge)=.ok false) ↔ Unanswerable shardHashes challenge) ∧
    (¬Unanswerable shardHashes challenge → (proofFromHashes internal shardHashes challenge elapsed
      >>= v.verifyProof internal entityId challenge)=.ok true) := by
  obtain ⟨sum,hs,hproof⟩ := exists_proofFromHashes internal shardHashes challenge elapsed
  have haccepted : ¬Unanswerable shardHashes challenge → v.verifyProof internal entityId challenge
      ⟨challenge.challengeId,sum,elapsed,challenge.shardIndices.length⟩=.ok true := by
    intro h
    rw [PDPVerifier.verifyProof,generateExpectedTag_some hr h,hs]
    simp [bind,Except.bind,pure,Except.pure]
  refine ⟨fun shardData h => computeProofFromShards_eq h elapsed,⟨fun h => ?_,fun h answer => ?_⟩,
    fun h => by rw [hproof]; exact haccepted h⟩
  · by_contra hn
    have hrejected := h fun _ _ =>
      ⟨challenge.challengeId,sum,elapsed,challenge.shardIndices.length⟩
    rw [haccepted hn] at hrejected
    cases hrejected
  · rw [PDPVerifier.verifyProof,generateExpectedTag_none hr h]
    split_ifs <;> rfl

omit hr

def oneShard : Dict ℤ String := Dict.empty.set 0 "sha3-256:aa"

def oneIndex (coefficients : List Bytes) : PDPChallenge := ⟨"c",0,[0],coefficients,1⟩

def oneEntity : PDPVerifier := (⟨Dict.empty⟩ : PDPVerifier).registerCommitment "e" oneShard

theorem noCoefficients_unanswerable : Unanswerable oneShard (oneIndex []) ∧
    ∀ proof, oneEntity.verifyProof cutHash "e" (oneIndex []) proof=.ok false :=
  ⟨.inl rfl,fun proof => (possession_iff_unanswerable rfl cutHash 0).2.1.mpr (.inl rfl)
    fun _ _ => proof⟩

theorem oneShard_answered_from_hash :
    (proofFromHashes cutHash oneShard (oneIndex [[7]]) 0 >>=
      oneEntity.verifyProof cutHash "e" (oneIndex [[7]]))=.ok true := by decide +kernel

end LatticeTransfer.StoragePossession
