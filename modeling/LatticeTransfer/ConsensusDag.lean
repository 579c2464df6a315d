import LatticeTransfer.PyValue

/-!
# Blocks, certificates and the block store of a validator

A block can be built only if its digest can be computed: the fields must fit the
fixed-width encoding that is hashed. The digest covers the author, the round, the
payload up to order and the parents; the timestamp is not part of it.
-/

namespace LatticeTransfer.ConsensusDag
open PyValue

def Encodable (author round : ℕ) (payload : List Bytes) (parents : Finset Bytes) : Prop :=
  author<256^4 ∧ round<256^8 ∧ payload.length<256^4 ∧
    (∀ p ∈ payload, p.length<256^4) ∧ ∀ p ∈ parents, p.length<256^4

instance (author round : ℕ) (payload : List Bytes) (parents : Finset Bytes) :
    Decidable (Encodable author round payload parents) :=
  inferInstanceAs (Decidable (_ ∧ _ ∧ _ ∧ (∀ p ∈ payload, _) ∧ ∀ p ∈ parents, _))

structure Block where
  author : ℕ
  round : ℕ
  payload : List Bytes
  parents : Finset Bytes
  timestampMs : ℤ
  encodable : Encodable author round payload parents
deriving DecidableEq

def lengthPrefixed (item : Bytes) : Bytes := toBigEndian 4 item.length++item

def digestInput (author round : ℕ) (payload : List Bytes) (parents : Finset Bytes) : Bytes :=
  toBigEndian 4 author++toBigEndian 8 round++toBigEndian 4 payload.length ++
    (payload.insertionSort bytesLe).flatMap lengthPrefixed ++
    (sorted bytesLe parents).flatMap lengthPrefixed

variable (sha3 : Bytes → Bytes)

def Block.digest (b : Block) : Bytes := sha3 (digestInput b.author b.round b.payload b.parents)

structure Certificate where
  block : Block
  signers : Finset ℕ
deriving DecidableEq

def Certificate.digest (c : Certificate) : Bytes := c.block.digest sha3

structure CommitDecision where
  leaderCertificate : Certificate
  committedBlocks : List Block
  round : ℕ
deriving DecidableEq

structure EquivocationProof where
  author : ℕ
  blockA : Block
  blockB : Block
  round : ℕ

section
variable {α : Type*}

def atRound (table : Dict ℕ (Dict ℕ α)) (round : ℕ) : Dict ℕ α :=
  (table.get? round).getD Dict.empty

def setSlot (table : Dict ℕ (Dict ℕ α)) (round author : ℕ) (x : α) : Dict ℕ (Dict ℕ α) :=
  table.set round ((atRound table round).set author x)

variable (table : Dict ℕ (Dict ℕ α))

theorem get?_setSlot (round author r a : ℕ) (x : α) :
    (atRound (setSlot table round author x) r).get? a =
      if round=r ∧ author=a then some x else (atRound table r).get? a := by
  rw [atRound,setSlot,Dict.get?_set]
  by_cases hr : round=r
  · subst hr
    simp [Dict.get?_set]
  · simp [hr,atRound]

theorem mem_flatMap_values (x : α) :
    x ∈ table.values.flatMap Dict.values ↔ ∃ r a, (atRound table r).get? a=some x := by
  simp only [List.mem_flatMap,Dict.mem_values_iff]
  constructor
  · rintro ⟨inner,⟨r,hr⟩,a,ha⟩
    refine ⟨r,a,?_⟩
    rw [atRound,hr]
    exact ha
  · rintro ⟨r,a,ha⟩
    cases hr : table.get? r with
    | none =>
      rw [atRound,hr] at ha
      exact absurd ha (by simp)
    | some inner =>
      rw [atRound,hr] at ha
      exact ⟨inner,⟨r,hr⟩,a,ha⟩

end

structure DAGStore where
  blocksByDigest : Dict Bytes Block
  blocksByRound : Dict ℕ (Dict ℕ Block)
  certsByRound : Dict ℕ (Dict ℕ Certificate)
  digest_eq : ∀ d b, blocksByDigest.get? d=some b → b.digest sha3=d
  slot_of_digest : ∀ d b, blocksByDigest.get? d=some b →
    (atRound blocksByRound b.round).get? b.author=some b
  block_slot : ∀ r a b, (atRound blocksByRound r).get? a=some b → b.round=r ∧ b.author=a
  cert_slot : ∀ r a c, (atRound certsByRound r).get? a=some c →
    c.block.round=r ∧ c.block.author=a

namespace DAGStore
variable {sha3}

def empty : DAGStore sha3 where
  blocksByDigest := Dict.empty
  blocksByRound := Dict.empty
  certsByRound := Dict.empty
  digest_eq _ _ h := absurd h (by simp)
  slot_of_digest _ _ h := absurd h (by simp)
  block_slot _ _ _ h := absurd h (by simp [atRound])
  cert_slot _ _ _ h := absurd h (by simp [atRound])

def getBlock (dag : DAGStore sha3) (digest : Bytes) : Option Block :=
  dag.blocksByDigest.get? digest

def blocksAtRound (dag : DAGStore sha3) (round : ℕ) : List Block :=
  (atRound dag.blocksByRound round).values

def getCertificate (dag : DAGStore sha3) (author round : ℕ) : Option Certificate :=
  (atRound dag.certsByRound round).get? author

def certificatesAtRound (dag : DAGStore sha3) (round : ℕ) : List Certificate :=
  (atRound dag.certsByRound round).values

def insertBlock (dag : DAGStore sha3) (b : Block)
    (hfree : (atRound dag.blocksByRound b.round).get? b.author=none) : DAGStore sha3 where
  blocksByDigest := dag.blocksByDigest.set (b.digest sha3) b
  blocksByRound := setSlot dag.blocksByRound b.round b.author b
  certsByRound := dag.certsByRound
  digest_eq := by
    intro d x hx
    rw [Dict.get?_set] at hx
    split_ifs at hx with hd
    · rw [← Option.some.inj hx,hd]
    · exact dag.digest_eq d x hx
  slot_of_digest := by
    intro d x hx
    rw [Dict.get?_set] at hx
    rw [get?_setSlot]
    split_ifs at hx with hd
    · rw [if_pos (by rw [← Option.some.inj hx]; exact ⟨rfl,rfl⟩),hx]
    · have hslot := dag.slot_of_digest d x hx
      rw [if_neg,hslot]
      -- the slot of the new block was free
      rintro ⟨hround,hauthor⟩
      rw [← hround,← hauthor,hfree] at hslot
      exact absurd hslot (by simp)
  block_slot := by
    intro r a x hx
    rw [get?_setSlot] at hx
    split_ifs at hx with hslot
    · rw [← Option.some.inj hx]
      exact hslot
    · exact dag.block_slot r a x hx
  cert_slot := dag.cert_slot

def addBlock (dag : DAGStore sha3) (b : Block) : Bool × DAGStore sha3 :=
  match hslot : (atRound dag.blocksByRound b.round).get? b.author with
  | some _ => (false,dag)
  | none => (true,dag.insertBlock b hslot)

def addCertificate (dag : DAGStore sha3) (c : Certificate) : DAGStore sha3 where
  blocksByDigest := dag.blocksByDigest
  blocksByRound := dag.blocksByRound
  certsByRound := setSlot dag.certsByRound c.block.round c.block.author c
  digest_eq := dag.digest_eq
  slot_of_digest := dag.slot_of_digest
  block_slot := dag.block_slot
  cert_slot := by
    intro r a x hx
    rw [get?_setSlot] at hx
    split_ifs at hx with hslot
    · rw [← Option.some.inj hx]
      exact hslot
    · exact dag.cert_slot r a x hx

variable {dag : DAGStore sha3}

def slot (dag : DAGStore sha3) (round author : ℕ) : Option Block :=
  (atRound dag.blocksByRound round).get? author

def blocks (dag : DAGStore sha3) : List Block := dag.blocksByRound.values.flatMap Dict.values

def certificates (dag : DAGStore sha3) : List Certificate :=
  dag.certsByRound.values.flatMap Dict.values

theorem mem_blocks {b : Block} : b ∈ dag.blocks ↔ dag.slot b.round b.author=some b := by
  rw [blocks,mem_flatMap_values]
  constructor
  · rintro ⟨round,author,hs⟩
    obtain ⟨rfl,rfl⟩ := dag.block_slot round author b hs
    exact hs
  · intro hs
    exact ⟨b.round,b.author,hs⟩

theorem mem_certificates_of_get {author round : ℕ} {c : Certificate}
    (h : dag.getCertificate author round=some c) : c ∈ dag.certificates :=
  (mem_flatMap_values dag.certsByRound c).mpr ⟨round,author,h⟩

section
variable {d : Bytes} {b : Block} (h : dag.getBlock d=some b)
include h

theorem slot_of_getBlock : dag.slot b.round b.author=some b := dag.slot_of_digest d b h

theorem digest_of_getBlock : b.digest sha3=d := dag.digest_eq d b h

end

theorem eq_of_slot {d d' : Bytes} {b b' : Block} (h : dag.getBlock d=some b)
    (h' : dag.getBlock d'=some b') (hr : b.round=b'.round) (ha : b.author=b'.author) : b=b' := by
  have hb := slot_of_getBlock h
  rw [hr,ha,slot_of_getBlock h'] at hb
  exact (Option.some.inj hb).symm

theorem addBlock_cases (dag : DAGStore sha3) (b : Block) :
    ((∃ x, dag.slot b.round b.author=some x) ∧ dag.addBlock b=(false,dag)) ∨
    (dag.slot b.round b.author=none ∧ ∃ dag', dag.addBlock b=(true,dag') ∧
      (∀ d, dag'.getBlock d=if b.digest sha3=d then some b else dag.getBlock d) ∧
      (∀ r a, dag'.slot r a=if b.round=r ∧ b.author=a then some b else dag.slot r a) ∧
      dag'.certsByRound=dag.certsByRound) := by
  rw [addBlock]
  split
  · rename_i x hs
    exact .inl ⟨⟨x,hs⟩,rfl⟩
  · rename_i hs
    exact .inr ⟨hs,_,rfl,fun d => Dict.get?_set _ _ _ _,
      fun r a => get?_setSlot _ _ _ _ _ _,rfl⟩

theorem getCertificate_addCertificate (dag : DAGStore sha3) (c : Certificate) (author round : ℕ) :
    (dag.addCertificate c).getCertificate author round =
      if c.block.round=round ∧ c.block.author=author then some c
      else dag.getCertificate author round :=
  get?_setSlot _ _ _ _ _ _

theorem slot_of_getCertificate {author round : ℕ} {c : Certificate}
    (h : dag.getCertificate author round=some c) :
    c.block.round=round ∧ c.block.author=author := dag.cert_slot round author c h

end DAGStore

end LatticeTransfer.ConsensusDag
