import LatticeTransfer.ErasureField
import LatticeTransfer.GaussJordan
import Mathlib.Data.List.GetD
import Mathlib.LinearAlgebra.Vandermonde

/-!
# Encoding and decoding of the erasure coder

`encode` and `decode` follow the pure-Python path of `ErasureCoder`: the length header
and padding, the evaluation of the chunk polynomial at the points 1..n, the inversion of
the Vandermonde rows of the k smallest present indices and the byte-by-byte
reconstruction.
-/

open Matrix
namespace LatticeTransfer.ErasureCoder
open ErasureField PyValue GaussJordan List

def pad (data : Bytes) (k : ℕ) : Bytes :=
  let remainder := data.length % k
  if remainder≠0 then data++List.replicate (k-remainder) 0 else data

def xorSum {k : ℕ} (f : Fin k → Byte) : Byte :=
  (finRange k).foldl (fun val j => val ^^^ f j) 0

def gfPow (alpha : Byte) : ℕ → Byte
  | 0 => 1
  | j+1 => gfMul (gfPow alpha j) alpha

def dataChunk (padded : Bytes) (chunkSize i : ℕ) : Bytes :=
  (padded.drop (i*chunkSize)).take chunkSize

def shard (padded : Bytes) (k chunkSize : ℕ) (alpha : Byte) : Bytes :=
  (List.range chunkSize).map fun bytePos =>
    xorSum fun j : Fin k => gfMul (gfPow alpha j) ((dataChunk padded chunkSize j).getD bytePos 0)

def encode (data : ByteString) (n k : ℕ) : Except PyError (List Bytes) := do
  if ¬(k<n ∧ 0<k) then throw (.valueError "Need n > k > 0")
  if 255<n then throw (.valueError "GF(256) supports at most 255 evaluation points")
  let header ← pack 8 data.val.length
  let padded := pad (header++data.val) k
  let chunkSize := padded.length / k
  return (List.range n).map fun i => shard padded k chunkSize (UInt8.ofNat (i+1))

abbrev Aug (k : ℕ) := Fin k → Fin k ⊕ Fin k → Byte

def augmented {k : ℕ} (alphas : Fin k → Byte) : Aug k :=
  fun i => Sum.elim (fun j => gfPow (alphas i) j) (fun j => if j=i then 1 else 0)

def pivotRow {k : ℕ} (aug : Aug k) (col : Fin k) : Option (Fin k) :=
  (finRange k).find? fun row => decide (col≤row ∧ aug row (.inl col)≠0)

def eliminateColumn {k : ℕ} (aug : Aug k) (col : Fin k) : Except PyError (Aug k) :=
  match pivotRow aug col with
  | none => .error (.assertionError "Vandermonde matrix is singular (duplicate alphas?)")
  | some pivot =>
    let swapped : Aug k := if pivot≠col then fun row => aug (Equiv.swap col pivot row) else aug
    match gfInv (swapped col (.inl col)) with
    | none => .error (.assertionError "Cannot invert zero in GF(256)")
    | some invPivot =>
      let scaled : Aug k := fun row j =>
        if row=col then gfMul (swapped row j) invPivot else swapped row j
      .ok fun row j =>
        if row=col then scaled row j
        else
          let factor := scaled row (.inl col)
          if factor=0 then scaled row j else scaled row j ^^^ gfMul factor (scaled col j)

def invertVandermonde {k : ℕ} (alphas : Fin k → Byte) : Except PyError (Fin k → Fin k → Byte) := do
  let aug ← (finRange k).foldlM eliminateColumn (augmented alphas)
  return fun i j => aug i (.inr j)

def reconstruct {k : ℕ} (vInv : Fin k → Fin k → Byte) (rows : Fin k → Bytes) (chunkSize : ℕ) :
    Bytes :=
  (finRange k).flatMap fun m => (List.range chunkSize).map fun bytePos =>
    xorSum fun j => gfMul (vInv m j) ((rows j).getD bytePos 0)

def smallest (shards : Dict ℕ Bytes) (k : ℕ) : List ℕ :=
  (shards.keys.insertionSort (· ≤ ·)).take k

def stripHeader (result : Bytes) : Except PyError Bytes := do
  let originalLength ← unpack 8 (result.take 8)
  return (result.drop 8).take originalLength

def decode (shards : Dict ℕ Bytes) (_n k : ℕ) : Except PyError Bytes :=
  let got := shards.size
  if got<k then .error (.valueError s!"Need at least {k} shards, got {got}") else
  let indices := smallest shards k
  let rows : Fin k → Bytes := fun j => (shards.get? (indices.getD j 0)).getD []
  if hk : 0<k then
    let chunkSize := (rows ⟨0,hk⟩).length
    -- A point above 255 runs past the logarithm table, a short shard past its own end.
    if indices.any (fun idx => 255 < idx+1) then
      .error (.indexError "list index out of range")
    else do
    let vInv ← invertVandermonde fun i : Fin k => UInt8.ofNat (indices.getD i 0+1)
    if (finRange k).any (fun j => (rows j).length<chunkSize) then
      .error (.indexError "index out of range")
    else stripHeader (reconstruct vInv rows chunkSize)
  else .error (.indexError "list index out of range")

theorem mk_gfPow (alpha : Byte) (j : ℕ) : (⟨gfPow alpha j⟩ : GF256)=⟨alpha⟩^j := by
  induction j with
  | zero => rfl
  | succ j ih =>
    rw [pow_succ,← ih]
    rfl

variable {k : ℕ}

theorem mk_foldl_xor (f : Fin k → Byte) (l : List (Fin k)) (start : Byte) :
    (⟨l.foldl (fun val j => val ^^^ f j) start⟩ : GF256) =
      ⟨start⟩+(l.map fun j => (⟨f j⟩ : GF256)).sum := by
  induction l generalizing start with
  | nil => exact (add_zero _).symm
  | cons j l ih =>
    rw [foldl_cons,ih,map_cons,sum_cons,← add_assoc]
    rfl

theorem mk_xorSum (f : Fin k → Byte) : (⟨xorSum f⟩ : GF256) = ∑ j, (⟨f j⟩ : GF256) := by
  rw [xorSum,mk_foldl_xor]
  exact zero_add _

def toRows {k : ℕ} (aug : Aug k) : Rows GF256 k := fun i j => ⟨aug i j⟩

theorem mk_ne_zero {b : Byte} : (⟨b⟩ : GF256)≠0 ↔ b≠0 :=
  not_congr ⟨fun h => congrArg GF256.byte h,fun h => congrArg GF256.mk h⟩

theorem toRows_augmented (alphas : Fin k → Byte) :
    toRows (augmented alphas)=augment (vandermonde fun i => (⟨alphas i⟩ : GF256)) := by
  funext i j
  rcases j with j|j
  · exact mk_gfPow (alphas i) j
  · by_cases hij : j=i
    · simp only [toRows,augmented,augment,Sum.elim_inr,hij,one_apply_eq]
      rfl
    · simp only [toRows,augmented,augment,Sum.elim_inr,hij,one_apply_ne' hij]
      rfl

theorem findPivot_toRows (aug : Aug k) (col : Fin k) :
    findPivot (toRows aug) col=pivotRow aug col := by simp [findPivot,pivotRow,toRows,mk_ne_zero]

theorem eliminateColumn_of_step {aug : Aug k} {col : Fin k} {N : Rows GF256 k}
    (h : step (toRows aug) col=some N) :
    ∃ next, eliminateColumn aug col=.ok next ∧ toRows next=N := by
  obtain ⟨pivot,hp,rfl⟩ := Option.map_eq_some_iff.mp h
  have hne := (findPivot_spec hp).2
  rw [findPivot_toRows] at hp
  have hs : (if pivot≠col then fun row => aug (Equiv.swap col pivot row) else aug) =
      fun row => aug (Equiv.swap col pivot row) := by
    by_cases hpc : pivot=col
    · subst hpc
      simp
    · simp [hpc]
  have hpi : aug pivot (.inl col)≠0 := mk_ne_zero.mp hne
  obtain ⟨invPivot,hi⟩ : ∃ b, gfInv (aug pivot (.inl col))=some b := by simp [gfInv,hpi]
  refine ⟨_,by simp only [eliminateColumn,hp,hs,Equiv.swap_apply_left,hi]; rfl,?_⟩
  funext row j
  apply GF256.ext
  by_cases hr : row=col
  · subst hr
    simp [toRows,reduceAt,clearColumn,scaleRow,swapRows,hi]
  · simp only [toRows,reduceAt,clearColumn,scaleRow,swapRows,hr,↓reduceIte,
      Equiv.swap_apply_left,GF256.byte_sub,GF256.byte_mul,GF256.byte_inv,hi]
    by_cases hf : aug (Equiv.swap col pivot row) (.inl col)=0
    · simp [hf,gfMul]
    · simp [hf]

theorem foldlM_eliminateColumn (cols : List (Fin k)) {aug : Aug k} {N : Rows GF256 k}
    (h : cols.foldlM step (toRows aug)=some N) :
    ∃ final, cols.foldlM eliminateColumn aug=.ok final ∧ toRows final=N := by
  induction cols generalizing aug with
  | nil => exact ⟨aug,rfl,by simpa using h⟩
  | cons col cols ih =>
    obtain ⟨M,hM,hr⟩ := Option.bind_eq_some_iff.mp h
    obtain ⟨next,hn,rfl⟩ := eliminateColumn_of_step hM
    obtain ⟨final,hf,hN⟩ := ih hr
    refine ⟨final,?_,hN⟩
    rw [foldlM_cons,hn]
    exact hf

theorem invertVandermonde_spec {alphas : Fin k → Byte} (hi : Function.Injective alphas) :
    ∃ vInv, invertVandermonde alphas=.ok vInv ∧ ∀ (coeff : Fin k → Byte) (m : Fin k),
        xorSum (fun j => gfMul (vInv m j)
          (xorSum fun t : Fin k => gfMul (gfPow (alphas j) t) (coeff t)))=coeff m := by
  have hd : (vandermonde fun i => (⟨alphas i⟩ : GF256)).det≠0 :=
    det_vandermonde_ne_zero_iff.mpr fun i j hij => hi (congrArg GF256.byte hij)
  obtain ⟨N,hN,hl⟩ := eliminate_augment _ hd
  rw [← toRows_augmented] at hN
  obtain ⟨final,hf,rfl⟩ := foldlM_eliminateColumn _ hN
  refine ⟨fun i j => final i (.inr j),by rw [invertVandermonde,hf]; rfl,fun coeff m => ?_⟩
  have hmu : (right (toRows final)*vandermonde fun i => (⟨alphas i⟩ : GF256)) *ᵥ
      (fun t => (⟨coeff t⟩ : GF256))=fun t => ⟨coeff t⟩ := by rw [hl,one_mulVec]
  have hm := congrFun hmu m
  rw [← mulVec_mulVec] at hm
  have hv : ∀ j, (⟨xorSum fun t : Fin k => gfMul (gfPow (alphas j) t) (coeff t)⟩ : GF256) =
      ((vandermonde fun i => (⟨alphas i⟩ : GF256)) *ᵥ fun t => ⟨coeff t⟩) j := by
    intro j
    rw [mk_xorSum]
    refine Finset.sum_congr rfl fun t _ => ?_
    change (⟨gfPow (alphas j) t⟩ : GF256)*⟨coeff t⟩=vandermonde _ j t*⟨coeff t⟩
    rw [vandermonde_apply,mk_gfPow]
  have hs : (⟨xorSum fun j => gfMul (final m (.inr j))
      (xorSum fun t : Fin k => gfMul (gfPow (alphas j) t) (coeff t))⟩ : GF256)=⟨coeff m⟩ := by
    rw [mk_xorSum,← hm]
    refine Finset.sum_congr rfl fun j _ => ?_
    rw [← hv]
    rfl
  exact congrArg GF256.byte hs

theorem length_pad_dvd (data : Bytes) (hk : 0<k) : k ∣ (pad data k).length := by
  unfold pad
  dsimp only
  have hlt := Nat.mod_lt data.length hk
  split_ifs with h
  · have hd := Nat.div_add_mod data.length k
    refine ⟨data.length / k+1,?_⟩
    rw [length_append,length_replicate,Nat.mul_add]
    omega
  · exact Nat.dvd_of_mod_eq_zero (not_not.mp h)

theorem pad_eq_append (data : Bytes) (k : ℕ) : ∃ zeros, pad data k=data++zeros := by
  unfold pad
  dsimp only
  split_ifs
  · exact ⟨_,rfl⟩
  · exact ⟨[],(append_nil _).symm⟩

variable {chunkSize : ℕ}

section
variable (padded : Bytes)

theorem dataChunk_getD {pos : ℕ} (i : ℕ) (hp : pos<chunkSize) :
    (dataChunk padded chunkSize i).getD pos 0=padded.getD (i*chunkSize+pos) 0 := by
  simp [dataChunk,hp]

theorem map_getD_range (start count : ℕ) (h : start+count≤padded.length) :
    (List.range count).map (fun pos => padded.getD (start+pos) 0) =
      (padded.drop start).take count := by
  apply ext_getElem
  · simp
    omega
  · intro pos h1 h2
    have hp : pos<count := by simpa using h1
    have hlt : start+pos<padded.length := by omega
    simp [getElem?_eq_getElem hlt]

theorem flatMap_chunks (chunkSize k : ℕ) (h : k*chunkSize≤padded.length) :
    (finRange k).flatMap (fun m : Fin k => (List.range chunkSize).map fun pos =>
      padded.getD (m.val*chunkSize+pos) 0)=padded.take (k*chunkSize) := by
  induction k with
  | zero => simp
  | succ k ih =>
    have hk : k*chunkSize+chunkSize≤padded.length := by rwa [← Nat.succ_mul]
    rw [finRange_succ_last,flatMap_append,flatMap_map,Nat.succ_mul,take_add]
    simp only [Fin.val_castSucc,flatMap_cons,flatMap_nil,append_nil,Fin.val_last]
    rw [ih (by omega),map_getD_range padded _ _ hk]

theorem length_shard (k chunkSize : ℕ) (alpha : Byte) :
    (shard padded k chunkSize alpha).length=chunkSize := by simp [shard]

end

variable {S : Dict ℕ Bytes}

theorem length_smallest (h : k≤S.size) : (smallest S k).length=k := by
  simpa [smallest,Dict.keys,Dict.size] using h

theorem nodup_smallest (S : Dict ℕ Bytes) (k : ℕ) : (smallest S k).Nodup :=
  ((perm_insertionSort (· ≤ ·) S.keys).nodup_iff.mpr S.nodup).take

theorem mem_smallest {idx : ℕ} (h : idx ∈ smallest S k) : idx ∈ S.keys :=
  (mem_insertionSort (· ≤ ·)).mp (mem_of_mem_take h)

theorem smallest_getD_mem (h : k≤S.size) (j : Fin k) : (smallest S k).getD j 0 ∈ smallest S k := by
  have hj : j.val<(smallest S k).length := by
    rw [length_smallest h]
    exact j.isLt
  rw [getD_eq_getElem _ _ hj]
  exact getElem_mem hj

theorem smallest_getD_injective (h : k≤S.size) :
    Function.Injective fun j : Fin k => (smallest S k).getD j 0 := by
  intro i j hij
  have hl := length_smallest h
  have hi : i.val<(smallest S k).length := hl.symm ▸ i.isLt
  have hj : j.val<(smallest S k).length := hl.symm ▸ j.isLt
  simp only [getD_eq_getElem _ _ hi,getD_eq_getElem _ _ hj] at hij
  exact Fin.ext ((nodup_smallest S k).getElem_inj_iff.mp hij)

theorem point_injective {a b : ℕ} (ha : a<255) (hb : b<255)
    (h : UInt8.ofNat (a+1)=UInt8.ofNat (b+1)) : a=b := by
  have hn := congrArg UInt8.toNat h
  simp only [UInt8.toNat_ofNat'] at hn
  omega

structure Holds (padded : Bytes) (k chunkSize : ℕ) (S : Dict ℕ Bytes) : Prop where
  enough : k≤S.size
  bounded : ∀ idx ∈ S.keys, idx<255
  shards : ∀ p ∈ S.entries, p.2=shard padded k chunkSize (UInt8.ofNat (p.1+1))

theorem holds_row {padded : Bytes} (h : Holds padded k chunkSize S) (j : Fin k) :
    (S.get? ((smallest S k).getD j 0)).getD [] =
      shard padded k chunkSize (UInt8.ofNat ((smallest S k).getD j 0+1)) := by
  obtain ⟨value,hv⟩ :=
    (S.mem_keys_iff _).mp (mem_smallest (smallest_getD_mem h.enough j))
  rw [hv]
  exact h.shards _ ((S.get?_eq_some_iff _ _).mp hv)

theorem reconstruct_rows {padded : Bytes} {alphas : Fin k → Byte} {vInv : Fin k → Fin k → Byte}
    (hl : padded.length=k*chunkSize) (hi : ∀ (coeff : Fin k → Byte) (m : Fin k),
      xorSum (fun j => gfMul (vInv m j)
        (xorSum fun t : Fin k => gfMul (gfPow (alphas j) t) (coeff t)))=coeff m) :
    reconstruct vInv (fun j => shard padded k chunkSize (alphas j)) chunkSize=padded := by
  have hb : ∀ m : Fin k, (List.range chunkSize).map (fun bytePos => xorSum fun j =>
      gfMul (vInv m j) ((shard padded k chunkSize (alphas j)).getD bytePos 0)) =
      (List.range chunkSize).map fun pos => padded.getD (m.val*chunkSize+pos) 0 := by
    intro m
    refine map_congr_left fun pos hp => ?_
    have hlt : pos<chunkSize := mem_range.mp hp
    have hr : ∀ j, (shard padded k chunkSize (alphas j)).getD pos 0 =
        xorSum fun t : Fin k => gfMul (gfPow (alphas j) t)
          ((dataChunk padded chunkSize t).getD pos 0) := by
      intro j
      rw [getD_eq_getElem _ _ (by rwa [length_shard])]
      simp [shard]
    simp only [hr,hi]
    exact dataChunk_getD padded m hlt
  rw [reconstruct,flatMap_congr fun m _ => hb m,flatMap_chunks padded chunkSize k hl.ge,
    ← hl,take_length]

theorem stripHeader_framed {data zeros : Bytes} (hd : data.length<256^8) :
    stripHeader (toBigEndian 8 data.length++data++zeros)=.ok data := by
  have ht : (toBigEndian 8 data.length++data++zeros).take 8=toBigEndian 8 data.length := by
    rw [append_assoc]
    exact take_left' (length_toBigEndian 8 _)
  have hdr : (toBigEndian 8 data.length++data++zeros).drop 8=data++zeros := by
    rw [append_assoc]
    exact drop_left' (length_toBigEndian 8 _)
  rw [stripHeader,ht,hdr,unpack_toBigEndian hd]
  exact congrArg Except.ok (take_left' rfl)

variable {n : ℕ}

theorem decode_holds (hk : 0<k) {data zeros : Bytes} (hd : data.length<256^8)
    (hl : (toBigEndian 8 data.length++data++zeros).length=k*chunkSize)
    (hS : Holds (toBigEndian 8 data.length++data++zeros) k chunkSize S) :
    decode S n k=.ok data := by
  have hp : ∀ j : Fin k, (smallest S k).getD j 0<255 := fun j =>
    hS.bounded _ (mem_smallest (smallest_getD_mem hS.enough j))
  have hi : Function.Injective fun i : Fin k => UInt8.ofNat ((smallest S k).getD i 0+1) :=
    fun i j hij => smallest_getD_injective hS.enough (point_injective (hp i) (hp j) hij)
  obtain ⟨vInv,hV,hin⟩ := invertVandermonde_spec hi
  have hr : (smallest S k).any (fun idx => decide (255 < idx+1))=false := by
    rw [any_eq_false]
    intro idx hid
    have hlt := hS.bounded idx (mem_smallest hid)
    simp only [decide_eq_true_eq]
    omega
  have hs : ¬S.size<k := not_lt.mpr hS.enough
  simp only [decode,hs,hk,hr,hV]
  -- Every selected row is a shard, so no row is shorter than the first one.
  have hro := fun j => holds_row hS j
  have hf := hro ⟨0,hk⟩
  simp only [hro,hf,length_shard,lt_irrefl,decide_false,any_eq_true,
    Bool.false_eq_true,and_false,exists_false]
  exact (congrArg stripHeader (reconstruct_rows hl hin)).trans (stripHeader_framed hd)

def framed (data : ByteString) (k : ℕ) : Bytes :=
  pad (toBigEndian 8 data.val.length++data.val) k

def shardsOf (data : ByteString) (n k : ℕ) : List Bytes :=
  (List.range n).map fun i =>
    shard (framed data k) k ((framed data k).length / k) (UInt8.ofNat (i+1))

section
variable (data : ByteString)

theorem length_shardsOf (n k : ℕ) : (shardsOf data n k).length=n := by simp [shardsOf]

theorem length_lt_pack : data.val.length<256^8 :=
  lt_of_le_of_lt data.property (by norm_num)

theorem encode_eq_shardsOf (hk : 0<k) (hkn : k<n) (hn : n≤255) :
    encode data n k=.ok (shardsOf data n k) := by
  have hnk : ¬ ¬(k<n ∧ 0<k) := not_not.mpr ⟨hkn,hk⟩
  have hm : ¬255<n := not_lt.mpr hn
  simp only [encode,hnk,hm,pack,length_lt_pack data]
  rfl

end

theorem encode_ok {data : ByteString} {shards : List Bytes} (h : encode data n k=.ok shards) :
    0<k ∧ k<n ∧ n≤255 ∧ shards=shardsOf data n k := by
  by_cases hnk : k<n ∧ 0<k
  · by_cases hm : 255<n
    · simp [encode,hnk,hm,bind,Except.bind] at h
    · rw [encode_eq_shardsOf data hnk.2 hnk.1 (not_lt.mp hm)] at h
      exact ⟨hnk.2,hnk.1,not_lt.mp hm,(Except.ok.inj h).symm⟩
  · simp [encode,hnk,bind,Except.bind] at h

theorem decode_shardsOf (data : ByteString) (hk : 0<k) (hn : n≤255)
    (hS : ∀ p ∈ S.entries, (shardsOf data n k)[p.1]?=some p.2) (hsi : k≤S.size) :
    decode S n k=.ok data.val := by
  obtain ⟨zeros,hz⟩ := pad_eq_append (toBigEndian 8 data.val.length++data.val) k
  obtain ⟨chunkSize,hc⟩ := length_pad_dvd (toBigEndian 8 data.val.length++data.val) hk
  have hd : (framed data k).length / k=chunkSize := by rw [framed,hc,Nat.mul_div_cancel_left _ hk]
  have he : ∀ p ∈ S.entries, p.1<n ∧
      shard (framed data k) k chunkSize (UInt8.ofNat (p.1+1))=p.2 := by
    intro p hp
    have hlt := hS p hp
    rw [shardsOf,hd,getElem?_map,Option.map_eq_some_iff] at hlt
    obtain ⟨i,hi,hs⟩ := hlt
    rw [getElem?_eq_some_iff] at hi
    obtain ⟨hip,hv⟩ := hi
    simp only [length_range,getElem_range] at hip hv
    exact ⟨hip,hv ▸ hs⟩
  rw [framed,hz] at he
  rw [hz] at hc
  refine decode_holds hk (length_lt_pack data) hc ⟨hsi,?_,?_⟩
  · intro idx hid
    obtain ⟨p,hp,rfl⟩ := mem_map.mp hid
    exact lt_of_lt_of_le (he p hp).1 hn
  · intro p hp
    exact (he p hp).2.symm

theorem decode_encode (data : ByteString) (n k : ℕ) (hk : 0<k) (hkn : k<n) (hn : n≤255) :
    ∃ shards, encode data n k=.ok shards ∧ shards.length=n ∧
      ∀ S : Dict ℕ Bytes, (∀ p ∈ S.entries, shards[p.1]?=some p.2) → k≤S.size →
        decode S n k=.ok data.val := by
  refine ⟨shardsOf data n k,encode_eq_shardsOf data hk hkn hn,length_shardsOf data n k,?_⟩
  intro S hS hs
  exact decode_shardsOf data hk hn hS hs

theorem decode_encode_two_of_three :
    ∃ shards : List Bytes, encode ⟨[7,9],by decide⟩ 3 2=.ok shards ∧
      decode ⟨[(2,shards.getD 2 []),(0,shards.getD 0 [])],by simp⟩ 3 2=.ok [7,9] := by
  obtain ⟨shards,hs,hl,h⟩ :=
    decode_encode ⟨[7,9],by decide⟩ 3 2 (by decide) (by decide) (by decide)
  refine ⟨shards,hs,h _ ?_ (by simp [Dict.size])⟩
  intro p hp
  rcases mem_pair.mp hp with rfl|rfl
  · simp [hl]
  · simp [hl]

end LatticeTransfer.ErasureCoder
