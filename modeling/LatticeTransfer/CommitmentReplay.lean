import LatticeTransfer.CommitmentLog

/-!
# Replaying the commitment log

A restarted `CommitmentLog` knows only the rows of its store. `Mirrors` says that
replaying them, before the final tree head, gives what the live log holds: the records,
the chain, the leaf indices and the leaves. The write comes before the capacity check of
the Merkle tree and before the tree head is signed, so a call on a full tree, or one
whose signer refuses, raises with one more row in the store than the log holds.
-/

namespace LatticeTransfer.CommitmentLog
open MerkleTree MerkleLog List

variable (H : CanonicalHash) {S : MLDSA} (op : KeyPair S)

namespace Memory

def verifyChain (log : Memory) : ℕ → List String → Except PyError (Bool × ℤ)
  | _, [] => .ok (true,log.chain.length-1)
  | i, entityId::rest => do
    let record ← (log.records.get? entityId).elim (.error .keyError) .ok
    let bytes ← record.toBytes
    let stored ← log.merkleLog.tree.leafHashAt i
    if leafHash H bytes≠stored then return (false,i) else verifyChain log (i+1) rest

def verifyChainIntegrity (log : Memory) : Except PyError (Bool × ℤ) :=
  if log.chain=[] then .ok (true,-1) else log.verifyChain H 0 log.chain

end Memory

structure SameContents (a b : Memory) : Prop where
  records : a.records=b.records
  chain : a.chain=b.chain
  recordIndices : a.recordIndices=b.recordIndices
  bytes : a.merkleLog.records=b.merkleLog.records
  leaves : a.merkleLog.tree.leaves=b.merkleLog.tree.leaves

def Mirrors (rows : List Row) (log : Memory) : Prop :=
  ∃ replayed, rows.foldlM (Memory.replayRow H) Memory.init=.ok replayed ∧
    SameContents replayed log

structure Indexed (log : Memory) : Prop where
  keys : log.records.keys=log.chain
  leaves : List.Forall₂ (fun entityId bytes => ∃ record, log.records.get? entityId=some record ∧
    record.toBytes=.ok bytes) log.chain log.merkleLog.records

variable {H op} {rows : List Row} {log : Memory}

theorem SameContents.refl (log : Memory) : SameContents log log := ⟨rfl,rfl,rfl,rfl,rfl⟩

theorem SameContents.symm {other : Memory} (h : SameContents log other) : SameContents other log :=
  ⟨h.records.symm,h.chain.symm,h.recordIndices.symm,h.bytes.symm,h.leaves.symm⟩

theorem SameContents.trans {b c : Memory} (h : SameContents log b) (h' : SameContents b c) :
    SameContents log c :=
  ⟨h.records.trans h'.records,h.chain.trans h'.chain,h.recordIndices.trans h'.recordIndices,
    h.bytes.trans h'.bytes,h.leaves.trans h'.leaves⟩

theorem Indexed.of_same {other : Memory} (h : Indexed log) (hs : SameContents log other) :
    Indexed other := by
  refine ⟨by rw [← hs.records,← hs.chain,h.keys],?_⟩
  rw [← hs.records,← hs.chain,← hs.bytes]
  exact h.leaves

theorem Indexed.get?_eq_none (h : Indexed log) {id : String} (hn : id ∉ log.chain) :
    log.records.get? id=none := by
  rw [← h.keys,Dict.mem_keys_iff] at hn
  rw [Option.eq_none_iff_forall_ne_some]
  exact fun record hr => hn ⟨record,hr⟩

variable {record : CommitmentRecord} {bytes : Bytes}

theorem Indexed.index {merkleLog : Log} {id : String} (h : Indexed log)
    (hn : id ∉ log.chain) (hby : record.toBytes=.ok bytes)
    (hre : merkleLog.records=log.merkleLog.records++[bytes]) (leaf : ℕ) :
    Indexed (log.index record id leaf merkleLog) := by
  have hk : id ∉ log.records.keys := by rwa [h.keys]
  refine ⟨by rw [Memory.index,Dict.keys_set_of_notMem _ _ hk,h.keys],?_⟩
  simp only [Memory.index,hre]
  refine rel_append ?_ (List.Forall₂.cons ⟨record,Dict.get?_set_self _ _ _,hby⟩ .nil)
  -- the entities already there keep their records
  have hol := (forall₂_and_left (p := fun other => id≠other) _ _).mpr
    ⟨fun other ho heq => hn (heq ▸ ho),h.leaves⟩
  refine hol.imp ?_
  rintro other b ⟨hne,r,hr,hb⟩
  exact ⟨r,(Dict.get?_set_ne _ _ hne).trans hr,hb⟩

theorem Indexed.init : Indexed Memory.init := ⟨rfl,.nil⟩

theorem indexed_replay {replayed : Memory} (hv : Valid H S log.merkleLog) (h : Indexed log)
    (hrea : ∀ row ∈ rows, row.Readable) (hi : (log.chain++rows.map Row.entityId).Nodup)
    (hf : rows.foldlM (Memory.replayRow H) log=.ok replayed) :
    Indexed replayed ∧ replayed.chain=log.chain++rows.map Row.entityId := by
  induction rows generalizing log with
  | nil =>
    cases hf
    exact ⟨h,by simp⟩
  | cons row rows ih =>
    rw [foldlM_cons] at hf
    obtain ⟨record,hre,hb⟩ := hrea row mem_cons_self
    rcases Nat.lt_or_eq_of_le hv.capacity with hlt|hfu
    · obtain ⟨merkleLog,hs,hv',hrec,-⟩ := replayRow_ok hv hre hb hlt
      simp only [hs] at hf
      have hn : row.entityId ∉ log.chain := by
        intro hm
        exact disjoint_of_nodup_append hi hm (by simp)
      have ha : log.chain++(row::rows).map Row.entityId =
          log.chain++[row.entityId]++rows.map Row.entityId := by simp
      rw [ha] at hi ⊢
      exact @ih (log.index record row.entityId log.merkleLog.records.length merkleLog) hv'
        (h.index hn hb hrec _) (fun r hr => hrea r (mem_cons_of_mem _ hr)) hi
        hf
    · obtain ⟨e,hs⟩ := replayRow_full hv ⟨record,hre,hb⟩ hfu
      simp [hs,bind,Except.bind] at hf

theorem Mirrors.indexed (h : Mirrors H rows log) (hs : StoreValid rows)
    (hid : (rows.map Row.entityId).Nodup) : Indexed log ∧ log.chain=rows.map Row.entityId := by
  obtain ⟨replayed,hf,hsa⟩ := h
  have hv : Valid H plainScheme Memory.init.merkleLog := .init
  obtain ⟨hi,hc⟩ := indexed_replay hv Indexed.init hs.readable hid hf
  exact ⟨hi.of_same hsa,by rw [← hsa.chain,hc]; rfl⟩

theorem verifyChain_ok (hv : Valid H S log.merkleLog) {before after : List Bytes}
    {entities : List String} (hr : log.merkleLog.records=before++after)
    (h : List.Forall₂ (fun id bytes => ∃ record, log.records.get? id=some record ∧
      record.toBytes=.ok bytes) entities after) :
    log.verifyChain H before.length entities=.ok (true,log.chain.length-1) := by
  induction h generalizing before with
  | nil => rfl
  | @cons id bytes entities after hre hres ih =>
    obtain ⟨record,hg,hb⟩ := hre
    have hleaf : log.merkleLog.tree.leafHashAt before.length=.ok (leafHash H bytes) := by
      have hs := hv.tree_size
      rw [hr,length_append,length_cons] at hs
      rw [Tree.leafHashAt,if_pos ⟨by omega,by omega⟩,hv.leaves,hr]
      simp [hashLeaves]
    have hn := @ih (before++[bytes]) (by rw [hr]; simp)
    rw [length_append,length_singleton] at hn
    simp only [Memory.verifyChain,hg,Option.elim,hb,hleaf,hn,bind,Except.bind,
      ne_eq,not_true_eq_false,if_false]

theorem verifyChainIntegrity_ok (hv : Valid H S log.merkleLog) (h : Indexed log) :
    log.verifyChainIntegrity H=.ok (true,(log.records.size : ℤ)-1) := by
  have hs : log.records.size=log.chain.length := by rw [← h.keys,Dict.length_keys]
  rw [Memory.verifyChainIntegrity,hs]
  split_ifs with hn
  · simp [hn]
  · exact @verifyChain_ok H S log hv [] _ _ rfl h.leaves

theorem SameContents.of_valid {S T : MLDSA} {a b : Memory} (ha : Valid H S a.merkleLog)
    (hb : Valid H T b.merkleLog) (hr : a.records=b.records) (hc : a.chain=b.chain)
    (hi : a.recordIndices=b.recordIndices)
    (hby : a.merkleLog.records=b.merkleLog.records) : SameContents a b :=
  ⟨hr,hc,hi,hby,by rw [ha.leaves,hb.leaves,hby]⟩

theorem replayed_valid {replayed : Memory} (hs : StoreValid rows)
    (hf : rows.foldlM (Memory.replayRow H) Memory.init=.ok replayed) :
    Valid H S replayed.merkleLog := by
  have hi : Valid H S Memory.init.merkleLog := .init
  rcases replay_rows hi hs.readable with ⟨-,log',hf',hv,-⟩|⟨-,e,hf'⟩
  · rw [hf] at hf'
    rwa [Except.ok.inj hf']
  · simp [hf] at hf'

theorem Mirrors.append (h : Mirrors H rows log) (hs : StoreValid rows) {merkleLog : Log}
    (hb : record.toBytes=.ok bytes) (hlt : log.merkleLog.records.length<Tree.capacity)
    (hv : Valid H S merkleLog) (hr : merkleLog.records=log.merkleLog.records++[bytes])
    (chainIndex leafIndex : ℕ) (id : String) :
    Mirrors H (rows++[⟨chainIndex,id,leafIndex,record.toDict⟩])
      (log.index record id log.merkleLog.records.length merkleLog) := by
  obtain ⟨replayed,hf,hsa⟩ := h
  have hro := toDict_bytes hb chainIndex leafIndex id
  obtain ⟨merkleLog',hst,hv',hr',-⟩ :=
    @replayRow_ok H S replayed ⟨chainIndex,id,leafIndex,record.toDict⟩ record
      (replayed_valid hs hf) (restore_toDict record) (hb.trans (by rw [hro]))
      (by rwa [hsa.bytes])
  refine ⟨replayed.index record id replayed.merkleLog.records.length merkleLog',?_,
    SameContents.of_valid hv' hv ?_ ?_ ?_ ?_⟩
  · rw [foldlM_append,hf]
    simp only [bind,Except.bind,foldlM_cons,hst]
    rfl
  · simp [Memory.index,hsa.records]
  · simp [Memory.index,hsa.chain]
  · simp [Memory.index,hsa.recordIndices,hsa.bytes]
  · simp [Memory.index,hr',hr,hro,hsa.bytes]

theorem replayFromStore_mirrors {stamp : Stamp} (hs : StoreValid rows)
    (h : Memory.replayFromStore H op rows stamp=.ok log) : Mirrors H rows log := by
  rw [Memory.replayFromStore,hs.loadAllRecords] at h
  cases hf : rows.foldlM (Memory.replayRow H) Memory.init with
  | error e => simp [hf,bind,Except.bind] at h
  | ok replayed =>
    simp only [hf,bind,Except.bind] at h
    refine ⟨replayed,hf,?_⟩
    split_ifs at h with hn
    · cases h
      exact .refl _
    · have hv : Valid H S replayed.merkleLog := replayed_valid hs hf
      obtain ⟨hv',hr,-⟩ := hv.publishSth op stamp
      cases hp : replayed.merkleLog.publishSth H op stamp with
      | mk result merkleLog =>
        rw [hp] at h hv' hr
        cases result with
        | error e => simp at h
        | ok sth =>
          cases h
          exact .of_valid hv hv' rfl rfl rfl hr.symm

/-- A process start on these rows whose signer does not refuse gives what the log holds. -/
def Reproduces (H : CanonicalHash) (op : KeyPair S) (rows : List Row) (log : Memory) : Prop :=
  ∀ stamp : Stamp, stamp.refusal=none →
    ∃ fresh, Memory.replayFromStore H op rows stamp=.ok fresh ∧ SameContents fresh log

theorem Mirrors.reproduces (h : Mirrors H rows log) (hs : StoreValid rows)
    (hc : rows.length≤Tree.capacity) (op : KeyPair S) : Reproduces H op rows log := by
  intro stamp hn
  rcases replayFromStore_cases H op hs stamp with ⟨fresh,hok,-⟩|⟨hf|⟨-,hf⟩,-⟩
  · obtain ⟨replayed,hfo,hsa⟩ := replayFromStore_mirrors hs hok
    obtain ⟨replayed',hf',hs'⟩ := h
    rw [hfo] at hf'
    cases hf'
    exact ⟨fresh,hok,hsa.symm.trans hs'⟩
  · omega
  · exact absurd hn hf

/-- A call of `append` refuses the record, fails after the durable write, on a full tree or
because the signer refuses, or commits. -/
inductive AppendResult (H : CanonicalHash) (S : MLDSA) (rows : List Row) (log : Memory)
    (record : CommitmentRecord) (stamp : Stamp) :
    Except PyError String × Memory × List Row → Prop
  | refused (e : PyError) :
      log.persist rows record=.error e →
      AppendResult H S rows log record stamp (.error e,log,rows)
  | written (e : PyError) (row : Row) (merkleLog : Log) :
      rows.length=Tree.capacity ∨ stamp.refusal≠none →
      log.chain.length=rows.length → (∀ r ∈ rows, r.entityId≠row.entityId) →
      (rows.length=Tree.capacity → e=.valueError "Merkle log capacity exceeded" ∧
        merkleLog=log.merkleLog) → StoreValid (rows++[row]) →
      AppendResult H S rows log record stamp
        (.error e,{log with merkleLog := merkleLog},rows++[row])
  | appended (hash : String) (chained : CommitmentRecord) (bytes : Bytes) (sth : SignedTreeHead)
      (merkleLog : Log) :
      rows.length<Tree.capacity → stamp.refusal=none → log.chain.length=rows.length →
      log.merkleLog.records.length=rows.length →
      (∀ r ∈ rows, r.entityId≠record.entityId) → chained.toBytes=.ok bytes →
      Valid H S merkleLog → merkleLog.records=log.merkleLog.records++[bytes] →
      merkleLog.sths=log.merkleLog.sths++[sth] →
      sth.treeSize=log.merkleLog.records.length+1 →
      AppendResult H S rows log record stamp
        (.ok hash,log.index chained record.entityId log.merkleLog.records.length merkleLog,
          rows++[⟨log.chain.length,record.entityId,log.merkleLog.size,chained.toDict⟩])

theorem append_result (op : KeyPair S) (hs : StoreValid rows) (hm : MemoryValid H S rows log)
    (record : CommitmentRecord) (stamp : Stamp) :
    AppendResult H S rows log record stamp (log.append H op rows record stamp) := by
  rw [Memory.append]
  cases hp : log.persist rows record with
  | error e => exact .refused e hp
  | ok r =>
    obtain ⟨ch,bytes,rows'⟩ := r
    obtain ⟨-,hc,hb,rfl,hf⟩ := persist_ok hp
    obtain ⟨row,hro,-,hst,hch⟩ := persist_snoc hs hm hp
    have hsy := hm.synced hch
    rw [← hro] at hst
    rcases commitInMemory_cases op hm ch bytes stamp with
      ⟨sth,merkleLog,hl,hn,hlt,hv,hre,hsth,-,hsi⟩ | ⟨e,merkleLog,hl,hn,hlt,-⟩ | ⟨hfu,hl⟩
    · have he : ch.entityId=record.entityId := by rw [hc]
      rw [he] at hl
      simp only [hl]
      exact .appended _ ch bytes sth merkleLog (hsy ▸ hlt) hn hch hsy (fun r hr => (hf r hr).2)
        hb hv hre hsth hsi
    · simp only [hl]
      exact .written e _ merkleLog (.inr hn) hch (fun r hr => (hf r hr).2)
        (fun hfu => absurd hfu (hsy ▸ hlt).ne) hst
    · simp only [hl]
      exact .written _ _ log.merkleLog (.inl (hsy ▸ hfu)) hch (fun r hr => (hf r hr).2)
        (fun _ => ⟨rfl,rfl⟩) hst

def HeadCurrent (log : Memory) : Prop :=
  log.merkleLog.records=[] ∧ log.merkleLog.latestSth=none ∨
    ∃ sth, log.merkleLog.records≠[] ∧ log.merkleLog.latestSth=some sth ∧
      sth.treeSize=log.merkleLog.records.length

theorem HeadCurrent.headHash (h : HeadCurrent log) (hv : Valid H S log.merkleLog) :
    log.headHash=if log.merkleLog.records=[] then String.ofList (List.replicate 64 '0')
      else PyValue.hex (treeRoot H log.merkleLog.records) := by
  rcases h with ⟨hni,hn⟩|⟨sth,hne,hs,hsi⟩
  · rw [Memory.headHash,hn,if_pos hni]
  · have hc := hv.covers sth (mem_of_getLast? hs)
    rw [Memory.headHash,hs,if_neg hne]
    dsimp only
    rw [hc.root,hsi,take_length]

structure ReplayValid (H : CanonicalHash) (sys : System) : Prop where
  ids : (sys.rows.map Row.entityId).Nodup
  mirrors : ∀ log, sys.process=some log → log.chain.length=sys.rows.length →
    Mirrors H sys.rows log
  head : ∀ log, sys.process=some log → log.chain.length=sys.rows.length → HeadCurrent log

theorem ids_snoc {row : Row} (hi : (rows.map Row.entityId).Nodup)
    (hn : ∀ r ∈ rows, r.entityId≠row.entityId) : ((rows++[row]).map Row.entityId).Nodup := by
  rw [map_append,nodup_append]
  refine ⟨hi,nodup_singleton _,?_⟩
  intro a ha b hb hab
  obtain ⟨r,hr,rfl⟩ := mem_map.mp ha
  exact hn r hr (hab.trans (mem_singleton.mp hb))

theorem ReplayValid.append {sys : System} (hr : ReplayValid H sys) (hs : StoreValid sys.rows)
    (hm : MemoryValid H S sys.rows log) (hp : sys.process=some log)
    {result : Except PyError String × Memory × List Row}
    {stamp : Stamp} (h : AppendResult H S sys.rows log record stamp result) :
    ReplayValid H ⟨result.2.2,some result.2.1⟩ := by
  cases h with
  | refused e _ =>
    obtain ⟨rows,process⟩ := sys
    obtain rfl : process=some log := hp
    exact hr
  | written e row merkleLog _ hch hn _ _ =>
    have hst : ∀ l, some {log with merkleLog := merkleLog}=some l →
        l.chain.length≠(sys.rows++[row]).length := by
      rintro l ⟨⟩
      rw [length_append,length_singleton,hch]
      omega
    exact ⟨ids_snoc hr.ids hn,fun l hl hc => absurd hc (hst l hl),
      fun l hl hc => absurd hc (hst l hl)⟩
  | appended hash ch bytes sth merkleLog hlt _ hch hsy hn hb hv hre hst hsi =>
    refine ⟨ids_snoc hr.ids hn,fun l hl _ => ?_,fun l hl _ => ?_⟩
    · cases hl
      exact (hr.mirrors log hp hch).append hs hb (hsy ▸ hlt) hv hre _ _ _
    · cases hl
      refine .inr ⟨sth,?_,?_,?_⟩
      · simp [Memory.index,hre]
      · simp [Memory.index,Log.latestSth,hst]
      · simp [Memory.index,hre,hsi]

theorem ReplayValid.step {sys : System} {pub : List SignedTreeHead} (hr : ReplayValid H sys)
    (hv : SystemValid H S sys pub) (op : KeyPair S) (event : Event) :
    ReplayValid H (CommitmentLog.step H op sys event).1 := by
  cases event with
  | append record stamp =>
    cases hp : sys.process with
    | none =>
      simp only [CommitmentLog.step,hp]
      exact hr
    | some log =>
      simp only [CommitmentLog.step,hp]
      exact hr.append hv.store (hv.memory log hp) hp
        (append_result op hv.store (hv.memory log hp) record stamp)
  | crash record =>
    cases hp : sys.process with
    | none =>
      simp only [CommitmentLog.step,hp]
      exact hr
    | some log =>
      simp only [CommitmentLog.step,hp]
      have hd : ∀ rows : List Row, (rows.map Row.entityId).Nodup → ReplayValid H ⟨rows,none⟩ :=
        fun rows hi => ⟨hi,fun l hl => absurd hl (by simp),fun l hl => absurd hl (by simp)⟩
      cases h : log.persist sys.rows record with
      | error e => exact hd _ hr.ids
      | ok r =>
        obtain ⟨ch,bytes,rows'⟩ := r
        obtain ⟨-,-,-,rfl,hf⟩ := persist_ok h
        exact hd _ (ids_snoc hr.ids fun r hr => (hf r hr).2)
  | restart stamp =>
    simp only [CommitmentLog.step]
    rcases replayFromStore_cases H op hv.store stamp with
      ⟨log,hok,hm,hch,hro,hh⟩ | ⟨-,e,he⟩
    · have hle := hm.synced hch
      simp only [hok]
      refine ⟨hr.ids,fun l hl _ => ?_,fun l hl _ => ?_⟩
      · cases hl
        exact replayFromStore_mirrors hv.store hok
      · cases hl
        rcases hh with ⟨hn,hs⟩|⟨sth,hne,-,hs,-,hsi⟩
        · refine .inl ⟨eq_nil_of_length_eq_zero (by rw [hle,hn]; rfl),?_⟩
          rw [Log.latestSth,hs]
          rfl
        · refine .inr ⟨sth,?_,by rw [Log.latestSth,hs]; rfl,by rw [hsi,hle]⟩
          rw [← length_pos_iff,hle]
          exact length_pos_iff.mpr hne
    · simp only [he]
      exact ⟨hr.ids,fun l hl => absurd hl (by simp),fun l hl => absurd hl (by simp)⟩

theorem replayValid_run (H : CanonicalHash) (op : KeyPair S) (events : List Event) :
    ReplayValid H ((deployment H op).state events) := by
  refine Machine.invariant_over (C := fun _ _ => True) (Q := fun sys _ => ReplayValid H sys)
    (systemValid_run H op) ?_ ?_ events fun _ _ _ _ => trivial
  · exact ⟨nodup_nil,fun l hl => absurd hl (by simp [deployment]),
      fun l hl => absurd hl (by simp [deployment])⟩
  · intro sys out event hv hr _
    exact hr.step hv op event

structure Unchanged (rows rows' : List Row) (log log' : Memory) : Prop where
  store : rows'=rows
  records : log'.records=log.records
  chain : log'.chain=log.chain
  recordIndices : log'.recordIndices=log.recordIndices
  tree : log'.merkleLog.tree=log.merkleLog.tree

/-- A call that raises has no effect, and a restart still finds the live log. -/
def FailsAtomically (H : CanonicalHash) (op : KeyPair S) (rows : List Row) (log : Memory)
    (record : CommitmentRecord) (stamp : Stamp) : Prop :=
  ∀ e log' rows', log.append H op rows record stamp=(.error e,log',rows') →
    Unchanged rows rows' log log' ∧ Reproduces H op rows' log'

/-- No earlier call of the process failed after its durable write, and the tree has room for
one more leaf and the signer signs, or the record, being known or not encodable, is refused
before the write. -/
def WriteFits (rows : List Row) (log : Memory) (record : CommitmentRecord) (stamp : Stamp) : Prop :=
  log.chain.length=rows.length ∧
    (rows.length<Tree.capacity ∧ stamp.refusal=none ∨ (log.records.get? record.entityId).isSome ∨
      ({record with predecessor := some log.headHash}.toBytes).isOk=false)

theorem persist_error (rows : List Row) (h : (log.records.get? record.entityId).isSome ∨
      ({record with predecessor := some log.headHash}.toBytes).isOk=false) :
    ∃ e, log.persist rows record=.error e := by
  rw [Memory.persist]
  dsimp only
  split_ifs with hk
  · exact ⟨_,rfl⟩
  · have hby := h.resolve_left hk
    cases hb : CommitmentRecord.toBytes {record with predecessor := some log.headHash} with
    | error e => exact ⟨e,rfl⟩
    | ok b =>
      rw [hb] at hby
      exact absurd hby (by simp [Except.toBool])

theorem persist_fresh (hs : StoreValid rows) (hc : log.chain.length=rows.length)
    (hn : log.records.get? record.entityId=none) (hro : record.entityId ∉ rows.map Row.entityId)
    (hb : ({record with predecessor := some log.headHash}.toBytes)=.ok bytes) :
    ∃ ch rows', log.persist rows record=.ok (ch,bytes,rows') := by
  have hf : (rows.any fun r => r.chainIndex=log.chain.length || r.entityId=record.entityId)
      = false := by
    rw [any_eq_false]
    intro r hr hcl
    simp only [Bool.or_eq_true,decide_eq_true_eq] at hcl
    rcases hcl with hi|he
    · have hm := mem_map_of_mem (f := Row.chainIndex) hr
      rw [hs.indices,mem_range,hi,hc] at hm
      exact lt_irrefl _ hm
    · exact hro (he ▸ mem_map_of_mem hr)
  rw [Memory.persist]
  simp only [hn,hb,appendRecord,hf]
  exact ⟨_,_,rfl⟩

theorem not_reproduces_of_stuck (hs : StoreValid rows) (hc : log.chain.length<rows.length) :
    ¬Reproduces H op rows log := by
  intro h
  obtain ⟨fresh,hok,hsa⟩ := h ⟨0,[],none⟩ rfl
  rcases replayFromStore_cases H op hs ⟨0,[],none⟩ with ⟨fresh',hok',-,hch,-⟩|⟨-,e,he⟩
  · rw [hok] at hok'
    cases hok'
    rw [hsa.chain] at hch
    omega
  · rw [hok] at he
    exact absurd he (by simp)

theorem unchanged_refl (rows : List Row) (log : Memory) : Unchanged rows rows log log :=
  ⟨rfl,rfl,rfl,rfl,rfl⟩

theorem append_failsAtomically_iff (events : List Event) (log : Memory)
    (hp : ((deployment H op).state events).process=some log) (record : CommitmentRecord)
    (stamp : Stamp) : FailsAtomically H op ((deployment H op).state events).rows log record stamp ↔
      WriteFits ((deployment H op).state events).rows log record stamp := by
  have hv := systemValid_run H op events
  have hr := replayValid_run H op events
  have hm := hv.memory log hp
  have hs := hv.store
  have hmi := hr.mirrors log hp
  have hid := hr.ids
  generalize ((deployment H op).state events).rows=rows at hm hs hmi hid ⊢
  have hre := append_result op hs hm record stamp
  generalize ha : log.append H op rows record stamp=result at hre
  rcases hm.chain with hlt|⟨hch,hsy⟩
  · -- the chain index is taken: the call is refused and the row written earlier stays
    refine iff_of_false (fun hat => ?_) fun hw => hlt.ne hw.1
    cases hre with
    | refused e _ => exact not_reproduces_of_stuck hs hlt (hat _ _ _ ha).2
    | written _ _ _ _ hch => exact absurd hch hlt.ne
    | appended _ _ _ _ _ _ _ hch => exact absurd hch hlt.ne
  have hrep : Reproduces H op rows log :=
    (hmi hch).reproduces hs (hsy ▸ hm.valid.capacity) op
  obtain ⟨hi,hc⟩ := (hmi hch).indexed hs hid
  cases hre with
  | refused e he =>
    refine iff_of_true (fun e' log' rows' ha' => ?_) ⟨hch,.inr ?_⟩
    · rw [ha] at ha'
      cases ha'
      exact ⟨unchanged_refl _ _,hrep⟩
    · -- a record that passes both checks is written
      by_contra hok
      rw [not_or,Option.not_isSome_iff_eq_none] at hok
      obtain ⟨hn,hb⟩ := hok
      have hro : record.entityId ∉ rows.map Row.entityId := by
        rw [← hc,← hi.keys,Dict.mem_keys_iff,hn]
        simp
      cases hby : CommitmentRecord.toBytes {record with predecessor := some log.headHash} with
      | error e => exact hb (by rw [hby]; rfl)
      | ok bytes =>
        obtain ⟨chained,rows',hpe⟩ := persist_fresh hs hch hn hro hby
        exact absurd (he.symm.trans hpe) (by simp)
  | written e row merkleLog hw _ _ _ hst =>
    refine iff_of_false (fun hat => ?_) ?_
    · exact absurd (congrArg length (hat _ _ _ ha).1.store) (by simp)
    · rintro ⟨-,⟨hlt,hn⟩|href⟩
      · exact hw.elim hlt.ne (· hn)
      · obtain ⟨e',hpe⟩ := persist_error rows href
        rw [Memory.append,hpe] at ha
        exact absurd (congrArg (fun r => r.2.2.length) ha) (by simp)
  | appended hash _ _ _ _ hlt hn =>
    refine iff_of_true (fun e log' rows' ha' => ?_) ⟨hch,.inl ⟨hlt,hn⟩⟩
    exact absurd (ha.symm.trans ha') (by simp)

theorem repeatedRecord_fails_atomically :
    ∃ log, ((deployment cutHash plainKeys).state twoRecordsRun).process=some log ∧
      (log.append cutHash plainKeys
        ((deployment cutHash plainKeys).state twoRecordsRun).rows (sampleRecord "a")
        ⟨5,[],some .keyError⟩).1.isOk=false ∧ FailsAtomically cutHash plainKeys
        ((deployment cutHash plainKeys).state twoRecordsRun).rows log (sampleRecord "a")
        ⟨5,[],some .keyError⟩ := by
  have hs : (((deployment cutHash plainKeys).state twoRecordsRun).process.any fun log =>
      log.chain.length =
          ((deployment cutHash plainKeys).state twoRecordsRun).rows.length ∧
        (log.records.get? "a").isSome ∧
        (log.append cutHash plainKeys
          ((deployment cutHash plainKeys).state twoRecordsRun).rows (sampleRecord "a")
          ⟨5,[],some .keyError⟩).1.isOk=false) := by decide +kernel
  obtain ⟨log,hp,hl⟩ := (Option.any_eq_true _ _).mp hs
  obtain ⟨hc,hk,he⟩ := of_decide_eq_true hl
  exact ⟨log,hp,he,(append_failsAtomically_iff twoRecordsRun log hp _ _).mpr ⟨hc,.inr (.inl hk)⟩⟩

section

theorem joinPrefixed_ok {parts : List Bytes} (h : ∀ part ∈ parts, part.length<256^4) :
    ∃ joined, joinPrefixed parts=.ok joined := by
  have hm : ∃ encoded, parts.mapM lengthPrefixed=.ok encoded := by
    induction parts with
    | nil => exact ⟨[],rfl⟩
    | cons part parts ih =>
      obtain ⟨encoded,he⟩ := ih fun p hp => h p (mem_cons_of_mem _ hp)
      have hpa : lengthPrefixed part=.ok (PyValue.toBigEndian 4 part.length++part) := by
        rw [lengthPrefixed,PyValue.pack,if_pos (h part mem_cons_self)]
        rfl
      exact ⟨_,by rw [mapM_cons,hpa,he]; rfl⟩
  obtain ⟨encoded,he⟩ := hm
  exact ⟨encoded.flatten,by rw [joinPrefixed,he]; rfl⟩

theorem toBytes_ok (r : CommitmentRecord)
    (ht : ∀ s ∈ [r.entityId,r.senderId,r.shardMapRoot,r.contentHash,r.shape,r.shapeHash],
      (encodeText s).length<256^4) (hp : ∀ part ∈ r.paramParts, part.length<256^4)
    (htr : ∀ part ∈ [encodeText (r.predecessor.getD ""),r.signature,r.senderVk],
      part.length<256^4) : ∃ bytes, r.toBytes=.ok bytes := by
  have hpa : ∀ part ∈ [r.entityId,r.senderId,r.shardMapRoot,r.contentHash,r.shape,
      r.shapeHash].map encodeText, part.length<256^4 := by
    intro part hpar
    obtain ⟨s,hs,rfl⟩ := mem_map.mp hpar
    exact ht s hs
  obtain ⟨texts,ht⟩ := joinPrefixed_ok hpa
  obtain ⟨params,hp⟩ := joinPrefixed_ok hp
  obtain ⟨trailer,htr⟩ := joinPrefixed_ok htr
  rw [CommitmentRecord.toBytes,CommitmentRecord.signablePayload,ht,hp,htr]
  exact ⟨_,rfl⟩

theorem length_encodeText_ofList (chars : List Char) :
    (encodeText (String.ofList chars)).length≤4*chars.length := by
  have hs : (String.ofList chars).utf8ByteSize≤4*chars.length := by
    induction chars with
    | nil => simp
    | cons c chars ih =>
      have hc := c.utf8Size_le_four
      rw [String.ofList_cons,String.utf8ByteSize_append,String.utf8ByteSize_singleton,length_cons]
      omega
  rwa [encodeText]

theorem length_hexDigits (b : Bytes) : (PyValue.hexDigits b).length=2*b.length := by
  induction b with
  | nil => rfl
  | cons x b ih =>
    rw [PyValue.hexDigits,length_cons,length_cons,length_cons]
    omega

def numberedRecord (i : ℕ) : CommitmentRecord :=
  sampleRecord (PyValue.hex (PyValue.toBigEndian 4 i))

def fillingRun (n : ℕ) : List Event :=
  .restart ⟨0,[],none⟩::(List.range n).map fun i => .append (numberedRecord i) ⟨0,[],none⟩

theorem fillingRun_succ (n : ℕ) :
    fillingRun (n+1)=fillingRun n++[.append (numberedRecord n) ⟨0,[],none⟩] := by
  simp [fillingRun,range_succ]

theorem numberedRecord_entityId_inj {i j : ℕ} (hi : i<256^4) (hj : j<256^4)
    (h : (numberedRecord i).entityId=(numberedRecord j).entityId) : i=j := by
  have hd := congrArg PyValue.fromHex h
  simp only [numberedRecord,sampleRecord,PyValue.fromHex_hex,Except.ok.injEq] at hd
  rw [← PyValue.ofBigEndian_toBigEndian 4 i hi,hd,PyValue.ofBigEndian_toBigEndian 4 j hj]

theorem numberedRecord_encodes (i : ℕ) {predecessor : List Char} (hl : predecessor.length≤64) :
    ∃ bytes, CommitmentRecord.toBytes
      {numberedRecord i with predecessor := some (String.ofList predecessor)}=.ok bytes := by
  have ht : ∀ s ∈ ["s","r","c","t","h"], (encodeText s).length<256^4 := by decide
  have hk : ∀ part ∈ [[7],[9]], length (part : Bytes)<256^4 := by decide
  refine toBytes_ok _ (forall_mem_cons.mpr ⟨?_,ht⟩) ?_
    (forall_mem_cons.mpr ⟨?_,hk⟩)
  · have hn := length_encodeText_ofList (PyValue.hexDigits (PyValue.toBigEndian 4 i))
    rw [length_hexDigits,PyValue.length_toBigEndian] at hn
    exact hn.trans_lt (by decide)
  · have hp : ∀ part ∈ (sampleRecord "").paramParts, part.length<256^4 := by decide
    exact hp
  · exact (length_encodeText_ofList predecessor).trans_lt (by omega)

theorem headHash_chars (hv : Valid cutHash S log.merkleLog) (h : HeadCurrent log) :
    ∃ chars, log.headHash=String.ofList chars ∧ chars.length≤64 := by
  rw [h.headHash hv]
  split_ifs with hn
  · exact ⟨_,rfl,by simp⟩
  · refine ⟨_,rfl,?_⟩
    have hr := length_recordRoot (H := cutHash) hn
    rw [length_hexDigits,treeRoot,if_neg hn,hr]
    rfl

theorem persist_numberedRecord {sys : System} {pub : List SignedTreeHead} {n : ℕ}
    (hv : SystemValid cutHash S sys pub) (hr : ReplayValid cutHash sys)
    (hp : sys.process=some log) (hn : n≤Tree.capacity) (hch : log.chain.length=sys.rows.length)
    (hid : sys.rows.map Row.entityId=(List.range n).map fun i => (numberedRecord i).entityId) :
    ∃ r, log.persist sys.rows (numberedRecord n)=.ok r := by
  have hl : sys.rows.length=n := by simpa using congrArg length hid
  obtain ⟨hin,hc⟩ := (hr.mirrors log hp hch).indexed hv.store hr.ids
  have hs : Tree.capacity<256^4 := by decide
  have hro : (numberedRecord n).entityId ∉ sys.rows.map Row.entityId := by
    rw [hid]
    intro hm
    obtain ⟨i,hi,hsa⟩ := mem_map.mp hm
    have hlt := mem_range.mp hi
    exact hlt.ne (numberedRecord_entityId_inj (by omega) (by omega) hsa)
  obtain ⟨chars,hh,hle⟩ := headHash_chars (hv.memory log hp).valid (hr.head log hp hch)
  obtain ⟨bytes,hb⟩ := numberedRecord_encodes n hle
  rw [← hh] at hb
  obtain ⟨ch,rows',hpe⟩ := persist_fresh hv.store hch
    (hin.get?_eq_none (hc ▸ hro)) hro hb
  exact ⟨_,hpe⟩

theorem fillingRun_state {n : ℕ} (hn : n≤Tree.capacity) :
    ∃ log, ((deployment cutHash plainKeys).state (fillingRun n)).process=some log ∧
      log.chain.length=((deployment cutHash plainKeys).state (fillingRun n)).rows.length ∧
      ((deployment cutHash plainKeys).state (fillingRun n)).rows.map Row.entityId =
        (List.range n).map fun i => (numberedRecord i).entityId := by
  induction n with
  | zero => exact ⟨.init,rfl,rfl,rfl⟩
  | succ n ih =>
    obtain ⟨log,hp,hch,hi⟩ := ih (by omega)
    have hv := systemValid_run cutHash plainKeys (fillingRun n)
    obtain ⟨r,hpe⟩ := persist_numberedRecord hv (replayValid_run _ _ _) hp (by omega) hch hi
    have hr := append_result plainKeys hv.store (hv.memory log hp) (numberedRecord n) ⟨0,[],none⟩
    have hl := congrArg length hi
    rw [length_map,length_map,length_range] at hl
    rw [fillingRun_succ,Machine.state_snoc]
    generalize (deployment cutHash plainKeys).state (fillingRun n)=sys at *
    simp only [deployment,step,hp]
    generalize log.append cutHash plainKeys sys.rows (numberedRecord n) ⟨0,[],none⟩=result
      at hr ⊢
    cases hr with
    | refused e he => simp [hpe] at he
    | written _ _ _ hf => exact absurd (hf.resolve_right (· rfl)) (by omega)
    | appended _ _ _ _ _ _ _ _ _ _ _ _ _ _ _ =>
      refine ⟨_,rfl,?_,by simp only [map_append,hi,range_succ]; rfl⟩
      simp only [Memory.index,length_append,length_singleton,hch]

theorem fullLog_append_keeps_row : ∃ log row,
      ((deployment cutHash plainKeys).state (fillingRun Tree.capacity)).process=some log ∧
      log.append cutHash plainKeys
          ((deployment cutHash plainKeys).state (fillingRun Tree.capacity)).rows
          (numberedRecord Tree.capacity) ⟨0,[],none⟩ =
        (.error (.valueError "Merkle log capacity exceeded"),log,
          ((deployment cutHash plainKeys).state (fillingRun Tree.capacity)).rows++[row]) ∧
      ¬Reproduces cutHash plainKeys
        (((deployment cutHash plainKeys).state (fillingRun Tree.capacity)).rows++[row])
        log := by
  obtain ⟨log,hp,hch,hi⟩ := fillingRun_state le_rfl
  have hv := systemValid_run cutHash plainKeys (fillingRun Tree.capacity)
  have hr := replayValid_run cutHash plainKeys (fillingRun Tree.capacity)
  obtain ⟨r,hpe⟩ := persist_numberedRecord hv hr hp le_rfl hch hi
  have hre := append_result plainKeys hv.store (hv.memory log hp)
    (numberedRecord Tree.capacity) ⟨0,[],none⟩
  have hl := congrArg length hi
  rw [length_map,length_map,length_range] at hl
  generalize (deployment cutHash plainKeys).state (fillingRun Tree.capacity)=sys at *
  generalize ha : log.append cutHash plainKeys sys.rows (numberedRecord Tree.capacity)
    ⟨0,[],none⟩=result at hre
  cases hre with
  | refused e he => simp [hpe] at he
  | written e row merkleLog _ _ _ hf hs =>
    obtain ⟨rfl,rfl⟩ := hf hl
    refine ⟨log,row,hp,ha,not_reproduces_of_stuck hs ?_⟩
    rw [length_append,length_singleton]
    omega
  | appended _ _ _ _ _ hlt => omega

end

def Returns (H : CanonicalHash) (op : KeyPair S) (sys : System) : Event → Bool
  | .append record stamp =>
    sys.process.any fun log => (log.append H op sys.rows record stamp).1.isOk
  | .crash _ => false
  | .restart _ => true

theorem synced_of_returns (events : List Event)
    (h : (deployment H op).Meets (fun sys event => Returns H op sys event) events) :
    ∀ log, ((deployment H op).state events).process=some log →
      log.chain.length=((deployment H op).state events).rows.length := by
  refine Machine.invariant_over
    (Q := fun sys _ => ∀ log, sys.process=some log → log.chain.length=sys.rows.length)
    (systemValid_run H op) (fun l hl => absurd hl (by simp [deployment])) ?_ events h
  intro sys out event hv hc hr
  cases event with
  | append record stamp =>
    cases hp : sys.process with
    | none => exact absurd hr (by simp [Returns,hp])
    | some log =>
      have hok : (log.append H op sys.rows record stamp).1.isOk := by simpa [Returns,hp] using hr
      have hre := append_result op hv.store (hv.memory log hp) record stamp
      simp only [deployment,step,hp]
      generalize log.append H op sys.rows record stamp=result at hre hok ⊢
      cases hre with
      | refused e _ => exact absurd hok (by simp [Except.toBool])
      | written => exact absurd hok (by simp [Except.toBool])
      | appended _ _ _ _ _ _ _ hch =>
        intro l hl
        cases hl
        simp only [Memory.index,length_append,length_singleton,hch]
  | crash record => exact absurd hr (by simp [Returns])
  | restart stamp =>
    simp only [deployment,step]
    rcases replayFromStore_cases H op hv.store stamp with ⟨log,hok,-,hch,-⟩|⟨-,e,he⟩
    · rw [hok]
      rintro l ⟨⟩
      exact hch
    · rw [he]
      exact fun l hl => absurd hl (by simp)

end LatticeTransfer.CommitmentLog
