import LatticeTransfer.ConsensusProtocol
import LatticeTransfer.Method

/-!
# Rounds of the in-process engine

`LocalDagBftEngine` runs all validators in one process. A round has four phases: every
validator proposes a block, the blocks are delivered and acknowledged, the acknowledgements
are delivered and certificates formed, and the certificates are delivered and the commit rule
is evaluated. A phase is a `broadcast`: every message is handed to every validator it reaches.
Faults and a partition decide what is left out.
-/

namespace LatticeTransfer.ConsensusEngine
open PyValue ConsensusDag ConsensusCommit ConsensusProtocol List Function Method

inductive FaultType
  | honest
  | equivocate
  | withhold
  | crash
  | delay
  | censor
deriving DecidableEq

structure FaultConfig where
  validator : ℕ
  faultType : FaultType
  startRound : ℤ
  endRound : Option ℤ
  withholdTargets : List ℕ

structure PartitionConfig where
  groupA : Finset ℕ
  groupB : Finset ℕ

structure Setting where
  f : ℕ
  faultConfigs : Dict ℕ FaultConfig
  partition : Option PartitionConfig

abbrev Validators (sha3 : Bytes → Bytes) (n : ℕ) := Fin n → State sha3

structure Engine (sha3 : Bytes → Bytes) (n : ℕ) where
  setting : Setting
  nextRound : ℕ
  validators : Validators sha3 n
  mempool : List Bytes
  commitQueue : List CommitDecision

variable {sha3 : Bytes → Bytes} {n : ℕ}

namespace Setting
variable (c : Setting)

def params (v : Fin n) : Params := ⟨v,n,v.pos,c.f⟩

def isFaulty (validator round : ℕ) (faultType : FaultType) : Bool :=
  match c.faultConfigs.get? validator with
  | none => false
  | some cfg => cfg.faultType=faultType ∧ cfg.startRound≤round ∧
      ∀ last ∈ cfg.endRound, round≤last

def isPartitioned (fromV toV : ℕ) : Bool :=
  match c.partition with
  | none => false
  | some p => fromV ∈ p.groupA ∧ toV ∈ p.groupB ∨ fromV ∈ p.groupB ∧ toV ∈ p.groupA

def isWithheld (author validator round : ℕ) : Bool :=
  c.isFaulty author round .withhold ∧
    ∃ cfg ∈ c.faultConfigs.get? author, validator ∈ cfg.withholdTargets

end Setting

section
variable (c : Setting) (round : ℕ) (time : Fin n → ℤ)

structure Pool (sha3 : Bytes → Bytes) (n : ℕ) where
  validators : Validators sha3 n
  mempool : List Bytes

def equivocateA : Bytes := "equivocate_a".toUTF8.data.toList
def equivocateB : Bytes := "equivocate_b".toUTF8.data.toList

def otherBlock (b : Block) : Block where
  author := b.author
  round := b.round
  payload := [equivocateB]
  parents := b.parents
  timestampMs := b.timestampMs
  encodable := by
    obtain ⟨hauthor,hround,-,-,hparents⟩ := b.encodable
    exact ⟨hauthor,hround,by decide,by decide +kernel,hparents⟩

def proposeBlock (v : Fin n) (payload : List Bytes) : Method (Pool sha3 n) Block := do
  let pool ← get
  let (block,s) ← Method.call (propose (c.params v) (pool.validators v) round payload (time v))
  modify fun pool => {pool with validators := Function.update pool.validators v s}
  return block

def proposeFor (v : Fin n) : Method (Pool sha3 n) (List Block) := do
  if c.isFaulty v round .crash then return []
  else if c.isFaulty v round .equivocate then
    let block ← proposeBlock c round time v [equivocateA]
    return [block,otherBlock block]
  else if c.isFaulty v round .censor then
    let block ← proposeBlock c round time v []
    return [block]
  else
    -- the transactions have left the mempool also if the proposal raises
    let pool ← get
    modify fun pool => {pool with mempool := []}
    let block ← proposeBlock c round time v pool.mempool
    return [block]

def proposeAll : List (Fin n) → Method (Pool sha3 n) (List Block)
  | [] => return []
  | v::rest => do
    let blocks ← proposeFor c round time v
    let more ← proposeAll rest
    return blocks++more

end

section
variable {μ β : Type} (reaches : μ → Fin n → Bool)
  (method : Fin n → State sha3 → μ → Option β × State sha3)

def deliver (message : μ) (acc : Validators sha3 n × List (μ × β)) (v : Fin n) :
    Validators sha3 n × List (μ × β) :=
  if reaches message v then
    let result := method v (acc.1 v) message
    (Function.update acc.1 v result.2,acc.2++result.1.toList.map fun answer => (message,answer))
  else acc

def broadcast (messages : List μ) (vs : Validators sha3 n) : Validators sha3 n × List (μ × β) :=
  messages.foldl (fun acc message => (finRange n).foldl (deliver reaches method message) acc)
    (vs,[])

end

def keepFirst {α κ : Type} [DecidableEq κ] (key : α → κ) (l : List α) : List α :=
  l.foldl (fun kept x => if key x ∈ kept.map key then kept else kept++[x]) []

section
variable (iter : Iteration) (c : Setting) (round : ℕ)

def broadcastBlocks (blocks : List Block) (vs : Validators sha3 n) :
    Validators sha3 n × List (Bytes × ℕ) :=
  let result := broadcast
    (fun block v => !c.isFaulty v round .crash && block.author != v.val &&
      !c.isWithheld block.author v round && !c.isPartitioned block.author v)
    (fun v s block => receiveBlock (c.params v) s block) blocks vs
  (result.1,result.2.map fun (block,ack) => (block.digest sha3,ack))

def authorOf (vs : Validators sha3 n) (digest : Bytes) : Option ℕ :=
  (finRange n).findSome? fun v => ((vs v).dag.getBlock digest).map Block.author

def isKnownEquivocator (vs : Validators sha3 n) (author : ℕ) : Bool :=
  author<n && (finRange n).any fun v => (vs v).isEquivocator author

def dropEquivocators (vs : Validators sha3 n) (acks : List (Bytes × ℕ)) : List (Bytes × ℕ) :=
  acks.filter fun ack => !(authorOf vs ack.1).any (isKnownEquivocator vs)

def broadcastAcks (acks : List (Bytes × ℕ)) (vs : Validators sha3 n) :
    Validators sha3 n × List Certificate :=
  let result := broadcast
    (fun ack v => !c.isFaulty v round .crash && !c.isFaulty ack.2 round .delay &&
      !c.isPartitioned ack.2 v)
    (fun v s ack => receiveAck (c.params v) s ack.1 ack.2) acks vs
  (result.1,result.2.map Prod.snd)

def broadcastCertificates (certs : List Certificate) (vs : Validators sha3 n) :
    Validators sha3 n × List CommitDecision :=
  let result := broadcast
    (fun cert v => !c.isFaulty v round .crash && !c.isPartitioned cert.block.author v)
    (fun v s cert => receiveCertificate (c.params v) iter s cert)
    (keepFirst (Certificate.digest sha3) certs) vs
  (result.1,keepFirst CommitDecision.round (result.2.map Prod.snd))

def checkRounds (v : Fin n) : List ℕ → State sha3 → List CommitDecision →
    State sha3 × List CommitDecision
  | [], s, decisions => (s,decisions)
  | checkRound::rest, s, decisions =>
    match checkCommit (c.params v) iter s checkRound with
    | (none,s) => checkRounds v rest s decisions
    | (some decision,s) =>
      if decision.round ∈ decisions.map CommitDecision.round then checkRounds v rest s decisions
      else (s,decisions++[decision])

def checkValidator (acc : Validators sha3 n × List CommitDecision) (v : Fin n) :
    Validators sha3 n × List CommitDecision :=
  if c.isFaulty v round .crash then acc
  else
    let result := checkRounds iter c v (List.range (round+1)) (acc.1 v) acc.2
    (Function.update acc.1 v result.1,result.2)

def roundLe (d d' : CommitDecision) : Prop := d.round≤d'.round

instance : DecidableRel roundLe := fun d d' => inferInstanceAs (Decidable (d.round≤d'.round))

instance : Std.Total roundLe := ⟨fun d d' => Nat.le_total d.round d'.round⟩

instance : IsTrans CommitDecision roundLe := ⟨fun _ _ _ => Nat.le_trans⟩

def finishRound (blocks : List Block) (vs : Validators sha3 n) :
    Validators sha3 n × List CommitDecision :=
  let (vs,acks) := broadcastBlocks c round blocks vs
  let (vs,certs) := broadcastAcks c round (dropEquivocators vs acks) vs
  let committed := broadcastCertificates iter c round certs vs
  let (vs,decisions) := (finRange n).foldl (checkValidator iter c round) committed
  (vs,decisions.insertionSort roundLe)

end

namespace Engine

def init (f : ℕ) : Engine sha3 n := ⟨⟨f,Dict.empty,none⟩,0,fun _ => State.init,[],[]⟩

def create (faultTolerance : Option ℕ) : Engine sha3 n := init (faultTolerance.getD ((n-1) / 3))

variable (iter : Iteration) (e : Engine sha3 n)

def submitTransactions (txs : List Bytes) : Engine sha3 n := {e with mempool := e.mempool++txs}

def injectFault (fault : FaultConfig) : Engine sha3 n :=
  {e with setting := {e.setting with
      faultConfigs := e.setting.faultConfigs.set fault.validator fault}}

def setPartition (partition : Option PartitionConfig) : Engine sha3 n :=
  {e with setting := {e.setting with partition := partition}}

def advanceRound (time : Fin n → ℤ) : Except PyError (List CommitDecision) × Engine sha3 n :=
  let round := e.nextRound
  match (proposeAll e.setting round time (finRange n)).exec ⟨e.validators,e.mempool⟩ with
  | (.error error,pool) =>
    (.error error,{e with
      nextRound := round+1
      validators := pool.validators
      mempool := pool.mempool})
  | (.ok blocks,pool) =>
    let (validators,decisions) := finishRound iter e.setting round blocks pool.validators
    (.ok decisions,{e with
      nextRound := round+1
      validators := validators
      mempool := pool.mempool
      commitQueue := e.commitQueue++decisions})

def advanceRounds (time : ℕ → Fin n → ℤ) : ℕ → Engine sha3 n → Except PyError Unit × Engine sha3 n
  | 0, e => (.ok (),e)
  | rounds+1, e =>
    match e.advanceRound iter (time rounds) with
    | (.error error,e) => (.error error,e)
    | (.ok _,e) => advanceRounds time rounds e

def runRounds (time : ℕ → Fin n → ℤ) (rounds : ℕ) :
    Except PyError (List CommitDecision) × Engine sha3 n :=
  match advanceRounds iter time rounds e with
  | (.error error,e) => (.error error,e)
  | (.ok (),e) => (.ok (e.commitQueue.insertionSort roundLe),{e with commitQueue := []})

end Engine

inductive Input (n : ℕ)
  | submitTransactions (txs : List Bytes)
  | injectFault (fault : FaultConfig)
  | setPartition (partition : Option PartitionConfig)
  | advanceRound (time : Fin n → ℤ)
  | popCommit

def step (iter : Iteration) (e : Engine sha3 n) : Input n → Engine sha3 n × List CommitDecision
  | .submitTransactions txs => (e.submitTransactions txs,[])
  | .injectFault fault => (e.injectFault fault,[])
  | .setPartition partition => (e.setPartition partition,[])
  | .popCommit => ({e with commitQueue := e.commitQueue.tail},[])
  | .advanceRound time =>
    match e.advanceRound iter time with
    | (.error _,e) => (e,[])
    | (.ok decisions,e) => (e,decisions)

def machine (iter : Iteration) (f : ℕ) : Machine (Engine sha3 n) (Input n) CommitDecision :=
  ⟨Engine.init f,step iter⟩

section
variable (p : Params) (iter : Iteration) {K : ℕ → ℕ → Prop} {round : ℕ} {s s' : State sha3}

/-- What a validator can have become in a call that proposes the blocks of one round and forms
certificates only for the slots `K`. -/
structure Grows (K : ℕ → ℕ → Prop) (round : ℕ) (s s' : State sha3) : Prop where
  committedRounds : s.committedRounds ⊆ s'.committedRounds
  equivocators : s.equivocators ⊆ s'.equivocators
  slots : ∀ r a b, s'.dag.slot r a=some b → r=round ∨ s.dag.slot r a=some b
  certificates : ∀ r a, (s'.dag.getCertificate a r).isSome →
    (s.dag.getCertificate a r).isSome ∨ K r a

theorem Grows.refl (s : State sha3) : Grows K round s s :=
  ⟨subset_rfl,subset_rfl,fun _ _ _ => .inr,fun _ _ => .inl⟩

theorem Grows.trans {s'' : State sha3} (h : Grows K round s s') (h' : Grows K round s' s'') :
    Grows K round s s'' where
  committedRounds := h.committedRounds.trans h'.committedRounds
  equivocators := h.equivocators.trans h'.equivocators
  slots r a b hb := (h'.slots r a b hb).elim .inl (h.slots r a b)
  certificates r a hc := (h'.certificates r a hc).elim (h.certificates r a) .inr

variable {p} in
theorem Grows.isOpen {r : ℕ} (h : Grows K round s s') (ho : Open p s' r) : Open p s r :=
  ⟨fun hm => ho.1 (h.committedRounds hm),fun hm => ho.2 (h.equivocators hm)⟩

theorem step_grows {i : ConsensusProtocol.Input} (hb : ∀ b, offered p s i=some b → b.round=round)
    (hc : ∀ c, i=.receiveCertificate c ∨
      .certificate c ∈ (ConsensusProtocol.step p iter s i).2 → K c.block.round c.block.author) :
    Grows K round s (ConsensusProtocol.step p iter s i).1 := by
  have hg : s.committedRounds ⊆ (ConsensusProtocol.step p iter s i).1.committedRounds ∧
      s.equivocators ⊆ (ConsensusProtocol.step p iter s i).1.equivocators := by
    have he := step_effect p iter s i
    generalize ConsensusProtocol.step p iter s i=result at he
    cases he with
    | quiet _ _ _ _ hr heq => exact ⟨hr.ge,heq⟩
    | stores | acks | certifies | takes => exact ⟨subset_rfl,subset_rfl⟩
    | commits => cases i <;> exact ⟨Finset.subset_insert _ _,subset_rfl⟩
  refine ⟨hg.1,hg.2,fun r a b hs => ?_,fun r a hs => ?_⟩
  · rcases step_blocks p iter s i with ⟨-,hsl⟩|⟨new,ho,-,-,hsl⟩
    · exact .inr (hsl ▸ hs)
    · rw [hsl] at hs
      split_ifs at hs with hn
      · exact .inl (hn.1.symm.trans (hb new ho))
      · exact .inr hs
  · obtain ⟨c,hs⟩ := Option.isSome_iff_exists.mp hs
    obtain ⟨rfl,rfl⟩ := DAGStore.slot_of_getCertificate hs
    exact (step_certificates p iter hs).imp (fun h => by rw [h]; rfl) (hc c)

def Led (K : ℕ → ℕ → Prop) (s : State sha3) (r : ℕ) : Prop :=
  (s.dag.getCertificate (p.leaderForRound r) r).isSome ∨ K r (p.leaderForRound r)

theorem Grows.led {r : ℕ} (h : Grows K round s s') (hl : Led p K s' r) : Led p K s r :=
  hl.elim (h.certificates r _) .inr

theorem step_decision {i : ConsensusProtocol.Input} {d : CommitDecision}
    (hc : ∀ c, i=.receiveCertificate c → K c.block.round c.block.author)
    (h : .decision d ∈ (ConsensusProtocol.step p iter s i).2) :
    Open p s d.round ∧ d.round ∈ (ConsensusProtocol.step p iter s i).1.committedRounds ∧
      Led p K s d.round := by
  rcases step_commits p iter s i with ⟨-,hn,-⟩|⟨r,c,hd,hce,hs⟩
  · exact absurd h (hn d)
  · rw [hs] at h ⊢
    obtain rfl := ConsensusProtocol.Output.decision.inj (mem_singleton.mp h)
    refine ⟨?_,Finset.mem_insert_self _ _,?_⟩
    · cases i with
      | receiveCertificate cert => exact hd.2.1
      | checkCommit r => exact hd.2.1
      | _ => exact hd.elim
    · obtain ⟨hr,ha⟩ := DAGStore.slot_of_getCertificate hce
      refine (getCertificate_evaluated hce).imp (fun h => ?_) fun hi => ?_
      · exact Option.isSome_iff_exists.mpr ⟨c,h⟩
      · have hk := hc c hi
        rwa [hr,ha] at hk

structure Brings (K : ℕ → ℕ → Prop) (round : ℕ) (s s' : State sha3)
    (decisions : List CommitDecision) : Prop where
  grows : Grows K round s s'
  brought : ∀ d ∈ decisions,
    Open p s d.round ∧ d.round ∈ s'.committedRounds ∧ Led p K s d.round

variable {p} in
theorem Brings.after {s'' : State sha3} {decisions : List CommitDecision} (h : Grows K round s s')
    (h' : Brings p K round s' s'' decisions) : Brings p K round s s'' decisions := by
  refine ⟨h.trans h'.grows,fun d hd => ?_⟩
  obtain ⟨ho,hm,hl⟩ := h'.brought d hd
  exact ⟨h.isOpen ho,hm,h.led p hl⟩

variable (round) in
theorem receiveCertificate_brings (s : State sha3) {cert : Certificate}
    (hk : K cert.block.round cert.block.author) :
    Brings p K round s (receiveCertificate p iter s cert).2
      (receiveCertificate p iter s cert).1.toList := by
  have hc : ∀ c, ConsensusProtocol.Input.receiveCertificate cert=.receiveCertificate c →
      K c.block.round c.block.author := by
    rintro c ⟨⟩
    exact hk
  refine ⟨step_grows p iter (i := .receiveCertificate cert) (by simp [offered])
    fun c h => h.elim (hc c) fun h => by simp [ConsensusProtocol.step] at h,fun _ hd => ?_⟩
  exact step_decision p iter (i := .receiveCertificate cert) hc (mem_map_of_mem hd)

variable (round) in
theorem checkCommit_brings (s : State sha3) (r : ℕ) :
    Brings p K round s (checkCommit p iter s r).2 (checkCommit p iter s r).1.toList :=
  ⟨step_grows p iter (i := .checkCommit r) (by simp [offered])
      (by simp [ConsensusProtocol.step]),
    fun _ hd => step_decision p iter (i := .checkCommit r) (by simp) (mem_map_of_mem hd)⟩

end

section

theorem keepFirst_nodup {α κ : Type} [DecidableEq κ] (key : α → κ) (l : List α) :
    ((keepFirst key l).map key).Nodup := by
  refine foldlRecOn (motive := fun kept : List α => (kept.map key).Nodup) l _ nodup_nil
    fun kept hk x _ => ?_
  split_ifs with hm
  · exact hk
  · rw [map_append]
    exact nodup_append'.mpr ⟨hk,nodup_singleton _,disjoint_singleton.mpr hm⟩

theorem keepFirst_subset {α κ : Type} [DecidableEq κ] (key : α → κ) (l : List α) :
    keepFirst key l ⊆ l := by
  refine foldlRecOn (motive := fun kept : List α => kept ⊆ l) l _ (nil_subset l)
    fun kept hk x hx => ?_
  split_ifs
  · exact hk
  · exact append_subset.mpr ⟨hk,cons_subset.mpr ⟨hx,nil_subset l⟩⟩

variable {μ β : Type} {reaches : μ → Fin n → Bool}
  {method : Fin n → State sha3 → μ → Option β × State sha3}

theorem broadcast_induction {P : Validators sha3 n → List (μ × β) → Prop} {messages : List μ}
    {vs : Validators sha3 n} (hs : P vs [])
    (hst : ∀ vs answers, ∀ m ∈ messages, ∀ v, P vs answers → reaches m v=true →
      P (Function.update vs v (method v (vs v) m).2)
        (answers++(method v (vs v) m).1.toList.map fun answer => (m,answer))) :
    P (broadcast reaches method messages vs).1 (broadcast reaches method messages vs).2 := by
  let Holds (acc : Validators sha3 n × List (μ × β)) : Prop := P acc.1 acc.2
  refine foldlRecOn (motive := Holds) messages _ hs fun acc ha m hm => ?_
  refine foldlRecOn (finRange n) _ ha fun acc ha v _ => ?_
  rw [deliver]
  split_ifs with hr
  · exact hst acc.1 acc.2 m hm v ha hr
  · exact ha

end

section
variable {K : ℕ → ℕ → Prop} {iter : Iteration} {c : Setting} {round : ℕ}
  {start vs : Validators sha3 n} {decisions : List CommitDecision}

/-- Every validator has grown since the start of the call, and every decision was brought by a
validator that runs in the call, for a round that was open there at the start. -/
structure Report (K : ℕ → ℕ → Prop) (c : Setting) (round : ℕ) (start vs : Validators sha3 n)
    (decisions : List CommitDecision) : Prop where
  grows : ∀ v, Grows K round (start v) (vs v)
  brought : ∀ d ∈ decisions, ∃ v : Fin n, c.isFaulty v round .crash=false ∧
    Open (c.params v) (start v) d.round ∧ d.round ∈ (vs v).committedRounds ∧
    Led (c.params v) K (start v) d.round

theorem Report.subset (h : Report K c round start vs decisions) {fewer : List CommitDecision}
    (hf : fewer ⊆ decisions) : Report K c round start vs fewer :=
  ⟨h.grows,fun d hd => h.brought d (hf hd)⟩

theorem Report.update (h : Report K c round start vs decisions) {v : Fin n} {s : State sha3}
    {more : List CommitDecision} (hb : Brings (c.params v) K round (vs v) s more)
    (hr : c.isFaulty v round .crash=false ∨ more=[]) :
    Report K c round start (Function.update vs v s) (decisions++more) := by
  have hs : ∀ u, Grows K round (vs u) (Function.update vs v s u) := by
    intro u
    by_cases hu : u=v
    · subst hu
      rw [update_self]
      exact hb.grows
    · rw [update_of_ne hu]
      exact .refl _
  refine ⟨fun u => (h.grows u).trans (hs u),fun d hd => ?_⟩
  rcases mem_append.mp hd with hd|hd
  · obtain ⟨u,hr,ho,hm,hl⟩ := h.brought d hd
    exact ⟨u,hr,ho,(hs u).committedRounds hm,hl⟩
  · obtain ⟨ho,hm,hl⟩ := hb.brought d hd
    refine ⟨v,hr.resolve_right (ne_nil_of_mem hd),(h.grows v).isOpen ho,?_,(h.grows v).led _ hl⟩
    rwa [update_self]

theorem Report.updateQuiet (h : Report K c round start vs []) {v : Fin n} {s : State sha3}
    (hg : Grows K round (vs v) s) : Report K c round start (Function.update vs v s) [] :=
  h.update ⟨hg,forall_mem_nil _⟩ (.inr rfl)

theorem report_broadcastBlocks (h : Report K c round start vs []) {blocks : List Block}
    (hb : ∀ b ∈ blocks, b.round=round) :
    Report K c round start (broadcastBlocks c round blocks vs).1 [] ∧
      ∀ ack ∈ (broadcastBlocks c round blocks vs).2, ∃ b ∈ blocks, b.digest sha3=ack.1 := by
  simp only [broadcastBlocks,forall_mem_map]
  refine broadcast_induction (P := fun after (answers : List (Block × ℕ)) =>
    Report K c round start after [] ∧ ∀ answer ∈ answers, ∃ b ∈ blocks,
      b.digest sha3=answer.1.digest sha3)
    ⟨h,forall_mem_nil _⟩ fun after answers block hm v ⟨hr,ha⟩ _ => ⟨hr.updateQuiet ?_,?_⟩
  · exact step_grows (c.params v) sortedIteration (i := .receiveBlock block)
      (fun b ho => Option.some.inj ho ▸ hb block hm) (by simp [ConsensusProtocol.step])
  · refine forall_mem_append.mpr ⟨ha,forall_mem_map.mpr fun _ _ => ⟨block,hm,rfl⟩⟩

theorem report_broadcastAcks (h : Report K c round start vs []) (acks : List (Bytes × ℕ))
    (hk : ∀ a, K round a)
    (ha : ∀ ack ∈ acks, ∀ v r a b, (start v).dag.slot r a=some b → b.digest sha3=ack.1 → K r a) :
    Report K c round start (broadcastAcks c round acks vs).1 [] ∧
      ∀ cert ∈ (broadcastAcks c round acks vs).2, K cert.block.round cert.block.author := by
  simp only [broadcastAcks,forall_mem_map]
  refine broadcast_induction (P := fun after (answers : List (_ × Certificate)) =>
    Report K c round start after [] ∧ ∀ answer ∈ answers,
      K answer.2.block.round answer.2.block.author)
    ⟨h,forall_mem_nil _⟩ fun after answers ack hm v ⟨hr,hans⟩ _ => ?_
  have hcert : ∀ cert, .certificate cert ∈ (ConsensusProtocol.step (c.params v) sortedIteration
      (after v) (.receiveAck ack.1 ack.2)).2 → K cert.block.round cert.block.author := by
    intro cert hc
    have hg := certified_of_receiveAck hc
    rcases (hr.grows v).slots _ _ _ (DAGStore.slot_of_getBlock hg) with he|hs
    · rw [he]
      exact hk _
    · exact ha ack hm v _ _ _ hs (DAGStore.digest_of_getBlock hg)
  refine ⟨hr.updateQuiet ?_,forall_mem_append.mpr ⟨hans,?_⟩⟩
  · exact step_grows (c.params v) sortedIteration (i := .receiveAck ack.1 ack.2)
      (by simp [offered]) fun cert hc => hc.elim (by simp) (hcert cert)
  · refine forall_mem_map.mpr fun cert hc => hcert cert ?_
    exact mem_map_of_mem hc

variable (iter)

theorem report_broadcastCertificates (h : Report K c round start vs [])
    {certs : List Certificate} (hc : ∀ cert ∈ certs, K cert.block.round cert.block.author) :
    Report K c round start (broadcastCertificates iter c round certs vs).1
      (broadcastCertificates iter c round certs vs).2 := by
  refine .subset ?_ (keepFirst_subset CommitDecision.round _)
  refine broadcast_induction (P := fun after answers =>
    Report K c round start after (answers.map Prod.snd)) h
    fun after answers cert hm v h hr => ?_
  simp only [Bool.and_eq_true,Bool.not_eq_true'] at hr
  have hb := receiveCertificate_brings (c.params v) iter round (after v)
    (hc cert (keepFirst_subset _ _ hm))
  rw [map_append]
  refine h.update ?_ (.inl hr.1)
  simpa using hb

variable (c)

def Distinct (decisions : List CommitDecision) : Prop := (decisions.map CommitDecision.round).Nodup

theorem Distinct.snoc (h : Distinct decisions) {d : CommitDecision}
    (hn : d.round ∉ decisions.map CommitDecision.round) : Distinct (decisions++[d]) := by
  rw [Distinct,map_append]
  exact nodup_append'.mpr ⟨h,nodup_singleton _,disjoint_singleton.mpr hn⟩

theorem checkRounds_spec (v : Fin n) (rounds : List ℕ) (s : State sha3) (h : Distinct decisions) :
    ∃ more, (checkRounds iter c v rounds s decisions).2=decisions++more ∧
      Distinct (decisions++more) ∧
      Brings (c.params v) K round s (checkRounds iter c v rounds s decisions).1 more := by
  induction rounds generalizing s with
  | nil =>
    refine ⟨[],(append_nil _).symm,?_,.refl s,by simp⟩
    rwa [append_nil]
  | cons checkRound rest ih =>
    have hb := checkCommit_brings (K := K) (c.params v) iter round s checkRound
    rw [checkRounds]
    generalize checkCommit (c.params v) iter s checkRound=result at hb
    obtain ⟨answer,s'⟩ := result
    obtain ⟨more,hm,hd,hr⟩ := ih s'
    have hc := hr.after hb.grows
    cases answer with
    | none => exact ⟨more,hm,hd,hc⟩
    | some d =>
      dsimp only
      split_ifs with hk
      · exact ⟨more,hm,hd,hc⟩
      · exact ⟨[d],rfl,h.snoc hk,hb⟩

variable {c}

theorem report_checkValidators {committed : Validators sha3 n × List CommitDecision}
    (hr : Report K c round start committed.1 committed.2) (hd : Distinct committed.2)
    (order : List (Fin n)) :
    Report K c round start (order.foldl (checkValidator iter c round) committed).1
        (order.foldl (checkValidator iter c round) committed).2 ∧
      Distinct (order.foldl (checkValidator iter c round) committed).2 := by
  refine foldlRecOn (motive := fun acc : Validators sha3 n × List CommitDecision =>
    Report K c round start acc.1 acc.2 ∧ Distinct acc.2) order _ ⟨hr,hd⟩
    fun acc ha v _ => ?_
  rw [checkValidator]
  split_ifs with hc
  · exact ha
  · obtain ⟨more,hm,hd',hb⟩ := checkRounds_spec iter c v
      (List.range (round+1)) (acc.1 v) ha.2
    rw [hm]
    exact ⟨ha.1.update hb (.inl (Bool.eq_false_of_not_eq_true hc)),hd'⟩

theorem sorted_rounds (h : Distinct decisions) :
    ((decisions.insertionSort roundLe).map CommitDecision.round).Pairwise (· < ·) := by
  have hle : ((decisions.insertionSort roundLe).map CommitDecision.round).Pairwise (· ≤ ·) :=
    pairwise_map.mpr (pairwise_insertionSort roundLe decisions)
  have hne : ((decisions.insertionSort roundLe).map CommitDecision.round).Nodup :=
    ((perm_insertionSort roundLe decisions).map _).nodup_iff.mpr h
  exact (hle.and hne).imp fun hb => lt_of_le_of_ne hb.1 hb.2

theorem finishRound_spec (h : Report K c round start vs []) {blocks : List Block}
    (hb : ∀ b ∈ blocks, b.round=round) (hk : ∀ a, K round a)
    (hd : ∀ b ∈ blocks, ∀ v r a b', (start v).dag.slot r a=some b' →
      b'.digest sha3=b.digest sha3 → K r a) :
    Report K c round start (finishRound iter c round blocks vs).1
        (finishRound iter c round blocks vs).2 ∧
      ((finishRound iter c round blocks vs).2.map CommitDecision.round).Pairwise (· < ·) := by
  obtain ⟨hb,hacks⟩ := report_broadcastBlocks h hb
  rw [finishRound]
  generalize broadcastBlocks c round blocks vs=delivered at hb hacks
  obtain ⟨vs1,acks⟩ := delivered
  obtain ⟨ha,hcerts⟩ := report_broadcastAcks hb (dropEquivocators vs1 acks) hk
    fun ack hm v r a b' hs he => by
      obtain ⟨b,hbl,hbd⟩ := hacks ack (mem_of_mem_filter hm)
      exact hd b hbl v r a b' hs (he.trans hbd.symm)
  dsimp only at ha hcerts ⊢
  generalize broadcastAcks c round (dropEquivocators vs1 acks) vs1=certified at ha hcerts
  obtain ⟨vs2,certs⟩ := certified
  have hc := report_broadcastCertificates iter ha hcerts
  obtain ⟨hr,hd⟩ := report_checkValidators iter hc (keepFirst_nodup _ _) (finRange n)
  exact ⟨hr.subset (perm_insertionSort roundLe _).subset,sorted_rounds hd⟩

end

section
variable (c : Setting) (round : ℕ) (time : Fin n → ℤ)

def PoolGrows (K : ℕ → ℕ → Prop) (round : ℕ) (pool pool' : Pool sha3 n) : Prop :=
  ∀ v, Grows K round (pool.validators v) (pool'.validators v)

variable {K : ℕ → ℕ → Prop}

instance : Std.Refl (@PoolGrows sha3 n K round) := ⟨fun pool v => .refl (pool.validators v)⟩

instance : IsTrans (Pool sha3 n) (PoolGrows K round) := ⟨fun _ _ _ h h' v => (h v).trans (h' v)⟩

theorem exec_proposeBlock (v : Fin n) (payload : List Bytes) (pool : Pool sha3 n) :
    (proposeBlock c round time v payload).exec pool =
      match propose (c.params v) (pool.validators v) round payload (time v) with
      | .error e => (.error e,pool)
      | .ok (block,s) =>
        (.ok block,{pool with validators := Function.update pool.validators v s}) := by
  simp only [proposeBlock,exec_bind,exec_get]
  cases propose (c.params v) (pool.validators v) round payload (time v) <;> rfl

theorem propose_spec {p : Params} {s s' : State sha3} {payload : List Bytes} {ms : ℤ} {b : Block}
    (h : propose p s round payload ms=.ok (b,s')) : b.round=round ∧ Grows K round s s' := by
  have hr : ∀ b, proposal p s round payload ms=.ok b → b.round=round :=
    fun b hp => (proposal_eq_ok p hp).2
  have hs : ConsensusProtocol.step p sortedIteration s (.propose round payload ms) =
      (s',[.block b]) := by simp only [ConsensusProtocol.step,h]
  have hg : Grows K round s (ConsensusProtocol.step p sortedIteration s
      (.propose round payload ms)).1 := by
    refine step_grows p sortedIteration (fun b ho => ?_) ?_
    · rcases offered_eq_some p ho with hi|⟨_,_,hi,-⟩
      · cases hi
      · cases hi
        rfl
    · rw [hs]
      simp
  rw [hs] at hg
  rw [propose] at h
  cases hp : proposal p s round payload ms with
  | error e => simp [hp] at h
  | ok block =>
    simp only [hp] at h
    cases h
    exact ⟨hr b hp,hg⟩

theorem keeps_proposeBlock (v : Fin n) (payload : List Bytes) :
    Method.Keeps (@PoolGrows sha3 n K round) (proposeBlock c round time v payload) := by
  intro pool
  rw [exec_proposeBlock]
  cases hp : propose (c.params v) (pool.validators v) round payload (time v) with
  | error e => exact fun u => .refl _
  | ok result =>
    intro u
    dsimp only
    by_cases hu : u=v
    · subst hu
      rw [update_self]
      exact (propose_spec round hp).2
    · rw [update_of_ne hu]
      exact .refl _

theorem round_proposeBlock {v : Fin n} {payload : List Bytes} {pool pool' : Pool sha3 n}
    {b : Block} (h : (proposeBlock c round time v payload).exec pool=(.ok b,pool')) :
    b.round=round := by
  rw [exec_proposeBlock] at h
  split at h
  · cases h
  · next hp =>
    cases h
    exact (propose_spec (K := fun _ _ => True) round hp).1

theorem round_proposeFor {v : Fin n} {pool pool' : Pool sha3 n} {blocks : List Block}
    (h : (proposeFor c round time v).exec pool=(.ok blocks,pool')) :
    ∀ b ∈ blocks, b.round=round := by
  rw [proposeFor] at h
  split_ifs at h
  · cases h
    exact forall_mem_nil _
  · obtain ⟨b,_,hb,hr⟩ := exec_bind_ok h
    cases hr
    simp [otherBlock,round_proposeBlock c round time hb]
  · obtain ⟨b,_,hb,hr⟩ := exec_bind_ok h
    cases hr
    simp [round_proposeBlock c round time hb]
  · obtain ⟨_,_,-,h⟩ := exec_bind_ok h
    obtain ⟨_,_,-,h⟩ := exec_bind_ok h
    obtain ⟨b,_,hb,hr⟩ := exec_bind_ok h
    cases hr
    simp [round_proposeBlock c round time hb]

theorem round_proposeAll {order : List (Fin n)} {pool pool' : Pool sha3 n} {blocks : List Block}
    (h : (proposeAll c round time order).exec pool=(.ok blocks,pool')) :
    ∀ b ∈ blocks, b.round=round := by
  induction order generalizing pool blocks with
  | nil =>
    cases h
    exact forall_mem_nil _
  | cons v rest ih =>
    obtain ⟨first,_,hf,h⟩ := exec_bind_ok h
    obtain ⟨more,_,hm,hr⟩ := exec_bind_ok h
    cases hr
    exact forall_mem_append.mpr ⟨round_proposeFor c round time hf,ih hm⟩

theorem keeps_proposeFor (v : Fin n) :
    Method.Keeps (@PoolGrows sha3 n K round) (proposeFor c round time v) := by
  rw [proposeFor]
  split_ifs
  · exact keeps_pure _
  · exact (keeps_proposeBlock c round time v _).bind fun _ => keeps_pure _
  · exact (keeps_proposeBlock c round time v _).bind fun _ => keeps_pure _
  · refine keeps_get.bind fun pool => ?_
    refine (keeps_modify fun pool u => .refl _).bind fun _ => ?_
    exact (keeps_proposeBlock c round time v _).bind fun _ => keeps_pure _

theorem keeps_proposeAll (order : List (Fin n)) :
    Method.Keeps (@PoolGrows sha3 n K round) (proposeAll c round time order) := by
  induction order with
  | nil => exact keeps_pure _
  | cons v rest ih =>
    exact (keeps_proposeFor c round time v).bind fun _ => ih.bind fun _ => keeps_pure _

end

namespace Engine
variable (e : Engine sha3 n) (time : Fin n → ℤ)

def proposed : List Block :=
  ((proposeAll e.setting e.nextRound time (finRange n)).exec
    ⟨e.validators,e.mempool⟩).1.toOption.getD []

/-- The slots whose blocks can be certified in a call: those of its round, and those of a stored
block that has the digest of a block of the call. -/
def Certifiable (round author : ℕ) : Prop :=
  round=e.nextRound ∨ ∃ w : Fin n, ∃ b ∈ (e.validators w).dag.slot round author,
    ∃ proposal ∈ e.proposed time, b.digest sha3=proposal.digest sha3

end Engine

section
variable (iter : Iteration)

theorem advanceRound_report (e : Engine sha3 n) (time : Fin n → ℤ) :
    Report (e.Certifiable time) e.setting e.nextRound e.validators
        (step iter e (.advanceRound time)).1.validators (step iter e (.advanceRound time)).2 ∧
      ((step iter e (.advanceRound time)).2.map CommitDecision.round).Pairwise (· < ·) := by
  have hpo := keeps_proposeAll (K := e.Certifiable time) e.setting e.nextRound time (finRange n)
    ⟨e.validators,e.mempool⟩
  have hp : Report (e.Certifiable time) e.setting e.nextRound e.validators
      ((proposeAll e.setting e.nextRound time (finRange n)).exec
        ⟨e.validators,e.mempool⟩).2.validators [] := ⟨hpo,by simp⟩
  rw [step,Engine.advanceRound]
  cases hr : (proposeAll e.setting e.nextRound time (finRange n)).exec
      ⟨e.validators,e.mempool⟩ with
  | mk result pool =>
    rw [hr] at hp
    cases result with
    | error error => exact ⟨hp,.nil⟩
    | ok blocks =>
      refine finishRound_spec iter hp (round_proposeAll _ _ _ hr) (fun _ => .inl rfl) ?_
      intro b hb v r a b' hs hd
      refine .inr ⟨v,b',hs,b,?_,hd⟩
      rw [Engine.proposed,hr]
      exact hb

/-- No validator that runs in the call can still commit a round up to one that was committed
before: it has committed the round or knows its leader as an equivocator, or it has no
certificate of the leader and can get none in the call. -/
def Settled (e : Engine sha3 n) : Input n → Prop
  | .advanceRound time => ∀ v : Fin n, e.setting.isFaulty v e.nextRound .crash=false →
      ∀ u : Fin n, ∀ round ∈ (e.validators u).committedRounds, ∀ earlier≤round,
        Led (e.setting.params v) (e.Certifiable time) (e.validators v) earlier →
          ¬Open (e.setting.params v) (e.validators v) earlier
  | _ => True

instance (e : Engine sha3 n) (time : Fin n → ℤ) (round author : ℕ) :
    Decidable (e.Certifiable time round author) :=
  inferInstanceAs (Decidable (_ ∨ ∃ w : Fin n, ∃ b ∈ (e.validators w).dag.slot round author,
    ∃ proposal ∈ e.proposed time, b.digest sha3=proposal.digest sha3))

instance (p : Params) (e : Engine sha3 n) (time : Fin n → ℤ) (s : State sha3) (round : ℕ) :
    Decidable (Led p (e.Certifiable time) s round) :=
  inferInstanceAs (Decidable (_ ∨ _))

instance (e : Engine sha3 n) : ∀ i, Decidable (Settled e i)
  | .advanceRound _ => inferInstanceAs (Decidable (∀ _ : Fin n, _ → ∀ u : Fin n, ∀ round ∈
      (e.validators u).committedRounds, ∀ earlier≤round, _ → _))
  | .submitTransactions _ | .injectFault _ | .setPartition _ | .popCommit =>
    inferInstanceAs (Decidable True)

def Increasing (e : Engine sha3 n) (queued : List CommitDecision) : Prop :=
  (queued.map CommitDecision.round).Pairwise (· < ·) ∧
    ∀ d ∈ queued, ∃ u, d.round ∈ (e.validators u).committedRounds

theorem increasing_advanceRound {e : Engine sha3 n} {queued : List CommitDecision}
    (time : Fin n → ℤ) (h : Increasing e queued) (hs : Settled e (.advanceRound time)) :
    Increasing (step iter e (.advanceRound time)).1
      (queued++(step iter e (.advanceRound time)).2) := by
  obtain ⟨hr,hso⟩ := advanceRound_report iter e time
  refine ⟨?_,fun d hd => ?_⟩
  · rw [map_append]
    refine pairwise_append.mpr ⟨h.1,hso,fun round hro round' hr' => ?_⟩
    obtain ⟨d,hd,rfl⟩ := mem_map.mp hro
    obtain ⟨d',hd',rfl⟩ := mem_map.mp hr'
    obtain ⟨u,hu⟩ := h.2 d hd
    obtain ⟨v,hru,ho,-,hl⟩ := hr.brought d' hd'
    by_contra hle
    exact hs v hru u d.round hu d'.round (not_lt.mp hle) hl ho
  · rcases mem_append.mp hd with hd|hd
    · obtain ⟨u,hu⟩ := h.2 d hd
      exact ⟨u,(hr.grows u).committedRounds hu⟩
    · obtain ⟨v,-,-,hv,-⟩ := hr.brought d hd
      exact ⟨v,hv⟩

theorem increasing_step {e : Engine sha3 n} {queued : List CommitDecision} {i : Input n}
    (h : Increasing e queued) (hs : Settled e i) :
    Increasing (step iter e i).1 (queued++(step iter e i).2) := by
  cases i with
  | advanceRound time => exact increasing_advanceRound iter time h hs
  | _ => exact (append_nil queued).symm ▸ h

/-- The rounds put in the commit queue increase in every run whose calls are all settled. -/
theorem queued_rounds_increase (f : ℕ) (inputs : List (Input n))
    (h : (machine iter f : Machine (Engine sha3 n) (Input n) CommitDecision).Meets Settled inputs) :
    (((machine iter f : Machine (Engine sha3 n) (Input n) CommitDecision).outputs inputs).map
      CommitDecision.round).Pairwise (· < ·) :=
  (Machine.invariant_of_meets (P := Increasing) ⟨List.Pairwise.nil,by simp⟩
    (fun _ _ _ hi hs => increasing_step iter hi hs) inputs h).1

end

section

def slotDigest (input : Bytes) : Bytes := input.take 12

def fourValidators : Machine (Engine slotDigest 4) (Input 4) CommitDecision :=
  machine sortedIteration 1

def advance : Input 4 := .advanceRound fun _ => 0

def crashedRun : List (Input 4) :=
  .injectFault ⟨1,.crash,1,none,[]⟩::List.replicate 5 advance

theorem crashedRun_rounds_increase :
    (fourValidators.outputs crashedRun).map CommitDecision.round=[0,2,3] ∧
      ((fourValidators.outputs crashedRun).map CommitDecision.round).Pairwise (· < ·) :=
  ⟨by decide +kernel,queued_rounds_increase sortedIteration 1 crashedRun
    ((fourValidators.meetsFrom_start_iff _ _).mp (by decide +kernel))⟩

def healedRun : List (Input 4) :=
  [advance,.setPartition (some ⟨{3},{0,2}⟩),advance,.setPartition none,advance]

theorem healedRun_queues_round_twice :
    (fourValidators.outputs healedRun).map CommitDecision.round=[0,0,1] ∧
      ¬((fourValidators.outputs healedRun).map CommitDecision.round).Pairwise (· < ·) := by
  decide +kernel

end

end LatticeTransfer.ConsensusEngine
