import LatticeTransfer.BridgeEndpoints

/-!
# Replay and finality across the bridge

A run of the bridge: the anchor commits messages, other users commit to the same log, the
nodes and the key registry become anything, the relayer seals keys and hands in packets
that it builds around the sealed keys it has seen, every other field of its own choice.
The outputs are the messages the materializer returns.

`identities` collects what is hashed for entity identifiers. As far as the hash has no
collision there, an opened packet holds the message of the commitment it was sealed for.
The materializer remembers a packet under the identifier the packet carries and counts
confirmations from the block the packet carries, and the packet is the relayer's.
-/

namespace LatticeTransfer
open MerkleTree MerkleLog CommitmentLog ShardNetwork JsonText
open List L2Materializer Method PyValue Machine

variable {P : SecurityProfile} {S : MLDSA} {K : MLKEM}

structure Bridge (P : SecurityProfile) (S : MLDSA) (K : MLKEM) where
  protocol : Protocol P S K
  anchor : L1Anchor P S K
  materializer : L2Materializer P S K
  commitments : List (BridgeCommitment × Bytes)
  packets : List RelayPacket
  identities : List Bytes

namespace Bridge

inductive Input (P : SecurityProfile) (S : MLDSA) (K : MLKEM)
  | commitMessage (message : HeldMessage) (n k : ℕ) (draws : AnchorDraws)
  | commit (entity : HeldEntity) (sender : LatticeTransfer.KeyPair P S K) (n k : ℕ)
      (draws : CommitDraws)
  | others (network : Network) (keyRegistry : Dict String (LatticeTransfer.KeyPair P S K))
  | relay (i : ℕ) (relayer : Relayer P S K) (draws : RelayDraws)
  | setL1BlockHeight (height : ℤ)
  | deliver (i : ℕ) (packet : RelayPacket) (clock : Clock) (now : Json)

variable (env : Environment S)

def checkedInputs (b : Bridge P S K) (seen : RelayPacket) : List Bytes :=
  match b.protocol.log.records.get? seen.entityId with
  | none => []
  | some record =>
    match b.protocol.senderVk record, ((Protocol.materialize env seen.sealedKey
      b.materializer.verifierKeypair none).exec b.protocol).1 with
    | some senderVk, .ok (some content) =>
      [Entity.identityInput content record.shape record.timestamp senderVk]
    | _, _ => []

def around (seen packet : RelayPacket) : RelayPacket := {packet with sealedKey := seen.sealedKey}

def returned : Except PyError (Option BridgeMessage) → List BridgeMessage
  | .ok (some message) => [message]
  | _ => []

def step (b : Bridge P S K) : Input P S K → Bridge P S K × List BridgeMessage
  | .commitMessage message n k draws =>
    let (result,anchor,protocol) :=
      (L1Anchor.commitMessage env message n k draws).exec (b.anchor,b.protocol)
    ({b with
        anchor := anchor
        protocol := protocol
        commitments := b.commitments++result.toOption.toList
        identities := b.identities++[Entity.identityInput message.val.toCanonicalBytes
          bridgeShape draws.commit.timestamp b.anchor.operatorKeypair.vk]},[])
  | .commit entity sender n k draws =>
    ({b with
        protocol := ((Protocol.commit env entity sender n k draws).exec b.protocol).2},[])
  | .others network keyRegistry =>
    ({b with protocol := {b.protocol with network := network,keyRegistry := keyRegistry}},[])
  | .relay i relayer draws =>
    match b.commitments[i]? with
    | none => (b,[])
    | some (commitment,cek) =>
      let result := relayer.relay env b.protocol commitment cek b.materializer.verifierKeypair draws
      ({b with packets := b.packets++result.toOption.toList},[])
  | .setL1BlockHeight height =>
    ({b with materializer := b.materializer.setL1BlockHeight height},[])
  | .deliver i packet clock now =>
    match b.packets[i]? with
    | none => (b,[])
    | some seen =>
      let (result,materializer,protocol) := (L2Materializer.materialize env
        (around seen packet) clock now).exec (b.materializer,b.protocol)
      ({b with
          materializer := materializer
          protocol := protocol
          identities := b.identities++checkedInputs env b seen},returned result)

def start (protocol : Protocol P S K) (operator verifier : LatticeTransfer.KeyPair P S K)
    (source dest : String) (required : ℤ) : Bridge P S K where
  protocol := protocol
  anchor := L1Anchor.init operator source
  materializer := L2Materializer.init verifier dest required
  commitments := []
  packets := []
  identities := []

def machine (protocol : Protocol P S K) (operator verifier : LatticeTransfer.KeyPair P S K)
    (source dest : String) (required : ℤ) : Machine (Bridge P S K) (Input P S K) BridgeMessage where
  start := start protocol operator verifier source dest required
  step := step env

def admission (c : BridgeCommitment × Bytes) : String × String × ℤ :=
  (c.1.message.sourceChain,c.1.message.sender,c.1.message.nonce)

def Recorded (b : Bridge P S K) (c : BridgeCommitment) : Prop :=
  ∃ record, b.protocol.log.records.get? c.entityId=some record ∧ record.shape=bridgeShape ∧
    record.senderVk=b.anchor.operatorKeypair.vk ∧
    c.entityId=c.message.entity.computeId env.canonical b.anchor.operatorKeypair.vk
      record.timestamp ∧
    Entity.identityInput c.message.toCanonicalBytes bridgeShape record.timestamp
      b.anchor.operatorKeypair.vk ∈ b.identities

def SealedFor (verifier : LatticeTransfer.KeyPair P S K) (c : BridgeCommitment)
    (packet : RelayPacket) : Prop :=
  packet.entityId=c.entityId ∧ packet.sourceBlock=c.sourceBlock ∧
    ∃ key, LatticeKey.unsealWith env.suite.cipher packet.sealedKey verifier=.ok key ∧
      key.entityId=c.entityId

structure Consistent (b : Bridge P S K) : Prop where
  recorded : ∀ c ∈ b.commitments, Recorded env b c.1
  nonces : ∀ c ∈ b.commitments, ∃ current,
    b.anchor.nonceHwm.get? (c.1.message.sourceChain,c.1.message.sender)=some current ∧
      c.1.message.nonce≤current
  distinct : (b.commitments.map admission).Nodup
  relayed : ∀ packet ∈ b.packets, ∃ c ∈ b.commitments,
    SealedFor env b.materializer.verifierKeypair c.1 packet

variable {env}

variable {b b' : Bridge P S K}

theorem Recorded.mono {c : BridgeCommitment} (h : Recorded env b c)
    (hlog : Protocol.LogGrows b.protocol b'.protocol)
    (ho : b'.anchor.operatorKeypair=b.anchor.operatorKeypair)
    (hi : b.identities ⊆ b'.identities) : Recorded env b' c := by
  obtain ⟨record,hg,hs,hvk,hid,hh⟩ := h
  refine ⟨record,hlog _ _ hg,hs,?_,?_,?_⟩
  · rw [ho]
    exact hvk
  · rw [ho]
    exact hid
  · rw [ho]
    exact hi hh

theorem Consistent.extend (h : Consistent env b) {new : List (BridgeCommitment × Bytes)}
    (hlog : Protocol.LogGrows b.protocol b'.protocol) (ha : L1Anchor.Grows b.anchor b'.anchor)
    (hv : b'.materializer.verifierKeypair=b.materializer.verifierKeypair)
    (hco : b'.commitments=b.commitments++new) (hp : b'.packets=b.packets)
    (hi : b.identities ⊆ b'.identities) (hs : (new.map admission).Nodup)
    (hne : ∀ c ∈ new, Recorded env b' c.1 ∧ b.anchor.currentNonce c.1.message<c.1.message.nonce ∧
      b'.anchor.nonceHwm.get? (c.1.message.sourceChain,c.1.message.sender) =
        some c.1.message.nonce) : Consistent env b' where
  recorded := by
    rw [hco,forall_mem_append]
    exact ⟨fun c hc => (h.recorded c hc).mono hlog ha.1 hi,
      fun c hc => (hne c hc).1⟩
  nonces := by
    rw [hco,forall_mem_append]
    refine ⟨fun c hc => ?_,fun c hc => ⟨_,(hne c hc).2.2,le_rfl⟩⟩
    obtain ⟨cur,hg,hle⟩ := h.nonces c hc
    obtain ⟨later,hl,hle'⟩ := ha.2 _ _ hg
    exact ⟨later,hl,hle.trans hle'⟩
  distinct := by
    rw [hco,map_append]
    refine h.distinct.append hs fun key ho hk => ?_
    obtain ⟨c,hc,rfl⟩ := mem_map.mp ho
    obtain ⟨c',hc',heq⟩ := mem_map.mp hk
    obtain ⟨hso,hr⟩ := Prod.mk.inj heq
    obtain ⟨hse,hsa⟩ := Prod.mk.inj hr
    obtain ⟨cur,hg,hle⟩ := h.nonces c hc
    have hn := (hne c' hc').2.1
    rw [L1Anchor.currentNonce,hso,hse,hg,hsa] at hn
    exact absurd hle (not_le.mpr hn)
  relayed := by
    rw [hp,hco,hv]
    intro packet hpa
    obtain ⟨c,hc,hsea⟩ := h.relayed packet hpa
    exact ⟨c,mem_append_left _ hc,hsea⟩

theorem Consistent.mono (h : Consistent env b) (hlog : Protocol.LogGrows b.protocol b'.protocol)
    (ha : L1Anchor.Grows b.anchor b'.anchor)
    (hv : b'.materializer.verifierKeypair=b.materializer.verifierKeypair)
    (hc : b'.commitments=b.commitments) (hp : b'.packets=b.packets)
    (hi : b.identities ⊆ b'.identities) : Consistent env b' :=
  h.extend hlog ha hv (hc.trans (append_nil _).symm) hp
    hi nodup_nil (by simp)

theorem Consistent.commitMessage (h : Consistent env b) (message : HeldMessage) (n k : ℕ)
    (draws : AnchorDraws) : Consistent env (step env b (.commitMessage message n k draws)).1 := by
  have hk := L1Anchor.commitMessage_keeps env message n k draws (b.anchor,b.protocol)
  cases he : (L1Anchor.commitMessage env message n k draws).exec (b.anchor,b.protocol) with
  | mk result after =>
    obtain ⟨anchor,protocol⟩ := after
    rw [he] at hk
    simp only [step,he]
    cases result with
    | error e =>
      exact h.mono hk.2 hk.1 rfl (append_nil _) rfl (subset_append_left _ _)
    | ok out =>
      obtain ⟨hm,hn,hc,record,hg,hs,hvk,ht,hid⟩ :=
        L1Anchor.commitMessage_ok he
      rw [← hm] at hn hc hid
      refine h.extend hk.2 hk.1 rfl rfl rfl (subset_append_left _ _)
        (nodup_singleton _) (forall_mem_singleton.mpr ⟨?_,hn,hc⟩)
      have ho : anchor.operatorKeypair=b.anchor.operatorKeypair := hk.1.1
      refine ⟨record,hg,hs,?_,?_,?_⟩
      · exact hvk.trans (by rw [ho])
      · simp only [ho,ht]
        exact hid
      · simp [ho,ht,hm]

theorem Consistent.relay (h : Consistent env b) (i : ℕ) (relayer : Relayer P S K)
    (draws : RelayDraws) : Consistent env (step env b (.relay i relayer draws)).1 := by
  rw [step]
  split
  · exact h
  next commitment cek hg =>
    refine ⟨h.recorded,h.nonces,h.distinct,fun packet hp => ?_⟩
    rcases mem_append.mp hp with ho|hn
    · exact h.relayed packet ho
    · have hr : relayer.relay env b.protocol commitment cek b.materializer.verifierKeypair
          draws=.ok packet := by
        cases hre : relayer.relay env b.protocol commitment cek
          b.materializer.verifierKeypair draws with
        | error e => simp [hre,Except.toOption] at hn
        | ok made => simpa [hre,Except.toOption,eq_comm] using hn
      obtain ⟨he,hb,_,_,_,_,_,hu⟩ := Relayer.relay_key hr
      exact ⟨_,mem_of_getElem? hg,he,hb,_,hu,rfl⟩

theorem Consistent.step (h : Consistent env b) (i : Input P S K) :
    Consistent env (step env b i).1 := by
  cases i with
  | commitMessage message n k draws => exact h.commitMessage message n k draws
  | commit entity sender n k draws =>
    exact h.mono (Protocol.commit_keeps entity sender n k draws b.protocol) (Std.Refl.refl _) rfl
      rfl rfl (.refl _)
  | others network keyRegistry =>
    exact h.mono (Protocol.logGrows_of_eq rfl) (Std.Refl.refl _) rfl rfl rfl (List.Subset.refl _)
  | relay i relayer draws => exact h.relay i relayer draws
  | setL1BlockHeight height =>
    exact h.mono (Protocol.logGrows_of_eq rfl) (Std.Refl.refl _) rfl rfl rfl (List.Subset.refl _)
  | deliver i packet clock now =>
    rw [Bridge.step]
    split
    · exact h
    next seen _ =>
      have hk := materialize_keeps env (around seen packet) clock now
        (b.materializer,b.protocol)
      exact h.mono hk.2 (Std.Refl.refl _) hk.1.verifier rfl rfl
        (subset_append_left _ _)

theorem identities_step (b : Bridge P S K) (i : Input P S K) :
    b.identities ⊆ (Bridge.step env b i).1.identities := by
  cases i with
  | commitMessage message n k draws => exact subset_append_left _ _
  | commit entity sender n k draws => exact .refl _
  | others network keyRegistry => exact .refl _
  | relay i relayer draws =>
    rw [step]
    split <;> exact .refl _
  | setL1BlockHeight height => exact .refl _
  | deliver i packet clock now =>
    rw [step]
    split
    · exact .refl _
    · exact subset_append_left _ _

theorem consistent_start (protocol : Protocol P S K)
    (operator verifier : LatticeTransfer.KeyPair P S K) (source dest : String) (required : ℤ) :
    Consistent env (start protocol operator verifier source dest required) :=
  ⟨by simp [start],by simp [start],by simp [start],by simp [start]⟩

theorem length_senderVk {record : CommitmentRecord} {senderVk : Bytes}
    (hvk : b.protocol.senderVk record=some senderVk)
    (hr : record.senderVk=b.anchor.operatorKeypair.vk) :
    b.anchor.operatorKeypair.vk.length=senderVk.length := by
  rw [b.anchor.operatorKeypair.vk_size]
  rw [Protocol.senderVk] at hvk
  split at hvk
  next sender _ =>
    rw [← Option.some.inj hvk]
    exact sender.vk_size.symm
  next =>
    split_ifs at hvk
    rw [← Option.some.inj hvk,hr]
    exact b.anchor.operatorKeypair.vk_size.symm

theorem Consistent.eq_of_canonical_eq (h : Consistent env b) {c c' : BridgeCommitment × Bytes}
    (hc : c ∈ b.commitments) (hc' : c' ∈ b.commitments)
    (heq : c.1.message.canonical=c'.1.message.canonical) : c=c' := by
  have ha : admission c=admission c' := by
    have hs := congrArg BridgeMessage.sourceChain heq
    have hse := congrArg BridgeMessage.sender heq
    have hn := congrArg BridgeMessage.nonce heq
    exact Prod.ext hs (Prod.ext hse hn)
  exact inj_on_of_nodup_map h.distinct hc hc' ha

section
variable {b : Bridge P S K} (h : Consistent env b) {seen : RelayPacket} (hseen : seen ∈ b.packets)
  (hfree : CollisionFree env.canonical (b.identities++checkedInputs env b seen))
include h hseen hfree

theorem Consistent.content_eq
    {content : Bytes} {p' : Protocol P S K} (hop : (Protocol.materialize env seen.sealedKey
      b.materializer.verifierKeypair none).exec b.protocol=(.ok (some content),p')) :
    ∃ c ∈ b.commitments, seen.entityId=c.1.entityId ∧ seen.sourceBlock=c.1.sourceBlock ∧
      content=c.1.message.toCanonicalBytes := by
  obtain ⟨c,hc,he,hb,key,hu,hk⟩ := h.relayed seen hseen
  obtain ⟨record,hg,hs,hr,hid,hh⟩ := h.recorded c hc
  obtain ⟨opened,senderVk,ho,hvk,hha⟩ := Protocol.materialize_ok hu hop
  rw [hk,hg] at ho
  cases ho
  refine ⟨c,hc,he,hb,?_⟩
  have hch : Entity.identityInput content record.shape record.timestamp senderVk ∈
      checkedInputs env b seen := by
    rw [checkedInputs,he,hg]
    simp only [hvk,hop,mem_singleton]
  rw [← hk,← hha] at hid
  have hi := Entity.canonicalHash_inj env.canonical hfree
    (mem_append_right _ hch) (mem_append_left _ hh) hid
  rw [hs] at hi
  have hsi := (length_senderVk hvk hr).symm
  exact append_cancel_right ((Entity.identityInput_eq_iff hsi).mp hi).1

theorem Consistent.answer
    {packet : RelayPacket} {clock : Clock} {now : Json} {m : L2Materializer P S K}
    (hv : m.verifierKeypair=b.materializer.verifierKeypair)
    {message : BridgeMessage} (hr : ((L2Materializer.materialize env (around seen packet)
      clock now).exec (m,b.protocol)).1=.ok (some message)) :
    ∃ c ∈ b.commitments, seen.entityId=c.1.entityId ∧ seen.sourceBlock=c.1.sourceBlock ∧
      message=c.1.message.canonical ∧ message.nonce=packet.nonce ∧
      (packet.entityId,packet.nonce) ∉ m.seenPackets ∧
      m.requiredConfirmations ≤ m.currentL1Block-packet.sourceBlock := by
  obtain ⟨ha,_,ho⟩ := materialize_some_iff.mp hr
  obtain ⟨_,hu,_,hco⟩ := admits_iff.mp ha
  obtain ⟨hcr,content,p1,hm,hre⟩ :=
    openPacket_ok (exec_eq_ok ho)
  rw [hv] at hm
  obtain ⟨c,hc,he,hb,hcon⟩ := h.content_eq hseen hfree hm
  rw [hcon,BridgeMessage.fromBytes_toCanonicalBytes] at hre
  have hme := (Except.ok.inj hre).symm
  have hn : message.nonce=packet.nonce := (of_decide_eq_true hcr).2.2
  exact ⟨c,hc,he,hb,hme,hn,hu,hco⟩

end

section
open Protocol ShardEncryption

def byteHash : CanonicalHash := ⟨"byte",fun _ => [7],1,fun _ => rfl⟩

def byteScheme : MLDSA := ⟨fun _ _ _ => [9],fun _ _ _ => true⟩

def byteProfile : SecurityProfile := ⟨1,1,1,1,1,1,1,Nat.one_pos,Nat.one_pos⟩

def byteKeyPair (label : String) : LatticeTransfer.KeyPair byteProfile byteScheme plainKem where
  ek := [1]
  dk := [2]
  vk := [3]
  sk := [4]
  label := label
  dk_size := by decide
  vk_size := by decide
  decrypt_encrypt := (plainKeyPair label).decrypt_encrypt
  verify_sign _ _ := rfl

def byteEnvironment : Environment byteScheme where
  canonical := byteHash
  suite := ⟨fun _ message => (message++List.replicate 32 0).take 32,taggingCipher⟩
  hashBytes _ := [0]
  logOperator := ⟨[1],[2],fun _ _ => rfl⟩

def oneNode : Protocol byteProfile byteScheme plainKem where
  network := Network.empty.addNode "node" "us-east"
  log := Memory.init
  store := none
  keyRegistry := Dict.empty
  issuedCeks := []

def lockMessage : BridgeMessage := ⟨"lock","l1","l2","alice","bob",.obj [],0,.int 0⟩

def lock : HeldMessage := ⟨lockMessage,by decide +kernel⟩

def lockDraws : AnchorDraws := ⟨⟨0,0⟩,plainDraws,.ok (),0,[]⟩

def lockRelayer : Relayer byteProfile byteScheme plainKem := ⟨none,none⟩

def lockRelayDraws : RelayDraws := ⟨0,plainSeal,0,[]⟩

def lockBridge : Machine (Bridge byteProfile byteScheme plainKem)
    (Input byteProfile byteScheme plainKem) BridgeMessage :=
  machine byteEnvironment oneNode (byteKeyPair "operator") (byteKeyPair "verifier") "l1" "l2" 1

def locked : List (Input byteProfile byteScheme plainKem) :=
  [.commitMessage lock 2 1 lockDraws,.relay 0 lockRelayer lockRelayDraws,.setL1BlockHeight 2]

abbrev LockInput : Type := Input byteProfile byteScheme plainKem

def lockPacket (entityId : String) (block : ℤ) : RelayPacket :=
  ⟨[],"l1","l2",0,block,entityId,none⟩

def deliverLock (entityId : String) (block : ℤ) : LockInput :=
  .deliver 0 (lockPacket entityId block) ⟨0,0⟩ .null

def lockCommit := (L1Anchor.commitMessage byteEnvironment lock 2 1 lockDraws).exec
  (L1Anchor.init (byteKeyPair "operator") "l1",oneNode)

def lockView : L2Materializer byteProfile byteScheme plainKem :=
  (L2Materializer.init (byteKeyPair "verifier") "l2" 1).setL1BlockHeight 2

def lockIdentity : Bytes := Entity.identityInput lockMessage.toCanonicalBytes bridgeShape 0 [3]

def lockedBridge (c : BridgeCommitment × Bytes) (seen : RelayPacket) :
    Bridge byteProfile byteScheme plainKem :=
  ⟨lockCommit.2.2,lockCommit.2.1,lockView,[c],[seen],[lockIdentity]⟩

def answered (entityId : String) (m : L2Materializer byteProfile byteScheme plainKem) :
    L2Materializer byteProfile byteScheme plainKem :=
  let m := ((advanceSequence byteEnvironment ⟨0,0⟩).exec m).2
  {m with seenPackets := insert (entityId,0) m.seenPackets}

end

section

/-- A delivered packet carries the identifier its sealed key was made for. -/
def NamesItsEntity (b : Bridge P S K) : Input P S K → Prop
  | .deliver i packet _ _ => ∀ seen ∈ b.packets[i]?, packet.entityId=seen.entityId
  | _ => True

structure Delivered (b : Bridge P S K) (out : List BridgeMessage) : Prop where
  nodup : out.Nodup
  remembered : ∀ message ∈ out, ∃ c ∈ b.commitments, message=c.1.message.canonical ∧
    (c.1.entityId,message.nonce) ∈ b.materializer.seenPackets

variable {b : Bridge P S K} {out : List BridgeMessage}

theorem Delivered.mono {b' : Bridge P S K} (h : Delivered b out)
    (hco : b.commitments ⊆ b'.commitments)
    (hseen : b.materializer.seenPackets ⊆ b'.materializer.seenPackets) : Delivered b' out := by
  refine ⟨h.nodup,fun message hm => ?_⟩
  obtain ⟨c,hc,heq,hme⟩ := h.remembered message hm
  exact ⟨c,hco hc,heq,hseen hme⟩

theorem Delivered.deliver (hb : Consistent env b) (h : Delivered b out) {i : ℕ}
    {packet : RelayPacket} {clock : Clock} {now : Json}
    (hn : NamesItsEntity b (.deliver i packet clock now))
    (hfree : CollisionFree env.canonical (step env b (.deliver i packet clock now)).1.identities) :
    Delivered (step env b (.deliver i packet clock now)).1
      (out++(step env b (.deliver i packet clock now)).2) := by
  cases hseen : b.packets[i]? with
  | none =>
    simp only [step,hseen,append_nil]
    exact h
  | some seen =>
    have hk := materialize_keeps env (around seen packet) clock now
      (b.materializer,b.protocol)
    cases hex : (materialize env (around seen packet) clock now).exec
      (b.materializer,b.protocol) with
    | mk result after =>
      rw [hex] at hk
      simp only [step,hseen,hex] at hfree ⊢
      match result with
      | .error e =>
        simp only [returned,append_nil]
        exact h.mono (.refl _) hk.1.seen
      | .ok none =>
        simp only [returned,append_nil]
        exact h.mono (.refl _) hk.1.seen
      | .ok (some message) =>
        have hme := mem_seenPackets_of_materialize hex
        obtain ⟨c,hc,he,_,hm,hno,hu,_⟩ := hb.answer
          (mem_of_getElem? hseen) hfree rfl (congrArg Prod.fst hex)
        have hke : (c.1.entityId,message.nonce)=(packet.entityId,packet.nonce) := by
          rw [← he,hno,hn seen hseen]
        refine ⟨h.nodup.append (nodup_singleton _) ?_,?_⟩
        · -- a returned message would be remembered under the key of this packet
          refine disjoint_singleton.mpr fun ho => hu ?_
          obtain ⟨c',hc',hm',hs'⟩ := h.remembered message ho
          rw [← hb.eq_of_canonical_eq hc hc' (hm.symm.trans hm'),hke] at hs'
          exact hs'
        · refine forall_mem_append.mpr ⟨fun earlier hea => ?_,
            forall_mem_singleton.mpr ⟨c,hc,hm,?_⟩⟩
          · obtain ⟨c',hc',hm',hs'⟩ := h.remembered earlier hea
            exact ⟨c',hc',hm',hk.1.seen hs'⟩
          · rw [hke]
            exact hme

theorem Delivered.step (hb : Consistent env b) (h : Delivered b out) {i : Input P S K}
    (hn : NamesItsEntity b i)
    (hfree : CollisionFree env.canonical (Bridge.step env b i).1.identities) :
    Delivered (Bridge.step env b i).1 (out++(Bridge.step env b i).2) := by
  have hs : ∀ {b'}, Bridge.step env b i=(b',[]) → b.commitments ⊆ b'.commitments →
      b'.materializer.seenPackets=b.materializer.seenPackets →
      Delivered (Bridge.step env b i).1 (out++(Bridge.step env b i).2) := by
    intro b' hst hc hseen
    rw [hst,append_nil]
    exact h.mono hc hseen.ge
  cases i with
  | commitMessage message n k draws => exact hs rfl (subset_append_left _ _) rfl
  | commit | others | setL1BlockHeight => exact hs rfl (List.Subset.refl _) rfl
  | relay j relayer draws =>
    rw [Bridge.step]
    split
    · rw [append_nil]
      exact h
    · rw [append_nil]
      exact h.mono (.refl _) subset_rfl
  | deliver j packet clock now => exact .deliver hb h hn hfree

variable {protocol : Protocol P S K} {operator verifier : LatticeTransfer.KeyPair P S K}
  {source dest : String} {required : ℤ}

theorem consistent_run (inputs : List (Input P S K)) :
    Consistent env ((machine env protocol operator verifier source dest required).state inputs) :=
  invariant (P := fun b _ => Consistent env b) (consistent_start _ _ _ _ _ _)
    (fun _ _ i hb => hb.step i) inputs

/-- In a run whose packets carry the identifiers of their sealed keys, no message is returned
twice. -/
theorem outputs_nodup_of_names {inputs : List (Input P S K)} (hfree : CollisionFree env.canonical
      ((machine env protocol operator verifier source dest required).state inputs).identities)
    (hnames : (machine env protocol operator verifier source dest required).Meets NamesItsEntity
      inputs) :
    ((machine env protocol operator verifier source dest required).outputs inputs).Nodup := by
  have hr := invariant_of_meets (P := fun b out => CollisionFree env.canonical b.identities →
      Consistent env b ∧ Delivered b out)
    (fun _ => ⟨consistent_start _ _ _ _ _ _,nodup_nil,by simp⟩)
    (fun b out i hb hi hn => by
      obtain ⟨hc,hd⟩ := hb (hn.mono (identities_step b i))
      exact ⟨hc.step i,hd.step hc hi hn⟩) inputs hnames
  exact (hr hfree).2.nodup

def lockDelivery : List LockInput :=
  locked++[deliverLock "byte:07" 1]

/-- The relayer hands in the sealed key twice, under two identifiers of its own. The nodes serve
the shards as before. -/
def lockReplay : List LockInput :=
  locked++[deliverLock "x" 1] ++
    [(.others lockCommit.2.2.network lockCommit.2.2.keyRegistry : LockInput)] ++
    [deliverLock "y" 1]

theorem lockView_advances : ((advanceSequence byteEnvironment ⟨0,0⟩).exec lockView).1 =
    .ok true := by decide +kernel

theorem lock_relayed : ∃ commitment cek seen,
    lockCommit=(.ok (commitment,cek),lockCommit.2) ∧ lockRelayer.relay byteEnvironment
      lockCommit.2.2 commitment cek (byteKeyPair "verifier") lockRelayDraws=.ok seen := by
  have hru : lockCommit.1.toOption.any (fun out =>
      (lockRelayer.relay byteEnvironment lockCommit.2.2 out.1 out.2 (byteKeyPair "verifier")
        lockRelayDraws).toOption.any fun _ => true)=true := by decide +kernel
  obtain ⟨_,hc,hru⟩ := exists_ok_of_any hru
  obtain ⟨seen,hr,_⟩ := exists_ok_of_any hru
  exact ⟨_,_,seen,exec_eq_ok hc,hr⟩

section
open Protocol
variable {c : BridgeCommitment} {cek : Bytes} {seen : RelayPacket}
  (hc : lockCommit=(.ok (c,cek),lockCommit.2))
  (hr : lockRelayer.relay byteEnvironment lockCommit.2.2 c cek (byteKeyPair "verifier")
    lockRelayDraws=.ok seen)
include hc hr

theorem locked_run : lockBridge.run locked=(lockedBridge (c,cek) seen,[]) := by
  have ha : (L1Anchor.commitMessage byteEnvironment lock 2 1 lockDraws).exec
    (L1Anchor.init (byteKeyPair "operator") "l1",oneNode)=_ := hc
  have hk : lockRelayer.relay byteEnvironment lockCommit.2.2 c cek
    (L2Materializer.init (byteKeyPair "verifier") "l2" 1).verifierKeypair _ = _ := hr
  simp only [Machine.run,locked,foldl_cons,foldl_nil,lockBridge,machine,start,step,ha]
  simp only [Except.toOption,Option.toList,nil_append,getElem?_cons_zero,hk]
  rfl

variable {b : Bridge byteProfile byteScheme plainKem} (hlog : LogGrows lockCommit.2.2 b.protocol)
  (hnet : b.protocol.network=lockCommit.2.2.network)
  (hreg : b.protocol.keyRegistry=lockCommit.2.2.keyRegistry)
  (hv : b.materializer.verifierKeypair=byteKeyPair "verifier")
include hlog hnet hreg hv

theorem lock_opened : ∃ p, LogGrows lockCommit.2.2 p ∧
    (Protocol.materialize byteEnvironment seen.sealedKey b.materializer.verifierKeypair none).exec
      b.protocol=(.ok (some lockMessage.toCanonicalBytes),p) ∧
    checkedInputs byteEnvironment b seen=[lockIdentity] := by
  have hf : lockCommit.1.toOption.any (fun out => ((Network.fetchEncryptedShards
      byteEnvironment.hashBytes out.1.entityId 2 2).exec
        lockCommit.2.2.network).1.toOption.any fun got => decide (1≤got.size))=true := by
    decide +kernel
  obtain ⟨out,ho,hf⟩ := exists_ok_of_any hf
  obtain rfl : (c,cek)=out := Except.ok.inj (hc ▸ ho)
  obtain ⟨got,hf,hs⟩ := exists_ok_of_any hf
  obtain ⟨_,_,_,record,p,hp,hsa⟩ := L1Anchor.commitMessage_commit hc
  obtain ⟨hre,⟨enc,he,hse⟩,_,hl,hk,ht⟩ := commit_ok (by decide) (by decide) hp
  obtain ⟨hid,_,found,bytes,policy,hge,hb,hu⟩ := Relayer.relay_key hr
  obtain rfl : record=found := by
    rw [hsa.records,hl,Dict.get?_set_self] at hge
    exact Option.some.inj hge
  have ha : ∀ e ∈ got.entries, enc[e.1]?=some e.2 := by
    intro e hm
    have hsv := (Network.fetchEncryptedShards_sound (exec_eq_ok hf)
      ((got.get?_eq_some_iff _ _).mpr hm)).2
    rw [hsa.network] at hsv
    refine (hse _ _ hsv).resolve_left ?_
    rintro ⟨node,hn,hno⟩
    obtain rfl := mem_singleton.mp hn
    cases hno
  have hun : 1≤(untampered enc got).length := by
    rw [untampered,filter_eq_self.mpr (by simpa using ha),length_map]
    exact of_decide_eq_true hs
  have hvk : ∀ kp, b.protocol.keyRegistry.get? "operator" = some kp → kp.vk=[3] := by
    intro kp hkp
    rw [hreg,hsa.registry,hk] at hkp
    cases hkp
    rfl
  have hg := hlog _ _ hge
  rw [← hnet] at hf
  have hm := materialize_eq_content hre he (exec_eq_ok hf) hun
    (fun e he hne => absurd (ha e he) hne) hu hb rfl hg hvk
  rw [← hv] at hm
  refine ⟨_,fun _ _ h => Protocol.materialize_keeps _ _ _ _ _ (hlog _ _ h),exec_eq_ok hm,?_⟩
  rw [checkedInputs,hid,hg]
  simp only [hm,senderVk_eq hre hvk,hre.shape,ht]
  rfl

theorem lock_delivered {id : String} (hp : b.packets=[seen])
    (ha : b.materializer.admits byteEnvironment (lockPacket id 1)=.ok true)
    (had : ((advanceSequence byteEnvironment ⟨0,0⟩).exec b.materializer).1=.ok true) :
    ∃ p, LogGrows lockCommit.2.2 p ∧ lockBridge.step b (deliverLock id 1) =
      (⟨p,b.anchor,answered id b.materializer,b.commitments,b.packets,
        b.identities++[lockIdentity]⟩,[lockMessage.canonical]) := by
  obtain ⟨p,hl,hm,hi⟩ := lock_opened hc hr hlog hnet hreg hv
  have hg : b.packets[0]?=some seen := by rw [hp]; rfl
  have hra : b.materializer.admits byteEnvironment (around seen (lockPacket id 1)) =
    .ok true := ha
  have hop := openPacket_eq (around seen (lockPacket id 1)) .null hm rfl
  have hse := exec_eq_ok had
  refine ⟨p,hl,?_⟩
  change step byteEnvironment b (.deliver 0 _ _ _)=_
  rw [answered]
  generalize ((advanceSequence byteEnvironment ⟨0,0⟩).exec b.materializer).2=m at hse
  simp only [step,hg,L2Materializer.materialize,exec_bind,exec_get,exec_call,hra,↓reduceIte,
    Method.first,exec_on,hse,Method.second,hop,exec_modify,exec_pure,hi]
  rfl

end

theorem lockRuns_evaluated :
    (CollisionFree byteEnvironment.canonical (lockBridge.state lockDelivery).identities ∧
      lockBridge.outputs lockDelivery=[lockMessage.canonical]) ∧
    CollisionFree byteEnvironment.canonical (lockBridge.state lockReplay).identities ∧
      lockBridge.outputs lockReplay=[lockMessage.canonical,lockMessage.canonical] := by
  obtain ⟨commitment,cek,seen,hc,hr⟩ := lock_relayed
  have hl := locked_run hc hr
  have hs : lockBridge.state locked=_ := congrArg Prod.fst hl
  have ho : lockBridge.outputs locked=_ := congrArg Prod.snd hl
  have hv : ∀ id, lockView.admits byteEnvironment (lockPacket id 1)=.ok true :=
    fun _ => admits_iff.mpr ⟨rfl,Finset.notMem_empty _,rfl,(by decide : (1 : ℤ)≤2-1)⟩
  have hd := fun id => lock_delivered hc hr (b := lockedBridge (commitment,cek) seen)
    (fun _ _ h => h) rfl rfl rfl rfl (hv id) lockView_advances
  obtain ⟨p,-,hd1⟩ := hd "byte:07"
  obtain ⟨p,hlog,hd2⟩ := hd "x"
  obtain ⟨_,-,hd3⟩ := lock_delivered hc hr (b := ⟨{p with
      network := lockCommit.2.2.network,keyRegistry := lockCommit.2.2.keyRegistry},
      lockCommit.2.1,answered "x" lockView,[(commitment,cek)],[seen],[lockIdentity,lockIdentity]⟩)
    hlog rfl rfl (advanceSequence_keeps _ lockView).verifier rfl
    (by decide +kernel : (answered "x" lockView).admits _ (lockPacket "y" 1)=.ok true)
    (by decide +kernel : ((advanceSequence _ _).exec (answered "x" lockView)).1=.ok true)
  have hx : lockBridge.step (lockBridge.state (locked++[deliverLock "x" 1] ++
      [(.others lockCommit.2.2.network lockCommit.2.2.keyRegistry : LockInput)]))
      (deliverLock "y" 1)=_ := .trans (by rw [state_snoc,state_snoc,hs,hd2]; rfl) hd3
  have hon : ∀ {ids : List Bytes}, (∀ i ∈ ids, i=lockIdentity) →
      CollisionFree byteEnvironment.canonical ids :=
    fun h _ hi _ hj _ => (h _ hi).trans (h _ hj).symm
  refine ⟨⟨hon ?_,?_⟩,hon ?_,?_⟩
  · rw [lockDelivery,state_snoc,hs,hd1]
    simp [lockedBridge]
  · rw [lockDelivery,outputs_snoc,hs,hd1,ho]
    rfl
  · rw [lockReplay,state_snoc,hx]
    simp
  · rw [lockReplay,outputs_snoc,hx,outputs_snoc,outputs_snoc,hs,hd2,ho]
    rfl

theorem lockDelivery_outputs_nodup :
    CollisionFree byteEnvironment.canonical (lockBridge.state lockDelivery).identities ∧
      lockBridge.Meets NamesItsEntity lockDelivery ∧
      lockBridge.outputs lockDelivery=[lockMessage.canonical] ∧
      (lockBridge.outputs lockDelivery).Nodup := by
  obtain ⟨⟨hfree,ho⟩,-⟩ := lockRuns_evaluated
  have hm : lockBridge.Meets NamesItsEntity lockDelivery := by
    refine (lockBridge.meetsFrom_start_iff _ _).mp ⟨trivial,trivial,trivial,?_,trivial⟩
    have hn : ∀ seen ∈ (lockBridge.state locked).packets[0]?, "byte:07" = seen.entityId := by
      decide +kernel
    exact hn
  exact ⟨hfree,hm,ho,outputs_nodup_of_names hfree hm⟩

theorem lockReplay_returned_twice :
    CollisionFree byteEnvironment.canonical (lockBridge.state lockReplay).identities ∧
      lockBridge.outputs lockReplay=[lockMessage.canonical,lockMessage.canonical] ∧
      ¬(lockBridge.outputs lockReplay).Nodup := by
  obtain ⟨-,hfree,ho⟩ := lockRuns_evaluated
  refine ⟨hfree,ho,?_⟩
  rw [ho]
  simp

end

section

variable (env) in
def answerAt (b : Bridge P S K) (seen packet : RelayPacket) (clock : Clock) (now : Json)
    (height : ℤ) : Except PyError (Option BridgeMessage) :=
  ((L2Materializer.materialize env (around seen packet) clock now).exec
    (b.materializer.setL1BlockHeight height,b.protocol)).1

/-- The block the anchor committed the message in has the required confirmations. -/
def Confirmed (b : Bridge P S K) (height : ℤ) (message : BridgeMessage) : Prop :=
  ∀ c ∈ b.commitments, c.1.message.canonical=message →
    b.materializer.requiredConfirmations≤height-c.1.sourceBlock

theorem answerAt_height {b : Bridge P S K} {seen packet : RelayPacket} {clock : Clock} {now : Json}
    {height later : ℤ} {message : BridgeMessage}
    (h : answerAt env b seen packet clock now height=.ok (some message)) (block : ℤ)
    (hl : b.materializer.requiredConfirmations≤later-block) :
    answerAt env b seen {packet with sourceBlock := block} clock now later =
      .ok (some message) := by
  obtain ⟨ha,had,ho⟩ := materialize_some_iff.mp h
  obtain ⟨hc,hu,hv,_⟩ := admits_iff.mp ha
  rw [advanceSequence_height] at had
  refine materialize_some_iff.mpr ⟨?_,?_,ho⟩
  · exact admits_iff.mpr ⟨hc,hu,hv,hl⟩
  · rw [advanceSequence_height]
    exact had

section
variable {b : Bridge P S K} (h : Consistent env b) {seen : RelayPacket} (hseen : seen ∈ b.packets)
  (hfree : CollisionFree env.canonical (b.identities++checkedInputs env b seen))
  {packet : RelayPacket} {clock : Clock} {now : Json} {height : ℤ} {m : BridgeMessage}
  (hanswer : answerAt env b seen packet clock now height=.ok (some m))
include h hseen hfree hanswer

theorem Consistent.of_answerAt :
    (∃ c ∈ b.commitments, seen.sourceBlock=c.1.sourceBlock ∧ m=c.1.message.canonical) ∧
      b.materializer.requiredConfirmations≤height-packet.sourceBlock := by
  have hv : (b.materializer.setL1BlockHeight height).verifierKeypair =
    b.materializer.verifierKeypair := rfl
  obtain ⟨c,hc,_,hb,hm,_,_,hco⟩ :=
    h.answer hseen hfree hv hanswer
  exact ⟨⟨c,hc,hb,hm⟩,hco⟩

theorem Consistent.confirmed_iff : Confirmed b height m ↔
      b.materializer.requiredConfirmations≤height-seen.sourceBlock := by
  obtain ⟨⟨c,hc,hb,hm⟩,_⟩ := h.of_answerAt hseen hfree hanswer
  constructor
  · intro hco
    rw [hb]
    exact hco c hc hm.symm
  · intro hle c' hc' hm'
    rw [← h.eq_of_canonical_eq hc hc' (hm.symm.trans hm'.symm),← hb]
    exact hle

end

variable {protocol : Protocol P S K} {operator verifier : LatticeTransfer.KeyPair P S K}
  {source dest : String} {required : ℤ}

/-- After any run, a packet the materializer answers is answered only with confirmed messages
exactly if it names no block before the one its message was committed in. -/
theorem confirmed_iff_sourceBlock_le {inputs : List (Input P S K)} {i : ℕ} {packet : RelayPacket}
    {clock : Clock} {now : Json}
    (hfree : CollisionFree env.canonical ((machine env protocol operator verifier source dest
      required).state (inputs++[.deliver i packet clock now])).identities)
    {seen : RelayPacket} (hseen : ((machine env protocol operator verifier source dest
      required).state inputs).packets[i]?=some seen)
    (hanswered : ∃ height message, answerAt env ((machine env protocol operator verifier source
      dest required).state inputs) seen packet clock now height=.ok (some message)) :
    (∀ height message, answerAt env ((machine env protocol operator verifier source dest
        required).state inputs) seen packet clock now height=.ok (some message) →
      Confirmed ((machine env protocol operator verifier source dest required).state inputs)
        height message) ↔ seen.sourceBlock≤packet.sourceBlock := by
  have hc : Consistent env ((machine env protocol operator verifier source dest
    required).state inputs) := consistent_run inputs
  rw [state_snoc] at hfree
  generalize (machine env protocol operator verifier source dest required).state inputs=b at *
  simp only [machine,step,hseen] at hfree
  have hm := mem_of_getElem? hseen
  constructor
  · intro ha
    -- the view at which the named block is just confirmed
    obtain ⟨height,message,hanswer⟩ := hanswered
    have hn : b.materializer.requiredConfirmations ≤
        packet.sourceBlock+b.materializer.requiredConfirmations-packet.sourceBlock := by omega
    have hl := answerAt_height hanswer packet.sourceBlock hn
    have hco := (hc.confirmed_iff hm hfree hl).mp (ha _ _ hl)
    omega
  · intro hle height message hanswer
    have hn := (hc.of_answerAt hm hfree hanswer).2
    exact (hc.confirmed_iff hm hfree hanswer).mpr (by omega)

theorem locked_answerAt (block height : ℤ) (hh : 1≤height-block) :
    ∃ seen, (lockBridge.state locked).packets=[seen] ∧
      answerAt byteEnvironment (lockBridge.state locked) seen (lockPacket "byte:07" block) ⟨0,0⟩
        .null height=.ok (some lockMessage.canonical) := by
  obtain ⟨commitment,cek,seen,hc,hr⟩ := lock_relayed
  have hs : lockBridge.state locked=_ := congrArg Prod.fst (locked_run hc hr)
  rw [hs]
  obtain ⟨p,-,hm,-⟩ := lock_opened hc hr (b := lockedBridge (commitment,cek) seen)
    (fun _ _ h => h) rfl rfl rfl
  refine ⟨seen,rfl,materialize_some_iff.mpr ⟨admits_iff.mpr ⟨rfl,?_,rfl,hh⟩,?_,?_⟩⟩
  · exact Finset.notMem_empty _
  · rw [advanceSequence_height]
    exact lockView_advances
  · exact congrArg Prod.fst (openPacket_eq (around seen (lockPacket "byte:07" block)) .null hm rfl)

theorem locked_confirmed_iff : ∃ seen, CollisionFree byteEnvironment.canonical
      (lockBridge.state (locked++[deliverLock "byte:07" 1])).identities ∧
    (lockBridge.state locked).packets[0]?=some seen ∧
    (∃ height message, answerAt byteEnvironment (lockBridge.state locked) seen
      (lockPacket "byte:07" 1) ⟨0,0⟩ .null height=.ok (some message)) ∧
    ((∀ height message, answerAt byteEnvironment (lockBridge.state locked) seen
        (lockPacket "byte:07" 1) ⟨0,0⟩ .null height=.ok (some message) →
      Confirmed (lockBridge.state locked) height message) ↔ seen.sourceBlock≤1) := by
  obtain ⟨seen,hp,hanswer⟩ := locked_answerAt 1 2 (by decide)
  have hseen : (lockBridge.state locked).packets[0]?=some seen := by rw [hp]; rfl
  exact ⟨seen,lockRuns_evaluated.1.1,hseen,⟨2,_,hanswer⟩,
    confirmed_iff_sourceBlock_le lockRuns_evaluated.1.1 hseen ⟨2,_,hanswer⟩⟩

theorem unconfirmed_lock_returned : ∃ seen, (lockBridge.state locked).packets=[seen] ∧
    answerAt byteEnvironment (lockBridge.state locked) seen (lockPacket "byte:07" 0) ⟨0,0⟩
      .null 1=.ok (some lockMessage.canonical) ∧
    ¬Confirmed (lockBridge.state locked) 1 lockMessage.canonical := by
  obtain ⟨seen,hp,hanswer⟩ := locked_answerAt 0 1 (by decide)
  have hu : ∃ c ∈ (lockBridge.state locked).commitments,
      c.1.message.canonical=lockMessage.canonical ∧
        ¬(lockBridge.state locked).materializer.requiredConfirmations≤1-c.1.sourceBlock := by
    decide +kernel
  obtain ⟨c,hc,hm,he⟩ := hu
  exact ⟨seen,hp,hanswer,fun hco => he (hco c hc hm)⟩

end

end Bridge
end LatticeTransfer
