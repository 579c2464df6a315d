import LatticeTransfer.GatewayVM
import LatticeTransfer.TransferProtocol

/-!
# Where the events of the gateway go

Every event of the scanned blocks should be anchored once, wait in the retry queue, have been
dropped after its last attempt, or have been rejected for its own content. `tally` counts how
often an event is in one of these places. The loop over the retry queue keeps every count and the
loop over a batch counts each of its events once, exactly if their calls are answered well.
-/

namespace LatticeTransfer.GatewayVM
open ChallengeManager CommitmentLog JsonText MerkleTree List
open MerkleLog (MLDSA)
open ShardEncryption
open Method (exec_bind exec_bind_ok exec_call exec_call_bind_ok exec_get)

theorem colon_notMem_renderInt (n : ℤ) : ':' ∉ renderInt n := by
  intro hm
  have hc := all_eq_true.mp (all_isNumberChar_renderInt n) _ hm
  exact absurd hc (by decide)

variable {α : Type}

theorem append_separator_inj {c : α} {a a' b b' : List α} (hb : c ∉ b) (hb' : c ∉ b')
    (h : a++c::b=a'++c::b') : a=a' ∧ b=b' := by
  rcases append_eq_append_iff.mp h with ⟨x,rfl,hx⟩|⟨x,rfl,hx⟩
  · cases x with
    | nil => exact ⟨(append_nil a).symm,tail_eq_of_cons_eq hx⟩
    | cons y x =>
      rw [tail_eq_of_cons_eq hx] at hb
      exact absurd (mem_append_right x mem_cons_self) hb
  · cases x with
    | nil => exact ⟨append_nil a',(tail_eq_of_cons_eq hx).symm⟩
    | cons y x =>
      rw [tail_eq_of_cons_eq hx] at hb'
      exact absurd (mem_append_right x mem_cons_self) hb'

theorem encodeText_append (s t : String) : encodeText (s++t)=encodeText s++encodeText t := by
  simp [encodeText]

theorem place_of_keyBytes {event event' : BridgeEvent}
    (hc : event.sourceChainId=event'.sourceChainId)
    (h : event.keyBytes=event'.keyBytes) : event.place=event'.place := by
  rw [BridgeEvent.keyBytes,BridgeEvent.keyBytes,hc,append_assoc,append_assoc,
    append_assoc,append_assoc,append_assoc,append_assoc] at h
  have ht := append_cancel_left (append_cancel_left h)
  rw [← encodeText_append,← encodeText_append,← encodeText_append,← encodeText_append] at ht
  have hch := congrArg String.toList (Entity.encodeText_injective ht)
  simp only [String.toList_append,str,String.toList_ofList] at hch
  obtain ⟨htx,hi⟩ := append_separator_inj (colon_notMem_renderInt _)
    (colon_notMem_renderInt _) hch
  exact Prod.ext (String.toList_injective htx)
    (str_injective (congrArg String.ofList hi))

theorem map_mapIdx {β γ : Type} {f : ℕ → α → β} {k : β → γ} {k' : α → γ}
    (h : ∀ i a, k (f i a)=k' a) (l : List α) : (l.mapIdx f).map k=l.map k' := by
  refine ext_getElem ?_ fun i hi hi' => ?_
  · rw [length_map,length_map,length_mapIdx]
  · rw [getElem_map,getElem_map,getElem_mapIdx,h]

theorem map_fst_mapIdx {β : Type} (l : List α) (answers : ℕ → β) :
    (l.mapIdx fun i a => (a,answers i)).map Prod.fst=l := by
  refine (map_mapIdx ?_ l).trans (map_id l)
  exact fun _ _ => rfl

section
variable {P : SecurityProfile} {S : MLDSA} {K : MLKEM} {T : Type} (g : Gateway P S K T)
  (history : History)

def RawLog.keyInput (log : RawLog) : Bytes :=
  domainExternalEvent++(log.toEvent g.config.sourceChainId 0).keyBytes

def RawLog.eventId (log : RawLog) : String := canonicalHash g.hash (log.keyInput g)

def History.keyInputs : List Bytes := history.logs.map (RawLog.keyInput g)

variable {g history}

theorem History.place_inj {log log' : RawLog} (hl : log ∈ history.logs)
    (hl' : log' ∈ history.logs) (h : log.place=log'.place) : log=log' :=
  inj_on_of_nodup_map history.distinct hl hl' h

theorem History.eventId_inj (hf : CollisionFree g.hash (history.keyInputs g))
    {log log' : RawLog} (hl : log ∈ history.logs) (hl' : log' ∈ history.logs)
    (h : log.eventId g=log'.eventId g) : log=log' := by
  have hi := Entity.canonicalHash_inj g.hash hf (mem_map_of_mem hl)
    (mem_map_of_mem hl') h
  have hk : (log.toEvent g.config.sourceChainId 0).keyBytes =
      (log'.toEvent g.config.sourceChainId 0).keyBytes := append_cancel_left hi
  refine History.place_inj hl hl' (place_of_keyBytes ?_ hk)
  rfl

end

namespace Service
variable {P : SecurityProfile} {S : MLDSA} {K : MLKEM} {T : Type} (g : Gateway P S K T)

/-- How often the event of a place is anchored, waits, was dropped or rejected for its content. -/
def tally (s : Service T) (p : String × ℤ) : ℕ :=
  (s.anchored.map BridgeEvent.place).count p +
    (s.retryQueue.map fun entry => entry.event.place).count p +
    (s.dropped.map BridgeEvent.place).count p +
    ((s.rejected.filter fun x => x.2.ofContent).map fun x => x.1.place).count p

def Known (s : Service T) (id : String) : Prop :=
  ReplayDB.isProcessed s.replayDb id=true ∨
    ∃ entry ∈ s.retryQueue, id=entry.event.eventId g.hash

variable {s s' : Service T}

variable {g} in
theorem Known.of_queue {id : String} (hdb : ReplayDB.isProcessed s'.replayDb id=true → Known g s id)
    (hq : ∀ entry ∈ s'.retryQueue, ∃ waiting ∈ s.retryQueue, waiting.event=entry.event)
    (h : Known g s' id) : Known g s id := by
  rcases h with hp|⟨entry,he,heq⟩
  · exact hdb hp
  · obtain ⟨waiting,hw,hev⟩ := hq entry he
    exact .inr ⟨waiting,hw,by rw [heq,hev]⟩

def queued (s : Service T) : List String := s.retryQueue.map fun entry => entry.event.eventId g.hash

/-- Between the two states nothing but the events became known or got a window. -/
structure Touches (events : List BridgeEvent) (s s' : Service T) : Prop where
  cursor : s'.cursor=s.cursor
  known : ∀ id, Known g s' id → Known g s id ∨ ∃ event ∈ events, id=event.eventId g.hash
  queue : (s.queued g).Nodup → (∀ event ∈ events, ¬Known g s (event.eventId g.hash)) →
    (events.map (BridgeEvent.eventId g.hash)).Nodup → (s'.queued g).Nodup
  windows : ∀ id, ¬Known g s id → (∀ event ∈ events, id≠event.eventId g.hash) →
    s'.windows.get? id=s.windows.get? id

variable {g}

theorem Touches.refl (s : Service T) : Touches g [] s s :=
  ⟨rfl,fun _ => .inl,fun h _ _ => h,fun _ _ _ => rfl⟩

theorem Touches.trans {events events' : List BridgeEvent} {s'' : Service T}
    (h : Touches g events s s') (h' : Touches g events' s' s'') :
    Touches g (events++events') s s'' where
  cursor := h'.cursor.trans h.cursor
  known id hid := by
    rcases h'.known id hid with hk|⟨event,he,heq⟩
    · rcases h.known id hk with hk|⟨event,he,heq⟩
      · exact .inl hk
      · exact .inr ⟨event,mem_append_left _ he,heq⟩
    · exact .inr ⟨event,mem_append_right _ he,heq⟩
  queue hq hn hd := by
    rw [map_append] at hd
    obtain ⟨hd1,hd2,hne⟩ := nodup_append.mp hd
    refine h'.queue (h.queue hq (fun e he => hn e (mem_append_left _ he)) hd1) ?_ hd2
    intro event he hk
    rcases h.known _ hk with hb|⟨first,hf,heq⟩
    · exact hn event (mem_append_right _ he) hb
    · exact hne _ (mem_map_of_mem hf) _ (mem_map_of_mem he) heq.symm
  windows id hk hne := by
    have hk' : ¬Known g s' id := fun hk' => (h.known id hk').elim hk fun ⟨e,he,heq⟩ =>
      hne e (mem_append_left _ he) heq
    rw [h'.windows id hk' fun e he => hne e (mem_append_right _ he),
      h.windows id hk fun e he => hne e (mem_append_left _ he)]

theorem Touches.append {events : List BridgeEvent} (h : Touches g events s s')
    (more : List BridgeEvent) : Touches g (events++more) s s' where
  cursor := h.cursor
  known id hid := (h.known id hid).imp_right fun ⟨e,he,heq⟩ => ⟨e,mem_append_left _ he,heq⟩
  queue hq hn hd := h.queue hq (fun e he => hn e (mem_append_left _ he))
    (hd.sublist ((sublist_append_left _ _).map _))
  windows id hk hne := h.windows id hk fun e he => hne e (mem_append_left _ he)

variable (g) in
def Anchored (s : Service T) (event : BridgeEvent) (s' : Service T) : Prop :=
  ∃ db windows, s'={s with
      anchored := s.anchored++[event],replayDb := db,windows := windows} ∧
    (∀ id, ReplayDB.isProcessed db id=true →
      ReplayDB.isProcessed s.replayDb id=true ∨ id=event.eventId g.hash) ∧
    ∀ id≠event.eventId g.hash, windows.get? id=s.windows.get? id

theorem Anchored.touches {event : BridgeEvent} (h : s.Anchored g event s') :
    Touches g [event] s s' := by
  obtain ⟨db,windows,rfl,hdb,hw⟩ := h
  refine ⟨rfl,fun id hid => ?_,fun hq _ _ => hq,fun id _ hne => hw id (hne _ mem_cons_self)⟩
  rcases hid with hp|hq
  · rcases hdb id hp with hb|heq
    · exact .inl (.inl hb)
    · exact .inr ⟨event,mem_cons_self,heq⟩
  · exact .inl (.inr hq)

theorem touches_queued (anchors : List BridgeEvent) (attestation : GatewayAttestation)
    (event : BridgeEvent) (s : Service T) : Touches g [event] s {s with
      anchored := s.anchored++anchors
      retryQueue := s.retryQueue++[⟨attestation,event,1⟩]} := by
  refine ⟨rfl,fun id hid => ?_,fun hq hn _ => ?_,fun _ _ _ => rfl⟩
  · rcases hid with hp|⟨waiting,hw,heq⟩
    · exact .inl (.inl hp)
    · rcases mem_append.mp hw with hb|ha
      · exact .inl (.inr ⟨waiting,hb,heq⟩)
      · rw [mem_singleton.mp ha] at heq
        exact .inr ⟨event,mem_cons_self,heq⟩
  · rw [queued,map_append]
    refine nodup_append.mpr ⟨hq,nodup_singleton _,fun id hid other ho heq => ?_⟩
    obtain ⟨waiting,hw,hid⟩ := mem_map.mp hid
    rw [map_singleton,mem_singleton] at ho
    exact hn event mem_cons_self (.inr ⟨waiting,hw,(hid.trans (heq.trans ho)).symm⟩)

theorem tally_reject (event : BridgeEvent) (rejection : Rejection) (s : Service T)
    (p : String × ℤ) :
    tally {s with rejected := s.rejected++[(event,rejection)]} p =
      s.tally p+(if rejection.ofContent then 1 else 0)*[event.place].count p := by
  cases hr : rejection.ofContent <;>
    simp [tally,filter_append,hr,Nat.add_assoc]

theorem Anchored.tally {event : BridgeEvent} (h : s.Anchored g event s') (p : String × ℤ) :
    s'.tally p=s.tally p+[event.place].count p := by
  obtain ⟨db,windows,rfl,-⟩ := h
  simp only [Service.tally,map_append,count_append,map_cons,map_nil]
  omega

end Service

def BridgeEvent.Packable (event : BridgeEvent) : Prop :=
  (0≤event.sourceChainId ∧ event.sourceChainId<256^8) ∧
    (0≤event.blockNumber ∧ event.blockNumber<256^8) ∧
    (0≤event.logIndex ∧ event.logIndex<256^4) ∧
    (0≤event.amount ∧ event.amount<256^8) ∧ (0≤event.nonce ∧ event.nonce<256^8)

namespace Gateway
variable {P : SecurityProfile} {S : MLDSA} {K : MLKEM} {T : Type}

section
variable (g : Gateway P S K T) (windows : Windows T)

/-- What follows an anchoring succeeds: the database takes the entry and a window can be opened. -/
def Follows (answers : Answers T) (id : String) (digestLength : ℕ) : Prop :=
  answers.replayWrite.isOk=true ∧ (g.optimistic=true → answers.clock.isOk=true ∧
    32≤digestLength ∧ ((windows.get? id).any fun record =>
      record.status=.open ∨ record.status=.challenged)=false)

/-- The anchor call does not raise after its effect. What follows an anchoring may fail only if
no event of the batch is left. -/
def Anchors (answers : Answers T) (id : String) (digestLength : ℕ) (last : Bool) : Prop :=
  match answers.anchor with
  | .failed _ => True
  | .failedAnchored _ => False
  | .anchored _ => last=true ∨ g.Follows windows answers id digestLength

def Retries (entry : Retry × Answers T) : Prop :=
  g.config.maxRetries≤entry.1.attempts ∨
    g.Anchors windows entry.2 (entry.1.event.eventId g.hash) entry.1.attestation.digest.length false

def Passes (answers : Answers T) (event : BridgeEvent) : Prop :=
  (answers.blockNumber.toOption.any fun head =>
      g.config.finalityDepth≤head-event.blockNumber)=true ∧
    answers.replayRead.isOk=true ∧ answers.signerAuthorized.toOption=some true

def Attestable (entropy : Bytes) (event : BridgeEvent) : Prop :=
  event.Packable ∧ ∀ bytes ∈ event.toSignableBytes.toOption,
    (domainSign domainGatewayAttest g.keypair entropy bytes).isOk=true

/-- The event is rejected for its content, or it can be attested and is anchored or put into the
queue. -/
def Attests (entry : BridgeEvent × Answers T) (last : Bool) : Prop :=
  (g.checkOrigin entry.1).isSome=true ∨ g.Passes entry.2 entry.1 ∧
    ((checkPayload entry.1).isSome=true ∨ g.Attestable entry.2.entropy entry.1 ∧
      g.Anchors windows entry.2 (entry.1.eventId g.hash) g.hash.size last)

def AttestsAll : List (BridgeEvent × Answers T) → Prop
  | [] => True
  | entry::rest => g.Attests windows entry rest.isEmpty ∧ AttestsAll rest

variable {g windows} {windows' : Windows T}

theorem anchors_congr {answers : Answers T} {id : String} {digestLength : ℕ} {last : Bool}
    (hw : windows'.get? id=windows.get? id) : g.Anchors windows' answers id digestLength last ↔
      g.Anchors windows answers id digestLength last := by simp only [Anchors,Follows,hw]

theorem attestsAll_congr {es : List (BridgeEvent × Answers T)} (hw : ∀ event ∈ es.map Prod.fst,
      windows'.get? (event.eventId g.hash)=windows.get? (event.eventId g.hash)) :
    g.AttestsAll windows' es ↔ g.AttestsAll windows es := by
  induction es with
  | nil => rfl
  | cons entry rest ih =>
    obtain ⟨he,hr⟩ := forall_mem_cons.mp hw
    rw [AttestsAll,AttestsAll,ih hr,Attests,Attests,anchors_congr he]

end

variable {g : Gateway P S K T} {s s' : Service T}

open Service

theorem isProcessed_markProcessed (db : ReplayDB) (id txHash : String) (block : ℤ) (other : String)
    (h : ReplayDB.isProcessed (ReplayDB.markProcessed db id txHash block) other=true) :
    ReplayDB.isProcessed db other=true ∨ other=id := by
  rw [ReplayDB.markProcessed] at h
  split_ifs at h
  · exact .inl h
  · rw [ReplayDB.isProcessed,Dict.get?_set] at h
    split_ifs at h with heq
    · exact .inr heq.symm
    · exact .inl h

variable {event : BridgeEvent} {rejection : Rejection}

theorem ofContent_checkOrigin (h : g.checkOrigin event=some rejection) :
    rejection.ofContent=true := by
  rw [checkOrigin] at h
  split_ifs at h <;> exact Option.some.inj h ▸ rfl

theorem ofContent_checkPayload (h : checkPayload event=some rejection) :
    rejection.ofContent=true := by
  rw [checkPayload] at h
  split_ifs at h <;> exact Option.some.inj h ▸ rfl

theorem packUnsigned_eq (w : ℕ) (n : ℤ) : packUnsigned w n =
    if 0≤n ∧ n<256^w then .ok (PyValue.toBigEndian w n.toNat) else .error .structError := by
  rcases lt_or_ge n 0 with h|h
  · rw [packUnsigned,if_pos h,if_neg fun hr => absurd hr.1 h.not_ge]
  · have hn : n.toNat<256^w ↔ n<256^w := by
      zify
      rw [Int.toNat_of_nonneg h]
    simp only [packUnsigned,PyValue.pack,if_neg h.not_gt,hn,h,true_and]

theorem toSignableBytes_isOk_iff : event.toSignableBytes.isOk=true ↔ event.Packable := by
  simp only [BridgeEvent.toSignableBytes,packUnsigned_eq,BridgeEvent.Packable]
  split_ifs <;> simp_all [bind,Except.bind,pure,Except.pure,Except.isOk,Except.toBool]

theorem createAttestation_cases (g : Gateway P S K T) (event : BridgeEvent) (entropy : Bytes) :
    (g.Attestable entropy event ∧ ∃ attestation, g.createAttestation entropy event=.ok attestation ∧
        attestation.digest.length=g.hash.size) ∨
    ¬g.Attestable entropy event ∧ ∃ e, g.createAttestation entropy event=.error e := by
  rw [Attestable,← toSignableBytes_isOk_iff,createAttestation]
  cases event.toSignableBytes with
  | error e => exact .inr ⟨fun h => absurd h.1 Bool.false_ne_true,e,rfl⟩
  | ok bytes =>
    simp only [bind,Except.bind]
    cases hs : domainSign domainGatewayAttest g.keypair entropy bytes with
    | error e =>
      refine .inr ⟨fun h => ?_,e,rfl⟩
      have hok := h.2 bytes rfl
      rw [hs] at hok
      cases hok
    | ok signature =>
      refine .inl ⟨⟨rfl,?_⟩,_,rfl,g.hash.length_run _⟩
      rintro _ ⟨⟩
      rw [hs]
      rfl

theorem validate_cases (answers : Answers T) {db : ReplayDB}
    (hn : ¬ReplayDB.isProcessed db (event.eventId g.hash)=true) :
    (∃ rejection, g.checkOrigin event=some rejection ∧
      g.validate answers db event=.ok (some rejection)) ∨
    g.checkOrigin event=none ∧ (g.Passes answers event ∧
        g.validate answers db event=.ok (checkPayload event) ∨
      ¬g.Passes answers event ∧ ∀ outcome, g.validate answers db event=.ok outcome →
        ∃ rejection, outcome=some rejection ∧ rejection.ofContent=false) := by
  rw [validate]
  cases g.checkOrigin event with
  | some rejection => exact .inl ⟨rejection,rfl,rfl⟩
  | none =>
    refine .inr ⟨rfl,?_⟩
    obtain ⟨blockNumber,replayRead,signerAuthorized,_,_,_,_⟩ := answers
    rcases blockNumber with e|head
    · exact .inr ⟨fun h => absurd h.1 Bool.false_ne_true,nofun⟩
    by_cases hd : g.config.finalityDepth≤head-event.blockNumber
    swap
    · refine .inr ⟨fun h => hd (of_decide_eq_true h.1),fun outcome h => ?_⟩
      simp only [bind,Except.bind,finalityCheck,hd,decide_false,Bool.not_false,if_true] at h
      split_ifs at h <;> exact ⟨_,(Except.ok.inj h).symm,rfl⟩
    simp only [bind,Except.bind,finalityCheck,hd,decide_true,Bool.not_true,Bool.false_eq_true,
      if_false,hn]
    rcases replayRead with e|_
    · exact .inr ⟨fun h => absurd h.2.1 Bool.false_ne_true,nofun⟩
    rcases signerAuthorized with e|(_|_)
    · exact .inr ⟨fun h => absurd h.2.2 nofun,nofun⟩
    · exact .inr ⟨fun h => absurd h.2.2 nofun,fun _ h => ⟨_,(Except.ok.inj h).symm,rfl⟩⟩
    · exact .inl ⟨⟨decide_eq_true hd,rfl,rfl⟩,rfl⟩

variable [Add T] [Zero T]

variable {result : GatewayVMTickResult} {answers : Answers T} {attestation : GatewayAttestation}

theorem openWindow_frame (clock : Except PyError T) (id : String) (digest : Bytes)
    (windows : Windows T) (other : String) (h : other≠id) :
    ((g.openWindow clock id digest).exec windows).2.get? other=windows.get? other := by
  have hf : ∀ now, ((openChallengeWindow g.config.challengePeriodSeconds now id digest).exec
      windows).2.get? other=windows.get? other := by
    intro now
    rcases openChallengeWindow_exec id now windows g.config.challengePeriodSeconds digest with
      he|⟨_,-,hw⟩
    · rw [he]
    · rw [hw,if_neg h.symm]
  unfold openWindow
  split
  · exact hf _
  · split_ifs
    · rfl
    · exact hf _

theorem openWindow_isOk_iff (clock : Except PyError T) (id : String) (digest : Bytes)
    (windows : Windows T) :
    ((g.openWindow clock id digest).exec windows).1.isOk=true ↔ clock.isOk=true ∧
      digest.length=32 ∧ ((windows.get? id).any fun record =>
        record.status=.open ∨ record.status=.challenged)=false := by
  cases clock with
  | error e =>
    refine iff_of_false ?_ fun h => absurd h.1 Bool.false_ne_true
    rw [openWindow]
    split_ifs with hl
    · exact Bool.false_ne_true
    · rw [openChallengeWindow,if_pos hl]
      exact Bool.false_ne_true
  | ok now =>
    rw [openWindow,openChallengeWindow]
    dsimp only
    split_ifs with hl
    · exact iff_of_false Bool.false_ne_true fun h => hl h.2.1
    · rw [exec_bind,exec_get]
      dsimp only
      split_ifs with ha
      · exact iff_of_false Bool.false_ne_true fun h => Bool.false_ne_true (h.2.2.symm.trans ha)
      · exact iff_of_true rfl ⟨rfl,not_not.mp hl,Bool.eq_false_iff.mpr ha⟩

theorem openEventWindow_exec (ho : g.optimistic=true) (clock : Except PyError T)
    (attestation : GatewayAttestation) (event : BridgeEvent) (s : Service T) :
    let out := (g.openWindow clock (event.eventId g.hash) (attestation.digest.take 32)).exec
      s.windows
    (g.openEventWindow clock attestation event).exec s =
      (out.1.map fun _ => (),{s with windows := out.2}) := by
  rw [openEventWindow,if_pos ho]
  refine Prod.ext ?_ (Method.exec_discard _ s)
  change ((onWindows _ >>= fun _ => pure ()).exec s).1=_
  rw [exec_bind,onWindows,Method.exec_on]
  dsimp only
  cases ((g.openWindow clock (event.eventId g.hash) (attestation.digest.take 32)).exec s.windows).1
  all_goals rfl

theorem tryAnchor_written {txHash : String} (ha : answers.anchor=.anchored txHash)
    (hw : answers.replayWrite=.ok ()) (attestation : GatewayAttestation) (event : BridgeEvent)
    (fromRetry : Bool) (result : GatewayVMTickResult) (s : Service T) :
    (g.tryAnchor answers attestation event fromRetry result).exec s =
      (g.openEventWindow answers.clock attestation event >>= fun _ =>
        pure (true,result)).exec {s with
          anchored := s.anchored++[event]
          replayDb := ReplayDB.markProcessed s.replayDb (event.eventId g.hash) event.txHash
            event.blockNumber} := by
  rw [tryAnchor,ha]
  dsimp only
  rw [hw]
  rfl

theorem tryAnchor_anchored {txHash : String} (ha : answers.anchor=.anchored txHash)
    (attestation : GatewayAttestation) (event : BridgeEvent) (fromRetry : Bool)
    (result : GatewayVMTickResult) (s : Service T) :
    let out := (g.tryAnchor answers attestation event fromRetry result).exec s
    let Good := g.Follows s.windows answers (event.eventId g.hash) attestation.digest.length
    ∃ s1, s.Anchored g event s1 ∧
      (out=(.ok (true,result),s1) ∧ Good ∨ ∃ e, out=(.error e,s1) ∧ ¬Good) := by
  dsimp only [Follows]
  cases hwr : answers.replayWrite with
  | error e =>
    have hx : (g.tryAnchor answers attestation event fromRetry result).exec s =
        (.error e,{s with anchored := s.anchored++[event]}) := by
      simp only [tryAnchor,ha,hwr]
      rfl
    refine ⟨_,⟨_,_,rfl,fun _ => .inl,fun _ _ => rfl⟩,.inr ⟨e,hx,?_⟩⟩
    exact fun h => absurd h.1 Bool.false_ne_true
  | ok _ =>
    have hdb := isProcessed_markProcessed s.replayDb (event.eventId g.hash) event.txHash
      event.blockNumber
    rw [tryAnchor_written ha hwr]
    by_cases ho : g.optimistic=true
    · have hf := openWindow_frame (g := g) answers.clock (event.eventId g.hash)
        (attestation.digest.take 32) s.windows
      have hi := openWindow_isOk_iff (g := g) answers.clock (event.eventId g.hash)
        (attestation.digest.take 32) s.windows
      have hl : (attestation.digest.take 32).length=32 ↔ 32≤attestation.digest.length := by
        rw [length_take]
        omega
      rw [hl] at hi
      rw [exec_bind,openEventWindow_exec ho]
      generalize (g.openWindow answers.clock (event.eventId g.hash)
        (attestation.digest.take 32)).exec s.windows=opened at hf hi
      obtain ⟨e|_,windows⟩ := opened
      · refine ⟨_,⟨_,windows,rfl,hdb,hf⟩,.inr ⟨e,rfl,fun h => ?_⟩⟩
        exact absurd (hi.mpr (h.2 ho)) Bool.false_ne_true
      · exact ⟨_,⟨_,windows,rfl,hdb,hf⟩,.inl ⟨rfl,rfl,fun _ => hi.mp rfl⟩⟩
    · rw [openEventWindow,if_neg ho]
      exact ⟨_,⟨_,_,rfl,hdb,fun _ _ => rfl⟩,.inl ⟨rfl,rfl,fun h => absurd h ho⟩⟩

theorem tryAnchor_cases (answers : Answers T) (attestation : GatewayAttestation)
    (event : BridgeEvent) (fromRetry : Bool) (result : GatewayVMTickResult) (s : Service T) :
    let out := (g.tryAnchor answers attestation event fromRetry result).exec s
    let Good := g.Anchors s.windows answers (event.eventId g.hash) attestation.digest.length
    (∃ anchors, (anchors=[] ∧ (∀ last, Good last) ∨ anchors=[event] ∧ ∀ last, ¬Good last) ∧
      out=(.ok (false,{result with anchorFailures := result.anchorFailures+1}),{s with
        anchored := s.anchored++anchors
        retryQueue := if fromRetry then s.retryQueue else
          s.retryQueue++[⟨attestation,event,1⟩]})) ∨
    ∃ s1, s.Anchored g event s1 ∧ (out=(.ok (true,result),s1) ∧ (∀ last, Good last) ∨
      ∃ e, out=(.error e,s1) ∧ ∀ last, Good last ↔ last=true) := by
  dsimp only [Anchors]
  cases ha : answers.anchor with
  | failed e =>
    refine .inl ⟨[],.inl ⟨rfl,fun _ => trivial⟩,?_⟩
    rw [tryAnchor,ha,append_nil]
    cases fromRetry <;> rfl
  | failedAnchored e =>
    refine .inl ⟨[event],.inr ⟨rfl,fun _ => id⟩,?_⟩
    rw [tryAnchor,ha]
    cases fromRetry <;> rfl
  | anchored txHash =>
    obtain ⟨s1,hs,hout⟩ := tryAnchor_anchored ha attestation event fromRetry result s
    refine .inr ⟨s1,hs,?_⟩
    rcases hout with ⟨hok,hg⟩|⟨e,hne,hg⟩
    · exact .inl ⟨hok,fun _ => .inr hg⟩
    · exact .inr ⟨e,hne,fun _ => or_iff_left hg⟩

def RetryPass.view (pass : RetryPass) (rest : List Retry) (s : Service T) : Service T :=
  {s with
    retryQueue := pass.remaining++rest
    dropped := s.dropped++pass.dropped}

theorem retryOne_spec (pass : RetryPass) (entry : Retry × Answers T) (rest : List Retry)
    (s : Service T) :
    let out := (g.retryOne pass entry).exec s
    let view := pass.view (entry.1::rest) s
    (∀ id≠entry.1.event.eventId g.hash, out.2.windows.get? id=s.windows.get? id) ∧
    ((∃ pass' n, out.1=.ok pass' ∧ Touches g [] view (pass'.view rest out.2) ∧
        (∀ p, (pass'.view rest out.2).tally p=view.tally p+n*[entry.1.event.place].count p) ∧
        (∀ p, view.tally p ≤ s.tally p → (pass'.view rest out.2).tally p≤out.2.tally p) ∧
        (g.Retries s.windows entry ↔ n=0)) ∨
      ∃ e, out.1=.error e ∧ ¬g.Retries s.windows entry ∧
        ∀ p, out.2.tally p=s.tally p+[entry.1.event.place].count p) := by
  obtain ⟨entry,answers⟩ := entry
  have hf : pass.remaining++rest ⊆ pass.remaining++entry::rest :=
    ((sublist_cons_self entry rest).append_left pass.remaining).subset
  have he : entry ∈ pass.remaining++entry::rest := mem_append_right _ mem_cons_self
  dsimp only
  by_cases hm : g.config.maxRetries≤entry.attempts
  · rw [retryOne,if_pos hm,Method.exec_pure]
    refine ⟨fun _ _ => rfl,.inl ⟨_,0,rfl,⟨rfl,?_,?_,fun _ _ _ => rfl⟩,?_,?_,?_⟩⟩
    · exact fun id => .inl ∘ Known.of_queue .inl fun other ho => ⟨other,hf ho,rfl⟩
    · exact fun hq _ _ => hq.sublist (((sublist_cons_self entry rest).append_left _).map _)
    · intro p
      simp only [tally,RetryPass.view,map_append,count_append,map_cons,map_nil,count_cons,count_nil]
      omega
    · intro p hp
      simp only [tally,RetryPass.view,map_append,count_append,map_cons,map_nil,count_cons,
        count_nil] at hp ⊢
      omega
    · exact iff_of_true (.inl hm) rfl
  have hr : ∀ {n : ℕ}, (g.Anchors s.windows answers (entry.event.eventId g.hash)
      entry.attestation.digest.length false ↔ n=0) →
      (g.Retries s.windows (entry,answers) ↔ n=0) := (or_iff_right hm).trans
  rw [retryOne,if_neg hm,exec_bind]
  rcases tryAnchor_cases answers entry.attestation entry.event true
    {pass.result with retriesAttempted := pass.result.retriesAttempted+1} s with
    ⟨anchors,ha,hx⟩ | ⟨_,⟨db,windows,rfl,hdb,hw⟩,⟨hx,hg⟩ | ⟨e,hx,hg⟩⟩
  · rw [hx]
    refine ⟨fun _ _ => rfl,.inl ⟨{pass with
      remaining := pass.remaining++[{entry with attempts := entry.attempts+1}]
      result := _},anchors.length,rfl,⟨rfl,?_,?_,fun _ _ _ => rfl⟩,?_,?_,hr ?_⟩⟩
    · refine fun id => .inl ∘ Known.of_queue .inl fun other ho => ?_
      rw [RetryPass.view,append_assoc,singleton_append] at ho
      rcases mem_append.mp ho with hre|hres
      · exact ⟨other,mem_append_left _ hre,rfl⟩
      · rcases mem_cons.mp hres with rfl|hres
        · exact ⟨entry,he,rfl⟩
        · exact ⟨other,hf (mem_append_right _ hres),rfl⟩
    · intro hq _ _
      simpa [queued,RetryPass.view] using hq
    · intro p
      rcases ha with ⟨rfl,-⟩|⟨rfl,-⟩ <;>
        simp only [tally,RetryPass.view,map_append,count_append,map_cons,map_nil,count_cons,
          count_nil,length_nil,length_cons,Method.exec_pure] <;> omega
    · intro p hp
      rcases ha with ⟨rfl,-⟩|⟨rfl,-⟩ <;>
        simp only [tally,RetryPass.view,map_append,count_append,map_cons,map_nil,count_cons,
          count_nil,Method.exec_pure,if_true] at hp ⊢ <;> omega
    · rcases ha with ⟨rfl,hg⟩|⟨rfl,hg⟩
      · exact iff_of_true (hg false) rfl
      · exact iff_of_false (hg false) (by simp)
  · rw [hx]
    refine ⟨hw,.inl ⟨{pass with result := _},0,rfl,⟨rfl,?_,?_,?_⟩,?_,?_,
      hr (iff_of_true (hg false) rfl)⟩⟩
    · refine fun id => .inl ∘ Known.of_queue (fun hid => ?_) fun other ho => ⟨other,hf ho,rfl⟩
      rcases hdb id hid with hb|heq
      · exact .inl hb
      · exact .inr ⟨entry,he,heq⟩
    · exact fun hq _ _ => hq.sublist (((sublist_cons_self entry rest).append_left _).map _)
    · exact fun id hk _ => hw id fun heq => hk (.inr ⟨entry,he,heq⟩)
    · intro p
      simp only [tally,RetryPass.view,map_append,count_append,map_cons,map_nil,count_cons,count_nil,
        Method.exec_pure]
      omega
    · intro p hp
      simp only [tally,RetryPass.view,map_append,count_append,map_cons,map_nil,count_cons,
        count_nil,Method.exec_pure] at hp ⊢
      omega
  · rw [hx]
    refine ⟨hw,.inr ⟨e,rfl,fun h => ?_,fun p => ?_⟩⟩
    · exact absurd ((hg false).mp (h.resolve_left hm)) Bool.false_ne_true
    · exact Anchored.tally ⟨db,windows,rfl,hdb,hw⟩ p

variable (g) in
def RetriesAll (windows : Windows T) (es : List (Retry × Answers T)) : Prop :=
  ∀ entry ∈ es, g.Retries windows entry

/-- The loop keeps every count exactly if each attempt goes well. If it raises, an event of the
queue is counted once more. -/
theorem retryLoop_spec (es : List (Retry × Answers T))
    (hd : (es.map fun entry => entry.1.event.eventId g.hash).Nodup) (pass : RetryPass)
    (s : Service T) (hle : ∀ p, (pass.view (es.map Prod.fst) s).tally p ≤ s.tally p) :
    let out := (es.foldlM g.retryOne pass).exec s
    let view := pass.view (es.map Prod.fst) s
    (∃ pass', out.1=.ok pass' ∧ Touches g [] view (pass'.view [] out.2) ∧
        (∀ p, view.tally p≤(pass'.view [] out.2).tally p ∧
          (view.tally p=0 → (pass'.view [] out.2).tally p=0)) ∧
        (g.RetriesAll s.windows es ↔ ∀ p, (pass'.view [] out.2).tally p=view.tally p)) ∨
      ∃ e, out.1=.error e ∧ ¬g.RetriesAll s.windows es ∧
        ∃ p, view.tally p≠0 ∧ view.tally p<out.2.tally p := by
  induction es generalizing pass s with
  | nil =>
    exact .inl ⟨pass,rfl,Touches.refl _,fun _ => ⟨le_rfl,id⟩,
      iff_of_true (forall_mem_nil _) fun _ => rfl⟩
  | cons entry es ih =>
    obtain ⟨hh,ht⟩ := nodup_cons.mp hd
    have hone := retryOne_spec pass entry (es.map Prod.fst) s (g := g)
    have hpos : (pass.view (entry.1::es.map Prod.fst) s).tally entry.1.event.place≠0 := by
      simp [tally,RetryPass.view]
    rw [map_cons] at hle ⊢
    rw [foldlM_cons,exec_bind]
    generalize (g.retryOne pass entry).exec s=out1 at hone
    obtain ⟨_,s1⟩ := out1
    obtain ⟨hw,⟨pass1,n,rfl,hto,hta,hbe,hre⟩|⟨e,rfl,hre,hta⟩⟩ := hone
    · have hall : g.RetriesAll s1.windows es ↔ g.RetriesAll s.windows es := by
        refine forall₂_congr fun other ho => or_congr_right (anchors_congr (hw _ ?_))
        exact fun heq => hh (mem_map.mpr ⟨other,ho,heq⟩)
      have hz : ∀ p, (pass.view (entry.1::es.map Prod.fst) s).tally p=0 →
          [entry.1.event.place].count p=0 := by
        intro p hp
        refine count_eq_zero.mpr fun hm => hpos ?_
        rwa [mem_singleton.mp hm] at hp
      rcases ih ht pass1 s1 fun p => hbe p (hle p) with
        ⟨pass',hok,hto',hta',hre'⟩ | ⟨e,he,hre',p,hp,hlt⟩
      · refine .inl ⟨pass',hok,hto.trans hto',fun p => ⟨?_,fun hp => (hta' p).2 ?_⟩,?_⟩
        · exact (hta p ▸ Nat.le_add_right _ _).trans (hta' p).1
        · rw [hta,hp,hz p hp,Nat.mul_zero]
        · rw [RetriesAll,forall_mem_cons,hre]
          rw [hall] at hre'
          constructor
          · rintro ⟨rfl,h⟩ p
            rw [hre'.mp h,hta,Nat.zero_mul,Nat.add_zero]
          · intro h
            have hn : ∀ p, n*[entry.1.event.place].count p=0 := by
              intro p
              have hle' := (hta' p).1
              rw [hta,h] at hle'
              omega
            refine ⟨?_,hre'.mpr fun p => ?_⟩
            · have := hn entry.1.event.place
              simpa using this
            · rw [h,hta,hn,Nat.add_zero]
      · refine .inr ⟨e,he,fun h => hre' (hall.mpr fun other ho => h other (mem_cons_of_mem _ ho)),
          p,fun h0 => hp ?_,?_⟩
        · rw [hta,h0,hz p h0,Nat.mul_zero]
        · exact (hta p ▸ Nat.le_add_right _ _).trans_lt hlt
    · refine .inr ⟨e,rfl,fun h => hre (h _ mem_cons_self),entry.1.event.place,hpos,?_⟩
      have := hle entry.1.event.place
      rw [hta]
      simp only [count_singleton_self]
      omega

theorem processRetries_spec (hq : (s.queued g).Nodup) (answers : TickAnswers T)
    (result : GatewayVMTickResult) :
    let out := (g.processRetries answers result).exec s
    let good := g.RetriesAll s.windows
      (s.retryQueue.mapIdx fun i entry => (entry,answers.retries i))
    (∃ result', out.1=.ok result' ∧ Touches g [] s out.2 ∧
        (∀ p, s.tally p≤out.2.tally p ∧ (s.tally p=0 → out.2.tally p=0)) ∧
        (good ↔ ∀ p, out.2.tally p=s.tally p)) ∨
      ∃ e, out.1=.error e ∧ ¬good ∧ ∃ p, s.tally p≠0 ∧ s.tally p<out.2.tally p := by
  have hv : RetryPass.view ⟨[],[],result⟩ s.retryQueue s=s := by
    rw [RetryPass.view,append_nil,nil_append]
  have hl := retryLoop_spec (g := g) (s.retryQueue.mapIdx fun i entry =>
    (entry,answers.retries i)) ?_ ⟨[],[],result⟩ s
  · rw [map_fst_mapIdx,hv] at hl
    rw [processRetries,exec_bind,exec_get]
    dsimp only
    rw [exec_bind]
    generalize ((s.retryQueue.mapIdx fun i entry => (entry,answers.retries i)).foldlM g.retryOne
      ⟨[],[],result⟩).exec s=out at hl
    obtain ⟨_,s1⟩ := out
    rcases hl fun _ => le_rfl with ⟨pass,rfl,h⟩|⟨e,rfl,h⟩
    · simp only [RetryPass.view,append_nil] at h
      exact .inl ⟨_,rfl,h⟩
    · exact .inr ⟨e,rfl,h⟩
  · refine (congrArg Nodup (map_mapIdx ?_ _)).mpr hq
    exact fun _ _ => rfl

theorem handleEvent_spec (result : GatewayVMTickResult) {entry : BridgeEvent × Answers T}
    (hn : ¬Known g s (entry.1.eventId g.hash)) :
    let out := (g.handleEvent result entry).exec s
    Touches g [entry.1] s out.2 ∧ ∃ n,
      (∀ p, out.2.tally p=s.tally p+n*[entry.1.place].count p) ∧
      ∀ last, g.Attests s.windows entry last ↔ n=1 ∧ (last=true ∨ out.1.isOk=true) := by
  obtain ⟨event,answers⟩ := entry
  have hnone : Touches g [event] s s := (Touches.refl s).append [event]
  have hrej : ∀ r, Touches g [event] s {s with rejected := s.rejected++[(event,r)]} := fun r =>
    ⟨rfl,fun _ => .inl,fun h _ _ => h,fun _ _ _ => rfl⟩
  rw [handleEvent,exec_bind,exec_get]
  dsimp only
  rw [exec_bind,exec_call]
  dsimp only [Attests]
  rcases validate_cases answers fun hp => hn (.inl hp) with ⟨r,ho,hv⟩|⟨ho,⟨hp,hv⟩|⟨hp,hv⟩⟩
  · rw [hv,ho]
    refine ⟨hrej r,1,fun p => ?_,fun last => iff_of_true (.inl rfl) ⟨rfl,.inr rfl⟩⟩
    exact (tally_reject event r s p).trans (by rw [if_pos (ofContent_checkOrigin ho)])
  · simp only [hv,ho,hp,Option.isSome_none,Bool.false_eq_true,false_or,true_and]
    cases hc : checkPayload event with
    | some r =>
      refine ⟨hrej r,1,fun p => ?_,fun last => iff_of_true (.inl rfl) ⟨rfl,.inr rfl⟩⟩
      exact (tally_reject event r s p).trans (by rw [if_pos (ofContent_checkPayload hc)])
    | none =>
      dsimp only
      rw [exec_bind,exec_call]
      simp only [Option.isSome_none,Bool.false_eq_true,false_or]
      rcases createAttestation_cases g event answers.entropy with
        ⟨hpa,attestation,hat,hl⟩ | ⟨hpa,e,hat⟩
      · simp only [hat,hpa,true_and]
        rw [exec_bind]
        rcases tryAnchor_cases answers attestation event false result s with
          ⟨anchors,ha,hx⟩ | ⟨s1,hs,⟨hx,hg⟩ | ⟨e,hx,hg⟩⟩
        · rw [hl] at ha
          rw [hx]
          refine ⟨touches_queued anchors attestation event s,anchors.length+1,fun p => ?_,?_⟩
          · rcases ha with ⟨rfl,-⟩|⟨rfl,-⟩ <;>
              simp only [tally,map_append,count_append,map_cons,map_nil,Method.exec_pure] <;>
                simp <;> omega
          · rcases ha with ⟨rfl,hg⟩|⟨rfl,hg⟩
            · exact fun last => iff_of_true (hg last) ⟨rfl,.inr rfl⟩
            · exact fun last => iff_of_false (hg last) fun h => absurd h.1 (by simp)
        · rw [hl] at hg
          rw [hx]
          refine ⟨hs.touches,1,fun p => ?_,fun last => iff_of_true (hg last) ⟨rfl,.inr rfl⟩⟩
          rw [Nat.one_mul]
          exact hs.tally p
        · rw [hl] at hg
          rw [hx]
          refine ⟨hs.touches,1,fun p => ?_,fun last => (hg last).trans ?_⟩
          · rw [Nat.one_mul]
            exact hs.tally p
          · simp [Except.isOk,Except.toBool]
      · rw [hat]
        refine ⟨hnone,0,fun p => by simp,fun last => iff_of_false (fun h => hpa h.1) ?_⟩
        exact fun h => absurd h.1 (by decide)
  · have hf : ∀ last, ¬((g.checkOrigin event).isSome=true ∨ g.Passes answers event ∧
        ((checkPayload event).isSome=true ∨ g.Attestable answers.entropy event ∧
          g.Anchors s.windows answers (event.eventId g.hash) g.hash.size last)) := by
      rintro last (h|h)
      · rw [ho] at h
        cases h
      · exact hp h.1
    cases hx : g.validate answers s.replayDb event with
    | error e =>
      refine ⟨hnone,0,fun p => by simp,fun last => iff_of_false (hf last) ?_⟩
      exact fun h => absurd h.1 (by decide)
    | ok outcome =>
      obtain ⟨r,rfl,hr⟩ := hv outcome hx
      refine ⟨hrej r,0,fun p => ?_,fun last => iff_of_false (hf last) ?_⟩
      · exact (tally_reject event r s p).trans (by rw [if_neg (by simp [hr])])
      · exact fun h => absurd h.1 (by decide)

theorem eventLoop_spec (es : List (BridgeEvent × Answers T)) (result : GatewayVMTickResult)
    (s : Service T) (hn : ∀ event ∈ es.map Prod.fst, ¬Known g s (event.eventId g.hash))
    (hd : ((es.map Prod.fst).map (BridgeEvent.eventId g.hash)).Nodup)
    (hp : ((es.map Prod.fst).map BridgeEvent.place).Nodup) :
    let out := (es.foldlM g.handleEvent result).exec s
    Touches g (es.map Prod.fst) s out.2 ∧ (∀ p, s.tally p≤out.2.tally p) ∧
      (∀ p ∉ (es.map Prod.fst).map BridgeEvent.place, out.2.tally p=s.tally p) ∧
      (g.AttestsAll s.windows es ↔
        ∀ event ∈ es.map Prod.fst, out.2.tally event.place=s.tally event.place+1) := by
  induction es generalizing result s with
  | nil =>
    exact ⟨Touches.refl s,fun _ => le_rfl,fun _ _ => rfl,iff_of_true trivial (forall_mem_nil _)⟩
  | cons entry es ih =>
    rw [map_cons] at hn hd hp ⊢
    obtain ⟨hne,hnr⟩ := forall_mem_cons.mp hn
    obtain ⟨hh,hdr⟩ := nodup_cons.mp hd
    obtain ⟨hph,hpr⟩ := nodup_cons.mp hp
    have hone := handleEvent_spec result hne
    rw [foldlM_cons,exec_bind]
    generalize (g.handleEvent result entry).exec s=out1 at hone
    obtain ⟨outcome,s1⟩ := out1
    obtain ⟨hto,n,hta,hat⟩ := hone
    have hself : s1.tally entry.1.place=s.tally entry.1.place+n := by simpa using hta entry.1.place
    have hother : ∀ p, p≠entry.1.place → s1.tally p=s.tally p := by
      intro p hp
      rw [hta,count_eq_zero.mpr fun hm => hp (mem_singleton.mp hm)]
      rfl
    have hrest : ∀ event ∈ es.map Prod.fst, s1.tally event.place=s.tally event.place :=
      fun event he => hother _ fun heq => hph (heq ▸ mem_map_of_mem he)
    cases outcome with
    | error e =>
      refine ⟨hto.append _,fun p => hta p ▸ Nat.le_add_right _ _,fun p hp => hother p fun heq =>
        hp (heq ▸ mem_cons_self),?_⟩
      rw [AttestsAll,forall_mem_cons,hat,hself]
      constructor
      · rintro ⟨⟨rfl,hl⟩,-⟩
        have hes : es=[] := by simpa [Except.isOk,Except.toBool] using hl
        exact ⟨rfl,by simp [hes]⟩
      · rintro ⟨hn1,hr⟩
        have hes : es=[] := by
          refine eq_nil_iff_forall_not_mem.mpr fun other ho => ?_
          have h1 : s1.tally other.1.place=s.tally other.1.place+1 :=
            hr other.1 (mem_map_of_mem ho)
          have h2 := hrest other.1 (mem_map_of_mem ho)
          omega
        subst hes
        exact ⟨⟨by omega,.inl rfl⟩,trivial⟩
    | ok result1 =>
      have hn1 : ∀ event ∈ es.map Prod.fst, ¬Known g s1 (event.eventId g.hash) := by
        intro event he hk
        rcases hto.known _ hk with hb|⟨first,hf,heq⟩
        · exact hnr event he hb
        · rw [mem_singleton.mp hf] at heq
          exact hh (heq ▸ mem_map_of_mem he)
      have hcon : g.AttestsAll s1.windows es ↔ g.AttestsAll s.windows es := by
        refine attestsAll_congr fun event he => hto.windows _ (hnr event he) fun first hf heq => ?_
        rw [mem_singleton.mp hf] at heq
        exact hh (heq ▸ mem_map_of_mem he)
      obtain ⟨hto',hle,hout,hall⟩ := ih result1 s1 hn1 hdr hpr
      refine ⟨hto.trans hto',fun p => (hta p ▸ Nat.le_add_right _ _).trans (hle p),
        fun p hp => ?_,?_⟩
      · rw [hout p fun hm => hp (mem_cons_of_mem _ hm),hother p fun heq => hp (heq ▸ mem_cons_self)]
      · rw [AttestsAll,forall_mem_cons,hat,← hcon,hall,hout _ hph,hself]
        refine and_congr ?_ (forall₂_congr fun event he => by rw [hrest event he])
        simp [Except.isOk,Except.toBool]

end Gateway

def History.between (history : History) (fromBlock toBlock : ℤ) : List RawLog :=
  history.logs.filter fun log => fromBlock≤log.block ∧ log.block<toBlock

namespace Gateway
variable {P : SecurityProfile} {S : MLDSA} {K : MLKEM} {T : Type}
  {g : Gateway P S K T} {history : History}

/-- The events are those of the logs between two positions of the cursor. -/
structure Scans (g : Gateway P S K T) (history : History) (events : List BridgeEvent)
    (fromBlock toBlock : ℤ) : Prop where
  le : fromBlock≤toBlock
  places : events.map BridgeEvent.place=(history.between fromBlock toBlock).map RawLog.place
  ids : events.map (BridgeEvent.eventId g.hash) =
    (history.between fromBlock toBlock).map (RawLog.eventId g)

theorem foldl_max_le_iff {events : List BridgeEvent} {b c : ℤ} :
    events.foldl (fun maxBlock event => max maxBlock event.blockNumber) c≤b ↔
      c≤b ∧ ∀ event ∈ events, event.blockNumber≤b := by
  induction events generalizing c with
  | nil => simp
  | cons event events ih =>
    rw [foldl_cons,ih,max_le_iff,forall_mem_cons,and_assoc]

theorem map_readLogs {α : Type} {k : BridgeEvent → α} {k' : RawLog → α}
    (h : ∀ now log, k (log.toEvent g.config.sourceChainId now)=k' log)
    (timestamps : ℕ → UInt64) (logs : List RawLog) :
    (g.readLogs timestamps logs).map k=logs.map k' :=
  map_mapIdx (fun i => h (timestamps i)) logs

variable {cursor safeBlock : ℤ}

theorem le_nextCursor (hs : cursor ≤ safeBlock) (events : List BridgeEvent) :
    cursor≤nextCursor cursor safeBlock events := by
  rw [nextCursor]
  split_ifs
  · exact Int.le_add_one hs
  · exact Int.le_add_one (foldl_max_le_iff.mp le_rfl).1

theorem lt_nextCursor_iff {events : List BridgeEvent} (hs : cursor ≤ safeBlock)
    (hb : events.map BridgeEvent.blockNumber =
      (history.fetchLogs cursor safeBlock).map RawLog.block) {log : RawLog}
    (hl : log ∈ history.logs) (hc : cursor≤log.block) :
    log.block<nextCursor cursor safeBlock events ↔ log.block ≤ safeBlock := by
  rw [nextCursor]
  split_ifs
  · exact Int.lt_add_one_iff
  · rw [Int.lt_add_one_iff]
    constructor
    · refine fun hm => hm.trans (foldl_max_le_iff.mpr ⟨hs,fun event he => ?_⟩)
      have hme := hb ▸ mem_map_of_mem he
      obtain ⟨other,ho,hbl⟩ := mem_map.mp hme
      rw [← hbl]
      exact (of_decide_eq_true (mem_filter.mp ho).2).2
    · intro hle
      have hf : log ∈ history.fetchLogs cursor safeBlock :=
        mem_filter.mpr ⟨hl,decide_eq_true ⟨hc,hle⟩⟩
      have hme := hb.symm ▸ mem_map_of_mem hf
      obtain ⟨event,he,hbl⟩ := mem_map.mp hme
      rw [← hbl]
      exact (foldl_max_le_iff.mp le_rfl).2 event he

theorem between_nextCursor (timestamps : ℕ → UInt64) (hs : cursor ≤ safeBlock) :
    history.between cursor (nextCursor cursor safeBlock
      (g.readLogs timestamps (history.fetchLogs cursor safeBlock))) =
        history.fetchLogs cursor safeBlock := by
  refine filter_congr fun log hl => decide_eq_decide.mpr ?_
  refine and_congr_right fun hc => lt_nextCursor_iff hs ?_ hl hc
  exact map_readLogs (fun _ _ => rfl) _ _

theorem scans_readLogs (timestamps : ℕ → UInt64) (hs : cursor ≤ safeBlock) :
    Scans g history (g.readLogs timestamps (history.fetchLogs cursor safeBlock)) cursor
      (nextCursor cursor safeBlock
        (g.readLogs timestamps (history.fetchLogs cursor safeBlock))) := by
  refine ⟨le_nextCursor hs _,?_,?_⟩
  · rw [between_nextCursor timestamps hs]
    exact map_readLogs (fun _ _ => rfl) _ _
  · rw [between_nextCursor timestamps hs]
    exact map_readLogs (fun _ _ => rfl) _ _

theorem map_between_self {α : Type} (f : RawLog → α) (cursor : ℤ) :
    (history.between cursor cursor).map f=[] :=
  map_eq_nil_iff.mpr (filter_eq_nil_iff.mpr fun log _ => by simp)

theorem poll_exec (answers : TickAnswers T) (s : Service T) :
    (∃ e, (g.poll history answers).exec s=(.error e,s)) ∨
      ∃ events cursor, (g.poll history answers).exec s =
        (.ok events,{s with cursor := cursor}) ∧ Scans g history events s.cursor cursor := by
  rw [poll,exec_bind,exec_call]
  cases answers.blockNumber with
  | error e => exact .inl ⟨e,rfl⟩
  | ok currentBlock =>
    dsimp only
    rw [exec_bind,exec_get]
    dsimp only
    split_ifs with hs
    · exact .inr ⟨[],_,rfl,le_rfl,(map_between_self ..).symm,(map_between_self ..).symm⟩
    · cases answers.fetch with
      | error e => exact .inl ⟨e,rfl⟩
      | ok _ => exact .inr ⟨_,_,rfl,scans_readLogs _ (not_lt.mp hs)⟩

/-- Polls at the heights that the node reports, with every call answered. -/
def polls (g : Gateway P S K T) (history : History) :
    Machine (Service T) (TickAnswers T × ℤ) BridgeEvent where
  start := .start g
  step s i :=
    let out := (g.poll history {i.1 with blockNumber := .ok i.2,fetch := .ok ()}).exec s
    (out.2,out.1.toOption.getD [])

def untimed (event : BridgeEvent) : BridgeEvent := {event with timestamp := 0}

theorem between_append {logs : List RawLog}
    (hsorted : logs.Pairwise fun a b => a.block≤b.block) {a b c : ℤ} (hab : a≤b) (hbc : b≤c) :
    logs.filter (fun log => a≤log.block ∧ log.block<b) ++
        logs.filter (fun log => b≤log.block ∧ log.block<c) =
      logs.filter fun log => a≤log.block ∧ log.block<c := by
  induction hsorted with
  | nil => rfl
  | @cons log logs hle _ ih =>
    have hn : b≤log.block → logs.filter (fun log => a≤log.block ∧ log.block<b)=[] :=
      fun hb => filter_eq_nil_iff.mpr fun other ho h =>
        (hb.trans (hle other ho)).not_gt (of_decide_eq_true h).2
    simp only [filter_cons,decide_eq_true_eq]
    grind

variable (g history) in
theorem polls_step (s : Service T) (i : TickAnswers T × ℤ) :
    let s' := ((polls g history).step s i).1
    s.cursor ≤ s'.cursor ∧ ((polls g history).step s i).2.map untimed =
        (history.between s.cursor s'.cursor).map (RawLog.toEvent g.config.sourceChainId 0) ∧
      ∀ log ∈ history.logs, s.cursor≤log.block →
        (log.block<s'.cursor ↔ log.block ≤ i.2-g.config.finalityDepth) := by
  dsimp only [polls,poll]
  rw [exec_bind,exec_call]
  dsimp only
  rw [exec_bind,exec_get]
  dsimp only
  split_ifs with hs
  · exact ⟨le_rfl,(map_between_self ..).symm,
      fun _ _ h => iff_of_false h.not_gt (hs.trans_le h).not_ge⟩
  · have hs := not_lt.mp hs
    refine ⟨le_nextCursor hs _,?_,fun log hl h => ?_⟩
    · exact (map_readLogs (fun _ _ => rfl) _ _).trans
        (congrArg (map _) (between_nextCursor i.1.timestamps hs).symm)
    · exact lt_nextCursor_iff hs (map_readLogs (fun _ _ => rfl) _ _) hl h

/-- The polls hand out the logs from the start block to the highest safe block, each once and in
the order of their blocks. -/
theorem polled_once_in_order (g : Gateway P S K T) (history : History)
    (hsorted : history.logs.Pairwise fun a b => a.block≤b.block)
    (run : List (TickAnswers T × ℤ)) : ((polls g history).outputs run).map untimed =
      (history.logs.filter fun log => g.startBlock≤log.block ∧
        ∃ i ∈ run, log.block ≤ i.2-g.config.finalityDepth).map
      (RawLog.toEvent g.config.sourceChainId 0) := by
  suffices h : let s := (polls g history).state run
      g.startBlock ≤ s.cursor ∧ ((polls g history).outputs run).map untimed =
        (history.between g.startBlock s.cursor).map (RawLog.toEvent g.config.sourceChainId 0) ∧
      ∀ log ∈ history.logs, g.startBlock≤log.block →
        (log.block<s.cursor ↔ ∃ i ∈ run, log.block ≤ i.2-g.config.finalityDepth) by
    rw [h.2.1,History.between]
    refine congrArg _ (filter_congr fun log hl => decide_eq_decide.mpr ?_)
    exact and_congr_right (h.2.2 log hl)
  induction run using reverseRecOn with
  | nil => exact ⟨le_rfl,(map_between_self ..).symm,fun _ _ h => iff_of_false h.not_gt (by simp)⟩
  | append_singleton run i ih =>
    obtain ⟨hle,hout,hlog⟩ := ih
    obtain ⟨hs,ho,hl⟩ := polls_step g history ((polls g history).state run) i
    rw [Machine.state_snoc,Machine.outputs_snoc]
    refine ⟨hle.trans hs,?_,fun log hm hb => ?_⟩
    · rw [map_append,hout,ho,← map_append]
      exact congrArg _ (between_append hsorted hle hs)
    · simp only [mem_append,mem_singleton,or_and_right,exists_or,exists_eq_left]
      rw [← hlog log hm hb]
      rcases lt_or_ge log.block ((polls g history).state run).cursor with h|h
      · exact iff_of_true (h.trans_le hs) (.inl h)
      · rw [hl log hm h,or_iff_right h.not_gt]

theorem poll_cursor {answers : TickAnswers T} {s s' : Service T} (h : s'.cursor=s.cursor) :
    ((g.poll history answers).exec s').1=((g.poll history answers).exec s).1 := by
  rw [poll,exec_bind,exec_bind,exec_call,exec_call]
  cases answers.blockNumber with
  | error e => rfl
  | ok currentBlock =>
    dsimp only
    rw [exec_bind,exec_bind,exec_get,exec_get]
    dsimp only
    rw [h]
    split_ifs
    · rfl
    · cases answers.fetch <;> rfl

end Gateway

section
variable {P : SecurityProfile} {S : MLDSA} {K : MLKEM} {T : Type}
  (g : Gateway P S K T) (history : History)

open Service Gateway

/-- Each event of the scanned blocks is anchored once, waits, was dropped or was rejected for its
content, and it is in one of these places only. -/
def OnePlace (s : Service T) : Prop :=
  ∀ log ∈ history.logs, s.tally log.place =
    if g.startBlock≤log.block ∧ log.block<s.cursor then 1 else 0

structure Tracked (s : Service T) : Prop where
  known : ∀ id, Known g s id → ∃ log ∈ history.logs, log.block<s.cursor ∧ id=log.eventId g
  started : g.startBlock ≤ s.cursor
  queue : (s.queued g).Nodup

structure Accounted (s : Service T) : Prop extends Tracked g history s where
  placed : OnePlace g history s
  scanned : ∀ p, s.tally p≠0 → ∃ log ∈ history.logs, p=log.place

variable {g history} {s s' : Service T}

theorem Tracked.touches (h : Tracked g history s) (hs : Touches g [] s s') :
    Tracked g history s' where
  known id hid := by
    rw [hs.cursor]
    rcases hs.known id hid with hk|⟨_,hn,-⟩
    · exact h.known id hk
    · exact absurd hn not_mem_nil
  started := h.started.trans_eq hs.cursor.symm
  queue := hs.queue h.queue (forall_mem_nil _) nodup_nil

theorem History.mem_between {log : RawLog} (hl : log ∈ history.logs) (fromBlock toBlock : ℤ) :
    log.place ∈ (history.between fromBlock toBlock).map RawLog.place ↔
      fromBlock≤log.block ∧ log.block<toBlock := by
  constructor
  · intro hm
    obtain ⟨other,ho,hp⟩ := mem_map.mp hm
    obtain ⟨hin,hr⟩ := mem_filter.mp ho
    rw [← History.place_inj hin hl hp]
    exact of_decide_eq_true hr
  · intro hr
    exact mem_map_of_mem (mem_filter.mpr ⟨hl,decide_eq_true hr⟩)

variable {es : List BridgeEvent}

section
variable (hf : CollisionFree g.hash (history.keyInputs g))
include hf

theorem Tracked.unknown {cursor : ℤ} (h : Tracked g history s)
    (hs : Scans g history es s.cursor cursor) {event : BridgeEvent} (he : event ∈ es) :
    ¬Known g s (event.eventId g.hash) := by
  intro hk
  obtain ⟨log,hlo,hb,hl⟩ := h.known _ hk
  have hm := hs.ids ▸ mem_map_of_mem he
  obtain ⟨new,hne,hn⟩ := mem_map.mp hm
  obtain ⟨hin,hr⟩ := mem_filter.mp hne
  obtain rfl := History.eventId_inj hf hin hlo (hn.trans hl)
  exact absurd hb (of_decide_eq_true hr).1.not_gt

theorem Gateway.Scans.distinct {fromBlock toBlock : ℤ} (h : Scans g history es fromBlock toBlock) :
    (es.map (BridgeEvent.eventId g.hash)).Nodup := by
  rw [h.ids]
  refine .map_on (fun log hl log' hl' => ?_)
    (history.distinct.of_map.filter _)
  exact History.eventId_inj hf (mem_filter.mp hl).1 (mem_filter.mp hl').1

theorem Tracked.scans {cursor : ℤ} (h : Tracked g history s)
    (hsc : Scans g history es s.cursor cursor)
    (hs : Touches g es {s with cursor := cursor} s') : Tracked g history s' where
  known id hid := by
    rw [hs.cursor]
    rcases hs.known id hid with hk|⟨event,he,heq⟩
    · obtain ⟨log,hlo,hb,hl⟩ := h.known id hk
      exact ⟨log,hlo,hb.trans_le hsc.le,hl⟩
    · have hm := hsc.ids ▸ mem_map_of_mem he
      obtain ⟨log,hlo,hl⟩ := mem_map.mp hm
      obtain ⟨hin,hr⟩ := mem_filter.mp hlo
      exact ⟨log,hin,(of_decide_eq_true hr).2,heq.trans hl.symm⟩
  started := (h.started.trans hsc.le).trans_eq hs.cursor.symm
  queue := hs.queue h.queue (fun _ => h.unknown hf hsc) (hsc.distinct hf)

end

theorem Accounted.frame (h : Accounted g history s) (epoch : ℕ) (windows : Windows T) :
    Accounted g history {s with epoch := epoch,windows := windows} :=
  {known := h.known,started := h.started,queue := h.queue,placed := h.placed,
    scanned := h.scanned}

theorem accounted_start (g : Gateway P S K T) (history : History) :
    Accounted g history (start g) where
  known id hid := by
    rcases hid with hp|⟨_,hn,-⟩
    · exact absurd hp Bool.false_ne_true
    · exact absurd hn not_mem_nil
  started := le_rfl
  queue := nodup_nil
  placed log _ := (if_neg fun hr => absurd hr.2 hr.1.not_gt).symm
  scanned p hp := absurd rfl hp

variable [Add T] [Zero T] {answers : TickAnswers T}

def batch (g : Gateway P S K T) (history : History) (answers : TickAnswers T) (s : Service T) :
    List (BridgeEvent × Answers T) :=
  (((g.poll history answers).exec s).1.toOption.getD []).mapIdx fun i event =>
    (event,answers.events i)

omit [Add T] [Zero T] in
theorem batch_congr (h : s'.cursor=s.cursor) :
    batch g history answers s'=batch g history answers s := by rw [batch,poll_cursor h,batch]

omit [Add T] [Zero T] in
theorem unknown_batch (hf : CollisionFree g.hash (history.keyInputs g))
    (h : Tracked g history s) {event : BridgeEvent}
    (he : event ∈ (batch g history answers s).map Prod.fst) :
    ¬Known g s (event.eventId g.hash) := by
  rw [batch,map_fst_mapIdx] at he
  rcases poll_exec answers s with ⟨e,hpo⟩|⟨es,cursor,hpo,hsc⟩
  · rw [hpo] at he
    cases he
  · rw [hpo] at he
    exact h.unknown hf hsc he

theorem processEvents_spec (hf : CollisionFree g.hash (history.keyInputs g))
    (h : Tracked g history s) (answers : TickAnswers T) (result : GatewayVMTickResult) :
    let s' := ((g.processEvents history answers result).exec s).2
    s.cursor ≤ s'.cursor ∧ Tracked g history s' ∧ (∀ p, s.tally p ≤ s'.tally p) ∧
      (∀ p, s'.tally p=s.tally p ∨ ∃ log ∈ history.logs, p=log.place ∧ s.cursor≤log.block ∧
        log.block<s'.cursor) ∧
      (g.AttestsAll s.windows (batch g history answers s) ↔ ∀ log ∈ history.logs,
        s.cursor≤log.block → log.block<s'.cursor →
          s'.tally log.place=s.tally log.place+1) := by
  rw [processEvents,exec_bind,Method.exec_attempt,batch]
  rcases poll_exec answers s with ⟨e,hpo⟩|⟨es,cursor,hpo,hsc⟩
  · rw [hpo]
    refine ⟨le_rfl,h,fun _ => le_rfl,fun _ => .inl rfl,iff_of_true trivial ?_⟩
    exact fun log _ hl hlt => absurd hlt hl.not_gt
  · rw [hpo]
    have hn : ((history.between s.cursor cursor).map RawLog.place).Nodup :=
      history.distinct.sublist (filter_sublist.map _)
    have hl := eventLoop_spec (g := g) (es.mapIdx fun i event => (event,answers.events i))
      {result with eventsObserved := es.length} {s with cursor := cursor}
    rw [map_fst_mapIdx,hsc.places] at hl
    obtain ⟨hto,hle,hout,hall⟩ := hl (fun _ => h.unknown hf hsc) (hsc.distinct hf) hn
    refine ⟨hsc.le.trans_eq hto.cursor.symm,h.scans hf hsc hto,hle,fun p => ?_,?_⟩
    · rw [hto.cursor]
      by_cases hp : p ∈ (history.between s.cursor cursor).map RawLog.place
      · obtain ⟨log,hlo,rfl⟩ := mem_map.mp hp
        obtain ⟨hin,hr⟩ := mem_filter.mp hlo
        exact .inr ⟨log,hin,rfl,of_decide_eq_true hr⟩
      · exact .inl (hout p hp)
    · rw [hto.cursor]
      refine hall.trans ⟨fun hev log hlo hge hlt => ?_,fun hlog event he => ?_⟩
      · have hm := (History.mem_between hlo s.cursor cursor).mpr ⟨hge,hlt⟩
        rw [← hsc.places] at hm
        obtain ⟨event,he,hp⟩ := mem_map.mp hm
        exact hp ▸ hev event he
      · have hm := hsc.places ▸ mem_map_of_mem he
        obtain ⟨log,hlo,hp⟩ := mem_map.mp hm
        obtain ⟨hin,hr⟩ := mem_filter.mp hlo
        obtain ⟨hge,hlt⟩ := of_decide_eq_true hr
        exact hp ▸ hlog log hin hge hlt

theorem accounted_process (hf : CollisionFree g.hash (history.keyInputs g))
    (hs : Accounted g history s) (result : GatewayVMTickResult) :
    let s' := ((g.processRetries answers result >>= g.processEvents history answers).exec s).2
    let good := g.RetriesAll s.windows
        (s.retryQueue.mapIdx fun i entry => (entry,answers.retries i)) ∧
      g.AttestsAll s.windows (batch g history answers s)
    (good → Accounted g history s') ∧ (OnePlace g history s' → good) := by
  have hone : ∀ p, s.tally p≠0 → ∃ log ∈ history.logs, p=log.place ∧
      (g.startBlock≤log.block ∧ log.block<s.cursor) ∧ s.tally p=1 := by
    intro p hp
    obtain ⟨log,hlo,rfl⟩ := hs.scanned p hp
    have ht := hs.placed log hlo
    split_ifs at ht with hr
    · exact ⟨log,hlo,rfl,hr,ht⟩
    · exact absurd ht hp
  have hre := processRetries_spec hs.queue answers result (g := g)
  rw [exec_bind]
  generalize (g.processRetries answers result).exec s=out1 at hre
  obtain ⟨_,s1⟩ := out1
  obtain ⟨result1,rfl,hto,hta,hgood⟩|⟨e,rfl,hbad,p,hp,hlt⟩ := hre
  · have hcon : g.AttestsAll s1.windows (batch g history answers s1) ↔
        g.AttestsAll s.windows (batch g history answers s) := by
      rw [batch_congr hto.cursor]
      exact attestsAll_congr fun event he =>
        hto.windows _ (unknown_batch hf hs.toTracked he) (forall_mem_nil _)
    obtain ⟨hle,htr,hmo,hch,hall⟩ := processEvents_spec hf (hs.toTracked.touches hto)
      answers result1
    dsimp only
    generalize ((g.processEvents history answers result1).exec s1).2=s' at *
    rw [hgood,← hcon,hall]
    rw [hto.cursor] at hle hch ⊢
    have hst := hs.started
    constructor
    · rintro ⟨hsame,hnew⟩
      refine ⟨htr,fun log hlo => ?_,fun p hp => ?_⟩
      · by_cases hr : s.cursor≤log.block ∧ log.block<s'.cursor
        · rw [hnew log hlo hr.1 hr.2,hsame,hs.placed log hlo,if_neg (by omega),
            if_pos ⟨hst.trans hr.1,hr.2⟩]
        · have hold : s'.tally log.place=s1.tally log.place := by
            rcases hch log.place with heq|⟨other,ho,hp,hro⟩
            · exact heq
            · rw [History.place_inj hlo ho hp] at hr
              exact absurd hro hr
          rw [hold,hsame,hs.placed log hlo]
          split_ifs <;> omega
      · rcases hch p with heq|⟨log,hlo,rfl,-⟩
        · exact hs.scanned p (hsame p ▸ heq ▸ hp)
        · exact ⟨log,hlo,rfl⟩
    · intro hpl
      have hsame : ∀ p, s1.tally p=s.tally p := by
        intro p
        by_cases hp : s.tally p=0
        · rw [hp,(hta p).2 hp]
        · obtain ⟨log,hlo,rfl,hr,ht⟩ := hone p hp
          have hfi := hpl log hlo
          rw [if_pos ⟨hr.1,hr.2.trans_le hle⟩] at hfi
          have h1 : _ ≤ s1.tally log.place := (hta log.place).1
          have h2 : s1.tally log.place≤_ := hmo log.place
          omega
      refine ⟨hsame,fun log hlo hge hlt => ?_⟩
      rw [hsame,hpl log hlo,hs.placed log hlo,if_pos ⟨hst.trans hge,hlt⟩,if_neg (by omega)]
  · refine ⟨fun h => absurd h.1 hbad,fun hpl => ?_⟩
    obtain ⟨log,hlo,rfl,-,ht⟩ := hone p hp
    have hfi : s1.tally log.place=_ := hpl log hlo
    have hlt : _ < s1.tally log.place := hlt
    split_ifs at hfi <;> omega

variable [LinearOrder T]

def tickedWindows (g : Gateway P S K T) (clock : Except PyError T) (windows : Windows T) :
    Windows T :=
  match clock with
  | .ok now => if g.optimistic then windows.mapValues (tickRecord now) else windows
  | .error _ => windows

/-- The clock fails before anything is done, or every retry and every event of the batch goes
well. -/
def Calm (g : Gateway P S K T) (history : History) (s : Service T) : GatewayInput T → Prop
  | .challenges _ => True
  | .tick answers => (g.optimistic=true ∧ answers.clock.isOk=false) ∨
      g.RetriesAll (tickedWindows g answers.clock s.windows)
        (s.retryQueue.mapIdx fun i entry => (entry,answers.retries i)) ∧
      g.AttestsAll (tickedWindows g answers.clock s.windows) (batch g history answers s)

theorem tick_of_clock (hm : g.optimistic=true) (hc : answers.clock.isOk=false) (s : Service T) :
    ((g.tick history answers).exec s).2={s with epoch := s.epoch+1} := by
  rw [Gateway.tick]
  rw [tickChallenges,if_pos hm]
  cases ha : answers.clock with
  | error e => rfl
  | ok now =>
    rw [ha] at hc
    exact absurd hc.symm Bool.false_ne_true

omit [Add T] in
theorem tickChallenges_exec {clock : Except PyError T}
    (h : ¬(g.optimistic=true ∧ clock.isOk=false)) (s : Service T) :
    (g.tickChallenges clock).exec s =
      (.ok (),{s with windows := tickedWindows g clock s.windows}) := by
  rw [tickChallenges]
  split_ifs with ho
  · cases clock with
    | error e => exact absurd ⟨ho,rfl⟩ h
    | ok now =>
      rw [tickedWindows,if_pos ho]
      rfl
  · cases clock with
    | error e => rfl
    | ok now =>
      rw [tickedWindows,if_neg ho]
      rfl

/-- After a tick every event is still in one place exactly if the tick is calm. -/
theorem accounted_tick (hf : CollisionFree g.hash (history.keyInputs g))
    (hs : Accounted g history s) :
    let s' := ((g.tick history answers).exec s).2
    (Calm g history s (.tick answers) → Accounted g history s') ∧
      (OnePlace g history s' → Calm g history s (.tick answers)) := by
  by_cases hc : g.optimistic=true ∧ answers.clock.isOk=false
  · rw [tick_of_clock hc.1 hc.2]
    exact ⟨fun _ => hs.frame (s.epoch+1) s.windows,fun _ => .inl hc⟩
  rw [Calm,or_iff_right hc,Gateway.tick,exec_bind,Method.exec_modify]
  dsimp only
  rw [exec_bind,tickChallenges_exec hc]
  dsimp only
  rw [exec_bind,exec_get]
  have hb : batch g history answers {s with
      epoch := s.epoch+1,windows := tickedWindows g answers.clock s.windows} =
      batch g history answers s := batch_congr rfl
  rw [← hb]
  exact accounted_process hf (hs.frame _ _) _

section
variable (g : Gateway P S K T) (windows : Windows T)

instance (answers : Answers T) (id : String) (digestLength : ℕ) (last : Bool) :
    Decidable (g.Anchors windows answers id digestLength last) :=
  match h : answers.anchor with
  | .failed _ => isTrue (by simp [Anchors,h])
  | .failedAnchored _ => isFalse (by simp [Anchors,h])
  | .anchored _ => decidable_of_iff (last=true ∨ _ ∧ (_ → _ ∧ _ ∧ _))
      (by rw [Anchors,h]; exact Iff.rfl)

instance : DecidablePred BridgeEvent.Packable := fun _ => inferInstanceAs (Decidable (_ ∧ _))

instance (entropy : Bytes) (event : BridgeEvent) : Decidable (g.Attestable entropy event) :=
  inferInstanceAs (Decidable (_ ∧ _))

instance (answers : Answers T) (event : BridgeEvent) : Decidable (g.Passes answers event) :=
  inferInstanceAs (Decidable (_ ∧ _))

instance (entry : BridgeEvent × Answers T) (last : Bool) :
    Decidable (g.Attests windows entry last) := inferInstanceAs (Decidable (_ ∨ _))

instance : ∀ es, Decidable (g.AttestsAll windows es)
  | [] => inferInstanceAs (Decidable True)
  | _ :: rest =>
    have := instDecidableAttestsAll rest
    inferInstanceAs (Decidable (_ ∧ _))

instance (es : List (Retry × Answers T)) : Decidable (g.RetriesAll windows es) :=
  inferInstanceAs (Decidable (∀ entry ∈ es, _ ∨ _))

instance (history : History) (s : Service T) : ∀ input, Decidable (Calm g history s input)
  | .challenges _ => inferInstanceAs (Decidable True)
  | .tick _ => inferInstanceAs (Decidable (_ ∨ _))

end

/-- In every state of a run each event of the scanned blocks is anchored once, in the retry queue,
dropped or rejected for its content, and only in one of these ways, exactly if every tick is
calm. -/
theorem scanned_in_one_place (g : Gateway P S K T) (history : History)
    (hfree : CollisionFree g.hash (history.keyInputs g)) (inputs : List (GatewayInput T)) :
    (∀ before, before <+: inputs → OnePlace g history ((gatewayService g history).state before)) ↔
      (gatewayService g history).Meets (Calm g history) inputs := by
  refine Machine.forall_prefix_iff_meets (J := fun _ _ => True)
    (P := fun s _ => OnePlace g history s) (Q := fun s _ => Accounted g history s)
    (fun _ => trivial) (accounted_start g history) ?_ (fun _ _ h => h.placed) ?_ inputs
  · intro s _ input _ hs hc
    cases input with
    | challenges windows => exact hs.frame s.epoch windows
    | tick answers => exact (accounted_tick hfree hs).1 hc
  · intro s _ input _ hs hp
    cases input with
    | challenges windows => trivial
    | tick answers => exact (accounted_tick hfree hs).2 hp

end

open Protocol (plainKem plainKeyPair plainProfile truncationScheme)

def sampleGateway : Gateway plainProfile truncationScheme plainKem ℕ where
  config := ⟨84532,"0xb",12,103115120,5,"optimistic",3600⟩
  keypair := plainKeyPair "gateway"
  hash := lastBytes
  lower := id
  startBlock := 1

def sampleLog (txHash : String) (block : ℤ) (payloadHash : String) (amount : ℤ) : RawLog where
  address := some "0xb"
  transactionHash := some txHash
  blockNumber := some block
  logIndex := some 0
  event := some "BridgeTransfer"
  args := some ⟨some "0x1",some "0x2",some payloadHash,some amount,some 0⟩

def smoothAnswers (anchor : AnchorAnswer) : Answers ℕ :=
  ⟨.ok 100,.ok (),.ok true,[],anchor,.ok (),.ok 10⟩

def smoothTick (events : ℕ → AnchorAnswer) : GatewayInput ℕ := .tick
  { clock := .ok 10
    retries := fun _ => smoothAnswers (.anchored "0x9")
    blockNumber := .ok 100
    fetch := .ok ()
    timestamps := fun _ => 0
    events := fun i => smoothAnswers (events i)}

def mixedHistory : History where
  logs := [sampleLog "0xa1" 5 "sha3-256:1" 7,sampleLog "0xa2" 6 "1" 7,
    sampleLog "0xa3" 7 "sha3-256:2" 7]
  distinct := by decide

theorem mixedHistory_polled :
    let answers : TickAnswers ℕ := ⟨.ok 10,fun _ => smoothAnswers (.anchored ""),.ok 0,.ok (),
      fun _ => 7,fun _ => smoothAnswers (.anchored "")⟩
    ((Gateway.polls sampleGateway mixedHistory).outputs
        [(answers,18),(answers,17),(answers,100)]).map Gateway.untimed =
      mixedHistory.logs.map (RawLog.toEvent 84532 0) :=
  (Gateway.polled_once_in_order sampleGateway mixedHistory (by decide +kernel) _).trans
    (by decide +kernel)

def firstFailing : GatewayInput ℕ :=
  smoothTick fun i => if i=2 then .failed (.runtimeError "timed out") else .anchored "0x9"

theorem retried_in_one_place :
    (gatewayService sampleGateway mixedHistory).Meets (Calm sampleGateway mixedHistory)
        [firstFailing,firstFailing] ∧
      ((gatewayService sampleGateway mixedHistory).state [firstFailing,firstFailing]).cursor = 89 ∧
      ∀ before, before <+: [firstFailing,firstFailing] → OnePlace sampleGateway mixedHistory
        ((gatewayService sampleGateway mixedHistory).state before) := by
  have hm : (gatewayService sampleGateway mixedHistory).Meets
      (Calm sampleGateway mixedHistory) [firstFailing,firstFailing] := by decide +kernel
  have hf : CollisionFree sampleGateway.hash (mixedHistory.keyInputs sampleGateway) := by
    decide +kernel
  exact ⟨hm,by decide +kernel,(scanned_in_one_place sampleGateway mixedHistory hf _).mpr hm⟩

def wideHistory : History where
  logs := [sampleLog "0xa1" 5 "sha3-256:1" (2^64),sampleLog "0xa2" 6 "sha3-256:2" 7]
  distinct := by decide

def allAnchored : GatewayInput ℕ := smoothTick fun _ => .anchored "0x9"

theorem wideAmount_lost : (∀ log ∈ wideHistory.logs, sampleGateway.startBlock≤log.block ∧
      log.block<((gatewayService sampleGateway wideHistory).state [allAnchored]).cursor) ∧
    ∀ log ∈ wideHistory.logs, ((gatewayService sampleGateway wideHistory).state
      [allAnchored]).tally log.place=0 := by decide +kernel

end LatticeTransfer.GatewayVM
