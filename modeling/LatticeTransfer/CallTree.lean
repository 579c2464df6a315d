import LatticeTransfer.Machine
import LatticeTransfer.Solidity

/-!
# Calls that call back

A function of a contract is a `Program`: it ends with a new storage, reverts, or sends
value to an address. Whoever is at that address then has control and may call the contract
again before it returns or reverts. A run is therefore a forest of `Action`s: a call comes
with the replies to the values it sends, and a reply is again a list of actions. A call
that reverts undoes what happened below it.

A `Guarantee` has an invariant that holds whenever code outside the contract has control,
and says how the world after a call and the worlds seen during it relate to the world
before. `Meets` is the rule for one function, which relies on the guarantee at each send,
and `run_ends` carries it to whole runs.
-/

namespace LatticeTransfer.CallTree
open Solidity List

inductive Program (ε σ μ : Type)
  | done (s : σ)
  | fail (e : Revert ε)
  | send (s : σ) (receiver : Address) (value : Uint256) (data : Option μ)
      (next : Bool → σ → Program ε σ μ)

structure Payment (σ μ : Type) where
  message : μ
  storage : σ
  receiver : Address
  value : Uint256

structure World (σ μ : Type) where
  storage : σ
  balance : ℕ
  received : List (μ × Uint256)
  sent : List (Payment σ μ)

structure Contract (ε σ μ : Type) where
  this : Address
  call : σ → Env → μ → Program ε σ μ

mutual

inductive Action (μ : Type)
  | deposit (amount : ℕ)
  | call (env : Env) (message : μ) (replies : List (Reply μ))

/-- The receiver of a send acts and then returns or reverts; a contract that calls itself
enters one of its own functions. -/
inductive Reply (μ : Type)
  | outside (success : Bool) (actions : List (Action μ))
  | enters (replies : List (Reply μ))

end

variable {ε σ μ α : Type}

def Program.check (result : Result ε α) (next : α → Program ε σ μ) : Program ε σ μ :=
  match result with
  | .ok a => next a
  | .error e => .fail e

theorem Program.check_of_ok {result : Result ε α} {a : α} {next : α → Program ε σ μ}
    (h : result=.ok a) : Program.check result next=next a := by rw [h,Program.check]

namespace World

def receive (w : World σ μ) (message : μ) (value : Uint256) : World σ μ :=
  {w with balance := w.balance+value.toNat,received := w.received++[(message,value)]}

def pay (w : World σ μ) (message : μ) (receiver : Address) (value : Uint256) : World σ μ :=
  {w with
    balance := w.balance-value.toNat
    sent := w.sent++[⟨message,w.storage,receiver,value⟩]}

end World

abbrev Outcome (σ μ : Type) := Option (World σ μ) × List (World σ μ)

structure Handler (σ μ : Type) where
  outside : World σ μ → Outcome σ μ
  inside : Env → μ → World σ μ → Outcome σ μ

def noReply : Handler σ μ := ⟨fun _ => (none,[]),fun _ _ _ => (none,[])⟩

section
variable (C : Contract ε σ μ)

def transfer (env : Env) (message : μ) (w : World σ μ) (receiver : Address) (value : Uint256)
    (data : Option μ) (reply : Handler σ μ) : Outcome σ μ :=
  if w.balance<value.toNat then (none,[])
  else
    let shown := w.pay message receiver value
    if receiver=C.this then
      match data with
      | none => (none,[])
      | some m => reply.inside {env with sender := C.this,value := value} m shown
    else ((reply.outside shown).1,shown::(reply.outside shown).2)

def Program.exec (env : Env) (message : μ) :
    Program ε σ μ → List (Handler σ μ) → World σ μ → Outcome σ μ
  | .done s, _, w => (some {w with storage := s},[])
  | .fail _, _, _ => (none,[])
  | .send s receiver value data next, handlers, w =>
    let sent := transfer C env message {w with storage := s} receiver value data
      (handlers.headD noReply)
    let rest := match sent.1 with
      | none => (next false s).exec env message handlers.tail {w with storage := s}
      | some w' => (next true w'.storage).exec env message handlers.tail w'
    (rest.1,sent.2++rest.2)

def frame (env : Env) (message : μ) (handlers : List (Handler σ μ)) (w : World σ μ) : Outcome σ μ :=
  (C.call w.storage env message).exec C env message handlers (w.receive message env.value)

def settleCall (w : World σ μ) (outcome : Outcome σ μ) : World σ μ × List (World σ μ) :=
  (outcome.1.getD w,outcome.2++[outcome.1.getD w])

mutual

def Action.run : Action μ → World σ μ → World σ μ × List (World σ μ)
  | .deposit amount, w =>
    ({w with balance := w.balance+amount},[{w with balance := w.balance+amount}])
  | .call env message replies, w =>
    if env.sender=C.this then (w,[])
    else settleCall w (frame C env message (handlers replies) w)

def runAll : List (Action μ) → World σ μ → World σ μ × List (World σ μ)
  | [], w => (w,[])
  | action::rest, w =>
    let next := action.run w
    ((runAll rest next.1).1,next.2++(runAll rest next.1).2)

def Reply.handler : Reply μ → Handler σ μ
  | .outside success actions =>
    { outside w := (if success then some (runAll actions w).1 else none,(runAll actions w).2)
      inside _ _ _ := (none,[])}
  | .enters replies =>
    { outside _ := (none,[])
      inside env message w := frame C env message (handlers replies) w}

def handlers : List (Reply μ) → List (Handler σ μ)
  | [] => []
  | reply::rest => reply.handler::handlers rest

end

def machine (start : World σ μ) : Machine (World σ μ) (Action μ) (World σ μ) where
  start := start
  step w action := action.run C w

end

/-- `Self` holds of the functions that the contract may call on itself. -/
structure Guarantee (σ μ : Type) where
  Self : μ → Prop
  Inv : World σ μ → Prop
  Ends : World σ μ → World σ μ → Prop
  Shows : World σ μ → World σ μ → Prop
  ends_refl : ∀ w, Ends w w
  ends_trans : ∀ {w w' w''}, Ends w w' → Ends w' w'' → Ends w w''
  shows_trans : ∀ {w w' w''}, Shows w w' → Shows w' w'' → Shows w w''
  shows_of_ends : ∀ {w w'}, Ends w w' → Shows w w'

def Guarantee.ofInvariant (I : World σ μ → Prop) : Guarantee σ μ where
  Self _ := True
  Inv := I
  Ends _ _ := True
  Shows _ _ := True
  ends_refl _ := trivial
  ends_trans _ _ := trivial
  shows_trans _ _ := trivial
  shows_of_ends _ := trivial

section
variable {G : Guarantee σ μ} {message : μ} {start w : World σ μ}

def Program.Meets (G : Guarantee σ μ) (message : μ) (start : World σ μ) :
    Program ε σ μ → World σ μ → Prop
  | .done s, w => G.Inv {w with storage := s} ∧ G.Ends start {w with storage := s}
  | .fail _, _ => True
  | .send s receiver value data next, w =>
    (next false s).Meets G message start {w with storage := s} ∧ (∀ m ∈ data, G.Self m) ∧
      (value.toNat≤w.balance →
        let shown := World.pay {w with storage := s} message receiver value
        (G.Inv shown ∧ G.Shows start shown) ∧
          ∀ w', G.Inv w' → G.Ends shown w' → (next true w'.storage).Meets G message start w')

theorem Program.meets_check {result : Result ε α} {next : α → Program ε σ μ} :
    (Program.check result next).Meets G message start w ↔
      ∀ a, result=.ok a → (next a).Meets G message start w := by
  cases result with
  | ok a => simp [check]
  | error e => simp [check,Meets]

def Guarantee.Covers (G : Guarantee σ μ) (w : World σ μ) (outcome : Outcome σ μ) : Prop :=
  (∀ w', outcome.1=some w' → G.Inv w' ∧ G.Ends w w') ∧ ∀ v ∈ outcome.2, G.Inv v ∧ G.Shows w v

theorem Guarantee.covers_revert : G.Covers w (none,[]) := ⟨by simp,by simp⟩

theorem Guarantee.Covers.of_shows {shown : World σ μ} {outcome : Outcome σ μ}
    (h : G.Covers shown outcome) (hs : G.Shows w shown) : ∀ v ∈ outcome.2, G.Inv v ∧ G.Shows w v :=
  fun v hv => ⟨(h.2 v hv).1,G.shows_trans hs (h.2 v hv).2⟩

theorem Guarantee.Covers.append {outcome : Outcome σ μ} {seen : List (World σ μ)}
    (h : G.Covers w outcome) (hs : ∀ v ∈ seen, G.Inv v ∧ G.Shows w v) :
    G.Covers w (outcome.1,seen++outcome.2) :=
  ⟨h.1,fun v hv => (mem_append.mp hv).elim (hs v) (h.2 v)⟩

structure Handler.Good (G : Guarantee σ μ) (handler : Handler σ μ) : Prop where
  outside : ∀ w, G.Inv w → G.Covers w (handler.outside w)
  inside : ∀ env message w, G.Self message → G.Inv w → G.Covers w (handler.inside env message w)

theorem noReply_good : (noReply : Handler σ μ).Good G :=
  ⟨fun _ _ => G.covers_revert,fun _ _ _ _ _ => G.covers_revert⟩

theorem transfer_spec (C : Contract ε σ μ) (env : Env) {data : Option μ} {rcv : Address}
    {value : Uint256} {reply : Handler σ μ} (hr : reply.Good G) (hse : ∀ m ∈ data, G.Self m)
    (hs : value.toNat≤w.balance →
      G.Inv (w.pay message rcv value) ∧ G.Shows start (w.pay message rcv value)) :
    (∀ w', (transfer C env message w rcv value data reply).1=some w' →
      value.toNat≤w.balance ∧ G.Inv w' ∧ G.Ends (w.pay message rcv value) w') ∧
    ∀ v ∈ (transfer C env message w rcv value data reply).2, G.Inv v ∧ G.Shows start v := by
  rw [transfer]
  split_ifs with hp how
  · simp
  · cases data with
    | none => simp
    | some m =>
      have hri := not_lt.mp hp
      have hi := hr.inside {env with sender := C.this,value := value} m _
        (hse m rfl) (hs hri).1
      exact ⟨fun w' hw' => ⟨hri,hi.1 w' hw'⟩,hi.of_shows (hs hri).2⟩
  · have hri := not_lt.mp hp
    have ho := hr.outside _ (hs hri).1
    refine ⟨fun w' hw' => ⟨hri,ho.1 w' hw'⟩,fun v hv => ?_⟩
    rcases mem_cons.mp hv with rfl|hv
    · exact hs hri
    · exact ho.of_shows (hs hri).2 v hv

theorem exec_covers (C : Contract ε σ μ) (env : Env) (m : Program ε σ μ) :
    ∀ {handlers : List (Handler σ μ)} {w : World σ μ}, m.Meets G message start w →
      (∀ handler ∈ handlers, handler.Good G) →
      G.Covers start (m.exec C env message handlers w) := by
  induction m with
  | done s =>
    intro handlers w hm _
    exact ⟨fun w' hw' => Option.some.inj hw' ▸ hm,by simp [Program.exec]⟩
  | fail e =>
    intro handlers w _ _
    exact G.covers_revert
  | send s rcv value data next ih =>
    intro handlers w hm hg
    obtain ⟨hf,hs,hse⟩ := hm
    have hr : (handlers.headD noReply).Good G := by
      cases handlers with
      | nil => exact noReply_good
      | cons handler rest => exact hg handler mem_cons_self
    have ht : ∀ handler ∈ handlers.tail, handler.Good G :=
      fun handler h => hg handler (mem_of_mem_tail h)
    obtain ⟨he,hsee⟩ := transfer_spec (w := {w with storage := s}) C env hr hs
      fun h => (hse h).1
    rw [Program.exec]
    generalize transfer C env message {w with storage := s} rcv value data
      (handlers.headD noReply)=outcome at he hsee
    obtain ⟨result,seen⟩ := outcome
    cases result with
    | none => exact (ih false s hf ht).append hsee
    | some w' =>
      obtain ⟨hri,hi,hw'⟩ := he w' rfl
      exact (ih true w'.storage ((hse hri).2 w' hi hw') ht).append hsee

end

structure Contract.Keeps (C : Contract ε σ μ) (G : Guarantee σ μ) : Prop where
  deposit : ∀ w amount, G.Inv w → G.Inv {w with balance := w.balance+amount} ∧
    G.Ends w {w with balance := w.balance+amount}
  call : ∀ w env message, (env.sender=C.this → G.Self message) → G.Inv w →
    (C.call w.storage env message).Meets G message w (w.receive message env.value)

section
variable {C : Contract ε σ μ} {G : Guarantee σ μ}

def Guarantee.CoversRun (G : Guarantee σ μ) (w : World σ μ)
    (run : World σ μ × List (World σ μ)) : Prop :=
  G.Inv run.1 ∧ G.Ends w run.1 ∧ ∀ v ∈ run.2, G.Inv v ∧ G.Shows w v

theorem Guarantee.CoversRun.append {w : World σ μ} {run next : World σ μ × List (World σ μ)}
    (h : G.CoversRun w run) (hn : G.CoversRun run.1 next) :
    G.CoversRun w (next.1,run.2++next.2) := by
  obtain ⟨-,he,hs⟩ := h
  obtain ⟨hi',he',hs'⟩ := hn
  refine ⟨hi',G.ends_trans he he',fun v hv => ?_⟩
  rcases mem_append.mp hv with hv|hv
  · exact hs v hv
  · exact ⟨(hs' v hv).1,G.shows_trans (G.shows_of_ends he) (hs' v hv).2⟩

theorem Guarantee.Covers.settleCall {w : World σ μ} {outcome : Outcome σ μ}
    (h : G.Covers w outcome) (hw : G.Inv w) : G.CoversRun w (settleCall w outcome) := by
  obtain ⟨result,seen⟩ := outcome
  have he : G.Inv (result.getD w) ∧ G.Ends w (result.getD w) := by
    cases result with
    | none => exact ⟨hw,G.ends_refl w⟩
    | some w' => exact h.1 w' rfl
  refine ⟨he.1,he.2,fun v hv => ?_⟩
  rcases mem_append.mp hv with hv|hv
  · exact h.2 v hv
  · exact mem_singleton.mp hv ▸ ⟨he.1,G.shows_of_ends he.2⟩

theorem frame_covers (h : C.Keeps G) {env : Env} {message : μ}
    (hs : env.sender=C.this → G.Self message) {handlers : List (Handler σ μ)}
    (hg : ∀ handler ∈ handlers, handler.Good G) {w : World σ μ} (hw : G.Inv w) :
    G.Covers w (frame C env message handlers w) :=
  exec_covers C env _ (h.call w env message hs hw) hg

mutual

theorem action_ends (h : C.Keeps G) : ∀ (action : Action μ) (w : World σ μ), G.Inv w →
    G.CoversRun w (action.run C w)
  | .deposit amount, w, hw => by
    obtain ⟨hi,he⟩ := h.deposit w amount hw
    exact ⟨hi,he,fun v hv => mem_singleton.mp hv ▸ ⟨hi,G.shows_of_ends he⟩⟩
  | .call env message replies, w, hw => by
    rw [Action.run]
    split_ifs with hs
    · exact ⟨hw,G.ends_refl w,by simp⟩
    · have hse : env.sender=C.this → G.Self message := fun ht => absurd ht hs
      exact (frame_covers h hse (handlers_good h replies) hw).settleCall hw

theorem runAll_ends (h : C.Keeps G) : ∀ (acts : List (Action μ)) (w : World σ μ), G.Inv w →
    G.CoversRun w (runAll C acts w)
  | [], w, hw => by
    rw [runAll]
    exact ⟨hw,G.ends_refl w,by simp⟩
  | action::rest, w, hw => by
    have ha := action_ends h action w hw
    exact ha.append (runAll_ends h rest _ ha.1)

theorem handler_good (h : C.Keeps G) : ∀ reply : Reply μ, (reply.handler C).Good G
  | .outside success acts => by
    rw [Reply.handler]
    refine ⟨fun w hw => ?_,fun _ _ _ _ _ => G.covers_revert⟩
    obtain ⟨hi,he,hs⟩ := runAll_ends h acts w hw
    refine ⟨fun w' hw' => ?_,hs⟩
    cases success with
    | false => simp at hw'
    | true => exact Option.some.inj hw' ▸ ⟨hi,he⟩
  | .enters replies => by
    exact ⟨fun _ _ => G.covers_revert,
      fun env message w hse hw => frame_covers h (fun _ => hse) (handlers_good h replies) hw⟩

theorem handlers_good (h : C.Keeps G) :
    ∀ replies : List (Reply μ), ∀ handler ∈ handlers C replies, handler.Good G
  | [] => by simp [handlers]
  | reply::rest => by
    intro handler hm
    rcases mem_cons.mp hm with rfl|hm
    · exact handler_good h reply
    · exact handlers_good h rest handler hm

end

theorem run_ends (h : C.Keeps G) {w : World σ μ} (hw : G.Inv w) (acts : List (Action μ)) :
    G.CoversRun w ((machine C w).run acts) :=
  Machine.invariant (P := fun w' seen => G.CoversRun w (w',seen))
    ⟨hw,G.ends_refl w,by simp⟩
    (fun w' _ action hr => hr.append (action_ends h action w' hr.1)) acts

end

section
variable {C : Contract ε σ μ} {env : Env} {m : μ} {w : World σ μ}

theorem exists_ok_of_exec_check {result : Result ε α} {next : α → Program ε σ μ}
    {handlers : List (Handler σ μ)}
    (h : ((Program.check result next).exec C env m handlers w).1.isSome=true) :
    ∃ a, result=.ok a := by
  cases result with
  | ok a => exact ⟨a,rfl⟩
  | error e => exact absurd h (by simp [Program.check,Program.exec])

theorem exec_send_accepted {s : σ} {rcv : Address} {value : Uint256} {data : Option μ}
    {next : Bool → σ → Program ε σ μ} (hr : value.toNat≤w.balance)
    (ho : rcv≠C.this) (rest : List (Reply μ)) : ((Program.send s rcv value data next).exec C env m
      (handlers C (.outside true []::rest)) w).1 = ((next true s).exec C env m (handlers C rest)
      (World.pay {w with storage := s} m rcv value)).1 := by
  simp only [Program.exec,transfer,if_neg (not_lt.mpr hr),if_neg ho]
  rfl

end

theorem state_mem_outputs (C : Contract ε σ μ) (start : World σ μ) (acts : List (Action μ))
    (env : Env) (message : μ) (replies : List (Reply μ)) (h : env.sender≠C.this) :
    (machine C start).state (acts++[.call env message replies]) ∈
      (machine C start).outputs (acts++[.call env message replies]) := by
  rw [Machine.state_snoc,Machine.outputs_snoc]
  refine mem_append_right _ ?_
  simp only [machine,Action.run,if_neg h]
  exact mem_append_right _ (mem_singleton_self _)

section
variable {κ : Type} [DecidableEq κ] (key : μ → Option κ)

def World.receivedBy (k : κ) (w : World σ μ) : ℕ :=
  ((w.received.filter fun r => key r.1=some k).map fun r => r.2.toNat).sum

def World.paidBy (k : κ) (w : World σ μ) : ℕ :=
  ((w.sent.filter fun p => key p.message=some k).map fun p => p.value.toNat).sum

theorem World.receivedBy_receive (k : κ) (w : World σ μ) (message : μ) (value : Uint256) :
    (w.receive message value).receivedBy key k =
      w.receivedBy key k+if key message=some k then value.toNat else 0 := by
  rw [receivedBy,receivedBy,receive]
  by_cases hk : key message=some k <;> simp [hk]

theorem World.paidBy_pay (k : κ) (w : World σ μ) (message : μ) (rcv : Address)
    (value : Uint256) :
    (w.pay message rcv value).paidBy key k =
      w.paidBy key k+if key message=some k then value.toNat else 0 := by
  rw [paidBy,paidBy,pay]
  by_cases hk : key message=some k <;> simp [hk]

end

end LatticeTransfer.CallTree
