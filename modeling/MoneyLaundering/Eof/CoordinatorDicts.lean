import MoneyLaundering.Eof.Coordinator
import MoneyLaundering.FaultTolerance.ChangeDicts

/-!
# Changes of a worker with a coordinator

The dictionaries that the states with an `EofCoordinator` share, and what `apply_change` does with
those that call the coordinator. `business_fn` may have made the same call on the live coordinator
before; then the call is made twice, and the second time it changes nothing.
-/

namespace MoneyLaundering

open Json

/-! ## Constructors -/

/-- `close_change`. -/
def closeChange (clientId : Nat) : Value :=
  obj [("type", .str "close"), ("client_id", .int clientId)]

/-- `coordinator_upstream_eof_change`. -/
def coordinatorUpstreamEofChange (clientId expectedTotal count forwarded : Nat) : Value :=
  obj [("type", .str "coordinator_upstream_eof"), ("client_id", .int clientId),
    ("expected_total", .int expectedTotal), ("count", .int count), ("forwarded", .int forwarded)]

/-- `coordinator_msg_change`. -/
def coordinatorMsgChange (msgType : MessageType) (clientId : Nat) (ctrl : ControlMessage)
    (count forwarded : Nat) : Value :=
  obj [("type", .str "coordinator_msg"), ("msg_type", .int msgType.toNat),
    ("client_id", .int clientId),
    ("sender_id", .int ctrl.senderId), ("expected_total", .int ctrl.expectedTotal),
    ("processed_count", .int ctrl.processedCount), ("count", .int count),
      ("forwarded", .int forwarded)]

/-- `coordinator_cleanup_change` of the workers that clean up in one way. -/
def coordinatorCleanupChange (clientId : Nat) : Value :=
  obj [("type", .str "coordinator_cleanup"), ("client_id", .int clientId)]

/-- `data_change` of the workers that log the payload. -/
def payloadChange (payloadKey : String) (clientId : Nat) (payload : Bytes) : Value :=
  obj [("type", .str "data"), ("client_id", .int clientId), (payloadKey, .str (b64encode payload))]

section native
variable (clientId expectedTotal count forwarded : Nat)

theorem native_closeChange : Native (closeChange clientId) := by
  simp [closeChange, obj, Native, NativeFields]

theorem native_coordinatorUpstreamEofChange :
    Native (coordinatorUpstreamEofChange clientId expectedTotal count forwarded) := by
  simp [coordinatorUpstreamEofChange, obj, Native, NativeFields]

theorem native_coordinatorMsgChange (msgType : MessageType) (ctrl : ControlMessage) :
    Native (coordinatorMsgChange msgType clientId ctrl count forwarded) := by
  simp [coordinatorMsgChange, obj, Native, NativeFields]

theorem native_coordinatorCleanupChange : Native (coordinatorCleanupChange clientId) := by
  simp [coordinatorCleanupChange, obj, Native, NativeFields]

theorem native_payloadChange {payloadKey : String} (h : payloadKey ∉ ["type", "client_id"])
    (payload : Bytes) :
    Native (payloadChange payloadKey clientId payload) := by
  simp only [List.mem_cons, List.not_mem_nil, or_false, not_or] at h
  simp [payloadChange, obj, Native, NativeFields, Ne.symm h.1, Ne.symm h.2]

end native

/-! ## Application -/

/-- `MessageType(value)`. -/
def toMessageType (value : Nat) : Except String MessageType :=
  match MessageType.ofNat? value with
  | some msgType => .ok msgType
  | none => .error s!"{value} is not a valid MessageType"

/-- The calls of the coordinator that `apply_change` makes for the types that all workers share. -/
def coordinatorCall (config : CoordinatorConfig) (kind : String) (clientId : Nat) (es : Fields) :
    Except String (EofCoordinator → EofCoordinator) :=
  if kind = "coordinator_upstream_eof" then do
    let expectedTotal ← es.nat "expected_total"
    let count ← es.nat "count"
    let forwarded ← es.nat "forwarded"
    return fun s => (s.onUpstreamEof config clientId expectedTotal count forwarded).1
  else if kind = "coordinator_msg" then do
    let senderId ← es.nat "sender_id"
    let expectedTotal ← es.nat "expected_total"
    let processedCount ← es.nat "processed_count"
    let msgType ← toMessageType (← es.nat "msg_type")
    let count ← es.nat "count"
    let forwarded ← es.nat "forwarded"
    return fun s => (s.processControlMessage config msgType clientId
      { senderId, expectedTotal, processedCount } count forwarded).1
  else .error s!"unknown change type: {kind}"

/-- The last branches of `apply_change` of the workers that clean up in one way. -/
def coordinatorCallOrCleanup (config : CoordinatorConfig) (kind : String) (clientId : Nat)
    (es : Fields) :
    Except String (EofCoordinator → EofCoordinator) :=
  if kind = "coordinator_cleanup" then return fun s => s.cleanupClient clientId
  else coordinatorCall config kind clientId es

/-! ## A call made twice -/

namespace EofCoordinator

variable (config : CoordinatorConfig) (s : EofCoordinator)
    (clientId expectedTotal count forwarded : Nat)

/-- In both modes, the second call for an upstream EOF finds what the first one left. -/
theorem onUpstreamEof_twice :
    ((s.onUpstreamEof config clientId expectedTotal count forwarded).1.onUpstreamEof config
      clientId expectedTotal
      count forwarded).1 = (s.onUpstreamEof config clientId expectedTotal count forwarded).1 := by
  unfold onUpstreamEof
  by_cases hone : config.totalInstances ≤ 1
  · simp only [if_pos hone]
  · simp only [if_neg hone]
    cases hmode : config.mode with
    | broadcast => simp only [Dict.set_set]
    | flushOrder =>
      by_cases hseen : clientId ∈ s.seenEof
      · simp only [if_pos hseen]
      · simp only [if_neg hseen, Finset.mem_insert_self, if_true]

/-- An announced EOF is noted once. -/
theorem onEofReceived_twice (ctrl : ControlMessage) :
    ((s.onEofReceived config clientId ctrl count forwarded).1.onEofReceived config clientId ctrl
      count forwarded).1 =
      (s.onEofReceived config clientId ctrl count forwarded).1 := by
  unfold onEofReceived
  by_cases hpending : s.pendingEof.contains clientId = true
  · simp only [if_pos hpending]
  · have hnow : (s.pendingEof.set clientId (ctrl.expectedTotal, ctrl.senderId)).contains clientId =
        true := by
      rw [Dict.contains, Dict.get?_set_self]
      rfl
    simp only [if_neg hpending, hnow, if_true]

end EofCoordinator

/-! ## Workers with a coordinator -/

/-- A worker state that holds a coordinator. -/
structure CoordinatedState (σ ς : Type) extends DictState σ ς where
  config : CoordinatorConfig
  coordinator : σ → EofCoordinator
  withCoordinator : σ → EofCoordinator → σ

/-- A change is `first`, or a compound that begins with it. -/
inductive BeginsWith (first : Value) : Value → Prop where
  | alone : BeginsWith first first
  | bundled (rest : List Value) : BeginsWith first (compoundChange (first :: rest))

namespace CoordinatedState

variable {σ ς : Type} (w : CoordinatedState σ ς)

/-- The live state after `business_fn` has called the coordinator. -/
def called (s : σ) (call : EofCoordinator → EofCoordinator) : σ :=
  w.withCoordinator s (call (w.coordinator s))

/-- The call that `business_fn` makes for an upstream EOF. -/
def upstreamEofCall (clientId expectedTotal count forwarded : Nat) (s : EofCoordinator) :
    EofCoordinator :=
  (s.onUpstreamEof w.config clientId expectedTotal count forwarded).1

/-- The call that `business_fn` makes for an announced EOF. -/
def eofReceivedCall (clientId : Nat) (ctrl : ControlMessage) (count forwarded : Nat)
    (s : EofCoordinator) :
    EofCoordinator :=
  (s.processControlMessage w.config .eofReceived clientId ctrl count forwarded).1

/-- Replay equals live: on any state, every change that is built, and every change of an EOF for
which the live `business_fn` had called the coordinator already. -/
structure ReplayEqualsLive : Prop where
  change : ∀ s change, w.Built change → w.ReplaysAs change s s
  upstreamEof : ∀ s clientId expectedTotal count forwarded change, w.Built change →
    BeginsWith (coordinatorUpstreamEofChange clientId expectedTotal count forwarded) change →
    w.ReplaysAs change s (w.called s (w.upstreamEofCall clientId expectedTotal count forwarded))
  eofReceived : ∀ s clientId ctrl count forwarded change, w.Built change →
    BeginsWith (coordinatorMsgChange .eofReceived clientId ctrl count forwarded) change →
    w.ReplaysAs change s (w.called s (w.eofReceivedCall clientId ctrl count forwarded))

/-- What the proofs use of a worker: it applies the change of an EOF by the call, and hands the
parts of a compound to itself. -/
structure Lawful : Prop extends w.toDictState.Lawful where
  compound : ∃ single, w.applyChange = applyNested single
  upstreamEof : ∀ s clientId expectedTotal count forwarded,
    w.live s (coordinatorUpstreamEofChange clientId expectedTotal count forwarded) =
      (.ok (), w.called s (w.upstreamEofCall clientId expectedTotal count forwarded))
  eofReceived : ∀ s clientId ctrl count forwarded,
    w.live s (coordinatorMsgChange .eofReceived clientId ctrl count forwarded) =
      (.ok (), w.called s (w.eofReceivedCall clientId ctrl count forwarded))
  called_called : ∀ s call, (∀ c, call (call c) = call c) → w.called (w.called s call) call =
    w.called s call

variable {w}

/-- A call that is made a second time when its change is applied. -/
theorem Lawful.live_called (h : w.Lawful) {call : EofCoordinator → EofCoordinator}
    {first change : Value}
    (hcall : ∀ c, call (call c) = call c) (hfirst : ∀ s, w.live s first = (.ok (), w.called s call))
    (hb : BeginsWith first change) (s : σ) : w.live s change = w.live (w.called s call) change := by
  obtain ⟨single, hsingle⟩ := h.compound
  have hsame : w.live s first = w.live (w.called s call) first := by
    rw [hfirst, hfirst, h.called_called s call hcall]
  cases hb with
  | alone => exact hsame
  | bundled rest =>
    unfold DictState.live at hsame ⊢
    rw [hsingle] at hsame ⊢
    exact exec_compoundChange_congr hsame rest

theorem Lawful.replayEqualsLive (h : w.Lawful) : w.ReplayEqualsLive where
  change _ _ hc := h.replaysAs hc rfl
  upstreamEof s clientId expectedTotal count forwarded _ hc hb :=
    h.replaysAs hc (h.live_called (fun c => c.onUpstreamEof_twice ..)
      (fun s => h.upstreamEof s clientId expectedTotal count forwarded) hb s)
  eofReceived s clientId ctrl count forwarded _ hc hb :=
    h.replaysAs hc (h.live_called (fun c => c.onEofReceived_twice ..)
      (fun s => h.eofReceived s clientId ctrl count forwarded) hb s)

end CoordinatedState

end MoneyLaundering
