import MoneyLaundering.Eof.Speculation
import MoneyLaundering.ScatterGather.Q4FilterWorker

/-!
# Speculation in `q4_filter`

`Q4FilterState` with its coordinator among the objects of the process. The business functions of an
upstream `EOF` and of a `PROCESSED_ANSWER` call the coordinator, restore it, and build the outputs
from the action; the same call is made again when the change is applied, and when it is replayed.
The outputs are those of the applied transition, as long as the call can make its packet. When it
cannot, the business function raises before it restores the coordinator.
-/

namespace MoneyLaundering

/-- `Q4FilterState`, with its coordinator by reference. -/
structure SharedQ4State where
  coordinator : SharedCoordinator
  byClient : Dict Nat Q4FilterClient
  closedByClient : Finset Nat

namespace SharedQ4State

/-- What can be observed of the state. -/
def view (s : SharedQ4State) : Q4FilterState := ⟨s.coordinator.view, s.byClient, s.closedByClient⟩

/-! ## Business functions -/

/-- The inputs whose `bfn` asks the coordinator. -/
inductive Input where
  | upstreamEof (clientId expectedTotal : Nat)
  | processedAnswer (clientId : Nat) (ctrl : ControlMessage)

namespace Input

/-- The change that logs the call. The counts are read before. -/
def op (s : Q4FilterState) : Input → WorkerOp (List Char)
  | .upstreamEof clientId expectedTotal =>
    .coordinatorUpstreamEof clientId expectedTotal (s.processedCount clientId)
      (s.forwardedTotal clientId)
  | .processedAnswer clientId ctrl => .coordinatorMsg .processedAnswer clientId ctrl 0 0

variable (cfg : Q4FilterConfig)

/-- The change and the outputs that `bfn` makes of the action. -/
def outcome (s : Q4FilterState) (input : Input) (action : Option CoordinatorAction) :
    Except String (Q4FilterChange × List LogicalOutput) :=
  match input, action with
  | .upstreamEof .., some (.sendAnswer queueName message) => do
    return (.single (input.op s), ← actionOutputs (.sendAnswer queueName message))
  | .upstreamEof clientId _, some (.flush ..) => do
    return (.compound [input.op s, .close clientId], ← cfg.buildEofOutputs s clientId)
  | .processedAnswer .., some (.broadcast queueNames message sleep) => do
    return (.single (input.op s), ← actionOutputs (.broadcast queueNames message sleep))
  | _, _ => .ok (.single (input.op s), [])

/-- The business function on the contents of the maps. -/
def businessFn : Input → BusinessFn Q4FilterState Q4FilterChange
  | .upstreamEof clientId expectedTotal => cfg.upstreamEofBusiness clientId expectedTotal
  | .processedAnswer clientId ctrl => cfg.processedAnswerBusiness clientId ctrl

end Input

variable (cfg : Q4FilterConfig)

/-- `bfn`: the coordinator that it leaves, and the change and the outputs if it returns. -/
def business (s : SharedQ4State) (input : Input) :
    SharedQ4State × Except String (Q4FilterChange × List LogicalOutput) :=
  let (c, result) := s.coordinator.speculate cfg.coordinator (input.op s.view)
  ({ s with coordinator := c }, result >>= input.outcome cfg s.view)

/-- `apply_change`, for one change. -/
def applyOp (s : SharedQ4State) (op : WorkerOp (List Char)) : SharedQ4State :=
  match op with
  | .data .. | .close .. =>
    let s' := s.view.applyOp cfg op
    { s with byClient := s'.byClient, closedByClient := s'.closedByClient }
  | op => { s with coordinator := (s.coordinator.call cfg.coordinator op).1 }

section refinement
variable {cfg} {s : SharedQ4State} (h : s.coordinator.Sound)

include h

/-- A change does to the contents what it does to the state. -/
theorem view_applyOp (op : WorkerOp (List Char)) :
    (s.applyOp cfg op).view = s.view.applyOp cfg op := by
  cases op with
  | data clientId payload =>
    have hkeep : (s.view.applyOp cfg (.data clientId payload)).coordinator =
        s.coordinator.view := by
      simp only [Q4FilterState.applyOp, Q4FilterState.applyData]
      split
      · rfl
      · split <;> rfl
    exact congrArg (fun c => Q4FilterState.mk c _ _) hkeep.symm
  | close clientId => rfl
  | coordinatorUpstreamEof | coordinatorMsg | coordinatorCleanup =>
    simp only [applyOp, view, (SharedCoordinator.runs_call h _).1.view]
    rfl

omit h in
/-- What the coordinator can decide on an input. -/
theorem action_cases (v : Q4FilterState) (input : Input) :
    match input with
    | .upstreamEof clientId _ =>
      ((input.op v).action cfg.coordinator v.coordinator = none ∧
        clientId ∈ v.coordinator.seenEof) ∨
      (∃ total, (input.op v).action cfg.coordinator v.coordinator = some (.flush true total "")) ∨
      (input.op v).action cfg.coordinator v.coordinator = some (.sendAnswer
        (cfg.coordinator.responseQueueFor cfg.coordinator.leaderId)
        (EofCoordinator.buildAnswer cfg.coordinator
          clientId (v.processedCount clientId) (v.forwardedTotal clientId)))
    | .processedAnswer clientId _ =>
      (input.op v).action cfg.coordinator v.coordinator = none ∨
      ∃ expected enough, (input.op v).action cfg.coordinator v.coordinator =
        some (EofCoordinator.roundBroadcast cfg.coordinator clientId expected enough) := by
  cases input with
  | upstreamEof clientId expectedTotal =>
    simp only [Input.op, WorkerOp.action, EofCoordinator.onUpstreamEof]
    split
    · exact .inr (.inl ⟨_, rfl⟩)
    · simp only [Q4FilterConfig.coordinator]
      split
      · next hseen => exact .inl ⟨rfl, hseen⟩
      · exact .inr (.inr rfl)
  | processedAnswer clientId ctrl => exact EofCoordinator.onProcessedAnswer_cases _ _ _ _

/-- `bfn` returns what the business function on the contents returns. -/
theorem business_eq (input : Input) : (s.business cfg input).2 = input.businessFn cfg s.view := by
  have hresult : (s.business cfg input).2 =
      (s.coordinator.speculate cfg.coordinator (input.op s.view)).2 >>= input.outcome cfg s.view :=
        rfl
  rw [hresult, SharedCoordinator.speculate_result h]
  have hcases := @action_cases cfg s.view input
  cases input with
  | upstreamEof clientId expectedTotal =>
    have haction : (Input.op s.view (.upstreamEof clientId expectedTotal)).action cfg.coordinator
        s.coordinator.view =
        (s.view.coordinator.onUpstreamEof cfg.coordinator clientId expectedTotal
          (s.view.processedCount clientId) (s.view.forwardedTotal clientId)).2 := rfl
    simp only [Input.businessFn, Q4FilterConfig.upstreamEofBusiness]
    rw [haction]
    rcases hcases with ⟨hnone, -⟩ | ⟨total, hflush⟩ | hsend
    · rw [show (s.view.coordinator.onUpstreamEof _ _ _ _ _).2 = none from hnone]
      rfl
    · rw [show (s.view.coordinator.onUpstreamEof _ _ _ _ _).2 = _ from hflush]
      rfl
    · rw [show (s.view.coordinator.onUpstreamEof _ _ _ _ _).2 = _ from hsend]
      simp only [SharedCoordinator.made, SharedCoordinator.packed, actionOutputs]
      cases hm :
        (EofCoordinator.buildAnswer cfg.coordinator clientId (s.view.processedCount clientId)
        (s.view.forwardedTotal clientId)).toBytes with
      | error e => rfl
      | ok body =>
        simp only [Except.ok_bind, pure, Except.pure, Input.outcome, actionOutputs, hm]
        rfl
  | processedAnswer clientId ctrl =>
    have haction : (Input.op s.view (.processedAnswer clientId ctrl)).action cfg.coordinator
        s.coordinator.view =
        (s.view.coordinator.processControlMessage cfg.coordinator .processedAnswer clientId
          ctrl 0 0).2 := rfl
    simp only [Input.businessFn, Q4FilterConfig.processedAnswerBusiness]
    rw [haction]
    rcases hcases with hnone | ⟨expected, enough, hsend⟩
    · rw [show (s.view.coordinator.processControlMessage _ _ _ _ _ _).2 = none from hnone]
      rfl
    · rw [show (s.view.coordinator.processControlMessage _ _ _ _ _ _).2 = _ from hsend]
      simp only [SharedCoordinator.made, SharedCoordinator.packed, actionOutputs,
        EofCoordinator.roundBroadcast]
      cases hm : (EofCoordinator.roundEnd cfg.coordinator clientId expected enough).toBytes with
      | error e => rfl
      | ok body =>
        simp only [Except.ok_bind, pure, Except.pure, Input.outcome, actionOutputs, hm]
        rfl

end refinement

/-! ## Reachable states -/

/-- Fields of a control message hold four bytes. -/
def OnWire : WorkerOp (List Char) → Prop
  | .coordinatorUpstreamEof _ expectedTotal _ _ => expectedTotal < 256 ^ 4
  | _ => True

/-- An input that was read from a packet. -/
def Input.OnWire : Input → Prop
  | .upstreamEof clientId expectedTotal => clientId < 256 ^ 16 ∧ expectedTotal < 256 ^ 4
  | .processedAnswer clientId _ => clientId < 256 ^ 16

/-- The states of a worker: changes are applied when they are logged and when they are replayed,
business functions run before that and may be all that happens, the handler takes snapshots, and a
recovery restores one of them in a new process. -/
inductive Reachable : SharedQ4State → Prop
  | start (heap : ObjectHeap) : Reachable ⟨.build heap {}, ∅, ∅⟩
  | business {s : SharedQ4State} {input : Input} (hs : Reachable s) (hw : input.OnWire) :
      Reachable (s.business cfg input).1
  | apply {s : SharedQ4State} {op : WorkerOp (List Char)} (hs : Reachable s) (hw : OnWire op) :
      Reachable (s.applyOp cfg op)
  | snapshot {s : SharedQ4State} (hs : Reachable s) :
      Reachable { s with coordinator := ⟨s.coordinator.snapshot.1, s.coordinator.refs⟩ }
  | recover {s : SharedQ4State} (heap : ObjectHeap) (hs : Reachable s) :
      Reachable { s with coordinator := .build heap s.coordinator.view }

/-- What holds of every reachable state. -/
structure Inv (s : SharedQ4State) : Prop where
  sound : s.coordinator.Sound
  expected : ∀ clientId expected, s.coordinator.view.leaderExpected.get? clientId = some expected →
    expected < 256 ^ 4

variable {cfg} {s : SharedQ4State}

/-- What is expected of a client came with its upstream `EOF`. -/
theorem expected_applyCoordinator {ccfg : CoordinatorConfig} {v : EofCoordinator}
    {op : WorkerOp (List Char)}
    (hw : OnWire op) (hv : ∀ clientId expected, v.leaderExpected.get? clientId = some expected →
      expected < 256 ^ 4) {clientId expected : Nat}
    (h : (op.applyCoordinator ccfg v).leaderExpected.get? clientId = some expected) :
    expected < 256 ^ 4 := by
  have hset : ∀ {clientId' total : Nat}, total < 256 ^ 4 →
      (v.leaderExpected.set clientId' total).get? clientId = some expected →
      expected < 256 ^ 4 := by
    intro clientId' total ht hget
    rw [Dict.get?_set] at hget
    split at hget
    · cases hget
      exact ht
    · exact hv _ _ hget
  cases op with
  | data | close | coordinatorCleanup => exact hv _ _ h
  | coordinatorUpstreamEof clientId' total count forwarded =>
    simp only [WorkerOp.applyCoordinator, EofCoordinator.onUpstreamEof] at h
    split at h
    · exact hv _ _ h
    · split at h
      · exact hset hw h
      · split at h
        · exact hv _ _ h
        · dsimp only at h
          split at h
          · exact hset hw h
          · exact hv _ _ h
  | coordinatorMsg msgType clientId' ctrl count forwarded =>
    by_cases ht : msgType = .flushAck
    · subst ht
      rcases EofCoordinator.get?_leaderExpected_onFlushAck ccfg v clientId' ctrl with hsame |
        ⟨-, herase⟩
      · exact hv _ _ (hsame ▸ h)
      · change (v.onFlushAck ccfg clientId' ctrl).1.leaderExpected.get? clientId = _ at h
        rw [herase, Dict.get?_erase] at h
        split at h
        · cases h
        · exact hv _ _ h
    · have hsame :=
        EofCoordinator.leaderExpected_processControlMessage ht ccfg v clientId' ctrl count forwarded
      exact hv _ _ (hsame ▸ h)

theorem Inv.applyOp (h : Inv s) {op : WorkerOp (List Char)} (hw : OnWire op) :
    Inv (s.applyOp cfg op) := by
  have hview := @view_applyOp cfg s h.sound op
  have hsound : (s.applyOp cfg op).coordinator.Sound := by
    cases op with
    | data | close => exact h.sound
    | coordinatorUpstreamEof | coordinatorMsg | coordinatorCleanup =>
      exact (SharedCoordinator.runs_call h.sound _).1.sound
  have hcoord : (s.applyOp cfg op).coordinator.view =
      op.applyCoordinator cfg.coordinator s.coordinator.view := by
    cases op with
    | data | close => rfl
    | coordinatorUpstreamEof | coordinatorMsg | coordinatorCleanup =>
      exact (SharedCoordinator.runs_call h.sound _).1.view
  exact ⟨hsound, fun _ _ hget => expected_applyCoordinator hw h.expected (hcoord ▸ hget)⟩

theorem Input.OnWire.op {input : Input} (hw : input.OnWire) (v : Q4FilterState) :
    SharedQ4State.OnWire (input.op v) := by
  cases input with
  | upstreamEof clientId expectedTotal => exact hw.2
  | processedAnswer clientId ctrl => trivial

theorem Inv.business (h : Inv s) {input : Input} (hw : input.OnWire) :
    Inv (s.business cfg input).1 := by
  refine ⟨SharedCoordinator.sound_speculate h.sound _, ?_⟩
  change ∀ clientId expected,
    (s.coordinator.speculate cfg.coordinator (input.op s.view)).1.view.leaderExpected.get?
    clientId = some expected → _
  cases hm :
    SharedCoordinator.made ((input.op s.view).action cfg.coordinator s.coordinator.view) with
  | ok action =>
    rw [SharedCoordinator.view_speculate h.sound hm]
    exact h.expected
  | error e =>
    rw [SharedCoordinator.view_speculate_error h.sound hm]
    exact fun _ _ hget => expected_applyCoordinator (hw.op s.view) h.expected hget

theorem Reachable.inv (hs : Reachable cfg s) : Inv s := by
  induction hs with
  | start heap =>
    refine ⟨SharedCoordinator.sound_build heap _, fun clientId expected hget => ?_⟩
    rw [SharedCoordinator.view_build] at hget
    cases hget
  | business _ hw ih => exact ih.business hw
  | apply _ hw ih => exact ih.applyOp hw
  | snapshot _ ih =>
    obtain ⟨hsound, hview, -⟩ := SharedCoordinator.sound_snapshot ih.sound
    exact ⟨hsound, hview ▸ ih.expected⟩
  | recover heap _ ih =>
    exact ⟨SharedCoordinator.sound_build heap _,
      (SharedCoordinator.view_build heap _).symm ▸ ih.expected⟩

/-! ## Exact calls -/

/-- An answer is the last one of a round. -/
def EndsRound (cfg : Q4FilterConfig) (v : EofCoordinator) (clientId : Nat) (ctrl : ControlMessage) :
    Prop :=
  ctrl.senderId ∉ v.leaderResponders.getD clientId ∅ ∧ v.leaderExpected.contains clientId ∧
    cfg.deployment.filterAmount ≤ (insert ctrl.senderId (v.leaderResponders.getD clientId ∅)).card

/-- The packet of the call, if there is one, has fields that fit: the answer to the first `EOF` of a
client carries the counts of the replica, and the end of a round its id. -/
def Input.Fits (cfg : Q4FilterConfig) (v : Q4FilterState) : Input → Prop
  | .upstreamEof clientId _ =>
    cfg.deployment.filterAmount ≤ 1 ∨ clientId ∈ v.coordinator.seenEof ∨
      cfg.id < 256 ^ 4 ∧ v.processedCount clientId < 256 ^ 4 ∧ v.forwardedTotal clientId < 256 ^ 4
  | .processedAnswer clientId ctrl => cfg.id < 256 ^ 4 ∨ ¬ EndsRound cfg v.coordinator clientId ctrl

/-- The call that `apply_change` makes on an input returns the action. -/
def Returns (cfg : Q4FilterConfig) (v : Q4FilterState) (input : Input) (s : SharedQ4State)
    (action : Option CoordinatorAction) : Prop :=
  (s.coordinator.call cfg.coordinator (input.op v)).2 = .ok action

/-- The speculative call leaves the state as it is, and decides as the later calls do: `bfn` makes
the outputs of the action that the live call returns, and so does every call on the same state, in
replay. They all leave the same state. -/
structure Exact (cfg : Q4FilterConfig) (s : SharedQ4State) (input : Input) : Prop where
  unchanged : (s.business cfg input).1.view = s.view
  applied : ∃ action,
    (s.business cfg input).2 = input.outcome cfg s.view action ∧
    Returns cfg s.view input (s.business cfg input).1 action ∧
    ∀ s', Reachable cfg s' → s'.view = s.view → Returns cfg s.view input s' action ∧
      (s'.applyOp cfg (input.op s.view)).view =
        ((s.business cfg input).1.applyOp cfg (input.op s.view)).view

/-- The answer that ends a round is the one with an action. -/
theorem exists_action_iff {v : EofCoordinator} {clientId : Nat} {ctrl : ControlMessage} :
    (∃ a, (v.onProcessedAnswer cfg.coordinator clientId ctrl).2 = some a) ↔
    EndsRound cfg v clientId ctrl := by
  constructor
  · rintro ⟨a, ha⟩
    obtain ⟨hnew, expected, hexp, hcard, -⟩ :=
      EofCoordinator.onProcessedAnswer_action v clientId ctrl ha
    exact ⟨hnew, by simp [Dict.contains, hexp], hcard⟩
  · rintro ⟨hnew, hcontains, hcard⟩
    obtain ⟨expected, hexp⟩ := Option.isSome_iff_exists.mp hcontains
    have hlast : ¬ (insert ctrl.senderId (v.leaderResponders.getD clientId ∅)).card <
        cfg.coordinator.totalInstances := not_lt.mpr hcard
    simp only [EofCoordinator.onProcessedAnswer, if_neg hnew, hexp, if_neg hlast]
    split <;> exact ⟨_, rfl⟩

theorem fits_iff (h : Inv s) {input : Input} (hw : input.OnWire) :
    (∀ a, (input.op s.view).action cfg.coordinator s.coordinator.view = some a → a.Fits) ↔
      input.Fits cfg s.view := by
  have hcases := @action_cases cfg s.view input
  have hview : s.view.coordinator = s.coordinator.view := rfl
  cases input with
  | upstreamEof clientId expectedTotal =>
    simp only [Input.op, WorkerOp.action, EofCoordinator.onUpstreamEof, Input.Fits, hview]
    by_cases hone : cfg.deployment.filterAmount ≤ 1
    · have htotal : cfg.coordinator.totalInstances ≤ 1 := hone
      simp [if_pos htotal, hone, CoordinatorAction.Fits]
    · have htotal : ¬ cfg.coordinator.totalInstances ≤ 1 := hone
      rw [if_neg htotal]
      change (∀ a, (if clientId ∈ s.coordinator.view.seenEof then _ else _ :
        EofCoordinator × Option CoordinatorAction).2 = some a → a.Fits) ↔ _
      by_cases hseen : clientId ∈ s.coordinator.view.seenEof
      · simp [hseen]
      · rw [if_neg hseen]
        simp only [hone, hseen, false_or, Option.some.injEq, forall_eq']
        exact ⟨fun hf => ⟨hf.2.1, hf.2.2.2, hf.2.2.1⟩, fun hf => ⟨hw.1, hf.1, hf.2.2, hf.2.1⟩⟩
  | processedAnswer clientId ctrl =>
    have haction : (Input.op s.view (.processedAnswer clientId ctrl)).action cfg.coordinator
        s.coordinator.view =
        (s.coordinator.view.onProcessedAnswer cfg.coordinator clientId ctrl).2 := rfl
    rw [haction]
    simp only [Input.Fits, hview, ← exists_action_iff, not_exists]
    constructor
    · intro hf
      by_contra hnot
      obtain ⟨hid, hsome⟩ := not_or.mp hnot
      push Not at hsome
      obtain ⟨a, ha⟩ := hsome
      obtain ⟨-, expected, -, -, rfl, -⟩ :=
        EofCoordinator.onProcessedAnswer_action _ clientId ctrl ha
      exact hid (hf _ ha).2.1
    · rintro (hid | hnone) a ha
      · obtain ⟨-, expected, hexp, -, rfl, -⟩ :=
          EofCoordinator.onProcessedAnswer_action _ clientId ctrl ha
        refine ⟨hw, hid, ?_, Nat.pow_pos (by decide)⟩
        change (if _ then 0 else expected) < _
        split
        · decide
        · exact h.expected _ _ hexp
      · exact absurd ha (hnone a)

theorem exact_of_fits (hs : Reachable cfg s) {input : Input} (hw : input.OnWire)
    (hf : input.Fits cfg s.view) :
    Exact cfg s input := by
  have hinv := hs.inv
  have hmade := SharedCoordinator.made_eq_ok_iff.mpr ((fits_iff hinv hw).mpr hf)
  have hview : (s.business cfg input).1.view = s.view :=
    congrArg (fun c => Q4FilterState.mk c _ _) (SharedCoordinator.view_speculate hinv.sound hmade)
  have hreturns : ∀ s', Reachable cfg s' → s'.view = s.view → Returns cfg s.view input s'
      ((input.op s.view).action cfg.coordinator s.coordinator.view) := by
    intro s' hs' hv
    have hcoord : s'.coordinator.view = s.coordinator.view := congrArg Q4FilterState.coordinator hv
    rw [Returns, (SharedCoordinator.runs_call hs'.inv.sound _).2, hcoord]
    exact hmade
  refine ⟨hview, _, ?_, hreturns _ (hs.business hw) hview, fun s' hs' hv =>
    ⟨hreturns s' hs' hv, ?_⟩⟩
  · have hresult : (s.business cfg input).2 =
        (s.coordinator.speculate cfg.coordinator (input.op s.view)).2 >>=
          input.outcome cfg s.view := rfl
    rw [hresult, SharedCoordinator.speculate_result hinv.sound, hmade, Except.ok_bind]
  · rw [view_applyOp hs'.inv.sound, view_applyOp (hs.business hw).inv.sound, hv, hview]

/-- A call whose packet cannot be made does not return. -/
theorem fits_of_exact (hs : Reachable cfg s) {input : Input} (hw : input.OnWire)
    (h : Exact cfg s input) :
    input.Fits cfg s.view := by
  obtain ⟨action, -, -, hreplay⟩ := h.applied
  have hreturns := (hreplay s hs rfl).1
  rw [Returns, (SharedCoordinator.runs_call hs.inv.sound _).2] at hreturns
  rw [SharedCoordinator.eq_of_made hreturns] at hreturns
  exact (fits_iff hs.inv hw).mp (SharedCoordinator.made_eq_ok_iff.mp hreturns)

/-- In every reachable state, the speculative call on an input is exact if and only if the packet of
the call can be made. -/
theorem speculation_exact_iff (hs : Reachable cfg s) {input : Input} (hw : input.OnWire) :
    Exact cfg s input ↔ input.Fits cfg s.view :=
  ⟨fits_of_exact hs hw, exact_of_fits hs hw⟩

/-- An upstream `EOF` whose answer has no packet is counted as seen. When it is delivered again it
is logged without an answer. -/
theorem business_again (hs : Reachable cfg s) {clientId expectedTotal : Nat}
    (hw : Input.OnWire (.upstreamEof clientId expectedTotal))
    (hf : ¬ Input.Fits cfg s.view (.upstreamEof clientId expectedTotal)) :
    ((s.business cfg (.upstreamEof clientId expectedTotal)).1.business cfg
      (.upstreamEof clientId expectedTotal)).2 =
      .ok (.single (Input.op s.view (.upstreamEof clientId expectedTotal)), []) := by
  have hinv := hs.inv
  obtain ⟨hone, hfirst⟩ := not_or.mp hf
  have hmode : ¬ cfg.coordinator.totalInstances ≤ 1 := hone
  have hseen : clientId ∉ s.coordinator.view.seenEof := (not_or.mp hfirst).1
  have hraised :
      ∃ e, SharedCoordinator.made ((Input.op s.view (.upstreamEof clientId expectedTotal)).action
      cfg.coordinator s.coordinator.view) = .error e := by
    cases hm :
      SharedCoordinator.made ((Input.op s.view (.upstreamEof clientId expectedTotal)).action
        cfg.coordinator s.coordinator.view) with
    | error e => exact ⟨e, rfl⟩
    | ok action =>
      rw [SharedCoordinator.eq_of_made hm] at hm
      exact absurd ((fits_iff hinv hw).mp (SharedCoordinator.made_eq_ok_iff.mp hm)) hf
  obtain ⟨e, he⟩ := hraised
  have hleft : (s.business cfg (.upstreamEof clientId expectedTotal)).1.coordinator.view.seenEof =
      insert clientId s.coordinator.view.seenEof := by
    have hcoord : (s.business cfg (.upstreamEof clientId expectedTotal)).1.coordinator =
        (s.coordinator.speculate cfg.coordinator
          (Input.op s.view (.upstreamEof clientId expectedTotal))).1 := rfl
    rw [hcoord, SharedCoordinator.view_speculate_error hinv.sound he]
    have hwait : cfg.coordinator.mode = .flushOrder := rfl
    simp only [Input.op, WorkerOp.applyCoordinator, EofCoordinator.onUpstreamEof,
      if_neg hmode, hwait, if_neg hseen]
  rw [business_eq (hinv.business hw).sound]
  have hnone : ∀ processed forwarded,
      ((s.business cfg (.upstreamEof clientId expectedTotal)).1.view.coordinator.onUpstreamEof
        cfg.coordinator clientId expectedTotal processed forwarded).2 = none := by
    intro processed forwarded
    have hmem : clientId ∈
        (s.business cfg (.upstreamEof clientId expectedTotal)).1.view.coordinator.seenEof := by
      change clientId ∈
        (s.business cfg (.upstreamEof clientId expectedTotal)).1.coordinator.view.seenEof
      rw [hleft]
      exact Finset.mem_insert_self _ _
    have hwait : cfg.coordinator.mode = .flushOrder := rfl
    simp only [EofCoordinator.onUpstreamEof, if_neg hmode, hwait, if_pos hmem]
  simp only [Input.businessFn, Q4FilterConfig.upstreamEofBusiness]
  rw [hnone]
  rfl

/-! The leader of two replicas, and a client whose payments are repeated. -/

def flooded : Q4FilterConfig where
  deployment := { Q4Config.smallest with filterAmount := 2, filterAmount_pos := Nat.two_pos }
  id := 0
  q4FilterPrefix := "q4_filter"
  snapshotInterval := 1000
  sha256 _ := []
  changeJson := .ofTable []

/-- A payment of account `1`. -/
def payment (target : String) : Bytes :=
  (TransactionSerializer.serialize ⟨"2022/09/01 00:00:00", "7", "1", "7", target, 0,
    "US Dollar", "ACH", 0⟩).toOption.getD []

def paymentEdge (target : String) : Q4TransactionEdge := ⟨⟨"7", "1"⟩, ⟨"7", target⟩⟩

theorem edgesOf_payments {targets : List String}
    (h : (flooded.edgesOf (targets.flatMap payment)).toOption = some (targets.map paymentEdge)) :
    flooded.edgesOf (targets.flatMap payment) = .ok (targets.map paymentEdge) := by
  cases hm : flooded.edgesOf (targets.flatMap payment) with
  | error e => rw [hm] at h; cases h
  | ok edges => rw [hm] at h; exact congrArg Except.ok (Option.some.inj h)

/-- The account that pays has enough targets, and `m` edges were forwarded for it. -/
structure Flooded (s : SharedQ4State) (m processed : Nat) : Prop where
  reachable : Reachable flooded s
  fresh : s.view.coordinator = {}
  opened : 7 ∉ s.view.closedByClient
  qualified : ((s.view.client 7).sources.getD ⟨"7", "1"⟩ {}).qualified = true
  forwarded : (s.view.client 7).forwardedByPartition = Dict.ofList [(0, m)]
  processed : s.view.processedCount 7 = processed

/-- The client of a worker after a batch of payments. -/
theorem client_applyOp {s : SharedQ4State} (hs : Reachable flooded s)
    (hopen : 7 ∉ s.view.closedByClient) (targets : List String)
    (hread : flooded.edgesOf (targets.flatMap payment) = .ok (targets.map paymentEdge)) :
    (s.applyOp flooded (.data 7 (Base64.encode (targets.flatMap payment)))).view =
      { s.view with
        byClient := s.byClient.set 7
          (Q4Filter.applyData flooded.deployment (s.view.client 7)
            (targets.map paymentEdge)) } := by
  rw [view_applyOp hs.inv.sound]
  simp only [Q4FilterState.applyOp, Q4FilterState.applyData, if_neg hopen, Base64.decode_encode,
    Option.getD_some, hread]
  rfl

theorem Flooded.payment {s : SharedQ4State} {m processed : Nat} (h : Flooded s m processed) :
    Flooded (s.applyOp flooded (.data 7 (Base64.encode (["2"].flatMap payment)))) (m +
      2) (processed + 1) := by
  have hview := client_applyOp h.reachable h.opened ["2"] (edgesOf_payments (by decide +kernel))
  have hclient : (s.applyOp flooded
      (.data 7 (Base64.encode (["2"].flatMap SharedQ4State.payment)))).view.client 7 =
      Q4Filter.applyData flooded.deployment (s.view.client 7) [paymentEdge "2"] := by
    rw [hview]
    simp [Q4FilterState.client, Dict.getD_set]
  -- a payment of the account is forwarded at once, as two edges
  have hgate : gateEmit
      ((s.view.client 7).sources.getD (paymentEdge "2").source {}) (paymentEdge "2") =
      ((s.view.client 7).sources.getD ⟨"7", "1"⟩ {}, countedFor (paymentEdge "2")) := by
    simp only [gateEmit, paymentEdge, h.qualified, if_true]
  have happly : Q4Filter.applyData flooded.deployment (s.view.client 7) [paymentEdge "2"] =
      { sources := (s.view.client 7).sources.set ⟨"7",
        "1"⟩ ((s.view.client 7).sources.getD ⟨"7", "1"⟩ {})
        forwardedByPartition := Dict.ofList [(0, m + 2)]
        processed := (s.view.client 7).processed + 1 } := by
    simp only [Q4Filter.applyData, List.foldl_cons, List.foldl_nil, Q4Filter.applyEdge,
      gateStep, hgate, h.forwarded]
    rfl
  refine ⟨.apply h.reachable trivial, by rw [hview]; exact h.fresh, by rw [hview]; exact h.opened,
    ?_, ?_, ?_⟩
  · rw [hclient, happly, Dict.getD_set, if_pos rfl]
    exact h.qualified
  · rw [hclient, happly]
  · rw [Q4FilterState.processedCount, hclient, happly]
    exact congrArg (· + 1) h.processed

/-- Six payments reach enough targets; any number of payments can follow before the `EOF`. -/
theorem exists_flooded (n : Nat) : ∃ s, Flooded s (12 + 2 * n) (6 + n) := by
  induction n with
  | zero =>
    have hs : Reachable flooded ⟨.build {} {}, ∅, ∅⟩ := .start {}
    have hview := client_applyOp hs (Finset.notMem_empty 7) ["2", "3", "4", "5", "6", "7"]
      (edgesOf_payments (by decide +kernel))
    let op : WorkerOp (List Char) :=
      .data 7 (Base64.encode (["2", "3", "4", "5", "6", "7"].flatMap payment))
    have hreachable : Reachable flooded (SharedQ4State.applyOp flooded ⟨.build {} {}, ∅, ∅⟩ op) :=
      .apply hs trivial
    refine ⟨_, hreachable, ?_, ?_, ?_, ?_, ?_⟩
    · rw [hview]
      exact SharedCoordinator.view_build {} {}
    · rw [hview]
      exact Finset.notMem_empty 7
    · rw [hview]
      decide +kernel
    · rw [hview]
      decide +kernel
    · rw [hview]
      decide +kernel
  | succ n ih =>
    obtain ⟨s, hs⟩ := ih
    exact ⟨_, hs.payment⟩

theorem speculation_exact_iff_first : ∃ s, Reachable flooded s ∧
    (Exact flooded s (.upstreamEof 7 6) ↔ Input.Fits flooded s.view (.upstreamEof 7 6)) := by
  obtain ⟨s, hs⟩ := exists_flooded 0
  exact ⟨s, hs.reachable, speculation_exact_iff hs.reachable ⟨by decide, by decide⟩⟩

/-- The `EOF` of a client with `2 ^ 31` payments, which are `2 ^ 32` edges: the answer has no
packet. -/
theorem not_speculation_exact : ¬ ∀ (cfg : Q4FilterConfig) (s : SharedQ4State) (input : Input),
    Reachable cfg s → input.OnWire → Exact cfg s input := by
  intro hall
  obtain ⟨s, hs⟩ := exists_flooded (2 ^ 31 - 6)
  have hw : Input.OnWire (.upstreamEof 7 (2 ^ 31)) := ⟨by decide, by decide⟩
  rcases fits_of_exact hs.reachable hw (hall flooded s _ hs.reachable hw) with hone | hseen |
    ⟨-, -, hforwarded⟩
  · exact absurd hone (by decide)
  · rw [hs.fresh] at hseen
    exact Finset.notMem_empty 7 hseen
  · have htotal : s.view.forwardedTotal 7 = 12 + 2 * (2 ^ 31 - 6) := by
      rw [Q4FilterState.forwardedTotal, hs.forwarded]
      rfl
    rw [htotal] at hforwarded
    exact absurd hforwarded (by decide)

end SharedQ4State

end MoneyLaundering
