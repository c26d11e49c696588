import MoneyLaundering.FaultTolerance.DecodedRecords
import MoneyLaundering.FileSplitter.BatchSizes
import MoneyLaundering.FileSplitter.Delivery

/-!
# Files that come in order

The messages of a file are delivered for the first time one after the other, each once the one
before it is acked; everything that is acked may come again at any time. Then the branch of the
dispatch that acks without asking the inbox only sees chunks that are finished, and every message is
applied once, with the outputs that it has in the run without failures that takes the messages in
the order in which they were applied.
-/

namespace MoneyLaundering

open Bytes Runner

/-! ## The edges of what is emitted -/

namespace FileSplitterStateConfig

variable {cfg : FileSplitterStateConfig} {key : FileKey} {r r' : FileRun} {line : Bytes}
    {lines : List Bytes}

/-- An edge that the splitter has. -/
def OnEdge (cfg : FileSplitterStateConfig) (e : Emission) : Prop :=
  FileSplitterConfig.edgeOf e = lineBatchEdge ∨
    FileSplitterConfig.edgeOf e = accountsEdge ∧ cfg.accountsEnabled = true

/-- Lines of an accounts file are collected only when accounts are. -/
def Routed (cfg : FileSplitterStateConfig) (state : FileState) : Prop :=
  state.fileType ≠ none ∧
    (state.batchLines ≠ [] → state.fileType = some fileTypeAccounts → cfg.accountsEnabled = true)

/-- A run whose batches, emitted or in the making, are for edges of the splitter. -/
structure RunRouted (cfg : FileSplitterStateConfig) (r : FileRun) : Prop where
  state : cfg.Routed r.state
  out : ∀ e ∈ r.out, cfg.OnEdge e

theorem RunRouted.runFlush (h : cfg.RunRouted r) : cfg.RunRouted (runFlush key r) := by
  rcases runFlush_cases key r with ⟨-, hr⟩ | ⟨hne, hl, -, hft, -, hout⟩
  · rw [hr]
    exact h
  · refine ⟨⟨hft ▸ h.state.1, fun hne' => absurd hl hne'⟩, fun e he => ?_⟩
    rw [hout] at he
    rcases List.mem_append.mp he with he | he
    · exact h.out e he
    · rw [List.mem_singleton.mp he]
      change (if r.state.fileType = some fileTypeAccounts then accountsEdge else lineBatchEdge) =
        _ ∨ _
      split
      · next hacc => exact .inr ⟨rfl, h.state.2 hne hacc⟩
      · exact .inl rfl

theorem RunRouted.appendLine (h : cfg.RunRouted r) (hs : cfg.Started r.state) :
    cfg.RunRouted (appendLine r line) := by
  refine ⟨⟨h.state.1, fun _ hacc => ?_⟩, h.out⟩
  by_contra hno
  exact hs.2.2 ⟨hacc, by simpa using hno⟩

theorem RunRouted.runLine (h : cfg.RunRouted r) (hr : cfg.runLine key r line = .ok r') :
    cfg.RunRouted r' := by
  rcases runLine_cases h.state.1 hr with ⟨-, header, rfl⟩ | ⟨hs, rfl⟩
  · exact ⟨h.state, h.out⟩
  · have hc : cfg.RunRouted (countLine r) := ⟨h.state, h.out⟩
    rcases runAccumulate_cases cfg key (countLine r) line with ⟨-, hacc⟩ | ⟨hne, -, hacc⟩
    · rw [hacc]
      exact hc.appendLine hs
    · rw [hacc]
      refine hc.runFlush.appendLine ?_
      rcases runFlush_cases key (countLine r) with ⟨hnil, -⟩ | ⟨-, -, -, hft, hh, -⟩
      · exact absurd hnil hne
      · rw [Started, hft, hh]
        exact hs

theorem RunRouted.foldlM_runLine (h : cfg.RunRouted r)
    (hr : lines.foldlM (cfg.runLine key) r = .ok r') :
    cfg.RunRouted r' := by
  induction lines generalizing r with
  | nil =>
    cases hr
    exact h
  | cons line lines ih =>
    obtain ⟨r₁, hr₁, hr⟩ := Except.ok_of_bind hr
    exact ih (h.runLine hr₁) hr

end FileSplitterStateConfig

namespace FileSplitterState

open FileSplitterStateConfig

variable {cfg : FileSplitterStateConfig} {s s' : FileSplitterState} {out : List Emission}
    {key : FileKey}

def AllRouted (cfg : FileSplitterStateConfig) (s : FileSplitterState) : Prop :=
  ∀ key state, s.files.get? key = some state → cfg.Routed state

theorem AllRouted.finishAndRemove (h : s.AllRouted cfg) (hr : s.finishAndRemove cfg key =
    .ok (s', out)) :
    s'.AllRouted cfg ∧ ∀ e ∈ out, cfg.OnEdge e := by
  unfold FileSplitterState.finishAndRemove at hr
  split at hr
  · cases hr
    exact ⟨h, by intros; contradiction⟩
  · next state hget =>
    obtain ⟨r, hrun, hr⟩ := Except.ok_of_bind hr
    cases hr
    constructor
    · intro k st hst
      rw [Dict.get?_erase] at hst
      split at hst
      · cases hst
      · exact h k st hst
    · obtain ⟨⟨splitter, lines⟩, -, hrun⟩ := Except.ok_of_bind hrun
      obtain ⟨r₁, hlines, hrun⟩ := Except.ok_of_bind hrun
      have hstart : cfg.RunRouted
          { state := { state with splitter }, accountsCounts := s.accountsBatchesByClient } :=
        ⟨h key state hget, by intros; contradiction⟩
      have hrouted : cfg.RunRouted (runFlush key r₁) := (hstart.foldlM_runLine hlines).runFlush
      have hflush := hrouted.out
      dsimp only at hrun
      split at hrun
      · cases hrun
        intro e he
        rcases List.mem_append.mp he with he | he
        · exact hflush e he
        · rw [List.mem_singleton.mp he]
          exact .inl rfl
      · split at hrun
        · next hacc =>
          cases hrun
          intro e he
          rcases List.mem_append.mp he with he | he
          · exact hflush e he
          · rw [List.mem_singleton.mp he]
            exact .inr ⟨rfl, hacc.2⟩
        · cases hrun
          exact hflush

/-- The changes of a file keep every emission on an edge of the splitter. -/
theorem AllRouted.run (h : s.AllRouted cfg) {change : FileSplitterChange}
    (hc : (∃ clientId relPath fileType offset payload, change =
      .chunk clientId relPath fileType offset payload) ∨
      ∃ clientId relPath, change = .fileEof clientId relPath)
    (hr : s.run cfg change = .ok (s', out)) : s'.AllRouted cfg ∧ ∀ e ∈ out, cfg.OnEdge e := by
  rcases hc with ⟨clientId, relPath, fileType, offset, payload, rfl⟩ | ⟨clientId, relPath, rfl⟩
  · obtain ⟨r, hrun, hr⟩ := Except.ok_of_bind hr
    cases hr
    obtain ⟨state, hstate, hrun⟩ := Except.ok_of_bind hrun
    obtain ⟨⟨splitter, lines⟩, -, hrun⟩ := Except.ok_of_bind hrun
    obtain ⟨r₁, hlines, hrun⟩ := Except.ok_of_bind hrun
    cases hrun
    have hstart : cfg.RunRouted { state := { state with
        fileType := some (state.fileType.getD fileType), splitter }, accountsCounts :=
          s.accountsBatchesByClient } := by
      refine ⟨⟨nofun, fun hne hacc => ?_⟩, nofun⟩
      unfold stateFor at hstate
      split at hstate
      · next st hget =>
        cases hstate
        obtain ⟨hft, hrouted⟩ := h _ _ hget
        obtain ⟨ft, hft⟩ := Option.ne_none_iff_exists'.mp hft
        exact hrouted hne (by simpa [hft] using hacc)
      · obtain ⟨fresh, -, hstate⟩ := Except.ok_of_bind hstate
        cases hstate
        exact absurd rfl hne
    have hend := hstart.foldlM_runLine hlines
    refine ⟨fun k st hst => ?_, hend.out⟩
    rw [Dict.get?_set] at hst
    split at hst
    · cases hst
      exact hend.state
    · exact h k st hst
  · obtain ⟨⟨s₁, out₁⟩, h₁, hr⟩ := Except.ok_of_bind hr
    cases hr
    obtain ⟨hrouted, hout⟩ := h.finishAndRemove h₁
    exact ⟨hrouted, hout⟩

end FileSplitterState

/-! ## The records that apply an input -/

section applied
variable {σ ς Δ τ : Type} {cfg : HandlerConfig σ ς Δ} {V : View cfg.worker τ}
  {history history' : List (WalRecord Δ)} {n n₀ : Node σ ς Δ} {key : InputKey}
  {businessFn : BusinessFn σ Δ}

/-- What a call on a new input does. -/
theorem effect_of_new {effect : Handler.Effect σ ς Δ} (hnew : n.handler.inbox.classify key = .new)
    (he : n.effect cfg (.ok ⟨⟩) (.handle key businessFn) = .ok effect) :
    ∃ change logical outputs bytes, businessFn n.handler.workerState = .ok (change, logical) ∧
      n.handler.sequencer.stamp cfg.toSequencerConfig key.clientId
        (cfg.msgId key) logical = .ok outputs ∧
      Wal.encode cfg.json (.inputApplied (cfg.msgId key) key change outputs) = .ok bytes ∧
      effect.ops = [.append (.inputApplied (cfg.msgId key) key change outputs) bytes] := by
  simp only [Node.effect, Handler.handle, hnew] at he
  obtain ⟨⟨change, logical⟩, hb, he⟩ := Except.ok_of_bind he
  obtain ⟨outputs, hs, he⟩ := Except.ok_of_bind he
  obtain ⟨bytes, hwal, he⟩ := Except.ok_of_bind he
  cases he
  exact ⟨change, logical, outputs, bytes, hb, hs, (walAppend_eq_ok hwal).2, rfl⟩

/-- A node with the same applied inputs does the same with an input that is new to it. -/
theorem effect_same (hws : n₀.handler.workerState = n.handler.workerState)
    (hseq : n₀.handler.sequencer = n.handler.sequencer) (hnew : n.handler.inbox.classify key = .new)
    (hnew₀ : n₀.handler.inbox.classify key = .new) {effect : Handler.Effect σ ς Δ}
    (he : n.effect cfg (.ok ⟨⟩) (.handle key businessFn) = .ok effect) :
    ∃ effect₀, n₀.effect cfg (.ok ⟨⟩) (.handle key businessFn) = .ok effect₀ ∧
    effect₀.ops = effect.ops := by
  simp only [Node.effect, Handler.handle, hnew] at he
  obtain ⟨⟨change, logical⟩, hb, he⟩ := Except.ok_of_bind he
  obtain ⟨outputs, hs, he⟩ := Except.ok_of_bind he
  obtain ⟨bytes, hwal, he⟩ := Except.ok_of_bind he
  cases he
  simp only [Node.effect, Handler.handle, hnew₀, hws, hseq, hb, Except.ok_bind, hs, hwal]
  exact ⟨_, rfl, rfl⟩

/-- The end of an input that was recorded can be recorded. -/
theorem exists_effect_commitDone {change : Δ} {outputs : List OutboxEntry} {bytes : Bytes}
    (h : Wal.encode cfg.json (.inputApplied (cfg.msgId key) key change outputs) = .ok bytes) :
    ∃ effect, n.effect cfg (.ok ⟨⟩) (.commitDone key) = .ok effect := by
  obtain ⟨payload, hp, -⟩ := Except.ok_of_bind h
  unfold Wal.inputAppliedPayload at hp
  obtain ⟨_, -, hp⟩ := Except.ok_of_bind hp
  obtain ⟨hmsg, hp⟩ := Except.ok_of_raiseIf hp
  obtain ⟨-, hp⟩ := Except.ok_of_raiseIf hp
  obtain ⟨-, hp⟩ := Except.ok_of_raiseIf hp
  obtain ⟨_, -, hp⟩ := Except.ok_of_bind hp
  obtain ⟨_, hk, -⟩ := Except.ok_of_bind hp
  obtain ⟨h₁, h₂, h₃, -⟩ := Wal.keyBytes_eq_ok hk
  have hfits : Wal.Fits cfg.json (.inputDone (cfg.msgId key) key) := ⟨not_lt.mp hmsg, h₁, h₂, h₃⟩
  obtain ⟨bs, hbs⟩ := hfits.encode
  simp only [Node.effect, Handler.commitDone, Handler.walAppend, hbs, Except.ok_bind]
  exact ⟨_, rfl⟩

end applied

namespace FileSplitter

variable {cfg : FileSplitterConfig} {w : Workload} {f g : SplitFile} {i n : Nat}
    {st st' st₀ : State}
  {node : Node FileSplitterState FileSplitterState FileSplitterChange} {l : Label}
  {trace : List (Obs FileSplitterChange)} {history : List (WalRecord FileSplitterChange)}
  {order : List (SplitFile × Nat)}

/-! ## Runs in order, and runs without failures -/

/-- A message comes once all before it in its file are acked. -/
def InOrder (st : State) : Label → Prop
  | .deliver f i _ | .crashInDeliver f i _ => ∀ j < i, .acked (f.key j) ∈ st.trace
  | _ => True

instance (st : State) : (l : Label) → Decidable (InOrder st l)
  | .deliver f i _ | .crashInDeliver f i _ =>
    inferInstanceAs (Decidable (∀ j < i, .acked (f.key j) ∈ st.trace))
  | .publish .. | .commit .. | .ack | .republish | .crash | .crashInCommit .. => .isTrue trivial

/-- A message that is processed to its end, with a number of outputs. -/
def toTheEnd (f : SplitFile) (i outputs : Nat) : List Label :=
  .deliver f i (.ok ⟨⟩) :: (List.replicate outputs (.publish true) ++ [.commit (.ok ⟨⟩), .ack])

/-- The run that takes the messages in an order, each once, where nothing fails. -/
inductive FailureFree (cfg : FileSplitterConfig) (w : Workload) :
    List (SplitFile × Nat) → State → Prop
  | init : FailureFree cfg w [] (init cfg w)
  | message {order : List (SplitFile × Nat)} {st st' : State} {f : SplitFile} {i outputs : Nat}
      (h : FailureFree cfg w order st)
      (hr : Transition.runAllowed (exec cfg w) (fun _ _ => True) st
        (toTheEnd f i outputs) = some st') :
      FailureFree cfg w (order ++ [(f, i)]) st'

/-- What the messages of a file were stamped with, in order. -/
def stampedOf (f : SplitFile) (trace : List (Obs FileSplitterChange)) : List OutboxEntry :=
  (recordsIn trace).flatMap fun
    | .inputApplied _ key _ outputs =>
      if key.clientId = f.clientId ∧ key.senderId = f.senderId then outputs else []
    | .inputDone .. => []

/-- A step that hands a message to the handler. -/
def Delivers (f : SplitFile) (i : Nat) : Label → Prop
  | .deliver f' i' _ | .crashInDeliver f' i' _ => f' = f ∧ i' = i
  | _ => False

theorem InOrder.acked (h : InOrder st l) (hl : Delivers f i l) :
    ∀ j < i, .acked (f.key j) ∈ st.trace := by
  cases l with
  | deliver f' i' write | crashInDeliver f' i' steps =>
    obtain ⟨rfl, rfl⟩ := hl
    exact h
  | publish | commit | ack | republish | crash | crashInCommit => exact hl.elim

/-! ## What a step records -/

/-- The record of a message that is new. -/
structure Records (cfg : FileSplitterConfig) (w : Workload)
    (node : Node FileSplitterState FileSplitterState FileSplitterChange) (f : SplitFile) (i : Nat)
    (record : WalRecord FileSplitterChange) : Prop where
  file : f ∈ w.files
  index : i ≤ f.chunks.length
  dispatched : node.handler.workerState.dispatch (f.message i) ≠ .ackNow
  new : node.handler.inbox.classify (f.key i) = .new
  effect : ∃ effect bytes,
    node.effect (cfg.handler w) (.ok ⟨⟩) (.handle (f.key i) (cfg.businessFn (f.change i))) =
    .ok effect ∧
      effect.ops = [.append record bytes]

theorem node_crashAfter (h : Core cfg w st.node st.trace)
    {c : Call FileSplitterState FileSplitterChange}
    {steps : Nat} (hs : crashAfter cfg w st (st.node.ops (cfg.handler w) c) steps = some st') :
    st'.node.history = st.node.history ++ appendedRecords
      ((st.node.ops (cfg.handler w) c).take steps) := by
  obtain ⟨n', hn, -, hh, -⟩ := h.inv.crashDuring c steps
  obtain ⟨handler, hrec, hn⟩ := Except.ok_of_bind hn
  cases hn
  rw [FileSplitter.crashAfter, hrec] at hs
  cases hs
  exact hh

/-- A step records nothing, the end of an input, or a message that it hands to the handler. -/
def Recorded (cfg : FileSplitterConfig) (w : Workload) (st : State) (l : Label)
    (st' : State) : Prop :=
  st'.node.history = st.node.history ∨
    (∃ m key, st'.node.history = st.node.history ++ [.inputDone m key]) ∨
    ∃ f i record, Delivers f i l ∧ Records cfg w st.node f i record ∧
      st'.node.history = st.node.history ++ [record]

/-- A message is handed to the handler, unless it is acked at once. -/
theorem recorded_deliver {write : Except String PUnit} (h : Inv cfg w st)
    (he : exec cfg w st (.deliver f i write) = some st') :
    Recorded cfg w st (.deliver f i write) st' := by
  rw [FileSplitter.exec] at he
  split at he
  · next hr =>
    cases he
    obtain ⟨n, hok⟩ := h.core.files f hr.2.2.1
    unfold FileSplitter.deliver
    cases hd : st.node.handler.workerState.dispatch (f.message i) with
    | ackNow => exact .inl rfl
    | run m key change =>
      obtain ⟨rfl, rfl, rfl⟩ := hok.dispatch_run hr.2.2.1 hr.2.2.2 hd
      dsimp only
      cases heff : st.node.handler.handle (cfg.handler w) write (w.msgId (f.key i)) (f.key i)
          (cfg.businessFn (f.change i)) with
      | error e => exact .inl rfl
      | ok effect =>
        have heff :
            st.node.effect (cfg.handler w) write (.handle (f.key i) (cfg.businessFn (f.change i))) =
          .ok effect := heff
        have hcall := call_of_effect heff
        obtain ⟨-, ⟨hh, -⟩ | ⟨rfl, record, ⟨hnew, -⟩, hh⟩⟩ :=
          h.core.inv.call write (.handle (f.key i) (cfg.businessFn (f.change i)))
        · rw [hcall] at hh
          exact .inl hh
        · obtain ⟨change, logical, outputs, bytes, -, -, -, hops⟩ := effect_of_new hnew heff
          refine .inr (.inr ⟨f, i, _, ⟨rfl, rfl⟩,
            ⟨hr.2.2.1, hr.2.2.2, by rw [hd]; rintro ⟨⟩, hnew, effect, bytes, heff, hops⟩, ?_⟩)
          change st.node.history ++ appendedRecords effect.ops = _
          rw [hops]
          rfl
  · cases he

/-- The end of an input is recorded. -/
theorem recorded_commit {write : Except String PUnit} (h : Inv cfg w st)
    (he : exec cfg w st (.commit write) = some st') : Recorded cfg w st (.commit write) st' := by
  rw [FileSplitter.exec] at he
  split at he
  · next m key hph =>
    have hp := h.phase
    rw [hph] at hp
    obtain ⟨rfl, -⟩ := hp
    split at he
    · cases he
      exact .inl rfl
    · next effect heff =>
      cases he
      have heff : st.node.effect (cfg.handler w) write (.commitDone key) = .ok effect := heff
      have hh := Node.history_commitDone heff
      rw [call_of_effect heff] at hh
      exact .inr (.inl ⟨_, _, hh⟩)
  · cases he

/-- A crash in the handling of a message comes before its record or after it. -/
theorem recorded_crashInDeliver {steps : Nat} (h : Inv cfg w st)
    (he : exec cfg w st (.crashInDeliver f i steps) = some st') :
    Recorded cfg w st (.crashInDeliver f i steps) st' := by
  rw [FileSplitter.exec] at he
  split at he
  · next hr =>
    split at he
    · cases he
    · next m key change hd =>
      obtain ⟨n, hok⟩ := h.core.files f hr.2.2.1
      obtain ⟨rfl, rfl, rfl⟩ := hok.dispatch_run hr.2.2.1 hr.2.2.2 hd
      split at he
      · cases he
      · next effect heff =>
        have heff : st.node.effect (cfg.handler w) (.ok ⟨⟩)
          (.handle (f.key i) (cfg.businessFn (f.change i))) = .ok effect := heff
        have hops : st.node.ops (cfg.handler w) (.handle (f.key i) (cfg.businessFn (f.change i))) =
            effect.ops := by
          rw [Node.ops, heff]
        rw [← hops] at he
        have hh := node_crashAfter h.core he
        rw [hops] at hh
        cases hc : st.node.handler.inbox.classify (f.key i) with
        | new =>
          obtain ⟨change, logical, outputs, bytes, -, -, -, hone⟩ := effect_of_new hc heff
          rw [hone] at hh
          cases steps with
          | zero => exact .inl (hh.trans (List.append_nil _))
          | succ steps =>
            refine .inr (.inr ⟨f, i, _, ⟨rfl, rfl⟩,
              ⟨hr.2.2.1, hr.2.2.2, by rw [hd]; rintro ⟨⟩, hc, effect, bytes,
              heff, hone⟩, hh.trans ?_⟩)
            rw [List.take_succ_cons, List.take_nil]
            rfl
        | applied | done =>
          simp only [Node.effect, Handler.handle, hc] at heff
          cases heff
          rw [List.take_nil] at hh
          exact .inl (hh.trans (List.append_nil _))
  · cases he

/-- A crash at the end of an input comes before its record or after it. -/
theorem recorded_crashInCommit {steps : Nat} (h : Inv cfg w st)
    (he : exec cfg w st (.crashInCommit steps) = some st') :
    Recorded cfg w st (.crashInCommit steps) st' := by
  rw [FileSplitter.exec] at he
  split at he
  · next m key hph =>
    have hp := h.phase
    rw [hph] at hp
    obtain ⟨rfl, -⟩ := hp
    split at he
    · cases he
    · next effect heff =>
      have heff : st.node.effect (cfg.handler w) (.ok ⟨⟩) (.commitDone key) = .ok effect := heff
      have hops : st.node.ops (cfg.handler w) (.commitDone key) = effect.ops := by
        rw [Node.ops, heff]
      rw [← hops] at he
      have hh := node_crashAfter h.core he
      obtain ⟨n', -, -, hh', hrecord⟩ := h.core.inv.crashDuring (.commitDone key) steps
      rw [← hh'] at hh
      rcases hrecord with hsame | ⟨record, rfl, hsnoc⟩
      · exact .inl (hh.trans hsame)
      · exact .inr (.inl ⟨_, _, hh.trans hsnoc⟩)
  · cases he

theorem recorded_exec (h : Inv cfg w st) (he : exec cfg w st l = some st') :
    Recorded cfg w st l st' := by
  cases l with
  | deliver f i write => exact recorded_deliver h he
  | publish confirmed =>
    rw [FileSplitter.exec] at he
    split at he
    · split at he <;> cases he <;> exact .inl rfl
    · cases he
  | commit write => exact recorded_commit h he
  | ack =>
    rw [FileSplitter.exec] at he
    split at he
    · cases he
      exact .inl rfl
    · cases he
  | republish =>
    rw [FileSplitter.exec] at he
    split at he
    · split at he
      · cases he
        exact .inl rfl
      · cases he
    · cases he
  | crash =>
    have hs : crashAfter cfg w st (st.node.ops (cfg.handler w) .snapshotNow) 0 = some st' := by
      rw [FileSplitter.exec, FileSplitter.crashAfter, List.take_zero] at he
      rw [FileSplitter.crashAfter, List.take_zero]
      exact he
    have hh := node_crashAfter h.core hs
    rw [List.take_zero] at hh
    exact .inl (hh.trans (List.append_nil _))
  | crashInDeliver f i steps => exact recorded_crashInDeliver h he
  | crashInCommit steps => exact recorded_crashInCommit h he

/-! ## A message in the run without failures -/

/-- All outputs are published when the broker cooperates. -/
theorem publishes {m : String} {key : InputKey} {remaining : List OutboxEntry}
    (hphase : st.phase = .publishing m key remaining)
    (hdest : ∀ entry ∈ remaining, entry.destination ∈ cfg.publishers) (hinv : Inv cfg w st) :
    ∃ st', Transition.runAllowed (exec cfg w) (fun _ _ => True) st
        (List.replicate remaining.length (.publish true)) = some st' ∧
      Inv cfg w st' ∧ st'.phase = .publishing m key [] ∧ st'.node = st.node ∧
      st'.pending = st.pending := by
  induction remaining generalizing st with
  | nil => exact ⟨st, rfl, hinv, hphase, rfl, rfl⟩
  | cons entry remaining ih =>
    have he : exec cfg w st (.publish true) = some { st with
        phase := .publishing m key remaining
        trace := st.trace ++ [.published key.clientId m entry] } := by
      simp only [exec, hphase, hdest entry List.mem_cons_self, and_self, if_true]
    obtain ⟨st', hrun, hinv', hphase', hnode, hpending⟩ :=
      ih rfl (fun e hm => hdest e (List.mem_cons_of_mem _ hm))
        (hinv.exec (l := .publish true) trivial he)
    refine ⟨st', ?_, hinv', hphase', hnode, hpending⟩
    simp only [List.length_cons, List.replicate_succ, Transition.runAllowed, if_true, he]
    exact hrun

/-- The state of a run has routed its lines. -/
theorem Core.allRouted (h : Core cfg w node trace) :
    node.handler.workerState.AllRouted cfg.state := by
  have hws : node.handler.workerState = (stateChanges node.history).foldl
      (fun s change => s.applyChange cfg.state change) {} :=
        h.inv.workerState.trans (workerState_specState _)
  have hchanges : ∀ change ∈ stateChanges node.history, ∃ f i, change = SplitFile.change f i := by
    intro change hm
    obtain ⟨record, hr, hc⟩ := List.mem_filterMap.mp hm
    cases record with
    | inputApplied m key change' outputs =>
      cases hc
      obtain ⟨f, -, i, -, -, rfl⟩ := h.applied m key _ outputs hr
      exact ⟨f, i, rfl⟩
    | inputDone => cases hc
  rw [hws]
  generalize stateChanges node.history = changes at hchanges
  induction changes using List.reverseRecOn with
  | nil => exact fun key state hget => by cases hget
  | append_singleton changes change ih =>
    rw [List.foldl_append]
    have hrouted := ih fun c hc => hchanges c (List.mem_append_left _ hc)
    obtain ⟨f, i, rfl⟩ := hchanges change (List.mem_append_right _ (List.mem_singleton_self _))
    simp only [List.foldl_cons, List.foldl_nil, FileSplitterState.applyChange]
    split
    · next s' out hrun =>
      refine (hrouted.run ?_ hrun).1
      unfold SplitFile.change
      split
      · exact .inl ⟨_, _, _, _, _, rfl⟩
      · exact .inr ⟨_, _, rfl⟩
    · exact hrouted

/-- The outputs of a message are for queues of the splitter. -/
theorem Core.destinations (h : Core cfg w node trace) {change : FileSplitterChange}
    {logical : List LogicalOutput} {key : InputKey} {inputId : String} {outputs : List OutboxEntry}
    (hb : cfg.businessFn (f.change i) node.handler.workerState = .ok (change, logical))
    (hs : node.handler.sequencer.stamp (cfg.handler w).toSequencerConfig key.clientId
      inputId logical =
      .ok outputs) : ∀ entry ∈ outputs, entry.destination ∈ cfg.publishers := by
  intro entry hentry
  obtain ⟨output, ho, hstamped⟩ := (SenderSequencer.forall₂_of_stamp hs).exists_left hentry
  rw [hstamped.destination]
  rcases FileSplitterConfig.businessFn_cases hb with habort | ⟨s', out, hrun, hall⟩
  · exact (habort output ho).1
  · obtain ⟨e, hmem, -, -, hdest, -⟩ := hall output ho
    rw [hdest]
    refine FileSplitterConfig.mem_publishers ?_
    refine (h.allRouted.run ?_ hrun).2 e hmem
    unfold SplitFile.change
    split
    · exact .inl ⟨_, _, _, _, _, rfl⟩
    · exact .inr ⟨_, _, rfl⟩

/-- A message that is new runs to its end, and leaves its record and its end. -/
theorem Records.toTheEnd {record : WalRecord FileSplitterChange}
    (h : Records cfg w st.node f i record)
    (hinv : Inv cfg w st) (hidle : st.phase = .idle) (hstarted : st.pending = []) :
    ∃ outputs st', Transition.runAllowed (exec cfg w) (fun _ _ => True) st
        (FileSplitter.toTheEnd f i outputs) = some st' ∧
      Inv cfg w st' ∧ st'.phase = .idle ∧ st'.pending = [] ∧
      st'.node.history = st.node.history ++ [record, .inputDone (w.msgId (f.key i)) (f.key i)] := by
  obtain ⟨effect, bytes, heff, hops⟩ := h.effect
  obtain ⟨change, logical, outputs, bytes', hb, hs, hencode, hops'⟩ := effect_of_new h.new heff
  obtain ⟨rfl, -⟩ : record = _ ∧ bytes = bytes' := by
    rw [hops] at hops'
    simpa using hops'
  -- the message is handled
  obtain ⟨n, hok⟩ := hinv.core.files f h.file
  obtain ⟨m, key, change', hd⟩ : ∃ m key change,
      st.node.handler.workerState.dispatch (f.message i) = .run m key change := by
    cases hd : st.node.handler.workerState.dispatch (f.message i) with
    | ackNow => exact absurd hd h.dispatched
    | run m key change => exact ⟨m, key, change, rfl⟩
  obtain ⟨rfl, rfl, rfl⟩ := hok.dispatch_run h.file h.index hd
  have hins : effect.instruction = .publishThenCommit outputs (w.msgId (f.key i)) (f.key i) := by
    rcases Node.handle_cases heff with ⟨hdone, -, -⟩ | ⟨change', outputs', hins, hh⟩ | ⟨happ, -, -⟩
    · cases h.new.symm.trans hdone
    · rw [call_of_effect heff] at hh
      change st.node.history ++ appendedRecords effect.ops = _ at hh
      rw [hops] at hh
      cases List.append_cancel_left hh
      exact hins
    · cases h.new.symm.trans happ
  have hdeliver : exec cfg w st (.deliver f i (.ok ⟨⟩)) =
      some { FileSplitter.returned st effect with
      phase := .publishing (w.msgId (f.key i)) (f.key i) outputs } := by
    have hready : Ready w st f i := ⟨hidle, hstarted, h.file, h.index⟩
    rw [exec, if_pos hready, FileSplitter.deliver, hd]
    dsimp only
    have heff : st.node.handler.handle (cfg.handler w) (.ok ⟨⟩) (w.msgId (f.key i)) (f.key i)
        (cfg.businessFn (f.change i)) = .ok effect := heff
    rw [heff]
    simp only [hins]
    rfl
  have hinv₁ :=
    hinv.exec (l := .deliver f i (.ok ⟨⟩)) (fun _ _ ha => absurd ha h.dispatched) hdeliver
  -- the outputs are published
  obtain ⟨st₂, hrun, hinv₂, hphase₂, hnode₂, hpending₂⟩ :=
    publishes rfl (hinv.core.destinations hb hs) hinv₁
  -- its end is recorded, and it is acked
  obtain ⟨done, hdone⟩ := exists_effect_commitDone (n := st₂.node) hencode
  have hcommit : exec cfg w st₂ (.commit (.ok ⟨⟩)) =
      some { FileSplitter.returned st₂ done with phase := .acking (f.key i) } := by
    have hdone : st₂.node.handler.commitDone (cfg.handler w) (.ok ⟨⟩) (w.msgId (f.key i))
        (f.key i) = .ok done :=
      hdone
    simp only [exec, hphase₂, hdone]
  have hinv₃ := hinv₂.exec (l := .commit (.ok ⟨⟩)) trivial hcommit
  have hack : exec cfg w { FileSplitter.returned st₂ done with phase := .acking (f.key i) } .ack =
      some { FileSplitter.returned st₂ done with
        phase := .idle
        trace := (FileSplitter.returned st₂ done).trace ++ [.acked (f.key i)] } := rfl
  refine ⟨outputs.length, _, ?_, hinv₃.exec (l := .ack) trivial hack, rfl, ?_, ?_⟩
  · rw [FileSplitter.toTheEnd, Transition.runAllowed, if_pos trivial, hdeliver]
    dsimp only
    rw [Transition.runAllowed_append, hrun]
    simp only [Option.bind_some, Transition.runAllowed, if_true, hcommit, hack]
  · exact hpending₂.trans hstarted
  · have hh := Node.history_commitDone hdone
    rw [call_of_effect hdone] at hh
    refine hh.trans ?_
    rw [hnode₂]
    change (st.node.history ++ appendedRecords effect.ops) ++ _ = _
    rw [hops]
    simp [appendedRecords]
    rfl

/-! ## The run without failures beside a run in order -/

/-- The run without failures that has taken the messages of a history, in the order in which they
were applied. -/
structure Sim (cfg : FileSplitterConfig) (w : Workload)
    (history : List (WalRecord FileSplitterChange))
    (order : List (SplitFile × Nat)) (st₀ : State) : Prop where
  run : FailureFree cfg w order st₀
  inv : Inv cfg w st₀
  idle : st₀.phase = .idle
  started : st₀.pending = []
  applied : appliedOnly st₀.node.history = appliedOnly history
  changes : order.map (fun message => message.1.change message.2) = stateChanges history
  files : ∀ f ∈ w.files, ∃ n ≤ f.chunks.length + 1,
    (order.filter fun message => message.1 = f).map Prod.snd = List.range n ∧
      ∀ i ≤ f.chunks.length, Applied history (f.key i) ↔ i < n

theorem applied_iff_of_appliedOnly {history' : List (WalRecord FileSplitterChange)} {key : InputKey}
    (h : appliedOnly history' = appliedOnly history) :
    Applied history' key ↔ Applied history key := by
  refine exists_congr fun m => exists_congr fun change => exists_congr fun outputs => ?_
  rw [← mem_appliedOnly, h, mem_appliedOnly]

theorem sim_init : Sim cfg w [] [] (FileSplitter.init cfg w) where
  run := .init
  inv := inv_init
  idle := rfl
  started := rfl
  applied := rfl
  changes := rfl
  files := by
    intro f _
    refine ⟨0, Nat.zero_le _, rfl, fun i _ => ⟨?_, nofun⟩⟩
    rintro ⟨_, _, _, hm⟩
    cases hm

theorem Sim.done (h : Sim cfg w history order st₀) (m : String) (key : InputKey) :
    Sim cfg w (history ++ [.inputDone m key]) order st₀ where
  run := h.run
  inv := h.inv
  idle := h.idle
  started := h.started
  applied := by
    rw [appliedOnly_append, h.applied]
    exact (List.append_nil _).symm
  changes := by
    rw [h.changes, stateChanges, stateChanges, List.filterMap_append]
    exact (List.append_nil _).symm
  files := by
    intro f hf
    obtain ⟨n, hn, horder, happ⟩ := h.files f hf
    exact ⟨n, hn, horder, fun i hi => by rw [applied_snoc_done, happ i hi]⟩

/-- The run without failures takes one more message. -/
theorem Sim.message (h : Sim cfg w st.node.history order st₀) (hst : Inv cfg w st)
    {record : WalRecord FileSplitterChange} (hr : Records cfg w st.node f i record)
    (hbefore : ∀ j < i, Applied st.node.history (f.key j)) :
    ∃ st₁, Sim cfg w (st.node.history ++ [record]) (order ++ [(f, i)]) st₁ := by
  obtain ⟨hws, hseq⟩ := hst.core.inv.same h.inv.core.inv h.applied
  have hws : st₀.node.handler.workerState = st.node.handler.workerState := hws
  have hfresh : ¬ Applied st.node.history (f.key i) := by
    rintro ⟨m, change, outputs, hm⟩
    have habs := hst.core.inv.admissible.absorbed hm
    rw [Absorbed, ← hst.core.inv.inbox] at habs
    exact habs hr.new
  have hnew₀ :=
    h.inv.core.classify_new hr.file hr.index (mt (applied_iff_of_appliedOnly h.applied).mp hfresh)
  obtain ⟨effect, bytes, heff, hops⟩ := hr.effect
  obtain ⟨effect₀, heff₀, hops₀⟩ := effect_same hws hseq hr.new hnew₀ heff
  have hr₀ : Records cfg w st₀.node f i record :=
    ⟨hr.file, hr.index, by rw [hws]; exact hr.dispatched, hnew₀, effect₀, bytes, heff₀,
      hops₀.trans hops⟩
  obtain ⟨outputs, st₁, hrun, hinv, hidle, hstarted, hhistory⟩ :=
    hr₀.toTheEnd h.inv h.idle h.started
  obtain ⟨change, logical, entries, bytes', hb, -, -, hops'⟩ := effect_of_new hr.new heff
  obtain ⟨rfl, -⟩ := businessFn_eq_ok (change_ne_abort f i) hb
  obtain ⟨rfl, -⟩ : record = _ ∧ bytes = bytes' := by
    rw [hops] at hops'
    simpa using hops'
  refine ⟨st₁, .message h.run hrun, hinv, hidle, hstarted, ?_, ?_, ?_⟩
  · rw [hhistory, appliedOnly_append, appliedOnly_append, h.applied]
    rfl
  · rw [List.map_append, h.changes, stateChanges, stateChanges, List.filterMap_append]
    rfl
  · intro g hg
    obtain ⟨n, hn, horder, happ⟩ := h.files g hg
    by_cases hgf : g = f
    · subst hgf
      have hle : n ≤ i := not_lt.mp (mt (happ i hr.index).mpr hfresh)
      have hge : i ≤ n := by
        by_contra hlt
        exact absurd ((happ n (by have := hr.index; omega)).mp (hbefore n (by omega))) (lt_irrefl n)
      obtain rfl := le_antisymm hle hge
      refine ⟨n + 1, Nat.succ_le_succ hr.index, ?_, fun j hj => ?_⟩
      · rw [List.filter_append, List.map_append, horder, List.range_succ]
        simp
      · rw [applied_snoc, happ j hj, Nat.lt_succ_iff_lt_or_eq]
        refine or_congr_right ⟨fun he => (Workload.key_inj hg hg hj hr.index he).2,
          fun he => he ▸ rfl⟩
    · refine ⟨n, hn, ?_, fun j hj => ?_⟩
      · have hne : ¬ f = g := fun he => hgf he.symm
        rw [List.filter_append, List.map_append, horder]
        simp [hne]
      · rw [applied_snoc, happ j hj, or_iff_left]
        exact fun he => hgf (Workload.key_inj hg hr.file hj hr.index he).1

/-! ## The invariant -/

theorem Inv.finished (h : Inv cfg w st) {key : InputKey} (hm : .acked key ∈ st.trace) :
    FinishedBy w.msgId st.trace key := by
  obtain ⟨before, since, htrace⟩ := List.append_of_mem hm
  have hpre : before ++ [.acked key] <+: st.trace := ⟨since, by rw [htrace, List.append_assoc]; rfl⟩
  have hfin := (h.acked before key hpre).append (.acked key :: since)
  rwa [← htrace] at hfin

theorem trace_exec (he : exec cfg w st l = some st') : st.trace <+: st'.trace := by
  have hcrash : ∀ {ops : List (DurableOp FileSplitterState FileSplitterChange)} {steps : Nat},
      crashAfter cfg w st ops steps = some st' → st.trace <+: st'.trace := by
    intro ops steps hs
    rw [FileSplitter.crashAfter] at hs
    split at hs
    · cases hs
    · cases hs
      exact List.prefix_append _ _
  cases l with
  | deliver f i write =>
    rw [FileSplitter.exec] at he
    split at he
    · cases he
      unfold FileSplitter.deliver
      split
      · exact List.prefix_append _ _
      · split
        · exact List.prefix_refl _
        · exact List.prefix_append _ _
    · cases he
  | publish confirmed =>
    rw [FileSplitter.exec] at he
    split at he
    · split at he <;> cases he
      · exact List.prefix_append _ _
      · exact List.prefix_refl _
    · cases he
  | commit write =>
    rw [FileSplitter.exec] at he
    split at he
    · split at he <;> cases he
      · exact List.prefix_refl _
      · exact List.prefix_append _ _
    · cases he
  | ack =>
    rw [FileSplitter.exec] at he
    split at he <;> cases he
    exact List.prefix_append _ _
  | republish =>
    rw [FileSplitter.exec] at he
    split at he
    · split at he <;> cases he
      exact List.prefix_append _ _
    · cases he
  | crash => exact hcrash he
  | crashInDeliver f i steps =>
    rw [FileSplitter.exec] at he
    split at he
    · split at he
      · cases he
      · split at he
        · cases he
        · exact hcrash he
    · cases he
  | crashInCommit steps =>
    rw [FileSplitter.exec] at he
    split at he
    · split at he
      · cases he
      · exact hcrash he
    · cases he

/-- In a run in order, a message is only applied after the acks of those before it. -/
structure OrderedInv (cfg : FileSplitterConfig) (w : Workload) (st : State) : Prop where
  inv : Inv cfg w st
  acked : ∀ f ∈ w.files, ∀ i ≤ f.chunks.length, Applied st.node.history (f.key i) →
    ∀ j < i, .acked (f.key j) ∈ st.trace
  sim : ∃ order st₀, Sim cfg w st.node.history order st₀

/-- A chunk that is acked at once lies before one that was applied. -/
theorem OrderedInv.settled (h : OrderedInv cfg w st) (ho : InOrder st l) : AcksSettled w st l := by
  cases l with
  | deliver f i write =>
    intro hf hi hd
    have hbefore : ∀ j < i, Applied st.node.history (f.key j) := fun j hj =>
      h.inv.core.applied_of_finished (h.inv.finished (ho j hj))
    rcases Nat.lt_or_eq_of_le hi with hlt | rfl
    · obtain ⟨n, hok⟩ := h.inv.core.files f hf
      rw [hok.dispatch hf hlt] at hd
      split at hd
      · cases hd
      · next hne =>
        refine h.inv.finished ?_
        rcases hok.ordinal with hn | ⟨-, hend⟩
        · have hle : i ≤ n := by
            by_contra hgt
            exact absurd ((hok.applied n (by omega)).mp (hbefore n (by omega))) (lt_irrefl n)
          have hn' := hok.le
          have hnext : i + 1 < n := by
            rw [hn] at hne
            omega
          exact h.acked f hf (i + 1) (by omega) ((hok.applied (i + 1) (by omega)).mpr hnext) i
            (Nat.lt_succ_self i)
        · exact h.acked f hf _ le_rfl hend i hlt
    · rw [dispatch_eof (w := w)] at hd
      cases hd
  | publish | commit | ack | republish | crash | crashInDeliver | crashInCommit => trivial

theorem orderedInv_init : OrderedInv cfg w (FileSplitter.init cfg w) where
  inv := inv_init
  acked := by
    rintro f - i - ⟨_, _, _, hm⟩
    cases hm
  sim := ⟨[], _, sim_init⟩

theorem OrderedInv.exec (h : OrderedInv cfg w st) (ho : InOrder st l)
    (he : exec cfg w st l = some st') :
    OrderedInv cfg w st' := by
  have htrace : ∀ {key : InputKey}, .acked key ∈ st.trace → .acked key ∈ st'.trace := fun hm =>
    (trace_exec he).subset hm
  obtain ⟨order, st₀, hsim⟩ := h.sim
  have hinv := h.inv.exec (h.settled ho) he
  rcases recorded_exec h.inv he with hh | ⟨m, key, hh⟩ | ⟨f, i, record, hl, hr, hh⟩
  · exact ⟨hinv, fun f hf i hi ha j hj => htrace (h.acked f hf i hi (hh ▸ ha) j hj), order,
      st₀, hh ▸ hsim⟩
  · refine ⟨hinv, fun f hf i hi ha j hj => htrace (h.acked f hf i hi ?_ j hj), order, st₀,
      hh ▸ hsim.done m key⟩
    rw [hh] at ha
    exact applied_snoc_done.mp ha
  · have hacked := ho.acked hl
    have hbefore : ∀ j < i, Applied st.node.history (f.key j) := fun j hj =>
      h.inv.core.applied_of_finished (h.inv.finished (hacked j hj))
    obtain ⟨st₁, hsim'⟩ := hsim.message h.inv hr hbefore
    refine ⟨hinv, fun g hg k hk ha j hj => htrace ?_, _, st₁, hh ▸ hsim'⟩
    obtain ⟨effect, bytes, heff, hops⟩ := hr.effect
    obtain ⟨change, logical, outputs, bytes', -, -, -, hops'⟩ := effect_of_new hr.new heff
    obtain ⟨rfl, -⟩ : record = _ ∧ bytes = bytes' := by
      rw [hops] at hops'
      simpa using hops'
    rw [hh] at ha
    rcases applied_snoc.mp ha with ha | he
    · exact h.acked g hg k hk ha j hj
    · obtain ⟨rfl, rfl⟩ := Workload.key_inj hg hr.file hk hr.index he
      exact hacked j hj

/-! ## Every message is applied exactly once -/

/-- No message is applied twice, and one that is acked was applied. The outputs of each file are
those of the run without failures that takes the messages in the order in which they were applied:
from each file, its messages in the order of the file, and all of them once all are acked. -/
structure ExactlyOnce (cfg : FileSplitterConfig) (w : Workload) (st : State) : Prop where
  once : ∀ f ∈ w.files, ∀ i ≤ f.chunks.length,
    (stateChanges st.node.history).count (f.change i) ≤ 1 ∧
    (.acked (f.key i) ∈ st.trace → (stateChanges st.node.history).count (f.change i) = 1)
  outputs : ∃ order st₀, FailureFree cfg w order st₀ ∧
    order.map (fun message => message.1.change message.2) = stateChanges st.node.history ∧
    ∀ f ∈ w.files, stampedOf f st.trace = stampedOf f st₀.trace ∧
      ∃ n ≤ f.chunks.length + 1,
      (order.filter fun message => message.1 = f).map Prod.snd = List.range n ∧
        ((∀ i ≤ f.chunks.length, .acked (f.key i) ∈ st.trace) → n = f.chunks.length + 1)

/-- The outputs of a file are those of its applied messages. -/
theorem stampedOf_appliedOnly (h : Core cfg w node trace) : stampedOf f trace =
    (appliedOnly node.history).flatMap fun
      | .inputApplied _ key _ outputs =>
        if key.clientId = f.clientId ∧ key.senderId = f.senderId then outputs else []
      | .inputDone .. => [] := by
  rw [stampedOf, h.records]
  induction node.history with
  | nil => rfl
  | cons record history ih =>
    cases record with
    | inputApplied m key change outputs =>
      have hone : appliedOnly (.inputApplied m key change outputs :: history) =
        .inputApplied m key change outputs :: appliedOnly history := rfl
      rw [hone, List.flatMap_cons, List.flatMap_cons, ih]
    | inputDone m key =>
      have hnone : appliedOnly (.inputDone m key :: history) = appliedOnly history := rfl
      rw [hnone, List.flatMap_cons, ih]
      rfl

theorem OrderedInv.exactlyOnce (h : OrderedInv cfg w st) : ExactlyOnce cfg w st := by
  obtain ⟨order, st₀, hsim⟩ := h.sim
  refine ⟨fun f hf i hi => ⟨h.inv.core.count_le hf hi, fun hm => ?_⟩, order, st₀,
    hsim.run, hsim.changes, fun f hf => ⟨?_, ?_⟩⟩
  · refine le_antisymm (h.inv.core.count_le hf hi) (List.count_pos_iff.mpr ?_)
    obtain ⟨m, change, outputs, hrecord⟩ := h.inv.core.applied_of_finished (h.inv.finished hm)
    obtain ⟨g, hg, j, hj, hkey, rfl⟩ := h.inv.core.applied _ _ _ _ hrecord
    obtain ⟨rfl, rfl⟩ := Workload.key_inj hf hg hi hj hkey
    exact List.mem_filterMap.mpr ⟨_, hrecord, rfl⟩
  · rw [stampedOf_appliedOnly h.inv.core, stampedOf_appliedOnly hsim.inv.core, hsim.applied]
  · obtain ⟨n, hn, horder, happ⟩ := hsim.files f hf
    refine ⟨n, hn, horder, fun hall => ?_⟩
    have hlast :=
      (happ _ le_rfl).mp (h.inv.core.applied_of_finished (h.inv.finished (hall _ le_rfl)))
    omega

/-- In every run whose files come in order, whatever fails, crashes or comes again, every message is
applied exactly once, with the outputs of the run without failures. -/
theorem in_order_exactly_once (cfg : FileSplitterConfig) (w : Workload)
    (h : Transition.Reachable (exec cfg w) InOrder (FileSplitter.init cfg w) st) :
    ExactlyOnce cfg w st :=
  (h.invariant orderedInv_init fun _ _ _ hi ho he => hi.exec ho he).exactlyOnce

/-- The splitter of the two chunks, which also logs the end of the file. -/
def threeMessagesConfig : FileSplitterConfig where
  id := 5
  outputShardCount := 1
  maxLineBytes := 64
  maxBatchBytes := 1
  json := .ofTable [(twoChunks.change 0, [0]), (twoChunks.change 1, [1]), (twoChunks.change 2, [2])]
  sha256 := fun _ => []

/-- The first chunk fails to be published, the splitter crashes and publishes the rest at its start,
and the chunk comes again. After the end of the file both chunks come once more. -/
theorem in_order_exactly_once_two_chunks :
    ∃ st, Transition.Reachable (exec threeMessagesConfig twoChunksWorkload) InOrder
        (FileSplitter.init threeMessagesConfig twoChunksWorkload) st ∧
      .acked (twoChunks.key 2) ∈ st.trace ∧
      ExactlyOnce threeMessagesConfig twoChunksWorkload st := by
  have hrun : (Transition.runAllowed (exec threeMessagesConfig twoChunksWorkload) InOrder
      (FileSplitter.init threeMessagesConfig twoChunksWorkload)
      ([.deliver twoChunks 0 (.ok ⟨⟩), .publish false, .crash, .republish] ++
        FileSplitter.toTheEnd twoChunks 0 1 ++
        FileSplitter.toTheEnd twoChunks 1 1 ++ FileSplitter.toTheEnd twoChunks 2 2 ++
        [.deliver twoChunks 0 (.ok ⟨⟩), .ack, .deliver twoChunks 1 (.ok ⟨⟩)])).any fun st =>
          decide (.acked (twoChunks.key 2) ∈ st.trace) := by
    decide +kernel
  obtain ⟨st, hst, hk⟩ := (Option.any_eq_true _ _).mp hrun
  have hr := Transition.reachable_of_runAllowed .init hst
  exact ⟨st, hr, of_decide_eq_true hk, in_order_exactly_once _ _ hr⟩

end FileSplitter

end MoneyLaundering
