import MoneyLaundering.FaultTolerance.History
import MoneyLaundering.FaultTolerance.OutputIds
import MoneyLaundering.Lib.Transition

/-!
# The consume loop

`WorkerRunner` (`handler/worker_runner.py`) around a node: deliveries being processed by several
threads at once, each between `handle`, the publications of its outputs, `commit_done` and the ack,
with failures at every one of these points and crashes that lose all of them.

The trace records what an observer of the disk and of the broker sees: the records appended, the
outputs published and the messages acked. `Runner.Inv` ties it to the inbox and the outbox.
-/

namespace MoneyLaundering

open Bytes InternalProtocol

/-- What a runner is constructed with. -/
structure RunnerConfig (σ ς Δ : Type) extends SequencerConfig where
  worker : WorkerState σ ς Δ
  json : StateChangeCodec Δ
  snapshotEvery : Nat
  /-- `process_payload`, on the client and the payload. -/
  processPayload : Nat → Bytes → BusinessFn σ Δ
  /-- `abort_fn`, on the client. -/
  abortFn : Option (Nat → BusinessFn σ Δ)
  /-- The destinations that have a publisher. -/
  publishers : List String

/-- The handler of a runner. -/
def RunnerConfig.handler {σ ς Δ : Type} (cfg : RunnerConfig σ ς Δ) : HandlerConfig σ ς Δ where
  toSequencerConfig := cfg.toSequencerConfig
  worker := cfg.worker
  json := cfg.json
  snapshotEvery := cfg.snapshotEvery
  msgId := runnerMsgId
  msgId_inj := runnerMsgId_inj

namespace Runner

/-- Where the processing of a delivery stands. With nothing left to publish, `commit_done` is
next. -/
inductive Phase where
  | publishing (remaining : List OutboxEntry)
  | acking
  deriving DecidableEq

/-- A delivery being processed. -/
structure Task where
  key : InputKey
  phase : Phase
  deriving DecidableEq

/-- What can be observed from outside. A publication is shown with the input it belongs to. -/
inductive Obs (Δ : Type) where
  | recorded (record : WalRecord Δ)
  | published (clientId : Nat) (msgId : String) (entry : OutboxEntry)
  | acked (key : InputKey)
  deriving DecidableEq

/-- A running worker. `pending` is what `recover_and_republish` still has to publish. -/
structure State (σ ς Δ : Type) where
  node : Node σ ς Δ
  tasks : List Task := []
  pending : List (Nat × String × OutboxEntry) := []
  trace : List (Obs Δ) := []

/-- What can happen. `write` and `confirmed` tell whether the disk and the broker cooperate; a crash
may fall after any durable step of a call. -/
inductive Label where
  | deliver (body : Bytes) (write : Except String PUnit)
  | publish (i : Nat) (confirmed : Bool)
  | commit (i : Nat) (write : Except String PUnit)
  | ack (i : Nat)
  | republish
  | crash
  | crashInDeliver (body : Bytes) (steps : Nat)
  | crashInCommit (i : Nat) (steps : Nat)

variable {σ ς Δ : Type} (cfg : RunnerConfig σ ς Δ)

def init : State σ ς Δ where
  node := Node.init cfg.handler

/-- The call that `process` makes for a packet: `none` when it does not unpack, or is an abort that
nobody handles. -/
def callFor (body : Bytes) : Option (InputKey × BusinessFn σ Δ) :=
  match unpackAddressedPacket body with
  | .error _ => none
  | .ok msg =>
    if msg.msgType = MessageType.abort.toNat then
      cfg.abortFn.map fun f => (⟨msg.clientId, .abort, msg.senderId, msg.seq⟩, f msg.clientId)
    else
      some (⟨msg.clientId, .data, msg.senderId, msg.seq⟩,
        cfg.processPayload msg.clientId msg.payload)

/-- `outbox_to_republish`, each entry with the client and the input it is stored under. -/
def labelledPending (o : Outbox) : List (Nat × String × OutboxEntry) :=
  o.pending.entries.flatMap fun inputs => inputs.2.entries.flatMap fun es =>
    es.2.map fun e => (inputs.1, es.1, e)

/-- What was appended between two nodes, as the observer sees it. -/
def recordedSince (n n' : Node σ ς Δ) : List (Obs Δ) :=
  (n'.history.drop n.history.length).map .recorded

/-- A call of the handler under the lock, with its outcome. -/
def callHandler (s : State σ ς Δ) (write : Except String PUnit) (c : Call σ Δ) : State σ ς Δ :=
  { s with
    node := s.node.call cfg.handler write c
    trace := s.trace ++ recordedSince s.node (s.node.call cfg.handler write c) }

/-- The process dies in the middle of a call and comes back with the outbox to republish. -/
def crashIn (s : State σ ς Δ) (c : Call σ Δ) (steps : Nat) : Option (State σ ς Δ) :=
  match s.node.crashDuring cfg.handler c steps with
  | .error _ => none
  | .ok node => some {
      node
      pending := labelledPending node.handler.outbox
      trace := s.trace ++ recordedSince s.node node }

/-- The task that an instruction of `handle` starts. -/
def taskFor (key : InputKey) : WorkerLoopInstruction → Task
  | .ack => ⟨key, .acking⟩
  | .publishThenCommit outputs _ _ => ⟨key, .publishing outputs⟩

/-- A message goes to `process`, which runs up to the end of `handle`. Deliveries start after the
outbox is republished. Every failure is a nack and leaves no task. -/
def deliver (s : State σ ς Δ) (body : Bytes) (write : Except String PUnit) :
    Option (State σ ς Δ) :=
  if s.pending ≠ [] then none
  else
    match callFor cfg body with
    | none => some s
    | some (key, businessFn) =>
      match s.node.effect cfg.handler write (.handle key businessFn) with
      | .error _ => some s
      | .ok effect =>
        some { callHandler cfg s write (.handle key businessFn) with
               tasks := s.tasks ++ [taskFor key effect.instruction] }

/-- One step of the worker, `none` when it is not enabled. -/
def exec (s : State σ ς Δ) : Label → Option (State σ ς Δ)
  | .deliver body write => deliver cfg s body write
  | .publish i confirmed =>
    match s.tasks[i]? with
    | some ⟨key, .publishing (entry :: remaining)⟩ =>
      if confirmed = true ∧ entry.destination ∈ cfg.publishers then
        some { s with
          tasks := s.tasks.set i ⟨key, .publishing remaining⟩
          trace := s.trace ++ [.published key.clientId (runnerMsgId key) entry] }
      else some { s with tasks := s.tasks.eraseIdx i }
    | _ => none
  | .commit i write =>
    match s.tasks[i]? with
    | some ⟨key, .publishing []⟩ =>
      match s.node.effect cfg.handler write (.commitDone key) with
      | .error _ => some { s with tasks := s.tasks.eraseIdx i }
      | .ok _ =>
        some { callHandler cfg s write (.commitDone key) with
               tasks := s.tasks.set i ⟨key, .acking⟩ }
    | _ => none
  | .ack i =>
    match s.tasks[i]? with
    | some ⟨key, .acking⟩ =>
      some { s with
        tasks := s.tasks.eraseIdx i
        trace := s.trace ++ [.acked key] }
    | _ => none
  | .republish =>
    match s.pending with
    | (clientId, msgId, entry) :: pending =>
      if entry.destination ∈ cfg.publishers then
        some { s with
          pending
          trace := s.trace ++ [.published clientId msgId entry] }
      else none
    | [] => none
  | .crash => crashIn cfg s .snapshotNow 0
  | .crashInDeliver body steps =>
    if s.pending ≠ [] then none
    else
      match callFor cfg body with
      | none => none
      | some (key, businessFn) => crashIn cfg s (.handle key businessFn) steps
  | .crashInCommit i steps =>
    match s.tasks[i]? with
    | some ⟨key, .publishing []⟩ => crashIn cfg s (.commitDone key) steps
    | _ => none

/-! ## What the environment promises -/

/-- A message with seq `0` is the first of its channel to be finished, or finished already. -/
def ZeroFirst (history : List (WalRecord Δ)) (key : InputKey) : Prop :=
  key.seq = 0 → doneSeqs history key ≠ [] → 0 ∈ doneSeqs history key

instance (history : List (WalRecord Δ)) (key : InputKey) : Decidable (ZeroFirst history key) :=
  inferInstanceAs (Decidable (_ → _ → _))

/-- The seq exceeds the highest finished one of its channel by at most the cap. -/
def WithinCap (history : List (WalRecord Δ)) (key : InputKey) : Prop :=
  key.seq - (doneSeqs history key).foldl max 0 - 1 ≤ maxSequentialGap

instance (history : List (WalRecord Δ)) (key : InputKey) : Decidable (WithinCap history key) :=
  inferInstanceAs (Decidable (_ ≤ _))

/-- Message `0` of a channel, if there is one, is finished before the others. -/
def ZeroFirstPromise (s : State σ ς Δ) : Label → Prop
  | .deliver body _ => ∀ key ∈ (callFor cfg body).map Prod.fst, ZeroFirst s.node.history key
  | _ => True

instance (s : State σ ς Δ) : (l : Label) → Decidable (ZeroFirstPromise cfg s l)
  | .deliver body _ => inferInstanceAs
      (Decidable (∀ key ∈ (callFor cfg body).map Prod.fst, ZeroFirst s.node.history key))
  | .publish .. | .commit .. | .ack .. | .republish | .crash | .crashInDeliver ..
  | .crashInCommit .. => .isTrue trivial

/-- In addition, no finished message skips more of its channel than the cap. -/
def CapPromise (s : State σ ς Δ) : Label → Prop
  | .commit i _ => ∀ task ∈ s.tasks[i]?, WithinCap s.node.history task.key
  | .crashInCommit i _ => ∀ task ∈ s.tasks[i]?, WithinCap s.node.history task.key
  | l => ZeroFirstPromise cfg s l

instance (s : State σ ς Δ) : (l : Label) → Decidable (CapPromise cfg s l)
  | .commit i _ | .crashInCommit i _ => inferInstanceAs
      (Decidable (∀ task ∈ s.tasks[i]?, WithinCap s.node.history task.key))
  | .deliver body write =>
    inferInstanceAs (Decidable (ZeroFirstPromise cfg s (.deliver body write)))
  | .publish .. | .ack .. | .republish | .crash | .crashInDeliver .. => .isTrue trivial

/-! ## The invariant -/

/-- The records an observer has seen. -/
def recordsIn (trace : List (Obs Δ)) : List (WalRecord Δ) :=
  trace.filterMap fun
    | .recorded record => some record
    | _ => none

section naming
variable (msgId : InputKey → String)

/-- The input was applied, then finished, and every output it was stamped with was published since
it was applied; for any naming of the inputs. -/
def FinishedBy (trace : List (Obs Δ)) (key : InputKey) : Prop :=
  ∃ before since change outputs,
    trace = before ++ .recorded (.inputApplied (msgId key) key change outputs) :: since ∧
    .recorded (.inputDone (msgId key) key) ∈ since ∧
    ∀ entry ∈ outputs, .published key.clientId (msgId key) entry ∈ since

/-- The input was applied, and all but the last outputs were published since. -/
def SentButBy (trace : List (Obs Δ)) (key : InputKey) (remaining : List OutboxEntry) : Prop :=
  ∃ before since change sent,
    trace = before ++
      .recorded (.inputApplied (msgId key) key change (sent ++ remaining)) :: since ∧
    ∀ entry ∈ sent, .published key.clientId (msgId key) entry ∈ since

variable {msgId} {trace : List (Obs Δ)} {key : InputKey}

theorem FinishedBy.append (h : FinishedBy msgId trace key) (more : List (Obs Δ)) :
    FinishedBy msgId (trace ++ more) key := by
  obtain ⟨before, since, change, outputs, rfl, hd, hp⟩ := h
  exact ⟨before, since ++ more, change, outputs, by simp, List.mem_append_left _ hd,
    fun e he => List.mem_append_left _ (hp e he)⟩

theorem SentButBy.append {remaining : List OutboxEntry} (h : SentButBy msgId trace key remaining)
    (more : List (Obs Δ)) : SentButBy msgId (trace ++ more) key remaining := by
  obtain ⟨before, since, change, sent, rfl, hp⟩ := h
  exact ⟨before, since ++ more, change, sent, by simp, fun e he => List.mem_append_left _ (hp e he)⟩

/-- Publishing the next output. -/
theorem SentButBy.publish {entry : OutboxEntry} {remaining : List OutboxEntry}
    (h : SentButBy msgId trace key (entry :: remaining)) :
    SentButBy msgId (trace ++ [.published key.clientId (msgId key) entry]) key remaining := by
  obtain ⟨before, since, change, sent, rfl, hp⟩ := h
  refine ⟨before, since ++ [.published key.clientId (msgId key) entry], change,
    sent ++ [entry], by simp, fun e he => ?_⟩
  rcases List.mem_append.mp he with he | he
  · exact List.mem_append_left _ (hp e he)
  · obtain rfl := List.mem_singleton.mp he
    exact List.mem_append_right _ (List.mem_singleton.mpr rfl)

/-- Finishing an input with nothing left to publish. -/
theorem SentButBy.finish (h : SentButBy msgId trace key []) :
    FinishedBy msgId (trace ++ [.recorded (.inputDone (msgId key) key)]) key := by
  obtain ⟨before, since, change, sent, rfl, hp⟩ := h
  refine ⟨before, since ++ [.recorded (.inputDone (msgId key) key)], change, sent,
    by simp, by simp, fun e he => List.mem_append_left _ (hp e he)⟩

/-- A record that was observed. -/
theorem sentButBy_of_mem {change : Δ} {outputs : List OutboxEntry}
    (hm : .inputApplied (msgId key) key change outputs ∈ recordsIn trace) :
    SentButBy msgId trace key outputs := by
  rw [recordsIn, List.mem_filterMap] at hm
  obtain ⟨obs, ho, he⟩ := hm
  cases obs with
  | recorded record =>
    cases he
    obtain ⟨before, since, rfl⟩ := List.append_of_mem ho
    exact ⟨before, since, change, [], by simp, by simp⟩
  | published => cases he
  | acked => cases he

end naming

/-- The input was applied, then finished, and every output it was stamped with was published since
it was applied. -/
def Finished (trace : List (Obs Δ)) (key : InputKey) : Prop :=
  ∃ before since change outputs,
    trace = before ++ .recorded (.inputApplied (runnerMsgId key) key change outputs) :: since ∧
    .recorded (.inputDone (runnerMsgId key) key) ∈ since ∧
    ∀ entry ∈ outputs, .published key.clientId (runnerMsgId key) entry ∈ since

/-- The input was applied, and all but the last outputs were published since. -/
def SentBut (trace : List (Obs Δ)) (key : InputKey) (remaining : List OutboxEntry) : Prop :=
  ∃ before since change sent,
    trace = before ++
      .recorded (.inputApplied (runnerMsgId key) key change (sent ++ remaining)) :: since ∧
    ∀ entry ∈ sent, .published key.clientId (runnerMsgId key) entry ∈ since

def TaskOk (trace : List (Obs Δ)) (task : Task) : Prop :=
  match task.phase with
  | .publishing remaining => SentBut trace task.key remaining
  | .acking => Finished trace task.key

/-- The entry is one of those that the input was stamped with. -/
def Belongs (history : List (WalRecord Δ)) (clientId : Nat) (msgId : String) (entry : OutboxEntry) :
    Prop :=
  ∃ key change outputs, key.clientId = clientId ∧ runnerMsgId key = msgId ∧
    .inputApplied msgId key change outputs ∈ history ∧ entry ∈ outputs

/-- What node and trace say about each other, tasks apart. -/
structure Core (n : Node σ ς Δ) (trace : List (Obs Δ)) : Prop where
  node : n.Inv cfg.handler (.whole cfg.worker)
  records : recordsIn trace = n.history
  done : ∀ m key, .inputDone m key ∈ n.history → Finished trace key
  jumps : ∀ key, JumpsBounded 0 (doneSeqs n.history key)
  published : ∀ clientId msgId entry, .published clientId msgId entry ∈ trace →
    Belongs n.history clientId msgId entry
  acked : ∀ pre key, pre ++ [.acked key] <+: trace → Finished pre key

structure Inv (s : State σ ς Δ) : Prop where
  core : Core cfg s.node s.trace
  tasks : ∀ task ∈ s.tasks, TaskOk s.trace task
  pending : ∀ x ∈ s.pending, Belongs s.node.history x.1 x.2.1 x.2.2

variable {cfg} {n n' : Node σ ς Δ} {trace more : List (Obs Δ)} {key : InputKey}

theorem Finished.append (h : Finished trace key) (more : List (Obs Δ)) :
    Finished (trace ++ more) key :=
  show FinishedBy runnerMsgId _ _ from FinishedBy.append h more

theorem SentBut.append {remaining : List OutboxEntry} (h : SentBut trace key remaining)
    (more : List (Obs Δ)) : SentBut (trace ++ more) key remaining :=
  show SentButBy runnerMsgId _ _ _ from SentButBy.append h more

theorem TaskOk.append {task : Task} (h : TaskOk trace task) (more : List (Obs Δ)) :
    TaskOk (trace ++ more) task := by
  obtain ⟨key, phase⟩ := task
  cases phase with
  | publishing remaining => exact SentBut.append h more
  | acking => exact Finished.append h more

/-- Publishing the next output. -/
theorem SentBut.publish {entry : OutboxEntry} {remaining : List OutboxEntry}
    (h : SentBut trace key (entry :: remaining)) :
    SentBut (trace ++ [.published key.clientId (runnerMsgId key) entry]) key remaining :=
  show SentButBy runnerMsgId _ _ _ from SentButBy.publish h

/-- Finishing an input with nothing left to publish. -/
theorem SentBut.finish (h : SentBut trace key []) :
    Finished (trace ++ [.recorded (.inputDone (runnerMsgId key) key)]) key :=
  show FinishedBy runnerMsgId _ _ from SentButBy.finish h

/-- A record that is in the history is somewhere in the trace. -/
theorem Core.sentBut (h : Core cfg n trace) {change : Δ} {outputs : List OutboxEntry}
    (hm : .inputApplied (runnerMsgId key) key change outputs ∈ n.history) :
    SentBut trace key outputs :=
  show SentButBy runnerMsgId _ _ _ from sentButBy_of_mem (h.records ▸ hm)

theorem Belongs.append {history : List (WalRecord Δ)} {c : Nat} {m : String} {e : OutboxEntry}
    (h : Belongs history c m e) (more : List (WalRecord Δ)) : Belongs (history ++ more) c m e := by
  obtain ⟨key, change, outputs, hc, hk, hm, he⟩ := h
  exact ⟨key, change, outputs, hc, hk, List.mem_append_left _ hm, he⟩

theorem SentBut.belongs (h : Core cfg n trace) {entry : OutboxEntry} {remaining : List OutboxEntry}
    (hs : SentBut trace key (entry :: remaining)) :
    Belongs n.history key.clientId (runnerMsgId key) entry := by
  obtain ⟨before, since, change, sent, rfl, -⟩ := hs
  refine ⟨key, change, sent ++ entry :: remaining, rfl, rfl, ?_, by simp⟩
  rw [← h.records]
  simp [recordsIn]

/-! ## One step -/

theorem JumpsBounded.snoc {m q : Nat} {seqs : List Nat} (h : JumpsBounded m seqs)
    (hq : q - seqs.foldl max m - 1 ≤ maxSequentialGap) : JumpsBounded m (seqs ++ [q]) := by
  induction seqs generalizing m with
  | nil => exact ⟨hq, trivial⟩
  | cons a seqs ih => exact ⟨h.1, ih h.2 hq⟩

/-- The seqs of a channel after one more message is finished. -/
theorem jumpsBounded_append_done {history : List (WalRecord Δ)} {m : String} {key key' : InputKey}
    (h : JumpsBounded 0 (doneSeqs history key))
    (hcap : key'.clientId = key.clientId ∧ key'.channel = key.channel → WithinCap history key') :
    JumpsBounded 0 (doneSeqs (history ++ [.inputDone m key']) key) := by
  rw [doneSeqs_append]
  by_cases hk : key'.clientId = key.clientId ∧ key'.channel = key.channel
  · have hone : doneSeqs [WalRecord.inputDone (Δ := Δ) m key'] key = [key'.seq] := by
      simp [doneSeqs, hk]
    have hsame : doneSeqs history key' = doneSeqs history key := by
      simp only [doneSeqs, hk.1, hk.2]
    have hcap := hcap hk
    rw [WithinCap, hsame] at hcap
    rw [hone]
    exact JumpsBounded.snoc h hcap
  · have hnone : doneSeqs [WalRecord.inputDone (Δ := Δ) m key'] key = [] := by
      simp [doneSeqs, hk]
    rw [hnone, List.append_nil]
    exact h

theorem Core.of_history_eq (h : Core cfg n trace) (hi : n'.Inv cfg.handler (.whole cfg.worker))
    (he : n'.history = n.history) : Core cfg n' trace :=
  ⟨hi, he ▸ h.records, he ▸ h.done, he ▸ h.jumps, he ▸ h.published, h.acked⟩

/-- Nothing but an ack at the end of the trace needs a justification for acks. -/
theorem acked_append {P : List (Obs Δ) → InputKey → Prop} {obs : Obs Δ}
    (h : ∀ pre key, pre ++ [.acked key] <+: trace → P pre key)
    (ho : ∀ key, obs = .acked key → P trace key) (pre : List (Obs Δ)) (key : InputKey)
    (hp : pre ++ [.acked key] <+: trace ++ [obs]) : P pre key := by
  rcases List.prefix_concat_iff.mp hp with he | hp
  · obtain ⟨rfl, hlast⟩ := List.append_inj' he rfl
    exact ho key (List.cons.inj hlast).1.symm
  · exact h pre key hp

/-- A record is appended; if it finishes an input, all outputs of the input were published. -/
theorem Core.append_record (h : Core cfg n trace) (hi : n'.Inv cfg.handler (.whole cfg.worker))
    {record : WalRecord Δ} (he : n'.history = n.history ++ [record])
    (hd : ∀ m key, record = .inputDone m key →
      m = runnerMsgId key ∧ SentBut trace key [] ∧ WithinCap n.history key) :
    Core cfg n' (trace ++ [.recorded record]) where
  node := hi
  records := by rw [he, ← h.records]; simp [recordsIn]
  done m key hm := by
    rw [he] at hm
    rcases List.mem_append.mp hm with hm | hm
    · exact (h.done m key hm).append _
    · obtain rfl := List.mem_singleton.mp hm
      obtain ⟨rfl, hs, -⟩ := hd m key rfl
      exact hs.finish
  jumps key := by
    rw [he, doneSeqs_append]
    cases record with
    | inputApplied => simpa [doneSeqs] using h.jumps key
    | inputDone m key' =>
      obtain ⟨-, -, hcap⟩ := hd m key' rfl
      rw [← doneSeqs_append]
      exact jumpsBounded_append_done (h.jumps key) fun _ => hcap
  published c m e hm := by
    rw [he]
    exact (h.published c m e (by simpa using hm)).append _
  acked := acked_append h.acked nofun

theorem Core.publish (h : Core cfg n trace) {c : Nat} {m : String} {entry : OutboxEntry}
    (hb : Belongs n.history c m entry) : Core cfg n (trace ++ [.published c m entry]) where
  node := h.node
  records := by rw [← h.records]; simp [recordsIn]
  done m key hm := (h.done m key hm).append _
  jumps := h.jumps
  published c' m' e' hm := by
    rcases List.mem_append.mp hm with hm | hm
    · exact h.published c' m' e' hm
    · cases List.mem_singleton.mp hm
      exact hb
  acked := acked_append h.acked nofun

theorem Core.ack (h : Core cfg n trace) (hf : Finished trace key) :
    Core cfg n (trace ++ [.acked key]) where
  node := h.node
  records := by rw [← h.records]; simp [recordsIn]
  done m key hm := (h.done m key hm).append _
  jumps := h.jumps
  published c m e hm := h.published c m e (by simpa using hm)
  acked := acked_append h.acked fun key' he => by cases he; exact hf

/-- What an observer sees of a call: nothing, or its record. -/
theorem recordedSince_of_history_eq (he : n'.history = n.history) :
    recordedSince n n' = [] := by
  rw [recordedSince, he, List.drop_length]; rfl

theorem recordedSince_of_append {record : WalRecord Δ} (he : n'.history = n.history ++ [record]) :
    recordedSince n n' = [.recorded record] := by
  rw [recordedSince, he, List.drop_left]; rfl

/-- A node that took a step of a call, seen with its trace. -/
theorem Core.step (h : Core cfg n trace)
    (hi : n'.Inv cfg.handler (.whole cfg.worker)) {c : Call σ Δ} (hh : n'.history = n.history ∨
      ∃ record, Appends cfg.handler n.handler c record ∧ n'.history = n.history ++ [record])
    (hd : ∀ key, c = .commitDone key → SentBut trace key [] ∧ WithinCap n.history key) :
    Core cfg n' (trace ++ recordedSince n n') := by
  rcases hh with he | ⟨record, ha, he⟩
  · rw [recordedSince_of_history_eq he, List.append_nil]
    exact h.of_history_eq hi he
  · rw [recordedSince_of_append he]
    refine h.append_record hi he fun m key hr => ?_
    cases c with
    | handle key' businessFn =>
      obtain ⟨-, change, logical, outputs, -, -, rfl⟩ := ha
      cases hr
    | commitDone key' =>
      cases ha
      cases hr
      exact ⟨rfl, hd _ rfl⟩
    | snapshotNow => cases ha

/-- A crash, whatever the call: no task survives, and what is pending was stamped before. -/
theorem Inv.crashIn {s s' : State σ ς Δ} (h : Inv cfg s) {c : Call σ Δ} {steps : Nat}
    (hd : ∀ key, c = .commitDone key → SentBut s.trace key [] ∧ WithinCap s.node.history key)
    (he : crashIn cfg s c steps = some s') : Inv cfg s' := by
  obtain ⟨node, hn, hi, -, hh⟩ := h.core.node.crashDuring c steps
  rw [Runner.crashIn, hn] at he
  cases he
  refine ⟨h.core.step hi hh hd, by simp, fun x hx => ?_⟩
  simp only [labelledPending, List.mem_flatMap, List.mem_map, Prod.exists] at hx
  obtain ⟨c, inputs, hc, m, es, hm, e, he, rfl⟩ := hx
  have hl : node.handler.outbox.lookup c m = some es := by
    rw [Outbox.lookup, Dict.getD, Dict.mem_entries_iff.mp hc, Option.getD_some,
      Dict.mem_entries_iff.mp hm]
  rw [hi.outbox] at hl
  obtain ⟨key, change, rfl, rfl, hrec⟩ := hi.admissible.lookup hl
  exact ⟨key, change, es, rfl, rfl, hrec, he⟩

/-- What `handle` answers, and which task this starts. -/
theorem Core.taskFor (h : Core cfg n trace) {write : Except String PUnit} {key : InputKey}
    {businessFn : BusinessFn σ Δ} {effect : Handler.Effect σ ς Δ}
    (he : n.effect cfg.handler write (.handle key businessFn) = .ok effect)
    (hz : ZeroFirst n.history key) :
    TaskOk (trace ++ recordedSince n (n.call cfg.handler write (.handle key businessFn)))
      (Runner.taskFor key effect.instruction) := by
  rcases Node.handle_cases he with ⟨hdone, hi, -⟩ | ⟨change, outputs, hi, hh⟩ | ⟨happ, hi, -⟩
  · -- reported as finished, and so it is
    rw [h.node.inbox] at hdone
    rw [hi]
    suffices hf : TaskOk trace ⟨key, .acking⟩ from hf.append _
    rcases finished_of_classify_done (h.jumps key) hdone with ⟨m, hm⟩ | ⟨hq, hne⟩
    · exact h.done m key hm
    · obtain ⟨m, hm⟩ := mem_doneSeqs.mp (hq.symm ▸ hz hq hne)
      exact h.done m key hm
  · -- new: its record is appended now
    rw [hi, recordedSince_of_append hh]
    exact ⟨trace, [], change, [], rfl, by simp⟩
  · -- applied before: the outbox still holds all its outputs
    rw [h.node.inbox, Inbox.classify_eq_applied_iff] at happ
    obtain ⟨change, outputs, hm, hl⟩ := h.node.admissible.inFlight happ
    have hout :
        n.handler.outbox.entriesForInput key.clientId (cfg.handler.msgId key) = outputs := by
      rw [Outbox.entriesForInput_eq, h.node.outbox, hl, Option.getD_some]
    rw [hi, hout]
    exact (h.sentBut hm).append _

theorem Inv.deliver {s s' : State σ ς Δ} (h : Inv cfg s) {body : Bytes}
    {write : Except String PUnit}
    (hz : ∀ key ∈ (callFor cfg body).map Prod.fst, ZeroFirst s.node.history key)
    (he : deliver cfg s body write = some s') : Inv cfg s' := by
  unfold Runner.deliver at he
  split at he
  · cases he
  · next hpend =>
    split at he
    · cases he; exact h
    · next key businessFn hcall =>
      split at he
      · cases he; exact h
      · next effect heff =>
        cases he
        obtain ⟨hi, hh⟩ := h.core.node.call write (.handle key businessFn)
        refine ⟨h.core.step hi (hh.imp And.left fun x => x.2) nofun, fun task ht => ?_, ?_⟩
        · rcases List.mem_append.mp ht with ht | ht
          · exact (h.tasks task ht).append _
          · obtain rfl := List.mem_singleton.mp ht
            exact h.core.taskFor heff (hz key (by rw [hcall]; rfl))
        · simp only [callHandler, not_not.mp hpend]
          simp

theorem Inv.commit {s : State σ ς Δ} (h : Inv cfg s) {i : Nat} {write : Except String PUnit}
    (ht : s.tasks[i]? = some ⟨key, .publishing []⟩) (hcap : WithinCap s.node.history key)
    {effect : Handler.Effect σ ς Δ}
    (he : s.node.effect cfg.handler write (.commitDone key) = .ok effect) :
    Inv cfg { callHandler cfg s write (.commitDone key) with
              tasks := s.tasks.set i ⟨key, .acking⟩ } := by
  have hsent : SentBut s.trace key [] := h.tasks _ (List.mem_of_getElem? ht)
  obtain ⟨hi, hh⟩ := h.core.node.call write (.commitDone key)
  refine ⟨h.core.step hi (hh.imp And.left fun x => x.2) fun key' hk => ?_, fun task htask => ?_,
    fun x hx => ?_⟩
  · cases hk; exact ⟨hsent, hcap⟩
  · rcases List.mem_or_eq_of_mem_set htask with htask | rfl
    · exact (h.tasks task htask).append _
    · -- the call went through, so its record is there
      have hrec : (s.node.call cfg.handler write (.commitDone key)).history =
          s.node.history ++ [.inputDone (runnerMsgId key) key] := Node.history_commitDone he
      simp only [TaskOk, callHandler, recordedSince_of_append hrec]
      exact hsent.finish
  · rcases hh with ⟨hh, -⟩ | ⟨-, record, -, hh⟩
    · simpa only [callHandler, hh] using h.pending x hx
    · simpa only [callHandler, hh] using (h.pending x hx).append [record]

/-- One step keeps the invariant, as long as the environment keeps its promise. -/
theorem Inv.exec {s s' : State σ ς Δ} {l : Label} (h : Inv cfg s) (hp : CapPromise cfg s l)
    (he : Runner.exec cfg s l = some s') : Inv cfg s' := by
  cases l with
  | deliver body write => exact h.deliver hp he
  | publish i confirmed =>
    simp only [Runner.exec] at he
    split at he
    · next key entry remaining ht =>
      have hsent : SentBut s.trace key (entry :: remaining) := h.tasks _ (List.mem_of_getElem? ht)
      split at he
      · cases he
        refine ⟨h.core.publish (hsent.belongs h.core), fun task htask => ?_, h.pending⟩
        rcases List.mem_or_eq_of_mem_set htask with htask | rfl
        · exact (h.tasks task htask).append _
        · exact hsent.publish
      · cases he
        exact ⟨h.core, fun task htask => h.tasks task (List.mem_of_mem_eraseIdx htask), h.pending⟩
    · cases he
  | commit i write =>
    simp only [Runner.exec] at he
    split at he
    · next key ht =>
      split at he
      · cases he
        exact ⟨h.core, fun task htask => h.tasks task (List.mem_of_mem_eraseIdx htask), h.pending⟩
      · next effect heff => cases he; exact h.commit ht (hp _ ht) heff
    · cases he
  | ack i =>
    simp only [Runner.exec] at he
    split at he
    · next key ht =>
      cases he
      have hf : Finished s.trace key := h.tasks _ (List.mem_of_getElem? ht)
      exact ⟨h.core.ack hf, fun task htask =>
        (h.tasks task (List.mem_of_mem_eraseIdx htask)).append _, h.pending⟩
    · cases he
  | republish =>
    simp only [Runner.exec] at he
    split at he
    · next c m entry pending hpend =>
      split at he
      · cases he
        have hall := h.pending
        rw [hpend] at hall
        exact ⟨h.core.publish (hall _ List.mem_cons_self), fun task htask =>
          (h.tasks task htask).append _, fun x hx => hall x (List.mem_cons_of_mem _ hx)⟩
      · cases he
    · cases he
  | crash => exact h.crashIn (c := .snapshotNow) nofun he
  | crashInDeliver body steps =>
    simp only [Runner.exec] at he
    split at he
    · cases he
    · split at he
      · cases he
      · next key businessFn _ => exact h.crashIn (c := .handle key businessFn) nofun he
  | crashInCommit i steps =>
    simp only [Runner.exec] at he
    split at he
    · next key ht =>
      refine h.crashIn (fun key' hk => ?_) he
      cases hk
      exact ⟨h.tasks _ (List.mem_of_getElem? ht), hp _ ht⟩
    · cases he

theorem inv_init : Inv cfg (init cfg) where
  core := {
    node := Node.inv_init
    records := rfl
    done := by simp [init, Node.init]
    jumps := fun _ => trivial
    published := by simp [init]
    acked := by simp [init] }
  tasks := by simp [init]
  pending := by simp [init]

/-- What an observer has seen of every run in which message `0` of a channel is finished before the
others and no finished message of a channel skips more than the cap. -/
theorem observed (cfg : RunnerConfig σ ς Δ) {s : State σ ς Δ}
    (h : Transition.Reachable (exec cfg) (CapPromise cfg) (init cfg) s) :
    (∀ pre key, pre ++ [.acked key] <+: s.trace → Finished pre key) ∧
    (∀ key, (appliedRecords s.node.history key).length ≤ 1) ∧
    recordsIn s.trace = s.node.history ∧
    s.node.handler.workerState =
      (stateChanges s.node.history).foldl cfg.worker.applyChange cfg.worker.fresh ∧
    ∀ key change outputs, .inputApplied (runnerMsgId key) key change outputs ∈ s.node.history →
      ∀ entry, .published key.clientId (runnerMsgId key) entry ∈ s.trace → entry ∈ outputs := by
  have hi : Inv cfg s := h.invariant inv_init fun s l s' hi hp he => hi.exec hp he
  have ha := hi.core.node.admissible
  refine ⟨hi.core.acked, ha.length_appliedRecords_le, hi.core.records,
    hi.core.node.workerState.trans (workerState_specState _), fun key change outputs hm entry hp =>
      ?_⟩
  obtain ⟨key', change', outputs', hc, hk, hm', he⟩ := hi.core.published _ _ _ hp
  obtain rfl := runnerMsgId_inj key' key hc hk
  obtain ⟨-, rfl⟩ := ha.applied_unique hm hm'
  exact he

/-- A worker that forwards nothing. -/
def sinkConfig : RunnerConfig Unit Unit Unit where
  nodeId := "sink"
  nodeId_noColon := by decide
  sha256 := fun _ => []
  worker := ⟨(), fun _ => (), fun _ => (), fun _ _ => (), fun _ => rfl⟩
  json := Wal.emptyChange
  snapshotEvery := 1000
  processPayload := fun _ _ _ => .ok ((), [])
  abortFn := none
  publishers := []

/-- An empty DATA packet of client `7` from sender `1`. -/
def emptyPacket (seq : Nat) : Bytes := 0 :: (beEncode 16 7 ++ beEncode 4 1 ++ beEncode 4 seq)

/-- Process the only message in flight to its end. -/
def processed (seq : Nat) : List Label :=
  [.deliver (emptyPacket seq) (.ok ⟨⟩), .commit 0 (.ok ⟨⟩), .ack 0]

/-- The observations of one such message. -/
def seen (seq : Nat) : List (Obs Unit) :=
  [.recorded (.inputApplied (runnerMsgId ⟨7, .data, 1, seq⟩) ⟨7, .data, 1, seq⟩ () []),
   .recorded (.inputDone (runnerMsgId ⟨7, .data, 1, seq⟩) ⟨7, .data, 1, seq⟩),
   .acked ⟨7, .data, 1, seq⟩]

/-- A checked run that shows a given trace reaches a state with that trace. -/
theorem exists_reachable (cfg : RunnerConfig σ ς Δ) (allowed : State σ ς Δ → Label → Prop)
    [∀ s l, Decidable (allowed s l)] (ls : List Label) (trace : List (Obs Δ))
    (h : (Transition.runAllowed (exec cfg) allowed (init cfg) ls).map State.trace = some trace) :
    ∃ s, Transition.Reachable (exec cfg) allowed (init cfg) s ∧ s.trace = trace := by
  obtain ⟨s, hs, ht⟩ := Option.map_eq_some_iff.mp h
  exact ⟨s, Transition.reachable_of_runAllowed .init hs, ht⟩

/-- Message `65538` is finished right after message `0`; the gap between them is larger than the cap
and is not kept, so message `1` is acked on arrival and was never applied. -/
theorem skipped_message_acked_unseen :
    ¬ ∀ s, Transition.Reachable (exec sinkConfig) (ZeroFirstPromise sinkConfig)
    (init sinkConfig) s →
      ∀ pre key, pre ++ [.acked key] <+: s.trace → Finished pre key := by
  intro h
  obtain ⟨s, hs, ht⟩ := exists_reachable sinkConfig (ZeroFirstPromise sinkConfig)
    (processed 0 ++ processed 65538 ++ [.deliver (emptyPacket 1) (.ok ⟨⟩), .ack 0])
    (seen 0 ++ seen 65538 ++ [.acked ⟨7, .data, 1, 1⟩]) (by decide +kernel)
  obtain ⟨before, since, change, outputs, he, hd, -⟩ := h s hs (seen 0 ++ seen 65538)
    ⟨7, .data, 1, 1⟩ (by rw [ht])
  have hmem : Obs.recorded (.inputDone (runnerMsgId ⟨7, .data, 1, 1⟩) ⟨7, .data, 1, 1⟩) ∈
      seen 0 ++ seen 65538 := by
    rw [he]
    exact List.mem_append_right _ (List.mem_cons_of_mem _ hd)
  simp [seen] at hmem

end Runner

end MoneyLaundering
