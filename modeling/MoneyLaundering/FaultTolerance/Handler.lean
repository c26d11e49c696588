import MoneyLaundering.FaultTolerance.Sequencer
import MoneyLaundering.FaultTolerance.Wal

/-!
# The durable-state handler

`PersistentStateHandler` (`handler/persistent_state_handler.py`) over the disk it writes to: the
write-ahead log and the snapshot files of `snapshot/last_state.py`.

A call returns the durable steps it takes, in order, and the handler it leaves in memory. A crash
keeps a part of the steps and loses the memory; `recover` builds a handler from the disk alone.
`Node` puts the two together with the list of every record ever appended, and `Node.exec` runs
calls, failing appends and crashes at any point.
-/

namespace MoneyLaundering

open Bytes

/-- The `WorkerState` protocol: a state that can be saved, restored (pickle round-trips) and
changed. -/
structure WorkerState (σ ς Δ : Type) where
  fresh : σ
  snapshot : σ → ς
  restore : ς → σ
  applyChange : σ → Δ → σ
  restore_snapshot : ∀ s, restore (snapshot s) = s

/-- What a handler is constructed with. The callers derive the message id from the coordinates of
the input, and no two inputs of a client share one. -/
structure HandlerConfig (σ ς Δ : Type) extends SequencerConfig where
  worker : WorkerState σ ς Δ
  json : StateChangeCodec Δ
  snapshotEvery : Nat
  msgId : InputKey → String
  msgId_inj : ∀ a b, a.clientId = b.clientId → msgId a = msgId b → a = b

/-- The four structures the log describes. -/
@[ext] structure HandlerState (τ : Type) where
  workerState : τ
  inbox : Inbox := {}
  outbox : Outbox := {}
  sequencer : SenderSequencer := {}

/-- `PersistentStateHandler` in memory. -/
structure Handler (σ : Type) extends HandlerState σ where
  appliedSinceSnapshot : Nat := 0

/-- `Snapshot`. -/
structure Snapshot (ς : Type) where
  walCheckpointRecord : Int
  inbox : Inbox.Dump
  outbox : Outbox.Dump
  sequencer : SenderSequencer.Dump
  workerState : ς

/-- `REPLAY_ALL`. -/
def replayAll : Int := -1

/-- `WorkerLoopInstruction`. -/
inductive WorkerLoopInstruction where
  | ack
  | publishThenCommit (outputs : List OutboxEntry) (msgId : String) (key : InputKey)
  deriving DecidableEq

/-- `business_fn`, with the payload and the coordinates it closes over. -/
abbrev BusinessFn (σ Δ : Type) := σ → Except String (Δ × List LogicalOutput)

/-! ## Message ids -/

/-- The parts of the message id that `WorkerRunner` gives an input: `f"{sender_id}:{seq}"`, and
`f"abort:{sender_id}:{client_id}:{seq}"` for an abort. The runner handles no other kind; those are
numbered here so that the ids of all kinds are distinct. -/
def runnerMsgIdParts (key : InputKey) : List (List Char) :=
  match key.kind with
  | .data => [Text.ofNat key.senderId, Text.ofNat key.seq]
  | .abort =>
    ["abort".toList, Text.ofNat key.senderId, Text.ofNat key.clientId, Text.ofNat key.seq]
  | kind => [Text.ofNat kind.toNat, Text.ofNat key.senderId, Text.ofNat key.seq]

def runnerMsgId (key : InputKey) : String := String.ofList (Text.join ':' (runnerMsgIdParts key))

theorem runnerMsgId_inj (a b : InputKey) (hc : a.clientId = b.clientId)
    (h : runnerMsgId a = runnerMsgId b) : a = b := by
  have hparts : ∀ key, ∀ part ∈ runnerMsgIdParts key, ':' ∉ part := by
    intro key part hp
    have hn : ∀ n, ':' ∉ Text.ofNat n := Text.not_mem_ofNat (by decide)
    unfold runnerMsgIdParts at hp
    split at hp <;> simp only [List.mem_cons, List.not_mem_nil, or_false] at hp
    · rcases hp with rfl | rfl <;> apply hn
    · rcases hp with rfl | rfl | rfl | rfl
      · decide
      all_goals apply hn
    · rcases hp with rfl | rfl | rfl <;> apply hn
  have hne : ∀ key, runnerMsgIdParts key ≠ [] := by
    intro key; unfold runnerMsgIdParts; split <;> simp
  have heq : runnerMsgIdParts a = runnerMsgIdParts b :=
    Text.join_inj ⟨hne a, hparts a⟩ ⟨hne b, hparts b⟩ (String.ofList_injective h)
  obtain ⟨ac, ak, as, aq⟩ := a
  obtain ⟨bc, bk, bs, bq⟩ := b
  cases hc
  have hinj : ∀ m n, Text.ofNat m = Text.ofNat n ↔ m = n := fun _ _ => Text.ofNat_injective.eq_iff
  clear hparts hne h
  -- the kinds are told apart by the number of parts, the numbered ones by the first
  cases ak <;> cases bk <;> simp_all [runnerMsgIdParts, MsgKind.toNat]

/-! ## The disk -/

/-- The state directory: the two snapshots, the one being written, and the log. -/
structure Disk (ς : Type) where
  current : Option (Snapshot ς) := none
  previous : Option (Snapshot ς) := none
  tmp : Option (Snapshot ς) := none
  wal : Bytes := []
  walPrevious : Option Bytes := none

/-- One step that a crash either loses or keeps as a whole. An append is shown with the record whose
bytes it writes. -/
inductive DurableOp (ς Δ : Type) where
  | append (record : WalRecord Δ) (bytes : Bytes)
  | writeTmp (snapshot : Snapshot ς)
  | renameCurrent
  | renameTmp
  | rotate

namespace Disk

variable {ς Δ : Type}

/-- `LastState.load`. -/
def load (d : Disk ς) : Option (Snapshot ς) := d.current <|> d.previous

def perform (d : Disk ς) : DurableOp ς Δ → Disk ς
  | .append _ bytes => { d with wal := d.wal ++ bytes }
  | .writeTmp snapshot => { d with tmp := some snapshot }
  | .renameCurrent =>
    match d.current with
    | some snapshot => { d with current := none, previous := some snapshot }
    | none => d
  | .renameTmp => { d with current := d.tmp, tmp := none }
  | .rotate => { d with wal := [], walPrevious := some d.wal }

def performAll (d : Disk ς) (ops : List (DurableOp ς Δ)) : Disk ς := ops.foldl perform d

end Disk

/-- The records that a list of steps appends. -/
def appendedRecords {ς Δ : Type} : List (DurableOp ς Δ) → List (WalRecord Δ)
  | [] => []
  | .append record _ :: ops => record :: appendedRecords ops
  | _ :: ops => appendedRecords ops

/-! ## The handler -/

namespace HandlerState

variable {τ Δ : Type}

/-- Applying a record, once, with no question asked. -/
def applyOnce (apply : τ → Δ → τ) (s : HandlerState τ) : WalRecord Δ → HandlerState τ
  | .inputApplied msgId key stateChange outputs =>
    { workerState := apply s.workerState stateChange
      inbox := s.inbox.markApplied key
      outbox := s.outbox.add key.clientId msgId outputs
      sequencer := s.sequencer.observe outputs }
  | .inputDone msgId key =>
    { s with
      inbox := s.inbox.markDone key
      outbox := s.outbox.removeInput key.clientId msgId }

/-- `_apply_record`: skip what is already reflected; say whether an applied input was counted. -/
def applyRecord (apply : τ → Δ → τ) (s : HandlerState τ) (record : WalRecord Δ) :
    HandlerState τ × Bool :=
  match record with
  | .inputApplied msgId key stateChange outputs =>
    match s.inbox.classify key with
    | .new =>
      ({ workerState := apply s.workerState stateChange
         inbox := s.inbox.markApplied key
         outbox := s.outbox.add key.clientId msgId outputs
         sequencer := s.sequencer.observe outputs }, true)
    | _ => (s, false)
  | .inputDone msgId key =>
    match s.inbox.classify key with
    | .done => (s, false)
    | _ =>
      ({ s with
         inbox := s.inbox.markDone key
         outbox := s.outbox.removeInput key.clientId msgId }, false)

/-- The loop of `recover` over the replayed records, with its count. -/
def replayRecords (apply : τ → Δ → τ) (s : HandlerState τ) (records : List (WalRecord Δ)) :
    HandlerState τ × Nat :=
  records.foldl (fun (s, applied) record =>
    let (s, counted) := s.applyRecord apply record
    (s, if counted then applied + 1 else applied)) (s, 0)

/-- Every record of a list, once each, in order. -/
def appliedOnce (apply : τ → Δ → τ) (s : HandlerState τ) (records : List (WalRecord Δ)) :
    HandlerState τ :=
  records.foldl (applyOnce apply) s

end HandlerState

namespace Handler

variable {σ ς Δ : Type}

/-- What a call does when nothing crashes. -/
structure Effect (σ ς Δ : Type) where
  ops : List (DurableOp ς Δ) := []
  handler : Handler σ
  instruction : WorkerLoopInstruction := .ack

/-- A handler that was just constructed. -/
def init (cfg : HandlerConfig σ ς Δ) : Handler σ where
  workerState := cfg.worker.fresh

def toSnapshot (cfg : HandlerConfig σ ς Δ) (h : Handler σ) : Snapshot ς where
  walCheckpointRecord := replayAll
  workerState := cfg.worker.snapshot h.workerState
  inbox := h.inbox.toDict
  outbox := h.outbox.toDict
  sequencer := h.sequencer.toDict

/-- `snapshot_now`: `LastState.commit`, then `wal.rotate`. -/
def snapshotNow (cfg : HandlerConfig σ ς Δ) (h : Handler σ) : Effect σ ς Δ where
  ops := [.writeTmp (h.toSnapshot cfg), .renameCurrent, .renameTmp, .rotate]
  handler := { h with appliedSinceSnapshot := 0 }

/-- `maybe_snapshot`. -/
def maybeSnapshot (cfg : HandlerConfig σ ς Δ) (h : Handler σ) : Effect σ ς Δ :=
  if h.appliedSinceSnapshot < cfg.snapshotEvery then { handler := h } else h.snapshotNow cfg

/-- `wal.append`: encode the record, then write; `write` is what the disk answers. An append that
raises here has left no byte in the file. -/
def walAppend (cfg : HandlerConfig σ ς Δ) (write : Except String PUnit) (record : WalRecord Δ) :
    Except String Bytes := do
  let bytes ← Wal.encode cfg.json record
  write
  return bytes

/-- `handle`. Everything that can raise comes before the first mutation, so an exception leaves the
handler as it was. -/
def handle (cfg : HandlerConfig σ ς Δ) (h : Handler σ) (write : Except String PUnit)
    (msgId : String) (key : InputKey) (businessFn : BusinessFn σ Δ) :
    Except String (Effect σ ς Δ) :=
  match h.inbox.classify key with
  | .done => .ok { handler := h }
  | .new => do
    let (stateChange, logicalOutputs) ← businessFn h.workerState
    let outputs ← h.sequencer.stamp cfg.toSequencerConfig key.clientId msgId logicalOutputs
    let record := WalRecord.inputApplied msgId key stateChange outputs
    let bytes ← walAppend cfg write record
    let h' : Handler σ :=
      { workerState := cfg.worker.applyChange h.workerState stateChange
        inbox := h.inbox.markApplied key
        outbox := h.outbox.add key.clientId msgId outputs
        sequencer := h.sequencer.observe outputs
        appliedSinceSnapshot := h.appliedSinceSnapshot + 1 }
    return {
      ops := [.append record bytes]
      handler := h'
      instruction :=
        .publishThenCommit (h'.outbox.entriesForInput key.clientId msgId) msgId key }
  | .applied =>
    .ok {
      handler := h
      instruction := .publishThenCommit (h.outbox.entriesForInput key.clientId msgId) msgId key }

/-- `commit_done`. -/
def commitDone (cfg : HandlerConfig σ ς Δ) (h : Handler σ) (write : Except String PUnit)
    (msgId : String) (key : InputKey) : Except String (Effect σ ς Δ) := do
  let record := WalRecord.inputDone msgId key
  let bytes ← walAppend cfg write record
  let h' : Handler σ :=
    { h with
      inbox := h.inbox.markDone key
      outbox := h.outbox.removeInput key.clientId msgId }
  let effect := h'.maybeSnapshot cfg
  return { effect with ops := .append record bytes :: effect.ops }

/-- The first half of `recover`: the loaded snapshot, or a fresh handler, and where to replay
from. -/
def loadState (cfg : HandlerConfig σ ς Δ) (d : Disk ς) : Except String (HandlerState σ × Int) :=
  match d.load with
  | none => .ok ((init cfg).toHandlerState, replayAll)
  | some snapshot =>
    match Inbox.fromDict snapshot.inbox with
    | none => .error "invalid literal for int()"
    | some inbox =>
      .ok ({ workerState := cfg.worker.restore snapshot.workerState
             inbox
             outbox := Outbox.fromDict snapshot.outbox
             sequencer := SenderSequencer.fromDict snapshot.sequencer },
        snapshot.walCheckpointRecord)

/-- `recover`, on a handler that was just constructed over the disk. -/
def recover (cfg : HandlerConfig σ ς Δ) (d : Disk ς) : Except String (Handler σ) := do
  let (state, fromRecord) ← loadState cfg d
  let records ← Wal.replay cfg.json d.wal fromRecord
  let (state, applied) := state.replayRecords cfg.worker.applyChange records
  return { toHandlerState := state, appliedSinceSnapshot := applied }

end Handler

/-! ## Runs -/

/-- A call of the worker loop. -/
inductive Call (σ Δ : Type) where
  | handle (key : InputKey) (businessFn : BusinessFn σ Δ)
  | commitDone (key : InputKey)
  | snapshotNow

/-- What can happen to a node. A crash falls after any number of the durable steps of a call and is
followed by `recover`; a crash between two calls falls after none of them. `appendFails` is an
append that raises before a byte is in the file; one that raises after its write, with the record or
a part of it in the file, is an event of `Node.execDisk`. -/
inductive Event (σ Δ : Type) where
  | call (c : Call σ Δ)
  | appendFails (c : Call σ Δ)
  | crashDuring (c : Call σ Δ) (steps : Nat)

/-- How a locked section ends; an append fails with no byte in the file. -/
inductive Outcome where
  | returns
  | appendFails
  | crashes (steps : Nat)
  deriving DecidableEq

/-- The event that a call with this end is. -/
def Outcome.event {σ Δ : Type} (c : Call σ Δ) : Outcome → Event σ Δ
  | .returns => .call c
  | .appendFails => .appendFails c
  | .crashes steps => .crashDuring c steps

/-- What the disk answers to an append. -/
def Outcome.write : Outcome → Except String PUnit
  | .appendFails => .error "write failed"
  | _ => .ok ⟨⟩

/-- A handler, its disk, and every record ever appended. -/
structure Node (σ ς Δ : Type) where
  handler : Handler σ
  disk : Disk ς := {}
  history : List (WalRecord Δ) := []

namespace Node

variable {σ ς Δ : Type} (cfg : HandlerConfig σ ς Δ)

def init : Node σ ς Δ where
  handler := Handler.init cfg

def effect (n : Node σ ς Δ) (write : Except String PUnit) :
    Call σ Δ → Except String (Handler.Effect σ ς Δ)
  | .handle key businessFn => n.handler.handle cfg write (cfg.msgId key) key businessFn
  | .commitDone key => n.handler.commitDone cfg write (cfg.msgId key) key
  | .snapshotNow => .ok (n.handler.snapshotNow cfg)

/-- The durable steps of a call, none when it raises. -/
def ops (n : Node σ ς Δ) (c : Call σ Δ) : List (DurableOp ς Δ) :=
  match n.effect cfg (.ok ⟨⟩) c with
  | .ok effect => effect.ops
  | .error _ => []

/-- What the disk and the history are after some durable steps. -/
def persist (n : Node σ ς Δ) (ops : List (DurableOp ς Δ)) : Node σ ς Δ :=
  { n with
    disk := n.disk.performAll ops
    history := n.history ++ appendedRecords ops }

/-- A call that runs to its end, or raises. -/
def call (n : Node σ ς Δ) (write : Except String PUnit) (c : Call σ Δ) : Node σ ς Δ :=
  match n.effect cfg write c with
  | .ok effect => { n.persist effect.ops with handler := effect.handler }
  | .error _ => n

/-- The worker state is touched in memory, outside the log. -/
def mutate (n : Node σ ς Δ) (f : σ → σ) : Node σ ς Δ :=
  { n with handler := { n.handler with workerState := f n.handler.workerState } }

/-- A crash after the first steps of a call, and the recovery. -/
def crashDuring (n : Node σ ς Δ) (c : Call σ Δ) (steps : Nat) : Except String (Node σ ς Δ) := do
  let n' := n.persist ((n.ops cfg c).take steps)
  let handler ← Handler.recover cfg n'.disk
  return { n' with handler }

/-- One event. The only thing that can raise is the recovery after a crash. -/
def exec (n : Node σ ς Δ) : Event σ Δ → Except String (Node σ ς Δ)
  | .call c => .ok (n.call cfg (.ok ⟨⟩) c)
  | .appendFails c => .ok (n.call cfg (.error "write failed") c)
  | .crashDuring c steps => n.crashDuring cfg c steps

def run (n : Node σ ς Δ) : List (Event σ Δ) → Except String (Node σ ς Δ)
  | [] => .ok n
  | e :: es => do run (← n.exec cfg e) es

end Node

end MoneyLaundering
