import MoneyLaundering.Eof.WorkerChange
import MoneyLaundering.FileSplitter.State

/-!
# The file splitter worker

`FileSplitter` (`workers/file_splitter/file_splitter.py`): the dispatch of chunks by their offset,
the calls of the durable handler, and the consume loop of the single thread.

The messages are those of a workload: files cut into chunks, each followed by the end of the file. A
message is known to the observer by the coordinates of its input, which the splitter itself derives
from the offset and from what it has received so far.
-/

namespace MoneyLaundering

open Bytes InternalProtocol Runner

/-! ## Sender ids -/

/-- One bit of `zlib.crc32`. -/
def crc32Bit (crc : UInt32) : UInt32 :=
  if crc &&& 1 = 1 then (crc >>> 1) ^^^ 0xEDB88320 else crc >>> 1

def crc32Byte (crc : UInt32) (b : UInt8) : UInt32 := Nat.iterate crc32Bit 8 (crc ^^^ b.toUInt32)

/-- `zlib.crc32`. -/
def crc32 (data : Bytes) : Nat := ((data.foldl crc32Byte 0xFFFFFFFF) ^^^ 0xFFFFFFFF).toNat

/-- `_sender_id_for_path`. -/
def senderIdForPath (relPath : String) : Nat := crc32 (encodeText relPath)

/-- `_CLIENT_EOF_SENDER`. -/
def clientEofSender : Nat := 0xFFFFFFFF

/-- `_ABORT_SENDER`. -/
def abortSender : Nat := 0

/-! ## Messages -/

/-- A message of the splitter, as `_on_message` decodes it. -/
inductive FileMessage where
  | chunk (clientId : Nat) (relPath : String) (fileType offset : Nat) (payload : Bytes)
  | fileEof (clientId : Nat) (relPath : String)
  | clientEof (clientId : Nat)
  | abort (clientId : Nat)
  deriving DecidableEq

/-- A message id, `":".join(parts)`. -/
def joinedId (parts : List (List Char)) : String := String.ofList (Text.join ':' parts)

/-- `f"d:{sender_id}:{offset}"`. -/
def chunkMsgId (senderId offset : Nat) : String :=
  joinedId ["d".toList, Text.ofNat senderId, Text.ofNat offset]

/-- `f"e:{sender_id}"`. -/
def fileEofMsgId (senderId : Nat) : String := joinedId ["e".toList, Text.ofNat senderId]

/-- What a dispatcher does with a message: ack it at once, or `_run`. -/
inductive Dispatch where
  | ackNow
  | run (msgId : String) (key : InputKey) (change : FileSplitterChange)
  deriving DecidableEq

/-- `_dispatch_chunk`, `_dispatch_file_eof`, `_dispatch_client_eof`, `_dispatch_abort`. -/
def FileSplitterState.dispatch (s : FileSplitterState) : FileMessage → Dispatch
  | .chunk clientId relPath fileType offset payload =>
    if offset = s.expectedOffset ⟨clientId, relPath⟩ then
      .run (chunkMsgId (senderIdForPath relPath) offset)
        ⟨clientId, .data, senderIdForPath relPath, s.nextOrdinal ⟨clientId, relPath⟩⟩
        (.ofChunk clientId relPath fileType offset payload)
    else if offset + payload.length = s.expectedOffset ⟨clientId, relPath⟩ then
      .run (chunkMsgId (senderIdForPath relPath) offset)
        ⟨clientId, .data, senderIdForPath relPath, s.nextOrdinal ⟨clientId, relPath⟩ - 1⟩
        (.ofChunk clientId relPath fileType offset payload)
    else .ackNow
  | .fileEof clientId relPath =>
    .run (fileEofMsgId (senderIdForPath relPath))
      ⟨clientId, .ctrlUpstreamEof, senderIdForPath relPath, 0⟩ (.fileEof clientId relPath)
  | .clientEof clientId =>
    .run (joinedId ["c".toList, Text.ofNat clientId])
      ⟨clientId, .ctrlUpstreamEof, clientEofSender, 0⟩ (.clientEof clientId)
  | .abort clientId =>
    .run (joinedId ["abort".toList, Text.ofNat clientId]) ⟨clientId, .abort, abortSender, 0⟩
      (.abort clientId)

/-! ## The worker -/

/-- `FileSplitterConfig`, with the codec of the log and the hash of the routing. -/
structure FileSplitterConfig where
  id : Nat
  outputShardCount : Nat
  maxLineBytes : Nat
  maxBatchBytes : Nat
  accountsEnabled : Bool := true
  snapshotInterval : Nat := 1000
  json : StateChangeCodec FileSplitterChange
  sha256 : Bytes → Bytes

namespace FileSplitterConfig

variable (cfg : FileSplitterConfig)

/-- What the state is constructed with. -/
def state : FileSplitterStateConfig where
  maxLineBytes := cfg.maxLineBytes
  maxBatchBytes := cfg.maxBatchBytes
  splitterId := cfg.id
  accountsEnabled := cfg.accountsEnabled

/-- The keys of `_build_publishers`. -/
def publishers : List String := lineBatchEdge :: if cfg.accountsEnabled then [accountsEdge] else []

/-- `_output_edges`. -/
def outputEdges : Dict String EdgeSpec :=
  if cfg.accountsEnabled then
    (Dict.set ∅ lineBatchEdge ⟨cfg.id, cfg.outputShardCount⟩).set accountsEdge ⟨cfg.id, 1⟩
  else Dict.set ∅ lineBatchEdge ⟨cfg.id, cfg.outputShardCount⟩

def sequencer : SequencerConfig where
  nodeId := workerNodeId "file_splitter" cfg.id
  nodeId_noColon := workerNodeId_noColon (by decide) _
  edges := cfg.outputEdges
  sha256 := cfg.sha256

/-- The client of a change. -/
def clientOf : FileSplitterChange → Nat
  | .chunk clientId .. | .fileEof clientId _ | .clientEof clientId | .abort clientId => clientId

/-- `_business_fn`. -/
def businessFn (change : FileSplitterChange) : BusinessFn FileSplitterState FileSplitterChange :=
  fun s =>
  match change with
  | .abort clientId => do
    let abortBody ← createPacket MessageType.abort.toNat clientId []
    return (change, cfg.publishers.flatMap fun edge =>
      (List.range cfg.outputShardCount).map fun shard => ⟨edge, abortBody, some shard⟩)
  | _ => do
    let outputs ← s.simulate cfg.state change
    let logical ← outputs.mapM fun output => do
      let body ← createPacket output.msgType.toNat (clientOf change) output.payload
      return (⟨output.edge, body, none⟩ : LogicalOutput)
    return (change, logical)

end FileSplitterConfig

/-! ## Files -/

/-- A file cut into chunks that are not empty. -/
structure SplitFile where
  clientId : Nat
  relPath : String
  fileType : Nat
  chunks : List Bytes
  nonempty : ∀ chunk ∈ chunks, chunk ≠ []
  deriving DecidableEq

namespace SplitFile

variable (f : SplitFile)

def fileKey : FileKey := ⟨f.clientId, f.relPath⟩

def senderId : Nat := senderIdForPath f.relPath

/-- Where a chunk begins. -/
def offset (i : Nat) : Nat := (f.chunks.take i).flatten.length

/-- The messages of a file: its chunks, and then its end. -/
def message (i : Nat) : FileMessage :=
  match f.chunks[i]? with
  | some payload => .chunk f.clientId f.relPath f.fileType (f.offset i) payload
  | none => .fileEof f.clientId f.relPath

/-- The change of a message. -/
def change (i : Nat) : FileSplitterChange :=
  match f.chunks[i]? with
  | some payload => .ofChunk f.clientId f.relPath f.fileType (f.offset i) payload
  | none => .fileEof f.clientId f.relPath

/-- The coordinates of a message: the chunks are numbered. -/
def key (i : Nat) : InputKey :=
  if i < f.chunks.length then ⟨f.clientId, .data, f.senderId, i⟩
  else ⟨f.clientId, .ctrlUpstreamEof, f.senderId, 0⟩

end SplitFile

/-- The files that are sent to a splitter. No two of one client share a path, and different paths
have different sender ids. -/
structure Workload where
  files : List SplitFile
  paths : ∀ f ∈ files, ∀ g ∈ files, f.clientId = g.clientId → f.relPath = g.relPath → f = g
  senders : ∀ f ∈ files, ∀ g ∈ files,
    senderIdForPath f.relPath = senderIdForPath g.relPath → f.relPath = g.relPath

namespace Workload

variable (w : Workload)

/-- Where the chunk with some coordinates begins. Numbers behind the last chunk are those of no
message. -/
def offsetOf (key : InputKey) : Nat :=
  match w.files.find? fun f => f.clientId = key.clientId ∧ f.senderId = key.senderId with
  | some f => f.offset key.seq + (key.seq - f.chunks.length)
  | none => key.seq

/-- What the message ids of a kind begin with. -/
def kindTag : MsgKind → List Char
  | .data => "d".toList
  | .ctrlUpstreamEof => "e".toList
  | kind => Text.ofNat kind.toNat

/-- The parts of the message id of an input. -/
def msgIdParts (key : InputKey) : List (List Char) :=
  kindTag key.kind :: Text.ofNat key.senderId ::
    match key.kind with
    | .data => [Text.ofNat (w.offsetOf key)]
    | .ctrlUpstreamEof => if key.seq = 0 then [] else [Text.ofNat key.seq]
    | _ => [Text.ofNat key.seq]

def msgId (key : InputKey) : String := joinedId (w.msgIdParts key)

end Workload

theorem SplitFile.offset_succ (f : SplitFile) {i : Nat} {payload : Bytes}
    (h : f.chunks[i]? = some payload) : f.offset (i + 1) = f.offset i + payload.length := by
  rw [offset, offset, List.take_add_one, h, List.flatten_append, List.length_append]
  simp

theorem SplitFile.offset_lt (f : SplitFile) {i j : Nat} (h : i < j) (hj : j ≤ f.chunks.length) :
    f.offset i < f.offset j := by
  induction j, h using Nat.le_induction with
  | base =>
    have hi : f.chunks[i]? = some f.chunks[i] := List.getElem?_eq_getElem (by omega)
    have hne := List.length_pos_iff.mpr (f.nonempty _ (List.mem_of_getElem? hi))
    rw [f.offset_succ hi]
    omega
  | succ j _ ih =>
    have hi : f.chunks[j]? = some f.chunks[j] := List.getElem?_eq_getElem (by omega)
    rw [f.offset_succ hi]
    have := ih (by omega)
    omega

theorem SplitFile.offset_of_le (f : SplitFile) {i : Nat} (h : f.chunks.length ≤ i) :
    f.offset i = f.offset f.chunks.length := by
  rw [offset, offset, List.take_of_length_le h, List.take_length]

namespace Workload

variable {w : Workload} {a b : InputKey}

/-- Different chunks of a file begin at different places. -/
theorem offsetOf_inj (hc : a.clientId = b.clientId) (hs : a.senderId = b.senderId)
    (h : w.offsetOf a = w.offsetOf b) : a.seq = b.seq := by
  unfold offsetOf at h
  rw [hc, hs] at h
  split at h
  next f hf =>
    have hmono : ∀ i j, i < j →
        f.offset i + (i - f.chunks.length) < f.offset j + (j - f.chunks.length) := by
      intro i j hij
      rcases Nat.lt_or_ge i f.chunks.length with hi | hi
      · rcases Nat.le_total j f.chunks.length with hj | hj
        · have := f.offset_lt hij hj
          omega
        · have := f.offset_lt hi (Nat.le_refl _)
          rw [f.offset_of_le hj]
          omega
      · rw [f.offset_of_le hi, f.offset_of_le (by omega : f.chunks.length ≤ j)]
        omega
    rcases Nat.lt_trichotomy a.seq b.seq with hlt | he | hlt
    · exact absurd h (Nat.ne_of_lt (hmono _ _ hlt))
    · exact he
    · exact absurd h (Nat.ne_of_gt (hmono _ _ hlt))
  next => exact h

theorem noColon_kindTag (kind : MsgKind) : ':' ∉ kindTag kind := by cases kind <;> decide

theorem kindTag_injective : Function.Injective kindTag := by
  intro a b h
  cases a <;> cases b <;> first | rfl | (revert h; decide)

theorem noColon_msgIdParts (w : Workload) (key : InputKey) :
    ∀ part ∈ w.msgIdParts key, ':' ∉ part := by
  have hn : ∀ n, ':' ∉ Text.ofNat n := Text.not_mem_ofNat (by decide)
  intro part hp
  rcases List.mem_cons.mp hp with rfl | hp
  · exact noColon_kindTag _
  rcases List.mem_cons.mp hp with rfl | hp
  · exact hn _
  split at hp
  · exact List.mem_singleton.mp hp ▸ hn _
  · split at hp
    · cases hp
    · exact List.mem_singleton.mp hp ▸ hn _
  · exact List.mem_singleton.mp hp ▸ hn _

theorem msgIdParts_inj (hc : a.clientId = b.clientId) (h : w.msgIdParts a = w.msgIdParts b) :
    a = b := by
  obtain ⟨htag, h⟩ := List.cons.inj h
  obtain ⟨hsender, h⟩ := List.cons.inj h
  have hk : a.kind = b.kind := kindTag_injective htag
  have hs : a.senderId = b.senderId := Text.ofNat_injective hsender
  have hq : a.seq = b.seq := by
    rw [hk] at h
    split at h
    · exact offsetOf_inj hc hs (Text.ofNat_injective (List.cons.inj h).1)
    · split at h <;> split at h
      next ha hb => rw [ha, hb]
      · cases h
      · cases h
      · exact Text.ofNat_injective (List.cons.inj h).1
    · exact Text.ofNat_injective (List.cons.inj h).1
  refine InputKey.ext_of hc ?_
  rw [InputKey.triple, InputKey.triple, hk, hs, hq]

theorem msgId_inj (w : Workload) (a b : InputKey) (hc : a.clientId = b.clientId)
    (h : w.msgId a = w.msgId b) : a = b := by
  have hne : ∀ key, w.msgIdParts key ≠ [] := fun _ => List.cons_ne_nil _ _
  refine msgIdParts_inj hc (w := w) ?_
  rw [← Text.split_join (hne a) (w.noColon_msgIdParts a),
    ← Text.split_join (hne b) (w.noColon_msgIdParts b)]
  exact congrArg (Text.split ':') (String.ofList_injective h)

end Workload

/-- `_build_handler`. The message ids are those that the splitter gives the messages of the
workload. -/
def FileSplitterConfig.handler (cfg : FileSplitterConfig) (w : Workload) :
    HandlerConfig FileSplitterState FileSplitterState FileSplitterChange where
  toSequencerConfig := cfg.sequencer
  worker := ⟨{}, fun s => s, fun s => s, fun s change => s.applyChange cfg.state change, fun _ =>
    rfl⟩
  json := cfg.json
  snapshotEvery := cfg.snapshotInterval
  msgId := w.msgId
  msgId_inj := w.msgId_inj

/-! ## The consume loop -/

namespace FileSplitter

/-- Where the single thread stands. With nothing left to publish, `commit_done` is next. -/
inductive Phase where
  | idle
  | publishing (msgId : String) (key : InputKey) (remaining : List OutboxEntry)
  | acking (key : InputKey)
  deriving DecidableEq

/-- A running splitter. `pending` is what `start` still has to publish. -/
structure State where
  node : Node FileSplitterState FileSplitterState FileSplitterChange
  phase : Phase := .idle
  pending : List (Nat × String × OutboxEntry) := []
  trace : List (Obs FileSplitterChange) := []

/-- What can happen. The `i`-th message of a file is delivered any number of times; `write` and
`confirmed` tell whether the disk and the broker cooperate. -/
inductive Label where
  | deliver (f : SplitFile) (i : Nat) (write : Except String PUnit)
  | publish (confirmed : Bool)
  | commit (write : Except String PUnit)
  | ack
  | republish
  | crash
  | crashInDeliver (f : SplitFile) (i steps : Nat)
  | crashInCommit (steps : Nat)

variable (cfg : FileSplitterConfig) (w : Workload)

def init : State where
  node := Node.init (cfg.handler w)

/-- A call of the handler has returned. -/
def returned (s : State)
    (effect : Handler.Effect FileSplitterState FileSplitterState FileSplitterChange) :
    State :=
  { s with
    node := { s.node.persist effect.ops with handler := effect.handler }
    trace := s.trace ++ (appendedRecords effect.ops).map .recorded }

/-- The process dies after the first durable steps of a call and starts again. -/
def crashAfter (s : State) (ops : List (DurableOp FileSplitterState FileSplitterChange))
    (steps : Nat) :
    Option State :=
  match Handler.recover (cfg.handler w) (s.node.persist (ops.take steps)).disk with
  | .error _ => none
  | .ok handler => some {
      node := { s.node.persist (ops.take steps) with handler }
      pending := labelledPending handler.outbox
      trace := s.trace ++ (appendedRecords (ops.take steps)).map .recorded }

/-- What follows an instruction of `handle`. -/
def phaseFor (key : InputKey) : WorkerLoopInstruction → Phase
  | .ack => .acking key
  | .publishThenCommit outputs msgId key => .publishing msgId key outputs

/-- `_on_message` up to the end of `handle`. An exception is a nack. -/
def deliver (s : State) (f : SplitFile) (i : Nat) (write : Except String PUnit) : State :=
  match s.node.handler.workerState.dispatch (f.message i) with
  | .ackNow => { s with trace := s.trace ++ [.acked (f.key i)] }
  | .run msgId key change =>
    match s.node.handler.handle (cfg.handler w) write msgId key (cfg.businessFn change) with
    | .error _ => s
    | .ok effect => { returned s effect with phase := phaseFor key effect.instruction }

/-- A message may come in. -/
def Ready (s : State) (f : SplitFile) (i : Nat) : Prop :=
  s.phase = .idle ∧ s.pending = [] ∧ f ∈ w.files ∧ i ≤ f.chunks.length

instance (s : State) (f : SplitFile) (i : Nat) : Decidable (Ready w s f i) :=
  inferInstanceAs (Decidable (_ ∧ _ ∧ _ ∧ _))

/-- One step, `none` when it is not enabled. -/
def exec (s : State) : Label → Option State
  | .deliver f i write => if Ready w s f i then some (deliver cfg w s f i write) else none
  | .publish confirmed =>
    match s.phase with
    | .publishing msgId key (entry :: remaining) =>
      if confirmed = true ∧ entry.destination ∈ cfg.publishers then
        some { s with
          phase := .publishing msgId key remaining
          trace := s.trace ++ [.published key.clientId msgId entry] }
      else some { s with phase := .idle }
    | _ => none
  | .commit write =>
    match s.phase with
    | .publishing msgId key [] =>
      match s.node.handler.commitDone (cfg.handler w) write msgId key with
      | .error _ => some { s with phase := .idle }
      | .ok effect => some { returned s effect with phase := .acking key }
    | _ => none
  | .ack =>
    match s.phase with
    | .acking key => some { s with phase := .idle, trace := s.trace ++ [.acked key] }
    | _ => none
  | .republish =>
    match s.pending with
    | (clientId, msgId, entry) :: pending =>
      if entry.destination ∈ cfg.publishers then
        some { s with pending, trace := s.trace ++ [.published clientId msgId entry] }
      else none
    | [] => none
  | .crash => crashAfter cfg w s [] 0
  | .crashInDeliver f i steps =>
    if Ready w s f i then
      match s.node.handler.workerState.dispatch (f.message i) with
      | .ackNow => none
      | .run msgId key change =>
        match s.node.handler.handle (cfg.handler w) (.ok ⟨⟩) msgId key (cfg.businessFn change) with
        | .error _ => none
        | .ok effect => crashAfter cfg w s effect.ops steps
    else none
  | .crashInCommit steps =>
    match s.phase with
    | .publishing msgId key [] =>
      match s.node.handler.commitDone (cfg.handler w) (.ok ⟨⟩) msgId key with
      | .error _ => none
      | .ok effect => crashAfter cfg w s effect.ops steps
    | _ => none

end FileSplitter

end MoneyLaundering
