import MoneyLaundering.Lib.Base64
import MoneyLaundering.Lib.Csv
import MoneyLaundering.Lib.Dict
import MoneyLaundering.LineBatch

/-!
# The file splitter

`LineSplitter` (`workers/common/line_splitter.py`) and `FileSplitterState`
(`workers/file_splitter/file_splitter_state.py`): the chunks of a file are cut into lines, and the
lines behind the header are sent in batches of bounded size.

The source runs one family of helpers twice, on a copy to collect the outputs (`simulate`) and on
the state itself (`apply_change`). Here a helper gives the new state and what it emits; `simulate`
serializes what is emitted and `applyChange` drops it.
-/

namespace MoneyLaundering

open Bytes InternalProtocol

/-! ## Lines -/

/-- `LineSplitter`. -/
structure LineSplitter where
  maxLineBytes : Nat
  expectedOffset : Nat := 0
  pending : Bytes := []
  deriving DecidableEq

namespace LineSplitter

/-- The byte of `"\n"`. -/
def newline : UInt8 := 10

def create (maxLineBytes : Nat) : Except String LineSplitter := do
  Except.raiseIf (maxLineBytes = 0) "max_line_bytes must be greater than 0"
  return { maxLineBytes }

def validateLineSize (maxLineBytes : Nat) (line : Bytes) : Except String PUnit :=
  Except.raiseIf (maxLineBytes < line.length) s!"line exceeded max_line_bytes={maxLineBytes}"

def push (s : LineSplitter) (offset : Nat) (payload : Bytes) :
    Except String (LineSplitter × List Bytes) := do
  Except.raiseIf (offset ≠ s.expectedOffset)
    s!"unexpected chunk offset (expected={s.expectedOffset}, received={offset})"
  ((s.pending ++ payload).splitOn newline).forM (validateLineSize s.maxLineBytes)
  return ({ s with
      pending := ((s.pending ++ payload).splitOn newline).getLastD []
      expectedOffset := s.expectedOffset + payload.length },
    ((s.pending ++ payload).splitOn newline).dropLast)

def finish (s : LineSplitter) : Except String (LineSplitter × List Bytes) := do
  if s.pending = [] then return (s, [])
  validateLineSize s.maxLineBytes s.pending
  return ({ s with pending := [] }, [s.pending])

end LineSplitter

/-- `parse_csv_line`. One line gives one row. -/
def parseCsvLine (line : Bytes) : Except String (List String) := do
  let text ← LineBatchSerializer.decode line
  let row ← Csv.readRow text.toList
  return row.map String.ofList

/-! ## One file -/

structure FileKey where
  clientId : Nat
  relPath : String
  deriving DecidableEq

structure FileState where
  splitter : LineSplitter
  fileType : Option Nat := none
  header : Option (List String) := none
  batchLines : List Bytes := []
  batchFirstLineNumber : Nat := 0
  batchPayloadBytes : Nat := 0
  batchId : Nat := 0
  linesSeen : Nat := 0
  dataLinesEmitted : Nat := 0
  batchesEmitted : Nat := 0
  chunksReceived : Nat := 0
  bytesReceived : Nat := 0
  deriving DecidableEq

/-- `LINE_BATCH_EDGE`. -/
def lineBatchEdge : String := "line_batch"

/-- `ACCOUNTS_EDGE`. -/
def accountsEdge : String := "accounts"

/-- What the state is constructed with. -/
structure FileSplitterStateConfig where
  maxLineBytes : Nat
  maxBatchBytes : Nat
  splitterId : Nat
  accountsEnabled : Bool := true

/-- An output, before its payload is serialized. -/
inductive Emission where
  | batch (edge : String) (batch : LineBatch)
  | eof (edge : String) (expectedTotal : Nat)
  deriving DecidableEq

/-- A file and the account batches per client while a helper runs, with what was emitted so far. -/
structure FileRun where
  state : FileState
  accountsCounts : Dict Nat Nat
  out : List Emission := []

namespace FileSplitterStateConfig

variable (cfg : FileSplitterStateConfig) (key : FileKey)

/-- `_packet_size`. -/
def packetSize (state : FileState) (extra : Nat) : Nat :=
  (if state.fileType = some fileTypeAccounts then addressedHeaderSize else headerSize) +
    LineBatchSerializer.fixedHeaderSize + (encodeText key.relPath).length +
    ((state.header.getD []).map fun column => 4 + (encodeText column).length).sum +
    state.batchPayloadBytes + extra

/-- `_run_flush`. The file type is known from the first chunk on, and the header before the first
line. -/
def runFlush (r : FileRun) : FileRun :=
  if r.state.batchLines = [] then r
  else
    { state := { r.state with
        dataLinesEmitted := r.state.dataLinesEmitted + r.state.batchLines.length
        batchesEmitted := r.state.batchesEmitted + 1
        batchId := r.state.batchId + 1
        batchLines := []
        batchFirstLineNumber := 0
        batchPayloadBytes := 0 }
      accountsCounts :=
        if r.state.fileType = some fileTypeAccounts then
          r.accountsCounts.set key.clientId (r.accountsCounts.getD key.clientId 0 + 1)
        else r.accountsCounts
      out := r.out ++ [.batch
        (if r.state.fileType = some fileTypeAccounts then accountsEdge else lineBatchEdge)
        { fileType := r.state.fileType.getD 0
          relPath := key.relPath
          batchId := r.state.batchId
          firstLineNumber := r.state.batchFirstLineNumber
          header := r.state.header.getD []
          lines := r.state.batchLines }] }

/-- The end of `_run_accumulate`: the line goes into the batch. -/
def appendLine (r : FileRun) (line : Bytes) : FileRun :=
  { r with state := { r.state with
      batchFirstLineNumber :=
        if r.state.batchLines = [] then r.state.linesSeen else r.state.batchFirstLineNumber
      batchPayloadBytes :=
        (if r.state.batchLines = [] then 0 else r.state.batchPayloadBytes) + (4 + line.length)
      batchLines := r.state.batchLines ++ [line] } }

/-- `_run_accumulate`. -/
def runAccumulate (r : FileRun) (line : Bytes) : FileRun :=
  if r.state.batchLines ≠ [] ∧ cfg.maxBatchBytes < packetSize key r.state (4 + line.length) then
    appendLine (runFlush key r) line
  else appendLine r line

/-- `line[:-1] if line.endswith(b"\r") else line`. -/
def cleanLine (line : Bytes) : Bytes := if line.getLast? = some 13 then line.dropLast else line

/-- `_run_line`. -/
def runLine (r : FileRun) (line : Bytes) : Except String FileRun :=
  let r := { r with state := { r.state with linesSeen := r.state.linesSeen + 1 } }
  if r.state.fileType = some fileTypeAccounts ∧ cfg.accountsEnabled = false then .ok r
  else
    match r.state.header with
    | none => do
      let header ← parseCsvLine (cleanLine line)
      return { r with state := { r.state with header := some header } }
    | some _ => .ok (cfg.runAccumulate key r line)

/-- `_run_chunk`. -/
def runChunk (r : FileRun) (fileType offset : Nat) (payloadB64 : List Char) :
    Except String FileRun := do
  let payload := (Base64.decode payloadB64).getD []
  let (splitter, lines) ← r.state.splitter.push offset payload
  let r ← lines.foldlM (cfg.runLine key) { r with state := { r.state with
    fileType := some (r.state.fileType.getD fileType)
    splitter } }
  return { r with state := { r.state with
    bytesReceived := r.state.bytesReceived + payload.length
    chunksReceived := r.state.chunksReceived + 1 } }

/-- `_run_finish`. -/
def runFinish (r : FileRun) : Except String FileRun := do
  let (splitter, lines) ← r.state.splitter.finish
  let r ← lines.foldlM (cfg.runLine key) { r with state := { r.state with splitter } }
  let r := runFlush key r
  if r.state.fileType = some fileTypeTransactions then
    return { r with out := r.out ++ [.eof lineBatchEdge r.state.dataLinesEmitted] }
  else if r.state.fileType = some fileTypeAccounts ∧ cfg.accountsEnabled = true then
    return { r with
      out := r.out ++ [.eof accountsEdge (r.accountsCounts.getD key.clientId 0)]
      accountsCounts := r.accountsCounts.erase key.clientId }
  else return r

/-- The payload of an output: `LineBatchSerializer.serialize`, or `_eof_payload`. -/
def payload : Emission → Except String Bytes
  | .batch _ batch => LineBatchSerializer.serialize batch
  | .eof _ expectedTotal => ControlMessage.serialize { senderId := cfg.splitterId, expectedTotal }

end FileSplitterStateConfig

/-! ## All files -/

/-- A change of `FileSplitterState`. -/
inductive FileSplitterChange where
  | chunk (clientId : Nat) (relPath : String) (fileType offset : Nat) (payloadB64 : List Char)
  | fileEof (clientId : Nat) (relPath : String)
  | clientEof (clientId : Nat)
  | abort (clientId : Nat)
  deriving DecidableEq

/-- `chunk_change`. -/
def FileSplitterChange.ofChunk (clientId : Nat) (relPath : String) (fileType offset : Nat)
    (payload : Bytes) : FileSplitterChange :=
  .chunk clientId relPath fileType offset (Base64.encode payload)

/-- `EmittedOutput`. -/
structure EmittedOutput where
  edge : String
  msgType : MessageType
  payload : Bytes
  deriving DecidableEq

structure FileSplitterState where
  files : Dict FileKey FileState := ∅
  accountsBatchesByClient : Dict Nat Nat := ∅
  chunksReceived : Nat := 0
  eofsReceived : Nat := 0

namespace FileSplitterState

variable (cfg : FileSplitterStateConfig) (s : FileSplitterState)

/-- `expected_offset`. -/
def expectedOffset (key : FileKey) : Nat :=
  match s.files.get? key with
  | some state => state.splitter.expectedOffset
  | none => 0

/-- `next_ordinal`. -/
def nextOrdinal (key : FileKey) : Nat :=
  match s.files.get? key with
  | some state => state.chunksReceived
  | none => 0

/-- `_copy_or_new`, `_state_for`. -/
def stateFor (key : FileKey) : Except String FileState :=
  match s.files.get? key with
  | some state => .ok state
  | none => do return { splitter := ← LineSplitter.create cfg.maxLineBytes }

/-- The files of a client, in the order in which they came. -/
def keysOf (clientId : Nat) : List FileKey :=
  (s.files.entries.map Prod.fst).filter fun key => key.clientId = clientId

/-- The run of a chunk. -/
def chunkRun (key : FileKey) (fileType offset : Nat) (payloadB64 : List Char) :
    Except String FileRun := do
  let state ← s.stateFor cfg key
  cfg.runChunk key { state, accountsCounts := s.accountsBatchesByClient } fileType offset payloadB64

/-- The end of a file: what is emitted, and the state without it. -/
def finishAndRemove (key : FileKey) : Except String (FileSplitterState × List Emission) :=
  match s.files.get? key with
  | none => .ok (s, [])
  | some state => do
    let r ← cfg.runFinish key { state, accountsCounts := s.accountsBatchesByClient }
    return ({ s with
      files := s.files.erase key
      accountsBatchesByClient := r.accountsCounts }, r.out)

/-- The loop over the files of a client. -/
def finishAll : FileSplitterState → List FileKey → Except String (FileSplitterState × List Emission)
  | s, [] => .ok (s, [])
  | s, key :: keys => do
    let (s, out) ← s.finishAndRemove cfg key
    let (s, out') ← finishAll s keys
    return (s, out ++ out')

/-- A change: the new state, and what it emits. -/
def run : FileSplitterChange → Except String (FileSplitterState × List Emission)
  | .chunk clientId relPath fileType offset payloadB64 => do
    let r ← s.chunkRun cfg ⟨clientId, relPath⟩ fileType offset payloadB64
    return ({ s with
      files := s.files.set ⟨clientId, relPath⟩ r.state
      accountsBatchesByClient := r.accountsCounts
      chunksReceived := s.chunksReceived + 1 }, r.out)
  | .fileEof clientId relPath => do
    let (s, out) ← s.finishAndRemove cfg ⟨clientId, relPath⟩
    return ({ s with eofsReceived := s.eofsReceived + 1 }, out)
  | .clientEof clientId => do
    let (s, out) ← finishAll cfg s (s.keysOf clientId)
    return ({ s with eofsReceived := s.eofsReceived + 1 }, out)
  | .abort clientId =>
    .ok ({ s with
      files := s.files.filter fun key => decide (key.clientId ≠ clientId)
      accountsBatchesByClient := s.accountsBatchesByClient.erase clientId }, [])

/-- One output of `simulate`. -/
def emit (e : Emission) : Except String EmittedOutput := do
  let payload ← cfg.payload e
  return match e with
    | .batch edge _ => { edge, msgType := .data, payload }
    | .eof edge _ => { edge, msgType := .eof, payload }

def simulate (change : FileSplitterChange) : Except String (List EmittedOutput) := do
  let (_, out) ← s.run cfg change
  out.mapM (emit cfg)

/-- `apply_change`. It is called on changes that `simulate` accepted in the same state, where it
does not raise. -/
def applyChange (change : FileSplitterChange) : FileSplitterState :=
  match s.run cfg change with
  | .ok (s', _) => s'
  | .error _ => s

theorem emit_batch (edge : String) (batch : LineBatch) : emit cfg (.batch edge batch) =
    (LineBatchSerializer.serialize batch).map fun payload =>
    { edge, msgType := .data, payload } := by
  rw [emit, FileSplitterStateConfig.payload]
  cases LineBatchSerializer.serialize batch <;> rfl

theorem emit_eof (edge : String) (expectedTotal : Nat) : emit cfg (.eof edge expectedTotal) =
    (ControlMessage.serialize { senderId := cfg.splitterId, expectedTotal }).map fun payload =>
      { edge, msgType := .eof, payload } := by
  rw [emit, FileSplitterStateConfig.payload]
  cases ControlMessage.serialize { senderId := cfg.splitterId, expectedTotal } <;> rfl

variable {cfg} {s}

theorem applyChange_of_run {s' : FileSplitterState} {change : FileSplitterChange}
    {out : List Emission}
    (h : s.run cfg change = .ok (s', out)) : s.applyChange cfg change = s' := by
  rw [applyChange, h]

theorem simulate_eq_ok_iff {change : FileSplitterChange} {outputs : List EmittedOutput} :
    s.simulate cfg change = .ok outputs ↔
      ∃ s' out, s.run cfg change = .ok (s', out) ∧ out.mapM (emit cfg) = .ok outputs := by
  constructor
  · intro h
    obtain ⟨⟨s', out⟩, hrun, hout⟩ := Except.ok_of_bind h
    exact ⟨s', out, hrun, hout⟩
  · rintro ⟨s', out, hrun, hout⟩
    rw [simulate, hrun]
    exact hout

end FileSplitterState

end MoneyLaundering
