import MoneyLaundering.Client.ChunkReader
import MoneyLaundering.FileSplitter.Worker
import MoneyLaundering.Lib.RequestReply

/-!
# The upload of a client

`_recv_handshake`, `_forward_chunks` and `_send_abort` (`gateway/gateway.py`) against `Sender`
(`client/common/sender.py`): every message of the client waits for an ACK, and what it asks for is
published to the partitions of the file splitters in between. The state of a session that is only
logged is left out.
-/

namespace MoneyLaundering

open Bytes FileProtocol Connection RequestReply Transition

/-! ## What the gateway publishes -/

/-- `partition_for`. -/
def partitionFor (clientId fileType partitions : Nat) : Except String Nat := do
  Except.raiseIf (partitions = 0) "partitions must be greater than 0"
  let basePartition := (clientId * 2) % partitions
  if fileType = fileTypeTransactions then return basePartition
  else if fileType = fileTypeAccounts then return (basePartition + 1) % partitions
  else throw s!"unknown file_type for partitioning: {fileType}"

/-- `MSG_CHUNK`, `MSG_EOF` and `MSG_ABORT`. -/
def msgChunk : UInt8 := 1

@[inherit_doc msgChunk] def msgEof : UInt8 := 2

@[inherit_doc msgChunk] def msgAbort : UInt8 := 3

/-- `_serialize_chunk`. -/
def serializeChunk (chunk : FileChunk) : Bytes := msgChunk :: chunk.serialize

/-- `_serialize_file_eof`. -/
def serializeFileEof (clientId fileType : Nat) (relPath : String) : Except String Bytes := do
  let eof ← FileEof.create relPath clientId fileType
  return msgEof :: eof.serialize

/-- `_serialize_abort`. -/
def serializeAbort (clientId : Nat) : Except String Bytes := do
  let clientId ← pack 4 clientId
  return msgAbort :: clientId

/-- What `FileIngestorPublisher.send` is called with. -/
structure PartitionMessage where
  partition : Nat
  message : Bytes
  deriving DecidableEq

/-! ## A session -/

/-- `ClientSession.current_file`. -/
structure CurrentFile where
  path : String
  fileType : Nat
  partition : Nat
  deriving DecidableEq

structure ClientSession where
  clientId : Nat
  currentFile : Option CurrentFile := none
  deriving DecidableEq

/-- How far the gateway is with a client. -/
inductive UploadState where
  | greeting
  | forwarding (session : ClientSession)
  | finished (clientId : Nat)
  deriving DecidableEq

abbrev UploadProgram := Program UInt8 PartitionMessage

namespace Gateway

/-- `_recv_handshake`, up to the ACK. -/
def recvHandshake : UploadProgram UploadState := do
  let msgType ← Program.receive 1
  if beDecode msgType ≠ handshakeType.toNat then
    Program.raise s!"expected handshake, got msg_type={beDecode msgType}"
  else do
    let clientId ← Program.receive 4
    return .forwarding ⟨beDecode clientId, none⟩

/-- Publish the EOF of a file. -/
def sendFileEof (clientId : Nat) (file : CurrentFile) : UploadProgram PUnit := do
  let eof ← Program.ofExcept (serializeFileEof clientId file.fileType file.path)
  Program.perform ⟨file.partition, eof⟩

/-- The file that a chunk belongs to becomes the current one. Behind another file, the EOF of that
file goes first. -/
def switchTo (session : ClientSession) (file : CurrentFile) : UploadProgram ClientSession :=
  match session.currentFile with
  | none => return { session with currentFile := some file }
  | some prev =>
    if prev.path = file.path ∧ prev.fileType = file.fileType then return session
    else do
      sendFileEof session.clientId prev
      return { session with currentFile := some file }

def forwardChunk (partitions : Nat) (session : ClientSession) (chunk : FileChunk) :
    UploadProgram ClientSession := do
  if chunk.header.clientId ≠ session.clientId then
    Program.raise (s!"chunk client_id mismatch " ++
      s!"(handshake={session.clientId}, chunk={chunk.header.clientId})")
  else do
    let partition ← Program.ofExcept
        (partitionFor session.clientId chunk.header.fileType partitions)
    let session ← switchTo session ⟨chunk.header.relPath, chunk.header.fileType, partition⟩
    Program.perform ⟨partition, serializeChunk chunk⟩
    return session

/-- The EOF behind the last file. -/
def finishFile (session : ClientSession) : UploadProgram PUnit :=
  match session.currentFile with
  | some file => sendFileEof session.clientId file
  | none => return ⟨⟩

/-- One round of `_forward_chunks`, up to the ACK. -/
def forwardFrame (partitions : Nat) (session : ClientSession) : UploadProgram UploadState := do
  let msgType ← Program.receive 1
  if beDecode msgType = fileChunkType.toNat then do
    let chunk ← FileChunk.recv
    let session ← forwardChunk partitions session chunk
    return .forwarding session
  else if beDecode msgType = finishType.toNat then do
    finishFile session
    return .finished session.clientId
  else Program.raise s!"unexpected msg_type={beDecode msgType} from client_id={session.clientId}"

/-- What `_send_abort` sends. -/
def abortMessages (partitions clientId : Nat) : List PartitionMessage :=
  match serializeAbort clientId with
  | .ok abortMsg => (List.range partitions).map fun partition => ⟨partition, abortMsg⟩
  | .error _ => []

end Gateway

namespace UploadState

/-- The program for the next message of the client. -/
def serve (partitions : Nat) : UploadState → UploadProgram UploadState
  | greeting => Gateway.recvHandshake
  | forwarding session => Gateway.forwardFrame partitions session
  | finished clientId => return finished clientId

/-- Whether the chunks are finished. -/
def isFinished : UploadState → Bool
  | greeting => false
  | forwarding _ => false
  | finished _ => true

/-- Before the handshake there is nothing to abort. -/
def cleanup (partitions : Nat) : UploadState → List PartitionMessage
  | greeting => []
  | forwarding session => Gateway.abortMessages partitions session.clientId
  | finished _ => []

theorem serve_opens (partitions : Nat) {s : UploadState} (h : s.isFinished = false) :
    ∃ n k, s.serve partitions = .recvExact (n + 1) k := by
  cases s with
  | greeting => exact ⟨0, _, rfl⟩
  | forwarding session => exact ⟨0, _, rfl⟩
  | finished clientId => cases h

end UploadState

namespace Gateway

/-- `_serve_client` up to the results: each message is answered with an ACK, and an exception before
FINISH aborts the client. -/
def upload (partitions : Nat) : Service UInt8 PartitionMessage UploadState where
  serve := UploadState.serve partitions
  reply := ackType
  closed := UploadState.isFinished
  cleanup := UploadState.cleanup partitions
  opens _ h := UploadState.serve_opens partitions h

end Gateway

/-- The check of `_wait_ack`. -/
def Client.isAck (header : UInt8) : Bool := header.toNat == ackType.toNat

/-! ## What the messages of a client ask for -/

/-- Where the messages of a file go. -/
def partitionOf (partitions clientId fileType : Nat) : Nat :=
  if fileType = fileTypeTransactions then clientId * 2 % partitions
    else (clientId * 2 % partitions + 1) % partitions

theorem partitionFor_eq {partitions clientId fileType : Nat} (h : 0 < partitions)
    (hf : fileType ∈ fileTypes) :
    partitionFor clientId fileType partitions = .ok (partitionOf partitions clientId fileType) := by
  have htypes : fileType = fileTypeTransactions ∨ fileType = fileTypeAccounts := by
    simpa [fileTypes] using hf
  rw [partitionFor, Except.raiseIf_of_not (Nat.pos_iff_ne_zero.mp h), Except.ok_bind]
  dsimp only
  rcases htypes with rfl | rfl
  · rw [if_pos rfl, partitionOf, if_pos rfl]
    rfl
  · rw [if_neg (by decide), if_pos rfl, partitionOf, if_neg (by decide)]
    rfl

namespace FileChunk

variable (partitions : Nat) (c : FileChunk)

def partition : Nat := partitionOf partitions c.header.clientId c.header.fileType

/-- The EOF of the file that a chunk belongs to. -/
def eof : FileEof :=
  ⟨c.header.relPath, c.header.clientId, c.header.fileType, c.header.clientId_lt,
    c.header.fileType_mem, c.header.pathSize_lt⟩

def published : PartitionMessage := ⟨c.partition partitions, serializeChunk c⟩

def eofPublished : PartitionMessage := ⟨c.partition partitions, msgEof :: c.eof.serialize⟩

/-- Two chunks of one file. -/
def SameFile (c d : FileChunk) : Prop :=
  c.header.relPath = d.header.relPath ∧ c.header.fileType = d.header.fileType

instance (c d : FileChunk) : Decidable (SameFile c d) := inferInstanceAs (Decidable (_ ∧ _))

/-- The file that a chunk makes the current one. -/
def currentFile : CurrentFile := ⟨c.header.relPath, c.header.fileType, c.partition partitions⟩

end FileChunk

namespace Gateway

variable (partitions : Nat)

/-- The EOF in front of a chunk. -/
def switchActs : Option FileChunk → FileChunk → List PartitionMessage
  | none, _ => []
  | some prev, c => if prev.SameFile c then [] else [prev.eofPublished partitions]

/-- The chunks in order, with an EOF behind each file, when `prev` was the chunk in front of
them. -/
def plan : Option FileChunk → List FileChunk → List PartitionMessage
  | prev, [] => prev.toList.map (FileChunk.eofPublished partitions)
  | prev, c :: cs => switchActs partitions prev c ++ c.published partitions :: plan (some c) cs

/-- The session behind a chunk. -/
def sessionAfter (clientId : Nat) (last : Option FileChunk) : ClientSession :=
  ⟨clientId, last.map (FileChunk.currentFile partitions)⟩

def handshakeRound (clientId : Nat) : Round UInt8 PartitionMessage UploadState :=
  ⟨handshakeType :: beEncode 4 clientId, [], .forwarding (sessionAfter partitions clientId none)⟩

def chunkRound (clientId : Nat) (prev : Option FileChunk) (c : FileChunk) :
    Round UInt8 PartitionMessage UploadState :=
  ⟨Client.fileChunkMessage c, switchActs partitions prev c ++ [c.published partitions],
    .forwarding (sessionAfter partitions clientId (some c))⟩

def chunkRounds (clientId : Nat) :
    Option FileChunk → List FileChunk → List (Round UInt8 PartitionMessage UploadState)
  | _, [] => []
  | prev, c :: cs => chunkRound partitions clientId prev c :: chunkRounds clientId (some c) cs

def finishRound (clientId : Nat) (last : Option FileChunk) :
    Round UInt8 PartitionMessage UploadState :=
  ⟨Client.finishMessage, last.toList.map (FileChunk.eofPublished partitions), .finished clientId⟩

/-- The last of some chunks, or what was in front of them. -/
def lastChunk (prev : Option FileChunk) (cs : List FileChunk) : Option FileChunk :=
  cs.getLast?.or prev

variable {partitions} {clientId : Nat} {prev : Option FileChunk} {c : FileChunk} {rest : Bytes}

theorem lastChunk_cons (prev : Option FileChunk) (c : FileChunk) (cs : List FileChunk) :
    lastChunk (some c) cs = lastChunk prev (c :: cs) := by
  rw [lastChunk, lastChunk, List.getLast?_cons, Option.or_some]
  cases cs.getLast? <;> rfl

/-- The plan, message by message. -/
theorem plan_eq (clientId : Nat) (prev : Option FileChunk) (cs : List FileChunk) :
    plan partitions prev cs = actsOf (chunkRounds partitions clientId prev cs) ++
      (finishRound partitions clientId (lastChunk prev cs)).acts := by
  induction cs generalizing prev with
  | nil => rfl
  | cons c cs ih =>
    simp only [plan, ih (some c), ← lastChunk_cons prev, chunkRounds, actsOf,
      List.flatMap_cons, chunkRound, List.append_assoc, List.cons_append, List.nil_append]

/-! ## The programs on these messages -/

theorem eval_sendFileEof (hc : c.header.clientId = clientId) :
    (sendFileEof clientId (c.currentFile partitions)).eval rest =
      ⟨[c.eofPublished partitions], .ok ⟨⟩, rest⟩ := by
  have heof : serializeFileEof clientId c.header.fileType c.header.relPath =
      .ok (msgEof :: c.eof.serialize) := by
    rw [serializeFileEof, ← hc]
    exact congrArg (· >>= _) c.eof.create_self
  rw [sendFileEof, FileChunk.currentFile, heof,
    Program.eval_bind_of_ok (Program.eval_ofExcept_ok _ _)]
  rfl

theorem switchTo_same {session : ClientSession} {cur : CurrentFile} (file : CurrentFile)
    (hcur : session.currentFile = some cur)
    (h : cur.path = file.path ∧ cur.fileType = file.fileType) :
    switchTo session file = return session := by
  rw [switchTo, hcur]
  exact if_pos h

theorem switchTo_other {session : ClientSession} {cur : CurrentFile} (file : CurrentFile)
    (hcur : session.currentFile = some cur)
    (h : ¬ (cur.path = file.path ∧ cur.fileType = file.fileType)) :
    switchTo session file = do
      sendFileEof session.clientId cur
      return { session with currentFile := some file } := by
  rw [switchTo, hcur]
  exact if_neg h

theorem eval_switchTo (hprev : ∀ d ∈ prev, d.header.clientId = clientId)
    (hc : c.header.clientId = clientId) :
    (switchTo (sessionAfter partitions clientId prev) (c.currentFile partitions)).eval rest =
      ⟨switchActs partitions prev c, .ok (sessionAfter partitions clientId (some c)), rest⟩ := by
  cases prev with
  | none => rfl
  | some d =>
    have hd := hprev d rfl
    have hcur : (sessionAfter partitions clientId (some d)).currentFile =
        some (d.currentFile partitions) := rfl
    by_cases hsame : d.SameFile c
    · have hfile : d.currentFile partitions = c.currentFile partitions := by
        rw [FileChunk.currentFile, FileChunk.currentFile, FileChunk.partition, FileChunk.partition,
          hsame.1, hsame.2, hd, hc]
      rw [switchActs, if_pos hsame, switchTo_same (c.currentFile partitions) hcur hsame,
        sessionAfter, Option.map_some, hfile]
      rfl
    · rw [switchActs, if_neg hsame, switchTo_other (c.currentFile partitions) hcur hsame]
      exact Program.eval_bind_of_ok (eval_sendFileEof hd)

theorem eval_forwardChunk (hp : 0 < partitions) (hprev : ∀ d ∈ prev, d.header.clientId = clientId)
    (hc : c.header.clientId = clientId) :
    (forwardChunk partitions (sessionAfter partitions clientId prev) c).eval rest =
      ⟨switchActs partitions prev c ++ [c.published partitions],
        .ok (sessionAfter partitions clientId (some c)), rest⟩ := by
  have hpartition : partitionFor clientId c.header.fileType partitions =
      .ok (c.partition partitions) := by
    rw [partitionFor_eq hp c.header.fileType_mem, FileChunk.partition, hc]
  have hsession : (sessionAfter partitions clientId prev).clientId = clientId := rfl
  rw [forwardChunk, hsession, if_neg (not_not_intro hc), hpartition,
    Program.eval_bind_of_ok (Program.eval_ofExcept_ok _ _), Program.Outcome.after_nil]
  change ((switchTo _ (c.currentFile partitions)) >>= _).eval rest = _
  rw [Program.eval_bind_of_ok (eval_switchTo hprev hc),
    Program.eval_bind_of_ok (Program.eval_perform _ _)]
  rfl

theorem eval_finishFile (hprev : ∀ d ∈ prev, d.header.clientId = clientId) :
    (finishFile (sessionAfter partitions clientId prev)).eval rest =
      ⟨prev.toList.map (FileChunk.eofPublished partitions), .ok ⟨⟩, rest⟩ := by
  cases prev with
  | none => rfl
  | some d => exact eval_sendFileEof (hprev d rfl)

/-- The type of a message is its first byte. -/
theorem eval_msgType {α : Type} (b : UInt8) (f : Bytes → UploadProgram α) :
    (Program.receive 1 >>= f).eval (b :: rest) = (f [b]).eval rest := by
  have hb : (Program.receive 1 : UploadProgram Bytes).eval ([b] ++ rest) = ⟨[], .ok [b], rest⟩ :=
    Program.eval_receive rfl
  exact Program.eval_bind_of_ok hb

theorem beDecode_byte (b : UInt8) : beDecode [b] = b.toNat := by simp [beDecode]

theorem eval_recvHandshake (hid : clientId < 256 ^ 4) :
    recvHandshake.eval (handshakeRound partitions clientId).request =
      ⟨[], .ok (handshakeRound partitions clientId).next, []⟩ := by
  have hlen := length_beEncode 4 clientId
  rw [recvHandshake, handshakeRound, eval_msgType, beDecode_byte, if_neg (not_not_intro rfl)]
  conv_lhs => rw [← List.append_nil (beEncode 4 clientId)]
  rw [Program.eval_bind_of_ok (Program.eval_receive hlen), beDecode_beEncode hid]
  rfl

theorem eval_forwardFrame_chunk (hp : 0 < partitions)
    (hprev : ∀ d ∈ prev, d.header.clientId = clientId) (hc : c.header.clientId = clientId) :
    (forwardFrame partitions (sessionAfter partitions clientId prev)).eval
        (chunkRound partitions clientId prev c).request =
      ⟨(chunkRound partitions clientId prev c).acts,
        .ok (chunkRound partitions clientId prev c).next, []⟩ := by
  rw [forwardFrame, chunkRound, Client.fileChunkMessage, eval_msgType, beDecode_byte, if_pos rfl]
  conv_lhs => rw [← List.append_nil c.serialize]
  rw [Program.eval_bind_of_ok (FileChunk.eval_recv c []), Program.Outcome.after_nil,
    Program.eval_bind_of_ok (eval_forwardChunk hp hprev hc), Program.eval_pure,
    Program.Outcome.after, List.append_nil]

theorem eval_forwardFrame_finish (hprev : ∀ d ∈ prev, d.header.clientId = clientId) :
    (forwardFrame partitions (sessionAfter partitions clientId prev)).eval
        (finishRound partitions clientId prev).request =
      ⟨(finishRound partitions clientId prev).acts,
        .ok (finishRound partitions clientId prev).next, []⟩ := by
  rw [forwardFrame, finishRound, Client.finishMessage, eval_msgType, beDecode_byte,
    if_neg (by decide),
    if_pos rfl, Program.eval_bind_of_ok (eval_finishFile hprev), Program.eval_pure,
    Program.Outcome.after, List.append_nil]
  rfl

/-- The rounds of a client that sends these chunks and then FINISH. -/
def uploadRounds (partitions clientId : Nat) (cs : List FileChunk) :
    List (Round UInt8 PartitionMessage UploadState) :=
  handshakeRound partitions clientId :: (chunkRounds partitions clientId none cs ++
    [finishRound partitions clientId (lastChunk none cs)])

theorem answers_chunks (hp : 0 < partitions) {cs : List FileChunk}
    (hprev : ∀ d ∈ prev, d.header.clientId = clientId)
    (hcs : ∀ c ∈ cs, c.header.clientId = clientId) :
    Answers (upload partitions) (.forwarding (sessionAfter partitions clientId prev))
      (chunkRounds partitions clientId prev cs ++
        [finishRound partitions clientId (lastChunk prev cs)]) := by
  induction cs generalizing prev with
  | nil => exact .cons rfl (eval_forwardFrame_finish hprev) (.nil _)
  | cons c cs ih =>
    have hc := hcs c List.mem_cons_self
    refine .cons rfl (eval_forwardFrame_chunk hp hprev hc) ?_
    rw [← lastChunk_cons]
    refine ih ?_ fun d hd => hcs d (List.mem_cons_of_mem _ hd)
    rintro d ⟨⟩
    exact hc

/-- The gateway does what a client with these chunks asks for. -/
theorem answers_upload (hp : 0 < partitions) (hid : clientId < 256 ^ 4) {cs : List FileChunk}
    (hcs : ∀ c ∈ cs, c.header.clientId = clientId) :
    Answers (upload partitions) .greeting (uploadRounds partitions clientId cs) := by
  refine .cons rfl (eval_recvHandshake hid) (answers_chunks hp ?_ hcs)
  rintro d ⟨⟩

theorem actsOf_uploadRounds (cs : List FileChunk) :
    actsOf (uploadRounds partitions clientId cs) = plan partitions none cs := by
  rw [plan_eq clientId, uploadRounds, actsOf, List.flatMap_cons, List.flatMap_append,
    List.flatMap_singleton]
  rfl

theorem requests_chunkRounds (cs : List FileChunk) :
    (chunkRounds partitions clientId prev cs).map Round.request =
      cs.map Client.fileChunkMessage := by
  induction cs generalizing prev with
  | nil => rfl
  | cons c cs ih =>
    rw [chunkRounds, List.map_cons, ih]
    rfl

theorem requests_uploadRounds (cs : List FileChunk) :
    (uploadRounds partitions clientId cs).map Round.request =
      (handshakeType :: beEncode 4 clientId) ::
        (cs.map Client.fileChunkMessage ++ [Client.finishMessage]) := by
  rw [uploadRounds, List.map_cons, List.map_append, requests_chunkRounds]
  rfl

theorem stateAfter_uploadRounds (cs : List FileChunk) :
    stateAfter .greeting (uploadRounds partitions clientId cs) = .finished clientId := by
  rw [uploadRounds, ← List.cons_append, stateAfter_concat]
  rfl

end Gateway

/-! ## File by file -/

/-- What tells a file from the next one. -/
def InputFile.name (f : InputFile) : String × Nat := (f.relPath, f.fileType)

namespace UploadedFile

variable (partitions : Nat) (u : UploadedFile)

@[inherit_doc InputFile.name] def name : String × Nat := (u.relPath, u.fileType)

def partition : Nat := partitionOf partitions u.clientId u.fileType

/-- The EOF of the file. -/
def eofMessage : PartitionMessage := (u.chunks.head u.nonempty).eofPublished partitions

/-- A file as it is published: its chunks, and then its end. -/
def publications : List PartitionMessage :=
  u.chunks.map (FileChunk.published partitions) ++ [u.eofMessage partitions]

variable {partitions u} {c d : FileChunk}

theorem eofPublished_eq (hc : c ∈ u.chunks) (hd : d ∈ u.chunks) :
    c.eofPublished partitions = d.eofPublished partitions := by
  obtain ⟨hc₁, hc₂, hc₃⟩ := u.same c hc
  obtain ⟨hd₁, hd₂, hd₃⟩ := u.same d hd
  simp only [FileChunk.eofPublished, FileChunk.partition, FileEof.serialize, FileChunk.eof, hc₁,
    hc₂, hc₃, hd₁, hd₂, hd₃]

theorem eofMessage_eq (hc : c ∈ u.chunks) : c.eofPublished partitions = u.eofMessage partitions :=
  eofPublished_eq hc (List.head_mem _)

theorem sameFile (hc : c ∈ u.chunks) (hd : d ∈ u.chunks) : c.SameFile d := by
  obtain ⟨-, hc₂, hc₃⟩ := u.same c hc
  obtain ⟨-, hd₂, hd₃⟩ := u.same d hd
  exact ⟨hc₂.trans hd₂.symm, hc₃.trans hd₃.symm⟩

theorem not_sameFile {v : UploadedFile} (hname : u.name ≠ v.name) (hc : c ∈ u.chunks)
    (hd : d ∈ v.chunks) :
    ¬ c.SameFile d := by
  obtain ⟨-, hc₂, hc₃⟩ := u.same c hc
  obtain ⟨-, hd₂, hd₃⟩ := v.same d hd
  rintro ⟨hpath, htype⟩
  exact hname (Prod.ext (hc₂.symm.trans (hpath.trans hd₂)) (hc₃.symm.trans (htype.trans hd₃)))

end UploadedFile

namespace Gateway

variable {partitions : Nat} {u : UploadedFile} {c d : FileChunk}

/-- Inside of a file there is no EOF. -/
theorem plan_within (hd : d ∈ u.chunks) {cs : List FileChunk} (hcs : ∀ c ∈ cs, c ∈ u.chunks)
    (more : List FileChunk) : ∃ e ∈ u.chunks, plan partitions (some d) (cs ++ more) =
      cs.map (FileChunk.published partitions) ++ plan partitions (some e) more := by
  induction cs generalizing d with
  | nil => exact ⟨d, hd, rfl⟩
  | cons c cs ih =>
    have hc := hcs c List.mem_cons_self
    obtain ⟨e, he, hplan⟩ := ih hc fun c' hc' => hcs c' (List.mem_cons_of_mem _ hc')
    refine ⟨e, he, ?_⟩
    rw [List.cons_append, plan, hplan, switchActs, if_pos (UploadedFile.sameFile hd hc)]
    rfl

theorem plan_file (prev : Option FileChunk) (u : UploadedFile) (more : List FileChunk) :
    ∃ c ∈ u.chunks, ∃ e ∈ u.chunks, plan partitions prev (u.chunks ++ more) =
      switchActs partitions prev c ++
        (u.chunks.map (FileChunk.published partitions) ++ plan partitions (some e) more) := by
  obtain ⟨c, cs, hu⟩ := List.exists_cons_of_ne_nil u.nonempty
  have hc : c ∈ u.chunks := by
    rw [hu]
    exact List.mem_cons_self
  obtain ⟨e, he, hplan⟩ := @plan_within partitions u c hc cs (fun d hd => by
    rw [hu]
    exact List.mem_cons_of_mem _ hd) more
  refine ⟨c, hc, e, he, ?_⟩
  rw [hu, List.cons_append, plan, hplan]
  rfl

/-- Behind a file, its EOF is due. -/
theorem plan_behind {us : List UploadedFile} (hd : d ∈ u.chunks)
    (hus : ((u :: us).map UploadedFile.name).IsChain (· ≠ ·)) :
    plan partitions (some d) (us.flatMap UploadedFile.chunks) =
      u.eofMessage partitions :: us.flatMap (UploadedFile.publications partitions) := by
  induction us generalizing u d with
  | nil => exact congrArg (· :: []) (UploadedFile.eofMessage_eq hd)
  | cons v us ih =>
    rw [List.map_cons, List.map_cons, List.isChain_cons_cons] at hus
    obtain ⟨c, hc, e, he, hplan⟩ :=
      @plan_file partitions (some d) v (us.flatMap UploadedFile.chunks)
    rw [List.flatMap_cons, List.flatMap_cons, hplan, switchActs,
      if_neg (UploadedFile.not_sameFile hus.1 hd hc),
      ih he hus.2, UploadedFile.eofMessage_eq hd, UploadedFile.publications]
    simp only [List.singleton_append, List.append_assoc]

/-- The plan for some files, no two of the same name next to each other. -/
theorem plan_files {us : List UploadedFile} (hus : (us.map UploadedFile.name).IsChain (· ≠ ·)) :
    plan partitions none (us.flatMap UploadedFile.chunks) =
      us.flatMap (UploadedFile.publications partitions) := by
  cases us with
  | nil => rfl
  | cons u us =>
    obtain ⟨c, hc, e, he, hplan⟩ := @plan_file partitions none u (us.flatMap UploadedFile.chunks)
    rw [List.flatMap_cons, List.flatMap_cons, hplan, plan_behind he hus, switchActs,
      UploadedFile.publications]
    simp only [List.nil_append, List.singleton_append, List.append_assoc]

/-! ## The client -/

/-- The messages of a client that has come to its end. -/
theorem streamFiles_reads (partitions : Nat) {r : ChunkReader} {contents : String → Bytes}
    {messages : List Bytes}
    (h : Client.streamFiles r contents = (messages, .ok ⟨⟩)) : r.clientId < 256 ^ 4 ∧ ∃ us :
    List UploadedFile,
      List.Forall₂ (fun u f => u.Reads r f (contents f.absPath)) us r.inputFiles ∧
        messages = (uploadRounds partitions r.clientId (us.flatMap UploadedFile.chunks)).map
          Round.request := by
  unfold Client.streamFiles at h
  split at h
  next => cases h
  next handshake hhandshake =>
    obtain ⟨packed, hpacked, hcons⟩ := Except.ok_of_bind hhandshake
    cases hcons
    obtain ⟨hid, rfl⟩ := pack_eq_ok_iff.mp hpacked
    obtain ⟨-, hrest, rfl⟩ := Generated.andThen_eq_ok h
    obtain ⟨hchunks, -, hmessages⟩ := Generated.andThen_eq_ok hrest
    rw [hmessages]
    unfold Client.chunkMessages at hchunks ⊢
    split at hchunks
    next => cases hchunks
    next hfind =>
      dsimp only
      have hiter : r.iter contents = ((r.iter contents).1, .ok ⟨⟩) :=
        Prod.ext rfl (Prod.mk.inj hchunks).2
      obtain ⟨us, hus, hreads⟩ := ChunkReader.iterFiles_reads hiter
      refine ⟨hid, us, hreads, ?_⟩
      rw [requests_uploadRounds, hus]
      rfl

/-- The files of a reader have its client id and the names of its input files. -/
theorem names_of_reads {r : ChunkReader} {contents : String → Bytes} {us : List UploadedFile}
    {fs : List InputFile} (h : List.Forall₂ (fun u f => u.Reads r f (contents f.absPath)) us fs) :
    us.map UploadedFile.name = fs.map InputFile.name ∧ ∀ u ∈ us, u.clientId = r.clientId := by
  induction h with
  | nil => exact ⟨rfl, fun u hu => absurd hu List.not_mem_nil⟩
  | @cons u f us fs hu _ ih =>
    refine ⟨?_, fun v hv => ?_⟩
    · rw [List.map_cons, List.map_cons, ih.1]
      exact congrArg (· :: _) (Prod.ext hu.relPath hu.fileType)
    · rcases List.mem_cons.mp hv with rfl | hv
      · exact hu.clientId
      · exact ih.2 v hv

theorem clientId_of_mem {us : List UploadedFile} {clientId : Nat}
    (h : ∀ u ∈ us, u.clientId = clientId) :
    ∀ c ∈ us.flatMap UploadedFile.chunks, c.header.clientId = clientId := by
  intro c hc
  obtain ⟨u, hu, hcu⟩ := List.mem_flatMap.mp hc
  exact (u.same c hcu).1.trans (h u hu)

/-! ## What is published of it -/

section run
variable {clientId : Nat} {cs : List FileChunk}

/-- A round of the upload is the handshake, that of a chunk, or FINISH. -/
theorem mem_uploadRounds {round : Round UInt8 PartitionMessage UploadState}
    (h : round ∈ uploadRounds partitions clientId cs) :
    round = handshakeRound partitions clientId ∨
      (∃ prev c, round = chunkRound partitions clientId prev c) ∨
      round = finishRound partitions clientId (lastChunk none cs) := by
  have hchunks : ∀ prev, round ∈ chunkRounds partitions clientId prev cs →
      ∃ prev c, round = chunkRound partitions clientId prev c := by
    clear h
    induction cs with
    | nil =>
      intro prev h
      cases h
    | cons c cs ih =>
      intro prev h
      rcases List.mem_cons.mp h with rfl | h
      · exact ⟨prev, c, rfl⟩
      · exact ih _ h
  rcases List.mem_cons.mp h with rfl | h
  · exact .inl rfl
  · rcases List.mem_append.mp h with h | h
    · exact .inr (.inl (hchunks _ h))
    · exact .inr (.inr (List.mem_singleton.mp h))

/-- The round of a chunk publishes it. -/
theorem published_mem_acts {round : Round UInt8 PartitionMessage UploadState}
    (h : round ∈ uploadRounds partitions clientId cs)
    (hreq : round.request = Client.fileChunkMessage c) :
    c.published partitions ∈ round.acts := by
  rcases mem_uploadRounds h with rfl | ⟨prev, d, rfl⟩ | rfl
  · cases (List.cons.inj hreq).1
  · have hser : d.serialize = c.serialize := (List.cons.inj hreq).2
    obtain rfl : d = c := by
      have hd := @FileChunk.deserialize_serialize d []
      have hc := @FileChunk.deserialize_serialize c []
      rw [hser, hc] at hd
      exact (Except.ok.inj hd).symm
    exact List.mem_append_right _ List.mem_cons_self
  · cases (List.cons.inj hreq).1

/-- Wherever the upload of a client breaks off, its cleanup aborts this client. -/
theorem cleanup_isPrefix {before : List (Round UInt8 PartitionMessage UploadState)}
    (h : before <+: uploadRounds partitions clientId cs) :
    (stateAfter .greeting before).cleanup partitions <+: abortMessages partitions clientId := by
  cases before using List.reverseRecOn with
  | nil => exact List.nil_prefix
  | append_singleton before round =>
    rw [stateAfter_concat]
    rcases mem_uploadRounds (h.subset (List.mem_append_right _ List.mem_cons_self)) with rfl |
      ⟨prev, d, rfl⟩ | rfl
    · exact List.prefix_refl _
    · exact List.prefix_refl _
    · exact List.nil_prefix

end run

/-- The runs of a gateway and a client with these messages, whatever fails on the way. -/
abbrev UploadRun (partitions : Nat) (messages : List Bytes) :
    State UInt8 PartitionMessage UploadState → Prop :=
  Reachable (State.exec (upload partitions) Client.isAck) (fun _ _ => True)
    (.init (upload partitions) .greeting messages)

/-- What the outside sees of an upload. -/
theorem seen_of_upload {partitions : Nat} (hp : 0 < partitions) {r : ChunkReader}
    {contents : String → Bytes}
    {messages : List Bytes} (hread : Client.streamFiles r contents = (messages, .ok ⟨⟩))
    (hnames : (r.inputFiles.map InputFile.name).IsChain (· ≠ ·)) :
    ∃ us : List UploadedFile,
    List.Forall₂ (fun u f => u.Reads r f (contents f.absPath)) us r.inputFiles ∧
      ∀ y, UploadRun partitions messages y → ∃ pre post shown aborts,
        pre ++ post = uploadRounds partitions r.clientId (us.flatMap UploadedFile.chunks) ∧
        messages = pre.map Round.request ++ y.requests ∧ y.server.trace = shown ++ aborts ∧
        actsOf pre <+: shown ∧
        shown <+: us.flatMap (UploadedFile.publications partitions) ∧
        aborts <+: abortMessages partitions r.clientId ∧
        (y.requests = [] → shown = us.flatMap (UploadedFile.publications partitions) ∧
          aborts = []) := by
  obtain ⟨hid, us, hreads, rfl⟩ := streamFiles_reads partitions hread
  obtain ⟨hsame, hids⟩ := names_of_reads hreads
  rw [← hsame] at hnames
  have hans := answers_upload hp hid (clientId_of_mem hids)
  have hplan := @actsOf_uploadRounds partitions r.clientId (us.flatMap UploadedFile.chunks)
  have hdone := @stateAfter_uploadRounds partitions r.clientId (us.flatMap UploadedFile.chunks)
  rw [plan_files hnames] at hplan
  refine ⟨us, hreads, fun y h => ?_⟩
  obtain ⟨pre, post, shown, cleaned, hrounds, hrequests, hseen⟩ := seen_of_reachable hans h
  refine ⟨pre, post, shown, cleaned, hrounds, ?_, hseen.trace_eq, hseen.replied, ?_, ?_,
    fun hnone => ?_⟩
  · rw [← hrounds, List.map_append, hrequests]
  · rw [← hplan, ← hrounds]
    exact hseen.shown_prefix
  · rcases hseen.cleaned_prefix with rfl | ⟨before, hbefore, -, hcleaned⟩
    · exact List.nil_prefix
    · rw [hrounds] at hbefore
      exact hcleaned.trans (cleanup_isPrefix hbefore)
  · obtain rfl : post = [] := List.map_eq_nil_iff.mp (hrequests.symm.trans hnone)
    rw [List.append_nil] at hrounds
    subst hrounds
    obtain ⟨hshown, hcleaned⟩ := hseen.all rfl (by rw [hdone]; rfl)
    exact ⟨hshown.trans hplan, hcleaned⟩

/-- **An upload, wherever it stands.** The gateway has published the files of the client in order,
each as its chunks and then its EOF, up to some point, and behind that only aborts of this client.
Every chunk with an ACK is published. With the last ACK everything is, and there is no abort. -/
theorem upload_in_order {partitions : Nat} (hp : 0 < partitions) {r : ChunkReader}
    {contents : String → Bytes}
    {messages : List Bytes} (hread : Client.streamFiles r contents = (messages, .ok ⟨⟩))
    (hnames : (r.inputFiles.map InputFile.name).IsChain (· ≠ ·)) :
    ∃ us : List UploadedFile,
    List.Forall₂ (fun u f => u.Reads r f (contents f.absPath)) us r.inputFiles ∧
      ∀ y, UploadRun partitions messages y → ∃ sent shown aborts,
        messages = sent ++ y.requests ∧ y.server.trace = shown ++ aborts ∧
        shown <+: us.flatMap (UploadedFile.publications partitions) ∧
        aborts <+: abortMessages partitions r.clientId ∧
        (∀ c, Client.fileChunkMessage c ∈ sent → c.published partitions ∈ shown) ∧
        (y.requests = [] → shown = us.flatMap (UploadedFile.publications partitions) ∧
          aborts = []) := by
  obtain ⟨us, hreads, hrun⟩ := seen_of_upload hp hread hnames
  refine ⟨us, hreads, fun y h => ?_⟩
  obtain ⟨pre, post, shown, aborts, hrounds, hsent, htrace, hreplied, hshown, haborts, hall⟩ :=
    hrun y h
  refine ⟨pre.map Round.request, shown, aborts, hsent, htrace, hshown, haborts,
    fun c hc => ?_, hall⟩
  obtain ⟨round, hround, hreq⟩ := List.mem_map.mp hc
  have hmem : round ∈ uploadRounds partitions r.clientId (us.flatMap UploadedFile.chunks) := by
    rw [← hrounds]
    exact List.mem_append_left _ hround
  exact hreplied.subset (List.mem_flatMap.mpr ⟨round, hround, published_mem_acts hmem hreq⟩)

/-- Two files, of which one is empty. -/
def twoFiles : ChunkReader where
  clientId := 7
  inputFiles :=
    [⟨"/data/t.csv", "t.csv", fileTypeTransactions⟩, ⟨"/data/a.csv", "a.csv", fileTypeAccounts⟩]
  maxMessageSize := 29
  inputFiles_ne_nil := List.cons_ne_nil _ _
  maxMessageSize_pos := Nat.succ_ne_zero _

/-- The files have three bytes and none. -/
def twoContents (path : String) : Bytes := if path = "/data/t.csv" then [65, 66, 10] else []

theorem twoFiles_read : Client.streamFiles twoFiles twoContents =
    ((Client.streamFiles twoFiles twoContents).1, .ok ⟨⟩) := rfl

theorem twoFiles_names : (twoFiles.inputFiles.map InputFile.name).IsChain (· ≠ ·) := by decide

theorem upload_in_order_two : ∃ us : List UploadedFile, us.length = 2 ∧
    ∀ y, UploadRun 3 (Client.streamFiles twoFiles twoContents).1 y → y.requests = [] →
      y.server.trace = us.flatMap (UploadedFile.publications 3) := by
  obtain ⟨us, hreads, hrun⟩ := upload_in_order (by decide : 0 < 3) twoFiles_read twoFiles_names
  refine ⟨us, hreads.length_eq, fun y h hnone => ?_⟩
  obtain ⟨_, shown, aborts, -, htrace, -, -, -, hall⟩ := hrun y h
  obtain ⟨hshown, haborts⟩ := hall hnone
  rw [htrace, hshown, haborts, List.append_nil]

/-- **An upload without failures.** As long as the client has not left and the gateway has not
broken off, every way to go on without a failure comes to the end: the client has every ACK, and
everything is published. -/
theorem upload_completes {partitions : Nat} (hp : 0 < partitions) {r : ChunkReader}
    {contents : String → Bytes}
    {messages : List Bytes} (hread : Client.streamFiles r contents = (messages, .ok ⟨⟩))
    (hnames : (r.inputFiles.map InputFile.name).IsChain (· ≠ ·)) :
    ∃ us : List UploadedFile,
    List.Forall₂ (fun u f => u.Reads r f (contents f.absPath)) us r.inputFiles ∧
      ∀ y, UploadRun partitions messages y → y.server.hungUp = false →
        (∀ s todo, y.server.phase ≠ .cleaning s todo) →
        Inevitable (State.exec (upload partitions) Client.isAck) (fun _ => Works)
          (fun y => y.requests = [] ∧ y.server.phase = .done (.finished r.clientId) ∧
            y.server.trace = us.flatMap (UploadedFile.publications partitions)) y := by
  obtain ⟨hid, us, hreads, rfl⟩ := streamFiles_reads partitions hread
  obtain ⟨hsame, hids⟩ := names_of_reads hreads
  rw [← hsame] at hnames
  have hans := answers_upload hp hid (clientId_of_mem hids)
  refine ⟨us, hreads, fun y h hung hbroken => ?_⟩
  refine ((atWork_of_reachable hans h hung hbroken).completes rfl hans).mono fun y' hc =>
    ⟨hc.requests, ?_, ?_⟩
  · rw [hc.phase, stateAfter_uploadRounds]
    rfl
  · rw [hc.trace, actsOf_uploadRounds, plan_files hnames]

theorem upload_completes_two : ∃ us : List UploadedFile, us.length = 2 ∧
    Inevitable (State.exec (upload 3) Client.isAck) (fun _ => Works)
      (fun y => y.server.trace = us.flatMap (UploadedFile.publications 3))
      (.init (upload 3) .greeting (Client.streamFiles twoFiles twoContents).1) := by
  obtain ⟨us, hreads, hrun⟩ := upload_completes (by decide : 0 < 3) twoFiles_read twoFiles_names
  refine ⟨us, hreads.length_eq, (hrun _ .init rfl ?_).mono fun y hy => hy.2.2⟩
  rintro s todo ⟨⟩

end Gateway

end MoneyLaundering
