import Mathlib.Data.List.Forall2
import MoneyLaundering.External.FileChunk

/-!
# The chunks a client sends

`ChunkReader` (`client/common/chunk_reader.py`) and the messages that `Client.stream_files` makes of
what it reads. The files are a function of their path. A generator that raises has yielded its first
values.
-/

namespace MoneyLaundering

open Bytes FileProtocol

/-- What a generator has yielded, and how it ended. -/
abbrev Generated (α : Type) := List α × Except String Unit

/-- Go on with `rest` when `g` ended without an exception. -/
def Generated.andThen {α : Type} (g rest : Generated α) : Generated α :=
  match g.2 with
  | .ok _ => (g.1 ++ rest.1, rest.2)
  | .error _ => g

structure InputFile where
  absPath : String
  relPath : String
  fileType : Nat
  deriving DecidableEq

/-- `MESSAGE_TYPE_SIZE`. -/
def messageTypeSize : Nat := 1

structure ChunkReader where
  clientId : Nat
  inputFiles : List InputFile
  maxMessageSize : Nat
  inputFiles_ne_nil : inputFiles ≠ []
  maxMessageSize_pos : maxMessageSize ≠ 0

namespace ChunkReader

/-- `__init__` with the default `message_type_size`. -/
def create (clientId : Nat) (inputFiles : List InputFile) (maxMessageSize : Nat) :
    Except String ChunkReader :=
  if hsize : maxMessageSize = 0 then .error "max_message_size must be greater than 0"
  else if hfiles : inputFiles = [] then .error "at least one input file is required"
  else .ok ⟨clientId, inputFiles, maxMessageSize, hfiles, hsize⟩

variable (r : ChunkReader) (contents : String → Bytes)

/-- The loop over `file.read`, from `offset` on. Every round takes something of what is left. -/
def readLoop (f : InputFile) (maxPayload : Nat) : Nat → Nat → Bytes → Generated FileChunk
  | 0, _, _ => ([], .ok ⟨⟩)
  | fuel + 1, offset, left =>
    if left.take maxPayload = [] then ([], .ok ⟨⟩)
    else match FileChunk.create f.relPath r.clientId f.fileType offset (left.take maxPayload) with
      | .error error => ([], .error error)
      | .ok chunk =>
        let rest :=
          readLoop f maxPayload fuel (offset + (left.take maxPayload).length) (left.drop maxPayload)
        (chunk :: rest.1, rest.2)

/-- One round of `iter`. -/
def fileChunks (f : InputFile) : Generated FileChunk :=
  match FileChunk.maxPayloadSizeForMessage f.relPath r.maxMessageSize messageTypeSize with
  | .error error => ([], .error error)
  | .ok maxPayload =>
    if (contents f.absPath).length = 0 then
      match FileChunk.create f.relPath r.clientId f.fileType 0 [] with
      | .error error => ([], .error error)
      | .ok chunk => ([chunk], .ok ⟨⟩)
    else readLoop r f maxPayload (contents f.absPath).length 0 (contents f.absPath)

def iterFiles : List InputFile → Generated FileChunk
  | [] => ([], .ok ⟨⟩)
  | f :: fs => (r.fileChunks contents f).andThen (iterFiles fs)

def iter : Generated FileChunk := r.iterFiles contents r.inputFiles

end ChunkReader

/-! ## The messages of a client -/

/-- `HANDSHAKE`, `FILE_CHUNK`, `FINISH` and `ACK`. -/
def handshakeType : UInt8 := 1

@[inherit_doc handshakeType] def fileChunkType : UInt8 := 2

@[inherit_doc handshakeType] def finishType : UInt8 := 3

@[inherit_doc handshakeType] def ackType : UInt8 := 4

namespace Client

/-- `send_handshake_request`. -/
def handshakeRequest (clientId : Nat) : Except String Bytes := do
  let clientId ← pack 4 clientId
  return handshakeType :: clientId

/-- `send_file_chunk`. -/
def fileChunkMessage (chunk : FileChunk) : Bytes := fileChunkType :: chunk.serialize

/-- `send_finished`. -/
def finishMessage : Bytes := [finishType]

def tooLarge (chunkMaxBytes : Nat) (chunk : FileChunk) : String :=
  s!"chunk message exceeded configured max size " ++
    s!"(message_size={chunk.messageSize messageTypeSize}, " ++
    s!"max={chunkMaxBytes}, path='{chunk.header.relPath}', offset={chunk.header.offset})"

/-- The loop of `stream_files`: a chunk that is too large stops it. -/
def chunkMessages (chunkMaxBytes : Nat) (chunks : Generated FileChunk) : Generated Bytes :=
  match chunks.1.find? fun chunk => chunkMaxBytes < chunk.messageSize messageTypeSize with
  | some chunk =>
    ((chunks.1.takeWhile fun chunk => chunk.messageSize messageTypeSize ≤ chunkMaxBytes).map
      fileChunkMessage, .error (tooLarge chunkMaxBytes chunk))
  | none => (chunks.1.map fileChunkMessage, chunks.2)

/-- The messages of `stream_files`, each of which waits for its ACK. -/
def streamFiles (r : ChunkReader) (contents : String → Bytes) : Generated Bytes :=
  match handshakeRequest r.clientId with
  | .error error => ([], .error error)
  | .ok handshake =>
    Generated.andThen ([handshake], .ok ⟨⟩)
      ((chunkMessages r.maxMessageSize (r.iter contents)).andThen ([finishMessage], .ok ⟨⟩))

end Client

/-! ## What is read -/

/-- The chunks of one file, in order. -/
structure UploadedFile where
  clientId : Nat
  relPath : String
  fileType : Nat
  chunks : List FileChunk
  nonempty : chunks ≠ []
  same : ∀ c ∈ chunks,
    c.header.clientId = clientId ∧ c.header.relPath = relPath ∧ c.header.fileType = fileType

/-- The chunks are a file: they are its content in order, none is empty unless the file is, and each
message fits `maxMessageSize`. -/
structure UploadedFile.Reads (u : UploadedFile) (r : ChunkReader) (f : InputFile)
    (content : Bytes) : Prop where
  clientId : u.clientId = r.clientId
  relPath : u.relPath = f.relPath
  fileType : u.fileType = f.fileType
  content_eq : (u.chunks.map FileChunk.data).flatten = content
  offset : ∀ i (h : i < u.chunks.length),
    (u.chunks[i]).header.offset = ((u.chunks.take i).map FileChunk.data).flatten.length
  nonempty : content ≠ [] → ∀ c ∈ u.chunks, c.data ≠ []
  empty : content = [] → u.chunks.length = 1
  size : ∀ c ∈ u.chunks, c.messageSize messageTypeSize ≤ r.maxMessageSize

theorem Generated.andThen_eq_ok {α : Type} {g rest : Generated α} {xs : List α}
    (h : g.andThen rest = (xs, .ok ⟨⟩)) :
    g = (g.1, .ok ⟨⟩) ∧ rest = (rest.1, .ok ⟨⟩) ∧ xs = g.1 ++ rest.1 := by
  obtain ⟨ys, result⟩ := g
  obtain ⟨zs, result'⟩ := rest
  cases result with
  | error error => cases h
  | ok _ =>
    cases h
    exact ⟨rfl, rfl, rfl⟩

theorem FileChunk.exists_create {relPath : String} {clientId fileType offset : Nat} {data : Bytes}
    (hclient : clientId < 256 ^ 4) (htype : fileType ∈ fileTypes) (hoffset : offset < 256 ^ 8)
    (hdata : data.length < 256 ^ 4) (hpath : pathSizeFor relPath < 256 ^ 4) :
    ∃ c, FileChunk.create relPath clientId fileType offset data = .ok c :=
  ⟨_, FileChunk.create_self
    ⟨⟨relPath, clientId, fileType, offset, data.length, hclient, htype, hoffset, hdata, hpath⟩,
      data, rfl⟩⟩

/-- The fields of a chunk that was made. -/
theorem FileChunk.fields_of_create {relPath : String} {clientId fileType offset : Nat}
    {data : Bytes} {c : FileChunk}
    (h : FileChunk.create relPath clientId fileType offset data = .ok c) :
    c.header.relPath = relPath ∧
      c.header.clientId = clientId ∧ c.header.fileType = fileType ∧ c.header.offset = offset ∧
      c.data = data := by
  obtain ⟨hh, hdata⟩ := FileChunk.of_create h
  obtain ⟨h₁, h₂, h₃, h₄, -⟩ := FileChunkHeader.of_create hh
  exact ⟨h₁, h₂, h₃, h₄, hdata⟩

namespace ChunkReader

variable {r : ChunkReader} {contents : String → Bytes} {f : InputFile} {maxPayload : Nat}

/-- What the loop has yielded, wherever it began. -/
structure LoopChunks (r : ChunkReader) (f : InputFile) (maxPayload offset : Nat)
    (chunks : List FileChunk) :
    Prop where
  same : ∀ c ∈ chunks,
    c.header.clientId = r.clientId ∧ c.header.relPath = f.relPath ∧ c.header.fileType = f.fileType
  offset : ∀ i (h : i < chunks.length),
    (chunks[i]).header.offset = offset + ((chunks.take i).map FileChunk.data).flatten.length
  nonempty : ∀ c ∈ chunks, c.data ≠ []
  size : ∀ c ∈ chunks, c.data.length ≤ maxPayload

theorem LoopChunks.nil {offset : Nat} : LoopChunks r f maxPayload offset [] where
  same _ h := absurd h List.not_mem_nil
  offset i h := absurd h (Nat.not_lt_zero i)
  nonempty _ h := absurd h List.not_mem_nil
  size _ h := absurd h List.not_mem_nil

theorem LoopChunks.cons {offset : Nat} {chunks : List FileChunk} {c : FileChunk} {data : Bytes}
    (hc : FileChunk.create f.relPath r.clientId f.fileType offset data = .ok c) (hne : data ≠ [])
    (hle : data.length ≤ maxPayload) (h : LoopChunks r f maxPayload (offset + data.length) chunks) :
    LoopChunks r f maxPayload offset (c :: chunks) := by
  obtain ⟨hpath, hclient, htype, hoffset, hdata⟩ := FileChunk.fields_of_create hc
  refine ⟨fun d hd => ?_, fun i hi => ?_, fun d hd => ?_, fun d hd => ?_⟩
  · rcases List.mem_cons.mp hd with rfl | hd
    · exact ⟨hclient, hpath, htype⟩
    · exact h.same d hd
  · cases i with
    | zero => simpa using hoffset
    | succ i =>
      have hi' : i < chunks.length := Nat.lt_of_succ_lt_succ hi
      have := h.offset i hi'
      simp only [List.getElem_cons_succ, List.take_succ_cons, List.map_cons, List.flatten_cons,
        List.length_append, this, hdata]
      omega
  · rcases List.mem_cons.mp hd with rfl | hd
    · rwa [hdata]
    · exact h.nonempty d hd
  · rcases List.mem_cons.mp hd with rfl | hd
    · rwa [hdata]
    · exact h.size d hd

theorem readLoop_nil {fuel offset : Nat} {left : Bytes} (h : left.take maxPayload = []) :
    r.readLoop f maxPayload fuel offset left = ([], .ok ⟨⟩) := by
  cases fuel with
  | zero => rfl
  | succ fuel => rw [readLoop, if_pos h]

theorem readLoop_error {fuel offset : Nat} {left : Bytes} {error : String}
    (h : left.take maxPayload ≠ [])
    (hc : FileChunk.create f.relPath r.clientId f.fileType offset (left.take maxPayload) =
      .error error) :
    r.readLoop f maxPayload (fuel + 1) offset left = ([], .error error) := by
  rw [readLoop, if_neg h, hc]

theorem readLoop_cons {fuel offset : Nat} {left : Bytes} {c : FileChunk}
    (h : left.take maxPayload ≠ [])
    (hc : FileChunk.create f.relPath r.clientId f.fileType offset (left.take maxPayload) = .ok c) :
    r.readLoop f maxPayload (fuel + 1) offset left =
      (c :: (r.readLoop f maxPayload fuel (offset + (left.take maxPayload).length)
        (left.drop maxPayload)).1,
        (r.readLoop f maxPayload fuel (offset + (left.take maxPayload).length)
          (left.drop maxPayload)).2) := by
  rw [readLoop, if_neg h, hc]

/-- The loop yields what is left, in order, or what stands before the place where it raises. -/
theorem readLoop_spec (hmax : maxPayload ≠ 0) {fuel offset : Nat} {left : Bytes}
    (hfuel : left.length ≤ fuel) :
    LoopChunks r f maxPayload offset (r.readLoop f maxPayload fuel offset left).1 ∧
      ((r.readLoop f maxPayload fuel offset left).2 = .ok ⟨⟩ →
        ((r.readLoop f maxPayload fuel offset left).1.map FileChunk.data).flatten = left) := by
  induction fuel generalizing offset left with
  | zero => exact ⟨.nil, fun _ => (List.length_eq_zero_iff.mp (Nat.le_zero.mp hfuel)).symm⟩
  | succ fuel ih =>
    by_cases hnil : left.take maxPayload = []
    · rw [readLoop_nil hnil]
      refine ⟨.nil, fun _ => ?_⟩
      rcases List.take_eq_nil_iff.mp hnil with h | h
      · exact absurd h hmax
      · exact h.symm
    · cases hc : FileChunk.create f.relPath r.clientId f.fileType offset (left.take maxPayload) with
      | error error =>
        rw [readLoop_error hnil hc]
        exact ⟨.nil, by rintro ⟨⟩⟩
      | ok c =>
        have hleft : left ≠ [] := fun h => hnil (by rw [h, List.take_nil])
        have hpos := List.length_pos_iff.mpr hleft
        have hshort : (left.drop maxPayload).length ≤ fuel := by
          rw [List.length_drop]
          omega
        obtain ⟨hchunks, hflat⟩ := @ih (offset + (left.take maxPayload).length) _ hshort
        rw [readLoop_cons hnil hc]
        refine ⟨hchunks.cons hc hnil (List.length_take_le _ _), fun hok => ?_⟩
        rw [List.map_cons, List.flatten_cons, hflat hok, (FileChunk.fields_of_create hc).2.2.2.2,
          List.take_append_drop]

/-- What the bounds of the wire ask of a file. -/
structure Fits (r : ChunkReader) (f : InputFile) (content : Bytes) : Prop where
  clientId : r.clientId < 256 ^ 4
  fileType : f.fileType ∈ fileTypes
  path : pathSizeFor f.relPath < 256 ^ 4
  message : r.maxMessageSize ≤ 256 ^ 4
  content : content.length ≤ 256 ^ 8

theorem readLoop_ok (h : Fits r f (contents f.absPath)) (hmax : maxPayload < 256 ^ 4)
    {fuel offset : Nat} {left : Bytes} (hleft : offset + left.length ≤ 256 ^ 8) :
    (r.readLoop f maxPayload fuel offset left).2 = .ok ⟨⟩ := by
  induction fuel generalizing offset left with
  | zero => rfl
  | succ fuel ih =>
    by_cases hne : left.take maxPayload = []
    · rw [readLoop_nil hne]
    · have hpos := List.length_pos_iff.mpr hne
      have hlen : (left.take maxPayload).length + (left.drop maxPayload).length = left.length := by
        rw [← List.length_append, List.take_append_drop]
      obtain ⟨c, hc⟩ :=
        @FileChunk.exists_create f.relPath _ _ offset (left.take maxPayload) h.clientId
        h.fileType (by omega) (Nat.lt_of_le_of_lt (List.length_take_le _ _) hmax) h.path
      rw [readLoop_cons hne hc]
      exact ih (by omega)

theorem maxPayloadSizeForMessage_eq_ok_iff {relPath : String} {n : Nat} (hn : n ≠ 0)
    {maxPayload : Nat} :
    FileChunk.maxPayloadSizeForMessage relPath n messageTypeSize = .ok maxPayload ↔
      FileChunk.messageOverheadFor relPath messageTypeSize < n ∧
        maxPayload = n - FileChunk.messageOverheadFor relPath messageTypeSize := by
  unfold FileChunk.maxPayloadSizeForMessage
  rw [Except.raiseIf_of_not hn, Except.ok_bind, Except.raiseIf_of_not (by decide), Except.ok_bind]
  dsimp only
  unfold Except.raiseIf
  by_cases hle : n ≤ FileChunk.messageOverheadFor relPath messageTypeSize
  · rw [if_pos hle]
    exact ⟨by rintro ⟨⟩, fun h => absurd h.1 (by omega)⟩
  · rw [if_neg hle]
    constructor
    · intro h
      cases h
      exact ⟨by omega, rfl⟩
    · rintro ⟨-, rfl⟩
      rfl

/-- The chunks of one file, when the reader comes to its end. -/
theorem fileChunks_reads {chunks : List FileChunk}
    (h : r.fileChunks contents f = (chunks, .ok ⟨⟩)) :
    ∃ u : UploadedFile, u.chunks = chunks ∧ u.Reads r f (contents f.absPath) := by
  unfold fileChunks at h
  split at h
  next => cases h
  next maxPayload hmax =>
    obtain ⟨hroom, rfl⟩ := (maxPayloadSizeForMessage_eq_ok_iff r.maxMessageSize_pos).mp hmax
    have hsize : ∀ c : FileChunk, c.header.relPath = f.relPath →
        c.data.length ≤ r.maxMessageSize - FileChunk.messageOverheadFor f.relPath messageTypeSize →
        c.messageSize messageTypeSize ≤ r.maxMessageSize := by
      intro c hpath hlen
      rw [c.length_data] at hlen
      unfold FileChunk.messageOverheadFor at hroom hlen
      rw [FileChunk.messageSize, hpath]
      omega
    split at h
    next hempty =>
      have hnil := List.length_eq_zero_iff.mp hempty
      split at h
      next => cases h
      next c hc =>
        cases h
        obtain ⟨hpath, hclient, htype, hoffset, hdata⟩ := FileChunk.fields_of_create hc
        refine ⟨⟨r.clientId, f.relPath, f.fileType, [c], List.cons_ne_nil _ _, ?_⟩, rfl, rfl, rfl,
          rfl, ?_, ?_, ?_, ?_, ?_⟩
        · intro d hd
          obtain rfl := List.mem_singleton.mp hd
          exact ⟨hclient, hpath, htype⟩
        · simp [hdata, hnil]
        · intro i hi
          obtain rfl : i = 0 := Nat.lt_one_iff.mp hi
          simpa using hoffset
        · exact fun hne => absurd hnil hne
        · exact fun _ => rfl
        · intro d hd
          obtain rfl := List.mem_singleton.mp hd
          exact hsize d hpath (by rw [hdata]; exact Nat.zero_le _)
    next hne =>
      have hcontent : contents f.absPath ≠ [] := fun hnil => hne (by rw [hnil]; rfl)
      obtain ⟨hchunks, hflat⟩ := @readLoop_spec r f
        (r.maxMessageSize - FileChunk.messageOverheadFor f.relPath messageTypeSize) (by omega)
        (contents f.absPath).length 0 (contents f.absPath) (Nat.le_refl _)
      rw [h] at hchunks hflat
      replace hflat := hflat rfl
      have hnonempty : chunks ≠ [] := by
        rintro rfl
        exact hcontent hflat.symm
      refine ⟨⟨r.clientId, f.relPath, f.fileType, chunks, hnonempty, hchunks.same⟩, rfl, rfl, rfl,
        rfl, hflat, ?_, fun _ => hchunks.nonempty, fun hnil => absurd hnil hcontent, fun c hc => ?_⟩
      · intro i hi
        have := hchunks.offset i hi
        rwa [Nat.zero_add] at this
      · exact hsize c (hchunks.same c hc).2.1 (hchunks.size c hc)

/-- A file is read to its end when its path leaves room in a message. -/
theorem fileChunks_ok (h : Fits r f (contents f.absPath))
    (hroom : FileChunk.messageOverheadFor f.relPath messageTypeSize < r.maxMessageSize) :
    (r.fileChunks contents f).2 = .ok ⟨⟩ := by
  rw [fileChunks, (maxPayloadSizeForMessage_eq_ok_iff r.maxMessageSize_pos).mpr ⟨hroom, rfl⟩]
  dsimp only
  split
  next =>
    obtain ⟨c, hc⟩ := @FileChunk.exists_create f.relPath _ _ 0 [] h.clientId h.fileType (by decide)
      (by decide) h.path
    rw [hc]
  next =>
    have hover : 0 < FileChunk.messageOverheadFor f.relPath messageTypeSize := by
      unfold FileChunk.messageOverheadFor messageTypeSize
      omega
    have hmessage := h.message
    exact readLoop_ok h (by omega) (by rw [Nat.zero_add]; exact h.content)

theorem iterFiles_reads {fs : List InputFile} {chunks : List FileChunk}
    (h : r.iterFiles contents fs = (chunks, .ok ⟨⟩)) : ∃ us : List UploadedFile,
      us.flatMap UploadedFile.chunks = chunks ∧
        List.Forall₂ (fun u f => u.Reads r f (contents f.absPath)) us fs := by
  induction fs generalizing chunks with
  | nil =>
    cases h
    exact ⟨[], rfl, .nil⟩
  | cons f fs ih =>
    obtain ⟨hfile, hrest, rfl⟩ := Generated.andThen_eq_ok h
    obtain ⟨u, hu, hreads⟩ := fileChunks_reads hfile
    obtain ⟨us, hus, hall⟩ := ih hrest
    exact ⟨u :: us, by rw [List.flatMap_cons, hu, hus], .cons hreads hall⟩

theorem iterFiles_ok {fs : List InputFile} (hfits : ∀ f ∈ fs, Fits r f (contents f.absPath))
    (hroom : ∀ f ∈ fs, FileChunk.messageOverheadFor f.relPath messageTypeSize < r.maxMessageSize) :
    (r.iterFiles contents fs).2 = .ok ⟨⟩ := by
  induction fs with
  | nil => rfl
  | cons f fs ih =>
    have hf := fileChunks_ok (hfits f List.mem_cons_self) (hroom f List.mem_cons_self)
    rw [iterFiles, Generated.andThen, hf]
    exact ih (fun g hg => hfits g (List.mem_cons_of_mem _ hg)) fun g hg =>
      hroom g (List.mem_cons_of_mem _ hg)

/-- Files behind one whose path leaves no room are not read. -/
theorem iterFiles_no_room {fs : List InputFile} {f : InputFile} {rest : List InputFile}
    (hok : (r.iterFiles contents fs).2 = .ok ⟨⟩)
    (hroom : r.maxMessageSize ≤ FileChunk.messageOverheadFor f.relPath messageTypeSize) :
    ∃ error, r.iterFiles contents (fs ++ f :: rest) =
      ((r.iterFiles contents fs).1, .error error) := by
  induction fs with
  | nil =>
    cases hmax : FileChunk.maxPayloadSizeForMessage f.relPath r.maxMessageSize messageTypeSize with
    | ok maxPayload =>
      have := ((maxPayloadSizeForMessage_eq_ok_iff r.maxMessageSize_pos).mp hmax).1
      omega
    | error error =>
      have hfile : r.fileChunks contents f = ([], .error error) := by
        unfold fileChunks
        rw [hmax]
      exact ⟨error, by rw [List.nil_append, iterFiles, iterFiles, hfile]; rfl⟩
  | cons g fs ih =>
    have hok' : r.iterFiles contents (g :: fs) = ((r.iterFiles contents (g :: fs)).1, .ok ⟨⟩) :=
      Prod.ext rfl hok
    obtain ⟨hg, hfs, -⟩ := Generated.andThen_eq_ok hok'
    obtain ⟨error, herror⟩ := ih (congrArg Prod.snd hfs)
    refine ⟨error, ?_⟩
    rw [List.cons_append, iterFiles, iterFiles, herror, hg]
    rfl

/-- **What a client reads.** A reader that comes to its end has yielded, for each file, chunks with
consecutive offsets that together are the file, each of a size that fits the message; an empty file
is one empty chunk. With fields that fit the wire it comes to its end exactly when every path leaves
room for a payload, and otherwise what it has yielded is the files in front of the first path that
does not. -/
theorem iter_reads (r : ChunkReader) (contents : String → Bytes) :
    (∀ chunks, r.iter contents = (chunks, .ok ⟨⟩) → ∃ us : List UploadedFile,
      us.flatMap UploadedFile.chunks = chunks ∧
        List.Forall₂ (fun u f => u.Reads r f (contents f.absPath)) us r.inputFiles) ∧
    ((∀ f ∈ r.inputFiles, Fits r f (contents f.absPath)) →
      ((∀ f ∈ r.inputFiles, FileChunk.messageOverheadFor f.relPath messageTypeSize <
        r.maxMessageSize) →
        (r.iter contents).2 = .ok ⟨⟩) ∧
      ∀ fs f rest, r.inputFiles = fs ++ f :: rest →
        (∀ g ∈ fs, FileChunk.messageOverheadFor g.relPath messageTypeSize < r.maxMessageSize) →
        r.maxMessageSize ≤ FileChunk.messageOverheadFor f.relPath messageTypeSize →
        (r.iterFiles contents fs).2 = .ok ⟨⟩ ∧
          ∃ error, r.iter contents = ((r.iterFiles contents fs).1, .error error)) := by
  refine ⟨fun chunks h => iterFiles_reads h, fun hfits =>
    ⟨fun hroom => iterFiles_ok hfits hroom, ?_⟩⟩
  intro fs f rest hfiles hroom hno
  have hok := iterFiles_ok (fun g hg => hfits g (by rw [hfiles]; simp [hg])) hroom
  refine ⟨hok, ?_⟩
  rw [iter, hfiles]
  exact iterFiles_no_room hok hno

/-- A file of three bytes and an empty one. -/
def twoPaths (maxMessageSize : Nat) (h : maxMessageSize ≠ 0) : ChunkReader where
  clientId := 7
  inputFiles := [⟨"/data/t.csv", "t.csv", fileTypeTransactions⟩,
    ⟨"/data/accounts.csv", "accounts.csv", fileTypeAccounts⟩]
  maxMessageSize
  inputFiles_ne_nil := List.cons_ne_nil _ _
  maxMessageSize_pos := h

@[inherit_doc twoPaths] def pathContents (path : String) : Bytes :=
  if path = "/data/t.csv" then [65, 66, 10] else []

theorem fits_twoPaths {maxMessageSize : Nat} (h : maxMessageSize ≠ 0)
    (hmax : maxMessageSize ≤ 256 ^ 4) :
    ∀ f ∈ (twoPaths maxMessageSize h).inputFiles,
      Fits (twoPaths maxMessageSize h) f (pathContents f.absPath) := by
  intro f hf
  have hclient : 7 < 256 ^ 4 := by decide
  simp only [twoPaths, List.mem_cons, List.not_mem_nil, or_false] at hf
  rcases hf with rfl | rfl
  · exact ⟨hclient, by decide, by decide, hmax, by decide⟩
  · exact ⟨hclient, by decide, by decide, hmax, by decide⟩

/-- With messages of forty bytes both files are read; with messages of twenty-nine the path of the
second one leaves no room, and the first one is read. -/
theorem iter_reads_two_paths :
    (∃ us : List UploadedFile, us.length = 2 ∧
      ((twoPaths 40 (by decide)).iter pathContents) = (us.flatMap UploadedFile.chunks, .ok ⟨⟩)) ∧
    ∃ chunks error, (twoPaths 29 (by decide)).iter pathContents = (chunks, .error error) ∧
      chunks.map FileChunk.data = [[65, 66], [10]] := by
  constructor
  · obtain ⟨hreads, hends⟩ := iter_reads (twoPaths 40 (by decide)) pathContents
    have hok := (hends (fits_twoPaths _ (by decide))).1 (by decide)
    obtain ⟨us, hchunks, hall⟩ := hreads _ (Prod.ext rfl hok)
    exact ⟨us, hall.length_eq, Prod.ext hchunks.symm hok⟩
  · obtain ⟨-, hends⟩ := iter_reads (twoPaths 29 (by decide)) pathContents
    obtain ⟨-, error, herror⟩ := (hends (fits_twoPaths _ (by decide))).2
      [⟨"/data/t.csv", "t.csv", fileTypeTransactions⟩] _ [] rfl (by decide) (by decide)
    exact ⟨_, error, herror, by decide⟩

end ChunkReader

end MoneyLaundering
