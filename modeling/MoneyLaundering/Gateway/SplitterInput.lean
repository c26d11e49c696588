import MoneyLaundering.Gateway.Upload

/-!
# What the file splitters receive

The queue of a partition, decoded as `FileSplitter._on_message` decodes it: the chunks of the files
of the partition and their ends, in order, and at most one abort behind them.
-/

namespace MoneyLaundering

open Bytes FileProtocol RequestReply Transition

/-- `_deserialize_eof`, as the message it stands for. -/
def FileMessage.decodeEof (payload : Bytes) : Except String FileMessage :=
  if payload.length = 4 then return .clientEof (beDecode payload)
  else do
    let eof ← FileEof.deserialize payload
    return .fileEof eof.clientId eof.relPath

/-- The decoding of `_on_message`. -/
def FileMessage.decode : Bytes → Except String FileMessage
  | [] => throw "empty file splitter message"
  | msgType :: payload =>
    if msgType = msgChunk then do
      let chunk ← FileChunk.deserialize payload
      return .chunk chunk.header.clientId chunk.header.relPath chunk.header.fileType
        chunk.header.offset chunk.data
    else if msgType = msgEof then decodeEof payload
    else if msgType = msgAbort then return .abort (beDecode (payload.take 4))
    else throw s!"unknown file splitter message type: {msgType}"

/-- What a splitter decodes a publication to. -/
def PartitionMessage.decode (m : PartitionMessage) : Except String FileMessage :=
  FileMessage.decode m.message

namespace UploadedFile

variable (u : UploadedFile) {partitions : Nat}

/-- The messages of a file: its chunks, and then its end. -/
def messages : List FileMessage :=
  u.chunks.map (fun c => .chunk u.clientId u.relPath u.fileType c.header.offset c.data) ++
    [.fileEof u.clientId u.relPath]

theorem decode_published {c : FileChunk} (hc : c ∈ u.chunks) : (c.published partitions).decode =
    .ok (.chunk u.clientId u.relPath u.fileType c.header.offset c.data) := by
  obtain ⟨hclient, hpath, htype⟩ := u.same c hc
  have hd := @FileChunk.deserialize_serialize c []
  rw [List.append_nil] at hd
  rw [PartitionMessage.decode, FileChunk.published, serializeChunk, FileMessage.decode,
    if_pos rfl, hd, ← hclient, ← hpath, ← htype]
  rfl

theorem decode_eofMessage :
    (u.eofMessage partitions).decode = .ok (.fileEof u.clientId u.relPath) := by
  obtain ⟨hclient, hpath, -⟩ := u.same _ (List.head_mem u.nonempty)
  have hlen : (FileEof.serialize (u.chunks.head u.nonempty).eof).length ≠ 4 := by
    rw [FileEof.length_serialize, FileEof.headerSize]
    omega
  rw [PartitionMessage.decode, eofMessage, FileChunk.eofPublished, FileMessage.decode,
    if_neg (by decide), if_pos rfl,
    FileMessage.decodeEof, if_neg hlen, FileEof.deserialize_serialize, ← hclient, ← hpath]
  rfl

/-- A file is decoded to its messages. -/
theorem map_decode_publications :
    (u.publications partitions).map PartitionMessage.decode = u.messages.map .ok := by
  rw [publications, messages, List.map_append, List.map_append, List.map_map, List.map_map,
    List.map_singleton, List.map_singleton, decode_eofMessage]
  refine congrArg (· ++ _) (List.map_congr_left fun c hc => ?_)
  exact decode_published u hc

theorem partition_of_mem {m : PartitionMessage} (hm : m ∈ u.publications partitions) :
    m.partition = u.partition partitions := by
  have hpartition : ∀ c ∈ u.chunks, c.partition partitions = u.partition partitions := by
    intro c hc
    obtain ⟨hclient, -, htype⟩ := u.same c hc
    rw [FileChunk.partition, hclient, htype]
    rfl
  rcases List.mem_append.mp hm with hm | hm
  · obtain ⟨c, hc, rfl⟩ := List.mem_map.mp hm
    exact hpartition c hc
  · rw [List.mem_singleton.mp hm]
    exact hpartition _ (List.head_mem u.nonempty)

/-- The chunks of a file that is not empty are those of a file as the splitter takes it. -/
theorem Reads.messages_eq {u : UploadedFile} {r : ChunkReader} {f : InputFile} {content : Bytes}
    (h : u.Reads r f content) (hne : content ≠ []) : ∃ s : SplitFile,
      s.clientId = r.clientId ∧ s.relPath = f.relPath ∧ s.fileType = f.fileType ∧
      s.chunks.flatten = content ∧
        u.messages = (List.range (s.chunks.length + 1)).map s.message := by
  have hdata : ∀ chunk ∈ u.chunks.map FileChunk.data, chunk ≠ [] := by
    intro chunk hchunk
    obtain ⟨c, hc, rfl⟩ := List.mem_map.mp hchunk
    exact h.nonempty hne c hc
  refine ⟨⟨u.clientId, u.relPath, u.fileType, u.chunks.map FileChunk.data, hdata⟩, h.clientId,
    h.relPath, h.fileType, h.content_eq, ?_⟩
  refine List.ext_getElem (by simp [messages]) fun i hi _ => ?_
  simp only [messages, List.length_append, List.length_map, List.length_singleton] at hi
  rw [List.getElem_map, List.getElem_range, SplitFile.message]
  by_cases hlast : i < u.chunks.length
  · have hchunk : (u.chunks.map FileChunk.data)[i]? = some (u.chunks[i]).data := by
      rw [List.getElem?_map, List.getElem?_eq_getElem hlast, Option.map_some]
    simp only [messages, hchunk]
    rw [List.getElem_append_left (by rwa [List.length_map]), List.getElem_map, SplitFile.offset,
      h.offset i hlast, List.map_take]
  · obtain rfl : i = u.chunks.length := by omega
    have hnone : (u.chunks.map FileChunk.data)[u.chunks.length]? = none := by simp
    simp only [messages, hnone]
    rw [List.getElem_append_right (by rw [List.length_map])]
    simp

end UploadedFile

namespace Gateway

variable {partitions p clientId : Nat}

/-- What a partition gets of some files. -/
theorem filter_publications (us : List UploadedFile) :
    (us.flatMap (UploadedFile.publications partitions)).filter (·.partition = p) =
      (us.filter (·.partition partitions = p)).flatMap (UploadedFile.publications partitions) := by
  induction us with
  | nil => rfl
  | cons u us ih =>
    rw [List.flatMap_cons, List.filter_append, ih, List.filter_cons]
    have hall : ∀ m ∈ u.publications partitions, m.partition = u.partition partitions :=
      fun m hm => u.partition_of_mem hm
    by_cases hu : u.partition partitions = p
    · rw [if_pos (decide_eq_true hu), List.flatMap_cons, List.filter_eq_self.mpr]
      intro m hm
      exact decide_eq_true ((hall m hm).trans hu)
    · rw [if_neg (by simpa using hu), List.filter_eq_nil_iff.mpr, List.nil_append]
      intro m hm
      rw [hall m hm]
      simpa using hu

theorem decode_abort {abortMsg : Bytes} (h : serializeAbort clientId = .ok abortMsg) :
    FileMessage.decode abortMsg = .ok (.abort clientId) := by
  obtain ⟨packed, hpacked, hcons⟩ := Except.ok_of_bind h
  cases hcons
  obtain ⟨hid, rfl⟩ := pack_eq_ok_iff.mp hpacked
  rw [FileMessage.decode, if_neg (by decide), if_neg (by decide), if_pos rfl,
    List.take_of_length_le (by rw [length_beEncode]), beDecode_beEncode hid]
  rfl

/-- A partition gets at most one abort. -/
theorem filter_aborts {aborts : List PartitionMessage}
    (h : aborts <+: abortMessages partitions clientId) (p : Nat) :
    ∃ aborted, (aborts.filter (·.partition = p)).map PartitionMessage.decode = aborted.map .ok ∧
      (aborted = [] ∨ aborted = [.abort clientId]) := by
  unfold abortMessages at h
  split at h
  next abortMsg hmsg =>
    have hdec := decode_abort hmsg
    obtain ⟨n, rfl⟩ : ∃ n, aborts = (List.range n).map fun partition => ⟨partition, abortMsg⟩ := by
      have hlen := h.length_le
      rw [List.length_map, List.length_range] at hlen
      refine ⟨aborts.length, ?_⟩
      have htake := List.prefix_iff_eq_take.mp h
      rwa [← List.map_take, List.take_range, Nat.min_eq_left hlen] at htake
    have hfilter :
        ((List.range n).map fun partition => (⟨partition, abortMsg⟩ : PartitionMessage)).filter
        (·.partition = p) = List.replicate ((List.range n).count p) ⟨p, abortMsg⟩ := by
      have heq : (fun m : PartitionMessage => decide (m.partition = p)) ∘ (fun i => ⟨i, abortMsg⟩) =
          fun i => decide (i = p) := rfl
      rw [List.filter_map, heq, List.filter_eq, List.map_replicate]
    have hcount := List.nodup_iff_count_le_one.mp (@List.nodup_range n) p
    rw [hfilter, List.map_replicate, PartitionMessage.decode, hdec]
    rcases Nat.le_one_iff_eq_zero_or_eq_one.mp hcount with hzero | hone
    · rw [hzero]
      exact ⟨[], rfl, .inl rfl⟩
    · rw [hone]
      exact ⟨[.abort clientId], rfl, .inr rfl⟩
  next => exact ⟨[], by rw [List.prefix_nil.mp h]; rfl, .inl rfl⟩

/-- **What a file splitter receives.** Wherever an upload stands, the queue of a partition decodes
to a beginning of the messages of the client's files that belong to the partition, and at most one
abort of the client behind them. With the last ACK it is all of these messages, and no abort. The
messages of a file that is not empty are those of the file cut into chunks. -/
theorem splitter_receives {partitions : Nat} (hp : 0 < partitions) {r : ChunkReader}
    {contents : String → Bytes}
    {messages : List Bytes} (hread : Client.streamFiles r contents = (messages, .ok ⟨⟩))
    (hnames : (r.inputFiles.map InputFile.name).IsChain (· ≠ ·)) :
    ∃ us : List UploadedFile,
      List.Forall₂ (fun u f => u.Reads r f (contents f.absPath) ∧
        (contents f.absPath ≠ [] → ∃ s : SplitFile,
        s.clientId = r.clientId ∧ s.relPath = f.relPath ∧ s.fileType = f.fileType ∧
          s.chunks.flatten = contents f.absPath ∧
            u.messages = (List.range (s.chunks.length + 1)).map s.message))
        us r.inputFiles ∧
      ∀ y, UploadRun partitions messages y → ∀ p, ∃ received aborted,
        (y.server.trace.filter (·.partition = p)).map PartitionMessage.decode =
          (received ++ aborted).map .ok ∧
        received <+: (us.filter (·.partition partitions = p)).flatMap UploadedFile.messages ∧
        (aborted = [] ∨ aborted = [.abort r.clientId]) ∧
        (y.requests = [] →
          received = (us.filter (·.partition partitions = p)).flatMap UploadedFile.messages ∧
            aborted = []) := by
  obtain ⟨us, hreads, hrun⟩ := seen_of_upload hp hread hnames
  refine ⟨us, hreads.imp fun u f hu => ⟨hu, hu.messages_eq⟩, fun y h p => ?_⟩
  obtain ⟨-, -, shown, aborts, -, -, htrace, -, hshown, haborts, hall⟩ := hrun y h
  obtain ⟨aborted, hdecoded, haborted⟩ := filter_aborts haborts p
  have hplan : ((us.flatMap (UploadedFile.publications partitions)).filter (·.partition = p)).map
      PartitionMessage.decode =
      ((us.filter (·.partition partitions = p)).flatMap UploadedFile.messages).map .ok := by
    rw [filter_publications, List.map_flatMap, List.map_flatMap]
    exact List.flatMap_congr fun u _ => u.map_decode_publications
  obtain ⟨received, hreceived, hmap⟩ : ∃ received,
      received <+: (us.filter (·.partition partitions = p)).flatMap UploadedFile.messages ∧
        (shown.filter (·.partition = p)).map PartitionMessage.decode = received.map .ok := by
    have hprefix := (hshown.filter (·.partition = p)).map PartitionMessage.decode
    rw [hplan] at hprefix
    refine ⟨_, List.take_prefix (shown.filter (·.partition = p)).length _, ?_⟩
    rw [List.map_take]
    simpa using List.prefix_iff_eq_take.mp hprefix
  refine ⟨received, aborted, ?_, hreceived, haborted, fun hnone => ?_⟩
  · rw [htrace, List.filter_append, List.map_append, List.map_append, hmap, hdecoded]
  · obtain ⟨hshown, haborts⟩ := hall hnone
    rw [hshown, hplan] at hmap
    rw [haborts] at hdecoded
    have hinj : Function.Injective (Except.ok : FileMessage → Except String FileMessage) :=
      fun _ _ => Except.ok.inj
    exact ⟨(List.map_injective_iff.mpr hinj hmap).symm, List.map_eq_nil_iff.mp hdecoded.symm⟩

theorem splitter_receives_two : ∃ us : List UploadedFile, us.length = 2 ∧
    ∀ y, UploadRun 3 (Client.streamFiles twoFiles twoContents).1 y → y.requests = [] → ∀ p,
      (y.server.trace.filter (·.partition = p)).map PartitionMessage.decode =
        ((us.filter (·.partition 3 = p)).flatMap UploadedFile.messages).map .ok := by
  obtain ⟨us, hreads, hrun⟩ := splitter_receives (by decide : 0 < 3) twoFiles_read twoFiles_names
  refine ⟨us, hreads.length_eq, fun y h hnone p => ?_⟩
  obtain ⟨received, aborted, hdecoded, -, -, hall⟩ := hrun y h p
  obtain ⟨hreceived, haborted⟩ := hall hnone
  rw [hdecoded, hreceived, haborted, List.append_nil]

end Gateway

end MoneyLaundering
