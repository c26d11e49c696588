import MoneyLaundering.FileSplitter.Chunking

/-!
# The batches of a file

The lines of a transactions file behind its header, as the file ingestors get them: in order, in
numbered batches, each line with its line number in the file, and counted by the end of the file.
-/

namespace MoneyLaundering

open Bytes FileSplitterStateConfig

/-- Groups of lines as consecutive batches, from a batch id and a line number on. -/
def numberBatches (relPath : String) (header : List String) :
    Nat → Nat → List (List Bytes) → List LineBatch
  | _, _, [] => []
  | batchId, firstLineNumber, lines :: groups =>
    { fileType := fileTypeTransactions, relPath, batchId, firstLineNumber, header, lines } ::
      numberBatches relPath header (batchId + 1) (firstLineNumber + lines.length) groups

section

variable {relPath : String} {header : List String} {batchId firstLineNumber : Nat}
  {groups groups' : List (List Bytes)}

theorem numberBatches_append :
    numberBatches relPath header batchId firstLineNumber (groups ++ groups') =
    numberBatches relPath header batchId firstLineNumber groups ++
      numberBatches relPath header (batchId + groups.length)
        (firstLineNumber + groups.flatten.length)
        groups' := by
  induction groups generalizing batchId firstLineNumber with
  | nil => rfl
  | cons lines groups ih =>
    rw [List.cons_append, numberBatches, numberBatches, ih, List.cons_append, List.length_cons,
      List.flatten_cons, List.length_append, Nat.add_right_comm batchId,
        Nat.add_assoc firstLineNumber]
    rfl

theorem lines_numberBatches :
    (numberBatches relPath header batchId firstLineNumber groups).map (·.lines) = groups := by
  induction groups generalizing batchId firstLineNumber with
  | nil => rfl
  | cons lines groups ih => rw [numberBatches, List.map_cons, ih]

theorem length_numberBatches :
    (numberBatches relPath header batchId firstLineNumber groups).length = groups.length := by
  rw [← List.length_map (·.lines), lines_numberBatches]

theorem batchIds_numberBatches :
    (numberBatches relPath header batchId firstLineNumber groups).map (·.batchId) =
      List.range' batchId groups.length := by
  induction groups generalizing batchId firstLineNumber with
  | nil => rfl
  | cons lines groups ih =>
    rw [numberBatches, List.map_cons, ih, List.length_cons, List.range'_succ]

/-- The parser numbers the lines of a batch from its first line number on. -/
theorem parse_transactions {batch : LineBatch} (h : batch.fileType = fileTypeTransactions) :
    LineBatchParser.parse (fun _ line number => .ok (line, number)) batch =
      .ok (batch.lines.zipIdx batch.firstLineNumber) := by
  have hmap : (batch.lines.zipIdx.mapM fun p =>
      (Except.ok (p.1, batch.firstLineNumber + p.2) : Except String (Bytes × Nat))) =
        .ok (batch.lines.zipIdx batch.firstLineNumber) := by
    rw [List.zipIdx_eq_map_add (l := batch.lines) (i := batch.firstLineNumber)]
    exact List.mapM_pure (m := Except String) (f := fun p : Bytes × Nat =>
      (p.1, batch.firstLineNumber + p.2))
  rw [LineBatchParser.parse, h, if_neg (by decide), Except.raiseIf_of_not (by decide),
    Except.ok_bind]
  exact hmap

/-- The row numbers that the parser gives are the line numbers. -/
theorem parse_numberBatches :
    ((numberBatches relPath header batchId firstLineNumber groups).mapM
      (LineBatchParser.parse fun _ line number => .ok (line, number))).map List.flatten =
        .ok (groups.flatten.zipIdx firstLineNumber) := by
  induction groups generalizing batchId firstLineNumber with
  | nil => rfl
  | cons lines groups ih =>
    obtain ⟨rows, hrows, hflat⟩ := Except.ok_of_map
      (@ih (batchId + 1) (firstLineNumber + lines.length))
    rw [numberBatches, List.mapM_cons, parse_transactions rfl, Except.ok_bind, hrows,
      Except.ok_bind, List.flatten_cons, List.zipIdx_append, ← hflat]
    rfl

/-- A batch holds the lines of the file from its first line number on. -/
theorem lines_of_mem_numberBatches (front : List Bytes) {batch : LineBatch}
    (h : batch ∈ numberBatches relPath header batchId (front.length + 1) groups) :
    ∃ front' back, front ++ groups.flatten = front' ++ (batch.lines ++ back) ∧
      front'.length + 1 = batch.firstLineNumber := by
  induction groups generalizing batchId front with
  | nil => cases h
  | cons lines groups ih =>
    rcases List.mem_cons.mp h with rfl | h
    · exact ⟨front, groups.flatten, rfl, rfl⟩
    · have hlen : front.length + 1 + lines.length = (front ++ lines).length + 1 := by
        rw [List.length_append]
        omega
      rw [hlen] at h
      obtain ⟨front', back, he, hf⟩ := ih (front ++ lines) h
      exact ⟨front', back, by rw [← he, List.flatten_cons, List.append_assoc], hf⟩

theorem fields_of_mem_numberBatches {batch : LineBatch}
    (h : batch ∈ numberBatches relPath header batchId firstLineNumber groups) :
    batch.fileType = fileTypeTransactions ∧ batch.relPath = relPath ∧ batch.header = header ∧
      batch.batchId < batchId + groups.length ∧ firstLineNumber ≤ batch.firstLineNumber := by
  induction groups generalizing batchId firstLineNumber with
  | nil => cases h
  | cons lines groups ih =>
    rcases List.mem_cons.mp h with rfl | h
    · exact ⟨rfl, rfl, rfl, Nat.lt_add_of_pos_right (Nat.succ_pos _), Nat.le_refl _⟩
    · obtain ⟨h₁, h₂, h₃, h₄, h₅⟩ := ih h
      exact ⟨h₁, h₂, h₃, by rw [List.length_cons]; omega, by omega⟩

end

namespace FileSplitterStateConfig

variable {cfg : FileSplitterStateConfig} {key : FileKey} {header : List String} {data : List Bytes}
  {groups : List (List Bytes)} {r : FileRun}

/-- The data lines so far: those in batches, and those in the batch that is being filled. -/
structure Collected (key : FileKey) (header : List String) (data : List Bytes)
    (groups : List (List Bytes)) (r : FileRun) : Prop where
  fileType : r.state.fileType = some fileTypeTransactions
  columns : r.state.header = some header
  out : r.out = (numberBatches key.relPath header 0 2 groups).map (.batch lineBatchEdge)
  lines : groups.flatten ++ r.state.batchLines = data
  batchId : r.state.batchId = groups.length
  emitted : r.state.dataLinesEmitted = groups.flatten.length
  first : r.state.batchLines ≠ [] → r.state.batchFirstLineNumber = 2 + groups.flatten.length
  nonempty : ∀ lines ∈ groups, lines ≠ []

theorem runFlush_linesSeen : (runFlush key r).state.linesSeen = r.state.linesSeen := by
  unfold runFlush
  split <;> rfl

theorem runFlush_batchLines : (runFlush key r).state.batchLines = [] := by
  unfold runFlush
  split
  next h => exact h
  next => rfl

namespace Collected

/-- The batch that is being filled is sent. -/
theorem flush (h : Collected key header data groups r) :
    ∃ groups', Collected key header data groups' (runFlush key r) := by
  by_cases hlines : r.state.batchLines = []
  · rw [runFlush, if_pos hlines]
    exact ⟨groups, h⟩
  · rw [runFlush, if_neg hlines]
    refine ⟨groups ++ [r.state.batchLines],
      ⟨h.fileType, h.columns, ?_, ?_, ?_, ?_, by intros; contradiction, ?_⟩⟩
    · rw [numberBatches_append, List.map_append, h.out, h.fileType, h.columns, h.batchId,
        h.first hlines, if_neg (by decide), Nat.zero_add]
      rfl
    · simp [h.lines]
    · simp [h.batchId]
    · simp [h.emitted]
    · intro lines hl
      rcases List.mem_append.mp hl with hl | hl
      · exact h.nonempty lines hl
      · exact List.mem_singleton.mp hl ▸ hlines

/-- A line goes into the batch. -/
theorem append (h : Collected key header data groups r)
    (hseen : r.state.linesSeen = 2 + data.length)
    (line : Bytes) : Collected key header (data ++ [line]) groups (appendLine r line) := by
  refine ⟨h.fileType, h.columns, h.out, ?_, h.batchId, h.emitted, ?_, h.nonempty⟩
  · rw [← h.lines, List.append_assoc]
    rfl
  · intro _
    by_cases hlines : r.state.batchLines = []
    · have hdata : groups.flatten = data := by
        rw [← h.lines, hlines, List.append_nil]
      exact (if_pos hlines).trans (by rw [hseen, hdata])
    · exact (if_neg hlines).trans (h.first hlines)

/-- One data line. -/
theorem runLine (h : Collected key header data groups r)
    (hseen : r.state.linesSeen = 1 + data.length)
    (line : Bytes) : ∃ r' groups', cfg.runLine key r line = .ok r' ∧
      Collected key header (data ++ [line]) groups' r' ∧
      r'.state.linesSeen = 1 + (data ++ [line]).length := by
  have hcount : Collected key header data groups (countLine r) :=
    ⟨h.fileType, h.columns, h.out, h.lines, h.batchId, h.emitted, h.first, h.nonempty⟩
  have hseen' : (countLine r).state.linesSeen = 2 + data.length := by
    change r.state.linesSeen + 1 = _
    omega
  have hskip : ¬ (r.state.fileType = some fileTypeAccounts ∧ cfg.accountsEnabled = false) := by
    rw [h.fileType]
    exact fun hskip => absurd hskip.1 (by decide)
  have hlen : (data ++ [line]).length = data.length + 1 := List.length_append
  rw [runLine_of_some r line hskip h.columns]
  by_cases hfull : (countLine r).state.batchLines ≠ [] ∧
      cfg.maxBatchBytes < packetSize key (countLine r).state (4 + line.length)
  · obtain ⟨groups', hflush⟩ := hcount.flush
    have hseen₁ : (runFlush key (countLine r)).state.linesSeen = 2 + data.length := by
      rw [runFlush_linesSeen, hseen']
    rw [runAccumulate, if_pos hfull]
    exact ⟨_, groups', rfl, hflush.append hseen₁ line, hseen₁.trans (by omega)⟩
  · rw [runAccumulate, if_neg hfull]
    exact ⟨_, groups, rfl, hcount.append hseen' line, hseen'.trans (by omega)⟩

/-- All data lines. -/
theorem foldlM_runLine (h : Collected key header data groups r)
    (hseen : r.state.linesSeen = 1 + data.length) (lines : List Bytes) :
    ∃ r' groups', lines.foldlM (cfg.runLine key) r = .ok r' ∧
      Collected key header (data ++ lines) groups' r' := by
  induction lines generalizing r data groups with
  | nil => exact ⟨r, groups, rfl, by rwa [List.append_nil]⟩
  | cons line lines ih =>
    obtain ⟨r₁, groups₁, hr₁, h₁, hseen₁⟩ := h.runLine hseen line
    obtain ⟨r', groups', hr', h'⟩ := ih h₁ hseen₁
    rw [List.append_assoc] at h'
    exact ⟨r', groups', by rw [List.foldlM_cons, hr₁, Except.ok_bind, hr'], h'⟩

end Collected

/-- The lines of a transactions file: all but the first are sent in numbered batches. -/
theorem lineRun_transactions (cfg : FileSplitterStateConfig) (key : FileKey) (counts : Dict Nat Nat)
    {first : Bytes}
    (hheader : parseCsvLine (cleanLine first) = .ok header) (data : List Bytes) :
    ∃ r groups, cfg.lineRun key fileTypeTransactions counts (first :: data) = .ok r ∧
      groups.flatten = data ∧ (∀ lines ∈ groups, lines ≠ []) ∧
      (runFlush key r).out = (numberBatches key.relPath header 0 2 groups).map
        (.batch lineBatchEdge) ∧
      (runFlush key r).state.dataLinesEmitted = data.length := by
  have hinit : Collected key header [] [] (FileRun.mk
      { splitter := .after cfg.maxLineBytes [], fileType := some fileTypeTransactions,
        linesSeen := 1,
        header := some header } counts []) := ⟨rfl, rfl, rfl, rfl, rfl, rfl, nofun, nofun⟩
  obtain ⟨r, groups, hr, hc⟩ := hinit.foldlM_runLine rfl data
  obtain ⟨groups', hflush⟩ := hc.flush
  have hlines := hflush.lines
  rw [runFlush_batchLines, List.append_nil, List.nil_append] at hlines
  have htype : some fileTypeTransactions ≠ some fileTypeAccounts := by decide
  refine ⟨r, groups', ?_, hlines, hflush.nonempty, hflush.out, by rw [hflush.emitted, hlines]⟩
  rw [lineRun, List.foldlM_cons, runLine_of_none _ first (fun hskip => htype hskip.1) rfl, hheader]
  exact hr

end FileSplitterStateConfig

/-! ## The outputs of a file -/

/-- What the wire formats need of a transactions file, besides its content: the batches and the end
of the file are packed with sizes and counts of four bytes. -/
structure FitsWire (cfg : FileSplitterStateConfig) (key : FileKey) (header : List String)
    (data : List Bytes) : Prop where
  splitterId : cfg.splitterId < 256 ^ 4
  relPath : (encodeText key.relPath).length < 256 ^ 4
  headerCount : header.length < 256 ^ 4
  columns : ∀ column ∈ header, (encodeText column).length < 256 ^ 4
  lineCount : data.length < 256 ^ 4
  lines : ∀ line ∈ data, line.length < 256 ^ 4

/-- The outputs of a transactions file of these lines, as they are read from the wire: batches with
the data lines in order, numbered, each line with its line number in the file, and the end of the
file with the number of data lines. -/
def OutputsOf (splitterId : Nat) (lines : List Bytes) (outputs : List EmittedOutput) : Prop :=
  ∃ (batches : List LineBatch) (data : List EmittedOutput) (eof : EmittedOutput),
    outputs = data ++ [eof] ∧
    List.Forall₂ (fun output batch => output.edge = lineBatchEdge ∧ output.msgType = .data ∧
      LineBatchSerializer.deserialize output.payload = .ok batch) data batches ∧
    (batches.map (·.lines)).flatten = lines.tail ∧
    batches.map (·.batchId) = List.range batches.length ∧
    (∀ batch ∈ batches, ∀ i < batch.lines.length,
      lines[batch.firstLineNumber + i - 1]? = batch.lines[i]?) ∧
    (batches.mapM (LineBatchParser.parse fun _ line number => .ok (line, number))).map
      List.flatten =
      .ok (lines.zipIdx 1).tail ∧
    eof.edge = lineBatchEdge ∧ eof.msgType = .eof ∧
    ControlMessage.deserialize eof.payload =
      .ok { senderId := splitterId, expectedTotal := lines.tail.length }

section

variable {cfg : FileSplitterStateConfig} {key : FileKey} {header : List String} {data : List Bytes}
  {groups : List (List Bytes)}

theorem length_le_length_flatten (h : ∀ lines ∈ groups, lines ≠ []) :
    groups.length ≤ groups.flatten.length := by
  induction groups with
  | nil => exact Nat.le_refl 0
  | cons lines groups ih =>
    have hpos := List.length_pos_iff.mpr (h lines List.mem_cons_self)
    have := ih fun lines hl => h lines (List.mem_cons_of_mem _ hl)
    rw [List.length_cons, List.flatten_cons, List.length_append]
    omega

theorem FitsWire.fits (h : FitsWire cfg key header groups.flatten)
    (hne : ∀ lines ∈ groups, lines ≠ []) {batch : LineBatch}
    (hb : batch ∈ numberBatches key.relPath header 0 2 groups) :
    LineBatchSerializer.Fits batch := by
  obtain ⟨hft, hpath, hheader, hid, hge⟩ := fields_of_mem_numberBatches hb
  obtain ⟨front, back, hlines, hfirst⟩ := lines_of_mem_numberBatches [[]] hb
  have hlen := congrArg List.length hlines
  simp only [List.length_append, List.length_singleton] at hlen
  have hcount := h.lineCount
  have hgroups := length_le_length_flatten hne
  have hmem : ∀ line ∈ batch.lines, line ∈ groups.flatten := by
    intro line hl
    have hgroup : batch.lines ∈ groups := by
      have := List.mem_map_of_mem (f := (·.lines)) hb
      rwa [lines_numberBatches] at this
    exact List.mem_flatten.mpr ⟨_, hgroup, hl⟩
  refine ⟨by rw [hft]; decide, by omega, by omega, hpath ▸ h.relPath,
    hheader ▸ h.headerCount, by omega,
    hheader ▸ h.columns, fun line hl => h.lines line (hmem line hl)⟩

/-- What is emitted for a file that fits can be sent. -/
theorem FitsWire.mapM_emit (h : FitsWire cfg key header groups.flatten)
    (hne : ∀ lines ∈ groups, lines ≠ []) :
    ∃ data eof, ((numberBatches key.relPath header 0 2 groups).map (Emission.batch lineBatchEdge) ++
        [Emission.eof lineBatchEdge groups.flatten.length]).mapM (FileSplitterState.emit cfg) =
          .ok (data ++ [eof]) ∧
      List.Forall₂ (fun output batch => output.edge = lineBatchEdge ∧ output.msgType = .data ∧
        LineBatchSerializer.deserialize output.payload = .ok batch) data
          (numberBatches key.relPath header 0 2 groups) ∧
      eof.edge = lineBatchEdge ∧ eof.msgType = .eof ∧ ControlMessage.deserialize eof.payload =
        .ok { senderId := cfg.splitterId, expectedTotal := groups.flatten.length } := by
  have hall : ∀ e ∈ (numberBatches key.relPath header 0 2 groups).map
      (Emission.batch lineBatchEdge), ∃ output, FileSplitterState.emit cfg e = .ok output := by
    intro e he
    obtain ⟨batch, hb, rfl⟩ := List.mem_map.mp he
    have hserial := LineBatchSerializer.serialize_eq_ok_iff.mpr ⟨h.fits hne hb, rfl⟩
    exact ⟨_, by rw [FileSplitterState.emit_batch, hserial]; rfl⟩
  obtain ⟨data, hdata⟩ := Except.mapM_of_forall hall
  obtain ⟨total, htotal⟩ : ∃ total, ControlMessage.serialize
      { senderId := cfg.splitterId, expectedTotal := groups.flatten.length } = .ok total :=
    ControlMessage.exists_serialize_iff.mpr ⟨h.splitterId, h.lineCount,
      Nat.pos_of_ne_zero (by decide)⟩
  refine ⟨data, { edge := lineBatchEdge, msgType := .eof, payload := total }, ?_, ?_, rfl, rfl,
    ControlMessage.deserialize_serialize htotal⟩
  · rw [List.mapM_append, hdata, Except.ok_bind, List.mapM_cons, FileSplitterState.emit_eof, htotal]
    rfl
  · refine ((List.forall₂_map_left_iff.mp (Except.forall₂_of_mapM hdata)).imp ?_).flip
    intro batch output ho
    rw [FileSplitterState.emit_batch] at ho
    obtain ⟨bs, hserial, rfl⟩ := Except.ok_of_map ho
    exact ⟨rfl, rfl, LineBatchSerializer.deserialize_serialize hserial⟩

/-- However the content of a transactions file is cut into chunks, driving the state through the
chunks and the end of the file emits the same outputs, which are those of its lines. -/
theorem drive_fileChanges {s : FileSplitterState} {content : Bytes}
    (hkey : s.files.get? key = none) (hne : content ≠ [])
    (hfit : LineSplitter.LinesFit cfg.maxLineBytes content)
    (hheader : parseCsvLine (cleanLine ((LineSplitter.linesOf content).headD [])) = .ok header)
    (hmax : 0 < cfg.maxLineBytes)
    (hwire : FitsWire cfg key header (LineSplitter.linesOf content).tail) :
    ∃ outputs, OutputsOf cfg.splitterId (LineSplitter.linesOf content) outputs ∧
      ∀ chunks : List Bytes, chunks.flatten = content →
        ∃ s', s.drive cfg (fileChanges key fileTypeTransactions 0 chunks) = .ok (outputs, s') := by
  obtain ⟨first, data, hlines⟩ := List.exists_cons_of_ne_nil (LineSplitter.linesOf_ne_nil hne)
  rw [hlines, List.headD_cons] at hheader
  rw [hlines] at hwire ⊢
  obtain ⟨r, groups, hr, hflat, hgroups, hout, htotal⟩ :=
    lineRun_transactions cfg key s.accountsBatchesByClient hheader data
  rw [List.tail_cons, ← hflat] at hwire
  obtain ⟨outputs, eof, hemit, hpairs, hedge, htype, hpayload⟩ := hwire.mapM_emit hgroups
  refine ⟨outputs ++ [eof], ⟨_, outputs, eof, rfl, hpairs, ?_, ?_, ?_, ?_, hedge, htype, ?_⟩, ?_⟩
  · rw [lines_numberBatches, hflat, List.tail_cons]
  · rw [batchIds_numberBatches, List.range_eq_range', length_numberBatches]
  · intro batch hb i hi
    obtain ⟨front, back, he, hf⟩ := lines_of_mem_numberBatches [first] hb
    rw [← hflat]
    change ([first] ++ groups.flatten)[_]? = _
    rw [he, ← hf, List.getElem?_append_right (by omega), List.getElem?_append_left (by omega)]
    congr 1
    omega
  · rw [parse_numberBatches, hflat]
    rfl
  · rw [hpayload, hflat, List.tail_cons]
  · intro chunks hcut
    rw [← hlines] at hr
    obtain ⟨s', hrun⟩ := FileSplitterState.runAll_fileChanges hkey hmax hne hcut hfit hr
    refine ⟨s', FileSplitterState.drive_eq_ok_iff.mpr ⟨_, hrun, ?_⟩⟩
    rw [hout, htotal, ← hflat, hemit]

theorem drive_fileChanges_two_lines :
    ∃ outputs, OutputsOf 7 [[97], [49], [50]] outputs ∧ ∀ chunks : List Bytes,
      chunks.flatten = [97, 10, 49, 10, 50] →
        ∃ s', FileSplitterState.drive ⟨8, 60, 7, true⟩ {}
          (fileChanges ⟨1, "t"⟩ fileTypeTransactions 0 chunks) = .ok (outputs, s') := by
  have hlines : LineSplitter.linesOf [97, 10, 49, 10, 50] = [[97], [49], [50]] := by decide +kernel
  have hkey : ({} : FileSplitterState).files.get? ⟨1, "t"⟩ = none := rfl
  have hfit : LineSplitter.LinesFit 8 [97, 10, 49, 10, 50] := by
    unfold LineSplitter.LinesFit
    decide +kernel
  have hheader : parseCsvLine (cleanLine
      ((LineSplitter.linesOf [97, 10, 49, 10, 50]).headD [])) = .ok ["a"] := by
    rw [hlines]
    rfl
  have hwire : FitsWire ⟨8, 60, 7, true⟩ ⟨1, "t"⟩ ["a"]
      (LineSplitter.linesOf [97, 10, 49, 10, 50]).tail := by
    rw [hlines]
    exact ⟨by decide, by decide +kernel, by decide, by decide +kernel, by decide, by decide⟩
  rw [← hlines]
  exact drive_fileChanges hkey (by decide) hfit hheader (Nat.succ_pos 7) hwire

/-- A file with more data lines than the end of the file can announce is never split. -/
theorem drive_fileChanges_ne_ok {s s' : FileSplitterState} {content : Bytes} {chunks : List Bytes}
    {outputs : List EmittedOutput} (hkey : s.files.get? key = none) (hne : content ≠ [])
    (hfit : LineSplitter.LinesFit cfg.maxLineBytes content)
    (hheader : parseCsvLine (cleanLine ((LineSplitter.linesOf content).headD [])) = .ok header)
    (hmax : 0 < cfg.maxLineBytes) (hlong : 256 ^ 4 ≤ (LineSplitter.linesOf content).tail.length)
    (hcut : chunks.flatten = content) :
    s.drive cfg (fileChanges key fileTypeTransactions 0 chunks) ≠ .ok (outputs, s') := by
  intro hdrive
  obtain ⟨first, data, hlines⟩ := List.exists_cons_of_ne_nil (LineSplitter.linesOf_ne_nil hne)
  rw [hlines, List.headD_cons] at hheader
  rw [hlines, List.tail_cons] at hlong
  obtain ⟨r, groups, hr, -, -, hout, htotal⟩ :=
    lineRun_transactions cfg key s.accountsBatchesByClient hheader data
  rw [← hlines] at hr
  obtain ⟨s'', hrun⟩ := FileSplitterState.runAll_fileChanges hkey hmax hne hcut hfit hr
  obtain ⟨out, hrun', hemit⟩ := FileSplitterState.drive_eq_ok_iff.mp hdrive
  obtain ⟨-, rfl⟩ := Prod.mk.inj (Except.ok.inj (hrun.symm.trans hrun'))
  rw [List.mapM_append, htotal] at hemit
  obtain ⟨_, -, hemit⟩ := Except.ok_of_bind hemit
  obtain ⟨_, hemit, -⟩ := Except.ok_of_bind hemit
  rw [List.mapM_cons, FileSplitterState.emit_eof] at hemit
  obtain ⟨_, hemit, -⟩ := Except.ok_of_bind hemit
  obtain ⟨payload, hserial, -⟩ := Except.ok_of_map hemit
  exact absurd (ControlMessage.exists_serialize_iff.mp ⟨payload, hserial⟩).2.1
    (Nat.not_lt.mpr hlong)

theorem splitOn_replicate_newline (n : Nat) :
    (List.replicate n LineSplitter.newline).splitOn LineSplitter.newline = List.replicate (n + 1)
    [] := by
  induction n with
  | zero => rfl
  | succ n ih =>
    rw [List.replicate_succ, List.splitOn_cons_eq_if_modifyHead, if_pos (beq_self_eq_true _), ih]
    rfl

/-- A header and empty lines. -/
def blankLines (n : Nat) : Bytes := 97 :: List.replicate (n + 1) LineSplitter.newline

theorem splitOn_blankLines (n : Nat) : (blankLines n).splitOn LineSplitter.newline =
    ([97] :: List.replicate n []) ++ [[]] := by
  have hfront : LineSplitter.newline ∉ ([97] : Bytes) := by decide
  rw [blankLines, ← List.singleton_append, LineSplitter.splitOn_append_of_notMem _ hfront,
    splitOn_replicate_newline, List.replicate_succ, List.modifyHead_cons, List.replicate_succ',
    List.append_nil]
  rfl

theorem linesOf_blankLines (n : Nat) :
    LineSplitter.linesOf (blankLines n) = [97] :: List.replicate n [] := by
  obtain ⟨hlines, hpending⟩ := LineSplitter.of_splitOn_eq (splitOn_blankLines n)
  rw [LineSplitter.linesOf, hlines, hpending, if_pos rfl, List.append_nil]

/-- The end of the file cannot announce `2 ^ 32` lines, and no line splitter has no room at all. -/
theorem drive_fileChanges_blankLines :
    (blankLines (256 ^ 4) ≠ [] ∧ LineSplitter.LinesFit 8 (blankLines (256 ^ 4)) ∧
      parseCsvLine (cleanLine ((LineSplitter.linesOf (blankLines (256 ^ 4))).headD [])) =
        .ok ["a"] ∧
      ¬ ∃ outputs s', FileSplitterState.drive ⟨8, 60, 7, true⟩ {}
        (fileChanges ⟨1, "t"⟩ fileTypeTransactions 0 [blankLines (256 ^ 4)]) = .ok (outputs, s')) ∧
    (LineSplitter.LinesFit 0 [10] ∧
      parseCsvLine (cleanLine ((LineSplitter.linesOf [10]).headD [])) = .ok [] ∧
      ¬ ∃ outputs s', FileSplitterState.drive ⟨0, 60, 7, true⟩ {}
        (fileChanges ⟨1, "t"⟩ fileTypeTransactions 0 [[10]]) = .ok (outputs, s')) := by
  have hlines := linesOf_blankLines (256 ^ 4)
  have hne : blankLines (256 ^ 4) ≠ [] := List.cons_ne_nil _ _
  have hfit : LineSplitter.LinesFit 8 (blankLines (256 ^ 4)) := by
    intro line hl
    rw [splitOn_blankLines] at hl
    rcases List.mem_append.mp hl with hl | hl
    · rcases List.mem_cons.mp hl with rfl | hl
      · decide
      · rw [List.eq_of_mem_replicate hl]
        exact Nat.zero_le 8
    · rw [List.mem_singleton.mp hl]
      exact Nat.zero_le 8
  have hheader : parseCsvLine (cleanLine
      ((LineSplitter.linesOf (blankLines (256 ^ 4))).headD [])) = .ok ["a"] := by
    rw [hlines]
    rfl
  have hlong : 256 ^ 4 ≤ (LineSplitter.linesOf (blankLines (256 ^ 4))).tail.length := by
    rw [hlines, List.tail_cons, List.length_replicate]
  refine ⟨⟨hne, hfit, hheader, ?_⟩, ?_, ?_, ?_⟩
  · rintro ⟨outputs, s', hdrive⟩
    exact drive_fileChanges_ne_ok rfl hne hfit hheader (Nat.succ_pos 7) hlong
      List.flatten_singleton hdrive
  · unfold LineSplitter.LinesFit
    decide +kernel
  · rfl
  · rintro ⟨outputs, s', hdrive⟩
    obtain ⟨_, hsim, -⟩ := Except.ok_of_bind hdrive
    obtain ⟨_, _, hrun, -⟩ := FileSplitterState.simulate_eq_ok_iff.mp hsim
    cases hrun

end

end MoneyLaundering
