import MoneyLaundering.FileSplitter.State

/-!
# Files cut into chunks

However a file is cut, the file splitter emits the same outputs. A chunk is cut into lines together
with what was pending, so the lines seen so far are those of the bytes seen so far; everything else
that is carried from chunk to chunk depends on these lines only (`FileRun.rebase`).
-/

namespace MoneyLaundering

open Bytes

namespace LineSplitter

/-- The lines that have ended. -/
def completeLines (content : Bytes) : List Bytes := (content.splitOn newline).dropLast

/-- What follows the last line break. -/
def pendingOf (content : Bytes) : Bytes := (content.splitOn newline).getLastD []

/-- All lines, with a last one that has not ended unless it is empty. -/
def linesOf (content : Bytes) : List Bytes :=
  completeLines content ++ if pendingOf content = [] then [] else [pendingOf content]

theorem splitOn_eq (content : Bytes) :
    content.splitOn newline = completeLines content ++ [pendingOf content] := by
  have hne : content.splitOn newline ≠ [] := List.splitOn_ne_nil _ _
  rw [completeLines, pendingOf, List.getLastD_eq_getLast?, List.getLast?_eq_some_getLast hne,
    Option.getD_some, List.dropLast_append_getLast hne]

theorem of_splitOn_eq {content pending : Bytes} {lines : List Bytes}
    (h : content.splitOn newline = lines ++ [pending]) :
    completeLines content = lines ∧ pendingOf content = pending := by
  simp [completeLines, pendingOf, h]

/-- What is pending has no line break. -/
theorem newline_notMem_pendingOf (content : Bytes) : newline ∉ pendingOf content := by
  have hall : ∀ (content line : Bytes), line ∈ content.splitOn newline → newline ∉ line := by
    intro content
    induction content with
    | nil => simp
    | cons b content ih =>
      intro line hline
      rw [List.splitOn_cons_eq_if_modifyHead] at hline
      by_cases hb : b = newline
      · rw [if_pos (by simpa using hb)] at hline
        rcases List.mem_cons.mp hline with rfl | hline
        · exact List.not_mem_nil
        · exact ih line hline
      · rw [if_neg (by simpa using hb)] at hline
        obtain ⟨first, rest, hsplit⟩ :=
          List.exists_cons_of_ne_nil (List.splitOn_ne_nil newline content)
        rw [hsplit] at hline ih
        rcases List.mem_cons.mp hline with rfl | hline
        · have hfirst := ih first List.mem_cons_self
          simp [hfirst, Ne.symm hb]
        · exact ih line (List.mem_cons_of_mem _ hline)
  exact hall content _ (by rw [splitOn_eq]; simp)

/-- Bytes without a line break only extend the first line. -/
theorem splitOn_append_of_notMem {front : Bytes} (back : Bytes) (h : newline ∉ front) :
    (front ++ back).splitOn newline = (back.splitOn newline).modifyHead (front ++ ·) := by
  induction front with
  | nil =>
    obtain ⟨first, rest, hsplit⟩ := List.exists_cons_of_ne_nil (List.splitOn_ne_nil newline back)
    rw [List.nil_append, hsplit]
    rfl
  | cons b front ih =>
    have hb : ¬ b = newline := fun he => h (he ▸ List.mem_cons_self)
    rw [List.cons_append, List.splitOn_cons_eq_if_modifyHead, if_neg (by simpa using hb),
      ih fun hm => h (List.mem_cons_of_mem _ hm), List.modifyHead_modifyHead]
    rfl

/-- The bytes that come next only continue what is pending. -/
theorem splitOn_append (front back : Bytes) : (front ++ back).splitOn newline =
    completeLines front ++ (pendingOf front ++ back).splitOn newline := by
  induction front with
  | nil => simp [completeLines, pendingOf]
  | cons b front ih =>
    have hcons := splitOn_eq front
    rw [List.cons_append, List.splitOn_cons_eq_if_modifyHead, ih]
    by_cases hb : b = newline
    · have hsplit : (b :: front).splitOn newline = ([] :: completeLines front) ++
          [pendingOf front] := by
        rw [List.splitOn_cons_eq_if_modifyHead, if_pos (by simpa using hb), hcons]
        rfl
      rw [if_pos (by simpa using hb), (of_splitOn_eq hsplit).1, (of_splitOn_eq hsplit).2]
      rfl
    · rw [if_neg (by simpa using hb)]
      cases hlines : completeLines front with
      | nil =>
        have hsplit : (b :: front).splitOn newline = [] ++ [b :: pendingOf front] := by
          rw [List.splitOn_cons_eq_if_modifyHead, if_neg (by simpa using hb), hcons, hlines]
          rfl
        rw [(of_splitOn_eq hsplit).1, (of_splitOn_eq hsplit).2, List.nil_append, List.nil_append,
          List.cons_append, List.splitOn_cons_eq_if_modifyHead, if_neg (by simpa using hb)]
      | cons line lines =>
        have hsplit : (b :: front).splitOn newline = ((b :: line) :: lines) ++
            [pendingOf front] := by
          rw [List.splitOn_cons_eq_if_modifyHead, if_neg (by simpa using hb), hcons, hlines]
          rfl
        rw [(of_splitOn_eq hsplit).1, (of_splitOn_eq hsplit).2]
        rfl

theorem of_splitOn_append (front back : Bytes) :
    completeLines (front ++ back) = completeLines front ++ completeLines (pendingOf front ++ back) ∧
      pendingOf (front ++ back) = pendingOf (pendingOf front ++ back) := by
  refine of_splitOn_eq ?_
  rw [splitOn_append, splitOn_eq (pendingOf front ++ back), List.append_assoc]

theorem completeLines_append (front back : Bytes) : completeLines (front ++ back) =
    completeLines front ++ completeLines (pendingOf front ++ back) :=
  (of_splitOn_append front back).1

theorem pendingOf_append (front back : Bytes) :
    pendingOf (front ++ back) = pendingOf (pendingOf front ++ back) :=
  (of_splitOn_append front back).2

theorem linesOf_append (front back : Bytes) :
    linesOf (front ++ back) = completeLines front ++ linesOf (pendingOf front ++ back) := by
  rw [linesOf, linesOf, completeLines_append, pendingOf_append, List.append_assoc]

theorem linesOf_ne_nil {content : Bytes} (h : content ≠ []) : linesOf content ≠ [] := by
  intro hnil
  obtain ⟨hlines, hpending⟩ := List.append_eq_nil_iff.mp hnil
  have hp : pendingOf content = [] := by
    by_contra hne
    rw [if_neg hne] at hpending
    cases hpending
  have hsplit := splitOn_eq content
  rw [hlines, hp] at hsplit
  have hjoin : [newline].intercalate (content.splitOn newline) = content :=
    List.intercalate_splitOn newline
  rw [hsplit] at hjoin
  exact h hjoin.symm

/-! ### Line sizes -/

/-- Every line fits. -/
def LinesFit (maxLineBytes : Nat) (content : Bytes) : Prop :=
  ∀ line ∈ content.splitOn newline, line.length ≤ maxLineBytes

/-- The lines of the bytes seen so far fit when those of the whole file do. -/
theorem LinesFit.of_append {maxLineBytes : Nat} {front back : Bytes}
    (h : LinesFit maxLineBytes (front ++ back)) : LinesFit maxLineBytes front := by
  intro line hline
  unfold LinesFit at h
  rw [splitOn_append, splitOn_append_of_notMem back (newline_notMem_pendingOf front)] at h
  rw [splitOn_eq] at hline
  rcases List.mem_append.mp hline with hline | hline
  · exact h line (List.mem_append_left _ hline)
  · obtain rfl := List.mem_singleton.mp hline
    obtain ⟨first, rest, hsplit⟩ := List.exists_cons_of_ne_nil (List.splitOn_ne_nil newline back)
    rw [hsplit] at h
    have hfirst := h (pendingOf front ++ first) (by simp)
    rw [List.length_append] at hfirst
    omega

theorem forM_validateLineSize {maxLineBytes : Nat} {lines : List Bytes}
    (h : ∀ line ∈ lines, line.length ≤ maxLineBytes) :
    lines.forM (validateLineSize maxLineBytes) = .ok PUnit.unit := by
  induction lines with
  | nil => rfl
  | cons line lines ih =>
    have hline := h line List.mem_cons_self
    change (validateLineSize maxLineBytes line >>= fun _ => lines.forM _) = _
    rw [validateLineSize, Except.raiseIf_of_not (by omega), Except.ok_bind,
      ih fun line hl => h line (List.mem_cons_of_mem _ hl)]

/-- The splitter after some bytes. -/
def after (maxLineBytes : Nat) (content : Bytes) : LineSplitter :=
  { maxLineBytes, expectedOffset := content.length, pending := pendingOf content }

/-- A chunk gives the lines that end in it. -/
theorem push_after {maxLineBytes : Nat} {front payload : Bytes}
    (h : LinesFit maxLineBytes (front ++ payload)) :
    (after maxLineBytes front).push front.length payload =
      .ok (after maxLineBytes (front ++ payload), completeLines (pendingOf front ++ payload)) := by
  have hfit : ∀ line ∈ (pendingOf front ++ payload).splitOn newline,
      line.length ≤ maxLineBytes := by
    intro line hline
    refine h line ?_
    rw [splitOn_append]
    exact List.mem_append_right _ hline
  have hoffset : ¬ front.length ≠ (after maxLineBytes front).expectedOffset := not_not_intro rfl
  have hsizes : (((after maxLineBytes front).pending ++ payload).splitOn newline).forM
      (validateLineSize (after maxLineBytes front).maxLineBytes) = .ok PUnit.unit :=
    forM_validateLineSize hfit
  rw [push, Except.raiseIf_of_not hoffset, Except.ok_bind, hsizes, Except.ok_bind, after,
    after, pendingOf_append, List.length_append]
  rfl

/-- The end of the file gives the line that has not ended. -/
theorem finish_after {maxLineBytes : Nat} {content : Bytes} (h : LinesFit maxLineBytes content) :
    ∃ splitter, (after maxLineBytes content).finish =
      .ok (splitter, if pendingOf content = [] then [] else [pendingOf content]) := by
  have hfit : (pendingOf content).length ≤ maxLineBytes := h _ (by rw [splitOn_eq]; simp)
  by_cases hp : pendingOf content = []
  · refine ⟨after maxLineBytes content, ?_⟩
    rw [if_pos hp, finish, if_pos (show (after maxLineBytes content).pending = [] from hp)]
    rfl
  · refine ⟨{ after maxLineBytes content with pending := [] }, ?_⟩
    have hsize : validateLineSize maxLineBytes (pendingOf content) = .ok PUnit.unit :=
      Except.raiseIf_of_not (by omega)
    rw [if_neg hp, finish, if_neg (show ¬ (after maxLineBytes content).pending = [] from hp), after]
    dsimp only
    rw [hsize]
    rfl

end LineSplitter

/-! ## What the lines determine -/

/-- The same run, with the fields that depend on the cut replaced and with outputs in front. -/
def FileRun.rebase (splitter : LineSplitter) (chunksReceived bytesReceived : Nat)
    (out : List Emission) (r : FileRun) : FileRun :=
  { r with
    state := { r.state with splitter, chunksReceived, bytesReceived }
    out := out ++ r.out }

/-- The same run, taken up again with nothing emitted. -/
def FileRun.resume (splitter : LineSplitter) (chunksReceived bytesReceived : Nat)
    (r : FileRun) : FileRun :=
  { r with
    state := { r.state with splitter, chunksReceived, bytesReceived }
    out := [] }

namespace FileSplitterStateConfig

variable {cfg : FileSplitterStateConfig} {key : FileKey} {splitter : LineSplitter}
  {chunks size : Nat} {out : List Emission}

theorem runFlush_rebase (r : FileRun) : runFlush key (r.rebase splitter chunks size out) =
    (runFlush key r).rebase splitter chunks size out := by
  by_cases h : r.state.batchLines = []
  · have h' : (r.rebase splitter chunks size out).state.batchLines = [] := h
    rw [runFlush, if_pos h', runFlush, if_pos h]
  · have h' : ¬ (r.rebase splitter chunks size out).state.batchLines = [] := h
    rw [runFlush, if_neg h', runFlush, if_neg h]
    simp only [FileRun.rebase, List.append_assoc]
    rfl

theorem runAccumulate_rebase (r : FileRun) (line : Bytes) :
    cfg.runAccumulate key (r.rebase splitter chunks size out) line =
      (cfg.runAccumulate key r line).rebase splitter chunks size out := by
  by_cases h : r.state.batchLines ≠ [] ∧
    cfg.maxBatchBytes < packetSize key r.state (4 + line.length)
  · have h' : (r.rebase splitter chunks size out).state.batchLines ≠ [] ∧ cfg.maxBatchBytes <
        packetSize key (r.rebase splitter chunks size out).state (4 + line.length) := h
    rw [runAccumulate, if_pos h', runAccumulate, if_pos h, runFlush_rebase]
    rfl
  · have h' : ¬ ((r.rebase splitter chunks size out).state.batchLines ≠ [] ∧ cfg.maxBatchBytes <
        packetSize key (r.rebase splitter chunks size out).state (4 + line.length)) := h
    rw [runAccumulate, if_neg h', runAccumulate, if_neg h]
    rfl

/-- A line has come. -/
def countLine (r : FileRun) : FileRun :=
  { r with state := { r.state with linesSeen := r.state.linesSeen + 1 } }

theorem runLine_of_skip (r : FileRun) (line : Bytes)
    (h : r.state.fileType = some fileTypeAccounts ∧ cfg.accountsEnabled = false) :
    cfg.runLine key r line = .ok (countLine r) := if_pos h

theorem runLine_of_none (r : FileRun) (line : Bytes)
    (h : ¬ (r.state.fileType = some fileTypeAccounts ∧ cfg.accountsEnabled = false))
    (hheader : r.state.header = none) : cfg.runLine key r line =
      (parseCsvLine (cleanLine line)).map fun header =>
        { countLine r with state := { (countLine r).state with header := some header } } := by
  refine (if_neg h).trans ?_
  dsimp only
  rw [hheader]
  cases parseCsvLine (cleanLine line) <;> rfl

theorem runLine_of_some (r : FileRun) {header : List String} (line : Bytes)
    (h : ¬ (r.state.fileType = some fileTypeAccounts ∧ cfg.accountsEnabled = false))
    (hheader : r.state.header = some header) :
    cfg.runLine key r line = .ok (cfg.runAccumulate key (countLine r) line) := by
  refine (if_neg h).trans ?_
  split
  next hnone => exact absurd (hheader.symm.trans hnone) nofun
  next => rfl

theorem runLine_rebase (r : FileRun) (line : Bytes) :
    cfg.runLine key (r.rebase splitter chunks size out) line =
      (cfg.runLine key r line).map (FileRun.rebase splitter chunks size out) := by
  by_cases h : r.state.fileType = some fileTypeAccounts ∧ cfg.accountsEnabled = false
  · rw [runLine_of_skip r line h, runLine_of_skip (r.rebase splitter chunks size out) line h]
    rfl
  · cases hheader : r.state.header with
    | none =>
      rw [runLine_of_none r line h hheader,
        runLine_of_none (r.rebase splitter chunks size out) line h hheader]
      cases parseCsvLine (cleanLine line) <;> rfl
    | some header =>
      rw [runLine_of_some r line h hheader,
        runLine_of_some (r.rebase splitter chunks size out) line h hheader]
      exact congrArg Except.ok (runAccumulate_rebase (countLine r) line)

theorem foldlM_runLine_rebase (lines : List Bytes) (r : FileRun) :
    lines.foldlM (cfg.runLine key) (r.rebase splitter chunks size out) =
      (lines.foldlM (cfg.runLine key) r).map (FileRun.rebase splitter chunks size out) := by
  induction lines generalizing r with
  | nil => rfl
  | cons line lines ih =>
    rw [List.foldlM_cons, List.foldlM_cons, runLine_rebase]
    cases cfg.runLine key r line with
    | error e => rfl
    | ok r' => exact ih r'

theorem runFlush_fileType (r : FileRun) : (runFlush key r).state.fileType = r.state.fileType := by
  unfold runFlush
  split <;> rfl

theorem runLine_fileType {r r' : FileRun} {line : Bytes} (h : cfg.runLine key r line = .ok r') :
    r'.state.fileType = r.state.fileType := by
  by_cases hskip : r.state.fileType = some fileTypeAccounts ∧ cfg.accountsEnabled = false
  · rw [runLine_of_skip r line hskip] at h
    cases h
    rfl
  · cases hheader : r.state.header with
    | none =>
      rw [runLine_of_none r line hskip hheader] at h
      cases hp : parseCsvLine (cleanLine line) with
      | error e => rw [hp] at h; cases h
      | ok header => rw [hp] at h; cases h; rfl
    | some header =>
      rw [runLine_of_some r line hskip hheader] at h
      cases h
      unfold runAccumulate
      split
      · exact runFlush_fileType (countLine r)
      · rfl

variable (cfg key) in
/-- The lines of a file of some type, from its beginning. -/
def lineRun (fileType : Nat) (accountsCounts : Dict Nat Nat) (lines : List Bytes) :
    Except String FileRun :=
  lines.foldlM (cfg.runLine key)
    { state := { splitter := .after cfg.maxLineBytes [], fileType := some fileType },
      accountsCounts }

theorem lineRun_append {fileType : Nat} {counts : Dict Nat Nat} {lines lines' : List Bytes}
    {r' : FileRun} :
    cfg.lineRun key fileType counts (lines ++ lines') = .ok r' ↔
      ∃ r, cfg.lineRun key fileType counts lines = .ok r ∧
        lines'.foldlM (cfg.runLine key) r = .ok r' := by
  rw [lineRun, List.foldlM_append]
  constructor
  · exact Except.ok_of_bind
  · rintro ⟨r, hr, h⟩
    rw [lineRun] at hr
    rw [hr]
    exact h

theorem lineRun_fileType {fileType : Nat} {counts : Dict Nat Nat} {lines : List Bytes} {r : FileRun}
    (h : cfg.lineRun key fileType counts lines = .ok r) : r.state.fileType = some fileType := by
  induction lines using List.reverseRecOn generalizing r with
  | nil => cases h; rfl
  | append_singleton lines line ih =>
    obtain ⟨r₁, h₁, h⟩ := lineRun_append.mp h
    obtain ⟨r₂, h₂, h⟩ := Except.ok_of_bind h
    cases h
    rw [runLine_fileType h₂, ih h₁]

/-- Lines leave the splitter and the counters of the chunks as they are. -/
theorem foldlM_runLine_rebase_self {lines : List Bytes} {r r' : FileRun}
    (h : lines.foldlM (cfg.runLine key) r = .ok r') :
    r'.rebase r.state.splitter r.state.chunksReceived r.state.bytesReceived [] = r' := by
  have hself : lines.foldlM (cfg.runLine key) (r.rebase r.state.splitter r.state.chunksReceived
        r.state.bytesReceived []) = (lines.foldlM (cfg.runLine key) r).map
      (FileRun.rebase r.state.splitter r.state.chunksReceived r.state.bytesReceived []) :=
    foldlM_runLine_rebase lines r
  change lines.foldlM (cfg.runLine key) r = _ at hself
  rw [h] at hself
  exact (Except.ok.inj hself).symm

/-- A run that is taken up with nothing emitted emits what the whole run emits from there on. -/
theorem foldlM_runLine_resume {lines : List Bytes} {r r' : FileRun}
    (h : lines.foldlM (cfg.runLine key) r = .ok r') (splitter : LineSplitter) (chunks size : Nat) :
    ∃ q, lines.foldlM (cfg.runLine key) (r.resume splitter chunks size) = .ok q ∧
      q.state = (r'.rebase splitter chunks size []).state ∧
      q.rebase r.state.splitter r.state.chunksReceived r.state.bytesReceived r.out = r' := by
  have hr : (r.resume splitter chunks size).rebase r.state.splitter r.state.chunksReceived
      r.state.bytesReceived r.out = r := by simp [FileRun.resume, FileRun.rebase]
  rw [← hr, foldlM_runLine_rebase] at h
  obtain ⟨q, hq, rfl⟩ := Except.ok_of_map h
  refine ⟨q, hq, ?_, rfl⟩
  rw [← foldlM_runLine_rebase_self hq]
  rfl

end FileSplitterStateConfig

/-! ## Driving the state -/

/-- The changes of a file: its chunks, from an offset on, and its end. -/
def fileChanges (key : FileKey) (fileType : Nat) : Nat → List Bytes → List FileSplitterChange
  | _, [] => [.fileEof key.clientId key.relPath]
  | offset, chunk :: chunks =>
    .ofChunk key.clientId key.relPath fileType offset chunk ::
      fileChanges key fileType (offset + chunk.length) chunks

namespace FileSplitterState

variable (cfg : FileSplitterStateConfig)

/-- `simulate` and then `apply_change`, change after change: all outputs, and the state at the
end. -/
def drive : FileSplitterState → List FileSplitterChange →
    Except String (List EmittedOutput × FileSplitterState)
  | s, [] => .ok ([], s)
  | s, change :: changes => do
    let outputs ← s.simulate cfg change
    let (outputs', s') ← drive (s.applyChange cfg change) changes
    return (outputs ++ outputs', s')

/-- The same, before anything is serialized. -/
def runAll : FileSplitterState → List FileSplitterChange →
    Except String (FileSplitterState × List Emission)
  | s, [] => .ok (s, [])
  | s, change :: changes => do
    let (s', out) ← s.run cfg change
    let (s'', out') ← runAll s' changes
    return (s'', out ++ out')

variable {cfg} {key : FileKey} {fileType : Nat}

/-- The state is driven through exactly the changes that it accepts with outputs that serialize. -/
theorem drive_eq_ok_iff {s s' : FileSplitterState} {changes : List FileSplitterChange}
    {outputs : List EmittedOutput} : s.drive cfg changes = .ok (outputs, s') ↔
      ∃ out, s.runAll cfg changes = .ok (s', out) ∧ out.mapM (emit cfg) = .ok outputs := by
  induction changes generalizing s outputs with
  | nil =>
    constructor
    · intro h
      cases h
      exact ⟨[], rfl, rfl⟩
    · rintro ⟨out, h, hout⟩
      cases h
      cases hout
      rfl
  | cons change changes ih =>
    constructor
    · intro h
      obtain ⟨outputs₁, h₁, h⟩ := Except.ok_of_bind h
      obtain ⟨⟨outputs₂, s₂⟩, h₂, h⟩ := Except.ok_of_bind h
      obtain ⟨s₁, out₁, hrun, hout₁⟩ := simulate_eq_ok_iff.mp h₁
      cases h
      rw [applyChange_of_run hrun] at h₂
      obtain ⟨out₂, hrun₂, hout₂⟩ := ih.mp h₂
      refine ⟨out₁ ++ out₂, ?_, ?_⟩
      · rw [runAll, hrun, Except.ok_bind]
        dsimp only
        rw [hrun₂]
        rfl
      · rw [List.mapM_append, hout₁, hout₂]
        rfl
    · rintro ⟨out, h, hout⟩
      obtain ⟨⟨s₁, out₁⟩, hrun, h⟩ := Except.ok_of_bind h
      obtain ⟨⟨s₂, out₂⟩, hrun₂, h⟩ := Except.ok_of_bind h
      cases h
      rw [List.mapM_append] at hout
      obtain ⟨outputs₁, hout₁, hout⟩ := Except.ok_of_bind hout
      obtain ⟨outputs₂, hout₂, hout⟩ := Except.ok_of_bind hout
      cases hout
      rw [drive, simulate_eq_ok_iff.mpr ⟨s₁, out₁, hrun, hout₁⟩, Except.ok_bind,
        applyChange_of_run hrun, ih.mpr ⟨out₂, hrun₂, hout₂⟩]
      rfl

/-- A file after some bytes: besides the splitter and the counters of the chunks, its state is that
of the lines that have ended in them. -/
structure Stored (cfg : FileSplitterStateConfig) (fileType : Nat) (s : FileSplitterState)
    (state : FileState) (front : Bytes) (r : FileRun) : Prop where
  state : ∃ n m, { state with fileType := some (state.fileType.getD fileType) } =
    (r.rebase (.after cfg.maxLineBytes front) n m []).state
  counts : s.accountsBatchesByClient = r.accountsCounts

open LineSplitter FileSplitterStateConfig

/-- A chunk takes the file to the bytes with the chunk, and emits what its lines emit. -/
theorem Stored.chunk {s : FileSplitterState} {state : FileState} {front payload : Bytes}
    {r r' : FileRun} {counts : Dict Nat Nat} (h : Stored cfg fileType s state front r)
    (hstate : s.stateFor cfg key = .ok state) (hfit : LinesFit cfg.maxLineBytes (front ++ payload))
    (hr : cfg.lineRun key fileType counts (completeLines front) = .ok r)
    (hr' : cfg.lineRun key fileType counts (completeLines (front ++ payload)) = .ok r') :
    ∃ s' state' out,
      s.run cfg (.ofChunk key.clientId key.relPath fileType front.length payload) = .ok (s', out) ∧
        s'.files = s.files.set key state' ∧ state'.fileType = some fileType ∧
        Stored cfg fileType s' state' (front ++ payload) r' ∧ r.out ++ out = r'.out := by
  obtain ⟨n, m, hs⟩ := h.state
  rw [completeLines_append] at hr'
  obtain ⟨r₁, hr₁, hlines⟩ := lineRun_append.mp hr'
  obtain rfl : r = r₁ := Except.ok.inj (hr.symm.trans hr₁)
  obtain ⟨q, hq, hqstate, hq'⟩ :=
    foldlM_runLine_resume hlines (.after cfg.maxLineBytes (front ++ payload)) n m
  have hsplitter : state.splitter = .after cfg.maxLineBytes front := congrArg FileState.splitter hs
  -- the run of the chunk takes up the run of the lines before it
  have hstart : FileRun.mk
        { state with
          fileType := some (state.fileType.getD fileType)
          splitter := .after cfg.maxLineBytes (front ++ payload) } s.accountsBatchesByClient [] =
      r.resume (.after cfg.maxLineBytes (front ++ payload)) n m := by
    rw [FileRun.resume, h.counts]
    exact congrArg (fun st : FileState => FileRun.mk
      { st with splitter := .after cfg.maxLineBytes (front ++ payload) } r.accountsCounts []) hs
  have hrun : s.chunkRun cfg key fileType front.length (Base64.encode payload) = .ok (FileRun.mk
        { q.state with
          bytesReceived := q.state.bytesReceived + payload.length
          chunksReceived := q.state.chunksReceived + 1 } q.accountsCounts q.out) := by
    rw [chunkRun, hstate, Except.ok_bind, runChunk, Base64.decode_encode]
    dsimp only [Option.getD_some]
    rw [hsplitter, push_after hfit, Except.ok_bind]
    dsimp only
    rw [hstart, hq]
    rfl
  have hft := lineRun_fileType hr'
  refine ⟨{ s with
      files := s.files.set key { q.state with
        bytesReceived := q.state.bytesReceived + payload.length
        chunksReceived := q.state.chunksReceived + 1 }
      accountsBatchesByClient := q.accountsCounts
      chunksReceived := s.chunksReceived + 1 }, _, q.out, ?_, rfl, ?_,
    ⟨⟨n + 1, m + payload.length, ?_⟩, by rw [← hq']; rfl⟩, congrArg FileRun.out hq'⟩
  · rw [FileSplitterChange.ofChunk, run]
    change (s.chunkRun cfg key fileType front.length (Base64.encode payload) >>= _) = _
    rw [hrun]
    rfl
  · rw [hqstate]
    exact hft
  · rw [hqstate]
    simp [FileRun.rebase, hft]

/-- The end of a transactions file emits the last batch and the number of its data lines. -/
theorem Stored.fileEof {s : FileSplitterState} {state : FileState} {content : Bytes}
    {r r' : FileRun} {counts : Dict Nat Nat} (h : Stored cfg fileTypeTransactions s state content r)
    (hstate : s.files.get? key = some state) (hft : state.fileType = some fileTypeTransactions)
    (hfit : LinesFit cfg.maxLineBytes content)
    (hr : cfg.lineRun key fileTypeTransactions counts (completeLines content) = .ok r)
    (hr' : cfg.lineRun key fileTypeTransactions counts (linesOf content) = .ok r') :
    ∃ s' out, s.run cfg (.fileEof key.clientId key.relPath) = .ok (s', out) ∧
      r.out ++ out =
        (runFlush key r').out ++ [.eof lineBatchEdge (runFlush key r').state.dataLinesEmitted] := by
  obtain ⟨n, m, hs⟩ := h.state
  have hs' : state = (r.rebase (.after cfg.maxLineBytes content) n m []).state := by
    rw [← hs, hft]
    exact congrArg (fun ft => { state with fileType := ft }) hft
  obtain ⟨r₁, hr₁, hlines⟩ := lineRun_append.mp hr'
  obtain rfl : r = r₁ := Except.ok.inj (hr.symm.trans hr₁)
  obtain ⟨splitter, hfinish⟩ := finish_after hfit
  obtain ⟨q, hq, -, hq'⟩ := foldlM_runLine_resume hlines splitter n m
  have hsplitter : state.splitter = .after cfg.maxLineBytes content :=
    congrArg FileState.splitter hs'
  have hstart : FileRun.mk { state with splitter } s.accountsBatchesByClient [] =
      r.resume splitter n m := by
    rw [FileRun.resume, h.counts]
    exact congrArg (fun st : FileState => FileRun.mk { st with splitter } r.accountsCounts []) hs'
  have hflush : runFlush key r' = (runFlush key q).rebase r.state.splitter r.state.chunksReceived
      r.state.bytesReceived r.out := by rw [← hq', runFlush_rebase]
  have hft' : (runFlush key q).state.fileType = some fileTypeTransactions := by
    rw [runFlush_fileType, ← lineRun_fileType hr', ← hq']
    rfl
  have hrun : cfg.runFinish key { state, accountsCounts := s.accountsBatchesByClient } =
      .ok { runFlush key q with out := (runFlush key q).out ++
        [.eof lineBatchEdge (runFlush key q).state.dataLinesEmitted] } := by
    rw [runFinish]
    dsimp only
    rw [hsplitter, hfinish, Except.ok_bind]
    dsimp only
    rw [hstart, hq, Except.ok_bind]
    exact if_pos hft'
  refine ⟨{ s with
      files := s.files.erase key
      accountsBatchesByClient := (runFlush key q).accountsCounts
      eofsReceived := s.eofsReceived + 1 }, (runFlush key q).out ++
    [.eof lineBatchEdge (runFlush key q).state.dataLinesEmitted], ?_, ?_⟩
  · rw [run]
    change (s.finishAndRemove cfg key >>= _) = _
    rw [finishAndRemove, hstate]
    dsimp only
    rw [hrun]
    rfl
  · rw [hflush]
    exact (List.append_assoc _ _ _).symm

/-- However the rest of a transactions file is cut, what is emitted for it is the rest of what the
lines of the file emit. -/
theorem Stored.fileChanges {chunks : List Bytes} {s : FileSplitterState} {state : FileState}
    {front : Bytes} {r r' : FileRun} {counts : Dict Nat Nat}
    (h : Stored cfg fileTypeTransactions s state front r)
    (hstate : s.files.get? key = some state) (hft : state.fileType = some fileTypeTransactions)
    (hfit : LinesFit cfg.maxLineBytes (front ++ chunks.flatten))
    (hr : cfg.lineRun key fileTypeTransactions counts (completeLines front) = .ok r)
    (hr' : cfg.lineRun key fileTypeTransactions counts (linesOf (front ++ chunks.flatten)) =
      .ok r') :
    ∃ s' out, s.runAll cfg (fileChanges key fileTypeTransactions front.length chunks) =
      .ok (s', out) ∧
      r.out ++ out =
        (runFlush key r').out ++ [.eof lineBatchEdge (runFlush key r').state.dataLinesEmitted] := by
  induction chunks generalizing s state front r with
  | nil =>
    rw [List.flatten_nil, List.append_nil] at hfit hr'
    obtain ⟨s', out, hrun, hout⟩ := h.fileEof hstate hft hfit hr hr'
    refine ⟨s', out, ?_, hout⟩
    rw [MoneyLaundering.fileChanges, runAll, hrun, Except.ok_bind]
    dsimp only
    rw [runAll, Except.ok_bind, List.append_nil]
    rfl
  | cons chunk chunks ih =>
    rw [List.flatten_cons, ← List.append_assoc] at hfit hr'
    have hprefix : ∃ r₁, cfg.lineRun key fileTypeTransactions counts
        (completeLines (front ++ chunk)) =
        .ok r₁ := by
      rw [linesOf_append] at hr'
      obtain ⟨r₁, hr₁, -⟩ := lineRun_append.mp hr'
      exact ⟨r₁, hr₁⟩
    obtain ⟨r₁, hr₁⟩ := hprefix
    have hfor : s.stateFor cfg key = .ok state := by rw [stateFor, hstate]
    obtain ⟨s₁, state₁, out₁, hrun, hfiles, hft₁, hstored, hout⟩ :=
      h.chunk hfor hfit.of_append hr hr₁
    have hget : s₁.files.get? key = some state₁ := by rw [hfiles, Dict.get?_set_self]
    obtain ⟨s', out, hrest, hout'⟩ := ih hstored hget hft₁ hfit hr₁ hr'
    refine ⟨s', out₁ ++ out, ?_, ?_⟩
    · rw [MoneyLaundering.fileChanges, runAll, hrun, Except.ok_bind]
      dsimp only
      rw [← List.length_append, hrest]
      rfl
    · rw [← List.append_assoc, hout, hout']

theorem stored_init (s : FileSplitterState) : Stored cfg fileType s
    { splitter := { maxLineBytes := cfg.maxLineBytes } } []
    { state := { splitter := .after cfg.maxLineBytes [], fileType := some fileType }
      accountsCounts := s.accountsBatchesByClient } :=
  ⟨⟨0, 0, rfl⟩, rfl⟩

/-- However a transactions file is cut, what is emitted for it is what its lines emit. -/
theorem runAll_fileChanges {s : FileSplitterState} {chunks : List Bytes}
    {content : Bytes} {r : FileRun}
    (hkey : s.files.get? key = none) (hmax : 0 < cfg.maxLineBytes) (hne : content ≠ [])
    (hcut : chunks.flatten = content) (hfit : LinesFit cfg.maxLineBytes content)
    (hr : cfg.lineRun key fileTypeTransactions s.accountsBatchesByClient
      (linesOf content) = .ok r) :
    ∃ s', s.runAll cfg (fileChanges key fileTypeTransactions 0 chunks) = .ok (s',
      (runFlush key r).out ++ [.eof lineBatchEdge (runFlush key r).state.dataLinesEmitted]) := by
  cases chunks with
  | nil => exact absurd hcut.symm hne
  | cons chunk chunks =>
    rw [List.flatten_cons] at hcut
    subst hcut
    have hfor : s.stateFor cfg key = .ok { splitter := { maxLineBytes := cfg.maxLineBytes } } := by
      rw [stateFor, hkey]
      dsimp only
      rw [LineSplitter.create, Except.raiseIf_of_not (by omega)]
      rfl
    rw [linesOf_append] at hr
    obtain ⟨r₁, hr₁, -⟩ := lineRun_append.mp hr
    rw [← linesOf_append] at hr
    obtain ⟨s₁, state₁, out₁, hrun, hfiles, hft₁, hstored, hout⟩ :=
      (stored_init s).chunk hfor hfit.of_append rfl hr₁
    rw [List.length_nil] at hrun
    have hget : s₁.files.get? key = some state₁ := by rw [hfiles, Dict.get?_set_self]
    obtain ⟨s', out, hrest, hout'⟩ := hstored.fileChanges hget hft₁ hfit hr₁ hr
    rw [List.nil_append] at hrest
    refine ⟨s', ?_⟩
    rw [fileChanges, runAll, hrun, Except.ok_bind]
    dsimp only
    rw [Nat.zero_add, hrest, ← hout', ← hout]
    rfl

end FileSplitterState

end MoneyLaundering
