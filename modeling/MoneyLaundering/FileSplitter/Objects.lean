import Mathlib.Logic.Function.Basic
import MoneyLaundering.FileSplitter.Chunking

/-!
# The file splitter and its objects

`FileSplitterState` keeps a `FileState` for every file, and each of these has a `LineSplitter` and a
list of lines of its own. The helpers change all of them in place: `apply_change` calls them on the
objects of the state, `simulate` on copies. Here the objects are on a heap, and the helpers run
there statement by statement. `FileCall.run` is what a helper sees of the heap; on it every helper
does what the one of `FileSplitter.State` does (`run_runFlush` and the like), and it leaves every
object that it was not given alone (`Touches`).
-/

namespace MoneyLaundering

open FileSplitterStateConfig

/-- `FileState`. The splitter and the list of lines are held by reference. -/
structure FileObject where
  splitter : Nat
  batchLines : Nat
  fileType : Option Nat
  header : Option (List String)
  batchFirstLineNumber : Nat
  batchPayloadBytes : Nat
  batchId : Nat
  linesSeen : Nat
  dataLinesEmitted : Nat
  batchesEmitted : Nat
  chunksReceived : Nat
  bytesReceived : Nat

/-- The objects of a process, by kind. Objects from `next` on are not there yet. -/
structure SplitterHeap where
  states : Nat → FileObject
  splitters : Nat → LineSplitter
  lists : Nat → List Bytes
  counts : Nat → Dict Nat Nat
  next : Nat

namespace SplitterHeap

/-- What can be read of a file. -/
def fileState (h : SplitterHeap) (p : Nat) : FileState where
  splitter := h.splitters (h.states p).splitter
  fileType := (h.states p).fileType
  header := (h.states p).header
  batchLines := h.lists (h.states p).batchLines
  batchFirstLineNumber := (h.states p).batchFirstLineNumber
  batchPayloadBytes := (h.states p).batchPayloadBytes
  batchId := (h.states p).batchId
  linesSeen := (h.states p).linesSeen
  dataLinesEmitted := (h.states p).dataLinesEmitted
  batchesEmitted := (h.states p).batchesEmitted
  chunksReceived := (h.states p).chunksReceived
  bytesReceived := (h.states p).bytesReceived

/-- `FileState(...)`: a new object with a splitter and a list of its own. -/
def newFile (h : SplitterHeap) (s : FileState) : SplitterHeap :=
  { h with
    states := Function.update h.states h.next
      { splitter := h.next
        batchLines := h.next
        fileType := s.fileType
        header := s.header
        batchFirstLineNumber := s.batchFirstLineNumber
        batchPayloadBytes := s.batchPayloadBytes
        batchId := s.batchId
        linesSeen := s.linesSeen
        dataLinesEmitted := s.dataLinesEmitted
        batchesEmitted := s.batchesEmitted
        chunksReceived := s.chunksReceived
        bytesReceived := s.bytesReceived }
    splitters := Function.update h.splitters h.next s.splitter
    lists := Function.update h.lists h.next s.batchLines
    next := h.next + 1 }

/-- `dict(...)`. -/
def newCounts (h : SplitterHeap) (d : Dict Nat Nat) : SplitterHeap :=
  { h with counts := Function.update h.counts h.next d, next := h.next + 1 }

@[simp] theorem fileState_newFile (h : SplitterHeap) (s : FileState) :
    (h.newFile s).fileState h.next = s := by
  simp [fileState, newFile]

@[simp] theorem counts_newCounts (h : SplitterHeap) (d : Dict Nat Nat) :
    (h.newCounts d).counts h.next = d := by
  simp [newCounts]

/-- `LineSplitter(...)`, with the check of `__post_init__`. -/
def makeSplitter (maxLineBytes expectedOffset : Nat) (pending : Bytes) :
    Except String LineSplitter := do
  Except.raiseIf (maxLineBytes = 0) "max_line_bytes must be greater than 0"
  return { maxLineBytes, expectedOffset, pending }

/-- `_copy_file_state`: the objects with the copy, and the copy. -/
def copyFileState (h : SplitterHeap) (p : Nat) : Except String (SplitterHeap × Nat) := do
  let state := h.states p
  let original := h.splitters state.splitter
  let splitter ← makeSplitter original.maxLineBytes original.expectedOffset original.pending
  return (h.newFile
    { splitter
      fileType := state.fileType
      header := state.header
      batchLines := h.lists state.batchLines
      batchFirstLineNumber := state.batchFirstLineNumber
      batchPayloadBytes := state.batchPayloadBytes
      batchId := state.batchId
      linesSeen := state.linesSeen
      dataLinesEmitted := state.dataLinesEmitted
      batchesEmitted := state.batchesEmitted
      chunksReceived := state.chunksReceived
      bytesReceived := state.bytesReceived }, h.next)

/-- `FileState(splitter=LineSplitter(max_line_bytes))`. -/
def emptyFile (h : SplitterHeap) (maxLineBytes : Nat) : Except String (SplitterHeap × Nat) := do
  let splitter ← makeSplitter maxLineBytes 0 []
  return (h.newFile { splitter }, h.next)

/-- `_filestate_from_dict`, on the values that `asdict` gave. -/
def filestateFromDict (h : SplitterHeap) (d : FileState) : Except String (SplitterHeap × Nat) := do
  let s := d.splitter
  let splitter ← makeSplitter s.maxLineBytes s.expectedOffset s.pending
  return (h.newFile
    { splitter
      fileType := d.fileType
      header := d.header
      batchLines := d.batchLines
      batchFirstLineNumber := d.batchFirstLineNumber
      batchPayloadBytes := d.batchPayloadBytes
      batchId := d.batchId
      linesSeen := d.linesSeen
      dataLinesEmitted := d.dataLinesEmitted
      batchesEmitted := d.batchesEmitted
      chunksReceived := d.chunksReceived
      bytesReceived := d.bytesReceived }, h.next)

theorem makeSplitter_of_pos {maxLineBytes : Nat} (h : 0 < maxLineBytes) (expectedOffset : Nat)
    (pending : Bytes) :
    makeSplitter maxLineBytes expectedOffset pending =
      .ok { maxLineBytes, expectedOffset, pending } := by
  rw [makeSplitter, Except.raiseIf_of_not (Nat.ne_of_gt h)]
  rfl

/-- A copy is a new object with the values of the original. -/
theorem copyFileState_eq {h : SplitterHeap} {p : Nat}
    (hpos : 0 < (h.fileState p).splitter.maxLineBytes) :
    h.copyFileState p = .ok (h.newFile (h.fileState p), h.next) := by
  have hpos' : 0 < (h.splitters (h.states p).splitter).maxLineBytes := hpos
  rw [copyFileState, makeSplitter_of_pos hpos']
  rfl

theorem filestateFromDict_eq {h : SplitterHeap} {d : FileState}
    (hpos : 0 < d.splitter.maxLineBytes) :
    h.filestateFromDict d = .ok (h.newFile d, h.next) := by
  rw [filestateFromDict, makeSplitter_of_pos hpos]
  rfl

theorem emptyFile_eq (h : SplitterHeap) (maxLineBytes : Nat) : h.emptyFile maxLineBytes =
    (LineSplitter.create maxLineBytes).map fun splitter => (h.newFile { splitter }, h.next) := by
  unfold emptyFile makeSplitter LineSplitter.create Except.raiseIf
  split <;> rfl

end SplitterHeap

/-! ## The helpers -/

/-- What a helper is given: the objects, a `FileState` and a dictionary of account batches among
them, and what was emitted so far. -/
structure FileCall where
  heap : SplitterHeap
  state : Nat
  counts : Nat
  out : List Emission := []

namespace FileCall

/-- What a helper sees. -/
def run (x : FileCall) : FileRun where
  state := x.heap.fileState x.state
  accountsCounts := x.heap.counts x.counts
  out := x.out

/-! ### Statements -/

/-- Assignments to attributes of the `FileState`. -/
def assign (x : FileCall) (f : FileObject → FileObject) : FileCall :=
  { x with heap := { x.heap with
      states := Function.update x.heap.states x.state (f (x.heap.states x.state)) } }

/-- `state.batch_lines = []`. -/
def newLines (x : FileCall) : FileCall :=
  { x with heap := { x.heap with
      states := Function.update x.heap.states x.state
        { x.heap.states x.state with batchLines := x.heap.next }
      lists := Function.update x.heap.lists x.heap.next []
      next := x.heap.next + 1 } }

/-- `state.batch_lines.append(line)`. -/
def appendLine (x : FileCall) (line : Bytes) : FileCall :=
  { x with heap := { x.heap with
      lists := Function.update x.heap.lists (x.heap.states x.state).batchLines
        (x.heap.lists (x.heap.states x.state).batchLines ++ [line]) } }

/-- What `push` and `finish` leave of the splitter. -/
def setSplitter (x : FileCall) (splitter : LineSplitter) : FileCall :=
  { x with heap := { x.heap with
      splitters := Function.update x.heap.splitters (x.heap.states x.state).splitter splitter } }

def modifyCounts (x : FileCall) (f : Dict Nat Nat → Dict Nat Nat) : FileCall :=
  { x with heap := { x.heap with
      counts := Function.update x.heap.counts x.counts (f (x.heap.counts x.counts)) } }

/-- `out.append(...)`. -/
def emit (x : FileCall) (e : Emission) : FileCall := { x with out := x.out ++ [e] }

/-! ### Bodies -/

variable (cfg : FileSplitterStateConfig) (key : FileKey)

/-- `_run_flush`. -/
def runFlush (x : FileCall) : FileCall :=
  let lines := x.heap.lists (x.heap.states x.state).batchLines
  if lines = [] then x
  else
    let state := x.heap.states x.state
    let x := x.emit (.batch
      (if state.fileType = some fileTypeAccounts then accountsEdge else lineBatchEdge)
      { fileType := state.fileType.getD 0
        relPath := key.relPath
        batchId := state.batchId
        firstLineNumber := state.batchFirstLineNumber
        header := state.header.getD []
        lines })
    let x := x.assign fun o => { o with
      dataLinesEmitted := o.dataLinesEmitted + lines.length
      batchesEmitted := o.batchesEmitted + 1 }
    let x :=
      if state.fileType = some fileTypeAccounts then
        x.modifyCounts fun d => d.set key.clientId (d.getD key.clientId 0 + 1)
      else x
    let x := x.assign fun o => { o with batchId := o.batchId + 1 }
    x.newLines.assign fun o => { o with batchFirstLineNumber := 0, batchPayloadBytes := 0 }

/-- `_run_accumulate`. -/
def runAccumulate (x : FileCall) (line : Bytes) : FileCall :=
  let x :=
    if x.run.state.batchLines ≠ [] ∧
      cfg.maxBatchBytes < packetSize key x.run.state (4 + line.length) then
      x.runFlush key
    else x
  let x :=
    if x.run.state.batchLines = [] then
      x.assign fun o => { o with batchFirstLineNumber := o.linesSeen, batchPayloadBytes := 0 }
    else x
  (x.appendLine line).assign fun o => { o with
    batchPayloadBytes := o.batchPayloadBytes + (4 + line.length) }

/-- `_run_line`. -/
def runLine (x : FileCall) (line : Bytes) : Except String FileCall :=
  let x := x.assign fun o => { o with linesSeen := o.linesSeen + 1 }
  if x.run.state.fileType = some fileTypeAccounts ∧ cfg.accountsEnabled = false then .ok x
  else
    match x.run.state.header with
    | none => do
      let header ← parseCsvLine (cleanLine line)
      return x.assign fun o => { o with header := some header }
    | some _ => .ok (x.runAccumulate cfg key line)

/-- `_run_chunk`. -/
def runChunk (x : FileCall) (fileType offset : Nat) (payloadB64 : List Char) :
    Except String FileCall := do
  let x :=
    if x.run.state.fileType = none then x.assign fun o =>
      { o with fileType := some fileType } else x
  let payload := (Base64.decode payloadB64).getD []
  let (splitter, lines) ← x.run.state.splitter.push offset payload
  let x ← lines.foldlM (runLine cfg key) (x.setSplitter splitter)
  return x.assign fun o => { o with
    bytesReceived := o.bytesReceived + payload.length
    chunksReceived := o.chunksReceived + 1 }

/-- `_run_finish`. -/
def runFinish (x : FileCall) : Except String FileCall := do
  let (splitter, lines) ← x.run.state.splitter.finish
  let x ← lines.foldlM (runLine cfg key) (x.setSplitter splitter)
  let x := x.runFlush key
  let x :=
    if x.run.state.fileType = some fileTypeTransactions then
      x.emit (.eof lineBatchEdge x.run.state.dataLinesEmitted)
    else if x.run.state.fileType = some fileTypeAccounts ∧ cfg.accountsEnabled = true then
      x.emit (.eof accountsEdge (x.run.accountsCounts.getD key.clientId 0))
    else x
  return if x.run.state.fileType = some fileTypeAccounts ∧ cfg.accountsEnabled = true then
    x.modifyCounts (·.erase key.clientId)
  else x

/-! ### What the helpers do -/

variable {cfg key} {x x' x'' : FileCall} {line : Bytes} {lines : List Bytes}

theorem run_modifyCounts (x : FileCall) (f : Dict Nat Nat → Dict Nat Nat) :
    (x.modifyCounts f).run = { x.run with accountsCounts := f x.run.accountsCounts } := by
  simp [run, SplitterHeap.fileState, modifyCounts]

variable (key) in
theorem run_runFlush (x : FileCall) :
    (x.runFlush key).run = FileSplitterStateConfig.runFlush key x.run := by
  by_cases hl : x.heap.lists (x.heap.states x.state).batchLines = []
  · have hr : x.run.state.batchLines = [] := hl
    rw [FileCall.runFlush, if_pos hl, FileSplitterStateConfig.runFlush, if_pos hr]
  · have hr : ¬ x.run.state.batchLines = [] := hl
    rw [FileCall.runFlush, if_neg hl, FileSplitterStateConfig.runFlush, if_neg hr]
    by_cases ht : (x.heap.states x.state).fileType = some fileTypeAccounts <;>
      simp [run, SplitterHeap.fileState, emit, assign, modifyCounts, newLines, ht]

theorem run_runAccumulate (x : FileCall) (line : Bytes) :
    (x.runAccumulate cfg key line).run = cfg.runAccumulate key x.run line := by
  have happend : ∀ x : FileCall,
      (((if x.run.state.batchLines = [] then
          x.assign fun o => { o with batchFirstLineNumber := o.linesSeen, batchPayloadBytes := 0 }
        else x).appendLine line).assign fun o => { o with
          batchPayloadBytes := o.batchPayloadBytes + (4 + line.length) }).run =
        FileSplitterStateConfig.appendLine x.run line := by
    intro x
    by_cases hl : x.heap.lists (x.heap.states x.state).batchLines = [] <;>
      simp [run, SplitterHeap.fileState, FileSplitterStateConfig.appendLine,
        FileCall.appendLine, assign, hl]
  rw [FileCall.runAccumulate, FileSplitterStateConfig.runAccumulate]
  split
  · rw [happend, run_runFlush]
  · rw [happend]

theorem run_countLine (x : FileCall) :
    (x.assign fun o => { o with linesSeen := o.linesSeen + 1 }).run = countLine x.run := by
  simp [run, SplitterHeap.fileState, assign, countLine]

theorem run_runLine (x : FileCall) (line : Bytes) :
    (x.runLine cfg key line).map run = cfg.runLine key x.run line := by
  by_cases hskip : x.run.state.fileType = some fileTypeAccounts ∧ cfg.accountsEnabled = false
  · have hcall :
        x.runLine cfg key line = .ok (x.assign fun o => { o with linesSeen := o.linesSeen + 1 }) :=
      if_pos (by rw [run_countLine]; exact hskip)
    rw [hcall, runLine_of_skip _ _ hskip, ← run_countLine]
    rfl
  · have hskip' :
        ¬ ((x.assign fun o => { o with linesSeen := o.linesSeen + 1 }).run.state.fileType =
        some fileTypeAccounts ∧ cfg.accountsEnabled = false) := by
      rw [run_countLine]
      exact hskip
    cases hheader : x.run.state.header with
    | none =>
      have hheader' :
          (x.assign fun o => { o with linesSeen := o.linesSeen + 1 }).run.state.header = none := by
        rw [run_countLine]
        exact hheader
      rw [runLine_of_none _ _ hskip hheader, FileCall.runLine, if_neg hskip', hheader',
        ← run_countLine]
      cases parseCsvLine (cleanLine line) with
      | error => rfl
      | ok header =>
        simp [Except.ok_bind, Except.map, pure, Except.pure, run, SplitterHeap.fileState, assign]
    | some header =>
      have hheader' : (x.assign fun o => { o with linesSeen := o.linesSeen + 1 }).run.state.header =
          some header := by
        rw [run_countLine]
        exact hheader
      rw [runLine_of_some _ _ hskip hheader, FileCall.runLine, if_neg hskip', hheader',
        ← run_countLine]
      exact congrArg Except.ok (run_runAccumulate _ line)

variable (cfg key) in
theorem run_foldlM_runLine (x : FileCall) (lines : List Bytes) :
    (lines.foldlM (runLine cfg key) x).map run = lines.foldlM (cfg.runLine key) x.run := by
  induction lines generalizing x with
  | nil => rfl
  | cons line lines ih =>
    rw [List.foldlM_cons, List.foldlM_cons, ← run_runLine]
    cases x.runLine cfg key line with
    | error => rfl
    | ok x' => exact ih x'

theorem run_setSplitter (x : FileCall) (splitter : LineSplitter) :
    (x.setSplitter splitter).run = { x.run with state := { x.run.state with splitter } } := by
  simp [run, SplitterHeap.fileState, setSplitter]

variable (cfg key) in
theorem run_runChunk (x : FileCall) (fileType offset : Nat) (payloadB64 : List Char) :
    (x.runChunk cfg key fileType offset payloadB64).map run =
      cfg.runChunk key x.run fileType offset payloadB64 := by
  have htype : (if x.run.state.fileType = none then
      x.assign fun o => { o with fileType := some fileType } else x).run =
      { x.run with state :=
        { x.run.state with fileType := some (x.run.state.fileType.getD fileType) } } := by
    by_cases ht : (x.heap.states x.state).fileType = none
    · simp [run, SplitterHeap.fileState, assign, ht]
    · obtain ⟨t, ht⟩ := Option.ne_none_iff_exists'.mp ht
      simp [run, SplitterHeap.fileState, ht]
  rw [FileCall.runChunk, FileSplitterStateConfig.runChunk]
  generalize hy : (if x.run.state.fileType = none then
    x.assign fun o => { o with fileType := some fileType } else x) = y at htype
  have hsplitter : y.run.state.splitter = x.run.state.splitter := by rw [htype]
  rw [hsplitter]
  cases x.run.state.splitter.push offset ((Base64.decode payloadB64).getD []) with
  | error => rfl
  | ok pushed =>
    obtain ⟨splitter, lines⟩ := pushed
    have hlines := run_foldlM_runLine cfg key (y.setSplitter splitter) lines
    rw [run_setSplitter, htype] at hlines
    rw [Except.ok_bind, Except.ok_bind]
    dsimp only at hlines ⊢
    rw [← hlines]
    cases lines.foldlM (FileCall.runLine cfg key) (y.setSplitter splitter) with
    | error => rfl
    | ok z =>
      simp [Except.ok_bind, Except.map, pure, Except.pure, run, SplitterHeap.fileState, assign]

variable (cfg key) in
theorem run_runFinish (x : FileCall) :
    (x.runFinish cfg key).map run = cfg.runFinish key x.run := by
  rw [FileCall.runFinish, FileSplitterStateConfig.runFinish]
  cases x.run.state.splitter.finish with
  | error => rfl
  | ok finished =>
    obtain ⟨splitter, lines⟩ := finished
    have hlines := run_foldlM_runLine cfg key (x.setSplitter splitter) lines
    rw [run_setSplitter] at hlines
    rw [Except.ok_bind, Except.ok_bind]
    dsimp only at hlines ⊢
    rw [← hlines]
    cases lines.foldlM (FileCall.runLine cfg key) (x.setSplitter splitter) with
    | error => rfl
    | ok y =>
      have hflush := run_runFlush key y
      dsimp only [Except.map]
      rw [Except.ok_bind, Except.ok_bind, ← hflush]
      generalize FileCall.runFlush key y = z
      have hne : some fileTypeTransactions ≠ some fileTypeAccounts := by decide
      by_cases ht : z.run.state.fileType = some fileTypeTransactions
      · rw [if_pos ht, if_neg fun h => hne (ht.symm.trans h.1), if_pos ht]
        rfl
      · by_cases ha : z.run.state.fileType = some fileTypeAccounts ∧ cfg.accountsEnabled = true
        · have ha' : (z.emit
              (.eof accountsEdge (z.run.accountsCounts.getD key.clientId 0))).run.state.fileType =
              some fileTypeAccounts ∧ cfg.accountsEnabled = true := ha
          rw [if_neg ht, if_pos ha, if_pos ha', if_neg ht, if_pos ha]
          exact congrArg Except.ok (run_modifyCounts ..)
        · rw [if_neg ht, if_neg ha, if_neg ha, if_neg ht, if_neg ha]
          rfl

/-! ### What the helpers leave alone -/

/-- The references of a `FileState`. -/
abbrev splitterRef (x : FileCall) : Nat := (x.heap.states x.state).splitter

abbrev linesRef (x : FileCall) : Nat := (x.heap.states x.state).batchLines

/-- From `x` to `x'` only the objects of the call changed. The list of lines may be a new one. -/
structure Touches (x x' : FileCall) : Prop where
  state : x'.state = x.state
  counts : x'.counts = x.counts
  next : x.heap.next ≤ x'.heap.next
  states : ∀ p, p ≠ x.state → x'.heap.states p = x.heap.states p
  splitterRef : x'.splitterRef = x.splitterRef
  splitters : ∀ p, p ≠ x.splitterRef → x'.heap.splitters p = x.heap.splitters p
  linesRef : x'.linesRef = x.linesRef ∨ x.heap.next ≤ x'.linesRef ∧ x'.linesRef < x'.heap.next
  lists : ∀ p, p < x.heap.next → p ≠ x.linesRef → x'.heap.lists p = x.heap.lists p
  others : ∀ p, p ≠ x.counts → x'.heap.counts p = x.heap.counts p

theorem Touches.refl (x : FileCall) : Touches x x :=
  ⟨rfl, rfl, Nat.le_refl _, fun _ _ => rfl, rfl, fun _ _ => rfl, .inl rfl, fun _ _ _ =>
    rfl, fun _ _ => rfl⟩

theorem Touches.trans (h : Touches x x') (h' : Touches x' x'') : Touches x x'' where
  state := h'.state.trans h.state
  counts := h'.counts.trans h.counts
  next := Nat.le_trans h.next h'.next
  states p hp := (h'.states p (by rwa [h.state])).trans (h.states p hp)
  splitterRef := h'.splitterRef.trans h.splitterRef
  splitters p hp := (h'.splitters p (by rwa [h.splitterRef])).trans (h.splitters p hp)
  linesRef := by
    rcases h'.linesRef with he | hnew
    · rcases h.linesRef with he' | hnew
      · exact .inl (he.trans he')
      · exact .inr ⟨he ▸ hnew.1, Nat.lt_of_lt_of_le (he ▸ hnew.2) h'.next⟩
    · exact .inr ⟨Nat.le_trans h.next hnew.1, hnew.2⟩
  lists p hlt hp := by
    have hp' : p ≠ x'.linesRef := by
      rcases h.linesRef with he | hnew
      · rwa [he]
      · exact Nat.ne_of_lt (Nat.lt_of_lt_of_le hlt hnew.1)
    exact (h'.lists p (Nat.lt_of_lt_of_le hlt h.next) hp').trans (h.lists p hlt hp)
  others p hp := (h'.others p (by rwa [h.counts])).trans (h.others p hp)

/-- An assignment to the attributes that hold no object. -/
theorem Touches.assign {f : FileObject → FileObject} (h : Touches x x')
    (hs : ∀ o, (f o).splitter = o.splitter) (hl : ∀ o, (f o).batchLines = o.batchLines) :
    Touches x (x'.assign f) := h.trans {
  state := rfl
  counts := rfl
  next := Nat.le_refl _
  states _ hp := Function.update_of_ne hp ..
  splitterRef := by simp [FileCall.splitterRef, FileCall.assign, hs]
  splitters _ _ := rfl
  linesRef := .inl (by simp [FileCall.linesRef, FileCall.assign, hl])
  lists _ _ _ := rfl
  others _ _ := rfl }

theorem Touches.newLines (h : Touches x x') : Touches x x'.newLines := h.trans {
  state := rfl
  counts := rfl
  next := Nat.le_succ _
  states _ hp := Function.update_of_ne hp ..
  splitterRef := by simp [FileCall.splitterRef, FileCall.newLines]
  splitters _ _ := rfl
  linesRef := .inr (by simp [FileCall.linesRef, FileCall.newLines])
  lists _ hlt _ := Function.update_of_ne (Nat.ne_of_lt hlt) ..
  others _ _ := rfl }

theorem Touches.appendLine (h : Touches x x') : Touches x (x'.appendLine line) := h.trans {
  state := rfl
  counts := rfl
  next := Nat.le_refl _
  states _ _ := rfl
  splitterRef := rfl
  splitters _ _ := rfl
  linesRef := .inl rfl
  lists _ _ hp := Function.update_of_ne hp ..
  others _ _ := rfl }

theorem Touches.setSplitter (h : Touches x x') (splitter : LineSplitter) :
    Touches x (x'.setSplitter splitter) := h.trans {
  state := rfl
  counts := rfl
  next := Nat.le_refl _
  states _ _ := rfl
  splitterRef := rfl
  splitters _ hp := Function.update_of_ne hp ..
  linesRef := .inl rfl
  lists _ _ _ := rfl
  others _ _ := rfl }

theorem Touches.modifyCounts {f : Dict Nat Nat → Dict Nat Nat} (h : Touches x x') :
    Touches x (x'.modifyCounts f) := h.trans {
  state := rfl
  counts := rfl
  next := Nat.le_refl _
  states _ _ := rfl
  splitterRef := rfl
  splitters _ _ := rfl
  linesRef := .inl rfl
  lists _ _ _ := rfl
  others _ hp := Function.update_of_ne hp .. }

theorem Touches.emit {e : Emission} (h : Touches x x') : Touches x (x'.emit e) :=
  h.trans { Touches.refl x' with }

theorem Touches.ite {p : Prop} {_ : Decidable p} (h : Touches x x') (h' : Touches x x'') :
    Touches x (if p then x' else x'') := by
  split
  · exact h
  · exact h'

theorem Touches.runFlush (h : Touches x x') : Touches x (x'.runFlush key) := by
  unfold FileCall.runFlush
  dsimp only
  refine .ite h (.assign (.newLines (.assign (.ite (.modifyCounts ?_) ?_) ?_ ?_)) ?_ ?_)
  case refine_1 | refine_2 => exact h.emit.assign (fun _ => rfl) (fun _ => rfl)
  all_goals exact fun _ => rfl

theorem Touches.runAccumulate (h : Touches x x') : Touches x (x'.runAccumulate cfg key line) := by
  have hflush : Touches x (if x'.run.state.batchLines ≠ [] ∧
      cfg.maxBatchBytes < packetSize key x'.run.state (4 + line.length) then x'.runFlush key
        else x') :=
    .ite h.runFlush h
  unfold FileCall.runAccumulate
  refine .assign (.appendLine (.ite (hflush.assign ?_ ?_) hflush)) ?_ ?_
  all_goals exact fun _ => rfl

theorem Touches.runLine (h : Touches x x') (hline : x'.runLine cfg key line = .ok x'') :
    Touches x x'' := by
  have hcount : Touches x (x'.assign fun o => { o with linesSeen := o.linesSeen + 1 }) :=
    h.assign (fun _ => rfl) (fun _ => rfl)
  unfold FileCall.runLine at hline
  dsimp only at hline
  split at hline
  · cases hline
    exact hcount
  · split at hline
    · obtain ⟨header, -, hline⟩ := Except.ok_of_bind hline
      cases hline
      exact hcount.assign (fun _ => rfl) (fun _ => rfl)
    · cases hline
      exact hcount.runAccumulate

theorem Touches.foldlM_runLine (h : Touches x x')
    (hlines : lines.foldlM (FileCall.runLine cfg key) x' = .ok x'') :
    Touches x x'' := by
  induction lines generalizing x' with
  | nil =>
    cases hlines
    exact h
  | cons line lines ih =>
    obtain ⟨y, hline, hlines⟩ := Except.ok_of_bind hlines
    exact ih (h.runLine hline) hlines

theorem touches_runChunk {fileType offset : Nat} {payloadB64 : List Char}
    (h : x.runChunk cfg key fileType offset payloadB64 = .ok x') : Touches x x' := by
  obtain ⟨⟨splitter, lines⟩, -, h⟩ := Except.ok_of_bind h
  obtain ⟨y, hlines, h⟩ := Except.ok_of_bind h
  cases h
  refine .assign
    (.foldlM_runLine (.setSplitter (.ite (.assign (.refl x) ?_ ?_) (.refl x)) splitter) hlines)
    ?_ ?_
  all_goals exact fun _ => rfl

theorem touches_runFinish (h : x.runFinish cfg key = .ok x') : Touches x x' := by
  obtain ⟨⟨splitter, lines⟩, -, h⟩ := Except.ok_of_bind h
  obtain ⟨y, hlines, h⟩ := Except.ok_of_bind h
  cases h
  have hflush : Touches x (y.runFlush key) :=
    (((Touches.refl x).setSplitter splitter).foldlM_runLine hlines).runFlush
  generalize y.runFlush key = z at hflush
  have heof : Touches x (if z.run.state.fileType = some fileTypeTransactions then
        z.emit (.eof lineBatchEdge z.run.state.dataLinesEmitted)
      else if z.run.state.fileType = some fileTypeAccounts ∧ cfg.accountsEnabled = true then
        z.emit (.eof accountsEdge (z.run.accountsCounts.getD key.clientId 0))
      else z) := .ite hflush.emit (.ite hflush.emit hflush)
  exact .ite heof.modifyCounts heof

end FileCall

end MoneyLaundering
