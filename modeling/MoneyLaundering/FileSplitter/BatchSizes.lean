import MoneyLaundering.FileSplitter.Chunking
import MoneyLaundering.FileSplitter.Worker

/-!
# The size of a batch

`_packet_size` decides when a batch is sent. It counts the header of an addressed packet for an
accounts file and the shorter header of a plain one for any other file, and the sequencer addresses
the packets of both edges. What is left out of the count is the sender and the number, `uncounted`;
a line that fits without these bytes and not with them is `Misjudged`, and the batches with such a
line are those that are too large.
-/

namespace MoneyLaundering

open Bytes InternalProtocol

/-- The bytes of a batch. -/
theorem LineBatchSerializer.length_wire (batch : LineBatch) : (wire batch).length =
    fixedHeaderSize + (encodeText batch.relPath).length +
      (batch.header.map fun column => 4 + (encodeText column).length).sum +
      (batch.lines.map fun line => 4 + line.length).sum := by
  have hflat : ∀ {α : Type} (l : List α) (f : α → Bytes),
      ((l.map fun x => lengthPrefixed 4 (f x)).flatten).length =
      (l.map fun x => 4 + (f x).length).sum := by
    intro α l f
    simp [List.length_flatten, Function.comp_def]
  simp only [wire, List.length_append, length_beEncode, hflat, fixedHeaderSize]

/-- The packet of a batch: what the sequencer makes of it. -/
def LineBatch.packetBytes (batch : LineBatch) : Nat :=
  addressedHeaderSize + (LineBatchSerializer.wire batch).length

namespace FileSplitterStateConfig

variable (cfg : FileSplitterStateConfig) (key : FileKey)

/-- The bytes of the packet header that `_packet_size` does not count. -/
def uncounted (fileType : Option Nat) : Nat :=
  if fileType = some fileTypeAccounts then 0 else addressedHeaderSize - headerSize

/-- A line that joins a batch and fits by the count, but not with the bytes that are not counted. -/
def Misjudged (state : FileState) (line : Bytes) : Prop :=
  state.batchLines ≠ [] ∧ packetSize key state (4 + line.length) ≤ cfg.maxBatchBytes ∧
    cfg.maxBatchBytes < packetSize key state (4 + line.length) + uncounted state.fileType

instance (state : FileState) (line : Bytes) : Decidable (cfg.Misjudged key state line) :=
  inferInstanceAs (Decidable (_ ∧ _))

/-- No line is misjudged when these lines come in this order. -/
def NoneMisjudged : FileState → List Bytes → Prop
  | _, [] => True
  | state, line :: lines =>
    ¬ cfg.Misjudged key state line ∧
      match cfg.runLine key { state, accountsCounts := ∅ } line with
      | .ok r => NoneMisjudged r.state lines
      | .error _ => True

instance decidableNoneMisjudged : ∀ state lines, Decidable (cfg.NoneMisjudged key state lines)
  | _, [] => .isTrue trivial
  | state, line :: lines =>
    have : Decidable (match cfg.runLine key { state, accountsCounts := ∅ } line with
        | .ok r => cfg.NoneMisjudged key r.state lines
        | .error _ => True) :=
      match cfg.runLine key { state, accountsCounts := ∅ } line with
      | .ok r => decidableNoneMisjudged r.state lines
      | .error _ => .isTrue trivial
    inferInstanceAs (Decidable (_ ∧ _))

/-- What a batch may be: on an edge of the splitter, and with more than one line only if its packet
fits. -/
def Bounded : Emission → Prop
  | .batch edge batch =>
    (edge = lineBatchEdge ∨ edge = accountsEdge ∧ cfg.accountsEnabled = true) ∧
      (1 < batch.lines.length → batch.packetBytes ≤ cfg.maxBatchBytes)
  | .eof edge _ => edge = lineBatchEdge ∨ edge = accountsEdge ∧ cfg.accountsEnabled = true

/-- The lines of the file go into batches. -/
def Started (state : FileState) : Prop :=
  state.fileType ≠ none ∧ state.header ≠ none ∧
    ¬ (state.fileType = some fileTypeAccounts ∧ cfg.accountsEnabled = false)

/-- A batch in the making: its lines are counted. -/
structure Collecting (state : FileState) : Prop where
  counted : state.batchPayloadBytes = (state.batchLines.map fun line => 4 + line.length).sum
  started : state.batchLines ≠ [] → cfg.Started state

/-- A batch in the making that is not too large. -/
structure Fitting (state : FileState) : Prop extends cfg.Collecting state where
  fits : 1 < state.batchLines.length →
    packetSize key state 0 + uncounted state.fileType ≤ cfg.maxBatchBytes

variable {cfg key} {r r' : FileRun} {line : Bytes} {lines : List Bytes}

/-- A line of an accounts file is never misjudged. -/
theorem not_misjudged_accounts {state : FileState} (h : state.fileType = some fileTypeAccounts) :
    ¬ cfg.Misjudged key state line := by
  rintro ⟨-, hle, hlt⟩
  rw [uncounted, if_pos h] at hlt
  omega

/-- The batch that a flush emits. -/
def pendingBatch (key : FileKey) (state : FileState) : LineBatch where
  fileType := state.fileType.getD 0
  relPath := key.relPath
  batchId := state.batchId
  firstLineNumber := state.batchFirstLineNumber
  header := state.header.getD []
  lines := state.batchLines

/-- Its packet is what `_packet_size` counts, and what it does not count. -/
theorem packetBytes_pendingBatch {state : FileState} (h : cfg.Collecting state) :
    (pendingBatch key state).packetBytes = packetSize key state 0 + uncounted state.fileType := by
  rw [LineBatch.packetBytes, LineBatchSerializer.length_wire, packetSize, h.counted, uncounted]
  simp only [pendingBatch, addressedHeaderSize, headerSize]
  split <;> omega

theorem packetSize_extra (state : FileState) (extra : Nat) :
    packetSize key state extra = packetSize key state 0 + extra := rfl

/-- A flush emits the batch in the making. -/
theorem runFlush_cases (key : FileKey) (r : FileRun) :
    r.state.batchLines = [] ∧ runFlush key r = r ∨
      r.state.batchLines ≠ [] ∧ (runFlush key r).state.batchLines = [] ∧
      (runFlush key r).state.batchPayloadBytes = 0 ∧
      (runFlush key r).state.fileType = r.state.fileType ∧
      (runFlush key r).state.header = r.state.header ∧
      (runFlush key r).out = r.out ++ [.batch
        (if r.state.fileType = some fileTypeAccounts then accountsEdge else lineBatchEdge)
        (pendingBatch key r.state)] := by
  by_cases h : r.state.batchLines = []
  · exact .inl ⟨h, by rw [runFlush, if_pos h]⟩
  · refine .inr ⟨h, ?_⟩
    rw [runFlush, if_neg h]
    exact ⟨rfl, rfl, rfl, rfl, rfl⟩

theorem collecting_empty {state : FileState} (hl : state.batchLines = [])
    (hb : state.batchPayloadBytes = 0) :
    cfg.Collecting state :=
  ⟨by rw [hl, hb]; rfl, fun hne => absurd hl hne⟩

theorem fitting_empty {state : FileState} (hl : state.batchLines = [])
    (hb : state.batchPayloadBytes = 0) :
    cfg.Fitting key state :=
  ⟨collecting_empty hl hb, fun h => by rw [hl] at h; cases h⟩

/-- What a flush emits is bounded when the batch in the making fits. -/
theorem Fitting.flush (h : cfg.Fitting key r.state) : cfg.Fitting key (runFlush key r).state ∧
    ∃ new, (runFlush key r).out = r.out ++ new ∧ ∀ e ∈ new, cfg.Bounded e := by
  rcases runFlush_cases key r with ⟨-, hr⟩ | ⟨hne, hl, hb, -, -, hout⟩
  · rw [hr]
    exact ⟨h, [], (List.append_nil _).symm, nofun⟩
  · refine ⟨fitting_empty hl hb, _, hout, fun e he => ?_⟩
    rw [List.mem_singleton.mp he]
    refine ⟨?_, fun hlines => ?_⟩
    · split
      next hft =>
        refine .inr ⟨rfl, ?_⟩
        have hen := (h.started hne).2.2
        rw [not_and] at hen
        simpa using hen hft
      · exact .inl rfl
    · rw [packetBytes_pendingBatch h.toCollecting]
      exact h.fits hlines

/-! ## Lines -/

variable (key) in
/-- A line goes into a batch of a file that has its type and header. -/
theorem Collecting.append (h : cfg.Collecting r.state) (hs : cfg.Started r.state) (line : Bytes) :
    cfg.Collecting (appendLine r line).state ∧
      packetSize key (appendLine r line).state 0 = packetSize key r.state (4 + line.length) := by
  have hcount : (if r.state.batchLines = [] then 0 else r.state.batchPayloadBytes) =
      r.state.batchPayloadBytes := by
    split
    next hnil => rw [h.counted, hnil]; rfl
    · rfl
  refine ⟨⟨?_, fun _ => hs⟩, ?_⟩
  · simp only [appendLine, List.map_append, List.sum_append, List.map_singleton, List.sum_singleton]
    rw [hcount, h.counted]
  · simp only [appendLine, packetSize, hcount]
    omega

/-- What a line does behind the header: it joins the batch, or starts the next one. -/
theorem runAccumulate_cases (cfg : FileSplitterStateConfig) (key : FileKey) (r : FileRun)
    (line : Bytes) :
    (r.state.batchLines ≠ [] → packetSize key r.state (4 + line.length) ≤ cfg.maxBatchBytes) ∧
        cfg.runAccumulate key r line = appendLine r line ∨
      r.state.batchLines ≠ [] ∧ cfg.maxBatchBytes < packetSize key r.state (4 + line.length) ∧
        cfg.runAccumulate key r line = appendLine (runFlush key r) line := by
  by_cases h : r.state.batchLines ≠ [] ∧
    cfg.maxBatchBytes < packetSize key r.state (4 + line.length)
  · exact .inr ⟨h.1, h.2, by rw [runAccumulate, if_pos h]⟩
  · rw [not_and, not_lt] at h
    refine .inl ⟨h, ?_⟩
    rw [runAccumulate, if_neg fun hc => absurd hc.2 (not_lt_of_ge (h hc.1))]

/-- A line comes before the batches, or goes into one. -/
theorem runLine_cases (hft : r.state.fileType ≠ none) (h : cfg.runLine key r line = .ok r') :
    ¬ cfg.Started r.state ∧
        (∃ header, r' = { countLine r with state := { (countLine r).state with header } }) ∨
      cfg.Started r.state ∧ r' = cfg.runAccumulate key (countLine r) line := by
  by_cases hskip : r.state.fileType = some fileTypeAccounts ∧ cfg.accountsEnabled = false
  · rw [runLine_of_skip r line hskip] at h
    cases h
    exact .inl ⟨fun hs => hs.2.2 hskip, r.state.header, rfl⟩
  · cases hheader : r.state.header with
    | none =>
      rw [runLine_of_none r line hskip hheader] at h
      obtain ⟨header, -, rfl⟩ := Except.ok_of_map h
      exact .inl ⟨fun hs => hs.2.1 hheader, some header, rfl⟩
    | some header =>
      rw [runLine_of_some r line hskip hheader] at h
      cases h
      exact .inr ⟨⟨hft, by rw [hheader]; nofun, hskip⟩, rfl⟩

/-- Before the batches there is none in the making. -/
theorem Collecting.empty_of_not_started (h : cfg.Collecting r.state) (hs : ¬ cfg.Started r.state) :
    r.state.batchLines = [] ∧ r.state.batchPayloadBytes = 0 := by
  have hnil : r.state.batchLines = [] := by
    by_contra hne
    exact hs (h.started hne)
  exact ⟨hnil, by rw [h.counted, hnil]; rfl⟩

/-- A line that starts a batch. -/
theorem Fitting.start (hl : r.state.batchLines = []) (hb : r.state.batchPayloadBytes = 0)
    (hs : cfg.Started r.state) (line : Bytes) : cfg.Fitting key (appendLine r line).state := by
  refine ⟨((collecting_empty hl hb).append key hs line).1, fun hlines => ?_⟩
  simp [appendLine, hl] at hlines

/-- A line that is not misjudged leaves a batch that fits, and what it emits is bounded. -/
theorem Fitting.runLine (h : cfg.Fitting key r.state) (hft : r.state.fileType ≠ none)
    (hj : ¬ cfg.Misjudged key r.state line) (hr : cfg.runLine key r line = .ok r') :
    cfg.Fitting key r'.state ∧ ∃ new, r'.out = r.out ++ new ∧ ∀ e ∈ new, cfg.Bounded e := by
  rcases runLine_cases hft hr with ⟨hs, header, rfl⟩ | ⟨hs, rfl⟩
  · obtain ⟨hl, hb⟩ := h.toCollecting.empty_of_not_started hs
    exact ⟨fitting_empty hl hb, [], (List.append_nil _).symm, nofun⟩
  · have hc : cfg.Fitting key (countLine r).state := ⟨⟨h.counted, h.started⟩, h.fits⟩
    rcases runAccumulate_cases cfg key (countLine r) line with ⟨hle, hacc⟩ | ⟨hne, -, hacc⟩
    · rw [hacc]
      obtain ⟨hcoll, hsize⟩ := hc.toCollecting.append key hs line
      refine ⟨⟨hcoll, fun hlines => ?_⟩, [], (List.append_nil _).symm, nofun⟩
      have hne : r.state.batchLines ≠ [] := by
        intro hnil
        simp [appendLine, countLine, hnil] at hlines
      rw [hsize]
      by_contra hlt
      exact hj ⟨hne, hle hne, not_le.mp hlt⟩
    · rw [hacc]
      obtain ⟨-, new, hout, hnew⟩ := hc.flush
      rcases runFlush_cases key (countLine r) with ⟨hnil, -⟩ | ⟨-, hl, hb, hft', hh', -⟩
      · exact absurd hnil hne
      · refine ⟨.start hl hb ?_ line, new, hout, hnew⟩
        rw [Started, hft', hh']
        exact hs

/-! ## Lines of a file -/

theorem runFlush_state {r q : FileRun} (hs : r.state = q.state) :
    (runFlush key r).state = (runFlush key q).state := by
  unfold runFlush
  rw [hs]
  split
  · exact hs
  · rfl

/-- The account batches and the outputs do not matter to the state of the file. -/
theorem runLine_state {r q : FileRun} (hs : r.state = q.state)
    (hr : cfg.runLine key r line = .ok r') :
    ∃ q', cfg.runLine key q line = .ok q' ∧ r'.state = q'.state := by
  by_cases hskip : r.state.fileType = some fileTypeAccounts ∧ cfg.accountsEnabled = false
  · rw [runLine_of_skip r line hskip] at hr
    cases hr
    refine ⟨_, runLine_of_skip q line (hs ▸ hskip), ?_⟩
    rw [countLine, countLine, hs]
  · cases hheader : r.state.header with
    | none =>
      rw [runLine_of_none r line hskip hheader] at hr
      obtain ⟨header, hp, rfl⟩ := Except.ok_of_map hr
      refine ⟨{ countLine q with state := { (countLine q).state with header := some header } }, ?_,
        ?_⟩
      · rw [runLine_of_none q line (hs ▸ hskip) (hs ▸ hheader), hp]
        rfl
      · simp only [countLine, hs]
    | some header =>
      rw [runLine_of_some r line hskip hheader] at hr
      cases hr
      refine ⟨_, runLine_of_some q line (hs ▸ hskip) (hs ▸ hheader), ?_⟩
      have hcount : (countLine r).state = (countLine q).state := by rw [countLine, countLine, hs]
      simp only [runAccumulate, hcount]
      split
      · simp only [appendLine, runFlush_state hcount]
      · simp only [appendLine, hcount]

theorem Fitting.foldlM_runLine (h : cfg.Fitting key r.state) (hft : r.state.fileType ≠ none)
    (hj : cfg.NoneMisjudged key r.state lines) (hr : lines.foldlM (cfg.runLine key) r = .ok r') :
    cfg.Fitting key r'.state ∧ r'.state.fileType = r.state.fileType ∧
      ∃ new, r'.out = r.out ++ new ∧ ∀ e ∈ new, cfg.Bounded e := by
  induction lines generalizing r with
  | nil =>
    cases hr
    exact ⟨h, rfl, [], (List.append_nil _).symm, nofun⟩
  | cons line lines ih =>
    obtain ⟨r₁, hr₁, hr⟩ := Except.ok_of_bind hr
    obtain ⟨hline, hlines⟩ := hj
    obtain ⟨q, hq, hstate⟩ :=
      runLine_state (r := r) (q := { state := r.state, accountsCounts := ∅ }) rfl hr₁
    rw [hq] at hlines
    dsimp only at hlines
    rw [← hstate] at hlines
    obtain ⟨hfit, new, hout, hnew⟩ := h.runLine hft hline hr₁
    have hft₁ := runLine_fileType hr₁
    obtain ⟨hfit', hft', new', hout', hnew'⟩ := ih hfit (hft₁ ▸ hft) hlines hr
    refine ⟨hfit', hft'.trans hft₁, new ++ new', ?_, fun e he => ?_⟩
    · rw [hout', hout, List.append_assoc]
    · exact (List.mem_append.mp he).elim (hnew e) (hnew' e)

/-- A batch that is too large has been emitted. -/
def Oversized (cfg : FileSplitterStateConfig) (out : List Emission) : Prop :=
  ∃ edge batch, .batch edge batch ∈ out ∧ 1 < batch.lines.length ∧
  cfg.maxBatchBytes < batch.packetBytes

/-- A batch in the making that is too large. -/
structure Overfull (cfg : FileSplitterStateConfig) (key : FileKey) (state : FileState) : Prop
    extends cfg.Collecting state where
  lines : 1 < state.batchLines.length
  exceeds : cfg.maxBatchBytes < packetSize key state 0 + uncounted state.fileType

theorem Oversized.append {out : List Emission} (h : Oversized cfg out) (new : List Emission) :
    Oversized cfg (out ++ new) := by
  obtain ⟨edge, batch, hm, hb⟩ := h
  exact ⟨edge, batch, List.mem_append_left _ hm, hb⟩

theorem Overfull.flush (h : Overfull cfg key r.state) : Oversized cfg (runFlush key r).out := by
  rcases runFlush_cases key r with ⟨hnil, -⟩ | ⟨-, -, -, -, -, hout⟩
  · have := h.lines
    simp [hnil] at this
  · rw [hout]
    refine ⟨_, pendingBatch key r.state, List.mem_append_right _ (List.mem_singleton_self _),
      h.lines, ?_⟩
    rw [packetBytes_pendingBatch h.toCollecting]
    exact h.exceeds

/-- A line that joins a batch by the count makes it too large when it is misjudged or the batch
was. -/
theorem overfull_append (h : cfg.Collecting r.state) (hne : r.state.batchLines ≠ [])
    (hover : cfg.maxBatchBytes <
      packetSize key r.state (4 + line.length) + uncounted r.state.fileType) :
    Overfull cfg key (appendLine (countLine r) line).state := by
  have hc : cfg.Collecting (countLine r).state := ⟨h.counted, h.started⟩
  obtain ⟨hcoll, hsize⟩ := hc.append key (h.started hne) line
  refine ⟨hcoll, ?_, ?_⟩
  · have := List.length_pos_iff.mpr hne
    simp [appendLine, countLine]
    omega
  · rw [hsize]
    exact hover

/-- A misjudged line makes a batch that is too large. -/
theorem Collecting.misjudged (h : cfg.Collecting r.state) (hj : cfg.Misjudged key r.state line)
    (hr : cfg.runLine key r line = .ok r') : Overfull cfg key r'.state := by
  obtain ⟨hne, hle, hlt⟩ := hj
  rcases runLine_cases (h.started hne).1 hr with ⟨hs, -⟩ | ⟨-, rfl⟩
  · exact absurd (h.started hne) hs
  · rcases runAccumulate_cases cfg key (countLine r) line with ⟨-, hacc⟩ | ⟨-, hgt, -⟩
    · rw [hacc]
      exact overfull_append h hne hlt
    · exact absurd hgt (not_lt_of_ge hle)

/-- A batch that is too large stays so until it is emitted. -/
theorem Overfull.runLine (h : Overfull cfg key r.state) (hr : cfg.runLine key r line = .ok r') :
    Overfull cfg key r'.state ∨ Oversized cfg r'.out := by
  have hne : r.state.batchLines ≠ [] := by
    intro hnil
    have := h.lines
    simp [hnil] at this
  have hs := h.started hne
  rcases runLine_cases hs.1 hr with ⟨hno, -⟩ | ⟨-, rfl⟩
  · exact absurd hs hno
  · rcases runAccumulate_cases cfg key (countLine r) line with ⟨-, hacc⟩ | ⟨-, -, hacc⟩
    · rw [hacc]
      refine .inl (overfull_append h.toCollecting hne ?_)
      have := h.exceeds
      rw [packetSize_extra]
      omega
    · rw [hacc]
      have hc : Overfull cfg key (countLine r).state := ⟨⟨h.counted, h.started⟩, h.lines, h.exceeds⟩
      exact .inr hc.flush

/-- Outputs are not taken back. -/
theorem runFlush_out (key : FileKey) (r : FileRun) :
    ∃ new, (runFlush key r).out = r.out ++ new := by
  rcases runFlush_cases key r with ⟨-, hr⟩ | ⟨-, -, -, -, -, hout⟩
  · exact ⟨[], by rw [hr, List.append_nil]⟩
  · exact ⟨_, hout⟩

theorem runLine_out (hft : r.state.fileType ≠ none) (hr : cfg.runLine key r line = .ok r') :
    ∃ new, r'.out = r.out ++ new := by
  rcases runLine_cases hft hr with ⟨-, header, rfl⟩ | ⟨-, rfl⟩
  · exact ⟨[], (List.append_nil _).symm⟩
  · rcases runAccumulate_cases cfg key (countLine r) line with ⟨-, hacc⟩ | ⟨-, -, hacc⟩
    · rw [hacc]
      exact ⟨[], (List.append_nil _).symm⟩
    · rw [hacc]
      exact runFlush_out key (countLine r)

theorem foldlM_runLine_oversized {r r' : FileRun} (hft : r.state.fileType ≠ none)
    (h : Overfull cfg key r.state ∨ Oversized cfg r.out)
    (hr : lines.foldlM (cfg.runLine key) r = .ok r') : Oversized cfg (runFlush key r').out := by
  induction lines generalizing r with
  | nil =>
    cases hr
    rcases h with h | h
    · exact h.flush
    · obtain ⟨new, hout⟩ := runFlush_out key r'
      rw [hout]
      exact h.append new
  | cons line lines ih =>
    obtain ⟨r₁, hr₁, hr⟩ := Except.ok_of_bind hr
    refine ih (runLine_fileType hr₁ ▸ hft) ?_ hr
    rcases h with h | h
    · exact h.runLine hr₁
    · obtain ⟨new, hout⟩ := runLine_out hft hr₁
      rw [hout]
      exact .inr (h.append new)

theorem not_oversized_of_bounded {out : List Emission} (h : ∀ e ∈ out, cfg.Bounded e) :
    ¬ Oversized cfg out := by
  rintro ⟨edge, batch, hm, hlines, hlt⟩
  exact absurd hlt (not_lt_of_ge ((h _ hm).2 hlines))

/-- When no line is misjudged, everything that is emitted is bounded. -/
theorem Fitting.bounded {r r' : FileRun} (h : cfg.Fitting key r.state)
    (hft : r.state.fileType ≠ none)
    (hout : ∀ e ∈ r.out, cfg.Bounded e) (hj : cfg.NoneMisjudged key r.state lines)
    (hr : lines.foldlM (cfg.runLine key) r = .ok r') :
    ∀ e ∈ (runFlush key r').out, cfg.Bounded e := by
  obtain ⟨hfit, -, new, hout', hnew⟩ := h.foldlM_runLine hft hj hr
  obtain ⟨-, new', hflush, hnew'⟩ := hfit.flush
  intro e he
  rw [hflush, hout'] at he
  rcases List.mem_append.mp he with he | he
  · exact (List.mem_append.mp he).elim (hout e) (hnew e)
  · exact hnew' e he

/-- Among the lines of a file one is misjudged exactly when a batch is emitted that is too large. -/
theorem Fitting.not_oversized_iff {r r' : FileRun} (h : cfg.Fitting key r.state)
    (hft : r.state.fileType ≠ none) (hout : ∀ e ∈ r.out, cfg.Bounded e)
    (hr : lines.foldlM (cfg.runLine key) r = .ok r') :
    ¬ Oversized cfg (runFlush key r').out ↔ cfg.NoneMisjudged key r.state lines := by
  refine ⟨fun hno => ?_, fun hj => not_oversized_of_bounded (h.bounded hft hout hj hr)⟩
  induction lines generalizing r with
  | nil => trivial
  | cons line lines ih =>
    obtain ⟨r₁, hr₁, hr⟩ := Except.ok_of_bind hr
    have hft₁ : r₁.state.fileType ≠ none := runLine_fileType hr₁ ▸ hft
    have hj : ¬ cfg.Misjudged key r.state line := fun hj =>
      hno (foldlM_runLine_oversized hft₁ (.inl (h.toCollecting.misjudged hj hr₁)) hr)
    obtain ⟨hfit, new, hout₁, hnew⟩ := h.runLine hft hj hr₁
    obtain ⟨q, hq, hstate⟩ :=
      runLine_state (r := r) (q := { state := r.state, accountsCounts := ∅ }) rfl hr₁
    refine ⟨hj, ?_⟩
    rw [hq]
    dsimp only
    rw [← hstate]
    refine ih hfit hft₁ (fun e he => ?_) hr
    rw [hout₁] at he
    exact (List.mem_append.mp he).elim (hout e) (hnew e)

end FileSplitterStateConfig

/-! ## All files -/

namespace FileSplitterState

open FileSplitterStateConfig

variable (cfg : FileSplitterStateConfig) (s : FileSplitterState)

/-- No line is misjudged at the end of a file. -/
def FinishSpared (key : FileKey) : Prop :=
  ∀ state splitter lines, s.files.get? key = some state →
  state.splitter.finish = .ok (splitter, lines) →
    cfg.NoneMisjudged key { state with splitter } lines

/-- No line is misjudged in a change. -/
def Spared : FileSplitterChange → Prop
  | .chunk clientId relPath fileType offset payloadB64 =>
    ∀ state splitter lines, s.stateFor cfg ⟨clientId, relPath⟩ = .ok state →
      state.splitter.push offset ((Base64.decode payloadB64).getD []) = .ok (splitter, lines) →
      cfg.NoneMisjudged ⟨clientId, relPath⟩
        { state with fileType := some (state.fileType.getD fileType), splitter } lines
  | .fileEof clientId relPath => s.FinishSpared cfg ⟨clientId, relPath⟩
  | .clientEof clientId => ∀ key ∈ s.keysOf clientId, s.FinishSpared cfg key
  | .abort _ => True

/-- The batches in the making fit. -/
def AllFitting : Prop :=
  ∀ key state, s.files.get? key = some state → cfg.Fitting key state ∧ state.fileType ≠ none

variable {cfg s} {s' : FileSplitterState} {out : List Emission} {key : FileKey}

theorem AllFitting.set (h : s.AllFitting cfg) {state : FileState} (hf : cfg.Fitting key state)
    (hft : state.fileType ≠ none) (hs : s'.files = s.files.set key state) : s'.AllFitting cfg := by
  intro k st hk
  rw [hs, Dict.get?_set] at hk
  split at hk
  next he =>
    cases hk
    exact ⟨he ▸ hf, hft⟩
  · exact h k st hk

theorem AllFitting.filter (h : s.AllFitting cfg) {p : FileKey → Bool}
    (hs : s'.files = s.files.filter p) :
    s'.AllFitting cfg := by
  intro k st hk
  rw [hs, Dict.get?_filter] at hk
  split at hk
  · exact h k st hk
  · cases hk

/-- The end of a file emits batches that are bounded. -/
theorem runFinish_bounded {state : FileState} {counts : Dict Nat Nat} {r : FileRun}
    (hf : cfg.Fitting key state) (hft : state.fileType ≠ none)
    (hj : ∀ splitter lines, state.splitter.finish = .ok (splitter, lines) →
      cfg.NoneMisjudged key { state with splitter } lines)
    (hr : cfg.runFinish key { state, accountsCounts := counts } = .ok r) :
    ∀ e ∈ r.out, cfg.Bounded e := by
  obtain ⟨⟨splitter, lines⟩, hfinish, hr⟩ := Except.ok_of_bind hr
  obtain ⟨r₁, hlines, hr⟩ := Except.ok_of_bind hr
  have hstart : cfg.Fitting key { state with splitter } := ⟨⟨hf.counted, hf.started⟩, hf.fits⟩
  have hall := Fitting.bounded (r := { state := { state with splitter }, accountsCounts := counts })
    hstart hft nofun (hj splitter lines hfinish) hlines
  dsimp only at hr
  split at hr
  · cases hr
    intro e he
    rcases List.mem_append.mp he with he | he
    · exact hall e he
    · rw [List.mem_singleton.mp he]
      exact .inl rfl
  · split at hr
    next hacc =>
      cases hr
      intro e he
      rcases List.mem_append.mp he with he | he
      · exact hall e he
      · rw [List.mem_singleton.mp he]
        exact .inr ⟨rfl, hacc.2⟩
    · cases hr
      exact hall

theorem AllFitting.finishAndRemove (h : s.AllFitting cfg) (hj : s.FinishSpared cfg key)
    (hr : s.finishAndRemove cfg key = .ok (s', out)) :
    s'.AllFitting cfg ∧ (∀ e ∈ out, cfg.Bounded e) ∧
      ∀ k, s.FinishSpared cfg k → s'.FinishSpared cfg k := by
  unfold FileSplitterState.finishAndRemove at hr
  split at hr
  · cases hr
    exact ⟨h, nofun, fun _ hk => hk⟩
  next state hget =>
    obtain ⟨r, hrun, hr⟩ := Except.ok_of_bind hr
    cases hr
    obtain ⟨hf, hft⟩ := h key state hget
    refine ⟨h.filter (p := fun k => decide (k ≠ key)) rfl,
      runFinish_bounded hf hft (fun splitter lines => hj state splitter lines hget) hrun,
      fun k hk st splitter lines hst => ?_⟩
    rw [Dict.get?_erase] at hst
    split at hst
    · cases hst
    · exact hk st splitter lines hst

theorem AllFitting.finishAll {keys : List FileKey} (h : s.AllFitting cfg)
    (hj : ∀ key ∈ keys, s.FinishSpared cfg key) (hr : s.finishAll cfg keys = .ok (s', out)) :
    s'.AllFitting cfg ∧ ∀ e ∈ out, cfg.Bounded e := by
  induction keys generalizing s out with
  | nil =>
    cases hr
    exact ⟨h, nofun⟩
  | cons key keys ih =>
    obtain ⟨⟨s₁, out₁⟩, h₁, hr⟩ := Except.ok_of_bind hr
    obtain ⟨⟨s₂, out₂⟩, h₂, hr⟩ := Except.ok_of_bind hr
    cases hr
    obtain ⟨hfit, hout₁, hkeep⟩ := h.finishAndRemove (hj key List.mem_cons_self) h₁
    obtain ⟨hfit', hout₂⟩ := ih hfit (fun k hk => hkeep k (hj k (List.mem_cons_of_mem _ hk))) h₂
    exact ⟨hfit', fun e he => (List.mem_append.mp he).elim (hout₁ e) (hout₂ e)⟩

/-- A change without a misjudged line emits batches that are bounded. -/
theorem AllFitting.run (h : s.AllFitting cfg) {change : FileSplitterChange}
    (hj : s.Spared cfg change)
    (hr : s.run cfg change = .ok (s', out)) : s'.AllFitting cfg ∧ ∀ e ∈ out, cfg.Bounded e := by
  cases change with
  | chunk clientId relPath fileType offset payloadB64 =>
    obtain ⟨r, hrun, hr⟩ := Except.ok_of_bind hr
    cases hr
    obtain ⟨state, hstate, hrun⟩ := Except.ok_of_bind hrun
    obtain ⟨⟨splitter, lines⟩, hpush, hrun⟩ := Except.ok_of_bind hrun
    obtain ⟨r₁, hlines, hrun⟩ := Except.ok_of_bind hrun
    cases hrun
    have hfit : cfg.Fitting ⟨clientId, relPath⟩
        { state with fileType := some (state.fileType.getD fileType), splitter } := by
      unfold stateFor at hstate
      split at hstate
      next st hget =>
        cases hstate
        obtain ⟨hf, hft⟩ := h _ _ hget
        obtain ⟨ft, hft⟩ := Option.ne_none_iff_exists'.mp hft
        have hsame : some (state.fileType.getD fileType) = state.fileType := by rw [hft]; rfl
        rw [hsame]
        exact ⟨⟨hf.counted, hf.started⟩, hf.fits⟩
      next =>
        obtain ⟨fresh, -, hstate⟩ := Except.ok_of_bind hstate
        cases hstate
        exact fitting_empty rfl rfl
    obtain ⟨hf, hft, new, hout, hnew⟩ :=
      Fitting.foldlM_runLine
        (r := ⟨{ state with fileType := some (state.fileType.getD fileType), splitter },
        s.accountsBatchesByClient, []⟩) hfit nofun (hj state splitter lines hstate hpush) hlines
    have hstored : cfg.Fitting ⟨clientId, relPath⟩
        { r₁.state with
          bytesReceived := r₁.state.bytesReceived + ((Base64.decode payloadB64).getD []).length
          chunksReceived := r₁.state.chunksReceived + 1 } := ⟨⟨hf.counted, hf.started⟩, hf.fits⟩
    refine ⟨h.set hstored (by rw [hft]; nofun) rfl, ?_⟩
    rw [hout]
    exact hnew
  | fileEof clientId relPath =>
    obtain ⟨⟨s₁, out₁⟩, h₁, hr⟩ := Except.ok_of_bind hr
    cases hr
    obtain ⟨hfit, hout, -⟩ := h.finishAndRemove hj h₁
    exact ⟨hfit, hout⟩
  | clientEof clientId =>
    obtain ⟨⟨s₁, out₁⟩, h₁, hr⟩ := Except.ok_of_bind hr
    cases hr
    obtain ⟨hfit, hout⟩ := h.finishAll hj h₁
    exact ⟨hfit, hout⟩
  | abort clientId =>
    cases hr
    exact ⟨h.filter (p := fun k => decide (k.clientId ≠ clientId)) rfl, nofun⟩

end FileSplitterState

/-! ## Packets -/

namespace FileSplitterConfig

open FileSplitterState

variable {cfg : FileSplitterConfig} {s : FileSplitterState} {change change' : FileSplitterChange}
  {outputs : List LogicalOutput}

/-- The edge of an emission. -/
def edgeOf : Emission → String
  | .batch edge _ | .eof edge _ => edge

def typeOf : Emission → MessageType
  | .batch .. => .data
  | .eof .. => .eof

/-- The logical output of an emission. -/
def LogicalOf (cfg : FileSplitterConfig) (clientId : Nat) (e : Emission) (output : LogicalOutput) :
    Prop :=
  ∃ payload, cfg.state.payload e = .ok payload ∧ output.destination = edgeOf e ∧
    createPacket (typeOf e).toNat clientId payload = .ok output.body

/-- What a change makes the splitter send: an `ABORT` on every edge, or what its run emits. -/
theorem businessFn_cases (h : cfg.businessFn change s = .ok (change', outputs)) :
    (∀ output ∈ outputs, output.destination ∈ cfg.publishers ∧
      ∃ clientId, createPacket MessageType.abort.toNat clientId [] = .ok output.body) ∨
    ∃ s' out, s.run cfg.state change = .ok (s', out) ∧
      ∀ output ∈ outputs, ∃ e ∈ out, cfg.LogicalOf (clientOf change) e output := by
  have hsimulated : (do
      let emitted ← s.simulate cfg.state change
      let logical ← emitted.mapM fun output : EmittedOutput => do
        let body ← createPacket output.msgType.toNat (clientOf change) output.payload
        return (⟨output.edge, body, none⟩ : LogicalOutput)
      return (change, logical)) = .ok (change', outputs) →
      ∃ s' out, s.run cfg.state change = .ok (s', out) ∧
        ∀ output ∈ outputs, ∃ e ∈ out, cfg.LogicalOf (clientOf change) e output := by
    intro h
    obtain ⟨emitted, hsim, h⟩ := Except.ok_of_bind h
    obtain ⟨logical, hlog, h⟩ := Except.ok_of_bind h
    cases h
    obtain ⟨s', out, hrun, hout⟩ := simulate_eq_ok_iff.mp hsim
    refine ⟨s', out, hrun, fun output ho => ?_⟩
    obtain ⟨em, hem, hpacket⟩ := (Except.forall₂_of_mapM hlog).exists_left ho
    obtain ⟨e, he, hemit⟩ := (Except.forall₂_of_mapM hout).exists_left hem
    obtain ⟨body, hbody, hpacket⟩ := Except.ok_of_bind hpacket
    obtain ⟨payload, hpayload, hemit⟩ := Except.ok_of_bind hemit
    cases hpacket
    refine ⟨e, he, payload, hpayload, ?_⟩
    cases e <;> cases hemit <;> exact ⟨rfl, hbody⟩
  unfold businessFn at h
  split at h
  · obtain ⟨body, hbody, h⟩ := Except.ok_of_bind h
    cases h
    refine .inl fun output ho => ?_
    obtain ⟨edge, hedge, ho⟩ := List.mem_flatMap.mp ho
    obtain ⟨shard, -, rfl⟩ := List.mem_map.mp ho
    exact ⟨hedge, _, hbody⟩
  · exact .inr (hsimulated h)

theorem mem_publishers {edge : String}
    (h : edge = lineBatchEdge ∨ edge = accountsEdge ∧ cfg.state.accountsEnabled = true) :
    edge ∈ cfg.publishers := by
  rcases h with rfl | ⟨rfl, hen⟩
  · exact List.mem_cons_self
  · have hen : cfg.accountsEnabled = true := hen
    rw [publishers, if_pos hen]
    exact List.mem_cons_of_mem _ (List.mem_singleton_self _)

theorem outputEdges_publishers {edge : String} (h : edge ∈ cfg.publishers) :
    ∃ spec, cfg.outputEdges.get? edge = some spec := by
  unfold publishers at h
  unfold outputEdges
  cases hen : cfg.accountsEnabled with
  | false =>
    obtain rfl : edge = lineBatchEdge := by simpa [hen] using h
    exact ⟨_, Dict.get?_set_self _ _ _⟩
  | true =>
    rw [if_pos rfl, Dict.get?_set]
    split
    · exact ⟨_, rfl⟩
    next hne =>
      have hedge : edge = lineBatchEdge ∨ edge = accountsEdge := by simpa [hen] using h
      rw [hedge.resolve_right fun he => hne he.symm]
      exact ⟨_, Dict.get?_set_self _ _ _⟩

/-- Every line batch with more than one line is sent as a packet that fits. -/
def PacketsBounded (cfg : FileSplitterConfig) (s : FileSplitterState)
    (change : FileSplitterChange) : Prop :=
  ∀ (change' : FileSplitterChange) (outputs : List LogicalOutput) (sequencer : SenderSequencer)
    (inputId : String) (entries : List OutboxEntry),
    cfg.businessFn change s = .ok (change', outputs) →
    sequencer.stamp cfg.sequencer (clientOf change) inputId outputs = .ok entries →
    ∀ entry ∈ entries, ∀ packet batch, unpackAddressedPacket entry.body = .ok packet →
      packet.msgType = MessageType.data.toNat →
      LineBatchSerializer.deserialize packet.payload = .ok batch → 1 < batch.lines.length →
      entry.body.length ≤ cfg.maxBatchBytes

/-- `apply_change` on a change that does not raise. -/
def accept (cfg : FileSplitterConfig) (s : FileSplitterState) (change : FileSplitterChange) :
    Option FileSplitterState :=
  match s.run cfg.state change with
  | .ok (s', _) => some s'
  | .error _ => none

/-- The packet that is made of an output on an edge of the splitter. -/
theorem packet_of_stamped {clientId sent : Nat} {type : MessageType} {payload : Bytes}
    {output : LogicalOutput} {entry : OutboxEntry} (hedge : output.destination ∈ cfg.publishers)
    (hbody : createPacket type.toNat sent payload = .ok output.body)
    (hent : SenderSequencer.StampedAs cfg.sequencer clientId output entry) :
    ∃ packet, unpackAddressedPacket entry.body = .ok packet ∧ packet.msgType = type.toNat ∧
      packet.payload = payload ∧ entry.body.length = addressedHeaderSize + payload.length := by
  obtain ⟨spec, hspec⟩ := outputEdges_publishers hedge
  obtain ⟨msgType, c, payload', seq, hu, hc, -⟩ := hent.addressed spec hspec
  rw [unpackPacket_createPacket hbody] at hu
  cases hu
  exact ⟨_, unpackAddressedPacket_create hc, rfl, rfl, length_createAddressedPacket hc⟩

theorem packetsBounded_of_spared (h : s.AllFitting cfg.state) (hj : s.Spared cfg.state change) :
    cfg.PacketsBounded s change := by
  intro change' outputs sequencer inputId entries hb hs entry he packet batch hu ht hd hlines
  obtain ⟨output, ho, hent⟩ := (SenderSequencer.forall₂_of_stamp hs).exists_left he
  rcases businessFn_cases hb with habort | ⟨s', out, hrun, hall⟩
  · obtain ⟨hedge, clientId, hbody⟩ := habort output ho
    obtain ⟨packet', hu', ht', -⟩ := packet_of_stamped hedge hbody hent
    obtain rfl := Except.ok.inj (hu.symm.trans hu')
    exact absurd (ht.symm.trans ht') (by decide)
  · obtain ⟨e, hmem, payload, hpayload, hdest, hbody⟩ := hall output ho
    have hbounded := (h.run hj hrun).2 e hmem
    have hedge : output.destination ∈ cfg.publishers := by
      rw [hdest]
      cases e with
      | batch edge sent => exact mem_publishers hbounded.1
      | eof edge expectedTotal => exact mem_publishers hbounded
    obtain ⟨packet', hu', ht', hp', hlen⟩ := packet_of_stamped hedge hbody hent
    obtain rfl := Except.ok.inj (hu.symm.trans hu')
    cases e with
    | eof edge expectedTotal =>
      have hne : MessageType.data.toNat ≠ MessageType.eof.toNat := by decide
      exact absurd (ht.symm.trans ht') hne
    | batch edge sent =>
      have hsent : LineBatchSerializer.deserialize payload = .ok sent :=
        LineBatchSerializer.deserialize_serialize hpayload
      rw [hp'] at hd
      obtain rfl := Except.ok.inj (hd.symm.trans hsent)
      obtain ⟨-, rfl⟩ := LineBatchSerializer.serialize_eq_ok_iff.mp hpayload
      rw [hlen]
      exact hbounded.2 hlines

/-- **The size of a batch.** In every run of the state in which no line is misjudged, a batch with
more than one line is sent as a packet of at most `max_batch_bytes` bytes. A transactions file is
sent in such batches exactly when none of its lines is misjudged, however it is cut. -/
theorem batch_packets (cfg : FileSplitterConfig) :
    (∀ s change, Transition.Reachable cfg.accept (fun s change => s.Spared cfg.state change) {} s →
      s.Spared cfg.state change → cfg.PacketsBounded s change) ∧
    ∀ (s : FileSplitterState) key chunks content r, s.files.get? key = none → 0 < cfg.maxLineBytes →
      content ≠ [] → chunks.flatten = content → LineSplitter.LinesFit cfg.maxLineBytes content →
      cfg.state.lineRun key fileTypeTransactions s.accountsBatchesByClient
        (LineSplitter.linesOf content) = .ok r →
      ∃ s' out, s.runAll cfg.state (fileChanges key fileTypeTransactions 0 chunks) = .ok (s', out) ∧
        ((∀ edge batch, .batch edge batch ∈ out → 1 < batch.lines.length →
            batch.packetBytes ≤ cfg.maxBatchBytes) ↔
          cfg.state.NoneMisjudged key
            { splitter := .after cfg.maxLineBytes [], fileType := some fileTypeTransactions }
            (LineSplitter.linesOf content)) := by
  refine ⟨fun s change hr hj => ?_, fun s key chunks content r hkey hmax hne hcut hfit hr => ?_⟩
  · have hinv : s.AllFitting cfg.state := by
      refine hr.invariant (fun key state hk => by cases hk) fun s change s' h hj he => ?_
      unfold accept at he
      split at he
      next hrun =>
        cases he
        exact (h.run hj hrun).1
      · cases he
    exact packetsBounded_of_spared hinv hj
  · obtain ⟨s', hrun⟩ := runAll_fileChanges hkey hmax hne hcut hfit hr
    refine ⟨s', _, hrun, ?_⟩
    have hiff := FileSplitterStateConfig.Fitting.not_oversized_iff
      (r := ⟨{ splitter := .after cfg.maxLineBytes [], fileType := some fileTypeTransactions },
        s.accountsBatchesByClient, []⟩)
          (FileSplitterStateConfig.fitting_empty rfl rfl) nofun nofun hr
    rw [← hiff]
    constructor
    · rintro hall ⟨edge, batch, hm, hlines, hlt⟩
      exact absurd hlt (not_lt_of_ge (hall edge batch (List.mem_append_left _ hm) hlines))
    · intro hno edge batch hm hlines
      by_contra hlt
      have hm : .batch edge batch ∈ (FileSplitterStateConfig.runFlush key r).out := by
        rcases List.mem_append.mp hm with hm | hm
        · exact hm
        · cases List.mem_singleton.mp hm
      exact hno ⟨edge, batch, hm, hlines, not_le.mp hlt⟩

/-- A splitter with a shard of transactions, for packets of at most `maxBatchBytes` bytes. -/
def narrow (maxBatchBytes : Nat) : FileSplitterConfig where
  id := 5
  outputShardCount := 1
  maxLineBytes := 64
  maxBatchBytes
  json := .ofTable []
  sha256 := fun _ => []

/-- The packets that a change makes the splitter send, and whether one of them is a line batch with
more than one line that is larger than it may be. -/
def sendsOversized (cfg : FileSplitterConfig) (s : FileSplitterState)
    (change : FileSplitterChange) : Bool :=
  match cfg.businessFn change s with
  | .error _ => false
  | .ok (_, outputs) =>
    match SenderSequencer.stamp cfg.sequencer {} (clientOf change) "d" outputs with
    | .error _ => false
    | .ok entries => entries.any fun entry =>
      match unpackAddressedPacket entry.body with
      | .error _ => false
      | .ok packet =>
        match LineBatchSerializer.deserialize packet.payload with
        | .error _ => false
        | .ok batch => decide (packet.msgType = MessageType.data.toNat ∧ 1 < batch.lines.length ∧
            cfg.maxBatchBytes < entry.body.length)

theorem not_packetsBounded (h : cfg.sendsOversized s change = true) :
    ¬ cfg.PacketsBounded s change := by
  intro hall
  unfold sendsOversized at h
  split at h
  · cases h
  next change' outputs hb =>
    split at h
    · cases h
    next entries hs =>
      obtain ⟨entry, he, h⟩ := List.any_eq_true.mp h
      split at h
      · cases h
      next packet hu =>
        split at h
        · cases h
        next batch hd =>
          obtain ⟨ht, hlines, hlt⟩ := of_decide_eq_true h
          exact absurd hlt
            (not_lt_of_ge (hall _ outputs {} "d" entries hb hs entry he packet batch hu ht hd
            hlines))

/-- A header, two short lines and a longer one. -/
def shortLines : Bytes := [97, 10, 49, 10, 50, 10] ++ List.replicate 9 51 ++ [10]

/-- The first two lines fit into `70` bytes with all that is counted and all that is not. -/
theorem batch_packets_short_lines :
    (narrow 70).PacketsBounded {} (.ofChunk 1 "t" fileTypeTransactions 0 shortLines) := by
  refine (batch_packets (narrow 70)).1 {} _ .init fun state splitter lines hstate hpush => ?_
  cases hstate
  rw [Base64.decode_encode] at hpush
  have hlines : LineSplitter.push { maxLineBytes := 64 } 0 shortLines =
      .ok (⟨64, 16, []⟩, [[97], [49], [50], List.replicate 9 51]) := by
    decide +kernel
  cases hpush.symm.trans hlines
  decide +kernel

/-- With `66` bytes the second line is misjudged: `_packet_size` counts `62` bytes, and the packet
has `70`. -/
theorem batch_packets_uncounted :
    ¬ ∀ (cfg : FileSplitterConfig) s change,
      Transition.Reachable cfg.accept (fun _ _ => True) {} s → cfg.PacketsBounded s change := by
  intro h
  have hsends : (narrow 66).sendsOversized {}
      (.ofChunk 1 "t" fileTypeTransactions 0 shortLines) = true := by
    decide +kernel
  exact not_packetsBounded hsends (h _ _ _ .init)

end FileSplitterConfig

end MoneyLaundering
