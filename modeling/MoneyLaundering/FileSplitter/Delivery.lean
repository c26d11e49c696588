import MoneyLaundering.FileSplitter.Chunking
import MoneyLaundering.FileSplitter.Worker

/-!
# Chunks, their coordinates and their records

The splitter numbers the chunks of a file by what it has received when they come. In every run the
number it gives a chunk is the position of the chunk in the file (`FileOk.dispatch`), so a chunk is
always handled under the same coordinates and the inbox applies it once. What is not safe is the
third branch of the dispatch: it acks without asking the inbox.
-/

namespace MoneyLaundering

open Bytes Runner

/-! ## What a change does to the offsets -/

namespace FileSplitterState

open FileSplitterStateConfig

variable {cfg : FileSplitterStateConfig} {s : FileSplitterState} {key key' : FileKey}

theorem expectedOffset_of_get? {state : FileState} (h : s.files.get? key = some state) :
    s.expectedOffset key = state.splitter.expectedOffset := by rw [expectedOffset, h]

theorem nextOrdinal_of_get? {state : FileState} (h : s.files.get? key = some state) :
    s.nextOrdinal key = state.chunksReceived := by rw [nextOrdinal, h]

theorem expectedOffset_of_none (h : s.files.get? key = none) : s.expectedOffset key = 0 := by
  rw [expectedOffset, h]

theorem nextOrdinal_of_none (h : s.files.get? key = none) : s.nextOrdinal key = 0 := by
  rw [nextOrdinal, h]

/-- The state of a file that a chunk starts from. -/
theorem stateFor_eq_ok {state : FileState} (h : s.stateFor cfg key = .ok state) :
    state.splitter.expectedOffset = s.expectedOffset key ∧
    state.chunksReceived = s.nextOrdinal key := by
  unfold stateFor at h
  unfold expectedOffset nextOrdinal
  split at h
  next =>
    cases h
    exact ⟨rfl, rfl⟩
  next =>
    obtain ⟨splitter, hc, h⟩ := Except.ok_of_bind h
    obtain ⟨-, hc⟩ := Except.ok_of_raiseIf hc
    cases hc
    cases h
    exact ⟨rfl, rfl⟩

/-- A chunk that is accepted moves the offset and the ordinal of its file. -/
theorem files_applyChange_chunk {clientId fileType offset : Nat} {relPath : String}
    {payload : Bytes} {outputs : List EmittedOutput}
    (h : s.simulate cfg (.ofChunk clientId relPath fileType offset payload) = .ok outputs) :
    ∃ state, (s.applyChange cfg (.ofChunk clientId relPath fileType offset payload)).files =
        s.files.set ⟨clientId, relPath⟩ state ∧
      state.splitter.expectedOffset = s.expectedOffset ⟨clientId, relPath⟩ + payload.length ∧
      state.chunksReceived = s.nextOrdinal ⟨clientId, relPath⟩ + 1 := by
  obtain ⟨s', out, hrun, -⟩ := simulate_eq_ok_iff.mp h
  rw [applyChange_of_run hrun]
  obtain ⟨r, hr, hrun⟩ := Except.ok_of_bind hrun
  cases hrun
  refine ⟨r.state, rfl, ?_⟩
  obtain ⟨state, hstate, hr⟩ := Except.ok_of_bind hr
  obtain ⟨hoffset, hordinal⟩ := stateFor_eq_ok hstate
  rw [runChunk, Base64.decode_encode] at hr
  dsimp only [Option.getD_some] at hr
  obtain ⟨⟨splitter, lines⟩, hpush, hr⟩ := Except.ok_of_bind hr
  obtain ⟨r', hlines, hr⟩ := Except.ok_of_bind hr
  cases hr
  have hkeep := foldlM_runLine_rebase_self hlines
  obtain ⟨-, hpush⟩ := Except.ok_of_raiseIf hpush
  obtain ⟨-, -, hpush⟩ := Except.ok_of_bind hpush
  cases hpush
  constructor
  · rw [← hoffset, ← hkeep]
    rfl
  · rw [← hordinal, ← hkeep]
    rfl

theorem files_applyChange_fileEof {clientId : Nat} {relPath : String} {outputs : List EmittedOutput}
    (h : s.simulate cfg (.fileEof clientId relPath) = .ok outputs) :
    (s.applyChange cfg (.fileEof clientId relPath)).files = s.files.erase ⟨clientId, relPath⟩ := by
  obtain ⟨s', out, hrun, -⟩ := simulate_eq_ok_iff.mp h
  rw [applyChange_of_run hrun]
  obtain ⟨⟨s₁, out₁⟩, hfinish, hrun⟩ := Except.ok_of_bind hrun
  cases hrun
  change s₁.files = _
  unfold finishAndRemove at hfinish
  split at hfinish
  next hnone =>
    cases hfinish
    exact (Dict.erase_of_get?_none hnone).symm
  next state hstate =>
    obtain ⟨r, -, hfinish⟩ := Except.ok_of_bind hfinish
    cases hfinish
    rfl

/-- The offset and the ordinal of a file depend on its own state only. -/
theorem expectedOffset_congr {s' : FileSplitterState} (h : s'.files.get? key = s.files.get? key) :
    s'.expectedOffset key = s.expectedOffset key ∧ s'.nextOrdinal key = s.nextOrdinal key := by
  rw [expectedOffset, expectedOffset, nextOrdinal, nextOrdinal, h]
  exact ⟨rfl, rfl⟩

end FileSplitterState

/-! ## Coordinates -/

namespace SplitFile

variable {f g : SplitFile} {i j : Nat}

theorem key_of_lt (h : i < f.chunks.length) : f.key i = ⟨f.clientId, .data, f.senderId, i⟩ :=
  if_pos h

theorem key_eof : f.key f.chunks.length = ⟨f.clientId, .ctrlUpstreamEof, f.senderId, 0⟩ :=
  if_neg (Nat.lt_irrefl _)

theorem clientId_key : (f.key i).clientId = f.clientId := by
  unfold key
  split <;> rfl

theorem senderId_key : (f.key i).senderId = f.senderId := by
  unfold key
  split <;> rfl

theorem chunk_of_lt (h : i < f.chunks.length) :
    ∃ payload, f.chunks[i]? = some payload ∧ f.offset (i + 1) = f.offset i + payload.length :=
  ⟨f.chunks[i], List.getElem?_eq_getElem h, f.offset_succ (List.getElem?_eq_getElem h)⟩

theorem offset_inj (hi : i ≤ f.chunks.length) (hj : j ≤ f.chunks.length)
    (h : f.offset i = f.offset j) : i = j := by
  rcases Nat.lt_trichotomy i j with hlt | he | hlt
  · exact absurd h (Nat.ne_of_lt (f.offset_lt hlt hj))
  · exact he
  · exact absurd h (Nat.ne_of_gt (f.offset_lt hlt hi))

theorem message_of_lt {payload : Bytes} (h : f.chunks[i]? = some payload) :
    f.message i = .chunk f.clientId f.relPath f.fileType (f.offset i) payload := by rw [message, h]

theorem change_of_lt {payload : Bytes} (h : f.chunks[i]? = some payload) :
    f.change i = .ofChunk f.clientId f.relPath f.fileType (f.offset i) payload := by rw [change, h]

theorem message_eof : f.message f.chunks.length = .fileEof f.clientId f.relPath := by
  rw [message, List.getElem?_eq_none (Nat.le_refl _)]

theorem change_eof : f.change f.chunks.length = .fileEof f.clientId f.relPath := by
  rw [change, List.getElem?_eq_none (Nat.le_refl _)]

end SplitFile

namespace Workload

variable {w : Workload} {f g : SplitFile} {i j : Nat}

/-- A file of a client is known by its sender id. -/
theorem eq_of_senderId (hf : f ∈ w.files) (hg : g ∈ w.files) (hc : f.clientId = g.clientId)
    (hs : f.senderId = g.senderId) : f = g := w.paths f hf g hg hc (w.senders f hf g hg hs)

theorem offsetOf_key (hf : f ∈ w.files) (hi : i < f.chunks.length) :
    w.offsetOf (f.key i) = f.offset i := by
  rw [SplitFile.key_of_lt hi, offsetOf]
  dsimp only
  cases hfind : w.files.find? fun g => g.clientId = f.clientId ∧ g.senderId = f.senderId with
  | none =>
    have := List.find?_eq_none.mp hfind f hf
    simp at this
  | some g =>
    have hp := List.find?_some hfind
    simp only [decide_eq_true_eq] at hp
    obtain rfl := eq_of_senderId (List.mem_of_find?_eq_some hfind) hf hp.1 hp.2
    dsimp only
    omega

/-- The message ids of the chunks are those that the dispatch gives them. -/
theorem msgId_key (hf : f ∈ w.files) (hi : i < f.chunks.length) :
    w.msgId (f.key i) = chunkMsgId f.senderId (f.offset i) := by
  have hoffset := offsetOf_key hf hi
  rw [SplitFile.key_of_lt hi] at hoffset ⊢
  rw [msgId, msgIdParts, hoffset]
  rfl

theorem msgId_eof (f : SplitFile) :
    w.msgId (f.key f.chunks.length) = fileEofMsgId f.senderId := by
  rw [SplitFile.key_eof]
  rfl

/-- A message is known by its coordinates. -/
theorem key_inj (hf : f ∈ w.files) (hg : g ∈ w.files) (hi : i ≤ f.chunks.length)
    (hj : j ≤ g.chunks.length) (h : f.key i = g.key j) : f = g ∧ i = j := by
  have hc : f.clientId = g.clientId := by rw [← f.clientId_key (i := i), h, g.clientId_key]
  have hs : f.senderId = g.senderId := by rw [← f.senderId_key (i := i), h, g.senderId_key]
  obtain rfl := eq_of_senderId hf hg hc hs
  refine ⟨rfl, ?_⟩
  unfold SplitFile.key at h
  split at h <;> split at h
  · exact congrArg InputKey.seq h
  · cases h
  · cases h
  · omega

theorem change_inj (hf : f ∈ w.files) (hg : g ∈ w.files) (hi : i ≤ f.chunks.length)
    (hj : j ≤ g.chunks.length) (h : f.change i = g.change j) : f = g ∧ i = j := by
  rcases Nat.lt_or_eq_of_le hi with hi | rfl <;> rcases Nat.lt_or_eq_of_le hj with hj | rfl
  · obtain ⟨p, hp, -⟩ := SplitFile.chunk_of_lt hi
    obtain ⟨q, hq, -⟩ := SplitFile.chunk_of_lt hj
    rw [SplitFile.change_of_lt hp, SplitFile.change_of_lt hq] at h
    injection h with hc hpath _ hoffset
    obtain rfl := w.paths f hf g hg hc hpath
    exact ⟨rfl, SplitFile.offset_inj hi.le hj.le hoffset⟩
  · obtain ⟨p, hp, -⟩ := SplitFile.chunk_of_lt hi
    rw [SplitFile.change_of_lt hp, SplitFile.change_eof] at h
    cases h
  · obtain ⟨q, hq, -⟩ := SplitFile.chunk_of_lt hj
    rw [SplitFile.change_eof, SplitFile.change_of_lt hq] at h
    cases h
  · rw [SplitFile.change_eof, SplitFile.change_eof] at h
    injection h with hc hpath
    obtain rfl := w.paths f hf g hg hc hpath
    exact ⟨rfl, rfl⟩

end Workload

/-! ## Where a file stands -/

namespace FileSplitter

/-- The input was applied. -/
def Applied (history : List (WalRecord FileSplitterChange)) (key : InputKey) : Prop :=
  ∃ m change outputs, .inputApplied m key change outputs ∈ history

/-- The first `n` chunks of a file were applied. The state of the file has received them, or its end
has removed it. -/
structure FileOk (history : List (WalRecord FileSplitterChange)) (s : FileSplitterState)
    (f : SplitFile) (n : Nat) : Prop where
  le : n ≤ f.chunks.length
  applied : ∀ i < f.chunks.length, Applied history (f.key i) ↔ i < n
  aligned : s.expectedOffset f.fileKey = f.offset (s.nextOrdinal f.fileKey)
  ordinal : s.nextOrdinal f.fileKey = n ∨
    s.nextOrdinal f.fileKey = 0 ∧ Applied history (f.key f.chunks.length)

variable {cfg : FileSplitterConfig} {w : Workload} {f g : SplitFile} {i n : Nat}
  {history : List (WalRecord FileSplitterChange)} {s : FileSplitterState} {m : String}
  {change : FileSplitterChange} {outputs : List OutboxEntry} {key : InputKey}

theorem applied_snoc {key' : InputKey} :
    Applied (history ++ [.inputApplied m key change outputs]) key' ↔ Applied history key' ∨
    key' = key := by
  constructor
  · rintro ⟨m', change', outputs', hm⟩
    rcases List.mem_append.mp hm with hm | hm
    · exact .inl ⟨m', change', outputs', hm⟩
    · cases List.mem_singleton.mp hm
      exact .inr rfl
  · rintro (⟨m', change', outputs', hm⟩ | rfl)
    · exact ⟨m', change', outputs', List.mem_append_left _ hm⟩
    · exact ⟨m, change, outputs, by simp⟩

theorem applied_snoc_done {key' : InputKey} :
    Applied (history ++ [.inputDone m key]) key' ↔ Applied history key' := by
  constructor
  · rintro ⟨m', change', outputs', hm⟩
    rcases List.mem_append.mp hm with hm | hm
    · exact ⟨m', change', outputs', hm⟩
    · cases List.mem_singleton.mp hm
  · rintro ⟨m', change', outputs', hm⟩
    exact ⟨m', change', outputs', List.mem_append_left _ hm⟩

theorem FileOk.ordinal_le (h : FileOk history s f n) :
    s.nextOrdinal f.fileKey ≤ f.chunks.length := by
  rcases h.ordinal with ho | ⟨ho, -⟩
  · rw [ho]
    exact h.le
  · rw [ho]
    exact Nat.zero_le _

/-- The dispatch of a chunk: the next chunk and the last one are handled, under the coordinates that
their place in the file gives them; any other chunk is acked. -/
theorem FileOk.dispatch (h : FileOk history s f n) (hf : f ∈ w.files) (hi : i < f.chunks.length) :
    s.dispatch (f.message i) =
      if i = s.nextOrdinal f.fileKey ∨ i + 1 = s.nextOrdinal f.fileKey then
        .run (w.msgId (f.key i)) (f.key i) (f.change i)
      else .ackNow := by
  obtain ⟨payload, hp, hnext⟩ := SplitFile.chunk_of_lt hi
  have hle := h.ordinal_le
  have haligned := h.aligned
  have hlast := f.offset_lt (Nat.lt_succ_self i) hi
  rw [SplitFile.message_of_lt hp, FileSplitterState.dispatch, Workload.msgId_key hf hi,
    SplitFile.change_of_lt hp, SplitFile.key_of_lt hi]
  change (if f.offset i = s.expectedOffset f.fileKey then _ else
    if f.offset i + payload.length = s.expectedOffset f.fileKey then _ else _) = _
  rw [haligned, ← hnext]
  by_cases h₁ : i = s.nextOrdinal f.fileKey
  · rw [← h₁, if_pos rfl, if_pos (.inl rfl)]
    change Dispatch.run _ ⟨_, _, _, s.nextOrdinal f.fileKey⟩ _ = _
    rw [← h₁]
    rfl
  · rw [if_neg fun he => h₁ (SplitFile.offset_inj hi.le hle he)]
    by_cases h₂ : i + 1 = s.nextOrdinal f.fileKey
    · rw [← h₂, if_pos rfl, if_pos (.inr rfl)]
      change Dispatch.run _ ⟨_, _, _, s.nextOrdinal f.fileKey - 1⟩ _ = _
      rw [← h₂]
      rfl
    · rw [if_neg fun he => h₂ (SplitFile.offset_inj hi hle he), if_neg fun ho => ho.elim h₁ h₂]

theorem dispatch_eof (s : FileSplitterState) (f : SplitFile) :
    s.dispatch (f.message f.chunks.length) =
      .run (w.msgId (f.key f.chunks.length)) (f.key f.chunks.length)
        (f.change f.chunks.length) := by
  rw [SplitFile.message_eof, SplitFile.change_eof, Workload.msgId_eof, SplitFile.key_eof]
  rfl

/-- What is handled has the coordinates of the message. -/
theorem FileOk.dispatch_run (h : FileOk history s f n) (hf : f ∈ w.files) (hi : i ≤ f.chunks.length)
    (hd : s.dispatch (f.message i) = .run m key change) :
    m = w.msgId (f.key i) ∧ key = f.key i ∧ change = f.change i := by
  rcases Nat.lt_or_eq_of_le hi with hi | rfl
  · rw [h.dispatch hf hi] at hd
    split at hd
    · cases hd
      exact ⟨rfl, rfl, rfl⟩
    · cases hd
  · rw [dispatch_eof (w := w)] at hd
    cases hd
    exact ⟨rfl, rfl, rfl⟩

/-- A chunk that is handled and was not applied before is the next one. -/
theorem FileOk.eq_of_not_applied (h : FileOk history s f n) (hf : f ∈ w.files)
    (hi : i < f.chunks.length)
    (hd : s.dispatch (f.message i) ≠ .ackNow) (hnew : ¬ Applied history (f.key i)) :
    i = n ∧ s.nextOrdinal f.fileKey = n := by
  have hge := mt (h.applied i hi).mpr hnew
  rw [h.dispatch hf hi] at hd
  split at hd
  next ho =>
    rcases h.ordinal with hn | ⟨hn, -⟩ <;> omega
  next => exact absurd rfl hd

/-! ### A new record -/

theorem FileOk.chunk (h : FileOk history s f n) (hf : f ∈ w.files) (hi : i < f.chunks.length)
    (hd : s.dispatch (f.message i) ≠ .ackNow) (hnew : ¬ Applied history (f.key i))
    {emitted : List EmittedOutput} (hsim : s.simulate cfg.state (f.change i) = .ok emitted) :
    FileOk (history ++ [.inputApplied m (f.key i) (f.change i) outputs])
      (s.applyChange cfg.state (f.change i)) f (n + 1) := by
  obtain ⟨rfl, hordinal⟩ := h.eq_of_not_applied hf hi hd hnew
  obtain ⟨payload, hp, hnext⟩ := SplitFile.chunk_of_lt hi
  rw [SplitFile.change_of_lt hp] at hsim ⊢
  obtain ⟨state, hfiles, hoffset, hcount⟩ := FileSplitterState.files_applyChange_chunk hsim
  have hget : (s.applyChange cfg.state (.ofChunk f.clientId f.relPath f.fileType (f.offset i)
      payload)).files.get? f.fileKey = some state :=
    (congrArg (fun files => files.get? f.fileKey) hfiles).trans (Dict.get?_set_self _ _ _)
  have hord := FileSplitterState.nextOrdinal_of_get? hget
  have hexp := FileSplitterState.expectedOffset_of_get? hget
  change state.chunksReceived = s.nextOrdinal f.fileKey + 1 at hcount
  change state.splitter.expectedOffset = s.expectedOffset f.fileKey + payload.length at hoffset
  rw [hcount, hordinal] at hord
  rw [hoffset, h.aligned, hordinal, ← hnext] at hexp
  refine ⟨hi, ?_, by rw [hexp, hord], .inl hord⟩
  intro j hj
  rw [applied_snoc, h.applied j hj]
  constructor
  · rintro (hlt | he)
    · omega
    · have := (Workload.key_inj hf hf hj.le hi.le he).2
      omega
  · intro hlt
    rcases Nat.lt_succ_iff_lt_or_eq.mp hlt with hlt | rfl
    · exact .inl hlt
    · exact .inr rfl

theorem FileOk.eof (h : FileOk history s f n) (hf : f ∈ w.files) {emitted : List EmittedOutput}
    (hsim : s.simulate cfg.state (f.change f.chunks.length) = .ok emitted) :
    FileOk (history ++ [.inputApplied m (f.key f.chunks.length) (f.change f.chunks.length) outputs])
      (s.applyChange cfg.state (f.change f.chunks.length)) f n := by
  rw [SplitFile.change_eof] at hsim ⊢
  have hfiles := FileSplitterState.files_applyChange_fileEof hsim
  have hget : (s.applyChange cfg.state (.fileEof f.clientId f.relPath)).files.get? f.fileKey =
      none :=
    (congrArg (fun files => files.get? f.fileKey) hfiles).trans (Dict.get?_erase_self _ _)
  have hord := FileSplitterState.nextOrdinal_of_none hget
  refine ⟨h.le, ?_, by rw [FileSplitterState.expectedOffset_of_none hget, hord]; rfl,
    .inr ⟨hord, applied_snoc.mpr (.inr rfl)⟩⟩
  intro j hj
  rw [applied_snoc, h.applied j hj, or_iff_left]
  exact fun he => Nat.ne_of_lt hj (Workload.key_inj hf hf hj.le (Nat.le_refl _) he).2

/-- The other files stay where they are. -/
theorem FileOk.other (h : FileOk history s g n) (hf : f ∈ w.files) (hg : g ∈ w.files) (hne : g ≠ f)
    (hi : i ≤ f.chunks.length) {emitted : List EmittedOutput}
    (hsim : s.simulate cfg.state (f.change i) = .ok emitted) :
    FileOk (history ++ [.inputApplied m (f.key i) (f.change i) outputs])
      (s.applyChange cfg.state (f.change i)) g n := by
  have hkey : g.fileKey ≠ f.fileKey := fun he =>
    hne (w.paths g hg f hf (congrArg FileKey.clientId he) (congrArg FileKey.relPath he))
  have hget : (s.applyChange cfg.state (f.change i)).files.get? g.fileKey =
      s.files.get? g.fileKey := by
    rcases Nat.lt_or_eq_of_le hi with hi | rfl
    · obtain ⟨payload, hp, -⟩ := SplitFile.chunk_of_lt hi
      rw [SplitFile.change_of_lt hp] at hsim ⊢
      obtain ⟨state, hfiles, -⟩ := FileSplitterState.files_applyChange_chunk hsim
      rw [hfiles]
      exact Dict.get?_set_of_ne _ _ hkey.symm
    · rw [SplitFile.change_eof] at hsim ⊢
      rw [FileSplitterState.files_applyChange_fileEof hsim]
      exact Dict.get?_erase_of_ne _ hkey
  obtain ⟨hexp, hord⟩ := FileSplitterState.expectedOffset_congr hget
  have happ : ∀ j ≤ g.chunks.length, (Applied (history ++
      [.inputApplied m (f.key i) (f.change i) outputs]) (g.key j) ↔ Applied history (g.key j)) := by
    intro j hj
    rw [applied_snoc, or_iff_left]
    exact fun he => hne (Workload.key_inj hg hf hj hi he).1
  refine ⟨h.le, ?_, by rw [hexp, hord, h.aligned], ?_⟩
  · intro j hj
    rw [happ j hj.le, h.applied j hj]
  · rw [hord, happ _ (Nat.le_refl _)]
    exact h.ordinal

/-- A message that is applied takes its file one step further. -/
theorem FileOk.snoc (h : ∀ g ∈ w.files, ∃ n, FileOk history s g n) (hf : f ∈ w.files)
    (hi : i ≤ f.chunks.length) (hd : s.dispatch (f.message i) ≠ .ackNow)
    (hnew : ¬ Applied history (f.key i)) {emitted : List EmittedOutput}
    (hsim : s.simulate cfg.state (f.change i) = .ok emitted) :
    ∀ g ∈ w.files, ∃ n, FileOk (history ++ [.inputApplied m (f.key i) (f.change i) outputs])
      (s.applyChange cfg.state (f.change i)) g n := by
  intro g hg
  obtain ⟨n, hok⟩ := h g hg
  by_cases hgf : g = f
  · subst hgf
    rcases Nat.lt_or_eq_of_le hi with hi | rfl
    · exact ⟨n + 1, hok.chunk hf hi hd hnew hsim⟩
    · exact ⟨n, hok.eof hf hsim⟩
  · exact ⟨n, hok.other hf hg hgf hi hsim⟩

theorem FileOk.snoc_done (h : FileOk history s f n) :
    FileOk (history ++ [.inputDone m key]) s f n := by
  refine ⟨h.le, fun i hi => ?_, h.aligned, ?_⟩
  · rw [applied_snoc_done, h.applied i hi]
  · rw [applied_snoc_done]
    exact h.ordinal

/-! ## The invariant -/

/-- What node and trace say about each other. -/
structure Core (cfg : FileSplitterConfig) (w : Workload)
    (node : Node FileSplitterState FileSplitterState FileSplitterChange)
    (trace : List (Obs FileSplitterChange)) : Prop where
  inv : node.Inv (cfg.handler w) (.whole (cfg.handler w).worker)
  records : recordsIn trace = node.history
  applied : ∀ m key change outputs, .inputApplied m key change outputs ∈ node.history →
    ∃ f ∈ w.files, ∃ i ≤ f.chunks.length, key = f.key i ∧ change = f.change i
  files : ∀ f ∈ w.files, ∃ n, FileOk node.history node.handler.workerState f n
  done : ∀ m key, .inputDone m key ∈ node.history → FinishedBy w.msgId trace key

variable {node node' : Node FileSplitterState FileSplitterState FileSplitterChange}
  {trace : List (Obs FileSplitterChange)}

theorem Core.applied_of_finished (h : Core cfg w node trace) (hf : FinishedBy w.msgId trace key) :
    Applied node.history key := by
  obtain ⟨before, since, change, outputs, rfl, -⟩ := hf
  refine ⟨w.msgId key, change, outputs, ?_⟩
  rw [← h.records]
  simp [recordsIn]

/-- The finished numbers of the channel of a message that was not applied are smaller than its
own. -/
theorem Core.lt_of_mem_doneSeqs (h : Core cfg w node trace) (hf : f ∈ w.files)
    (hi : i ≤ f.chunks.length) (hnew : ¬ Applied node.history (f.key i)) {q : Nat}
    (hq : q ∈ doneSeqs node.history (f.key i)) : q < (f.key i).seq := by
  simp only [doneSeqs, List.mem_filterMap] at hq
  obtain ⟨record, hm, hq⟩ := hq
  cases record with
  | inputApplied => cases hq
  | inputDone m key =>
    simp only [Option.ite_none_right_eq_some, Option.some.injEq] at hq
    obtain ⟨⟨hc, hchannel⟩, rfl⟩ := hq
    have happ := h.applied_of_finished (h.done m key hm)
    obtain ⟨m', change, outputs, hm'⟩ := happ
    obtain ⟨g, hg, j, hj, rfl, -⟩ := h.applied m' key change outputs hm'
    have hs : g.senderId = f.senderId := by
      have := congrArg Prod.snd hchannel
      rwa [InputKey.channel, InputKey.channel, SplitFile.senderId_key,
        SplitFile.senderId_key] at this
    rw [SplitFile.clientId_key, SplitFile.clientId_key] at hc
    obtain rfl := Workload.eq_of_senderId hg hf hc hs
    obtain ⟨n, hok⟩ := h.files g hg
    have hkind := congrArg Prod.fst hchannel
    rcases Nat.lt_or_eq_of_le hi with hi | rfl <;> rcases Nat.lt_or_eq_of_le hj with hj | rfl
    · rw [SplitFile.key_of_lt hi, SplitFile.key_of_lt hj]
      have := (hok.applied j hj).mp ⟨m', change, outputs, hm'⟩
      have := mt (hok.applied i hi).mpr hnew
      dsimp only
      omega
    · rw [SplitFile.key_of_lt hi, SplitFile.key_eof] at hkind
      cases hkind
    · rw [SplitFile.key_of_lt hj, SplitFile.key_eof] at hkind
      cases hkind
    · exact absurd ⟨m', change, outputs, hm'⟩ hnew

theorem biggest_observeAll_lt {seqs : List Nat} {t : DeduplicationTracker} {q : Nat}
    (ht : t.biggest < q) (h : ∀ p ∈ seqs, p < q) : (t.observeAll seqs).biggest < q := by
  induction seqs generalizing t with
  | nil => exact ht
  | cons p seqs ih =>
    refine ih (t := t.observe p) ?_ fun p hp => h p (List.mem_cons_of_mem _ hp)
    rw [DeduplicationTracker.biggest_observe]
    exact max_lt ht (h p List.mem_cons_self)

/-- A message that was not applied is new to the inbox. -/
theorem Core.classify_new (h : Core cfg w node trace) (hf : f ∈ w.files) (hi : i ≤ f.chunks.length)
    (hnew : ¬ Applied node.history (f.key i)) : node.handler.inbox.classify (f.key i) = .new := by
  rw [h.inv.inbox, Inbox.classify_eq_new_iff]
  constructor
  · intro hflight
    obtain ⟨change, outputs, hm, -⟩ := h.inv.admissible.inFlight hflight
    exact hnew ⟨_, change, outputs, hm⟩
  · rintro ⟨t, ht, hdup⟩
    rw [tracker?_specState] at ht
    split at ht
    · cases ht
    · next hne =>
      cases ht
      have hlt := fun q => h.lt_of_mem_doneSeqs hf hi hnew (q := q)
      obtain ⟨q, hq⟩ := List.exists_mem_of_ne_nil _ hne
      have hbig :=
        biggest_observeAll_lt (t := {}) (Nat.lt_of_le_of_lt (Nat.zero_le q) (hlt q hq)) hlt
      have := (DeduplicationTracker.isDuplicate_iff.mp hdup).1
      omega

/-- An input that was applied and is not in flight is finished. -/
theorem Core.finished (h : Core cfg w node trace) (happ : Applied node.history key)
    (hc : node.handler.inbox.classify key ≠ .applied) : FinishedBy w.msgId trace key := by
  obtain ⟨m, change, outputs, hm⟩ := happ
  rcases h.inv.admissible.inFlight_or_done hm with hflight | ⟨m', hd⟩
  · rw [← h.inv.inbox, ← Inbox.classify_eq_applied_iff] at hflight
    exact absurd hflight hc
  · exact h.done m' key hd

/-- A message that the inbox holds as done is finished. -/
theorem Core.finished_of_done (h : Core cfg w node trace) (hf : f ∈ w.files)
    (hi : i ≤ f.chunks.length)
    (hc : node.handler.inbox.classify (f.key i) = .done) : FinishedBy w.msgId trace (f.key i) := by
  refine h.finished ?_ (by rw [hc]; nofun)
  by_contra hnew
  rw [h.classify_new hf hi hnew] at hc
  cases hc

/-! ## One step -/

/-- `_business_fn` returns its change, which the state accepts. -/
theorem businessFn_eq_ok {change' : FileSplitterChange} {logical : List LogicalOutput}
    (hne : ∀ clientId, change ≠ .abort clientId)
    (h : cfg.businessFn change s = .ok (change', logical)) :
    change' = change ∧ ∃ emitted, s.simulate cfg.state change = .ok emitted := by
  unfold FileSplitterConfig.businessFn at h
  split at h
  · exact absurd rfl (hne _)
  · obtain ⟨emitted, hsim, h⟩ := Except.ok_of_bind h
    obtain ⟨_, -, h⟩ := Except.ok_of_bind h
    cases h
    exact ⟨rfl, emitted, hsim⟩

theorem change_ne_abort (f : SplitFile) (i clientId : Nat) : f.change i ≠ .abort clientId := by
  unfold SplitFile.change
  split <;> exact nofun

/-- The calls of the handler that the loop makes. -/
inductive Made (cfg : FileSplitterConfig) (w : Workload)
    (node : Node FileSplitterState FileSplitterState FileSplitterChange)
    (trace : List (Obs FileSplitterChange)) : Call FileSplitterState FileSplitterChange → Prop
  | message {f : SplitFile} {i : Nat} (hf : f ∈ w.files) (hi : i ≤ f.chunks.length)
      (hd : node.handler.workerState.dispatch (f.message i) ≠ .ackNow) :
      Made cfg w node trace (.handle (f.key i) (cfg.businessFn (f.change i)))
  | commit {key : InputKey} (hs : SentButBy w.msgId trace key []) :
      Made cfg w node trace (.commitDone key)
  | none : Made cfg w node trace .snapshotNow

/-- A call changes nothing, or appends its record. -/
theorem Core.step (h : Core cfg w node trace) {c : Call FileSplitterState FileSplitterChange}
    (hc : Made cfg w node trace c) (hi : node'.Inv (cfg.handler w) (.whole (cfg.handler w).worker))
    (hh : node'.history = node.history ∨ ∃ record, Appends (cfg.handler w) node.handler c record ∧
      node'.history = node.history ++ [record]) :
    Core cfg w node' (trace ++ recordedSince node node') := by
  have hws : node.handler.workerState = _ := h.inv.workerState
  have hws' : node'.handler.workerState = _ := hi.workerState
  rcases hh with hh | ⟨record, ha, hh⟩
  · rw [recordedSince_of_history_eq hh, List.append_nil]
    have hsame : node'.handler.workerState = node.handler.workerState := by rw [hws, hws', hh]
    exact ⟨hi, hh ▸ h.records, hh ▸ h.applied, by rw [hh, hsame]; exact h.files, hh ▸ h.done⟩
  · rw [recordedSince_of_append hh]
    have hrecords : recordsIn (trace ++ [.recorded record]) = node'.history := by
      rw [hh, ← h.records]
      simp [recordsIn]
    cases hc with
    | @message f i hf hi' hd =>
      obtain ⟨hnew, change, logical, outputs, hb, -, rfl⟩ := ha
      obtain ⟨rfl, emitted, hsim⟩ := businessFn_eq_ok (change_ne_abort f i) hb
      have hfresh : ¬ Applied node.history (f.key i) := by
        rintro ⟨m, change, outputs, hm⟩
        have habs := h.inv.admissible.absorbed hm
        rw [Absorbed, ← h.inv.inbox] at habs
        exact habs hnew
      have hstep : node'.handler.workerState =
          node.handler.workerState.applyChange cfg.state (f.change i) := by
        rw [hws', hh, specState_snoc, hws]
        rfl
      refine ⟨hi, hrecords, ?_, ?_, ?_⟩
      · intro m key change outputs hm
        rw [hh] at hm
        rcases List.mem_append.mp hm with hm | hm
        · exact h.applied m key change outputs hm
        · cases List.mem_singleton.mp hm
          exact ⟨f, hf, i, hi', rfl, rfl⟩
      · rw [hh, hstep]
        exact FileOk.snoc h.files hf hi' hd hfresh hsim
      · intro m key hm
        rw [hh] at hm
        rcases List.mem_append.mp hm with hm | hm
        · exact (h.done m key hm).append _
        · cases List.mem_singleton.mp hm
    | @commit key hs =>
      cases ha
      have hstep : node'.handler.workerState = node.handler.workerState := by
        rw [hws', hh, specState_snoc, hws]
        rfl
      refine ⟨hi, hrecords, ?_, ?_, ?_⟩
      · intro m key change outputs hm
        rw [hh] at hm
        rcases List.mem_append.mp hm with hm | hm
        · exact h.applied m key change outputs hm
        · cases List.mem_singleton.mp hm
      · intro f hf
        obtain ⟨n, hok⟩ := h.files f hf
        rw [hh, hstep]
        exact ⟨n, hok.snoc_done⟩
      · intro m key hm
        rw [hh] at hm
        rcases List.mem_append.mp hm with hm | hm
        · exact (h.done m key hm).append _
        · cases List.mem_singleton.mp hm
          exact hs.finish
    | none => cases ha

variable {st st' : State}

theorem recordedSince_persist (ops : List (DurableOp FileSplitterState FileSplitterChange))
    (handler : Handler FileSplitterState) :
    recordedSince node { node.persist ops with handler } = (appendedRecords ops).map .recorded := by
  rw [recordedSince, Node.persist, List.drop_left]

theorem call_of_effect {c : Call FileSplitterState FileSplitterChange} {write : Except String PUnit}
    {effect : Handler.Effect FileSplitterState FileSplitterState FileSplitterChange}
    (he : node.effect (cfg.handler w) write c = .ok effect) :
    node.call (cfg.handler w) write c =
      { node.persist effect.ops with handler := effect.handler } := by
  rw [Node.call, he]

/-- A call that returns. -/
theorem Core.returned (h : Core cfg w st.node st.trace)
    {c : Call FileSplitterState FileSplitterChange} (hc : Made cfg w st.node st.trace c)
    {write : Except String PUnit}
    {effect : Handler.Effect FileSplitterState FileSplitterState FileSplitterChange}
    (he : st.node.effect (cfg.handler w) write c = .ok effect) :
    Core cfg w (returned st effect).node (returned st effect).trace := by
  obtain ⟨hi, hh⟩ := h.inv.call write c
  have hcore := h.step hc hi (hh.imp And.left fun hr => hr.2)
  rw [call_of_effect he, recordedSince_persist] at hcore
  exact hcore

/-- A crash in a call. -/
theorem Core.crashAfter (h : Core cfg w st.node st.trace)
    {c : Call FileSplitterState FileSplitterChange}
    (hc : Made cfg w st.node st.trace c) {steps : Nat}
    (hs : crashAfter cfg w st (st.node.ops (cfg.handler w) c) steps = some st') :
    Core cfg w st'.node st'.trace ∧ st'.phase = .idle := by
  obtain ⟨n', hn, hi, -, hh⟩ := h.inv.crashDuring c steps
  have hcore := h.step hc hi hh
  obtain ⟨handler, hrec, hn⟩ := Except.ok_of_bind hn
  cases hn
  rw [FileSplitter.crashAfter, hrec] at hs
  cases hs
  rw [recordedSince_persist] at hcore
  exact ⟨hcore, rfl⟩

theorem Core.observe (h : Core cfg w node trace) {obs : Obs FileSplitterChange}
    (ho : recordsIn [obs] = []) : Core cfg w node (trace ++ [obs]) := by
  refine ⟨h.inv, ?_, h.applied, h.files, fun m key hm => (h.done m key hm).append _⟩
  rw [recordsIn, List.filterMap_append]
  change recordsIn trace ++ recordsIn [obs] = _
  rw [ho, List.append_nil, h.records]

/-- What the thread has still to do is what is missing for the input. -/
def PhaseOk (w : Workload) (trace : List (Obs FileSplitterChange)) : Phase → Prop
  | .idle => True
  | .publishing msgId key remaining => msgId = w.msgId key ∧ SentButBy w.msgId trace key remaining
  | .acking key => FinishedBy w.msgId trace key

theorem PhaseOk.append {phase : Phase} (h : PhaseOk w trace phase)
    (more : List (Obs FileSplitterChange)) :
    PhaseOk w (trace ++ more) phase := by
  cases phase with
  | idle => trivial
  | publishing m key remaining => exact ⟨h.1, h.2.append more⟩
  | acking key => exact FinishedBy.append h more

structure Inv (cfg : FileSplitterConfig) (w : Workload) (st : State) : Prop where
  core : Core cfg w st.node st.trace
  phase : PhaseOk w st.trace st.phase
  acked : ∀ pre key, pre ++ [.acked key] <+: st.trace → FinishedBy w.msgId pre key

theorem inv_init : Inv cfg w (init cfg w) where
  core :=
    { inv := Node.inv_init
      records := rfl
      applied := nofun
      files := by
        intro f _
        refine ⟨0, Nat.zero_le _, fun i _ => ⟨?_, nofun⟩, rfl, .inl rfl⟩
        rintro ⟨_, _, _, hm⟩
        cases hm
      done := nofun }
  phase := trivial
  acked pre key hp := by
    have := hp.length_le
    simp [init] at this

theorem acked_append_recorded {P : List (Obs FileSplitterChange) → InputKey → Prop}
    (h : ∀ pre key, pre ++ [.acked key] <+: trace → P pre key)
    (records : List (WalRecord FileSplitterChange)) :
    ∀ pre key, pre ++ [.acked key] <+: trace ++ records.map .recorded → P pre key := by
  induction records using List.reverseRecOn with
  | nil => rwa [List.map_nil, List.append_nil]
  | append_singleton records record ih =>
    rw [List.map_append, ← List.append_assoc]
    exact acked_append ih nofun

/-- What is done with a message that is handled. -/
theorem Core.phaseFor (h : Core cfg w st.node st.trace) (hf : f ∈ w.files)
    (hi : i ≤ f.chunks.length)
    (hd : st.node.handler.workerState.dispatch (f.message i) ≠ .ackNow)
    {write : Except String PUnit}
    {effect : Handler.Effect FileSplitterState FileSplitterState FileSplitterChange}
    (he : st.node.effect (cfg.handler w) write (.handle (f.key i) (cfg.businessFn (f.change i))) =
      .ok effect) :
    PhaseOk w (FileSplitter.returned st effect).trace
      (FileSplitter.phaseFor (f.key i) effect.instruction) := by
  have hcore := h.returned (.message hf hi hd) he
  rcases Node.handle_cases he with ⟨hdone, hins, -⟩ | ⟨change, outputs, hins, hh⟩ | ⟨happ, hins, -⟩
  · rw [hins]
    exact (h.finished_of_done hf hi hdone).append _
  · rw [hins]
    rw [call_of_effect he] at hh
    have hm : .inputApplied (w.msgId (f.key i)) (f.key i) change outputs ∈
        recordsIn (FileSplitter.returned st effect).trace := by
      rw [hcore.records]
      exact hh ▸ List.mem_append_right _ (List.mem_singleton.mpr rfl)
    exact ⟨rfl, sentButBy_of_mem hm⟩
  · rw [h.inv.inbox, Inbox.classify_eq_applied_iff] at happ
    obtain ⟨change, outputs, hm, hl⟩ := h.inv.admissible.inFlight happ
    have hout : st.node.handler.outbox.entriesForInput (f.key i).clientId
        ((cfg.handler w).msgId (f.key i)) =
        outputs := by rw [Outbox.entriesForInput_eq, h.inv.outbox, hl, Option.getD_some]
    rw [hins, hout]
    exact ⟨rfl, (sentButBy_of_mem (h.records.symm ▸ hm)).append _⟩

/-- What is acked at once is held as done by the inbox. -/
def AcksFinished (st : State) : Label → Prop
  | .deliver f i _ => st.node.handler.workerState.dispatch (f.message i) = .ackNow →
      st.node.handler.inbox.classify (f.key i) = .done
  | _ => True

instance (st : State) : (l : Label) → Decidable (AcksFinished st l)
  | .deliver f i _ =>
    inferInstanceAs (Decidable (st.node.handler.workerState.dispatch (f.message i) =
      .ackNow → st.node.handler.inbox.classify (f.key i) = .done))
  | .publish .. | .commit .. | .ack | .republish | .crash | .crashInDeliver ..
  | .crashInCommit .. =>
    .isTrue trivial

/-- What is acked at once is finished. -/
def AcksSettled (w : Workload) (st : State) : Label → Prop
  | .deliver f i _ => f ∈ w.files → i ≤ f.chunks.length →
      st.node.handler.workerState.dispatch (f.message i) = .ackNow →
      FinishedBy w.msgId st.trace (f.key i)
  | _ => True

theorem AcksFinished.settled (h : Inv cfg w st) {l : Label} (ha : AcksFinished st l) :
    AcksSettled w st l := by
  cases l with
  | deliver f i write => exact fun hf hi hd => h.core.finished_of_done hf hi (ha hd)
  | publish | commit | ack | republish | crash | crashInDeliver | crashInCommit => trivial

theorem Inv.deliver (h : Inv cfg w st) (hf : f ∈ w.files) (hi : i ≤ f.chunks.length)
    (write : Except String PUnit) (ha : AcksSettled w st (.deliver f i write)) :
    Inv cfg w (deliver cfg w st f i write) := by
  obtain ⟨n, hok⟩ := h.core.files f hf
  unfold FileSplitter.deliver
  cases hd : st.node.handler.workerState.dispatch (f.message i) with
  | ackNow =>
    have hfin := ha hf hi hd
    exact ⟨h.core.observe rfl, h.phase.append _, acked_append h.acked
      fun key he => by cases he; exact hfin⟩
  | run m key change =>
    obtain ⟨rfl, rfl, rfl⟩ := hok.dispatch_run hf hi hd
    dsimp only
    cases he : st.node.handler.handle (cfg.handler w) write (w.msgId (f.key i)) (f.key i)
        (cfg.businessFn (f.change i)) with
    | error e => exact h
    | ok effect =>
      have hne : st.node.handler.workerState.dispatch (f.message i) ≠ .ackNow := by rw [hd]; nofun
      exact ⟨h.core.returned (.message hf hi hne) he, h.core.phaseFor hf hi hne he,
        acked_append_recorded h.acked _⟩

/-- Every step keeps the invariant, as long as what is acked at once is finished. -/
theorem Inv.exec (h : Inv cfg w st) {l : Label} (ha : AcksSettled w st l)
    (he : exec cfg w st l = some st') :
    Inv cfg w st' := by
  have hcrash : ∀ {c : Call FileSplitterState FileSplitterChange} (steps : Nat),
      Made cfg w st.node st.trace c →
      crashAfter cfg w st (st.node.ops (cfg.handler w) c) steps = some st' → Inv cfg w st' := by
    intro c steps hc hs
    obtain ⟨hcore, hphase⟩ := h.core.crashAfter hc hs
    refine ⟨hcore, by rw [hphase]; trivial, ?_⟩
    rw [FileSplitter.crashAfter] at hs
    split at hs
    · cases hs
    · cases hs
      exact acked_append_recorded h.acked _
  have hp := h.phase
  cases l with
  | deliver f i write =>
    rw [FileSplitter.exec] at he
    split at he
    next hr =>
      cases he
      exact h.deliver hr.2.2.1 hr.2.2.2 write ha
    next => cases he
  | publish confirmed =>
    rw [FileSplitter.exec] at he
    split at he
    next m key entry remaining hph =>
      rw [hph] at hp
      obtain ⟨rfl, hsent⟩ := hp
      split at he
      · cases he
        exact ⟨h.core.observe rfl, ⟨rfl, hsent.publish⟩, acked_append h.acked nofun⟩
      · cases he
        exact ⟨h.core, trivial, h.acked⟩
    next => cases he
  | commit write =>
    rw [FileSplitter.exec] at he
    split at he
    next m key hph =>
      rw [hph] at hp
      obtain ⟨rfl, hsent⟩ := hp
      split at he
      · cases he
        exact ⟨h.core, trivial, h.acked⟩
      next effect heff =>
        cases he
        have heff : st.node.effect (cfg.handler w) write (.commitDone key) = .ok effect := heff
        have hcore := h.core.returned (.commit hsent) heff
        have hh := Node.history_commitDone heff
        rw [call_of_effect heff] at hh
        refine ⟨hcore, hcore.done (w.msgId key) key ?_, acked_append_recorded h.acked _⟩
        exact hh ▸ List.mem_append_right _ (List.mem_singleton.mpr rfl)
    next => cases he
  | ack =>
    rw [FileSplitter.exec] at he
    split at he
    next key hph =>
      rw [hph] at hp
      cases he
      exact ⟨h.core.observe rfl, trivial, acked_append h.acked fun key he => by cases he; exact hp⟩
    next => cases he
  | republish =>
    rw [FileSplitter.exec] at he
    split at he
    next c m entry pending hpend =>
      split at he
      · cases he
        refine ⟨h.core.observe rfl, ?_, acked_append h.acked nofun⟩
        exact hp.append _
      · cases he
    next => cases he
  | crash =>
    refine hcrash 0 .none ?_
    rw [FileSplitter.exec, FileSplitter.crashAfter, List.take_zero] at he
    rw [FileSplitter.crashAfter, List.take_zero]
    exact he
  | crashInDeliver f i steps =>
    rw [FileSplitter.exec] at he
    split at he
    next hr =>
      split at he
      · cases he
      next m key change hd =>
        obtain ⟨n, hok⟩ := h.core.files f hr.2.2.1
        obtain ⟨rfl, rfl, rfl⟩ := hok.dispatch_run hr.2.2.1 hr.2.2.2 hd
        split at he
        · cases he
        next effect heff =>
          have hne : st.node.handler.workerState.dispatch (f.message i) ≠ .ackNow := by
            rw [hd]; nofun
          have heff : st.node.effect (cfg.handler w) (.ok ⟨⟩)
            (.handle (f.key i) (cfg.businessFn (f.change i))) = .ok effect := heff
          refine hcrash steps (.message hr.2.2.1 hr.2.2.2 hne) ?_
          rw [Node.ops, heff]
          exact he
    next => cases he
  | crashInCommit steps =>
    rw [FileSplitter.exec] at he
    split at he
    next m key hph =>
      rw [hph] at hp
      obtain ⟨rfl, hsent⟩ := hp
      split at he
      · cases he
      next effect heff =>
        have heff : st.node.effect (cfg.handler w) (.ok ⟨⟩) (.commitDone key) = .ok effect := heff
        refine hcrash steps (.commit hsent) ?_
        rw [Node.ops, heff]
        exact he
    next => cases he

/-! ## No chunk is dropped -/

/-- Each message is applied at most once. -/
theorem Core.count_le (h : Core cfg w node trace) (hf : f ∈ w.files) (hi : i ≤ f.chunks.length) :
    (stateChanges node.history).count (f.change i) ≤ 1 := by
  refine Nat.le_trans ?_ (h.inv.admissible.length_appliedRecords_le (f.key i))
  rw [stateChanges, List.count, List.countP_filterMap, appliedRecords,
    ← List.countP_eq_length_filter]
  refine List.countP_mono_left fun record hm hr => ?_
  cases record with
  | inputApplied m key change outputs =>
    simp only [Option.map_some, Option.getD_some, beq_iff_eq] at hr
    obtain ⟨g, hg, j, hj, rfl, rfl⟩ := h.applied m key change outputs hm
    obtain ⟨rfl, rfl⟩ := Workload.change_inj hg hf hj hi hr
    exact decide_eq_true rfl
  | inputDone => simp at hr

/-- The chunk was applied, exactly once, and everything that it was stamped with was published
since. -/
def ChunkSettled (w : Workload) (trace : List (Obs FileSplitterChange)) (f : SplitFile)
    (i : Nat) : Prop :=
  (stateChanges (recordsIn trace)).count (f.change i) = 1 ∧
  ∃ before since outputs,
    trace = before ++
      .recorded (.inputApplied (w.msgId (f.key i)) (f.key i) (f.change i) outputs) :: since ∧
    ∀ entry ∈ outputs, .published (f.key i).clientId (w.msgId (f.key i)) entry ∈ since

/-- Every chunk that was acked was settled by then, and is not applied again. -/
def ChunksSettled (w : Workload) (st : State) : Prop :=
  ∀ f ∈ w.files, ∀ i < f.chunks.length, ∀ pre, pre ++ [.acked (f.key i)] <+: st.trace →
    ChunkSettled w pre f i ∧ (stateChanges st.node.history).count (f.change i) = 1

theorem Inv.chunksSettled (h : Inv cfg w st) : ChunksSettled w st := by
  intro f hf i hi pre hp
  obtain ⟨before, since, change, outputs, rfl, -, hpub⟩ := h.acked pre _ hp
  have hle := h.core.count_le hf hi.le
  obtain ⟨back, hback⟩ := hp
  have hrecords := h.core.records
  have hm : .inputApplied (w.msgId (f.key i)) (f.key i) change outputs ∈ st.node.history := by
    rw [← hrecords, ← hback]
    simp [recordsIn]
  obtain ⟨g, hg, j, hj, hkey, rfl⟩ := h.core.applied _ _ _ _ hm
  obtain ⟨rfl, rfl⟩ := Workload.key_inj hf hg hi.le hj hkey
  have hpos :
      0 < (stateChanges (recordsIn (before ++ .recorded (.inputApplied (w.msgId (f.key i)) (f.key i)
      (f.change i) outputs) :: since))).count (f.change i) := by
    rw [List.count_pos_iff]
    simp [recordsIn, stateChanges]
  have hmono :
      (stateChanges (recordsIn (before ++ .recorded (.inputApplied (w.msgId (f.key i)) (f.key i)
      (f.change i) outputs) :: since))).count (f.change i) ≤
        (stateChanges st.node.history).count (f.change i) := by
    rw [← hrecords, ← hback]
    simp only [recordsIn, stateChanges, List.filterMap_append, List.count_append]
    omega
  exact ⟨⟨by omega, before, since, outputs, rfl, hpub⟩, by omega⟩

/-- As long as every chunk that is acked at once is one that the inbox holds as done, a chunk is
acked only when it was applied exactly once and all its batches were published: whatever is
delivered in whatever order, with failing publications and writes and with crashes. -/
theorem chunks_settled (cfg : FileSplitterConfig) (w : Workload)
    (h : Transition.Reachable (exec cfg w) AcksFinished (init cfg w) st) :
    ChunksSettled w st ∧ st.node.handler.workerState =
      (stateChanges st.node.history).foldl (fun s change => s.applyChange cfg.state change) {} := by
  have hinv : Inv cfg w st := h.invariant inv_init fun _ _ _ hi ha he => hi.exec (ha.settled hi) he
  exact ⟨hinv.chunksSettled, hinv.core.inv.workerState.trans (workerState_specState _)⟩

/-- Four lines in two chunks; the header is the first. -/
def twoChunks : SplitFile where
  clientId := 7
  relPath := "t"
  fileType := 1
  chunks := [[97, 10, 49, 10, 50, 10], [51, 10]]
  nonempty := by decide

def twoChunksWorkload : Workload where
  files := [twoChunks]
  paths := by decide
  senders := by decide

def twoChunksConfig : FileSplitterConfig where
  id := 5
  outputShardCount := 1
  maxLineBytes := 64
  maxBatchBytes := 1
  json := .ofTable [(twoChunks.change 0, [0]), (twoChunks.change 1, [1])]
  sha256 := fun _ => []

/-- A chunk with one batch that is processed to its end. -/
def toItsEnd (i : Nat) : List Label :=
  [.deliver twoChunks i (.ok ⟨⟩), .publish true, .commit (.ok ⟨⟩), .ack]

/-- Both chunks in order, the first delivered once more at the end. -/
theorem chunks_settled_two_chunks :
    ∃ st, Transition.Reachable (exec twoChunksConfig twoChunksWorkload) AcksFinished
        (init twoChunksConfig twoChunksWorkload) st ∧
      .acked (twoChunks.key 0) ∈ st.trace ∧ .acked (twoChunks.key 1) ∈ st.trace ∧
      ChunksSettled twoChunksWorkload st := by
  have hrun : (Transition.runAllowed (exec twoChunksConfig twoChunksWorkload) AcksFinished
      (init twoChunksConfig twoChunksWorkload)
      (toItsEnd 0 ++ toItsEnd 1 ++ [.deliver twoChunks 0 (.ok ⟨⟩)])).any fun st =>
        decide (.acked (twoChunks.key 0) ∈ st.trace ∧ .acked (twoChunks.key 1) ∈ st.trace) := by
    decide +kernel
  obtain ⟨st, hst, hk⟩ := (Option.any_eq_true _ _).mp hrun
  have hr := Transition.reachable_of_runAllowed .init hst
  obtain ⟨h₀, h₁⟩ := of_decide_eq_true hk
  exact ⟨st, hr, h₀, h₁, (chunks_settled _ _ hr).1⟩

/-- The input was recorded with batches to publish. -/
def stampedFor (key : InputKey) : Obs FileSplitterChange → Bool
  | .recorded (.inputApplied _ k _ outputs) => k = key ∧ outputs ≠ []
  | _ => false

/-- A batch of the input was published. -/
def publishedFor (msgId : String) : Obs FileSplitterChange → Bool
  | .published _ m _ => m = msgId
  | _ => false

/-- A chunk that comes before its predecessor is acked and never applied. A chunk whose publication
failed is acked when the next one was applied in between, and its batch is never published. -/
theorem chunks_dropped_out_of_order :
    (¬ ∀ st, Transition.Reachable (exec twoChunksConfig twoChunksWorkload) (fun _ _ => True)
      (init twoChunksConfig twoChunksWorkload) st → ChunksSettled twoChunksWorkload st) ∧
    ∃ st, Transition.Reachable (exec twoChunksConfig twoChunksWorkload) (fun _ _ => True)
        (init twoChunksConfig twoChunksWorkload) st ∧
      .acked (twoChunks.key 0) ∈ st.trace ∧ st.trace.any (stampedFor (twoChunks.key 0)) ∧
      ¬ st.trace.any (publishedFor (twoChunksWorkload.msgId (twoChunks.key 0))) := by
  constructor
  · intro h
    have hrun : (Transition.runAllowed (exec twoChunksConfig twoChunksWorkload) (fun _ _ => True)
        (init twoChunksConfig twoChunksWorkload) [.deliver twoChunks 1 (.ok ⟨⟩)]).map State.trace =
          some [.acked (twoChunks.key 1)] := by
      decide +kernel
    obtain ⟨st, hst, htrace⟩ := Option.map_eq_some_iff.mp hrun
    have hsettled := h st (Transition.reachable_of_runAllowed .init hst) twoChunks (by decide) 1
      (by decide) [] (by rw [htrace]; exact List.prefix_refl _)
    exact absurd hsettled.1.1 (by decide)
  · have hrun : (Transition.runAllowed (exec twoChunksConfig twoChunksWorkload) (fun _ _ => True)
        (init twoChunksConfig twoChunksWorkload)
        ([.deliver twoChunks 0 (.ok ⟨⟩), .publish false] ++ toItsEnd 1 ++
          [.deliver twoChunks 0 (.ok ⟨⟩)])).any fun st =>
          decide (.acked (twoChunks.key 0) ∈ st.trace ∧
            st.trace.any (stampedFor (twoChunks.key 0)) ∧
            ¬ st.trace.any (publishedFor (twoChunksWorkload.msgId (twoChunks.key 0)))) := by
      decide +kernel
    obtain ⟨st, hst, hk⟩ := (Option.any_eq_true _ _).mp hrun
    exact ⟨st, Transition.reachable_of_runAllowed .init hst, of_decide_eq_true hk⟩

end FileSplitter

end MoneyLaundering
