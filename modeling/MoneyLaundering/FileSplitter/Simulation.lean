import MoneyLaundering.FileSplitter.Numbering
import MoneyLaundering.FileSplitter.Objects

/-!
# Simulation and application

`simulate` runs the helpers of the file splitter on copies of its files and gives what they emit;
`apply_change` runs them on the files themselves. Both are here over the objects of
`FileSplitter.Objects`. A live state owns its files (`Owned`), and with that a simulation changes
none of them, what it emits is what the counters of the files count when the change is applied, and
a state restored from a snapshot does what the state of the snapshot does.
-/

namespace MoneyLaundering

open FileSplitterStateConfig

/-! ## Owned objects -/

namespace SplitterHeap

/-- The file and what it holds are there. -/
structure Below (h : SplitterHeap) (p : Nat) : Prop where
  state : p < h.next
  splitter : (h.states p).splitter < h.next
  lines : (h.states p).batchLines < h.next

/-- Two files have nothing in common. -/
structure Apart (h : SplitterHeap) (p q : Nat) : Prop where
  state : p ≠ q
  splitter : (h.states p).splitter ≠ (h.states q).splitter
  lines : (h.states p).batchLines ≠ (h.states q).batchLines

theorem Apart.symm {h : SplitterHeap} {p q : Nat} (ha : h.Apart p q) : h.Apart q p :=
  ⟨ha.state.symm, ha.splitter.symm, ha.lines.symm⟩

/-- The files of a dictionary are there, each with a splitter and a list of lines of its own. The
last field is the check of `LineSplitter`. -/
structure Owned (h : SplitterHeap) (files : Dict FileKey Nat) : Prop where
  below : ∀ key p, files.get? key = some p → h.Below p
  apart : ∀ key key' p p', files.get? key = some p → files.get? key' = some p' →
    key ≠ key' → h.Apart p p'
  limit : ∀ key p, files.get? key = some p → 0 < (h.fileState p).splitter.maxLineBytes

/-- Every object that is there stays as it is. -/
structure Keeps (h h' : SplitterHeap) : Prop where
  next : h.next ≤ h'.next
  states : ∀ p, p < h.next → h'.states p = h.states p
  splitters : ∀ p, p < h.next → h'.splitters p = h.splitters p
  lists : ∀ p, p < h.next → h'.lists p = h.lists p
  counts : ∀ p, p < h.next → h'.counts p = h.counts p

variable {h h' h'' : SplitterHeap} {files : Dict FileKey Nat} {key : FileKey} {p q : Nat}
    {s : FileState}

theorem Keeps.refl (h : SplitterHeap) : Keeps h h :=
  ⟨Nat.le_refl _, fun _ _ => rfl, fun _ _ => rfl, fun _ _ => rfl, fun _ _ => rfl⟩

theorem Keeps.trans (hk : Keeps h h') (hk' : Keeps h' h'') : Keeps h h'' where
  next := Nat.le_trans hk.next hk'.next
  states p hp := (hk'.states p (Nat.lt_of_lt_of_le hp hk.next)).trans (hk.states p hp)
  splitters p hp := (hk'.splitters p (Nat.lt_of_lt_of_le hp hk.next)).trans (hk.splitters p hp)
  lists p hp := (hk'.lists p (Nat.lt_of_lt_of_le hp hk.next)).trans (hk.lists p hp)
  counts p hp := (hk'.counts p (Nat.lt_of_lt_of_le hp hk.next)).trans (hk.counts p hp)

theorem keeps_newFile (h : SplitterHeap) (s : FileState) : Keeps h (h.newFile s) where
  next := Nat.le_succ _
  states _ hp := Function.update_of_ne (Nat.ne_of_lt hp) ..
  splitters _ hp := Function.update_of_ne (Nat.ne_of_lt hp) ..
  lists _ hp := Function.update_of_ne (Nat.ne_of_lt hp) ..
  counts _ _ := rfl

theorem keeps_newCounts (h : SplitterHeap) (d : Dict Nat Nat) : Keeps h (h.newCounts d) where
  next := Nat.le_succ _
  states _ _ := rfl
  splitters _ _ := rfl
  lists _ _ := rfl
  counts _ hp := Function.update_of_ne (Nat.ne_of_lt hp) ..

theorem Keeps.fileState (hk : Keeps h h') (hb : h.Below p) : h'.fileState p = h.fileState p := by
  simp [SplitterHeap.fileState, hk.states p hb.state, hk.splitters _ hb.splitter,
    hk.lists _ hb.lines]

theorem Keeps.below (hk : Keeps h h') (hb : h.Below p) : h'.Below p := by
  have hs := hk.states p hb.state
  exact ⟨Nat.lt_of_lt_of_le hb.state hk.next, hs ▸ Nat.lt_of_lt_of_le hb.splitter hk.next,
    hs ▸ Nat.lt_of_lt_of_le hb.lines hk.next⟩

theorem Owned.keeps (ho : Owned h files) (hk : Keeps h h') : Owned h' files where
  below key p hp := hk.below (ho.below key p hp)
  apart key key' p p' hp hp' hne := by
    have ha := ho.apart key key' p p' hp hp' hne
    have hs := hk.states p (ho.below key p hp).state
    have hs' := hk.states p' (ho.below key' p' hp').state
    exact ⟨ha.state, hs ▸ hs' ▸ ha.splitter, hs ▸ hs' ▸ ha.lines⟩
  limit key p hp := by
    rw [hk.fileState (ho.below key p hp)]
    exact ho.limit key p hp

/-- The files that an owner of them sees. -/
theorem Owned.view_keeps (ho : Owned h files) (hk : Keeps h h') :
    files.mapVals h'.fileState = files.mapVals h.fileState :=
  Dict.mapVals_congr fun key p hp => hk.fileState (ho.below key p hp)

theorem Owned.empty (h : SplitterHeap) : Owned h ∅ := ⟨nofun, nofun, nofun⟩

theorem Owned.filter (ho : Owned h files) (keep : FileKey → Bool) :
    Owned h (files.filter keep) := by
  have hget : ∀ {key p}, (files.filter keep).get? key = some p → files.get? key = some p := by
    intro key p hp
    rw [Dict.get?_filter] at hp
    split at hp
    · exact hp
    · cases hp
  exact ⟨fun key p hp => ho.below key p (hget hp),
    fun key key' p p' hp hp' hne => ho.apart key key' p p' (hget hp) (hget hp') hne,
    fun key p hp => ho.limit key p (hget hp)⟩

/-- A file that has just been made has nothing in common with the others. -/
theorem Owned.set_newFile (ho : Owned h files) (key : FileKey)
    (hpos : 0 < s.splitter.maxLineBytes) :
    Owned (h.newFile s) (files.set key h.next) ∧
      (files.set key h.next).mapVals (h.newFile s).fileState =
        (files.mapVals h.fileState).set key s := by
  have hnew : (h.newFile s).states h.next = _ := Function.update_self ..
  have hk := keeps_newFile h s
  have ho' := ho.keeps hk
  have hget : ∀ {k p}, (files.set key h.next).get? k = some p →
      k = key ∧ p = h.next ∨ k ≠ key ∧ files.get? k = some p := by
    intro k p hp
    rw [Dict.get?_set] at hp
    split at hp
    next he => exact .inl ⟨he.symm, (Option.some.inj hp).symm⟩
    next he => exact .inr ⟨Ne.symm he, hp⟩
  have hfresh : ∀ {k p}, files.get? k = some p → (h.newFile s).Apart h.next p := by
    intro k p hp
    obtain ⟨h₁, h₂, h₃⟩ := ho.below k p hp
    have hs := hk.states p h₁
    refine ⟨Nat.ne_of_gt h₁, ?_, ?_⟩ <;> rw [hnew, hs]
    · exact Nat.ne_of_gt h₂
    · exact Nat.ne_of_gt h₃
  refine ⟨⟨fun k p hp => ?_, fun k k' p p' hp hp' hne => ?_, fun k p hp => ?_⟩, ?_⟩
  · rcases hget hp with ⟨-, rfl⟩ | ⟨-, hp⟩
    · refine ⟨Nat.lt_succ_self _, ?_, ?_⟩ <;> rw [hnew] <;> exact Nat.lt_succ_self _
    · exact ho'.below k p hp
  · rcases hget hp with ⟨hk, rfl⟩ | ⟨-, hq⟩ <;> rcases hget hp' with ⟨hk', rfl⟩ | ⟨-, hq'⟩
    · exact absurd (hk.trans hk'.symm) hne
    · exact hfresh hq'
    · exact (hfresh hq).symm
    · exact ho'.apart k k' p p' hq hq' hne
  · rcases hget hp with ⟨-, rfl⟩ | ⟨-, hp⟩
    · rw [fileState_newFile]
      exact hpos
    · exact ho'.limit k p hp
  · rw [Dict.mapVals_set, fileState_newFile, ho.view_keeps hk]

end SplitterHeap

namespace FileCall

variable {x x' : FileCall} {h : SplitterHeap} {files : Dict FileKey Nat} {key : FileKey} {q : Nat}

/-- A file that has nothing in common with that of the call. -/
theorem Touches.other (ht : Touches x x') (hb : x.heap.Below q) (ha : x.heap.Apart q x.state) :
    x'.heap.states q = x.heap.states q ∧ x'.heap.fileState q = x.heap.fileState q := by
  have hs := ht.states q ha.state
  refine ⟨hs, ?_⟩
  simp [SplitterHeap.fileState, hs, ht.splitters _ ha.splitter, ht.lists _ hb.lines ha.lines]

/-- A call on one of the files of an owner changes what is seen of this file. -/
theorem Touches.owned (ht : Touches x x') (ho : x.heap.Owned files)
    (hp : files.get? key = some x.state) (hpos : 0 < x'.run.state.splitter.maxLineBytes) :
    x'.heap.Owned files ∧
      files.mapVals x'.heap.fileState = (files.mapVals x.heap.fileState).set key x'.run.state := by
  have hb := ho.below key _ hp
  have hother : ∀ {k q}, files.get? k = some q → k ≠ key →
      x'.heap.states q = x.heap.states q ∧ x'.heap.fileState q = x.heap.fileState q :=
    fun hq hne => ht.other (ho.below _ _ hq) (ho.apart _ _ _ _ hq hp hne)
  have hstate : x'.run.state = x'.heap.fileState x.state := congrArg x'.heap.fileState ht.state
  have hsplitter : (x'.heap.states x.state).splitter = x.splitterRef := by
    rw [← ht.splitterRef, FileCall.splitterRef, ht.state]
  have hlines : (x'.heap.states x.state).batchLines = x'.linesRef := by
    rw [FileCall.linesRef, ht.state]
  have hfresh : ∀ {k q}, files.get? k = some q → k ≠ key → x'.heap.Apart q x.state := by
    intro k q hq hne
    obtain ⟨h₁, h₂, h₃⟩ := ho.apart _ _ _ _ hq hp hne
    have hs := (hother hq hne).1
    refine ⟨h₁, ?_, ?_⟩
    · rw [hs, hsplitter]
      exact h₂
    · rw [hs, hlines]
      rcases ht.linesRef with he | hnew
      · rw [he]
        exact h₃
      · exact Nat.ne_of_lt (Nat.lt_of_lt_of_le (ho.below _ _ hq).lines hnew.1)
  refine ⟨⟨fun k q hq => ?_, fun k k' q q' hq hq' hne => ?_, fun k q hq => ?_⟩, ?_⟩
  · by_cases hk : k = key
    · subst hk
      obtain rfl := Option.some.inj (hq.symm.trans hp)
      refine ⟨Nat.lt_of_lt_of_le hb.state ht.next, ?_, ?_⟩
      · rw [hsplitter]
        exact Nat.lt_of_lt_of_le hb.splitter ht.next
      · rw [hlines]
        rcases ht.linesRef with he | hnew
        · rw [he]
          exact Nat.lt_of_lt_of_le hb.lines ht.next
        · exact hnew.2
    · have hs := (hother hq hk).1
      obtain ⟨h₁, h₂, h₃⟩ := ho.below _ _ hq
      exact ⟨Nat.lt_of_lt_of_le h₁ ht.next, hs ▸ Nat.lt_of_lt_of_le h₂ ht.next,
        hs ▸ Nat.lt_of_lt_of_le h₃ ht.next⟩
  · by_cases hk : k = key <;> by_cases hk' : k' = key
    · exact absurd (hk.trans hk'.symm) hne
    · subst hk
      obtain rfl := Option.some.inj (hq.symm.trans hp)
      exact (hfresh hq' hk').symm
    · subst hk'
      obtain rfl := Option.some.inj (hq'.symm.trans hp)
      exact hfresh hq hk
    · obtain ⟨h₁, h₂, h₃⟩ := ho.apart _ _ _ _ hq hq' hne
      have hs := (hother hq hk).1
      have hs' := (hother hq' hk').1
      exact ⟨h₁, hs ▸ hs' ▸ h₂, hs ▸ hs' ▸ h₃⟩
  · by_cases hk : k = key
    · subst hk
      obtain rfl := Option.some.inj (hq.symm.trans hp)
      rw [← hstate]
      exact hpos
    · rw [(hother hq hk).2]
      exact ho.limit _ _ hq
  · have hupdate : files.mapVals x'.heap.fileState =
        files.mapVals (Function.update x.heap.fileState x.state (x'.heap.fileState x.state)) := by
      refine Dict.mapVals_congr fun k q hq => ?_
      by_cases hk : k = key
      · subst hk
        obtain rfl := Option.some.inj (hq.symm.trans hp)
        rw [Function.update_self]
      · rw [(hother hq hk).2, Function.update_of_ne (ho.apart _ _ _ _ hq hp hk).state]
    rw [hupdate, hstate, Dict.mapVals_update _ _ hp fun k hk => ?_]
    by_contra hne
    exact (ho.apart _ _ _ _ hk hp hne).state rfl

/-- A call on new objects changes none that was there. -/
theorem Touches.keeps (ht : Touches x x') (hk : SplitterHeap.Keeps h x.heap) (hs : h.next ≤ x.state)
    (hp : h.next ≤ x.splitterRef) (hl : h.next ≤ x.linesRef) (hc : h.next ≤ x.counts) :
    SplitterHeap.Keeps h x'.heap where
  next := Nat.le_trans hk.next ht.next
  states p hlt := (ht.states p (Nat.ne_of_lt (Nat.lt_of_lt_of_le hlt hs))).trans (hk.states p hlt)
  splitters p hlt :=
    (ht.splitters p (Nat.ne_of_lt (Nat.lt_of_lt_of_le hlt hp))).trans (hk.splitters p hlt)
  lists p hlt := (ht.lists p (Nat.lt_of_lt_of_le hlt hk.next)
    (Nat.ne_of_lt (Nat.lt_of_lt_of_le hlt hl))).trans (hk.lists p hlt)
  counts p hlt := (ht.others p (Nat.ne_of_lt (Nat.lt_of_lt_of_le hlt hc))).trans (hk.counts p hlt)

end FileCall

/-! ## Counters -/

/-- The line batches among what is emitted. -/
def batchesOf (out : List Emission) : List LineBatch :=
  out.filterMap fun
    | .batch _ batch => some batch
    | .eof .. => none

theorem batchesOf_append (out out' : List Emission) :
    batchesOf (out ++ out') = batchesOf out ++ batchesOf out' :=
  List.filterMap_append

/-- From `f` to `f'` the counters of a file, and those of its client, count the batches of `out`. -/
structure Counted (key : FileKey) (f f' : FileState) (n n' : Dict Nat Nat) (out : List Emission) :
    Prop where
  lines : f'.dataLinesEmitted = f.dataLinesEmitted + ((batchesOf out).map (·.lines.length)).sum
  batches : f'.batchesEmitted = f.batchesEmitted + (batchesOf out).length
  batchId : f'.batchId = f.batchId + (batchesOf out).length
  ids : (batchesOf out).map (·.batchId) = List.range' f.batchId (batchesOf out).length
  edges : ∀ e ∈ out, ∃ batch, e =
    .batch (if f'.fileType = some fileTypeAccounts then accountsEdge else lineBatchEdge) batch
  client : n'.getD key.clientId 0 = n.getD key.clientId 0 +
    if f'.fileType = some fileTypeAccounts then (batchesOf out).length else 0
  others : ∀ c, c ≠ key.clientId → n'.getD c 0 = n.getD c 0

namespace LineSplitter

variable {splitter splitter' : LineSplitter} {lines : List Bytes}

theorem maxLineBytes_push {offset : Nat} {payload : Bytes}
    (h : splitter.push offset payload = .ok (splitter', lines)) :
    splitter'.maxLineBytes = splitter.maxLineBytes := by
  obtain ⟨-, h⟩ := Except.ok_of_raiseIf h
  obtain ⟨-, -, h⟩ := Except.ok_of_bind h
  cases h
  rfl

theorem maxLineBytes_finish (h : splitter.finish = .ok (splitter', lines)) :
    splitter'.maxLineBytes = splitter.maxLineBytes := by
  unfold finish at h
  split at h
  · cases h
    rfl
  · obtain ⟨-, -, h⟩ := Except.ok_of_bind h
    cases h
    rfl

end LineSplitter

namespace FileSplitterStateConfig

variable {cfg : FileSplitterStateConfig} {key : FileKey} {r r' r'' : FileRun} {line : Bytes}
  {lines : List Bytes}

/-- What a helper emits is counted, and the file type and the splitter stay. -/
structure Counting (key : FileKey) (r r' : FileRun) : Prop where
  fileType : r'.state.fileType = r.state.fileType
  splitter : r'.state.splitter = r.state.splitter
  counted : ∃ out, r'.out = r.out ++ out ∧
    Counted key r.state r'.state r.accountsCounts r'.accountsCounts out

/-- A helper that emits nothing. -/
theorem Counting.of_eq (ht : r'.state.fileType = r.state.fileType)
    (hs : r'.state.splitter = r.state.splitter)
    (hl : r'.state.dataLinesEmitted = r.state.dataLinesEmitted)
    (hb : r'.state.batchesEmitted = r.state.batchesEmitted)
    (hi : r'.state.batchId = r.state.batchId)
    (hn : r'.accountsCounts = r.accountsCounts) (ho : r'.out = r.out) : Counting key r r' :=
  ⟨ht, hs, [], ho.trans (List.append_nil _).symm, hl, hb, hi, rfl, nofun, by simp [hn, batchesOf],
    fun c _ => by rw [hn]⟩

theorem Counting.trans (h : Counting key r r') (h' : Counting key r' r'') : Counting key r r'' := by
  obtain ⟨out, ho, hc⟩ := h.counted
  obtain ⟨out', ho', hc'⟩ := h'.counted
  have ht := h'.fileType
  refine ⟨ht.trans h.fileType, h'.splitter.trans h.splitter,
    out ++ out', by rw [ho', ho, List.append_assoc], ?_⟩
  refine ⟨?_, ?_, ?_, ?_, ?_, ?_, ?_⟩
  · rw [hc'.lines, hc.lines, batchesOf_append, List.map_append, List.sum_append, Nat.add_assoc]
  · rw [hc'.batches, hc.batches, batchesOf_append, List.length_append, Nat.add_assoc]
  · rw [hc'.batchId, hc.batchId, batchesOf_append, List.length_append, Nat.add_assoc]
  · rw [batchesOf_append, List.map_append, hc.ids, hc'.ids, hc.batchId, List.length_append,
      List.range'_append_1]
  · intro e he
    rcases List.mem_append.mp he with he | he
    · rw [ht]
      exact hc.edges e he
    · exact hc'.edges e he
  · rw [hc'.client, hc.client, batchesOf_append, List.length_append, ht]
    split
    · exact Nat.add_assoc ..
    · rfl
  · exact fun c hne => (hc'.others c hne).trans (hc.others c hne)

theorem counting_runFlush (r : FileRun) : Counting key r (runFlush key r) := by
  by_cases hl : r.state.batchLines = []
  · rw [runFlush, if_pos hl]
    exact .of_eq rfl rfl rfl rfl rfl rfl rfl
  · rw [runFlush, if_neg hl]
    refine ⟨rfl, rfl, _, rfl, rfl, rfl, rfl, rfl, ?_, ?_, ?_⟩
    · intro e he
      obtain rfl := List.mem_singleton.mp he
      exact ⟨_, rfl⟩
    · dsimp only
      split
      · exact (Dict.getD_set ..).trans (if_pos rfl)
      · rfl
    · intro c hne
      dsimp only
      split
      · exact (Dict.getD_set ..).trans (if_neg hne.symm)
      · rfl

theorem counting_runAccumulate (r : FileRun) (line : Bytes) :
    Counting key r (cfg.runAccumulate key r line) := by
  rw [runAccumulate]
  split
  · exact (counting_runFlush r).trans (.of_eq rfl rfl rfl rfl rfl rfl rfl)
  · exact .of_eq rfl rfl rfl rfl rfl rfl rfl

theorem counting_runLine (h : cfg.runLine key r line = .ok r') : Counting key r r' := by
  unfold runLine at h
  dsimp only at h
  split at h
  · cases h
    exact .of_eq rfl rfl rfl rfl rfl rfl rfl
  · split at h
    · obtain ⟨header, -, h⟩ := Except.ok_of_bind h
      cases h
      exact .of_eq rfl rfl rfl rfl rfl rfl rfl
    · cases h
      have hcount : Counting key r (countLine r) := .of_eq rfl rfl rfl rfl rfl rfl rfl
      exact hcount.trans (counting_runAccumulate _ line)

theorem counting_foldlM_runLine (h : lines.foldlM (cfg.runLine key) r = .ok r') :
    Counting key r r' := by
  induction lines generalizing r with
  | nil =>
    cases h
    exact .of_eq rfl rfl rfl rfl rfl rfl rfl
  | cons line lines ih =>
    obtain ⟨r₁, hline, h⟩ := Except.ok_of_bind h
    exact (counting_runLine hline).trans (ih h)

/-- The end of a file, as it is announced when the counters are `n`. -/
def eofOf (cfg : FileSplitterStateConfig) (key : FileKey) (f : FileState) (n : Dict Nat Nat) :
    List Emission :=
  if f.fileType = some fileTypeTransactions then [.eof lineBatchEdge f.dataLinesEmitted]
  else if f.fileType = some fileTypeAccounts ∧ cfg.accountsEnabled = true then
    [.eof accountsEdge (n.getD key.clientId 0)]
  else []

/-- A file ends: its last batches are counted up to `f'` and `m`, and the end announces what they
reached. -/
def Finished (cfg : FileSplitterStateConfig) (key : FileKey) (f f' : FileState)
    (n n' : Dict Nat Nat) (out : List Emission) : Prop :=
  ∃ m batches, Counted key f f' n m batches ∧ out = batches ++ cfg.eofOf key f' m ∧
    n' = if f'.fileType = some fileTypeAccounts ∧
    cfg.accountsEnabled = true then m.erase key.clientId else m

theorem counted_runChunk {fileType offset : Nat} {payloadB64 : List Char}
    (h : cfg.runChunk key r fileType offset payloadB64 = .ok r') :
    (∃ out, r'.out = r.out ++ out ∧
      Counted key r.state r'.state r.accountsCounts r'.accountsCounts out) ∧
      r'.state.splitter.maxLineBytes = r.state.splitter.maxLineBytes := by
  obtain ⟨⟨splitter, lines⟩, hpush, h⟩ := Except.ok_of_bind h
  obtain ⟨r₁, hlines, h⟩ := Except.ok_of_bind h
  cases h
  have hc := counting_foldlM_runLine hlines
  obtain ⟨out, ho, hout⟩ := hc.counted
  refine ⟨⟨out, ho, hout.lines, hout.batches, hout.batchId, hout.ids, hout.edges, hout.client,
    hout.others⟩, ?_⟩
  exact (congrArg LineSplitter.maxLineBytes hc.splitter).trans
    (LineSplitter.maxLineBytes_push hpush)

theorem finished_runFinish (h : cfg.runFinish key r = .ok r') (hr : r.out = []) :
    cfg.Finished key r.state r'.state r.accountsCounts r'.accountsCounts r'.out ∧
      r'.state.splitter.maxLineBytes = r.state.splitter.maxLineBytes := by
  obtain ⟨⟨splitter, lines⟩, hfinish, h⟩ := Except.ok_of_bind h
  obtain ⟨r₁, hlines, h⟩ := Except.ok_of_bind h
  have hc := (counting_foldlM_runLine hlines).trans (counting_runFlush r₁)
  obtain ⟨out, ho, hout⟩ := hc.counted
  have ho : (runFlush key r₁).out = out := by simpa [hr] using ho
  have hlimit := (congrArg LineSplitter.maxLineBytes hc.splitter).trans
    (LineSplitter.maxLineBytes_finish hfinish)
  have hout : Counted key r.state (runFlush key r₁).state r.accountsCounts
      (runFlush key r₁).accountsCounts out :=
    ⟨hout.lines, hout.batches, hout.batchId, hout.ids, hout.edges, hout.client, hout.others⟩
  have hne : some fileTypeTransactions ≠ some fileTypeAccounts := by decide
  generalize runFlush key r₁ = r₂ at h hout ho hlimit
  dsimp only at h
  split at h
  next ht =>
    cases h
    refine ⟨⟨_, out, hout, ?_, ?_⟩, hlimit⟩
    · rw [eofOf, if_pos ht, ← ho]
    · exact (if_neg fun ha => hne (ht.symm.trans ha.1)).symm
  next ht =>
    split at h
    next ha =>
      cases h
      refine ⟨⟨_, out, hout, ?_, ?_⟩, hlimit⟩
      · rw [eofOf, if_neg ht, if_pos ha, ← ho]
      · exact (if_pos ha).symm
    next ha =>
      cases h
      refine ⟨⟨_, out, hout, ?_, ?_⟩, hlimit⟩
      · rw [eofOf, if_neg ht, if_neg ha, ← ho, List.append_nil]
      · exact (if_neg ha).symm

end FileSplitterStateConfig

namespace FileSplitterState

variable (cfg : FileSplitterStateConfig) (s : FileSplitterState)

/-- Files end one after the other, from the counters `n` to the counters `n'`. -/
def FinishedAll (reached : FileKey → FileState) :
    List FileKey → Dict Nat Nat → Dict Nat Nat → List Emission → Prop
  | [], n, n', out => n' = n ∧ out = []
  | key :: keys, n, n', out => ∃ f m first rest, s.files.get? key = some f ∧
      cfg.Finished key f (reached key) n m first ∧ FinishedAll reached keys m n' rest ∧
      out = first ++ rest

/-- The files that a change ends. -/
def ended : FileSplitterChange → List FileKey
  | .fileEof clientId relPath =>
    if s.files.contains ⟨clientId, relPath⟩ then [⟨clientId, relPath⟩] else []
  | .clientEof clientId => s.keysOf clientId
  | .chunk .. | .abort _ => []

/-- From `s` to `s'` the counters count what a change emits. `reached` is what the files reach,
those that are removed included. -/
def Counts (s' : FileSplitterState) (reached : FileKey → FileState) (out : List Emission)
    (change : FileSplitterChange) : Prop :=
  match change with
  | .chunk clientId relPath .. => ∃ f, s.stateFor cfg ⟨clientId, relPath⟩ = .ok f ∧
      s'.files = s.files.set ⟨clientId, relPath⟩ (reached ⟨clientId, relPath⟩) ∧
      Counted ⟨clientId, relPath⟩ f (reached ⟨clientId, relPath⟩) s.accountsBatchesByClient
        s'.accountsBatchesByClient out
  | .fileEof .. | .clientEof _ =>
      s'.files = (s.files.filter fun key => decide (key ∉ s.ended change)) ∧
      s.FinishedAll cfg reached (s.ended change) s.accountsBatchesByClient
        s'.accountsBatchesByClient out
  | .abort clientId => out = [] ∧
      s'.files = (s.files.filter fun key => decide (key.clientId ≠ clientId)) ∧
      s'.accountsBatchesByClient = s.accountsBatchesByClient.erase clientId

variable {cfg s} {s' : FileSplitterState} {reached reached' : FileKey → FileState}
    {keys : List FileKey}
  {n n' : Dict Nat Nat} {out : List Emission}

theorem FinishedAll.congr (h : s.FinishedAll cfg reached keys n n' out)
    (hf : ∀ key ∈ keys, s'.files.get? key = s.files.get? key) :
    s'.FinishedAll cfg reached keys n n' out := by
  induction keys generalizing n out with
  | nil => exact h
  | cons key keys ih =>
    obtain ⟨f, m, first, rest, hget, hfirst, hrest, ho⟩ := h
    exact ⟨f, m, first, rest, (hf key List.mem_cons_self).trans hget, hfirst,
      ih hrest fun k hk => hf k (List.mem_cons_of_mem _ hk), ho⟩

end FileSplitterState

/-! ## The state -/

/-- `FileSplitterState` among the objects of its process. -/
structure SplitterObjects where
  heap : SplitterHeap
  files : Dict FileKey Nat := ∅
  accountsBatchesByClient : Nat
  chunksReceived : Nat := 0
  eofsReceived : Nat := 0

/-- `snapshot()`. `asdict` gives the attributes of a file and of its splitter, as values. -/
structure FileSplitterSnapshot where
  files : Dict (Nat × String) FileState
  accountsBatchesByClient : Dict Nat Nat
  chunksReceived : Nat
  eofsReceived : Nat

namespace SplitterObjects

/-- What can be observed of the state. -/
def view (s : SplitterObjects) : FileSplitterState where
  files := s.files.mapVals s.heap.fileState
  accountsBatchesByClient := s.heap.counts s.accountsBatchesByClient
  chunksReceived := s.chunksReceived
  eofsReceived := s.eofsReceived

variable (cfg : FileSplitterStateConfig) (s : SplitterObjects)

/-- `_copy_or_new`. -/
def copyOrNew (key : FileKey) : Except String (SplitterHeap × Nat) :=
  match s.files.get? key with
  | none => s.heap.emptyFile cfg.maxLineBytes
  | some p => s.heap.copyFileState p

/-- The loop of `simulate` over the files of a client, on a copy of the account batches. -/
def simulateAll (counts : Nat) :
    SplitterHeap → List FileKey → Except String (SplitterHeap × List Emission)
  | heap, [] => .ok (heap, [])
  | heap, key :: keys =>
    match s.files.get? key with
    | none => .error "KeyError"
    | some p => do
      let (heap, state) ← heap.copyFileState p
      let x ← FileCall.runFinish cfg key { heap, state, counts }
      let (heap, out) ← simulateAll counts x.heap keys
      return (heap, x.out ++ out)

/-- The files of a client. -/
def keysOf (clientId : Nat) : List FileKey :=
  (s.files.entries.map Prod.fst).filter fun key => key.clientId = clientId

/-- The objects after `simulate`, and what was emitted. -/
def simulateRun : FileSplitterChange → Except String (SplitterHeap × List Emission)
  | .chunk clientId relPath fileType offset payloadB64 => do
    let (heap, state) ← s.copyOrNew cfg ⟨clientId, relPath⟩
    let x ← FileCall.runChunk cfg ⟨clientId, relPath⟩
      { heap := heap.newCounts (heap.counts s.accountsBatchesByClient), state, counts := heap.next }
      fileType offset payloadB64
    return (x.heap, x.out)
  | .fileEof clientId relPath =>
    match s.files.get? ⟨clientId, relPath⟩ with
    | none => .ok (s.heap, [])
    | some p => do
      let (heap, state) ← s.heap.copyFileState p
      let x ← FileCall.runFinish cfg ⟨clientId, relPath⟩
        { heap := heap.newCounts (heap.counts s.accountsBatchesByClient), state,
          counts := heap.next }
      return (x.heap, x.out)
  | .clientEof clientId =>
    s.simulateAll cfg s.heap.next (s.heap.newCounts (s.heap.counts s.accountsBatchesByClient))
      (s.keysOf clientId)
  | .abort _ => .ok (s.heap, [])

/-- `simulate`. -/
def simulate (change : FileSplitterChange) :
    Except String (SplitterObjects × List EmittedOutput) := do
  let (heap, out) ← s.simulateRun cfg change
  let outputs ← out.mapM (FileSplitterState.emit cfg)
  return ({ s with heap }, outputs)

/-- `_state_for`. -/
def stateFor (key : FileKey) : Except String (SplitterObjects × Nat) :=
  match s.files.get? key with
  | some p => .ok (s, p)
  | none => do
    let (heap, p) ← s.heap.emptyFile cfg.maxLineBytes
    return ({ s with heap, files := s.files.set key p }, p)

/-- `_finish_and_remove`. -/
def finishAndRemove (key : FileKey) : Except String SplitterObjects :=
  match s.files.get? key with
  | none => .ok s
  | some p => do
    let x ← FileCall.runFinish cfg key
        { heap := s.heap, state := p, counts := s.accountsBatchesByClient }
    return { s with heap := x.heap, files := s.files.erase key }

/-- `apply_change`. -/
def applyChange : FileSplitterChange → Except String SplitterObjects
  | .chunk clientId relPath fileType offset payloadB64 => do
    let (s, state) ← s.stateFor cfg ⟨clientId, relPath⟩
    let x ← FileCall.runChunk cfg ⟨clientId, relPath⟩
      { heap := s.heap, state, counts := s.accountsBatchesByClient } fileType offset payloadB64
    return { s with heap := x.heap, chunksReceived := s.chunksReceived + 1 }
  | .fileEof clientId relPath => do
    let s ← s.finishAndRemove cfg ⟨clientId, relPath⟩
    return { s with eofsReceived := s.eofsReceived + 1 }
  | .clientEof clientId => do
    let s ← (s.keysOf clientId).foldlM (finishAndRemove cfg) s
    return { s with eofsReceived := s.eofsReceived + 1 }
  | .abort clientId =>
    .ok { s with
      heap := { s.heap with
        counts := Function.update s.heap.counts s.accountsBatchesByClient
          ((s.heap.counts s.accountsBatchesByClient).erase clientId) }
      files := s.files.filter fun key => decide (key.clientId ≠ clientId) }

/-- `snapshot`. -/
def snapshot : FileSplitterSnapshot where
  files :=
    Dict.ofList (s.files.entries.map fun e => ((e.1.clientId, e.1.relPath), s.heap.fileState e.2))
  accountsBatchesByClient := s.heap.counts s.accountsBatchesByClient
  chunksReceived := s.chunksReceived
  eofsReceived := s.eofsReceived

/-- A file of a snapshot: the objects, and the files so far. -/
def restoreFile (objects : SplitterHeap × Dict FileKey Nat) (file : (Nat × String) × FileState) :
    Except String (SplitterHeap × Dict FileKey Nat) := do
  let (heap, p) ← objects.1.filestateFromDict file.2
  return (heap, objects.2.set ⟨file.1.1, file.1.2⟩ p)

/-- `restore`, in a process with the objects `heap`. -/
def restore (heap : SplitterHeap) (data : FileSplitterSnapshot) :
    Except String SplitterObjects := do
  let (heap, files) ← data.files.entries.foldlM restoreFile (heap, ∅)
  return {
    heap := heap.newCounts data.accountsBatchesByClient
    files
    accountsBatchesByClient := heap.next
    chunksReceived := data.chunksReceived
    eofsReceived := data.eofsReceived }

/-- The changes of a list, one after the other: what `simulate` gives for each, and the state at the
end. A change that `simulate` refuses is not applied. -/
def drive : SplitterObjects → List FileSplitterChange →
    SplitterObjects × List (Except String (List EmittedOutput))
  | s, [] => (s, [])
  | s, change :: changes =>
    match s.simulate cfg change with
    | .error e => ((drive s changes).1, .error e :: (drive s changes).2)
    | .ok (s, outputs) =>
      match s.applyChange cfg change with
      | .error e => (s, [.error e])
      | .ok s => ((drive s changes).1, .ok outputs :: (drive s changes).2)

/-- The objects of the state are its own. -/
structure Sound : Prop where
  counts : s.accountsBatchesByClient < s.heap.next
  files : s.heap.Owned s.files

end SplitterObjects

/-- A state whose objects are its own. -/
structure LiveSplitter extends SplitterObjects where
  sound : toSplitterObjects.Sound

/-- A new state, the first object of its process. -/
def LiveSplitter.init : LiveSplitter where
  heap := {
    states := fun _ => ⟨0, 0, none, none, 0, 0, 0, 0, 0, 0, 0, 0⟩
    splitters := fun _ => { maxLineBytes := 1 }
    lists := fun _ => []
    counts := fun _ => ∅
    next := 1 }
  accountsBatchesByClient := 0
  sound := ⟨Nat.zero_lt_one, .empty _⟩

namespace SplitterObjects

variable {cfg : FileSplitterStateConfig} {s s' t : SplitterObjects} {v : FileSplitterState}
    {key : FileKey}
  {change : FileSplitterChange} {heap heap' : SplitterHeap} {out : List Emission} {counts p : Nat}
  {keys : List FileKey}

theorem get?_view (s : SplitterObjects) (key : FileKey) :
    s.view.files.get? key = (s.files.get? key).map s.heap.fileState := Dict.get?_mapVals ..

theorem keysOf_view (s : SplitterObjects) (clientId : Nat) :
    s.view.keysOf clientId = s.keysOf clientId := by
  simp [FileSplitterState.keysOf, keysOf, view, Dict.mapVals, Function.comp_def]

theorem keysOf_nodup (s : SplitterObjects) (clientId : Nat) : (s.keysOf clientId).Nodup :=
  s.files.nodup.filter _

theorem get?_of_mem_keysOf {clientId : Nat} (h : key ∈ s.keysOf clientId) :
    ∃ p, s.files.get? key = some p := by
  obtain ⟨⟨k, p⟩, hm, rfl⟩ := List.mem_map.mp (List.mem_of_mem_filter h)
  exact ⟨p, Dict.mem_entries_iff.mp hm⟩

/-! ### Simulation -/

/-- A copy of a file, or a new file, is a new object with the state that a chunk starts from. -/
theorem Sound.copyOrNew (hs : s.Sound) (key : FileKey) : s.copyOrNew cfg key =
    (s.view.stateFor cfg key).map fun f => (s.heap.newFile f, s.heap.next) := by
  unfold SplitterObjects.copyOrNew FileSplitterState.stateFor
  rw [get?_view]
  cases hp : s.files.get? key with
  | none =>
    rw [SplitterHeap.emptyFile_eq]
    dsimp only [Option.map]
    cases LineSplitter.create cfg.maxLineBytes <;> rfl
  | some p => exact SplitterHeap.copyFileState_eq (hs.files.limit key p hp)

/-- A call on new objects. -/
theorem keeps_of_touches {f : FileState} {x' : FileCall} (hk : SplitterHeap.Keeps heap heap')
    (hc : heap.next ≤ counts)
    (ht : FileCall.Touches { heap := heap'.newFile f, state := heap'.next, counts } x') :
    SplitterHeap.Keeps heap x'.heap := by
  have hnew : (heap'.newFile f).states heap'.next = _ := Function.update_self ..
  refine ht.keeps (hk.trans (heap'.keeps_newFile f)) hk.next ?_ ?_ hc
  · rw [FileCall.splitterRef, hnew]
    exact hk.next
  · rw [FileCall.linesRef, hnew]
    exact hk.next

private theorem map_snd_append {α : Type} (e : Except String (α × List Emission))
    (out : List Emission) :
    (do let (a, out') ← e; return (a, out ++ out') : Except String (α × List Emission)).map
      Prod.snd =
      (e.map Prod.snd).map (out ++ ·) := by
  cases e <;> rfl

variable (cfg v heap counts) in
theorem Sound.simulateAll (hs : s.Sound) (hk : SplitterHeap.Keeps s.heap heap)
    (hc : counts < heap.next) (hc' : s.heap.next ≤ counts) (hn : keys.Nodup)
    (hv : ∀ key ∈ keys, ∃ p, s.files.get? key = some p ∧
      v.files.get? key = some (s.heap.fileState p))
    (hcounts : v.accountsBatchesByClient = heap.counts counts) :
    (s.simulateAll cfg counts heap keys).map Prod.snd = (v.finishAll cfg keys).map Prod.snd ∧
      ∀ heap' out, s.simulateAll cfg counts heap keys = .ok (heap', out) →
        SplitterHeap.Keeps s.heap heap' := by
  induction keys generalizing heap v with
  | nil =>
    refine ⟨rfl, fun heap' out h => ?_⟩
    cases h
    exact hk
  | cons key keys ih =>
    obtain ⟨p, hp, hf⟩ := hv key List.mem_cons_self
    have hsame := hk.fileState (hs.files.below key p hp)
    have hcopy : heap.copyFileState p = .ok (heap.newFile (s.heap.fileState p), heap.next) := by
      rw [← hsame]
      refine SplitterHeap.copyFileState_eq ?_
      rw [hsame]
      exact hs.files.limit key p hp
    have hrun := FileCall.run_runFinish cfg key
      { heap := heap.newFile (s.heap.fileState p), state := heap.next, counts }
    have hx :
        FileCall.run { heap := heap.newFile (s.heap.fileState p), state := heap.next, counts } =
        ⟨s.heap.fileState p, v.accountsBatchesByClient, []⟩ := by
      rw [FileCall.run, SplitterHeap.fileState_newFile, hcounts]
      rfl
    rw [hx] at hrun
    rw [SplitterObjects.simulateAll, FileSplitterState.finishAll,
      FileSplitterState.finishAndRemove, hp, hf]
    dsimp only
    rw [hcopy, Except.ok_bind, ← hrun]
    dsimp only
    cases hx' : FileCall.runFinish cfg key
      { heap := heap.newFile (s.heap.fileState p), state := heap.next, counts } with
    | error e => exact ⟨rfl, by rintro _ _ ⟨⟩⟩
    | ok x' =>
      have ht := FileCall.touches_runFinish hx'
      have hcount : x'.run.accountsCounts = x'.heap.counts counts :=
        congrArg x'.heap.counts ht.counts
      obtain ⟨hout, hkeeps⟩ := ih { v with
          files := v.files.erase key, accountsBatchesByClient := x'.run.accountsCounts } x'.heap
        (keeps_of_touches hk hc' ht)
        (Nat.lt_of_lt_of_le (Nat.lt_succ_of_lt hc) ht.next) (List.nodup_cons.mp hn).2
        (fun k hm => by
          obtain ⟨q, hq, hf⟩ := hv k (List.mem_cons_of_mem _ hm)
          have hne : k ≠ key := fun he => (List.nodup_cons.mp hn).1 (he ▸ hm)
          exact ⟨q, hq, (Dict.get?_erase_of_ne _ hne).trans hf⟩)
        hcount
      constructor
      · exact (map_snd_append _ x'.out).trans
          ((congrArg _ hout).trans (map_snd_append _ x'.out).symm)
      · intro heap' out h
        rw [Except.ok_bind] at h
        obtain ⟨⟨heap₁, out₁⟩, h₁, h⟩ := Except.ok_of_bind h
        cases h
        exact hkeeps _ _ h₁

/-- The call of `simulate` on one file. -/
abbrev copyCall (heap : SplitterHeap) (f : FileState) (counts : Dict Nat Nat) : FileCall where
  heap := (heap.newFile f).newCounts counts
  state := heap.next
  counts := (heap.newFile f).next

theorem run_copyCall (heap : SplitterHeap) (f : FileState) (counts : Dict Nat Nat) :
    (copyCall heap f counts).run = ⟨f, counts, []⟩ := by
  rw [FileCall.run, SplitterHeap.counts_newCounts]
  exact congrArg (FileRun.mk · counts []) (SplitterHeap.fileState_newFile heap f)

theorem keeps_copyCall {f : FileState} {d : Dict Nat Nat} {x' : FileCall}
    (ht : FileCall.Touches (copyCall heap f d) x') : SplitterHeap.Keeps heap x'.heap := by
  have hnew : ((heap.newFile f).newCounts d).states heap.next = _ := Function.update_self ..
  refine ht.keeps ((heap.keeps_newFile f).trans (SplitterHeap.keeps_newCounts _ d))
    (Nat.le_refl _) ?_ ?_
    (Nat.le_succ _)
  · rw [FileCall.splitterRef, hnew]
  · rw [FileCall.linesRef, hnew]

/-- A simulation on one file: `call` is the helper on the copy, and `run` what it does. -/
theorem of_copyCall {f : FileState} {d : Dict Nat Nat} {call : Except String FileCall}
    {run : Except String FileRun} {result : Except String (SplitterHeap × List Emission)}
    {expected : Except String (List Emission)}
    (ht : ∀ {x}, call = .ok x → FileCall.Touches (copyCall heap f d) x)
    (hrun : call.map FileCall.run = run)
    (hresult : result = call.map fun x => (x.heap, x.out))
    (hexpected : expected = run.map FileRun.out) :
    result.map Prod.snd = expected ∧
      ∀ heap' out, result = .ok (heap', out) → SplitterHeap.Keeps heap heap' := by
  subst hresult hexpected hrun
  refine ⟨by cases call <;> rfl, fun heap' out h => ?_⟩
  obtain ⟨x, hx, h⟩ := Except.ok_of_map h
  cases h
  exact keeps_copyCall (ht hx)

variable (cfg) in
/-- A simulation emits what the change emits on what can be observed, and changes no object. -/
theorem Sound.simulateRun (hs : s.Sound) (change : FileSplitterChange) :
    (s.simulateRun cfg change).map Prod.snd = (s.view.run cfg change).map Prod.snd ∧
      ∀ heap out, s.simulateRun cfg change = .ok (heap, out) → SplitterHeap.Keeps s.heap heap := by
  cases change with
  | chunk clientId relPath fileType offset payloadB64 =>
    rw [SplitterObjects.simulateRun, FileSplitterState.run,
      FileSplitterState.chunkRun, hs.copyOrNew]
    cases s.view.stateFor cfg ⟨clientId, relPath⟩ with
    | error e => exact ⟨rfl, by rintro _ _ ⟨⟩⟩
    | ok f =>
      have hrun := FileCall.run_runChunk cfg ⟨clientId, relPath⟩
        (copyCall s.heap f s.view.accountsBatchesByClient) fileType offset payloadB64
      rw [run_copyCall] at hrun
      refine of_copyCall (fun hx => FileCall.touches_runChunk hx) hrun rfl ?_
      rw [Except.ok_bind]
      cases cfg.runChunk ⟨clientId, relPath⟩ ⟨f, s.view.accountsBatchesByClient, []⟩
        fileType offset payloadB64 <;> rfl
  | fileEof clientId relPath =>
    rw [SplitterObjects.simulateRun, FileSplitterState.run,
      FileSplitterState.finishAndRemove, get?_view]
    cases hp : s.files.get? ⟨clientId, relPath⟩ with
    | none =>
      refine ⟨rfl, fun heap out h => ?_⟩
      cases h
      exact .refl _
    | some p =>
      have hrun := FileCall.run_runFinish cfg ⟨clientId, relPath⟩
        (copyCall s.heap (s.heap.fileState p) s.view.accountsBatchesByClient)
      rw [run_copyCall] at hrun
      dsimp only [Option.map]
      rw [SplitterHeap.copyFileState_eq (hs.files.limit _ p hp), Except.ok_bind, ← hrun]
      refine of_copyCall (fun hx => FileCall.touches_runFinish hx) hrun rfl ?_
      rw [← hrun]
      cases FileCall.runFinish cfg ⟨clientId, relPath⟩
        (copyCall s.heap (s.heap.fileState p) s.view.accountsBatchesByClient) <;> rfl
  | clientEof clientId =>
    rw [SplitterObjects.simulateRun, FileSplitterState.run, keysOf_view]
    obtain ⟨hout, hkeeps⟩ := hs.simulateAll cfg s.view
      (s.heap.newCounts (s.heap.counts s.accountsBatchesByClient)) s.heap.next
      (s.heap.keeps_newCounts _) (Nat.lt_succ_self _) (Nat.le_refl _) (s.keysOf_nodup clientId)
      (fun key hm => by
        obtain ⟨p, hp⟩ := get?_of_mem_keysOf hm
        exact ⟨p, hp, by rw [get?_view, hp]; rfl⟩)
      (SplitterHeap.counts_newCounts ..).symm
    refine ⟨hout.trans ?_, hkeeps⟩
    cases s.view.finishAll cfg (s.keysOf clientId) <;> rfl
  | abort clientId =>
    refine ⟨rfl, fun heap out h => ?_⟩
    cases h
    exact .refl _

theorem Sound.of_keeps (hs : s.Sound) (hk : SplitterHeap.Keeps s.heap heap) :
    ({ s with heap } : SplitterObjects).Sound ∧
    ({ s with heap } : SplitterObjects).view = s.view := by
  refine ⟨⟨Nat.lt_of_lt_of_le hs.counts hk.next, hs.files.keeps hk⟩, ?_⟩
  rw [view, view, hs.files.view_keeps hk, hk.counts _ hs.counts]

variable (cfg) in
/-- `simulate` gives what it gives on what can be observed. -/
theorem Sound.simulate (hs : s.Sound) (change : FileSplitterChange) :
    (s.simulate cfg change).map Prod.snd = s.view.simulate cfg change ∧
      ∀ t outputs, s.simulate cfg change = .ok (t, outputs) →
        t = { s with heap := t.heap } ∧ SplitterHeap.Keeps s.heap t.heap := by
  obtain ⟨hout, hkeeps⟩ := hs.simulateRun cfg change
  have hpure : s.view.simulate cfg change =
      ((s.view.run cfg change).map Prod.snd >>= fun out =>
        out.mapM (FileSplitterState.emit cfg)) := by
    rw [FileSplitterState.simulate]
    cases s.view.run cfg change <;> rfl
  constructor
  · rw [hpure, ← hout, SplitterObjects.simulate]
    cases s.simulateRun cfg change with
    | error e => rfl
    | ok emitted =>
      dsimp only [Except.map]
      rw [Except.ok_bind, Except.ok_bind]
      cases emitted.2.mapM (FileSplitterState.emit cfg) <;> rfl
  · intro t outputs h
    obtain ⟨⟨heap, out⟩, hrun, h⟩ := Except.ok_of_bind h
    obtain ⟨outputs', -, h⟩ := Except.ok_of_bind h
    cases h
    exact ⟨rfl, hkeeps _ _ hrun⟩

/-! ### Application -/

/-- What the objects of the files say. -/
def reachedIn (heap : SplitterHeap) (files : Dict FileKey Nat) (key : FileKey) : FileState :=
  match files.get? key with
  | some p => heap.fileState p
  | none => { splitter := { maxLineBytes := 0 } }

theorem reachedIn_of_get? {files : Dict FileKey Nat} (h : files.get? key = some p) :
    reachedIn heap files key = heap.fileState p := by
  rw [reachedIn, h]

/-- What the end of files leaves: `files` are all files, those that have ended included. -/
structure Ended (files : Dict FileKey Nat) (keys : List FileKey) (s s' : SplitterObjects) :
    Prop where
  owned : s'.heap.Owned files
  counts : s'.accountsBatchesByClient = s.accountsBatchesByClient
  next : s.heap.next ≤ s'.heap.next
  remaining : s'.files = s.files.filter fun key => decide (key ∉ keys)
  others : ∀ key p, files.get? key = some p → key ∉ keys → s'.heap.fileState p = s.heap.fileState p

variable (cfg) in
theorem finishAndRemove_spec {files : Dict FileKey Nat} (ho : s.heap.Owned files)
    (hsub : ∀ key p, s.files.get? key = some p → files.get? key = some p) (hp : s.files.get?
      key = some p) :
    (s.finishAndRemove cfg key).map view = (s.view.finishAndRemove cfg key).map Prod.fst ∧
      ∀ s', s.finishAndRemove cfg key = .ok s' → Ended files [key] s s' ∧
        ∃ out, s.view.finishAndRemove cfg key = .ok (s'.view, out) ∧
          cfg.Finished key (s.heap.fileState p) (s'.heap.fileState p) s.view.accountsBatchesByClient
            s'.view.accountsBatchesByClient out := by
  have hrun := FileCall.run_runFinish cfg key
    { heap := s.heap, state := p, counts := s.accountsBatchesByClient }
  have hview : s.view.files.get? key = some (s.heap.fileState p) := by rw [get?_view, hp]; rfl
  have hpure : s.view.finishAndRemove cfg key = (cfg.runFinish key
      (FileCall.run { heap := s.heap, state := p, counts := s.accountsBatchesByClient })).map
        fun r =>
        ({ s.view with files := s.view.files.erase key, accountsBatchesByClient :=
          r.accountsCounts }, r.out) := by
    rw [FileSplitterState.finishAndRemove, hview]
    change (cfg.runFinish key ⟨s.heap.fileState p, s.view.accountsBatchesByClient, []⟩ >>= _) =
      Except.map _
      (cfg.runFinish key ⟨s.heap.fileState p, s.view.accountsBatchesByClient, []⟩)
    cases cfg.runFinish key ⟨s.heap.fileState p, s.view.accountsBatchesByClient, []⟩ <;> rfl
  rw [hpure, ← hrun, SplitterObjects.finishAndRemove, hp]
  dsimp only
  cases hx : FileCall.runFinish cfg
    key { heap := s.heap, state := p, counts := s.accountsBatchesByClient } with
  | error e => exact ⟨rfl, by intros; contradiction⟩
  | ok x =>
    have ht := FileCall.touches_runFinish hx
    have hother : ∀ k q, files.get? k = some q → k ∉ [key] → x.heap.fileState q =
        s.heap.fileState q :=
      fun k q hq hk => (ht.other (ho.below k q hq)
        (ho.apart k key q p hq (hsub key p hp) fun he => hk (he ▸ List.mem_singleton_self _))).2
    have hcount : x.run.accountsCounts = x.heap.counts s.accountsBatchesByClient :=
      congrArg x.heap.counts ht.counts
    have hstate : x.run.state = x.heap.fileState p := congrArg x.heap.fileState ht.state
    rw [hx] at hrun
    obtain ⟨hfin, hlimit⟩ := FileSplitterStateConfig.finished_runFinish hrun.symm rfl
    have hview' : ({ s with heap := x.heap, files := s.files.erase key } : SplitterObjects).view =
        { s.view with files := s.view.files.erase key, accountsBatchesByClient :=
          x.run.accountsCounts } := by
      have hfiles : (s.files.erase key).mapVals x.heap.fileState =
          (s.files.mapVals s.heap.fileState).erase key := by
        rw [← Dict.mapVals_erase]
        refine Dict.mapVals_congr fun k q hq => ?_
        rw [Dict.get?_erase] at hq
        split at hq
        · cases hq
        next hne => exact hother k q (hsub k q hq) fun hk => hne (List.mem_singleton.mp hk)
      rw [view, view, hcount, hfiles]
    refine ⟨congrArg Except.ok hview', fun s' h => ?_⟩
    cases h
    refine ⟨⟨?_, rfl, ht.next, ?_, hother⟩, x.run.out,
      congrArg (fun v => Except.ok (v, x.run.out)) hview'.symm, ?_⟩
    · refine (ht.owned ho (hsub key p hp) ?_).1
      rw [hlimit]
      exact ho.limit key p (hsub key p hp)
    · change s.files.filter (fun k => decide (k ≠ key)) = _
      exact Dict.filter_congr fun k _ => by simp
    · rw [← hstate]
      rw [hcount] at hfin
      exact hfin

variable (cfg) in
/-- The files of a client end. -/
theorem finishAll_spec {files : Dict FileKey Nat} (ho : s.heap.Owned files)
    (hsub : ∀ key p, s.files.get? key = some p → files.get? key = some p) (hn : keys.Nodup)
    (hk : ∀ key ∈ keys, ∃ p, s.files.get? key = some p) :
    (keys.foldlM (SplitterObjects.finishAndRemove cfg) s).map view =
        (s.view.finishAll cfg keys).map Prod.fst ∧
      ∀ s', keys.foldlM (SplitterObjects.finishAndRemove cfg) s = .ok s' → Ended files keys s s' ∧
        ∃ out, s.view.finishAll cfg keys = .ok (s'.view, out) ∧
          s.view.FinishedAll cfg (reachedIn s'.heap files) keys s.view.accountsBatchesByClient
            s'.view.accountsBatchesByClient out := by
  induction keys generalizing s with
  | nil =>
    refine ⟨rfl, fun s' h => ?_⟩
    cases h
    exact ⟨⟨ho, rfl, Nat.le_refl _, (Dict.filter_true _).symm, fun _ _ _ _ => rfl⟩, [], rfl, rfl,
      rfl⟩
  | cons key keys ih =>
    obtain ⟨p, hp⟩ := hk key List.mem_cons_self
    have hn := List.nodup_cons.mp hn
    obtain ⟨hview, hspec⟩ := finishAndRemove_spec cfg ho hsub hp
    rw [List.foldlM_cons, FileSplitterState.finishAll]
    rcases Except.of_map_eq hview with ⟨e, hs₁, hpure⟩ | ⟨s₁, _, hs₁, -, -⟩
    · rw [hs₁, hpure]
      exact ⟨rfl, by rintro _ ⟨⟩⟩
    · rw [hs₁]
      obtain ⟨hend, out, hpure, hfin⟩ := hspec s₁ hs₁
      have hleft : ∀ k ∈ keys, s₁.files.get? k = s.files.get? k := by
        intro k hm
        rw [hend.remaining, Dict.get?_filter, if_pos]
        exact decide_eq_true fun he => hn.1 (List.mem_singleton.mp he ▸ hm)
      obtain ⟨hview₁, hspec₁⟩ := ih (s := s₁) hend.owned
        (fun k q hq => by
          rw [hend.remaining, Dict.get?_filter] at hq
          split at hq
          · exact hsub k q hq
          · cases hq)
        hn.2 (fun k hm => by
          rw [hleft k hm]
          exact hk k (List.mem_cons_of_mem _ hm))
      rw [hpure, Except.ok_bind, Except.ok_bind]
      dsimp only
      constructor
      · rw [hview₁]
        cases s₁.view.finishAll cfg keys <;> rfl
      · intro s' h
        obtain ⟨hend₁, out₁, hpure₁, hfin₁⟩ := hspec₁ s' h
        refine ⟨⟨hend₁.owned, hend₁.counts.trans hend.counts,
          Nat.le_trans hend.next hend₁.next, ?_, ?_⟩,
          out ++ out₁, by rw [hpure₁]; rfl, _, s₁.view.accountsBatchesByClient, out, out₁,
          by rw [get?_view, hp]; rfl, ?_, ?_, rfl⟩
        · rw [hend₁.remaining, hend.remaining, Dict.filter_filter]
          refine Dict.filter_congr fun k _ => ?_
          by_cases h₁ : k = key <;> by_cases h₂ : k ∈ keys <;> simp [h₁, h₂]
        · intro k q hq hm
          rw [List.mem_cons, not_or] at hm
          exact (hend₁.others k q hq hm.2).trans
            (hend.others k q hq fun he => hm.1 (List.mem_singleton.mp he))
        · rw [reachedIn_of_get? (hsub key p hp), hend₁.others key p (hsub key p hp) hn.1]
          exact hfin
        · refine hfin₁.congr fun k hm => ?_
          rw [get?_view, get?_view, hleft k hm]
          obtain ⟨q, hq⟩ := hk k (List.mem_cons_of_mem _ hm)
          have hne : k ≠ key := fun he => hn.1 (he ▸ hm)
          rw [hq]
          exact congrArg some (hend.others k q (hsub k q hq) fun he =>
            hne (List.mem_singleton.mp he)).symm

variable (cfg) in
/-- The file of a chunk, made if it is not there. -/
theorem Sound.stateFor (hs : s.Sound) (key : FileKey) :
    (∃ e, s.view.stateFor cfg key = .error e ∧ s.stateFor cfg key = .error e) ∨
      ∃ f t p, s.view.stateFor cfg key = .ok f ∧ s.stateFor cfg key = .ok (t, p) ∧ t.Sound ∧
        t.files.get? key = some p ∧ t.heap.fileState p = f ∧
        t.view = { s.view with files := s.view.files.set key f } ∧
        ∀ k q, s.files.get? k = some q → t.files.get? k = some q := by
  unfold SplitterObjects.stateFor FileSplitterState.stateFor
  rw [get?_view]
  cases hp : s.files.get? key with
  | some p =>
    have hget : s.view.files.get? key = some (s.heap.fileState p) := by rw [get?_view, hp]; rfl
    refine .inr ⟨s.heap.fileState p, s, p, rfl, rfl, hs, hp, rfl, ?_, fun _ _ hq => hq⟩
    rw [Dict.set_of_get? hget]
  | none =>
    rw [SplitterHeap.emptyFile_eq]
    dsimp only [Option.map]
    cases hcreate : LineSplitter.create cfg.maxLineBytes with
    | error e => exact .inl ⟨e, rfl, rfl⟩
    | ok splitter =>
      obtain ⟨hpos, hsplitter⟩ := Except.ok_of_raiseIf hcreate
      cases hsplitter
      have hk := s.heap.keeps_newFile { splitter := { maxLineBytes := cfg.maxLineBytes } }
      obtain ⟨howned, hfiles⟩ := hs.files.set_newFile key
        (s := { splitter := { maxLineBytes := cfg.maxLineBytes } }) (Nat.pos_of_ne_zero hpos)
      refine .inr ⟨_, _, _, rfl, rfl, ⟨Nat.lt_of_lt_of_le hs.counts hk.next, howned⟩,
        Dict.get?_set_self .., SplitterHeap.fileState_newFile .., ?_, fun k q hq => ?_⟩
      · rw [view, view, hfiles]
        rfl
      · have hne : key ≠ k := fun he => nomatch (he ▸ hp).symm.trans hq
        exact (Dict.get?_set_of_ne _ _ hne).trans hq

/-- `s'` has objects of its own and looks like what the change makes of `s`, and the counters of its
files count what the change emits. -/
structure Applied (cfg : FileSplitterStateConfig) (s : SplitterObjects)
    (change : FileSplitterChange) (s' : SplitterObjects) : Prop where
  sound : s'.Sound
  counts : ∃ out reached, s.view.run cfg change = .ok (s'.view, out) ∧
    (∀ key p, s.files.get? key = some p → reached key = s'.heap.fileState p) ∧
    s.view.Counts cfg s'.view reached out change

theorem Sound.applyChange_chunk (hs : s.Sound) {clientId fileType offset : Nat} {relPath : String}
    {payloadB64 : List Char} :
    (s.applyChange cfg (.chunk clientId relPath fileType offset payloadB64)).map view =
        (s.view.run cfg (.chunk clientId relPath fileType offset payloadB64)).map Prod.fst ∧
      ∀ s', s.applyChange cfg (.chunk clientId relPath fileType offset payloadB64) = .ok s' →
        Applied cfg s (.chunk clientId relPath fileType offset payloadB64) s' := by
  rw [SplitterObjects.applyChange]
  rcases hs.stateFor cfg ⟨clientId, relPath⟩ with
    ⟨e, h₁, h₂⟩ | ⟨f, t, p, h₁, h₂, ht, hp, hf, hview, hsub⟩
  · rw [h₂, FileSplitterState.run, FileSplitterState.chunkRun, h₁]
    exact ⟨rfl, by intros; contradiction⟩
  · have hcounts : t.heap.counts t.accountsBatchesByClient = s.view.accountsBatchesByClient :=
      congrArg FileSplitterState.accountsBatchesByClient hview
    have hrun := FileCall.run_runChunk cfg ⟨clientId, relPath⟩
      { heap := t.heap, state := p, counts := t.accountsBatchesByClient } fileType offset payloadB64
    have hcall : FileCall.run { heap := t.heap, state := p, counts := t.accountsBatchesByClient } =
        ⟨f, s.view.accountsBatchesByClient, []⟩ := by
      rw [FileCall.run, hf, hcounts]
    rw [hcall] at hrun
    have hpure : s.view.run cfg (.chunk clientId relPath fileType offset payloadB64) =
        (cfg.runChunk ⟨clientId, relPath⟩ ⟨f, s.view.accountsBatchesByClient, []⟩
          fileType offset payloadB64).map fun r => ({ s.view with
            files := s.view.files.set ⟨clientId, relPath⟩ r.state
            accountsBatchesByClient := r.accountsCounts
            chunksReceived := s.view.chunksReceived + 1 }, r.out) := by
      rw [FileSplitterState.run, FileSplitterState.chunkRun, h₁, Except.ok_bind]
      cases cfg.runChunk ⟨clientId, relPath⟩ ⟨f, s.view.accountsBatchesByClient, []⟩
        fileType offset payloadB64 <;> rfl
    rw [h₂, hpure, ← hrun, Except.ok_bind]
    dsimp only
    cases hx : FileCall.runChunk cfg ⟨clientId, relPath⟩
      { heap := t.heap, state := p, counts := t.accountsBatchesByClient } fileType offset
        payloadB64 with
    | error e => exact ⟨rfl, by intros; contradiction⟩
    | ok x =>
      have htouch := FileCall.touches_runChunk hx
      rw [hx] at hrun
      obtain ⟨⟨out, hout, hcounted⟩, hlimit⟩ := FileSplitterStateConfig.counted_runChunk hrun.symm
      obtain ⟨howned, hfiles⟩ := htouch.owned ht.files hp (by
        rw [hlimit, ← hf]
        exact ht.files.limit _ p hp)
      have hcount : x.heap.counts t.accountsBatchesByClient = x.run.accountsCounts :=
        congrArg x.heap.counts htouch.counts.symm
      have hstate : x.run.state = x.heap.fileState p := congrArg x.heap.fileState htouch.state
      have hview' : ({ t with heap := x.heap, chunksReceived := t.chunksReceived +
          1 } : SplitterObjects).view =
          { s.view with
            files := s.view.files.set ⟨clientId, relPath⟩ x.run.state
            accountsBatchesByClient := x.run.accountsCounts
            chunksReceived := s.view.chunksReceived + 1 } := by
        have hbefore : t.files.mapVals t.heap.fileState = s.view.files.set ⟨clientId, relPath⟩ f :=
          congrArg FileSplitterState.files hview
        have hchunks : t.chunksReceived = s.view.chunksReceived :=
          congrArg FileSplitterState.chunksReceived hview
        have heofs : t.eofsReceived = s.view.eofsReceived :=
          congrArg FileSplitterState.eofsReceived hview
        rw [view, hfiles, hbefore, Dict.set_set, hcount, hchunks, heofs]
      refine ⟨congrArg Except.ok hview', fun s' h => ?_⟩
      cases h
      have hreached : reachedIn x.heap t.files ⟨clientId, relPath⟩ = x.run.state := by
        rw [reachedIn_of_get? hp, hstate]
      refine ⟨⟨Nat.lt_of_lt_of_le ht.counts htouch.next, howned⟩, out, reachedIn x.heap t.files, ?_,
        fun k q hq => reachedIn_of_get? (hsub k q hq), f, h₁, ?_, ?_⟩
      · rw [hpure, ← hrun, hview']
        exact congrArg (fun o => Except.ok (_, o)) hout
      · rw [hview', hreached]
      · rw [hview', hreached]
        exact hcounted

/-- Files have ended, and the end was counted. -/
theorem Ended.applied {s₁ : SplitterObjects} (hs : s.Sound) (he : Ended s.files keys s s₁)
    (out : List Emission)
    (hcounts : ∀ {s' reached out}, s'.files = (s.view.files.filter fun key => decide (key ∉ keys)) →
      s.view.FinishedAll cfg reached keys s.view.accountsBatchesByClient
        s'.accountsBatchesByClient out →
      s.view.Counts cfg s' reached out change)
    (hrun : s.view.run cfg change =
      .ok ({ s₁.view with eofsReceived := s₁.view.eofsReceived + 1 }, out))
    (hfin : s.view.FinishedAll cfg (reachedIn s₁.heap s.files) keys s.view.accountsBatchesByClient
      s₁.view.accountsBatchesByClient out) :
    Applied cfg s change { s₁ with eofsReceived := s₁.eofsReceived + 1 } := by
  have hsound : ({ s₁ with eofsReceived := s₁.eofsReceived + 1 } : SplitterObjects).Sound := by
    refine ⟨?_, ?_⟩
    · exact he.counts ▸ Nat.lt_of_lt_of_le hs.counts he.next
    · change s₁.heap.Owned s₁.files
      rw [he.remaining]
      exact he.owned.filter _
  refine ⟨hsound, out, _, hrun, fun k q hq => reachedIn_of_get? hq, hcounts ?_ hfin⟩
  change s₁.files.mapVals s₁.heap.fileState = (s.files.mapVals s.heap.fileState).filter _
  rw [he.remaining, ← Dict.mapVals_filter]
  refine Dict.mapVals_congr fun k q hq => ?_
  rw [Dict.get?_filter] at hq
  split at hq
  next hk => exact he.others k q hq (of_decide_eq_true hk)
  next => cases hq

/-- The end of files is counted. -/
private theorem map_view_eofs {e : Except String SplitterObjects}
    {e' : Except String (FileSplitterState × List Emission)} (h : e.map view = e'.map Prod.fst) :
    (do let s ← e; return { s with eofsReceived := s.eofsReceived + 1 } : Except String _).map
      view =
      (do
        let (v, out) ← e'
        return ({ v with eofsReceived := v.eofsReceived + 1 }, out) : Except String _).map
          Prod.fst := by
  rcases Except.of_map_eq h with ⟨_, rfl, rfl⟩ | ⟨s, r, rfl, rfl, hv⟩
  · rfl
  · exact congrArg (fun v : FileSplitterState =>
      Except.ok { v with eofsReceived := v.eofsReceived + 1 }) hv

variable (cfg) in
theorem Sound.applyChange (hs : s.Sound) (change : FileSplitterChange) :
    (s.applyChange cfg change).map view = (s.view.run cfg change).map Prod.fst ∧
      ∀ s', s.applyChange cfg change = .ok s' → Applied cfg s change s' := by
  cases change with
  | chunk clientId relPath fileType offset payloadB64 => exact hs.applyChange_chunk
  | fileEof clientId relPath =>
    rw [SplitterObjects.applyChange, FileSplitterState.run]
    cases hp : s.files.get? ⟨clientId, relPath⟩ with
    | none =>
      have hget : s.view.files.get? ⟨clientId, relPath⟩ = none := by rw [get?_view, hp]; rfl
      have hended : s.view.ended (.fileEof clientId relPath) = [] := by
        rw [FileSplitterState.ended, if_neg]
        rw [Dict.contains, hget]
        exact Bool.false_ne_true
      have hpure : s.view.finishAndRemove cfg ⟨clientId, relPath⟩ = .ok (s.view, []) := by
        rw [FileSplitterState.finishAndRemove, hget]
      have hobjects : s.finishAndRemove cfg ⟨clientId, relPath⟩ = .ok s := by
        rw [SplitterObjects.finishAndRemove, hp]
      rw [hpure, hobjects]
      refine ⟨rfl, fun s' h => ?_⟩
      cases h
      have hend : Ended s.files [] s s :=
        ⟨hs.files, rfl, Nat.le_refl _, (Dict.filter_true _).symm, fun _ _ _ _ => rfl⟩
      refine hend.applied hs [] (fun hfiles hfin => ?_) ?_ ⟨rfl, rfl⟩
      · rw [← hended] at hfiles hfin
        exact ⟨hfiles, hfin⟩
      · rw [FileSplitterState.run, hpure]
        rfl
    | some p =>
      have hget : s.view.files.get? ⟨clientId, relPath⟩ = some (s.heap.fileState p) := by
        rw [get?_view, hp]; rfl
      have hended : s.view.ended (.fileEof clientId relPath) = [⟨clientId, relPath⟩] := by
        rw [FileSplitterState.ended, if_pos]
        rw [Dict.contains, hget]
        rfl
      obtain ⟨hview, hspec⟩ := finishAndRemove_spec cfg hs.files (fun _ _ hq => hq) hp
      refine ⟨map_view_eofs hview, ?_⟩
      · intro s' h
        obtain ⟨s₁, hs₁, h⟩ := Except.ok_of_bind h
        cases h
        obtain ⟨hend, out, hpure, hfin⟩ := hspec s₁ hs₁
        refine hend.applied hs out (fun hfiles hfin => ?_) ?_ ?_
        · rw [← hended] at hfiles hfin
          exact ⟨hfiles, hfin⟩
        · rw [FileSplitterState.run, hpure]
          rfl
        · refine ⟨_, _, out, [], hget, ?_, ⟨rfl, rfl⟩, (List.append_nil _).symm⟩
          rw [reachedIn_of_get? hp]
          exact hfin
  | clientEof clientId =>
    rw [SplitterObjects.applyChange, FileSplitterState.run, keysOf_view]
    obtain ⟨hview, hspec⟩ := finishAll_spec cfg hs.files (fun _ _ hq => hq)
      (s.keysOf_nodup clientId) fun key hm => get?_of_mem_keysOf hm
    refine ⟨map_view_eofs hview, ?_⟩
    · intro s' h
      obtain ⟨s₁, hs₁, h⟩ := Except.ok_of_bind h
      cases h
      obtain ⟨hend, out, hpure, hfin⟩ := hspec s₁ hs₁
      refine hend.applied hs out (fun hfiles hfin => ?_) ?_ hfin
      · rw [← keysOf_view] at hfiles hfin
        exact ⟨hfiles, hfin⟩
      · rw [FileSplitterState.run, keysOf_view, hpure]
        rfl
  | abort clientId =>
    have hview : ∀ s', s.applyChange cfg (.abort clientId) = .ok s' → s'.view = { s.view with
        files := s.view.files.filter fun key => decide (key.clientId ≠ clientId)
        accountsBatchesByClient := s.view.accountsBatchesByClient.erase clientId } := by
      intro s' h
      cases h
      simp only [view, Dict.mapVals_filter, Function.update_self]
      rfl
    refine ⟨congrArg Except.ok (hview _ rfl), fun s' h => ?_⟩
    have hv := hview s' h
    cases h
    refine ⟨⟨hs.counts, ?_⟩, [], reachedIn s.heap s.files, ?_, fun k q hq => reachedIn_of_get? hq,
      rfl, ?_, ?_⟩
    · have hk := hs.files.filter fun key => decide (key.clientId ≠ clientId)
      exact ⟨fun k q hq =>
        ⟨(hk.below k q hq).state, (hk.below k q hq).splitter, (hk.below k q hq).lines⟩,
        fun k k' q q' hq hq' hne => ⟨(hk.apart k k' q q' hq hq' hne).state,
          (hk.apart k k' q q' hq hq' hne).splitter, (hk.apart k k' q q' hq hq' hne).lines⟩,
            hk.limit⟩
    · rw [hv]
      rfl
    · rw [hv]
    · rw [hv]

/-! ### Snapshots -/

theorem entries_snapshot (s : SplitterObjects) : s.snapshot.files.entries =
    s.files.entries.map fun e => ((e.1.clientId, e.1.relPath), s.heap.fileState e.2) := by
  refine Dict.entries_ofList ?_
  rw [List.map_map]
  have hinj : Function.Injective fun key : FileKey => (key.clientId, key.relPath) := by
    rintro ⟨c, path⟩ ⟨c', path'⟩ h
    cases h
    rfl
  have hkeys := s.files.nodup.map hinj
  rw [List.map_map] at hkeys
  exact hkeys

/-- The files of a snapshot become new objects. -/
theorem restoreFiles_spec {es : List ((Nat × String) × FileState)} {files : Dict FileKey Nat}
    (hpos : ∀ e ∈ es, 0 < e.2.splitter.maxLineBytes) (ho : heap.Owned files) :
    ∃ heap' files', es.foldlM restoreFile (heap, files) = .ok (heap', files') ∧
      heap'.Owned files' ∧ files'.mapVals heap'.fileState =
        es.foldl (fun d e => d.set ⟨e.1.1, e.1.2⟩ e.2) (files.mapVals heap.fileState) := by
  induction es generalizing heap files with
  | nil => exact ⟨heap, files, rfl, ho, rfl⟩
  | cons e es ih =>
    have hv := hpos e List.mem_cons_self
    obtain ⟨ho₁, hview₁⟩ := ho.set_newFile ⟨e.1.1, e.1.2⟩ hv
    obtain ⟨heap', files', hfold, ho', hview'⟩ :=
      ih (fun e he => hpos e (List.mem_cons_of_mem _ he)) ho₁
    refine ⟨heap', files', ?_, ho', by rw [hview', hview₁]; rfl⟩
    rw [List.foldlM_cons, restoreFile, SplitterHeap.filestateFromDict_eq hv]
    exact hfold

/-- A restored state has objects of its own, and looks like the state of the snapshot. -/
theorem Sound.restore_snapshot (hs : s.Sound) (heap : SplitterHeap) :
    ∃ r, restore heap s.snapshot = .ok r ∧ r.Sound ∧ r.view = s.view := by
  have hpos : ∀ e ∈ s.snapshot.files.entries, 0 < e.2.splitter.maxLineBytes := by
    intro e he
    rw [entries_snapshot] at he
    obtain ⟨⟨key, p⟩, hm, rfl⟩ := List.mem_map.mp he
    exact hs.files.limit key p (Dict.mem_entries_iff.mp hm)
  obtain ⟨heap', files', hfold, ho, hview⟩ := restoreFiles_spec hpos (.empty heap)
  have hk := heap'.keeps_newCounts s.snapshot.accountsBatchesByClient
  have hfiles : files'.mapVals heap'.fileState = s.files.mapVals s.heap.fileState := by
    have hempty : (∅ : Dict FileKey Nat).mapVals heap.fileState = ∅ := rfl
    have hview : files'.mapVals heap'.fileState =
        Dict.ofList (s.files.mapVals s.heap.fileState).entries := by
      rw [hview, entries_snapshot, hempty, List.foldl_map, Dict.ofList, Dict.mapVals,
        List.foldl_map]
    rw [hview, Dict.ofList_entries]
  refine ⟨_, by rw [restore, hfold]; rfl, ⟨Nat.lt_succ_self _, ho.keeps hk⟩, ?_⟩
  rw [view, view, ho.view_keeps hk, hfiles, SplitterHeap.counts_newCounts]
  rfl

/-! ### Runs -/

theorem Sound.drive (hs : s.Sound) (ht : t.Sound) (hv : s.view = t.view)
    (changes : List FileSplitterChange) :
    (s.drive cfg changes).2 = (t.drive cfg changes).2 ∧
      (s.drive cfg changes).1.view = (t.drive cfg changes).1.view := by
  induction changes generalizing s t with
  | nil => exact ⟨rfl, hv⟩
  | cons change changes ih =>
    obtain ⟨hout, hkeeps⟩ := hs.simulate cfg change
    obtain ⟨hout', hkeeps'⟩ := ht.simulate cfg change
    rw [hv, ← hout'] at hout
    rw [SplitterObjects.drive, SplitterObjects.drive]
    rcases Except.of_map_eq hout with ⟨e, hsim, hsim'⟩ | ⟨⟨s₁, outputs⟩, ⟨t₁, _⟩, hsim, hsim', rfl⟩
    · rw [hsim, hsim']
      obtain ⟨hrest, hview⟩ := ih hs ht hv
      exact ⟨congrArg (.error e :: ·) hrest, hview⟩
    · obtain ⟨he, hk⟩ := hkeeps _ _ hsim
      obtain ⟨he', hk'⟩ := hkeeps' _ _ hsim'
      obtain ⟨hs₁, hview₁⟩ := hs.of_keeps hk
      obtain ⟨ht₁, hview₁'⟩ := ht.of_keeps hk'
      rw [← he] at hs₁ hview₁
      rw [← he'] at ht₁ hview₁'
      have hv₁ : s₁.view = t₁.view := hview₁.trans (hv.trans hview₁'.symm)
      obtain ⟨happly, hsound⟩ := hs₁.applyChange cfg change
      obtain ⟨happly', hsound'⟩ := ht₁.applyChange cfg change
      rw [hv₁, ← happly'] at happly
      rw [hsim, hsim']
      dsimp only
      rcases Except.of_map_eq happly with ⟨e, hs₂, ht₂⟩ | ⟨s₂, t₂, hs₂, ht₂, hv₂⟩
      · rw [hs₂, ht₂]
        exact ⟨rfl, hv₁⟩
      · rw [hs₂, ht₂]
        obtain ⟨hrest, hview⟩ := ih (hsound _ hs₂).sound (hsound' _ ht₂).sound hv₂
        exact ⟨congrArg (.ok outputs :: ·) hrest, hview⟩

end SplitterObjects

namespace LiveSplitter

open SplitterObjects

/-- **Simulation of the file splitter.** A change that `simulate` accepts changes no object of the
state, and `apply_change` accepts it and counts exactly the batches that `simulate` gave; the ends
that it gave announce the counters that the files reach, also those that are removed. A state that
was restored from a snapshot, in any process, gives and does the same as the state of the snapshot,
whatever changes follow. -/
theorem simulate_faithful (cfg : FileSplitterStateConfig) (s : LiveSplitter) :
    (∀ change t outputs, s.simulate cfg change = .ok (t, outputs) →
      t = { s.toSplitterObjects with heap := t.heap } ∧ SplitterHeap.Keeps s.heap t.heap ∧
      t.view = s.view ∧
        ∃ (s' : LiveSplitter) (out : List Emission) (reached : FileKey → FileState),
          t.applyChange cfg change = .ok s'.toSplitterObjects ∧
          out.mapM (FileSplitterState.emit cfg) = .ok outputs ∧
          (∀ key p, s.files.get? key = some p → reached key = s'.heap.fileState p) ∧
          s.view.Counts cfg s'.view reached out change) ∧
    ∀ heap, ∃ r : LiveSplitter, restore heap s.snapshot = .ok r.toSplitterObjects ∧
      ∀ changes, (r.drive cfg changes).2 = (s.drive cfg changes).2 ∧
        (r.drive cfg changes).1.view = (s.drive cfg changes).1.view := by
  constructor
  · intro change t outputs h
    obtain ⟨hout, hkeeps⟩ := s.sound.simulate cfg change
    obtain ⟨he, hk⟩ := hkeeps t outputs h
    obtain ⟨ht, hview⟩ := s.sound.of_keeps hk
    rw [← he] at ht hview
    rw [h] at hout
    obtain ⟨v, out, hrun, hmap⟩ := FileSplitterState.simulate_eq_ok_iff.mp hout.symm
    obtain ⟨happly, hspec⟩ := ht.applyChange cfg change
    rw [hview, hrun] at happly
    obtain ⟨s', hs', -⟩ := Except.ok_of_map happly
    obtain ⟨hsound, out', reached, hrun', hreached, hcounts⟩ := hspec s' hs'
    rw [hview, hrun] at hrun'
    cases hrun'
    refine ⟨he, hk, hview, ⟨s', hsound⟩, out, reached, hs', hmap, fun key p hp =>
      hreached key p ?_, ?_⟩
    · rw [he]
      exact hp
    · rw [hview] at hcounts
      exact hcounts
  · intro heap
    obtain ⟨r, hr, hsound, hview⟩ := s.sound.restore_snapshot heap
    exact ⟨⟨r, hsound⟩, hr, fun changes => hsound.drive s.sound hview changes⟩

/-- A header and two lines, where a batch has room for one. -/
theorem simulate_faithful_batch : ∃ (t : SplitterObjects) (s' : LiveSplitter)
    (outputs : List EmittedOutput),
    init.simulate ⟨64, 1, 5, true⟩
      (.ofChunk 1 "t" fileTypeTransactions 0 [97, 10, 49, 10, 50, 10]) =
      .ok (t, outputs) ∧ outputs.length = 1 ∧ t.view = init.view ∧
    t.applyChange ⟨64, 1, 5, true⟩
      (.ofChunk 1 "t" fileTypeTransactions 0 [97, 10, 49, 10, 50, 10]) =
      .ok s'.toSplitterObjects := by
  have hlen : (match init.simulate ⟨64, 1, 5, true⟩
      (.ofChunk 1 "t" fileTypeTransactions 0 [97, 10, 49, 10, 50, 10]) with
      | .ok (_, outputs) => outputs.length
      | .error _ => 0) = 1 := by decide +kernel
  split at hlen
  next t outputs h =>
    obtain ⟨-, -, hview, s', -, -, happly, -⟩ :=
      (simulate_faithful ⟨64, 1, 5, true⟩ init).1 _ t outputs h
    exact ⟨t, s', outputs, h, hlen, hview, happly⟩
  next => cases hlen

end LiveSplitter

end MoneyLaundering
