import MoneyLaundering.FaultTolerance.History
import MoneyLaundering.Lib.Transition
import MoneyLaundering.Workers.Q3Barrier

/-!
# Recovery of the candidate files

The candidate files of the Q3 barrier are a side effect of `apply_change`: a crash loses the memory
of the worker and keeps the files. `restore` reopens the logs that a snapshot lists and cuts each
file to the listed length, and the replay appends the rest again. A file that the snapshot does not
list is not cut (`Q3Log.candidate_file_doubled`); when every open client with a file is listed, the
files come back as the log describes them (`Q3Log.files_match_durable_batches`).
-/

namespace MoneyLaundering

open Bytes Transition

/-! ## Snapshot and restore -/

/-- What `snapshot` returns. -/
structure Q3Snapshot where
  averagesByClient : Dict Nat (Dict String UInt64)
  avgEofByClient : Finset Nat
  candidatesEofByClient : Finset Nat
  expectedTotalByClient : Dict Nat Nat
  closedByClient : Finset Nat
  diskLogBytes : Dict Nat Nat

namespace Q3BarrierState

def snapshot (s : Q3BarrierState) : Q3Snapshot where
  averagesByClient := s.averagesByClient
  avgEofByClient := s.avgEofByClient
  candidatesEofByClient := s.candidatesEofByClient
  expectedTotalByClient := s.expectedTotalByClient
  closedByClient := s.closedByClient
  diskLogBytes := s.diskLogs

/-- `_DiskLog.truncate_to` on an open log. A file that is shorter is filled up with zeros. -/
def truncateTo (s : Q3BarrierState) (clientId byteCount : Nat) : Q3BarrierState :=
  { s with
    files := s.files.set clientId ((s.file clientId).take byteCount ++
      List.replicate (byteCount - (s.file clientId).length) 0)
    diskLogs := s.diskLogs.set clientId byteCount }

/-- One round of the loop of `restore`. -/
def reopen (s : Q3BarrierState) (entry : Nat × Nat) : Q3BarrierState :=
  (s.openLog entry.1).truncateTo entry.1 entry.2

/-- `restore`, over the files on disk. -/
def restore (files : Dict Nat Bytes) (data : Q3Snapshot) : Q3BarrierState :=
  data.diskLogBytes.entries.foldl reopen {
    averagesByClient := data.averagesByClient
    avgEofByClient := data.avgEofByClient
    candidatesEofByClient := data.candidatesEofByClient
    expectedTotalByClient := data.expectedTotalByClient
    closedByClient := data.closedByClient
    files }

section files
variable (s : Q3BarrierState) (c c' : Nat)

@[simp] theorem file_openLog : (s.openLog c).file c' = s.file c' := by
  unfold openLog
  split
  · rfl
  · simp only [file, Dict.getD_set]
    split
    · next h => rw [h]
    · rfl

theorem diskLogs_openLog : (s.openLog c).diskLogs.get? c' =
    if c = c' then some ((s.diskLogs.get? c).getD (s.file c).length) else s.diskLogs.get? c' := by
  unfold openLog
  split
  · next hc =>
    obtain ⟨n, hn⟩ := Option.isSome_iff_exists.mp hc
    split
    · next h => rw [← h, hn]; rfl
    · rfl
  · next hc =>
    have hn : s.diskLogs.get? c = none := by simpa [Dict.contains] using hc
    rw [Dict.get?_set, hn]
    rfl

@[simp] theorem closedByClient_openLog : (s.openLog c).closedByClient = s.closedByClient := by
  unfold openLog
  split <;> rfl

theorem file_appendLog (payload : Bytes) : (s.appendLog c payload).file c' =
    if c = c' then s.file c ++ DiskLog.frame payload else s.file c' := by
  simp only [file, appendLog, Dict.getD_set]

theorem diskLogs_appendLog (payload : Bytes) : (s.appendLog c payload).diskLogs.get? c' =
    if c = c' then some (s.diskLogs.getD c 0 + (DiskLog.recordLenSize + payload.length))
    else s.diskLogs.get? c' := by
  simp only [appendLog, Dict.get?_set]

/-- A candidate batch of an open client. -/
theorem applyCandidateData_spec (payload : List Char) {c : Nat} (hc : c ∉ s.closedByClient) :
    (s.applyCandidateData c payload).closedByClient = s.closedByClient ∧
    (∀ c', (s.applyCandidateData c payload).file c' =
      if c = c' then s.file c ++ DiskLog.frame ((Base64.decode payload).getD []) else s.file c') ∧
    ∀ c', (s.applyCandidateData c payload).diskLogs.get? c' =
      if c = c' then some ((s.diskLogs.get? c).getD (s.file c).length +
        (DiskLog.recordLenSize + ((Base64.decode payload).getD []).length))
      else s.diskLogs.get? c' := by
  simp only [applyCandidateData, hc, if_false]
  refine ⟨closedByClient_openLog s c, fun c' => ?_, fun c' => ?_⟩
  · rw [file_appendLog, file_openLog, file_openLog]
  · rw [diskLogs_appendLog, Dict.getD, diskLogs_openLog, diskLogs_openLog]
    by_cases h : c = c'
    · simp [h]
    · simp [h]

theorem file_truncateTo (byteCount : Nat) : (s.truncateTo c byteCount).file c' =
    if c = c' then (s.file c).take byteCount ++ List.replicate (byteCount - (s.file c).length) 0
    else s.file c' := by
  simp only [file, truncateTo, Dict.getD_set]

end files

theorem reopen_spec (s : Q3BarrierState) (c n : Nat) :
    (s.reopen (c, n)).closedByClient = s.closedByClient ∧
    ∀ c', ((s.reopen (c, n)).diskLogs.get? c' = if c = c' then some n else s.diskLogs.get? c') ∧
      (s.reopen (c, n)).file c' =
        if c = c' then (s.file c).take n ++ List.replicate (n - (s.file c).length) 0
        else s.file c' := by
  refine ⟨closedByClient_openLog s c, fun c' => ⟨?_, ?_⟩⟩
  · simp only [reopen, truncateTo, Dict.get?_set, diskLogs_openLog]
    split <;> rfl
  · simp only [reopen, file_truncateTo, file_openLog]

/-- The loop of `restore`. -/
theorem foldl_reopen (entries : List (Nat × Nat)) (s : Q3BarrierState)
    (hn : (entries.map Prod.fst).Nodup) :
    (entries.foldl reopen s).closedByClient = s.closedByClient ∧
    ∀ c, (entries.foldl reopen s).diskLogs.get? c =
        (match Dict.find c entries with
          | some n => some n
          | none => s.diskLogs.get? c) ∧
      (entries.foldl reopen s).file c = match Dict.find c entries with
        | some n => (s.file c).take n ++ List.replicate (n - (s.file c).length) 0
        | none => s.file c := by
  induction entries generalizing s with
  | nil => exact ⟨rfl, fun c => ⟨rfl, rfl⟩⟩
  | cons e entries ih =>
    obtain ⟨k, n⟩ := e
    rw [List.map_cons, List.nodup_cons] at hn
    obtain ⟨hclosed, hstep⟩ := s.reopen_spec k n
    obtain ⟨ihclosed, ih⟩ := ih (s.reopen (k, n)) hn.2
    rw [List.foldl_cons]
    refine ⟨ihclosed.trans hclosed, fun c => ?_⟩
    obtain ⟨ihcount, ihfile⟩ := ih c
    rw [ihcount, ihfile, (hstep c).1, (hstep c).2, Dict.find]
    by_cases h : k = c
    · -- the client is not listed again
      have hnone : Dict.find c entries = none := Dict.find_eq_none_iff.mpr (h ▸ hn.1)
      simp [h, hnone]
    · simp [h]

/-- The files after `restore`: the listed ones are cut, the others are as they were. -/
theorem restore_spec (files : Dict Nat Bytes) (data : Q3Snapshot) :
    (restore files data).closedByClient = data.closedByClient ∧
    ∀ c, (restore files data).diskLogs.get? c = data.diskLogBytes.get? c ∧
      (restore files data).file c = match data.diskLogBytes.get? c with
        | some n => (files.getD c []).take n ++ List.replicate (n - (files.getD c []).length) 0
        | none => files.getD c [] := by
  obtain ⟨hclosed, h⟩ := foldl_reopen data.diskLogBytes.entries {
    averagesByClient := data.averagesByClient
    avgEofByClient := data.avgEofByClient
    candidatesEofByClient := data.candidatesEofByClient
    expectedTotalByClient := data.expectedTotalByClient
    closedByClient := data.closedByClient
    files } data.diskLogBytes.nodup
  refine ⟨hclosed, fun c => ⟨(h c).1.trans ?_, (h c).2⟩⟩
  rw [← Dict.get?]
  cases data.diskLogBytes.get? c <;> rfl

end Q3BarrierState

/-! ## Runs -/

namespace Q3Log

/-- A barrier with its disk. `down` holds the candidate files while the process is dead; the handler
of the node is lost then. The disk keeps states as they were at a snapshot, and a recovery reads of
them what `snapshot` returns. -/
structure State where
  node : Node Q3BarrierState Q3BarrierState Q3Change
  down : Option (Dict Nat Bytes) := none

/-- What can happen. A crash falls after any number of the durable steps of a call; `written` tells
whether `apply_change` has reached the files by then. A recovery may die after any number of
records. -/
inductive Label where
  | call (c : Call Q3BarrierState Q3Change) (write : Except String PUnit)
  | crash (c : Call Q3BarrierState Q3Change) (steps : Nat) (written : Bool)
  | dieInRecovery (records : Nat)
  | recover

variable {α : Type} [LinearOrder α] (cfg : Q3BarrierConfig α)

def init : State where
  node := Node.init cfg.consumer.handler

/-- The message handlers on a message of an open client. -/
def receive (m : Q3Message) : Call Q3BarrierState Q3Change :=
  .handle m.key fun s => do
    let (change, emitted) ← cfg.changeFor s m
    return (change, ← emitted.mapM (cfg.packet m.clientId))

/-- The files at a crash: `apply_change` comes after the first durable step of a call. -/
def filesAtCrash (n : Node Q3BarrierState Q3BarrierState Q3Change)
    (c : Call Q3BarrierState Q3Change) (steps : Nat) (written : Bool) : Dict Nat Bytes :=
  if 0 < steps ∧ written then
    (n.call cfg.consumer.handler (.ok ⟨⟩) c).handler.workerState.files
  else n.handler.workerState.files

/-- What `start` loads: without a snapshot the files are deleted first, else they are cut to it. -/
def loadState (files : Dict Nat Bytes) (d : Disk Q3BarrierState) :
    Except String (HandlerState Q3BarrierState × Int) := do
  let (state, fromRecord) ← Handler.loadState cfg.consumer.handler d
  return ({ state with
    workerState :=
      match d.load with
      | none => {}
      | some snapshot => .restore files snapshot.workerState.snapshot }, fromRecord)

/-- `recover`, up to the given number of records. -/
def replayed (files : Dict Nat Bytes) (d : Disk Q3BarrierState) (records : Option Nat) :
    Except String (HandlerState Q3BarrierState × Nat) := do
  let (state, fromRecord) ← loadState cfg files d
  let log ← Wal.replay cfg.changeJson d.wal fromRecord
  return state.replayRecords Q3BarrierState.applyChange (log.take (records.getD log.length))

/-- One step, `none` when it is not enabled. -/
def exec (s : State) : Label → Option State
  | .call c write =>
    match s.down with
    | none => some { s with node := s.node.call cfg.consumer.handler write c }
    | some _ => none
  | .crash c steps written =>
    match s.down with
    | none => some {
        node := s.node.persist ((s.node.ops cfg.consumer.handler c).take steps)
        down := some (filesAtCrash cfg s.node c steps written) }
    | some _ => none
  | .dieInRecovery records =>
    match s.down with
    | none => none
    | some files =>
      match replayed cfg files s.node.disk (some records) with
      | .error _ => none
      | .ok (state, _) => some { s with down := some state.workerState.files }
  | .recover =>
    match s.down with
    | none => none
    | some files =>
      match replayed cfg files s.node.disk none with
      | .error _ => none
      | .ok (state, applied) => some {
          node := { s.node with
            handler := { toHandlerState := state, appliedSinceSnapshot := applied } } }

/-- The candidate batches of a client among some changes. -/
def batchesIn (ops : List Q3Op) (clientId : Nat) : List Bytes :=
  ops.filterMap fun
    | .candidateData c payload =>
      if c = clientId then some ((Base64.decode payload).getD []) else none
    | _ => none

/-- The candidate batches of a client that the log holds, in order. -/
def durableBatches (history : List (WalRecord Q3Change)) (clientId : Nat) : List Bytes :=
  batchesIn ((stateChanges history).flatMap Q3Change.ops) clientId

/-- The clients that the log closes. -/
def durablyClosed (history : List (WalRecord Q3Change)) : List Nat :=
  ((stateChanges history).flatMap Q3Change.ops).filterMap fun
    | .close c => some c
    | _ => none

/-- A running barrier has the candidate batches of every open client in its file, in order and once
each. -/
def FilesMatch (s : State) : Prop :=
  s.down = none → ∀ clientId, s.node.handler.workerState.isClosed clientId = false →
    s.node.handler.workerState.file clientId =
      ((durableBatches s.node.history clientId).map DiskLog.frame).flatten

/-- A recovery that loads a snapshot finds no file of an open client that the snapshot does not
list. -/
def Listed (s : State) : Label → Prop
  | .dieInRecovery _ | .recover => ∀ files ∈ s.down, ∀ snapshot ∈ s.node.disk.load,
      ∀ entry ∈ files.entries, entry.2 = [] ∨
        snapshot.workerState.diskLogs.contains entry.1 = true ∨
        entry.1 ∈ durablyClosed s.node.history
  | _ => True

instance (s : State) : (l : Label) → Decidable (Listed s l)
  | .dieInRecovery _ | .recover => inferInstanceAs (Decidable (∀ files ∈ s.down, _))
  | .call .. | .crash .. => .isTrue trivial

end Q3Log

/-! ## What a recovery sees of the files -/

/-- The closed clients, and the files and lengths of the others. -/
@[ext] structure Q3View where
  closed : Finset Nat
  file : Nat → Bytes
  count : Nat → Option Nat

namespace Q3View

/-- The view with some more clients hidden. -/
def of (hidden : Finset Nat) (s : Q3BarrierState) : Q3View where
  closed := s.closedByClient
  file c := if c ∈ hidden ∨ c ∈ s.closedByClient then [] else s.file c
  count c := if c ∈ hidden ∨ c ∈ s.closedByClient then none else s.diskLogs.get? c

/-- The effect of a change on the files. -/
def applyOp (hidden : Finset Nat) (v : Q3View) : Q3Op → Q3View
  | .candidateData c payload =>
    if c ∈ hidden ∨ c ∈ v.closed then v
    else { v with
      file := Function.update v.file c (v.file c ++ DiskLog.frame ((Base64.decode payload).getD []))
      count := Function.update v.count c (some ((v.count c).getD (v.file c).length +
        (DiskLog.recordLenSize + ((Base64.decode payload).getD []).length))) }
  | .close c =>
    { closed := insert c v.closed
      file := Function.update v.file c []
      count := Function.update v.count c none }
  | _ => v

def apply (hidden : Finset Nat) (v : Q3View) (change : Q3Change) : Q3View :=
  change.ops.foldl (applyOp hidden) v

theorem of_applyCandidateData (hidden : Finset Nat) (s : Q3BarrierState) (c : Nat)
    (payload : List Char) :
    of hidden (s.applyCandidateData c payload) =
      (of hidden s).applyOp hidden (.candidateData c payload) := by
  by_cases hc : c ∈ s.closedByClient
  · simp [Q3BarrierState.applyCandidateData, applyOp, hc, of]
  · obtain ⟨hclosed, hfile, hcount⟩ := s.applyCandidateData_spec payload hc
    refine Q3View.ext ?_ (funext fun c' => ?_) (funext fun c' => ?_)
    · simp only [of, applyOp, hclosed]
      split <;> rfl
    · by_cases hh : c ∈ hidden
      · simp only [of, applyOp, hclosed, hfile, hh, true_or, if_true]
        by_cases h : c = c'
        · simp [← h, hh]
        · simp [h]
      · simp only [of, applyOp, hclosed, hfile, hh, hc, or_self, if_false, Function.update_apply]
        by_cases h : c' = c
        · simp [h, hh, hc]
        · simp [h, Ne.symm h]
    · by_cases hh : c ∈ hidden
      · simp only [of, applyOp, hclosed, hcount, hh, true_or, if_true]
        by_cases h : c = c'
        · simp [← h, hh]
        · simp [h]
      · simp only [of, applyOp, hclosed, hcount, hh, hc, or_self, if_false, Function.update_apply]
        by_cases h : c' = c
        · simp [h, hh, hc]
        · simp [h, Ne.symm h]

theorem of_applyClose (hidden : Finset Nat) (s : Q3BarrierState) (c : Nat) :
    of hidden (s.applyClose c) = (of hidden s).applyOp hidden (.close c) := by
  refine Q3View.ext rfl (funext fun c' => ?_) (funext fun c' => ?_)
  · simp only [of, applyOp, Function.update_apply]
    by_cases h : c' = c
    · simp [h, Q3BarrierState.applyClose]
    · have hfile : (s.applyClose c).file c' = s.file c' := by
        simp only [Q3BarrierState.file, Q3BarrierState.applyClose]
        split
        · rw [Dict.getD_erase, if_neg h]
        · rfl
      rw [hfile]
      simp [h, Q3BarrierState.applyClose]
  · simp only [of, applyOp, Function.update_apply]
    by_cases h : c' = c
    · simp [h, Q3BarrierState.applyClose]
    · simp [h, Q3BarrierState.applyClose, Dict.get?_erase]

theorem of_applyOp (hidden : Finset Nat) (s : Q3BarrierState) (op : Q3Op) :
    of hidden (s.applyOp op) = (of hidden s).applyOp hidden op := by
  cases op with
  | candidateData c payload => exact of_applyCandidateData hidden s c payload
  | close c => exact of_applyClose hidden s c
  | avgData c paymentFormat average =>
    simp only [Q3BarrierState.applyOp, Q3BarrierState.applyAvgData, applyOp]
    split <;> rfl
  | avgEof c =>
    simp only [Q3BarrierState.applyOp, Q3BarrierState.applyAvgEof, applyOp]
    split <;> rfl
  | candidateEof c expectedTotal =>
    simp only [Q3BarrierState.applyOp, Q3BarrierState.applyCandidateEof, applyOp]
    split <;> rfl

theorem of_applyChange (hidden : Finset Nat) (s : Q3BarrierState) (change : Q3Change) :
    of hidden (s.applyChange change) = (of hidden s).apply hidden change := by
  unfold Q3BarrierState.applyChange apply
  induction change.ops generalizing s with
  | nil => rfl
  | cons op ops ih => rw [List.foldl_cons, List.foldl_cons, ih, of_applyOp]

/-- Hiding clients that are closed anyway. -/
theorem of_eq_of {hidden : Finset Nat} {s : Q3BarrierState} (h : hidden ⊆ s.closedByClient) :
    of hidden s = of ∅ s := by
  have hmask : ∀ c, (c ∈ hidden ∨ c ∈ s.closedByClient) ↔
      (c ∈ (∅ : Finset Nat) ∨ c ∈ s.closedByClient) :=
    fun c =>
      ⟨fun hc => .inr (hc.elim (fun hc => h hc) id), fun hc => .inr (hc.resolve_left (by simp))⟩
  refine Q3View.ext rfl (funext fun c => ?_) (funext fun c => ?_)
  · simp only [of, hmask]
  · simp only [of, hmask]

/-- The view of the files that a list of changes leaves: the batches of an open client one after the
other, with a log as soon as there is one. -/
structure Matches (ops : List Q3Op) (v : Q3View) : Prop where
  closed : ∀ c, c ∈ v.closed ↔ .close c ∈ ops
  file : ∀ c, c ∉ v.closed → v.file c = ((Q3Log.batchesIn ops c).map DiskLog.frame).flatten
  count : ∀ c, c ∉ v.closed → v.count c =
    if Q3Log.batchesIn ops c = [] then none else some (v.file c).length

theorem length_frame (payload : Bytes) :
    (DiskLog.frame payload).length = DiskLog.recordLenSize + payload.length := by
  simp [DiskLog.frame]

theorem batchesIn_candidateData (ops : List Q3Op) (c c' : Nat) (payload : List Char) :
    Q3Log.batchesIn (ops ++ [.candidateData c payload]) c' =
      Q3Log.batchesIn ops c' ++ if c = c' then [(Base64.decode payload).getD []] else [] := by
  simp only [Q3Log.batchesIn, List.filterMap_append, List.filterMap_cons, List.filterMap_nil]
  split
  · next h => split at h <;> simp_all
  · next h => split at h <;> simp_all

theorem Matches.snoc {ops : List Q3Op} {v : Q3View} (h : Matches ops v) (op : Q3Op) :
    Matches (ops ++ [op]) (v.applyOp ∅ op) := by
  have hquiet : (∀ c payload, op ≠ .candidateData c payload) → (∀ c, op ≠ .close c) →
      v.applyOp ∅ op = v → Matches (ops ++ [op]) (v.applyOp ∅ op) := by
    intro hdata hclose hv
    have hbatches : ∀ c, Q3Log.batchesIn (ops ++ [op]) c = Q3Log.batchesIn ops c := by
      intro c
      cases op with
      | candidateData c payload => exact absurd rfl (hdata c payload)
      | _ => simp [Q3Log.batchesIn]
    rw [hv]
    refine ⟨fun c => ?_, fun c hc => ?_, fun c hc => ?_⟩
    · rw [h.closed c, List.mem_append, List.mem_singleton]
      exact ⟨.inl, fun ho => ho.resolve_right fun he => hclose c he.symm⟩
    · rw [hbatches, h.file c hc]
    · rw [hbatches, h.count c hc]
  cases op with
  | candidateData c payload =>
    have hclosed : (v.applyOp ∅ (.candidateData c payload)).closed = v.closed := by
      simp only [applyOp]
      split <;> rfl
    refine ⟨fun c' => ?_, fun c' hc' => ?_, fun c' hc' => ?_⟩
    · rw [hclosed, h.closed c']
      simp
    · rw [hclosed] at hc'
      simp only [batchesIn_candidateData, applyOp]
      by_cases hc : c = c'
      · subst hc
        simp [hc', h.file c hc']
      · rw [if_neg hc, List.append_nil, ← h.file c' hc']
        split
        · rfl
        · simp [Function.update_of_ne (Ne.symm hc)]
    · rw [hclosed] at hc'
      simp only [batchesIn_candidateData, applyOp]
      by_cases hc : c = c'
      · subst hc
        have hcount : (v.count c).getD (v.file c).length = (v.file c).length := by
          rw [h.count c hc']
          split <;> rfl
        simp [hc', hcount, length_frame]
      · rw [if_neg hc, List.append_nil]
        split
        · exact h.count c' hc'
        · simpa [Function.update_of_ne (Ne.symm hc)] using h.count c' hc'
  | close c =>
    have hbatches : ∀ c', Q3Log.batchesIn (ops ++ [.close c]) c' = Q3Log.batchesIn ops c' := by
      intro c'
      simp [Q3Log.batchesIn]
    refine ⟨fun c' => ?_, fun c' hc' => ?_, fun c' hc' => ?_⟩
    · simp only [applyOp, Finset.mem_insert, h.closed c', List.mem_append, List.mem_singleton,
        Q3Op.close.injEq]
      exact or_comm
    · simp only [applyOp, Finset.mem_insert, not_or] at hc' ⊢
      rw [hbatches, Function.update_of_ne hc'.1, h.file c' hc'.2]
    · simp only [applyOp, Finset.mem_insert, not_or] at hc' ⊢
      rw [hbatches, Function.update_of_ne hc'.1, Function.update_of_ne hc'.1, h.count c' hc'.2]
  | avgData | avgEof | candidateEof => exact hquiet nofun nofun rfl

theorem matches_ops (ops : List Q3Op) : Matches ops (ops.foldl (applyOp ∅) (of ∅ {})) := by
  induction ops using List.reverseRecOn with
  | nil =>
    exact ⟨fun c => by simp [of], fun c _ => by simp [of, Q3BarrierState.file, Q3Log.batchesIn],
      fun c _ => by simp [of, Q3Log.batchesIn]⟩
  | append_singleton ops op ih =>
    rw [List.foldl_append]
    exact ih.snoc op

theorem foldl_apply (hidden : Finset Nat) (changes : List Q3Change) (v : Q3View) :
    changes.foldl (apply hidden) v = (changes.flatMap Q3Change.ops).foldl (applyOp hidden) v := by
  induction changes generalizing v with
  | nil => rfl
  | cons change changes ih => rw [List.foldl_cons, List.flatMap_cons, List.foldl_append, ih]; rfl

end Q3View

namespace Q3Log

variable {α : Type} [LinearOrder α] (cfg : Q3BarrierConfig α)

/-- The view for the handler of the barrier. -/
def logView (hidden : Finset Nat) : View cfg.consumer.handler.worker Q3View where
  view := Q3View.of hidden
  apply := Q3View.apply hidden
  view_applyChange := Q3View.of_applyChange hidden

variable {cfg} {n : Node Q3BarrierState Q3BarrierState Q3Change}
  {history : List (WalRecord Q3Change)} {files : Dict Nat Bytes} {c : Nat}

theorem mem_durablyClosed : c ∈ durablyClosed history ↔
    .close c ∈ (stateChanges history).flatMap Q3Change.ops := by
  simp only [durablyClosed, List.mem_filterMap]
  constructor
  · rintro ⟨op, hm, ho⟩
    cases op with
    | close c' => cases ho; exact hm
    | _ => cases ho
  · exact fun hm => ⟨_, hm, rfl⟩

/-- The state that a history describes. -/
theorem matches_specState (history : List (WalRecord Q3Change)) :
    Q3View.Matches ((stateChanges history).flatMap Q3Change.ops)
      (specState cfg.consumer.handler (logView cfg ∅) history).workerState := by
  rw [workerState_specState]
  exact (Q3View.foldl_apply ∅ (stateChanges history) (Q3View.of ∅ {})).symm ▸ Q3View.matches_ops _

/-- A state with the view that a history describes. -/
structure Describes (history : List (WalRecord Q3Change)) (w : Q3BarrierState) : Prop where
  closed : ∀ c, c ∈ w.closedByClient ↔ c ∈ durablyClosed history
  file : ∀ c, c ∉ durablyClosed history →
    w.file c = ((durableBatches history c).map DiskLog.frame).flatten
  count : ∀ c, c ∉ durablyClosed history → w.diskLogs.get? c =
    if durableBatches history c = [] then none else some (w.file c).length

theorem describes_of_view {w : Q3BarrierState}
    (h : Q3View.of ∅ w = (specState cfg.consumer.handler (logView cfg ∅) history).workerState) :
    Describes history w := by
  have hm : Q3View.Matches ((stateChanges history).flatMap Q3Change.ops)
      (specState cfg.consumer.handler (logView cfg ∅) history).workerState :=
    matches_specState history
  rw [← h] at hm
  have hclosed : ∀ c, c ∈ w.closedByClient ↔ c ∈ durablyClosed history := fun c =>
    (hm.closed c).trans mem_durablyClosed.symm
  have hopen : ∀ c, c ∉ durablyClosed history → c ∉ w.closedByClient := fun c hc hcl =>
    hc ((hclosed c).mp hcl)
  refine ⟨hclosed, fun c hc => ?_, fun c hc => ?_⟩
  · have hf := hm.file c (hopen c hc)
    simpa [Q3View.of, hopen c hc, durableBatches] using hf
  · have hf := hm.count c (hopen c hc)
    simp only [Q3View.of, Finset.notMem_empty, hopen c hc, or_self, if_false] at hf
    exact hf

theorem batchesIn_append (ops ops' : List Q3Op) (c : Nat) :
    batchesIn (ops ++ ops') c = batchesIn ops c ++ batchesIn ops' c := List.filterMap_append

theorem durableBatches_append (history history' : List (WalRecord Q3Change)) (c : Nat) :
    durableBatches (history ++ history') c = durableBatches history c ++
      durableBatches history' c := by
  simp only [durableBatches, stateChanges, List.filterMap_append, List.flatMap_append,
    batchesIn_append]

theorem durablyClosed_append (history history' : List (WalRecord Q3Change)) :
    durablyClosed (history ++ history') = durablyClosed history ++ durablyClosed history' := by
  simp only [durablyClosed, stateChanges, List.filterMap_append, List.flatMap_append]

/-- The file of an open client only grows along a history. -/
theorem Describes.startsWith {history' : List (WalRecord Q3Change)} {w w' : Q3BarrierState}
    (h : Describes history w) (h' : Describes (history ++ history') w')
    (hc : c ∉ durablyClosed (history ++ history')) : w.file c <+: w'.file c := by
  have hc₀ : c ∉ durablyClosed history := fun hm =>
    hc (durablyClosed_append history history' ▸ List.mem_append_left _ hm)
  rw [h.file c hc₀, h'.file c hc, durableBatches_append, List.map_append, List.flatten_append]
  exact List.prefix_append _ _

/-! ## Recovery -/

/-- What is known of a dead process: its disk describes the log, and the file of an open client
begins with what it was at the snapshot. -/
structure DownInv (cfg : Q3BarrierConfig α) (n : Node Q3BarrierState Q3BarrierState Q3Change)
    (files : Dict Nat Bytes) : Prop where
  disk : Recoverable cfg.consumer.handler (logView cfg ∅) n.disk n.history
  admissible : Admissible cfg.consumer.handler (logView cfg ∅) n.history
  files : ∀ snapshot ∈ n.disk.load, ∀ c, c ∉ durablyClosed n.history →
    snapshot.workerState.file c <+: files.getD c []

/-- Every file of an open client is listed. -/
def AllListed (n : Node Q3BarrierState Q3BarrierState Q3Change) (files : Dict Nat Bytes) : Prop :=
  ∀ snapshot ∈ n.disk.load, ∀ entry ∈ files.entries, entry.2 = [] ∨
    snapshot.workerState.diskLogs.contains entry.1 = true ∨ entry.1 ∈ durablyClosed n.history

theorem AllListed.file_eq_nil (h : AllListed n files) {snapshot : Snapshot Q3BarrierState}
    (hs : snapshot ∈ n.disk.load) (hl : snapshot.workerState.diskLogs.get? c = none)
    (hc : c ∉ durablyClosed n.history) : files.getD c [] = [] := by
  cases hf : files.get? c with
  | none => rw [Dict.getD, hf]; rfl
  | some file =>
    rcases h snapshot hs (c, file) (Dict.mem_entries_iff.mpr hf) with hnil | hcon | hcl
    · rw [Dict.getD, hf]
      exact hnil
    · simp [Dict.contains, hl] at hcon
    · exact absurd hcl hc

/-- `restore` brings the files of the open clients back to the snapshot. -/
theorem restore_view {snapshot : Snapshot Q3BarrierState} {front : List (WalRecord Q3Change)}
    (hd : Describes front snapshot.workerState) (hs : snapshot ∈ n.disk.load)
    (hfront : front <+: n.history)
    (hfiles : ∀ c, c ∉ durablyClosed n.history → snapshot.workerState.file c <+: files.getD c [])
    (hl : AllListed n files) :
    Q3View.of (durablyClosed n.history).toFinset
        (.restore files snapshot.workerState.snapshot) =
      Q3View.of (durablyClosed n.history).toFinset snapshot.workerState := by
  obtain ⟨hclosed, hspec⟩ := Q3BarrierState.restore_spec files snapshot.workerState.snapshot
  have hclosed' : (Q3BarrierState.restore files snapshot.workerState.snapshot).closedByClient =
      snapshot.workerState.closedByClient := hclosed
  refine Q3View.ext hclosed' (funext fun c => ?_) (funext fun c => ?_)
  · simp only [Q3View.of, hclosed', List.mem_toFinset]
    split
    · rfl
    · next hmask =>
      have hc : c ∉ durablyClosed n.history := fun h => hmask (.inl h)
      have hc₀ : c ∉ durablyClosed front := by
        obtain ⟨rest, hrest⟩ := hfront
        rw [← hrest, durablyClosed_append] at hc
        exact fun h => hc (List.mem_append_left _ h)
      rw [(hspec c).2]
      change (match snapshot.workerState.diskLogs.get? c with
        | some n => (files.getD c []).take n ++ List.replicate (n - (files.getD c []).length) 0
        | none => files.getD c []) = snapshot.workerState.file c
      obtain ⟨more, hmore⟩ := hfiles c hc
      have hcount := hd.count c hc₀
      split
      · next n hn =>
        -- the file is at least as long as the snapshot says
        rw [hn] at hcount
        split at hcount
        · cases hcount
        · cases hcount
          rw [← hmore, List.take_left' rfl, List.length_append]
          simp
      · next hn =>
        rw [hn] at hcount
        split at hcount
        · next hnil =>
          rw [hl.file_eq_nil hs hn hc, hd.file c hc₀, hnil]
          rfl
        · cases hcount
  · simp only [Q3View.of, hclosed', List.mem_toFinset]
    rw [(hspec c).1]
    rfl

theorem workerState_loadState {d : Disk Q3BarrierState} {s : HandlerState Q3BarrierState} {r : Int}
    (h : Handler.loadState cfg.consumer.handler d = .ok (s, r)) :
    s.workerState = match d.load with
      | none => {}
      | some snapshot => snapshot.workerState := by
  unfold Handler.loadState at h
  split at h
  · next hl =>
    cases h
    rw [hl]
    rfl
  · next snapshot hl =>
    split at h
    · cases h
    · cases h
      rw [hl]
      rfl

/-- The state at the beginning of a replay looks as the disk describes it, to whoever does not look
at clients that the log closes. -/
theorem DownInv.loadState (h : DownInv cfg n files) (hl : AllListed n files) :
    ∃ front both rest, ∃ s s' : HandlerState Q3BarrierState, n.history = front ++ both ++ rest ∧
      Q3Log.loadState cfg files n.disk = .ok (s', replayAll) ∧
      Wal.replay cfg.changeJson n.disk.wal replayAll = .ok (both ++ rest) ∧
      s.map (logView cfg ∅).view =
        specState cfg.consumer.handler (logView cfg ∅) (front ++ both) ∧
      (∀ snapshot ∈ n.disk.load, s.workerState = snapshot.workerState) ∧
      s'.map (logView cfg (durablyClosed n.history).toFinset).view =
        s.map (logView cfg (durablyClosed n.history).toFinset).view := by
  obtain ⟨front, both, rest, s, hh, hload, hs, hwal⟩ := h.disk.split
  refine ⟨front, both, rest, s, { s with workerState := match n.disk.load with
    | none => {}
    | some snapshot => .restore files snapshot.workerState.snapshot }, hh, ?_,
    Wal.replay_appendAll hwal, hs, fun snapshot hdl => ?_, ?_⟩
  · rw [Q3Log.loadState, hload, Except.ok_bind]
    rfl
  · have hw := workerState_loadState hload
    rw [Option.mem_def.mp hdl] at hw
    exact hw
  · have hw := workerState_loadState hload
    refine HandlerState.ext ?_ rfl rfl rfl
    change Q3View.of _ (match n.disk.load with
      | none => {}
      | some snapshot => .restore files snapshot.workerState.snapshot) = Q3View.of _ s.workerState
    rw [hw]
    cases hdl : n.disk.load with
    | none => rfl
    | some snapshot =>
      rw [hdl] at hw
      have hw' : s.workerState = snapshot.workerState := hw
      have hd : Describes (front ++ both) snapshot.workerState := by
        rw [← hw']
        exact describes_of_view (congrArg HandlerState.workerState hs)
      exact restore_view hd hdl ⟨rest, hh.symm⟩ (h.files snapshot hdl) hl

/-- A recovery leads to the state that the log describes. -/
theorem DownInv.recover (h : DownInv cfg n files) (hl : AllListed n files) :
    ∃ state applied, replayed cfg files n.disk none = .ok (state, applied) ∧
      state.map (logView cfg ∅).view =
        specState cfg.consumer.handler (logView cfg ∅) n.history := by
  obtain ⟨front, both, rest, s, s', hh, hload, hwal, hs, -, hview⟩ := h.loadState hl
  have hadm : Admissible cfg.consumer.handler (logView cfg ∅) (front ++ both ++ rest) :=
    hh ▸ h.admissible
  refine ⟨(s'.replayRecords Q3BarrierState.applyChange (both ++ rest)).1,
    (s'.replayRecords Q3BarrierState.applyChange (both ++ rest)).2, ?_, ?_⟩
  · rw [replayed, hload, Except.ok_bind]
    simp only
    rw [hwal, Except.ok_bind, Option.getD_none, List.take_length]
    rfl
  · -- what an intact recovery would lead to
    have hideal : (s.replayRecords cfg.consumer.handler.worker.applyChange (both ++ rest)).1.map
        (logView cfg ∅).view = specState cfg.consumer.handler (logView cfg ∅) n.history := by
      rw [map_replayRecords, hs, replayRecords_overlap hadm, hh]
    have hsame : (s'.replayRecords cfg.consumer.handler.worker.applyChange (both ++ rest)).1.map
        (logView cfg (durablyClosed n.history).toFinset).view =
      (s.replayRecords cfg.consumer.handler.worker.applyChange (both ++ rest)).1.map
        (logView cfg (durablyClosed n.history).toFinset).view := by
      rw [map_replayRecords, map_replayRecords, hview]
    have hdesc : Describes n.history
        (s.replayRecords cfg.consumer.handler.worker.applyChange (both ++ rest)).1.workerState :=
      describes_of_view (congrArg HandlerState.workerState hideal)
    have hhidden : ∀ w : Q3BarrierState, (∀ c, c ∈ w.closedByClient ↔ c ∈ durablyClosed n.history) →
        Q3View.of (durablyClosed n.history).toFinset w = Q3View.of ∅ w := fun w hw =>
      Q3View.of_eq_of fun c hc => (hw c).mpr (List.mem_toFinset.mp hc)
    have hws : Q3View.of (durablyClosed n.history).toFinset
        (s'.replayRecords cfg.consumer.handler.worker.applyChange (both ++ rest)).1.workerState =
      Q3View.of (durablyClosed n.history).toFinset
        (s.replayRecords cfg.consumer.handler.worker.applyChange (both ++ rest)).1.workerState :=
      congrArg HandlerState.workerState hsame
    have hclosed : ∀ c, c ∈ (s'.replayRecords cfg.consumer.handler.worker.applyChange
        (both ++ rest)).1.workerState.closedByClient ↔ c ∈ durablyClosed n.history := fun c => by
      rw [← hdesc.closed c]
      exact iff_of_eq (congrArg (c ∈ ·) (congrArg Q3View.closed hws))
    rw [hhidden _ hclosed, hhidden _ hdesc.closed] at hws
    have hinbox : (s'.replayRecords Q3BarrierState.applyChange (both ++ rest)).1.inbox =
        (s.replayRecords Q3BarrierState.applyChange (both ++ rest)).1.inbox :=
      congrArg (fun t : HandlerState Q3View => t.inbox) hsame
    have houtbox : (s'.replayRecords Q3BarrierState.applyChange (both ++ rest)).1.outbox =
        (s.replayRecords Q3BarrierState.applyChange (both ++ rest)).1.outbox :=
      congrArg (fun t : HandlerState Q3View => t.outbox) hsame
    have hsequencer : (s'.replayRecords Q3BarrierState.applyChange (both ++ rest)).1.sequencer =
        (s.replayRecords Q3BarrierState.applyChange (both ++ rest)).1.sequencer :=
      congrArg (fun t : HandlerState Q3View => t.sequencer) hsame
    rw [← hideal]
    exact HandlerState.ext hws hinbox houtbox hsequencer

/-- Only its close shortens the file of a client. -/
theorem prefix_applyOp (w : Q3BarrierState) {op : Q3Op} (h : op ≠ .close c) :
    w.file c <+: (w.applyOp op).file c := by
  cases op with
  | candidateData c' payload =>
    by_cases hc : c' ∈ w.closedByClient
    · simp [Q3BarrierState.applyOp, Q3BarrierState.applyCandidateData, hc]
    · obtain ⟨-, hfile, -⟩ := w.applyCandidateData_spec payload hc
      simp only [Q3BarrierState.applyOp, hfile]
      split
      · next he => exact he ▸ List.prefix_append _ _
      · exact List.prefix_rfl
  | close c' =>
    have hne : c ≠ c' := fun he => h (he ▸ rfl)
    have hfile : (w.applyClose c').file c = w.file c := by
      simp only [Q3BarrierState.file, Q3BarrierState.applyClose]
      split
      · rw [Dict.getD_erase, if_neg hne]
      · rfl
    exact hfile ▸ List.prefix_rfl
  | avgData =>
    simp only [Q3BarrierState.applyOp, Q3BarrierState.applyAvgData]
    split <;> exact List.prefix_rfl
  | avgEof =>
    simp only [Q3BarrierState.applyOp, Q3BarrierState.applyAvgEof]
    split <;> exact List.prefix_rfl
  | candidateEof =>
    simp only [Q3BarrierState.applyOp, Q3BarrierState.applyCandidateEof]
    split <;> exact List.prefix_rfl

theorem prefix_applyChange (w : Q3BarrierState) {change : Q3Change} (h : .close c ∉ change.ops) :
    w.file c <+: (w.applyChange change).file c := by
  unfold Q3BarrierState.applyChange
  generalize change.ops = ops at h ⊢
  induction ops generalizing w with
  | nil => exact List.prefix_rfl
  | cons op ops ih =>
    rw [List.mem_cons, not_or] at h
    exact (prefix_applyOp w (Ne.symm h.1)).trans (ih _ h.2)

theorem prefix_replayRecords (s : HandlerState Q3BarrierState) {records : List (WalRecord Q3Change)}
    (h : c ∉ durablyClosed records) : s.workerState.file c <+:
      (s.replayRecords Q3BarrierState.applyChange records).1.workerState.file c := by
  rw [fst_replayRecords]
  induction records generalizing s with
  | nil => exact List.prefix_rfl
  | cons record records ih =>
    rw [List.foldl_cons]
    have hsplit : durablyClosed (record :: records) = durablyClosed [record] ++
        durablyClosed records :=
      durablyClosed_append [record] records
    rw [hsplit, List.mem_append, not_or] at h
    refine .trans ?_ (ih _ h.2)
    cases record with
    | inputApplied m key change outputs =>
      have hc : .close c ∉ change.ops := by
        intro hm
        exact h.1 (mem_durablyClosed.mpr (by simpa [stateChanges] using hm))
      simp only [HandlerState.applyRecord]
      split
      · exact prefix_applyChange _ hc
      · exact List.prefix_rfl
    | inputDone m key =>
      simp only [HandlerState.applyRecord]
      split <;> exact List.prefix_rfl

/-- A recovery that dies leaves files that the next one can use. -/
theorem DownInv.dieInRecovery (h : DownInv cfg n files) (hl : AllListed n files) {records : Nat}
    {state : HandlerState Q3BarrierState} {applied : Nat}
    (he : replayed cfg files n.disk (some records) = .ok (state, applied)) :
    DownInv cfg n state.workerState.files := by
  obtain ⟨front, both, rest, s, s', hh, hload, hwal, hs, hws, hview⟩ := h.loadState hl
  refine ⟨h.disk, h.admissible, fun snapshot hdl c hc => ?_⟩
  rw [replayed, hload, Except.ok_bind] at he
  simp only at he
  rw [hwal, Except.ok_bind, Option.getD_some] at he
  have hstate : state = (s'.replayRecords Q3BarrierState.applyChange
      ((both ++ rest).take records)).1 := (congrArg Prod.fst (Except.ok.inj he)).symm
  have hsub : c ∉ durablyClosed ((both ++ rest).take records) := by
    intro hm
    rw [mem_durablyClosed, List.mem_flatMap] at hm
    obtain ⟨change, hchange, hop⟩ := hm
    refine hc (mem_durablyClosed.mpr (List.mem_flatMap.mpr ⟨change, ?_, hop⟩))
    obtain ⟨record, hr, hx⟩ := List.mem_filterMap.mp hchange
    refine List.mem_filterMap.mpr ⟨record, ?_, hx⟩
    rw [hh, List.append_assoc]
    exact List.mem_append_right _ (List.mem_of_mem_take hr)
  -- the replay starts with the file of the snapshot
  have hstart : s'.workerState.file c = snapshot.workerState.file c := by
    have hd : Describes (front ++ both) s.workerState :=
      describes_of_view (congrArg HandlerState.workerState hs)
    have hv : Q3View.of (durablyClosed n.history).toFinset s'.workerState =
        Q3View.of (durablyClosed n.history).toFinset s.workerState :=
      congrArg HandlerState.workerState hview
    have hopen : c ∉ s.workerState.closedByClient := by
      rw [hd.closed c]
      intro hm
      rw [hh, durablyClosed_append] at hc
      exact hc (List.mem_append_left _ hm)
    have hopen' : c ∉ s'.workerState.closedByClient := by
      have hcl : s'.workerState.closedByClient = s.workerState.closedByClient :=
        congrArg Q3View.closed hv
      rwa [hcl]
    have hf := congrFun (congrArg Q3View.file hv) c
    simp only [Q3View.of, List.mem_toFinset, hc, hopen, hopen', or_self, if_false] at hf
    rw [hf, hws snapshot hdl]
  rw [hstate, ← hstart]
  exact prefix_replayRecords s' hsub

/-! ## One step -/

/-- The invariant: memory and disk agree with the log, or the process is dead. -/
def Inv (cfg : Q3BarrierConfig α) (s : State) : Prop :=
  match s.down with
  | none => s.node.Inv cfg.consumer.handler (logView cfg ∅)
  | some files => DownInv cfg s.node files

theorem describes_of_inv (h : n.Inv cfg.consumer.handler (logView cfg ∅)) :
    Describes n.history n.handler.workerState :=
  describes_of_view h.workerState

theorem durablyClosed_done (history : List (WalRecord Q3Change)) (m : String) (key : InputKey) :
    durablyClosed (history ++ [.inputDone m key]) = durablyClosed history := by
  rw [durablyClosed_append]
  exact List.append_nil _

/-- The durable steps of a call, if any is taken, record what the call does. -/
theorem history_persist (cfg : Q3BarrierConfig α) (n : Node Q3BarrierState Q3BarrierState Q3Change)
    (call : Call Q3BarrierState Q3Change) {steps : Nat} (hs : 0 < steps) :
    (n.persist ((n.ops cfg.consumer.handler call).take steps)).history =
      (n.call cfg.consumer.handler (.ok ⟨⟩) call).history := by
  unfold Node.ops Node.call
  cases he : n.effect cfg.consumer.handler (.ok ⟨⟩) call with
  | error e => simp [Node.persist, appendedRecords]
  | ok effect =>
    simp only [Node.persist]
    rcases effect_spec he with ⟨htail, -⟩ | ⟨-, record, bytes, tail, -, -, hops, -, htail⟩
    · have hall := appendedRecords_snapshotTail htail effect.ops.length
      rw [List.take_length] at hall
      rw [appendedRecords_snapshotTail htail, hall]
    · obtain ⟨steps, rfl⟩ := Nat.exists_eq_add_of_lt hs
      have hall := appendedRecords_snapshotTail htail tail.length
      rw [List.take_length] at hall
      rw [hops, Nat.zero_add, List.take_succ_cons, appendedRecords, appendedRecords,
        appendedRecords_snapshotTail htail, hall]

/-- The loaded snapshot describes a part of the log. -/
theorem describes_loaded {d : Disk Q3BarrierState}
    (h : Recoverable cfg.consumer.handler (logView cfg ∅) d history)
    {snapshot : Snapshot Q3BarrierState} (hs : snapshot ∈ d.load) :
    ∃ front rest, history = front ++ rest ∧ Describes front snapshot.workerState := by
  obtain ⟨front, both, rest, s, rfl, hload, hspec, -⟩ := h.split
  have hw := workerState_loadState hload
  rw [Option.mem_def.mp hs] at hw
  have hw' : s.workerState = snapshot.workerState := hw
  refine ⟨front ++ both, rest, rfl, ?_⟩
  rw [← hw']
  exact describes_of_view (congrArg HandlerState.workerState hspec)

/-- `handle` writes to the log and to nothing else. -/
theorem ops_handle (cfg : Q3BarrierConfig α) (n : Node Q3BarrierState Q3BarrierState Q3Change)
    (key : InputKey) (businessFn : BusinessFn Q3BarrierState Q3Change) :
    n.ops cfg.consumer.handler (.handle key businessFn) = [] ∨
      ∃ record bytes, n.ops cfg.consumer.handler (.handle key businessFn) =
        [.append record bytes] := by
  unfold Node.ops
  cases he : n.effect cfg.consumer.handler (.ok ⟨⟩) (.handle key businessFn) with
  | error e => exact .inl rfl
  | ok effect =>
    simp only [Node.effect, Handler.handle] at he
    split at he
    · cases he
      exact .inl rfl
    · obtain ⟨⟨change, logical⟩, -, he⟩ := Except.ok_of_bind he
      obtain ⟨outputs, -, he⟩ := Except.ok_of_bind he
      obtain ⟨bytes, -, he⟩ := Except.ok_of_bind he
      cases he
      exact .inr ⟨_, bytes, rfl⟩
    · cases he
      exact .inl rfl

/-- At a crash the file of an open client begins with what it was at the snapshot that will be
loaded. A call that changes files takes no snapshot, and a call that takes one changes no file. -/
theorem prefix_at_crash (h : n.Inv cfg.consumer.handler (logView cfg ∅))
    (call : Call Q3BarrierState Q3Change) (steps : Nat) {snapshot : Snapshot Q3BarrierState}
    (hdl : snapshot ∈ (n.persist ((n.ops cfg.consumer.handler call).take steps)).disk.load)
    (hc : c ∉ durablyClosed (n.persist ((n.ops cfg.consumer.handler call).take steps)).history) :
    snapshot.workerState.file c <+: n.handler.workerState.file c := by
  have hn := describes_of_inv h
  obtain ⟨hdisk, -, hh⟩ := h.persist call steps
  have hother : (n.persist ((n.ops cfg.consumer.handler call).take steps)).history = n.history ∨
      (∃ m key, (n.persist ((n.ops cfg.consumer.handler call).take steps)).history =
        n.history ++ [.inputDone m key]) → snapshot.workerState.file c <+:
          n.handler.workerState.file c := by
    intro hcases
    obtain ⟨front, rest, hsplit, hd⟩ := describes_loaded hdisk hdl
    have hn' : Describes (front ++ rest) n.handler.workerState := by
      rw [← hsplit]
      rcases hcases with he | ⟨m, key, he⟩
      · rw [he]
        exact hn
      · rw [he]
        have hb : ∀ c, durableBatches (n.history ++ [.inputDone m key]) c =
            durableBatches n.history c := fun c => by
          rw [durableBatches_append]
          exact List.append_nil _
        refine ⟨fun c => ?_, fun c hc => ?_, fun c hc => ?_⟩
        · rw [durablyClosed_done, hn.closed c]
        · rw [durablyClosed_done] at hc
          rw [hb, hn.file c hc]
        · rw [durablyClosed_done] at hc
          rw [hb, hn.count c hc]
    exact hd.startsWith hn' (hsplit ▸ hc)
  cases call with
  | snapshotNow =>
    rcases hh with hh | ⟨record, ha, -⟩
    · exact hother (.inl hh)
    · cases ha
  | commitDone key =>
    rcases hh with hh | ⟨record, rfl, hh⟩
    · exact hother (.inl hh)
    · exact hother (.inr ⟨_, key, hh⟩)
  | handle key businessFn =>
    -- only an append, so the snapshot is the old one
    have hload : (n.persist ((n.ops cfg.consumer.handler (.handle key businessFn)).take
        steps)).disk.load = n.disk.load := by
      rcases ops_handle cfg n key businessFn with ho | ⟨record, bytes, ho⟩
      · rw [ho, List.take_nil]
        rfl
      · rw [ho]
        cases steps with
        | zero => rfl
        | succ steps =>
          rw [List.take_succ_cons, List.take_nil]
          rfl
    obtain ⟨front, rest, hsplit, hd⟩ := describes_loaded h.disk (hload ▸ hdl)
    refine hd.startsWith (hsplit ▸ hn) fun hm => hc ?_
    rw [← hsplit] at hm
    rcases hh with hh | ⟨record, -, hh⟩
    · rwa [hh]
    · rw [hh, durablyClosed_append]
      exact List.mem_append_left _ hm

theorem downInv_crash (h : n.Inv cfg.consumer.handler (logView cfg ∅))
    (call : Call Q3BarrierState Q3Change) (steps : Nat) (written : Bool) :
    DownInv cfg (n.persist ((n.ops cfg.consumer.handler call).take steps))
      (filesAtCrash cfg n call steps written) := by
  obtain ⟨hdisk, hadm, hh⟩ := h.persist call steps
  refine ⟨hdisk, hadm, fun snapshot hdl c hc => (prefix_at_crash h call steps hdl hc).trans ?_⟩
  unfold filesAtCrash
  split
  · next hs =>
    obtain ⟨hi, hcall⟩ := h.call (.ok ⟨⟩) call
    have hd' := describes_of_inv hi
    rw [history_persist cfg n call hs.1] at hc
    rcases hcall with ⟨hh, -⟩ | ⟨-, record, -, hh⟩
    · rw [hh, ← List.append_nil n.history] at hd' hc
      exact (describes_of_inv h).startsWith hd' hc
    · rw [hh] at hd' hc
      exact (describes_of_inv h).startsWith hd' hc
  · exact List.prefix_rfl

theorem Inv.exec {s s' : State} {l : Label} (h : Inv cfg s) (hl : Listed s l)
    (he : Q3Log.exec cfg s l = some s') : Inv cfg s' := by
  obtain ⟨node, down⟩ := s
  cases l with
  | call call write =>
    cases down with
    | some files => cases he
    | none =>
      cases he
      exact (Node.Inv.call h write call).1
  | crash call steps written =>
    cases down with
    | some files => cases he
    | none =>
      cases he
      exact downInv_crash h call steps written
  | dieInRecovery records =>
    cases down with
    | none => cases he
    | some files =>
      simp only [Q3Log.exec] at he
      split at he
      · cases he
      · next state applied hr =>
        cases he
        exact DownInv.dieInRecovery h (hl files rfl) hr
  | recover =>
    cases down with
    | none => cases he
    | some files =>
      simp only [Q3Log.exec] at he
      split at he
      · cases he
      · next state applied hr =>
        cases he
        obtain ⟨state', applied', hr', hs⟩ := DownInv.recover h (hl files rfl)
        cases hr.symm.trans hr'
        exact ⟨hs, h.disk, h.admissible⟩

theorem inv_init : Inv cfg (init cfg) := Node.inv_init

theorem inv_of_reachable {s : State} (h : Reachable (exec cfg) Listed (init cfg) s) : Inv cfg s :=
  h.invariant inv_init fun _ _ _ hi hl he => hi.exec hl he

/-- **The candidate files after a recovery.** In every run of calls, snapshots, crashes before and
after every append and every step of a snapshot, recoveries that die and recoveries that end: as
long as each recovery that loads a snapshot finds no file of an open client that the snapshot does
not list, it succeeds, and the file of every open client holds the candidate batches of the log, in
order and once each. -/
theorem files_match_durable_batches (cfg : Q3BarrierConfig α) {s : State}
    (h : Reachable (exec cfg) Listed (init cfg) s) :
    FilesMatch s ∧ (s.down ≠ none → Listed s .recover → ∃ s', exec cfg s .recover = some s' ∧
      FilesMatch s') := by
  have hmatch : ∀ {s}, Inv cfg s → FilesMatch s := by
    intro s hi hdown c hopen
    unfold Inv at hi
    rw [hdown] at hi
    have hd := describes_of_inv hi
    refine hd.file c fun hc => ?_
    rw [← hd.closed c] at hc
    simp [Q3BarrierState.isClosed, hc] at hopen
  have hi := inv_of_reachable h
  refine ⟨hmatch hi, fun hdown hl => ?_⟩
  obtain ⟨files, hf⟩ := Option.ne_none_iff_exists'.mp hdown
  have hdi : DownInv cfg s.node files := by
    unfold Inv at hi
    rwa [hf] at hi
  obtain ⟨state, applied, hr, -⟩ := hdi.recover (hl files hf)
  have he : exec cfg s .recover = some { node := { s.node with
      handler := { toHandlerState := state, appliedSinceSnapshot := applied } } } := by
    simp only [Q3Log.exec, hf, hr]
  exact ⟨_, he, hmatch (hi.exec hl he)⟩

/-! ## A client that the snapshot does not list -/

/-- A batch of one candidate. -/
def sampleBatch : Bytes :=
  match TransactionSerializer.serialize
      { date := "2022/09/07 00:10", fromBank := "1", fromAccount := "8000A", toBank := "2"
        toAccount := "8000B", amount := 0, currency := "US Dollar", format := "Wire"
        rowNumber := 1 } with
  | .ok bytes => bytes
  | .error _ => []

/-- The first candidate batch of a client. -/
def sampleMessage (clientId : Nat) : Q3Message := ⟨clientId, 1, 0, .batch sampleBatch⟩

/-- The JSON text of its change. -/
def sampleText (clientId : String) : Bytes :=
  encodeText ("\x7b\"type\": \"candidate_data\", \"client_id\": " ++ clientId ++
    ", \"payload_b64\": \"" ++ String.ofList (Base64.encode sampleBatch) ++ "\"\x7d")

/-- A barrier that clients `5` and `6` use. -/
def sampleBarrier : Q3BarrierConfig Nat where
  id := 0
  outputQueue := "gateway_q3"
  amount := UInt64.toNat
  threshold := UInt64.toNat
  snapshotInterval := 1000
  sha256 := fun _ => []
  changeJson := .ofTable [
    (Q3BarrierState.candidateDataChange 5 sampleBatch, sampleText "5"),
    (Q3BarrierState.candidateDataChange 6 sampleBatch, sampleText "6")]

/-- A batch is processed to its end. -/
def process (clientId : Nat) : List Label :=
  [.call (receive sampleBarrier (sampleMessage clientId)) (.ok ⟨⟩),
   .call (.commitDone (sampleMessage clientId).key) (.ok ⟨⟩)]

/-- A restart of the process. -/
def restart : List Label := [.crash .snapshotNow 0 false, .recover]

/-- Client `6` sends its first candidates after the snapshot: the restart appends them once more. -/
theorem candidate_file_doubled : ¬ ∀ (cfg : Q3BarrierConfig Nat) (s : State),
    Reachable (exec cfg) (fun _ _ => True) (init cfg) s → FilesMatch s := by
  intro hall
  have hrun : (runAllowed (exec sampleBarrier) (fun _ _ => True) (init sampleBarrier)
      (process 5 ++ [.call .snapshotNow (.ok ⟨⟩)] ++ process 6 ++ restart)).map (fun s =>
        (s.down.isNone, s.node.handler.workerState.isClosed 6,
          decide (s.node.handler.workerState.file 6 =
            ((durableBatches s.node.history 6).map DiskLog.frame).flatten))) =
      some (true, false, false) := by decide +kernel
  obtain ⟨s, hs, hp⟩ := Option.map_eq_some_iff.mp hrun
  simp only [Prod.mk.injEq, Option.isNone_iff_eq_none, decide_eq_false_iff_not] at hp
  obtain ⟨hup, hopen, hne⟩ := hp
  exact hne (hall sampleBarrier s (reachable_of_runAllowed .init hs) hup 6 hopen)

/-- Client `5` is listed in the snapshot, and its second restart finds its file with one batch. -/
theorem files_match_durable_batches_listed : ∃ s,
    Reachable (exec sampleBarrier) Listed (init sampleBarrier) s ∧ FilesMatch s ∧
      s.node.handler.workerState.isClosed 5 = false ∧
      durableBatches s.node.history 5 = [sampleBatch] := by
  have hrun : (runAllowed (exec sampleBarrier) Listed (init sampleBarrier)
      (process 5 ++ restart ++ [.call .snapshotNow (.ok ⟨⟩)] ++ restart)).map (fun s =>
        (s.node.handler.workerState.isClosed 5,
          decide (durableBatches s.node.history 5 = [sampleBatch]))) =
      some (false, true) := by decide +kernel
  obtain ⟨s, hs, hp⟩ := Option.map_eq_some_iff.mp hrun
  simp only [Prod.mk.injEq, decide_eq_true_eq] at hp
  have hr := reachable_of_runAllowed .init hs
  exact ⟨s, hr, (files_match_durable_batches sampleBarrier hr).1, hp⟩

end Q3Log

end MoneyLaundering
