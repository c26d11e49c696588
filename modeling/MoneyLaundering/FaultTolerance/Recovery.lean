import MoneyLaundering.FaultTolerance.Handler

/-!
# Crash recovery

After a crash the loaded snapshot and the log may overlap: the log still holds records that the
snapshot already reflects. `Recoverable` describes the disk by splitting the history into three
parts: records that are only in the snapshot, records in both, and records that are only in the log.
Replaying a record of the middle part changes nothing (`replayRecords_of_absorbed`), replaying the
last part applies each record once (`replayRecords_of_admissible`), and every durable step of every
call keeps the description true, so every crash point is covered (`Node.exec_recoverable`).

The worker state is seen through a `View`, a function of it that `apply_change` respects. The whole
state is a view; a worker that also mutates part of its state outside the log has a smaller one.
-/

namespace MoneyLaundering

open Bytes

/-- A function of the worker state that `apply_change` respects. -/
structure View {σ ς Δ : Type} (worker : WorkerState σ ς Δ) (τ : Type) where
  view : σ → τ
  apply : τ → Δ → τ
  view_applyChange : ∀ s change, view (worker.applyChange s change) = apply (view s) change

/-- The whole worker state. -/
def View.whole {σ ς Δ : Type} (worker : WorkerState σ ς Δ) : View worker σ where
  view := id
  apply := worker.applyChange
  view_applyChange _ _ := rfl

namespace HandlerState

variable {σ τ Δ : Type}

/-- Look at the worker state only through `f`. -/
def map (f : σ → τ) (s : HandlerState σ) : HandlerState τ where
  workerState := f s.workerState
  inbox := s.inbox
  outbox := s.outbox
  sequencer := s.sequencer

@[simp] theorem map_inbox (f : σ → τ) (s : HandlerState σ) : (s.map f).inbox = s.inbox := rfl
@[simp] theorem map_outbox (f : σ → τ) (s : HandlerState σ) : (s.map f).outbox = s.outbox := rfl
@[simp] theorem map_sequencer (f : σ → τ) (s : HandlerState σ) :
    (s.map f).sequencer = s.sequencer := rfl
@[simp] theorem map_workerState (f : σ → τ) (s : HandlerState σ) :
    (s.map f).workerState = f s.workerState := rfl
@[simp] theorem map_id (s : HandlerState σ) : s.map id = s := rfl

section map
variable {ς : Type} {worker : WorkerState σ ς Δ} (V : View worker τ)

theorem map_applyOnce (s : HandlerState σ) (record : WalRecord Δ) :
    (s.applyOnce worker.applyChange record).map V.view =
      (s.map V.view).applyOnce V.apply record := by
  cases record with
  | inputApplied msgId key stateChange outputs => simp [applyOnce, map, V.view_applyChange]
  | inputDone msgId key => rfl

theorem map_applyRecord (s : HandlerState σ) (record : WalRecord Δ) :
    (s.applyRecord worker.applyChange record).1.map V.view =
      ((s.map V.view).applyRecord V.apply record).1 := by
  cases record with
  | inputApplied msgId key stateChange outputs =>
    simp only [applyRecord, map_inbox]
    split <;> simp [map, V.view_applyChange]
  | inputDone msgId key =>
    simp only [applyRecord, map_inbox]
    split <;> rfl

end map

end HandlerState

/-! ## Records that are admitted, and records that are absorbed -/

namespace WalRecord

variable {Δ : Type}

/-- The input a record is about. -/
def key : WalRecord Δ → InputKey
  | inputApplied _ key _ _ => key
  | inputDone _ key => key

def msgId : WalRecord Δ → String
  | inputApplied msgId _ _ _ => msgId
  | inputDone msgId _ => msgId

end WalRecord

section spec
variable {σ ς Δ τ : Type} (cfg : HandlerConfig σ ς Δ) (V : View cfg.worker τ)

/-- The state that a history describes: every record applied once, in order. -/
def specState (history : List (WalRecord Δ)) : HandlerState τ :=
  HandlerState.appliedOnce V.apply { workerState := V.view cfg.worker.fresh } history

/-- A record that the handler may append in a state: an applied input is new. -/
structure Admits (s : HandlerState τ) (record : WalRecord Δ) : Prop where
  msgId : record.msgId = cfg.msgId record.key
  new : ∀ m key change outputs, record = .inputApplied m key change outputs →
    s.inbox.classify key = .new

/-- Every record was admitted in the state that the records before it describe. -/
inductive Admissible : List (WalRecord Δ) → Prop
  | nil : Admissible []
  | snoc {history : List (WalRecord Δ)} {record : WalRecord Δ} (h : Admissible history)
      (ha : Admits cfg (specState cfg V history) record) : Admissible (history ++ [record])

/-- The state already reflects the record. -/
def Absorbed (s : HandlerState τ) : WalRecord Δ → Prop
  | .inputApplied _ key _ _ => s.inbox.classify key ≠ .new
  | .inputDone _ key => s.inbox.classify key = .done

/-- What every described state satisfies: an input with pending outputs is in flight. -/
structure WellFormed (s : HandlerState τ) : Prop where
  inbox : s.inbox.WF
  outbox : s.outbox.WF
  inFlight : ∀ c m es, s.outbox.lookup c m = some es →
    ∃ key, key.clientId = c ∧ cfg.msgId key = m ∧ s.inbox.InFlight key

variable {cfg V} {s : HandlerState τ} {record r : WalRecord Δ} {history : List (WalRecord Δ)}

theorem specState_append (history records : List (WalRecord Δ)) :
    specState cfg V (history ++ records) =
      HandlerState.appliedOnce V.apply (specState cfg V history) records := List.foldl_append

theorem specState_snoc (history : List (WalRecord Δ)) (record : WalRecord Δ) :
    specState cfg V (history ++ [record]) =
      (specState cfg V history).applyOnce V.apply record := specState_append history [record]

theorem wellFormed_nil : WellFormed cfg (specState cfg V []) where
  inbox := Inbox.wf_default
  outbox := Outbox.wf_default
  inFlight := by simp [specState, HandlerState.appliedOnce, Outbox.lookup]

theorem WellFormed.applyOnce (h : WellFormed cfg s) (ha : Admits cfg s record) :
    WellFormed cfg (s.applyOnce V.apply record) := by
  cases record with
  | inputApplied m key change outputs =>
    refine ⟨h.inbox.markApplied key, h.outbox.add _ _ _, fun c m' es hl => ?_⟩
    simp only [HandlerState.applyOnce, Outbox.lookup_add] at hl ⊢
    split at hl
    · next he =>
      exact ⟨key, he.1, ha.msgId.symm.trans he.2, (Inbox.inFlight_markApplied _ _ _).mpr (.inl rfl)⟩
    · obtain ⟨key', hc, hm, hf⟩ := h.inFlight c m' es hl
      exact ⟨key', hc, hm, (Inbox.inFlight_markApplied _ _ _).mpr (.inr hf)⟩
  | inputDone m key =>
    refine ⟨h.inbox.markDone key, h.outbox.removeInput _ _, fun c m' es hl => ?_⟩
    simp only [HandlerState.applyOnce, Outbox.lookup_removeInput] at hl ⊢
    split at hl
    · cases hl
    · next hne =>
      obtain ⟨key', hc, hm, hf⟩ := h.inFlight c m' es hl
      refine ⟨key', hc, hm, (Inbox.inFlight_markDone _ _ _).mpr ⟨?_, hf⟩⟩
      rintro rfl
      exact hne ⟨hc, ha.msgId.trans hm⟩

theorem Admissible.wellFormed (h : Admissible cfg V history) :
    WellFormed cfg (specState cfg V history) := by
  induction h with
  | nil => exact wellFormed_nil
  | snoc h ha ih => rw [specState_snoc]; exact ih.applyOnce ha

/-- Replaying a record where it was appended applies it. For a finished input both sides change
nothing, since no output of it is pending. -/
theorem applyRecord_of_admits (h : WellFormed cfg s) (ha : Admits cfg s record) :
    (s.applyRecord V.apply record).1 = s.applyOnce V.apply record := by
  cases record with
  | inputApplied m key change outputs =>
    simp only [HandlerState.applyRecord, ha.new m key change outputs rfl]
    rfl
  | inputDone m key =>
    unfold HandlerState.applyRecord
    simp only
    split
    · next hd =>
      have hl : s.outbox.lookup key.clientId m = none := by
        by_contra hne
        obtain ⟨es, hes⟩ := Option.ne_none_iff_exists'.mp hne
        obtain ⟨key', hc, hm, hf⟩ := h.inFlight _ _ _ hes
        obtain rfl := cfg.msgId_inj key' key hc (hm.trans ha.msgId)
        rw [(Inbox.classify_eq_applied_iff _ _).mpr hf] at hd
        cases hd
      refine HandlerState.ext rfl ?_ ?_ rfl
      · exact (Inbox.markDone_of_done h.inbox hd).symm
      · exact (Outbox.removeInput_of_lookup h.outbox hl).symm
    · rfl

/-- A reflected record is skipped. -/
theorem applyRecord_of_absorbed (h : Absorbed s r) : (s.applyRecord V.apply r).1 = s := by
  cases r with
  | inputApplied m key change outputs =>
    unfold HandlerState.applyRecord
    simp only
    split
    · next hn => exact absurd hn h
    · rfl
  | inputDone m key =>
    simp only [HandlerState.applyRecord, show s.inbox.classify key = .done from h]

/-- A record is reflected once it was applied. -/
theorem absorbed_applyOnce_self (h : WellFormed cfg s) : Absorbed (s.applyOnce V.apply r) r := by
  cases r with
  | inputApplied m key change outputs =>
    simp [Absorbed, HandlerState.applyOnce, Inbox.classify_markApplied_self]
  | inputDone m key => exact Inbox.classify_markDone_self h.inbox

/-- A reflected record stays reflected: a new input becomes in flight, an input in flight becomes
finished, and nothing else moves. -/
theorem Absorbed.applyOnce (h : WellFormed cfg s) (ha : Admits cfg s record) (hr : Absorbed s r) :
    Absorbed (s.applyOnce V.apply record) r := by
  cases record with
  | inputApplied m key change outputs =>
    have hn := ha.new m key change outputs rfl
    cases r with
    | inputApplied m' key' change' outputs' =>
      by_cases hk : key' = key
      · subst hk; exact absurd hn hr
      · simpa only [Absorbed, HandlerState.applyOnce, Inbox.classify_markApplied_of_ne hk] using hr
    | inputDone m' key' =>
      have hk : key' ≠ key := by
        rintro rfl
        rw [Absorbed, hn] at hr
        cases hr
      simpa only [Absorbed, HandlerState.applyOnce, Inbox.classify_markApplied_of_ne hk] using hr
  | inputDone m key =>
    cases r with
    | inputApplied m' key' change' outputs' =>
      simp only [Absorbed, HandlerState.applyOnce] at hr ⊢
      cases hc : s.inbox.classify key' with
      | new => exact absurd hc hr
      | done => simp [Inbox.classify_markDone_done hc]
      | applied =>
        by_cases hk : key' = key
        · subst hk; simp [Inbox.classify_markDone_self h.inbox]
        · simp [Inbox.classify_markDone_applied hk hc]
    | inputDone m' key' => exact Inbox.classify_markDone_done hr

/-- Everything in an admissible history is reflected by the state it describes. -/
theorem Admissible.absorbed (h : Admissible cfg V history) (hr : r ∈ history) :
    Absorbed (specState cfg V history) r := by
  induction h with
  | nil => cases hr
  | snoc h ha ih =>
    rw [specState_snoc]
    rcases List.mem_append.mp hr with hr | hr
    · exact (ih hr).applyOnce h.wellFormed ha
    · obtain rfl : r = _ := List.mem_singleton.mp hr
      exact absorbed_applyOnce_self h.wellFormed

/-! ## Replaying -/

/-- The count of the replay loop is beside the point for the state. -/
theorem fst_replayRecords (apply : τ → Δ → τ) (s : HandlerState τ) (records : List (WalRecord Δ)) :
    (s.replayRecords apply records).1 =
      records.foldl (fun s record => (s.applyRecord apply record).1) s := by
  unfold HandlerState.replayRecords
  generalize (0 : Nat) = applied
  induction records generalizing s applied with
  | nil => rfl
  | cons record records ih => exact ih _ _

theorem map_replayRecords (s : HandlerState σ) (records : List (WalRecord Δ)) :
    (s.replayRecords cfg.worker.applyChange records).1.map V.view =
      ((s.map V.view).replayRecords V.apply records).1 := by
  simp only [fst_replayRecords]
  induction records generalizing s with
  | nil => rfl
  | cons record records ih =>
    rw [List.foldl_cons, List.foldl_cons, ih, HandlerState.map_applyRecord]

theorem replayRecords_append (apply : τ → Δ → τ) (s : HandlerState τ)
    (records records' : List (WalRecord Δ)) :
    (s.replayRecords apply (records ++ records')).1 =
      ((s.replayRecords apply records).1.replayRecords apply records').1 := by
  simp only [fst_replayRecords, List.foldl_append]

/-- Records that the state reflects leave it as it is. -/
theorem replayRecords_of_absorbed {records : List (WalRecord Δ)}
    (h : ∀ r ∈ records, Absorbed s r) : (s.replayRecords V.apply records).1 = s := by
  rw [fst_replayRecords]
  induction records with
  | nil => rfl
  | cons record records ih =>
    rw [List.foldl_cons, applyRecord_of_absorbed (h record List.mem_cons_self)]
    exact ih fun r hr => h r (List.mem_cons_of_mem _ hr)

theorem Admissible.of_append {front back : List (WalRecord Δ)}
    (h : Admissible cfg V (front ++ back)) : Admissible cfg V front := by
  induction back using List.reverseRecOn with
  | nil => simpa using h
  | append_singleton back record ih =>
    rw [← List.append_assoc] at h
    generalize hx : front ++ back ++ [record] = full at h
    cases h with
    | nil => simp at hx
    | snoc h ha =>
      obtain ⟨rfl, -⟩ := List.append_inj' hx rfl
      exact ih h

/-- Records that follow the state in an admissible history are applied once each. -/
theorem replayRecords_of_admissible {front back : List (WalRecord Δ)}
    (h : Admissible cfg V (front ++ back)) :
    ((specState cfg V front).replayRecords V.apply back).1 = specState cfg V (front ++ back) := by
  induction back using List.reverseRecOn with
  | nil => simp [HandlerState.replayRecords]
  | append_singleton back record ih =>
    rw [← List.append_assoc] at h
    rw [replayRecords_append, ih h.of_append, ← List.append_assoc]
    generalize hx : front ++ back ++ [record] = full at h
    cases h with
    | nil => simp at hx
    | snoc h ha =>
      obtain ⟨rfl, hr⟩ := List.append_inj' hx rfl
      cases hr
      rw [specState_snoc, fst_replayRecords]
      exact applyRecord_of_admits h.wellFormed ha

/-- Replaying from a snapshot that already reflects the first records of the log. -/
theorem replayRecords_overlap {front both rest : List (WalRecord Δ)}
    (h : Admissible cfg V (front ++ both ++ rest)) :
    ((specState cfg V (front ++ both)).replayRecords V.apply (both ++ rest)).1 =
      specState cfg V (front ++ both ++ rest) := by
  rw [replayRecords_append, replayRecords_of_absorbed fun r hr =>
    h.of_append.absorbed (List.mem_append_right _ hr)]
  exact replayRecords_of_admissible h

/-! ## The disk along the durable steps -/

/-- The loaded snapshot is of a state that `K` allows after `front ++ both`, and the log holds
`both ++ rest`. -/
structure Restores (cfg : HandlerConfig σ ς Δ) (K : List (WalRecord Δ) → HandlerState σ → Prop)
    (d : Disk ς) (history : List (WalRecord Δ)) : Prop where
  split : ∃ front both rest s, history = front ++ both ++ rest ∧
    Handler.loadState cfg d = .ok (s, replayAll) ∧ K (front ++ both) s ∧
    Wal.appendAll cfg.json [] (both ++ rest) = .ok d.wal

/-- The loaded snapshot describes the state after `front ++ both`, and the log holds
`both ++ rest`. -/
structure Recoverable (cfg : HandlerConfig σ ς Δ) (V : View cfg.worker τ) (d : Disk ς)
    (history : List (WalRecord Δ)) : Prop where
  split : ∃ front both rest s, history = front ++ both ++ rest ∧
    Handler.loadState cfg d = .ok (s, replayAll) ∧ s.map V.view = specState cfg V (front ++ both) ∧
    Wal.appendAll cfg.json [] (both ++ rest) = .ok d.wal

theorem recoverable_iff_restores {d : Disk ς} : Recoverable cfg V d history ↔
    Restores cfg (fun history s => s.map V.view = specState cfg V history) d history :=
  ⟨fun h => ⟨h.split⟩, fun h => ⟨h.split⟩⟩

theorem recoverable_init : Recoverable cfg V {} [] :=
  ⟨[], [], [], _, rfl, rfl, rfl, rfl⟩

/-- Recovery from such a disk reaches the state that the history describes. -/
theorem Recoverable.recover {d : Disk ς} (h : Recoverable cfg V d history)
    (ha : Admissible cfg V history) :
    ∃ handler, Handler.recover cfg d = .ok handler ∧
      handler.toHandlerState.map V.view = specState cfg V history := by
  obtain ⟨front, both, rest, s, rfl, hload, hs, hwal⟩ := h.split
  refine ⟨_, by rw [Handler.recover, hload, Except.ok_bind]; simp only [replayAll];
                rw [Wal.replay_appendAll hwal, Except.ok_bind]; rfl, ?_⟩
  exact (map_replayRecords s _).trans (by rw [hs, replayRecords_overlap ha])

section disk
variable {K : List (WalRecord Δ) → HandlerState σ → Prop} {d : Disk ς}

theorem Restores.append (h : Restores cfg K d history) {bytes : Bytes}
    (hb : Wal.encode cfg.json record = .ok bytes) :
    Restores cfg K (d.perform (.append record bytes)) (history ++ [record]) := by
  obtain ⟨front, both, rest, s, rfl, hload, hs, hwal⟩ := h.split
  refine ⟨front, both, rest ++ [record], s, by simp, hload, hs, ?_⟩
  rw [← List.append_assoc]
  refine Wal.appendAll_append hwal ?_
  rw [Wal.appendAll, Wal.append, hb]
  rfl

/-- Loading a snapshot gives back what was saved. -/
theorem loadState_of_load {handler : Handler σ} (h : d.load = some (handler.toSnapshot cfg)) :
    Handler.loadState cfg d = .ok (handler.toHandlerState, replayAll) := by
  unfold Handler.loadState
  rw [h]
  simp only [Handler.toSnapshot, Inbox.fromDict_toDict, Outbox.fromDict_toDict,
    SenderSequencer.fromDict_toDict, cfg.worker.restore_snapshot]

theorem loadState_congr {d d' : Disk ς} (h : d'.load = d.load) :
    Handler.loadState cfg d' = Handler.loadState cfg d := by
  unfold Handler.loadState; rw [h]

/-- Renaming `current` to `previous` changes what is loaded from, not what is loaded. -/
theorem load_renameCurrent (d : Disk ς) :
    (d.perform (.renameCurrent : DurableOp ς Δ)).load = d.load ∧
    (d.perform (.renameCurrent : DurableOp ς Δ)).wal = d.wal ∧
    (d.perform (.renameCurrent : DurableOp ς Δ)).tmp = d.tmp := by
  simp only [Disk.perform, Disk.load]
  cases hc : d.current <;> simp [hc]

theorem load_renameTmp {snapshot : Snapshot ς} (h : d.tmp = some snapshot) :
    (d.perform (.renameTmp : DurableOp ς Δ)).load = some snapshot := by
  simp [Disk.perform, Disk.load, h]

/-- `snapshot_now` up to any crash point. The snapshot counts once `last_state.tmp` has become
`last_state.current`; until then the old one is still loaded, from either of its names. -/
theorem Restores.snapshotNow (h : Restores cfg K d history) {handler : Handler σ}
    (hm : K history handler.toHandlerState) (steps : Nat) :
    Restores cfg K (d.performAll ((handler.snapshotNow cfg).ops.take steps)) history := by
  obtain ⟨front, both, rest, s, rfl, hload, hs, hwal⟩ := h.split
  have hsame : ∀ d' : Disk ς, d'.load = d.load → d'.wal = d.wal →
      Restores cfg K d' (front ++ both ++ rest) := fun d' hl hw =>
    ⟨front, both, rest, s, rfl, (loadState_congr hl).trans hload, hs, hw ▸ hwal⟩
  obtain ⟨hren, hrenWal, hrenTmp⟩ := load_renameCurrent (Δ := Δ)
    (d.perform (.writeTmp (handler.toSnapshot cfg) : DurableOp ς Δ))
  match steps with
  | 0 => exact hsame _ rfl rfl
  | 1 => exact hsame _ rfl rfl
  | 2 => exact hsame _ hren hrenWal
  | 3 =>
    refine ⟨front, both ++ rest, [], handler.toHandlerState, by simp,
      loadState_of_load (load_renameTmp (Δ := Δ) hrenTmp), ?_, ?_⟩
    · rwa [← List.append_assoc]
    · rw [List.append_nil, hwal]
      exact congrArg Except.ok hrenWal.symm
  | steps + 4 =>
    have htake : (handler.snapshotNow cfg).ops.take (steps + 4) = (handler.snapshotNow cfg).ops :=
      List.take_of_length_le (by simp [Handler.snapshotNow])
    rw [htake]
    refine ⟨front ++ both ++ rest, [], [], handler.toHandlerState, by simp,
      loadState_of_load (load_renameTmp (Δ := Δ) hrenTmp), ?_, rfl⟩
    rwa [List.append_nil]

end disk

end spec

/-! ## What a call does -/

section calls
variable {σ ς Δ τ : Type} {cfg : HandlerConfig σ ς Δ} {V : View cfg.worker τ}

/-- The record a call appends: the outcome of the business function on a new input, or the end of
an input. -/
def Appends (cfg : HandlerConfig σ ς Δ) (h : Handler σ) : Call σ Δ → WalRecord Δ → Prop
  | .handle key businessFn, record =>
    h.inbox.classify key = .new ∧ ∃ change logicalOutputs outputs,
      businessFn h.workerState = .ok (change, logicalOutputs) ∧
      h.sequencer.stamp cfg.toSequencerConfig key.clientId (cfg.msgId key) logicalOutputs =
        .ok outputs ∧
      record = .inputApplied (cfg.msgId key) key change outputs
  | .commitDone key, record => record = .inputDone (cfg.msgId key) key
  | .snapshotNow, _ => False

theorem walAppend_eq_ok {write : Except String PUnit} {record : WalRecord Δ} {bytes : Bytes}
    (h : Handler.walAppend cfg write record = .ok bytes) :
    write = .ok ⟨⟩ ∧ Wal.encode cfg.json record = .ok bytes := by
  obtain ⟨bs, he, h⟩ := Except.ok_of_bind h
  obtain ⟨_, hw, h⟩ := Except.ok_of_bind h
  cases h
  exact ⟨hw, he⟩

/-- The steps after the append, if any: a snapshot of the state the call leaves. -/
def SnapshotTail (cfg : HandlerConfig σ ς Δ) (s : HandlerState σ) (ops : List (DurableOp ς Δ)) :
    Prop :=
  ops = [] ∨ ∃ h : Handler σ, h.toHandlerState = s ∧ ops = (h.snapshotNow cfg).ops

theorem snapshotTail_maybeSnapshot (cfg : HandlerConfig σ ς Δ) (h : Handler σ) :
    SnapshotTail cfg h.toHandlerState (h.maybeSnapshot cfg).ops ∧
      (h.maybeSnapshot cfg).handler.toHandlerState = h.toHandlerState := by
  unfold Handler.maybeSnapshot
  split
  · exact ⟨.inl rfl, rfl⟩
  · exact ⟨.inr ⟨h, rfl, rfl⟩, rfl⟩

/-- Every call either appends nothing and leaves the state, or appends one record first and leaves
the state with that record applied. The second needs a disk that writes. -/
theorem effect_spec {n : Node σ ς Δ} {write : Except String PUnit} {c : Call σ Δ}
    {effect : Handler.Effect σ ς Δ} (h : n.effect cfg write c = .ok effect) :
    (SnapshotTail cfg n.handler.toHandlerState effect.ops ∧
      effect.handler.toHandlerState = n.handler.toHandlerState) ∨
    write = .ok ⟨⟩ ∧ ∃ record bytes tail, Appends cfg n.handler c record ∧
      Wal.encode cfg.json record = .ok bytes ∧ effect.ops = .append record bytes :: tail ∧
      effect.handler.toHandlerState =
        n.handler.toHandlerState.applyOnce cfg.worker.applyChange record ∧
      SnapshotTail cfg effect.handler.toHandlerState tail := by
  cases c with
  | handle key businessFn =>
    simp only [Node.effect, Handler.handle] at h
    split at h
    · cases h; exact .inl ⟨.inl rfl, rfl⟩
    · next hnew =>
      obtain ⟨⟨change, logical⟩, hb, h⟩ := Except.ok_of_bind h
      obtain ⟨outputs, hs, h⟩ := Except.ok_of_bind h
      obtain ⟨bytes, hw, h⟩ := Except.ok_of_bind h
      obtain ⟨hwrite, he⟩ := walAppend_eq_ok hw
      cases h
      exact .inr ⟨hwrite, _, bytes, [], ⟨hnew, change, logical, outputs, hb, hs, rfl⟩, he, rfl, rfl,
        .inl rfl⟩
    · cases h; exact .inl ⟨.inl rfl, rfl⟩
  | commitDone key =>
    simp only [Node.effect, Handler.commitDone] at h
    obtain ⟨bytes, hw, h⟩ := Except.ok_of_bind h
    obtain ⟨hwrite, he⟩ := walAppend_eq_ok hw
    cases h
    obtain ⟨htail, hstate⟩ := snapshotTail_maybeSnapshot cfg
      { n.handler with
        inbox := n.handler.inbox.markDone key
        outbox := n.handler.outbox.removeInput key.clientId (cfg.msgId key) }
    exact .inr ⟨hwrite, _, bytes, _, rfl, he, rfl, hstate, hstate.symm ▸ htail⟩
  | snapshotNow =>
    cases h
    exact .inl ⟨.inr ⟨n.handler, rfl, rfl⟩, rfl⟩

theorem appendedRecords_snapshotTail {s : HandlerState σ} {ops : List (DurableOp ς Δ)}
    (h : SnapshotTail cfg s ops) (steps : Nat) : appendedRecords (ops.take steps) = [] := by
  obtain rfl | ⟨h, -, rfl⟩ := h
  · simp [appendedRecords]
  · match steps with
    | 0 | 1 | 2 | 3 | _ + 4 => simp [Handler.snapshotNow, appendedRecords]

theorem Restores.snapshotTail {K : List (WalRecord Δ) → HandlerState σ → Prop} {d : Disk ς}
    {history : List (WalRecord Δ)} {s : HandlerState σ} {ops : List (DurableOp ς Δ)}
    (h : Restores cfg K d history) (ht : SnapshotTail cfg s ops) (hm : K history s) (steps : Nat) :
    Restores cfg K (d.performAll (ops.take steps)) history := by
  obtain rfl | ⟨handler, rfl, rfl⟩ := ht
  · simpa [Disk.performAll] using h
  · exact h.snapshotNow hm steps

end calls

/-! ## Runs -/

namespace Node

variable {σ ς Δ τ : Type} {cfg : HandlerConfig σ ς Δ} {V : View cfg.worker τ} {n n' : Node σ ς Δ}

/-- What `handle` answers: a finished input is acked, the outputs of a new one are those of its
record, and an applied one gets the outputs that the outbox holds. -/
theorem handle_cases {write : Except String PUnit} {key : InputKey} {businessFn : BusinessFn σ Δ}
    {effect : Handler.Effect σ ς Δ}
    (he : n.effect cfg write (.handle key businessFn) = .ok effect) :
    (n.handler.inbox.classify key = .done ∧ effect.instruction = .ack ∧
      (n.call cfg write (.handle key businessFn)).history = n.history) ∨
    (∃ change outputs,
      effect.instruction = .publishThenCommit outputs (cfg.msgId key) key ∧
      (n.call cfg write (.handle key businessFn)).history =
        n.history ++ [.inputApplied (cfg.msgId key) key change outputs]) ∨
    (n.handler.inbox.classify key = .applied ∧
      effect.instruction = .publishThenCommit
        (n.handler.outbox.entriesForInput key.clientId (cfg.msgId key)) (cfg.msgId key) key ∧
      (n.call cfg write (.handle key businessFn)).history = n.history) := by
  rw [Node.call, he]
  simp only [Node.effect, Handler.handle] at he
  split at he
  · next hdone =>
    cases he
    exact .inl ⟨hdone, rfl, List.append_nil _⟩
  · obtain ⟨⟨change, logical⟩, -, he⟩ := Except.ok_of_bind he
    obtain ⟨outputs, -, he⟩ := Except.ok_of_bind he
    obtain ⟨bytes, -, he⟩ := Except.ok_of_bind he
    cases he
    have hout : (n.handler.outbox.add key.clientId (cfg.msgId key) outputs).entriesForInput
        key.clientId (cfg.msgId key) = outputs := by
      rw [Outbox.entriesForInput_eq, Outbox.lookup_add, if_pos ⟨rfl, rfl⟩, Option.getD_some]
    exact .inr (.inl ⟨change, outputs, by rw [hout], rfl⟩)
  · next happ =>
    cases he
    exact .inr (.inr ⟨happ, rfl, List.append_nil _⟩)

/-- A commit that goes through appends its record. -/
theorem history_commitDone {write : Except String PUnit} {key : InputKey}
    {effect : Handler.Effect σ ς Δ} (he : n.effect cfg write (.commitDone key) = .ok effect) :
    (n.call cfg write (.commitDone key)).history =
      n.history ++ [.inputDone (cfg.msgId key) key] := by
  rcases effect_spec he with ⟨htail, -⟩ | ⟨hw, record, bytes, tail, ha, -, hops, -, htail⟩
  · simp only [Node.effect, Handler.commitDone] at he
    obtain ⟨bytes, -, he⟩ := Except.ok_of_bind he
    cases he
    obtain hnil | ⟨h', -, hops⟩ := htail
    · cases hnil
    · cases hops
  · cases ha
    have hnone := appendedRecords_snapshotTail htail tail.length
    rw [List.take_length] at hnone
    simp only [Node.call, he, Node.persist, hops, appendedRecords, hnone]

/-- Memory and disk agree with the history. -/
structure Inv (cfg : HandlerConfig σ ς Δ) (V : View cfg.worker τ) (n : Node σ ς Δ) : Prop where
  state : n.handler.toHandlerState.map V.view = specState cfg V n.history
  disk : Recoverable cfg V n.disk n.history
  admissible : Admissible cfg V n.history

theorem inv_init : Inv cfg V (init cfg) := ⟨rfl, recoverable_init, .nil⟩

theorem Inv.inbox (h : Inv cfg V n) : n.handler.inbox = (specState cfg V n.history).inbox :=
  congrArg HandlerState.inbox h.state

theorem Inv.outbox (h : Inv cfg V n) : n.handler.outbox = (specState cfg V n.history).outbox :=
  congrArg HandlerState.outbox h.state

theorem Inv.sequencer (h : Inv cfg V n) :
    n.handler.sequencer = (specState cfg V n.history).sequencer :=
  congrArg HandlerState.sequencer h.state

theorem Inv.workerState (h : Inv cfg V n) :
    V.view n.handler.workerState = (specState cfg V n.history).workerState :=
  congrArg HandlerState.workerState h.state

theorem Inv.admits (h : Inv cfg V n) {c : Call σ Δ} {record : WalRecord Δ}
    (ha : Appends cfg n.handler c record) : Admits cfg (specState cfg V n.history) record := by
  cases c with
  | handle key businessFn =>
    obtain ⟨hnew, change, logical, outputs, -, -, rfl⟩ := ha
    refine ⟨rfl, fun m key' change' outputs' he => ?_⟩
    cases he
    rw [← h.inbox]; exact hnew
  | commitDone key => cases ha; exact ⟨rfl, nofun⟩
  | snapshotNow => cases ha

section disk
variable {K : List (WalRecord Δ) → HandlerState σ → Prop} {c : Call σ Δ}

/-- The durable steps of a call, up to any point: nothing is recorded, or the record of the call is,
and the disk describes the history either way. -/
theorem restores_persist (hd : Restores cfg K n.disk n.history)
    (hs : K n.history n.handler.toHandlerState)
    (hk : ∀ record, Appends cfg n.handler c record → K (n.history ++ [record])
      (n.handler.toHandlerState.applyOnce cfg.worker.applyChange record)) (steps : Nat) :
    let n' := n.persist ((n.ops cfg c).take steps)
    Restores cfg K n'.disk n'.history ∧
      (n'.history = n.history ∨
        ∃ record, Appends cfg n.handler c record ∧ n'.history = n.history ++ [record]) := by
  have hnone : Restores cfg K (n.persist ([] : List (DurableOp ς Δ))).disk
      (n.persist ([] : List (DurableOp ς Δ))).history ∧
      (n.persist ([] : List (DurableOp ς Δ))).history = n.history := by
    simpa [Node.persist, appendedRecords, Disk.performAll] using hd
  unfold Node.ops
  cases he : n.effect cfg (.ok ⟨⟩) c with
  | error e =>
    simp only [List.take_nil]
    exact ⟨hnone.1, .inl hnone.2⟩
  | ok effect =>
    simp only
    rcases effect_spec he with ⟨htail, -⟩ | ⟨-, record, bytes, tail, ha, hb, hops, hstate, htail⟩
    · have hrec := appendedRecords_snapshotTail htail steps
      simp only [Node.persist, hrec, List.append_nil]
      exact ⟨hd.snapshotTail htail hs steps, .inl trivial⟩
    · rw [hops]
      cases steps with
      | zero =>
        simp only [List.take_zero]
        exact ⟨hnone.1, .inl hnone.2⟩
      | succ steps =>
        have hrec := appendedRecords_snapshotTail htail steps
        simp only [Node.persist, List.take_succ_cons, appendedRecords, hrec]
        exact ⟨(hd.append hb).snapshotTail htail (hstate ▸ hk record ha) steps,
          .inr ⟨record, ha, rfl⟩⟩

/-- A call that returns or raises. -/
theorem restores_call (hd : Restores cfg K n.disk n.history)
    (hs : K n.history n.handler.toHandlerState)
    (hk : ∀ record, Appends cfg n.handler c record → K (n.history ++ [record])
      (n.handler.toHandlerState.applyOnce cfg.worker.applyChange record))
    (write : Except String PUnit) :
    let n' := n.call cfg write c
    K n'.history n'.handler.toHandlerState ∧ Restores cfg K n'.disk n'.history ∧
      (n'.history = n.history ∧ n'.handler.toHandlerState = n.handler.toHandlerState ∨
      write = .ok ⟨⟩ ∧ ∃ record, Appends cfg n.handler c record ∧
        n'.history = n.history ++ [record]) := by
  unfold Node.call
  cases he : n.effect cfg write c with
  | error e => exact ⟨hs, hd, .inl ⟨rfl, rfl⟩⟩
  | ok effect =>
    simp only
    rcases effect_spec he with ⟨htail, hst⟩ | ⟨hw, record, bytes, tail, ha, hb, hops, hst, htail⟩
    · have hrec := appendedRecords_snapshotTail htail effect.ops.length
      have hdisk := hd.snapshotTail htail hs effect.ops.length
      rw [List.take_length] at hrec hdisk
      simp only [Node.persist, hrec, List.append_nil]
      exact ⟨hst ▸ hs, hdisk, .inl ⟨trivial, hst⟩⟩
    · have hspec := hk record ha
      rw [← hst] at hspec
      have hrec := appendedRecords_snapshotTail htail tail.length
      have hdisk := (hd.append hb).snapshotTail htail hspec tail.length
      rw [List.take_length] at hrec hdisk
      simp only [Node.persist, hops, appendedRecords, hrec]
      exact ⟨hspec, hdisk, .inr ⟨hw, record, ha, rfl⟩⟩

end disk

/-- The state that the history describes, with one more record. -/
theorem Inv.state_snoc (h : Inv cfg V n) (record : WalRecord Δ) :
    (n.handler.toHandlerState.applyOnce cfg.worker.applyChange record).map V.view =
      specState cfg V (n.history ++ [record]) := by
  rw [HandlerState.map_applyOnce, h.state, specState_snoc]

theorem Inv.admissible_of_history (h : Inv cfg V n) {c : Call σ Δ} {history : List (WalRecord Δ)}
    (hh : history = n.history ∨
      ∃ record, Appends cfg n.handler c record ∧ history = n.history ++ [record]) :
    Admissible cfg V history := by
  rcases hh with rfl | ⟨record, ha, rfl⟩
  · exact h.admissible
  · exact h.admissible.snoc (h.admits ha)

theorem Inv.persist (h : Inv cfg V n) (c : Call σ Δ) (steps : Nat) :
    let n' := n.persist ((n.ops cfg c).take steps)
    Recoverable cfg V n'.disk n'.history ∧ Admissible cfg V n'.history ∧
      (n'.history = n.history ∨
        ∃ record, Appends cfg n.handler c record ∧ n'.history = n.history ++ [record]) := by
  obtain ⟨hd, hh⟩ := restores_persist (recoverable_iff_restores.mp h.disk) h.state
    (fun record (_ : Appends cfg n.handler c record) => h.state_snoc record) steps
  exact ⟨recoverable_iff_restores.mpr hd, h.admissible_of_history hh, hh⟩

/-- A crash in a state that satisfies the invariant leads to one. -/
theorem Inv.recover (hd : Recoverable cfg V n.disk n.history)
    (ha : Admissible cfg V n.history) :
    ∃ handler, Handler.recover cfg n.disk = .ok handler ∧ Inv cfg V { n with handler } := by
  obtain ⟨handler, hr, hs⟩ := hd.recover ha
  exact ⟨handler, hr, hs, hd, ha⟩

/-- Touching the worker state where the view does not look keeps the invariant. -/
theorem Inv.mutate (h : Inv cfg V n) {f : σ → σ} (hf : ∀ s, V.view (f s) = V.view s) :
    Inv cfg V (n.mutate f) where
  state := by
    refine Eq.trans ?_ h.state
    simp only [Node.mutate, HandlerState.map, hf]
  disk := h.disk
  admissible := h.admissible

/-- A call keeps the invariant, and adds at most its record to the history. -/
theorem Inv.call (h : Inv cfg V n) (write : Except String PUnit) (c : Call σ Δ) :
    Inv cfg V (n.call cfg write c) ∧
      ((n.call cfg write c).history = n.history ∧
        (n.call cfg write c).handler.toHandlerState = n.handler.toHandlerState ∨
      write = .ok ⟨⟩ ∧ ∃ record, Appends cfg n.handler c record ∧
        (n.call cfg write c).history = n.history ++ [record]) := by
  obtain ⟨hs, hd, hh⟩ := restores_call (recoverable_iff_restores.mp h.disk) h.state
    (fun record (_ : Appends cfg n.handler c record) => h.state_snoc record) write
  exact ⟨⟨hs, recoverable_iff_restores.mpr hd,
    h.admissible_of_history (hh.imp And.left And.right)⟩, hh⟩

/-- A crash at any point of a call is recovered from. -/
theorem Inv.crashDuring (h : Inv cfg V n) (c : Call σ Δ) (steps : Nat) :
    ∃ n', n.crashDuring cfg c steps = .ok n' ∧ Inv cfg V n' ∧
      n'.history = n.history ++ appendedRecords ((n.ops cfg c).take steps) ∧
      (n'.history = n.history ∨
        ∃ record, Appends cfg n.handler c record ∧ n'.history = n.history ++ [record]) := by
  obtain ⟨hd, ha, hh⟩ := h.persist c steps
  obtain ⟨handler, hr, hi⟩ := Inv.recover hd ha
  refine ⟨{ n.persist ((n.ops cfg c).take steps) with handler }, ?_, hi, rfl, hh⟩
  simp only [Node.crashDuring, hr, Except.ok_bind]
  rfl

/-- One event: it succeeds, keeps the invariant, and adds at most the record of its call to the
history. -/
theorem Inv.exec (h : Inv cfg V n) (e : Event σ Δ) :
    ∃ n', n.exec cfg e = .ok n' ∧ Inv cfg V n' ∧
      (n'.history = n.history ∨
        ∃ c record, Appends cfg n.handler c record ∧ n'.history = n.history ++ [record]) := by
  cases e with
  | call c =>
    obtain ⟨hi, hh⟩ := h.call (.ok ⟨⟩) c
    exact ⟨_, rfl, hi, hh.imp And.left fun ⟨_, r, hr⟩ => ⟨c, r, hr⟩⟩
  | appendFails c =>
    obtain ⟨hi, hh⟩ := h.call (.error "write failed") c
    exact ⟨_, rfl, hi, hh.imp And.left fun ⟨_, r, hr⟩ => ⟨c, r, hr⟩⟩
  | crashDuring c steps =>
    obtain ⟨n', hn, hi, -, hh⟩ := h.crashDuring c steps
    exact ⟨n', hn, hi, hh.imp_right fun ⟨r, hr⟩ => ⟨c, r, hr⟩⟩

/-- A call with any end: it keeps the invariant and adds at most its record to the history. -/
theorem Inv.outcome (h : Inv cfg V n) (c : Call σ Δ) (outcome : Outcome) :
    ∃ n', n.exec cfg (outcome.event c) = .ok n' ∧ Inv cfg V n' ∧
      (n'.history = n.history ∨
        ∃ record, Appends cfg n.handler c record ∧ n'.history = n.history ++ [record]) := by
  cases outcome with
  | returns =>
    obtain ⟨hi, hh⟩ := h.call (.ok ⟨⟩) c
    exact ⟨_, rfl, hi, hh.imp And.left fun ⟨_, r, hr⟩ => ⟨r, hr⟩⟩
  | appendFails =>
    obtain ⟨hi, hh⟩ := h.call (.error "write failed") c
    exact ⟨_, rfl, hi, hh.imp And.left fun ⟨_, r, hr⟩ => ⟨r, hr⟩⟩
  | crashes steps =>
    obtain ⟨n', hn, hi, -, hh⟩ := h.crashDuring c steps
    exact ⟨n', hn, hi, hh⟩

/-- The handler after a record was added, where the view is the whole worker state. -/
theorem Inv.applyOnce_of_append {n' : Node σ ς Δ} (h : Inv cfg (.whole cfg.worker) n)
    (h' : Inv cfg (.whole cfg.worker) n') {record : WalRecord Δ}
    (hh : n'.history = n.history ++ [record]) :
    n'.handler.toHandlerState =
      n.handler.toHandlerState.applyOnce cfg.worker.applyChange record := by
  have hs := h.state
  have hs' := h'.state
  rw [hh, specState_snoc, ← hs] at hs'
  exact hs'

/-- A whole run: an assertion about the history that holds initially and survives every appended
record holds at the end. -/
theorem Inv.run (h : Inv cfg V n) (P : List (WalRecord Δ) → Prop) (hP : P n.history)
    (hstep : ∀ n : Node σ ς Δ, Inv cfg V n → P n.history → ∀ c record,
      Appends cfg n.handler c record → P (n.history ++ [record]))
    (events : List (Event σ Δ)) :
    ∃ n', n.run cfg events = .ok n' ∧ Inv cfg V n' ∧ P n'.history := by
  induction events generalizing n with
  | nil => exact ⟨n, rfl, h, hP⟩
  | cons e es ih =>
    obtain ⟨n₁, hn, hi, hh⟩ := h.exec e
    have hP₁ : P n₁.history := by
      rcases hh with hh | ⟨c, record, ha, hh⟩
      · exact hh ▸ hP
      · exact hh ▸ hstep n h hP c record ha
    obtain ⟨n', hr, hi', hP'⟩ := ih hi hP₁
    exact ⟨n', by rw [Node.run, hn, Except.ok_bind]; exact hr, hi', hP'⟩

/-- Crashes between two calls change neither the history nor the state. -/
theorem Inv.run_crashes (h : Inv cfg V n) (cycles : Nat) :
    ∃ n', n.run cfg (List.replicate cycles (.crashDuring .snapshotNow 0)) = .ok n' ∧
      Inv cfg V n' ∧ n'.history = n.history := by
  induction cycles generalizing n with
  | zero => exact ⟨n, rfl, h, rfl⟩
  | succ cycles ih =>
    obtain ⟨n₁, hn, hi, hh, -⟩ := h.crashDuring .snapshotNow 0
    have hh : n₁.history = n.history := by simpa [appendedRecords] using hh
    obtain ⟨n', hr, hi', hh'⟩ := ih hi
    refine ⟨n', ?_, hi', hh'.trans hh⟩
    rw [List.replicate_succ, Node.run, Node.exec, hn, Except.ok_bind]
    exact hr

/-- **Crash recovery.** After any run of calls, failing appends and crashes, a crash after any
number of the durable steps of any call, followed by `recover` and by any number of further crashes
and recoveries, leads to the state that applying once each, in order, every record ever appended
gives: the worker state, the inbox, the outbox and the sequencer. -/
theorem recover_applies_each_record_once (cfg : HandlerConfig σ ς Δ) (events : List (Event σ Δ))
    (c : Call σ Δ) (steps cycles : Nat) :
    ∃ n n', (init cfg).run cfg events = .ok n ∧
      n.run cfg (.crashDuring c steps ::
        List.replicate cycles (.crashDuring .snapshotNow 0)) = .ok n' ∧
      n'.history = n.history ++ appendedRecords ((n.ops cfg c).take steps) ∧
      n'.handler.toHandlerState = HandlerState.appliedOnce cfg.worker.applyChange
        (Handler.init cfg).toHandlerState n'.history := by
  obtain ⟨n, hn, hi, -⟩ := (inv_init (V := .whole cfg.worker)).run (fun _ => True) trivial
    (fun _ _ _ _ _ _ => trivial) events
  obtain ⟨n₁, hn₁, hi₁, hh₁, -⟩ := hi.crashDuring c steps
  obtain ⟨n', hn', hi', hh'⟩ := hi₁.run_crashes cycles
  refine ⟨n, n', hn, ?_, hh'.trans hh₁, hi'.state⟩
  rw [Node.run, Node.exec, hn₁, Except.ok_bind]
  exact hn'

end Node

end MoneyLaundering
