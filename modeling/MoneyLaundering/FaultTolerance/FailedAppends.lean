import Mathlib.Data.Option.Basic
import MoneyLaundering.FaultTolerance.Publications

/-!
# Appends that leave bytes behind

`_write_record` of the log's writer writes the record and then syncs the file. When the sync raises,
or `os.write` took a part of the record and then raises, the call fails as it does when nothing was
written: the memory is as before and the input will be redelivered. But the bytes stay in
`wal.current`, and nothing removes them. A whole record left behind will be replayed; a part of one
hides what is appended behind it. A process that dies in the middle of the write leaves a part of
the record as well.

Here the handler, the consume loop and a publishing process run over such a disk. As long as these
appends leave the file as it was, their runs are the runs in which a failing append writes nothing.
-/

namespace MoneyLaundering

open Bytes SenderSequencer Transition

/-- A record is never written as no byte. -/
theorem Wal.encode_ne_nil {Δ : Type} {json : StateChangeCodec Δ} {record : WalRecord Δ}
    {bytes : Bytes} (h : Wal.encode json record = .ok bytes) : bytes ≠ [] := by
  obtain ⟨t, payload, -, rfl, -⟩ := Wal.encode_eq_ok h
  exact List.ne_nil_of_length_pos (by simp)

namespace Node

variable {σ ς Δ : Type} (cfg : HandlerConfig σ ς Δ)

/-- The append of a call raises when the first `written` bytes of its record are in the file; `none`
when the call appends nothing. The record counts as recorded when all of it is there. -/
def spill (n : Node σ ς Δ) (c : Call σ Δ) (written : Nat) : Option (Node σ ς Δ) :=
  match n.ops cfg c with
  | .append record bytes :: _ =>
    some { n with
      disk := n.disk.perform (.append record (bytes.take written))
      history := n.history ++ if bytes.length ≤ written then [record] else [] }
  | _ => none

/-- The process dies at this point of the append, or before the call if that appends nothing, and
recovers. -/
def tear (n : Node σ ς Δ) (c : Call σ Δ) (written : Nat) : Except String (Node σ ς Δ) := do
  let n' := (n.spill cfg c written).getD n
  let handler ← Handler.recover cfg n'.disk
  return { n' with handler }

/-- The append leaves the file as it was. -/
def KeepsFile (n : Node σ ς Δ) (c : Call σ Δ) (written : Nat) : Prop :=
  ∀ n' ∈ n.spill cfg c written, n'.disk.wal = n.disk.wal

instance (n : Node σ ς Δ) (c : Call σ Δ) (written : Nat) : Decidable (n.KeepsFile cfg c written) :=
  inferInstanceAs (Decidable (∀ n' ∈ n.spill cfg c written, n'.disk.wal = n.disk.wal))

/-- What can happen to a node over such a disk. -/
inductive DiskEvent (σ Δ : Type) where
  | event (e : Event σ Δ)
  | spills (c : Call σ Δ) (written : Nat)
  | tears (c : Call σ Δ) (written : Nat)

/-- One event. A call that appends nothing does not fail. -/
def execDisk (n : Node σ ς Δ) : DiskEvent σ Δ → Except String (Node σ ς Δ)
  | .event e => n.exec cfg e
  | .spills c written => .ok ((n.spill cfg c written).getD (n.call cfg (.ok ⟨⟩) c))
  | .tears c written => n.tear cfg c written

def runDisk (n : Node σ ς Δ) : List (DiskEvent σ Δ) → Except String (Node σ ς Δ)
  | [] => .ok n
  | e :: es => do runDisk (← n.execDisk cfg e) es

/-- An append that raises, or in which the process dies, leaves the file as it was. -/
def FileKept (n : Node σ ς Δ) : DiskEvent σ Δ → Prop
  | .event _ => True
  | .spills c written | .tears c written => n.KeepsFile cfg c written

instance (n : Node σ ς Δ) : (e : DiskEvent σ Δ) → Decidable (n.FileKept cfg e)
  | .event _ => .isTrue trivial
  | .spills c written | .tears c written => inferInstanceAs (Decidable (n.KeepsFile cfg c written))

/-- Every step of the run is such a step. -/
def FileKeptThroughout (n : Node σ ς Δ) : List (DiskEvent σ Δ) → Prop
  | [] => True
  | e :: es => n.FileKept cfg e ∧ ∀ n' ∈ (n.execDisk cfg e).toOption, FileKeptThroughout n' es

instance decidableFileKeptThroughout (n : Node σ ς Δ) :
    (es : List (DiskEvent σ Δ)) → Decidable (n.FileKeptThroughout cfg es)
  | [] => .isTrue trivial
  | e :: es =>
    have := fun n' => decidableFileKeptThroughout n' es
    inferInstanceAs (Decidable (n.FileKept cfg e ∧ ∀ n' ∈ (n.execDisk cfg e).toOption,
      FileKeptThroughout cfg n' es))

variable {cfg} {n n' : Node σ ς Δ} {c : Call σ Δ} {written : Nat} {record : WalRecord Δ}
  {bytes : Bytes} {tail : List (DurableOp ς Δ)}

/-- A call that appends: the bytes are those of the record, and when nothing can be written it
raises. -/
theorem of_ops_append (h : n.ops cfg c = .append record bytes :: tail) :
    Wal.encode cfg.json record = .ok bytes ∧ ∀ e, n.effect cfg (.error e) c = .error e := by
  unfold Node.ops at h
  split at h
  · next effect heff =>
    rcases effect_spec heff with ⟨htail, -⟩ | ⟨-, record', bytes', tail', happ, hb, hops, -⟩
    · obtain hnil | ⟨h', -, hops⟩ := htail
      · rw [hnil] at h
        cases h
      · rw [hops] at h
        cases h
    · rw [hops] at h
      cases h
      refine ⟨hb, fun e => ?_⟩
      cases c with
      | handle key businessFn =>
        obtain ⟨hnew, change, logical, outputs, hfn, hstamp, rfl⟩ := happ
        simp only [Node.effect, Handler.handle, hnew]
        rw [hfn, Except.ok_bind]
        dsimp only
        rw [hstamp, Except.ok_bind, Handler.walAppend, hb, Except.ok_bind]
        rfl
      | commitDone key =>
        cases happ
        simp only [Node.effect, Handler.commitDone]
        rw [Handler.walAppend, hb, Except.ok_bind]
        rfl
      | snapshotNow => exact happ.elim
  · cases h

/-- The memory is as before, whatever was written. -/
theorem handler_of_spill (h : n.spill cfg c written = some n') : n'.handler = n.handler := by
  unfold spill at h
  split at h
  · rw [← Option.some.inj h]
  · cases h

/-- A failing append that leaves the file as it was leaves the node as it was. -/
theorem eq_of_spill (h : n.spill cfg c written = some n') (hw : n'.disk.wal = n.disk.wal) :
    n' = n ∧ ∀ e, n.effect cfg (.error e) c = .error e := by
  unfold spill at h
  split at h
  · next record bytes tail hops =>
    obtain ⟨hb, herr⟩ := of_ops_append hops
    have hn := Option.some.inj h
    subst hn
    have hnil : bytes.take written = [] := by simpa [Disk.perform] using hw
    have hlt : written < bytes.length := by
      by_contra hle
      rw [List.take_of_length_le (by omega)] at hnil
      exact Wal.encode_ne_nil hb hnil
    refine ⟨?_, herr⟩
    rw [hnil, if_neg (by omega), List.append_nil, Disk.perform, List.append_nil]
  · cases h

/-- The process dies in a call before anything was written. -/
theorem KeepsFile.tear (h : n.KeepsFile cfg c written) :
    n.tear cfg c written = n.crashDuring cfg c 0 := by
  have hn : (n.spill cfg c written).getD n = n.persist ((n.ops cfg c).take 0) := by
    have hnone : n.persist ((n.ops cfg c).take 0) = n := by
      rw [List.take_zero, persist, appendedRecords, List.append_nil, Disk.performAll,
        List.foldl_nil]
    rw [hnone]
    cases hs : n.spill cfg c written with
    | none => rfl
    | some n' => exact (eq_of_spill hs (h n' hs)).1
  rw [Node.tear, crashDuring, hn]

/-- Such a step is one in which a failing append writes nothing. -/
theorem exists_exec {e : DiskEvent σ Δ} (h : n.FileKept cfg e) :
    ∃ e', n.execDisk cfg e = n.exec cfg e' := by
  cases e with
  | event e => exact ⟨e, rfl⟩
  | spills c written =>
    cases hs : n.spill cfg c written with
    | none => exact ⟨.call c, by rw [execDisk, hs]; rfl⟩
    | some n' =>
      obtain ⟨rfl, herr⟩ := eq_of_spill hs (h n' hs)
      refine ⟨.appendFails c, ?_⟩
      rw [execDisk, hs, Option.getD_some, Node.exec, Node.call, herr]
  | tears c written => exact ⟨.crashDuring c 0, KeepsFile.tear h⟩

/-- And such a run is one of these runs. -/
theorem exists_run {events : List (DiskEvent σ Δ)} (h : n.FileKeptThroughout cfg events) :
    ∃ events', n.runDisk cfg events = n.run cfg events' := by
  induction events generalizing n with
  | nil => exact ⟨[], rfl⟩
  | cons e es ih =>
    obtain ⟨e', he⟩ := exists_exec h.1
    rw [runDisk]
    cases hn : n.execDisk cfg e with
    | error msg => exact ⟨[e'], by rw [Node.run, ← he, hn]; rfl⟩
    | ok n' =>
      obtain ⟨es', hes⟩ := ih (h.2 n' (by rw [hn]; rfl))
      refine ⟨e' :: es', ?_⟩
      rw [Node.run, ← he, hn, Except.ok_bind, Except.ok_bind, hes]

/-- **Sequence numbers.** In every run of calls, failing appends, snapshots and crashes with
recovery in which no append that raises or is interrupted leaves bytes in the file, the packets
recorded for a client, an addressed edge and a shard carry the seqs `0, 1, 2, …` in append order,
and all output ids ever recorded are distinct. A call whose append fails leaves the counters as they
were, whatever it leaves in the file. -/
theorem recorded_seqs_dense (cfg : HandlerConfig σ ς Δ) (hcolon : cfg.EdgesNoColon)
    (events : List (DiskEvent σ Δ)) (hkept : (init cfg).FileKeptThroughout cfg events) :
    ∃ n, (init cfg).runDisk cfg events = .ok n ∧
      (∀ clientId edge shard, (cfg.edges.get? edge).isSome →
        ∃ count, bucketSeqs (outputLog n.history) clientId edge shard =
          (List.range count).map some) ∧
      ((outputLog n.history).map fun x => x.2.outputId).Nodup ∧
      (∀ c, ∃ n', n.exec cfg (.appendFails c) = .ok n' ∧
        n'.handler.sequencer = n.handler.sequencer ∧ n'.history = n.history) ∧
      ∀ c written n', n.spill cfg c written = some n' →
        n'.handler.sequencer = n.handler.sequencer := by
  obtain ⟨events', hrun⟩ := exists_run hkept
  obtain ⟨n, hn, hi, hd⟩ := (inv_init (V := .whole cfg.worker)).run
    (fun history => Dense cfg.toSequencerConfig (outputLog history)
      (specState cfg (.whole cfg.worker) history).sequencer) dense_nil
    (fun n hi hd c record ha => dense_append hcolon hi hd ha) events'
  refine ⟨n, hrun.trans hn, fun clientId edge shard he => ⟨_, hd.buckets clientId edge shard he⟩,
    hd.nodup, fun c => ⟨_, rfl, ?_⟩, fun c written n' hs => by rw [handler_of_spill hs]⟩
  rcases (hi.call (.error "write failed") c).2 with ⟨hh, hs⟩ | ⟨hw, -⟩
  · exact ⟨congrArg HandlerState.sequencer hs, hh⟩
  · cases hw

/-- A worker without state, with one addressed edge of two shards. -/
def relayConfig : HandlerConfig Unit Unit Unit where
  nodeId := "relay"
  nodeId_noColon := by decide
  edges := ⟨[("out", { senderId := 3, shardCount := 2 })], by decide⟩
  sha256 := fun _ => []
  worker := ⟨(), fun _ => (), fun _ => (), fun _ _ => (), fun _ => rfl⟩
  json := Wal.emptyChange
  snapshotEvery := 1
  msgId := runnerMsgId
  msgId_inj := runnerMsgId_inj

theorem relayConfig_edgesNoColon : relayConfig.EdgesNoColon := by
  intro edge spec h
  have hm := Dict.mem_entries_iff.mpr h
  simp only [relayConfig, List.mem_singleton, Prod.mk.injEq] at hm
  rw [hm.1]
  decide

/-- An input of the relay with one packet for shard `1` of the edge. -/
def relayed (seq : Nat) : Call Unit Unit :=
  .handle ⟨7, .data, 0, seq⟩ fun _ => .ok ((), [⟨"out", List.replicate 17 0, some 1⟩])

/-- An append that raises at once, an input with two packets, a crash in the middle of its commit,
and a redelivery. -/
def relayRun : List (DiskEvent Unit Unit) :=
  [.spills (relayed 1) 0,
   .event (.call (.handle ⟨7, .data, 0, 0⟩ fun _ => .ok ((),
     [⟨"out", List.replicate 17 0, some 1⟩, ⟨"out", List.replicate 18 0, some 1⟩]))),
   .event (.crashDuring (.commitDone ⟨7, .data, 0, 0⟩) 3),
   .tears (relayed 1) 0,
   .event (.call (relayed 0))]

/-- The seqs of such a run are `0, 1`, and its output ids are distinct. -/
theorem recorded_seqs_dense_relay :
    relayConfig.EdgesNoColon ∧ (init relayConfig).FileKeptThroughout relayConfig relayRun ∧
    ∃ n, (init relayConfig).runDisk relayConfig relayRun = .ok n ∧
      bucketSeqs (outputLog n.history) 7 "out" 1 = [some 0, some 1] ∧
      ((outputLog n.history).map fun x => x.2.outputId).Nodup := by
  have hkept : (init relayConfig).FileKeptThroughout relayConfig relayRun := by decide +kernel
  obtain ⟨n, hn, -, hnodup, -⟩ :=
    recorded_seqs_dense relayConfig relayConfig_edgesNoColon relayRun hkept
  have hseqs : ((init relayConfig).runDisk relayConfig relayRun).toOption.map
      (fun n => bucketSeqs (outputLog n.history) 7 "out" 1) = some [some 0, some 1] := by
    decide +kernel
  rw [hn] at hseqs
  exact ⟨relayConfig_edgesNoColon, hkept, n, hn, Option.some.inj hseqs, hnodup⟩

/-- The sync of the first input raises with the whole record in the file, and the second input takes
the same seq. -/
theorem recorded_seqs_repeated :
    ¬ ∀ events : List (DiskEvent Unit Unit), ∃ n,
      (init relayConfig).runDisk relayConfig events = .ok n ∧
      ∀ clientId edge shard, (relayConfig.edges.get? edge).isSome →
        ∃ count, bucketSeqs (outputLog n.history) clientId edge shard =
          (List.range count).map some := by
  intro h
  obtain ⟨n, hn, hdense⟩ := h [.spills (relayed 0) 200, .event (.call (relayed 1))]
  obtain ⟨count, hcount⟩ := hdense 7 "out" 1 (by decide)
  have hseqs : ((init relayConfig).runDisk relayConfig
      [.spills (relayed 0) 200, .event (.call (relayed 1))]).toOption.map
        (fun n => bucketSeqs (outputLog n.history) 7 "out" 1) = some [some 0, some 0] := by
    decide +kernel
  rw [hn] at hseqs
  have hcount := (Option.some.inj hseqs).symm.trans hcount
  have hnodup : ((List.range count).map (some : Nat → Option Nat)).Nodup :=
    List.nodup_range.map (Option.some_injective Nat)
  rw [← hcount] at hnodup
  exact absurd hnodup (by decide)

end Node

/-! ## The consume loop -/

namespace Runner

variable {σ ς Δ : Type} (cfg : RunnerConfig σ ς Δ)

/-- What can happen to a worker over such a disk. -/
inductive DiskLabel where
  | label (l : Label)
  | spillInDeliver (body : Bytes) (written : Nat)
  | spillInCommit (i : Nat) (written : Nat)
  | tearInDeliver (body : Bytes) (written : Nat)
  | tearInCommit (i : Nat) (written : Nat)

/-- The append of a call raises with bytes in the file, and these tasks go on; `none` when the call
appends nothing. -/
def spillIn (s : State σ ς Δ) (c : Call σ Δ) (written : Nat) (tasks : List Task) :
    Option (State σ ς Δ) :=
  (s.node.spill cfg.handler c written).map fun node => { s with
    node
    tasks
    trace := s.trace ++ recordedSince s.node node }

/-- The process dies in the middle of the append of a call. -/
def tearIn (s : State σ ς Δ) (c : Call σ Δ) (written : Nat) : Option (State σ ς Δ) :=
  match s.node.tear cfg.handler c written with
  | .error _ => none
  | .ok node => some {
      node
      pending := labelledPending node.handler.outbox
      trace := s.trace ++ recordedSince s.node node }

/-- One step of the worker, `none` when it is not enabled. A call that appends nothing does not
fail. -/
def execDisk (s : State σ ς Δ) : DiskLabel → Option (State σ ς Δ)
  | .label l => exec cfg s l
  | .spillInDeliver body written =>
    if s.pending ≠ [] then none
    else
      match callFor cfg body with
      | none => some s
      | some (key, businessFn) =>
        spillIn cfg s (.handle key businessFn) written s.tasks <|>
          deliver cfg s body (.ok ⟨⟩)
  | .spillInCommit i written =>
    match s.tasks[i]? with
    | some ⟨key, .publishing []⟩ =>
      spillIn cfg s (.commitDone key) written (s.tasks.eraseIdx i) <|>
        exec cfg s (.commit i (.ok ⟨⟩))
    | _ => none
  | .tearInDeliver body written =>
    if s.pending ≠ [] then none
    else
      match callFor cfg body with
      | none => none
      | some (key, businessFn) => tearIn cfg s (.handle key businessFn) written
  | .tearInCommit i written =>
    match s.tasks[i]? with
    | some ⟨key, .publishing []⟩ => tearIn cfg s (.commitDone key) written
    | _ => none

/-- In addition to `CapPromise`, an append that raises, or in which the process dies, leaves the
file as it was. -/
def DiskPromise (s : State σ ς Δ) : DiskLabel → Prop
  | .label l => CapPromise cfg s l
  | .spillInDeliver body written | .tearInDeliver body written =>
    CapPromise cfg s (.deliver body (.ok ⟨⟩)) ∧
      ∀ c ∈ callFor cfg body, s.node.KeepsFile cfg.handler (.handle c.1 c.2) written
  | .spillInCommit i written | .tearInCommit i written =>
    CapPromise cfg s (.commit i (.ok ⟨⟩)) ∧
      ∀ task ∈ s.tasks[i]?, s.node.KeepsFile cfg.handler (.commitDone task.key) written

instance (s : State σ ς Δ) : (l : DiskLabel) → Decidable (DiskPromise cfg s l)
  | .label l => inferInstanceAs (Decidable (CapPromise cfg s l))
  | .spillInDeliver body written | .tearInDeliver body written =>
    inferInstanceAs (Decidable (CapPromise cfg s (.deliver body (.ok ⟨⟩)) ∧
      ∀ c ∈ callFor cfg body, s.node.KeepsFile cfg.handler (.handle c.1 c.2) written))
  | .spillInCommit i written | .tearInCommit i written =>
    inferInstanceAs (Decidable (CapPromise cfg s (.commit i (.ok ⟨⟩)) ∧
      ∀ task ∈ s.tasks[i]?, s.node.KeepsFile cfg.handler (.commitDone task.key) written))

variable {cfg} {s s' : State σ ς Δ} {c : Call σ Δ} {written : Nat} {tasks : List Task}

theorem eq_of_spillIn (hkept : s.node.KeepsFile cfg.handler c written)
    (he : spillIn cfg s c written tasks = some s') :
    s' = { s with tasks } ∧ ∀ e, s.node.effect cfg.handler (.error e) c = .error e := by
  obtain ⟨node, hn, rfl⟩ := Option.map_eq_some_iff.mp he
  obtain ⟨rfl, herr⟩ := Node.eq_of_spill hn (hkept node hn)
  refine ⟨?_, herr⟩
  rw [recordedSince_of_history_eq rfl, List.append_nil]

theorem tearIn_eq (hkept : s.node.KeepsFile cfg.handler c written) :
    tearIn cfg s c written = crashIn cfg s c 0 := by
  have htear := hkept.tear
  dsimp only [tearIn, crashIn]
  generalize s.node.tear cfg.handler c written = result at htear ⊢
  subst htear
  rfl

/-- Such a step is one in which a failing append writes nothing. -/
theorem exists_exec {l : DiskLabel} (hp : DiskPromise cfg s l) (he : execDisk cfg s l = some s') :
    ∃ l', CapPromise cfg s l' ∧ exec cfg s l' = some s' := by
  cases l with
  | label l => exact ⟨l, hp, he⟩
  | spillInDeliver body written =>
    obtain ⟨hcap, hkept⟩ := hp
    simp only [execDisk] at he
    split at he
    · cases he
    · next hpend =>
      split at he
      · next hcall =>
        refine ⟨.deliver body (.ok ⟨⟩), hcap, ?_⟩
        rw [exec, deliver, if_neg hpend, hcall]
        exact he
      · next key businessFn hcall =>
        rcases (Option.orElse_eq_some _ _ _).mp he with hs | ⟨-, hd⟩
        · obtain ⟨rfl, herr⟩ := eq_of_spillIn (hkept _ hcall) hs
          refine ⟨.deliver body (.error "write failed"), hcap, ?_⟩
          rw [exec, deliver, if_neg hpend, hcall]
          dsimp only
          rw [herr]
        · exact ⟨.deliver body (.ok ⟨⟩), hcap, hd⟩
  | spillInCommit i written =>
    obtain ⟨hcap, hkept⟩ := hp
    simp only [execDisk] at he
    split at he
    · next key ht =>
      rcases (Option.orElse_eq_some _ _ _).mp he with hs | ⟨-, hd⟩
      · obtain ⟨rfl, herr⟩ := eq_of_spillIn (hkept _ ht) hs
        refine ⟨.commit i (.error "write failed"), hcap, ?_⟩
        rw [exec, ht]
        dsimp only
        rw [herr]
      · exact ⟨.commit i (.ok ⟨⟩), hcap, hd⟩
    · cases he
  | tearInDeliver body written =>
    obtain ⟨-, hkept⟩ := hp
    simp only [execDisk] at he
    split at he
    · cases he
    · next hpend =>
      split at he
      · cases he
      · next key businessFn hcall =>
        rw [tearIn_eq (hkept _ hcall)] at he
        refine ⟨.crashInDeliver body 0, trivial, ?_⟩
        rw [exec, if_neg hpend, hcall]
        exact he
  | tearInCommit i written =>
    obtain ⟨hcap, hkept⟩ := hp
    simp only [execDisk] at he
    split at he
    · next key ht =>
      rw [tearIn_eq (hkept _ ht)] at he
      refine ⟨.crashInCommit i 0, hcap, ?_⟩
      rw [exec, ht]
      exact he
    · cases he

/-- **The exactly-once step.** In every run of deliveries, redeliveries, publish failures, append
failures and crashes with recovery, in which message `0` of a channel is finished before the others,
no finished message of a channel skips more than the cap, and an append that raises or is
interrupted leaves the file as it was: an input is acked only after it was applied, all the outputs
it was stamped with were published since, and its end is on disk; it is applied at most once, and
the surviving state is the fold of the recorded changes; and whatever is published for an input is
one of the entries it was stamped with. -/
theorem acked_after_done_and_published (cfg : RunnerConfig σ ς Δ) {s : State σ ς Δ}
    (h : Reachable (execDisk cfg) (DiskPromise cfg) (init cfg) s) :
    (∀ pre key, pre ++ [.acked key] <+: s.trace → Finished pre key) ∧
    (∀ key, (appliedRecords s.node.history key).length ≤ 1) ∧
    recordsIn s.trace = s.node.history ∧
    s.node.handler.workerState =
      (stateChanges s.node.history).foldl cfg.worker.applyChange cfg.worker.fresh ∧
    ∀ key change outputs, .inputApplied (runnerMsgId key) key change outputs ∈ s.node.history →
      ∀ entry, .published key.clientId (runnerMsgId key) entry ∈ s.trace → entry ∈ outputs :=
  observed cfg (h.of_steps fun _ _ _ hp he => exists_exec hp he)

/-- The disk is full for message `1`, then messages `0`, `2` and `1` of a channel are finished in
this order. -/
theorem acked_after_done_and_published_out_of_order :
    ∃ s, Reachable (execDisk sinkConfig) (DiskPromise sinkConfig) (init sinkConfig) s ∧
      s.trace = seen 0 ++ seen 2 ++ seen 1 ∧
      ∀ pre key, pre ++ [.acked key] <+: s.trace → Finished pre key := by
  have hrun : (runAllowed (execDisk sinkConfig) (DiskPromise sinkConfig) (init sinkConfig)
      (.spillInDeliver (emptyPacket 1) 0 ::
        (processed 0 ++ processed 2 ++ processed 1).map .label)).map State.trace =
      some (seen 0 ++ seen 2 ++ seen 1) := by decide +kernel
  obtain ⟨s, hs, ht⟩ := Option.map_eq_some_iff.mp hrun
  have hreach := reachable_of_runAllowed .init hs
  exact ⟨s, hreach, ht, (acked_after_done_and_published sinkConfig hreach).1⟩

end Runner

/-! ## A process with handlers of its own -/

namespace Publisher

open Consumer

variable {σ Δ μ : Type} (cfg : ConsumerConfig σ Δ μ) (onError : RepublishError)

/-- What can happen to a process over such a disk. -/
inductive DiskLabel (μ : Type) where
  | label (l : Label μ)
  | spillInDeliver (message : μ) (written : Nat)
  | spillInCommit (i : Nat) (written : Nat)
  | tearInDeliver (message : μ) (written : Nat)
  | tearInCommit (i : Nat) (written : Nat)

/-- The node and the call of a message that reaches `handle`. -/
def handled (s : State σ Δ) (message : μ) : Option (Node σ σ Δ × Call σ Δ) :=
  match cfg.react s.node.handler.workerState message with
  | .handle key touched result => some (touchedNode s.node key touched, .handle key fun _ => result)
  | _ => none

/-- The input that the task `i` commits next. -/
def finished (s : State σ Δ) (i : Nat) : Option InputKey :=
  match s.tasks[i]? with
  | some (.publishing key []) => some key
  | _ => none

/-- One step, `none` when it is not enabled or the recovery raises. A call that appends nothing does
not fail. -/
def execDisk (s : State σ Δ) : DiskLabel μ → Option (State σ Δ)
  | .label l => exec cfg onError s l
  | .spillInDeliver message written =>
    if s.pending = [] then
      match handled cfg s message with
      | some (node, c) =>
        ((node.spill cfg.handler c written).map fun node => { s with node }) <|>
          deliver cfg s message .returns
      | none => deliver cfg s message .returns
    else none
  | .spillInCommit i written =>
    match finished s i with
    | some key =>
      ((s.node.spill cfg.handler (.commitDone key) written).map fun node =>
        { s with node, tasks := s.tasks.eraseIdx i }) <|>
          commit cfg s i key .returns
    | none => none
  | .tearInDeliver message written =>
    if s.pending = [] then
      match handled cfg s message with
      | some (node, c) => (node.tear cfg.handler c written).toOption.map (restarted s)
      | none => none
    else none
  | .tearInCommit i written =>
    match finished s i with
    | some key => (s.node.tear cfg.handler (.commitDone key) written).toOption.map (restarted s)
    | none => none

/-- The ends of a call that writes all of its record or nothing. -/
def wholeOutcomes : List Outcome := [.returns, .appendFails, .crashes 0]

/-- What is allowed over such a disk: an append that raises, or in which the process dies, leaves
the file as it was. -/
def DiskAllowed (allowed : State σ Δ → Label μ → Prop) (s : State σ Δ) : DiskLabel μ → Prop
  | .label l => allowed s l
  | .spillInDeliver message written | .tearInDeliver message written =>
    (∀ outcome ∈ wholeOutcomes, allowed s (.deliver message outcome)) ∧
      ∀ x ∈ handled cfg s message, x.1.KeepsFile cfg.handler x.2 written
  | .spillInCommit i written | .tearInCommit i written =>
    (∀ outcome ∈ wholeOutcomes, allowed s (.commit i outcome)) ∧
      ∀ key ∈ finished s i, s.node.KeepsFile cfg.handler (.commitDone key) written

instance (allowed : State σ Δ → Label μ → Prop) [∀ s l, Decidable (allowed s l)] (s : State σ Δ) :
    (l : DiskLabel μ) → Decidable (DiskAllowed cfg allowed s l)
  | .label l => inferInstanceAs (Decidable (allowed s l))
  | .spillInDeliver message written | .tearInDeliver message written =>
    inferInstanceAs (Decidable ((∀ outcome ∈ wholeOutcomes, allowed s (.deliver message outcome)) ∧
      ∀ x ∈ handled cfg s message, x.1.KeepsFile cfg.handler x.2 written))
  | .spillInCommit i written | .tearInCommit i written =>
    inferInstanceAs (Decidable ((∀ outcome ∈ wholeOutcomes, allowed s (.commit i outcome)) ∧
      ∀ key ∈ finished s i, s.node.KeepsFile cfg.handler (.commitDone key) written))

variable {cfg onError} {allowed : State σ Δ → Label μ → Prop} {s s' : State σ Δ}

theorem react_of_handled {message : μ} {node : Node σ σ Δ} {c : Call σ Δ}
    (h : handled cfg s message = some (node, c)) : ∃ key touched result,
      cfg.react s.node.handler.workerState message = .handle key touched result ∧
      node = touchedNode s.node key touched ∧ c = .handle key fun _ => result := by
  unfold handled at h
  split at h
  · next key touched result hr =>
    cases h
    exact ⟨key, touched, result, hr, rfl, rfl⟩
  · cases h

theorem task_of_finished {i : Nat} {key : InputKey} (h : finished s i = some key) :
    s.tasks[i]? = some (.publishing key []) := by
  unfold finished at h
  split at h
  · next key' ht =>
    cases h
    exact ht
  · cases h

/-- Such a step is one in which a failing append writes nothing. -/
theorem exists_exec {l : DiskLabel μ} (hp : DiskAllowed cfg allowed s l)
    (he : execDisk cfg onError s l = some s') :
    ∃ l', allowed s l' ∧ exec cfg onError s l' = some s' := by
  cases l with
  | label l => exact ⟨l, hp, he⟩
  | spillInDeliver message written =>
    obtain ⟨hall, hkept⟩ := hp
    have hreturns := hall .returns (by simp [wholeOutcomes])
    simp only [execDisk] at he
    split at he
    · next hpend =>
      have hdeliver : ∀ outcome, exec cfg onError s (.deliver message outcome) =
          deliver cfg s message outcome := fun outcome => by rw [exec, if_pos hpend]
      split at he
      · next node c hh =>
        rcases (Option.orElse_eq_some _ _ _).mp he with hs | ⟨-, hd⟩
        · obtain ⟨node', hn, rfl⟩ := Option.map_eq_some_iff.mp hs
          obtain ⟨rfl, herr⟩ := Node.eq_of_spill hn (hkept _ hh node' hn)
          obtain ⟨key, touched, result, hr, rfl, rfl⟩ := react_of_handled hh
          refine ⟨.deliver message .appendFails, hall _ (by simp [wholeOutcomes]), ?_⟩
          rw [hdeliver, deliver, hr]
          dsimp only [Outcome.event, Outcome.write, Node.exec]
          rw [Node.call, herr, tasksOf, List.append_nil]
          rfl
        · exact ⟨.deliver message .returns, hreturns, (hdeliver _).trans hd⟩
      · exact ⟨.deliver message .returns, hreturns, (hdeliver _).trans he⟩
    · cases he
  | spillInCommit i written =>
    obtain ⟨hall, hkept⟩ := hp
    simp only [execDisk] at he
    split at he
    · next key hk =>
      have hcommit : ∀ outcome, exec cfg onError s (.commit i outcome) =
          commit cfg s i key outcome := fun outcome => by rw [exec, task_of_finished hk]
      rcases (Option.orElse_eq_some _ _ _).mp he with hs | ⟨-, hd⟩
      · obtain ⟨node', hn, rfl⟩ := Option.map_eq_some_iff.mp hs
        obtain ⟨rfl, herr⟩ := Node.eq_of_spill hn (hkept key hk node' hn)
        refine ⟨.commit i .appendFails, hall _ (by simp [wholeOutcomes]), ?_⟩
        rw [hcommit, commit]
        dsimp only [Outcome.event, Outcome.write, Node.exec]
        rw [Node.call, herr]
        rfl
      · exact ⟨.commit i .returns, hall _ (by simp [wholeOutcomes]), (hcommit _).trans hd⟩
    · cases he
  | tearInDeliver message written =>
    obtain ⟨hall, hkept⟩ := hp
    simp only [execDisk] at he
    split at he
    · next hpend =>
      split at he
      · next node c hh =>
        rw [(hkept _ hh).tear] at he
        obtain ⟨key, touched, result, hr, rfl, rfl⟩ := react_of_handled hh
        refine ⟨.deliver message (.crashes 0), hall _ (by simp [wholeOutcomes]), ?_⟩
        rw [exec, if_pos hpend, deliver, hr]
        exact he
      · cases he
    · cases he
  | tearInCommit i written =>
    obtain ⟨hall, hkept⟩ := hp
    simp only [execDisk] at he
    split at he
    · next key hk =>
      rw [(hkept key hk).tear] at he
      refine ⟨.commit i (.crashes 0), hall _ (by simp [wholeOutcomes]), ?_⟩
      rw [exec, task_of_finished hk]
      exact he
    · cases he

/-- And what such a process reaches is reached when a failing append writes nothing. -/
theorem reachable_of_disk {s₀ : State σ Δ}
    (h : Reachable (execDisk cfg onError) (DiskAllowed cfg allowed) s₀ s) :
    Reachable (exec cfg onError) allowed s₀ s :=
  h.of_steps fun _ _ _ hp he => exists_exec hp he

end Publisher

end MoneyLaundering
