import MoneyLaundering.FaultTolerance.Recovery

/-!
# Worker state outside the log

Some workers touch their state without a record (`Node.mutate`). A view that leaves such state out
is still described by the history; this module says what becomes of the rest. A call relates the
worker states before and after it as its change does, and a recovery relates the loaded snapshot to
the recovered state as the replayed changes do.
-/

namespace MoneyLaundering

variable {σ ς Δ τ : Type} {cfg : HandlerConfig σ ς Δ} {V : View cfg.worker τ}
  {history : List (WalRecord Δ)} {R : σ → σ → Prop}

/-- Every change of a history relates any worker state that looks as it did there to its result. -/
def ChangesRelated (cfg : HandlerConfig σ ς Δ) (V : View cfg.worker τ) (R : σ → σ → Prop)
    (history : List (WalRecord Δ)) : Prop :=
  ∀ front m key change outputs, front ++ [.inputApplied m key change outputs] <+: history →
    ∀ w, V.view w = (specState cfg V front).workerState → R w (cfg.worker.applyChange w change)

theorem changesRelated_nil : ChangesRelated cfg V R [] := by
  intro front m key change outputs h
  have := h.length_le
  simp at this

theorem ChangesRelated.snoc {record : WalRecord Δ} (h : ChangesRelated cfg V R history)
    (hr : ∀ m key change outputs, record = .inputApplied m key change outputs →
      ∀ w, V.view w = (specState cfg V history).workerState →
        R w (cfg.worker.applyChange w change)) :
    ChangesRelated cfg V R (history ++ [record]) := by
  intro front m key change outputs hp w hw
  rcases List.prefix_concat_iff.mp hp with heq | hp
  · obtain ⟨rfl, hrec⟩ := List.append_inj' heq rfl
    cases hrec
    exact hr m key change outputs rfl w hw
  · exact h front m key change outputs hp w hw

/-- Replaying a part of a history relates the state it starts from to the state it ends in. -/
theorem ChangesRelated.replay (hrefl : ∀ w, R w w) (htrans : ∀ {a b c}, R a b → R b c → R a c)
    {front back : List (WalRecord Δ)} (h : ChangesRelated cfg V R (front ++ back))
    (ha : Admissible cfg V (front ++ back)) {s : HandlerState σ}
    (hs : s.map V.view = specState cfg V front) :
    R s.workerState (s.replayRecords cfg.worker.applyChange back).1.workerState := by
  induction back using List.reverseRecOn with
  | nil => exact hrefl _
  | append_singleton back record ih =>
    rw [← List.append_assoc] at h ha
    have hprev : ChangesRelated cfg V R (front ++ back) := fun front' m key change outputs hp =>
      h front' m key change outputs (hp.trans (List.prefix_append _ _))
    refine htrans (ih hprev ha.of_append) ?_
    rw [replayRecords_append]
    have hview : (s.replayRecords cfg.worker.applyChange back).1.map V.view =
        specState cfg V (front ++ back) := by
      rw [map_replayRecords, hs]
      exact replayRecords_of_admissible ha.of_append
    generalize (s.replayRecords cfg.worker.applyChange back).1 = s' at hview ⊢
    rw [fst_replayRecords, List.foldl_cons, List.foldl_nil]
    cases record with
    | inputApplied m key change outputs =>
      dsimp only [HandlerState.applyRecord]
      split
      · exact h _ m key change outputs (List.prefix_refl _) _
          (congrArg HandlerState.workerState hview)
      · exact hrefl _
    | inputDone m key =>
      dsimp only [HandlerState.applyRecord]
      split
      · exact hrefl _
      · exact hrefl _

/-- Recovery relates the state that the disk loads to the recovered one. -/
theorem Recoverable.related (hrefl : ∀ w, R w w) (htrans : ∀ {a b c}, R a b → R b c → R a c)
    {d : Disk ς} (h : Recoverable cfg V d history) (ha : Admissible cfg V history)
    (hr : ChangesRelated cfg V R history) {handler : Handler σ}
    (he : Handler.recover cfg d = .ok handler) :
    ∃ s, Handler.loadState cfg d = .ok (s, replayAll) ∧ R s.workerState handler.workerState := by
  obtain ⟨front, both, rest, s, rfl, hload, hs, hwal⟩ := h.split
  refine ⟨s, hload, ?_⟩
  rw [Handler.recover, hload, Except.ok_bind] at he
  simp only [replayAll] at he
  rw [Wal.replay_appendAll hwal, Except.ok_bind] at he
  cases he
  rw [replayRecords_append]
  have hboth : (s.replayRecords cfg.worker.applyChange both).1 = s := by
    refine replayRecords_of_absorbed (V := .whole cfg.worker) fun r hr => ?_
    have habs := ha.of_append.absorbed (List.mem_append_right front hr)
    rw [← hs] at habs
    cases r with
    | inputApplied m key change outputs => exact habs
    | inputDone m key => exact habs
  rw [hboth]
  exact hr.replay hrefl htrans ha hs

/-- The worker state that a recovery starts from. -/
theorem workerState_of_loadState {d : Disk ς} {s : HandlerState σ} {fromRecord : Int}
    (h : Handler.loadState cfg d = .ok (s, fromRecord)) :
    (d.load = none ∧ s.workerState = cfg.worker.fresh) ∨
      ∃ snapshot, d.load = some snapshot ∧
        s.workerState = cfg.worker.restore snapshot.workerState := by
  unfold Handler.loadState at h
  split at h
  · next hl =>
    cases h
    exact .inl ⟨hl, rfl⟩
  · next snapshot hl =>
    split at h
    · cases h
    · cases h
      exact .inr ⟨snapshot, hl, rfl⟩

namespace Disk

/-- Every snapshot in the state directory is of a worker state with the property. -/
def SnapshotsOf (P : ς → Prop) (d : Disk ς) : Prop :=
  ∀ snapshot, d.current = some snapshot ∨ d.previous = some snapshot ∨ d.tmp = some snapshot →
    P snapshot.workerState

variable {P : ς → Prop} {d : Disk ς}

theorem SnapshotsOf.load (h : d.SnapshotsOf P) {snapshot : Snapshot ς}
    (hl : d.load = some snapshot) : P snapshot.workerState := by
  unfold Disk.load at hl
  cases hc : d.current with
  | none =>
    rw [hc] at hl
    exact h snapshot (.inr (.inl hl))
  | some current =>
    rw [hc] at hl
    cases hl
    exact h _ (.inl hc)

theorem SnapshotsOf.perform (h : d.SnapshotsOf P) {op : DurableOp ς Δ}
    (hop : ∀ snapshot, op = .writeTmp snapshot → P snapshot.workerState) :
    (d.perform op).SnapshotsOf P := by
  cases op with
  | append record bytes => exact h
  | rotate => exact h
  | writeTmp snapshot =>
    rintro s (hs | hs | hs)
    · exact h s (.inl hs)
    · exact h s (.inr (.inl hs))
    · cases hs
      exact hop _ rfl
  | renameCurrent =>
    unfold Disk.perform
    dsimp only
    split
    · next snapshot hc =>
      rintro s (hs | hs | hs)
      · cases hs
      · cases hs
        exact h _ (.inl hc)
      · exact h s (.inr (.inr hs))
    · exact h
  | renameTmp =>
    rintro s (hs | hs | hs)
    · exact h s (.inr (.inr hs))
    · exact h s (.inr (.inl hs))
    · cases hs

theorem SnapshotsOf.performAll (h : d.SnapshotsOf P) {ops : List (DurableOp ς Δ)}
    (hops : ∀ snapshot, .writeTmp snapshot ∈ ops → P snapshot.workerState) :
    (d.performAll ops).SnapshotsOf P := by
  induction ops generalizing d with
  | nil => exact h
  | cons op ops ih =>
    exact ih (h.perform fun s hs => hops s (hs ▸ List.mem_cons_self))
      fun s hs => hops s (List.mem_cons_of_mem _ hs)

end Disk

/-- Whether a step ends in a crash. -/
def Outcome.isCrash : Outcome → Bool
  | .crashes _ => true
  | _ => false

namespace Node

variable {n n' : Node σ ς Δ} {P : ς → Prop}

/-- The change of a call relates every worker state that looks like the one of the node to its
result. -/
def CallRelated (cfg : HandlerConfig σ ς Δ) (V : View cfg.worker τ) (R : σ → σ → Prop)
    (n : Node σ ς Δ) (c : Call σ Δ) : Prop :=
  ∀ m key change outputs, Appends cfg n.handler c (.inputApplied m key change outputs) →
    ∀ w, V.view w = V.view n.handler.workerState → R w (cfg.worker.applyChange w change)

theorem callRelated_commitDone (key : InputKey) : CallRelated cfg V R n (.commitDone key) := by
  intro m key' change outputs ha
  cases ha

theorem callRelated_snapshotNow : CallRelated cfg V R n .snapshotNow := by
  intro m key' change outputs ha
  cases ha

theorem related_applyOnce (hrefl : ∀ w, R w w) {c : Call σ Δ} (hc : CallRelated cfg V R n c)
    {record : WalRecord Δ} (ha : Appends cfg n.handler c record) :
    R n.handler.workerState
      (n.handler.toHandlerState.applyOnce cfg.worker.applyChange record).workerState := by
  cases record with
  | inputApplied m key change outputs => exact hc m key change outputs ha _ rfl
  | inputDone m key => exact hrefl _

/-- A call that returns or raises. -/
theorem related_call (hrefl : ∀ w, R w w) {c : Call σ Δ} (hc : CallRelated cfg V R n c)
    (write : Except String PUnit) :
    R n.handler.workerState (n.call cfg write c).handler.workerState := by
  unfold Node.call
  cases he : n.effect cfg write c with
  | error e => exact hrefl _
  | ok effect =>
    dsimp only
    rcases effect_spec he with ⟨-, hs⟩ | ⟨-, record, bytes, tail, ha, -, -, hs, -⟩
    · rw [hs]
      exact hrefl _
    · rw [hs]
      exact related_applyOnce hrefl hc ha

theorem mem_writeTmp_of_snapshotTail {s : HandlerState σ} {ops : List (DurableOp ς Δ)}
    (h : SnapshotTail cfg s ops) {snapshot : Snapshot ς} (hm : .writeTmp snapshot ∈ ops) :
    snapshot.workerState = cfg.worker.snapshot s.workerState := by
  obtain rfl | ⟨handler, rfl, rfl⟩ := h
  · cases hm
  · simp only [Handler.snapshotNow, List.mem_cons, DurableOp.writeTmp.injEq, reduceCtorEq,
      List.not_mem_nil, or_false] at hm
    subst hm
    rfl

/-- The snapshots that a call writes are of the state before it or of a related one. -/
theorem snapshots_of_ops (hrefl : ∀ w, R w w) {c : Call σ Δ} (hc : CallRelated cfg V R n c)
    (hP : ∀ w, R n.handler.workerState w → P (cfg.worker.snapshot w)) {write : Except String PUnit}
    {effect : Handler.Effect σ ς Δ} (he : n.effect cfg write c = .ok effect) :
    ∀ snapshot, .writeTmp snapshot ∈ effect.ops → P snapshot.workerState := by
  intro snapshot hm
  rcases effect_spec he with ⟨htail, -⟩ | ⟨-, record, bytes, tail, ha, -, hops, hs, htail⟩
  · rw [mem_writeTmp_of_snapshotTail htail hm]
    exact hP _ (hrefl _)
  · rw [hops] at hm
    rcases List.mem_cons.mp hm with hm | hm
    · cases hm
    · rw [mem_writeTmp_of_snapshotTail htail hm, hs]
      exact hP _ (related_applyOnce hrefl hc ha)

/-- What a call does to the worker state outside the log, whichever way it ends: without a crash its
change is made, and with a crash the state comes from the loaded snapshot by logged changes. -/
structure After (cfg : HandlerConfig σ ς Δ) (V : View cfg.worker τ) (R : σ → σ → Prop)
    (P : ς → Prop) (n n' : Node σ ς Δ) (outcome : Outcome) : Prop where
  inv : n'.Inv cfg V
  changes : ChangesRelated cfg V R n'.history
  disk : n'.disk.SnapshotsOf P
  stays : outcome.isCrash = false → R n.handler.workerState n'.handler.workerState
  recovers : outcome.isCrash = true → ∃ s, Handler.loadState cfg n'.disk = .ok (s, replayAll) ∧
    R s.workerState n'.handler.workerState

/-- The worker state is touched where the view does not look. -/
theorem Inv.mutate_of_view (h : n.Inv cfg V) {f : σ → σ}
    (hf : V.view (f n.handler.workerState) = V.view n.handler.workerState) :
    (n.mutate f).Inv cfg V where
  state := by
    refine Eq.trans ?_ h.state
    simp only [Node.mutate, HandlerState.map, hf]
  disk := h.disk
  admissible := h.admissible

theorem Inv.after (hrefl : ∀ w, R w w) (htrans : ∀ {a b c}, R a b → R b c → R a c)
    (h : n.Inv cfg V) (hr : ChangesRelated cfg V R n.history) (hd : n.disk.SnapshotsOf P)
    (hP : ∀ w, R n.handler.workerState w → P (cfg.worker.snapshot w)) {c : Call σ Δ}
    (hc : CallRelated cfg V R n c) {outcome : Outcome}
    (he : n.exec cfg (outcome.event c) = .ok n') : After cfg V R P n n' outcome := by
  have hchanges : ∀ {history}, (history = n.history ∨
      ∃ record, Appends cfg n.handler c record ∧ history = n.history ++ [record]) →
      ChangesRelated cfg V R history := by
    rintro history (rfl | ⟨record, ha, rfl⟩)
    · exact hr
    · refine hr.snoc fun m key change outputs e w hw => ?_
      subst e
      exact hc m key change outputs ha w (hw.trans h.workerState.symm)
  have hcall : ∀ write, (n.call cfg write c).Inv cfg V ∧
      ChangesRelated cfg V R (n.call cfg write c).history ∧
      (n.call cfg write c).disk.SnapshotsOf P := by
    intro write
    obtain ⟨hi, hh⟩ := h.call write c
    refine ⟨hi, hchanges (hh.imp And.left And.right), ?_⟩
    unfold Node.call
    cases hee : n.effect cfg write c with
    | error e => exact hd
    | ok effect => exact hd.performAll (snapshots_of_ops hrefl hc hP hee)
  cases outcome with
  | returns =>
    cases he
    obtain ⟨hi, hh, hs⟩ := hcall (.ok ⟨⟩)
    exact ⟨hi, hh, hs, fun _ => related_call hrefl hc _, nofun⟩
  | appendFails =>
    cases he
    obtain ⟨hi, hh, hs⟩ := hcall (.error "write failed")
    exact ⟨hi, hh, hs, fun _ => related_call hrefl hc _, nofun⟩
  | crashes steps =>
    obtain ⟨n₁, hn₁, hi, -, hh⟩ := h.crashDuring c steps
    cases he.symm.trans hn₁
    have hch := hchanges hh
    dsimp only [Outcome.event, Node.exec, Node.crashDuring] at he
    obtain ⟨handler, hrec, he⟩ := Except.ok_of_bind he
    cases he
    refine ⟨hi, hch, ?_, nofun, fun _ => hi.disk.related hrefl htrans hi.admissible hch hrec⟩
    refine hd.performAll fun snapshot hm => ?_
    have hm := List.mem_of_mem_take hm
    unfold Node.ops at hm
    cases hee : n.effect cfg (.ok ⟨⟩) c with
    | error e =>
      rw [hee] at hm
      cases hm
    | ok effect =>
      rw [hee] at hm
      exact snapshots_of_ops hrefl hc hP hee snapshot hm

end Node

end MoneyLaundering
