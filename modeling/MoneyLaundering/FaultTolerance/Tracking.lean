import MoneyLaundering.FaultTolerance.History

/-!
# Invariants along the log

A worker that touches its state outside the log has no view that the log determines where a change
depends on what was touched. What holds of its state is then a relation between the state and the
history behind it: it holds of a fresh state, every logged change keeps it, and so does whatever the
worker does outside the log. A recovery starts from a snapshot for which it held, so it holds after
every replay too.
-/

namespace MoneyLaundering

variable {σ ς Δ : Type}

/-- Nothing of the worker state. -/
def View.blind (worker : WorkerState σ ς Δ) : View worker Unit where
  view _ := ()
  apply _ _ := ()
  view_applyChange _ _ := rfl

section blind
variable {τ : Type} {cfg : HandlerConfig σ ς Δ} {V : View cfg.worker τ}
    {history : List (WalRecord Δ)}

/-- What a history says apart from the worker state. -/
theorem specState_blind (V : View cfg.worker τ) (history : List (WalRecord Δ)) :
    (specState cfg V history).map (fun _ => ()) = specState cfg (.blind cfg.worker) history := by
  induction history using List.reverseRecOn with
  | nil => rfl
  | append_singleton history record ih =>
    rw [specState_snoc, specState_snoc, ← ih]
    cases record <;> rfl

theorem inbox_specState_blind (V : View cfg.worker τ) (history : List (WalRecord Δ)) :
    (specState cfg V history).inbox = (specState cfg (.blind cfg.worker) history).inbox :=
  congrArg HandlerState.inbox (specState_blind V history)

theorem Admissible.blind (h : Admissible cfg V history) :
    Admissible cfg (.blind cfg.worker) history := by
  induction h with
  | nil => exact .nil
  | @snoc history record h ha ih =>
    refine ih.snoc ⟨ha.msgId, fun m key change outputs e => ?_⟩
    rw [← inbox_specState_blind V]
    exact ha.new m key change outputs e

end blind

/-- Every record of a history fits what comes before it. -/
def EachRecord (Valid : List (WalRecord Δ) → WalRecord Δ → Prop) (history : List (WalRecord Δ)) :
    Prop :=
  ∀ front record, front ++ [record] <+: history → Valid front record

section each
variable {Valid : List (WalRecord Δ) → WalRecord Δ → Prop} {history : List (WalRecord Δ)}

theorem eachRecord_nil : EachRecord Valid [] := by
  intro front record h
  have := h.length_le
  simp at this

theorem EachRecord.snoc {record : WalRecord Δ} (h : EachRecord Valid history)
    (hr : Valid history record) : EachRecord Valid (history ++ [record]) := by
  intro front record' hp
  rcases List.prefix_concat_iff.mp hp with heq | hp
  · obtain ⟨rfl, hrec⟩ := List.append_inj' heq rfl
    cases hrec
    exact hr
  · exact h front record' hp

theorem EachRecord.of_prefix {front : List (WalRecord Δ)} (h : EachRecord Valid history)
    (hp : front <+: history) : EachRecord Valid front := fun front' record hp' =>
  h front' record (hp'.trans hp)

end each

/-- The change that `_apply_record` applies, if it does, with the worker state it is applied to. -/
def HandlerState.appliedNow {τ : Type} (s : HandlerState τ) : WalRecord Δ → List (τ × WalRecord Δ)
  | .inputApplied m key change outputs =>
    if s.inbox.classify key = .new then [(s.workerState, .inputApplied m key change outputs)]
      else []
  | .inputDone _ _ => []

/-- The changes that the replay loop of `recover` applies. -/
def HandlerState.appliedDuring {τ : Type} (apply : τ → Δ → τ) (s : HandlerState τ) :
    List (WalRecord Δ) → List (τ × WalRecord Δ)
  | [] => []
  | record :: records =>
    s.appliedNow record ++ appliedDuring apply (s.applyRecord apply record).1 records

/-- An invariant of the worker state along the log: `Valid` is known of every record, and `Holds` is
kept by every valid one. -/
structure LogInvariant (cfg : HandlerConfig σ ς Δ) where
  Valid : List (WalRecord Δ) → WalRecord Δ → Prop
  Holds : List (WalRecord Δ) → σ → Prop
  fresh : Holds [] cfg.worker.fresh
  applied : ∀ {history m key change outputs w},
    Admissible cfg (.blind cfg.worker) (history ++ [.inputApplied m key change outputs]) →
    EachRecord Valid (history ++ [.inputApplied m key change outputs]) → Holds history w →
    Holds (history ++ [.inputApplied m key change outputs]) (cfg.worker.applyChange w change)
  done : ∀ {history m key w},
    Admissible cfg (.blind cfg.worker) (history ++ [.inputDone m key]) →
    EachRecord Valid (history ++ [.inputDone m key]) → Holds history w →
    Holds (history ++ [.inputDone m key]) w

namespace LogInvariant

variable {cfg : HandlerConfig σ ς Δ} (I : LogInvariant cfg)

/-- A handler state that results from a history. -/
def Reached (history : List (WalRecord Δ)) (s : HandlerState σ) : Prop :=
  s.map (View.blind cfg.worker).view = specState cfg (.blind cfg.worker) history ∧
    I.Holds history s.workerState

variable {I} {history : List (WalRecord Δ)} {record : WalRecord Δ} {s : HandlerState σ}

theorem Reached.snoc (h : I.Reached history s)
    (ha : Admissible cfg (.blind cfg.worker) (history ++ [record]))
    (he : EachRecord I.Valid (history ++ [record])) :
    I.Reached (history ++ [record]) (s.applyOnce cfg.worker.applyChange record) := by
  refine ⟨?_, ?_⟩
  · rw [HandlerState.map_applyOnce, h.1, specState_snoc]
  · cases record with
    | inputApplied m key change outputs => exact I.applied ha he h.2
    | inputDone m key => exact I.done ha he h.2

/-- Replaying the records that follow a state. -/
theorem Reached.replay {front back : List (WalRecord Δ)} (h : I.Reached front s)
    (ha : Admissible cfg (.blind cfg.worker) (front ++ back))
    (he : EachRecord I.Valid (front ++ back)) :
    I.Reached (front ++ back) (s.replayRecords cfg.worker.applyChange back).1 := by
  induction back using List.reverseRecOn with
  | nil => simpa [HandlerState.replayRecords] using h
  | append_singleton back record ih =>
    rw [← List.append_assoc] at ha he ⊢
    have hprev := ih ha.of_append (he.of_prefix (List.prefix_append _ _))
    rw [replayRecords_append]
    generalize (s.replayRecords cfg.worker.applyChange back).1 = s' at hprev
    -- the record was admitted here, so the replay does not skip it
    refine ⟨?_, ?_⟩
    · rw [map_replayRecords, hprev.1]
      exact replayRecords_of_admissible ha
    · rw [fst_replayRecords, List.foldl_cons, List.foldl_nil]
      cases record with
      | inputApplied m key change outputs =>
        have hnew : s'.inbox.classify key = .new := by
          generalize hx :
            front ++ back ++ [WalRecord.inputApplied m key change outputs] = full at ha
          cases ha with
          | nil => simp at hx
          | snoc hfront hadm =>
            obtain ⟨rfl, hr⟩ := List.append_inj' hx rfl
            cases hr
            have hinbox : s'.inbox = (specState cfg (.blind cfg.worker) (front ++ back)).inbox :=
              congrArg HandlerState.inbox hprev.1
            rw [hinbox]
            exact hadm.new m key change outputs rfl
        simp only [HandlerState.applyRecord, hnew]
        exact I.applied ha he hprev.2
      | inputDone m key =>
        have hkept : (s'.applyRecord cfg.worker.applyChange (.inputDone m key)).1.workerState =
            s'.workerState := by
          dsimp only [HandlerState.applyRecord]
          split <;> rfl
        rw [hkept]
        exact I.done ha he hprev.2

/-- Every change that a replay applies meets a state that results from the records before it. -/
theorem Reached.appliedDuring {front back : List (WalRecord Δ)} (h : I.Reached front s)
    (ha : Admissible cfg (.blind cfg.worker) (front ++ back))
    (he : EachRecord I.Valid (front ++ back))
    {w : σ} (hm : (w, record) ∈ s.appliedDuring cfg.worker.applyChange back) :
    ∃ front', front' ++ [record] <+: front ++ back ∧ I.Holds front' w := by
  induction back generalizing front s with
  | nil => cases hm
  | cons head back ih =>
    rw [List.append_cons] at ha he ⊢
    rw [HandlerState.appliedDuring] at hm
    rcases List.mem_append.mp hm with hm | hm
    · cases head with
      | inputApplied m key change outputs =>
        dsimp only [HandlerState.appliedNow] at hm
        split at hm
        · cases List.mem_singleton.mp hm
          exact ⟨front, List.prefix_append _ _, h.2⟩
        · cases hm
      | inputDone m key => cases hm
    · refine ih ?_ ha he hm
      have hfront : Admissible cfg (.blind cfg.worker) (front ++ [head]) := ha.of_append
      have hnext := h.replay hfront (he.of_prefix (List.prefix_append _ _))
      rwa [fst_replayRecords, List.foldl_cons, List.foldl_nil] at hnext

/-- Records that the state reflects are not applied. -/
theorem appliedDuring_of_absorbed {records rest : List (WalRecord Δ)}
    (h : ∀ r ∈ records, Absorbed s r) :
    s.appliedDuring cfg.worker.applyChange (records ++ rest) =
      s.appliedDuring cfg.worker.applyChange rest := by
  induction records with
  | nil => rfl
  | cons record records ih =>
    have hrec := h record List.mem_cons_self
    have hsame : (s.applyRecord cfg.worker.applyChange record).1 = s :=
      applyRecord_of_absorbed (V := .whole cfg.worker) hrec
    rw [List.cons_append, HandlerState.appliedDuring, hsame, ih fun r hr =>
      h r (List.mem_cons_of_mem _ hr)]
    cases record with
    | inputApplied m key change outputs =>
      rw [HandlerState.appliedNow, if_neg hrec, List.nil_append]
    | inputDone m key => rfl

end LogInvariant

namespace Node

variable {cfg : HandlerConfig σ ς Δ} {n n' : Node σ ς Δ}

/-- A node whose state, in memory and on disk, is related to the history. -/
structure Follows (I : LogInvariant cfg) (n : Node σ ς Δ) : Prop where
  admissible : Admissible cfg (.blind cfg.worker) n.history
  records : EachRecord I.Valid n.history
  state : I.Reached n.history n.handler.toHandlerState
  disk : Restores cfg I.Reached n.disk n.history

variable {I : LogInvariant cfg}

theorem follows_init : Follows I (init cfg) where
  admissible := .nil
  records := eachRecord_nil
  state := ⟨rfl, I.fresh⟩
  disk := ⟨[], [], [], _, rfl, rfl, ⟨rfl, I.fresh⟩, rfl⟩

theorem Follows.holds (h : Follows I n) : I.Holds n.history n.handler.workerState := h.state.2

theorem Follows.inv (h : Follows I n) : n.Inv cfg (.blind cfg.worker) where
  state := h.state.1
  disk := by
    obtain ⟨front, both, rest, s, hh, hload, hs, hwal⟩ := h.disk.split
    exact ⟨front, both, rest, s, hh, hload, hs.1, hwal⟩
  admissible := h.admissible

/-- The worker state is touched outside the log. -/
theorem Follows.mutate (h : Follows I n) {f : σ → σ}
    (hf : I.Holds n.history (f n.handler.workerState)) : Follows I (n.mutate f) where
  admissible := h.admissible
  records := h.records
  state := ⟨h.state.1, hf⟩
  disk := h.disk

/-- What a call appends is valid. -/
def Appended (I : LogInvariant cfg) (n : Node σ ς Δ) (c : Call σ Δ) : Prop :=
  ∀ record, Appends cfg n.handler c record → I.Valid n.history record

theorem appended_snapshotNow : Appended I n .snapshotNow := fun _ ha => ha.elim

section calls
variable {c : Call σ Δ} (h : Follows I n) (hc : Appended I n c)

include h hc

theorem Follows.reached_snoc {record : WalRecord Δ} (ha : Appends cfg n.handler c record) :
    I.Reached (n.history ++ [record])
      (n.handler.toHandlerState.applyOnce cfg.worker.applyChange record) :=
  h.state.snoc (h.admissible.snoc (h.inv.admits ha)) (h.records.snoc (hc record ha))

theorem Follows.of_history {history : List (WalRecord Δ)}
    (hh : history = n.history ∨
      ∃ record, Appends cfg n.handler c record ∧ history = n.history ++ [record]) :
    Admissible cfg (.blind cfg.worker) history ∧ EachRecord I.Valid history := by
  rcases hh with rfl | ⟨record, ha, rfl⟩
  · exact ⟨h.admissible, h.records⟩
  · exact ⟨h.admissible.snoc (h.inv.admits ha), h.records.snoc (hc record ha)⟩

theorem Follows.call (write : Except String PUnit) : Follows I (n.call cfg write c) := by
  obtain ⟨hs, hd, hh⟩ := restores_call h.disk h.state (fun record ha => h.reached_snoc hc ha) write
  obtain ⟨hadm, heach⟩ := h.of_history hc (hh.imp And.left And.right)
  exact ⟨hadm, heach, hs, hd⟩

/-- A crash at any point of a call: the recovery replays the log on the loaded snapshot. -/
theorem Follows.crashDuring {steps : Nat} (he : n.crashDuring cfg c steps = .ok n') :
    Follows I n' := by
  obtain ⟨hd, hh⟩ := restores_persist h.disk h.state (fun record ha => h.reached_snoc hc ha) steps
  obtain ⟨hadm, heach⟩ := h.of_history hc hh
  dsimp only [Node.crashDuring] at he
  obtain ⟨handler, hrec, he⟩ := Except.ok_of_bind he
  cases he
  refine ⟨hadm, heach, ?_, hd⟩
  generalize n.persist ((n.ops cfg c).take steps) = n₁ at hd hadm heach hrec ⊢
  dsimp only
  obtain ⟨front, both, rest, s, hhist, hload, hs, hwal⟩ := hd.split
  rw [Handler.recover, hload, Except.ok_bind] at hrec
  simp only [replayAll] at hrec
  rw [Wal.replay_appendAll hwal, Except.ok_bind] at hrec
  cases hrec
  rw [hhist] at hadm heach ⊢
  rw [replayRecords_append]
  -- the records that the snapshot reflects are skipped
  have hboth : (s.replayRecords cfg.worker.applyChange both).1 = s := by
    refine replayRecords_of_absorbed (V := .whole cfg.worker) fun r hr => ?_
    have habs := hadm.of_append.absorbed (List.mem_append_right front hr)
    rw [← hs.1] at habs
    cases r with
    | inputApplied m key change outputs => exact habs
    | inputDone m key => exact habs
  rw [hboth]
  exact hs.replay hadm heach

/-- A call with any end. -/
theorem Follows.outcome {outcome : Outcome} (he : n.exec cfg (outcome.event c) = .ok n') :
    Follows I n' := by
  cases outcome with
  | returns =>
    cases he
    exact h.call hc _
  | appendFails =>
    cases he
    exact h.call hc _
  | crashes steps => exact h.crashDuring hc he

end calls

/-- A recovery now would apply every record to a state that results from the records before it. -/
theorem Follows.appliedDuring (h : Follows I n) {s : HandlerState σ} {fromRecord : Int}
    {records : List (WalRecord Δ)} (hload : Handler.loadState cfg n.disk = .ok (s, fromRecord))
    (hwal : Wal.replay cfg.json n.disk.wal fromRecord = .ok records) {w : σ} {record : WalRecord Δ}
    (hm : (w, record) ∈ s.appliedDuring cfg.worker.applyChange records) :
    ∃ front, front ++ [record] <+: n.history ∧ I.Holds front w := by
  obtain ⟨front, both, rest, s', hhist, hload', hs, hwal'⟩ := h.disk.split
  have hadm := h.admissible
  have heach := h.records
  rw [hhist] at hadm heach ⊢
  cases hload.symm.trans hload'
  simp only [replayAll] at hwal
  rw [Wal.replay_appendAll hwal'] at hwal
  cases hwal
  rw [LogInvariant.appliedDuring_of_absorbed fun r hr => ?_] at hm
  · exact hs.appliedDuring hadm heach hm
  · have habs := hadm.of_append.absorbed (List.mem_append_right front hr)
    rw [← hs.1] at habs
    cases r with
    | inputApplied m key change outputs => exact habs
    | inputDone m key => exact habs

end Node

end MoneyLaundering
