import MoneyLaundering.FaultTolerance.Runner

/-!
# Message handlers with an early return

The workers that do not use `WorkerRunner` (sum, aggregator, filter_q5_usd, q3_barrier) call
`PersistentStateHandler` from message handlers of their own. Under the lock a handler may ack a
message at once (`is_closed`), answer it without the log, or pass it to `handle`; the outputs of
`handle` are published, committed and acked outside the lock (`_publish_commit_ack`). Whatever
raises is answered by `nack(requeue=True)`, and the message comes again.

No process crashes here, so a snapshot is written and never read.
-/

namespace MoneyLaundering

open Bytes

/-! ## Message ids -/

/-- The prefix of the message id of each kind of input, as parts between colons. -/
structure MsgIdTags where
  tag : MsgKind → List (List Char)
  noColon : ∀ kind, ∀ part ∈ tag kind, ':' ∉ part
  prefixFree : ∀ a b, tag a <+: tag b → a = b

namespace MsgIdTags

/-- The parts behind the prefix: `sender:client:seq` for a stream, `client:sender` for a control
message, whose seq is its client. Another seq does not occur there and is spelled out. -/
def coordinates (key : InputKey) : List (List Char) :=
  match key.kind with
  | .data | .abort | .q3Averages | .q3Candidates =>
    [Text.ofNat key.senderId, Text.ofNat key.clientId, Text.ofNat key.seq]
  | _ =>
    if key.seq = key.clientId then [Text.ofNat key.clientId, Text.ofNat key.senderId]
    else [Text.ofNat key.clientId, Text.ofNat key.senderId, Text.ofNat key.seq, []]

/-- The message id of an input. -/
def msgId (tags : MsgIdTags) (key : InputKey) : String :=
  String.ofList (Text.join ':' (tags.tag key.kind ++ coordinates key))

theorem noColon_coordinates (key : InputKey) : ∀ part ∈ coordinates key, ':' ∉ part := by
  have hn : ∀ n, ':' ∉ Text.ofNat n := Text.not_mem_ofNat (by decide)
  unfold coordinates
  split <;> (try split) <;> simp [hn]

theorem coordinates_ne_nil (key : InputKey) : coordinates key ≠ [] := by
  unfold coordinates
  split <;> (try split) <;> simp

theorem coordinates_inj {a b : InputKey} (hc : a.clientId = b.clientId) (hk : a.kind = b.kind)
    (h : coordinates a = coordinates b) : a = b := by
  have hinj : ∀ m n, Text.ofNat m = Text.ofNat n ↔ m = n := fun _ _ => Text.ofNat_injective.eq_iff
  obtain ⟨ac, ak, as, aq⟩ := a
  obtain ⟨bc, bk, bs, bq⟩ := b
  simp only at hc hk
  subst hc hk
  unfold coordinates at h
  cases ak
  all_goals
    simp only at h
    first
    | (simp only [List.cons.injEq, hinj] at h; simp [h])
    | (split at h <;> split at h <;> simp_all)

theorem msgId_inj (tags : MsgIdTags) (a b : InputKey) (hc : a.clientId = b.clientId)
    (h : tags.msgId a = tags.msgId b) : a = b := by
  have hne : ∀ key : InputKey, tags.tag key.kind ++ coordinates key ≠ [] := fun key hn =>
    coordinates_ne_nil key (List.append_eq_nil_iff.mp hn).2
  have hparts : ∀ key : InputKey, ∀ part ∈ tags.tag key.kind ++ coordinates key, ':' ∉ part := by
    intro key part hp
    rcases List.mem_append.mp hp with hp | hp
    · exact tags.noColon _ _ hp
    · exact noColon_coordinates key part hp
  have heq : tags.tag a.kind ++ coordinates a = tags.tag b.kind ++ coordinates b :=
    Text.join_inj ⟨hne a, hparts a⟩ ⟨hne b, hparts b⟩ (String.ofList_injective h)
  -- both tags are prefixes of one list, so one is a prefix of the other
  have hk : a.kind = b.kind := by
    rcases List.prefix_or_prefix_of_prefix (List.prefix_append (tags.tag a.kind) (coordinates a))
      (heq ▸ List.prefix_append (tags.tag b.kind) (coordinates b)) with hp | hp
    · exact tags.prefixFree _ _ hp
    · exact (tags.prefixFree _ _ hp).symm
  rw [hk] at heq
  exact coordinates_inj hc hk (List.append_cancel_left heq)

end MsgIdTags

/-! ## The handlers -/

/-- What a message handler does with a message while it holds the lock. -/
inductive Reaction (σ Δ : Type) where
  /-- It raises or refuses the message: a nack. -/
  | refuse
  /-- It acks the input before `handle` looks at the inbox. -/
  | skip (key : InputKey)
  /-- It calls the coordinator outside the log, sends packets and acks. -/
  | direct (touched : σ) (sends : List (String × Bytes))
  /-- It calls `handle`. On a new input `business_fn` touches the worker state and returns the
  change and the outputs. -/
  | handle (key : InputKey) (touched : σ) (result : Except String (Δ × List LogicalOutput))

/-- A worker, as the handler and the consumer threads see it. -/
structure ConsumerConfig (σ Δ μ : Type) extends SequencerConfig where
  fresh : σ
  applyChange : σ → Δ → σ
  json : StateChangeCodec Δ
  snapshotEvery : Nat
  tags : MsgIdTags
  react : σ → μ → Reaction σ Δ

/-- The durable handler of the worker. -/
def ConsumerConfig.handler {σ Δ μ : Type} (cfg : ConsumerConfig σ Δ μ) : HandlerConfig σ σ Δ where
  toSequencerConfig := cfg.toSequencerConfig
  worker := ⟨cfg.fresh, id, id, cfg.applyChange, fun _ => rfl⟩
  json := cfg.json
  snapshotEvery := cfg.snapshotEvery
  msgId := cfg.tags.msgId
  msgId_inj := cfg.tags.msgId_inj

namespace Consumer

open Runner

/-- A message in the hands of a thread, outside the lock. With nothing left to publish,
`commit_done` is next. -/
inductive Task where
  | publishing (key : InputKey) (remaining : List OutboxEntry)
  | acking (key : InputKey)
  | sending (remaining : List (String × Bytes))
  deriving DecidableEq

/-- A running worker. The trace shows the inputs of the durable handler. -/
structure State (σ Δ : Type) where
  node : Node σ σ Δ
  tasks : List Task := []
  trace : List (Obs Δ) := []

/-- What can happen. A message is delivered any number of times; `write` and `confirmed` tell
whether the disk and the broker cooperate. -/
inductive Label (μ : Type) where
  | deliver (message : μ) (write : Except String PUnit)
  | publish (i : Nat) (confirmed : Bool)
  | commit (i : Nat) (write : Except String PUnit)
  | ack (i : Nat)

variable {σ Δ μ : Type} (cfg : ConsumerConfig σ Δ μ)

def init : State σ Δ where
  node := Node.init cfg.handler

/-- The task that an instruction of `handle` starts. -/
def taskFor (key : InputKey) : WorkerLoopInstruction → Task
  | .ack => .acking key
  | .publishThenCommit outputs _ _ => .publishing key outputs

/-- The node on which `handle` is called: `business_fn` runs on a new input only. -/
def touchedNode (n : Node σ σ Δ) (key : InputKey) (touched : σ) : Node σ σ Δ :=
  if n.handler.inbox.classify key = .new then n.mutate fun _ => touched else n

/-- A call of the durable handler under the lock. -/
def call (s : State σ Δ) (node : Node σ σ Δ) (write : Except String PUnit) (c : Call σ Δ) :
    State σ Δ :=
  { s with
    node := node.call cfg.handler write c
    trace := s.trace ++ recordedSince node (node.call cfg.handler write c) }

/-- A message handler, up to the release of the lock. -/
def deliver (s : State σ Δ) (message : μ) (write : Except String PUnit) : State σ Δ :=
  match cfg.react s.node.handler.workerState message with
  | .refuse => s
  | .skip key => { s with trace := s.trace ++ [.acked key] }
  | .direct touched sends =>
    { s with
      node := s.node.mutate fun _ => touched
      tasks := s.tasks ++ [.sending sends] }
  | .handle key touched result =>
    let node := touchedNode s.node key touched
    match node.effect cfg.handler write (.handle key fun _ => result) with
    | .error _ => { s with node }
    | .ok effect =>
      { call cfg s node write (.handle key fun _ => result) with
        tasks := s.tasks ++ [taskFor key effect.instruction] }

/-- One step, `none` when it is not enabled. -/
def exec (s : State σ Δ) : Label μ → Option (State σ Δ)
  | .deliver message write => some (deliver cfg s message write)
  | .publish i confirmed =>
    match s.tasks[i]? with
    | some (.publishing key (entry :: remaining)) =>
      if confirmed then
        some { s with
          tasks := s.tasks.set i (.publishing key remaining)
          trace := s.trace ++ [.published key.clientId (cfg.handler.msgId key) entry] }
      else some { s with tasks := s.tasks.eraseIdx i }
    | some (.sending (_ :: remaining)) =>
      if confirmed then some { s with tasks := s.tasks.set i (.sending remaining) }
      else some { s with tasks := s.tasks.eraseIdx i }
    | _ => none
  | .commit i write =>
    match s.tasks[i]? with
    | some (.publishing key []) =>
      match s.node.effect cfg.handler write (.commitDone key) with
      | .error _ => some { s with tasks := s.tasks.eraseIdx i }
      | .ok _ =>
        some { call cfg s s.node write (.commitDone key) with
               tasks := s.tasks.set i (.acking key) }
    | _ => none
  | .ack i =>
    match s.tasks[i]? with
    | some (.acking key) =>
      some { s with
        tasks := s.tasks.eraseIdx i
        trace := s.trace ++ [.acked key] }
    | some (.sending []) => some { s with tasks := s.tasks.eraseIdx i }
    | _ => none

/-- No early return acks an input that is applied and not finished. -/
def SkipsFinished (s : State σ Δ) : Label μ → Prop
  | .deliver message _ => ∀ key, cfg.react s.node.handler.workerState message = .skip key →
      s.node.handler.inbox.classify key ≠ .applied
  | _ => True

/-- An input that was applied is acked only after the outputs it was stamped with were published and
its end was recorded. -/
def AckedAfterPublished (s : State σ Δ) : Prop :=
  ∀ pre key, pre ++ [.acked key] <+: s.trace →
    (∃ m change outputs, .inputApplied m key change outputs ∈ recordsIn pre) →
    FinishedBy cfg.handler.msgId pre key

/-! ## The invariant -/

/-- Forgets the worker state: the handlers touch it outside the log. -/
def noView : View cfg.handler.worker Unit where
  view _ := ()
  apply _ _ := ()
  view_applyChange _ _ := rfl

/-- What node and trace say about each other, tasks apart. -/
structure Core (n : Node σ σ Δ) (trace : List (Obs Δ)) : Prop where
  node : n.Inv cfg.handler (noView cfg)
  records : recordsIn trace = n.history
  done : ∀ m key, .inputDone m key ∈ n.history → FinishedBy cfg.handler.msgId trace key
  acked : ∀ pre key, pre ++ [.acked key] <+: trace →
    (∃ m change outputs, .inputApplied m key change outputs ∈ recordsIn pre) →
    FinishedBy cfg.handler.msgId pre key

def TaskOk (n : Node σ σ Δ) (trace : List (Obs Δ)) : Task → Prop
  | .publishing key remaining => SentButBy cfg.handler.msgId trace key remaining
  | .acking key => n.handler.inbox.classify key = .done
  | .sending _ => True

structure Inv (s : State σ Δ) : Prop where
  core : Core cfg s.node s.trace
  tasks : ∀ task ∈ s.tasks, TaskOk cfg s.node s.trace task

variable {cfg} {n n' : Node σ σ Δ} {trace : List (Obs Δ)} {key : InputKey}

/-- An applied input that is not in flight was finished. -/
theorem Core.finished (h : Core cfg n trace) (hc : n.handler.inbox.classify key ≠ .applied)
    (hm : ∃ m change outputs, .inputApplied m key change outputs ∈ recordsIn trace) :
    FinishedBy cfg.handler.msgId trace key := by
  obtain ⟨m, change, outputs, hm⟩ := hm
  rw [h.records] at hm
  rcases h.node.admissible.inFlight_or_done hm with hf | ⟨m', hd⟩
  · rw [← h.node.inbox, ← Inbox.classify_eq_applied_iff] at hf
    exact absurd hf hc
  · exact h.done m' key hd

theorem Core.ack (h : Core cfg n trace) (hc : n.handler.inbox.classify key ≠ .applied) :
    Core cfg n (trace ++ [.acked key]) where
  node := h.node
  records := by rw [← h.records]; simp [recordsIn]
  done m key hm := (h.done m key hm).append _
  acked := acked_append h.acked fun key' he => by cases he; exact h.finished hc

theorem Core.publish (h : Core cfg n trace) {m : String} {entry : OutboxEntry} (c : Nat) :
    Core cfg n (trace ++ [.published c m entry]) where
  node := h.node
  records := by rw [← h.records]; simp [recordsIn]
  done m key hm := (h.done m key hm).append _
  acked := acked_append h.acked nofun

theorem Core.mutate (h : Core cfg n trace) (f : σ → σ) : Core cfg (n.mutate f) trace :=
  ⟨h.node.mutate fun _ => rfl, h.records, h.done, h.acked⟩

/-- A record is appended; if it finishes an input, all outputs of the input were published. -/
theorem Core.append_record (h : Core cfg n trace) (hi : n'.Inv cfg.handler (noView cfg))
    {record : WalRecord Δ} (he : n'.history = n.history ++ [record])
    (hd : ∀ m key, record = .inputDone m key →
      m = cfg.handler.msgId key ∧ SentButBy cfg.handler.msgId trace key []) :
    Core cfg n' (trace ++ [.recorded record]) where
  node := hi
  records := by rw [he, ← h.records]; simp [recordsIn]
  done m key hm := by
    rw [he] at hm
    rcases List.mem_append.mp hm with hm | hm
    · exact (h.done m key hm).append _
    · obtain rfl := List.mem_singleton.mp hm
      obtain ⟨rfl, hs⟩ := hd m key rfl
      exact hs.finish
  acked := acked_append h.acked nofun

/-- A call of the handler; the outputs of an input that it finishes were published. -/
theorem Core.call (h : Core cfg n trace) (write : Except String PUnit) (c : Call σ Δ)
    (hd : ∀ key, c = .commitDone key → SentButBy cfg.handler.msgId trace key []) :
    Core cfg (n.call cfg.handler write c)
      (trace ++ recordedSince n (n.call cfg.handler write c)) := by
  obtain ⟨hi, ⟨hh, -⟩ | ⟨-, record, ha, hh⟩⟩ := h.node.call write c
  · rw [recordedSince_of_history_eq hh, List.append_nil]
    exact ⟨hi, hh ▸ h.records, hh ▸ h.done, h.acked⟩
  · rw [recordedSince_of_append hh]
    refine h.append_record hi hh fun m key hr => ?_
    cases c with
    | handle key' businessFn =>
      obtain ⟨-, change, logical, outputs, -, -, rfl⟩ := ha
      cases hr
    | commitDone key' =>
      cases ha
      cases hr
      exact ⟨rfl, hd _ rfl⟩
    | snapshotNow => cases ha

/-- A finished input stays finished. -/
theorem Core.classify_call (h : Core cfg n trace) (write : Except String PUnit) (c : Call σ Δ)
    (hc : n.handler.inbox.classify key = .done) :
    (n.call cfg.handler write c).handler.inbox.classify key = .done := by
  obtain ⟨hi, ⟨-, hs⟩ | ⟨-, record, ha, hh⟩⟩ := h.node.call write c
  · rw [← hc]
    exact congrArg (fun s => s.inbox.classify key) hs
  · rw [hi.inbox, hh, specState_snoc]
    rw [h.node.inbox] at hc
    have habs : Absorbed (specState cfg.handler (noView cfg) n.history)
        (.inputDone (Δ := Δ) "" key) :=
      hc
    exact habs.applyOnce h.node.admissible.wellFormed (h.node.admits ha)

theorem TaskOk.mono {task : Task} (h : TaskOk cfg n trace task) (more : List (Obs Δ))
    (hc : ∀ key, n.handler.inbox.classify key = .done → n'.handler.inbox.classify key = .done) :
    TaskOk cfg n' (trace ++ more) task := by
  cases task with
  | publishing key remaining => exact SentButBy.append h more
  | acking key => exact hc key h
  | sending => trivial

theorem TaskOk.of_classify {task : Task} (h : TaskOk cfg n trace task)
    (hc : ∀ key, n.handler.inbox.classify key = .done → n'.handler.inbox.classify key = .done) :
    TaskOk cfg n' trace task := by
  have hmore : TaskOk cfg n' (trace ++ []) task := h.mono [] hc
  rwa [List.append_nil] at hmore

/-- Which task an answer of `handle` starts. -/
theorem Core.taskFor (h : Core cfg n trace) {write : Except String PUnit}
    {businessFn : BusinessFn σ Δ} {effect : Handler.Effect σ σ Δ}
    (he : n.effect cfg.handler write (.handle key businessFn) = .ok effect) :
    TaskOk cfg (n.call cfg.handler write (.handle key businessFn))
      (trace ++ recordedSince n (n.call cfg.handler write (.handle key businessFn)))
      (Consumer.taskFor key effect.instruction) := by
  rcases Node.handle_cases he with ⟨hdone, hi, -⟩ | ⟨change, outputs, hi, hh⟩ | ⟨happ, hi, -⟩
  · rw [hi]
    exact h.classify_call write _ hdone
  · rw [hi, recordedSince_of_append hh]
    exact ⟨trace, [], change, [], rfl, by simp⟩
  · -- applied before: the outbox still holds all its outputs
    rw [h.node.inbox, Inbox.classify_eq_applied_iff] at happ
    obtain ⟨change, outputs, hm, hl⟩ := h.node.admissible.inFlight happ
    have hout :
        n.handler.outbox.entriesForInput key.clientId (cfg.handler.msgId key) = outputs := by
      rw [Outbox.entriesForInput_eq, h.node.outbox, hl, Option.getD_some]
    rw [hi, hout]
    exact (sentButBy_of_mem (h.records.symm ▸ hm)).append _

/-! ## One step -/

theorem Core.touchedNode (h : Core cfg n trace) (key : InputKey) (touched : σ) :
    Core cfg (Consumer.touchedNode n key touched) trace := by
  unfold Consumer.touchedNode
  split
  · exact h.mutate _
  · exact h

theorem classify_touchedNode (n : Node σ σ Δ) (key key' : InputKey) (touched : σ) :
    (touchedNode n key touched).handler.inbox.classify key' = n.handler.inbox.classify key' := by
  unfold touchedNode
  split <;> rfl

theorem Inv.deliver {s : State σ Δ} (h : Inv cfg s) {message : μ} (write : Except String PUnit)
    (hskip : ∀ key, cfg.react s.node.handler.workerState message = .skip key →
      s.node.handler.inbox.classify key ≠ .applied) :
    Inv cfg (deliver cfg s message write) := by
  unfold Consumer.deliver
  split
  · exact h
  · next key hr =>
    exact ⟨h.core.ack (hskip key hr), fun task ht => (h.tasks task ht).mono _ fun _ => id⟩
  · next touched sends hr =>
    refine ⟨h.core.mutate fun _ => touched, fun task ht => ?_⟩
    rcases List.mem_append.mp ht with ht | ht
    · exact (h.tasks task ht).of_classify fun _ => id
    · obtain rfl := List.mem_singleton.mp ht
      trivial
  · next key touched result hr =>
    have hcore := h.core.touchedNode key touched
    have htasks : ∀ task ∈ s.tasks, TaskOk cfg (touchedNode s.node key touched) s.trace task := by
      intro task ht
      exact (h.tasks task ht).of_classify fun key' hc => (classify_touchedNode _ _ _ _).trans hc
    simp only
    split
    · exact ⟨hcore, htasks⟩
    · next effect heff =>
      refine ⟨hcore.call write _ nofun, fun task ht => ?_⟩
      rcases List.mem_append.mp ht with ht | ht
      · exact (htasks task ht).mono _ fun key' hc => hcore.classify_call write _ hc
      · obtain rfl := List.mem_singleton.mp ht
        exact hcore.taskFor heff

theorem Inv.commit {s : State σ Δ} (h : Inv cfg s) {i : Nat} {write : Except String PUnit}
    (ht : s.tasks[i]? = some (.publishing key [])) {effect : Handler.Effect σ σ Δ}
    (he : s.node.effect cfg.handler write (.commitDone key) = .ok effect) :
    Inv cfg { call cfg s s.node write (.commitDone key) with
              tasks := s.tasks.set i (.acking key) } := by
  have hsent : SentButBy cfg.handler.msgId s.trace key [] := h.tasks _ (List.mem_of_getElem? ht)
  refine ⟨h.core.call write _ fun key' hk => by cases hk; exact hsent, fun task htask => ?_⟩
  rcases List.mem_or_eq_of_mem_set htask with htask | rfl
  · exact (h.tasks task htask).mono _ fun key' hc => h.core.classify_call write _ hc
  · obtain ⟨hi, -⟩ := h.core.node.call write (.commitDone key)
    simp only [TaskOk, call]
    rw [hi.inbox, Node.history_commitDone he, specState_snoc]
    exact Inbox.classify_markDone_self h.core.node.admissible.wellFormed.inbox

/-- One step keeps the invariant, as long as no input in flight is acked early. -/
theorem Inv.exec {s s' : State σ Δ} {l : Label μ} (h : Inv cfg s) (hp : SkipsFinished cfg s l)
    (he : Consumer.exec cfg s l = some s') : Inv cfg s' := by
  have herase : ∀ i, Inv cfg { s with tasks := s.tasks.eraseIdx i } := fun i =>
    ⟨h.core, fun task htask => h.tasks task (List.mem_of_mem_eraseIdx htask)⟩
  cases l with
  | deliver message write =>
    cases he
    exact h.deliver write hp
  | publish i confirmed =>
    simp only [Consumer.exec] at he
    split at he
    · next key entry remaining ht =>
      have hsent : SentButBy cfg.handler.msgId s.trace key (entry :: remaining) :=
        h.tasks _ (List.mem_of_getElem? ht)
      split at he
      · cases he
        refine ⟨h.core.publish _, fun task htask => ?_⟩
        rcases List.mem_or_eq_of_mem_set htask with htask | rfl
        · exact (h.tasks task htask).mono _ fun _ => id
        · exact hsent.publish
      · cases he
        exact herase i
    · split at he
      · cases he
        refine ⟨h.core, fun task htask => ?_⟩
        rcases List.mem_or_eq_of_mem_set htask with htask | rfl
        · exact h.tasks task htask
        · trivial
      · cases he
        exact herase i
    · cases he
  | commit i write =>
    simp only [Consumer.exec] at he
    split at he
    · next key ht =>
      split at he
      · cases he
        exact herase i
      · next effect heff => cases he; exact h.commit ht heff
    · cases he
  | ack i =>
    simp only [Consumer.exec] at he
    split at he
    · next key ht =>
      cases he
      have hdone : s.node.handler.inbox.classify key = .done := h.tasks _ (List.mem_of_getElem? ht)
      refine ⟨h.core.ack (by rw [hdone]; decide), fun task htask => ?_⟩
      exact (h.tasks task (List.mem_of_mem_eraseIdx htask)).mono _ fun _ => id
    · cases he
      exact herase i
    · cases he

theorem inv_init : Inv cfg (init cfg) where
  core := {
    node := Node.inv_init
    records := rfl
    done := by simp [init, Node.init]
    acked := by simp [init] }
  tasks := by simp [init]

/-- The invariant holds in every run in which no input in flight is acked early. -/
theorem inv_of_reachable {s : State σ Δ}
    (h : Transition.Reachable (exec cfg) (SkipsFinished cfg) (init cfg) s) : Inv cfg s :=
  h.invariant inv_init fun _ _ _ hi hp he => Inv.exec hi hp he

/-- In every run in which no input in flight is acked early, an applied input is acked only after
its outputs were published and its end was recorded. -/
theorem ackedAfterPublished_of_reachable {s : State σ Δ}
    (h : Transition.Reachable (exec cfg) (SkipsFinished cfg) (init cfg) s) :
    AckedAfterPublished cfg s :=
  (inv_of_reachable h).core.acked

/-- The first early return on an input in flight is an ack before its end. -/
theorem Inv.not_ackedAfterPublished {s : State σ Δ} (h : Inv cfg s) {message : μ}
    {write : Except String PUnit} (hn : ¬ SkipsFinished cfg s (.deliver message write)) :
    ¬ AckedAfterPublished cfg (Consumer.deliver cfg s message write) := by
  simp only [SkipsFinished, not_forall, not_not] at hn
  obtain ⟨key, hr, happ⟩ := hn
  intro hacked
  have hf := (Inbox.classify_eq_applied_iff _ _).mp happ
  rw [h.core.node.inbox] at hf
  obtain ⟨change, outputs, hm, -⟩ := h.core.node.admissible.inFlight hf
  have htrace : (Consumer.deliver cfg s message write).trace = s.trace ++ [.acked key] := by
    unfold Consumer.deliver
    rw [hr]
  obtain ⟨before, since, change', outputs', he, hd, -⟩ := hacked s.trace key (by rw [htrace])
    ⟨_, change, outputs, h.core.records.symm ▸ hm⟩
  -- the trace holds the end of the input, so the inbox would report it as finished
  have hdone : .inputDone (cfg.handler.msgId key) key ∈ s.node.history := by
    rw [← h.core.records, recordsIn, List.mem_filterMap]
    exact ⟨_, by rw [he]; exact List.mem_append_right _ (List.mem_cons_of_mem _ hd), rfl⟩
  have habs : (specState cfg.handler (noView cfg) s.node.history).inbox.classify key = .done :=
    h.core.node.admissible.absorbed hdone
  rw [← h.core.node.inbox, happ] at habs
  cases habs

/-! ## Whatever is acked when -/

variable (cfg) in
/-- What holds in every run: the trace shows the records of the node, and the outputs in the hands
of a thread are those of an observed record, the earlier ones published. -/
structure Sound (s : State σ Δ) : Prop where
  node : s.node.Inv cfg.handler (noView cfg)
  records : recordsIn s.trace = s.node.history
  publishing : ∀ key remaining, .publishing key remaining ∈ s.tasks →
    SentButBy cfg.handler.msgId s.trace key remaining

/-- A step that applies no input and leaves the worker state alone. -/
structure Quiet (s s' : State σ Δ) : Prop where
  workerState : s'.node.handler.workerState = s.node.handler.workerState
  grows : s.trace <+: s'.trace
  applied : ∀ m key change outputs, .recorded (.inputApplied m key change outputs) ∈ s'.trace →
    .recorded (.inputApplied m key change outputs) ∈ s.trace
  sending : ∀ remaining, .sending remaining ∈ s'.tasks →
    ∃ sends, .sending sends ∈ s.tasks ∧ remaining <:+ sends

variable (cfg) in
/-- What a step can do to the worker state, and which input it applies. -/
inductive Step (s s' : State σ Δ) : Label μ → Prop
  | quiet {l : Label μ} (h : Quiet s s') : Step s s' l
  | direct {message : μ} {write : Except String PUnit} {touched : σ} {sends : List (String × Bytes)}
      (hr : cfg.react s.node.handler.workerState message = .direct touched sends)
      (hs : s' = { s with
        node := s.node.mutate fun _ => touched
        tasks := s.tasks ++ [.sending sends] }) : Step s s' (.deliver message write)
  | raised {message : μ} {write : Except String PUnit} {key : InputKey} {touched : σ}
      {result : Except String (Δ × List LogicalOutput)}
      (hr : cfg.react s.node.handler.workerState message = .handle key touched result)
      (hs : s' = { s with node := s.node.mutate fun _ => touched }) :
      Step s s' (.deliver message write)
  | applied {message : μ} {write : Except String PUnit} {key : InputKey} {touched : σ} {change : Δ}
      {logical : List LogicalOutput} {outputs : List OutboxEntry}
      (hr : cfg.react s.node.handler.workerState message =
        .handle key touched (.ok (change, logical)))
      (hstamp : s.node.handler.sequencer.stamp cfg.toSequencerConfig key.clientId
        (cfg.handler.msgId key) logical = .ok outputs)
      (hw : s'.node.handler.workerState = cfg.applyChange touched change)
      (ht : s'.trace =
        s.trace ++ [.recorded (.inputApplied (cfg.handler.msgId key) key change outputs)])
      (htasks : s'.tasks = s.tasks ++ [.publishing key outputs]) :
        Step s s' (.deliver message write)

theorem recordsIn_append (trace more : List (Obs Δ)) :
    recordsIn (trace ++ more) = recordsIn trace ++ recordsIn more := by
  simp [recordsIn]

theorem recordsIn_recordedSince (n n' : Node σ σ Δ) (h : n.history <+: n'.history) :
    n.history ++ recordsIn (recordedSince n n') = n'.history := by
  obtain ⟨more, hm⟩ := h
  rw [recordsIn, recordedSince, ← hm, List.drop_left, List.filterMap_map]
  simp

/-- What `handle` does with a new input. -/
theorem handle_new {write : Except String PUnit} {businessFn : BusinessFn σ Δ}
    {effect : Handler.Effect σ σ Δ} (hnew : n.handler.inbox.classify key = .new)
    (he : n.effect cfg.handler write (.handle key businessFn) = .ok effect) :
    ∃ change logical outputs,
      businessFn n.handler.workerState = .ok (change, logical) ∧
      n.handler.sequencer.stamp cfg.toSequencerConfig key.clientId (cfg.handler.msgId key) logical =
        .ok outputs ∧
      effect.instruction = .publishThenCommit outputs (cfg.handler.msgId key) key ∧
      (n.call cfg.handler write (.handle key businessFn)).handler.workerState =
        cfg.applyChange n.handler.workerState change ∧
      (n.call cfg.handler write (.handle key businessFn)).history =
        n.history ++ [.inputApplied (cfg.handler.msgId key) key change outputs] := by
  rw [Node.call, he]
  simp only [Node.effect, Handler.handle, hnew] at he
  obtain ⟨⟨change, logical⟩, hb, he⟩ := Except.ok_of_bind he
  obtain ⟨outputs, hs, he⟩ := Except.ok_of_bind he
  obtain ⟨bytes, -, he⟩ := Except.ok_of_bind he
  cases he
  have hout : (n.handler.outbox.add key.clientId (cfg.handler.msgId key) outputs).entriesForInput
      key.clientId (cfg.handler.msgId key) = outputs := by
    rw [Outbox.entriesForInput_eq, Outbox.lookup_add, if_pos ⟨rfl, rfl⟩, Option.getD_some]
  exact ⟨change, logical, outputs, hb, hs, by rw [hout], rfl, rfl⟩

/-- An input that is not new changes nothing. -/
theorem call_of_not_new {write : Except String PUnit} {businessFn : BusinessFn σ Δ}
    (hnew : n.handler.inbox.classify key ≠ .new) :
    n.call cfg.handler write (.handle key businessFn) = n := by
  cases hc : n.handler.inbox.classify key with
  | new => exact absurd hc hnew
  | applied => simp [Node.call, Node.effect, Handler.handle, hc, Node.persist, Disk.performAll,
      appendedRecords]
  | done => simp [Node.call, Node.effect, Handler.handle, hc, Node.persist, Disk.performAll,
      appendedRecords]

theorem Quiet.of_tasks {s : State σ Δ} {tasks : List Task} (more : List (Obs Δ))
    (hm : ∀ m key change outputs, .recorded (.inputApplied m key change outputs) ∉ more)
    (ht : ∀ remaining, .sending remaining ∈ tasks →
      ∃ sends, .sending sends ∈ s.tasks ∧ remaining <:+ sends) :
    Quiet s { s with tasks, trace := s.trace ++ more } where
  workerState := rfl
  grows := List.prefix_append _ _
  applied m key change outputs h := (List.mem_append.mp h).resolve_right (hm m key change outputs)
  sending := ht

/-- A delivery. -/
theorem step_deliver (s : State σ Δ) (message : μ) (write : Except String PUnit) :
    Step cfg s (deliver cfg s message write) (.deliver message write) := by
  have hsame : ∀ remaining, Task.sending remaining ∈ s.tasks →
      ∃ sends, Task.sending sends ∈ s.tasks ∧ remaining <:+ sends :=
    fun remaining h => ⟨remaining, h, List.suffix_rfl⟩
  unfold Consumer.deliver
  split
  · exact .quiet ⟨rfl, List.prefix_rfl, fun _ _ _ _ h => h, hsame⟩
  · exact .quiet (.of_tasks _ (by simp) hsame)
  · next touched sends hr => exact .direct hr rfl
  · next key touched result hr =>
    by_cases hnew : s.node.handler.inbox.classify key = .new
    · have htouched : touchedNode s.node key touched = s.node.mutate fun _ => touched := if_pos hnew
      have hnew' : (s.node.mutate fun _ => touched).handler.inbox.classify key = .new := hnew
      rw [htouched]
      dsimp only
      split
      · exact .raised hr rfl
      · next effect heff =>
        obtain ⟨change, logical, outputs, rfl, hs, hi, hw, hh⟩ := handle_new hnew' heff
        refine .applied hr hs hw ?_ ?_
        · exact congrArg (s.trace ++ ·) (recordedSince_of_append hh)
        · simp only [taskFor, hi]
    · have htouched : touchedNode s.node key touched = s.node := if_neg hnew
      rw [htouched]
      dsimp only
      split
      · exact .quiet ⟨rfl, List.prefix_rfl, fun _ _ _ _ h => h, hsame⟩
      · next effect heff =>
        rw [call, call_of_not_new hnew, recordedSince_of_history_eq rfl]
        refine .quiet (.of_tasks [] (by simp) fun remaining h => ?_)
        rcases List.mem_append.mp h with h | h
        · exact hsame remaining h
        · rw [List.mem_singleton] at h
          cases hi : effect.instruction <;> rw [hi] at h <;> cases h

/-- What one step can do. -/
theorem step_of_exec {s s' : State σ Δ} {l : Label μ} (he : exec cfg s l = some s') :
    Step cfg s s' l := by
  have herase : ∀ i (remaining : List (String × Bytes)), Task.sending remaining ∈
      s.tasks.eraseIdx i →
      ∃ sends, Task.sending sends ∈ s.tasks ∧ remaining <:+ sends :=
    fun i remaining h => ⟨remaining, List.mem_of_mem_eraseIdx h, List.suffix_rfl⟩
  have hset : ∀ i task, (∀ remaining, Task.sending remaining = task →
      ∃ sends, Task.sending sends ∈ s.tasks ∧ remaining <:+ sends) → ∀ remaining,
      Task.sending remaining ∈ s.tasks.set i task →
      ∃ sends, Task.sending sends ∈ s.tasks ∧ remaining <:+ sends := by
    intro i task htask remaining h
    rcases List.mem_or_eq_of_mem_set h with h | h
    · exact ⟨remaining, h, List.suffix_rfl⟩
    · exact htask remaining h
  have hdrop : ∀ i, Quiet s { s with tasks := s.tasks.eraseIdx i } := fun i =>
    ⟨rfl, List.prefix_rfl, fun _ _ _ _ h => h, herase i⟩
  cases l with
  | deliver message write =>
    cases he
    exact step_deliver s message write
  | publish i confirmed =>
    simp only [exec] at he
    split at he
    · split at he
      · cases he
        exact .quiet (.of_tasks _ (by simp) (hset i _ nofun))
      · cases he
        exact .quiet (hdrop i)
    · next head remaining ht =>
      split at he
      · cases he
        refine .quiet ⟨rfl, List.prefix_rfl, fun _ _ _ _ h => h, hset i _ fun remaining' h => ?_⟩
        cases h
        exact ⟨_, List.mem_of_getElem? ht, List.suffix_cons ..⟩
      · cases he
        exact .quiet (hdrop i)
    · cases he
  | commit i write =>
    simp only [exec] at he
    split at he
    · next key ht =>
      split at he
      · cases he
        exact .quiet (hdrop i)
      · next effect heff =>
        cases he
        refine .quiet ⟨?_, List.prefix_append _ _, ?_, hset i _ nofun⟩
        · rw [call, Node.call, heff]
          rcases effect_spec heff with ⟨-, hs⟩ | ⟨-, record, _, _, ha, -, -, hs, -⟩
          · exact congrArg HandlerState.workerState hs
          · cases ha
            exact (congrArg HandlerState.workerState hs).trans rfl
        · intro m key' change outputs h
          refine (List.mem_append.mp h).resolve_right fun h => ?_
          rw [recordedSince_of_append (Node.history_commitDone heff)] at h
          cases List.mem_singleton.mp h
    · cases he
  | ack i =>
    simp only [exec] at he
    split at he
    · cases he
      exact .quiet (.of_tasks _ (by simp) (herase i))
    · cases he
      exact .quiet (hdrop i)
    · cases he

/-- The trace only grows. -/
theorem Step.grows {s s' : State σ Δ} {l : Label μ} (h : Step cfg s s' l) :
    s.trace <+: s'.trace := by
  cases h with
  | quiet h => exact h.grows
  | direct hr hs | raised hr hs => rw [hs]
  | applied hr hstamp hw ht htasks => rw [ht]; exact List.prefix_append _ _

theorem Sound.of_call {s : State σ Δ} (h : Sound cfg s) {node : Node σ σ Δ}
    (hnode : node.Inv cfg.handler (noView cfg)) (hh : node.history = s.node.history)
    (write : Except String PUnit) (c : Call σ Δ) {tasks : List Task}
    (ht : ∀ key remaining, .publishing key remaining ∈ tasks →
      .publishing key remaining ∈ s.tasks ∨ SentButBy cfg.handler.msgId
        (s.trace ++ recordedSince node (node.call cfg.handler write c)) key remaining) :
    Sound cfg { call cfg s node write c with tasks } where
  node := (hnode.call write c).1
  records := by
    simp only [call]
    rw [recordsIn_append, h.records, ← hh]
    refine recordsIn_recordedSince _ _ ?_
    obtain ⟨-, ⟨he, -⟩ | ⟨-, record, -, he⟩⟩ := hnode.call write c
    · rw [he]
    · exact he ▸ List.prefix_append _ _
  publishing key remaining hm := by
    rcases ht key remaining hm with hm | hm
    · exact (h.publishing key remaining hm).append _
    · exact hm

theorem Sound.of_trace {s : State σ Δ} (h : Sound cfg s) {tasks : List Task} (more : List (Obs Δ))
    (hm : recordsIn more = [])
    (ht : ∀ key remaining, .publishing key remaining ∈ tasks → .publishing key remaining ∈ s.tasks ∨
      SentButBy cfg.handler.msgId (s.trace ++ more) key remaining) :
    Sound cfg { s with tasks, trace := s.trace ++ more } where
  node := h.node
  records := by rw [recordsIn_append, hm, List.append_nil, h.records]
  publishing key remaining hp := by
    rcases ht key remaining hp with hp | hp
    · exact (h.publishing key remaining hp).append _
    · exact hp

theorem Sound.mutate {s : State σ Δ} (h : Sound cfg s) (touched : σ) {tasks : List Task}
    (ht : ∀ key remaining, .publishing key remaining ∈ tasks →
      .publishing key remaining ∈ s.tasks) :
    Sound cfg { s with node := s.node.mutate fun _ => touched, tasks } :=
  ⟨Node.Inv.mutate (f := fun _ => touched) h.node fun _ => rfl, h.records,
    fun _ _ hp => h.publishing _ _ (ht _ _ hp)⟩

theorem Sound.deliver {s : State σ Δ} (h : Sound cfg s) (message : μ)
    (write : Except String PUnit) :
    Sound cfg (Consumer.deliver cfg s message write) := by
  unfold Consumer.deliver
  split
  · exact h
  · exact h.of_trace _ rfl fun key remaining hp => .inl hp
  · refine h.mutate _ fun key remaining hp => ?_
    simpa using hp
  · next key touched result hr =>
    have hnode : (touchedNode s.node key touched).Inv cfg.handler (noView cfg) := by
      unfold touchedNode
      split
      · exact h.node.mutate fun _ => rfl
      · exact h.node
    have hh : (touchedNode s.node key touched).history = s.node.history := by
      unfold touchedNode
      split <;> rfl
    dsimp only
    split
    · exact ⟨hnode, h.records.trans hh.symm, h.publishing⟩
    · next effect heff =>
      refine h.of_call hnode hh write _ fun key' remaining hp => ?_
      rcases List.mem_append.mp hp with hp | hp
      · exact .inl hp
      · right
        rw [List.mem_singleton] at hp
        rcases Node.handle_cases heff with ⟨-, hi, -⟩ | ⟨change, outputs, hi, hh'⟩ | ⟨happ, hi, -⟩
        · rw [hi] at hp
          cases hp
        · rw [hi] at hp
          cases hp
          rw [recordedSince_of_append hh']
          exact ⟨s.trace, [], change, [], rfl, by simp⟩
        · rw [hnode.inbox, Inbox.classify_eq_applied_iff] at happ
          obtain ⟨change, outputs, hm, hl⟩ := hnode.admissible.inFlight happ
          rw [hi, Outbox.entriesForInput_eq, hnode.outbox, hl] at hp
          cases hp
          rw [hh, ← h.records] at hm
          exact (sentButBy_of_mem hm).append _

/-- Every step keeps what holds in every run. -/
theorem Sound.exec {s s' : State σ Δ} {l : Label μ} (h : Sound cfg s)
    (he : Consumer.exec cfg s l = some s') : Sound cfg s' := by
  have herase : ∀ i, Sound cfg { s with tasks := s.tasks.eraseIdx i } := fun i =>
    ⟨h.node, h.records, fun key remaining hp =>
      h.publishing key remaining (List.mem_of_mem_eraseIdx hp)⟩
  cases l with
  | deliver message write =>
    cases he
    exact h.deliver message write
  | publish i confirmed =>
    simp only [Consumer.exec] at he
    split at he
    · next key entry remaining ht =>
      split at he
      · cases he
        refine h.of_trace _ rfl fun key' remaining' hp => ?_
        rcases List.mem_or_eq_of_mem_set hp with hp | hp
        · exact .inl hp
        · cases hp
          exact .inr (h.publishing _ _ (List.mem_of_getElem? ht)).publish
      · cases he
        exact herase i
    · split at he
      · cases he
        refine ⟨h.node, h.records, fun key remaining hp => h.publishing key remaining ?_⟩
        exact (List.mem_or_eq_of_mem_set hp).resolve_right nofun
      · cases he
        exact herase i
    · cases he
  | commit i write =>
    simp only [Consumer.exec] at he
    split at he
    · split at he
      · cases he
        exact herase i
      · cases he
        refine h.of_call h.node rfl write _ fun key remaining hp => .inl ?_
        exact (List.mem_or_eq_of_mem_set hp).resolve_right nofun
    · cases he
  | ack i =>
    simp only [Consumer.exec] at he
    split at he
    · cases he
      exact h.of_trace _ rfl fun key remaining hp => .inl (List.mem_of_mem_eraseIdx hp)
    · cases he
      exact herase i
    · cases he

theorem sound_init : Sound cfg (init cfg) where
  node := Node.inv_init
  records := rfl
  publishing := by simp [init]

/-- A quiet step records no input. -/
theorem Quiet.appliedOnly_history {s s' : State σ Δ} (h : Quiet s s') (hs : Sound cfg s)
    (hs' : Sound cfg s') :
    appliedOnly s'.node.history = appliedOnly s.node.history := by
  obtain ⟨more, hmore⟩ := h.grows
  have hh : s'.node.history = s.node.history ++ recordsIn more := by
    rw [← hs'.records, ← hmore, recordsIn_append, hs.records]
  have hnil : appliedOnly (recordsIn more) = [] := by
    refine List.eq_nil_iff_forall_not_mem.mpr fun record hr => ?_
    cases record with
    | inputDone m key => simp [appliedOnly] at hr
    | inputApplied m key change outputs =>
      -- it is recorded before as well, and no input is recorded twice
      have hlate := mem_appliedOnly.mp hr
      have htrace : .recorded (.inputApplied m key change outputs) ∈ s'.trace := by
        obtain ⟨obs, hobs, ho⟩ := List.mem_filterMap.mp hlate
        cases obs with
        | recorded record =>
          cases ho
          exact hmore ▸ List.mem_append_right _ hobs
        | published | acked => cases ho
      have hearly : .inputApplied m key change outputs ∈ s.node.history := by
        rw [← hs.records]
        exact List.mem_filterMap.mpr ⟨_, h.applied _ _ _ _ htrace, rfl⟩
      have hle := hs'.node.admissible.length_appliedRecords_le key
      have hpos := List.length_pos_of_mem (mem_appliedRecords.mpr ⟨hlate, m, change, outputs, rfl⟩)
      have hpos' :=
        List.length_pos_of_mem (mem_appliedRecords.mpr ⟨hearly, m, change, outputs, rfl⟩)
      rw [hh, appliedRecords_append, List.length_append] at hle
      omega
  rw [hh, appliedOnly_append, hnil, List.append_nil]

/-- What a step records: nothing, an input, or the end of the input of a task that has published its
outputs. -/
theorem Sound.history_exec {s s' : State σ Δ} {l : Label μ} (h : Sound cfg s)
    (he : Consumer.exec cfg s l = some s') :
    s'.node.history = s.node.history ∨
    (∃ m key change outputs,
      s'.node.history = s.node.history ++ [.inputApplied m key change outputs]) ∨
    ∃ i write key, l = .commit i write ∧ s.tasks[i]? = some (.publishing key []) ∧
      s'.node.history = s.node.history ++ [.inputDone (cfg.handler.msgId key) key] := by
  cases l with
  | deliver message write =>
    cases he
    unfold Consumer.deliver
    split
    · exact .inl rfl
    · exact .inl rfl
    · exact .inl rfl
    · next key touched result hr =>
      have hnode : (touchedNode s.node key touched).Inv cfg.handler (noView cfg) ∧
          (touchedNode s.node key touched).history = s.node.history := by
        unfold touchedNode
        split
        · exact ⟨h.node.mutate fun _ => rfl, rfl⟩
        · exact ⟨h.node, rfl⟩
      dsimp only
      split
      · exact .inl hnode.2
      · obtain ⟨-, ⟨hh, -⟩ | ⟨-, record, ha, hh⟩⟩ :=
          hnode.1.call write (.handle key fun _ => result)
        · exact .inl (hh.trans hnode.2)
        · obtain ⟨-, change, logical, outputs, -, -, rfl⟩ := ha
          exact .inr (.inl ⟨_, key, change, outputs, hh.trans (congrArg (· ++ _) hnode.2)⟩)
  | publish i confirmed =>
    simp only [Consumer.exec] at he
    split at he
    · split at he <;> (cases he; exact .inl rfl)
    · split at he <;> (cases he; exact .inl rfl)
    · cases he
  | commit i write =>
    simp only [Consumer.exec] at he
    split at he
    · next key ht =>
      split at he
      · cases he
        exact .inl rfl
      · next effect heff =>
        cases he
        exact .inr (.inr ⟨i, write, key, rfl, ht, Node.history_commitDone heff⟩)
    · cases he
  | ack i =>
    simp only [Consumer.exec] at he
    split at he
    · cases he
      exact .inl rfl
    · cases he
      exact .inl rfl
    · cases he

/-- The input of a task that has outputs to publish, or has published them, is applied. -/
theorem Sound.applied_of_publishing {s : State σ Δ} (h : Sound cfg s) {key : InputKey}
    {remaining : List OutboxEntry} (ht : .publishing key remaining ∈ s.tasks) :
    ∃ change outputs,
      .inputApplied (cfg.handler.msgId key) key change outputs ∈ s.node.history := by
  obtain ⟨before, since, change, sent, hs, -⟩ := h.publishing key remaining ht
  refine ⟨change, sent ++ remaining, ?_⟩
  rw [← h.records, hs]
  simp [recordsIn]

/-- What a thread finishes it has applied before. -/
theorem Sound.doneApplied {s s' : State σ Δ} {l : Label μ} (h : Sound cfg s)
    (hd : DoneApplied s.node.history)
    (he : Consumer.exec cfg s l = some s') : DoneApplied s'.node.history := by
  have happend : ∀ {record : WalRecord Δ}, (∀ m key, record = .inputDone m key →
      ∃ m change outputs, .inputApplied m key change outputs ∈ s.node.history) →
      DoneApplied (s.node.history ++ [record]) := by
    intro record hr m key hm
    rcases List.mem_append.mp hm with hm | hm
    · obtain ⟨m', change, outputs, happ⟩ := hd m key hm
      exact ⟨m', change, outputs, List.mem_append_left _ happ⟩
    · obtain ⟨m', change, outputs, happ⟩ := hr m key (List.mem_singleton.mp hm).symm
      exact ⟨m', change, outputs, List.mem_append_left _ happ⟩
  rcases h.history_exec he with hh | ⟨m, key, change, outputs, hh⟩ | ⟨i, write, key, -, ht, hh⟩
  · exact hh ▸ hd
  · exact hh ▸ happend nofun
  · refine hh ▸ happend fun m key' hr => ?_
    cases hr
    obtain ⟨change, outputs, happ⟩ := h.applied_of_publishing (List.mem_of_getElem? ht)
    exact ⟨_, change, outputs, happ⟩

/-- A task that is about to ack was so before, has just published all outputs of its input, or was
started by a message that the inbox reports as finished. -/
theorem acking_of_exec {s s' : State σ Δ} {l : Label μ} (he : exec cfg s l = some s')
    {key : InputKey} (h : .acking key ∈ s'.tasks) :
    .acking key ∈ s.tasks ∨ .publishing key [] ∈ s.tasks ∨
    ∃ message write touched result, l = .deliver message write ∧
      cfg.react s.node.handler.workerState message = .handle key touched result ∧
      s.node.handler.inbox.classify key = .done := by
  cases l with
  | deliver message write =>
    cases he
    unfold deliver at h
    split at h
    · exact .inl h
    · exact .inl h
    · exact .inl (by simpa using h)
    · next key' touched result hr =>
      dsimp only at h
      split at h
      · exact .inl h
      · next effect heff =>
        rcases List.mem_append.mp h with h | h
        · exact .inl h
        · have htask := List.mem_singleton.mp h
          rcases Node.handle_cases heff with ⟨hdone, hi, -⟩ | ⟨_, _, hi, -⟩ | ⟨-, hi, -⟩
          · rw [hi] at htask
            cases htask
            rw [classify_touchedNode] at hdone
            exact .inr (.inr ⟨message, write, touched, result, rfl, hr, hdone⟩)
          · rw [hi] at htask
            cases htask
          · rw [hi] at htask
            cases htask
  | publish i confirmed =>
    simp only [exec] at he
    split at he
    · split at he
      · cases he
        exact .inl ((List.mem_or_eq_of_mem_set h).resolve_right nofun)
      · cases he
        exact .inl (List.mem_of_mem_eraseIdx h)
    · split at he
      · cases he
        exact .inl ((List.mem_or_eq_of_mem_set h).resolve_right nofun)
      · cases he
        exact .inl (List.mem_of_mem_eraseIdx h)
    · cases he
  | commit i write =>
    simp only [exec] at he
    split at he
    · next key' ht =>
      split at he
      · cases he
        exact .inl (List.mem_of_mem_eraseIdx h)
      · cases he
        rcases List.mem_or_eq_of_mem_set h with h | h
        · exact .inl h
        · cases h
          exact .inr (.inl (List.mem_of_getElem? ht))
    · cases he
  | ack i =>
    simp only [exec] at he
    split at he
    · cases he
      exact .inl (List.mem_of_mem_eraseIdx h)
    · cases he
      exact .inl (List.mem_of_mem_eraseIdx h)
    · cases he

/-- An ack is that of a task, or of a message that is acked before the inbox is asked. -/
theorem acked_of_exec {s s' : State σ Δ} {l : Label μ} (he : exec cfg s l = some s')
    {key : InputKey} (h : .acked key ∈ s'.trace) :
    .acked key ∈ s.trace ∨ .acking key ∈ s.tasks ∨
    ∃ message write, l = .deliver message write ∧
      cfg.react s.node.handler.workerState message = .skip key := by
  have hrecorded : ∀ n n' : Node σ σ Δ, .acked key ∉ recordedSince n n' := by
    intro n n' h
    obtain ⟨record, -, hr⟩ := List.mem_map.mp h
    cases hr
  cases l with
  | deliver message write =>
    cases he
    unfold deliver at h
    split at h
    · exact .inl h
    · next key' hr =>
      rcases List.mem_append.mp h with h | h
      · exact .inl h
      · cases List.mem_singleton.mp h
        exact .inr (.inr ⟨message, write, rfl, hr⟩)
    · exact .inl h
    · dsimp only at h
      split at h
      · exact .inl h
      · exact .inl ((List.mem_append.mp h).resolve_right (hrecorded _ _))
  | publish i confirmed =>
    simp only [exec] at he
    split at he
    · split at he
      · cases he
        exact .inl ((List.mem_append.mp h).resolve_right (by simp))
      · cases he
        exact .inl h
    · split at he <;> (cases he; exact .inl h)
    · cases he
  | commit i write =>
    simp only [exec] at he
    split at he
    · split at he
      · cases he
        exact .inl h
      · cases he
        exact .inl ((List.mem_append.mp h).resolve_right (hrecorded _ _))
    · cases he
  | ack i =>
    simp only [exec] at he
    split at he
    · next key' ht =>
      cases he
      rcases List.mem_append.mp h with h | h
      · exact .inl h
      · cases List.mem_singleton.mp h
        exact .inr (.inl (List.mem_of_getElem? ht))
    · cases he
      exact .inl h
    · cases he

/-! ## Messages whose handler returns -/

variable (cfg) in
/-- The handler of a message returns, when the disk cooperates. -/
def Returns (s : State σ Δ) (message : μ) : Prop :=
  match cfg.react s.node.handler.workerState message with
  | .refuse => False
  | .skip _ | .direct .. => True
  | .handle key touched result =>
    ((touchedNode s.node key touched).effect cfg.handler (.ok ⟨⟩)
      (.handle key fun _ => result)).isOk

instance (s : State σ Δ) (message : μ) : Decidable (Returns cfg s message) := by
  unfold Returns
  split <;> infer_instance

variable (cfg) in
/-- What a delivery does whose handler returns. -/
inductive Delivered (s s' : State σ Δ) (message : μ) : Prop
  | skipped {key : InputKey} (hr : cfg.react s.node.handler.workerState message = .skip key)
      (hs : s' = { s with trace := s.trace ++ [.acked key] })
  | direct {touched : σ} {sends : List (String × Bytes)}
      (hr : cfg.react s.node.handler.workerState message = .direct touched sends)
      (hs : s' = { s with
        node := s.node.mutate fun _ => touched
        tasks := s.tasks ++ [.sending sends] })
  | duplicate {key : InputKey} {touched : σ} {result : Except String (Δ × List LogicalOutput)}
      {task : Task} (hr : cfg.react s.node.handler.workerState message = .handle key touched result)
      (hk : s.node.handler.inbox.classify key ≠ .new) (ht : ∀ remaining, task ≠ .sending remaining)
      (hs : s' = { s with tasks := s.tasks ++ [task] })
  | applied {key : InputKey} {touched : σ} {change : Δ} {logical : List LogicalOutput}
      {outputs : List OutboxEntry}
      (hr : cfg.react s.node.handler.workerState message =
        .handle key touched (.ok (change, logical)))
      (hstamp : s.node.handler.sequencer.stamp cfg.toSequencerConfig key.clientId
        (cfg.handler.msgId key) logical = .ok outputs)
      (hw : s'.node.handler.workerState = cfg.applyChange touched change)
      (hh : s'.node.history =
        s.node.history ++ [.inputApplied (cfg.handler.msgId key) key change outputs])
      (ht : s'.trace =
        s.trace ++ [.recorded (.inputApplied (cfg.handler.msgId key) key change outputs)])
      (htasks : s'.tasks = s.tasks ++ [.publishing key outputs])

theorem delivered {s : State σ Δ} {message : μ} (h : Returns cfg s message) :
    Delivered cfg s (deliver cfg s message (.ok ⟨⟩)) message := by
  unfold Returns at h
  unfold Consumer.deliver
  split at h
  · exact absurd h id
  · next key hr =>
    exact .skipped hr rfl
  · next touched sends hr =>
    exact .direct hr rfl
  · next key touched result hr =>
    dsimp only
    split
    · next e he =>
      rw [he] at h
      cases h
    · next effect heff =>
      by_cases hnew : s.node.handler.inbox.classify key = .new
      · have htouched : touchedNode s.node key touched = s.node.mutate fun _ =>
            touched := if_pos hnew
        have hnew' : (s.node.mutate fun _ => touched).handler.inbox.classify key = .new := hnew
        rw [htouched] at heff ⊢
        obtain ⟨change, logical, outputs, rfl, hs, hi, hw, hh⟩ := handle_new hnew' heff
        refine .applied hr hs hw hh ?_ ?_
        · exact congrArg (s.trace ++ ·) (recordedSince_of_append hh)
        · simp only [taskFor, hi]
      · have htouched : touchedNode s.node key touched = s.node := if_neg hnew
        rw [htouched] at heff ⊢
        have htask : ∀ remaining, taskFor key effect.instruction ≠ .sending remaining := by
          intro remaining
          cases effect.instruction <;> exact nofun
        refine .duplicate hr hnew htask ?_
        rw [call, call_of_not_new hnew, recordedSince_of_history_eq rfl, List.append_nil]

end Consumer

end MoneyLaundering
