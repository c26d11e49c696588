import MoneyLaundering.FaultTolerance.ConsumerCrashes

/-!
# What a process hands to the broker

A process with message handlers of its own, from its start on. It first publishes what the recovery
found in the outbox; then messages are delivered, and the outputs of each are published, committed
and acked by a thread. Publishing fails, appends fail, and the process dies at any durable step and
between them and comes back.

`published` has every packet that was handed to the broker, whether it was confirmed or not: a
packet whose confirmation is lost may have arrived. In every run each of them is an output of a
record of the log, or was sent by a handler that does not log (`Accounted`).
-/

namespace MoneyLaundering

open Transition

/-! ## Records that were written -/

namespace Node

variable {σ ς Δ : Type} {cfg : HandlerConfig σ ς Δ} {n n' : Node σ ς Δ} {c : Call σ Δ}

/-- The first steps of a call append nothing, or the record of the call, which has an encoding. -/
theorem appendedRecords_take {write : Except String PUnit} {effect : Handler.Effect σ ς Δ}
    (he : n.effect cfg write c = .ok effect) (steps : Nat) :
    appendedRecords (effect.ops.take steps) = [] ∨
      ∃ record bytes, Appends cfg n.handler c record ∧ Wal.encode cfg.json record = .ok bytes ∧
        appendedRecords (effect.ops.take steps) = [record] := by
  rcases effect_spec he with ⟨htail, -⟩ | ⟨-, record, bytes, tail, ha, hb, hops, -, htail⟩
  · exact .inl (appendedRecords_snapshotTail htail steps)
  · rw [hops]
    cases steps with
    | zero => exact .inl rfl
    | succ steps =>
      refine .inr ⟨record, bytes, ha, hb, ?_⟩
      rw [List.take_succ_cons, appendedRecords, appendedRecords_snapshotTail htail]

/-- A call with any end adds at most its record to the history, and the record has an encoding. -/
theorem history_outcome {outcome : Outcome} (he : n.exec cfg (outcome.event c) = .ok n') :
    n'.history = n.history ∨
      ∃ record bytes, Appends cfg n.handler c record ∧ Wal.encode cfg.json record = .ok bytes ∧
        n'.history = n.history ++ [record] := by
  have hcall : ∀ write, (n.call cfg write c).history = n.history ∨
      ∃ record bytes, Appends cfg n.handler c record ∧ Wal.encode cfg.json record = .ok bytes ∧
        (n.call cfg write c).history = n.history ++ [record] := by
    intro write
    unfold Node.call
    cases heff : n.effect cfg write c with
    | error e => exact .inl rfl
    | ok effect =>
      have happ := appendedRecords_take heff effect.ops.length
      rw [List.take_length] at happ
      rcases happ with hnil | ⟨record, bytes, ha, hb, hone⟩
      · exact .inl (by simp [Node.persist, hnil])
      · exact .inr ⟨record, bytes, ha, hb, by simp [Node.persist, hone]⟩
  cases outcome with
  | returns =>
    cases he
    exact hcall _
  | appendFails =>
    cases he
    exact hcall _
  | crashes steps =>
    obtain ⟨handler, -, he⟩ := Except.ok_of_bind he
    cases he
    dsimp only [Node.persist]
    unfold Node.ops
    cases heff : n.effect cfg (.ok ⟨⟩) c with
    | error e => exact .inl (by simp [appendedRecords])
    | ok effect =>
      rcases appendedRecords_take heff steps with hnil | ⟨record, bytes, ha, hb, hone⟩
      · exact .inl (by simp [hnil])
      · exact .inr ⟨record, bytes, ha, hb, by simp [hone]⟩

end Node

/-! ## The process -/

/-- What the start of a process does when a pending output cannot be published. -/
inductive RepublishError where
  /-- It is logged, and the next output is tried. -/
  | logged
  /-- It is raised, and the process dies. -/
  | raised
  deriving DecidableEq

namespace Publisher

open Consumer

/-- A process. `pending` is what it still has to publish before it starts to consume. -/
structure State (σ Δ : Type) where
  node : Node σ σ Δ
  tasks : List Task := []
  pending : List OutboxEntry := []
  published : List (String × Bytes) := []

inductive Label (μ : Type) where
  | republish (confirmed : Bool)
  | deliver (message : μ) (outcome : Outcome)
  | publish (i : Nat) (confirmed : Bool)
  | commit (i : Nat) (outcome : Outcome)
  | ack (i : Nat)
  | crash

/-- The packet of an output. -/
def packet (entry : OutboxEntry) : String × Bytes := (entry.destination, entry.body)

variable {σ Δ μ : Type} (cfg : ConsumerConfig σ Δ μ) (onError : RepublishError)

def init : State σ Δ where
  node := Node.init cfg.handler

/-- The process died and recovered this node. -/
def restarted (s : State σ Δ) (node : Node σ σ Δ) : State σ Δ where
  node
  pending := node.handler.outbox.allPending
  published := s.published

/-- The process dies between two calls. -/
def crash (s : State σ Δ) : Option (State σ Δ) :=
  (s.node.exec cfg.handler ((Outcome.crashes 0).event .snapshotNow)).toOption.map (restarted s)

/-- The task that a call of `handle` starts, unless it raises. -/
def tasksOf (key : InputKey) : Except String (Handler.Effect σ σ Δ) → List Task
  | .ok effect => [taskFor key effect.instruction]
  | .error _ => []

/-- A delivery. -/
def deliver (s : State σ Δ) (message : μ) (outcome : Outcome) : Option (State σ Δ) :=
  match cfg.react s.node.handler.workerState message with
  | .refuse | .skip _ => some s
  | .direct touched sends =>
    some { s with
      node := s.node.mutate fun _ => touched
      tasks := s.tasks ++ [.sending sends] }
  | .handle key touched result =>
    let node := touchedNode s.node key touched
    let c : Call σ Δ := .handle key fun _ => result
    (node.exec cfg.handler (outcome.event c)).toOption.map fun node' =>
      match outcome with
      | .crashes _ => restarted s node'
      | outcome =>
        { s with
          node := node'
          tasks := s.tasks ++ tasksOf key (node.effect cfg.handler outcome.write c) }

/-- `commit_done` of the task `i`, which has published its outputs. -/
def commit (s : State σ Δ) (i : Nat) (key : InputKey) (outcome : Outcome) : Option (State σ Δ) :=
  (s.node.exec cfg.handler (outcome.event (.commitDone key))).toOption.map fun node' =>
    match outcome with
    | .crashes _ => restarted s node'
    | outcome =>
      { s with
        node := node'
        tasks :=
          match s.node.effect cfg.handler outcome.write (.commitDone key) with
          | .ok _ => s.tasks.set i (.acking key)
          | .error _ => s.tasks.eraseIdx i }

/-- One step, `none` when it is not enabled or the recovery raises. -/
def exec (s : State σ Δ) : Label μ → Option (State σ Δ)
  | .republish confirmed =>
    match s.pending with
    | [] => none
    | entry :: pending =>
      let s := { s with pending, published := s.published ++ [packet entry] }
      if confirmed ∨ onError = .logged then some s else crash cfg s
  | .deliver message outcome => if s.pending = [] then deliver cfg s message outcome else none
  | .publish i confirmed =>
    match s.tasks[i]? with
    | some (.publishing key (entry :: remaining)) =>
      some { s with
        tasks := if confirmed then s.tasks.set i (.publishing key remaining) else s.tasks.eraseIdx i
        published := s.published ++ [packet entry] }
    | some (.sending (sent :: remaining)) =>
      some { s with
        tasks := if confirmed then s.tasks.set i (.sending remaining) else s.tasks.eraseIdx i
        published := s.published ++ [sent] }
    | _ => none
  | .commit i outcome =>
    match s.tasks[i]? with
    | some (.publishing key []) => commit cfg s i key outcome
    | _ => none
  | .ack i =>
    match s.tasks[i]? with
    | some (.acking _) | some (.sending []) => some { s with tasks := s.tasks.eraseIdx i }
    | _ => none
  | .crash => crash cfg s

/-! ## Where published packets come from -/

/-- An output of a record. -/
def Logged (history : List (WalRecord Δ)) (entry : OutboxEntry) : Prop :=
  ∃ m key change outputs, .inputApplied m key change outputs ∈ history ∧ entry ∈ outputs

/-- What holds in every run, if the handlers that do not log send packets with the property `P`
only. -/
structure Accounted (P : String × Bytes → Prop) (s : State σ Δ) : Prop where
  node : s.node.Inv cfg.handler (noView cfg)
  encoded : ∀ record ∈ s.node.history, ∃ bytes, Wal.encode cfg.json record = .ok bytes
  publishing : ∀ key remaining, .publishing key remaining ∈ s.tasks →
    ∀ entry ∈ remaining, Logged s.node.history entry
  sending : ∀ remaining, .sending remaining ∈ s.tasks → ∀ sent ∈ remaining, P sent
  pending : ∀ entry ∈ s.pending, Logged s.node.history entry
  published : ∀ sent ∈ s.published,
    (∃ entry, Logged s.node.history entry ∧ sent = packet entry) ∨ P sent

variable {cfg onError} {s s' : State σ Δ} {P : String × Bytes → Prop} {n n' : Node σ σ Δ}
  {history : List (WalRecord Δ)} {entry : OutboxEntry} {key : InputKey} {outcome : Outcome}

theorem Logged.mono (h : Logged n.history entry) (hp : n.history <+: n'.history) :
    Logged n'.history entry := by
  obtain ⟨m, key, change, outputs, hm, he⟩ := h
  exact ⟨m, key, change, outputs, hp.subset hm, he⟩

/-- What the outbox holds was logged. -/
theorem logged_of_lookup (h : n.Inv cfg.handler (noView cfg)) {c : Nat} {m : String}
    {es : List OutboxEntry} (hl : n.handler.outbox.lookup c m = some es) (he : entry ∈ es) :
    Logged n.history entry := by
  rw [h.outbox] at hl
  obtain ⟨key, change, -, -, hm⟩ := h.admissible.lookup hl
  exact ⟨_, key, change, es, hm, he⟩

variable (cfg) in
/-- A node after a call with any end. -/
structure Advanced (n n' : Node σ σ Δ) : Prop where
  node : n'.Inv cfg.handler (noView cfg)
  grows : n.history <+: n'.history
  encoded : (∀ record ∈ n.history, ∃ bytes, Wal.encode cfg.json record = .ok bytes) →
    ∀ record ∈ n'.history, ∃ bytes, Wal.encode cfg.json record = .ok bytes

theorem advanced {c : Call σ Δ} (h : n.Inv cfg.handler (noView cfg))
    (he : n.exec cfg.handler (outcome.event c) = .ok n') : Advanced cfg n n' := by
  obtain ⟨n₁, he₁, hi, -⟩ := h.outcome c outcome
  cases he.symm.trans he₁
  rcases Node.history_outcome he with hh | ⟨record, bytes, -, hb, hh⟩
  · exact ⟨hi, hh ▸ List.prefix_rfl, fun h => hh ▸ h⟩
  · refine ⟨hi, hh ▸ List.prefix_append _ _, fun h r hr => ?_⟩
    rw [hh] at hr
    rcases List.mem_append.mp hr with hr | hr
    · exact h r hr
    · cases List.mem_singleton.mp hr
      exact ⟨bytes, hb⟩

/-- The tasks of a process whose node advanced. -/
theorem Accounted.advance (h : Accounted cfg P s) (ha : Advanced cfg s.node n') {tasks : List Task}
    (hp : ∀ key remaining, .publishing key remaining ∈ tasks → .publishing key remaining ∈ s.tasks ∨
      ∀ entry ∈ remaining, Logged n'.history entry)
    (hs : ∀ remaining, .sending remaining ∈ tasks → .sending remaining ∈ s.tasks ∨
      ∀ sent ∈ remaining, P sent) : Accounted cfg P { s with node := n', tasks } where
  node := ha.node
  encoded := ha.encoded h.encoded
  publishing key remaining hm := (hp key remaining hm).elim
    (fun hm entry he => (h.publishing key remaining hm entry he).mono ha.grows) id
  sending remaining hm := (hs remaining hm).elim (h.sending remaining) id
  pending entry he := (h.pending entry he).mono ha.grows
  published sent hm := (h.published sent hm).imp_left fun ⟨entry, he, hx⟩ =>
    ⟨entry, he.mono ha.grows, hx⟩

theorem Accounted.restart (h : Accounted cfg P s) (ha : Advanced cfg s.node n') :
    Accounted cfg P (restarted s n') where
  node := ha.node
  encoded := ha.encoded h.encoded
  publishing := by simp [restarted]
  sending := by simp [restarted]
  pending entry he := by
    obtain ⟨c, m, es, hl, hm⟩ := Outbox.mem_allPending.mp he
    exact logged_of_lookup ha.node hl hm
  published sent hm := (h.published sent hm).imp_left fun ⟨entry, he, hx⟩ =>
    ⟨entry, he.mono ha.grows, hx⟩

theorem Accounted.crash (h : Accounted cfg P s) (he : crash cfg s = some s') :
    Accounted cfg P s' := by
  obtain ⟨n', hn, rfl⟩ := Option.map_eq_some_iff.mp he
  exact h.restart (advanced h.node (exec_of_toOption hn))

/-- The outputs that `handle` returns are logged. -/
theorem logged_taskFor {write : Except String PUnit} {businessFn : BusinessFn σ Δ}
    {effect : Handler.Effect σ σ Δ} (h : n.Inv cfg.handler (noView cfg))
    (he : n.effect cfg.handler write (.handle key businessFn) = .ok effect) {key' : InputKey}
    {remaining : List OutboxEntry}
    (hm : taskFor key effect.instruction = .publishing key' remaining) (hr : entry ∈ remaining) :
    Logged (n.call cfg.handler write (.handle key businessFn)).history entry := by
  rcases Node.handle_cases he with ⟨-, hi, -⟩ | ⟨change, outputs, hi, hh⟩ | ⟨happ, hi, hh⟩
  · rw [hi] at hm
    cases hm
  · rw [hi] at hm
    cases hm
    rw [hh]
    exact ⟨_, key, change, _, List.mem_append_right _ List.mem_cons_self, hr⟩
  · rw [hi] at hm
    cases hm
    rw [hh]
    -- applied before: the outbox still holds all its outputs
    rw [Outbox.entriesForInput_eq] at hr
    cases hl : n.handler.outbox.lookup key.clientId (cfg.handler.msgId key) with
    | none => rw [hl] at hr; cases hr
    | some es => rw [hl] at hr; exact logged_of_lookup h hl hr

theorem inv_touchedNode (h : n.Inv cfg.handler (noView cfg)) (key : InputKey) (touched : σ) :
    (touchedNode n key touched).Inv cfg.handler (noView cfg) := by
  unfold touchedNode
  split
  · exact h.mutate fun _ => rfl
  · exact h

theorem history_touchedNode (n : Node σ σ Δ) (key : InputKey) (touched : σ) :
    (touchedNode n key touched).history = n.history := by
  unfold touchedNode
  split <;> rfl

theorem Accounted.deliver (h : Accounted cfg P s) {message : μ}
    (hdirect : ∀ touched sends, cfg.react s.node.handler.workerState message =
      .direct touched sends →
      ∀ sent ∈ sends, P sent)
    (he : deliver cfg s message outcome = some s') : Accounted cfg P s' := by
  unfold Publisher.deliver at he
  split at he
  · cases he
    exact h
  · cases he
    exact h
  · next touched sends hr =>
    cases he
    have ha : Advanced cfg s.node (s.node.mutate fun _ => touched) :=
      ⟨h.node.mutate fun _ => rfl, List.prefix_rfl, id⟩
    refine h.advance ha (fun key remaining hm => .inl ?_) fun remaining hm => ?_
    · simpa using hm
    · rcases List.mem_append.mp hm with hm | hm
      · exact .inl hm
      · cases List.mem_singleton.mp hm
        exact .inr (hdirect touched sends hr)
  · next key touched result hr =>
    obtain ⟨n', hn, he⟩ := Option.map_eq_some_iff.mp he
    have hn := exec_of_toOption hn
    have hinv := inv_touchedNode h.node key touched
    have hadv : Advanced cfg s.node n' := by
      have ha := advanced hinv hn
      have hh := history_touchedNode s.node key touched
      exact ⟨ha.node, hh ▸ ha.grows, fun hb => ha.encoded (hh.symm ▸ hb)⟩
    split at he
    · cases he
      exact h.restart hadv
    · next hlive =>
      cases he
      refine h.advance hadv (fun key' remaining hm => ?_) fun remaining hm => ?_
      · rcases List.mem_append.mp hm with hm | hm
        · exact .inl hm
        · right
          intro entry hentry
          cases heff : (touchedNode s.node key touched).effect cfg.handler outcome.write
              (.handle key fun _ => result) with
          | error e => rw [heff] at hm; cases hm
          | ok effect =>
            rw [heff] at hm
            have hlogged := logged_taskFor hinv heff (List.mem_singleton.mp hm).symm hentry
            cases outcome with
            | returns | appendFails => cases hn; exact hlogged
            | crashes steps => exact absurd rfl (hlive steps)
      · rcases List.mem_append.mp hm with hm | hm
        · exact .inl hm
        · cases heff : (touchedNode s.node key touched).effect cfg.handler outcome.write
              (.handle key fun _ => result) with
          | error e => rw [heff] at hm; cases hm
          | ok effect =>
            rw [heff, tasksOf, List.mem_singleton] at hm
            cases hi : effect.instruction <;> rw [hi] at hm <;> cases hm

/-- Something is published by a task, which keeps the rest or is dropped. -/
theorem Accounted.publish (h : Accounted cfg P s) {i : Nat} {task : Task} {sent : String × Bytes}
    (confirmed : Bool)
    (hsent : (∃ entry, Logged s.node.history entry ∧ sent = packet entry) ∨ P sent)
    (hp : ∀ key remaining, .publishing key remaining = task →
      ∀ entry ∈ remaining, Logged s.node.history entry)
    (hs : ∀ remaining, .sending remaining = task → ∀ sent ∈ remaining, P sent) :
    Accounted cfg P { s with
      tasks := if confirmed then s.tasks.set i task else s.tasks.eraseIdx i
      published := s.published ++ [sent] } := by
  have hmem : ∀ task', task' ∈ (if confirmed then s.tasks.set i task else s.tasks.eraseIdx i) →
      task' ∈ s.tasks ∨ task' = task := by
    intro task' hm
    split at hm
    · exact List.mem_or_eq_of_mem_set hm
    · exact .inl (List.mem_of_mem_eraseIdx hm)
  refine ⟨h.node, h.encoded, fun key remaining hm => ?_, fun remaining hm => ?_, h.pending,
    fun sent' hm => ?_⟩
  · exact (hmem _ hm).elim (h.publishing key remaining) (hp key remaining)
  · exact (hmem _ hm).elim (h.sending remaining) (hs remaining)
  · rcases List.mem_append.mp hm with hm | hm
    · exact h.published sent' hm
    · obtain rfl := List.mem_singleton.mp hm
      exact hsent

theorem Accounted.commit (h : Accounted cfg P s) {i : Nat}
    (he : commit cfg s i key outcome = some s') : Accounted cfg P s' := by
  obtain ⟨n', hn, he⟩ := Option.map_eq_some_iff.mp he
  have hadv := advanced h.node (exec_of_toOption hn)
  split at he
  · cases he
    exact h.restart hadv
  · cases he
    have hmem : ∀ task, task ∈ (match s.node.effect cfg.handler outcome.write (.commitDone key) with
        | .ok _ => s.tasks.set i (.acking key)
        | .error _ => s.tasks.eraseIdx i) → task ∈ s.tasks ∨ task = .acking key := by
      intro task hm
      split at hm
      · exact List.mem_or_eq_of_mem_set hm
      · exact .inl (List.mem_of_mem_eraseIdx hm)
    exact h.advance hadv (fun key' remaining hm => .inl ((hmem _ hm).resolve_right nofun))
      fun remaining hm => .inl ((hmem _ hm).resolve_right nofun)

/-- A step keeps account of what is published. -/
theorem Accounted.exec (h : Accounted cfg P s) {l : Label μ}
    (hdirect : ∀ message outcome touched sends, l = .deliver message outcome →
      cfg.react s.node.handler.workerState message = .direct touched sends → ∀ sent ∈ sends, P sent)
    (he : exec cfg onError s l = some s') : Accounted cfg P s' := by
  cases l with
  | republish confirmed =>
    dsimp only [Publisher.exec] at he
    split at he
    · cases he
    · next entry pending hpend =>
      have hentry : Logged s.node.history entry := h.pending entry (hpend ▸ List.mem_cons_self)
      have hnext :
          Accounted cfg P { s with pending, published := s.published ++ [packet entry] } := by
        refine ⟨h.node, h.encoded, h.publishing, h.sending, fun e hm => h.pending e ?_,
          fun sent hm => ?_⟩
        · rw [hpend]
          exact List.mem_cons_of_mem _ hm
        · rcases List.mem_append.mp hm with hm | hm
          · exact h.published sent hm
          · exact .inl ⟨entry, hentry, List.mem_singleton.mp hm⟩
      split at he
      · cases he
        exact hnext
      · exact hnext.crash he
  | deliver message outcome =>
    dsimp only [Publisher.exec] at he
    split at he
    · exact h.deliver (fun touched sends hr => hdirect message outcome touched sends rfl hr) he
    · cases he
  | publish i confirmed =>
    dsimp only [Publisher.exec] at he
    split at he
    · next key entry remaining ht =>
      cases he
      have hlogged := h.publishing key _ (List.mem_of_getElem? ht)
      refine h.publish confirmed (.inl ⟨entry, hlogged entry List.mem_cons_self, rfl⟩) ?_ nofun
      rintro _ _ ⟨⟩ e hm
      exact hlogged e (List.mem_cons_of_mem _ hm)
    · next sent remaining ht =>
      cases he
      have hsend := h.sending _ (List.mem_of_getElem? ht)
      refine h.publish confirmed (.inr (hsend sent List.mem_cons_self)) nofun ?_
      rintro _ ⟨⟩ sent' hm
      exact hsend sent' (List.mem_cons_of_mem _ hm)
    · cases he
  | commit i outcome =>
    dsimp only [Publisher.exec] at he
    split at he
    · exact h.commit he
    · cases he
  | ack i =>
    have herase : Accounted cfg P { s with tasks := s.tasks.eraseIdx i } :=
      ⟨h.node, h.encoded, fun key remaining hm =>
        h.publishing key remaining (List.mem_of_mem_eraseIdx hm),
        fun remaining hm => h.sending remaining (List.mem_of_mem_eraseIdx hm),
          h.pending, h.published⟩
    dsimp only [Publisher.exec] at he
    split at he
    · cases he
      exact herase
    · cases he
      exact herase
    · cases he
  | crash => exact h.crash he

theorem accounted_init : Accounted cfg P (init cfg) where
  node := Node.inv_init
  encoded := by simp [init, Node.init]
  publishing := by simp [init]
  sending := by simp [init]
  pending := by simp [init]
  published := by simp [init]

/-! ## Invariants along the log -/

variable {I : LogInvariant cfg.handler}

/-- A step keeps an invariant along the log when what the handlers touch and what they log fits
it. -/
theorem follows_exec (h : s.node.Follows I) {l : Label μ}
    (hdirect : ∀ message outcome touched sends, l = .deliver message outcome →
      cfg.react s.node.handler.workerState message = .direct touched sends →
      I.Holds s.node.history touched)
    (hhandle : ∀ message outcome key touched result, l = .deliver message outcome →
      cfg.react s.node.handler.workerState message = .handle key touched result →
      s.node.handler.inbox.classify key = .new → I.Holds s.node.history touched ∧
      ∀ change logical outputs, result = .ok (change, logical) →
        s.node.handler.sequencer.stamp cfg.toSequencerConfig key.clientId
          (cfg.handler.msgId key) logical =
          .ok outputs →
        I.Valid s.node.history (.inputApplied (cfg.handler.msgId key) key change outputs))
    (hdone : ∀ key, I.Valid s.node.history (.inputDone (cfg.handler.msgId key) key))
    (he : exec cfg onError s l = some s') : s'.node.Follows I := by
  have hcrash : ∀ s₁ : State σ Δ, crash cfg s₁ = some s' → s₁.node = s.node →
      s'.node.Follows I := by
    intro s₁ he hs
    obtain ⟨n', hn, rfl⟩ := Option.map_eq_some_iff.mp he
    rw [hs] at hn
    exact Node.Follows.outcome h Node.appended_snapshotNow (exec_of_toOption hn)
  cases l with
  | republish confirmed =>
    dsimp only [Publisher.exec] at he
    split at he
    · cases he
    · split at he
      · cases he
        exact h
      · exact hcrash _ he rfl
  | deliver message outcome =>
    dsimp only [Publisher.exec] at he
    split at he
    · unfold Publisher.deliver at he
      split at he
      · cases he
        exact h
      · cases he
        exact h
      · next touched sends hr =>
        cases he
        have hholds := hdirect message outcome touched sends rfl hr
        exact Node.Follows.mutate (f := fun _ => touched) h hholds
      · next key touched result hr =>
        obtain ⟨n', hn, he⟩ := Option.map_eq_some_iff.mp he
        have hnode : s'.node = n' := by
          split at he <;> cases he <;> rfl
        rw [hnode]
        exact follows_handle h (fun hnew => hhandle message outcome key touched result rfl hr hnew)
          (exec_of_toOption hn)
    · cases he
  | publish i confirmed =>
    dsimp only [Publisher.exec] at he
    split at he <;> cases he <;> exact h
  | commit i outcome =>
    dsimp only [Publisher.exec] at he
    split at he
    · next key ht =>
      obtain ⟨n', hn, he⟩ := Option.map_eq_some_iff.mp he
      have hnode : s'.node = n' := by
        split at he <;> cases he <;> rfl
      rw [hnode]
      refine Node.Follows.outcome h ?_ (exec_of_toOption hn)
      rintro record rfl
      exact hdone key
    · cases he
  | ack i =>
    dsimp only [Publisher.exec] at he
    split at he <;> cases he <;> exact h
  | crash => exact hcrash _ he rfl

/-! ## Steps that succeed -/

/-- A new input whose record can be written: its record is applied and its outputs are to be
published. -/
theorem exec_deliver_new {message : μ} {change : Δ} {logical : List LogicalOutput}
    {outputs : List OutboxEntry} {bytes : Bytes} (hp : s.pending = [])
    (hr : cfg.react s.node.handler.workerState message =
      .handle key s.node.handler.workerState (.ok (change, logical)))
    (hnew : s.node.handler.inbox.classify key = .new)
    (hs : s.node.handler.sequencer.stamp cfg.toSequencerConfig key.clientId
      (cfg.handler.msgId key) logical =
      .ok outputs)
    (hb : Wal.encode cfg.json (.inputApplied (cfg.handler.msgId key) key change outputs) = .ok
      bytes) :
    ∃ s', exec cfg onError s (.deliver message .returns) = some s' ∧ s'.pending = [] ∧
      s'.published = s.published ∧ s'.tasks = s.tasks ++ [.publishing key outputs] ∧
      s'.node.handler.toHandlerState = s.node.handler.toHandlerState.applyOnce cfg.applyChange
        (.inputApplied (cfg.handler.msgId key) key change outputs) := by
  have htouched : touchedNode s.node key s.node.handler.workerState = s.node := by
    unfold touchedNode
    split <;> rfl
  have hout :
      (s.node.handler.outbox.add key.clientId (cfg.handler.msgId key) outputs).entriesForInput
      key.clientId (cfg.handler.msgId key) = outputs := by
    rw [Outbox.entriesForInput_eq, Outbox.lookup_add, if_pos ⟨rfl, rfl⟩, Option.getD_some]
  have heff : s.node.effect cfg.handler (.ok ⟨⟩) (.handle key fun _ =>
      .ok (change, logical)) = .ok {
      ops := [.append (.inputApplied (cfg.handler.msgId key) key change outputs) bytes]
      handler := {
        toHandlerState := s.node.handler.toHandlerState.applyOnce cfg.applyChange
          (.inputApplied (cfg.handler.msgId key) key change outputs)
        appliedSinceSnapshot := s.node.handler.appliedSinceSnapshot + 1 }
      instruction := .publishThenCommit outputs (cfg.handler.msgId key) key } := by
    have happend : Handler.walAppend cfg.handler (.ok ⟨⟩)
        (.inputApplied (cfg.handler.msgId key) key change outputs) = .ok bytes := by
      rw [Handler.walAppend]
      change (Wal.encode cfg.json _ >>= _) = _
      rw [hb]
      rfl
    change s.node.handler.sequencer.stamp cfg.handler.toSequencerConfig _ _ _ = _ at hs
    rw [Node.effect, Handler.handle, hnew]
    dsimp only
    rw [Except.ok_bind, hs, Except.ok_bind]
    dsimp only
    rw [happend, Except.ok_bind, hout]
    rfl
  refine ⟨{ s with
    node := s.node.call cfg.handler (.ok ⟨⟩) (.handle key fun _ => .ok (change, logical))
    tasks := s.tasks ++ tasksOf key
      (s.node.effect cfg.handler (.ok ⟨⟩) (.handle key fun _ => .ok (change, logical))) },
    ?_, hp, rfl, ?_, ?_⟩
  · rw [exec, if_pos hp, Publisher.deliver, hr]
    dsimp only
    rw [htouched]
    rfl
  · rw [heff]
    rfl
  · dsimp only
    rw [Node.call, heff]

/-- The last task publishes its only packet. -/
theorem exec_publish_last {tasks : List Task}
    (ht : s.tasks = tasks ++ [.publishing key [entry]]) :
    exec cfg onError s (.publish tasks.length true) = some { s with
      tasks := s.tasks.set tasks.length (.publishing key [])
      published := s.published ++ [packet entry] } := by
  have hlast : s.tasks[tasks.length]? = some (.publishing key [entry]) := by
    rw [ht, List.getElem?_append_right le_rfl, Nat.sub_self]
    rfl
  rw [exec, hlast]
  rfl

end Publisher

end MoneyLaundering
