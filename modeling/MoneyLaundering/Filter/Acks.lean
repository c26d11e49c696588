import MoneyLaundering.Filter.System

/-!
# Acks of the inputs of a filter

Three handlers look at the closed clients, the inbox and the led clients before they call `handle`,
and ack on their own what they take for a duplicate. Here anything is delivered any number of times,
with failing publications and appends and with crashes. An input that was recorded is acked only
once its end is recorded and its outputs are published. One that was not is acked for one of the
reasons of the handlers (`FilterSystem.closing_input_acked_after_published`), as long as the inbox
is not misled about the packets of a sender: it takes a packet `0` that comes after another one for
a duplicate, and the upstream EOF may be that packet (`FilterSystem.upstream_eof_acked_unseen`).
-/

namespace MoneyLaundering

open Bytes InternalProtocol FilterConfig Transition

namespace FilterConfig

/-- The input that one of the three handlers takes from a message: an upstream EOF, a flush order or
a flush ack. A message that does not parse has none. -/
def closingInput (cfg : FilterConfig) : Delivery → Option InputKey
  | .input body =>
    match body.head?.map UInt8.toNat with
    | some 1 =>
      match unpackAddressedPacket body with
      | .error _ => none
      | .ok m =>
        match ControlMessage.deserialize m.payload with
        | .error _ => none
        | .ok _ => some ⟨m.clientId, .data, m.senderId, m.seq⟩
    | _ => none
  | .control body =>
    match unpackPacket body with
    | .error _ => none
    | .ok (msgType, clientId, payload) =>
      match ControlMessage.deserialize payload with
      | .error _ => none
      | .ok ctrl =>
        match MessageType.ofNat? msgType with
        | some .flushOrder => some ⟨clientId, .ctrlFlushOrder, ctrl.senderId, clientId⟩
        | _ => none
  | .response body =>
    match unpackPacket body with
    | .error _ => none
    | .ok (msgType, clientId, payload) =>
      match MessageType.ofNat? msgType with
      | some .flushAck =>
        match cfg.flushAckJson.loads payload with
        | .error _ => none
        | .ok (senderId, _) => some ⟨clientId, .ctrlFlushAck, senderId, clientId⟩
      | _ => none

/-- The input of a packet on the data queue. -/
def Delivery.packetKey : Delivery → Option InputKey
  | .input body =>
    match unpackAddressedPacket body with
    | .error _ => none
    | .ok m =>
      if m.msgType = MessageType.abort.toNat then some ⟨m.clientId, .abort, m.senderId, m.seq⟩
      else some ⟨m.clientId, .data, m.senderId, m.seq⟩
  | _ => none

section early
variable {cfg : FilterConfig} {h : Handler FilterState} {sumSeq : String → Nat} {d : Delivery}
  {key : InputKey}

/-- A handler that knows its input calls `handle` with it, or returns early for one of three
reasons. -/
theorem call_closingInput (hk : cfg.closingInput d = some key) :
    (∃ fn, (cfg.onDelivery h sumSeq d).call = some (.handle key fn)) ∨
    (cfg.onDelivery h sumSeq d).call = none ∧
      (ignored h key = true ∨
        key.kind = .ctrlFlushOrder ∧ h.workerState.Leads key.clientId ∨
        key.kind = .ctrlFlushAck ∧ h.inbox.classify key ≠ .applied ∧
          ¬ h.workerState.Leads key.clientId) := by
  cases d with
  | input body =>
    simp only [closingInput] at hk
    split at hk
    · next hfirst =>
      simp only [onDelivery, onInputMessage, hfirst]
      split at hk
      · cases hk
      · next m hm =>
        split at hk
        · cases hk
        · next ctrl hctrl =>
          cases hk
          simp only [handleUpstreamEof, hm, hctrl]
          split
          · next hi => exact .inr ⟨rfl, .inl hi⟩
          · exact .inl ⟨_, rfl⟩
    · cases hk
  | control body =>
    simp only [closingInput] at hk
    split at hk
    · cases hk
    · next msgType clientId payload hp =>
      split at hk
      · cases hk
      · next ctrl hctrl =>
        split at hk
        · next ht =>
          cases hk
          simp only [onDelivery, handleControl, hp, hctrl, ht, handleFlushOrder]
          split
          · next hi => exact .inr ⟨rfl, .inl hi⟩
          · split
            · next hl =>
              exact .inr ⟨rfl, .inr (.inl ⟨trivial, Option.isSome_iff_ne_none.mp hl⟩)⟩
            · exact .inl ⟨_, rfl⟩
        · cases hk
  | response body =>
    simp only [closingInput] at hk
    split at hk
    · cases hk
    · next msgType clientId payload hp =>
      split at hk
      · next ht =>
        split at hk
        · cases hk
        · next senderId counts hload =>
          cases hk
          simp only [onDelivery, handleResponse, hp, ht, handleFlushAck, hload]
          split
          · next hi => exact .inr ⟨rfl, .inl hi⟩
          · split
            · next hl =>
              refine .inr ⟨rfl, .inr (.inr ⟨trivial, hl.1, ?_⟩)⟩
              simpa [FilterState.Leads] using hl.2
            · exact .inl ⟨_, rfl⟩
      · cases hk

/-- The data thread handles the input of its packet. -/
theorem packetKey_of_call {fn : BusinessFn FilterState FilterChange}
    (hc : (cfg.onDelivery h sumSeq d).call = some (.handle key fn))
    (hkind : key.kind = .data ∨ key.kind = .abort) : d.packetKey = some key := by
  have hprocess : ∀ body, (cfg.process sumSeq body).call = some (.handle key fn) →
      (Delivery.input body).packetKey = some key := by
    intro body hc
    unfold process at hc
    split at hc
    · cases hc
    · next m hm =>
      simp only [Delivery.packetKey, hm]
      split at hc
      · next ht =>
        cases hc
        rw [if_pos ht]
      · next ht =>
        cases hc
        rw [if_neg ht]
  cases d with
  | input body =>
    simp only [onDelivery, onInputMessage] at hc
    split at hc
    · exact hprocess body hc
    · next hfirst =>
      unfold handleUpstreamEof at hc
      split at hc
      · cases hc
      · next m hm =>
        have ht : m.msgType ≠ MessageType.abort.toNat := by
          rw [msgType_of_unpackAddressedPacket hm, first_of_head? hfirst]
          decide
        split at hc
        · cases hc
        · split at hc
          · cases hc
          · cases hc
            simp only [Delivery.packetKey, hm, if_neg ht]
    · exact hprocess body hc
    · cases hc
  | control body =>
    -- the inputs of the other threads are of other kinds
    simp only [onDelivery, handleControl] at hc
    split at hc
    · cases hc
    · split at hc
      · cases hc
      · split at hc
        · unfold handleFlushOrder at hc
          split at hc
          · cases hc
          · split at hc <;> cases hc
            simp at hkind
        · cases hc
          simp at hkind
        · cases hc
        · cases hc
  | response body =>
    simp only [onDelivery, handleResponse] at hc
    split at hc
    · cases hc
    · split at hc
      · cases hc
      · unfold handleFlushAck at hc
        split at hc
        · cases hc
        · split at hc
          · cases hc
          · split at hc <;> cases hc
            simp at hkind
      · split at hc <;> cases hc

/-- A control message carries its client as seq. -/
theorem seq_of_call {fn : BusinessFn FilterState FilterChange}
    (hc : (cfg.onDelivery h sumSeq d).call = some (.handle key fn)) :
    key.kind = .data ∨ key.kind = .abort ∨ key.seq = key.clientId := by
  have hprocess : ∀ body, (cfg.process sumSeq body).call = some (.handle key fn) →
      key.kind = .data ∨ key.kind = .abort := by
    intro body hc
    unfold process at hc
    split at hc
    · cases hc
    · split at hc <;> cases hc
      · exact .inr rfl
      · exact .inl rfl
  cases d with
  | input body =>
    simp only [onDelivery, onInputMessage] at hc
    split at hc
    · exact (hprocess body hc).imp_right .inl
    · unfold handleUpstreamEof at hc
      split at hc
      · cases hc
      · split at hc
        · cases hc
        · split at hc <;> cases hc
          exact .inl rfl
    · exact (hprocess body hc).imp_right .inl
    · cases hc
  | control body =>
    simp only [onDelivery, handleControl] at hc
    split at hc
    · cases hc
    · split at hc
      · cases hc
      · split at hc
        · unfold handleFlushOrder at hc
          split at hc
          · cases hc
          · split at hc <;> cases hc
            exact .inr (.inr rfl)
        · cases hc
          exact .inr (.inr rfl)
        · cases hc
        · cases hc
  | response body =>
    simp only [onDelivery, handleResponse] at hc
    split at hc
    · cases hc
    · split at hc
      · cases hc
      · unfold handleFlushAck at hc
        split at hc
        · cases hc
        · split at hc
          · cases hc
          · split at hc <;> cases hc
            exact .inr (.inr rfl)
      · split at hc <;> cases hc

end early

section recorded
variable {cfg : FilterConfig} {s : FilterState} {d : Delivery} {key : InputKey}
  {change : FilterChange} {entries : List OutboxEntry}

theorem Recorded.seq (hr : Recorded cfg s d key change entries) :
    key.kind = .data ∨ key.kind = .abort ∨ key.seq = key.clientId := by
  cases hr with
  | skipped | routed | announced | drainedAlone => exact .inl rfl
  | aborted => exact .inr (.inl rfl)
  | answered | drainedOrder | acked | drainedLast => exact .inr (.inr rfl)

/-- A recorded order closes a client that the replica does not lead. -/
theorem Recorded.flushOrder (hr : Recorded cfg s d key change entries)
    (hk : key.kind = .ctrlFlushOrder) :
    (s.applyChange cfg.state change).isClosed key.clientId = true ∧
      ¬ (s.applyChange cfg.state change).Leads key.clientId := by
  cases hr with
  | drainedOrder hp hctrl hopen hleader hread hdumps hpacket hack =>
    refine ⟨?_, not_not.mpr hleader⟩
    rw [FilterState.isClosed, decide_eq_true_eq, FilterState.mem_closedByClient_applyChange]
    exact .inr (by simp [FilterChange.ops])
  | _ => cases hk

/-- A closed client stays closed, and the replica does not begin to lead it. -/
theorem Recorded.closed (hr : Recorded cfg s d key change entries) {clientId : Nat}
    (hclosed : s.isClosed clientId = true) (hleads : ¬ s.Leads clientId) :
    (s.applyChange cfg.state change).isClosed clientId = true ∧
      ¬ (s.applyChange cfg.state change).Leads clientId := by
  refine ⟨?_, fun hl => ?_⟩
  · rw [FilterState.isClosed, decide_eq_true_eq, FilterState.mem_closedByClient_applyChange]
    exact .inl (by simpa [FilterState.isClosed] using hclosed)
  · rcases hr.leads hl with hl | ⟨body, m, rfl, hm, ht, rfl⟩
    · exact hleads hl
    · -- an EOF is recorded for an open client only
      generalize hd : Delivery.input body = d at hr
      cases hr with
      | announced hm' ht' hctrl hopen =>
        cases hd
        cases hm.symm.trans hm'
        rw [hopen] at hclosed
        cases hclosed
      | drainedAlone hm' ht' hctrl hopen =>
        cases hd
        cases hm.symm.trans hm'
        rw [hopen] at hclosed
        cases hclosed
      | skipped hm' ht' | routed hm' ht' | aborted hm' ht' =>
        cases hd
        cases hm.symm.trans hm'
        rw [ht'] at ht
        cases ht
      | _ => cases hd

end recorded

end FilterConfig

def Outcome.survives : Outcome → Bool
  | .crashes _ => false
  | _ => true

namespace FilterWorker

variable {cfg : FilterConfig} {w w' : FilterWorker} {act : FilterAct} {outcome : Outcome}
  {instruction : WorkerLoopInstruction}

/-- The call behind an instruction. -/
theorem call_of_instruction (hn : outcome.survives = true)
    (hi : w.instruction cfg act outcome = some instruction)
    (he : w.exec cfg act outcome = some w') :
    ∃ c effect, (w.sectionOf cfg act).call = some c ∧
      (w.prepared cfg act).effect cfg.handler outcome.write c = .ok effect ∧
      effect.instruction = instruction ∧
      w'.node = (w.prepared cfg act).call cfg.handler outcome.write c := by
  unfold FilterWorker.instruction at hi
  split at hi
  · cases hi
  · next c hc =>
    split at hi
    · next effect heff =>
      refine ⟨c, effect, hc, heff, by simpa using hi, ?_⟩
      unfold exec runSection at he
      rw [hc] at he
      cases outcome with
      | returns => cases he; rfl
      | appendFails => cases he; rfl
      | crashes steps => cases hn
    · cases hi

/-- A commit is not followed by publications. -/
theorem ack_of_commitDone {n : Node FilterState FilterState FilterChange}
    {write : Except String PUnit} {key : InputKey}
    {effect : Handler.Effect FilterState FilterState FilterChange}
    (he : n.effect cfg.handler write (.commitDone key) = .ok effect) :
    effect.instruction = .ack := by
  obtain ⟨bytes, -, hd⟩ := Except.ok_of_bind he
  cases hd
  simp only [Handler.maybeSnapshot]
  split <;> rfl

/-- What a section makes the thread publish are the outputs of the record of its input. -/
theorem Durable.task_recorded (hi : w.Durable cfg) (hn : outcome.survives = true)
    {outputs : List OutboxEntry} {m : String} {key : InputKey}
    (hinstr : w.instruction cfg act outcome = some (.publishThenCommit outputs m key))
    (he : w.exec cfg act outcome = some w') :
    ∃ m change, .inputApplied m key change outputs ∈ w'.node.history := by
  obtain ⟨c, effect, hc, heff, hins, hnode⟩ := call_of_instruction hn hinstr he
  cases c with
  | handle key' fn =>
    rw [hnode]
    rcases Node.handle_cases heff with ⟨-, h', -⟩ | ⟨change, outputs', h', hh⟩ | ⟨happ, h', hh⟩
    · rw [hins] at h'
      cases h'
    · rw [hins] at h'
      cases h'
      rw [hh]
      exact ⟨_, change, List.mem_append_right _ List.mem_cons_self⟩
    · rw [hins] at h'
      cases h'
      have hp := hi.prepared act
      rw [hp.inbox, Inbox.classify_eq_applied_iff] at happ
      obtain ⟨change, outputs, hm, hl⟩ := hp.admissible.inFlight happ
      rw [hh, Outbox.entriesForInput_eq, hp.outbox, hl, Option.getD_some]
      exact ⟨_, change, hm⟩
  | commitDone key' =>
    rw [ack_of_commitDone heff] at hins
    cases hins
  | snapshotNow =>
    cases heff
    cases hins

end FilterWorker

namespace FilterSystem

variable (cfg : FilterClusterConfig)

/-- The input that a step acks, with its replica: one of the three handlers returns early, or
`handle` reports a finished input, or the input is committed. -/
def acks (sys : FilterSystem) : SystemAct → Option (Nat × InputKey)
  | .deliver i d sumSeq outcome =>
    if outcome.survives then
      match ((sys.cluster.replicas i).sectionOf (cfg.at i) (.deliver d sumSeq)).call with
      | none => ((cfg.at i).closingInput d).map (i, ·)
      | some (.handle key _) =>
        if (sys.cluster.replicas i).instruction (cfg.at i) (.deliver d sumSeq) outcome =
          some .ack then
          some (i, key)
        else none
      | some _ => none
    else none
  | .commit i thread outcome =>
    match sys.tasks i thread with
    | some ⟨key, []⟩ =>
      if outcome.survives ∧
          (sys.cluster.replicas i).instruction (cfg.at i) (.commitDone key) outcome = some .ack then
        some (i, key)
      else none
    | _ => none
  | _ => none

/-- Packet `0` of a sender, if there is one, is finished before the sender's others, and no finished
packet skips more of them than the cap. -/
def PacketsInOrder (sys : FilterSystem) : SystemAct → Prop
  | .deliver i d _ _ =>
    ∀ key ∈ d.packetKey, Runner.ZeroFirst (sys.cluster.replicas i).node.history key
  | .commit i thread _ => ∀ task ∈ sys.tasks i thread,
    task.key.kind = .data ∨ task.key.kind = .abort →
      Runner.WithinCap (sys.cluster.replicas i).node.history task.key
  | _ => True

instance (sys : FilterSystem) : (act : SystemAct) → Decidable (sys.PacketsInOrder act)
  | .deliver i d _ _ => inferInstanceAs (Decidable (∀ key ∈ d.packetKey,
      Runner.ZeroFirst (sys.cluster.replicas i).node.history key))
  | .commit i thread _ => inferInstanceAs (Decidable (∀ task ∈ sys.tasks i thread,
      task.key.kind = .data ∨ task.key.kind = .abort →
        Runner.WithinCap (sys.cluster.replicas i).node.history task.key))
  | .publish .. | .republish _ | .crash _ => .isTrue trivial

/-- The runs in which anything may be delivered, aborts included, and the runs among them in which
the packets of a sender are in order. -/
def AnyRun (sys : FilterSystem) : Prop := Reachable (exec cfg) (fun _ _ => True) (init cfg) sys

def OrderedRun (sys : FilterSystem) : Prop := Reachable (exec cfg) PacketsInOrder (init cfg) sys

/-- The input is recorded at a replica. -/
def Applied (sys : FilterSystem) (i : Nat) (key : InputKey) : Prop :=
  ∃ m change outputs, .inputApplied m key change outputs ∈ (sys.cluster.replicas i).node.history

/-- The input is recorded at a replica, and all but the last of its outputs were published. -/
def SentBut (sys : FilterSystem) (i : Nat) (key : InputKey) (remaining : List OutboxEntry) : Prop :=
  ∃ m change sent,
    .inputApplied m key change (sent ++ remaining) ∈ (sys.cluster.replicas i).node.history ∧
    ∀ e ∈ sent, ⟨i, key.clientId, e⟩ ∈ sys.published

/-- The input is recorded and its end is, and every output it was stamped with was published. -/
def Finished (sys : FilterSystem) (i : Nat) (key : InputKey) : Prop :=
  (∃ m, .inputDone m key ∈ (sys.cluster.replicas i).node.history) ∧
  ∃ m change outputs,
    .inputApplied m key change outputs ∈ (sys.cluster.replicas i).node.history ∧
    ∀ e ∈ outputs, ⟨i, key.clientId, e⟩ ∈ sys.published

/-- Why a replica acks an input that it never recorded: the client is closed, the order is its own,
or the ack is for another leader. -/
def Skips (sys : FilterSystem) (i : Nat) (key : InputKey) : Prop :=
  (sys.cluster.replicas i).state.isClosed key.clientId = true ∨
  key.kind = .ctrlFlushOrder ∧ (sys.cluster.replicas i).state.Leads key.clientId ∨
  key.kind = .ctrlFlushAck ∧ ¬ (sys.cluster.replicas i).state.Leads key.clientId

/-! ## The invariant -/

/-- What the histories, the publications and the tasks say about each other. -/
structure Acked (sys : FilterSystem) : Prop where
  durable : ∀ i, (sys.cluster.replicas i).Durable (cfg.at i)
  tasks : ∀ i thread task, sys.tasks i thread = some task → sys.SentBut i task.key task.remaining
  done : ∀ i m key, .inputDone m key ∈ (sys.cluster.replicas i).node.history → sys.SentBut i key []
  seqs : ∀ i key, sys.Applied i key → key.kind = .data ∨ key.kind = .abort ∨ key.seq = key.clientId
  orders : ∀ i key, sys.Applied i key → key.kind = .ctrlFlushOrder →
    (sys.cluster.replicas i).state.isClosed key.clientId = true ∧
      ¬ (sys.cluster.replicas i).state.Leads key.clientId

/-- No finished packet of a sender skipped more than the cap. -/
def JumpsKept (sys : FilterSystem) : Prop :=
  ∀ i key, key.kind = .data ∨ key.kind = .abort →
    JumpsBounded 0 (doneSeqs (sys.cluster.replicas i).node.history key)

/-- A section of one replica: nothing else moves. -/
structure Sectioned (sys sys' : FilterSystem) (i : Nat) (act : FilterAct) (outcome : Outcome) :
    Prop where
  exec : (sys.cluster.replicas i).exec (cfg.at i) act outcome = some (sys'.cluster.replicas i)
  others : ∀ j ≠ i, sys'.cluster.replicas j = sys.cluster.replicas j
  published : sys'.published = sys.published

variable {cfg} {sys sys' : FilterSystem} {i : Nat} {key : InputKey} {act : FilterAct}
  {outcome : Outcome} {remaining : List OutboxEntry}

theorem SentBut.applied (h : sys.SentBut i key remaining) : sys.Applied i key := by
  obtain ⟨m, change, sent, hm, -⟩ := h
  exact ⟨m, change, _, hm⟩

theorem SentBut.mono (h : sys.SentBut i key remaining)
    (hh : ∀ record ∈ (sys.cluster.replicas i).node.history,
      record ∈ (sys'.cluster.replicas i).node.history)
    (hp : ∀ p ∈ sys.published, p ∈ sys'.published) : sys'.SentBut i key remaining := by
  obtain ⟨m, change, sent, hm, hs⟩ := h
  exact ⟨m, change, sent, hh _ hm, fun e he => hp _ (hs e he)⟩

theorem acked_init : Acked cfg (init cfg) where
  durable _ := FilterWorker.durable_init
  tasks _ _ _ h := by cases h
  done _ _ _ h := by cases h
  seqs _ _ h := by obtain ⟨m, change, outputs, hm⟩ := h; cases hm
  orders _ _ h := by obtain ⟨m, change, outputs, hm⟩ := h; cases hm

/-! ## Sections -/

/-- What a section adds to a history, and what it does to closed and led clients. -/
theorem Acked.section_cases (h : Acked cfg sys) (hs : Sectioned cfg sys sys' i act outcome) :
    (sys'.cluster.replicas i).Durable (cfg.at i) ∧
    (((sys'.cluster.replicas i).node.history = (sys.cluster.replicas i).node.history ∨
        ∃ key, act = .commitDone key ∧ (sys'.cluster.replicas i).node.history =
          (sys.cluster.replicas i).node.history ++
            [.inputDone ((cfg.at i).handler.msgId key) key]) ∧
      (sys'.cluster.replicas i).state.durable = (sys.cluster.replicas i).state.durable ∨
    ∃ d key change entries, (sys'.cluster.replicas i).node.history =
        (sys.cluster.replicas i).node.history ++
          [.inputApplied ((cfg.at i).handler.msgId key) key change entries] ∧
      (sys'.cluster.replicas i).state.durable =
        ((sys.cluster.replicas i).state.applyChange (cfg.at i).state change).durable ∧
      Recorded (cfg.at i) (sys.cluster.replicas i).state d key change entries) := by
  obtain ⟨hd, hc⟩ := (h.durable i).exec_cases hs.exec
  refine ⟨hd, ?_⟩
  rcases hc with ⟨hh, -, hst⟩ | ⟨d, sumSeq, key, change, entries, -, hh, -, hst, -, hr⟩
  · exact .inl ⟨hh, hst⟩
  · exact .inr ⟨d, key, change, entries, hh, hst, hr⟩

theorem Acked.history_mono (h : Acked cfg sys) (hs : Sectioned cfg sys sys' i act outcome) {j : Nat}
    {record : WalRecord FilterChange} (hm : record ∈ (sys.cluster.replicas j).node.history) :
    record ∈ (sys'.cluster.replicas j).node.history := by
  by_cases hj : j = i
  · subst hj
    obtain ⟨-, ⟨hh | ⟨key, -, hh⟩, -⟩ | ⟨d, key, change, entries, hh, -⟩⟩ := h.section_cases hs
    · exact hh ▸ hm
    · exact hh ▸ List.mem_append_left _ hm
    · exact hh ▸ List.mem_append_left _ hm
  · exact hs.others j hj ▸ hm

theorem Acked.sentBut_section (h : Acked cfg sys)
    (hs : Sectioned cfg sys sys' i act outcome) {j : Nat}
    (hb : sys.SentBut j key remaining) : sys'.SentBut j key remaining :=
  hb.mono (fun _ hm => h.history_mono hs hm) fun _ hp => hs.published.symm ▸ hp

/-- An input recorded after a section was recorded before, or by the section. -/
theorem Acked.applied_section (h : Acked cfg sys)
    (hs : Sectioned cfg sys sys' i act outcome) {j : Nat}
    (ha : sys'.Applied j key) : sys.Applied j key ∨ j = i ∧ ∃ d change entries,
      Recorded (cfg.at i) (sys.cluster.replicas i).state d key change entries ∧
      (sys'.cluster.replicas i).state.durable =
        ((sys.cluster.replicas i).state.applyChange (cfg.at i).state change).durable := by
  obtain ⟨m, change, outputs, hm⟩ := ha
  by_cases hj : j = i
  · subst hj
    obtain ⟨-, ⟨hh | ⟨key, -, hh⟩, -⟩ | ⟨d, key', change', entries, hh, hst, hr⟩⟩ :=
      h.section_cases hs
    · exact .inl ⟨m, change, outputs, hh ▸ hm⟩
    · rw [hh] at hm
      rcases List.mem_append.mp hm with hm | hm
      · exact .inl ⟨m, change, outputs, hm⟩
      · cases List.mem_singleton.mp hm
    · rw [hh] at hm
      rcases List.mem_append.mp hm with hm | hm
      · exact .inl ⟨m, change, outputs, hm⟩
      · cases List.mem_singleton.mp hm
        exact .inr ⟨rfl, d, change, outputs, hr, hst⟩
  · exact .inl ⟨m, change, outputs, hs.others j hj ▸ hm⟩

/-- A section closes no client again and takes no lead of a closed one. -/
theorem Acked.closed_section (h : Acked cfg sys) (hs : Sectioned cfg sys sys' i act outcome)
    {j clientId : Nat} (hclosed : (sys.cluster.replicas j).state.isClosed clientId = true)
    (hleads : ¬ (sys.cluster.replicas j).state.Leads clientId) :
    (sys'.cluster.replicas j).state.isClosed clientId = true ∧
      ¬ (sys'.cluster.replicas j).state.Leads clientId := by
  by_cases hj : j = i
  · subst hj
    obtain ⟨-, ⟨-, hst⟩ | ⟨d, key, change, entries, -, hst, hr⟩⟩ := h.section_cases hs
    · rw [FilterState.isClosed_congr hst, FilterState.leads_congr hst]
      exact ⟨hclosed, hleads⟩
    · rw [FilterState.isClosed_congr hst, FilterState.leads_congr hst]
      exact hr.closed hclosed hleads
  · rw [hs.others j hj]
    exact ⟨hclosed, hleads⟩

/-- A section that starts the given tasks keeps the invariant, if the input that it finishes was
published. -/
theorem Acked.section (h : Acked cfg sys) (hs : Sectioned cfg sys sys' i act outcome)
    (hcommit : ∀ key, act = .commitDone key → sys.SentBut i key [])
    (htasks : ∀ j thread task, sys'.tasks j thread = some task →
      sys'.SentBut j task.key task.remaining) : Acked cfg sys' where
  durable j := by
    by_cases hj : j = i
    · exact hj ▸ (h.section_cases hs).1
    · exact hs.others j hj ▸ h.durable j
  tasks := htasks
  done j m key hm := by
    by_cases hj : j = i
    · subst hj
      obtain ⟨-, ⟨hh | ⟨key', hact, hh⟩, -⟩ | ⟨d, key', change, entries, hh, -⟩⟩ :=
        h.section_cases hs
      · exact h.sentBut_section hs (h.done j m key (hh ▸ hm))
      · rw [hh] at hm
        rcases List.mem_append.mp hm with hm | hm
        · exact h.sentBut_section hs (h.done j m key hm)
        · cases List.mem_singleton.mp hm
          exact h.sentBut_section hs (hcommit key hact)
      · rw [hh] at hm
        rcases List.mem_append.mp hm with hm | hm
        · exact h.sentBut_section hs (h.done j m key hm)
        · cases List.mem_singleton.mp hm
    · exact h.sentBut_section hs (h.done j m key (hs.others j hj ▸ hm))
  seqs j key ha := by
    rcases h.applied_section hs ha with ha | ⟨rfl, d, change, entries, hr, -⟩
    · exact h.seqs j key ha
    · exact hr.seq
  orders j key ha hk := by
    rcases h.applied_section hs ha with ha | ⟨rfl, d, change, entries, hr, hst⟩
    · exact h.closed_section hs (h.orders j key ha hk).1 (h.orders j key ha hk).2
    · rw [FilterState.isClosed_congr hst, FilterState.leads_congr hst]
      exact hr.flushOrder hk

theorem JumpsKept.section (hj : sys.JumpsKept) (h : Acked cfg sys)
    (hs : Sectioned cfg sys sys' i act outcome)
    (hcap : ∀ key, act = .commitDone key → key.kind = .data ∨ key.kind = .abort →
      Runner.WithinCap (sys.cluster.replicas i).node.history key) : sys'.JumpsKept := by
  intro j key hkind
  by_cases hi : j = i
  · subst hi
    obtain ⟨-, ⟨hh | ⟨key', hact, hh⟩, -⟩ | ⟨d, key', change, entries, hh, -⟩⟩ := h.section_cases hs
    · rw [hh]
      exact hj j key hkind
    · rw [hh]
      refine Runner.jumpsBounded_append_done (hj j key hkind) fun hk => ?_
      have hchannel := hk.2
      simp only [InputKey.channel, Prod.mk.injEq] at hchannel
      have hkinds : key'.kind = key.kind := MsgKind.toNat_injective hchannel.1
      exact hcap key' hact (hkinds ▸ hkind)
    · rw [hh, doneSeqs_append]
      simpa [doneSeqs] using hj j key hkind
  · rw [hs.others j hi]
    exact hj j key hkind

/-! ## Steps -/

theorem sectioned_locked (he : sys.locked cfg i act outcome = some sys') :
    Sectioned cfg sys sys' i act outcome ∧ sys'.tasks = sys.tasks := by
  unfold FilterSystem.locked at he
  split at he
  · cases he
  · next cl hcl =>
    cases he
    obtain ⟨w, hw, hr, -⟩ := FilterCluster.exec_eq_some hcl
    refine ⟨⟨?_, fun j hj => ?_, rfl⟩, rfl⟩
    · rw [hw, hr, Function.update_self]
    · simp only [hr]
      exact Function.update_of_ne hj _ _

theorem sectioned_crashed {steps : Nat} (he : sys.crashed cfg i act steps = some sys') :
    Sectioned cfg sys sys' i act (.crashes steps) ∧
      sys'.tasks = Function.update sys.tasks i fun _ => none := by
  unfold FilterSystem.crashed at he
  split at he
  · cases he
  · next cl hcl =>
    cases he
    obtain ⟨w, hw, hr, -⟩ := FilterCluster.exec_eq_some hcl
    refine ⟨⟨?_, fun j hj => ?_, rfl⟩, rfl⟩
    · rw [hw, hr, Function.update_self]
    · simp only [hr]
      exact Function.update_of_ne hj _ _

/-- The tasks after a section: the old ones, and the new one if the replica did not crash. -/
theorem sectioned_runSection {thread : FilterThread} {task : Option FilterTask}
    (he : sys.runSection cfg i thread act task outcome = some sys') :
    Sectioned cfg sys sys' i act outcome ∧ ∀ j thread' t, sys'.tasks j thread' = some t →
      sys.tasks j thread' = some t ∨ j = i ∧ outcome.survives = true ∧ task = some t := by
  have hlocked : ∀ {outcome}, (sys.locked cfg i act outcome).map (·.setTask i thread task) =
      some sys' → outcome.survives = true →
      Sectioned cfg sys sys' i act outcome ∧ ∀ j thread' t, sys'.tasks j thread' = some t →
        sys.tasks j thread' = some t ∨ j = i ∧ outcome.survives = true ∧ task = some t := by
    intro outcome he hn
    obtain ⟨sys₁, hl, rfl⟩ := Option.map_eq_some_iff.mp he
    obtain ⟨hs, htasks⟩ := sectioned_locked hl
    refine ⟨⟨hs.exec, hs.others, hs.published⟩, fun j thread' t ht => ?_⟩
    simp only [setTask, htasks] at ht
    by_cases hj : j = i
    · subst hj
      rw [Function.update_self] at ht
      by_cases hth : thread' = thread
      · subst hth
        rw [Function.update_self] at ht
        exact .inr ⟨rfl, hn, ht⟩
      · rw [Function.update_of_ne hth] at ht
        exact .inl ht
    · rw [Function.update_of_ne hj] at ht
      exact .inl ht
  cases outcome with
  | returns => exact hlocked he rfl
  | appendFails => exact hlocked he rfl
  | crashes steps =>
    obtain ⟨hs, htasks⟩ := sectioned_crashed he
    refine ⟨hs, fun j thread' t ht => .inl ?_⟩
    rw [htasks] at ht
    by_cases hj : j = i
    · subst hj
      rw [Function.update_self] at ht
      cases ht
    · rwa [Function.update_of_ne hj] at ht

/-- A publication that adds to what is known. -/
theorem Acked.publish (h : Acked cfg sys) (hc : sys'.cluster = sys.cluster)
    (hp : ∀ p ∈ sys.published, p ∈ sys'.published)
    (htasks : ∀ j thread task, sys'.tasks j thread = some task →
      sys'.SentBut j task.key task.remaining) : Acked cfg sys' where
  durable j := hc ▸ h.durable j
  tasks := htasks
  done j m key hm := (h.done j m key (hc ▸ hm)).mono (fun _ hr => hc.symm ▸ hr) hp
  seqs j key ha := h.seqs j key (by simpa only [Applied, hc] using ha)
  orders j key ha hk := hc ▸ h.orders j key (by simpa only [Applied, hc] using ha) hk

theorem Acked.deliver (h : Acked cfg sys) {d : Delivery} {sumSeq : String → Nat}
    (he : sys.exec cfg (.deliver i d sumSeq outcome) = some sys') :
    Sectioned cfg sys sys' i (.deliver d sumSeq) outcome ∧ Acked cfg sys' := by
  simp only [FilterSystem.exec] at he
  split at he
  · obtain ⟨hs, htasks⟩ := sectioned_runSection he
    refine ⟨hs, h.section hs nofun fun j thread t ht => ?_⟩
    rcases htasks j thread t ht with ht | ⟨rfl, hn, ht⟩
    · exact h.sentBut_section hs (h.tasks j thread t ht)
    · unfold FilterTask.of at ht
      split at ht
      · next outputs m key hinstr =>
        cases ht
        obtain ⟨m, change, hm⟩ := (h.durable j).task_recorded hn hinstr hs.exec
        exact ⟨m, change, [], hm, nofun⟩
      · cases ht
  · cases he

theorem Acked.commit (h : Acked cfg sys) {thread : FilterThread}
    (he : sys.exec cfg (.commit i thread outcome) = some sys') :
    ∃ key, sys.tasks i thread = some ⟨key, []⟩ ∧
      Sectioned cfg sys sys' i (.commitDone key) outcome ∧ Acked cfg sys' := by
  simp only [FilterSystem.exec] at he
  split at he
  · next key ht =>
    obtain ⟨hs, htasks⟩ := sectioned_runSection he
    refine ⟨key, ht, hs, h.section hs (fun key' hk => ?_) fun j thread' t ht' => ?_⟩
    · cases hk
      exact h.tasks i thread _ ht
    · rcases htasks j thread' t ht' with ht' | ⟨-, -, ht'⟩
      · exact h.sentBut_section hs (h.tasks j thread' t ht')
      · cases ht'
  · cases he

theorem Acked.exec (h : Acked cfg sys) {act : SystemAct} (he : sys.exec cfg act = some sys') :
    Acked cfg sys' := by
  cases act with
  | deliver i d sumSeq outcome => exact (h.deliver he).2
  | commit i thread outcome =>
    obtain ⟨key, -, -, h'⟩ := h.commit he
    exact h'
  | publish i thread confirmed =>
    simp only [FilterSystem.exec] at he
    split at he
    · next key entry remaining ht =>
      obtain ⟨m, change, sent, hm, hsent⟩ := h.tasks i thread _ ht
      split at he
      · cases he
        have hp : ∀ p ∈ sys.published,
            p ∈ sys.published ++ [⟨i, key.clientId, entry⟩] := fun p => List.mem_append_left _
        refine h.publish rfl hp fun j thread' t ht' => ?_
        simp only [setTask, confirm] at ht'
        by_cases hj : j = i ∧ thread' = thread
        · obtain ⟨rfl, rfl⟩ := hj
          rw [Function.update_self, Function.update_self] at ht'
          cases ht'
          refine ⟨m, change, sent ++ [entry], ?_, fun e he => ?_⟩
          · rw [List.append_assoc]
            exact hm
          rcases List.mem_append.mp he with he | he
          · exact hp _ (hsent e he)
          · obtain rfl := List.mem_singleton.mp he
            exact List.mem_append_right _ List.mem_cons_self
        · have hold : sys.tasks j thread' = some t := by
            by_cases hj' : j = i
            · subst hj'
              rwa [Function.update_self,
                Function.update_of_ne fun hth => hj ⟨rfl, hth⟩] at ht'
            · rwa [Function.update_of_ne hj'] at ht'
          exact (h.tasks j thread' t hold).mono (fun _ hr => hr) hp
      · cases he
        refine h.publish rfl (fun _ hp => hp) fun j thread' t ht' => ?_
        simp only [setTask] at ht'
        by_cases hj : j = i
        · subst hj
          rw [Function.update_self] at ht'
          by_cases hth : thread' = thread
          · subst hth
            rw [Function.update_self] at ht'
            cases ht'
          · rw [Function.update_of_ne hth] at ht'
            exact h.tasks j thread' t ht'
        · rw [Function.update_of_ne hj] at ht'
          exact h.tasks j thread' t ht'
    · cases he
  | republish i =>
    simp only [FilterSystem.exec] at he
    split at he
    · next clientId m entry rest hpend =>
      cases he
      have hp : ∀ p ∈ sys.published,
          p ∈ sys.published ++ [⟨i, clientId, entry⟩] := fun p => List.mem_append_left _
      exact h.publish rfl hp fun j thread t ht =>
        (h.tasks j thread t ht).mono (fun _ hr => hr) hp
    · cases he
  | crash i =>
    obtain ⟨hs, htasks⟩ := sectioned_crashed he
    refine h.section hs nofun fun j thread t ht => ?_
    rw [htasks] at ht
    by_cases hj : j = i
    · subst hj
      rw [Function.update_self] at ht
      cases ht
    · rw [Function.update_of_ne hj] at ht
      exact h.sentBut_section hs (h.tasks j thread t ht)

theorem cluster_publish {thread : FilterThread} {confirmed : Bool}
    (he : sys.exec cfg (.publish i thread confirmed) = some sys') : sys'.cluster = sys.cluster := by
  simp only [FilterSystem.exec] at he
  split at he
  · split at he <;> cases he <;> rfl
  · cases he

theorem cluster_republish (he : sys.exec cfg (.republish i) = some sys') :
    sys'.cluster = sys.cluster := by
  simp only [FilterSystem.exec] at he
  split at he
  · cases he
    rfl
  · cases he

theorem JumpsKept.exec (hj : sys.JumpsKept) (h : Acked cfg sys) {act : SystemAct}
    (hp : sys.PacketsInOrder act) (he : sys.exec cfg act = some sys') : sys'.JumpsKept := by
  cases act with
  | deliver i d sumSeq outcome => exact hj.section h (h.deliver he).1 nofun
  | commit i thread outcome =>
    obtain ⟨key, ht, hs, -⟩ := h.commit he
    refine hj.section h hs fun key' hk hkind => ?_
    cases hk
    exact hp _ ht hkind
  | publish i thread confirmed =>
    rw [JumpsKept, cluster_publish he]
    exact hj
  | republish i =>
    rw [JumpsKept, cluster_republish he]
    exact hj
  | crash i => exact hj.section h (sectioned_crashed he).1 nofun

theorem AnyRun.acked (h : AnyRun cfg sys) : Acked cfg sys :=
  Reachable.invariant acked_init (fun _ _ _ hi _ he => hi.exec he) h

theorem OrderedRun.any (h : OrderedRun cfg sys) : AnyRun cfg sys :=
  h.mono fun _ _ _ => trivial

/-- An input that is not in flight is finished, or was never recorded. -/
theorem Acked.finished_or_not_applied (h : Acked cfg sys)
    (hc : (sys.cluster.replicas i).node.handler.inbox.classify key ≠ .applied) :
    sys.Finished i key ∨ ¬ sys.Applied i key := by
  by_cases ha : sys.Applied i key
  · obtain ⟨m, change, outputs, hm⟩ := ha
    rcases (h.durable i).admissible.inFlight_or_done hm with hf | ⟨m', hd⟩
    · rw [← Node.Inv.inbox (h.durable i), ← Inbox.classify_eq_applied_iff] at hf
      exact absurd hf hc
    · obtain ⟨m, change, sent, hm, hs⟩ := h.done i m' key hd
      rw [List.append_nil] at hm
      exact .inl ⟨⟨m', hd⟩, m, change, sent, hm, hs⟩
  · exact .inr ha

/-- A packet that the inbox reports as finished was recorded, if packet `0` is finished first. -/
theorem Acked.applied_of_packet_done (h : Acked cfg sys) (hj : sys.JumpsKept)
    (hc : (sys.cluster.replicas i).node.handler.inbox.classify key = .done)
    (hkind : key.kind = .data ∨ key.kind = .abort)
    (hz : Runner.ZeroFirst (sys.cluster.replicas i).node.history key) : sys.Applied i key := by
  rw [Node.Inv.inbox (h.durable i)] at hc
  rcases finished_of_classify_done (hj i key hkind) hc with ⟨m, hm⟩ | ⟨hseq, hne⟩
  · exact (h.done i m key hm).applied
  · obtain ⟨m, hm⟩ := mem_doneSeqs.mp (hseq.symm ▸ hz hseq hne)
    exact (h.done i m key hm).applied

/-- A control message that the inbox reports as finished was recorded. -/
theorem Acked.applied_of_done (h : Acked cfg sys)
    (hc : (sys.cluster.replicas i).node.handler.inbox.classify key = .done)
    (hdata : key.kind ≠ .data) (habort : key.kind ≠ .abort) (hseq : key.seq = key.clientId) :
    sys.Applied i key := by
  rw [Node.Inv.inbox (h.durable i)] at hc
  obtain ⟨-, t, ht, -⟩ := (Inbox.classify_eq_done_iff _ _).mp hc
  rw [tracker?_specState] at ht
  split at ht
  · cases ht
  · next hne =>
    -- whatever was finished on the channel carries the same seq
    obtain ⟨q, hq⟩ := List.exists_mem_of_ne_nil _ hne
    obtain ⟨record, hm, hr⟩ := List.mem_filterMap.mp hq
    cases record with
    | inputApplied => cases hr
    | inputDone m key' =>
      simp only [Option.ite_none_right_eq_some, Option.some.injEq] at hr
      obtain ⟨⟨hclient, hchannel⟩, -⟩ := hr
      have ha : sys.Applied i key' := (h.done i m key' hm).applied
      simp only [InputKey.channel, Prod.mk.injEq] at hchannel
      have hkind : key'.kind = key.kind := MsgKind.toNat_injective hchannel.1
      have hseq' : key'.seq = key'.clientId :=
        ((h.seqs i key' ha).resolve_left (hkind ▸ hdata)).resolve_left (hkind ▸ habort)
      obtain rfl : key' = key := by
        refine InputKey.ext_of hclient ?_
        simp only [InputKey.triple, hchannel.1, hchannel.2, hseq', hseq, hclient]
      exact ha

theorem Acked.finished_section (h : Acked cfg sys) (hs : Sectioned cfg sys sys' i act outcome)
    (hf : sys.Finished i key) : sys'.Finished i key := by
  obtain ⟨⟨m', hd⟩, m, change, outputs, hm, hp⟩ := hf
  exact ⟨⟨m', h.history_mono hs hd⟩, m, change, outputs, h.history_mono hs hm,
    fun e he => hs.published.symm ▸ hp e he⟩

theorem history_of_call_eq_none (hs : Sectioned cfg sys sys' i act outcome)
    (hn : outcome.survives = true)
    (hc : ((sys.cluster.replicas i).sectionOf (cfg.at i) act).call = none) :
    (sys'.cluster.replicas i).node.history = (sys.cluster.replicas i).node.history := by
  have he := hs.exec
  unfold FilterWorker.exec FilterWorker.runSection at he
  rw [hc] at he
  cases outcome with
  | returns => rw [← Option.some.inj he]; rfl
  | appendFails => rw [← Option.some.inj he]; rfl
  | crashes steps => cases hn

/-- The ack of a delivered input. -/
theorem Acked.deliver_acks (h : Acked cfg sys) (hj : sys.JumpsKept) {d : Delivery}
    {sumSeq : String → Nat} {j : Nat} (hp : sys.PacketsInOrder (.deliver i d sumSeq outcome))
    (hs : Sectioned cfg sys sys' i (.deliver d sumSeq) outcome)
    (hack : acks cfg sys (.deliver i d sumSeq outcome) = some (j, key)) :
    sys'.Finished j key ∨ ¬ sys'.Applied j key ∧ sys.Skips j key := by
  -- no ack of a delivery appends a record
  have hkeep : ∀ {key}, (sys'.cluster.replicas i).node.history =
      (sys.cluster.replicas i).node.history → sys.Finished i key ∨ ¬ sys.Applied i key →
      sys.Finished i key ∨ sys.Skips i key →
      sys'.Finished i key ∨ ¬ sys'.Applied i key ∧ sys.Skips i key := by
    intro key hh hcases hskips
    by_cases hf : sys.Finished i key
    · exact .inl (h.finished_section hs hf)
    · refine .inr ⟨fun ha => hcases.resolve_left hf ?_, hskips.resolve_left hf⟩
      simpa only [Applied, hh] using ha
  simp only [FilterSystem.acks] at hack
  split at hack
  · next hn =>
    split at hack
    · next hc =>
      obtain ⟨key', hk, heq⟩ := Option.map_eq_some_iff.mp hack
      cases heq
      have hh := history_of_call_eq_none hs hn hc
      rcases call_closingInput hk with ⟨fn, hc'⟩ | ⟨-, hign | ⟨hkind, hl⟩ | ⟨hkind, hst, hl⟩⟩
      · cases hc.symm.trans hc'
      · simp only [ignored, Bool.and_eq_true, bne_iff_ne, ne_eq] at hign
        exact hkeep hh (h.finished_or_not_applied hign.2) (.inr (.inl hign.1))
      · exact hkeep hh (.inr fun ha => (h.orders i key ha hkind).2 hl)
          (.inr (.inr (.inl ⟨hkind, hl⟩)))
      · exact hkeep hh (h.finished_or_not_applied hst) (.inr (.inr (.inr ⟨hkind, hl⟩)))
    · next key' fn hc =>
      split at hack
      · next hinstr =>
        cases hack
        obtain ⟨c, effect, hc', heff, hins, hnode⟩ :=
          FilterWorker.call_of_instruction hn hinstr hs.exec
        cases hc.symm.trans hc'
        rcases Node.handle_cases heff with ⟨hdone, -, hh⟩ | ⟨_, _, h', -⟩ | ⟨-, h', -⟩
        · have hcl : (sys.cluster.replicas i).node.handler.inbox.classify key = .done := hdone
          have hcases : sys.Finished i key ∨ ¬ sys.Applied i key :=
            h.finished_or_not_applied (by rw [hcl]; decide)
          -- what the inbox reports as finished was recorded
          have happ : sys.Applied i key := by
            by_cases hkind : key.kind = .data ∨ key.kind = .abort
            · exact h.applied_of_packet_done hj hcl hkind (hp key (packetKey_of_call hc hkind))
            · obtain ⟨hdata, habort⟩ := not_or.mp hkind
              have hseq := ((seq_of_call hc).resolve_left hdata).resolve_left habort
              exact h.applied_of_done hcl hdata habort hseq
          exact hkeep (by rw [hnode, hh]; rfl) hcases
            (.inl (hcases.resolve_right fun hna => hna happ))
        · rw [hins] at h'
          cases h'
        · rw [hins] at h'
          cases h'
      · cases hack
    · cases hack
  · cases hack

/-- The ack of a committed input. -/
theorem Acked.commit_acks (h : Acked cfg sys) {thread : FilterThread} {j : Nat}
    (hs : Sectioned cfg sys sys' i (.commitDone key) outcome)
    (ht : sys.tasks i thread = some ⟨key, []⟩) {key' : InputKey}
    (hack : acks cfg sys (.commit i thread outcome) = some (j, key')) :
    sys'.Finished j key' := by
  simp only [acks, ht] at hack
  split at hack
  · next hcond =>
    cases hack
    obtain ⟨c, effect, hc, heff, -, hnode⟩ :=
      FilterWorker.call_of_instruction hcond.1 hcond.2 hs.exec
    cases hc
    obtain ⟨m, change, sent, hm, hp⟩ := h.tasks i thread _ ht
    rw [List.append_nil] at hm
    have hdone : .inputDone ((cfg.at i).handler.msgId key) key ∈
        (sys'.cluster.replicas i).node.history := by
      rw [hnode, Node.history_commitDone heff]
      exact List.mem_append_right _ List.mem_cons_self
    exact ⟨⟨_, hdone⟩, m, change, sent, h.history_mono hs hm,
      fun e he => hs.published.symm ▸ hp e he⟩
  · cases hack

/-- Whatever a step acks is finished, or was never recorded. -/
theorem Acked.acks (h : Acked cfg sys) (hj : sys.JumpsKept) {act : SystemAct}
    (hp : sys.PacketsInOrder act) (he : sys.exec cfg act = some sys')
    (hack : FilterSystem.acks cfg sys act = some (i, key)) :
    sys'.Finished i key ∨ ¬ sys'.Applied i key ∧ sys.Skips i key := by
  cases act with
  | deliver j d sumSeq outcome => exact h.deliver_acks hj hp (h.deliver he).1 hack
  | commit j thread outcome =>
    obtain ⟨key', ht, hs, -⟩ := h.commit he
    exact .inl (h.commit_acks hs ht hack)
  | publish | republish | crash => cases hack

end FilterSystem

end MoneyLaundering
