import MoneyLaundering.Filter.Turns

/-!
# The queues of a filter cluster

The replicas of a filter on their queues, without crashes, failing publications and failing appends.
A message stays on its queue until a thread takes it, and is back there when its handler raises;
what a thread has not published yet is on no queue. The facts of a client take a turn at every
delivery (`FilterQueues.Advance`), and the message that the next turn waits for is on its way.
-/

namespace MoneyLaundering

open Bytes InternalProtocol EofCoordinator FilterConfig Transition

theorem FilterConfig.controlQueueFor_ne_responseQueueFor (cfg : FilterConfig) (i j : Nat) :
    cfg.coordinator.controlQueueFor i ≠ cfg.coordinator.responseQueueFor j :=
  cfg.coordinator.controlQueueFor_ne_responseQueueFor rfl rfl i j

/-- A deployment whose control queues are not among the outputs either. -/
structure FilterQueuesConfig extends FilterClusterConfig where
  controlQueues : ∀ i j, (worker.withId i).outputEdges.get?
    ((worker.withId i).coordinator.controlQueueFor j) = none

theorem FilterQueuesConfig.plainQueues (cfg : FilterQueuesConfig) (i : Nat) :
    (cfg.at i).PlainQueues where
  control := cfg.controlQueues i
  response := cfg.responseQueues i

/-- The replicas with their threads, what is on the control and response queues with everything else
that was sent, what is on the data queues, and what ever came there. -/
structure FilterQueues where
  system : FilterSystem
  queues : List (String × Bytes) := []
  inputs : List (Nat × Bytes) := []
  arrived : List (Nat × Bytes) := []

/-- What happens when nothing fails. The sends of a section that bypasses the outbox belong to the
delivery: its message is acked after them. -/
inductive QueueAct where
  | arrive (replica : Nat) (body : Bytes)
  | deliver (replica : Nat) (delivery : Delivery) (sumSeq : String → Nat)
  | publish (replica : Nat) (thread : FilterThread)
  | commit (replica : Nat) (thread : FilterThread)

namespace FilterQueues

variable (cfg : FilterQueuesConfig)

def init : FilterQueues where
  system := .init cfg.toFilterClusterConfig

/-- Where a control message or a response is taken from. -/
def place (i : Nat) : Delivery → Option (String × Bytes)
  | .input _ => none
  | .control body => some (cfg.worker.coordinator.controlQueueFor i, body)
  | .response body => some (cfg.worker.coordinator.responseQueueFor i, body)

/-- The message is on its queue. -/
def Waits (q : FilterQueues) (i : Nat) : Delivery → Prop
  | .input body => (i, body) ∈ q.inputs
  | .control body => (cfg.worker.coordinator.controlQueueFor i, body) ∈ q.queues
  | .response body => (cfg.worker.coordinator.responseQueueFor i, body) ∈ q.queues

/-- A thread takes a message from its queue. -/
def take (q : FilterQueues) (i : Nat) (d : Delivery) : FilterQueues :=
  { q with
    queues := match place cfg i d with
      | some x => q.queues.erase x
      | none => q.queues
    inputs := match d with
      | .input body => q.inputs.erase (i, body)
      | _ => q.inputs }

/-- What a thread publishes next. -/
def nextParcel (q : FilterQueues) (i : Nat) (thread : FilterThread) : List (String × Bytes) :=
  match q.system.tasks i thread with
  | some task => (task.remaining.take 1).map OutboxEntry.parcel
  | none => []

/-- One step. A message whose handler raises is back on its queue. -/
def exec (q : FilterQueues) : QueueAct → Option FilterQueues
  | .arrive i body => some { q with
      inputs := q.inputs ++ [(i, body)]
      arrived := q.arrived ++ [(i, body)] }
  | .deliver i d sumSeq =>
    (q.system.exec cfg.toFilterClusterConfig (.deliver i d sumSeq .returns)).map fun system =>
      if (q.system.cluster.replicas i).Returns (cfg.at i) d sumSeq then
        { q.take cfg i d with
          system
          queues := (q.take cfg i d).queues ++
            ((q.system.cluster.replicas i).sectionOf (cfg.at i) (.deliver d sumSeq)).sends }
      else { q with system }
  | .publish i thread =>
    (q.system.exec cfg.toFilterClusterConfig (.publish i thread true)).map fun system =>
      { q with system, queues := q.queues ++ q.nextParcel i thread }
  | .commit i thread =>
    (q.system.exec cfg.toFilterClusterConfig (.commit i thread .returns)).map fun system =>
      { q with system }

/-- An upstream EOF comes on the data queue of the leader of its client, a message is taken from its
queue, and client `c` is not aborted. -/
def allowed (c : Nat) (q : FilterQueues) : QueueAct → Prop
  | .arrive i body => i < cfg.worker.filterAmount ∧
    q.system.cluster.deliverable cfg.toFilterClusterConfig i
      (.deliver (.input body) fun _ => 0) = true
  | .deliver i d _ => i < cfg.worker.filterAmount ∧ q.Waits cfg i d ∧ Spares c d
  | .publish i _ | .commit i _ => i < cfg.worker.filterAmount

instance (q : FilterQueues) (i : Nat) : (d : Delivery) → Decidable (q.Waits cfg i d)
  | .input _ | .control _ | .response _ => inferInstanceAs (Decidable (_ ∈ _))

instance (c : Nat) (q : FilterQueues) : (act : QueueAct) → Decidable (allowed cfg c q act)
  | .arrive .. => inferInstanceAs (Decidable (_ ∧ _))
  | .deliver .. => inferInstanceAs (Decidable (_ ∧ _ ∧ _))
  | .publish .. | .commit .. => inferInstanceAs (Decidable (_ < _))

/-- The runs without crashes, failing publications and failing appends in which the client is not
aborted. -/
def Run (c : Nat) (q : FilterQueues) : Prop := Reachable (exec cfg) (allowed cfg c) (init cfg) q

/-- The upstream EOF of the client is heard, and a handler that raises has not touched what the
replica holds about the client. -/
def Heard (c : Nat) (q : FilterQueues) : QueueAct → Prop
  | .deliver i d sumSeq => (cfg.at i).Heard c (q.system.cluster.replicas i).node.handler d ∧
    (¬ (q.system.cluster.replicas i).Returns (cfg.at i) d sumSeq →
      ((cfg.at i).mutated (q.system.cluster.replicas i).node.handler sumSeq d).facts c =
        (q.system.cluster.replicas i).state.facts c)
  | _ => True

instance (c : Nat) (q : FilterQueues) : (act : QueueAct) → Decidable (Heard cfg c q act)
  | .deliver .. => inferInstanceAs (Decidable (_ ∧ (¬ _ → _ = _)))
  | .arrive .. | .publish .. | .commit .. => .isTrue trivial

/-- The runs whose steps all meet the condition. -/
def HeardRun (c : Nat) (q : FilterQueues) : Prop :=
  Reachable (exec cfg) (fun q act => allowed cfg c q act ∧ Heard cfg c q act) (init cfg) q

/-! ## Settled clients -/

/-- The client of a message on a control or response queue. -/
def clientOf (body : Bytes) : Option Nat :=
  match unpackPacket body with
  | .ok (_, clientId, _) => some clientId
  | .error _ => none

/-- The client of a message on a data queue. -/
def inputClientOf (body : Bytes) : Option Nat :=
  match unpackAddressedPacket body with
  | .ok m => some m.clientId
  | .error _ => none

/-- Nothing of the client is on a data, control or response queue, or in the hands of a thread. -/
structure Settled (c : Nat) (q : FilterQueues) : Prop where
  inputs : ∀ x ∈ q.inputs, inputClientOf x.2 ≠ some c
  queues : ∀ x ∈ q.queues, ∀ i < cfg.worker.filterAmount,
    x.1 = cfg.worker.coordinator.controlQueueFor i ∨
      x.1 = cfg.worker.coordinator.responseQueueFor i → clientOf x.2 ≠ some c
  tasks : ∀ i < cfg.worker.filterAmount, ∀ thread, ∀ task ∈ q.system.tasks i thread,
    task.key.clientId ≠ c

theorem settled_iff {c : Nat} {q : FilterQueues} : Settled cfg c q ↔
    (∀ x ∈ q.inputs, inputClientOf x.2 ≠ some c) ∧
    (∀ x ∈ q.queues, ∀ i < cfg.worker.filterAmount,
      x.1 = cfg.worker.coordinator.controlQueueFor i ∨
        x.1 = cfg.worker.coordinator.responseQueueFor i → clientOf x.2 ≠ some c) ∧
    ∀ i < cfg.worker.filterAmount, ∀ thread ∈ [FilterThread.data, .control, .response],
      ∀ task ∈ q.system.tasks i thread, task.key.clientId ≠ c :=
  ⟨fun h => ⟨h.inputs, h.queues, fun i hi thread _ => h.tasks i hi thread⟩,
    fun ⟨hinputs, hqueues, htasks⟩ => ⟨hinputs, hqueues, fun i hi thread =>
      htasks i hi thread (by cases thread <;> decide)⟩⟩

instance (c : Nat) (q : FilterQueues) : Decidable (Settled cfg c q) :=
  decidable_of_iff _ (settled_iff cfg).symm

/-- The number of transactions of the client in a packet of a data queue. -/
def transactionsIn (c : Nat) (body : Bytes) : Nat :=
  match unpackAddressedPacket body with
  | .error _ => 0
  | .ok m =>
    if m.msgType = MessageType.data.toNat ∧ m.clientId = c then
      match TransactionSerializer.deserializeBatch m.payload with
      | .ok transactions => transactions.length
      | .error _ => 0
    else 0

/-- The upstream EOF of the client has come, and batches with as many transactions as it counts. -/
def Complete (c : Nat) (q : FilterQueues) : Prop :=
  ∃ x ∈ q.arrived, ∃ m ctrl, unpackAddressedPacket x.2 = .ok m ∧
    m.msgType = MessageType.eof.toNat ∧ m.clientId = c ∧
    ControlMessage.deserialize m.payload = .ok ctrl ∧
    (q.arrived.map fun y => transactionsIn c y.2).sum = ctrl.expectedTotal

/-- The downstream EOFs of the client, one for each target, were stamped at its leader, and
published with the batches that were stamped with them. -/
def Emitted (c : Nat) (q : FilterQueues) : Prop :=
  ∃ m key change entries,
    .inputApplied m key change entries ∈
      (q.system.cluster.replicas (cfg.leaderOf c)).node.history ∧
    key.clientId = c ∧
    ((cfg.at (cfg.leaderOf c)).eofTotals entries).map Prod.fst =
      (cfg.at (cfg.leaderOf c)).eofTargets.map Prod.fst ∧
    ∀ e ∈ entries, ⟨cfg.leaderOf c, c, e⟩ ∈ q.system.published

/-! ## Turns of the cluster -/

/-- What replica `i` holds about the client. -/
def facts (c : Nat) (q : FilterQueues) (i : Nat) : FilterFacts :=
  (q.system.cluster.replicas i).state.facts c

/-- A message on a queue, or in the hands of a thread that publishes it for the client. -/
def OnWay (c : Nat) (q : FilterQueues) (x : String × Bytes) : Prop :=
  x ∈ q.queues ∨ ∃ i < cfg.worker.filterAmount, ∃ thread task,
    q.system.tasks i thread = some task ∧ task.key.clientId = c ∧
      x ∈ task.remaining.map OutboxEntry.parcel

/-- A message on a queue, or one that a replica stamped. -/
def Known (q : FilterQueues) (x : String × Bytes) : Prop :=
  x ∈ q.queues ∨ ∃ i, (q.system.cluster.replicas i).Stamped x

/-- What a step of replica `i` does to the facts and the messages of the client. A step that
delivers nothing is an idle turn. -/
structure Advance (c : Nat) (q q' : FilterQueues) (i : Nat) (d : Delivery)
    (outs : List (String × Bytes)) : Prop where
  lt : i < cfg.worker.filterAmount
  turn : (cfg.at i).Turn c (q.facts c i) d (q'.facts c i) outs
  others : ∀ j ≠ i, q'.facts c j = q.facts c j
  taken : ∀ x ∈ place cfg i d, x ∈ q.queues
  eof : ∀ body, d = .input body → IsEof c body → i = cfg.leaderOf c
  known : ∀ x, q'.Known x → q.Known x ∨ x ∈ outs
  stays : ∀ x, q.OnWay cfg c x → some x ≠ place cfg i d → q'.OnWay cfg c x
  fresh : ∀ x ∈ outs, Mute c x ∨ q'.OnWay cfg c x

/-! ## The rounds of a client -/

section phases
variable (c : Nat) (q : FilterQueues)

/-- The leader has taken the upstream EOF of the client. -/
def Begun : Prop :=
  (q.facts c (cfg.leaderOf c)).leads = true ∨ (q.facts c (cfg.leaderOf c)).closed = true

/-- Replica `j` has taken the announcement of the EOF. -/
def Answered (j : Nat) : Prop := (q.facts c j).pending ≠ none ∨ (q.facts c j).closed = true

/-- What the messages of the rounds say is true, and so is what the leader has collected. -/
structure Told : Prop where
  announced : ∀ x, q.Known x → ∀ ctrl, parseMessage x.2 = .ok (some .eofReceived, c, ctrl) →
    (∃ j, x.1 = cfg.worker.coordinator.controlQueueFor j) ∧ ctrl.senderId = cfg.leaderOf c ∧
      Begun cfg c q
  ordered : ∀ x, q.Known x → ∀ ctrl, parseMessage x.2 = .ok (some .flushOrder, c, ctrl) →
    ctrl.senderId = cfg.leaderOf c ∧ Begun cfg c q
  answered : ∀ x, q.Known x → ∀ ctrl, parseMessage x.2 = .ok (some .processedAnswer, c, ctrl) →
    ctrl.senderId < cfg.worker.filterAmount ∧ Answered c q ctrl.senderId
  acked : ∀ x, q.Known x → ∀ j, cfg.worker.IsAck c j x.2 →
    j < cfg.worker.filterAmount ∧ (q.facts c j).closed = true
  responders : ∀ j ∈ (q.facts c (cfg.leaderOf c)).responders,
    j < cfg.worker.filterAmount ∧ Answered c q j
  acks : ∀ j ∈ (q.facts c (cfg.leaderOf c)).acks,
    j < cfg.worker.filterAmount ∧ (q.facts c j).closed = true
  pending : ∀ i l, (q.facts c i).pending = some l → l = cfg.leaderOf c
  leads : ∀ i, (q.facts c i).leads = true → i = cfg.leaderOf c ∧ 1 < cfg.worker.filterAmount

end phases

section told
variable {cfg} {c i : Nat} {q q' : FilterQueues} {d : Delivery} {outs : List (String × Bytes)}

theorem Advance.closed (ha : Advance cfg c q q' i d outs) {j : Nat}
    (h : (q.facts c j).closed = true) : (q'.facts c j).closed = true := by
  by_cases hj : j = i
  · subst hj
    exact ha.turn.closed h
  · rwa [ha.others j hj]

theorem Advance.begun (ha : Advance cfg c q q' i d outs) (h : Begun cfg c q) : Begun cfg c q' := by
  unfold Begun at h ⊢
  by_cases hj : cfg.leaderOf c = i
  · rw [hj] at h ⊢
    exact ha.turn.begun h
  · rwa [ha.others _ hj]

theorem Advance.answered (ha : Advance cfg c q q' i d outs) {j : Nat} (h : Answered c q j) :
    Answered c q' j := by
  unfold Answered at h ⊢
  by_cases hj : j = i
  · subst hj
    exact ha.turn.answered h
  · rwa [ha.others _ hj]

/-- A message that is taken was known. -/
theorem Advance.known_control {body : Bytes} (ha : Advance cfg c q q' i (.control body) outs) :
    q.Known (cfg.worker.coordinator.controlQueueFor i, body) := .inl (ha.taken _ rfl)

theorem Advance.known_response {body : Bytes} (ha : Advance cfg c q q' i (.response body) outs) :
    q.Known (cfg.worker.coordinator.responseQueueFor i, body) := .inl (ha.taken _ rfl)

/-- Where the facts of a replica come from, apart from those that it had. -/
theorem Advance.responders (ha : Advance cfg c q q' i d outs) (h : Told cfg c q) {k j : Nat}
    (hj : j ∈ (q'.facts c k).responders) :
    j ∈ (q.facts c k).responders ∨ j < cfg.worker.filterAmount ∧ Answered c q j := by
  by_cases hk : k = i
  · subst hk
    have ht := ha.turn
    generalize hx : q'.facts c k = x' at ht hj
    cases ht with
    | @collect body ctrl hp hnew hmore =>
      rcases Finset.mem_insert.mp hj with rfl | hj
      · exact .inr (h.answered _ ha.known_response _ hp)
      · exact .inl hj
    | endRound => cases hj
    | _ => exact .inl hj
  · rw [ha.others k hk] at hj
    exact .inl hj

theorem Advance.acks (ha : Advance cfg c q q' i d outs) (h : Told cfg c q) {k j : Nat}
    (hj : j ∈ (q'.facts c k).acks) :
    j ∈ (q.facts c k).acks ∨ j < cfg.worker.filterAmount ∧ (q.facts c j).closed = true := by
  by_cases hk : k = i
  · subst hk
    have ht := ha.turn
    generalize hx : q'.facts c k = x' at ht hj
    cases ht with
    | @ackMissing body j' hp hopen hleads hlt =>
      rcases Finset.mem_insert.mp hj with rfl | hj
      · exact .inr (h.acked _ ha.known_response _ hp)
      · exact .inl hj
    | alone | flush | ackLast => cases hj
    | _ => exact .inl hj
  · rw [ha.others k hk] at hj
    exact .inl hj

theorem Advance.pending (ha : Advance cfg c q q' i d outs) (h : Told cfg c q) {k l : Nat}
    (hp : (q'.facts c k).pending = some l) : l = cfg.leaderOf c := by
  by_cases hk : k = i
  · subst hk
    have ht := ha.turn
    generalize hx : q'.facts c k = x' at ht hp
    cases ht with
    | answer hparse hnew hb =>
      cases hp
      exact (h.announced _ ha.known_control _ hparse).2.1
    | flush | ackLast => cases hp
    | _ => exact h.pending _ _ hp
  · rw [ha.others k hk] at hp
    exact h.pending _ _ hp

theorem Advance.leads (ha : Advance cfg c q q' i d outs) (h : Told cfg c q) {k : Nat}
    (hl : (q'.facts c k).leads = true) :
    k = cfg.leaderOf c ∧ 1 < cfg.worker.filterAmount := by
  by_cases hk : k = i
  · subst hk
    have ht := ha.turn
    generalize hx : q'.facts c k = x' at ht hl
    cases ht with
    | announce hin hN hopen hb => exact ⟨ha.eof _ rfl hin, hN⟩
    | ackLast => cases hl
    | _ => exact h.leads _ hl
  · rw [ha.others k hk] at hl
    exact h.leads _ hl

theorem Told.step (h : Told cfg c q) (ha : Advance cfg c q q' i d outs) : Told cfg c q' where
  announced x hx ctrl hp := by
    rcases ha.known x hx with hx | hx
    · obtain ⟨hq, hid, hb⟩ := h.announced x hx ctrl hp
      exact ⟨hq, hid, ha.begun hb⟩
    · cases ha.turn.sent hx with
      | mute hm => rcases hm.parse hp with h' | h' | h' <;> cases h'
      | announcement hp' hq hid hleads hin =>
        cases hp.symm.trans hp'
        obtain ⟨body, hd, hin⟩ := hin
        have hi := ha.eof body hd hin
        exact ⟨⟨_, hq⟩, hid.trans hi, .inl (hi ▸ hleads)⟩
      | answer hp' => cases hp.symm.trans hp'
      | roundEnd hp' ht => rcases ht with rfl | rfl <;> cases hp.symm.trans hp'
      | ack hack => cases hack.parse hp
  ordered x hx ctrl hp := by
    rcases ha.known x hx with hx | hx
    · obtain ⟨hid, hb⟩ := h.ordered x hx ctrl hp
      exact ⟨hid, ha.begun hb⟩
    · cases ha.turn.sent hx with
      | mute hm => rcases hm.parse hp with h' | h' | h' <;> cases h'
      | announcement hp' | answer hp' => cases hp.symm.trans hp'
      | roundEnd hp' ht hid hleads =>
        cases hp.symm.trans hp'
        have hi := (h.leads i hleads.1).1
        exact ⟨hid.trans hi, .inl (hi ▸ hleads.2)⟩
      | ack hack => cases hack.parse hp
  answered x hx ctrl hp := by
    rcases ha.known x hx with hx | hx
    · obtain ⟨hlt, hans⟩ := h.answered x hx ctrl hp
      exact ⟨hlt, ha.answered hans⟩
    · cases ha.turn.sent hx with
      | mute hm => rcases hm.parse hp with h' | h' | h' <;> cases h'
      | announcement hp' => cases hp.symm.trans hp'
      | answer hp' hid hpend =>
        cases hp.symm.trans hp'
        rw [hid]
        exact ⟨ha.lt, .inl hpend⟩
      | roundEnd hp' ht => rcases ht with rfl | rfl <;> cases hp.symm.trans hp'
      | ack hack => cases hack.parse hp
  acked x hx j hack := by
    rcases ha.known x hx with hx | hx
    · obtain ⟨hlt, hc⟩ := h.acked x hx j hack
      exact ⟨hlt, ha.closed hc⟩
    · cases ha.turn.sent hx with
      | mute hm => exact absurd hack (hm.not_isAck j)
      | announcement hp' | answer hp' => cases IsAck.parse hack hp'
      | roundEnd hp' ht =>
        rcases ht with rfl | rfl <;> cases IsAck.parse hack hp'
      | ack hack' hclosed =>
        obtain rfl : j = i := IsAck.sender hack hack'
        exact ⟨ha.lt, hclosed⟩
  responders j hj := (ha.responders h hj).elim
    (fun hj => ⟨(h.responders j hj).1, ha.answered (h.responders j hj).2⟩)
    fun hj => ⟨hj.1, ha.answered hj.2⟩
  acks j hj := (ha.acks h hj).elim
    (fun hj => ⟨(h.acks j hj).1, ha.closed (h.acks j hj).2⟩) fun hj => ⟨hj.1, ha.closed hj.2⟩
  pending _ _ hp := ha.pending h hp
  leads _ hl := ha.leads h hl

end told

/-! ### Phases -/

section phases
variable (c : Nat) (q : FilterQueues)

/-- The answer of replica `j`, on the queue of the leader. -/
def IsAnswer (j : Nat) (x : String × Bytes) : Prop :=
  x.1 = cfg.worker.coordinator.responseQueueFor (cfg.leaderOf c) ∧
    ∃ ctrl, parseMessage x.2 = .ok (some .processedAnswer, c, ctrl) ∧ ctrl.senderId = j

/-- The ack of replica `j`, on the queue of the leader. -/
def IsFlushAck (j : Nat) (x : String × Bytes) : Prop :=
  x.1 = cfg.worker.coordinator.responseQueueFor (cfg.leaderOf c) ∧ cfg.worker.IsAck c j x.2

/-- A control message of the type, on the queue of replica `j`. -/
def IsControl (msgType : MessageType) (j : Nat) (x : String × Bytes) : Prop :=
  x.1 = cfg.worker.coordinator.controlQueueFor j ∧
    ∃ ctrl, parseMessage x.2 = .ok (some msgType, c, ctrl)

/-- The leader has the answer of replica `j`, or what leads to it is on its way. -/
def Awaited (j : Nat) : Prop :=
  j ∈ (q.facts c (cfg.leaderOf c)).responders ∨
  (∃ x, q.OnWay cfg c x ∧ IsAnswer cfg c j x) ∨
  ((q.facts c j).pending ≠ none ∧ ∃ x, q.OnWay cfg c x ∧ IsControl cfg c .processedRequest j x) ∨
  ((q.facts c j).pending = none ∧ ∃ x, q.OnWay cfg c x ∧ IsControl cfg c .eofReceived j x)

/-- The upstream EOF has not been taken. -/
structure Idle : Prop where
  begun : ¬ Begun cfg c q
  opened : ∀ j < cfg.worker.filterAmount, (q.facts c j).closed = false
  pending : ∀ j < cfg.worker.filterAmount, (q.facts c j).pending = none

/-- The leader counts, and no round was enough. -/
structure Gathering : Prop where
  leads : (q.facts c (cfg.leaderOf c)).leads = true
  opened : ∀ j < cfg.worker.filterAmount, (q.facts c j).closed = false
  silent : ∀ x, q.Known x → ∀ ctrl, parseMessage x.2 ≠ .ok (some .flushOrder, c, ctrl)
  missing : (q.facts c (cfg.leaderOf c)).responders.card < cfg.worker.filterAmount
  awaited : ∀ j < cfg.worker.filterAmount, Awaited cfg c q j

/-- The order to flush was sent. -/
structure Flushing : Prop where
  begun : Begun cfg c q
  ordered : ∀ j < cfg.worker.filterAmount, j ≠ cfg.leaderOf c →
    (q.facts c j).closed = true ∨ ∃ x, q.OnWay cfg c x ∧ IsControl cfg c .flushOrder j x
  acked : ∀ j < cfg.worker.filterAmount, j ≠ cfg.leaderOf c → (q.facts c j).closed = true →
    (q.facts c (cfg.leaderOf c)).closed = true ∨ j ∈ (q.facts c (cfg.leaderOf c)).acks ∨
      ∃ x, q.OnWay cfg c x ∧ IsFlushAck cfg c j x
  last : (q.facts c (cfg.leaderOf c)).closed = false →
    (q.facts c (cfg.leaderOf c)).acks.card < cfg.worker.filterAmount - 1

end phases

section moves
variable {cfg} {c i : Nat} {q q' : FilterQueues} {d : Delivery} {outs : List (String × Bytes)}

/-- What the turn leaves as it was at its replica stays as it was everywhere. -/
theorem Advance.same {α : Type} (ha : Advance cfg c q q' i d outs) (f : FilterFacts → α)
    (hf : f (q'.facts c i) = f (q.facts c i)) (j : Nat) : f (q'.facts c j) = f (q.facts c j) := by
  by_cases hj : j = i
  · rw [hj, hf]
  · rw [ha.others j hj]

/-- A control message that a turn sends is on its way. -/
theorem Advance.sends {y : String × Bytes} {msgType : MessageType} {ctrl : ControlMessage}
    (ha : Advance cfg c q q' i d outs) (hy : y ∈ outs)
    (hp : parseMessage y.2 = .ok (some msgType, c, ctrl))
    (ht : msgType ≠ .data ∧ msgType ≠ .eof ∧ msgType ≠ .abort) : q'.OnWay cfg c y := by
  refine (ha.fresh y hy).resolve_left fun hm => ?_
  rcases hm.parse hp with h | h | h
  · exact ht.1 h
  · exact ht.2.1 h
  · exact ht.2.2 h

/-- A message that is taken from a control queue. -/
theorem IsControl.of_taken {msgType : MessageType} {j : Nat} {body : Bytes} {x : String × Bytes}
    (h : IsControl cfg c msgType j x) (hx : x ∈ place cfg i (.control body)) :
    j = i ∧ ∃ ctrl, parseMessage body = .ok (some msgType, c, ctrl) := by
  obtain ⟨hq, hp⟩ := h
  cases Option.mem_some_iff.mp hx
  exact ⟨(CoordinatorConfig.controlQueueFor_injective _ hq).symm, hp⟩

/-- A response is on no control queue. -/
theorem IsControl.not_response {msgType : MessageType} {j : Nat} {body : Bytes}
    {x : String × Bytes} (h : IsControl cfg c msgType j x)
    (hx : x ∈ place cfg i (.response body)) : False := by
  cases Option.mem_some_iff.mp hx
  exact cfg.worker.controlQueueFor_ne_responseQueueFor _ _ h.1.symm

/-- A message that is taken from a response queue. -/
theorem IsAnswer.of_taken {j : Nat} {body : Bytes} {x : String × Bytes} (h : IsAnswer cfg c j x)
    (hx : x ∈ place cfg i (.response body)) : i = cfg.leaderOf c ∧
      ∃ ctrl, parseMessage body = .ok (some .processedAnswer, c, ctrl) ∧ ctrl.senderId = j := by
  obtain ⟨hq, hp⟩ := h
  cases Option.mem_some_iff.mp hx
  exact ⟨CoordinatorConfig.responseQueueFor_injective _ hq, hp⟩

theorem IsAnswer.not_control {j : Nat} {body : Bytes} {x : String × Bytes} (h : IsAnswer cfg c j x)
    (hx : x ∈ place cfg i (.control body)) : False := by
  cases Option.mem_some_iff.mp hx
  exact cfg.worker.controlQueueFor_ne_responseQueueFor _ _ h.1

/-- What is awaited stays so, unless its message is taken. -/
theorem Awaited.step {j : Nat} (h : Awaited cfg c q j) (ha : Advance cfg c q q' i d outs)
    (hresp : (q.facts c (cfg.leaderOf c)).responders ⊆ (q'.facts c (cfg.leaderOf c)).responders)
    (hpend : (q'.facts c j).pending = (q.facts c j).pending)
    (hanswer : ∀ x ∈ place cfg i d, IsAnswer cfg c j x → Awaited cfg c q' j)
    (hrequest : ∀ x ∈ place cfg i d, IsControl cfg c .processedRequest j x →
      (q.facts c j).pending ≠ none → Awaited cfg c q' j)
    (hannounce : ∀ x ∈ place cfg i d, IsControl cfg c .eofReceived j x →
      (q.facts c j).pending = none → Awaited cfg c q' j) : Awaited cfg c q' j := by
  rcases h with hr | ⟨x, hx, hp⟩ | ⟨hsome, x, hx, hp⟩ | ⟨hnone, x, hx, hp⟩
  · exact .inl (hresp hr)
  · by_cases hg : some x = place cfg i d
    · exact hanswer x hg.symm hp
    · exact .inr (.inl ⟨x, ha.stays x hx hg, hp⟩)
  · by_cases hg : some x = place cfg i d
    · exact hrequest x hg.symm hp hsome
    · exact .inr (.inr (.inl ⟨hpend ▸ hsome, x, ha.stays x hx hg, hp⟩))
  · by_cases hg : some x = place cfg i d
    · exact hannounce x hg.symm hp hnone
    · exact .inr (.inr (.inr ⟨hpend ▸ hnone, x, ha.stays x hx hg, hp⟩))

/-- No order is sent. -/
theorem Gathering.silent_step (h : Gathering cfg c q) (ha : Advance cfg c q q' i d outs)
    (houts : ∀ y ∈ outs, ∀ ctrl, parseMessage y.2 ≠ .ok (some .flushOrder, c, ctrl)) :
    ∀ x, q'.Known x → ∀ ctrl, parseMessage x.2 ≠ .ok (some .flushOrder, c, ctrl) :=
  fun x hx => (ha.known x hx).elim (h.silent x) (houts x)

theorem not_order_of_mute (hmute : ∀ y ∈ outs, Mute c y) :
    ∀ y ∈ outs, ∀ ctrl, parseMessage y.2 ≠ .ok (some .flushOrder, c, ctrl) := by
  intro y hy ctrl hp
  rcases (hmute y hy).parse hp with h | h | h <;> cases h

theorem not_order_of_parse {bytes : Bytes} {msgType : MessageType} {ctrl : ControlMessage}
    (hp : parseMessage bytes = .ok (some msgType, c, ctrl)) (ht : msgType ≠ .flushOrder)
    (houts : ∀ y ∈ outs, y.2 = bytes) :
    ∀ y ∈ outs, ∀ ctrl, parseMessage y.2 ≠ .ok (some .flushOrder, c, ctrl) := by
  intro y hy ctrl' hp'
  rw [houts y hy] at hp'
  cases hp.symm.trans hp'
  exact ht rfl

/-- A message without effect. -/
theorem Gathering.idle (h : Gathering cfg c q) (ha : Advance cfg c q q' i d outs)
    (hx : q'.facts c i = q.facts c i) (habs : (cfg.at i).Absorbed c (q.facts c i) d)
    (hmute : ∀ y ∈ outs, Mute c y) : Gathering cfg c q' := by
  have hsame : ∀ j, q'.facts c j = q.facts c j := ha.same id hx
  refine ⟨?_, fun j hj => ?_, h.silent_step ha (not_order_of_mute hmute), ?_, fun j hj => ?_⟩
  · rw [hsame]
    exact h.leads
  · rw [hsame]
    exact h.opened j hj
  · rw [hsame]
    exact h.missing
  · have hopen := h.opened i ha.lt
    refine (h.awaited j hj).step ha (by rw [hsame]) (by rw [hsame]) (fun x hg hp => ?_)
      (fun x hg hp hsome => ?_) fun x hg hp hnone => ?_
    · cases d with
      | input body => cases hg
      | control body => exact (hp.not_control hg).elim
      | response body =>
        obtain ⟨rfl, ctrl, hparse, rfl⟩ := hp.of_taken hg
        exact .inl (by rw [hsame]; exact habs.1 ctrl hparse)
    · cases d with
      | input body => cases hg
      | control body =>
        obtain ⟨rfl, ctrl, hparse⟩ := hp.of_taken hg
        exact absurd ((habs _ ctrl hparse).2.1 rfl) hsome
      | response body => exact (hp.not_response hg).elim
    · cases d with
      | input body => cases hg
      | control body =>
        obtain ⟨rfl, ctrl, hparse⟩ := hp.of_taken hg
        rcases (habs _ ctrl hparse).1 rfl with hsome | hclosed
        · exact absurd hnone hsome
        · exact absurd (hopen.symm.trans hclosed) nofun
      | response body => exact (hp.not_response hg).elim

/-- A replica answers an announcement or a request. -/
theorem Gathering.answer {body bytes : Bytes} {count forwarded : Nat} (h : Gathering cfg c q)
    (ha : Advance cfg c q q' i (.control body)
      [(cfg.worker.coordinator.responseQueueFor (cfg.leaderOf c), bytes)])
    (hx : q'.facts c i = { q.facts c i with pending := (q'.facts c i).pending })
    (hb : (buildAnswer (cfg.at i).coordinator c count forwarded).toBytes = .ok bytes) :
    Gathering cfg c q' := by
  have hparse := parseMessage_toBytes hb
  have hclosed : ∀ j, (q'.facts c j).closed = (q.facts c j).closed :=
    ha.same FilterFacts.closed (by rw [hx])
  have hresp : ∀ j, (q'.facts c j).responders = (q.facts c j).responders :=
    ha.same FilterFacts.responders (by rw [hx])
  have hleads : ∀ j, (q'.facts c j).leads = (q.facts c j).leads :=
    ha.same FilterFacts.leads (by rw [hx])
  refine ⟨by rw [hleads]; exact h.leads, fun j hj => by rw [hclosed]; exact h.opened j hj,
    h.silent_step ha (not_order_of_parse hparse nofun fun y hy => ?_),
    by rw [hresp]; exact h.missing, fun j hj => ?_⟩
  · cases List.mem_singleton.mp hy
    rfl
  · by_cases hji : j = i
    · subst hji
      exact .inr (.inl ⟨_, ha.sends List.mem_cons_self hparse ⟨nofun, nofun, nofun⟩, rfl, _,
        hparse, rfl⟩)
    · refine (h.awaited j hj).step ha (by rw [hresp]) (by rw [ha.others j hji])
        (fun x hg hp => (hp.not_control hg).elim) (fun x hg hp _ => ?_) fun x hg hp _ => ?_
      · exact absurd (hp.of_taken hg).1 hji
      · exact absurd (hp.of_taken hg).1 hji

/-- The leader takes an upstream EOF. The client was idle, or this is not its first EOF. -/
theorem Gathering.announce {body bytes : Bytes} {ctrl : ControlMessage} (h : Told cfg c q)
    (ha : Advance cfg c q q' (cfg.leaderOf c) (.input body)
      (broadcastSends cfg.worker.coordinator bytes))
    (hx : q'.facts c (cfg.leaderOf c) = { q.facts c (cfg.leaderOf c) with leads := true })
    (hp : parseMessage bytes = .ok (some .eofReceived, c, ctrl))
    (hphase : Idle cfg c q ∨ Gathering cfg c q) : Gathering cfg c q' := by
  have hclosed : ∀ j, (q'.facts c j).closed = (q.facts c j).closed :=
    ha.same FilterFacts.closed (by rw [hx])
  have hresp : ∀ j, (q'.facts c j).responders = (q.facts c j).responders :=
    ha.same FilterFacts.responders (by rw [hx])
  have hpend : ∀ j, (q'.facts c j).pending = (q.facts c j).pending :=
    ha.same FilterFacts.pending (by rw [hx])
  have hleads : (q'.facts c (cfg.leaderOf c)).leads = true := by rw [hx]
  have houts : ∀ y ∈ broadcastSends cfg.worker.coordinator bytes, y.2 = bytes := by
    intro y hy
    obtain ⟨queueName, -, rfl⟩ := List.mem_map.mp hy
    rfl
  rcases hphase with hidle | hg
  · -- nobody has been asked before
    have hnoAnswer : ∀ j < cfg.worker.filterAmount, ¬ Answered c q j := by
      rintro j hj (hsome | hc)
      · exact hsome (hidle.pending j hj)
      · exact absurd ((hidle.opened j hj).symm.trans hc) nofun
    refine ⟨hleads, fun j hj => by rw [hclosed]; exact hidle.opened j hj, fun x hx ctrl' hp' => ?_,
      ?_, fun j hj => ?_⟩
    · rcases ha.known x hx with hx | hx
      · exact hidle.begun (h.ordered x hx ctrl' hp').2
      · exact not_order_of_parse hp nofun houts x hx ctrl' hp'
    · rw [hresp, Finset.card_eq_zero.mpr]
      · exact Nat.zero_lt_of_lt ha.lt
      · refine Finset.eq_empty_of_forall_notMem fun j hj => ?_
        obtain ⟨hlt, hans⟩ := h.responders j hj
        exact hnoAnswer j hlt hans
    · refine .inr (.inr (.inr ⟨by rw [hpend]; exact hidle.pending j hj, _,
        ha.sends (y := (cfg.worker.coordinator.controlQueueFor j, bytes)) ?_ hp
          ⟨nofun, nofun, nofun⟩, rfl, ctrl, hp⟩))
      exact List.mem_map.mpr ⟨_, List.mem_map.mpr ⟨j, List.mem_range.mpr hj, rfl⟩, rfl⟩
  · exact ⟨hleads, fun j hj => by rw [hclosed]; exact hg.opened j hj,
      hg.silent_step ha (not_order_of_parse hp nofun houts), by rw [hresp]; exact hg.missing,
      fun j hj => (hg.awaited j hj).step ha (by rw [hresp]) (hpend j) nofun nofun nofun⟩

/-- The leader counts an answer, or another replica gets one. -/
theorem Gathering.collect {body : Bytes} {ctrl : ControlMessage} (h : Gathering cfg c q)
    (ha : Advance cfg c q q' i (.response body) [])
    (hx : q'.facts c i =
      { q.facts c i with responders := insert ctrl.senderId (q.facts c i).responders })
    (hp : parseMessage body = .ok (some .processedAnswer, c, ctrl))
    (hmore : (q.facts c i).leads = false ∨
      (insert ctrl.senderId (q.facts c i).responders).card < cfg.worker.filterAmount) :
    Gathering cfg c q' := by
  have hclosed : ∀ j, (q'.facts c j).closed = (q.facts c j).closed :=
    ha.same FilterFacts.closed (by rw [hx])
  have hpend : ∀ j, (q'.facts c j).pending = (q.facts c j).pending :=
    ha.same FilterFacts.pending (by rw [hx])
  have hleads : ∀ j, (q'.facts c j).leads = (q.facts c j).leads :=
    ha.same FilterFacts.leads (by rw [hx])
  have hself : i = cfg.leaderOf c → (q'.facts c (cfg.leaderOf c)).responders =
      insert ctrl.senderId (q.facts c (cfg.leaderOf c)).responders := by
    rintro rfl
    rw [hx]
  have hother : i ≠ cfg.leaderOf c → (q'.facts c (cfg.leaderOf c)).responders =
      (q.facts c (cfg.leaderOf c)).responders := fun hne => by rw [ha.others _ (Ne.symm hne)]
  refine ⟨by rw [hleads]; exact h.leads, fun j hj => by rw [hclosed]; exact h.opened j hj,
    h.silent_step ha nofun, ?_, fun j hj => ?_⟩
  · by_cases hi : i = cfg.leaderOf c
    · rw [hself hi]
      rw [hi] at hmore
      exact hmore.resolve_left (by rw [h.leads]; exact nofun)
    · rw [hother hi]
      exact h.missing
  · refine (h.awaited j hj).step ha (fun k hk => ?_) (hpend j) (fun x hg hans => ?_)
      (fun x hg hcontrol _ => (hcontrol.not_response hg).elim)
      fun x hg hcontrol _ => (hcontrol.not_response hg).elim
    · by_cases hi : i = cfg.leaderOf c
      · rw [hself hi]
        exact Finset.mem_insert_of_mem hk
      · rwa [hother hi]
    · obtain ⟨hi, ctrl', hp', rfl⟩ := hans.of_taken hg
      cases hp.symm.trans hp'
      exact .inl (hself hi ▸ Finset.mem_insert_self ..)

/-- Every replica has answered when a round ends. -/
theorem Told.all_answered (h : Told cfg c q) {ctrl : ControlMessage}
    (hans : ctrl.senderId < cfg.worker.filterAmount ∧ Answered c q ctrl.senderId)
    (hall : cfg.worker.filterAmount ≤
      (insert ctrl.senderId (q.facts c (cfg.leaderOf c)).responders).card) :
    ∀ j < cfg.worker.filterAmount, Answered c q j := by
  have hsub : insert ctrl.senderId (q.facts c (cfg.leaderOf c)).responders ⊆
      Finset.range cfg.worker.filterAmount :=
    Finset.insert_subset (Finset.mem_range.mpr hans.1) fun j hj =>
      Finset.mem_range.mpr (h.responders j hj).1
  have heq := Finset.eq_of_subset_of_card_le hsub (by rwa [Finset.card_range])
  intro j hj
  rcases Finset.mem_insert.mp (heq ▸ Finset.mem_range.mpr hj) with rfl | hj
  · exact hans.2
  · exact (h.responders j hj).2

/-- The end of a round: the leader orders the flush, or asks every replica again. -/
theorem Gathering.endRound {body bytes : Bytes} {ctrl : ControlMessage} {expected : Nat}
    {enough : Bool} (h : Gathering cfg c q) (ht : Told cfg c q)
    (ha : Advance cfg c q q' (cfg.leaderOf c) (.response body)
      (broadcastSends cfg.worker.coordinator bytes))
    (hx : q'.facts c (cfg.leaderOf c) = { q.facts c (cfg.leaderOf c) with responders := ∅ })
    (hp : parseMessage body = .ok (some .processedAnswer, c, ctrl))
    (hall : cfg.worker.filterAmount ≤
      (insert ctrl.senderId (q.facts c (cfg.leaderOf c)).responders).card)
    (hN : 1 < cfg.worker.filterAmount)
    (hb : (roundEnd (cfg.at (cfg.leaderOf c)).coordinator c expected enough).toBytes = .ok bytes) :
    Gathering cfg c q' ∨ Flushing cfg c q' := by
  have hclosed : ∀ j, (q'.facts c j).closed = (q.facts c j).closed :=
    ha.same FilterFacts.closed (by rw [hx])
  have hpend : ∀ j, (q'.facts c j).pending = (q.facts c j).pending :=
    ha.same FilterFacts.pending (by rw [hx])
  have hleads : (q'.facts c (cfg.leaderOf c)).leads = true := by rw [hx]; exact h.leads
  have hopened : ∀ j < cfg.worker.filterAmount, (q'.facts c j).closed = false := fun j hj => by
    rw [hclosed]
    exact h.opened j hj
  have hparse := parseMessage_toBytes hb
  have hway : ∀ j < cfg.worker.filterAmount,
      q'.OnWay cfg c (cfg.worker.coordinator.controlQueueFor j, bytes) := fun j hj => by
    refine ha.sends (List.mem_map.mpr ⟨_, List.mem_map.mpr ⟨j, List.mem_range.mpr hj, rfl⟩, rfl⟩)
      hparse ?_
    cases enough <;> exact ⟨nofun, nofun, nofun⟩
  cases enough with
  | true =>
    refine .inr ⟨.inl hleads, fun j hj _ => .inr ⟨_, hway j hj, rfl, _, hparse⟩,
      fun j hj _ hc => absurd ((hopened j hj).symm.trans hc) nofun, fun _ => ?_⟩
    rw [hx, Finset.card_eq_zero.mpr]
    · exact Nat.sub_pos_of_lt hN
    · refine Finset.eq_empty_of_forall_notMem fun j hj => ?_
      obtain ⟨hlt, hc⟩ := ht.acks j hj
      exact absurd ((h.opened j hlt).symm.trans hc) nofun
  | false =>
    have hanswered := ht.all_answered (ht.answered _ ha.known_response _ hp) hall
    refine .inl ⟨hleads, hopened, h.silent_step ha (not_order_of_parse hparse nofun fun y hy => ?_),
      ?_, fun j hj => ?_⟩
    · obtain ⟨queueName, -, rfl⟩ := List.mem_map.mp hy
      rfl
    · rw [hx]
      exact Nat.zero_lt_of_lt hN
    · refine .inr (.inr (.inl ⟨?_, _, hway j hj, rfl, _, hparse⟩))
      rw [hpend]
      refine (hanswered j hj).resolve_right ?_
      rw [h.opened j hj]
      exact nofun

/-- A step before the upstream EOF is taken. -/
theorem Idle.step (h : Idle cfg c q) (ht : Told cfg c q) (ha : Advance cfg c q q' i d outs)
    (hN : 1 < cfg.worker.filterAmount) : Idle cfg c q' ∨ Gathering cfg c q' := by
  have hleads : ∀ {j}, (q.facts c j).leads ≠ true := by
    intro j hl
    obtain ⟨rfl, -⟩ := ht.leads j hl
    exact h.begun (.inl hl)
  have hanswered : ∀ j < cfg.worker.filterAmount, ¬ Answered c q j := by
    rintro j hj (hsome | hc)
    · exact hsome (h.pending j hj)
    · exact absurd ((h.opened j hj).symm.trans hc) nofun
  have hturn := ha.turn
  generalize hx : q'.facts c i = x' at hturn
  cases hturn with
  | idle =>
    have hsame : ∀ j, q'.facts c j = q.facts c j := ha.same id hx
    refine .inl ⟨?_, fun j hj => ?_, fun j hj => ?_⟩
    · rw [Begun, hsame]
      exact h.begun
    · rw [hsame]
      exact h.opened j hj
    · rw [hsame]
      exact h.pending j hj
  | announce hin _ _ hb =>
    obtain rfl := ha.eof _ rfl hin
    exact .inr (Gathering.announce ht ha hx (parseMessage_toBytes hb) (.inl h))
  | alone hin hone => exact absurd hN (Nat.not_lt.mpr hone)
  | answer hp => exact absurd (ht.announced _ ha.known_control _ hp).2.2 h.begun
  | recount hp hpend => exact absurd ((h.pending i ha.lt).symm.trans hpend) nofun
  | flush hp => exact absurd (ht.ordered _ ha.known_control _ hp).2 h.begun
  | collect hp =>
    obtain ⟨hlt, hans⟩ := ht.answered _ ha.known_response _ hp
    exact absurd hans (hanswered _ hlt)
  | endRound _ _ hl => exact absurd hl hleads
  | ackMissing _ _ hl => exact absurd hl hleads
  | ackLast _ _ hl => exact absurd hl hleads

/-- A step while the leader counts. -/
theorem Gathering.step (h : Gathering cfg c q) (ht : Told cfg c q)
    (ha : Advance cfg c q q' i d outs) (hN : 1 < cfg.worker.filterAmount) :
    Gathering cfg c q' ∨ Flushing cfg c q' := by
  have hnoAck : ∀ {j body}, d = .response body → ¬ (cfg.at i).IsAck c j body := by
    rintro j body rfl hack
    obtain ⟨hlt, hc⟩ := ht.acked _ ha.known_response j hack
    exact absurd ((h.opened j hlt).symm.trans hc) nofun
  have hturn := ha.turn
  generalize hx : q'.facts c i = x' at hturn
  cases hturn with
  | idle habs hmute => exact .inl (h.idle ha hx habs hmute)
  | announce hin _ _ hb =>
    obtain rfl := ha.eof _ rfl hin
    exact .inl (Gathering.announce ht ha hx (parseMessage_toBytes hb) (.inr h))
  | alone hin hone => exact absurd hN (Nat.not_lt.mpr hone)
  | @answer body bytes ctrl count forwarded hp hnew hb =>
    have hid := (ht.announced _ ha.known_control _ hp).2.1
    rw [hid] at ha
    exact .inl (h.answer ha (by rw [hx]) hb)
  | @recount body bytes ctrl leader count forwarded hp hpend hb =>
    obtain rfl := ht.pending i leader hpend
    exact .inl (h.answer ha (by rw [hx]) hb)
  | flush hp => exact absurd hp (h.silent _ ha.known_control _)
  | collect hp hnew hmore => exact .inl (h.collect ha hx hp hmore)
  | endRound hp hnew hl hall hb =>
    obtain ⟨rfl, -⟩ := ht.leads i hl
    exact h.endRound ht ha hx hp hall hN hb
  | ackMissing hp => exact absurd hp (hnoAck rfl)
  | ackLast hp => exact absurd hp (hnoAck rfl)

/-- An ack that is taken is on the queue of the leader. -/
theorem IsFlushAck.of_taken {j : Nat} {body : Bytes} {x : String × Bytes}
    (h : IsFlushAck cfg c j x) (hx : x ∈ place cfg i (.response body)) :
    i = cfg.leaderOf c ∧ (cfg.at i).IsAck c j body := by
  obtain ⟨hq, hp⟩ := h
  cases Option.mem_some_iff.mp hx
  exact ⟨CoordinatorConfig.responseQueueFor_injective _ hq, hp⟩

theorem IsFlushAck.not_control {j : Nat} {body : Bytes} {x : String × Bytes}
    (h : IsFlushAck cfg c j x) (hx : x ∈ place cfg i (.control body)) : False := by
  cases Option.mem_some_iff.mp hx
  exact cfg.worker.controlQueueFor_ne_responseQueueFor _ _ h.1

/-- A message of the flush moves on: the orders and acks that a step leaves are enough for every
replica. -/
theorem Flushing.keep (h : Flushing cfg c q) (ha : Advance cfg c q q' i d outs)
    (hacks : ∀ j ∈ (q.facts c (cfg.leaderOf c)).acks,
      (q'.facts c (cfg.leaderOf c)).closed = true ∨ j ∈ (q'.facts c (cfg.leaderOf c)).acks)
    (horder : ∀ x ∈ place cfg i d, ∀ j, IsControl cfg c .flushOrder j x → j ≠ cfg.leaderOf c →
      (q'.facts c j).closed = true)
    (hack : ∀ x ∈ place cfg i d, ∀ j, IsFlushAck cfg c j x →
      (q'.facts c (cfg.leaderOf c)).closed = true ∨ j ∈ (q'.facts c (cfg.leaderOf c)).acks)
    (hnew : ∀ j, (q.facts c j).closed = false → (q'.facts c j).closed = true →
      j = cfg.leaderOf c ∨ ∃ x, q'.OnWay cfg c x ∧ IsFlushAck cfg c j x)
    (hlast : (q'.facts c (cfg.leaderOf c)).closed = false →
      (q'.facts c (cfg.leaderOf c)).acks.card < cfg.worker.filterAmount - 1) :
    Flushing cfg c q' := by
  refine ⟨ha.begun h.begun, fun j hj hne => ?_, fun j hj hne hc => ?_, hlast⟩
  · rcases h.ordered j hj hne with hc | ⟨x, hx, hp⟩
    · exact .inl (ha.closed hc)
    · by_cases hg : some x = place cfg i d
      · exact .inl (horder x hg.symm j hp hne)
      · exact .inr ⟨x, ha.stays x hx hg, hp⟩
  · by_cases hold : (q.facts c j).closed = true
    · rcases h.acked j hj hne hold with hl | hm | ⟨x, hx, hp⟩
      · exact .inl (ha.closed hl)
      · exact (hacks j hm).imp_right .inl
      · by_cases hg : some x = place cfg i d
        · exact (hack x hg.symm j hp).imp_right .inl
        · exact .inr (.inr ⟨x, ha.stays x hx hg, hp⟩)
    · rcases hnew j (Bool.eq_false_iff.mpr hold) hc with hl | hx
      · exact absurd hl hne
      · exact .inr (.inr hx)

/-- A turn that is not about the flush. -/
theorem Flushing.unmoved (h : Flushing cfg c q) (ha : Advance cfg c q q' i d outs)
    (hclosed : (q'.facts c i).closed = (q.facts c i).closed)
    (hacks : (q'.facts c i).acks = (q.facts c i).acks)
    (horder : ∀ x ∈ place cfg i d, ∀ j, IsControl cfg c .flushOrder j x → j ≠ cfg.leaderOf c →
      (q.facts c j).closed = true)
    (hack : ∀ x ∈ place cfg i d, ∀ j, IsFlushAck cfg c j x →
      (q.facts c (cfg.leaderOf c)).closed = true ∨ j ∈ (q.facts c (cfg.leaderOf c)).acks) :
    Flushing cfg c q' := by
  have hclosed : ∀ j, (q'.facts c j).closed = (q.facts c j).closed :=
    ha.same FilterFacts.closed hclosed
  have hacks : ∀ j, (q'.facts c j).acks = (q.facts c j).acks := ha.same FilterFacts.acks hacks
  refine h.keep ha (fun j hj => .inr (by rwa [hacks])) (fun x hg j hp hne => ?_)
    (fun x hg j hp => ?_) (fun j hopen hc => ?_) fun hopen => ?_
  · rw [hclosed]
    exact horder x hg j hp hne
  · rw [hclosed, hacks]
    exact hack x hg j hp
  · rw [hclosed, hopen] at hc
    cases hc
  · rw [hclosed] at hopen
    rw [hacks]
    exact h.last hopen

/-- A control message that is no order. -/
theorem Flushing.control {body : Bytes} {msgType : MessageType} {ctrl : ControlMessage}
    (h : Flushing cfg c q) (ha : Advance cfg c q q' i (.control body) outs)
    (hclosed : (q'.facts c i).closed = (q.facts c i).closed)
    (hacks : (q'.facts c i).acks = (q.facts c i).acks)
    (hp : parseMessage body = .ok (some msgType, c, ctrl)) (ht : msgType ≠ .flushOrder) :
    Flushing cfg c q' := by
  refine h.unmoved ha hclosed hacks (fun x hg j horder _ => ?_) fun x hg j hack =>
    (hack.not_control hg).elim
  obtain ⟨-, ctrl', hp'⟩ := horder.of_taken hg
  cases hp.symm.trans hp'
  exact absurd rfl ht

/-- A response that is no ack. -/
theorem Flushing.response {body : Bytes} {msgType : MessageType} {ctrl : ControlMessage}
    (h : Flushing cfg c q) (ha : Advance cfg c q q' i (.response body) outs)
    (hclosed : (q'.facts c i).closed = (q.facts c i).closed)
    (hacks : (q'.facts c i).acks = (q.facts c i).acks)
    (hp : parseMessage body = .ok (some msgType, c, ctrl)) (ht : msgType ≠ .flushAck) :
    Flushing cfg c q' := by
  refine h.unmoved ha hclosed hacks (fun x hg j horder _ => (horder.not_response hg).elim)
    fun x hg j hack => ?_
  exact absurd (IsAck.parse (hack.of_taken hg).2 hp) ht

/-- Replica `i` flushes the client, and its ack is on its way. -/
theorem Flushing.flush {body ack : Bytes} {batches : List (String × Bytes)}
    (h : Flushing cfg c q)
    (ha : Advance cfg c q q' i (.control body)
      (batches ++ [(cfg.worker.coordinator.responseQueueFor (cfg.leaderOf c), ack)]))
    (hne : i ≠ cfg.leaderOf c) (hclosed : (q'.facts c i).closed = true)
    (hack : (cfg.at i).IsAck c i ack) : Flushing cfg c q' := by
  have hleader : q'.facts c (cfg.leaderOf c) = q.facts c (cfg.leaderOf c) :=
    ha.others _ (Ne.symm hne)
  refine h.keep ha (fun j hj => .inr (by rwa [hleader])) (fun x hg j hp _ => ?_)
    (fun x hg j hp => (hp.not_control hg).elim) (fun j hopen hc => .inr ?_) fun hopen => ?_
  · obtain ⟨rfl, -⟩ := hp.of_taken hg
    exact hclosed
  · have hji : j = i := by
      by_contra hji
      rw [ha.others j hji, hopen] at hc
      cases hc
    subst hji
    refine ⟨_, (ha.fresh _ (List.mem_append_right _ List.mem_cons_self)).resolve_left fun hm =>
      hm.not_isAck j hack, rfl, hack⟩
  · rw [hleader] at hopen ⊢
    exact h.last hopen

/-- A step while the replicas flush. -/
theorem Flushing.step (h : Flushing cfg c q) (ht : Told cfg c q) (ha : Advance cfg c q q' i d outs)
    (hN : 1 < cfg.worker.filterAmount) : Flushing cfg c q' := by
  have hturn := ha.turn
  generalize hx : q'.facts c i = x' at hturn
  cases hturn with
  | idle habs hmute =>
    refine h.unmoved ha (by rw [hx]) (by rw [hx]) (fun x hg j hp hne => ?_) fun x hg j hp => ?_
    · cases d with
      | input body => cases hg
      | control body =>
        obtain ⟨rfl, ctrl, hparse⟩ := hp.of_taken hg
        refine ((habs _ ctrl hparse).2.2 rfl).resolve_right fun hl => hne (ht.leads j hl).1
      | response body => exact (hp.not_response hg).elim
    · cases d with
      | input body => cases hg
      | control body => exact (hp.not_control hg).elim
      | response body =>
        obtain ⟨rfl, hisAck⟩ := hp.of_taken hg
        rcases habs.2 j hisAck with hc | hl | hm
        · exact .inl hc
        · exact .inl (h.begun.resolve_left (by rw [hl]; exact nofun))
        · exact .inr hm
  | announce => exact h.unmoved ha (by rw [hx]) (by rw [hx]) nofun nofun
  | alone hin hone => exact absurd hN (Nat.not_lt.mpr hone)
  | answer hp => exact h.control ha (by rw [hx]) (by rw [hx]) hp nofun
  | recount hp => exact h.control ha (by rw [hx]) (by rw [hx]) hp nofun
  | flush hp hopen hl hmute hack =>
    obtain ⟨hid, hb⟩ := ht.ordered _ ha.known_control _ hp
    rw [hid] at ha
    refine h.flush ha ?_ (by rw [hx]) hack
    -- the leader of an ordered client leads it or has closed it
    rintro rfl
    rcases hb with hl' | hc
    · exact absurd (hl.symm.trans hl') nofun
    · exact absurd (hopen.symm.trans hc) nofun
  | collect hp => exact h.response ha (by rw [hx]) (by rw [hx]) hp nofun
  | endRound hp => exact h.response ha (by rw [hx]) (by rw [hx]) hp nofun
  | @ackMissing body j hp hopen hl hlt =>
    obtain ⟨rfl, -⟩ := ht.leads i hl
    refine h.keep ha (fun j hj => .inr ?_) (fun x hg j horder _ => (horder.not_response hg).elim)
      (fun x hg k hack => .inr ?_) (fun k hopen hc => ?_) fun _ => ?_
    · rw [hx]
      exact Finset.mem_insert_of_mem hj
    · obtain rfl := IsAck.sender (hack.of_taken hg).2 hp
      rw [hx]
      exact Finset.mem_insert_self ..
    · rw [ha.same FilterFacts.closed (by rw [hx]), hopen] at hc
      cases hc
    · rw [hx]
      exact (Finset.card_insert_le _ _).trans_lt hlt
  | ackLast hp hopen hl hmute =>
    obtain ⟨rfl, -⟩ := ht.leads i hl
    have hc : (q'.facts c (cfg.leaderOf c)).closed = true := by rw [hx]
    refine h.keep ha (fun j hj => .inl hc) (fun x hg j horder _ => (horder.not_response hg).elim)
      (fun x hg j hack => .inl hc) (fun j hopen' hc' => ?_) fun hopen' => ?_
    · by_cases hj : j = cfg.leaderOf c
      · exact .inl hj
      · rw [ha.others j hj, hopen'] at hc'
        cases hc'
    · exact absurd (hopen'.symm.trans hc) nofun

end moves

/-! ## The steps of the queues -/

section steps
variable {cfg} {sys sys' : FilterSystem} {i : Nat}

/-- A section that returns. -/
theorem system_section {thread : FilterThread} {act : FilterAct} {task : Option FilterTask}
    (he : sys.runSection cfg.toFilterClusterConfig i thread act task .returns = some sys') :
    FilterSystem.Sectioned cfg.toFilterClusterConfig sys sys' i act .returns ∧
    sys'.tasks = Function.update sys.tasks i (Function.update (sys.tasks i) thread task) := by
  have he : (sys.locked cfg.toFilterClusterConfig i act .returns).map (·.setTask i thread task) =
      some sys' := he
  obtain ⟨sys₁, hl, rfl⟩ := Option.map_eq_some_iff.mp he
  obtain ⟨hs, htasks⟩ := FilterSystem.sectioned_locked hl
  refine ⟨⟨hs.exec, hs.others, hs.published⟩, ?_⟩
  simp only [FilterSystem.setTask, htasks]

/-- A delivery to an idle thread. -/
theorem system_deliver {d : Delivery} {sumSeq : String → Nat}
    (he : sys.exec cfg.toFilterClusterConfig (.deliver i d sumSeq .returns) = some sys') :
    sys.tasks i d.thread = none ∧
    FilterSystem.Sectioned cfg.toFilterClusterConfig sys sys' i (.deliver d sumSeq) .returns ∧
    sys'.tasks = Function.update sys.tasks i (Function.update (sys.tasks i) d.thread
      (FilterTask.of
        ((sys.cluster.replicas i).instruction (cfg.at i) (.deliver d sumSeq) .returns))) := by
  simp only [FilterSystem.exec] at he
  split at he
  · next hidle =>
    obtain ⟨hs, htasks⟩ := system_section he
    exact ⟨Option.isNone_iff_eq_none.mp hidle.1, hs, htasks⟩
  · cases he

/-- A commit of a message whose outputs are all published. -/
theorem system_commit {thread : FilterThread}
    (he : sys.exec cfg.toFilterClusterConfig (.commit i thread .returns) = some sys') : ∃ key,
    sys.tasks i thread = some ⟨key, []⟩ ∧
    FilterSystem.Sectioned cfg.toFilterClusterConfig sys sys' i (.commitDone key) .returns ∧
    sys'.tasks =
      Function.update sys.tasks i (Function.update (sys.tasks i) thread none) := by
  simp only [FilterSystem.exec] at he
  split at he
  · next key ht => exact ⟨key, ht, system_section he⟩
  · cases he

/-- A publication. -/
theorem system_publish {thread : FilterThread}
    (he : sys.exec cfg.toFilterClusterConfig (.publish i thread true) = some sys') :
    ∃ key entry remaining, sys.tasks i thread = some ⟨key, entry :: remaining⟩ ∧
      sys'.cluster = sys.cluster ∧ sys'.published = sys.published ++ [⟨i, key.clientId, entry⟩] ∧
      sys'.tasks =
        Function.update sys.tasks i
          (Function.update (sys.tasks i) thread (some ⟨key, remaining⟩)) := by
  simp only [FilterSystem.exec] at he
  split at he
  · next key entry remaining ht =>
    rw [if_pos trivial] at he
    cases he
    exact ⟨key, entry, remaining, ht, rfl, rfl, rfl⟩
  · cases he

/-- A commit whose record has an encoding does not raise. -/
theorem instruction_commitDone {cfg : FilterConfig} {w : FilterWorker} {key : InputKey}
    (he : ∃ bytes, Wal.encode cfg.handler.json (.inputDone (cfg.handler.msgId key) key) =
      .ok bytes) : w.instruction cfg (.commitDone key) .returns = some .ack := by
  obtain ⟨bytes, hb⟩ := he
  have happend : Handler.walAppend cfg.handler (.ok ⟨⟩)
      (.inputDone (cfg.handler.msgId key) key) = .ok bytes := by
    rw [Handler.walAppend, hb]
    rfl
  have hack : ∀ h : Handler FilterState, (h.maybeSnapshot cfg.handler).instruction = .ack := by
    intro h
    unfold Handler.maybeSnapshot
    split <;> rfl
  simp only [FilterWorker.instruction, FilterWorker.sectionOf, Outcome.write]
  cases heff : (w.prepared cfg (.commitDone key)).effect cfg.handler (.ok ⟨⟩)
      (.commitDone key) with
  | error e =>
    rw [Node.effect, Handler.commitDone, happend] at heff
    cases heff
  | ok effect =>
    rw [Node.effect, Handler.commitDone, happend] at heff
    cases heff
    exact congrArg some (hack _)

/-- A commit touches neither the state nor the applied inputs. -/
theorem quiet_commit {key : InputKey}
    (hs : FilterSystem.Sectioned cfg.toFilterClusterConfig sys sys' i (.commitDone key) .returns)
    (he : ∃ bytes, Wal.encode (cfg.at i).handler.json
      (.inputDone ((cfg.at i).handler.msgId key) key) = .ok bytes) :
    (sys'.cluster.replicas i).state = (sys.cluster.replicas i).state ∧
    (sys'.cluster.replicas i).node.history = (sys.cluster.replicas i).node.history ++
      [.inputDone ((cfg.at i).handler.msgId key) key] := by
  have hi := instruction_commitDone (w := sys.cluster.replicas i) he
  obtain ⟨call, effect, hc, heff, -, hnode⟩ := FilterWorker.call_of_instruction rfl hi hs.exec
  cases hc
  constructor
  · have heff' := heff
    simp only [Node.effect, Handler.commitDone] at heff'
    obtain ⟨bytes, -, heff'⟩ := Except.ok_of_bind heff'
    cases heff'
    rw [FilterWorker.state, hnode, Node.call, heff]
    simp only [Handler.maybeSnapshot]
    split <;> rfl
  · rw [hnode, Node.history_commitDone heff]
    rfl

end steps

/-! ### What every step keeps -/

section sound
variable (c : Nat) (q : FilterQueues)

/-- What the histories, the tasks and the data queues say about a client. -/
structure Sound : Prop where
  acked : FilterSystem.Acked cfg.toFilterClusterConfig q.system
  fits : ∀ i key, q.system.Applied i key → key.clientId = c → Fits (q.facts c i) key
  inputs : ∀ x ∈ q.inputs, x ∈ q.arrived
  leader : ∀ x ∈ q.arrived, IsEof c x.2 → x.1 = cfg.leaderOf c ∧ x.1 < cfg.worker.filterAmount
  arrived : ∀ x ∈ q.arrived, IsEof c x.2 → x ∈ q.inputs ∨ Begun cfg c q
  held : ∀ i m key change entries,
    .inputApplied m key change entries ∈ (q.system.cluster.replicas i).node.history →
    ∀ e ∈ entries, ⟨i, key.clientId, e⟩ ∈ q.system.published ∨
      ∃ thread task, q.system.tasks i thread = some task ∧ task.key = key ∧ e ∈ task.remaining
  ends : ∀ i key, q.system.Applied i key → ∃ bytes, Wal.encode (cfg.at i).handler.json
    (.inputDone ((cfg.at i).handler.msgId key) key) = .ok bytes
  ran : ∀ i thread task, q.system.tasks i thread = some task → i < cfg.worker.filterAmount
  emits : (q.facts c (cfg.leaderOf c)).closed = true → ∃ m key change entries,
    .inputApplied m key change entries ∈
      (q.system.cluster.replicas (cfg.leaderOf c)).node.history ∧ key.clientId = c ∧
    ((cfg.at (cfg.leaderOf c)).eofTotals entries).map Prod.fst =
      (cfg.at (cfg.leaderOf c)).eofTargets.map Prod.fst

end sound

section soundness
variable {cfg} {c i : Nat} {q q' : FilterQueues}

/-- The outputs in the hands of a thread are stamped. -/
theorem Sound.stamped (h : Sound cfg c q) {thread : FilterThread} {task : FilterTask}
    (ht : q.system.tasks i thread = some task) {x : String × Bytes}
    (hx : x ∈ task.remaining.map OutboxEntry.parcel) :
    (q.system.cluster.replicas i).Stamped x := by
  obtain ⟨m, change, sent, hm, -⟩ := h.acked.tasks i thread task ht
  refine ⟨m, _, change, _, hm, ?_⟩
  rw [List.map_append]
  exact List.mem_append_right _ hx

/-- What the inbox does not take for new was recorded, as far as the rounds are concerned. -/
theorem Sound.fits_of_not_new (h : Sound cfg c q) {key : InputKey} (hc : key.clientId = c)
    (hold : (q.system.cluster.replicas i).node.handler.inbox.classify key ≠ .new)
    (hkind : key.kind = .data ∨ key.kind = .abort ∨ key.seq = key.clientId) :
    Fits (q.facts c i) key := by
  by_cases hd : key.kind = .data ∨ key.kind = .abort
  · exact .of_input hd
  · obtain ⟨hdata, habort⟩ := not_or.mp hd
    have hseq := (hkind.resolve_left hdata).resolve_left habort
    refine h.fits i key ?_ hc
    cases hs : (q.system.cluster.replicas i).node.handler.inbox.classify key with
    | new => exact absurd hs hold
    | done => exact h.acked.applied_of_done hs hdata habort hseq
    | applied =>
      rw [Inbox.classify_eq_applied_iff, Node.Inv.inbox (h.acked.durable i)] at hs
      obtain ⟨change, outputs, hm, -⟩ := (h.acked.durable i).admissible.inFlight hs
      exact ⟨_, change, outputs, hm⟩

/-- A step that delivers nothing. -/
theorem Advance.of_still (hi : i < cfg.worker.filterAmount)
    (hfacts : ∀ j, q'.facts c j = q.facts c j) (hknown : ∀ x, q'.Known x → q.Known x)
    (hstays : ∀ x, q.OnWay cfg c x → q'.OnWay cfg c x) :
    Advance cfg c q q' i (.input []) [] where
  lt := hi
  turn := by
    rw [hfacts]
    refine .idle ?_ nofun
    rintro ⟨m, ctrl, hm, -⟩
    cases hm
  others j _ := hfacts j
  taken := nofun
  eof := by
    rintro body hd ⟨m, ctrl, hm, -⟩
    cases hd
    cases hm
  known x hx := .inl (hknown x hx)
  stays x hx _ := hstays x hx
  fresh := nofun

theorem Sound.arrive {body : Bytes} (h : Sound cfg c q)
    (ha : allowed cfg c q (.arrive i body)) (he : exec cfg q (.arrive i body) = some q') :
    Sound cfg c q' ∧ Advance cfg c q q' i (.input []) [] := by
  cases he
  refine ⟨⟨h.acked, h.fits, fun x hx => ?_, fun x hx heof => ?_, fun x hx heof => ?_, h.held,
    h.ends, h.ran, h.emits⟩, .of_still ha.1 (fun _ => rfl) (fun _ hx => hx) fun _ hx => hx⟩
  · exact (List.mem_append.mp hx).elim (fun hx => List.mem_append_left _ (h.inputs x hx))
      (List.mem_append_right _)
  · rcases List.mem_append.mp hx with hx | hx
    · exact h.leader x hx heof
    · cases List.mem_singleton.mp hx
      obtain ⟨m, ctrl, hm, ht, rfl, -⟩ := heof
      have hd := ha.2
      exact ⟨by simpa [FilterCluster.deliverable, hm, ht] using hd, ha.1⟩
  · rcases List.mem_append.mp hx with hx | hx
    · exact (h.arrived x hx heof).imp_left (List.mem_append_left _)
    · exact .inl (List.mem_append_right _ hx)

/-- The tasks after one of them changed. -/
theorem task_cases {tasks : Nat → FilterThread → Option FilterTask} {thread thread' : FilterThread}
    {new : Option FilterTask} {j : Nat} {task : FilterTask}
    (h : Function.update tasks i (Function.update (tasks i) thread new) j thread' = some task) :
    tasks j thread' = some task ∧ ¬ (j = i ∧ thread' = thread) ∨
      j = i ∧ thread' = thread ∧ new = some task := by
  by_cases hj : j = i
  · subst hj
    rw [Function.update_self] at h
    by_cases hth : thread' = thread
    · subst hth
      rw [Function.update_self] at h
      exact .inr ⟨rfl, rfl, h⟩
    · rw [Function.update_of_ne hth] at h
      exact .inl ⟨h, fun hh => hth hh.2⟩
  · rw [Function.update_of_ne hj] at h
    exact .inl ⟨h, fun hh => hj hh.1⟩

theorem task_other {tasks : Nat → FilterThread → Option FilterTask} {thread thread' : FilterThread}
    {new : Option FilterTask} {j : Nat} (h : ¬ (j = i ∧ thread' = thread)) :
    Function.update tasks i (Function.update (tasks i) thread new) j thread' = tasks j thread' := by
  by_cases hj : j = i
  · subst hj
    rw [Function.update_self, Function.update_of_ne fun hth => h ⟨rfl, hth⟩]
  · rw [Function.update_of_ne hj]

/-- An idle thread takes a task, and the others keep theirs. -/
theorem task_kept {tasks tasks' : Nat → FilterThread → Option FilterTask}
    {thread thread' : FilterThread} {new : Option FilterTask} {j : Nat} {task : FilterTask}
    (hidle : tasks i thread = none)
    (htasks : tasks' = Function.update tasks i (Function.update (tasks i) thread new))
    (h : tasks j thread' = some task) : tasks' j thread' = some task := by
  rw [htasks, task_other]
  · exact h
  · rintro ⟨rfl, rfl⟩
    cases h.symm.trans hidle

theorem task_started {tasks tasks' : Nat → FilterThread → Option FilterTask}
    {thread : FilterThread} {new : Option FilterTask}
    (htasks : tasks' = Function.update tasks i (Function.update (tasks i) thread new)) :
    tasks' i thread = new := by
  rw [htasks, Function.update_self, Function.update_self]

theorem Sound.commit {thread : FilterThread} (h : Sound cfg c q)
    (ha : allowed cfg c q (.commit i thread)) (he : exec cfg q (.commit i thread) = some q') :
    Sound cfg c q' ∧ Advance cfg c q q' i (.input []) [] := by
  obtain ⟨system, hsystem, rfl⟩ := Option.map_eq_some_iff.mp he
  obtain ⟨key, htask, hs, htasks⟩ := system_commit hsystem
  obtain ⟨hstate, hhistory⟩ :=
    quiet_commit hs (h.ends i key (h.acked.tasks i thread _ htask).applied)
  have hfacts : ∀ j, facts c { q with system } j = q.facts c j := by
    intro j
    by_cases hj : j = i
    · subst hj
      simp only [facts, hstate]
    · simp only [facts, hs.others j hj]
  have hrecord : ∀ {j m key change entries},
      .inputApplied m key change entries ∈ (system.cluster.replicas j).node.history ↔
        .inputApplied m key change entries ∈ (q.system.cluster.replicas j).node.history := by
    intro j m key change entries
    by_cases hj : j = i
    · subst hj
      simp [hhistory]
    · rw [hs.others j hj]
  -- the thread has nothing left to publish
  have hkeep : ∀ {j thread' task} {e : OutboxEntry}, q.system.tasks j thread' = some task →
      e ∈ task.remaining → system.tasks j thread' = some task := by
    intro j thread' task e ht hm
    rw [htasks, task_other]
    · exact ht
    · rintro ⟨rfl, rfl⟩
      cases ht.symm.trans htask
      cases hm
  refine ⟨⟨h.acked.exec hsystem, fun j key' happ hc => ?_, h.inputs, h.leader, fun x hx heof => ?_,
    fun j m key' change entries hm e hmem => ?_, fun j key' happ => ?_, fun j thread' task ht => ?_,
    fun hc => ?_⟩, .of_still ha hfacts (fun x hx => ?_) fun x hx => ?_⟩
  · rw [hfacts]
    obtain ⟨m, change, outputs, hm⟩ := happ
    exact h.fits j key' ⟨m, change, outputs, hrecord.mp hm⟩ hc
  · simpa only [Begun, hfacts] using h.arrived x hx heof
  · rcases h.held j m key' change entries (hrecord.mp hm) e hmem with
      hp | ⟨thread', task, ht, hk, he⟩
    · exact .inl (hs.published.symm ▸ hp)
    · exact .inr ⟨thread', task, hkeep ht he, hk, he⟩
  · obtain ⟨m, change, outputs, hm⟩ := happ
    exact h.ends j key' ⟨m, change, outputs, hrecord.mp hm⟩
  · rw [htasks] at ht
    rcases task_cases ht with ⟨ht, -⟩ | ⟨-, -, ht⟩
    · exact h.ran j thread' task ht
    · cases ht
  · rw [hfacts] at hc
    obtain ⟨m, key', change, entries, hm, hrest⟩ := h.emits hc
    exact ⟨m, key', change, entries, hrecord.mpr hm, hrest⟩
  · rcases hx with hx | ⟨j, m, key', change, entries, hm, hx⟩
    · exact .inl hx
    · exact .inr ⟨j, m, key', change, entries, hrecord.mp hm, hx⟩
  · rcases hx with hx | ⟨j, hj, thread', task, ht, hc, hx⟩
    · exact .inl hx
    · obtain ⟨e, he, -⟩ := List.mem_map.mp hx
      exact .inr ⟨j, hj, thread', task, hkeep ht he, hc, hx⟩

theorem Sound.publish {thread : FilterThread} (h : Sound cfg c q)
    (ha : allowed cfg c q (.publish i thread)) (he : exec cfg q (.publish i thread) = some q') :
    Sound cfg c q' ∧ Advance cfg c q q' i (.input []) [] := by
  obtain ⟨system, hsystem, rfl⟩ := Option.map_eq_some_iff.mp he
  obtain ⟨key, entry, remaining, htask, hcluster, hpublished, htasks⟩ := system_publish hsystem
  have hparcel : q.nextParcel i thread = [entry.parcel] := by
    rw [nextParcel, htask]
    rfl
  have hfacts : ∀ j, facts c { q with system, queues := q.queues ++ q.nextParcel i thread } j =
      q.facts c j := fun j => by simp only [facts, hcluster]
  refine ⟨⟨h.acked.exec hsystem, fun j key' happ hc => ?_, h.inputs, h.leader, fun x hx heof => ?_,
    fun j m key' change entries hm e hmem => ?_, fun j key' happ => ?_, fun j thread' task ht => ?_,
    fun hc => ?_⟩, .of_still ha hfacts (fun x hx => ?_) fun x hx => ?_⟩
  · rw [hfacts]
    exact h.fits j key' (by simpa only [FilterSystem.Applied, hcluster] using happ) hc
  · simpa only [Begun, hfacts] using h.arrived x hx heof
  · rw [hcluster] at hm
    rw [hpublished]
    rcases h.held j m key' change entries hm e hmem with hp | ⟨thread', task, ht, hk, he⟩
    · exact .inl (List.mem_append_left _ hp)
    · by_cases hth : j = i ∧ thread' = thread
      · obtain ⟨rfl, rfl⟩ := hth
        cases ht.symm.trans htask
        subst hk
        rcases List.mem_cons.mp he with rfl | he
        · exact .inl (List.mem_append_right _ List.mem_cons_self)
        · refine .inr ⟨thread', ⟨key, remaining⟩, ?_, rfl, he⟩
          rw [htasks, Function.update_self, Function.update_self]
      · refine .inr ⟨thread', task, ?_, hk, he⟩
        rw [htasks, task_other hth]
        exact ht
  · exact h.ends j key' (by simpa only [FilterSystem.Applied, hcluster] using happ)
  · rw [htasks] at ht
    rcases task_cases ht with ⟨ht, -⟩ | ⟨rfl, -, -⟩
    · exact h.ran j thread' task ht
    · exact ha
  · rw [hfacts] at hc
    simpa only [hcluster] using h.emits hc
  · rcases hx with hx | ⟨j, hx⟩
    · rcases List.mem_append.mp hx with hx | hx
      · exact .inl hx
      · rw [hparcel] at hx
        cases List.mem_singleton.mp hx
        exact .inr ⟨i, h.stamped htask (List.mem_map_of_mem List.mem_cons_self)⟩
    · rw [hcluster] at hx
      exact .inr ⟨j, hx⟩
  · rcases hx with hx | ⟨j, hj, thread', task, ht, hc, hx⟩
    · exact .inl (List.mem_append_left _ hx)
    · by_cases hth : j = i ∧ thread' = thread
      · obtain ⟨rfl, rfl⟩ := hth
        cases ht.symm.trans htask
        rcases List.mem_cons.mp hx with rfl | hx
        · exact .inl (List.mem_append_right _ (hparcel ▸ List.mem_cons_self))
        · refine .inr ⟨j, hj, thread', ⟨key, remaining⟩, ?_, hc, hx⟩
          rw [htasks, Function.update_self, Function.update_self]
      · refine .inr ⟨j, hj, thread', task, ?_, hc, hx⟩
        rw [htasks, task_other hth]
        exact ht

/-- The announcement of an EOF is never a response. -/
theorem Told.noAnnouncement {d : Delivery} (h : Told cfg c q) (hw : q.Waits cfg i d) :
    NoAnnouncement c d := by
  cases d with
  | input body | control body => trivial
  | response body =>
    intro ctrl hp
    obtain ⟨⟨j, hj⟩, -⟩ := h.announced _ (.inl hw) ctrl hp
    exact cfg.worker.controlQueueFor_ne_responseQueueFor j i hj.symm

theorem taken_of_waits {d : Delivery} (hw : q.Waits cfg i d) :
    ∀ x ∈ place cfg i d, x ∈ q.queues := by
  intro x hx
  cases d with
  | input body => cases hx
  | control body | response body =>
    cases Option.mem_some_iff.mp hx
    exact hw

/-- A record after a delivery was there before, or is the one of the message. -/
theorem record_cases {d : Delivery} {sumSeq : String → Nat} {outs : List (String × Bytes)}
    {system : FilterSystem}
    (hs : FilterSystem.Sectioned cfg.toFilterClusterConfig q.system system i
      (.deliver d sumSeq) .returns)
    (hd : (q.system.cluster.replicas i).Delivered (cfg.at i) c (system.cluster.replicas i) d sumSeq
      outs) {j : Nat} {m : String} {key : InputKey} {change : FilterChange}
    {entries : List OutboxEntry}
    (hm : .inputApplied m key change entries ∈ (system.cluster.replicas j).node.history) :
    .inputApplied m key change entries ∈ (q.system.cluster.replicas j).node.history ∨
      j = i ∧ outs = entries.map OutboxEntry.parcel ∧
      (key.clientId = c → Fits ((system.cluster.replicas i).state.facts c) key) ∧
      (q.system.cluster.replicas i).instruction (cfg.at i) (.deliver d sumSeq) .returns =
        some (.publishThenCommit entries ((cfg.at i).handler.msgId key) key) ∧
      ∃ bytes, Wal.encode (cfg.at i).handler.json
        (.inputDone ((cfg.at i).handler.msgId key) key) = .ok bytes := by
  by_cases hj : j = i
  · subst hj
    exact (hd.record_cases hm).imp_right fun hnew => ⟨rfl, hnew⟩
  · exact .inl (hs.others j hj ▸ hm)

/-- A delivery as a turn of the cluster. -/
theorem Sound.advance_deliver {d : Delivery} {sumSeq : String → Nat} {outs : List (String × Bytes)}
    {system : FilterSystem} (h : Sound cfg c q) (hi : i < cfg.worker.filterAmount)
    (hw : q.Waits cfg i d) (hidle : q.system.tasks i d.thread = none)
    (hs : FilterSystem.Sectioned cfg.toFilterClusterConfig q.system system i
      (.deliver d sumSeq) .returns)
    (htasks : system.tasks = Function.update q.system.tasks i
      (Function.update (q.system.tasks i) d.thread (FilterTask.of
        ((q.system.cluster.replicas i).instruction (cfg.at i) (.deliver d sumSeq) .returns))))
    (hd : (q.system.cluster.replicas i).Delivered (cfg.at i) c (system.cluster.replicas i) d sumSeq
      outs) :
    Advance cfg c q { q.take cfg i d with
      system
      queues := (q.take cfg i d).queues ++
        ((q.system.cluster.replicas i).sectionOf (cfg.at i) (.deliver d sumSeq)).sends }
      i d outs := by
  refine ⟨hi, ?_, fun j hj => ?_, taken_of_waits hw, ?_, fun x hx => ?_, fun x hx hne => ?_,
    fun x hx => ?_⟩
  · cases hd with
    | quiet turn => exact turn
    | recorded turn => exact turn
  · simp only [facts, hs.others j hj]
  · rintro body rfl heof
    exact (h.leader (i, body) (h.inputs _ hw) heof).1
  · rcases hx with hx | ⟨j, m, key, change, entries, hm, hx⟩
    · rcases List.mem_append.mp hx with hx | hx
      · exact .inl (.inl (mem_of_mem_queues_erase hx))
      · cases hd with
        | quiet _ _ _ _ released =>
          exact (released x (List.mem_append_left _ hx)).symm.imp_left fun hst => .inr ⟨i, hst⟩
        | recorded _ _ _ _ _ _ _ sends =>
          rw [sends] at hx
          cases hx
    · rcases record_cases hs hd hm with hm | ⟨rfl, rfl, -⟩
      · exact .inl (.inr ⟨j, m, key, change, entries, hm, hx⟩)
      · exact .inr hx
  · rcases hx with hx | ⟨j, hj, thread, task, ht, hc, hx⟩
    · exact .inl (List.mem_append_left _ (mem_queues_erase hx hne))
    · exact .inr ⟨j, hj, thread, task, task_kept hidle htasks ht, hc, hx⟩
  · cases hd with
    | quiet _ _ _ fresh => exact .inr (.inl (List.mem_append_right _ (fresh x hx)))
    | @recorded key change entries _ _ _ elsewhere _ _ instruction =>
      by_cases hk : key.clientId = c
      · refine .inr (.inr ⟨i, hi, d.thread, ⟨key, entries⟩, ?_, hk, hx⟩)
        exact (task_started htasks).trans (by rw [instruction]; rfl)
      · exact .inl (elsewhere hk x hx)

/-- An upstream EOF that is delivered is taken, or was before. -/
theorem Advance.begun_of_eof {body : Bytes} {outs : List (String × Bytes)}
    (ha : Advance cfg c q q' i (.input body) outs) (heof : IsEof c body) : Begun cfg c q' := by
  obtain rfl := ha.eof body rfl heof
  have hturn := ha.turn
  generalize hx : q'.facts c (cfg.leaderOf c) = x' at hturn
  unfold Begun
  rw [hx]
  cases hturn with
  | idle habs => exact habs heof
  | announce => exact .inl rfl
  | alone => exact .inr rfl

/-- A client is closed at its leader with the record of its EOFs. -/
theorem Sound.emits_deliver {d : Delivery} {sumSeq : String → Nat} {outs : List (String × Bytes)}
    {w' : FilterWorker} (ht : Told cfg c q) (hw : q.Waits cfg (cfg.leaderOf c) d)
    (habort : Spares c d)
    (hd : (q.system.cluster.replicas (cfg.leaderOf c)).Delivered (cfg.at (cfg.leaderOf c)) c w' d
      sumSeq outs)
    (hopen : (q.facts c (cfg.leaderOf c)).closed = false) (hclosed : w'.state.isClosed c = true) :
    ∃ m key change entries, .inputApplied m key change entries ∈ w'.node.history ∧
      key.clientId = c ∧
      ((cfg.at (cfg.leaderOf c)).eofTotals entries).map Prod.fst =
        (cfg.at (cfg.leaderOf c)).eofTargets.map Prod.fst := by
  have hopen' : (q.system.cluster.replicas (cfg.leaderOf c)).state.isClosed c = false := hopen
  cases hd with
  | quiet _ closed => exact absurd (hclosed.symm.trans (closed.trans hopen')) nofun
  | @recorded key change entries _ _ closes _ hr history =>
    have hclose : .close c ∈ change.ops :=
      (closes hclosed).resolve_left (by rw [hopen']; exact nofun)
    have hkind : key.clientId = c → key.kind ≠ .abort := fun hk hkind =>
      habort key (hr.packetKey hkind) hk hkind
    obtain ⟨hk, htotals | ⟨-, hleader, body, ctrl, rfl, hp⟩⟩ := hr.emits hclose hkind
    · refine ⟨(cfg.at (cfg.leaderOf c)).handler.msgId key, key, change, entries, ?_, hk, htotals⟩
      rw [history]
      exact List.mem_append_right _ List.mem_cons_self
    · -- the leader of an ordered client leads it or has closed it
      rcases (ht.ordered _ (.inl hw) ctrl hp).2 with hl | hc
      · simp only [facts, FilterState.facts, FilterWorker.state, Option.isSome_iff_ne_none] at hl
        exact absurd hleader hl
      · exact absurd (hopen.symm.trans hc) nofun

/-- A message whose handler raises. -/
theorem Sound.raise {d : Delivery} {sumSeq : String → Nat} {system : FilterSystem}
    (h : Sound cfg c q) (hi : i < cfg.worker.filterAmount)
    (hraise : ¬ (q.system.cluster.replicas i).Returns (cfg.at i) d sumSeq)
    (hsame : ((cfg.at i).mutated (q.system.cluster.replicas i).node.handler sumSeq d).facts c =
      q.facts c i)
    (hsystem : q.system.exec cfg.toFilterClusterConfig (.deliver i d sumSeq .returns) =
      some system) :
    Sound cfg c { q with system } ∧ Advance cfg c q { q with system } i (.input []) [] := by
  obtain ⟨hidle, hs, htasks⟩ := system_deliver hsystem
  obtain ⟨hins, hstate, hhistory⟩ := FilterWorker.raised hraise hs.exec
  have hfacts : ∀ j, facts c { q with system } j = q.facts c j := by
    intro j
    by_cases hj : j = i
    · subst hj
      rw [← hsame, ← hstate, facts]
    · simp only [facts, hs.others j hj]
  have hrecords : ∀ j, (system.cluster.replicas j).node.history =
      (q.system.cluster.replicas j).node.history := by
    intro j
    by_cases hj : j = i
    · exact hj ▸ hhistory
    · rw [hs.others j hj]
  -- the thread had no task, and has none
  have hkeep : system.tasks = q.system.tasks := by
    rw [htasks, hins, show FilterTask.of none = q.system.tasks i d.thread from hidle.symm,
      Function.update_eq_self, Function.update_eq_self]
  refine ⟨⟨h.acked.exec hsystem, fun j key happ hc => ?_, h.inputs, h.leader, fun x hx heof => ?_,
    fun j m key change entries hm e hmem => ?_, fun j key happ => ?_, fun j thread task ht => ?_,
    fun hc => ?_⟩, .of_still hi hfacts (fun x hx => ?_) fun x hx => ?_⟩
  · rw [hfacts]
    exact h.fits j key (by simpa only [FilterSystem.Applied, hrecords] using happ) hc
  · simpa only [Begun, hfacts] using h.arrived x hx heof
  · simpa only [hs.published, hkeep] using h.held j m key change entries (hrecords j ▸ hm) e hmem
  · exact h.ends j key (by simpa only [FilterSystem.Applied, hrecords] using happ)
  · exact h.ran j thread task (hkeep ▸ ht)
  · rw [hfacts] at hc
    simpa only [hrecords] using h.emits hc
  · rcases hx with hx | ⟨j, m, key, change, entries, hm, hx⟩
    · exact .inl hx
    · exact .inr ⟨j, m, key, change, entries, hrecords j ▸ hm, hx⟩
  · simpa only [OnWay, hkeep] using hx

/-- An upstream EOF that came is still on its queue, or was taken. -/
theorem Sound.arrived_deliver {d : Delivery} {outs : List (String × Bytes)} (h : Sound cfg c q)
    (ha : Advance cfg c q q' i d outs) (hinputs : q'.inputs = (q.take cfg i d).inputs)
    {x : Nat × Bytes} (hx : x ∈ q.arrived) (heof : IsEof c x.2) :
    x ∈ q'.inputs ∨ Begun cfg c q' := by
  rw [hinputs]
  rcases h.arrived x hx heof with hin | hb
  · cases d with
    | input body =>
      by_cases hx' : x = (i, body)
      · subst hx'
        exact .inr (ha.begun_of_eof heof)
      · exact .inl ((List.mem_erase_of_ne hx').mpr hin)
    | control body | response body => exact .inl hin
  · exact .inr (ha.begun hb)

/-- What was stamped is published, or in the hands of a thread. -/
theorem Sound.held_deliver {d : Delivery} {sumSeq : String → Nat} {outs : List (String × Bytes)}
    {system : FilterSystem} (h : Sound cfg c q) (hidle : q.system.tasks i d.thread = none)
    (hs : FilterSystem.Sectioned cfg.toFilterClusterConfig q.system system i
      (.deliver d sumSeq) .returns)
    (htasks : system.tasks = Function.update q.system.tasks i
      (Function.update (q.system.tasks i) d.thread (FilterTask.of
        ((q.system.cluster.replicas i).instruction (cfg.at i) (.deliver d sumSeq) .returns))))
    (hd : (q.system.cluster.replicas i).Delivered (cfg.at i) c (system.cluster.replicas i) d sumSeq
      outs) {j : Nat} {m : String} {key : InputKey} {change : FilterChange}
    {entries : List OutboxEntry}
    (hm : .inputApplied m key change entries ∈ (system.cluster.replicas j).node.history)
    {e : OutboxEntry} (hmem : e ∈ entries) :
    ⟨j, key.clientId, e⟩ ∈ system.published ∨ ∃ thread task,
      system.tasks j thread = some task ∧ task.key = key ∧ e ∈ task.remaining := by
  rcases record_cases hs hd hm with hm | ⟨rfl, -, -, hins, -⟩
  · rcases h.held j m key change entries hm e hmem with hp | ⟨thread, task, htask, hk, he⟩
    · exact .inl (hs.published.symm ▸ hp)
    · exact .inr ⟨thread, task, task_kept hidle htasks htask, hk, he⟩
  · exact .inr ⟨d.thread, ⟨key, entries⟩, (task_started htasks).trans (by rw [hins]; rfl), rfl,
      hmem⟩

/-- A message whose handler returns. -/
theorem Sound.deliver {d : Delivery} {sumSeq : String → Nat} {system : FilterSystem}
    (h : Sound cfg c q) (ht : Told cfg c q) (hi : i < cfg.worker.filterAmount)
    (hw : q.Waits cfg i d)
    (hret : (q.system.cluster.replicas i).Returns (cfg.at i) d sumSeq) (habort : Spares c d)
    (hheard : (cfg.at i).Heard c (q.system.cluster.replicas i).node.handler d)
    (hsystem : q.system.exec cfg.toFilterClusterConfig (.deliver i d sumSeq .returns) =
      some system)
    (hq' : q' = { q.take cfg i d with
      system
      queues := (q.take cfg i d).queues ++
        ((q.system.cluster.replicas i).sectionOf (cfg.at i) (.deliver d sumSeq)).sends }) :
    Sound cfg c q' ∧ ∃ outs, Advance cfg c q q' i d outs := by
  subst hq'
  obtain ⟨hidle, hs, htasks⟩ := system_deliver hsystem
  obtain ⟨outs, hd⟩ := (h.acked.durable i).delivered (cfg.plainQueues i) hret (ht.noAnnouncement hw)
    habort hheard (fun key hc hold hkind => h.fits_of_not_new hc hold hkind) hs.exec
  have hadvance := h.advance_deliver hi hw hidle hs htasks hd
  have hkept : ∀ {j key}, q.system.Applied j key → key.clientId = c →
      Fits (facts c { q with system } j) key := by
    intro j key happ hc
    by_cases hj : j = i
    · subst hj
      exact (h.fits j key happ hc).turn hadvance.turn
    · have hsame : facts c { q with system } j = q.facts c j := hadvance.others j hj
      exact hsame ▸ h.fits j key happ hc
  refine ⟨⟨h.acked.exec hsystem, fun j key happ hc => ?_, fun x hx => ?_, h.leader,
    fun x hx heof => h.arrived_deliver hadvance rfl hx heof,
    fun j m key change entries hm e hmem => h.held_deliver hidle hs htasks hd hm hmem,
    fun j key happ => ?_, fun j thread task htask => ?_, fun hclosed => ?_⟩, outs, hadvance⟩
  · obtain ⟨m, change, entries, hm⟩ := happ
    rcases record_cases hs hd hm with hm | ⟨rfl, -, hfits, -⟩
    · exact hkept ⟨m, change, entries, hm⟩ hc
    · exact hfits hc
  · refine h.inputs x ?_
    cases d with
    | input body => exact List.mem_of_mem_erase hx
    | control body | response body => exact hx
  · obtain ⟨m, change, entries, hm⟩ := happ
    rcases record_cases hs hd hm with hm | ⟨rfl, -, -, -, hends⟩
    · exact h.ends j key ⟨m, change, entries, hm⟩
    · exact hends
  · rw [htasks] at htask
    rcases task_cases htask with ⟨htask, -⟩ | ⟨rfl, -, -⟩
    · exact h.ran j thread task htask
    · exact hi
  · by_cases hold : (q.facts c (cfg.leaderOf c)).closed = true
    · obtain ⟨m, key, change, entries, hm, hrest⟩ := h.emits hold
      exact ⟨m, key, change, entries, h.acked.history_mono hs hm, hrest⟩
    · by_cases hj : cfg.leaderOf c = i
      · subst hj
        exact Sound.emits_deliver ht hw habort hd (Bool.eq_false_iff.mpr hold) hclosed
      · rw [hadvance.others _ hj] at hclosed
        exact absurd hclosed hold

/-! ### Runs -/

variable (cfg) (c) in
/-- What holds of a client in every run that hears its upstream EOF. -/
structure Inv (q : FilterQueues) : Prop where
  sound : Sound cfg c q
  told : Told cfg c q
  phase : 1 < cfg.worker.filterAmount → Idle cfg c q ∨ Gathering cfg c q ∨ Flushing cfg c q

theorem inv_init : Inv cfg c (init cfg) where
  sound := {
    acked := FilterSystem.acked_init
    fits := fun _ _ ⟨_, _, _, hm⟩ => by cases hm
    inputs := nofun
    leader := nofun
    arrived := nofun
    held := fun _ _ _ _ _ hm => by cases hm
    ends := fun _ _ ⟨_, _, _, hm⟩ => by cases hm
    ran := nofun
    emits := nofun }
  told :=
    have hknown : ∀ x, ¬ (init cfg).Known x := by
      rintro x (hx | ⟨i, m, key, change, entries, hm, -⟩)
      · cases hx
      · cases hm
    { announced := fun x hx => absurd hx (hknown x)
      ordered := fun x hx => absurd hx (hknown x)
      answered := fun x hx => absurd hx (hknown x)
      acked := fun x hx => absurd hx (hknown x)
      responders := nofun
      acks := nofun
      pending := nofun
      leads := nofun }
  phase _ := .inl ⟨fun hb => hb.elim nofun nofun, fun _ _ => rfl, fun _ _ => rfl⟩

/-- Every step takes a turn. -/
theorem Sound.step {act : QueueAct} (h : Sound cfg c q) (ht : Told cfg c q)
    (ha : allowed cfg c q act) (hheard : Heard cfg c q act) (he : exec cfg q act = some q') :
    Sound cfg c q' ∧ ∃ i d outs, Advance cfg c q q' i d outs := by
  cases act with
  | arrive i body =>
    obtain ⟨hs, hadvance⟩ := h.arrive ha he
    exact ⟨hs, i, _, _, hadvance⟩
  | deliver i d sumSeq =>
    obtain ⟨system, hsystem, he⟩ := Option.map_eq_some_iff.mp he
    by_cases hret : (q.system.cluster.replicas i).Returns (cfg.at i) d sumSeq
    · rw [if_pos hret] at he
      obtain ⟨hs, outs, hadvance⟩ :=
        h.deliver ht ha.1 ha.2.1 hret ha.2.2 hheard.1 hsystem he.symm
      exact ⟨hs, i, d, outs, hadvance⟩
    · rw [if_neg hret] at he
      obtain ⟨hs, hadvance⟩ := h.raise ha.1 hret (hheard.2 hret) hsystem
      exact he ▸ ⟨hs, i, _, _, hadvance⟩
  | publish i thread =>
    obtain ⟨hs, hadvance⟩ := h.publish ha he
    exact ⟨hs, i, _, _, hadvance⟩
  | commit i thread =>
    obtain ⟨hs, hadvance⟩ := h.commit ha he
    exact ⟨hs, i, _, _, hadvance⟩

theorem Inv.step {act : QueueAct} (h : Inv cfg c q) (ha : allowed cfg c q act)
    (hheard : Heard cfg c q act) (he : exec cfg q act = some q') : Inv cfg c q' := by
  obtain ⟨hs, i, d, outs, hadvance⟩ := h.sound.step h.told ha hheard he
  refine ⟨hs, h.told.step hadvance, fun hN => ?_⟩
  rcases h.phase hN with hp | hp | hp
  · exact (hp.step h.told hadvance hN).imp_right .inl
  · exact .inr (hp.step h.told hadvance hN)
  · exact .inr (.inr (hp.step h.told hadvance hN))

theorem HeardRun.inv (h : HeardRun cfg c q) : Inv cfg c q :=
  Reachable.invariant inv_init (fun _ _ _ hi ha he => hi.step ha.1 ha.2 he) h

/-- What was stamped with the EOFs of a settled client is published. -/
theorem Sound.emitted (h : Sound cfg c q)
    (hc : (q.facts c (cfg.leaderOf c)).closed = true) (hs : Settled cfg c q) : Emitted cfg c q := by
  obtain ⟨m, key, change, entries, hm, hk, htotals⟩ := h.emits hc
  refine ⟨m, key, change, entries, hm, hk, htotals, fun e he => ?_⟩
  rcases h.held _ m key change entries hm e he with hp | ⟨thread, task, ht, htk, -⟩
  · exact hk ▸ hp
  · exact absurd (htk ▸ hk) (hs.tasks _ (h.ran _ thread task ht) thread task ht)

end soundness

/-- The two replicas of `FilterCluster.pairConfig` on their queues. -/
def pairConfig : FilterQueuesConfig where
  toFilterClusterConfig := FilterCluster.pairConfig
  controlQueues _ _ := rfl

end FilterQueues

end MoneyLaundering
