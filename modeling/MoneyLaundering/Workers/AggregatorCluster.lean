import MoneyLaundering.Workers.AggregatorRounds

/-!
# A cluster of aggregators

The replicas of an aggregator on their queues, without crashes and failures. A message stays on its
queue until it is delivered, and every thread publishes what its handler left it in its own time.
-/

namespace MoneyLaundering

open Bytes InternalProtocol EofCoordinator Consumer Runner Transition

/-- The configuration of one replica. -/
def AggregatorConfig.withId {π : Type} (cfg : AggregatorConfig π) (id : Nat) : AggregatorConfig π :=
  { cfg with id }

instance {π : Type} (cfg : AggregatorConfig π) : DecidablePred cfg.Expected
  | .input body =>
    match h : unpackAddressedPacket body with
    | .ok m => decidable_of_iff (m.msgType ≠ MessageType.abort.toNat)
        ⟨fun hm m' he => by rw [h] at he; cases he; exact hm, fun hm => hm m h⟩
    | .error _ => .isTrue fun m he => by rw [h] at he; cases he
  | .control _ => .isTrue trivial
  | .response _ => inferInstanceAs (Decidable (_ = _))

/-- The replicas, and the messages on their queues. -/
structure AggregatorCluster (π : Type) where
  replicas : Nat → State (AggregatorState π) AggregatorChange
  queues : List (String × Bytes) := []

/-- A step of one of the replicas. -/
structure AggregatorAct where
  replica : Nat
  label : Label WorkerDelivery

namespace AggregatorCluster

variable {π : Type} (cfg : AggregatorConfig π)

def init : AggregatorCluster π where
  replicas i := Consumer.init (cfg.withId i).consumer

/-- Where a control message or a response is taken from. -/
def place (i : Nat) : WorkerDelivery → Option (String × Bytes)
  | .input _ => none
  | .control body => some (cfg.coordinator.controlQueueFor i, body)
  | .response body => some (cfg.coordinator.responseQueueFor i, body)

/-- What a step takes from the queues. -/
def taken (l : AggregatorAct) : Option (String × Bytes) :=
  match l.label with
  | .deliver message _ => place cfg l.replica message
  | _ => none

/-- What a step puts on the queues. -/
def sent (s : State (AggregatorState π) AggregatorChange) :
    Label WorkerDelivery → List (String × Bytes)
  | .publish i true =>
    match s.tasks[i]? with
    | some task => task.parcels.take 1
    | none => []
  | _ => []

def exec (sys : AggregatorCluster π) (l : AggregatorAct) : Option (AggregatorCluster π) :=
  match Consumer.exec (cfg.withId l.replica).consumer (sys.replicas l.replica) l.label with
  | none => none
  | some s => some {
      replicas := Function.update sys.replicas l.replica s
      queues := (match taken cfg l with
        | some x => sys.queues.erase x
        | none => sys.queues) ++ sent (sys.replicas l.replica) l.label }

/-- What may happen when nothing fails: handlers return, sends are confirmed, and a message of the
cluster is delivered from its queue, a response at the leader only. -/
def permits (sys : AggregatorCluster π) (i : Nat) : Label WorkerDelivery → Prop
  | .deliver message write =>
    write = .ok ⟨⟩ ∧ (cfg.withId i).Expected message ∧ (∀ x ∈ place cfg i message, x ∈ sys.queues) ∧
      Returns (cfg.withId i).consumer (sys.replicas i) message
  | .publish _ confirmed => confirmed = true
  | .commit _ write => write = .ok ⟨⟩
  | .ack _ => True

instance (sys : AggregatorCluster π) (i : Nat) : (label : Label WorkerDelivery) →
    Decidable (permits cfg sys i label)
  | .deliver message write => by
    unfold permits
    infer_instance
  | .publish _ _ => inferInstanceAs (Decidable (_ = _))
  | .commit _ write => match write with
    | .ok ⟨⟩ => .isTrue rfl
    | .error _ => .isFalse nofun
  | .ack _ => .isTrue trivial

def allowed (sys : AggregatorCluster π) (l : AggregatorAct) : Prop :=
  l.replica < cfg.aggregationAmount ∧ permits cfg sys l.replica l.label

instance (sys : AggregatorCluster π) (l : AggregatorAct) : Decidable (allowed cfg sys l) :=
  inferInstanceAs (Decidable (_ ∧ _))

/-- The runs without crashes, failures and aborts. -/
def Run (sys : AggregatorCluster π) : Prop := Reachable (exec cfg) (allowed cfg) (init cfg) sys

/-- What replica `i` holds about the clients. -/
abbrev view (sys : AggregatorCluster π) (i : Nat) : ClientViews :=
  (sys.replicas i).node.handler.workerState.view

/-- A message on a queue, or in the hands of a thread that publishes it. -/
def OnTheWay (sys : AggregatorCluster π) (x : String × Bytes) : Prop :=
  x ∈ sys.queues ∨ ∃ i, ∃ task ∈ (sys.replicas i).tasks, x ∈ task.parcels

/-- A message on a queue, or one that a replica has sent or is about to send. -/
def Known (sys : AggregatorCluster π) (x : String × Bytes) : Prop :=
  x ∈ sys.queues ∨ ∃ i, AggregatorConfig.KnownAt (sys.replicas i) x

/-- What a step of replica `i` does to the messages of the cluster. -/
structure Advance (sys sys' : AggregatorCluster π) (i : Nat) (gone : Option (String × Bytes))
    (outs : List (String × Bytes)) : Prop where
  others : ∀ j ≠ i, sys'.view j = sys.view j
  known : ∀ x, sys'.Known x → sys.Known x ∨ x ∈ outs
  stays : ∀ x, sys.OnTheWay x → some x ≠ gone → sys'.OnTheWay x
  fresh : ∀ x ∈ outs, sys'.OnTheWay x

variable {cfg} {sys sys' : AggregatorCluster π} {l : AggregatorAct}

/-- What a step publishes was in the hands of a thread. -/
theorem mem_parcels_of_sent {s : State (AggregatorState π) AggregatorChange}
    {label : Label WorkerDelivery}
    {x : String × Bytes} (hx : x ∈ sent s label) : ∃ task ∈ s.tasks, x ∈ task.parcels := by
  unfold sent at hx
  split at hx
  · split at hx
    · next task ht => exact ⟨task, List.mem_of_getElem? ht, List.mem_of_mem_take hx⟩
    · cases hx
  · cases hx

/-- A step that delivers nothing loses no message. -/
theorem parcels_of_other {c : ConsumerConfig (AggregatorState π) AggregatorChange WorkerDelivery}
    {s s' : State (AggregatorState π) AggregatorChange} {label : Label WorkerDelivery}
    (he : Consumer.exec c s label = some s') (hl : ∀ message write, label ≠ .deliver message write)
    (hconf : ∀ i, label ≠ .publish i false) {x : String × Bytes}
    (hx : ∃ task ∈ s.tasks, x ∈ task.parcels) :
    (∃ task ∈ s'.tasks, x ∈ task.parcels) ∨ x ∈ sent s label := by
  obtain ⟨task, ht, hx⟩ := hx
  have hset : ∀ {i : Nat} {old new : Consumer.Task}, s.tasks[i]? = some old →
      (x ∈ old.parcels → x ∈ new.parcels ∨ x ∈ sent s label) →
      (∃ task ∈ s.tasks.set i new, x ∈ task.parcels) ∨ x ∈ sent s label := by
    intro i old new hi hkeep
    obtain ⟨j, hj⟩ := List.mem_iff_getElem?.mp ht
    by_cases hij : i = j
    · subst hij
      rw [hi] at hj
      cases hj
      refine (hkeep hx).imp_left fun hn => ⟨new, List.mem_of_getElem? (i := i) ?_, hn⟩
      rw [List.getElem?_set_self (List.getElem?_eq_some_iff.mp hi).1]
    · refine .inl ⟨task, List.mem_of_getElem? (i := j) ?_, hx⟩
      rw [List.getElem?_set_ne hij, hj]
  have herase : ∀ {i : Nat} {old : Consumer.Task}, s.tasks[i]? = some old → old.parcels = [] →
      ∃ task ∈ s.tasks.eraseIdx i, x ∈ task.parcels := by
    intro i old hi hnil
    refine ⟨task, ?_, hx⟩
    obtain ⟨j, hj⟩ := List.mem_iff_getElem?.mp ht
    refine List.mem_eraseIdx_iff_getElem?.mpr ⟨j, ?_, hj⟩
    rintro rfl
    rw [hi] at hj
    cases hj
    rw [hnil] at hx
    cases hx
  cases label with
  | deliver message write => exact absurd rfl (hl message write)
  | publish i confirmed =>
    have hconfirmed : confirmed = true := by
      cases confirmed
      · exact absurd rfl (hconf i)
      · rfl
    subst hconfirmed
    simp only [Consumer.exec, if_true] at he
    split at he
    · next key entry remaining hi =>
      cases he
      refine hset hi fun hx => ?_
      rcases List.mem_cons.mp hx with rfl | hx
      · right
        simp [sent, hi, Task.parcels]
      · exact .inl hx
    · next message remaining hi =>
      cases he
      refine hset hi fun hx => ?_
      rcases List.mem_cons.mp hx with rfl | hx
      · right
        simp [sent, hi, Task.parcels]
      · exact .inl hx
    · cases he
  | commit i write =>
    simp only [Consumer.exec] at he
    split at he
    · next key hi =>
      split at he
      · cases he
        exact .inl (herase hi rfl)
      · cases he
        exact hset hi (by intros; contradiction)
    · cases he
  | ack i =>
    simp only [Consumer.exec] at he
    split at he
    · next key hi =>
      cases he
      exact .inl (herase hi rfl)
    · next hi =>
      cases he
      exact .inl (herase hi rfl)
    · cases he

variable (cfg) in
/-- A step as a turn of one replica. A step that delivers nothing is an idle turn. -/
structure Stepped (sys sys' : AggregatorCluster π) (l : AggregatorAct) (message : WorkerDelivery)
    (outs : List (String × Bytes)) : Prop where
  turn : (cfg.withId l.replica).Turn (sys.view l.replica) message (sys'.view l.replica) outs
  expected : (cfg.withId l.replica).Expected message
  advance : Advance sys sys' l.replica (place cfg l.replica message) outs
  queued : ∀ x ∈ place cfg l.replica message, x ∈ sys.queues
  label : ∀ body, message = .response body → ∃ write, l.label = .deliver (.response body) write
  delivered : ∀ message' write, l.label = .deliver message' write → message = message'

theorem stepped (h : ∀ i, (cfg.withId i).ReplicaInv (sys.replicas i))
    (hN : 2 ≤ cfg.aggregationAmount) (ha : allowed cfg sys l) (he : exec cfg sys l = some sys') :
    (∀ i, (cfg.withId i).ReplicaInv (sys'.replicas i)) ∧ ∃ message outs,
    Stepped cfg sys sys' l message outs := by
  obtain ⟨i, label⟩ := l
  obtain ⟨-, ha⟩ := ha
  unfold exec at he
  split at he
  · cases he
  · next s hs =>
    dsimp only at hs ha he
    have hself : sys'.replicas i = s := by
      cases he
      exact Function.update_self ..
    have hothers : ∀ j ≠ i, sys'.replicas j = sys.replicas j := by
      cases he
      exact fun j hj => Function.update_of_ne hj ..
    have hqueues : sys'.queues = (match taken cfg ⟨i, label⟩ with
        | some x => sys.queues.erase x
        | none => sys.queues) ++ sent (sys.replicas i) label := by
      cases he
      rfl
    clear he
    -- a message of the queues or of another replica stays where it is
    have hstays : ∀ x, sys.OnTheWay x → some x ≠ taken cfg ⟨i, label⟩ →
        sys'.OnTheWay x ∨ ∃ task ∈ (sys.replicas i).tasks, x ∈ task.parcels := by
      rintro x (hx | ⟨j, task, ht, hx⟩) hne
      · exact .inl (.inl (hqueues ▸ List.mem_append_left _ (mem_queues_erase hx hne)))
      · by_cases hj : j = i
        · exact .inr ⟨task, hj ▸ ht, hx⟩
        · exact .inl (.inr ⟨j, task, (hothers j hj).symm ▸ ht, hx⟩)
    have hknown : ∀ x, sys'.Known x → sys.Known x ∨ AggregatorConfig.KnownAt s x := by
      rintro x (hx | ⟨j, hx⟩)
      · rw [hqueues] at hx
        rcases List.mem_append.mp hx with hx | hx
        · exact .inl (.inl (mem_of_mem_queues_erase hx))
        · obtain ⟨task, ht, hx⟩ := mem_parcels_of_sent hx
          exact .inl (.inr ⟨i, (h i).known ht hx⟩)
      · by_cases hj : j = i
        · subst hj
          exact .inr (hself ▸ hx)
        · exact .inl (.inr ⟨j, hothers j hj ▸ hx⟩)
    have hview : ∀ j ≠ i, sys'.view j = sys.view j := fun j hj => by rw [view, hothers j hj]
    have hinv : (cfg.withId i).ReplicaInv s → ∀ j, (cfg.withId j).ReplicaInv (sys'.replicas j) := by
      intro hi j
      by_cases hj : j = i
      · subst hj
        exact hself.symm ▸ hi
      · exact (hothers j hj).symm ▸ h j
    by_cases hdel : ∃ message write, label = .deliver message write
    · obtain ⟨message, write, rfl⟩ := hdel
      obtain ⟨rfl, hexpected, hqueued, hreturns⟩ := ha
      obtain ⟨outs, hturn, hinv', hleaves⟩ := (h i).deliver hN hexpected hreturns
      cases hs
      refine ⟨hinv hinv', message, outs, ⟨?_, hexpected, ⟨hview, fun x hx => ?_, fun x hx hne => ?_,
        fun x hx => ?_⟩, hqueued, fun body hb => ⟨.ok ⟨⟩, by rw [hb]⟩,
        fun message' write hm => by cases hm; rfl⟩⟩
      · rw [view, view, hself]
        exact hturn
      · exact (hknown x hx).elim .inl fun hx => (hx.of_leaves hleaves).imp_left
          fun hx => .inr ⟨i, hx⟩
      · refine (hstays x hx hne).elim (fun hx => hx) fun ⟨task, ht, hx⟩ => .inr ⟨i, task, ?_, hx⟩
        obtain ⟨more, hmore, -⟩ := hleaves.tasks
        rw [hself, hmore]
        exact List.mem_append_left _ ht
      · obtain ⟨more, hmore, hout, -⟩ := hleaves.tasks
        obtain ⟨task, ht, hx⟩ := hout x hx
        refine .inr ⟨i, task, ?_, hx⟩
        rw [hself, hmore]
        exact List.mem_append_right _ ht
    · have hl : ∀ message write, label ≠ .deliver message write := fun message write hm =>
        hdel ⟨message, write, hm⟩
      have hnone : taken cfg ⟨i, label⟩ = none := by
        cases label with
        | deliver message write => exact absurd rfl (hl message write)
        | publish | commit | ack => rfl
      have hconf : ∀ j, label ≠ .publish j false := by
        rintro j rfl
        cases ha
      obtain ⟨hquiet, hinv'⟩ := (h i).other hs hl
      refine ⟨hinv hinv', .input [], [],
        ⟨?_, ?_, ⟨hview, fun x hx => ?_, fun x hx hne => ?_, nofun⟩,
        nofun, nofun, fun message' write hm => absurd hm (hl message' write)⟩⟩
      · have hsame : sys'.view i = sys.view i := by
          rw [view, view, hself, hquiet.workerState]
        rw [hsame]
        exact .idle trivial
      · intro m hm
        cases hm
      · exact .inl ((hknown x hx).elim (fun hx => hx) fun hx => .inr ⟨i, hx.of_quiet hquiet⟩)
      · refine (hstays x hx (hnone ▸ nofun)).elim (fun hx => hx) fun hx => ?_
        rcases parcels_of_other hs hl hconf hx with ⟨task, ht, hx⟩ | hx
        · exact .inr ⟨i, task, hself.symm ▸ ht, hx⟩
        · exact .inl (hqueues ▸ List.mem_append_right _ hx)

end AggregatorCluster

end MoneyLaundering
