import MoneyLaundering.FaultTolerance.Runner
import MoneyLaundering.Filter.Cluster

/-!
# The threads of a filter cluster

Each replica consumes its three queues with one thread each. A thread runs a section under the lock
of the replica, publishes the outputs of its message one by one outside it, then commits and acks.
What it publishes reaches the queues in that order; a publication that fails is a nack, and the
message comes again. A crash loses the threads, and the outbox is published again before any of them
restarts.
-/

namespace MoneyLaundering

open Bytes InternalProtocol FilterConfig Transition

/-- The consumer threads of a replica. -/
inductive FilterThread where
  | data | control | response
  deriving DecidableEq

/-- The thread that consumes a message. -/
def FilterConfig.Delivery.thread : Delivery → FilterThread
  | .input _ => .data
  | .control _ => .control
  | .response _ => .response

/-- A message between its section and its commit, with the outputs left to publish. -/
structure FilterTask where
  key : InputKey
  remaining : List OutboxEntry

/-- An output that reached its queue. -/
structure Publication where
  replica : Nat
  clientId : Nat
  entry : OutboxEntry
  deriving DecidableEq

/-- A cluster with its threads. `sent` is what is on the control and response queues, with
everything else that was published; `pending` is what a restarted replica still has to publish
again. -/
structure FilterSystem where
  cluster : FilterCluster
  tasks : Nat → FilterThread → Option FilterTask := fun _ _ => none
  pending : Nat → List (Nat × String × OutboxEntry) := fun _ => []
  published : List Publication := []
  sent : List Bytes := []

/-- What a thread does next. A crash between two sections loses the threads only. -/
inductive SystemAct where
  | deliver (replica : Nat) (delivery : Delivery) (sumSeq : String → Nat) (outcome : Outcome)
  | publish (replica : Nat) (thread : FilterThread) (confirmed : Bool)
  | commit (replica : Nat) (thread : FilterThread) (outcome : Outcome)
  | republish (replica : Nat)
  | crash (replica : Nat)

/-- What `handle` tells the thread to do, `none` when there is no call or it raises. -/
def FilterWorker.instruction (cfg : FilterConfig) (w : FilterWorker) (act : FilterAct)
    (outcome : Outcome) : Option WorkerLoopInstruction :=
  match (w.sectionOf cfg act).call with
  | none => none
  | some c =>
    match (w.prepared cfg act).effect cfg.handler outcome.write c with
    | .ok effect => some effect.instruction
    | .error _ => none

/-- The task that an instruction starts. -/
def FilterTask.of : Option WorkerLoopInstruction → Option FilterTask
  | some (.publishThenCommit outputs _ key) => some ⟨key, outputs⟩
  | _ => none

namespace FilterSystem

variable (cfg : FilterClusterConfig)

def init : FilterSystem where
  cluster := .init cfg

def setTask (sys : FilterSystem) (i : Nat) (thread : FilterThread) (task : Option FilterTask) :
    FilterSystem :=
  { sys with tasks := Function.update sys.tasks i (Function.update (sys.tasks i) thread task) }

/-- A publication that the broker confirms. -/
def confirm (sys : FilterSystem) (p : Publication) : FilterSystem :=
  { sys with
    published := sys.published ++ [p]
    sent := sys.sent ++ [p.entry.body] }

/-- A section under the lock that ends, with the packets that are sent directly after it. -/
def locked (sys : FilterSystem) (i : Nat) (act : FilterAct) (outcome : Outcome) :
    Option FilterSystem :=
  match sys.cluster.exec cfg ⟨i, act, outcome⟩ with
  | none => none
  | some cluster => some { sys with
      cluster
      sent := sys.sent ++
        ((sys.cluster.replicas i).sectionOf (cfg.at i) act).sends.map Prod.snd }

/-- A section in which the replica crashes and comes back. -/
def crashed (sys : FilterSystem) (i : Nat) (act : FilterAct) (steps : Nat) : Option FilterSystem :=
  match sys.cluster.exec cfg ⟨i, act, .crashes steps⟩ with
  | none => none
  | some cluster => some { sys with
      cluster
      tasks := Function.update sys.tasks i fun _ => none
      pending := Function.update sys.pending i
        (Runner.labelledPending (cluster.replicas i).node.handler.outbox) }

/-- A section of a thread, after which its task is the given one. -/
def runSection (sys : FilterSystem) (i : Nat) (thread : FilterThread) (act : FilterAct)
    (task : Option FilterTask) : Outcome → Option FilterSystem
  | .crashes steps => sys.crashed cfg i act steps
  | outcome => (sys.locked cfg i act outcome).map (·.setTask i thread task)

/-- One step, `none` when it is not enabled. -/
def exec (sys : FilterSystem) : SystemAct → Option FilterSystem
  | .deliver i d sumSeq outcome =>
    if (sys.tasks i d.thread).isNone ∧ sys.pending i = [] then
      sys.runSection cfg i d.thread (.deliver d sumSeq)
        (FilterTask.of
          ((sys.cluster.replicas i).instruction (cfg.at i) (.deliver d sumSeq) outcome)) outcome
    else none
  | .publish i thread confirmed =>
    match sys.tasks i thread with
    | some ⟨key, entry :: remaining⟩ =>
      if confirmed then
        some ((sys.confirm ⟨i, key.clientId, entry⟩).setTask i thread (some ⟨key, remaining⟩))
      else some (sys.setTask i thread none)
    | _ => none
  | .commit i thread outcome =>
    match sys.tasks i thread with
    | some ⟨key, []⟩ => sys.runSection cfg i thread (.commitDone key) none outcome
    | _ => none
  | .republish i =>
    match sys.pending i with
    | (clientId, _, entry) :: rest =>
      some { sys.confirm ⟨i, clientId, entry⟩ with pending := Function.update sys.pending i rest }
    | [] => none
  | .crash i => sys.crashed cfg i (.deliver (.input []) fun _ => 0) 0

local instance : LawfulBEq Bytes := inferInstanceAs (LawfulBEq (List UInt8))

/-- What may be delivered, as in `FilterCluster.deliverable`, but from what was really sent. -/
def deliverable (sys : FilterSystem) (i : Nat) : Delivery → Bool
  | .input body => sys.cluster.deliverable cfg i (.deliver (.input body) fun _ => 0) &&
      !FilterWorker.isAbort (.deliver (.input body) fun _ => 0)
  | .control body => decide (body ∈ sys.sent)
  | .response body => decide (body ∈ sys.sent)

def allowed (sys : FilterSystem) : SystemAct → Prop
  | .deliver i d _ _ => i < cfg.worker.filterAmount ∧ sys.deliverable cfg i d = true
  | .publish i _ _ | .commit i _ _ | .republish i | .crash i => i < cfg.worker.filterAmount

instance (sys : FilterSystem) : (act : SystemAct) → Decidable (allowed cfg sys act)
  | .deliver .. => inferInstanceAs (Decidable (_ ∧ _))
  | .publish .. | .commit .. | .republish .. | .crash .. => inferInstanceAs (Decidable (_ < _))

/-- The runs without aborts. -/
def Run (sys : FilterSystem) : Prop := Reachable (exec cfg) (allowed cfg) (init cfg) sys

/-! ## What is left to publish -/

/-- Packets of replica `i` in the order in which they will be published: whatever was stamped with a
packet and before it is published already or comes before it. -/
def Queued (sys : FilterSystem) (i : Nat) (queue : List (Nat × OutboxEntry)) : Prop :=
  ∀ before clientId e after, queue = before ++ (clientId, e) :: after →
    ∃ m key change done rest,
      .inputApplied m key change (done ++ e :: rest) ∈ (sys.cluster.replicas i).node.history ∧
      key.clientId = clientId ∧
      ∀ e' ∈ done, ⟨i, clientId, e'⟩ ∈ sys.published ∨ (clientId, e') ∈ before

namespace Queued

variable {sys sys' : FilterSystem} {i : Nat} {queue queue' : List (Nat × OutboxEntry)}

theorem nil : sys.Queued i [] := by
  intro before clientId e after h
  cases before <;> cases h

theorem mono (h : sys.Queued i queue)
    (hh : ∀ m key change entries,
      .inputApplied m key change entries ∈ (sys.cluster.replicas i).node.history →
      .inputApplied m key change entries ∈ (sys'.cluster.replicas i).node.history)
    (hp : ∀ p ∈ sys.published, p ∈ sys'.published) : sys'.Queued i queue := by
  intro before clientId e after hq
  obtain ⟨m, key, change, done, rest, hm, hc, hd⟩ := h before clientId e after hq
  exact ⟨m, key, change, done, rest, hh _ _ _ _ hm, hc, fun e' he => (hd e' he).imp_left (hp _)⟩

theorem append (h : sys.Queued i queue) (h' : sys.Queued i queue') :
    sys.Queued i (queue ++ queue') := by
  intro before clientId e after hq
  rcases List.append_eq_append_iff.mp hq with ⟨more, rfl, hrest⟩ | ⟨more, rfl, hrest⟩
  · obtain ⟨m, key, change, done, rest, hm, hc, hd⟩ := h' more clientId e after hrest
    exact ⟨m, key, change, done, rest, hm, hc, fun e' he =>
      (hd e' he).imp_right (List.mem_append_right _)⟩
  · cases more with
    | nil =>
      obtain ⟨m, key, change, done, rest, hm, hc, hd⟩ := h' [] clientId e after hrest.symm
      exact ⟨m, key, change, done, rest, hm, hc, fun e' he =>
        (hd e' he).imp_right nofun⟩
    | cons x more =>
      simp only [List.cons_append, List.cons.injEq] at hrest
      obtain ⟨rfl, rfl⟩ := hrest
      exact h before clientId e more rfl

theorem flatMap {α : Type} {xs : List α} {f : α → List (Nat × OutboxEntry)}
    (h : ∀ x ∈ xs, sys.Queued i (f x)) : sys.Queued i (xs.flatMap f) := by
  induction xs with
  | nil => exact nil
  | cons x xs ih =>
    rw [List.flatMap_cons]
    exact (h x List.mem_cons_self).append (ih fun y hy => h y (List.mem_cons_of_mem _ hy))

/-- The packets of one record, in their order. -/
theorem of_record {m : String} {key : InputKey} {change : FilterChange} {entries : List OutboxEntry}
    (h : .inputApplied m key change entries ∈ (sys.cluster.replicas i).node.history) :
    sys.Queued i (entries.map (key.clientId, ·)) := by
  intro before clientId e after hq
  obtain ⟨done, rest, rfl, rfl, hr⟩ := List.map_eq_append_iff.mp hq
  obtain ⟨e', rest, rfl, he, rfl⟩ := List.map_eq_cons_iff.mp hr
  cases he
  exact ⟨m, key, change, done, rest, h, rfl, fun e' he => .inr (List.mem_map_of_mem he)⟩

/-- The first packet: everything stamped before it is published. -/
theorem head {clientId : Nat} {e : OutboxEntry} (h : sys.Queued i ((clientId, e) :: queue)) :
    ∃ m key change done rest,
      .inputApplied m key change (done ++ e :: rest) ∈ (sys.cluster.replicas i).node.history ∧
      key.clientId = clientId ∧ ∀ e' ∈ done, ⟨i, clientId, e'⟩ ∈ sys.published := by
  obtain ⟨m, key, change, done, rest, hm, hc, hd⟩ := h [] clientId e queue rfl
  exact ⟨m, key, change, done, rest, hm, hc, fun e' he => (hd e' he).resolve_right nofun⟩

/-- The others, once the first packet is published. -/
theorem tail {clientId : Nat} {e : OutboxEntry} (h : sys.Queued i ((clientId, e) :: queue))
    (hh : (sys'.cluster.replicas i).node.history = (sys.cluster.replicas i).node.history)
    (hp : sys'.published = sys.published ++ [⟨i, clientId, e⟩]) : sys'.Queued i queue := by
  intro before clientId' e' after hq
  obtain ⟨m, key, change, done, rest, hm, hc, hd⟩ :=
    h ((clientId, e) :: before) clientId' e' after (by rw [hq, List.cons_append])
  refine ⟨m, key, change, done, rest, hh ▸ hm, hc, fun e'' he => ?_⟩
  rw [hp]
  rcases hd e'' he with hd | hd
  · exact .inl (List.mem_append_left _ hd)
  · rcases List.mem_cons.mp hd with hd | hd
    · cases hd
      exact .inl (List.mem_append_right _ List.mem_cons_self)
    · exact .inr hd

end Queued

end FilterSystem

/-! ## What a section leaves to publish -/

namespace FilterWorker

variable {cfg : FilterConfig} {w w' : FilterWorker} {act : FilterAct} {outcome : Outcome}

/-- The outputs of an input are those of its record, or none. -/
theorem Durable.outputs (hi : w.Durable cfg) (key : InputKey) :
    w.node.handler.outbox.entriesForInput key.clientId (cfg.handler.msgId key) = [] ∨
    ∃ m change, .inputApplied m key change
      (w.node.handler.outbox.entriesForInput key.clientId (cfg.handler.msgId key)) ∈
        w.node.history := by
  have heq : w.node.handler.outbox.entriesForInput key.clientId (cfg.handler.msgId key) =
      (w.node.handler.outbox.lookup key.clientId (cfg.handler.msgId key)).getD [] := rfl
  cases hl : w.node.handler.outbox.lookup key.clientId (cfg.handler.msgId key) with
  | none => exact .inl (by rw [heq, hl]; rfl)
  | some es =>
    rw [hl, Option.getD_some] at heq
    rw [Node.Inv.outbox hi] at hl
    obtain ⟨key', change, hc, hm, hrec⟩ := hi.admissible.lookup hl
    obtain rfl := cfg.handler.msgId_inj key' key hc hm
    exact .inr ⟨_, change, heq ▸ hrec⟩

/-- The outputs that `handle` returns are those in the outbox afterwards. -/
theorem outputs_of_handle {h : Handler FilterState} {write : Except String PUnit} {m : String}
    {key key' : InputKey} {m' : String} {fn : BusinessFn FilterState FilterChange}
    {effect : Handler.Effect FilterState FilterState FilterChange} {outputs : List OutboxEntry}
    (he : h.handle cfg.handler write m key fn = .ok effect)
    (hi : effect.instruction = .publishThenCommit outputs m' key') :
    key' = key ∧ outputs = effect.handler.outbox.entriesForInput key.clientId m := by
  unfold Handler.handle at he
  split at he
  · cases he
    cases hi
  · obtain ⟨⟨change, logical⟩, -, he⟩ := Except.ok_of_bind he
    obtain ⟨stamped, -, he⟩ := Except.ok_of_bind he
    obtain ⟨bytes, -, he⟩ := Except.ok_of_bind he
    cases he
    cases hi
    exact ⟨rfl, rfl⟩
  · cases he
    cases hi
    exact ⟨rfl, rfl⟩

theorem instruction_exec {outputs : List OutboxEntry} {m : String} {key : InputKey}
    (hn : ∀ steps, outcome ≠ .crashes steps)
    (hi : w.instruction cfg act outcome = some (.publishThenCommit outputs m key))
    (he : w.exec cfg act outcome = some w') :
    outputs = w'.node.handler.outbox.entriesForInput key.clientId (cfg.handler.msgId key) := by
  unfold instruction at hi
  split at hi
  · cases hi
  · next c hc =>
    split at hi
    · next effect heff =>
      have hcall : w'.node = (w.prepared cfg act).call cfg.handler outcome.write c := by
        unfold exec runSection at he
        rw [hc] at he
        cases outcome with
        | returns => cases he; rfl
        | appendFails => cases he; rfl
        | crashes steps => exact absurd rfl (hn steps)
      rw [hcall, Node.call, heff]
      simp only [Option.some.injEq] at hi
      cases c with
      | handle key' fn =>
        obtain ⟨rfl, rfl⟩ := outputs_of_handle heff hi
        rfl
      | commitDone key' =>
        obtain ⟨bytes, -, hd⟩ := Except.ok_of_bind heff
        cases hd
        unfold Handler.maybeSnapshot at hi
        split at hi <;> cases hi
      | snapshotNow =>
        cases heff
        cases hi
    · cases hi

end FilterWorker

end MoneyLaundering
