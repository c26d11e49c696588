import MoneyLaundering.Lib.Transition
import MoneyLaundering.Monitor.ElectionHandler

/-!
# One monitor and its epochs

A monitor process with its two threads: the one that runs an election and the listener. Peers answer
and send whatever they like, a save can raise before the file is replaced, and the process can die
and start again at any point.

A save in progress holds the lock: `saving` says for which critical section, and whether
`os.replace` has returned.
-/

namespace MoneyLaundering.Monitor

/-- A save in progress. -/
structure Saving where
  critical : Critical
  epoch : Epoch
  replaced : Bool := false
  deriving DecidableEq

/-- What is observed of a monitor. -/
inductive Event where
  /-- The epoch in memory is set. -/
  | held (epoch : Epoch)
  /-- The handling of a message with this epoch is complete. -/
  | handled (epoch : Epoch)
  /-- An election is won at this epoch. -/
  | won (epoch : Epoch)
  /-- A `COORDINATOR` of another monitor has set the epoch. -/
  | brought (epoch : Epoch)
  /-- A `COORDINATOR` is sent. -/
  | announced (epoch : Epoch) (peer : Nat)
  /-- `_become_leader` raises. -/
  | exhausted
  deriving DecidableEq

/-- A running monitor. -/
structure Process where
  handler : ElectionHandler
  file : EpochFile
  phase : Phase := .idle
  saving : Option Saving := none
  trace : List Event := []
  deriving DecidableEq

/-- What can happen to a monitor. -/
inductive Label where
  /-- `start_election` acquires the lock. -/
  | start
  /-- The contacted peer is unavailable. -/
  | contactFails
  /-- The contacted peer responds. -/
  | respond (response : Option ElectionMessage)
  /-- The contacted peer responds with bytes that `ElectionMessage.deserialize` raises on. -/
  | malformed
  /-- The loop of `start_election` is over. -/
  | decide
  /-- `send_coordinator` reads the epoch. -/
  | readEpoch
  /-- `send_coordinator` sends to one peer, successfully or not. -/
  | announce
  /-- The listener calls `_handle_message`. -/
  | handle (message : ElectionMessage)
  /-- `os.replace` returns. -/
  | replace
  /-- `save` returns. -/
  | saved
  /-- `save` raises. -/
  | raised
  | stop
  /-- The process dies and starts again. -/
  | restart
  deriving DecidableEq

namespace Process

variable (cfg : MonitorConfig) (path : String)

/-- The process starts. -/
def boot (file : EpochFile) (trace : List Event) : Except String Process := do
  let epoch ← file.load path
  return { handler := .init cfg epoch, file, trace := trace ++ [.held epoch] }

/-- The message of a critical section, when its handling raises the epoch to at least its own. -/
def handledBy : Critical → List Event
  | .answer response => [.handled response.epoch]
  | .win _ => []
  | .handle message => if message.messageType = .ok then [] else [.handled message.epoch]

/-- What is observed when a critical section has set the epoch. -/
def setBy (epoch : Epoch) : Critical → List Event
  | .answer _ => [.held epoch]
  | .win _ => [.won epoch, .held epoch]
  | .handle message =>
    if message.messageType = .coordinator then [.brought epoch, .held epoch] else [.held epoch]

/-- Where the election thread goes when a critical section returns normally. -/
def phaseAfter (phase : Phase) : Critical → Phase
  | .answer _ => phase.next cfg true
  | .win _ => .won
  | .handle _ => phase

/-- Where the election thread goes when a critical section raises or `_become_leader` gives up. -/
def phaseRaised (phase : Phase) : Critical → Phase
  | .answer _ | .win _ => .idle
  | .handle _ => phase

/-- A critical section is over; `_set_epoch_locked` has returned. -/
def complete (p : Process) (c : Critical) : Process :=
  { p with
    handler := p.handler.finish cfg c
    phase := phaseAfter cfg p.phase c
    trace := p.trace ++ handledBy c }

/-- A thread enters a critical section. -/
def critical (p : Process) (c : Critical) : Process :=
  match p.handler.enter c with
  | .leave => { p with phase := phaseRaised p.phase c, trace := p.trace ++ handledBy c }
  | .exhausted => { p with phase := phaseRaised p.phase c, trace := p.trace ++ [.exhausted] }
  | .write h epoch =>
    if epoch = h.epoch then complete cfg { p with handler := h } c
    else { p with handler := h, saving := some ⟨c, epoch, false⟩ }

/-- The election thread is not in the middle of a save. -/
def electionFree (p : Process) : Bool :=
  match p.saving with
  | none | some ⟨.handle _, _, _⟩ => true
  | _ => false

/-- One step, `none` when it is not enabled. A save in progress keeps everyone else from the
lock. -/
def exec (p : Process) : Label → Option Process
  | .start =>
    if p.phase = .idle ∧ p.saving = none ∧ p.handler.stopped = false then
      some { p with
        handler := p.handler.startElection
        phase := .polling (p.handler.electionGeneration + 1) p.handler.epoch
          cfg.electionPeers false }
    else none
  | .contactFails =>
    match p.phase with
    | .polling _ _ (_ :: _) _ =>
      if p.electionFree then some { p with phase := p.phase.next cfg false } else none
    | _ => none
  | .respond response =>
    match p.phase with
    | .polling _ _ (peer :: _) _ =>
      if response.all fun r => ¬ Answers peer r then
        if p.electionFree then some { p with phase := p.phase.next cfg false } else none
      else
        match response, p.saving with
        | some response, none => some (critical cfg p (.answer response))
        | _, _ => none
    | _ => none
  -- a `ValueError` is no `OSError`: it ends `start_election`, which releases the lock
  | .malformed =>
    match p.phase with
    | .polling _ _ (_ :: _) _ =>
      if p.electionFree then some { p with phase := .idle } else none
    | _ => none
  | .decide =>
    match p.phase with
    | .polling generation _ [] higherAnswered =>
      if higherAnswered then
        if p.electionFree then some { p with phase := .idle } else none
      else
        match p.saving with
        | none => some (critical cfg p (.win generation))
        | some _ => none
    | _ => none
  | .readEpoch =>
    match p.phase, p.saving with
    | .won, none => some { p with phase := .announcing p.handler.epoch cfg.coordinatorPeers }
    | _, _ => none
  | .announce =>
    match p.phase with
    | .announcing epoch (peer :: peers) =>
      some { p with phase := .announcing epoch peers, trace := p.trace ++ [.announced epoch peer] }
    | .announcing _ [] => some { p with phase := .idle }
    | _ => none
  | .handle message =>
    if p.saving = none then some (critical cfg p (.handle message)) else none
  | .replace =>
    match p.saving with
    | some ⟨c, epoch, false⟩ =>
      some { p with file := .saved epoch, saving := some ⟨c, epoch, true⟩ }
    | _ => none
  | .saved =>
    match p.saving with
    | some ⟨c, epoch, true⟩ =>
      some (complete cfg { p with
        handler := { p.handler with epoch }
        saving := none
        trace := p.trace ++ setBy epoch c } c)
    | _ => none
  | .raised =>
    match p.saving with
    | some ⟨c, _, false⟩ => some { p with saving := none, phase := phaseRaised p.phase c }
    | _ => none
  | .stop => if p.saving = none then some { p with handler := p.handler.stop } else none
  | .restart => (boot cfg path p.file p.trace).toOption

end Process

end MoneyLaundering.Monitor
