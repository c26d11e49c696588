import Mathlib.Algebra.Group.Int.Defs
import Mathlib.Algebra.Group.Nat.Defs
import Mathlib.Order.Fin.Basic
import Mathlib.Tactic.Common

/-!
# The election handler of a monitor

`ElectionHandler` and `EpochStore` (`monitor/election/`): the fields under `_leader_lock`, the
critical sections that touch them, and the file that keeps the epoch.

A critical section that writes the epoch saves it first, so it is cut in two: what stands before the
write, `enter`, and what follows it, `finish`.
-/

namespace MoneyLaundering.Monitor

/-- An epoch of the protocol: two bytes on the wire. The greatest one is `MAX_EPOCH`. -/
abbrev Epoch := Fin (2 ^ 16)

scoped instance instNeZeroEpochs : @NeZero Nat Zero.ofOfNat0 (2 ^ 16) := ⟨by decide⟩

/-- `MAX_EPOCH`. -/
def maxEpoch : Epoch := Fin.last _

/-- The epoch that follows, unless it is exhausted. -/
def Epoch.next (e : Epoch) : Option Epoch :=
  if h : e.val + 1 < 2 ^ 16 then some ⟨e.val + 1, h⟩ else none

theorem Epoch.next_eq_some {e e' : Epoch} (he : e.next = some e') : e < e' := by
  unfold Epoch.next at he
  split at he
  · cases he
    exact Fin.mk_lt_mk.mpr (Nat.lt_succ_self _)
  · cases he

theorem Epoch.next_maxEpoch : maxEpoch.next = none := by decide

/-! ## Messages -/

/-- `ElectionMessageType`. -/
inductive ElectionMessageType where
  | election
  | ok
  | coordinator
  deriving DecidableEq

/-- `ElectionMessage`. -/
structure ElectionMessage where
  messageType : ElectionMessageType
  epoch : Epoch
  senderId : Nat
  deriving DecidableEq

/-! ## The epoch on disk -/

/-- What `EpochStore` finds at its path. -/
inductive EpochFile where
  | missing
  | unreadable (exc : String)
  | notInteger
  | integer (value : Int)
  deriving DecidableEq

/-- `EpochStore.load`. -/
def EpochFile.load (path : String) : EpochFile → Except String Epoch
  | .missing => .ok 0
  | .unreadable exc => .error s!"could not load monitor epoch from {path}: {exc}"
  | .notInteger =>
    .error s!"invalid monitor epoch state in {path}: epoch must be an integer"
  | .integer value =>
    if h : 0 ≤ value ∧ value < 2 ^ 16 then .ok ⟨value.toNat, by omega⟩
    else .error s!"invalid monitor epoch state in {path}: epoch must be in range [0, 65535]"

/-- What `EpochStore.save` leaves at its path when `os.replace` has returned. -/
def EpochFile.saved (epoch : Epoch) : EpochFile := .integer epoch.val

@[simp] theorem EpochFile.load_saved (path : String) (epoch : Epoch) :
    (EpochFile.saved epoch).load path = .ok epoch := by
  rw [saved, load, dif_pos ⟨by omega, by exact_mod_cast epoch.isLt⟩]
  rfl

/-! ## The handler -/

/-- `ElectionState`. -/
inductive ElectionState where
  | follower
  | candidate
  | leader
  deriving DecidableEq

/-- `monitor_id` and `monitor_count`, checked. -/
structure MonitorConfig where
  monitorId : Nat
  monitorCount : Nat
  count_range : 1 ≤ monitorCount ∧ monitorCount ≤ 255
  id_range : 1 ≤ monitorId ∧ monitorId ≤ monitorCount

namespace MonitorConfig

theorem three_range : 1 ≤ 3 ∧ 3 ≤ 255 := by decide

theorem two_range : 1 ≤ 2 ∧ 2 ≤ 3 := by decide

variable (cfg : MonitorConfig)

/-- The peers that `start_election` contacts, in this order. -/
def electionPeers : List Nat := (List.range' 1 cfg.monitorCount).filter (· ≠ cfg.monitorId)

/-- The peers that `send_coordinator` contacts. -/
def coordinatorPeers : List Nat := List.range' 1 (cfg.monitorId - 1)

end MonitorConfig

/-- The fields of `ElectionHandler` that change. -/
structure ElectionHandler where
  leader : Nat
  epoch : Epoch
  state : ElectionState := .follower
  electionGeneration : Nat := 0
  leaderRunning : Bool := false
  stopped : Bool := false
  deriving DecidableEq

/-- A critical section of `_leader_lock` that can write the epoch. -/
inductive Critical where
  /-- An `OK` of the contacted peer, in `start_election`. -/
  | answer (response : ElectionMessage)
  /-- `_become_leader`. -/
  | win (generation : Nat)
  /-- `_handle_message`. -/
  | handle (message : ElectionMessage)
  deriving DecidableEq

/-- How a critical section begins. -/
inductive Entered where
  /-- It returns at once. -/
  | leave
  /-- It raises: there is no further epoch. -/
  | exhausted
  /-- It calls `_set_epoch_locked` with this epoch. -/
  | write (h : ElectionHandler) (epoch : Epoch)
  deriving DecidableEq

namespace ElectionHandler

/-- `__init__`, with the epoch that was loaded. -/
def init (cfg : MonitorConfig) (epoch : Epoch) : ElectionHandler where
  leader := cfg.monitorCount
  epoch := epoch

/-- The first critical section of `start_election`. -/
def startElection (h : ElectionHandler) : ElectionHandler :=
  { h with
    electionGeneration := h.electionGeneration + 1
    leaderRunning := false
    state := .candidate }

/-- `stop`. -/
def stop (h : ElectionHandler) : ElectionHandler :=
  { h with stopped := true, electionGeneration := h.electionGeneration + 1 }

/-- A `COORDINATOR` that is ignored. -/
def Ignores (h : ElectionHandler) (message : ElectionMessage) : Prop :=
  message.epoch < h.epoch ∨
    message.epoch = h.epoch ∧ h.leaderRunning = true ∧ message.senderId < h.leader

instance (h : ElectionHandler) (message : ElectionMessage) : Decidable (h.Ignores message) :=
  inferInstanceAs (Decidable (_ ∨ _))

/-- A critical section up to `_set_epoch_locked`. -/
def enter (h : ElectionHandler) : Critical → Entered
  | .answer response => .write h (max h.epoch response.epoch)
  | .win generation =>
    if h.stopped = true ∨ generation ≠ h.electionGeneration ∨ h.leaderRunning = true then .leave
    else
      match h.epoch.next with
      | none => .exhausted
      | some epoch => .write h epoch
  | .handle message =>
    match message.messageType with
    | .coordinator =>
      if h.Ignores message then .leave
      else .write { h with electionGeneration := h.electionGeneration + 1 }
        (max h.epoch message.epoch)
    | .election => .write h (max h.epoch message.epoch)
    | .ok => .leave

/-- What a critical section does once the epoch is set. -/
def finish (cfg : MonitorConfig) (h : ElectionHandler) : Critical → ElectionHandler
  | .answer _ => h
  | .win _ => { h with leader := cfg.monitorId, leaderRunning := true, state := .leader }
  | .handle message =>
    match message.messageType with
    | .coordinator =>
      { h with leader := message.senderId, leaderRunning := true, state := .follower }
    | .election | .ok => h

/-- `i_am_leader`. -/
def iAmLeader (cfg : MonitorConfig) (h : ElectionHandler) : Prop :=
  h.leaderRunning = true ∧ h.leader = cfg.monitorId

instance (cfg : MonitorConfig) (h : ElectionHandler) : Decidable (h.iAmLeader cfg) :=
  inferInstanceAs (Decidable (_ ∧ _))

end ElectionHandler

/-- Where the thread that holds `_election_lock` stands. -/
inductive Phase where
  | idle
  /-- In the loop of `start_election`: `peers` have not been contacted to the end. -/
  | polling (generation : Nat) (epoch : Epoch) (peers : List Nat) (higherAnswered : Bool)
  /-- `_become_leader` has left its critical section. -/
  | won
  /-- In the loop of `send_coordinator`. -/
  | announcing (epoch : Epoch) (peers : List Nat)
  deriving DecidableEq

/-- The response that counts in `start_election`. -/
def Answers (peer : Nat) (response : ElectionMessage) : Prop :=
  response.messageType = .ok ∧ response.senderId = peer

instance (peer : Nat) (response : ElectionMessage) : Decidable (Answers peer response) :=
  inferInstanceAs (Decidable (_ ∧ _))

/-- The loop of `start_election` goes on to the next peer; `answered` when this one counted. -/
def Phase.next (cfg : MonitorConfig) (answered : Bool) : Phase → Phase
  | .polling generation epoch (peer :: peers) higherAnswered =>
    .polling generation epoch peers (higherAnswered || answered && cfg.monitorId < peer)
  | phase => phase

/-! ## Critical sections -/

namespace ElectionHandler

variable {h h' : ElectionHandler} {epoch : Epoch} {c : Critical}

/-- The epoch is never lowered, and what stands before the write leaves it alone. -/
theorem enter_write (hw : h.enter c = .write h' epoch) : h'.epoch = h.epoch ∧ h.epoch ≤ epoch := by
  unfold enter at hw
  split at hw
  · cases hw
    exact ⟨rfl, le_max_left _ _⟩
  · split at hw
    · cases hw
    · split at hw
      · cases hw
      next he =>
        cases hw
        exact ⟨rfl, le_of_lt (Epoch.next_eq_some he)⟩
  · split at hw
    · split at hw
      · cases hw
      · cases hw
        exact ⟨rfl, le_max_left _ _⟩
    · cases hw
      exact ⟨rfl, le_max_left _ _⟩
    · cases hw

@[simp] theorem finish_epoch (cfg : MonitorConfig) : (h.finish cfg c).epoch = h.epoch := by
  unfold finish
  split
  · rfl
  · rfl
  · split <;> rfl

end ElectionHandler

end MoneyLaundering.Monitor
