import Mathlib.Data.List.Basic
import Mathlib.Logic.Function.Basic
import MoneyLaundering.Lib.Transition
import MoneyLaundering.Monitor.ElectionHandler

/-!
# The monitors of a cluster

All monitors with the messages between them. A monitor that runs an election holds one connection at
a time, to the peer that it contacts; announcements travel on their own. A send fails when the peer
is down, an exchange breaks when the peer dies in the middle of it, and a monitor that starts again
loads the epoch that it saved.

Saves succeed here. A process that dies inside a critical section may have replaced its file
already.
-/

namespace MoneyLaundering.Monitor

/-- A critical section whose save succeeds; `none` when it leaves without effect or raises. -/
def ElectionHandler.run (cfg : MonitorConfig) (h : ElectionHandler) (c : Critical) :
    Option ElectionHandler :=
  match h.enter c with
  | .leave | .exhausted => none
  | .write h epoch => some ({ h with epoch }.finish cfg c)

/-- The number of monitors, checked. -/
structure ClusterConfig where
  monitorCount : Nat
  count_range : 1 ≤ monitorCount ∧ monitorCount ≤ 255

/-- The monitors of a cluster by their ids. -/
abbrev ClusterConfig.Id (cfg : ClusterConfig) : Type :=
  { i : Nat // 1 ≤ i ∧ i ≤ cfg.monitorCount }

/-- `config` of one monitor. -/
def ClusterConfig.monitor (cfg : ClusterConfig) (i : cfg.Id) : MonitorConfig :=
  ⟨i.val, cfg.monitorCount, cfg.count_range, i.property⟩

/-- The connection to the contacted peer. -/
inductive Exchange where
  | closed
  | requested
  | answered (epoch : Epoch)
  | broken
  deriving DecidableEq

/-- A monitor and what it has on disk. -/
structure Node where
  up : Bool := true
  handler : ElectionHandler
  stored : Epoch
  phase : Phase := .idle
  exchange : Exchange := .closed

/-- A message on its way whose sender does not wait for an answer. -/
structure Packet where
  receiver : Nat
  message : ElectionMessage
  deriving DecidableEq

structure Cluster where
  node : Nat → Node
  packets : List Packet

/-- The critical sections that a monitor can enter. -/
inductive Entry where
  /-- The contacted peer has answered. -/
  | answer
  /-- All peers were contacted and no higher one answered. -/
  | win
  /-- The listener takes a packet. -/
  | packet (index : Nat)
  /-- The listener takes the `ELECTION` of a monitor that waits for the answer. -/
  | request (sender : Nat)
  deriving DecidableEq

/-- What can happen in a cluster. -/
inductive ClusterLabel (cfg : ClusterConfig) where
  | start (i : cfg.Id)
  /-- `start_election` opens the connection to the next peer. -/
  | contact (i : cfg.Id)
  /-- The connection to the peer fails. -/
  | contactFails (i : cfg.Id)
  /-- A higher monitor has answered: the election is over. -/
  | giveUp (i : cfg.Id)
  | enter (i : cfg.Id) (entry : Entry)
  | readEpoch (i : cfg.Id)
  | announce (i : cfg.Id)
  /-- A packet to a monitor that is down is lost. -/
  | lose (index : Nat)
  | stop (i : cfg.Id)
  | crash (i : cfg.Id)
  /-- The process dies in a critical section after `os.replace`. -/
  | crashIn (i : cfg.Id) (entry : Entry)
  | restart (i : cfg.Id)

namespace Cluster

variable (cfg : ClusterConfig)

def init : Cluster where
  node _ := { handler := { leader := cfg.monitorCount, epoch := 0 }, stored := 0 }
  packets := []

def set (s : Cluster) (i : Nat) (n : Node) : Cluster :=
  { s with node := Function.update s.node i n }

/-- The critical section of an entry, when it can be entered. -/
def criticalOf (s : Cluster) (i : Nat) : Entry → Option Critical
  | .answer =>
    match (s.node i).phase, (s.node i).exchange with
    | .polling _ _ (peer :: _) _, .answered epoch => some (.answer ⟨.ok, epoch, peer⟩)
    | _, _ => none
  | .win =>
    match (s.node i).phase with
    | .polling generation _ [] false => some (.win generation)
    | _ => none
  | .packet index =>
    match s.packets[index]? with
    | some packet => if packet.receiver = i then some (.handle packet.message) else none
    | none => none
  | .request sender =>
    match (s.node sender).phase, (s.node sender).exchange with
    | .polling _ epoch (peer :: _) _, .requested =>
      if peer = i ∧ sender ≠ i then some (.handle ⟨.election, epoch, sender⟩) else none
    | _, _ => none

/-- What a critical section changes at its monitor. -/
def entered (i : cfg.Id) (n : Node) (c : Critical) : Entry → Node
  | .answer =>
    { n with
      handler := (n.handler.run (cfg.monitor i) c).getD n.handler
      stored := ((n.handler.run (cfg.monitor i) c).getD n.handler).epoch
      phase := n.phase.next (cfg.monitor i) true
      exchange := .closed }
  | .win =>
    match n.handler.run (cfg.monitor i) c with
    | some h => { n with handler := h, stored := h.epoch, phase := .won }
    | none => { n with phase := .idle }
  | .packet _ | .request _ =>
    { n with
      handler := (n.handler.run (cfg.monitor i) c).getD n.handler
      stored := ((n.handler.run (cfg.monitor i) c).getD n.handler).epoch }

/-- A process dies: its connections break, and an `ELECTION` that it has sent may still arrive. -/
def crashed (s : Cluster) (i : Nat) (stored : Epoch) : Cluster where
  node k :=
    if k = i then { s.node i with up := false, stored, phase := .idle, exchange := .closed }
    else
      match (s.node k).phase, (s.node k).exchange with
      | .polling _ _ (peer :: _) _, .requested =>
        if peer = i then { s.node k with exchange := .broken } else s.node k
      | _, _ => s.node k
  packets :=
    match (s.node i).phase, (s.node i).exchange with
    | .polling _ epoch (peer :: _) _, .requested =>
      s.packets ++ [⟨peer, ⟨.election, epoch, i⟩⟩]
    | _, _ => s.packets

/-- One step, `none` when it is not enabled. -/
def exec (s : Cluster) : ClusterLabel cfg → Option Cluster
  | .start i =>
    if (s.node i).up = true ∧ (s.node i).phase = .idle ∧ (s.node i).handler.stopped = false then
      some (s.set i { s.node i with
        handler := (s.node i).handler.startElection
        phase := .polling ((s.node i).handler.electionGeneration + 1) (s.node i).handler.epoch
          (cfg.monitor i).electionPeers false
        exchange := .closed })
    else none
  | .contact i =>
    match (s.node i).up, (s.node i).phase, (s.node i).exchange with
    | true, .polling _ _ (peer :: _) _, .closed =>
      if (s.node peer).up = true then some (s.set i { s.node i with exchange := .requested })
      else some (s.set i { s.node i with phase := (s.node i).phase.next (cfg.monitor i) false })
    | _, _, _ => none
  | .contactFails i =>
    match (s.node i).up, (s.node i).phase with
    | true, .polling _ _ (peer :: _) _ =>
      if (s.node i).exchange = .broken ∨
          (s.node i).exchange ≠ .closed ∧ (s.node peer).up = false then
        some (s.set i { s.node i with
          phase := (s.node i).phase.next (cfg.monitor i) false
          exchange := .closed })
      else none
    | _, _ => none
  | .giveUp i =>
    match (s.node i).up, (s.node i).phase with
    | true, .polling _ _ [] true => some (s.set i { s.node i with phase := .idle })
    | _, _ => none
  | .enter i entry =>
    match (s.node i).up, s.criticalOf i entry with
    | true, some c =>
      let s' := s.set i (entered cfg i (s.node i) c entry)
      match entry with
      | .answer | .win => some s'
      | .packet index => some { s' with packets := s.packets.eraseIdx index }
      | .request sender =>
        some (s'.set sender { s'.node sender with exchange := .answered (s'.node i).handler.epoch })
    | _, _ => none
  | .readEpoch i =>
    match (s.node i).up, (s.node i).phase with
    | true, .won => some (s.set i { s.node i with
        phase := .announcing (s.node i).handler.epoch (cfg.monitor i).coordinatorPeers })
    | _, _ => none
  | .announce i =>
    match (s.node i).up, (s.node i).phase with
    | true, .announcing epoch (peer :: peers) =>
      let s' := s.set i { s.node i with phase := .announcing epoch peers }
      if (s.node peer).up = true then
        some { s' with packets := s.packets ++ [⟨peer, ⟨.coordinator, epoch, i⟩⟩] }
      else some s'
    | true, .announcing _ [] => some (s.set i { s.node i with phase := .idle })
    | _, _ => none
  | .lose index =>
    match s.packets[index]? with
    | some packet =>
      if (s.node packet.receiver).up =
        false then some { s with packets := s.packets.eraseIdx index }
      else none
    | none => none
  | .stop i =>
    if (s.node i).up = true then some (s.set i { s.node i with handler := (s.node i).handler.stop })
    else none
  | .crash i => if (s.node i).up = true then some (s.crashed i (s.node i).stored) else none
  | .crashIn i entry =>
    match (s.node i).up, (s.criticalOf i entry).bind ((s.node i).handler.run (cfg.monitor i)) with
    | true, some h => some (s.crashed i h.epoch)
    | _, _ => none
  | .restart i =>
    if (s.node i).up = false then
      some (s.set i
        { handler := .init (cfg.monitor i) (s.node i).stored, stored := (s.node i).stored })
    else none

/-! ## Who leads -/

/-- The monitor is up and `i_am_leader`. -/
def Leads (s : Cluster) (i : Nat) : Prop :=
  (s.node i).up = true ∧ (s.node i).handler.leaderRunning = true ∧ (s.node i).handler.leader = i

instance (s : Cluster) (i : Nat) : Decidable (s.Leads i) := inferInstanceAs (Decidable (_ ∧ _ ∧ _))

/-- The monitor is in the loop of `start_election`. -/
def polls (s : Cluster) (i : Nat) : Bool :=
  match (s.node i).phase with
  | .polling .. => true
  | _ => false

/-- No election is in progress and no message on its way. -/
def Quiet (s : Cluster) : Prop :=
  (∀ i : cfg.Id, (s.node i).up = true → (s.node i).phase = .idle) ∧ s.packets = []

/-- A monitor that leads or runs an election is about to ignore, as older than its own epoch, the
announcement of a monitor that still leads. -/
def Spurns (s : Cluster) (i : Nat) (packet : Packet) : Prop :=
  packet.receiver = i ∧ packet.message.messageType = .coordinator ∧
  s.Leads packet.message.senderId ∧
    (s.Leads i ∨ s.polls i = true) ∧ packet.message.epoch < (s.node i).handler.epoch

instance (s : Cluster) (i : Nat) (packet : Packet) : Decidable (s.Spurns i packet) :=
  inferInstanceAs (Decidable (_ ∧ _))

/-- No announcement of a leader is spurned. -/
def Heeds (s : Cluster) : ClusterLabel cfg → Prop
  | .enter i (.packet index) => ∀ packet ∈ s.packets[index]?, ¬ s.Spurns i packet
  | _ => True

instance (s : Cluster) : (l : ClusterLabel cfg) → Decidable (Heeds cfg s l)
  | .enter i (.packet index) =>
    inferInstanceAs (Decidable (∀ packet ∈ s.packets[index]?, ¬ s.Spurns i packet))
  | .enter _ .answer | .enter _ .win | .enter _ (.request _) | .start _ | .contact _
  | .contactFails _
  | .giveUp _ | .readEpoch _ | .announce _ | .lose _ | .stop _ | .crash _ | .crashIn ..
  | .restart _ =>
    .isTrue trivial

/-! ## Announcements on their way -/

variable {cfg}

/-- The election of a monitor can still be won, and the peer will not stop it. -/
def Past (n : Node) (j : Nat) : Prop :=
  ∃ epoch peers, n.phase = .polling n.handler.electionGeneration epoch peers false ∧
    n.handler.leaderRunning = false ∧ n.handler.stopped = false ∧
    (j ∉ peers ∨ peers.head? = some j ∧ n.exchange = .broken)

/-- The monitor leads, or may come to lead, without the consent of a peer. -/
def Contends (n : Node) (i j : Nat) : Prop :=
  n.handler.leaderRunning = true ∧ n.handler.leader = i ∨ Past n j

/-- The announcement to a monitor is still to be sent. -/
def Owes : Phase → Nat → Prop
  | .won, _ => True
  | .announcing _ peers, i => i ∈ peers
  | _, _ => False

/-- The announcement of one monitor to another is still to be sent or on its way. -/
def Pending (s : Cluster) (i j : Nat) : Prop :=
  Owes (s.node j).phase i ∨ ∃ epoch, ⟨i, ⟨.coordinator, epoch, j⟩⟩ ∈ s.packets

/-- A monitor that contends with a higher leader has the leader's announcement still coming. -/
structure Told (cfg : ClusterConfig) (s : Cluster) : Prop where
  pending : ∀ i j : cfg.Id, i.val < j.val → (s.node i).up = true → s.Leads j →
    Contends (s.node i) i j → s.Pending i j
  lower : ∀ packet ∈ s.packets, packet.message.messageType = .coordinator →
    packet.receiver < packet.message.senderId
  below : ∀ i epoch peers, (s.node i).phase = .announcing epoch peers → ∀ peer ∈ peers, peer < i

variable {s s' : Cluster}

@[simp] theorem set_node_self (s : Cluster) (i : Nat) (n : Node) : (s.set i n).node i = n :=
  Function.update_self ..

theorem set_node_of_ne {i k : Nat} (n : Node) (h : k ≠ i) : (s.set i n).node k = s.node k :=
  Function.update_of_ne h ..

@[simp] theorem set_packets (s : Cluster) (i : Nat) (n : Node) : (s.set i n).packets = s.packets :=
  rfl

theorem below_set {a : Nat} {n : Node}
    (h : ∀ i epoch peers, (s.node i).phase = .announcing epoch peers → ∀ peer ∈ peers, peer < i)
    (hn : ∀ epoch peers, n.phase = .announcing epoch peers → ∀ peer ∈ peers, peer < a) (i : Nat)
    (epoch : Epoch) (peers : List Nat) (hp : ((s.set a n).node i).phase = .announcing epoch peers) :
    ∀ peer ∈ peers, peer < i := by
  by_cases hi : i = a
  · subst hi
    rw [set_node_self] at hp
    exact hn epoch peers hp
  · rw [set_node_of_ne n hi] at hp
    exact h i epoch peers hp

/-- One monitor moves, and no packet is taken. -/
theorem Told.update (h : Told cfg s) {a : Nat} {n : Node} {packets : List Packet}
    (hsub : ∀ packet ∈ s.packets, packet ∈ packets)
    (hlower : ∀ packet ∈ packets, packet.message.messageType = .coordinator →
      packet.receiver < packet.message.senderId)
    (hleads : n.up = true → n.handler.leaderRunning = true → n.handler.leader = a →
      n.phase = .won ∨ s.Leads a ∧ ∀ i : cfg.Id, i.val < a → (s.node i).up = true →
        Owes (s.node a).phase i → Owes n.phase i ∨ ∃ epoch, ⟨i, ⟨.coordinator, epoch, a⟩⟩ ∈ packets)
    (hcontends : n.up = true → ∀ j : cfg.Id, a < j.val → s.Leads j → Contends n a j →
      (s.node a).up = true ∧ Contends (s.node a) a j)
    (hbelow : ∀ epoch peers, n.phase = .announcing epoch peers → ∀ peer ∈ peers, peer < a) :
    Told cfg { s.set a n with packets } := by
  refine ⟨fun i j hij hup hl hc => ?_, hlower, below_set h.below hbelow⟩
  by_cases hja : j.val = a
  · subst hja
    have hi : ({ s.set j n with packets } : Cluster).node i = s.node i :=
      set_node_of_ne n (by omega)
    have hnode : ({ s.set j n with packets } : Cluster).node j = n := set_node_self ..
    rw [Leads, hnode] at hl
    rw [hi] at hup hc
    rw [Pending, hnode]
    rcases hleads hl.1 hl.2.1 hl.2.2 with hwon | ⟨hold, howes⟩
    · left
      rw [hwon]
      trivial
    · rcases h.pending i j hij hup hold hc with ho | ⟨epoch, hm⟩
      · exact howes i hij hup ho
      · exact .inr ⟨epoch, hsub _ hm⟩
  · have hj : ({ s.set a n with packets } : Cluster).node j = s.node j := set_node_of_ne n hja
    have hlj : s.Leads j := by rwa [Leads, hj] at hl
    have hold : (s.node i).up = true ∧ Contends (s.node i) i j := by
      by_cases hia : i.val = a
      · subst hia
        have hnode : ({ s.set i n with packets } : Cluster).node i = n := set_node_self ..
        rw [hnode] at hup hc
        exact hcontends hup j hij hlj hc
      · have hi : ({ s.set a n with packets } : Cluster).node i = s.node i := set_node_of_ne n hia
        rw [hi] at hup hc
        exact ⟨hup, hc⟩
    rcases h.pending i j hij hold.1 hlj hold.2 with ho | ⟨epoch, hm⟩
    · left
      rwa [hj]
    · exact .inr ⟨epoch, hsub _ hm⟩

/-- One monitor moves, and nothing is sent. -/
theorem Told.settle (h : Told cfg s) {a : Nat} {n : Node}
    (hleads : n.up = true → n.handler.leaderRunning = true → n.handler.leader = a →
      n.phase = .won ∨ s.Leads a ∧ ∀ i : cfg.Id, i.val < a → (s.node i).up = true →
        Owes (s.node a).phase i → Owes n.phase i)
    (hcontends : n.up = true → ∀ j : cfg.Id, a < j.val → s.Leads j → Contends n a j →
      (s.node a).up = true ∧ Contends (s.node a) a j)
    (hbelow : ∀ epoch peers, n.phase = .announcing epoch peers → ∀ peer ∈ peers, peer < a) :
    Told cfg (s.set a n) := by
  refine h.update (fun _ => id) h.lower (fun hu hr hl => ?_) hcontends hbelow
  exact (hleads hu hr hl).imp id fun ⟨hold, howes⟩ =>
    ⟨hold, fun i hi hup ho => .inl (howes i hi hup ho)⟩

/-- Two handlers that differ in their epoch at most. -/
def SameRole (h h' : ElectionHandler) : Prop :=
  h'.leaderRunning = h.leaderRunning ∧ h'.leader = h.leader ∧
    h'.electionGeneration = h.electionGeneration ∧ h'.stopped = h.stopped

/-- A new epoch does not change who contends. -/
theorem contends_congr {n n' : Node} {i j : Nat} (hh : SameRole n.handler n'.handler)
    (hp : n'.phase = n.phase) (he : n'.exchange = n.exchange) (h : Contends n' i j) :
    Contends n i j := by
  obtain ⟨hr, hl, hg, hs⟩ := hh
  rw [Contends, Past] at h ⊢
  rwa [hr, hl, hg, hs, hp, he] at h

/-- The loop of `start_election` goes on: a peer that is left behind has answered, or its connection
broke before. -/
theorem past_of_next {n n' : Node} {config : MonitorConfig} {answered : Bool}
    {generation j peer : Nat} {epoch : Epoch} {peers : List Nat} {higher : Bool}
    (hp : n.phase = .polling generation epoch (peer :: peers) higher)
    (hp' : n'.phase = n.phase.next config answered) (he' : n'.exchange = .closed)
    (hh : SameRole n.handler n'.handler)
    (hstop : peer = j → answered = true ∧ config.monitorId < j ∨ n.exchange = .broken)
    (h : Past n' j) : Past n j := by
  obtain ⟨e, ps, hphase, hrun, hnot, hj⟩ := h
  obtain ⟨hr, -, hg, hs⟩ := hh
  rw [hp', hp, hg] at hphase
  injection hphase with hgen hep hps hhigher
  subst hgen hep hps
  obtain ⟨rfl, hanswered⟩ := Bool.or_eq_false_iff.mp hhigher
  have hleft : j ∉ peers := by
    rcases hj with hj | ⟨-, hb⟩
    · exact hj
    · rw [he'] at hb
      cases hb
  refine ⟨epoch, peer :: peers, hp, hr ▸ hrun, hs ▸ hnot, ?_⟩
  by_cases hpj : peer = j
  · rcases hstop hpj with ⟨rfl, hlt⟩ | hb
    · simp [hpj, hlt] at hanswered
    · exact .inr ⟨congrArg some hpj, hb⟩
  · exact .inl fun hm => (List.mem_cons.mp hm).elim (fun he => hpj he.symm) hleft

/-! ## Critical sections -/

theorem run_election (config : MonitorConfig) (h : ElectionHandler) {message : ElectionMessage}
    (ht : message.messageType = .election) :
    h.run config (.handle message) = some { h with epoch := max h.epoch message.epoch } := by
  simp only [ElectionHandler.run, ElectionHandler.enter, ElectionHandler.finish, ht]

theorem run_ok (config : MonitorConfig) (h : ElectionHandler) {message : ElectionMessage}
    (ht : message.messageType = .ok) : h.run config (.handle message) = none := by
  simp only [ElectionHandler.run, ElectionHandler.enter, ht]

theorem run_coordinator (config : MonitorConfig) (h : ElectionHandler) {message : ElectionMessage}
    (ht : message.messageType = .coordinator) :
    h.Ignores message ∧ h.run config (.handle message) = none ∨
    ¬ h.Ignores message ∧ ∃ h', h.run config (.handle message) = some h' ∧
      h'.leaderRunning = true ∧ h'.leader = message.senderId := by
  by_cases hi : h.Ignores message
  · exact .inl ⟨hi, by simp only [ElectionHandler.run, ElectionHandler.enter, ht, if_pos hi]⟩
  · let accepted : ElectionHandler :=
      { h with
        electionGeneration := h.electionGeneration + 1
        epoch := max h.epoch message.epoch
        leader := message.senderId
        leaderRunning := true
        state := .follower }
    refine .inr ⟨hi, accepted, ?_, rfl, rfl⟩
    simp only [ElectionHandler.run, ElectionHandler.enter, ElectionHandler.finish, ht,
      if_neg hi, accepted]

/-- `_become_leader` with effect. -/
theorem run_win {config : MonitorConfig} {h h' : ElectionHandler} {generation : Nat}
    (hw : h.run config (.win generation) = some h') :
    generation = h.electionGeneration ∧ h.leaderRunning = false ∧ h.stopped = false := by
  simp only [ElectionHandler.run, ElectionHandler.enter] at hw
  split at hw
  · cases hw
  · cases hw
  next hn =>
    split at hn
    · cases hn
    next hc =>
      simp only [not_or, Bool.not_eq_true, not_not] at hc
      exact ⟨hc.2.1, hc.2.2, hc.1⟩

theorem mem_eraseIdx_of_ne {packets : List Packet} {index : Nat} {packet other : Packet}
    (hp : packets[index]? = some packet) (hm : other ∈ packets) (hne : other ≠ packet) :
    other ∈ packets.eraseIdx index := by
  obtain ⟨k, hk⟩ := List.mem_iff_getElem?.mp hm
  refine List.mem_eraseIdx_iff_getElem?.mpr ⟨k, fun he => ?_, hk⟩
  rw [he, hp] at hk
  exact hne (Option.some.inj hk).symm

theorem polls_of_past {i j : Nat} (h : Past (s.node i) j) : s.polls i = true := by
  obtain ⟨_, _, hp, -⟩ := h
  rw [polls, hp]

/-- What a message does to who leads and contends: either nothing, or the receiver follows the
sender. -/
theorem run_handle (config : MonitorConfig) (h : ElectionHandler) (message : ElectionMessage) :
    (message.messageType = .coordinator → h.Ignores message) ∧
      SameRole h ((h.run config (.handle message)).getD h) ∨
    message.messageType = .coordinator ∧ ∃ h', h.run config (.handle message) = some h' ∧
      h'.leaderRunning = true ∧ h'.leader = message.senderId := by
  cases ht : message.messageType with
  | election =>
    rw [run_election config _ ht]
    exact .inl ⟨nofun, rfl, rfl, rfl, rfl⟩
  | ok =>
    rw [run_ok config _ ht]
    exact .inl ⟨nofun, rfl, rfl, rfl, rfl⟩
  | coordinator =>
    rcases run_coordinator config h ht with ⟨hi, hn⟩ | ⟨-, hacc⟩
    · rw [hn]
      exact .inl ⟨fun _ => hi, rfl, rfl, rfl, rfl⟩
    · exact .inr ⟨rfl, hacc⟩

/-- The listener takes a packet. -/
theorem Told.packet (h : Told cfg s) {a : cfg.Id} {index : Nat} {packet : Packet}
    (hp : s.packets[index]? = some packet) (hrec : packet.receiver = a) (hq : ¬ s.Spurns a packet)
    (hup : (s.node a).up = true) :
    Told cfg { s.set a (entered cfg a (s.node a) (.handle packet.message) (.packet index)) with
      packets := s.packets.eraseIdx index } := by
  have hmem : packet ∈ s.packets := List.mem_of_getElem? hp
  have hkeep : ∀ {other : Packet}, other ∈ s.packets → other ≠ packet →
      other ∈ s.packets.eraseIdx index :=
    fun hm hne => mem_eraseIdx_of_ne hp hm hne
  refine ⟨fun i j hij hu hl hc => ?_, fun other hm => h.lower other (List.mem_of_mem_eraseIdx hm),
    below_set h.below (h.below a)⟩
  rcases run_handle (cfg.monitor a) (s.node a).handler packet.message with ⟨hign, hsame⟩ |
    ⟨ht, h', hrun, hr, hle⟩
  · -- nobody is followed: leaders and contenders are those from before
    obtain ⟨hr, hle, -, -⟩ := id hsame
    have hlj : s.Leads j := by
      by_cases hja : j.val = a.val
      · obtain rfl : j = a := Subtype.ext hja
        rw [Leads, set_node_self] at hl
        exact ⟨hl.1, hr ▸ hl.2.1, hle ▸ hl.2.2⟩
      · rwa [Leads, set_node_of_ne _ hja] at hl
    have hci : (s.node i).up = true ∧ Contends (s.node i) i j := by
      by_cases hia : i.val = a.val
      · obtain rfl : i = a := Subtype.ext hia
        rw [set_node_self] at hc
        refine ⟨hup, contends_congr ?_ ?_ ?_ hc⟩
        exacts [hsame, rfl, rfl]
      · rw [set_node_of_ne _ hia] at hu hc
        exact ⟨hu, hc⟩
    rcases h.pending i j hij hci.1 hlj hci.2 with ho | ⟨epoch, hm⟩
    · left
      by_cases hja : j.val = a.val
      · obtain rfl : j = a := Subtype.ext hja
        rwa [set_node_self]
      · rwa [set_node_of_ne _ hja]
    · refine .inr ⟨epoch, hkeep hm fun he => ?_⟩
      -- the announcement itself was ignored, and a contender does that for its epoch only
      subst he
      obtain rfl : i = a := Subtype.ext hrec
      rcases hign rfl with hlt | ⟨-, hrunning, hlower⟩
      · refine hq ⟨rfl, rfl, hlj, ?_, hlt⟩
        exact hci.2.imp (fun hl => ⟨hci.1, hl⟩) polls_of_past
      · rcases hci.2 with ⟨-, hleader⟩ | ⟨_, _, -, hnot, -⟩
        · rw [hleader] at hlower
          exact absurd hlower (by simp only; omega)
        · rw [hnot] at hrunning
          cases hrunning
  · -- the receiver follows the sender: it neither leads nor contends
    have hlow := h.lower packet hmem ht
    rw [hrec] at hlow
    have hnode : ∀ k, k = a.val → (({ s.set a (entered cfg a (s.node a) (.handle packet.message)
        (.packet index)) with packets := s.packets.eraseIdx index } : Cluster).node k).handler =
        h' := by
      rintro _ rfl
      rw [set_node_self, entered, hrun]
      rfl
    have hja : j.val ≠ a.val := by
      intro he
      rw [Leads, hnode _ he, hle] at hl
      omega
    have hia : i.val ≠ a.val := by
      intro he
      rcases hc with ⟨-, hleader⟩ | ⟨_, _, -, hnot, -⟩
      · rw [hnode _ he, hle] at hleader
        omega
      · rw [hnode _ he, hr] at hnot
        cases hnot
    rw [Leads, set_node_of_ne _ hja] at hl
    rw [set_node_of_ne _ hia] at hu hc
    rcases h.pending i j hij hu hl hc with ho | ⟨epoch, hm⟩
    · left
      rwa [set_node_of_ne _ hja]
    · refine .inr ⟨epoch, hkeep hm fun he => hia ?_⟩
      rw [← hrec, ← he]

/-- The listener takes the `ELECTION` of a monitor, which then has its answer. -/
theorem Told.request (h : Told cfg s) {a : cfg.Id} {sender : Nat} {epoch answer : Epoch} :
    Told cfg ((s.set a (entered cfg a (s.node a) (.handle ⟨.election, epoch, sender⟩)
      (.request sender))).set sender
        { (s.set a (entered cfg a (s.node a) (.handle ⟨.election, epoch, sender⟩)
            (.request sender))).node sender with exchange := .answered answer }) := by
  have hlistener : Told cfg (s.set a (entered cfg a (s.node a) (.handle ⟨.election, epoch, sender⟩)
      (.request sender))) := by
    refine h.settle (fun hu hr hl => .inr ⟨⟨hu, hr, hl⟩, fun _ _ _ ho => ho⟩)
      (fun hu j _ _ hc => ⟨hu, ?_⟩) (h.below a)
    refine contends_congr ?_ ?_ ?_ hc
    exacts [⟨rfl, rfl, rfl, rfl⟩, rfl, rfl]
  refine hlistener.settle (fun hu hr hl => .inr ⟨⟨hu, hr, hl⟩, fun _ _ _ ho => ho⟩)
    (fun hu j _ _ hc => ⟨hu, ?_⟩) (hlistener.below sender)
  rcases hc with hc | ⟨e, peers, hp, hrun, hs, hj | ⟨-, hb⟩⟩
  · exact .inl hc
  · exact .inr ⟨e, peers, hp, hrun, hs, .inl hj⟩
  · cases hb

/-- A process dies. -/
theorem Told.crashed (h : Told cfg s) (a : Nat) (stored : Epoch) :
    Told cfg (s.crashed a stored) := by
  have hnode : ∀ k, k ≠ a → ((s.crashed a stored).node k).up = (s.node k).up ∧
      ((s.crashed a stored).node k).handler = (s.node k).handler ∧
      ((s.crashed a stored).node k).phase = (s.node k).phase ∧
      (((s.crashed a stored).node k).exchange = (s.node k).exchange ∨
        ∃ generation epoch peers higher, (s.node k).phase = .polling generation epoch
          (a :: peers) higher) := by
    intro k hk
    simp only [Cluster.crashed, if_neg hk]
    split
    next hp _ =>
      split
      next he =>
        subst he
        exact ⟨rfl, rfl, rfl, .inr ⟨_, _, _, _, hp⟩⟩
      · exact ⟨rfl, rfl, rfl, .inl rfl⟩
    · exact ⟨rfl, rfl, rfl, .inl rfl⟩
  have hdown : ((s.crashed a stored).node a).up = false := by
    simp only [Cluster.crashed, if_true]
  have hsub : ∀ packet ∈ s.packets, packet ∈ (s.crashed a stored).packets := by
    intro packet hm
    simp only [Cluster.crashed]
    split
    · exact List.mem_append_left _ hm
    · exact hm
  refine ⟨fun i j hij hup hl hc => ?_, fun packet hm ht => ?_, fun i epoch peers hp => ?_⟩
  · have hia : i.val ≠ a := by
      intro he
      rw [he, hdown] at hup
      cases hup
    have hja : j.val ≠ a := by
      intro he
      rw [Leads, he, hdown] at hl
      cases hl.1
    obtain ⟨hiu, hih, hip, hie⟩ := hnode i hia
    obtain ⟨hju, hjh, hjp, -⟩ := hnode j hja
    rw [Leads, hju, hjh] at hl
    have hold : Contends (s.node i) i j := by
      rw [Contends, Past, hih, hip] at hc
      rcases hc with hc | ⟨e, peers, hp, hrun, hs, hj | ⟨hhead, hb⟩⟩
      · exact .inl hc
      · exact .inr ⟨e, peers, hp, hrun, hs, .inl hj⟩
      · refine .inr ⟨e, peers, hp, hrun, hs, .inr ⟨hhead, ?_⟩⟩
        rcases hie with hie | ⟨_, _, ps, _, hp'⟩
        · rwa [← hie]
        · -- the connection that breaks is the one to the dead monitor
          rw [hp] at hp'
          injection hp' with _ _ hps _
          rw [hps] at hhead
          exact absurd (Option.some.inj hhead).symm hja
    rcases h.pending i j hij (hiu ▸ hup) hl hold with ho | ⟨epoch, hm⟩
    · left
      rwa [hjp]
    · exact .inr ⟨epoch, hsub _ hm⟩
  · simp only [Cluster.crashed] at hm
    split at hm
    · rcases List.mem_append.mp hm with hm | hm
      · exact h.lower packet hm ht
      · rw [List.mem_singleton.mp hm] at ht
        cases ht
    · exact h.lower packet hm ht
  · by_cases hi : i = a
    · simp only [Cluster.crashed, if_pos hi] at hp
      cases hp
    · rw [(hnode i hi).2.2.1] at hp
      exact h.below i epoch peers hp

/-! ## Steps -/

theorem mem_electionPeers {i j : cfg.Id} (h : i.val < j.val) :
    j.val ∈ (cfg.monitor i).electionPeers := by
  refine List.mem_filter.mpr ⟨List.mem_range'_1.mpr ?_, decide_eq_true (Nat.ne_of_gt h)⟩
  have := j.property
  simp only [ClusterConfig.monitor]
  omega

theorem mem_coordinatorPeers {i : cfg.Id} {k : Nat} :
    k ∈ (cfg.monitor i).coordinatorPeers ↔ 1 ≤ k ∧ k < i.val := by
  rw [MonitorConfig.coordinatorPeers, List.mem_range'_1]
  simp only [ClusterConfig.monitor]
  omega

/-- The loop of `start_election` goes on to the next peer. -/
theorem Told.poll (h : Told cfg s) {a : cfg.Id} {n : Node} {answered : Bool} {generation peer : Nat}
    {epoch : Epoch} {peers : List Nat} {higher : Bool} (hup : (s.node a).up = true)
    (hp : (s.node a).phase = .polling generation epoch (peer :: peers) higher)
    (hp' : n.phase = (s.node a).phase.next (cfg.monitor a) answered) (he : n.exchange = .closed)
    (hh : SameRole (s.node a).handler n.handler)
    (hstop : answered = true ∨ (s.node a).exchange = .broken ∨ (s.node peer).up = false) :
    Told cfg (s.set a n) := by
  have hphase : n.phase = .polling generation epoch peers
      (higher || answered && (cfg.monitor a).monitorId < peer) := by rw [hp', hp]; rfl
  refine h.settle (fun _ hr hl => .inr ⟨⟨hup, hh.1 ▸ hr, hh.2.1 ▸ hl⟩, fun i _ _ ho => ?_⟩)
    (fun _ j hj hl hc => ⟨hup, ?_⟩) fun e ps hph => ?_
  · rw [hp] at ho
    cases ho
  · rcases hc with hc | hc
    · exact .inl ⟨hh.1 ▸ hc.1, hh.2.1 ▸ hc.2⟩
    · refine .inr (past_of_next hp hp' he hh (fun hpj => ?_) hc)
      rcases hstop with ha | hb | hd
      · exact .inl ⟨ha, hj⟩
      · exact .inr hb
      · -- the leader is up, so the send to it does not fail
        rw [hpj, hl.1] at hd
        cases hd
  · rw [hphase] at hph
    cases hph

/-- A monitor that loses its election thread's place only neither leads nor contends anew. -/
theorem Told.idle (h : Told cfg s) {a : Nat} (hup : (s.node a).up = true)
    (howes : ∀ i, Owes (s.node a).phase i → False) :
    Told cfg (s.set a { s.node a with phase := .idle }) := by
  refine h.settle (fun hu hr hl => .inr ⟨⟨hu, hr, hl⟩, fun i _ _ ho => (howes i ho).elim⟩)
    (fun _ j _ _ hc => ⟨hup, ?_⟩) nofun
  rcases hc with hc | ⟨_, _, hp, -⟩
  · exact .inl hc
  · cases hp

/-- A critical section is entered. -/
theorem Told.enter (h : Told cfg s) {a : cfg.Id} {entry : Entry} (hq : Heeds cfg s (.enter a entry))
    (he : exec cfg s (.enter a entry) = some s') : Told cfg s' := by
  dsimp only [exec] at he
  split at he
  next c hup hc =>
    cases entry with
    | answer =>
      cases he
      simp only [criticalOf] at hc
      split at hc
      next hp hx =>
        cases hc
        exact h.poll hup hp rfl rfl ⟨rfl, rfl, rfl, rfl⟩ (.inl rfl)
      · cases hc
    | win =>
      cases he
      simp only [criticalOf] at hc
      split at hc
      next generation e hp =>
        cases hc
        simp only [entered]
        split
        next h' hrun =>
          obtain ⟨hgen, hr, hs⟩ := run_win hrun
          refine h.settle (fun _ _ _ => .inl rfl) (fun _ j _ _ _ => ⟨hup, .inr ?_⟩) nofun
          exact ⟨e, [], hgen ▸ hp, hr, hs, .inl List.not_mem_nil⟩
        next =>
          refine h.idle hup fun i ho => ?_
          rw [hp] at ho
          cases ho
      · cases hc
    | packet index =>
      cases he
      simp only [criticalOf] at hc
      split at hc
      next packet hpacket =>
        split at hc
        next hrec =>
          cases hc
          exact h.packet hpacket hrec (hq packet hpacket) hup
        · cases hc
      · cases hc
    | request sender =>
      cases he
      simp only [criticalOf] at hc
      split at hc
      · split at hc
        · cases hc
          exact h.request
        · cases hc
      · cases hc
  · cases he

/-- `start_election` takes a generation. -/
theorem Told.start (h : Told cfg s) {a : cfg.Id} (he : exec cfg s (.start a) = some s') :
    Told cfg s' := by
  rw [Cluster.exec] at he
  split at he
  next hup =>
    cases he
    refine h.settle (fun _ hr _ => by cases hr) (fun _ j hj _ hc => ⟨hup.1, ?_⟩) nofun
    rcases hc with ⟨hr, -⟩ | ⟨e, peers, hp, -, -, hnot | ⟨-, hb⟩⟩
    · cases hr
    · cases hp
      exact absurd (mem_electionPeers hj) hnot
    · cases hb
  · cases he

/-- A peer is contacted, or is down. -/
theorem Told.contact (h : Told cfg s) {a : cfg.Id} (he : exec cfg s (.contact a) = some s') :
    Told cfg s' := by
  dsimp only [Cluster.exec] at he
  split at he
  next hup hp hx =>
    split at he
    · cases he
      refine h.settle (fun hu hr hl => .inr ⟨⟨hu, hr, hl⟩, fun _ _ _ ho => ho⟩)
        (fun _ j _ _ hc => ⟨hup, ?_⟩) (h.below a)
      rcases hc with hc | ⟨e, ps, hph, hr, hs, hj | ⟨-, hb⟩⟩
      · exact .inl hc
      · exact .inr ⟨e, ps, hph, hr, hs, .inl hj⟩
      · cases hb
    next hdown =>
      cases he
      exact h.poll hup hp rfl hx ⟨rfl, rfl, rfl, rfl⟩ (.inr (.inr (Bool.eq_false_iff.mpr hdown)))
  · cases he

/-- A connection breaks or cannot be made. -/
theorem Told.contactFails (h : Told cfg s) {a : cfg.Id}
    (he : exec cfg s (.contactFails a) = some s') : Told cfg s' := by
  dsimp only [Cluster.exec] at he
  split at he
  next hup hp =>
    split at he
    next hx =>
      cases he
      exact h.poll hup hp rfl rfl ⟨rfl, rfl, rfl, rfl⟩ (.inr (hx.imp id And.right))
    · cases he
  · cases he

/-- `send_coordinator` reads the epoch. -/
theorem Told.readEpoch (h : Told cfg s) {a : cfg.Id} (he : exec cfg s (.readEpoch a) = some s') :
    Told cfg s' := by
  dsimp only [Cluster.exec] at he
  split at he
  next hup hp =>
    cases he
    refine h.settle (fun hu hr hl => .inr ⟨⟨hu, hr, hl⟩, fun i hi _ _ => ?_⟩)
      (fun _ j _ _ hc => ⟨hup, ?_⟩) fun e peers hph peer hm => ?_
    · exact mem_coordinatorPeers.mpr ⟨i.property.1, hi⟩
    · rcases hc with hc | ⟨_, _, hph, -⟩
      · exact .inl hc
      · cases hph
    · cases hph
      exact (mem_coordinatorPeers.mp hm).2
  · cases he

/-- `send_coordinator` sends to one peer, or is done. -/
theorem Told.announce (h : Told cfg s) {a : cfg.Id} (he : exec cfg s (.announce a) = some s') :
    Told cfg s' := by
  dsimp only [Cluster.exec] at he
  split at he
  next epoch peer peers hup hp =>
    have hc : ∀ j : cfg.Id, Contends { s.node a with phase := .announcing epoch peers } a j →
        Contends (s.node a) a j := by
      intro j hc
      rcases hc with hc | ⟨_, _, hph, -⟩
      · exact .inl hc
      · cases hph
    have hbelow : ∀ k ∈ peers, k < a.val :=
      fun k hk => h.below a _ _ hp k (List.mem_cons_of_mem _ hk)
    split at he
    · cases he
      refine h.update (fun _ => List.mem_append_left _) (fun packet hm ht => ?_)
        (fun hu hr hl => .inr ⟨⟨hu, hr, hl⟩, fun i _ _ ho => ?_⟩) (fun _ j _ _ hj => ⟨hup, hc j hj⟩)
        fun e ps hph => ?_
      · rcases List.mem_append.mp hm with hm | hm
        · exact h.lower packet hm ht
        · rw [List.mem_singleton.mp hm]
          exact h.below a _ _ hp peer (List.mem_cons_self ..)
      · rw [hp] at ho
        rcases List.mem_cons.mp ho with hi | hi
        · exact .inr ⟨epoch, List.mem_append_right _ (List.mem_singleton.mpr (by rw [hi]))⟩
        · exact .inl hi
      · cases hph
        exact hbelow
    next hdown =>
      cases he
      refine h.settle (fun hu hr hl => .inr ⟨⟨hu, hr, hl⟩, fun i _ hi ho => ?_⟩)
        (fun _ j _ _ hj => ⟨hup, hc j hj⟩) fun e ps hph => ?_
      · rw [hp] at ho
        rcases List.mem_cons.mp ho with he | he
        · rw [he] at hi
          exact absurd hi hdown
        · exact he
      · cases hph
        exact hbelow
  next hup hp =>
    cases he
    refine h.idle hup fun i ho => ?_
    rw [hp] at ho
    cases ho
  · cases he

/-- A packet to a monitor that is down is lost. -/
theorem Told.lose (h : Told cfg s) {index : Nat} (he : exec cfg s (.lose index) = some s') :
    Told cfg s' := by
  rw [Cluster.exec] at he
  split at he
  next packet hpacket =>
    split at he
    next hdown =>
      cases he
      refine ⟨fun i j hij hup hl hc => ?_, fun other hm =>
        h.lower other (List.mem_of_mem_eraseIdx hm), h.below⟩
      rcases h.pending i j hij hup hl hc with ho | ⟨epoch, hm⟩
      · exact .inl ho
      · refine .inr ⟨epoch, mem_eraseIdx_of_ne hpacket hm fun heq => ?_⟩
        rw [← heq, hup] at hdown
        cases hdown
    · cases he
  · cases he

/-- A monitor is stopped. -/
theorem Told.stop (h : Told cfg s) {a : cfg.Id} (he : exec cfg s (.stop a) = some s') :
    Told cfg s' := by
  rw [Cluster.exec] at he
  split at he
  next hup =>
    cases he
    refine h.settle (fun hu hr hl => .inr ⟨⟨hu, hr, hl⟩, fun _ _ _ ho => ho⟩)
      (fun _ j _ _ hc => ⟨hup, ?_⟩) (h.below a)
    rcases hc with hc | ⟨_, _, -, -, hs, -⟩
    · exact .inl hc
    · cases hs
  · cases he

/-- Every step keeps the invariant, as long as no announcement of a leader is spurned. -/
theorem Told.exec (h : Told cfg s) {l : ClusterLabel cfg} (hq : Heeds cfg s l)
    (he : exec cfg s l = some s') : Told cfg s' := by
  cases l with
  | start a => exact h.start he
  | contact a => exact h.contact he
  | contactFails a => exact h.contactFails he
  | giveUp a =>
    dsimp only [Cluster.exec] at he
    split at he
    next hup hp =>
      cases he
      refine h.idle hup fun i ho => ?_
      rw [hp] at ho
      cases ho
    · cases he
  | enter a entry => exact h.enter hq he
  | readEpoch a => exact h.readEpoch he
  | announce a => exact h.announce he
  | lose index => exact h.lose he
  | stop a => exact h.stop he
  | crash a =>
    rw [Cluster.exec] at he
    split at he
    · cases he
      exact h.crashed a _
    · cases he
  | crashIn a entry =>
    dsimp only [Cluster.exec] at he
    split at he
    · cases he
      exact h.crashed a _
    · cases he
  | restart a =>
    rw [Cluster.exec] at he
    split at he
    · cases he
      refine h.settle (fun _ hr _ => by cases hr) (fun _ j _ _ hc => ?_) nofun
      rcases hc with ⟨hr, -⟩ | ⟨_, _, hp, -⟩
      · cases hr
      · cases hp
    · cases he

theorem told_init (cfg : ClusterConfig) : Told cfg (init cfg) := by
  refine ⟨fun i j _ _ hl _ => ?_, nofun, nofun⟩
  cases hl.2.1

/-- **Leadership converges.** As long as no contender ignores the announcement of a leader for its
epoch, a cluster with no election in progress and no message on its way has at most one leader:
however elections, messages, crashes and restarts are interleaved. -/
theorem one_leader_when_quiet (cfg : ClusterConfig) (s : Cluster)
    (h : Transition.Reachable (exec cfg) (Heeds cfg) (init cfg) s)
    (hquiet : Quiet cfg s) (i j : cfg.Id)
    (hi : (s.node i).up = true ∧ (s.node i).handler.iAmLeader (cfg.monitor i))
    (hj : (s.node j).up = true ∧ (s.node j).handler.iAmLeader (cfg.monitor j)) : i = j := by
  have htold : Told cfg s := h.invariant (told_init cfg) fun _ _ _ ht hq he => ht.exec hq he
  have hnot : ∀ a b : cfg.Id, a.val < b.val →
      (s.node a).up = true ∧ (s.node a).handler.iAmLeader (cfg.monitor a) →
      (s.node b).up = true ∧ (s.node b).handler.iAmLeader (cfg.monitor b) → False := by
    intro a b hab ha hb
    rcases htold.pending a b hab ha.1 hb (.inl ha.2) with ho | ⟨epoch, hm⟩
    · rw [hquiet.1 b hb.1] at ho
      cases ho
    · rw [hquiet.2] at hm
      cases hm
  rcases Nat.lt_trichotomy i.val j.val with hlt | heq | hlt
  · exact (hnot i j hlt hi hj).elim
  · exact Subtype.ext heq
  · exact (hnot j i hlt hj hi).elim

/-- Three monitors. -/
def trio : ClusterConfig := ⟨3, MonitorConfig.three_range⟩

def first : trio.Id := ⟨1, by decide⟩

def second : trio.Id := ⟨2, by decide⟩

def third : trio.Id := ⟨3, by decide⟩

theorem quiet_trio {s : Cluster}
    (h : ((s.node 1).up = true → (s.node 1).phase = .idle) ∧
      ((s.node 2).up = true → (s.node 2).phase = .idle) ∧
      ((s.node 3).up = true → (s.node 3).phase = .idle) ∧ s.packets = []) : Quiet trio s := by
  refine ⟨?_, h.2.2.2⟩
  rintro ⟨i, hi⟩
  have hi' : i = 1 ∨ i = 2 ∨ i = 3 := by
    simp only [trio] at hi
    omega
  rcases hi' with rfl | rfl | rfl
  · exact h.1
  · exact h.2.1
  · exact h.2.2.1

/-- The third monitor wins with the consent of the others, and they follow it. -/
def smoothElection : List (ClusterLabel trio) :=
  [.start third, .contact third, .enter first (.request 3), .enter third .answer,
    .contact third, .enter second (.request 3), .enter third .answer, .enter third .win,
    .readEpoch third, .announce third, .announce third, .announce third,
    .enter first (.packet 0), .enter second (.packet 0)]

theorem one_leader_when_quiet_smooth :
    ∃ s, Transition.Reachable (exec trio) (Heeds trio) (init trio) s ∧ Quiet trio s ∧ s.Leads 3 ∧
      ∀ i : trio.Id, s.Leads i → i = third := by
  have hrun : (Transition.runAllowed (exec trio) (Heeds trio) (init trio) smoothElection).any
      fun s =>
      decide ((((s.node 1).up = true → (s.node 1).phase = .idle) ∧
        ((s.node 2).up = true → (s.node 2).phase = .idle) ∧
        ((s.node 3).up = true → (s.node 3).phase = .idle) ∧ s.packets = []) ∧ s.Leads 3) := by
    decide +kernel
  obtain ⟨s, hs, hk⟩ := (Option.any_eq_true _ _).mp hrun
  obtain ⟨hquiet, hleads⟩ := of_decide_eq_true hk
  have hr := Transition.reachable_of_runAllowed .init hs
  exact ⟨s, hr, quiet_trio hquiet, hleads,
    fun i hi => one_leader_when_quiet trio s hr (quiet_trio hquiet) i third hi hleads⟩

/-- The third monitor wins while the others are down. -/
def thirdAlone : List (ClusterLabel trio) :=
  [.start third, .contact third, .contact third, .enter third .win, .readEpoch third,
    .announce third, .announce third, .announce third]

/-- The first monitor leads alone, the second asks it for its epoch, and the third, back with a
higher one, only manages to ask the first. The second then wins at an epoch that the first is
past. -/
def splitElection : List (ClusterLabel trio) :=
  [.crash first, .crash second] ++ thirdAlone ++ thirdAlone ++ thirdAlone ++
  [.crash third, .restart first, .start first, .contact first, .contact first, .enter first .win,
    .readEpoch first, .announce first,
    .restart second, .start second, .contact second, .enter first (.request 2),
    .enter second .answer,
    .restart third, .start third, .contact third, .enter first (.request 3), .crash third,
    .contact second, .enter second .win, .readEpoch second, .announce second, .announce second,
    .enter first (.packet 0)]

/-- Two leaders, and nothing that would tell one of the other. -/
theorem two_leaders_when_quiet :
    ¬ ∀ s, Transition.Reachable (exec trio) (fun _ _ => True) (init trio) s → Quiet trio s →
      ∀ i j : trio.Id, (s.node i).up = true ∧ (s.node i).handler.iAmLeader (trio.monitor i) →
        (s.node j).up = true ∧ (s.node j).handler.iAmLeader (trio.monitor j) → i = j := by
  intro h
  have hrun : (Transition.runAllowed (exec trio) (fun _ _ => True) (init trio) splitElection).any
      fun s =>
      decide ((((s.node 1).up = true → (s.node 1).phase = .idle) ∧
        ((s.node 2).up = true → (s.node 2).phase = .idle) ∧
        ((s.node 3).up = true → (s.node 3).phase = .idle) ∧ s.packets = []) ∧
        s.Leads 1 ∧ s.Leads 2) := by
    decide +kernel
  obtain ⟨s, hs, hk⟩ := (Option.any_eq_true _ _).mp hrun
  obtain ⟨hquiet, h₁, h₂⟩ := of_decide_eq_true hk
  have heq :=
    h s (Transition.reachable_of_runAllowed .init hs) (quiet_trio hquiet) first second h₁ h₂
  cases congrArg Subtype.val heq

end Cluster

end MoneyLaundering.Monitor
