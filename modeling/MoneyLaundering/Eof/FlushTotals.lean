import MoneyLaundering.Eof.FlushAcks
import MoneyLaundering.Eof.WorkerChange
import MoneyLaundering.FaultTolerance.Tracking

/-!
# Predicting the last ack of a flush

A leader logs its `FLUSH_ACK`s. Before it does, `business_fn` reads the coordinator and predicts
whether the ack is the last one; the coordinator itself counts the ack when `apply_change` passes it
on. `FlushState` says what the log determines about both, whichever replica state the change meets:
the acks of an open client are those in the log, each sender once, and some are missing.

The module is about any worker whose changes read as `FlushStep`s (`Flushing`).
-/

namespace MoneyLaundering

open EofCoordinator

/-- What a logged change means for the flush of a client. An ack is counted, and closes the client
if it was predicted to be the last. -/
inductive FlushStep where
  | other
  | lead (clientId : Nat)
  | ack (clientId : Nat) (ctrl : ControlMessage) (last : Bool)
  | close (clientId : Nat)
  deriving DecidableEq

namespace FlushStep

def closes : FlushStep → Option Nat
  | .close c => some c
  | .ack c _ true => some c
  | _ => none

/-- The ack of a client. -/
def acked (c : Nat) : FlushStep → Option ControlMessage
  | .ack c' ctrl _ => if c' = c then some ctrl else none
  | _ => none

/-- Whether the step is the last ack of a client. -/
def isLast (c : Nat) : FlushStep → Bool
  | .ack c' _ last => decide (c' = c) && last
  | _ => false

end FlushStep

/-- The acks of a client, in order. -/
def acksIn (steps : List FlushStep) (c : Nat) : List ControlMessage :=
  steps.filterMap (FlushStep.acked c)

theorem acksIn_snoc (steps : List FlushStep) (step : FlushStep) (c : Nat) :
    acksIn (steps ++ [step]) c = acksIn steps c ++ (step.acked c).toList := by
  rw [acksIn, List.filterMap_append, acksIn]
  cases h : step.acked c <;> simp [h]

theorem mem_acksIn {steps : List FlushStep} {c : Nat} {ctrl : ControlMessage} :
    ctrl ∈ acksIn steps c ↔ ∃ last, .ack c ctrl last ∈ steps := by
  rw [acksIn, List.mem_filterMap]
  constructor
  · rintro ⟨step, hm, hstep⟩
    cases step with
    | ack c' ctrl' last =>
      dsimp only [FlushStep.acked] at hstep
      split at hstep
      · next hc =>
        cases hstep
        exact ⟨last, hc ▸ hm⟩
      · cases hstep
    | other | lead | close => cases hstep
  · rintro ⟨last, hm⟩
    exact ⟨_, hm, if_pos rfl⟩

theorem mem_ackSenders {acks : List ControlMessage} {sender : Nat} :
    sender ∈ ackSenders acks ↔ ∃ ctrl ∈ acks, ctrl.senderId = sender := by
  simp [ackSenders]

/-- What a log with these steps says about a coordinator and the closed clients. -/
structure FlushState (cfg : CoordinatorConfig) (steps : List FlushStep) (s : EofCoordinator)
    (closed : Finset Nat) : Prop where
  closed_iff : ∀ c, c ∈ closed ↔ ∃ step ∈ steps, step.closes = some c
  leads : ∀ c ∉ closed, .lead c ∈ steps → isLeaderHere cfg s c = true
  acks : ∀ c ∉ closed, s.flushAcks.getD c ∅ = ackSenders (acksIn steps c)
  forwarded : ∀ c ∉ closed, s.forwardedFromAcks.getD c 0 = ackTotal (acksIn steps c)
  missing : ∀ c ∉ closed, (acksIn steps c).length < cfg.totalInstances - 1
  distinct : ∀ c, ((acksIn steps c).map (·.senderId)).Nodup
  bound : ∀ c, (acksIn steps c).length ≤ cfg.totalInstances - 1
  lasts : ∀ c, (steps.filter (FlushStep.isLast c)).length =
    if (acksIn steps c).length = cfg.totalInstances - 1 then 1 else 0

/-- What a change with this meaning does to a coordinator and the closed clients. -/
structure Advances (cfg : CoordinatorConfig) (step : FlushStep) (s s' : EofCoordinator)
    (closed closed' : Finset Nat) : Prop where
  closed : ∀ c, c ∈ closed' ↔ c ∈ closed ∨ step.closes = some c
  leads : ∀ c ∉ closed', isLeaderHere cfg s c = true ∨ step = .lead c → isLeaderHere cfg s' c = true
  acks : ∀ c ∉ closed', s'.flushAcks.getD c ∅ = s.flushAcks.getD c ∅ ∪ ackSenders
    (step.acked c).toList
  forwarded : ∀ c ∉ closed',
    s'.forwardedFromAcks.getD c 0 = s.forwardedFromAcks.getD c 0 + ackTotal (step.acked c).toList

/-- An ack that a leader may log: the client is led and open, the sender is new, and the prediction
is that of the number of acks. -/
structure Predicted (cfg : CoordinatorConfig) (steps : List FlushStep) (c : Nat)
    (ctrl : ControlMessage) (last : Bool) : Prop where
  opened : ∀ step ∈ steps, step.closes ≠ some c
  led : .lead c ∈ steps
  new : ctrl.senderId ∉ ackSenders (acksIn steps c)
  last_iff : last = true ↔ (acksIn steps c).length + 1 = cfg.totalInstances - 1

/-- The prediction for an ack is exact: the acks so far have distinct senders, the last of `N - 1`
is predicted to be the last, and the coordinator answers it with the order to flush their sum, and
any other with nothing. -/
structure ExactFlush (cfg : CoordinatorConfig) (steps : List FlushStep)
    (s : EofCoordinator) (c : Nat) (ctrl : ControlMessage) (last : Bool) : Prop where
  distinct : ((acksIn steps c ++ [ctrl]).map (·.senderId)).Nodup
  last_iff : last = true ↔ (acksIn steps c ++ [ctrl]).length = cfg.totalInstances - 1
  answer : (s.processControlMessage cfg .flushAck c ctrl 0 0).2 =
    if last then some (.flush true (ackTotal (acksIn steps c ++ [ctrl])) "") else none

variable {cfg : CoordinatorConfig} {steps : List FlushStep} {step : FlushStep}
    {s s' : EofCoordinator}
  {closed closed' : Finset Nat} {c : Nat} {ctrl : ControlMessage} {last : Bool}

/-- Before anything is logged. -/
theorem flushState_nil (hN : 2 ≤ cfg.totalInstances) : FlushState cfg [] {} ∅ where
  closed_iff := by simp
  leads := by intros; contradiction
  acks := fun _ _ => rfl
  forwarded := fun _ _ => rfl
  missing := fun _ _ => Nat.sub_pos_of_lt hN
  distinct := fun _ => List.nodup_nil
  bound := fun _ => Nat.zero_le _
  lasts c := by
    rw [if_neg]
    · rfl
    · change ¬ 0 = cfg.totalInstances - 1
      omega

/-- What a call of the coordinator may touch outside the log: no client loses its leader, and no ack
is counted. -/
structure KeepsFlush (cfg : CoordinatorConfig) (s s' : EofCoordinator) : Prop where
  leads : ∀ c, isLeaderHere cfg s c = true → isLeaderHere cfg s' c = true
  acks : s'.flushAcks = s.flushAcks
  forwarded : s'.forwardedFromAcks = s.forwardedFromAcks

theorem FlushState.touched (h : FlushState cfg steps s closed) (hk : KeepsFlush cfg s s') :
    FlushState cfg steps s' closed where
  closed_iff := h.closed_iff
  leads c hc hlead := hk.leads c (h.leads c hc hlead)
  acks := hk.acks ▸ h.acks
  forwarded := hk.forwarded ▸ h.forwarded
  missing := h.missing
  distinct := h.distinct
  bound := h.bound
  lasts := h.lasts

theorem KeepsFlush.of_same (hl : s'.leaderExpected = s.leaderExpected)
    (ha : s'.flushAcks = s.flushAcks)
    (hf : s'.forwardedFromAcks = s.forwardedFromAcks) : KeepsFlush cfg s s' := by
  refine ⟨fun c h => ?_, ha, hf⟩
  unfold isLeaderHere at h ⊢
  rwa [hl]

theorem KeepsFlush.refl (s : EofCoordinator) : KeepsFlush cfg s s := .of_same rfl rfl rfl

theorem keepsFlush_onEofReceived (clientId : Nat) (ctrl : ControlMessage) (count forwarded : Nat) :
    KeepsFlush cfg s (s.onEofReceived cfg clientId ctrl count forwarded).1 := by
  unfold onEofReceived
  split
  · exact .of_same rfl rfl rfl
  · exact .of_same rfl rfl rfl

theorem keepsFlush_onProcessedAnswer (clientId : Nat) (ctrl : ControlMessage) :
    KeepsFlush cfg s (s.onProcessedAnswer cfg clientId ctrl).1 := by
  unfold onProcessedAnswer
  dsimp only
  split
  · exact .of_same rfl rfl rfl
  · split
    · exact .of_same rfl rfl rfl
    · split
      · exact .of_same rfl rfl rfl
      · split
        · exact .of_same rfl rfl rfl
        · exact .of_same rfl rfl rfl

theorem onUpstreamEof_eq (hm : cfg.mode = .broadcast) (hN : 2 ≤ cfg.totalInstances)
    (clientId expectedTotal count forwarded : Nat) :
    s.onUpstreamEof cfg clientId expectedTotal count forwarded =
      ({ s with leaderExpected := s.leaderExpected.set clientId expectedTotal },
        some (.broadcast (allControlQueues cfg)
          { msgType := .eofReceived, clientId,
            ctrl := { senderId := cfg.instanceId, expectedTotal } } 0)) := by
  unfold onUpstreamEof
  rw [if_neg (by omega), hm]

theorem keepsFlush_onUpstreamEof (hm : cfg.mode = .broadcast) (hN : 2 ≤ cfg.totalInstances)
    (clientId expectedTotal count forwarded : Nat) :
    KeepsFlush cfg s (s.onUpstreamEof cfg clientId expectedTotal count forwarded).1 := by
  rw [onUpstreamEof_eq hm hN]
  refine ⟨fun c h => ?_, rfl, rfl⟩
  simp only [isLeaderHere, hm, Dict.contains, Dict.get?_set] at h ⊢
  split
  · rfl
  · exact h

/-- The log determines which clients are open. -/
theorem FlushState.opened_iff (h : FlushState cfg steps s closed) :
    c ∉ closed ↔ ∀ step ∈ steps, step.closes ≠ some c := by
  rw [h.closed_iff]
  push Not
  rfl

/-- The coordinator of an open, led client holds the acks of the log. -/
theorem FlushState.gathering (h : FlushState cfg steps s closed) (hc : c ∉ closed)
    (hl : .lead c ∈ steps) :
    Gathering cfg s c (ackSenders (acksIn steps c)) (ackTotal (acksIn steps c)) :=
  ⟨h.leads c hc hl, h.acks c hc, h.forwarded c hc⟩

/-- A new sender makes the acks one more. -/
theorem FlushState.card_insert (h : FlushState cfg steps s closed)
    (hnew : ctrl.senderId ∉ ackSenders (acksIn steps c)) :
    (insert ctrl.senderId (ackSenders (acksIn steps c))).card = (acksIn steps c).length + 1 := by
  rw [Finset.card_insert_of_notMem hnew, ackSenders, List.toFinset_card_of_nodup (h.distinct c),
    List.length_map]

theorem FlushState.nodup_snoc (h : FlushState cfg steps s closed)
    (hnew : ctrl.senderId ∉ ackSenders (acksIn steps c)) :
    ((acksIn steps c ++ [ctrl]).map (·.senderId)).Nodup := by
  rw [List.map_append, List.nodup_append]
  refine ⟨h.distinct c, List.nodup_singleton _, ?_⟩
  rintro sender hm _ hs rfl
  obtain rfl := List.mem_singleton.mp hs
  exact hnew (List.mem_toFinset.mpr hm)

/-- What `business_fn` reads of the coordinator is what a leader may log. -/
theorem FlushState.predicted (h : FlushState cfg steps s closed) (hc : c ∉ closed)
    (hl : .lead c ∈ steps) (hnew : ctrl.senderId ∉ ackSenders (acksIn steps c))
    (hlast : last = true ↔
      cfg.totalInstances - 1 ≤ (insert ctrl.senderId (s.flushAcks.getD c ∅)).card) :
    Predicted cfg steps c ctrl last where
  opened := h.opened_iff.mp hc
  led := hl
  new := hnew
  last_iff := by
    have hlt := h.missing c hc
    rw [hlast, h.acks c hc, h.card_insert hnew]
    omega

/-- A prediction is exact on every state that the log describes. -/
theorem FlushState.exact (h : FlushState cfg steps s closed)
    (hp : Predicted cfg steps c ctrl last) :
    ExactFlush cfg steps s c ctrl last := by
  have hc : c ∉ closed := h.opened_iff.mpr hp.opened
  have hgathering := h.gathering hc hp.led
  have hcard := h.card_insert hp.new
  have hmissing := h.missing c hc
  refine ⟨h.nodup_snoc hp.new, ?_, ?_⟩
  · rw [hp.last_iff, List.length_append, List.length_singleton]
  · cases last with
    | true =>
      have hlen := hp.last_iff.mp rfl
      rw [hgathering.last (by omega), if_pos rfl]
      simp [ackTotal]
    | false =>
      have hlen : ¬ (acksIn steps c).length + 1 = cfg.totalInstances - 1 := by
        intro he
        cases hp.last_iff.mpr he
      rw [(hgathering.missing (by omega)).1]
      rfl

/-- A `FLUSH_ACK` at the coordinator does not concern other clients. -/
theorem flushAck_of_ne {c' : Nat} (hne : c ≠ c') :
    ((s.processControlMessage cfg .flushAck c ctrl 0 0).1).flushAcks.getD c' ∅ =
      s.flushAcks.getD c' ∅ ∧
    ((s.processControlMessage cfg .flushAck c ctrl 0 0).1).forwardedFromAcks.getD c' 0 =
      s.forwardedFromAcks.getD c' 0 ∧
    isLeaderHere cfg (s.processControlMessage cfg .flushAck c ctrl 0 0).1 c' =
      isLeaderHere cfg s c' := by
  have hne' : c' ≠ c := fun e => hne e.symm
  dsimp only [processControlMessage, onFlushAck]
  split
  · split
    · exact ⟨by rw [Dict.getD_set, if_neg hne], by rw [Dict.getD_set, if_neg hne], rfl⟩
    · refine ⟨by simp [cleanupLeaderState, Dict.getD_erase, hne'],
        by simp [cleanupLeaderState, Dict.getD_erase, hne'], ?_⟩
      unfold isLeaderHere
      split
      · simp [cleanupLeaderState, Dict.contains, Dict.get?_erase, hne']
      · rfl
  · exact ⟨rfl, rfl, rfl⟩

/-- The coordinator counts a logged ack. -/
theorem FlushState.advances_ack (h : FlushState cfg steps s closed)
    (hp : Predicted cfg steps c ctrl last)
    (hclosed : closed' = if last then insert c closed else closed) :
    Advances cfg (.ack c ctrl last) s (s.processControlMessage cfg .flushAck c ctrl 0 0).1 closed
      closed' := by
  have hc : c ∉ closed := h.opened_iff.mpr hp.opened
  have hcloses : ∀ c', c' ∈ closed' ↔ c' ∈ closed ∨
      (FlushStep.ack c ctrl last).closes = some c' := by
    intro c'
    cases last with
    | true =>
      rw [hclosed, if_pos rfl, Finset.mem_insert, or_comm]
      exact or_congr_right ⟨fun e => by rw [e]; rfl, fun e => (Option.some.inj e).symm⟩
    | false =>
      rw [hclosed]
      exact ⟨.inl, fun e => e.resolve_right (by rintro ⟨⟩)⟩
  -- an open client that is acked has acks missing
  have hmissing : ∀ c' ∉ closed', c' = c →
      (insert ctrl.senderId (ackSenders (acksIn steps c))).card <
      cfg.totalInstances - 1 := by
    rintro c' hc' rfl
    have hlen := h.missing c' hc
    have hnot : ¬ (acksIn steps c').length + 1 = cfg.totalInstances - 1 := fun he => by
      have hlast := hp.last_iff.mpr he
      rw [hlast] at hcloses
      exact hc' ((hcloses c').mpr (.inr rfl))
    rw [h.card_insert hp.new]
    omega
  have hgathering := h.gathering hc hp.led
  refine ⟨hcloses, fun c' hc' hl => ?_, fun c' hc' => ?_, fun c' hc' => ?_⟩
  · by_cases e : c' = c
    · rw [e]
      exact (hgathering.missing (hmissing c' hc' e)).2.leader
    · rw [(flushAck_of_ne fun h => e h.symm).2.2]
      exact hl.resolve_right (by rintro ⟨⟩)
  · by_cases e : c' = c
    · rw [e, (hgathering.missing (hmissing c' hc' e)).2.acks, hgathering.acks]
      simp [FlushStep.acked]
    · have e' : c ≠ c' := fun h => e h.symm
      rw [(flushAck_of_ne e').1]
      simp [FlushStep.acked, e']
  · by_cases e : c' = c
    · rw [e, (hgathering.missing (hmissing c' hc' e)).2.forwarded, hgathering.forwarded]
      simp [FlushStep.acked, ackTotal]
    · have e' : c ≠ c' := fun h => e h.symm
      rw [(flushAck_of_ne e').2.1]
      simp [FlushStep.acked, e', ackTotal]

/-- One more step of the log. -/
theorem FlushState.snoc (h : FlushState cfg steps s closed)
    (hv : ∀ c ctrl last, step = .ack c ctrl last → Predicted cfg steps c ctrl last)
    (ha : Advances cfg step s s' closed closed') : FlushState cfg (steps ++ [step]) s' closed' := by
  have hopen : ∀ c ∉ closed', c ∉ closed := fun c hc hc' => hc ((ha.closed c).mpr (.inl hc'))
  -- the acks of one client: as before, or one more
  have hacks : ∀ c, acksIn (steps ++ [step]) c = acksIn steps c ∧ FlushStep.isLast c step = false ∨
      ∃ ctrl last, step = .ack c ctrl last ∧
      acksIn (steps ++ [step]) c = acksIn steps c ++ [ctrl] := by
    intro c
    rw [acksIn_snoc]
    cases step with
    | ack c' ctrl last =>
      by_cases e : c' = c
      · subst e
        exact .inr ⟨ctrl, last, rfl, by simp [FlushStep.acked]⟩
      · exact .inl ⟨by simp [FlushStep.acked, e], by simp [FlushStep.isLast, e]⟩
    | other | lead | close => exact .inl ⟨by simp [FlushStep.acked], rfl⟩
  refine ⟨fun c => ?_, fun c hc hl => ?_, fun c hc => ?_, fun c hc => ?_, fun c hc =>
    ?_, fun c => ?_, fun c => ?_, fun c => ?_⟩
  · rw [ha.closed, h.closed_iff]
    simp only [List.mem_append, List.mem_singleton]
    constructor
    · rintro (⟨step', hm, hs⟩ | hs)
      · exact ⟨step', .inl hm, hs⟩
      · exact ⟨step, .inr rfl, hs⟩
    · rintro ⟨step', hm | rfl, hs⟩
      · exact .inl ⟨step', hm, hs⟩
      · exact .inr hs
  · refine ha.leads c hc ?_
    rcases List.mem_append.mp hl with hl | hl
    · exact .inl (h.leads c (hopen c hc) hl)
    · exact .inr (List.mem_singleton.mp hl).symm
  · rw [ha.acks c hc, h.acks c (hopen c hc), acksIn_snoc, ackSenders_append]
  · rw [ha.forwarded c hc, h.forwarded c (hopen c hc), acksIn_snoc]
    simp [ackTotal]
  · have hmissing := h.missing c (hopen c hc)
    rcases hacks c with ⟨he, -⟩ | ⟨ctrl, last, rfl, he⟩
    · rw [he]
      exact hmissing
    · have hp := hv c ctrl last rfl
      have hnot : ¬ (acksIn steps c).length + 1 = cfg.totalInstances - 1 := fun hlen => by
        have hlast := hp.last_iff.mpr hlen
        subst hlast
        exact hc ((ha.closed c).mpr (.inr rfl))
      rw [he, List.length_append, List.length_singleton]
      omega
  · rcases hacks c with ⟨he, -⟩ | ⟨ctrl, last, rfl, he⟩
    · rw [he]
      exact h.distinct c
    · rw [he]
      exact h.nodup_snoc (hv c ctrl last rfl).new
  · rcases hacks c with ⟨he, -⟩ | ⟨ctrl, last, rfl, he⟩
    · rw [he]
      exact h.bound c
    · have hmissing := h.missing c (h.opened_iff.mpr (hv c ctrl last rfl).opened)
      rw [he, List.length_append, List.length_singleton]
      exact hmissing
  · rw [List.filter_append, List.length_append, h.lasts c]
    rcases hacks c with ⟨he, hl⟩ | ⟨ctrl, last, rfl, he⟩
    · rw [he, List.filter_singleton, hl]
      rfl
    · have hp := hv c ctrl last rfl
      have hmissing := h.missing c (h.opened_iff.mpr hp.opened)
      rw [he, List.length_append, List.length_singleton, if_neg (Nat.ne_of_lt hmissing),
        List.filter_singleton]
      cases last with
      | true =>
        rw [if_pos (hp.last_iff.mp rfl)]
        simp [FlushStep.isLast]
      | false =>
        rw [if_neg (by intro he; cases hp.last_iff.mpr he)]
        simp [FlushStep.isLast]

/-! ## Workers -/

/-- The meaning of a change that the workers with a coordinator log. -/
def WorkerChange.flushStep {δ : Type} : WorkerChange δ → Option FlushStep
  | .single (.data ..) | .single (.coordinatorMsg .eofReceived ..) => some .other
  | .single (.coordinatorUpstreamEof c ..) => some (.lead c)
  | .single (.coordinatorMsg .flushAck c ctrl 0 0) => some (.ack c ctrl false)
  | .compound [.coordinatorMsg .flushAck c ctrl 0 0, .close c'] =>
    if c' = c then some (.ack c ctrl true) else none
  | .compound [.coordinatorCleanup c, .close c'] => if c' = c then some (.close c) else none
  | _ => none

namespace WorkerChange

variable {δ : Type} {change : WorkerChange δ}

/-- What `apply_change` does to the coordinator. -/
def coordinatorAfter (cfg : CoordinatorConfig) (s : EofCoordinator) (change : WorkerChange δ) :
    EofCoordinator :=
  change.ops.foldl (WorkerOp.applyCoordinator cfg) s

/-- The clients that are closed after one operation. -/
def closedBy (closed : Finset Nat) : WorkerOp δ → Finset Nat
  | .close c => insert c closed
  | _ => closed

def closedAfter (closed : Finset Nat) (change : WorkerChange δ) : Finset Nat :=
  change.ops.foldl closedBy closed

/-- A worker that applies its operations one by one. -/
theorem foldl_applyOp {σ : Type} {coordinatorOf : σ → EofCoordinator} {closedOf : σ → Finset Nat}
    {applyOp : σ → WorkerOp δ → σ}
    (h : ∀ w op, coordinatorOf (applyOp w op) = op.applyCoordinator cfg (coordinatorOf w) ∧
      closedOf (applyOp w op) = closedBy (closedOf w) op) (w : σ) (change : WorkerChange δ) :
    coordinatorOf (change.ops.foldl applyOp w) = change.coordinatorAfter cfg (coordinatorOf w) ∧
      closedOf (change.ops.foldl applyOp w) = change.closedAfter (closedOf w) := by
  unfold coordinatorAfter closedAfter
  generalize change.ops = ops
  induction ops generalizing w with
  | nil => exact ⟨rfl, rfl⟩
  | cons op ops ih =>
    simp only [List.foldl_cons]
    rw [← (h w op).1, ← (h w op).2]
    exact ih _

/-- A change that does not touch what the flush looks at. -/
theorem advances_other (hl : s'.leaderExpected = s.leaderExpected) (ha : s'.flushAcks = s.flushAcks)
    (hf : s'.forwardedFromAcks = s.forwardedFromAcks) : Advances cfg .other s s' closed closed where
  closed c := by simp [FlushStep.closes]
  leads c _ h := by
    have h := h.resolve_right (by rintro ⟨⟩)
    unfold isLeaderHere at h ⊢
    rw [hl]
    exact h
  acks c _ := by simp [FlushStep.acked, ha]
  forwarded c _ := by simp [FlushStep.acked, ackTotal, hf]

/-- The upstream EOF makes the replica the leader of the client. -/
theorem advances_lead (hm : cfg.mode = .broadcast) (hN : 2 ≤ cfg.totalInstances)
    (expectedTotal count forwarded : Nat) :
    Advances cfg (.lead c) s (s.onUpstreamEof cfg c expectedTotal count forwarded).1
      closed closed := by
  rw [onUpstreamEof_eq hm hN]
  refine ⟨fun c' => by simp [FlushStep.closes], fun c' _ h => ?_,
    fun c' _ => by simp [FlushStep.acked], fun c' _ => by simp [FlushStep.acked, ackTotal]⟩
  simp only [isLeaderHere, hm, Dict.contains, Dict.get?_set] at h ⊢
  split
  · rfl
  · next hne =>
    rcases h with h | h
    · exact h
    · cases h
      exact absurd rfl hne

/-- A client that is closed takes its acks with it. -/
theorem advances_close (hl : ∀ c' ≠ c, isLeaderHere cfg s' c' = isLeaderHere cfg s c')
    (ha : ∀ c' ≠ c, s'.flushAcks.getD c' ∅ = s.flushAcks.getD c' ∅)
    (hf : ∀ c' ≠ c, s'.forwardedFromAcks.getD c' 0 = s.forwardedFromAcks.getD c' 0) :
    Advances cfg (.close c) s s' closed (insert c closed) := by
  have hne : ∀ c' ∉ insert c closed, c' ≠ c := fun c' hc' e => hc' (e ▸ Finset.mem_insert_self _ _)
  refine ⟨fun c' => ?_, fun c' hc' h => ?_, fun c' hc' => ?_, fun c' hc' => ?_⟩
  · rw [Finset.mem_insert, or_comm]
    exact or_congr_right ⟨fun e => by rw [e]; rfl, fun e => (Option.some.inj e).symm⟩
  · rw [hl c' (hne c' hc')]
    exact h.resolve_right (by rintro ⟨⟩)
  · simp [FlushStep.acked, ha c' (hne c' hc')]
  · simp [FlushStep.acked, ackTotal, hf c' (hne c' hc')]

/-- A change that is no ack advances the flush state by its meaning. -/
theorem advances (hm : cfg.mode = .broadcast) (hN : 2 ≤ cfg.totalInstances)
    (hs : change.flushStep = some step) (hne : ∀ c ctrl last, step ≠ .ack c ctrl last) :
    Advances cfg step s (change.coordinatorAfter cfg s) closed (change.closedAfter closed) := by
  unfold flushStep at hs
  split at hs
  · cases hs
    exact advances_other rfl rfl rfl
  · cases hs
    dsimp only [coordinatorAfter, closedAfter, ops, List.foldl, closedBy, WorkerOp.applyCoordinator,
      processControlMessage, onEofReceived]
    split
    · exact advances_other rfl rfl rfl
    · exact advances_other rfl rfl rfl
  · cases hs
    exact advances_lead hm hN _ _ _
  · cases hs
    exact absurd rfl (hne _ _ _)
  · split at hs
    · cases hs
      exact absurd rfl (hne _ _ _)
    · cases hs
  · split at hs
    · next e =>
      cases hs
      cases e
      exact advances_close (fun _ _ => rfl) (fun _ _ => rfl) fun _ _ => rfl
    · cases hs
  · cases hs

/-- What a change that counts an ack does. -/
theorem counts_ack (hs : change.flushStep = some (.ack c ctrl last)) :
    change.coordinatorAfter cfg s = (s.processControlMessage cfg .flushAck c ctrl 0 0).1 ∧
      change.closedAfter closed = if last then insert c closed else closed := by
  unfold flushStep at hs
  split at hs
  · cases hs
  · cases hs
  · cases hs
  · cases hs
    exact ⟨rfl, rfl⟩
  · split at hs
    · next e =>
      cases hs
      cases e
      exact ⟨rfl, rfl⟩
    · cases hs
  · split at hs
    · cases hs
    · cases hs
  · cases hs

end WorkerChange

/-- A worker whose logged changes have a meaning for the flush of clients. -/
structure Flushing {σ ς Δ : Type} (cfg : HandlerConfig σ ς Δ) where
  coordinator : CoordinatorConfig
  replicas : 2 ≤ coordinator.totalInstances
  coordinatorOf : σ → EofCoordinator
  closedOf : σ → Finset Nat
  step : Δ → Option FlushStep
  fresh : coordinatorOf cfg.worker.fresh = {} ∧ closedOf cfg.worker.fresh = ∅
  advances : ∀ w change step', step change = some step' →
    (∀ c ctrl last, step' ≠ .ack c ctrl last) →
    Advances coordinator step' (coordinatorOf w) (coordinatorOf (cfg.worker.applyChange w change))
      (closedOf w) (closedOf (cfg.worker.applyChange w change))
  acks : ∀ w change c ctrl last, step change = some (.ack c ctrl last) →
    coordinatorOf (cfg.worker.applyChange w change) =
        ((coordinatorOf w).processControlMessage coordinator .flushAck c ctrl 0 0).1 ∧
      closedOf (cfg.worker.applyChange w change) =
        if last then insert c (closedOf w) else closedOf w

namespace Flushing

variable {σ ς Δ : Type} {cfg : HandlerConfig σ ς Δ} (F : Flushing cfg)

/-- The meanings of the applied changes, in order. -/
def stepsOf (history : List (WalRecord Δ)) : List FlushStep :=
  (stateChanges history).filterMap F.step

/-- The input that the ack of a sender is. -/
def ackKey (c : Nat) (ctrl : ControlMessage) : InputKey := ⟨c, .ctrlFlushAck, ctrl.senderId, c⟩

/-- What is known of a record: its change has a meaning, and an ack belongs to its input and is
predicted. -/
def Valid (front : List (WalRecord Δ)) : WalRecord Δ → Prop
  | .inputApplied _ key change _ => ∃ step, F.step change = some step ∧
      ∀ c ctrl last, step = .ack c ctrl last →
        key = ackKey c ctrl ∧ Predicted F.coordinator (F.stepsOf front) c ctrl last
  | .inputDone _ _ => True

variable {F} {history : List (WalRecord Δ)}

theorem stepsOf_applied {m : String} {key : InputKey} {change : Δ} {outputs : List OutboxEntry}
    {step : FlushStep} (h : F.step change = some step) :
    F.stepsOf (history ++ [.inputApplied m key change outputs]) = F.stepsOf history ++ [step] := by
  simp [stepsOf, stateChanges, h]

theorem stepsOf_done (m : String) (key : InputKey) :
    F.stepsOf (history ++ [.inputDone m key]) = F.stepsOf history := by
  simp [stepsOf, stateChanges]

variable (F) in
/-- The log determines the flush state of the worker. -/
def invariant : LogInvariant cfg where
  Valid := F.Valid
  Holds history w := FlushState F.coordinator (F.stepsOf history) (F.coordinatorOf w) (F.closedOf w)
  fresh := by
    rw [F.fresh.1, F.fresh.2]
    exact flushState_nil F.replicas
  applied := by
    intro history m key change outputs w _ he h
    obtain ⟨step, hstep, hack⟩ := he history _ List.prefix_rfl
    rw [stepsOf_applied hstep]
    refine h.snoc (fun c ctrl last e => (hack c ctrl last e).2) ?_
    cases step with
    | ack c ctrl last =>
      obtain ⟨hc, hclosed⟩ := F.acks w change c ctrl last hstep
      rw [hc]
      exact h.advances_ack (hack c ctrl last rfl).2 hclosed
    | other | lead | close => exact F.advances w change _ hstep nofun
  done := by
    intro history m key w _ _ h
    rw [stepsOf_done]
    exact h

/-- The acks in the log are inputs that the log applies. -/
theorem applied_of_mem_acksIn (he : EachRecord F.Valid history) {c : Nat} {ctrl : ControlMessage}
    (hm : ctrl ∈ acksIn (F.stepsOf history) c) :
    ∃ m change outputs, .inputApplied m (ackKey c ctrl) change outputs ∈ history := by
  obtain ⟨last, hm⟩ := mem_acksIn.mp hm
  obtain ⟨change, hchange, hstep⟩ := List.mem_filterMap.mp hm
  obtain ⟨record, hrecord, hr⟩ := List.mem_filterMap.mp hchange
  cases record with
  | inputApplied m key change' outputs =>
    cases hr
    obtain ⟨front, back, rfl⟩ := List.append_of_mem hrecord
    obtain ⟨step, hstep', hack⟩ := he front (.inputApplied m key change outputs)
      ⟨back, by rw [List.append_assoc, List.singleton_append]⟩
    cases hstep.symm.trans hstep'
    obtain ⟨hkey, -⟩ := hack c ctrl last rfl
    exact ⟨m, change, outputs, hkey ▸ hrecord⟩
  | inputDone m key => cases hr

/-- A new input brings a new sender. -/
theorem new_sender {τ : Type} {V : View cfg.worker τ} (ha : Admissible cfg V history)
    (he : EachRecord F.Valid history) {c : Nat} {ctrl : ControlMessage}
    (hnew : (specState cfg V history).inbox.classify (ackKey c ctrl) = .new) :
    ctrl.senderId ∉ ackSenders (acksIn (F.stepsOf history) c) := by
  intro hm
  obtain ⟨ctrl', hm, hs⟩ := mem_ackSenders.mp hm
  obtain ⟨m, change, outputs, hm⟩ := applied_of_mem_acksIn he hm
  have habs := ha.absorbed hm
  rw [show ackKey c ctrl' = ackKey c ctrl by rw [ackKey, hs, ackKey]] at habs
  exact habs hnew

/-- What `business_fn` predicts of a new ack is exact, and may be logged. -/
theorem predicted {n : Node σ ς Δ} (h : n.Follows F.invariant) {c : Nat} {ctrl : ControlMessage}
    {last : Bool} (hnew : n.handler.inbox.classify (ackKey c ctrl) = .new)
    (hopen : c ∉ F.closedOf n.handler.workerState) (hlead : .lead c ∈ F.stepsOf n.history)
    (hlast : last = true ↔ F.coordinator.totalInstances - 1 ≤ (insert ctrl.senderId
      ((F.coordinatorOf n.handler.workerState).flushAcks.getD c ∅)).card) :
    Predicted F.coordinator (F.stepsOf n.history) c ctrl last ∧
    ExactFlush F.coordinator (F.stepsOf n.history)
    (F.coordinatorOf n.handler.workerState) c ctrl last := by
  rw [h.inv.inbox] at hnew
  have hp := FlushState.predicted h.holds hopen hlead (new_sender h.admissible h.records hnew) hlast
  exact ⟨hp, FlushState.exact h.holds hp⟩

variable (F) in
/-- Along the log of a worker: a recovery meets the prediction of every ack that it replays, no
client has more than `N - 1` acks, each of another sender, and one of them was predicted to be the
last exactly if there are `N - 1`. -/
structure FlushedOnce (n : Node σ ς Δ) : Prop where
  replay : ∀ s fromRecord records w m key change outputs c ctrl last,
    Handler.loadState cfg n.disk = .ok (s, fromRecord) →
    Wal.replay cfg.json n.disk.wal fromRecord = .ok records →
    (w, .inputApplied m key change outputs) ∈ s.appliedDuring cfg.worker.applyChange records →
    F.step change = some (.ack c ctrl last) →
    ∃ front, front ++ [.inputApplied m key change outputs] <+: n.history ∧
      ExactFlush F.coordinator (F.stepsOf front) (F.coordinatorOf w) c ctrl last
  senders : ∀ c, ((acksIn (F.stepsOf n.history) c).map (·.senderId)).Nodup
  bound : ∀ c, (acksIn (F.stepsOf n.history) c).length ≤ F.coordinator.totalInstances - 1
  once : ∀ c, ((F.stepsOf n.history).filter (FlushStep.isLast c)).length =
    if (acksIn (F.stepsOf n.history) c).length = F.coordinator.totalInstances - 1 then 1 else 0

theorem flushedOnce {n : Node σ ς Δ} (h : n.Follows F.invariant) : F.FlushedOnce n where
  replay s fromRecord records w m key change outputs c ctrl last hload hwal hm hstep := by
    obtain ⟨front, hp, hw⟩ := h.appliedDuring hload hwal hm
    obtain ⟨step, hstep', hack⟩ := h.records front _ hp
    cases hstep.symm.trans hstep'
    exact ⟨front, hp, FlushState.exact hw (hack c ctrl last rfl).2⟩
  senders := FlushState.distinct h.holds
  bound := FlushState.bound h.holds
  once := FlushState.lasts h.holds

end Flushing

end MoneyLaundering
