import Mathlib.Algebra.BigOperators.Group.Finset.Basic
import MoneyLaundering.ScatterGather.Q4Deduper

/-!
# The total of the dedupers

With several dedupers none of them sends the `EOF` of the gateway when it closes a client: it
reports the number of its accounts to deduper `0`, which sends the `EOF` with the sum when all have
reported. What deduper `0` keeps for the reports is apart from its own stage; the reports and the
packets share its inbox.

Whatever the order of packets and reports, the gateway gets each candidate once and one `EOF` with
their number.
-/

namespace MoneyLaundering

open Packet

/-! ## The leader -/

/-- What `Q4DeduperState` keeps for the reports. -/
structure DeduperLeader where
  reportsByClient : Dict Nat (Finset Nat) := ∅
  totalsByClient : Dict Nat Nat := ∅
  closedByClient : Finset Nat := ∅

namespace DeduperLeader

variable (t : DeduperLeader) (clientId senderId : Nat)

def reports : Finset Nat := t.reportsByClient.getD clientId ∅

/-- `leader_total`. -/
def total : Nat := t.totalsByClient.getD clientId 0

/-- `leader_report_would_complete`. -/
def reportWouldComplete (deduperAmount : Nat) : Bool :=
  if clientId ∈ t.closedByClient then false
  else if senderId ∈ t.reports clientId then false
  else decide (deduperAmount ≤ (t.reports clientId).card + 1)

/-- `_apply_leader_report`. -/
def applyReport (emittedAccounts : Nat) : DeduperLeader :=
  if clientId ∈ t.closedByClient then t
  else if senderId ∈ t.reports clientId then t
  else { t with
    reportsByClient := t.reportsByClient.set clientId (insert senderId (t.reports clientId))
    totalsByClient := t.totalsByClient.set clientId (t.total clientId + emittedAccounts) }

/-- `_apply_leader_close`. -/
def applyClose : DeduperLeader where
  reportsByClient := t.reportsByClient.erase clientId
  totalsByClient := t.totalsByClient.erase clientId
  closedByClient := insert clientId t.closedByClient

variable {t clientId senderId} {c emittedAccounts : Nat}

theorem applyReport_of_new (hc : clientId ∉ t.closedByClient) (hs : senderId ∉ t.reports clientId) :
    t.applyReport clientId senderId emittedAccounts = { t with
      reportsByClient := t.reportsByClient.set clientId (insert senderId (t.reports clientId))
      totalsByClient := t.totalsByClient.set clientId (t.total clientId + emittedAccounts) } := by
  rw [applyReport, if_neg hc, if_neg hs]

theorem closed_applyReport :
    (t.applyReport clientId senderId emittedAccounts).closedByClient = t.closedByClient := by
  unfold applyReport
  split <;> [rfl; split <;> rfl]

theorem reports_applyReport_of_ne (h : clientId ≠ c) :
    (t.applyReport clientId senderId emittedAccounts).reports c = t.reports c := by
  unfold applyReport
  split
  · rfl
  · split
    · rfl
    · rw [reports, Dict.getD_set, if_neg h]
      rfl

theorem total_applyReport_of_ne (h : clientId ≠ c) :
    (t.applyReport clientId senderId emittedAccounts).total c = t.total c := by
  unfold applyReport
  split
  · rfl
  · split
    · rfl
    · rw [total, Dict.getD_set, if_neg h]
      rfl

theorem reports_applyClose_of_ne (h : clientId ≠ c) :
    (t.applyClose clientId).reports c = t.reports c := by
  rw [reports, applyClose, Dict.getD_erase, if_neg h.symm]
  rfl

theorem total_applyClose_of_ne (h : clientId ≠ c) :
    (t.applyClose clientId).total c = t.total c := by
  rw [total, applyClose, Dict.getD_erase, if_neg h.symm]
  rfl

theorem mem_closed_applyClose_of_ne (h : clientId ≠ c) :
    c ∈ (t.applyClose clientId).closedByClient ↔ c ∈ t.closedByClient := by
  simp [applyClose, h.symm]

end DeduperLeader

/-- A deduper: its stage, and what it keeps as the leader. -/
structure DeduperNode where
  stage : StageNode Q4DeduperClient
  leader : DeduperLeader := {}

/-- What is delivered to a deduper: a packet of an aggregator, or the report of a deduper. -/
inductive DeduperDelivery where
  | input (p : Packet Q4AccountId)
  | report (clientId : Nat) (control : ControlMessage)
  deriving DecidableEq

namespace Q4Deduper

variable (cfg : Q4Config) (id : Nat)

/-- The input that a report is. -/
def reportKey (clientId senderId : Nat) : InputKey := ⟨clientId, .ctrlFlushAck, senderId, clientId⟩

/-- `_handle_leader_report`. -/
def handleLeaderReport (n : DeduperNode) (clientId : Nat) (control : ControlMessage) :
    DeduperNode × List CloseOutput :=
  if id ≠ 0 then (n, [])
  else if clientId ∈ n.leader.closedByClient then (n, [])
  else if n.stage.inbox.classify (reportKey clientId control.senderId) ≠ .new then (n, [])
  else
    let stage :=
      { n.stage with inbox := n.stage.inbox.finish (reportKey clientId control.senderId) }
    let leader := n.leader.applyReport clientId control.senderId control.expectedTotal
    if n.leader.reportWouldComplete clientId control.senderId cfg.deduperAmount then
      ({ stage, leader := leader.applyClose clientId },
        [.gatewayEof gatewayEofSeq
          { senderId := id, expectedTotal := n.leader.total clientId + control.expectedTotal }])
    else ({ stage, leader }, [])

/-- `_on_message`, or `_handle_leader_report` of the response queue. -/
def onDelivery (n : DeduperNode) : DeduperDelivery → DeduperNode × List CloseOutput
  | .input p =>
    let (stage, outputs) := (Q4Deduper.stage cfg id).onMessage n.stage p
    ({ n with stage }, outputs)
  | .report clientId control => handleLeaderReport cfg id n clientId control

def init : DeduperNode where
  stage := (stage cfg id).init

end Q4Deduper

/-- The client that a delivery is about. -/
def DeduperDelivery.clientId : DeduperDelivery → Nat
  | .input p => p.clientId
  | .report clientId _ => clientId

namespace Q4Deduper

variable (cfg : Q4Config) (id : Nat)

/-- The deduper after some deliveries, and its outputs for a client. -/
def runFor (clientId : Nat) (n : DeduperNode) :
    List DeduperDelivery → DeduperNode × List CloseOutput
  | [] => (n, [])
  | d :: ds =>
    let (n', outputs) := onDelivery cfg id n d
    let (n'', rest) := runFor clientId n' ds
    (n'', (if d.clientId = clientId then outputs else []) ++ rest)

/-- All that a deduper outputs for a client. -/
def deduperOutputs (clientId : Nat) (ds : List DeduperDelivery) : List CloseOutput :=
  (runFor cfg id clientId (init cfg id) ds).2

/-- The packets among the deliveries. -/
def inputs (ds : List DeduperDelivery) : List (Packet Q4AccountId) :=
  ds.filterMap fun
    | .input p => some p
    | .report .. => none

/-- The reports of a client among the deliveries. -/
def reportsOf (clientId : Nat) (ds : List DeduperDelivery) : List ControlMessage :=
  ds.filterMap fun
    | .report c control => if c = clientId then some control else none
    | .input _ => none

/-- The senders of a client's reports. -/
def reporters (clientId : Nat) (ds : List DeduperDelivery) : Finset Nat :=
  ((reportsOf clientId ds).map ControlMessage.senderId).toFinset

/-- The `EOF`s of the gateway among some outputs. -/
def gatewayEofs (outputs : List CloseOutput) : List (Nat × ControlMessage) :=
  outputs.filterMap fun
    | .gatewayEof seq control => some (seq, control)
    | _ => none

/-- The reports among some outputs. -/
def leaderReports (outputs : List CloseOutput) : List ControlMessage :=
  outputs.filterMap fun
    | .leaderReport control => some control
    | _ => none

theorem inputs_append (ds ds' : List DeduperDelivery) :
    inputs (ds ++ ds') = inputs ds ++ inputs ds' :=
  List.filterMap_append

theorem reportsOf_append (c : Nat) (ds ds' : List DeduperDelivery) :
    reportsOf c (ds ++ ds') = reportsOf c ds ++ reportsOf c ds' := List.filterMap_append

theorem reporters_append (c : Nat) (ds ds' : List DeduperDelivery) :
    reporters c (ds ++ ds') = reporters c ds ∪ reporters c ds' := by
  simp [reporters, reportsOf_append]

theorem mem_reporters {c s : Nat} {ds : List DeduperDelivery} :
    s ∈ reporters c ds ↔ ∃ control ∈ reportsOf c ds, control.senderId = s := by
  simp [reporters]

theorem gatewayAccounts_append (outputs outputs' : List CloseOutput) :
    gatewayAccounts (outputs ++ outputs') = gatewayAccounts outputs ++ gatewayAccounts outputs' :=
  List.flatMap_append

theorem gatewayEofs_append (outputs outputs' : List CloseOutput) :
    gatewayEofs (outputs ++ outputs') = gatewayEofs outputs ++ gatewayEofs outputs' :=
  List.filterMap_append

theorem leaderReports_append (outputs outputs' : List CloseOutput) :
    leaderReports (outputs ++ outputs') = leaderReports outputs ++ leaderReports outputs' :=
  List.filterMap_append

/-! ## The reports of a client -/

variable (c : Nat) (total : Nat → Nat)

/-- What the leader knows of a client before all have reported, with the deliveries so far. -/
structure Collecting (pre : List DeduperDelivery) (n : DeduperNode) : Prop where
  isOpen : c ∉ n.leader.closedByClient
  reports : n.leader.reports c = reporters c pre
  total : n.leader.total c = ∑ s ∈ reporters c pre, total s
  inRange : reporters c pre ⊆ Finset.range cfg.deduperAmount
  few : (reporters c pre).card < cfg.deduperAmount
  classify : ∀ s, n.stage.inbox.classify (reportKey c s) = if s ∈
    reporters c pre then .done else .new

/-- The `EOF` of the gateway for a client. -/
def totalEof : Nat × ControlMessage :=
  (gatewayEofSeq, { senderId := 0, expectedTotal := ∑ s ∈ Finset.range cfg.deduperAmount, total s })

/-- What the leader has sent for a client. -/
def Led (pre : List DeduperDelivery) (n : DeduperNode) (eofs : List (Nat × ControlMessage)) :
    Prop :=
  (Collecting cfg c total pre n ∧ eofs = []) ∨
    (c ∈ n.leader.closedByClient ∧ Finset.range cfg.deduperAmount ⊆ reporters c pre ∧
      eofs = [totalEof cfg total])

variable {cfg c total} {pre : List DeduperDelivery} {n : DeduperNode}
    {eofs : List (Nat × ControlMessage)}

/-- A step that is about no report of the client. -/
theorem Led.other {n' : DeduperNode} {d : DeduperDelivery} (h : Led cfg c total pre n eofs)
    (hd : reporters c [d] = ∅) (hreports : n'.leader.reports c = n.leader.reports c)
    (htotal : n'.leader.total c = n.leader.total c)
    (hclosed : c ∈ n'.leader.closedByClient ↔ c ∈ n.leader.closedByClient)
    (hclass : ∀ s, n'.stage.inbox.classify (reportKey c s) = n.stage.inbox.classify
      (reportKey c s)) :
    Led cfg c total (pre ++ [d]) n' eofs := by
  have hsame : reporters c (pre ++ [d]) = reporters c pre := by
    rw [reporters_append, hd, Finset.union_empty]
  rcases h with ⟨h, he⟩ | ⟨hc, hall, he⟩
  · refine .inl ⟨?_, he⟩
    constructor
    · rw [hclosed]
      exact h.isOpen
    · rw [hsame, hreports, h.reports]
    · rw [hsame, htotal, h.total]
    · rw [hsame]
      exact h.inRange
    · rw [hsame]
      exact h.few
    · intro s
      rw [hsame, hclass, h.classify]
  · exact .inr ⟨hclosed.mpr hc, hsame ▸ hall, he⟩

theorem Led.input (h : Led cfg c total pre n eofs) (p : Packet Q4AccountId) (id : Nat) :
    Led cfg c total (pre ++ [.input p]) (onDelivery cfg id n (.input p)).1 eofs := by
  refine h.other rfl rfl rfl Iff.rfl fun s => ?_
  rcases Stage.inbox_onMessage n.stage p with hi | hi
  · exact congrArg (Inbox.classify · _) hi
  · refine (congrArg (Inbox.classify · _) hi).trans (Inbox.classify_finish_of_ne ?_)
    rintro ⟨-, hk⟩
    cases InputKey.kind_of_channel hk

/-- A report that is not handled is acked. -/
theorem handleLeaderReport_of_not_new {clientId : Nat} {control : ControlMessage} (id : Nat)
    (h : clientId ∈ n.leader.closedByClient ∨
      n.stage.inbox.classify (reportKey clientId control.senderId) ≠ .new) :
    handleLeaderReport cfg id n clientId control = (n, []) := by
  unfold handleLeaderReport
  split
  · rfl
  · split
    · rfl
    · next hopen => exact if_pos (h.resolve_left hopen)

/-- What a report leaves of another client. -/
theorem Led.report_other (h : Led cfg c total pre n eofs) {clientId : Nat} (hne : clientId ≠ c)
    (control : ControlMessage) (id : Nat) :
    Led cfg c total (pre ++ [.report clientId control])
    (onDelivery cfg id n (.report clientId control)).1
      eofs := by
  have hreporters : reporters c [.report clientId control] = ∅ := by
    simp [reporters, reportsOf, hne]
  have hclass : ∀ s, (n.stage.inbox.finish (reportKey clientId control.senderId)).classify
      (reportKey c s) =
      n.stage.inbox.classify (reportKey c s) :=
    fun s => Inbox.classify_finish_of_ne fun hk => hne hk.1
  change Led cfg c total _ (handleLeaderReport cfg id n clientId control).1 _
  have hclosed :
      c ∈ (n.leader.applyReport clientId control.senderId control.expectedTotal).closedByClient ↔
      c ∈ n.leader.closedByClient := by rw [DeduperLeader.closed_applyReport]
  unfold handleLeaderReport
  split
  · exact h.other hreporters rfl rfl Iff.rfl fun _ => rfl
  · split
    · exact h.other hreporters rfl rfl Iff.rfl fun _ => rfl
    · split
      · exact h.other hreporters rfl rfl Iff.rfl fun _ => rfl
      · dsimp only
        split
        · refine h.other hreporters ?_ ?_ ?_ hclass
          · exact (DeduperLeader.reports_applyClose_of_ne hne).trans
              (DeduperLeader.reports_applyReport_of_ne hne)
          · exact (DeduperLeader.total_applyClose_of_ne hne).trans
              (DeduperLeader.total_applyReport_of_ne hne)
          · exact (DeduperLeader.mem_closed_applyClose_of_ne hne).trans hclosed
        · exact h.other hreporters (DeduperLeader.reports_applyReport_of_ne hne)
            (DeduperLeader.total_applyReport_of_ne hne) hclosed hclass

theorem reporters_concat (control : ControlMessage) :
    reporters c (pre ++ [.report c control]) = insert control.senderId (reporters c pre) := by
  rw [reporters_append]
  simp [reporters, reportsOf]

/-- A report of the client that has come before. -/
theorem Collecting.again (h : Collecting cfg c total pre n) {control : ControlMessage}
    (hs : control.senderId ∈ reporters c pre) :
    Collecting cfg c total (pre ++ [.report c control]) n := by
  have hsame : reporters c (pre ++ [.report c control]) = reporters c pre := by
    rw [reporters_concat, Finset.insert_eq_of_mem hs]
  constructor
  · exact h.isOpen
  all_goals rw [hsame]
  · exact h.reports
  · exact h.total
  · exact h.inRange
  · exact h.few
  · exact h.classify

/-- A report of the client that is new. -/
theorem Collecting.new (h : Collecting cfg c total pre n) (hwf : n.stage.inbox.WF)
    {control : ControlMessage} (hlt : control.senderId < cfg.deduperAmount)
    (htotal : control.expectedTotal = total control.senderId)
    (hs : control.senderId ∉ reporters c pre) :
    Led cfg c total (pre ++ [.report c control]) (handleLeaderReport cfg 0 n c control).1
      (gatewayEofs (handleLeaderReport cfg 0 n c control).2) := by
  have hnew : n.stage.inbox.classify (reportKey c control.senderId) = .new := by
    rw [h.classify, if_neg hs]
  have hsum : n.leader.total c + control.expectedTotal =
      ∑ s ∈ insert control.senderId (reporters c pre), total s := by
    rw [Finset.sum_insert hs, h.total, htotal, Nat.add_comm]
  have hrange : insert control.senderId (reporters c pre) ⊆ Finset.range cfg.deduperAmount :=
    Finset.insert_subset (Finset.mem_range.mpr hlt) h.inRange
  have hsender : control.senderId ∉ n.leader.reports c := h.reports.symm ▸ hs
  have happly : n.leader.applyReport c control.senderId control.expectedTotal = { n.leader with
      reportsByClient :=
        n.leader.reportsByClient.set c (insert control.senderId (n.leader.reports c))
      totalsByClient := n.leader.totalsByClient.set c
        (n.leader.total c + control.expectedTotal) } :=
    DeduperLeader.applyReport_of_new h.isOpen hsender
  unfold handleLeaderReport
  rw [if_neg (not_not.mpr rfl), if_neg h.isOpen, if_neg (not_not.mpr hnew)]
  dsimp only
  rw [DeduperLeader.reportWouldComplete, if_neg h.isOpen, h.reports, if_neg hs, happly]
  split
  · next hfull =>
    -- all have reported
    have hcard := Finset.card_insert_of_notMem hs
    have hall : insert control.senderId (reporters c pre) = Finset.range cfg.deduperAmount :=
      Finset.eq_of_subset_of_card_le hrange (by
        rw [Finset.card_range, hcard]
        exact of_decide_eq_true hfull)
    refine .inr ⟨Finset.mem_insert_self .., ?_, ?_⟩
    · rw [reporters_concat, hall]
    · rw [totalEof, ← hall, ← hsum]
      rfl
  · next hmore =>
    refine .inl ⟨?_, rfl⟩
    constructor
    · exact h.isOpen
    · rw [reporters_concat, DeduperLeader.reports, Dict.getD_set, if_pos rfl, h.reports]
    · rw [reporters_concat, DeduperLeader.total, Dict.getD_set, if_pos rfl, hsum]
    · rw [reporters_concat]
      exact hrange
    · rw [reporters_concat, Finset.card_insert_of_notMem hs]
      simpa using hmore
    · intro s
      rw [reporters_concat]
      by_cases he : s = control.senderId
      · rw [he, if_pos (Finset.mem_insert_self ..)]
        exact Inbox.classify_finish_self hwf
      · have hmem : s ∈ insert control.senderId (reporters c pre) ↔ s ∈ reporters c pre :=
          Finset.mem_insert.trans (or_iff_right he)
        rw [if_congr hmem rfl rfl, ← h.classify]
        exact Inbox.classify_finish_of_ne fun hk => he (congrArg Prod.snd hk.2).symm

/-- A report of the client. -/
theorem Led.report (h : Led cfg c total pre n eofs) (hwf : n.stage.inbox.WF)
    {control : ControlMessage} (hlt : control.senderId < cfg.deduperAmount)
    (htotal : control.expectedTotal = total control.senderId) :
    Led cfg c total (pre ++ [.report c control]) (onDelivery cfg 0 n (.report c control)).1
      (eofs ++ gatewayEofs (onDelivery cfg 0 n (.report c control)).2) := by
  change Led cfg c total _ (handleLeaderReport cfg 0 n c control).1
    (eofs ++ gatewayEofs (handleLeaderReport cfg 0 n c control).2)
  rcases h with ⟨h, rfl⟩ | ⟨hc, hall, he⟩
  · rw [List.nil_append]
    by_cases hs : control.senderId ∈ reporters c pre
    · have hdone : n.stage.inbox.classify (reportKey c control.senderId) ≠ .new := by
        rw [h.classify, if_pos hs]
        decide
      rw [handleLeaderReport_of_not_new 0 (.inr hdone)]
      exact .inl ⟨h.again hs, rfl⟩
    · exact h.new hwf hlt htotal hs
  · rw [handleLeaderReport_of_not_new 0 (.inl hc)]
    refine .inr ⟨hc, ?_, by rw [he]; rfl⟩
    rw [reporters_concat]
    exact hall.trans (Finset.subset_insert ..)

/-! ## Runs -/

theorem outputs_handleLeaderReport (id clientId : Nat) (control : ControlMessage) :
    gatewayAccounts (handleLeaderReport cfg id n clientId control).2 = [] ∧
      leaderReports (handleLeaderReport cfg id n clientId control).2 = [] := by
  unfold handleLeaderReport
  split
  · exact ⟨rfl, rfl⟩
  · split
    · exact ⟨rfl, rfl⟩
    · split
      · exact ⟨rfl, rfl⟩
      · dsimp only
        split <;> exact ⟨rfl, rfl⟩

theorem wf_onDelivery (h : n.stage.inbox.WF) (id : Nat) (d : DeduperDelivery) :
    (onDelivery cfg id n d).1.stage.inbox.WF := by
  cases d with
  | input p =>
    rcases Stage.inbox_onMessage n.stage p with hi | hi
    · exact (congrArg Inbox.WF hi).mpr h
    · exact (congrArg Inbox.WF hi).mpr (h.finish p.key)
  | report clientId control =>
    change (handleLeaderReport cfg id n clientId control).1.stage.inbox.WF
    unfold handleLeaderReport
    split
    · exact h
    · split
      · exact h
      · split
        · exact h
        · dsimp only
          split <;> exact h.finish _

/-- The stage of a deduper after a report. -/
theorem stageInv_handleLeaderReport {id : Nat} {sent seen : List (Packet Q4AccountId)}
    {fan : List CloseOutput} (h : (stage cfg id).Inv c sent seen n.stage fan) (clientId : Nat)
    (control : ControlMessage) :
    (stage cfg id).Inv c sent seen (handleLeaderReport cfg id n clientId control).1.stage fan := by
  have hkind : (reportKey clientId control.senderId).kind ≠ .data := nofun
  unfold handleLeaderReport
  split
  · exact h
  · split
    · exact h
    · split
      · exact h
      · dsimp only
        split <;> exact h.finish_other hkind

variable (cfg c total) in
/-- A report of the client says what its sender has emitted. -/
def TrueReports (pre : List DeduperDelivery) : Prop :=
  ∀ control ∈ reportsOf c pre,
    control.senderId < cfg.deduperAmount ∧ control.expectedTotal = total control.senderId

variable (cfg c) in
/-- A deduper after some deliveries: `fan` is what its stage has emitted for the client, `eofs` what
it has sent as the leader. -/
structure Ran (id : Nat) (sent : List (Packet Q4AccountId)) (pre : List DeduperDelivery)
    (n : DeduperNode)
    (outputs fan : List CloseOutput) (eofs : List (Nat × ControlMessage)) : Prop where
  wf : n.stage.inbox.WF
  stage : (stage cfg id).Inv c sent (inputs pre) n.stage fan
  accounts : gatewayAccounts outputs = gatewayAccounts fan
  reports : leaderReports outputs = leaderReports fan
  sentEofs : (gatewayEofs outputs).Perm (gatewayEofs fan ++ eofs)
  silent : id ≠ 0 → eofs = []
  led : id = 0 → ∀ total, TrueReports cfg c total pre → Led cfg c total pre n eofs

variable {id : Nat} {sent : List (Packet Q4AccountId)} {ds post : List DeduperDelivery}
  {outputs fan : List CloseOutput} {d : DeduperDelivery}

theorem TrueReports.of_append {more : List DeduperDelivery}
    (h : TrueReports cfg c total (pre ++ more)) :
    TrueReports cfg c total pre := fun control hm =>
  h control (reportsOf_append c pre more ▸ List.mem_append_left _ hm)

theorem Ran.input (h : Ran cfg c id sent pre n outputs fan eofs)
    (hf : Fed c cfg.aggregatorAmount sent)
    (hd : Delivered c sent (inputs ds)) (ho : Orderly c (inputs ds)) {p : Packet Q4AccountId}
    (hds : ds = pre ++ .input p :: post) :
    Ran cfg c id sent (pre ++ [.input p]) (onDelivery cfg id n (.input p)).1
      (outputs ++ if p.clientId = c then (onDelivery cfg id n (.input p)).2 else [])
      (fan ++ if p.clientId = c then (onDelivery cfg id n (.input p)).2 else []) eofs where
  wf := wf_onDelivery h.wf id _
  stage := by
    have hin : inputs ds = inputs pre ++ p :: inputs post := by rw [hds, inputs_append]; rfl
    have hstep := h.stage.step hf hd ho hin
    rw [inputs_append]
    exact hstep
  accounts := by rw [gatewayAccounts_append, gatewayAccounts_append, h.accounts]
  reports := by rw [leaderReports_append, leaderReports_append, h.reports]
  sentEofs := by
    rw [gatewayEofs_append, gatewayEofs_append]
    refine (h.sentEofs.append_right _).trans ?_
    rw [List.append_assoc, List.append_assoc]
    exact List.perm_append_comm.append_left _
  silent := h.silent
  led hid total ht := (h.led hid total ht.of_append).input p id

theorem Ran.report (h : Ran cfg c id sent pre n outputs fan eofs) (clientId : Nat)
    (control : ControlMessage) :
    Ran cfg c id sent (pre ++ [.report clientId control])
    (onDelivery cfg id n (.report clientId control)).1
      (outputs ++ if clientId = c then (onDelivery cfg id n (.report clientId control)).2 else [])
        fan
      (eofs ++ gatewayEofs
        (if clientId = c then (onDelivery cfg id n (.report clientId control)).2 else []))
      where
  wf := wf_onDelivery h.wf id _
  stage := by
    rw [inputs_append]
    exact (List.append_nil (inputs pre)).symm ▸ stageInv_handleLeaderReport h.stage clientId control
  accounts := by
    rw [gatewayAccounts_append, h.accounts]
    split
    · exact (congrArg _ (outputs_handleLeaderReport id clientId control).1).trans
        (List.append_nil _)
    · exact List.append_nil _
  reports := by
    rw [leaderReports_append, h.reports]
    split
    · exact (congrArg _ (outputs_handleLeaderReport id clientId control).2).trans
        (List.append_nil _)
    · exact List.append_nil _
  sentEofs := by
    rw [gatewayEofs_append, ← List.append_assoc]
    exact h.sentEofs.append_right _
  silent hid := by
    rw [h.silent hid]
    split
    · change gatewayEofs (handleLeaderReport cfg id n clientId control).2 = []
      rw [handleLeaderReport, if_pos hid]
      rfl
    · rfl
  led hid total ht := by
    have hled := h.led hid total ht.of_append
    subst hid
    split
    · next hc =>
      subst hc
      obtain ⟨hlt, htotal⟩ := ht control (by simp [reportsOf])
      exact hled.report h.wf hlt htotal
    · next hc =>
      rw [show gatewayEofs [] = [] from rfl, List.append_nil]
      exact hled.report_other hc control 0

theorem Ran.run (h : Ran cfg c id sent pre n outputs fan eofs)
    (hf : Fed c cfg.aggregatorAmount sent)
    (hd : Delivered c sent (inputs ds)) (ho : Orderly c (inputs ds)) (hds : ds = pre ++ post) :
    ∃ fan eofs, Ran cfg c id sent ds (runFor cfg id c n post).1
      (outputs ++ (runFor cfg id c n post).2) fan eofs := by
  induction post generalizing pre n outputs fan eofs with
  | nil =>
    rw [List.append_nil] at hds
    subst hds
    refine ⟨fan, eofs, ?_⟩
    rw [runFor, List.append_nil]
    exact h
  | cons d post ih =>
    rw [runFor]
    dsimp only
    rw [← List.append_assoc]
    cases d with
    | input p => exact ih (h.input hf hd ho hds) (by rw [hds, List.append_assoc]; rfl)
    | report clientId control =>
      exact ih (h.report clientId control) (by rw [hds, List.append_assoc]; rfl)

theorem ran_init (cfg : Q4Config) (c id : Nat) (sent : List (Packet Q4AccountId)) :
    Ran cfg c id sent [] (init cfg id) [] [] [] where
  wf := Inbox.wf_default
  stage := Stage.inv_init c sent cfg.aggregatorAmount_pos
  accounts := rfl
  reports := rfl
  sentEofs := .refl _
  silent _ := rfl
  led _ _ _ := .inl ⟨{
    isOpen := Finset.notMem_empty c
    reports := rfl
    total := rfl
    inRange := Finset.empty_subset _
    few := cfg.deduperAmount_pos
    classify := fun _ => rfl }, rfl⟩

theorem ends_close (id : Nat) (s : Q4DeduperClient) :
    leaderReports (buildCloseOutputs cfg id s) =
        (if cfg.deduperAmount = 1 then []
          else [{ senderId := id, expectedTotal := s.accounts.card }]) ∧
      gatewayEofs (buildCloseOutputs cfg id s) =
        if cfg.deduperAmount = 1 then
          [(gatewayEofSeq, { senderId := id, expectedTotal := s.accounts.card })]
        else [] := by
  have hdata : leaderReports (buildGatewayDataOutputs cfg s) = [] ∧
      gatewayEofs (buildGatewayDataOutputs cfg s) = [] := by
    unfold buildGatewayDataOutputs leaderReports gatewayEofs
    constructor
    all_goals
      rw [List.filterMap_map]
      exact List.filterMap_eq_nil_iff.mpr fun _ _ => rfl
  rw [buildCloseOutputs, leaderReports_append, gatewayEofs_append, hdata.1, hdata.2]
  constructor
  all_goals split <;> rfl

/-- What a deduper outputs for a client when all was delivered. -/
structure Closed (cfg : Q4Config) (c id : Nat) (sent : List (Packet Q4AccountId))
    (ds : List DeduperDelivery) (accounts : Finset AccountKey)
    (eofs : List (Nat × ControlMessage)) : Prop where
  mem_accounts : ∀ k, k ∈ accounts ↔ AccountKey.account k ∈ (batches sent).flatten
  stamped : gatewayAccounts (deduperOutputs cfg id c ds) =
    (accounts.sort (· ≤ ·)).map AccountKey.account
  reports : leaderReports (deduperOutputs cfg id c ds) =
    if cfg.deduperAmount = 1 then [] else [{ senderId := id, expectedTotal := accounts.card }]
  sentEofs : (gatewayEofs (deduperOutputs cfg id c ds)).Perm
    ((if cfg.deduperAmount = 1 then
      [(gatewayEofSeq, { senderId := id, expectedTotal := accounts.card })] else []) ++ eofs)
  silent : id ≠ 0 → eofs = []
  led : id = 0 → ∀ total, TrueReports cfg c total ds →
    Led cfg c total ds (runFor cfg id c (init cfg id) ds).1 eofs

theorem exists_closed (hf : Fed c cfg.aggregatorAmount sent) (hd : Delivered c sent (inputs ds))
    (ho : Orderly c (inputs ds)) : ∃ accounts eofs, Closed cfg c id sent ds accounts eofs := by
  obtain ⟨fan, eofs, h⟩ := (ran_init cfg c id sent).run hf hd ho (List.nil_append ds).symm
  rw [List.nil_append] at h
  obtain ⟨bs, hbs, hfan⟩ := h.stage.finished hf hd.mem_of_sent
  rw [Accumulator.emitted_of_silent _ (fun _ _ => rfl) bs] at hfan
  change fan = buildCloseOutputs cfg id ((stage cfg id).afterBatches bs) at hfan
  subst hfan
  obtain ⟨hreports, heofs⟩ := ends_close id ((stage cfg id).afterBatches bs)
  exact ⟨_, eofs, {
    mem_accounts := fun k =>
      (mem_accounts_afterBatches id bs k).trans (hbs.flatten.mem_iff)
    stamped := h.accounts.trans (gatewayAccounts_close id _)
    reports := h.reports.trans hreports
    sentEofs := heofs ▸ h.sentEofs
    silent := h.silent
    led := h.led }⟩

end Q4Deduper

/-! ## All the dedupers -/

/-- What the aggregators send each deduper for a client, and what is delivered to it. -/
structure DeduperRun where
  sent : Nat → List (Packet Q4AccountId)
  deliveries : Nat → List DeduperDelivery

namespace DeduperRun

open Q4Deduper

variable (cfg : Q4Config) (c : Nat) (r : DeduperRun)

/-- The accounts that a deduper is sent. -/
def candidates (i : Nat) : List Q4AccountId := (batches (r.sent i)).flatten

/-- What a deduper outputs for the client. -/
def outputs (i : Nat) : List CloseOutput := deduperOutputs cfg i c (r.deliveries i)

/-- The accounts stamped for the gateway. -/
def stampedAccounts : List Q4AccountId :=
  (List.range cfg.deduperAmount).flatMap fun i => gatewayAccounts (r.outputs cfg c i)

/-- The `EOF`s stamped for the gateway. -/
def stampedEofs : List (Nat × ControlMessage) :=
  (List.range cfg.deduperAmount).flatMap fun i => gatewayEofs (r.outputs cfg c i)

/-- Everything has been delivered, each aggregator's `EOF` after its `DATA`: equal accounts are sent
to one deduper, and the reports that come to deduper `0` are those that the dedupers have
stamped. -/
structure Complete : Prop where
  fed : ∀ i < cfg.deduperAmount, Fed c cfg.aggregatorAmount (r.sent i)
  delivered : ∀ i < cfg.deduperAmount, Delivered c (r.sent i) (inputs (r.deliveries i))
  sharded : ∀ i < cfg.deduperAmount, ∀ j < cfg.deduperAmount,
    ∀ a ∈ r.candidates i, a ∈ r.candidates j → i = j
  reported : ∀ i < cfg.deduperAmount, ∀ control ∈ leaderReports (r.outputs cfg c i),
    control ∈ reportsOf c (r.deliveries 0)
  reports : ∀ control ∈ reportsOf c (r.deliveries 0),
    ∃ i < cfg.deduperAmount, control ∈ leaderReports (r.outputs cfg c i)

/-- Every delivery is one that the inboxes tell apart. -/
def InOrder : Prop := ∀ i < cfg.deduperAmount, Orderly c (inputs (r.deliveries i))

instance : Decidable (r.InOrder cfg c) := inferInstanceAs (Decidable (∀ i < _, _))

/-- The gateway gets each candidate once, and one `EOF` with their number. -/
structure Total : Prop where
  nodup : (r.stampedAccounts cfg c).Nodup
  mem_iff : ∀ a, a ∈ r.stampedAccounts cfg c ↔ ∃ i < cfg.deduperAmount, a ∈ r.candidates i
  eof : r.stampedEofs cfg c =
    [(gatewayEofSeq, { senderId := 0, expectedTotal := (r.stampedAccounts cfg c).length })]

variable {cfg c r}

/-- What all the dedupers output. -/
theorem Complete.exists_closed (h : r.Complete cfg c) (ho : r.InOrder cfg c) :
    ∃ (accounts : Nat → Finset AccountKey) (eofs : Nat → List (Nat × ControlMessage)),
      ∀ i < cfg.deduperAmount, Closed cfg c i (r.sent i) (r.deliveries i)
        (accounts i) (eofs i) := by
  have hall : ∀ i, ∃ x : Finset AccountKey × List (Nat × ControlMessage),
      i < cfg.deduperAmount → Closed cfg c i (r.sent i) (r.deliveries i) x.1 x.2 := by
    intro i
    by_cases hi : i < cfg.deduperAmount
    · obtain ⟨accounts, eofs, hc⟩ :=
        Q4Deduper.exists_closed (h.fed i hi) (h.delivered i hi) (ho i hi)
      exact ⟨(accounts, eofs), fun _ => hc⟩
    · exact ⟨(∅, []), fun hlt => absurd hlt hi⟩
  choose x hx using hall
  exact ⟨fun i => (x i).1, fun i => (x i).2, hx⟩

/-- What a deduper reports is the number of its candidates. -/
theorem leaderReports_outputs {i : Nat} (hf : Fed c cfg.aggregatorAmount (r.sent i))
    (hd : Delivered c (r.sent i) (inputs (r.deliveries i)))
    (ho : Orderly c (inputs (r.deliveries i))) :
    leaderReports (r.outputs cfg c i) =
      if cfg.deduperAmount = 1 then [] else
        [{ senderId := i, expectedTotal :=
          ((r.candidates i).map Q4AccountId.key).toFinset.card }] := by
  obtain ⟨accounts, eofs, hc⟩ : ∃ accounts eofs,
    Closed cfg c i (r.sent i) (r.deliveries i) accounts eofs :=
    Q4Deduper.exists_closed hf hd ho
  have haccounts : accounts = ((r.candidates i).map Q4AccountId.key).toFinset := by
    ext k
    rw [hc.mem_accounts, List.mem_toFinset, List.mem_map]
    constructor
    · exact fun hm => ⟨_, hm, AccountKey.key_account k⟩
    · rintro ⟨a, hm, rfl⟩
      exact hm
  rw [outputs, hc.reports, haccounts]

section
variable {accounts : Nat → Finset AccountKey} {eofs : Nat → List (Nat × ControlMessage)}

/-- The accounts that a deduper outputs are the candidates that it is sent. -/
theorem mem_gatewayAccounts_of_closed {i : Nat}
    (hc : Closed cfg c i (r.sent i) (r.deliveries i) (accounts i) (eofs i)) (a : Q4AccountId) :
    a ∈ gatewayAccounts (r.outputs cfg c i) ↔ a ∈ r.candidates i := by
  rw [outputs, hc.stamped, List.mem_map]
  constructor
  · rintro ⟨k, hk, rfl⟩
    exact (hc.mem_accounts k).mp ((Finset.mem_sort _).mp hk)
  · intro ha
    exact ⟨a.key, (Finset.mem_sort _).mpr ((hc.mem_accounts a.key).mpr ha), rfl⟩

theorem nodup_stampedAccounts (h : r.Complete cfg c)
    (hc : ∀ i < cfg.deduperAmount, Closed cfg c i (r.sent i) (r.deliveries i)
      (accounts i) (eofs i)) :
    (r.stampedAccounts cfg c).Nodup := by
  rw [stampedAccounts, List.nodup_flatMap]
  constructor
  · intro i hi
    rw [outputs, (hc i (List.mem_range.mp hi)).stamped]
    refine (Finset.sort_nodup _ _).map fun k k' hk => ?_
    rw [← AccountKey.key_account k, hk, AccountKey.key_account]
  · refine List.Nodup.pairwise_of_forall_ne List.nodup_range fun i hi j hj hne => ?_
    intro a hai haj
    have hi := List.mem_range.mp hi
    have hj := List.mem_range.mp hj
    exact hne (h.sharded i hi j hj a ((mem_gatewayAccounts_of_closed (hc i hi) a).mp hai)
      ((mem_gatewayAccounts_of_closed (hc j hj) a).mp haj))

theorem length_stampedAccounts
    (hc : ∀ i < cfg.deduperAmount, Closed cfg c i (r.sent i) (r.deliveries i)
      (accounts i) (eofs i)) :
    (r.stampedAccounts cfg c).length = ∑ i ∈ Finset.range cfg.deduperAmount, (accounts i).card := by
  have hcard : ∀ i ∈ List.range cfg.deduperAmount,
      (gatewayAccounts (r.outputs cfg c i)).length = (accounts i).card := by
    intro i hi
    rw [outputs, (hc i (List.mem_range.mp hi)).stamped, List.length_map, Finset.length_sort]
  rw [stampedAccounts, List.length_flatMap, List.map_congr_left hcard]
  rfl

/-- The leader sends one `EOF`, with the number of all the accounts. -/
theorem led_of_complete (h : r.Complete cfg c) (hD : cfg.deduperAmount ≠ 1)
    (hc : ∀ i < cfg.deduperAmount, Closed cfg c i (r.sent i) (r.deliveries i)
      (accounts i) (eofs i)) :
    eofs 0 = [totalEof cfg fun i => (accounts i).card] := by
  have hreports : ∀ i < cfg.deduperAmount, leaderReports (r.outputs cfg c i) =
      [{ senderId := i, expectedTotal := (accounts i).card }] := by
    intro i hi
    rw [outputs, (hc i hi).reports, if_neg hD]
  have htrue : TrueReports cfg c (fun i => (accounts i).card) (r.deliveries 0) := by
    intro control hm
    obtain ⟨i, hi, hr⟩ := h.reports control hm
    rw [hreports i hi] at hr
    cases List.mem_singleton.mp hr
    exact ⟨hi, rfl⟩
  have hall : Finset.range cfg.deduperAmount ⊆ reporters c (r.deliveries 0) := by
    intro i hi
    have hi := Finset.mem_range.mp hi
    have hm := h.reported i hi _ (by rw [hreports i hi]; exact List.mem_singleton_self _)
    exact mem_reporters.mpr ⟨_, hm, rfl⟩
  rcases (hc 0 cfg.deduperAmount_pos).led rfl _ htrue with ⟨hopen, -⟩ | ⟨-, -, he⟩
  · have hcard := Finset.card_le_card hall
    rw [Finset.card_range] at hcard
    exact absurd hopen.few (Nat.not_lt.mpr hcard)
  · exact he

/-- A lone deduper gets no reports. -/
theorem eofs_of_lone (h : r.Complete cfg c) (hD : cfg.deduperAmount = 1)
    (hc : ∀ i < cfg.deduperAmount, Closed cfg c i (r.sent i) (r.deliveries i)
      (accounts i) (eofs i)) :
    eofs 0 = [] := by
  have hnone : ∀ control, control ∉ reportsOf c (r.deliveries 0) := by
    intro control hm
    obtain ⟨i, hi, hr⟩ := h.reports control hm
    rw [outputs, (hc i hi).reports, if_pos hD] at hr
    cases hr
  rcases (hc 0 cfg.deduperAmount_pos).led rfl (fun _ => 0)
    (fun control hm => absurd hm (hnone control)) with ⟨-, he⟩ | ⟨-, hall, -⟩
  · exact he
  · obtain ⟨control, hm, -⟩ := mem_reporters.mp (hall (Finset.mem_range.mpr cfg.deduperAmount_pos))
    exact absurd hm (hnone control)

theorem stampedEofs_eq (h : r.Complete cfg c)
    (hc : ∀ i < cfg.deduperAmount, Closed cfg c i (r.sent i) (r.deliveries i)
      (accounts i) (eofs i)) :
    r.stampedEofs cfg c = [totalEof cfg fun i => (accounts i).card] := by
  by_cases hD : cfg.deduperAmount = 1
  · have hrange : List.range cfg.deduperAmount = [0] := by rw [hD]; rfl
    have h0 := (hc 0 cfg.deduperAmount_pos).sentEofs
    rw [if_pos hD, eofs_of_lone h hD hc, List.append_nil] at h0
    rw [stampedEofs, hrange, List.flatMap_singleton, outputs,
      List.perm_singleton.mp h0, totalEof, hD]
    rfl
  · obtain ⟨n, hn⟩ := Nat.exists_eq_succ_of_ne_zero cfg.deduperAmount_pos.ne'
    have hrest : ∀ i < cfg.deduperAmount, i ≠ 0 → gatewayEofs (r.outputs cfg c i) = [] := by
      intro i hi hne
      have hi' := (hc i hi).sentEofs
      rw [if_neg hD, (hc i hi).silent hne, List.append_nil] at hi'
      exact List.perm_nil.mp hi'
    have h0 := (hc 0 cfg.deduperAmount_pos).sentEofs
    rw [if_neg hD, led_of_complete h hD hc, List.nil_append] at h0
    have hfirst : gatewayEofs (r.outputs cfg c 0) = _ := List.perm_singleton.mp h0
    rw [stampedEofs, hn, List.range_succ_eq_map, List.flatMap_cons, hfirst]
    refine (congrArg _ (List.flatMap_eq_nil_iff.mpr fun i hi => ?_)).trans (List.append_nil _)
    obtain ⟨j, hj, rfl⟩ := List.mem_map.mp hi
    exact hrest _ (by have := List.mem_range.mp hj; omega) (Nat.succ_ne_zero j)

end

/-- **Deduper total.** Once everything has been delivered, in an order that the inboxes tell apart,
the accounts stamped for the gateway are the distinct candidates, each once, and one `EOF` has been
stamped for it, with their number. -/
theorem deduper_total (cfg : Q4Config) (c : Nat) (r : DeduperRun) (h : r.Complete cfg c)
    (ho : r.InOrder cfg c) : r.Total cfg c := by
  obtain ⟨accounts, eofs, hc⟩ := h.exists_closed ho
  refine ⟨nodup_stampedAccounts h hc, fun a => ?_, ?_⟩
  · rw [stampedAccounts, List.mem_flatMap]
    refine exists_congr fun i => ?_
    rw [List.mem_range]
    exact and_congr_right fun hi => mem_gatewayAccounts_of_closed (hc i hi) a
  · rw [stampedEofs_eq h hc, length_stampedAccounts hc]
    rfl

/-- Two dedupers, or one, behind one aggregator. -/
def dedupers (amount : Nat) (h : 0 < amount := by decide) : Q4Config :=
  { Q4Config.smallest with deduperAmount := amount, deduperAmount_pos := h }

/-- What the aggregator sends for client `1`: two batches and its `EOF`. -/
def batchesOf (first second : List Q4AccountId) : List (Packet Q4AccountId) :=
  [⟨1, 0, 0, .data first⟩, ⟨1, 0, 1, .data second⟩,
    ⟨1, 0, 2, .eof { senderId := 0, expectedTotal := 2 }⟩]

theorem fed_batchesOf (first second : List Q4AccountId) : Fed 1 1 (batchesOf first second) where
  client := by simp [batchesOf]
  sender := by simp [batchesOf]
  keys := by simp [batchesOf, Packet.key]
  eof := by simp [batchesOf]
  ends := by simp [batchesOf, Body.isEof]
  once := by simp [batchesOf, Body.isEof]

/-- Deduper `1` closes first and its report comes before the packets of deduper `0`, and again after
the `EOF` of the gateway. -/
def earlyReport : DeduperRun where
  sent i := batchesOf [⟨"1", toString i⟩, ⟨"2", toString i⟩] [⟨"1", toString i⟩]
  deliveries
    | 0 =>
      let packets := batchesOf [⟨"1", "0"⟩, ⟨"2", "0"⟩] [⟨"1", "0"⟩]
      [.report 1 { senderId := 1, expectedTotal := 2 }] ++ packets.map .input ++
        [.report 1 { senderId := 0, expectedTotal := 2 },
          .report 1 { senderId := 1, expectedTotal := 2 }] ++
        packets.map .input
    | i => (batchesOf [⟨"1", toString i⟩, ⟨"2", toString i⟩] [⟨"1", toString i⟩]).map .input

theorem deduper_total_earlyReport : earlyReport.Total (dedupers 2) 1 := by
  have hfed : ∀ i, Fed 1 1 (earlyReport.sent i) := fun _ => fed_batchesOf _ _
  have hdelivered :
      ∀ i < 2, Delivered 1 (earlyReport.sent i) (inputs (earlyReport.deliveries i)) := by
    decide +kernel
  have horder : earlyReport.InOrder (dedupers 2) 1 := by decide +kernel
  have hreports : ∀ i < 2, leaderReports (earlyReport.outputs (dedupers 2) 1 i) =
      [{ senderId := i, expectedTotal := 2 }] := by
    intro i hi
    rw [leaderReports_outputs (hfed i) (hdelivered i hi) (horder i hi)]
    obtain rfl | rfl : i = 0 ∨ i = 1 := by omega
    · decide +kernel
    · decide +kernel
  refine deduper_total (dedupers 2) 1 earlyReport
    ⟨fun i _ => hfed i, hdelivered, by decide +kernel, fun i hi control hm =>
      ?_, fun control hm => ?_⟩ horder
  · rw [hreports i hi, List.mem_singleton] at hm
    subst hm
    revert i
    decide +kernel
  · have hmem : control.senderId < 2 ∧
        control = { senderId := control.senderId, expectedTotal := 2 } := by
      revert control
      decide +kernel
    refine ⟨control.senderId, hmem.1, ?_⟩
    rw [hreports _ hmem.1, List.mem_singleton]
    exact hmem.2

/-- The two batches come in the other order. -/
def overtaken : DeduperRun where
  sent _ := batchesOf [⟨"1", "0"⟩] [⟨"2", "0"⟩]
  deliveries _ := [.input ⟨1, 0, 1, .data [⟨"2", "0"⟩]⟩, .input ⟨1, 0, 0, .data [⟨"1", "0"⟩]⟩,
    .input ⟨1, 0, 2, .eof { senderId := 0, expectedTotal := 2 }⟩]

/-- The candidate of the batch that came late is lost. -/
theorem not_deduper_total_overtaken :
    ¬ ∀ (cfg : Q4Config) (c : Nat) (r : DeduperRun), r.Complete cfg c → r.Total cfg c := by
  intro hclaim
  have h := hclaim (dedupers 1) 1 overtaken ⟨fun _ _ => fed_batchesOf _ _, by decide +kernel,
    by decide +kernel, by decide +kernel, by decide +kernel⟩
  have hmem := (h.mem_iff ⟨"1", "0"⟩).mpr (by decide +kernel)
  exact absurd hmem (by decide +kernel)

end DeduperRun

end MoneyLaundering
