import MoneyLaundering.Eof.Coordinator
import MoneyLaundering.Lib.Tally

/-!
# Counting the acks of a flush

After `FLUSH_ORDER` the leader collects one `FLUSH_ACK` of every other replica and adds up the
counts they report. The senders are kept in a set and the counts in a running sum: a repeated sender
does not enter the set a second time, but its count is added again, unlike in
`_on_processed_answer`, where a repeated sender is answered with nothing. Once the set is complete
both are forgotten, and in `flush_order` mode the replica stays the leader, so further acks fill a
new set.
-/

namespace MoneyLaundering

namespace EofCoordinator

variable (cfg : CoordinatorConfig)

/-- The coordinator after a sequence of `FLUSH_ACK`s of one client. -/
def afterAcks (s : EofCoordinator) (clientId : Nat) (acks : List ControlMessage) : EofCoordinator :=
  acks.foldl (fun s ctrl => (s.processControlMessage cfg .flushAck clientId ctrl 0 0).1) s

/-- The distinct senders of a sequence of acks. -/
def ackSenders (acks : List ControlMessage) : Finset Nat := (acks.map (·.senderId)).toFinset

/-- All the counts that a sequence of acks reports, repeated ones too. -/
def ackTotal (acks : List ControlMessage) : Nat := tally (·.processedCount) acks

/-- The replica leads the client, and `senders` have acked with a running sum of `total`. -/
structure Gathering (s : EofCoordinator) (clientId : Nat) (senders : Finset Nat)
    (total : Nat) : Prop where
  leader : isLeaderHere cfg s clientId = true
  acks : s.flushAcks.getD clientId ∅ = senders
  forwarded : s.forwardedFromAcks.getD clientId 0 = total

/-- A leader that no replica has acked yet. -/
def AwaitsAcks (s : EofCoordinator) (clientId : Nat) : Prop :=
  isLeaderHere cfg s clientId = true ∧ s.flushAcks.get? clientId = none ∧
    s.forwardedFromAcks.get? clientId = none

/-- The message `ctrl` brings the last of the `N - 1` distinct senders, after `before`. -/
def Completes (before : List ControlMessage) (ctrl : ControlMessage) : Prop :=
  (ackSenders before).card < cfg.totalInstances - 1 ∧
    (insert ctrl.senderId (ackSenders before)).card = cfg.totalInstances - 1

instance (before : List ControlMessage) (ctrl : ControlMessage) :
    Decidable (Completes cfg before ctrl) :=
  inferInstanceAs (Decidable (_ ∧ _))

/-- Every message of the sequence is answered as if each sender counted once: with the order to
flush exactly when it completes the set of senders, and then with the sum of the counts of these
senders. -/
def CountsEachSenderOnce (s : EofCoordinator) (clientId : Nat) (counts : Nat → Nat)
    (acks : List ControlMessage) : Prop :=
  ∀ before ctrl after, acks = before ++ ctrl :: after →
    ((s.afterAcks cfg clientId before).processControlMessage cfg .flushAck clientId ctrl 0 0).2 =
      if Completes cfg before ctrl then
        some (.flush true (∑ sender ∈ insert ctrl.senderId (ackSenders before), counts sender) "")
      else none

/-- No sender that reports something is repeated before the set of senders is complete, and in
`flush_order` mode the messages after that do not complete a second set. -/
def RepeatsHarmless (counts : Nat → Nat) (acks : List ControlMessage) : Prop :=
  ∀ before ctrl after, acks = before ++ ctrl :: after → Completes cfg before ctrl →
    (∀ sender ∈ ackSenders before, counts sender ≠ 0 →
      (before.map (·.senderId)).count sender = 1) ∧
    (cfg.mode = .flushOrder → (ackSenders after).card < cfg.totalInstances - 1)

variable {cfg} {s : EofCoordinator} {clientId total : Nat} {senders : Finset Nat}
  {acks before after : List ControlMessage} {ctrl : ControlMessage} {counts : Nat → Nat}

@[simp] theorem ackSenders_nil : ackSenders [] = ∅ := rfl

@[simp] theorem ackSenders_append :
    ackSenders (before ++ after) = ackSenders before ∪ ackSenders after := by
  simp [ackSenders]

@[simp] theorem ackSenders_cons :
    ackSenders (ctrl :: after) = insert ctrl.senderId (ackSenders after) := by
  simp [ackSenders]

theorem afterAcks_append :
    s.afterAcks cfg clientId (before ++ after) =
      (s.afterAcks cfg clientId before).afterAcks cfg clientId after := List.foldl_append

theorem afterAcks_cons :
    s.afterAcks cfg clientId (ctrl :: after) =
      (s.processControlMessage cfg .flushAck clientId ctrl 0 0).1.afterAcks cfg clientId after :=
  rfl

theorem AwaitsAcks.gathering (h : AwaitsAcks cfg s clientId) : Gathering cfg s clientId ∅ 0 := by
  obtain ⟨hl, ha, hf⟩ := h
  exact ⟨hl, by rw [Dict.getD, ha]; rfl, by rw [Dict.getD, hf]; rfl⟩

/-! ## One ack -/

/-- An ack that leaves senders missing enters the set and the sum. -/
theorem Gathering.missing (h : Gathering cfg s clientId senders total)
    (hlt : (insert ctrl.senderId senders).card < cfg.totalInstances - 1) :
    (s.processControlMessage cfg .flushAck clientId ctrl 0 0).2 = none ∧
    Gathering cfg (s.processControlMessage cfg .flushAck clientId ctrl 0 0).1 clientId
      (insert ctrl.senderId senders) (total + ctrl.processedCount) := by
  obtain ⟨hl, rfl, rfl⟩ := h
  simp only [processControlMessage, onFlushAck, hl, if_true, if_pos hlt]
  refine ⟨trivial, ?_, ?_, ?_⟩
  · simpa only [isLeaderHere] using hl
  · simp [Dict.getD_set]
  · simp [Dict.getD_set]

/-- The last ack orders the flush of the running sum. -/
theorem Gathering.last (h : Gathering cfg s clientId senders total)
    (hle : ¬ (insert ctrl.senderId senders).card < cfg.totalInstances - 1) :
    s.processControlMessage cfg .flushAck clientId ctrl 0 0 =
      (cleanupLeaderState cfg s clientId, some (.flush true (total + ctrl.processedCount) "")) := by
  obtain ⟨hl, rfl, rfl⟩ := h
  simp only [processControlMessage, onFlushAck, hl, if_true, if_neg hle]

/-- In `broadcast` mode the replica does not lead the client any more. -/
theorem isLeaderHere_cleanupLeaderState (hm : cfg.mode = .broadcast) (s : EofCoordinator)
    (clientId : Nat) :
    isLeaderHere cfg (cleanupLeaderState cfg s clientId) clientId = false := by
  simp [isLeaderHere, hm, cleanupLeaderState, Dict.contains]

/-- In `flush_order` mode it does, and collects again. -/
theorem gathering_cleanupLeaderState (hm : cfg.mode = .flushOrder)
    (hl : isLeaderHere cfg s clientId = true) :
    Gathering cfg (cleanupLeaderState cfg s clientId) clientId ∅ 0 := by
  refine ⟨?_, ?_, ?_⟩
  · simpa only [isLeaderHere, hm] using hl
  · simp [cleanupLeaderState, Dict.getD_erase]
  · simp [cleanupLeaderState, Dict.getD_erase]

/-- A replica that does not lead the client drops its acks. -/
theorem flushAck_of_not_leader (hl : isLeaderHere cfg s clientId = false) (ctrl : ControlMessage) :
    s.processControlMessage cfg .flushAck clientId ctrl 0 0 = (s, none) := by
  simp only [processControlMessage, onFlushAck, hl, Bool.false_eq_true, if_false]

theorem afterAcks_of_not_leader (hl : isLeaderHere cfg s clientId = false)
    (acks : List ControlMessage) : s.afterAcks cfg clientId acks = s := by
  induction acks with
  | nil => rfl
  | cons ctrl acks ih => rw [afterAcks_cons, flushAck_of_not_leader hl, ih]

/-! ## A run of acks -/

/-- As long as senders are missing, the set and the sum are those of all the acks so far. -/
theorem Gathering.afterAcks (h : Gathering cfg s clientId senders total)
    (acks : List ControlMessage) (hlt : (ackSenders acks ∪ senders).card < cfg.totalInstances - 1) :
    Gathering cfg (s.afterAcks cfg clientId acks) clientId (ackSenders acks ∪ senders)
      (total + ackTotal acks) := by
  induction acks generalizing s senders total with
  | nil => simpa [afterAcks, ackTotal] using h
  | cons ctrl acks ih =>
    have hset : ackSenders (ctrl :: acks) ∪ senders =
        ackSenders acks ∪ insert ctrl.senderId senders := by
      rw [ackSenders_cons, Finset.insert_union, Finset.union_insert]
    rw [hset] at hlt ⊢
    have hle : (insert ctrl.senderId senders).card < cfg.totalInstances - 1 :=
      lt_of_le_of_lt (Finset.card_le_card Finset.subset_union_right) hlt
    have hnext := ih (h.missing hle).2 hlt
    rwa [Nat.add_assoc] at hnext

theorem AwaitsAcks.afterAcks (h : AwaitsAcks cfg s clientId)
    (hlt : (ackSenders acks).card < cfg.totalInstances - 1) :
    Gathering cfg (s.afterAcks cfg clientId acks) clientId (ackSenders acks) (ackTotal acks) := by
  have hg := h.gathering.afterAcks acks
  rw [Finset.union_empty, Nat.zero_add] at hg
  exact hg hlt

/-- One more message either leaves senders missing or completes the set. -/
theorem completes_of_not_missing (hlt : (ackSenders before).card < cfg.totalInstances - 1)
    (hnot : ¬ (insert ctrl.senderId (ackSenders before)).card < cfg.totalInstances - 1) :
    Completes cfg before ctrl := by
  have hstep := Finset.card_insert_le ctrl.senderId (ackSenders before)
  exact ⟨hlt, by omega⟩

/-- A sequence with all the senders has a message that completes them. -/
theorem exists_completes (hN : 2 ≤ cfg.totalInstances)
    (hall : cfg.totalInstances - 1 ≤ (ackSenders acks).card) :
    ∃ before ctrl after, acks = before ++ ctrl :: after ∧ Completes cfg before ctrl := by
  induction acks using List.reverseRecOn with
  | nil => rw [ackSenders_nil, Finset.card_empty] at hall; omega
  | append_singleton acks ctrl ih =>
    by_cases hlt : (ackSenders acks).card < cfg.totalInstances - 1
    · refine ⟨acks, ctrl, [], rfl, completes_of_not_missing hlt ?_⟩
      rw [ackSenders_append, ackSenders_cons, ackSenders_nil, Finset.union_insert,
        Finset.union_empty] at hall
      exact Nat.not_lt.mpr hall
    · obtain ⟨before, last, after, rfl, hc⟩ := ih (Nat.not_lt.mp hlt)
      exact ⟨before, last, after ++ [ctrl], by simp, hc⟩

/-- The message that completes the senders brings a new one. -/
theorem Completes.new (h : Completes cfg before ctrl) : ctrl.senderId ∉ ackSenders before := by
  intro hmem
  obtain ⟨hlt, heq⟩ := h
  rw [Finset.insert_eq_self.mpr hmem] at heq
  omega

/-- When each sender always reports the same count, the running sum is the sum over the distinct
senders exactly if no sender that reports something is repeated. -/
theorem ackTotal_eq_iff (hcounts : ∀ m ∈ acks, m.processedCount = counts m.senderId) :
    ackTotal acks = ∑ sender ∈ ackSenders acks, counts sender ↔
      ∀ sender ∈ ackSenders acks, counts sender ≠ 0 → (acks.map (·.senderId)).count sender = 1 := by
  have htotal : ackTotal acks = tally counts (acks.map (·.senderId)) := by
    rw [tally_map]
    exact tally_congr hcounts
  have hsum : ∑ sender ∈ ackSenders acks, counts sender =
      tally counts (acks.map (·.senderId)).dedup := by
    rw [tally, ← List.sum_toFinset _ (List.nodup_dedup _)]
    refine Finset.sum_congr ?_ fun _ _ => rfl
    ext sender
    simp [ackSenders]
  rw [htotal, hsum, tally_eq_iff_count_eq_one (List.nodup_dedup _)
    (fun a ha => List.mem_dedup.mpr ha) fun a ha _ => List.mem_dedup.mp ha]
  simp [ackSenders]

/-- What the message that completes the senders is answered with. -/
theorem AwaitsAcks.completes (h : AwaitsAcks cfg s clientId) (hc : Completes cfg before ctrl) :
    (s.afterAcks cfg clientId before).processControlMessage cfg .flushAck clientId ctrl 0 0 =
      (cleanupLeaderState cfg (s.afterAcks cfg clientId before) clientId,
        some (.flush true (ackTotal before + ctrl.processedCount) "")) :=
  (h.afterAcks hc.1).last (by rw [hc.2]; exact Nat.lt_irrefl _)

/-- The state after the message that completes the senders, and any messages after it. -/
theorem AwaitsAcks.afterAcks_completes (h : AwaitsAcks cfg s clientId)
    (hc : Completes cfg before ctrl) :
    s.afterAcks cfg clientId (before ++ ctrl :: after) =
      (cleanupLeaderState cfg (s.afterAcks cfg clientId before) clientId).afterAcks cfg clientId
        after := by
  rw [afterAcks_append, afterAcks_cons, h.completes hc]

/-- The sum is right at the completing message exactly if no sender with a count was repeated. -/
theorem Completes.total_eq_iff (hc : Completes cfg before ctrl)
    (hcounts : ∀ m ∈ before ++ [ctrl], m.processedCount = counts m.senderId) :
    ackTotal before + ctrl.processedCount =
        ∑ sender ∈ insert ctrl.senderId (ackSenders before), counts sender ↔
      ∀ sender ∈ ackSenders before, counts sender ≠ 0 →
        (before.map (·.senderId)).count sender = 1 := by
  rw [Finset.sum_insert hc.new, ← hcounts ctrl (by simp),
    ← ackTotal_eq_iff fun m hm => hcounts m (List.mem_append_left _ hm)]
  omega

/-- After the set was complete, nothing is ordered any more in `broadcast` mode. -/
theorem AwaitsAcks.answer_after (h : AwaitsAcks cfg s clientId) (hc : Completes cfg before ctrl)
    (hm : cfg.mode = .broadcast) (after : List ControlMessage) (later : ControlMessage) :
    ((s.afterAcks cfg clientId (before ++ ctrl :: after)).processControlMessage cfg
      .flushAck clientId
      later 0 0).2 = none := by
  have hl := isLeaderHere_cleanupLeaderState hm (s.afterAcks cfg clientId before) clientId
  rw [h.afterAcks_completes hc, afterAcks_of_not_leader hl, flushAck_of_not_leader hl]

/-- In `flush_order` mode the messages after it are collected on their own. -/
theorem AwaitsAcks.gathering_after (h : AwaitsAcks cfg s clientId) (hc : Completes cfg before ctrl)
    (hm : cfg.mode = .flushOrder) (hlt : (ackSenders after).card < cfg.totalInstances - 1) :
    Gathering cfg (s.afterAcks cfg clientId (before ++ ctrl :: after)) clientId (ackSenders after)
      (ackTotal after) := by
  have hg := (gathering_cleanupLeaderState hm (h.afterAcks hc.1).leader).afterAcks after
  rw [Finset.union_empty, Nat.zero_add] at hg
  rw [h.afterAcks_completes hc]
  exact hg hlt

/-- A set that was complete stays so. -/
theorem not_completes_after (hc : Completes cfg before ctrl) (later : ControlMessage) :
    ¬ Completes cfg (before ++ ctrl :: after) later := by
  intro hagain
  have hsub : insert ctrl.senderId (ackSenders before) ⊆ ackSenders (before ++ ctrl :: after) := by
    intro sender hs
    simp only [ackSenders_append, ackSenders_cons, Finset.mem_union, Finset.mem_insert] at hs ⊢
    exact hs.elim (fun h => .inr (.inl h)) .inl
  have hcard := Finset.card_le_card hsub
  rw [hc.2] at hcard
  exact absurd hagain.1 (Nat.not_lt.mpr hcard)

section main
variable (hN : 2 ≤ cfg.totalInstances) (h : AwaitsAcks cfg s clientId)
  (hcounts : ∀ m ∈ acks, m.processedCount = counts m.senderId)
include hN h hcounts

theorem RepeatsHarmless.of_countsEachSenderOnce
    (honce : CountsEachSenderOnce cfg s clientId counts acks) :
    RepeatsHarmless cfg counts acks := by
  intro before ctrl after hacks hc
  constructor
  · refine (hc.total_eq_iff fun m hm => hcounts m ?_).mp ?_
    · rw [hacks, List.append_cons]
      exact List.mem_append_left _ hm
    · have hanswer := honce before ctrl after hacks
      rw [if_pos hc, h.completes hc] at hanswer
      injection hanswer with hflush
      injection hflush
  · intro hm
    by_contra hall
    -- a second set would be ordered a second time
    obtain ⟨first, last, rest, rfl, hc'⟩ := exists_completes hN (Nat.not_lt.mp hall)
    have hanswer := honce (before ++ ctrl :: first) last rest (by rw [hacks]; simp)
    rw [if_neg (not_completes_after hc last), (h.gathering_after hc hm hc'.1).last
      (by rw [hc'.2]; exact Nat.lt_irrefl _)] at hanswer
    cases hanswer

theorem CountsEachSenderOnce.of_repeatsHarmless (hok : RepeatsHarmless cfg counts acks) :
    CountsEachSenderOnce cfg s clientId counts acks := by
  intro before ctrl after hacks
  by_cases hlt : (ackSenders before).card < cfg.totalInstances - 1
  · by_cases hmiss : (insert ctrl.senderId (ackSenders before)).card < cfg.totalInstances - 1
    · rw [((h.afterAcks hlt).missing hmiss).1, if_neg fun hc => Nat.ne_of_lt hmiss hc.2]
    · have hc := completes_of_not_missing hlt hmiss
      have hmem : ∀ m ∈ before ++ [ctrl], m.processedCount = counts m.senderId := by
        intro m hm
        refine hcounts m ?_
        rw [hacks, List.append_cons]
        exact List.mem_append_left _ hm
      rw [if_pos hc, h.completes hc, (hc.total_eq_iff hmem).mpr (hok before ctrl after hacks hc).1]
  · rw [if_neg fun hc => hlt hc.1]
    obtain ⟨first, last, rest, rfl, hc⟩ := exists_completes hN (Nat.not_lt.mp hlt)
    cases hm : cfg.mode with
    | broadcast => exact h.answer_after hc hm rest ctrl
    | flushOrder =>
      have hrest := (hok first last (rest ++ ctrl :: after) (by rw [hacks]; simp) hc).2 hm
      rw [ackSenders_append, ackSenders_cons] at hrest
      have hmiss : (insert ctrl.senderId (ackSenders rest)).card < cfg.totalInstances - 1 := by
        refine lt_of_le_of_lt (Finset.card_le_card ?_) hrest
        exact Finset.insert_subset (by simp) Finset.subset_union_left
      have hbefore := lt_of_le_of_lt (Finset.card_le_card (Finset.subset_insert _ _)) hmiss
      exact ((h.gathering_after hc hm hbefore).missing hmiss).1

/-- **Each sender counts once.** For a leader of `N ≥ 2` replicas and any sequence of acks in which
each sender always reports the same count: the order to flush comes exactly at the message that
completes the senders, with the sum of their counts, if and only if no sender that reports something
is repeated before that message, and in `flush_order` mode the messages after it do not complete a
second set. -/
theorem counts_each_sender_once_iff :
    CountsEachSenderOnce cfg s clientId counts acks ↔ RepeatsHarmless cfg counts acks :=
  ⟨.of_countsEachSenderOnce hN h hcounts, .of_repeatsHarmless hN h hcounts⟩

end main

/-- The leader of three replicas, in `flush_order` mode. -/
def leaderOfThree : CoordinatorConfig where
  instanceId := 0
  totalInstances := 3
  controlQueuePrefix := "control"
  responseQueuePrefix := "response"
  mode := .flushOrder

/-- Replica `i` acks that it forwarded `5` records. -/
def ackOfFive (i : Nat) : ControlMessage :=
  { senderId := i, expectedTotal := 0, processedCount := 5 }

/-- The acks of the two other replicas, and one of them once more. -/
theorem counts_two_senders_once :
    CountsEachSenderOnce leaderOfThree {} 7 (fun _ => 5)
    [ackOfFive 2, ackOfFive 1, ackOfFive 2] := by
  refine (counts_each_sender_once_iff (by decide) ⟨rfl, rfl, rfl⟩ (by decide)).mpr ?_
  intro before ctrl after hacks hc
  match before, hacks with
  | [], hacks => cases hacks; exact absurd hc (by decide)
  | [_], hacks => cases hacks; exact ⟨by decide, by decide⟩
  | [_, _], hacks => cases hacks; exact absurd hc (by decide)
  | _ :: _ :: _ :: _, hacks => simp at hacks

/-- The ack of one replica comes twice before the other's: the flush is ordered with `15` instead of
`10`. -/
theorem repeated_ack_counted_twice :
    AwaitsAcks leaderOfThree {} 7 ∧
    ¬ CountsEachSenderOnce leaderOfThree {} 7 (fun _ => 5)
    [ackOfFive 2, ackOfFive 2, ackOfFive 1] := by
  refine ⟨⟨rfl, rfl, rfl⟩, fun honce => ?_⟩
  have hanswer := honce [ackOfFive 2, ackOfFive 2] (ackOfFive 1) [] rfl
  revert hanswer
  decide +kernel

end EofCoordinator

end MoneyLaundering
