import MoneyLaundering.Workers.AggregatorCluster

/-!
# A second counting round of the aggregators

The leader of the aggregators flushes a client when the counts of all replicas reach the total. When
a round falls short it asks for another one by `PROCESSED_REQUEST`, and the control consumer of
every replica acks the request unanswered. A client whose first round is enough is closed by every
replica; a client whose first round falls short is closed by none.
-/

namespace MoneyLaundering

open Bytes InternalProtocol EofCoordinator Consumer Runner Transition

namespace AggregatorCluster

variable {π : Type} {cfg : AggregatorConfig π} {sys sys' : AggregatorCluster π} {l : AggregatorAct}

/-! ## The rounds of a client -/

section phases
variable (cfg) (sys) (c : Nat)

/-- What the leader holds about the clients. -/
abbrev leader : ClientViews := sys.view aggregatorLeaderId

/-- A replica has taken the EOF of the client. -/
def Reported (j : Nat) : Prop := (sys.view j c).seen = true ∨ (sys.view j c).closed = true

/-- The answer of replica `j`, on the queue of the leader. -/
def IsAnswer (j : Nat) (x : String × Bytes) : Prop :=
  x.1 = cfg.leaderQueue ∧ ∃ ctrl, parseMessage x.2 = .ok (some .processedAnswer, c, ctrl) ∧
    ctrl.senderId = j

/-- The ack of replica `j`, on the queue of the leader. -/
def IsAck (j : Nat) (x : String × Bytes) : Prop :=
  x.1 = cfg.leaderQueue ∧ ∃ ctrl, parseMessage x.2 = .ok (some .flushAck, c, ctrl) ∧
  ctrl.senderId = j

/-- The order to flush, on the queue of replica `j`. -/
def IsOrder (j : Nat) (x : String × Bytes) : Prop :=
  x.1 = cfg.coordinator.controlQueueFor j ∧
    ∃ ctrl, parseMessage x.2 = .ok (some .flushOrder, c, ctrl)

/-- A replica answers with one count only, `r`, and the leader adds up the counts of its
responders. -/
structure Reports (r : Nat → Nat) : Prop where
  answers : ∀ x, sys.Known x → ∀ ctrl, parseMessage x.2 = .ok (some .processedAnswer, c, ctrl) →
    ctrl.senderId < cfg.aggregationAmount ∧ ctrl.processedCount = r ctrl.senderId ∧
      sys.Reported c ctrl.senderId
  responders : ∀ j ∈ (sys.leader c).responders, j < cfg.aggregationAmount ∧ sys.Reported c j
  counted : (sys.leader c).counted = ∑ j ∈ (sys.leader c).responders, r j

/-- No order to flush the client was sent, and no ack of one. -/
def Silent : Prop :=
  ∀ x, sys.Known x → ∀ msgType ctrl, parseMessage x.2 = .ok (some msgType, c, ctrl) →
    msgType ≠ .flushOrder ∧ msgType ≠ .flushAck

/-- No round of the client has ended. -/
structure Gathering : Prop where
  opened : ∀ i < cfg.aggregationAmount, (sys.view i c).closed = false
  silent : sys.Silent c
  acks : (sys.leader c).acks = ∅
  answered : ∀ i < cfg.aggregationAmount, (sys.view i c).seen = true →
    i ∈ (sys.leader c).responders ∨ ∃ x, sys.OnTheWay x ∧ IsAnswer cfg c i x
  expected : (sys.leader c).seen = true → (sys.leader c).expected ≠ none
  missing : (sys.leader c).responders.card < cfg.aggregationAmount

/-- A round fell short, and so will every other one. -/
structure Short (r : Nat → Nat) : Prop where
  opened : ∀ i < cfg.aggregationAmount, (sys.view i c).closed = false
  silent : sys.Silent c
  reported : ∀ i < cfg.aggregationAmount, (sys.view i c).seen = true
  short : ∃ expected, (sys.leader c).expected = some expected ∧
    ∑ j ∈ Finset.range cfg.aggregationAmount, r j < expected

/-- The order to flush was sent. -/
structure Flushing (r : Nat → Nat) : Prop where
  reported : ∀ i < cfg.aggregationAmount, sys.Reported c i
  enough : ∀ expected, (sys.leader c).expected = some expected →
    expected ≤ ∑ j ∈ Finset.range cfg.aggregationAmount, r j
  ordered : ∀ i < cfg.aggregationAmount, i ≠ aggregatorLeaderId →
    (sys.view i c).closed = true ∨ ∃ x, sys.OnTheWay x ∧ IsOrder cfg c i x
  acked : ∀ i < cfg.aggregationAmount, i ≠ aggregatorLeaderId → (sys.view i c).closed = true →
    (sys.leader c).closed = true ∨ i ∈ (sys.leader c).acks ∨ ∃ x, sys.OnTheWay x ∧ IsAck cfg c i x
  last : (sys.leader c).closed = false → (sys.leader c).acks.card < cfg.aggregationAmount - 1

/-- A step that means nothing to the client: its messages stay, or have nothing left to do. -/
structure Unmoved (sys' : AggregatorCluster π) (gone : Option (String × Bytes))
    (outs : List (String × Bytes)) : Prop where
  views : ∀ j, sys'.view j c = sys.view j c
  outs : ∀ x ∈ outs, ∀ msgType ctrl, parseMessage x.2 = .ok (some msgType, c, ctrl) →
    msgType ≠ .processedAnswer ∧ msgType ≠ .flushOrder ∧ msgType ≠ .flushAck
  answer : ∀ x ∈ gone, ∀ j, IsAnswer cfg c j x → j ∈ (sys.leader c).responders
  order : ∀ x ∈ gone, ∀ j, j ≠ aggregatorLeaderId → IsOrder cfg c j x → (sys.view j c).closed = true
  ack : ∀ x ∈ gone, ∀ j, IsAck cfg c j x →
    (sys.leader c).closed = true ∨ j ∈ (sys.leader c).acks

end phases

section unmoved
variable {c i : Nat} {gone : Option (String × Bytes)} {outs : List (String × Bytes)} {r : Nat → Nat}

theorem Reported.of_view {j : Nat} (h : sys.Reported c j) (hv : sys'.view j c = sys.view j c) :
    sys'.Reported c j := by
  rw [Reported, hv]
  exact h

/-- A message that the client waits for stays on its way, or was not waited for any more. -/
theorem Advance.keeps {P : String × Bytes → Prop} {done : Prop} (ha : Advance sys sys' i gone outs)
    (hgone : ∀ x ∈ gone, P x → done) (h : ∃ x, sys.OnTheWay x ∧ P x) :
    done ∨ ∃ x, sys'.OnTheWay x ∧ P x := by
  obtain ⟨x, hx, hp⟩ := h
  by_cases hxg : some x = gone
  · exact .inl (hgone x hxg.symm hp)
  · exact .inr ⟨x, ha.stays x hx hxg, hp⟩

theorem Silent.step (h : sys.Silent c) (ha : Advance sys sys' i gone outs)
    (houts : ∀ x ∈ outs, ∀ msgType ctrl, parseMessage x.2 = .ok (some msgType, c, ctrl) →
      msgType ≠ .flushOrder ∧ msgType ≠ .flushAck) : sys'.Silent c :=
  fun x hx => (ha.known x hx).elim (h x) (houts x)

/-- No answer is sent, and the leader hears none. -/
theorem Reports.step (h : Reports cfg sys c r) (ha : Advance sys sys' i gone outs)
    (houts : ∀ x ∈ outs, ∀ ctrl, parseMessage x.2 ≠ .ok (some .processedAnswer, c, ctrl))
    (hreported : ∀ j, sys.Reported c j → sys'.Reported c j)
    (hresp : (sys'.leader c).responders = (sys.leader c).responders)
    (hcount : (sys'.leader c).counted = (sys.leader c).counted) : Reports cfg sys' c r where
  answers x hx ctrl hp := by
    obtain ⟨hlt, hr, hrep⟩ := (ha.known x hx).elim (fun hx => h.answers x hx ctrl hp)
      fun hx => absurd hp (houts x hx ctrl)
    exact ⟨hlt, hr, hreported _ hrep⟩
  responders j hj := by
    rw [hresp] at hj
    exact ⟨(h.responders j hj).1, hreported j (h.responders j hj).2⟩
  counted := by rw [hcount, hresp, h.counted]

theorem Unmoved.reports (hu : Unmoved cfg sys c sys' gone outs) (ha : Advance sys sys' i gone outs)
    (h : Reports cfg sys c r) : Reports cfg sys' c r :=
  h.step ha (fun x hx ctrl hp => (hu.outs x hx _ ctrl hp).1 rfl) (fun j hj =>
    hj.of_view (hu.views j))
    (by rw [leader, hu.views]) (by rw [leader, hu.views])

theorem Unmoved.silent (hu : Unmoved cfg sys c sys' gone outs) (ha : Advance sys sys' i gone outs)
    (h : sys.Silent c) : sys'.Silent c :=
  h.step ha fun x hx msgType ctrl hp => (hu.outs x hx msgType ctrl hp).2

theorem Unmoved.gathering (hu : Unmoved cfg sys c sys' gone outs)
    (ha : Advance sys sys' i gone outs) (h : Gathering cfg sys c) : Gathering cfg sys' c where
  opened j hj := hu.views j ▸ h.opened j hj
  silent := hu.silent ha h.silent
  acks := by rw [leader, hu.views, h.acks]
  answered j hj hs := by
    rw [hu.views] at hs
    rw [leader, hu.views]
    exact (h.answered j hj hs).elim .inl (ha.keeps fun x hx hp => hu.answer x hx j hp)
  expected hs := by
    rw [leader, hu.views] at hs ⊢
    exact h.expected hs
  missing := by rw [leader, hu.views]; exact h.missing

theorem Unmoved.short (hu : Unmoved cfg sys c sys' gone outs) (ha : Advance sys sys' i gone outs)
    (h : Short cfg sys c r) : Short cfg sys' c r where
  opened j hj := hu.views j ▸ h.opened j hj
  silent := hu.silent ha h.silent
  reported j hj := hu.views j ▸ h.reported j hj
  short := by rw [leader, hu.views]; exact h.short

theorem Unmoved.flushing (hu : Unmoved cfg sys c sys' gone outs) (ha : Advance sys sys' i gone outs)
    (h : Flushing cfg sys c r) : Flushing cfg sys' c r where
  reported j hj := (h.reported j hj).of_view (hu.views j)
  enough := by rw [leader, hu.views]; exact h.enough
  ordered j hj hne := by
    rw [hu.views]
    exact (h.ordered j hj hne).elim .inl (ha.keeps fun x hx hp => hu.order x hx j hne hp)
  acked j hj hne hc := by
    rw [hu.views] at hc
    rw [leader, hu.views]
    rcases h.acked j hj hne hc with hl | hm | hx
    · exact .inl hl
    · exact .inr (.inl hm)
    · exact or_assoc.mp (ha.keeps (fun x hx hp => hu.ack x hx j hp) hx)
  last := by rw [leader, hu.views]; exact h.last

end unmoved

/-! ### The turns of the client -/

section moves
variable {c i : Nat} {x : ClientView} {gone : Option (String × Bytes)}
    {outs : List (String × Bytes)}
  {r : Nat → Nat} {ctrl : ControlMessage} {body bytes : Bytes}

/-- Replica `i` holds `x` about the client after a step, and no other replica holds anything new. -/
structure Moved (c : Nat) (sys sys' : AggregatorCluster π) (i : Nat) (x : ClientView) : Prop where
  self : sys'.view i c = x
  others : ∀ j ≠ i, sys'.view j c = sys.view j c

theorem Moved.keeps (hm : Moved c sys sys' i x) (hx : (sys.view i c).Keeps x) (j : Nat) :
    (sys.view j c).Keeps (sys'.view j c) := by
  by_cases hj : j = i
  · subst hj
    rwa [hm.self]
  · rw [hm.others j hj]
    exact ⟨fun h => h, fun _ => .inl, .inl⟩

theorem Reported.keeps {j : Nat} (h : sys.Reported c j)
    (hk : (sys.view j c).Keeps (sys'.view j c)) : sys'.Reported c j :=
  h.elim hk.seen fun hc => .inr (hk.closed hc)

/-- The first answer of a replica fixes its count. -/
theorem Reports.report {expected : Option Nat} {count : Nat} (h : Reports cfg sys c r)
    (ha : Advance sys sys' i gone outs)
    (hm : Moved c sys sys' i { sys.view i c with seen := true, expected })
    (hi : i < cfg.aggregationAmount) (hnew : ¬ sys.Reported c i)
    (houts : ∀ x ∈ outs, ∀ ctrl, parseMessage x.2 = .ok (some .processedAnswer, c, ctrl) →
      ctrl.senderId = i ∧ ctrl.processedCount = count) :
    Reports cfg sys' c (Function.update r i count) := by
  have hkeeps : ∀ j, sys.Reported c j → sys'.Reported c j := fun j hj =>
    hj.keeps (hm.keeps ⟨fun h => h, fun _ => .inl, fun _ => .inl rfl⟩ j)
  have hold : ∀ {j : Nat}, sys.Reported c j → Function.update r i count j = r j := by
    intro j hj
    refine Function.update_of_ne ?_ _ _
    rintro rfl
    exact hnew hj
  have hleader : (sys'.leader c).responders = (sys.leader c).responders ∧
      (sys'.leader c).counted = (sys.leader c).counted := by
    by_cases hl : aggregatorLeaderId = i
    · rw [leader, leader, hl, hm.self]
      exact ⟨rfl, rfl⟩
    · rw [leader, hm.others _ hl]
      exact ⟨rfl, rfl⟩
  refine ⟨fun y hy ctrl hp => ?_, fun j hj => ?_, ?_⟩
  · rcases ha.known y hy with hy | hy
    · obtain ⟨hlt, hr, hrep⟩ := h.answers y hy ctrl hp
      exact ⟨hlt, hr.trans (hold hrep).symm, hkeeps _ hrep⟩
    · obtain ⟨hs, hc⟩ := houts y hy ctrl hp
      rw [hs, Function.update_self]
      exact ⟨hi, hc, .inl (by rw [hm.self])⟩
  · rw [hleader.1] at hj
    exact ⟨(h.responders j hj).1, hkeeps j (h.responders j hj).2⟩
  · rw [hleader.1, hleader.2, h.counted]
    exact Finset.sum_congr rfl fun j hj => (hold (h.responders j hj).2).symm

/-- An answer that is counted. -/
theorem Reports.collect (h : Reports cfg sys c r) (ha : Advance sys sys' aggregatorLeaderId gone [])
    (hm : Moved c sys sys' aggregatorLeaderId { sys.leader c with
      responders := insert ctrl.senderId (sys.leader c).responders
      counted := (sys.leader c).counted + ctrl.processedCount })
    (hnew : ctrl.senderId ∉ (sys.leader c).responders)
    (hans : ctrl.senderId < cfg.aggregationAmount ∧ ctrl.processedCount = r ctrl.senderId ∧
      sys.Reported c ctrl.senderId) : Reports cfg sys' c r := by
  have hkeeps : ∀ j, sys.Reported c j → sys'.Reported c j := fun j hj =>
    hj.keeps (hm.keeps ⟨fun h => h, fun _ => .inl, .inl⟩ j)
  refine ⟨fun y hy ctrl' hp => ?_, fun j hj => ?_, ?_⟩
  · obtain ⟨hlt, hr, hrep⟩ := h.answers y ((ha.known y hy).resolve_right nofun) ctrl' hp
    exact ⟨hlt, hr, hkeeps _ hrep⟩
  · rw [leader, hm.self] at hj
    rcases Finset.mem_insert.mp hj with rfl | hj
    · exact ⟨hans.1, hkeeps _ hans.2.2⟩
    · exact ⟨(h.responders j hj).1, hkeeps j (h.responders j hj).2⟩
  · rw [leader, hm.self]
    dsimp only
    rw [Finset.sum_insert hnew, h.counted, hans.2.1, Nat.add_comm]

/-- A round that ends has counted every replica. -/
theorem Reports.total (h : Reports cfg sys c r)
    (hnew : ctrl.senderId ∉ (sys.leader c).responders)
    (hans : ctrl.senderId < cfg.aggregationAmount ∧ ctrl.processedCount = r ctrl.senderId ∧
      sys.Reported c ctrl.senderId)
    (hall : cfg.aggregationAmount ≤ (insert ctrl.senderId (sys.leader c).responders).card) :
    (∀ j < cfg.aggregationAmount, sys.Reported c j) ∧
    (sys.leader c).counted + ctrl.processedCount = ∑ j ∈ Finset.range cfg.aggregationAmount,
    r j := by
  have hsub : insert ctrl.senderId (sys.leader c).responders ⊆
      Finset.range cfg.aggregationAmount := by
    refine Finset.insert_subset (Finset.mem_range.mpr hans.1) fun j hj => ?_
    exact Finset.mem_range.mpr (h.responders j hj).1
  have heq := Finset.eq_of_subset_of_card_le hsub (by rwa [Finset.card_range])
  refine ⟨fun j hj => ?_, ?_⟩
  · have hmem := heq ▸ Finset.mem_range.mpr hj
    rcases Finset.mem_insert.mp hmem with rfl | hmem
    · exact hans.2.2
    · exact (h.responders j hmem).2
  · rw [← heq, Finset.sum_insert hnew, h.counted, hans.2.1, Nat.add_comm]

/-- The first answer of a replica, in the first round. -/
theorem Gathering.report (h : Gathering cfg sys c) (ha : Advance sys sys' i none outs)
    {expected : Nat} (hm : Moved c sys sys' i { sys.view i c with
      seen := true
      expected := if i = aggregatorLeaderId then some expected else (sys.view i c).expected })
    (houts : ∀ x ∈ outs, IsAnswer cfg c i x) (hne : outs ≠ []) : Gathering cfg sys' c := by
  have hleader : (sys'.leader c).responders = (sys.leader c).responders ∧
      (sys'.leader c).acks = (sys.leader c).acks := by
    by_cases hl : aggregatorLeaderId = i
    · rw [leader, leader, hl, hm.self]
      exact ⟨rfl, rfl⟩
    · rw [leader, hm.others _ hl]
      exact ⟨rfl, rfl⟩
  refine ⟨fun j hj => ?_, h.silent.step ha fun x hx msgType ctrl hp => ?_, ?_, fun j hj hs => ?_,
    fun hs => ?_, ?_⟩
  · by_cases hji : j = i
    · rw [hji, hm.self]
      exact h.opened i (hji ▸ hj)
    · rw [hm.others j hji]
      exact h.opened j hj
  · obtain ⟨-, ctrl', hp', -⟩ := houts x hx
    cases hp.symm.trans hp'
    exact ⟨nofun, nofun⟩
  · rw [hleader.2, h.acks]
  · rw [hleader.1]
    by_cases hji : j = i
    · obtain ⟨x, hx⟩ := List.exists_mem_of_ne_nil outs hne
      exact .inr ⟨x, ha.fresh x hx, hji ▸ houts x hx⟩
    · rw [hm.others j hji] at hs
      rcases h.answered j hj hs with hr | ⟨x, hx, hp⟩
      · exact .inl hr
      · exact .inr ⟨x, ha.stays x hx nofun, hp⟩
  · by_cases hl : aggregatorLeaderId = i
    · rw [leader, hl, hm.self]
      dsimp only
      rw [if_pos hl.symm]
      exact nofun
    · rw [leader, hm.others _ hl] at hs ⊢
      exact h.expected hs
  · rw [hleader.1]
    exact h.missing

/-- An answer of the first round that does not end it. -/
theorem Gathering.collect (h : Gathering cfg sys c)
    (ha : Advance sys sys' aggregatorLeaderId (some (cfg.leaderQueue, body)) [])
    (hm : Moved c sys sys' aggregatorLeaderId { sys.leader c with
      responders := insert ctrl.senderId (sys.leader c).responders
      counted := (sys.leader c).counted + ctrl.processedCount })
    (hp : parseMessage body = .ok (some .processedAnswer, c, ctrl))
    (hlt : (insert ctrl.senderId (sys.leader c).responders).card < cfg.aggregationAmount) :
    Gathering cfg sys' c := by
  have hviews : ∀ j, (sys'.view j c).closed = (sys.view j c).closed ∧
      (sys'.view j c).seen = (sys.view j c).seen := by
    intro j
    by_cases hj : j = aggregatorLeaderId
    · rw [hj, hm.self]
      exact ⟨rfl, rfl⟩
    · rw [hm.others j hj]
      exact ⟨rfl, rfl⟩
  refine ⟨fun j hj => (hviews j).1.trans (h.opened j hj), h.silent.step ha nofun, ?_,
    fun j hj hs => ?_, fun hs => ?_, ?_⟩
  · rw [leader, hm.self]
    exact h.acks
  · rw [(hviews j).2] at hs
    rw [leader, hm.self]
    dsimp only
    rcases h.answered j hj hs with hr | hx
    · exact .inl (Finset.mem_insert_of_mem hr)
    · refine ha.keeps (fun y hy hans => ?_) hx
      -- the answer that is taken is the one that is counted
      obtain ⟨-, ctrl', hp', rfl⟩ := hans
      obtain rfl := Option.mem_some_iff.mp hy
      cases hp.symm.trans hp'
      exact Finset.mem_insert_self _ _
  · rw [leader, hm.self]
    rw [leader, (hviews _).2] at hs
    exact h.expected hs
  · rw [leader, hm.self]
    exact hlt

/-- The round that counts enough. -/
theorem Gathering.flushing (h : Gathering cfg sys c) (hN : 2 ≤ cfg.aggregationAmount)
    {expected : Nat}
    (ha : Advance sys sys' aggregatorLeaderId gone (broadcastSends cfg.coordinator bytes))
    (hm : Moved c sys sys' aggregatorLeaderId { sys.leader c with responders := ∅, counted := 0 })
    (hreported : ∀ j < cfg.aggregationAmount, sys'.Reported c j)
    (hexp : (sys.leader c).expected = some expected)
    (henough : expected ≤ ∑ j ∈ Finset.range cfg.aggregationAmount, r j)
    (hp : parseMessage bytes = .ok (some .flushOrder, c, ctrl)) : Flushing cfg sys' c r := by
  have hclosed : ∀ j < cfg.aggregationAmount, (sys'.view j c).closed = false := by
    intro j hj
    by_cases hji : j = aggregatorLeaderId
    · subst hji
      rw [hm.self]
      exact h.opened _ hj
    · rw [hm.others j hji]
      exact h.opened j hj
  refine ⟨hreported, fun e he => ?_, fun j hj hne => .inr ?_, fun j hj hne hc => ?_, fun _ => ?_⟩
  · rw [leader, hm.self] at he
    cases hexp.symm.trans he
    exact henough
  · refine ⟨(cfg.coordinator.controlQueueFor j, bytes), ha.fresh _ ?_, rfl, ctrl, hp⟩
    exact List.mem_map.mpr ⟨_, List.mem_map.mpr ⟨j, List.mem_range.mpr hj, rfl⟩, rfl⟩
  · rw [hclosed j hj] at hc
    cases hc
  · rw [leader, hm.self]
    dsimp only
    rw [h.acks]
    exact Nat.sub_pos_of_lt hN

/-- The round that falls short. -/
theorem Short.of_round (hopened : ∀ j < cfg.aggregationAmount, (sys.view j c).closed = false)
    (hsilent : sys.Silent c) {expected : Nat}
    (ha : Advance sys sys' aggregatorLeaderId gone (broadcastSends cfg.coordinator bytes))
    (hm : Moved c sys sys' aggregatorLeaderId { sys.leader c with responders := ∅, counted := 0 })
    (hreported : ∀ j < cfg.aggregationAmount, sys'.Reported c j)
    (hexp : (sys.leader c).expected = some expected)
    (hshort : ∑ j ∈ Finset.range cfg.aggregationAmount, r j < expected)
    (hp : parseMessage bytes = .ok (some .processedRequest, c, ctrl)) : Short cfg sys' c r := by
  have hclosed : ∀ j < cfg.aggregationAmount, (sys'.view j c).closed = false := by
    intro j hj
    by_cases hji : j = aggregatorLeaderId
    · subst hji
      rw [hm.self]
      exact hopened _ hj
    · rw [hm.others j hji]
      exact hopened j hj
  refine ⟨hclosed, hsilent.step ha fun x hx msgType ctrl' hp' => ?_, fun j hj => ?_, ?_⟩
  · obtain ⟨queueName, -, rfl⟩ := List.mem_map.mp hx
    cases hp.symm.trans hp'
    exact ⟨nofun, nofun⟩
  · refine (hreported j hj).resolve_right ?_
    rw [hclosed j hj]
    exact nofun
  · rw [leader, hm.self]
    exact ⟨expected, hexp, hshort⟩

/-- An answer after a round that fell short. -/
theorem Short.collect (h : Short cfg sys c r) (ha : Advance sys sys' aggregatorLeaderId gone [])
    (hm : Moved c sys sys' aggregatorLeaderId { sys.leader c with
      responders := insert ctrl.senderId (sys.leader c).responders
      counted := (sys.leader c).counted + ctrl.processedCount }) : Short cfg sys' c r := by
  have hviews : ∀ j, (sys'.view j c).closed = (sys.view j c).closed ∧
      (sys'.view j c).seen = (sys.view j c).seen := by
    intro j
    by_cases hj : j = aggregatorLeaderId
    · rw [hj, hm.self]
      exact ⟨rfl, rfl⟩
    · rw [hm.others j hj]
      exact ⟨rfl, rfl⟩
  refine ⟨fun j hj => (hviews j).1.trans (h.opened j hj), h.silent.step ha nofun,
    fun j hj => (hviews j).2.trans (h.reported j hj), ?_⟩
  rw [leader, hm.self]
  exact h.short

/-- A message of the flush moves on: the orders and acks that it leaves are enough for every
replica. -/
theorem Flushing.step (h : Flushing cfg sys c r) (ha : Advance sys sys' i gone outs)
    (hk : ∀ j, (sys.view j c).Keeps (sys'.view j c))
    (hexp : ∀ expected, (sys'.leader c).expected = some expected →
      (sys.leader c).expected = some expected)
    (horder : ∀ x ∈ gone, ∀ j, IsOrder cfg c j x → j ≠ aggregatorLeaderId →
      (sys'.view j c).closed = true)
    (hack : ∀ x ∈ gone, ∀ j, IsAck cfg c j x →
      (sys'.leader c).closed = true ∨ j ∈ (sys'.leader c).acks)
    (hnew : ∀ j < cfg.aggregationAmount, (sys.view j c).closed = false →
      (sys'.view j c).closed = true →
      j = aggregatorLeaderId ∨ ∃ x ∈ outs, IsAck cfg c j x)
    (hlast : (sys'.leader c).closed = false →
      (sys'.leader c).acks.card < cfg.aggregationAmount - 1) : Flushing cfg sys' c r := by
  refine ⟨fun j hj => (h.reported j hj).keeps (hk j), fun e he => h.enough e (hexp e he),
    fun j hj hne => ?_, fun j hj hne hc => ?_, hlast⟩
  · rcases h.ordered j hj hne with hc | hx
    · exact .inl ((hk j).closed hc)
    · exact ha.keeps (fun x hx hp => horder x hx j hp hne) hx
  · by_cases hold : (sys.view j c).closed = true
    · rcases h.acked j hj hne hold with hl | hm | hx
      · exact .inl ((hk _).closed hl)
      · exact ((hk _).acks j hm).elim (fun hm => .inr (.inl hm)) .inl
      · exact or_assoc.mp (ha.keeps (fun x hx hp => hack x hx j hp) hx)
    · rcases hnew j hj (Bool.eq_false_iff.mpr hold) hc with hl | ⟨x, hx, hp⟩
      · exact absurd hl hne
      · exact .inr (.inr ⟨x, ha.fresh x hx, hp⟩)

end moves

/-! ### The steps of the cluster -/

section steps
variable {c : Nat} {message : WorkerDelivery} {outs : List (String × Bytes)} {r : Nat → Nat}

theorem controlQueueFor_ne_responseQueueFor (i j : Nat) :
    cfg.coordinator.controlQueueFor i ≠ cfg.coordinator.responseQueueFor j :=
  cfg.coordinator.controlQueueFor_ne_responseQueueFor rfl rfl i j

/-- A result is neither an answer nor part of a flush. -/
theorem type_of_isResult {x : String × Bytes} (h : IsResult x) {msgType : MessageType}
    {ctrl : ControlMessage} (hp : parseMessage x.2 = .ok (some msgType, c, ctrl)) :
    msgType ≠ .processedAnswer ∧ msgType ≠ .flushOrder ∧ msgType ≠ .flushAck := by
  have hfirst := first_of_parseMessage hp
  rcases h with h | h
  · cases MessageType.toNat_injective (hfirst.symm.trans h)
    exact ⟨nofun, nofun, nofun⟩
  · cases MessageType.toNat_injective (hfirst.symm.trans h)
    exact ⟨nofun, nofun, nofun⟩

/-- Responses are taken by the leader. -/
theorem Stepped.leads {body : Bytes} (st : Stepped cfg sys sys' l (.response body) outs) :
    l.replica = aggregatorLeaderId := st.expected

theorem Stepped.known {x : String × Bytes} (st : Stepped cfg sys sys' l message outs)
    (hx : x ∈ place cfg l.replica message) : sys.Known x := .inl (st.queued x hx)

theorem Stepped.known_response {body : Bytes} (st : Stepped cfg sys sys' l (.response body) outs) :
    sys.Known (cfg.coordinator.responseQueueFor l.replica, body) := st.known rfl

theorem Stepped.known_control {body : Bytes} (st : Stepped cfg sys sys' l (.control body) outs) :
    sys.Known (cfg.coordinator.controlQueueFor l.replica, body) := st.known rfl

theorem Stepped.moved {x : ClientView} (st : Stepped cfg sys sys' l message outs)
    (hv : sys'.view l.replica = Function.update (sys.view l.replica) c x) :
    Moved c sys sys' l.replica x where
  self := by rw [hv, Function.update_self]
  others j hj := by rw [st.advance.others j hj]

/-- A message that has nothing left to do. -/
theorem Stepped.unmoved_idle (st : Stepped cfg sys sys' l message [])
    (hv : sys'.view l.replica = sys.view l.replica)
    (habs : (cfg.withId l.replica).Absorbed (sys.view l.replica) message) :
    Unmoved cfg sys c sys' (place cfg l.replica message) [] where
  views j := by
    by_cases hj : j = l.replica
    · rw [hj, hv]
    · rw [st.advance.others j hj]
  outs := nofun
  answer x hx j hp := by
    obtain ⟨hqueue, ctrl, hparse, rfl⟩ := hp
    cases message with
    | input body => cases hx
    | control body =>
      obtain rfl := Option.mem_some_iff.mp hx
      exact absurd hqueue (controlQueueFor_ne_responseQueueFor _ _)
    | response body =>
      obtain rfl := Option.mem_some_iff.mp hx
      have hresp := habs.1 c ctrl hparse
      rwa [st.leads] at hresp
  order x hx j hne hp := by
    obtain ⟨hqueue, ctrl, hparse⟩ := hp
    cases message with
    | input body => cases hx
    | control body =>
      obtain rfl := Option.mem_some_iff.mp hx
      have hij : l.replica = j := CoordinatorConfig.controlQueueFor_injective _ hqueue
      rcases habs c ctrl hparse with hid | hc
      · exact absurd (hij.symm.trans hid) hne
      · exact hij ▸ hc
    | response body =>
      obtain rfl := Option.mem_some_iff.mp hx
      exact absurd hqueue.symm (controlQueueFor_ne_responseQueueFor _ _)
  ack x hx j hp := by
    obtain ⟨hqueue, ctrl, hparse, rfl⟩ := hp
    cases message with
    | input body => cases hx
    | control body =>
      obtain rfl := Option.mem_some_iff.mp hx
      exact absurd hqueue (controlQueueFor_ne_responseQueueFor _ _)
    | response body =>
      obtain rfl := Option.mem_some_iff.mp hx
      have hacks := habs.2 c ctrl hparse
      rwa [st.leads] at hacks

/-- The message belongs to a client. -/
def About (c : Nat) : WorkerDelivery → Prop
  | .input _ => True
  | .control body | .response body =>
    ∃ msgType ctrl, parseMessage body = .ok (some msgType, c, ctrl)

/-- A message of another client. -/
theorem Stepped.unmoved_elsewhere {c' : Nat} {x : ClientView}
    (st : Stepped cfg sys sys' l message outs)
    (hne : c' ≠ c) (hv : sys'.view l.replica = Function.update (sys.view l.replica) c' x)
    (hmessage : About c' message)
    (houts : ∀ x ∈ outs, (∃ msgType ctrl, parseMessage x.2 = .ok (some msgType, c', ctrl)) ∨
      IsResult x) :
    Unmoved cfg sys c sys' (place cfg l.replica message) outs := by
  have hgone : ∀ x ∈ place cfg l.replica message, ∀ msgType ctrl,
      parseMessage x.2 ≠ .ok (some msgType, c, ctrl) := by
    intro x hx msgType ctrl hp
    cases message with
    | input body => cases hx
    | control body | response body =>
      obtain rfl := Option.mem_some_iff.mp hx
      obtain ⟨msgType', ctrl', hp'⟩ := hmessage
      cases hp.symm.trans hp'
      exact hne rfl
  refine ⟨fun j => ?_, fun x hx msgType ctrl hp => ?_, fun x hx j hp => ?_, fun x hx j _ hp => ?_,
    fun x hx j hp => ?_⟩
  · by_cases hj : j = l.replica
    · rw [hj, hv, Function.update_of_ne hne.symm]
    · rw [st.advance.others j hj]
  · rcases houts x hx with ⟨msgType', ctrl', hp'⟩ | hr
    · cases hp.symm.trans hp'
      exact absurd rfl hne
    · exact type_of_isResult hr hp
  · obtain ⟨-, ctrl, hparse, -⟩ := hp
    exact absurd hparse (hgone x hx _ _)
  · obtain ⟨-, ctrl, hparse⟩ := hp
    exact absurd hparse (hgone x hx _ _)
  · obtain ⟨-, ctrl, hparse, -⟩ := hp
    exact absurd hparse (hgone x hx _ _)

variable (cfg sys sys' l c) in
/-- A step that means something to the client. -/
inductive Move : WorkerDelivery → List (String × Bytes) → Prop
  | report {body bytes : Bytes} {expected count : Nat}
      (hopen : (sys.view l.replica c).closed = false) (hseen : (sys.view l.replica c).seen = false)
      (hm : Moved c sys sys' l.replica { sys.view l.replica c with
        seen := true
        expected := if l.replica = aggregatorLeaderId then some expected
          else (sys.view l.replica c).expected })
      (hp : parseMessage bytes =
        .ok (some .processedAnswer, c,
          (buildAnswer (cfg.withId l.replica).coordinator c count 0).ctrl)) :
      Move (.input body) [(cfg.leaderQueue, bytes)]
  | collect {body : Bytes} {ctrl : ControlMessage} (hl : l.replica = aggregatorLeaderId)
      (hp : parseMessage body = .ok (some .processedAnswer, c, ctrl))
      (hnew : ctrl.senderId ∉ (sys.leader c).responders)
      (hmore : (sys.leader c).expected = none ∨
        (insert ctrl.senderId (sys.leader c).responders).card < cfg.aggregationAmount)
      (hm : Moved c sys sys' l.replica { sys.leader c with
        responders := insert ctrl.senderId (sys.leader c).responders
        counted := (sys.leader c).counted + ctrl.processedCount }) : Move (.response body) []
  | endRound {body bytes : Bytes} {expected : Nat} {ctrl : ControlMessage}
      (hl : l.replica = aggregatorLeaderId)
      (hp : parseMessage body = .ok (some .processedAnswer, c, ctrl))
      (hnew : ctrl.senderId ∉ (sys.leader c).responders)
      (hexp : (sys.leader c).expected = some expected)
      (hall : cfg.aggregationAmount ≤ (insert ctrl.senderId (sys.leader c).responders).card)
      (hm : Moved c sys sys' l.replica { sys.leader c with responders := ∅, counted := 0 })
      (hb : parseMessage bytes = .ok
        (some (if expected ≤ (sys.leader c).counted + ctrl.processedCount then .flushOrder
          else .processedRequest), c, (roundEnd (cfg.withId l.replica).coordinator c expected
            (decide (expected ≤ (sys.leader c).counted + ctrl.processedCount))).ctrl)) :
      Move (.response body) (broadcastSends cfg.coordinator bytes)
  | flush {body ack : Bytes} {ctrl : ControlMessage} {results : List (String × Bytes)}
      (hl : l.replica ≠ aggregatorLeaderId)
      (hp : parseMessage body = .ok (some .flushOrder, c, ctrl)) (hr : ∀ x ∈ results, IsResult x)
      (hm : Moved c sys sys' l.replica { sys.view l.replica c with closed := true, seen := false })
      (hb : parseMessage ack =
        .ok (some .flushAck, c, (buildFlushAck (cfg.withId l.replica).coordinator c 0).ctrl)) :
      Move (.control body) (results ++ [(cfg.leaderQueue, ack)])
  | ackMissing {body : Bytes} {ctrl : ControlMessage} (hl : l.replica = aggregatorLeaderId)
      (hp : parseMessage body = .ok (some .flushAck, c, ctrl))
      (hlt : (insert ctrl.senderId (sys.leader c).acks).card < cfg.aggregationAmount - 1)
      (hm : Moved c sys sys' l.replica { sys.leader c with
        acks := insert ctrl.senderId (sys.leader c).acks }) : Move (.response body) []
  | ackLast {body : Bytes} {ctrl : ControlMessage} {results : List (String × Bytes)}
      (hl : l.replica = aggregatorLeaderId)
      (hp : parseMessage body = .ok (some .flushAck, c, ctrl)) (hr : ∀ x ∈ results, IsResult x)
      (hm : Moved c sys sys' l.replica { sys.leader c with
        closed := true, seen := false, expected := none, acks := ∅ }) :
        Move (.response body) results

theorem Stepped.cases (st : Stepped cfg sys sys' l message outs) :
    Unmoved cfg sys c sys' (place cfg l.replica message) outs ∨
    Move cfg sys sys' l c message outs := by
  have hturn := st.turn
  generalize hv : sys'.view l.replica = v' at hturn
  cases hturn with
  | idle habs => exact .inl (st.unmoved_idle hv habs)
  | @report body bytes c' expected count hopen hseen hb =>
    have hparse := parseMessage_toBytes hb
    by_cases hc : c' = c
    · subst hc
      exact .inr (.report hopen hseen (st.moved hv) hparse)
    · refine .inl (st.unmoved_elsewhere hc hv trivial fun x hx => .inl ?_)
      cases List.mem_singleton.mp hx
      exact ⟨_, _, hparse⟩
  | @collect body c' ctrl hp hnew hmore =>
    by_cases hc : c' = c
    · subst hc
      have hm := st.moved hv
      have hl := st.leads
      rw [hl] at hnew hmore hm
      exact .inr (.collect hl hp hnew hmore (hl.symm ▸ hm))
    · exact .inl (st.unmoved_elsewhere hc hv ⟨_, _, hp⟩ nofun)
  | @endRound body bytes c' expected ctrl hp hnew hexp hall hb =>
    have hparse := parseMessage_toBytes hb
    by_cases hc : c' = c
    · subst hc
      have hm := st.moved hv
      have hl := st.leads
      rw [hl] at hnew hexp hall hm
      refine .inr (.endRound hl hp hnew hexp hall (hl.symm ▸ hm) ?_)
      rw [hparse, hl]
      simp [roundEnd]
    · refine .inl (st.unmoved_elsewhere hc hv ⟨_, _, hp⟩ fun x hx => .inl ?_)
      obtain ⟨queueName, -, rfl⟩ := List.mem_map.mp hx
      exact ⟨_, _, hparse⟩
  | @flush body ack c' ctrl results hp hid hopen hr hb =>
    have hparse := parseMessage_toBytes hb
    by_cases hc : c' = c
    · subst hc
      exact .inr (.flush hid hp hr (st.moved hv) hparse)
    · refine .inl (st.unmoved_elsewhere hc hv ⟨_, _, hp⟩ fun x hx => ?_)
      rcases List.mem_append.mp hx with hx | hx
      · exact .inr (hr x hx)
      · cases List.mem_singleton.mp hx
        exact .inl ⟨_, _, hparse⟩
  | @ackMissing body c' ctrl hp hopen hlt =>
    by_cases hc : c' = c
    · subst hc
      have hm := st.moved hv
      have hl := st.leads
      rw [hl] at hlt hm
      exact .inr (.ackMissing hl hp hlt (hl.symm ▸ hm))
    · exact .inl (st.unmoved_elsewhere hc hv ⟨_, _, hp⟩ nofun)
  | @ackLast body c' ctrl results hp hopen hr =>
    by_cases hc : c' = c
    · subst hc
      have hm := st.moved hv
      have hl := st.leads
      rw [hl] at hm
      exact .inr (.ackLast hl hp hr (hl.symm ▸ hm))
    · exact .inl (st.unmoved_elsewhere hc hv ⟨_, _, hp⟩ fun x hx => .inr (hr x hx))

/-- No output of a flush is an answer. -/
theorem not_answer_of_flush {ack : Bytes} {results : List (String × Bytes)} {ctrl : ControlMessage}
    (hr : ∀ x ∈ results, IsResult x) (hb : parseMessage ack = .ok (some .flushAck, c, ctrl)) :
    ∀ x ∈ results ++ [(cfg.leaderQueue, ack)], ∀ ctrl,
      parseMessage x.2 ≠ .ok (some .processedAnswer, c, ctrl) := by
  intro x hx ctrl' hp
  rcases List.mem_append.mp hx with hx | hx
  · exact (type_of_isResult (hr x hx) hp).1 rfl
  · cases List.mem_singleton.mp hx
    cases hb.symm.trans hp

/-- The count of a replica that has answered stays what it is. -/
theorem Move.reports (hmv : Move cfg sys sys' l c message outs)
    (st : Stepped cfg sys sys' l message outs)
    (hi : l.replica < cfg.aggregationAmount) (h : Reports cfg sys c r) :
    ∃ r', Reports cfg sys' c r' ∧ ∀ j, sys.Reported c j → r' j = r j := by
  cases hmv with
  | @report body bytes expected count hopen hseen hm hp =>
    have hnew : ¬ sys.Reported c l.replica := by
      rintro (hs | hc)
      · rw [hseen] at hs
        cases hs
      · rw [hopen] at hc
        cases hc
    refine ⟨Function.update r l.replica count, h.report st.advance hm hi hnew ?_, fun j hj => ?_⟩
    · intro x hx ctrl hp'
      cases List.mem_singleton.mp hx
      cases hp.symm.trans hp'
      exact ⟨rfl, rfl⟩
    · refine Function.update_of_ne ?_ _ _
      rintro rfl
      exact hnew hj
  | @collect body ctrl hl hp hnew hmore hm =>
    have hadv := st.advance
    rw [hl] at hadv hm
    exact ⟨r, h.collect hadv hm hnew (h.answers _ st.known_response ctrl hp), fun _ _ => rfl⟩
  | @endRound body bytes expected ctrl hl hp hnew hexp hall hm hb =>
    rw [hl] at hm
    refine ⟨r, ⟨fun x hx ctrl' hp' => ?_, fun j hj => ?_, ?_⟩, fun _ _ => rfl⟩
    · rcases st.advance.known x hx with hx | hx
      · obtain ⟨hlt, hr, hrep⟩ := h.answers x hx ctrl' hp'
        exact ⟨hlt, hr, hrep.keeps (hm.keeps ⟨fun h => h, fun _ => .inl, .inl⟩ _)⟩
      · obtain ⟨queueName, -, rfl⟩ := List.mem_map.mp hx
        have htype := hb.symm.trans hp'
        split at htype <;> cases htype
    · rw [leader, hm.self] at hj
      cases hj
    · rw [leader, hm.self]
      rfl
  | @flush body ack ctrl results hl hp hr hm hb =>
    refine ⟨r, h.step st.advance (not_answer_of_flush hr hb) (fun j hj => hj.keeps (hm.keeps
      ⟨fun _ => rfl, fun _ => .inl, fun _ => .inr rfl⟩ j)) ?_ ?_, fun _ _ => rfl⟩
    · rw [leader, hm.others _ hl.symm]
    · rw [leader, hm.others _ hl.symm]
  | @ackMissing body ctrl hl hp hlt hm =>
    rw [hl] at hm
    refine ⟨r, h.step st.advance nofun (fun j hj => hj.keeps (hm.keeps
      ⟨fun h => h, fun _ hj => .inl (Finset.mem_insert_of_mem hj), .inl⟩ j)) ?_ ?_, fun _ _ => rfl⟩
    · rw [leader, hm.self]
    · rw [leader, hm.self]
  | @ackLast body ctrl results hl hp hr hm =>
    rw [hl] at hm
    refine ⟨r, h.step st.advance (fun x hx ctrl' hp' => (type_of_isResult (hr x hx) hp').1 rfl)
      (fun j hj => hj.keeps (hm.keeps ⟨fun _ => rfl, fun _ _ => .inr rfl, fun _ => .inr rfl⟩ j)) ?_
        ?_,
      fun _ _ => rfl⟩
    · rw [leader, hm.self]
    · rw [leader, hm.self]

variable (cfg) in
/-- The answer that is delivered ends a round of the client with too few messages counted. -/
def FallsShort (sys : AggregatorCluster π) (c : Nat) (l : AggregatorAct) : Prop :=
  match l.label with
  | .deliver (.response body) _ =>
    match parseMessage body with
    | .ok (some .processedAnswer, clientId, ctrl) =>
      clientId = c ∧ ctrl.senderId ∉ (sys.leader c).responders ∧
      cfg.aggregationAmount ≤ (insert ctrl.senderId (sys.leader c).responders).card ∧
      ∃ expected ∈ (sys.leader c).expected, (sys.leader c).counted + ctrl.processedCount < expected
    | _ => False
  | _ => False

instance (sys : AggregatorCluster π) (c : Nat) (l : AggregatorAct) :
    Decidable (FallsShort cfg sys c l) := by
  unfold FallsShort
  split
  · split <;> infer_instance
  · infer_instance

theorem fallsShort_iff : FallsShort cfg sys c l ↔ ∃ body write ctrl expected,
    l.label = .deliver (.response body) write ∧
    parseMessage body = .ok (some .processedAnswer, c, ctrl) ∧
    ctrl.senderId ∉ (sys.leader c).responders ∧ (sys.leader c).expected = some expected ∧
    cfg.aggregationAmount ≤ (insert ctrl.senderId (sys.leader c).responders).card ∧
    (sys.leader c).counted + ctrl.processedCount < expected := by
  unfold FallsShort
  constructor
  · intro h
    split at h
    · next body write hl =>
      split at h
      · next clientId ctrl hp =>
        obtain ⟨rfl, hnew, hall, expected, hexp, hlt⟩ := h
        exact ⟨body, write, ctrl, expected, hl, hp, hnew, hexp, hall, hlt⟩
      · cases h
    · cases h
  · rintro ⟨body, write, ctrl, expected, hl, hp, hnew, hexp, hall, hlt⟩
    rw [hl]
    dsimp only
    rw [hp]
    exact ⟨rfl, hnew, hall, expected, hexp, hlt⟩

/-- A message of a flush is known only when the flush was ordered. -/
theorem Silent.absurd {x : String × Bytes} {msgType : MessageType}
    {ctrl : ControlMessage} {P : Prop}
    (h : sys.Silent c) (hx : sys.Known x) (hp : parseMessage x.2 = .ok (some msgType, c, ctrl))
    (ht : msgType = .flushOrder ∨ msgType = .flushAck) : P := by
  obtain ⟨ho, ha⟩ := h x hx msgType ctrl hp
  exact (ht.elim ho ha).elim

/-- In the first round, a step that does not end it short goes on, or starts the flush. -/
theorem Gathering.next (h : Gathering cfg sys c) (hN : 2 ≤ cfg.aggregationAmount)
    (st : Stepped cfg sys sys' l message outs) (hr : Reports cfg sys c r)
    (hs : ¬ FallsShort cfg sys c l) :
    Gathering cfg sys' c ∨ Flushing cfg sys' c r ∧ ∀ j < cfg.aggregationAmount,
    sys.Reported c j := by
  have hpos : aggregatorLeaderId < cfg.aggregationAmount := Nat.lt_of_lt_of_le (by decide) hN
  rcases st.cases (c := c) with hu | hmv
  · exact .inl (hu.gathering st.advance h)
  · cases hmv with
    | @report body bytes expected count hopen hseen hm hp =>
      refine .inl (h.report st.advance hm (fun x hx => ?_) (List.cons_ne_nil _ _))
      cases List.mem_singleton.mp hx
      exact ⟨rfl, _, hp, rfl⟩
    | @collect body ctrl hl hp hnew hmore hm =>
      have hadv := st.advance
      rw [hl] at hadv hm
      have hans := hr.answers _ st.known_response ctrl hp
      refine .inl (h.collect hadv hm hp (Nat.lt_of_not_le fun hall => ?_))
      -- the answer of the leader came with its EOF
      have hleader := (hr.total hnew hans hall).1 aggregatorLeaderId hpos
      refine h.expected (hleader.resolve_right ?_) (hmore.resolve_right (Nat.not_lt.mpr hall))
      rw [h.opened _ hpos]
      exact nofun
    | @endRound body bytes expected ctrl hl hp hnew hexp hall hm hb =>
      have hadv := st.advance
      rw [hl] at hadv hm
      obtain ⟨hall', hsum⟩ := hr.total hnew (hr.answers _ st.known_response ctrl hp) hall
      have henough : expected ≤ (sys.leader c).counted + ctrl.processedCount := by
        refine Nat.le_of_not_lt fun hlt => hs ?_
        obtain ⟨write, hlabel⟩ := st.label body rfl
        exact fallsShort_iff.mpr ⟨body, write, ctrl, expected, hlabel, hp, hnew, hexp, hall, hlt⟩
      rw [if_pos henough] at hb
      refine .inr ⟨h.flushing hN hadv hm (fun j hj => ?_) hexp (hsum ▸ henough) hb, hall'⟩
      exact (hall' j hj).keeps (hm.keeps ⟨fun h => h, fun _ => .inl, .inl⟩ j)
    | flush hl hp => exact h.silent.absurd st.known_control hp (.inl rfl)
    | ackMissing hl hp => exact h.silent.absurd st.known_response hp (.inr rfl)
    | ackLast hl hp => exact h.silent.absurd st.known_response hp (.inr rfl)

/-- The first round falls short. -/
theorem Gathering.falls (h : Gathering cfg sys c) (st : Stepped cfg sys sys' l message outs)
    (hr : Reports cfg sys c r) (hs : FallsShort cfg sys c l) :
    Short cfg sys' c r ∧ ∀ j < cfg.aggregationAmount, sys.Reported c j := by
  obtain ⟨body, write, ctrl, expected, hlabel, hp, hnew, hexp, hall, hlt⟩ := fallsShort_iff.mp hs
  cases st.delivered _ _ hlabel
  rcases st.cases (c := c) with hu | hmv
  · exact absurd (hu.answer _ rfl ctrl.senderId ⟨by rw [st.leads]; rfl, ctrl, hp, rfl⟩) hnew
  · cases hmv with
    | @collect _ ctrl' hl hp' hnew' hmore hm =>
      cases hp.symm.trans hp'
      rcases hmore with hnone | hmore
      · cases hexp.symm.trans hnone
      · exact absurd hmore (Nat.not_lt.mpr hall)
    | @endRound _ bytes expected' ctrl' hl hp' hnew' hexp' hall' hm hb =>
      cases hp.symm.trans hp'
      cases hexp.symm.trans hexp'
      have hadv := st.advance
      rw [hl] at hadv hm
      obtain ⟨hreported, hsum⟩ := hr.total hnew (hr.answers _ st.known_response ctrl hp) hall
      rw [if_neg (Nat.not_le.mpr hlt)] at hb
      refine ⟨.of_round h.opened h.silent hadv hm (fun j hj => ?_) hexp (hsum ▸ hlt) hb, hreported⟩
      exact (hreported j hj).keeps (hm.keeps ⟨fun h => h, fun _ => .inl, .inl⟩ j)
    | ackMissing hl hp' => cases hp.symm.trans hp'
    | ackLast hl hp' => cases hp.symm.trans hp'

/-- After a round that fell short, every other one does. -/
theorem Short.next (h : Short cfg sys c r) (st : Stepped cfg sys sys' l message outs)
    (hi : l.replica < cfg.aggregationAmount) (hr : Reports cfg sys c r) : Short cfg sys' c r := by
  rcases st.cases (c := c) with hu | hmv
  · exact hu.short st.advance h
  · cases hmv with
    | @report body bytes expected count hopen hseen hm hp =>
      rw [h.reported _ hi] at hseen
      cases hseen
    | @collect body ctrl hl hp hnew hmore hm =>
      have hadv := st.advance
      rw [hl] at hadv hm
      exact h.collect hadv hm
    | @endRound body bytes expected ctrl hl hp hnew hexp hall hm hb =>
      have hadv := st.advance
      rw [hl] at hadv hm
      obtain ⟨hreported, hsum⟩ := hr.total hnew (hr.answers _ st.known_response ctrl hp) hall
      obtain ⟨expected', hexp', hlt⟩ := h.short
      cases hexp.symm.trans hexp'
      rw [if_neg (Nat.not_le.mpr (hsum ▸ hlt))] at hb
      refine .of_round h.opened h.silent hadv hm (fun j hj => ?_) hexp hlt hb
      exact (hreported j hj).keeps (hm.keeps ⟨fun h => h, fun _ => .inl, .inl⟩ j)
    | flush hl hp => exact h.silent.absurd st.known_control hp (.inl rfl)
    | ackMissing hl hp => exact h.silent.absurd st.known_response hp (.inr rfl)
    | ackLast hl hp => exact h.silent.absurd st.known_response hp (.inr rfl)

/-- During the flush no round falls short. -/
theorem Flushing.not_fallsShort (h : Flushing cfg sys c r)
    (st : Stepped cfg sys sys' l message outs)
    (hr : Reports cfg sys c r) : ¬ FallsShort cfg sys c l := by
  intro hs
  obtain ⟨body, write, ctrl, expected, hlabel, hp, hnew, hexp, hall, hlt⟩ := fallsShort_iff.mp hs
  cases st.delivered _ _ hlabel
  obtain ⟨-, hsum⟩ := hr.total hnew (hr.answers _ st.known_response ctrl hp) hall
  exact absurd (hsum ▸ h.enough expected hexp) (Nat.not_le.mpr hlt)

/-- A response of the leader that closes nothing and leaves the acks alone is no part of the
flush. -/
theorem Flushing.next_answer (h : Flushing cfg sys c r) {body : Bytes} {ctrl : ControlMessage}
    {x : ClientView}
    (ha : Advance sys sys' aggregatorLeaderId (some (cfg.leaderQueue, body)) outs)
    (hp : parseMessage body = .ok (some .processedAnswer, c, ctrl))
    (hm : Moved c sys sys' aggregatorLeaderId x) (hclosed : x.closed = (sys.leader c).closed)
    (hseen : x.seen = (sys.leader c).seen) (hacks : x.acks = (sys.leader c).acks)
    (hexp : x.expected = (sys.leader c).expected) : Flushing cfg sys' c r := by
  have hk := hm.keeps ⟨fun h => hclosed.trans h, fun _ h => .inl (hacks.symm ▸ h),
    fun h => .inl (hseen.trans h)⟩
  refine h.step ha hk (fun e he => ?_) (fun y hy j hord _ => ?_) (fun y hy j hack => ?_)
    (fun j hj hopen hc => ?_) fun hopen => ?_
  · rw [leader, hm.self, hexp] at he
    exact he
  · obtain ⟨-, ctrl', hp'⟩ := hord
    obtain rfl := Option.mem_some_iff.mp hy
    cases hp.symm.trans hp'
  · obtain ⟨-, ctrl', hp', -⟩ := hack
    obtain rfl := Option.mem_some_iff.mp hy
    cases hp.symm.trans hp'
  · by_cases hjl : j = aggregatorLeaderId
    · exact .inl hjl
    · rw [hm.others j hjl, hopen] at hc
      cases hc
  · rw [leader, hm.self, hclosed] at hopen
    rw [leader, hm.self, hacks]
    exact h.last hopen

/-- A step of the flush. -/
theorem Flushing.next (h : Flushing cfg sys c r) (st : Stepped cfg sys sys' l message outs)
    (hi : l.replica < cfg.aggregationAmount) : Flushing cfg sys' c r := by
  rcases st.cases (c := c) with hu | hmv
  · exact hu.flushing st.advance h
  · cases hmv with
    | @report body bytes expected count hopen hseen hm hp =>
      rcases h.reported _ hi with hs | hc
      · rw [hseen] at hs
        cases hs
      · rw [hopen] at hc
        cases hc
    | @collect body ctrl hl hp hnew hmore hm =>
      have hadv := st.advance
      rw [hl] at hadv hm
      exact h.next_answer hadv hp hm rfl rfl rfl rfl
    | @endRound body bytes expected ctrl hl hp hnew hexp hall hm hb =>
      have hadv := st.advance
      rw [hl] at hadv hm
      exact h.next_answer hadv hp hm rfl rfl rfl rfl
    | @flush body ack ctrl results hl hp hr hm hb =>
      have hleader : sys'.leader c = sys.leader c := hm.others _ hl.symm
      refine h.step st.advance (hm.keeps ⟨fun _ => rfl, fun _ => .inl, fun _ => .inr rfl⟩)
        (fun e he => ?_)
        (fun y hy j hord _ => ?_) (fun y hy j hack => ?_)
        (fun j hj hopen hc => .inr ?_) fun hopen => ?_
      · rwa [hleader] at he
      · obtain rfl := Option.mem_some_iff.mp hy
        obtain rfl : l.replica = j := CoordinatorConfig.controlQueueFor_injective _ hord.1
        rw [hm.self]
      · obtain ⟨-, ctrl', hp', -⟩ := hack
        obtain rfl := Option.mem_some_iff.mp hy
        cases hp.symm.trans hp'
      · by_cases hji : j = l.replica
        · subst hji
          exact ⟨_, List.mem_append_right _ (List.mem_singleton_self _), rfl, _, hb, rfl⟩
        · rw [hm.others j hji, hopen] at hc
          cases hc
      · rw [hleader] at hopen ⊢
        exact h.last hopen
    | @ackMissing body ctrl hl hp hlt hm =>
      have hadv := st.advance
      rw [hl] at hadv hm
      refine h.step hadv
        (hm.keeps ⟨fun h => h, fun _ hj => .inl (Finset.mem_insert_of_mem hj), .inl⟩)
        (fun e he => ?_) (fun y hy j hord _ => ?_) (fun y hy j hack => .inr ?_)
        (fun j hj hopen hc => ?_) fun _ => ?_
      · rw [leader, hm.self] at he
        exact he
      · obtain ⟨-, ctrl', hp'⟩ := hord
        obtain rfl := Option.mem_some_iff.mp hy
        cases hp.symm.trans hp'
      · obtain ⟨-, ctrl', hp', rfl⟩ := hack
        obtain rfl := Option.mem_some_iff.mp hy
        cases hp.symm.trans hp'
        rw [leader, hm.self]
        exact Finset.mem_insert_self _ _
      · by_cases hjl : j = aggregatorLeaderId
        · exact .inl hjl
        · rw [hm.others j hjl, hopen] at hc
          cases hc
      · rw [leader, hm.self]
        exact hlt
    | @ackLast body ctrl results hl hp hr hm =>
      have hadv := st.advance
      rw [hl] at hadv hm
      have hclosed : (sys'.leader c).closed = true := by rw [leader, hm.self]
      refine h.step hadv (hm.keeps ⟨fun _ => rfl, fun _ _ => .inr rfl, fun _ => .inr rfl⟩)
        (fun e he => ?_) (fun y hy j hord _ => ?_) (fun y hy j hack => .inl hclosed)
        (fun j hj hopen hc => ?_) fun hopen => ?_
      · rw [leader, hm.self] at he
        cases he
      · obtain ⟨-, ctrl', hp'⟩ := hord
        obtain rfl := Option.mem_some_iff.mp hy
        cases hp.symm.trans hp'
      · by_cases hjl : j = aggregatorLeaderId
        · exact .inl hjl
        · rw [hm.others j hjl, hopen] at hc
          cases hc
      · rw [hclosed] at hopen
        cases hopen

theorem Reports.next (h : Reports cfg sys c r) (st : Stepped cfg sys sys' l message outs)
    (hi : l.replica < cfg.aggregationAmount) :
    ∃ r', Reports cfg sys' c r' ∧ ∀ j, sys.Reported c j → r' j = r j := by
  rcases st.cases (c := c) with hu | hmv
  · exact ⟨r, hu.reports st.advance h, fun _ _ => rfl⟩
  · exact hmv.reports st hi h

theorem Short.congr {r' : Nat → Nat} (h : Short cfg sys c r)
    (he : ∀ j < cfg.aggregationAmount, r' j = r j) : Short cfg sys c r' where
  opened := h.opened
  silent := h.silent
  reported := h.reported
  short := by
    rw [Finset.sum_congr rfl fun j hj => he j (Finset.mem_range.mp hj)]
    exact h.short

theorem Flushing.congr {r' : Nat → Nat} (h : Flushing cfg sys c r)
    (he : ∀ j < cfg.aggregationAmount, r' j = r j) : Flushing cfg sys c r' where
  reported := h.reported
  enough := by
    rw [Finset.sum_congr rfl fun j hj => he j (Finset.mem_range.mp hj)]
    exact h.enough
  ordered := h.ordered
  acked := h.acked
  last := h.last

/-- A replica that asks for another count sends the request after a round that fell short. -/
theorem Stepped.fallsShort_of_request (st : Stepped cfg sys sys' l message outs)
    {x : String × Bytes} (hx : x ∈ outs) {ctrl : ControlMessage}
    (hp : parseMessage x.2 = .ok (some .processedRequest, c, ctrl)) : FallsShort cfg sys c l := by
  have hresult : ∀ {results : List (String × Bytes)}, (∀ x ∈ results, IsResult x) →
      x ∉ results := by
    intro results hr hx
    have hfirst := first_of_parseMessage hp
    rcases hr x hx with h | h
    · cases MessageType.toNat_injective (hfirst.symm.trans h)
    · cases MessageType.toNat_injective (hfirst.symm.trans h)
  have hturn := st.turn
  generalize sys'.view l.replica = v' at hturn
  cases hturn with
  | idle | collect | ackMissing => cases hx
  | report hopen hseen hb =>
    cases List.mem_singleton.mp hx
    cases hp.symm.trans (parseMessage_toBytes hb)
  | flush hp' hid hopen hr hb =>
    rcases List.mem_append.mp hx with hx | hx
    · exact absurd hx (hresult hr)
    · cases List.mem_singleton.mp hx
      cases hp.symm.trans (parseMessage_toBytes hb)
  | ackLast hp' hopen hr => exact absurd hx (hresult hr)
  | @endRound body bytes c' expected ctrl' hp' hnew hexp hall hb =>
    obtain ⟨queueName, -, rfl⟩ := List.mem_map.mp hx
    have hparse := parseMessage_toBytes hb
    obtain ⟨write, hlabel⟩ := st.label body rfl
    rw [st.leads] at hnew hexp hall hparse
    have hc : c' = c := congrArg (fun t => t.2.1) (Except.ok.inj (hparse.symm.trans hp))
    subst hc
    refine fallsShort_iff.mpr ⟨body, write, ctrl', expected, hlabel, hp', hnew, hexp, hall,
      Nat.lt_of_not_le fun hle => ?_⟩
    rw [decide_eq_true hle] at hparse
    cases hp.symm.trans hparse

end steps

/-! ## The runs -/

section runs
variable {c : Nat}

variable (cfg) in
/-- No round of the client fell short, and nobody was asked for another count. -/
structure InRounds (c : Nat) (sys : AggregatorCluster π) : Prop where
  replicas : ∀ i, (cfg.withId i).ReplicaInv (sys.replicas i)
  rounds : ∃ r, Reports cfg sys c r ∧ (Gathering cfg sys c ∨ Flushing cfg sys c r)

variable (cfg) in
/-- A round of the client fell short. -/
structure HasFallenShort (c : Nat) (sys : AggregatorCluster π) : Prop where
  replicas : ∀ i, (cfg.withId i).ReplicaInv (sys.replicas i)
  rounds : ∃ r, Reports cfg sys c r ∧ Short cfg sys c r

theorem inRounds_init (hN : 2 ≤ cfg.aggregationAmount) : InRounds cfg c (init cfg) where
  replicas i := ⟨sound_init, nofun⟩
  rounds := by
    have hknown : ∀ x, ¬ (init cfg).Known x := by
      rintro x (hx | ⟨i, ⟨m, key, change, outputs, hm, -⟩ | ⟨sends, hs, -⟩⟩)
      · cases hx
      · cases hm
      · cases hs
    refine ⟨fun _ => 0, ⟨fun x hx => absurd hx (hknown x), nofun, rfl⟩,
      .inl ⟨fun _ _ => rfl, fun x hx => absurd hx (hknown x), rfl, nofun, nofun, ?_⟩⟩
    change (∅ : Finset Nat).card < cfg.aggregationAmount
    rw [Finset.card_empty]
    omega

theorem InRounds.step (h : InRounds cfg c sys) (hN : 2 ≤ cfg.aggregationAmount)
    (ha : allowed cfg sys l) (hs : ¬ FallsShort cfg sys c l) (he : exec cfg sys l = some sys') :
    InRounds cfg c sys' := by
  obtain ⟨hreplicas, message, outs, st⟩ := stepped h.replicas hN ha he
  obtain ⟨r, hr, hphase⟩ := h.rounds
  obtain ⟨r', hr', hagree⟩ := hr.next st ha.1
  refine ⟨hreplicas, r', hr', ?_⟩
  rcases hphase with hg | hf
  · rcases hg.next hN st hr hs with hg | ⟨hf, hreported⟩
    · exact .inl hg
    · exact .inr (hf.congr fun j hj => hagree j (hreported j hj))
  · exact .inr ((hf.next st ha.1).congr fun j hj => hagree j (hf.reported j hj))

theorem InRounds.falls (h : InRounds cfg c sys) (hN : 2 ≤ cfg.aggregationAmount)
    (ha : allowed cfg sys l) (hs : FallsShort cfg sys c l) (he : exec cfg sys l = some sys') :
    HasFallenShort cfg c sys' := by
  obtain ⟨hreplicas, message, outs, st⟩ := stepped h.replicas hN ha he
  obtain ⟨r, hr, hphase⟩ := h.rounds
  obtain ⟨r', hr', hagree⟩ := hr.next st ha.1
  refine ⟨hreplicas, r', hr', ?_⟩
  rcases hphase with hg | hf
  · obtain ⟨hshort, hreported⟩ := hg.falls st hr hs
    exact hshort.congr fun j hj => hagree j (hreported j hj)
  · exact absurd hs (hf.not_fallsShort st hr)

theorem HasFallenShort.step (h : HasFallenShort cfg c sys) (hN : 2 ≤ cfg.aggregationAmount)
    (ha : allowed cfg sys l) (he : exec cfg sys l = some sys') : HasFallenShort cfg c sys' := by
  obtain ⟨hreplicas, message, outs, st⟩ := stepped h.replicas hN ha he
  obtain ⟨r, hr, hshort⟩ := h.rounds
  obtain ⟨r', hr', hagree⟩ := hr.next st ha.1
  exact ⟨hreplicas, r', hr', (hshort.next st ha.1 hr).congr fun j hj =>
    hagree j (.inl (hshort.reported j hj))⟩

/-- In every run a client is in its rounds, or a round of it fell short. -/
theorem Run.phase (h : Run cfg sys) (hN : 2 ≤ cfg.aggregationAmount) (c : Nat) :
    InRounds cfg c sys ∨ HasFallenShort cfg c sys := by
  have hstep : ∀ sys l sys', InRounds cfg c sys ∨ HasFallenShort cfg c sys → allowed cfg sys l →
      exec cfg sys l = some sys' → InRounds cfg c sys' ∨ HasFallenShort cfg c sys' := by
    rintro sys l sys' (hi | hi) ha he
    · by_cases hs : FallsShort cfg sys c l
      · exact .inr (hi.falls hN ha hs he)
      · exact .inl (hi.step hN ha hs he)
    · exact .inr (hi.step hN ha he)
  have hinv := fun h₀ => Reachable.invariant h₀ hstep h
  exact hinv (.inl (inRounds_init hN))

variable (cfg) in
/-- A run in which no round of the client falls short. -/
def EnoughRun (c : Nat) (sys : AggregatorCluster π) : Prop :=
  Reachable (exec cfg) (fun sys l => allowed cfg sys l ∧ ¬ FallsShort cfg sys c l) (init cfg) sys

theorem EnoughRun.inRounds (h : EnoughRun cfg c sys) (hN : 2 ≤ cfg.aggregationAmount) :
    InRounds cfg c sys := by
  have hstep : ∀ sys l sys', InRounds cfg c sys → allowed cfg sys l ∧ ¬ FallsShort cfg sys c l →
      exec cfg sys l = some sys' → InRounds cfg c sys' :=
    fun sys l sys' hi ha he => hi.step hN ha.1 ha.2 he
  exact Reachable.invariant (inRounds_init hN) hstep h

/-- Then nobody asks for another count. -/
theorem EnoughRun.unrequested (h : EnoughRun cfg c sys) (hN : 2 ≤ cfg.aggregationAmount)
    {x : String × Bytes} (hx : sys.Known x) {ctrl : ControlMessage} :
    parseMessage x.2 ≠ .ok (some .processedRequest, c, ctrl) := by
  have hstep : ∀ sys l sys', (InRounds cfg c sys ∧ ∀ x, sys.Known x → ∀ ctrl,
        parseMessage x.2 ≠ .ok (some .processedRequest, c, ctrl)) →
      allowed cfg sys l ∧ ¬ FallsShort cfg sys c l → exec cfg sys l = some sys' →
      InRounds cfg c sys' ∧ ∀ x, sys'.Known x → ∀ ctrl,
        parseMessage x.2 ≠ .ok (some .processedRequest, c, ctrl) := by
    rintro sys l sys' ⟨hi, hold⟩ ⟨ha, hs⟩ he
    refine ⟨hi.step hN ha hs he, fun x hx ctrl hp => ?_⟩
    obtain ⟨-, message, outs, st⟩ := stepped hi.replicas hN ha he
    rcases st.advance.known x hx with hx | hx
    · exact hold x hx ctrl hp
    · exact hs (st.fallsShort_of_request hx hp)
  have hinit : ∀ x, (init cfg).Known x → ∀ ctrl,
      parseMessage x.2 ≠ .ok (some .processedRequest, c, ctrl) := by
    rintro x (hx | ⟨i, ⟨m, key, change, outputs, hm, -⟩ | ⟨sends, hs, -⟩⟩)
    · cases hx
    · cases hm
    · cases hs
  have hinv := fun h₀ => Reachable.invariant h₀ hstep h
  exact (hinv ⟨inRounds_init hN, hinit⟩).2 x hx ctrl

variable (cfg sys c) in
/-- Every replica has recorded the upstream EOF of the client. -/
def EofsTaken : Prop :=
  ∀ i < cfg.aggregationAmount, ∃ m key expected count forwarded outputs,
    .recorded (.inputApplied m key
      (.single (.coordinatorUpstreamEof c expected count forwarded)) outputs) ∈
      (sys.replicas i).trace

variable (cfg sys c) in
/-- No message of the client is on a queue of the replicas, or about to be published there. -/
def Quiescent : Prop :=
  ∀ x, sys.OnTheWay x → ∀ msgType ctrl, parseMessage x.2 = .ok (msgType, c, ctrl) →
    x.1 ≠ cfg.leaderQueue ∧ ∀ i < cfg.aggregationAmount, x.1 ≠ cfg.coordinator.controlQueueFor i

theorem InRounds.closed (h : InRounds cfg c sys) (heofs : EofsTaken cfg sys c)
    (hq : Quiescent cfg sys c) : ∀ i < cfg.aggregationAmount, (sys.view i c).closed = true := by
  have hreported : ∀ i < cfg.aggregationAmount, sys.Reported c i := by
    intro i hi
    obtain ⟨m, key, expected, count, forwarded, outputs, hm⟩ := heofs i hi
    refine ((h.replicas i).fits _ ?_).eof m key c expected count forwarded outputs rfl
    rw [← (h.replicas i).sound.records]
    exact List.mem_filterMap.mpr ⟨_, hm, rfl⟩
  have hnoAnswer : ∀ i x, sys.OnTheWay x → ¬ IsAnswer cfg c i x := by
    rintro i x hx ⟨hqueue, ctrl, hp, -⟩
    exact (hq x hx _ ctrl hp).1 hqueue
  have hnoAck : ∀ i x, sys.OnTheWay x → ¬ IsAck cfg c i x := by
    rintro i x hx ⟨hqueue, ctrl, hp, -⟩
    exact (hq x hx _ ctrl hp).1 hqueue
  have hnoOrder : ∀ i < cfg.aggregationAmount, ∀ x, sys.OnTheWay x → ¬ IsOrder cfg c i x := by
    rintro i hi x hx ⟨hqueue, ctrl, hp⟩
    exact (hq x hx _ ctrl hp).2 i hi hqueue
  obtain ⟨r, hr, hg | hf⟩ := h.rounds
  · -- all replicas have answered, so the round would have ended
    have hall : Finset.range cfg.aggregationAmount ⊆ (sys.leader c).responders := by
      intro i hi
      have hi := Finset.mem_range.mp hi
      have hseen : (sys.view i c).seen = true := by
        refine (hreported i hi).resolve_right ?_
        rw [hg.opened i hi]
        exact nofun
      exact (hg.answered i hi hseen).resolve_right fun ⟨x, hx, hp⟩ => hnoAnswer i x hx hp
    have hcard := Finset.card_le_card hall
    rw [Finset.card_range] at hcard
    exact absurd hg.missing (Nat.not_lt.mpr hcard)
  · have hothers : ∀ i < cfg.aggregationAmount, i ≠ aggregatorLeaderId →
        (sys.view i c).closed = true :=
      fun i hi hne => (hf.ordered i hi hne).resolve_right fun ⟨x, hx, hp⟩ => hnoOrder i hi x hx hp
    have hleader : (sys.leader c).closed = true := by
      by_contra hopen
      -- all acks are in, so the last one would have closed the client
      have hall : (Finset.range cfg.aggregationAmount).erase aggregatorLeaderId ⊆
          (sys.leader c).acks := by
        intro i hi
        obtain ⟨hne, hi⟩ := Finset.mem_erase.mp hi
        have hi := Finset.mem_range.mp hi
        rcases hf.acked i hi hne (hothers i hi hne) with hl | hm | ⟨x, hx, hp⟩
        · exact absurd hl hopen
        · exact hm
        · exact absurd hp (hnoAck i x hx)
      have hcard := Finset.card_le_card hall
      have hlast := hf.last (Bool.eq_false_iff.mpr hopen)
      by_cases hpos : aggregatorLeaderId ∈ Finset.range cfg.aggregationAmount
      · rw [Finset.card_erase_of_mem hpos, Finset.card_range] at hcard
        omega
      · rw [Finset.erase_eq_of_notMem hpos, Finset.card_range] at hcard
        omega
    intro i hi
    by_cases hne : i = aggregatorLeaderId
    · exact hne ▸ hleader
    · exact hothers i hi hne

variable (cfg) in
/-- A replica that takes a `PROCESSED_REQUEST` has its current count on the way to the leader. -/
def AnswersRequest (s : State (AggregatorState π) AggregatorChange) (body : Bytes)
    (c : Nat) : Prop :=
  ∃ bytes task, (buildAnswer cfg.coordinator c (s.node.handler.workerState.dataCount c) 0).toBytes =
      .ok bytes ∧
    (deliver cfg.consumer s (.control body) (.ok ⟨⟩)).tasks = s.tasks ++ [task] ∧
    (cfg.leaderQueue, bytes) ∈ task.parcels

theorem not_answersRequest {s : State (AggregatorState π) AggregatorChange} {body : Bytes}
    {ctrl : ControlMessage} (hp : parseMessage body = .ok (some .processedRequest, c, ctrl)) :
    ¬ AnswersRequest cfg s body c := by
  rintro ⟨bytes, task, -, htasks, hmem⟩
  have hreact : cfg.consumer.react s.node.handler.workerState (.control body) =
      .direct s.node.handler.workerState [] := by
    change cfg.handleControl s.node.handler.workerState body = _
    unfold AggregatorConfig.handleControl
    rw [hp]
    rfl
  unfold Consumer.deliver at htasks
  rw [hreact] at htasks
  cases List.append_cancel_left htasks
  cases hmem

variable (cfg sys c) in
/-- The replicas take part in the rounds of a client: a request is answered, and when every replica
has taken the EOF of the client and no message is in flight, the client is closed. -/
structure RetriesServed : Prop where
  answered : ∀ i < cfg.aggregationAmount, ∀ body ctrl,
    (cfg.coordinator.controlQueueFor i, body) ∈ sys.queues →
    parseMessage body = .ok (some .processedRequest, c, ctrl) →
    (∃ j < cfg.aggregationAmount, (sys.view j c).closed = false) →
    AnswersRequest (cfg.withId i) (sys.replicas i) body c
  settled : EofsTaken cfg sys c → Quiescent cfg sys c →
    ∀ i < cfg.aggregationAmount, (sys.view i c).closed = true

/-- **Rounds of the aggregators.** In every run without crashes and failures in which no round of a
client falls short, the replicas serve the rounds of the client, and close it. From the first round
on that falls short, no replica answers a `PROCESSED_REQUEST` and no replica ever closes the
client. -/
theorem retries_served_unless_short (cfg : AggregatorConfig π)
    (hN : 2 ≤ cfg.aggregationAmount) (c : Nat) :
    (∀ sys, EnoughRun cfg c sys → RetriesServed cfg sys c) ∧
    ∀ sys l sys' sys'', Run cfg sys → allowed cfg sys l → FallsShort cfg sys c l →
      exec cfg sys l = some sys' → Reachable (exec cfg) (allowed cfg) sys' sys'' →
      ∀ i < cfg.aggregationAmount, (sys''.view i c).closed = false ∧
        ∀ body ctrl, parseMessage body = .ok (some .processedRequest, c, ctrl) →
          ¬ AnswersRequest (cfg.withId i) (sys''.replicas i) body c := by
  refine ⟨fun sys hrun => ⟨fun i hi body ctrl hq hp _ => ?_, (hrun.inRounds hN).closed⟩,
    fun sys l sys' sys'' hrun ha hs he hlater i hi =>
      ⟨?_, fun body ctrl hp => not_answersRequest hp⟩⟩
  · exact absurd hp (hrun.unrequested hN (.inl hq))
  · have hshort : HasFallenShort cfg c sys' := by
      rcases hrun.phase hN c with hin | hfallen
      · exact hin.falls hN ha hs he
      · exact hfallen.step hN ha he
    have hstep : ∀ sys l sys', HasFallenShort cfg c sys → allowed cfg sys l →
        exec cfg sys l = some sys' → HasFallenShort cfg c sys' :=
      fun sys l sys' h ha he => h.step hN ha he
    have hlast : HasFallenShort cfg c sys'' := Reachable.invariant hshort hstep hlater
    obtain ⟨r, -, hlast⟩ := hlast.rounds
    exact hlast.opened i hi

end runs

/-! ### Two replicas

Client `7` has two partials, at replica 1, and both EOFs bring a total of 2. -/

def aggregatorPair : AggregatorConfig Unit where
  id := 0
  aggregationAmount := 2
  aggregationPrefix := "aggregator_q2"
  outputQueue := "results_q2"
  snapshotInterval := 1000
  sha256 _ := []
  processor := ⟨(), fun _ _ => (), fun _ => .ok []⟩
  changeJson := .ofTable [
    (AggregatorState.dataChange 7 [1], encodeText
      "\x7b\"type\": \"data\", \"client_id\": 7, \"payload\": \"AQ==\"\x7d"),
    (.single (.coordinatorUpstreamEof 7 2 0 0), encodeText ("\x7b\"type\": " ++
      "\"coordinator_upstream_eof\", \"client_id\": 7, \"expected_total\": 2, \"count\": 0, " ++
      "\"forwarded\": 0\x7d")),
    (.single (.coordinatorUpstreamEof 7 2 1 0), encodeText ("\x7b\"type\": " ++
      "\"coordinator_upstream_eof\", \"client_id\": 7, \"expected_total\": 2, \"count\": 1, " ++
      "\"forwarded\": 0\x7d")),
    (.single (.coordinatorUpstreamEof 7 2 2 0), encodeText ("\x7b\"type\": " ++
      "\"coordinator_upstream_eof\", \"client_id\": 7, \"expected_total\": 2, \"count\": 2, " ++
      "\"forwarded\": 0\x7d")),
    (.compound [.coordinatorCleanup 7, .close 7], encodeText ("\x7b\"type\": \"compound\", " ++
      "\"changes\": [\x7b\"type\": \"coordinator_cleanup\", \"client_id\": 7\x7d, " ++
      "\x7b\"type\": \"close\", \"client_id\": 7\x7d]\x7d")),
    (.compound [.coordinatorMsg .flushAck 7 ⟨1, 0, 0⟩ 0 0, .close 7], encodeText (
      "\x7b\"type\": \"compound\", \"changes\": [\x7b\"type\": \"coordinator_msg\", " ++
      "\"msg_type\": 5, \"client_id\": 7, \"sender_id\": 1, \"expected_total\": 0, " ++
      "\"processed_count\": 0, \"count\": 0, \"forwarded\": 0\x7d, " ++
      "\x7b\"type\": \"close\", \"client_id\": 7\x7d]\x7d"))]

/-- A partial of client `7`. -/
def partialBody (seq : Nat) : Bytes :=
  (createAddressedPacket MessageType.data.toNat 7 3 seq [1]).toOption.getD []

/-- The upstream EOF of client `7`. -/
def totalBody : Bytes :=
  ((do
    let payload ← ControlMessage.serialize { senderId := 3, expectedTotal := 2 }
    createAddressedPacket MessageType.eof.toNat 7 3 2 payload).toOption).getD []

def roundBody (msgType : MessageType) (senderId expectedTotal processedCount : Nat) : Bytes :=
  (ControlPacket.toBytes ⟨msgType, 7, ⟨senderId, expectedTotal, processedCount⟩⟩).toOption.getD []

/-- A message that is handled, with its outputs, to its end. -/
def through (replica : Nat) (message : WorkerDelivery) (outputs : Nat) : List AggregatorAct :=
  ⟨replica, .deliver message (.ok ⟨⟩)⟩ :: List.replicate outputs ⟨replica, .publish 0 true⟩ ++
    [⟨replica, .commit 0 (.ok ⟨⟩)⟩, ⟨replica, .ack 0⟩]

/-- A message that is answered outside the log. -/
def aside (replica : Nat) (message : WorkerDelivery) (sends : Nat) : List AggregatorAct :=
  ⟨replica, .deliver message (.ok ⟨⟩)⟩ :: List.replicate sends ⟨replica, .publish 0 true⟩ ++
    [⟨replica, .ack 0⟩]

/-- Both partials come before the EOF. -/
def countedRun : List AggregatorAct :=
  through 1 (.input (partialBody 0)) 0 ++ through 1 (.input (partialBody 1)) 0 ++
  through 0 (.input totalBody) 1 ++ through 1 (.input totalBody) 1 ++
  aside 0 (.response (roundBody .processedAnswer 0 0 0)) 0 ++
  aside 0 (.response (roundBody .processedAnswer 1 0 2)) 2 ++
  [⟨0, .deliver (.control (roundBody .flushOrder 0 0 0)) (.ok ⟨⟩)⟩] ++
  through 1 (.control (roundBody .flushOrder 0 0 0)) 2 ++
  through 0 (.response (roundBody .flushAck 1 0 0)) 1

/-- The second partial was delivered before the EOF, went back to the queue and comes again behind
it. -/
def overtakenRun : List AggregatorAct :=
  through 1 (.input (partialBody 0)) 0 ++
  through 0 (.input totalBody) 1 ++ through 1 (.input totalBody) 1 ++
  aside 0 (.response (roundBody .processedAnswer 0 0 0)) 0 ++
  aside 0 (.response (roundBody .processedAnswer 1 0 1)) 2 ++
  aside 0 (.control (roundBody .processedRequest 0 2 0)) 0 ++
  aside 1 (.control (roundBody .processedRequest 0 2 0)) 0 ++
  through 1 (.input (partialBody 1)) 0

/-- The EOFs are taken, and only results are on a queue. -/
def settledPair (sys : AggregatorCluster Unit) : Bool :=
  (List.range 2).all (fun i =>
    decide ((sys.replicas i).tasks = []) &&
    (sys.replicas i).trace.any fun
      | .recorded (.inputApplied _ _ (.single (.coordinatorUpstreamEof 7 _ _ _)) _) => true
      | _ => false) &&
  sys.queues.all fun x => x.1 == "results_q2"

theorem replicas_of_le (h : Run cfg sys) {i : Nat} (hi : cfg.aggregationAmount ≤ i) :
    sys.replicas i = (init cfg).replicas i := by
  have hstep : ∀ sys l sys', (sys : AggregatorCluster π).replicas i = (init cfg).replicas i →
      allowed cfg sys l → exec cfg sys l = some sys' → sys'.replicas i = (init cfg).replicas i := by
    intro sys l sys' hsame ha he
    unfold exec at he
    split at he
    · cases he
    · cases he
      refine (Function.update_of_ne ?_ _ _).trans hsame
      rintro rfl
      exact absurd ha.1 (Nat.not_lt.mpr hi)
  have hinv := fun h₀ => Reachable.invariant h₀ hstep h
  exact hinv rfl

theorem settled_of_settledPair {sys : AggregatorCluster Unit} (hrun : Run aggregatorPair sys)
    (h : settledPair sys = true) :
    EofsTaken aggregatorPair sys 7 ∧ Quiescent aggregatorPair sys 7 := by
  simp only [settledPair, Bool.and_eq_true, List.all_eq_true, List.mem_range, decide_eq_true_eq,
    List.any_eq_true, beq_iff_eq] at h
  obtain ⟨hreplicas, hqueues⟩ := h
  refine ⟨fun i hi => ?_, fun x hx msgType ctrl _ => ?_⟩
  · obtain ⟨o, ho, hm⟩ := (hreplicas i hi).2
    split at hm
    · exact ⟨_, _, _, _, _, _, ho⟩
    · cases hm
  · have hqueue : x.1 = "results_q2" := by
      rcases hx with hx | ⟨i, task, ht, -⟩
      · exact hqueues x hx
      · by_cases hi : i < 2
        · rw [(hreplicas i hi).1] at ht
          cases ht
        · rw [replicas_of_le hrun (Nat.le_of_not_lt hi)] at ht
          cases ht
    rw [hqueue]
    refine ⟨by decide, fun i hi => ?_⟩
    have hcases : i = 0 ∨ i = 1 := by
      change i < 2 at hi
      omega
    rcases hcases with rfl | rfl <;> decide

set_option maxRecDepth 20000 in
/-- The client is closed by both replicas, since no round fell short. -/
theorem closed_when_counted : ∃ sys, EnoughRun aggregatorPair 7 sys ∧
    ∀ i < 2, (sys.view i 7).closed = true := by
  have hrun : (runAllowed (exec aggregatorPair)
      (fun sys l => allowed aggregatorPair sys l ∧ ¬ FallsShort aggregatorPair sys 7 l)
      (init aggregatorPair) countedRun).any settledPair = true := by
    decide +kernel
  obtain ⟨sys, hsys, hsettled⟩ := (Option.any_eq_true _ _).mp hrun
  have henough : EnoughRun aggregatorPair 7 sys := reachable_of_runAllowed .init hsys
  obtain ⟨heofs, hq⟩ := settled_of_settledPair (henough.mono fun _ _ h => h.1) hsettled
  exact ⟨sys, henough,
    ((retries_served_unless_short aggregatorPair (by decide) 7).1 sys henough).settled heofs hq⟩

set_option maxRecDepth 20000 in
/-- A partial that is counted behind the EOF leaves the client open, with nothing in flight. -/
theorem overtaken_partial_unserved :
    ¬ ∀ (cfg : AggregatorConfig Unit) (sys : AggregatorCluster Unit) (c : Nat),
      2 ≤ cfg.aggregationAmount → Run cfg sys → RetriesServed cfg sys c := by
  intro h
  have hrun : (runAllowed (exec aggregatorPair) (allowed aggregatorPair)
      (init aggregatorPair) overtakenRun).any (fun sys =>
        settledPair sys && !(sys.view 0 7).closed &&
        decide ((sys.replicas 1).node.handler.workerState.dataCount 7 = 2)) = true := by
    decide +kernel
  obtain ⟨sys, hsys, hsettled⟩ := (Option.any_eq_true _ _).mp hrun
  obtain ⟨hopen, -⟩ := Bool.and_eq_true_iff.mp hsettled
  obtain ⟨hsettled, hopen⟩ := Bool.and_eq_true_iff.mp hopen
  have hreach : Run aggregatorPair sys := reachable_of_runAllowed .init hsys
  obtain ⟨heofs, hq⟩ := settled_of_settledPair hreach hsettled
  rw [(h aggregatorPair sys 7 (by decide) hreach).settled heofs hq 0 (by decide)] at hopen
  cases hopen

end AggregatorCluster

end MoneyLaundering
