import Mathlib.Data.Prod.Lex
import Mathlib.Order.Bounds.Basic
import Mathlib.Order.MinMax
import Mathlib.Order.WithBot
import MoneyLaundering.Monitor.Cluster

/-!
# Announcements in any order

A handler that follows someone ranks as the announcement of its leader, and one that follows no one
ranks below every announcement of its epoch. In this order a handler ignores exactly the
announcements below it, and otherwise takes their rank: handling announcements is taking a maximum,
which depends neither on their order nor on how often each of them arrives.
-/

namespace MoneyLaundering.Monitor

/-- The maximum of a list and a first value, taken from left to right. -/
theorem isGreatest_foldl_max {α : Type*} [LinearOrder α] (a : α) (l : List α) :
    IsGreatest {x | x = a ∨ x ∈ l} (l.foldl max a) := by
  induction l generalizing a with
  | nil => exact ⟨.inl rfl, fun x hx => le_of_eq (hx.resolve_right List.not_mem_nil)⟩
  | cons b l ih =>
    obtain ⟨hmem, hle⟩ := ih (max a b)
    refine ⟨?_, fun x hx => ?_⟩
    · rcases hmem with hmax | hmem
      · rw [List.foldl_cons, hmax]
        rcases max_choice a b with h | h
        · exact .inl h
        · exact .inr (List.mem_cons.mpr (.inl h))
      · exact .inr (List.mem_cons_of_mem _ hmem)
    · have hab : max a b ≤ l.foldl max (max a b) := hle (.inl rfl)
      rcases hx with rfl | hx
      · exact (le_max_left _ _).trans hab
      · rcases List.mem_cons.mp hx with rfl | hx
        · exact (le_max_right _ _).trans hab
        · exact hle (.inr hx)

/-- Where an announcement ranks: by its epoch, then by its sender. -/
def ElectionMessage.rank (message : ElectionMessage) : Epoch ×ₗ WithBot Nat :=
  toLex (message.epoch, WithBot.some message.senderId)

namespace ElectionHandler

variable {cfg : MonitorConfig} {h : ElectionHandler} {message : ElectionMessage}
  {messages messages' : List ElectionMessage}

/-- Where a handler ranks. -/
def rank (h : ElectionHandler) : Epoch ×ₗ WithBot Nat :=
  toLex (h.epoch, if h.leaderRunning = true then WithBot.some h.leader else ⊥)

/-- `_handle_message`, when the epoch can be saved. -/
def handleMessage (cfg : MonitorConfig) (h : ElectionHandler) (message : ElectionMessage) :
    ElectionHandler :=
  (h.run cfg (.handle message)).getD h

/-- The messages are handled in this order. -/
def handleMessages (cfg : MonitorConfig) (h : ElectionHandler) (messages : List ElectionMessage) :
    ElectionHandler :=
  messages.foldl (handleMessage cfg) h

/-- What `i_am_leader`, `get_leader` and the next announcement depend on. -/
def standing (h : ElectionHandler) : Epoch × Nat × Bool := (h.epoch, h.leader, h.leaderRunning)

theorem ignores_iff : h.Ignores message ↔ message.rank < h.rank := by
  rw [Ignores, rank, ElectionMessage.rank, Prod.Lex.toLex_lt_toLex]
  cases h.leaderRunning <;> simp

variable (cfg h) in
/-- A handler takes the rank of an announcement that is not below its own. -/
theorem handleMessage_coordinator (ht : message.messageType = .coordinator) :
    (handleMessage cfg h message).rank = max h.rank message.rank ∧
      ((handleMessage cfg h message).leaderRunning = false → handleMessage cfg h message = h) := by
  by_cases hi : h.Ignores message
  · have hsame : handleMessage cfg h message = h := by
      simp only [handleMessage, run, enter, ht, if_pos hi, Option.getD_none]
    rw [hsame]
    exact ⟨(max_eq_left (le_of_lt (ignores_iff.mp hi))).symm, fun _ => rfl⟩
  · have hle : h.rank ≤ message.rank := le_of_not_gt fun hlt => hi (ignores_iff.mpr hlt)
    have hepoch : h.epoch ≤ message.epoch := le_of_not_gt fun hlt => hi (.inl hlt)
    simp only [handleMessage, run, enter, finish, ht, if_neg hi, Option.getD_some]
    refine ⟨?_, by intros; contradiction⟩
    rw [max_eq_right hle, rank, ElectionMessage.rank, if_pos rfl, max_eq_right hepoch]

variable (cfg h) in
theorem handleMessages_coordinators (hc : ∀ m ∈ messages, m.messageType = .coordinator) :
    (handleMessages cfg h messages).rank = (messages.map ElectionMessage.rank).foldl max h.rank ∧
      ((handleMessages cfg h messages).leaderRunning = false →
        handleMessages cfg h messages = h) := by
  induction messages generalizing h with
  | nil => exact ⟨rfl, fun _ => rfl⟩
  | cons message messages ih =>
    obtain ⟨hrank, hidle⟩ := handleMessage_coordinator cfg h
      (hc message List.mem_cons_self)
    obtain ⟨hranks, hidles⟩ := ih (handleMessage cfg h message)
      fun m hm => hc m (List.mem_cons_of_mem _ hm)
    refine ⟨?_, fun hr => ?_⟩
    · rw [List.map_cons, List.foldl_cons, ← hrank]
      exact hranks
    · have hrest := hidles hr
      have hr' : (handleMessage cfg h message).leaderRunning = false := by
        rw [← hrest]
        exact hr
      exact hrest.trans (hidle hr')

/-- The rank tells the epoch and who is followed. -/
theorem eq_of_rank {h h' : ElectionHandler} (hr : h.rank = h'.rank) :
    h.epoch = h'.epoch ∧ h.leaderRunning = h'.leaderRunning ∧
      (h.leaderRunning = true → h.leader = h'.leader) := by
  rw [rank, rank, EmbeddingLike.apply_eq_iff_eq, Prod.mk.injEq] at hr
  refine ⟨hr.1, ?_⟩
  cases hrun : h.leaderRunning <;> cases hrun' : h'.leaderRunning <;> simp [hrun, hrun'] at hr ⊢
  exact hr.2

/-- The announcements that count, and the one that is followed. -/
def Announced (h : ElectionHandler) (messages : List ElectionMessage) : Set (Epoch ×ₗ Nat) :=
  {a | (∃ m ∈ messages, h.epoch ≤ m.epoch ∧ a = toLex (m.epoch, m.senderId)) ∨
    h.leaderRunning = true ∧ a = toLex (h.epoch, h.leader)}

theorem le_of_rank_le {e e' : Epoch} {n n' : Nat}
    (h : (toLex (e, WithBot.some n) : Epoch ×ₗ WithBot Nat) ≤ toLex (e', WithBot.some n')) :
    (toLex (e, n) : Epoch ×ₗ Nat) ≤ toLex (e', n') := by
  rw [Prod.Lex.toLex_le_toLex] at h ⊢
  exact h.imp_right fun hle => ⟨hle.1, WithBot.coe_le_coe.mp hle.2⟩

/-- A handler that ends up following someone follows the greatest announcement. -/
theorem isGreatest_announced (hc : ∀ m ∈ messages, m.messageType = .coordinator)
    (hr : (handleMessages cfg h messages).leaderRunning = true) :
    IsGreatest (h.Announced messages)
      (toLex ((handleMessages cfg h messages).epoch, (handleMessages cfg h messages).leader)) := by
  have hrank := (handleMessages_coordinators cfg h hc).1
  have hgreatest := isGreatest_foldl_max h.rank (messages.map ElectionMessage.rank)
  rw [← hrank] at hgreatest
  have hself : (handleMessages cfg h messages).rank =
      toLex ((handleMessages cfg h messages).epoch,
        WithBot.some (handleMessages cfg h messages).leader) := by
    rw [rank, if_pos hr]
  have hle : h.rank ≤ (handleMessages cfg h messages).rank := hgreatest.2 (.inl rfl)
  refine ⟨?_, ?_⟩
  · rcases hgreatest.1 with hinit | hm
    · obtain ⟨he, hrun, hl⟩ := eq_of_rank hinit
      rw [he, hl hr]
      exact .inr ⟨hrun ▸ hr, rfl⟩
    · obtain ⟨m, hm, hmrank⟩ := List.mem_map.mp hm
      have hsame := hmrank.trans hself
      rw [ElectionMessage.rank, EmbeddingLike.apply_eq_iff_eq, Prod.mk.injEq,
        WithBot.coe_inj] at hsame
      refine .inl ⟨m, hm, ?_, by rw [← hsame.1, ← hsame.2]⟩
      rw [hself, rank, Prod.Lex.toLex_le_toLex] at hle
      rw [hsame.1]
      exact hle.elim le_of_lt fun heq => le_of_eq heq.1
  · rintro a (⟨m, hm, -, rfl⟩ | ⟨hrun, rfl⟩)
    · have hmle := hgreatest.2 (.inr (List.mem_map_of_mem hm))
      rw [hself] at hmle
      exact le_of_rank_le hmle
    · rw [hself, rank, if_pos hrun] at hle
      exact le_of_rank_le hle

/-- **Announcements are confluent.** The epoch, the leader and whether it runs depend on which
announcements were handled, and not on their order or on how often they were. When one of them
counts or a leader was followed, the greatest is followed; otherwise nothing has changed. -/
theorem announcements_confluent (cfg : MonitorConfig) (h : ElectionHandler)
    (messages : List ElectionMessage) (hc : ∀ m ∈ messages, m.messageType = .coordinator) :
    (∀ messages', (∀ m, m ∈ messages' ↔ m ∈ messages) →
      (handleMessages cfg h messages').standing = (handleMessages cfg h messages).standing) ∧
    ((h.Announced messages).Nonempty →
      (handleMessages cfg h messages).leaderRunning = true ∧
      IsGreatest (h.Announced messages)
        (toLex ((handleMessages cfg h messages).epoch, (handleMessages cfg h messages).leader))) ∧
    (h.Announced messages = ∅ → handleMessages cfg h messages = h) := by
  obtain ⟨hrank, hidle⟩ := handleMessages_coordinators cfg h hc
  refine ⟨fun messages' hsame => ?_, fun ⟨a, ha⟩ => ?_, fun hnone => ?_⟩
  · have hc' : ∀ m ∈ messages', m.messageType = .coordinator := fun m hm => hc m ((hsame m).mp hm)
    obtain ⟨hrank', hidle'⟩ := handleMessages_coordinators cfg h hc'
    have hranks : (handleMessages cfg h messages').rank = (handleMessages cfg h messages).rank := by
      rw [hrank, hrank']
      have hset : {x | x = h.rank ∨ x ∈ messages'.map ElectionMessage.rank} =
          {x | x = h.rank ∨ x ∈ messages.map ElectionMessage.rank} := by
        ext x
        simp only [List.mem_map, hsame]
      exact (hset ▸ isGreatest_foldl_max h.rank _).unique (isGreatest_foldl_max h.rank _)
    obtain ⟨he, hrun, hl⟩ := eq_of_rank hranks
    have hleader : (handleMessages cfg h messages').leader =
        (handleMessages cfg h messages).leader := by
      cases hr : (handleMessages cfg h messages').leaderRunning with
      | true => exact hl hr
      | false => rw [hidle' hr, hidle (hrun ▸ hr)]
    simp only [standing, he, hrun, hleader]
  · cases hr : (handleMessages cfg h messages).leaderRunning with
    | true => exact ⟨rfl, isGreatest_announced hc hr⟩
    | false =>
      have hsame := hidle hr
      rw [hsame] at hr hrank
      rcases ha with ⟨m, hm, hle, -⟩ | ⟨hrun, -⟩
      · have hmle := (isGreatest_foldl_max h.rank (messages.map ElectionMessage.rank)).2
          (.inr (List.mem_map_of_mem hm))
        rw [← hrank, rank, hr, ElectionMessage.rank, Prod.Lex.toLex_le_toLex] at hmle
        rcases hmle with hlt | ⟨-, hbot⟩
        · exact absurd hlt (not_lt_of_ge hle)
        · simp at hbot
      · rw [hr] at hrun
        cases hrun
  · cases hr : (handleMessages cfg h messages).leaderRunning with
    | true => exact absurd (isGreatest_announced hc hr).1 (hnone ▸ Set.notMem_empty _)
    | false => exact hidle hr

/-- A late announcement of an older epoch, a newer one that arrives twice, and one of a lower
sender. -/
theorem announcements_confluent_late :
    let messages : List ElectionMessage :=
      [⟨.coordinator, 4, 3⟩, ⟨.coordinator, 5, 2⟩, ⟨.coordinator, 5, 1⟩, ⟨.coordinator, 5, 2⟩]
    let h : ElectionHandler := { leader := 3, epoch := 3 }
    let config : MonitorConfig := ⟨1, 3, by decide, by decide⟩
    (∀ messages', (∀ m, m ∈ messages' ↔ m ∈ messages) →
      (handleMessages config h messages').standing = (handleMessages config h messages).standing) ∧
    (handleMessages config h messages).standing = (5, 2, true) := by
  intro messages h config
  refine ⟨(announcements_confluent config h messages ?_).1, by decide⟩
  decide

end ElectionHandler

end MoneyLaundering.Monitor
