import Mathlib.Data.List.Basic
import MoneyLaundering.Monitor.Process

/-!
# Epochs are monotone and durable

What a step of a monitor can do, and from it: the epoch is on disk before it is in memory, neither
ever goes down, and an election is won at an epoch that is greater than all that were seen before.
What is announced is an epoch that was won, as long as nothing raises the epoch between the win and
the announcement.
-/

namespace MoneyLaundering.Monitor

/-- The phases in which a `COORDINATOR` is still to be sent. -/
def Phase.Announces : Phase → Prop
  | .won | .announcing .. => True
  | .idle | .polling .. => False

namespace Process

variable {cfg : MonitorConfig} {path : String} {p p' : Process} {l : Label}

/-- What a step can do. -/
inductive Moves (cfg : MonitorConfig) (path : String) (p : Process) : Label → Process → Prop
  /-- The election thread moves on without the epoch, or the handler is stopped. -/
  | thread {l : Label} {h : ElectionHandler} {phase : Phase} (hepoch : h.epoch = p.handler.epoch)
      (hphase : phase = p.phase ∨ ¬ phase.Announces) :
      Moves cfg path p l { p with handler := h, phase }
  | answer {response : ElectionMessage} {l : Label} (hs : p.saving = none)
      (hp : ¬ p.phase.Announces) :
      Moves cfg path p l (critical cfg p (.answer response))
  | win {generation : Nat} {l : Label} (hs : p.saving = none) (hp : ¬ p.phase.Announces) :
      Moves cfg path p l (critical cfg p (.win generation))
  | handle (message : ElectionMessage) (hs : p.saving = none) :
      Moves cfg path p (.handle message) (critical cfg p (.handle message))
  | readEpoch {l : Label} (hs : p.saving = none) (hp : p.phase = .won) :
      Moves cfg path p l { p with phase := .announcing p.handler.epoch cfg.coordinatorPeers }
  | announce {l : Label} {epoch : Epoch} {peer : Nat} {peers : List Nat}
      (hp : p.phase = .announcing epoch (peer :: peers)) :
      Moves cfg path p l
        { p with phase := .announcing epoch peers, trace := p.trace ++ [.announced epoch peer] }
  | replace {l : Label} {c : Critical} {epoch : Epoch} (hs : p.saving = some ⟨c, epoch, false⟩) :
      Moves cfg path p l { p with file := .saved epoch, saving := some ⟨c, epoch, true⟩ }
  | saved {l : Label} {c : Critical} {epoch : Epoch} (hs : p.saving = some ⟨c, epoch, true⟩) :
      Moves cfg path p l (complete cfg { p with
        handler := { p.handler with epoch }
        saving := none
        trace := p.trace ++ setBy epoch c } c)
  | raised {l : Label} {c : Critical} {epoch : Epoch} (hs : p.saving = some ⟨c, epoch, false⟩) :
      Moves cfg path p l { p with saving := none, phase := phaseRaised p.phase c }
  | restart {l : Label} {epoch : Epoch} (hl : p.file.load path = .ok epoch) :
      Moves cfg path p l
        { handler := .init cfg epoch, file := p.file, trace := p.trace ++ [.held epoch] }

theorem Moves.polling {generation : Nat} {epoch : Epoch} {peers : List Nat} {higher : Bool}
    (hp : p.phase = .polling generation epoch peers higher) :
    Moves cfg path p l { p with phase := p.phase.next cfg false } := by
  refine .thread rfl ?_
  rw [hp]
  cases peers with
  | nil => exact .inl rfl
  | cons peer peers => exact .inr id

theorem moves_of_exec (he : exec cfg path p l = some p') : Moves cfg path p l p' := by
  cases l with
  | start =>
    rw [exec] at he
    split at he
    · cases he
      exact .thread rfl (.inr id)
    · cases he
  | contactFails =>
    rw [exec] at he
    split at he
    next hp =>
      split at he
      · cases he
        exact .polling hp
      · cases he
    · cases he
  | respond response =>
    dsimp only [exec] at he
    split at he
    next hp =>
      split at he
      · split at he
        · cases he
          exact .polling hp
        · cases he
      · split at he
        next hs _ =>
          cases he
          exact .answer hs (by rw [hp]; exact id)
        · cases he
    · cases he
  | malformed =>
    rw [exec] at he
    split at he
    · split at he
      · cases he
        exact .thread rfl (.inr id)
      · cases he
    · cases he
  | decide =>
    rw [exec] at he
    split at he
    next hp =>
      split at he
      · split at he
        · cases he
          exact .thread rfl (.inr id)
        · cases he
      · split at he
        next hs =>
          cases he
          exact .win hs (by rw [hp]; exact id)
        · cases he
    · cases he
  | readEpoch =>
    rw [exec] at he
    split at he
    next hp hs =>
      cases he
      exact .readEpoch hs hp
    · cases he
  | announce =>
    rw [exec] at he
    split at he
    next hp =>
      cases he
      exact .announce hp
    next =>
      cases he
      exact .thread rfl (.inr id)
    · cases he
  | handle message =>
    rw [exec] at he
    split at he
    next hs =>
      cases he
      exact .handle message hs
    · cases he
  | replace =>
    rw [exec] at he
    split at he
    next hs =>
      cases he
      exact .replace hs
    · cases he
  | saved =>
    rw [exec] at he
    split at he
    next hs =>
      cases he
      exact .saved hs
    · cases he
  | raised =>
    rw [exec] at he
    split at he
    next hs =>
      cases he
      exact .raised hs
    · cases he
  | stop =>
    rw [exec] at he
    split at he
    · cases he
      exact .thread rfl (.inl rfl)
    · cases he
  | restart =>
    rw [exec, boot] at he
    cases hl : p.file.load path with
    | error e =>
      rw [hl] at he
      cases he
    | ok epoch =>
      rw [hl] at he
      cases he
      exact .restart hl

/-! ## Memory and disk -/

end Process

/-- An epoch that was held or seen. -/
def Event.Shows (ev : Event) (epoch : Epoch) : Prop :=
  ev = .held epoch ∨ ev = .handled epoch ∨ ev = .won epoch ∨ ev = .brought epoch

namespace Process

/-- The epoch is on disk before it is in memory, and the epoch in memory bounds all that were
seen. -/
structure Durable (path : String) (p : Process) : Prop where
  idle : p.saving = none → p.file.load path = .ok p.handler.epoch
  busy : ∀ s, p.saving = some s → p.handler.epoch < s.epoch ∧
    p.file.load path = .ok (if s.replaced then s.epoch else p.handler.epoch) ∧
    ∀ epoch, .handled epoch ∈ handledBy s.critical → epoch ≤ s.epoch
  shows : ∀ ev ∈ p.trace, ∀ epoch, ev.Shows epoch → epoch ≤ p.handler.epoch
  held : .held p.handler.epoch ∈ p.trace

/-- Memory and disk do not go down. -/
def Rises (path : String) (p p' : Process) : Prop :=
  p.handler.epoch ≤ p'.handler.epoch ∧
    ∀ a b, p.file.load path = .ok a → p'.file.load path = .ok b → a ≤ b

theorem Rises.of_file (h : p.handler.epoch ≤ p'.handler.epoch) (hf : p'.file = p.file) :
    Rises path p p' := by
  refine ⟨h, fun a b ha hb => ?_⟩
  rw [hf, ha] at hb
  exact le_of_eq (Except.ok.inj hb)

theorem mem_handledBy {c : Critical} {ev : Event} (h : ev ∈ handledBy c) :
    ∃ epoch, ev = .handled epoch := by
  unfold handledBy at h
  split at h
  · exact ⟨_, List.mem_singleton.mp h⟩
  · cases h
  · split at h
    · cases h
    · exact ⟨_, List.mem_singleton.mp h⟩

/-- A section that writes raises the epoch to that of its message. -/
theorem handledBy_le_write {h h' : ElectionHandler} {epoch e : Epoch} {c : Critical}
    (hw : h.enter c = .write h' epoch) (he : .handled e ∈ handledBy c) : e ≤ epoch := by
  unfold handledBy at he
  split at he
  · cases List.mem_singleton.mp he
    cases hw
    exact le_max_right _ _
  · cases he
  next message =>
    split at he
    · cases he
    next hok =>
      cases List.mem_singleton.mp he
      unfold ElectionHandler.enter at hw
      dsimp only at hw
      split at hw
      · split at hw
        · cases hw
        · cases hw
          exact le_max_right _ _
      · cases hw
        exact le_max_right _ _
      next ht => exact absurd ht hok

/-- A message that is ignored does not exceed the epoch. -/
theorem handledBy_le_leave {h : ElectionHandler} {e : Epoch} {c : Critical}
    (hw : h.enter c = .leave) (he : .handled e ∈ handledBy c) : e ≤ h.epoch := by
  unfold handledBy at he
  split at he
  · cases hw
  · cases he
  next message =>
    split at he
    · cases he
    next hok =>
      cases List.mem_singleton.mp he
      unfold ElectionHandler.enter at hw
      dsimp only at hw
      split at hw
      · split at hw
        next hi =>
          rcases hi with hlt | ⟨heq, -⟩
          · exact le_of_lt hlt
          · exact le_of_eq heq
        · cases hw
      · cases hw
      next ht => exact absurd ht hok

/-- Events of messages keep the bound. -/
theorem shows_append_handledBy {trace : List Event} {bound : Epoch} {c : Critical}
    (h : ∀ ev ∈ trace, ∀ epoch, ev.Shows epoch → epoch ≤ bound)
    (hc : ∀ e, .handled e ∈ handledBy c → e ≤ bound) :
    ∀ ev ∈ trace ++ handledBy c, ∀ epoch, ev.Shows epoch → epoch ≤ bound := by
  intro ev hm epoch hs
  rcases List.mem_append.mp hm with hm | hm
  · exact h ev hm epoch hs
  · obtain ⟨e, rfl⟩ := mem_handledBy hm
    rcases hs with hs | hs | hs | hs <;> cases hs
    exact hc _ hm

/-- A critical section that does not save. -/
theorem Durable.observe (h : Durable path p) {c : Critical} {q : Process}
    (hfile : q.file = p.file) (hsaving : q.saving = p.saving)
    (hepoch : q.handler.epoch = p.handler.epoch) (htrace : q.trace = p.trace ++ handledBy c)
    (hc : ∀ e, .handled e ∈ handledBy c → e ≤ p.handler.epoch) : Durable path q := by
  refine ⟨fun hs => ?_, fun s hs => ?_, ?_, ?_⟩
  · rw [hfile, hepoch]
    exact h.idle (hsaving ▸ hs)
  · rw [hfile, hepoch]
    exact h.busy s (hsaving ▸ hs)
  · rw [htrace, hepoch]
    exact shows_append_handledBy h.shows hc
  · rw [htrace, hepoch]
    exact List.mem_append_left _ h.held

theorem Durable.critical (h : Durable path p) (hs : p.saving = none) (c : Critical) :
    Durable path (critical cfg p c) ∧ Rises path p (critical cfg p c) := by
  unfold Process.critical
  split
  next hw =>
    exact ⟨h.observe rfl rfl rfl rfl fun e he => handledBy_le_leave hw he, .of_file (le_refl _) rfl⟩
  next hw =>
    refine ⟨⟨h.idle, h.busy, ?_, ?_⟩, .of_file (le_refl _) rfl⟩
    · intro ev hm epoch hshow
      rcases List.mem_append.mp hm with hm | hm
      · exact h.shows ev hm epoch hshow
      · rw [List.mem_singleton.mp hm] at hshow
        rcases hshow with hshow | hshow | hshow | hshow <;> cases hshow
    · exact List.mem_append_left _ h.held
  next h' epoch hw =>
    obtain ⟨hsame, hle⟩ := ElectionHandler.enter_write hw
    split
    next heq =>
      have hepoch : (complete cfg { p with handler := h' } c).handler.epoch = p.handler.epoch :=
        (ElectionHandler.finish_epoch cfg).trans hsame
      refine ⟨h.observe rfl rfl hepoch rfl fun e he => ?_, .of_file (le_of_eq hepoch.symm) rfl⟩
      exact (handledBy_le_write hw he).trans (le_of_eq (heq.trans hsame))
    next hne =>
      refine ⟨⟨nofun, fun s hsome => ?_, ?_, ?_⟩, .of_file (le_of_eq hsame.symm) rfl⟩
      · cases hsome
        refine ⟨?_, ?_, fun e he => handledBy_le_write hw he⟩
        · rw [hsame] at hne ⊢
          exact lt_of_le_of_ne hle (Ne.symm hne)
        · rw [hsame]
          exact h.idle hs
      · rw [hsame]
        exact h.shows
      · rw [hsame]
        exact h.held

theorem mem_setBy {c : Critical} {epoch : Epoch} {ev : Event} (h : ev ∈ setBy epoch c) :
    ev = .held epoch ∨ ev = .won epoch ∨ ev = .brought epoch := by
  unfold setBy at h
  split at h
  · exact .inl (List.mem_singleton.mp h)
  · rcases List.mem_pair.mp h with rfl | rfl
    · exact .inr (.inl rfl)
    · exact .inl rfl
  · split at h
    · rcases List.mem_pair.mp h with rfl | rfl
      · exact .inr (.inr rfl)
      · exact .inl rfl
    · exact .inl (List.mem_singleton.mp h)

/-- The write of a critical section is complete. -/
theorem Durable.saved (h : Durable path p) {c : Critical} {epoch : Epoch}
    (hs : p.saving = some ⟨c, epoch, true⟩) :
    Durable path (complete cfg { p with
      handler := { p.handler with epoch }
      saving := none
      trace := p.trace ++ setBy epoch c } c) := by
  obtain ⟨hlt, hfile, hc⟩ := h.busy _ hs
  have hset : ∀ ev ∈ setBy epoch c, ∀ e, ev.Shows e → e ≤ epoch := by
    intro ev hm e hshow
    rcases mem_setBy hm with rfl | rfl | rfl <;> rcases hshow with hshow | hshow | hshow | hshow <;>
      cases hshow <;> exact le_refl _
  have hshows : ∀ ev ∈ p.trace ++ setBy epoch c, ∀ e, ev.Shows e → e ≤ epoch := by
    intro ev hm e hshow
    rcases List.mem_append.mp hm with hm | hm
    · exact (h.shows ev hm e hshow).trans (le_of_lt hlt)
    · exact hset ev hm e hshow
  have hheld : .held epoch ∈ setBy epoch c := by
    unfold setBy
    split
    · exact List.mem_singleton_self _
    · exact List.mem_cons_of_mem _ (List.mem_singleton_self _)
    · split
      · exact List.mem_cons_of_mem _ (List.mem_singleton_self _)
      · exact List.mem_singleton_self _
  refine ⟨fun _ => ?_, nofun, ?_, ?_⟩
  · rw [complete, ElectionHandler.finish_epoch]
    exact hfile
  · rw [complete, ElectionHandler.finish_epoch]
    exact shows_append_handledBy hshows hc
  · rw [complete, ElectionHandler.finish_epoch]
    exact List.mem_append_left _ (List.mem_append_right _ hheld)

/-- Every step keeps the invariant and lowers nothing. -/
theorem Durable.moves (h : Durable path p) (hm : Moves cfg path p l p') :
    Durable path p' ∧ Rises path p p' := by
  cases hm with
  | thread hepoch hphase =>
    refine ⟨⟨fun hs => ?_, fun s hs => ?_, ?_, ?_⟩, .of_file (le_of_eq hepoch.symm) rfl⟩
    · rw [hepoch]
      exact h.idle hs
    · rw [hepoch]
      exact h.busy s hs
    · rw [hepoch]
      exact h.shows
    · rw [hepoch]
      exact h.held
  | answer hs hp => exact h.critical hs _
  | win hs hp => exact h.critical hs _
  | handle message hs => exact h.critical hs _
  | readEpoch hs hp => exact ⟨⟨h.idle, h.busy, h.shows, h.held⟩, .of_file (le_refl _) rfl⟩
  | announce hp =>
    refine ⟨⟨h.idle, h.busy, ?_, ?_⟩, .of_file (le_refl _) rfl⟩
    · intro ev hm epoch hshow
      rcases List.mem_append.mp hm with hm | hm
      · exact h.shows ev hm epoch hshow
      · rw [List.mem_singleton.mp hm] at hshow
        rcases hshow with hshow | hshow | hshow | hshow <;> cases hshow
    · exact List.mem_append_left _ h.held
  | replace hs =>
    obtain ⟨hlt, hfile, hc⟩ := h.busy _ hs
    refine ⟨⟨nofun, fun s hsome => ?_, h.shows, h.held⟩, le_refl _, fun a b ha hb => ?_⟩
    · cases hsome
      exact ⟨hlt, EpochFile.load_saved path _, hc⟩
    · rw [hfile] at ha
      rw [EpochFile.load_saved] at hb
      cases ha
      cases hb
      exact le_of_lt hlt
  | saved hs =>
    obtain ⟨hlt, -, -⟩ := h.busy _ hs
    refine ⟨h.saved hs, .of_file ?_ rfl⟩
    rw [complete, ElectionHandler.finish_epoch]
    exact le_of_lt hlt
  | raised hs =>
    obtain ⟨-, hfile, -⟩ := h.busy _ hs
    exact ⟨⟨fun _ => hfile, nofun, h.shows, h.held⟩, .of_file (le_refl _) rfl⟩
  | @restart _ epoch hl =>
    -- the file is at least as new as the memory of the process that died
    have hle : p.handler.epoch ≤ epoch := by
      cases hs : p.saving with
      | none =>
        rw [h.idle hs] at hl
        exact le_of_eq (Except.ok.inj hl)
      | some s =>
        obtain ⟨hlt, hfile, -⟩ := h.busy s hs
        rw [hfile] at hl
        cases hl
        split
        · exact le_of_lt hlt
        · exact le_refl _
    refine ⟨⟨fun _ => hl, nofun, ?_, ?_⟩, .of_file hle rfl⟩
    · intro ev hm e hshow
      rcases List.mem_append.mp hm with hm | hm
      · exact (h.shows ev hm e hshow).trans hle
      · rw [List.mem_singleton.mp hm] at hshow
        rcases hshow with hshow | hshow | hshow | hshow <;> cases hshow
        exact le_refl _
    · exact List.mem_append_right _ (List.mem_singleton_self _)

theorem durable_boot {file : EpochFile} (hb : boot cfg path file [] = .ok p) : Durable path p := by
  rw [boot] at hb
  cases hl : file.load path with
  | error e =>
    rw [hl] at hb
    cases hb
  | ok epoch =>
    rw [hl] at hb
    cases hb
    refine ⟨fun _ => hl, nofun, ?_, List.mem_singleton_self _⟩
    intro ev hm e hshow
    rw [List.mem_singleton.mp hm] at hshow
    rcases hshow with hshow | hshow | hshow | hshow <;> cases hshow
    exact le_refl _

/-! ## Wins -/

theorem announces_of_next {phase phase' : Phase} {answered : Bool}
    (h : phase.next cfg answered = phase') (ha : phase'.Announces) : phase = phase' := by
  unfold Phase.next at h
  split at h
  · cases h
    cases ha
  · exact h

theorem announces_of_raised {phase phase' : Phase} {c : Critical} (h : phaseRaised phase c = phase')
    (ha : phase'.Announces) : phase = phase' := by
  cases c with
  | answer | win =>
    cases h
    cases ha
  | handle => exact h

theorem announces_of_after {phase phase' : Phase} {c : Critical}
    (h : phaseAfter cfg phase c = phase')
    (ha : phase'.Announces) :
    phase = phase' ∨ phase' = .won ∧ ∃ generation, c = .win generation := by
  cases c with
  | answer => exact .inl (announces_of_next h ha)
  | win generation => exact .inr ⟨h.symm, generation, rfl⟩
  | handle => exact .inl h

/-- `_become_leader` writes an epoch that it does not have yet. -/
theorem ne_of_win_write {h h' : ElectionHandler} {generation : Nat} {epoch : Epoch}
    (hw : h.enter (.win generation) = .write h' epoch) : epoch ≠ h'.epoch := by
  rw [ElectionHandler.enter] at hw
  split at hw
  · cases hw
  · split at hw
    · cases hw
    next hn =>
      cases hw
      exact ne_of_gt (Epoch.next_eq_some hn)

/-- Only the write of `_become_leader` makes a winner, and it raises the epoch. -/
theorem Durable.lt_of_wins (h : Durable path p) (hm : Moves cfg path p l p') (hp : p.phase ≠ .won)
    (hp' : p'.phase = .won) : p.handler.epoch < p'.handler.epoch := by
  have hcritical : ∀ {c : Critical}, (Process.critical cfg p c).phase = .won → False := by
    intro c hc
    unfold Process.critical at hc
    split at hc
    · exact hp (announces_of_raised hc trivial)
    · exact hp (announces_of_raised hc trivial)
    next hw =>
      split at hc
      next heq =>
        rcases announces_of_after hc trivial with hc | ⟨-, generation, rfl⟩
        · exact hp hc
        · exact ne_of_win_write hw heq
      · exact hp hc
  cases hm with
  | thread hepoch hphase =>
    rcases hphase with hphase | hphase
    · exact absurd (hphase.symm.trans hp') hp
    · exact absurd (show Phase.Announces .won from trivial) (hp' ▸ hphase)
  | answer | win | handle => exact (hcritical hp').elim
  | readEpoch hs hpw => exact absurd hpw hp
  | announce hpa => cases hp'
  | replace hs => exact absurd hp' hp
  | saved hs =>
    rw [complete, ElectionHandler.finish_epoch]
    exact (h.busy _ hs).1
  | raised hs => exact absurd (announces_of_raised hp' trivial) hp
  | restart hl => cases hp'

/-- At the last epoch nobody wins: `_become_leader` raises. -/
theorem exec_decide_exhausted {generation : Nat} {epoch : Epoch}
    (hp : p.phase = .polling generation epoch [] false) (hs : p.saving = none)
    (hmax : p.handler.epoch = maxEpoch) (hstop : p.handler.stopped = false)
    (hgen : generation = p.handler.electionGeneration) (hrun : p.handler.leaderRunning = false) :
    exec cfg path p .decide = some { p with phase := .idle, trace := p.trace ++ [.exhausted] } := by
  have henter : p.handler.enter (.win generation) = .exhausted := by
    rw [ElectionHandler.enter, if_neg (by rw [hstop, hrun, hgen]; simp), hmax, Epoch.next_maxEpoch]
  dsimp only [exec]
  rw [hp, hs]
  dsimp only
  rw [if_neg (by simp), critical, henter]
  dsimp only [phaseRaised]
  rw [hs]

/-- **Epochs are monotone and durable.** Whatever a monitor does and receives, whichever saves raise
and whenever it dies: the epoch in memory is the one on disk while no save is in progress, neither
ever goes down, a win raises the epoch above all that were held before and above all that were
carried by a message whose handling is complete, and at the last epoch the election raises without a
leader. -/
theorem epochs_monotone_and_durable (cfg : MonitorConfig) (path : String) (file : EpochFile)
    (p₀ p : Process) (hb : boot cfg path file [] = .ok p₀)
    (hr : Transition.Reachable (exec cfg path) (fun _ _ => True) p₀ p) :
    (p.saving = none → p.file.load path = .ok p.handler.epoch) ∧
    (∀ p', Transition.Reachable (exec cfg path) (fun _ _ => True) p p' → Rises path p p') ∧
    .held p.handler.epoch ∈ p.trace ∧
    (∀ l p', exec cfg path p l = some p' → p.phase ≠ .won → p'.phase = .won →
      ∀ e, .held e ∈ p.trace ∨ .handled e ∈ p.trace → e < p'.handler.epoch) ∧
    (∀ generation epoch, p.phase = .polling generation epoch [] false → p.saving = none →
      p.handler.stopped = false → generation = p.handler.electionGeneration →
      p.handler.leaderRunning = false → p.handler.epoch = maxEpoch →
      exec cfg path p .decide = some { p with phase := .idle, trace := p.trace ++ [.exhausted] } ∧
        ¬ p.handler.iAmLeader cfg) := by
  have hstep : ∀ q l q', Durable path q → exec cfg path q l = some q' →
      Durable path q' ∧ Rises path q q' := fun q l q' hq he => hq.moves (moves_of_exec he)
  have hinv : Durable path p :=
    hr.invariant (durable_boot hb) fun q l q' hq _ he => (hstep q l q' hq he).1
  refine ⟨hinv.idle, fun p' hp' => ?_, hinv.held, ?_, ?_⟩
  · -- the disk of every state in between can be loaded, so the steps compose
    have hload : ∀ {q : Process}, Durable path q → ∃ a, q.file.load path = .ok a := by
      intro q hq
      cases hs : q.saving with
      | none => exact ⟨_, hq.idle hs⟩
      | some s => exact ⟨_, (hq.busy s hs).2.1⟩
    have hboth : Durable path p' ∧ Rises path p p' := by
      induction hp' with
      | init => exact ⟨hinv, .of_file (le_refl _) rfl⟩
      | step _ _ he ih =>
        obtain ⟨hd, hle⟩ := hstep _ _ _ ih.1 he
        obtain ⟨c, hc⟩ := hload ih.1
        exact ⟨hd, ih.2.1.trans hle.1, fun a b ha hb => (ih.2.2 a c ha hc).trans (hle.2 c b hc hb)⟩
    exact hboth.2
  · intro l p' he hp hp' e hshow
    have hlt := hinv.lt_of_wins (moves_of_exec he) hp hp'
    rcases hshow with hm | hm
    · exact lt_of_le_of_lt (hinv.shows _ hm e (.inl rfl)) hlt
    · exact lt_of_le_of_lt (hinv.shows _ hm e (.inr (.inl rfl))) hlt
  · intro generation epoch hp hs hstop hgen hrun hmax
    exact ⟨exec_decide_exhausted hp hs hmax hstop hgen hrun, fun hl => by simp [hl.1] at hrun⟩

/-- The second of three monitors, when the others are down. -/
def secondOfThree : MonitorConfig := ⟨2, 3, MonitorConfig.three_range, MonitorConfig.two_range⟩

/-- It wins an election: nobody answers, and the epoch is saved. -/
def winAlone : List Label := [.start, .contactFails, .contactFails, .decide, .replace, .saved]

def freshMonitor : Process where
  handler := .init secondOfThree 0
  file := .missing
  trace := [.held 0]

theorem epochs_monotone_and_durable_one_win :
    ∃ p, Transition.Reachable (exec secondOfThree "epoch.json") (fun _ _ => True) freshMonitor p ∧
      p.phase = .won ∧ p.handler.epoch = 1 ∧ p.file.load "epoch.json" = .ok p.handler.epoch := by
  have hrun :
      (Transition.runAllowed (exec secondOfThree "epoch.json") (fun _ _ => True) freshMonitor
      winAlone).any fun p => decide (p.phase = .won ∧ p.handler.epoch = 1 ∧ p.saving = none) := by
    decide +kernel
  obtain ⟨p, hp, hk⟩ := (Option.any_eq_true _ _).mp hrun
  obtain ⟨hwon, hepoch, hs⟩ := of_decide_eq_true hk
  have hr := Transition.reachable_of_runAllowed .init hp
  exact ⟨p, hr, hwon, hepoch,
    (epochs_monotone_and_durable secondOfThree "epoch.json" .missing freshMonitor p rfl hr).1 hs⟩

/-! ## Announcements -/

/-- The monitor won at this epoch, and no other monitor brought it. -/
def OwnEpoch (trace : List Event) (epoch : Epoch) : Prop :=
  .won epoch ∈ trace ∧ .brought epoch ∉ trace

/-- Every `COORDINATOR` that was sent carries an epoch of its own. -/
def AnnouncesOwn (p : Process) : Prop :=
  ∀ epoch peer, .announced epoch peer ∈ p.trace → OwnEpoch p.trace epoch

/-- Between a win and the moment when `send_coordinator` reads the epoch, no message raises it. -/
def QuietWin (p : Process) : Label → Prop
  | .handle message => p.phase = .won → message.messageType ≠ .ok → message.epoch ≤ p.handler.epoch
  | _ => True

instance (p : Process) : (l : Label) → Decidable (QuietWin p l)
  | .handle message => inferInstanceAs (Decidable (p.phase = .won → message.messageType ≠ .ok →
      message.epoch ≤ p.handler.epoch))
  | .start | .contactFails | .respond _ | .malformed | .decide | .readEpoch | .announce | .replace
  | .saved | .raised | .stop | .restart => .isTrue trivial

/-- The epoch that is about to be announced is the monitor's own. -/
structure Speaks (path : String) (p : Process) : Prop where
  durable : Durable path p
  quiet : p.phase = .won → p.saving = none
  winner : p.phase = .won → OwnEpoch p.trace p.handler.epoch
  speaker : ∀ epoch peers, p.phase = .announcing epoch peers → OwnEpoch p.trace epoch
  announced : AnnouncesOwn p

theorem OwnEpoch.append {trace more : List Event} {epoch : Epoch} (h : OwnEpoch trace epoch)
    (hm : .brought epoch ∉ more) : OwnEpoch (trace ++ more) epoch := by
  refine ⟨List.mem_append_left _ h.1, fun hb => ?_⟩
  rcases List.mem_append.mp hb with hb | hb
  · exact h.2 hb
  · exact hm hb

theorem announcesOwn_append {p p' : Process} {more : List Event} (h : AnnouncesOwn p)
    (ht : p'.trace = p.trace ++ more) (hno : ∀ epoch peer, .announced epoch peer ∉ more)
    (hb : ∀ epoch, OwnEpoch p.trace epoch → .brought epoch ∉ more) : AnnouncesOwn p' := by
  intro epoch peer hm
  rw [ht] at hm ⊢
  rcases List.mem_append.mp hm with hm | hm
  · exact (h epoch peer hm).append (hb epoch (h epoch peer hm))
  · exact absurd hm (hno epoch peer)

theorem brought_notMem_handledBy (c : Critical) (epoch : Epoch) : .brought epoch ∉ handledBy c := by
  intro h
  obtain ⟨_, he⟩ := mem_handledBy h
  cases he

theorem announced_notMem_handledBy (c : Critical) (epoch : Epoch) (peer : Nat) :
    .announced epoch peer ∉ handledBy c := by
  intro h
  obtain ⟨_, he⟩ := mem_handledBy h
  cases he

theorem Speaks.le (h : Speaks path p) {epoch : Epoch} (ho : OwnEpoch p.trace epoch) :
    epoch ≤ p.handler.epoch :=
  h.durable.shows _ ho.1 epoch (.inr (.inr (.inl rfl)))

/-- A step that sends nothing keeps the invariant, when what it announces next is settled. -/
theorem Speaks.extend (h : Speaks path p) (hd : Durable path p') {more : List Event}
    (ht : p'.trace = p.trace ++ more) (hno : ∀ epoch peer, .announced epoch peer ∉ more)
    (hb : ∀ epoch, .brought epoch ∈ more → p.handler.epoch < epoch)
    (hwon : p'.phase = .won → p'.saving = none ∧
      (p.phase = .won ∧ p'.handler.epoch = p.handler.epoch ∨ OwnEpoch p'.trace p'.handler.epoch))
    (hspeaker : ∀ epoch peers, p'.phase = .announcing epoch peers →
      ∃ peers', p.phase = .announcing epoch peers') : Speaks path p' := by
  have hkeep : ∀ epoch, OwnEpoch p.trace epoch → .brought epoch ∉ more := by
    intro epoch ho hm
    exact absurd (hb epoch hm) (not_lt_of_ge (h.le ho))
  refine ⟨hd, fun hp => (hwon hp).1, fun hp => ?_, fun epoch peers hp => ?_,
    announcesOwn_append h.announced ht hno hkeep⟩
  · rcases (hwon hp).2 with ⟨hp, he⟩ | ho
    · rw [ht, he]
      exact (h.winner hp).append (hkeep _ (h.winner hp))
    · exact ho
  · obtain ⟨peers', hp⟩ := hspeaker epoch peers hp
    have ho := h.speaker epoch peers' hp
    rw [ht]
    exact ho.append (hkeep epoch ho)

/-- A critical section is entered; when the monitor has won, it does not raise the epoch. -/
theorem Speaks.critical (h : Speaks path p) (hs : p.saving = none) {c : Critical}
    (hd : Durable path (critical cfg p c))
    (hquiet : p.phase = .won → ∀ h' epoch, p.handler.enter c = .write h' epoch → epoch = h'.epoch) :
    Speaks path (critical cfg p c) := by
  have hno : ∀ epoch, .brought epoch ∈ handledBy c → p.handler.epoch < epoch :=
    fun epoch hm => absurd hm (brought_notMem_handledBy c epoch)
  unfold Process.critical at hd ⊢
  split
  next hw =>
    rw [hw] at hd
    refine h.extend hd rfl (announced_notMem_handledBy c) hno (fun hp => ?_) fun epoch peers hp =>
      ?_
    · exact ⟨hs, .inl ⟨announces_of_raised hp trivial, rfl⟩⟩
    · exact ⟨peers, announces_of_raised hp trivial⟩
  next hw =>
    rw [hw] at hd
    refine h.extend hd rfl (fun _ _ hm => nomatch List.mem_singleton.mp hm)
      (fun _ hm => nomatch List.mem_singleton.mp hm) (fun hp => ?_) fun epoch peers hp => ?_
    · exact ⟨hs, .inl ⟨announces_of_raised hp trivial, rfl⟩⟩
    · exact ⟨peers, announces_of_raised hp trivial⟩
  next h' epoch hw =>
    rw [hw] at hd
    obtain ⟨hsame, -⟩ := ElectionHandler.enter_write hw
    dsimp only at hd
    split
    next heq =>
      rw [if_pos heq] at hd
      refine h.extend hd rfl (announced_notMem_handledBy c) hno (fun hp => ⟨hs, .inl ?_⟩)
        fun e peers hp => ?_
      · rcases announces_of_after hp trivial with hp | ⟨-, generation, rfl⟩
        · exact ⟨hp, (ElectionHandler.finish_epoch cfg).trans hsame⟩
        · exact absurd heq (ne_of_win_write hw)
      · rcases announces_of_after hp trivial with hp | ⟨hp', -⟩
        · exact ⟨peers, hp⟩
        · cases hp'
    next hne =>
      rw [if_neg hne] at hd
      refine h.extend hd (List.append_nil _).symm (fun _ _ => List.not_mem_nil)
        (fun _ hm => absurd hm List.not_mem_nil) (fun hp => ?_) fun e peers hp => ⟨peers, hp⟩
      exact absurd (hquiet hp h' epoch hw) hne

/-- The write of a critical section is complete: a winner has an epoch of its own. -/
theorem Speaks.saved (h : Speaks path p) {c : Critical} {epoch : Epoch}
    (hs : p.saving = some ⟨c, epoch, true⟩) :
    Speaks path (complete cfg { p with
      handler := { p.handler with epoch }
      saving := none
      trace := p.trace ++ setBy epoch c } c) := by
  obtain ⟨hlt, -, -⟩ := h.durable.busy _ hs
  have hnotWon : p.phase ≠ .won := fun hp => by
    rw [h.quiet hp] at hs
    cases hs
  have hset : ∀ ev ∈ setBy epoch c ++ handledBy c, (∀ e peer, ev ≠ .announced e peer) ∧
      ∀ e, ev = .brought e → e = epoch := by
    intro ev hm
    rcases List.mem_append.mp hm with hm | hm
    · rcases mem_setBy hm with rfl | rfl | rfl
      · exact ⟨nofun, nofun⟩
      · exact ⟨nofun, nofun⟩
      · exact ⟨nofun, fun e he => by cases he; rfl⟩
    · obtain ⟨e, rfl⟩ := mem_handledBy hm
      exact ⟨nofun, nofun⟩
  refine h.extend (h.durable.saved hs) (List.append_assoc _ _ _) (fun e peer hm =>
    (hset _ hm).1 e peer rfl)
    (fun e hm => (hset _ hm).2 e rfl ▸ hlt) (fun hp => ⟨rfl, .inr ?_⟩) fun e peers hp => ?_
  · rcases announces_of_after hp trivial with hp | ⟨-, generation, rfl⟩
    · exact absurd hp hnotWon
    · refine ⟨?_, fun hb => ?_⟩
      · exact List.mem_append_left _ (List.mem_append_right _ (List.mem_cons_self ..))
      · -- nothing brought the epoch before: it is above all that were held
        have hold : .brought epoch ∈ p.trace := by
          simpa [complete, setBy, handledBy] using hb
        exact absurd hlt (not_lt_of_ge (h.durable.shows _ hold epoch (.inr (.inr (.inr rfl)))))
  · rcases announces_of_after hp trivial with hp | ⟨hp', -⟩
    · exact ⟨peers, hp⟩
    · cases hp'

theorem Speaks.moves (h : Speaks path p) (hq : QuietWin p l) (hm : Moves cfg path p l p') :
    Speaks path p' := by
  have hd := (h.durable.moves hm).1
  have hnil : ∀ {ev : Event}, ev ∉ ([] : List Event) := List.not_mem_nil
  cases hm with
  | thread hepoch hphase =>
    refine h.extend hd (List.append_nil _).symm (fun _ _ => hnil) (fun _ hm => absurd hm hnil)
      (fun hp => ?_) fun e peers hp => ?_
    · rcases hphase with hphase | hphase
      · have hw : p.phase = .won := hphase.symm.trans hp
        exact ⟨h.quiet hw, .inl ⟨hw, hepoch⟩⟩
      · exact absurd (show Phase.Announces .won from trivial) (hp ▸ hphase)
    · rcases hphase with hphase | hphase
      · exact ⟨peers, hphase.symm.trans hp⟩
      · exact absurd (show Phase.Announces (.announcing e peers) from trivial) (hp ▸ hphase)
  | answer hs hp =>
    exact h.critical hs hd fun hw => absurd (show Phase.Announces .won from trivial) (hw ▸ hp)
  | win hs hp =>
    exact h.critical hs hd fun hw => absurd (show Phase.Announces .won from trivial) (hw ▸ hp)
  | handle message hs =>
    refine h.critical hs hd fun hw h' epoch hwrite => ?_
    obtain ⟨hsame, hle⟩ := ElectionHandler.enter_write hwrite
    have hmax : message.messageType ≠ .ok ∧ epoch = max p.handler.epoch message.epoch := by
      unfold ElectionHandler.enter at hwrite
      dsimp only at hwrite
      split at hwrite
      next ht =>
        split at hwrite
        · cases hwrite
        · cases hwrite
          exact ⟨by rw [ht]; nofun, rfl⟩
      next ht =>
        cases hwrite
        exact ⟨by rw [ht]; nofun, rfl⟩
      · cases hwrite
    rw [hsame, hmax.2]
    exact max_eq_left (hq hw hmax.1)
  | readEpoch hs hp =>
    refine ⟨hd, nofun, nofun, fun e peers he => ?_, h.announced⟩
    cases he
    exact h.winner hp
  | @announce _ epoch peer peers hp =>
    have hown := h.speaker epoch (peer :: peers) hp
    have hone : ∀ {e : Epoch}, .brought e ∉ [Event.announced epoch peer] :=
      fun hm => nomatch List.mem_singleton.mp hm
    refine ⟨hd, nofun, nofun, fun e peers' he => ?_, fun e peer' hm => ?_⟩
    · cases he
      exact hown.append hone
    · rcases List.mem_append.mp hm with hm | hm
      · exact (h.announced e peer' hm).append hone
      · cases List.mem_singleton.mp hm
        exact hown.append hone
  | replace hs =>
    refine h.extend hd (List.append_nil _).symm (fun _ _ => hnil) (fun _ hm => absurd hm hnil)
      (fun hp => ?_) fun e peers hp => ⟨peers, hp⟩
    rw [h.quiet hp] at hs
    cases hs
  | saved hs => exact h.saved hs
  | raised hs =>
    refine h.extend hd (List.append_nil _).symm (fun _ _ => hnil) (fun _ hm => absurd hm hnil)
      (fun hp => ?_) fun e peers hp => ⟨peers, announces_of_raised hp trivial⟩
    exact ⟨rfl, .inl ⟨announces_of_raised hp trivial, rfl⟩⟩
  | restart hl =>
    exact h.extend hd rfl (fun _ _ hm => nomatch List.mem_singleton.mp hm)
      (fun _ hm => nomatch List.mem_singleton.mp hm) nofun nofun

/-- **Announced epochs are won epochs.** As long as no message raises the epoch between a win and
the announcement, every `COORDINATOR` carries an epoch at which its sender won, and none that
another monitor brought. -/
theorem announced_epochs_are_won (cfg : MonitorConfig) (path : String) (file : EpochFile)
    (p₀ p : Process) (hb : boot cfg path file [] = .ok p₀)
    (hr : Transition.Reachable (exec cfg path) QuietWin p₀ p) : AnnouncesOwn p := by
  have hinit : Speaks path p₀ := by
    have hd := durable_boot hb
    rw [boot] at hb
    cases hl : file.load path with
    | error e =>
      rw [hl] at hb
      cases hb
    | ok epoch =>
      rw [hl] at hb
      cases hb
      exact ⟨hd, nofun, nofun, nofun, fun _ _ hm => nomatch List.mem_singleton.mp hm⟩
  have hinv : Speaks path p := hr.invariant hinit fun q l q' hq ha he =>
    hq.moves ha (moves_of_exec he)
  exact hinv.announced

/-- A monitor that has won reads its epoch and announces it. -/
def speakUp : List Label := [.readEpoch, .announce, .announce]

theorem announced_epochs_are_won_undisturbed :
    ∃ p, Transition.Reachable (exec secondOfThree "epoch.json") QuietWin freshMonitor p ∧
      .announced 1 1 ∈ p.trace ∧ AnnouncesOwn p := by
  have hrun : (Transition.runAllowed (exec secondOfThree "epoch.json") QuietWin freshMonitor
      (winAlone ++ speakUp)).any fun p => decide (.announced 1 1 ∈ p.trace) := by
    decide +kernel
  obtain ⟨p, hp, hk⟩ := (Option.any_eq_true _ _).mp hrun
  have hr := Transition.reachable_of_runAllowed .init hp
  exact ⟨p, hr, of_decide_eq_true hk,
    announced_epochs_are_won secondOfThree "epoch.json" .missing freshMonitor p rfl hr⟩

/-- The third monitor announces itself at epoch `5` right after the win: the second one accepts it,
and then announces itself at that epoch. -/
theorem announced_epoch_of_another :
    ¬ ∀ p, Transition.Reachable (exec secondOfThree "epoch.json") (fun _ _ => True) freshMonitor p →
      AnnouncesOwn p := by
  intro h
  have hrun :
      (Transition.runAllowed (exec secondOfThree "epoch.json") (fun _ _ => True) freshMonitor
      (winAlone ++ [.handle ⟨.coordinator, 5, 3⟩, .replace, .saved] ++ speakUp)).any fun p =>
        decide (.announced 5 1 ∈ p.trace ∧ .won 5 ∉ p.trace ∧ .brought 5 ∈ p.trace) := by
    decide +kernel
  obtain ⟨p, hp, hk⟩ := (Option.any_eq_true _ _).mp hrun
  obtain ⟨hsent, hnot, -⟩ := of_decide_eq_true hk
  exact hnot (h p (Transition.reachable_of_runAllowed .init hp) 5 1 hsent).1

end Process

end MoneyLaundering.Monitor
