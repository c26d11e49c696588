import MoneyLaundering.Monitor.Process

/-!
# Stale elections

An election holds the generation it took when it started; an accepted `COORDINATOR` and a `stop`
leave it with an old one. `Process` runs the critical sections of one monitor. Here the calls around
them are cut as finely as the threads can interleave: `start_election` looks at `_stop_event` before
it takes the election lock, and `stop` sets the event before it takes the leader lock.
-/

namespace MoneyLaundering.Monitor

/-- What happens to the elections of a process. -/
inductive Mark where
  /-- `start_election` takes a generation. -/
  | took (generation : Nat)
  /-- A `COORDINATOR` is accepted. -/
  | accepted
  /-- `stop` is called. -/
  | stopCalled
  /-- `_become_leader` succeeds. -/
  | won
  deriving DecidableEq

/-- A monitor with the calls in progress, and what has happened since the process started. -/
structure Watched where
  process : Process
  /-- Calls of `start_election` that have seen `_stop_event` unset. -/
  starting : Nat := 0
  /-- Calls of `stop` that have set `_stop_event`. -/
  stopping : Nat := 0
  marks : List Mark := []

inductive WatchedLabel where
  /-- `start_election` is called, and `_stop_event` is not set. -/
  | callStart
  /-- `start_election` does not get the election lock. -/
  | refuse
  /-- `start_election` has the election lock and takes a generation. -/
  | take
  /-- `stop` sets `_stop_event`. -/
  | callStop
  /-- `stop` has the leader lock. -/
  | supersede
  /-- A step of the threads that is neither of these two calls. -/
  | step (l : Label)
  deriving DecidableEq

namespace Watched

variable (cfg : MonitorConfig) (path : String)

/-- The mark of a critical section that has its effect. -/
def markOf : Critical → List Mark
  | .answer _ => []
  | .win _ => [.won]
  | .handle message => if message.messageType = .coordinator then [.accepted] else []

/-- The mark of a critical section that is entered: it has its effect at once, unless it saves. -/
def markEntered (p : Process) (c : Critical) : List Mark :=
  match p.handler.enter c with
  | .write h epoch => if epoch = h.epoch then markOf c else []
  | .leave | .exhausted => []

/-- The mark of a step. -/
def markStep (p : Process) : Label → List Mark
  | .handle message => markEntered p (.handle message)
  | .decide =>
    match p.phase with
    | .polling generation _ [] false => markEntered p (.win generation)
    | _ => []
  | .saved =>
    match p.saving with
    | some ⟨c, _, true⟩ => markOf c
    | _ => []
  | _ => []

/-- One step, `none` when it is not enabled. -/
def exec (w : Watched) : WatchedLabel → Option Watched
  | .callStart =>
    if w.process.handler.stopped = false then some { w with starting := w.starting + 1 } else none
  | .refuse =>
    if 0 < w.starting ∧ w.process.phase ≠ .idle then some { w with starting := w.starting - 1 }
    else none
  | .take =>
    if 0 < w.starting ∧ w.process.phase = .idle ∧ w.process.saving = none then
      let h := w.process.handler
      some
        { w with
          process :=
            { w.process with
              handler := h.startElection
              phase := .polling (h.electionGeneration + 1) h.epoch cfg.electionPeers false }
          starting := w.starting - 1
          marks := w.marks ++ [.took (h.electionGeneration + 1)] }
    else none
  | .callStop =>
    some
      { w with
        process := { w.process with handler := { w.process.handler with stopped := true } }
        stopping := w.stopping + 1
        marks := w.marks ++ [.stopCalled] }
  | .supersede =>
    if 0 < w.stopping ∧ w.process.saving = none then
      let h := w.process.handler
      some
        { w with
          process :=
            { w.process with handler := { h with electionGeneration := h.electionGeneration + 1 } }
          stopping := w.stopping - 1 }
    else none
  | .step .start | .step .stop => none
  | .step .restart => (w.process.exec cfg path .restart).map fun p => { process := p }
  | .step l =>
    (w.process.exec cfg path l).map fun p =>
      { w with process := p, marks := w.marks ++ markStep w.process l }

/-! ## Steps -/

variable {cfg path} {p p' : Process} {l : Label}

/-- What a step of the threads does to the handler and to the save in progress. -/
inductive Turns (cfg : MonitorConfig) (p : Process) : Label → Process → Prop
  | quiet {l : Label} {p' : Process} (hh : p'.handler = p.handler) (hm : markStep p l = [])
      (hs : ∀ s', p'.saving = some s' → ∃ s, p.saving = some s ∧ s.critical = s'.critical) :
      Turns cfg p l p'
  | enters {l : Label} {c : Critical} (hs : p.saving = none)
      (hc : ∀ message, c = .handle message → l = .handle message)
      (hm : markStep p l = markEntered p c) : Turns cfg p l (Process.critical cfg p c)
  | completes {c : Critical} {epoch : Epoch} (hs : p.saving = some ⟨c, epoch, true⟩) :
      Turns cfg p .saved (Process.complete cfg { p with
        handler := { p.handler with epoch }
        saving := none
        trace := p.trace ++ Process.setBy epoch c } c)

theorem markEntered_answer (p : Process) (response : ElectionMessage) :
    markEntered p (.answer response) = [] := by
  unfold markEntered
  split
  · split <;> rfl
  · rfl
  · rfl

theorem turns_of_exec (hl : l ≠ .start ∧ l ≠ .stop ∧ l ≠ .restart)
    (he : p.exec cfg path l = some p') : Turns cfg p l p' := by
  have hkeep : ∀ s', p.saving = some s' → ∃ s, p.saving = some s ∧ s.critical = s'.critical :=
    fun s hs => ⟨s, hs, rfl⟩
  cases l with
  | start => exact absurd rfl hl.1
  | stop => exact absurd rfl hl.2.1
  | restart => exact absurd rfl hl.2.2
  | contactFails =>
    rw [Process.exec] at he
    split at he
    · split at he
      · cases he
        exact .quiet rfl rfl hkeep
      · cases he
    · cases he
  | respond response =>
    dsimp only [Process.exec] at he
    split at he
    · split at he
      · split at he
        · cases he
          exact .quiet rfl rfl hkeep
        · cases he
      · split at he
        next hs _ =>
          cases he
          exact .enters hs nofun (markEntered_answer p _).symm
        · cases he
    · cases he
  | malformed =>
    rw [Process.exec] at he
    split at he
    · split at he
      · cases he
        exact .quiet rfl rfl hkeep
      · cases he
    · cases he
  | decide =>
    rw [Process.exec] at he
    split at he
    next hp =>
      split at he
      next hhigher =>
        subst hhigher
        split at he
        · cases he
          exact .quiet rfl (by rw [markStep, hp]) hkeep
        · cases he
      next hhigher =>
        split at he
        next hs =>
          cases he
          rw [Bool.not_eq_true] at hhigher
          subst hhigher
          exact .enters hs nofun (by rw [markStep, hp])
        · cases he
    · cases he
  | readEpoch =>
    rw [Process.exec] at he
    split at he
    next hp hs =>
      cases he
      exact .quiet rfl rfl hkeep
    · cases he
  | announce =>
    rw [Process.exec] at he
    split at he
    · cases he
      exact .quiet rfl rfl hkeep
    · cases he
      exact .quiet rfl rfl hkeep
    · cases he
  | handle message =>
    rw [Process.exec] at he
    split at he
    next hs =>
      cases he
      exact .enters hs (fun m hm => by cases hm; rfl) rfl
    · cases he
  | replace =>
    rw [Process.exec] at he
    split at he
    next hs =>
      cases he
      exact .quiet rfl rfl fun s' hs' => by cases hs'; exact ⟨_, hs, rfl⟩
    · cases he
  | saved =>
    rw [Process.exec] at he
    split at he
    next hs =>
      cases he
      exact .completes hs
    · cases he
  | raised =>
    rw [Process.exec] at he
    split at he
    next hs =>
      cases he
      exact .quiet rfl rfl nofun
    · cases he

/-- The critical section handles a `COORDINATOR`. -/
def Coordinates (c : Critical) : Prop := ∃ message, c = .handle message ∧
    message.messageType = .coordinator

theorem markOf_cases (c : Critical) :
    markOf c = [] ∧ ¬ Coordinates c ∧ (∀ generation, c ≠ .win generation) ∨
      markOf c = [.accepted] ∧ Coordinates c ∨ markOf c = [.won] ∧ ∃ generation,
      c = .win generation := by
  cases c with
  | answer response =>
    refine .inl ⟨rfl, ?_, nofun⟩
    rintro ⟨_, h, -⟩
    cases h
  | win generation => exact .inr (.inr ⟨rfl, generation, rfl⟩)
  | handle message =>
    by_cases ht : message.messageType = .coordinator
    · exact .inr (.inl ⟨if_pos ht, message, rfl, ht⟩)
    · refine .inl ⟨if_neg ht, ?_, nofun⟩
      rintro ⟨_, h, ht'⟩
      cases h
      exact ht ht'

/-- What stands before the write of the epoch: only the generation changes, and it grows for a
`COORDINATOR`. -/
structure Begins (h : ElectionHandler) (c : Critical) (h' : ElectionHandler) : Prop where
  leader : h'.leader = h.leader
  running : h'.leaderRunning = h.leaderRunning
  stopped : h'.stopped = h.stopped
  generation : h.electionGeneration ≤ h'.electionGeneration
  coordinates : Coordinates c → h.electionGeneration < h'.electionGeneration

theorem begins_of_write {h h' : ElectionHandler} {c : Critical} {epoch : Epoch}
    (hw : h.enter c = .write h' epoch) : Begins h c h' := by
  have hno : ∀ {c : Critical},
      (∀ message, c = .handle message → message.messageType ≠ .coordinator) →
      Begins h c h := by
    intro c hc
    refine ⟨rfl, rfl, rfl, le_refl _, ?_⟩
    rintro ⟨message, hm, ht⟩
    exact absurd ht (hc message hm)
  unfold ElectionHandler.enter at hw
  split at hw
  · cases hw
    exact hno nofun
  · split at hw
    · cases hw
    · split at hw
      · cases hw
      · cases hw
        exact hno nofun
  next message =>
    split at hw
    · split at hw
      · cases hw
      · cases hw
        exact ⟨rfl, rfl, rfl, Nat.le_succ _, fun _ => Nat.lt_succ_self _⟩
    next ht =>
      cases hw
      refine hno fun m hm => ?_
      cases hm
      rw [ht]
      nofun
    · cases hw

/-- A step of the threads, or a new process. -/
theorem step_cases {w w' : Watched} (he : w.exec cfg path (.step l) = some w') :
    (∃ p', Turns cfg w.process l p' ∧
      w' = { w with process := p', marks := w.marks ++ markStep w.process l }) ∨
    ∃ epoch trace,
    w' = { process := { handler := .init cfg epoch, file := w.process.file, trace } } := by
  have hturn : ∀ {l : Label}, l ≠ .start ∧ l ≠ .stop ∧ l ≠ .restart →
      ((w.process.exec cfg path l).map fun p =>
        { w with process := p, marks := w.marks ++ markStep w.process l }) = some w' →
      ∃ p', Turns cfg w.process l p' ∧
        w' = { w with process := p', marks := w.marks ++ markStep w.process l } := by
    intro l hl he
    obtain ⟨p', hp, rfl⟩ := Option.map_eq_some_iff.mp he
    exact ⟨p', turns_of_exec hl hp, rfl⟩
  cases l with
  | start => cases he
  | stop => cases he
  | restart =>
    rw [exec, Process.exec, Process.boot] at he
    cases hl : w.process.file.load path with
    | error e =>
      rw [hl] at he
      cases he
    | ok epoch =>
      rw [hl] at he
      cases he
      exact .inr ⟨epoch, _, rfl⟩
  | _ => exact .inl (hturn (by simp) he)

variable (cfg) in
/-- A thread enters a critical section: nothing happens, it is over at once, or it saves. -/
theorem critical_cases (p : Process) (c : Critical) :
    let q := Process.critical cfg p c
    q.handler = p.handler ∧ q.saving = p.saving ∧ markEntered p c = [] ∨
    (∃ h', Begins p.handler c h' ∧ q.handler = h'.finish cfg c ∧ q.saving = p.saving ∧
      markEntered p c = markOf c) ∨
    ∃ h' epoch, Begins p.handler c h' ∧ q.handler = h' ∧ q.saving = some ⟨c, epoch, false⟩ ∧
      markEntered p c = [] := by
  unfold Process.critical markEntered
  cases hw : p.handler.enter c with
  | leave => exact .inl ⟨rfl, rfl, rfl⟩
  | exhausted => exact .inl ⟨rfl, rfl, rfl⟩
  | write h epoch =>
    dsimp only
    split
    · exact .inr (.inl ⟨h, begins_of_write hw, rfl, rfl, rfl⟩)
    · exact .inr (.inr ⟨h, epoch, begins_of_write hw, rfl, rfl, rfl⟩)

variable (cfg) in
/-- The effect of a critical section leaves the generation and the stop alone. -/
theorem finish_generation (h : ElectionHandler) (c : Critical) :
    (h.finish cfg c).electionGeneration = h.electionGeneration ∧
      (h.finish cfg c).stopped = h.stopped := by
  unfold ElectionHandler.finish
  split
  · exact ⟨rfl, rfl⟩
  · exact ⟨rfl, rfl⟩
  · split <;> exact ⟨rfl, rfl⟩

/-! ## Elections that are overtaken -/

/-- A `COORDINATOR` was accepted or `stop` was called after the election took its generation. -/
def Interrupted (marks : List Mark) (generation : Nat) : Prop :=
  ∃ before after, marks = before ++ .took generation :: after ∧
  (.accepted ∈ after ∨ .stopCalled ∈ after)

theorem interrupted_append {marks more : List Mark} {generation : Nat}
    (hmore : more = [] ∨ ∃ m, more = [m]) (h : Interrupted (marks ++ more) generation) :
    Interrupted marks generation ∨
      .took generation ∈ marks ∧ (.accepted ∈ more ∨ .stopCalled ∈ more) := by
  rcases hmore with rfl | ⟨m, rfl⟩
  · rw [List.append_nil] at h
    exact .inl h
  obtain ⟨before, after, he, hi⟩ := h
  rcases List.eq_nil_or_concat after with rfl | ⟨after, x, rfl⟩
  · simp at hi
  · rw [List.concat_eq_append, ← List.cons_append, ← List.append_assoc] at he
    obtain ⟨rfl, hx⟩ := List.append_inj' he rfl
    cases hx
    simp only [List.concat_eq_append, List.mem_append, List.mem_singleton] at hi ⊢
    rcases hi with (hi | hi) | (hi | hi)
    · exact .inl ⟨before, after, rfl, .inl hi⟩
    · exact .inr ⟨by simp, .inl hi⟩
    · exact .inl ⟨before, after, rfl, .inr hi⟩
    · exact .inr ⟨by simp, .inr hi⟩

/-- No generation is newer than the current one, and an election that was interrupted has an older
one or finds the monitor stopped. -/
structure Outdates (w : Watched) : Prop where
  took : ∀ generation, .took generation ∈ w.marks →
    generation ≤ w.process.handler.electionGeneration
  stale : ∀ generation, Interrupted w.marks generation →
    w.process.handler.stopped = true ∨ generation < w.process.handler.electionGeneration
  saving : ∀ s, w.process.saving = some s → Coordinates s.critical →
    ∀ generation, .took generation ∈ w.marks → generation < w.process.handler.electionGeneration

variable {w w' : Watched}

theorem Outdates.extend (h : Outdates w) {more : List Mark} (hm : w'.marks = w.marks ++ more)
    (hone : more = [] ∨ ∃ m, more = [m])
    (hstop : w.process.handler.stopped = true → w'.process.handler.stopped = true)
    (hgen : w.process.handler.electionGeneration ≤ w'.process.handler.electionGeneration)
    (htook : ∀ generation, .took generation ∈ more →
      generation ≤ w'.process.handler.electionGeneration)
    (haccepted : .accepted ∈ more → ∀ generation, .took generation ∈ w.marks →
      generation < w'.process.handler.electionGeneration)
    (hcalled : .stopCalled ∈ more → w'.process.handler.stopped = true)
    (hsaving : ∀ s, w'.process.saving = some s → Coordinates s.critical → more = [] ∧
      ∀ generation, .took generation ∈ w.marks →
        generation < w'.process.handler.electionGeneration) :
    Outdates w' := by
  refine ⟨fun g hg => ?_, fun g hg => ?_, fun s hs hc g hg => ?_⟩
  · rw [hm] at hg
    rcases List.mem_append.mp hg with hg | hg
    · exact (h.took g hg).trans hgen
    · exact htook g hg
  · rw [hm] at hg
    rcases interrupted_append hone hg with hg | ⟨hg, hi⟩
    · exact (h.stale g hg).imp hstop fun hlt => lt_of_lt_of_le hlt hgen
    · exact hi.elim (fun ha => .inr (haccepted ha g hg)) fun hc => .inl (hcalled hc)
  · obtain ⟨hnil, hlt⟩ := hsaving s hs hc
    rw [hm, hnil, List.append_nil] at hg
    exact hlt g hg

/-- The threads take a step. -/
theorem Outdates.turns (h : Outdates w) (ht : Turns cfg w.process l p') :
    Outdates { w with process := p', marks := w.marks ++ markStep w.process l } := by
  -- the mark of a critical section that has its effect on `q`
  have heffect : ∀ {c : Critical} {q : ElectionHandler},
      q.electionGeneration = p'.handler.electionGeneration →
      w.process.handler.electionGeneration ≤ q.electionGeneration →
      (Coordinates c → ∀ generation, .took generation ∈ w.marks →
        generation < q.electionGeneration) →
      (w.process.handler.stopped = true → p'.handler.stopped = true) → p'.saving = none →
      Outdates { w with process := p', marks := w.marks ++ markOf c } := by
    intro c q hq hgen hlt hstop hsaving
    rw [hq] at hgen hlt
    have hnone : ∀ s, p'.saving = some s → Coordinates s.critical → markOf c = [] ∧
        ∀ generation, .took generation ∈ w.marks → generation < p'.handler.electionGeneration := by
      intro s hs
      rw [hsaving] at hs
      cases hs
    rcases markOf_cases c with ⟨hnil, -, -⟩ | ⟨hone, hc⟩ | ⟨hone, -⟩
    · exact h.extend rfl (.inl hnil) hstop hgen (by simp [hnil]) (by simp [hnil])
        (by simp [hnil]) hnone
    · exact h.extend rfl (.inr ⟨_, hone⟩) hstop hgen (by simp [hone]) (fun _ => hlt hc)
        (by simp [hone])
        hnone
    · exact h.extend rfl (.inr ⟨_, hone⟩) hstop hgen (by simp [hone]) (by simp [hone])
        (by simp [hone])
        hnone
  cases ht with
  | quiet hh hm hs =>
    rw [hm]
    refine h.extend rfl (.inl rfl) (fun hst => hh ▸ hst) (le_of_eq (hh ▸ rfl)) nofun nofun nofun
      fun s' hs' hc => ⟨rfl, fun g hg => ?_⟩
    obtain ⟨s, hsome, hcrit⟩ := hs s' hs'
    rw [hh]
    exact h.saving s hsome (hcrit ▸ hc) g hg
  | @enters _ c hs hc hm =>
    rw [hm]
    rcases critical_cases cfg w.process c with ⟨hh, hsav, hnil⟩ |
      ⟨h', hb, hh, hsav, hmark⟩ | ⟨h', epoch, hb, hh, hsav, hnil⟩
    · rw [hnil]
      refine h.extend rfl (.inl rfl) (fun hst => hh ▸ hst) (le_of_eq (hh ▸ rfl)) nofun nofun nofun
        fun s' hs' => ?_
      rw [hsav, hs] at hs'
      cases hs'
    · rw [hmark]
      obtain ⟨hgen, hstop⟩ := finish_generation cfg h' c
      refine heffect (q := h') (by rw [hh, hgen]) hb.generation (fun hco g hg => ?_) (fun hst => ?_)
        (hsav.trans hs)
      · exact lt_of_le_of_lt (h.took g hg) (hb.coordinates hco)
      · rw [hh, hstop, hb.stopped]
        exact hst
    · rw [hnil]
      refine h.extend rfl (.inl rfl) (fun hst => ?_) ?_ nofun nofun nofun
        fun s' hs' hco => ⟨rfl, fun g hg => ?_⟩
      · rw [hh, hb.stopped]
        exact hst
      · rw [hh]
        exact hb.generation
      · rw [hsav] at hs'
        cases hs'
        rw [hh]
        exact lt_of_le_of_lt (h.took g hg) (hb.coordinates hco)
  | @completes c epoch hs =>
    have hmark : markStep w.process .saved = markOf c := by rw [markStep, hs]
    rw [hmark]
    obtain ⟨hgen, hstop⟩ := finish_generation cfg { w.process.handler with epoch } c
    exact heffect (q := w.process.handler) hgen.symm (le_refl _) (h.saving _ hs) (fun hst =>
      hstop.trans hst)
      rfl

theorem outdates_init (cfg : MonitorConfig) (epoch : Epoch) (file : EpochFile)
    (trace : List Event) :
    Outdates { process := { handler := .init cfg epoch, file, trace } } := by
  refine ⟨nofun, ?_, nofun⟩
  rintro generation ⟨before, after, he, -⟩
  simp at he

theorem Outdates.exec (h : Outdates w) {label : WatchedLabel}
    (he : w.exec cfg path label = some w') :
    Outdates w' := by
  cases label with
  | callStart =>
    rw [Watched.exec] at he
    split at he
    · cases he
      exact ⟨h.took, h.stale, h.saving⟩
    · cases he
  | refuse =>
    rw [Watched.exec] at he
    split at he
    · cases he
      exact ⟨h.took, h.stale, h.saving⟩
    · cases he
  | take =>
    rw [Watched.exec] at he
    split at he
    next hc =>
      cases he
      refine h.extend rfl (.inr ⟨_, rfl⟩) id (Nat.le_succ _) (fun g hg => ?_) (by simp) (by simp)
        fun s hs => ?_
      · cases List.mem_singleton.mp hg
        exact le_refl _
      · rw [hc.2.2] at hs
        cases hs
    · cases he
  | callStop =>
    rw [Watched.exec] at he
    cases he
    refine ⟨fun g hg => ?_, fun g _ => .inl rfl, fun s hs hc g hg => ?_⟩
    · exact h.took g (by simpa using hg)
    · exact h.saving s hs hc g (by simpa using hg)
  | supersede =>
    rw [Watched.exec] at he
    split at he
    next hc =>
      cases he
      refine h.extend (List.append_nil _).symm (.inl rfl) id (Nat.le_succ _) nofun nofun nofun
        fun s hs => ?_
      rw [hc.2] at hs
      cases hs
    · cases he
  | step l =>
    rcases step_cases he with ⟨p', ht, rfl⟩ | ⟨epoch, trace, rfl⟩
    · exact h.turns ht
    · exact outdates_init cfg epoch _ trace

/-! ## Leaders that were elected -/

/-- An election was won, and since then no `COORDINATOR` was accepted and no election was
started. -/
def Elected (marks : List Mark) : Prop :=
  ∃ before after, marks = before ++ .won :: after ∧ .accepted ∉ after ∧
    ∀ generation, .took generation ∉ after

theorem elected_won (marks : List Mark) : Elected (marks ++ [.won]) :=
  ⟨marks, [], rfl, nofun, nofun⟩

theorem Elected.stopCalled {marks : List Mark} (h : Elected marks) :
    Elected (marks ++ [.stopCalled]) := by
  obtain ⟨before, after, rfl, ha, ht⟩ := h
  exact ⟨before, after ++ [.stopCalled], by simp, by simpa using ha, by simpa using ht⟩

/-- No received message carries the monitor's own id. -/
def Foreign (cfg : MonitorConfig) (_ : Watched) (label : WatchedLabel) : Prop :=
  ∀ message, label = .step (.handle message) → message.senderId ≠ cfg.monitorId

instance (cfg : MonitorConfig) (w : Watched) (label : WatchedLabel) :
    Decidable (Foreign cfg w label) :=
  match label with
  | .step (.handle message) =>
    decidable_of_iff (message.senderId ≠ cfg.monitorId)
      ⟨fun h m hm => by cases hm; exact h, fun h => h message rfl⟩
  | .step .start | .step .contactFails | .step (.respond _) | .step .malformed | .step .decide
  | .step .readEpoch
  | .step .announce | .step .replace | .step .saved | .step .raised | .step .stop | .step .restart
  | .callStart | .refuse | .take | .callStop | .supersede => .isTrue nofun

/-- A monitor that reports itself as the leader was elected. -/
structure Reports (cfg : MonitorConfig) (w : Watched) : Prop where
  elected : w.process.handler.iAmLeader cfg → Elected w.marks
  saving : ∀ s, w.process.saving = some s → ∀ message, s.critical = .handle message →
    message.senderId ≠ cfg.monitorId

/-- A critical section has its effect. -/
theorem Reports.effect (h : Reports cfg w) {c : Critical} {q : ElectionHandler}
    (hl : q.leader = w.process.handler.leader)
    (hr : q.leaderRunning = w.process.handler.leaderRunning)
    (hc : ∀ message, c = .handle message → message.senderId ≠ cfg.monitorId) :
    (q.finish cfg c).iAmLeader cfg → Elected (w.marks ++ markOf c) := by
  have hsame : markOf c = [] → q.finish cfg c = q → (q.finish cfg c).iAmLeader cfg →
      Elected (w.marks ++ markOf c) := by
    intro hnil hfin hi
    rw [hfin, ElectionHandler.iAmLeader, hl, hr] at hi
    rw [hnil, List.append_nil]
    exact h.elected hi
  cases c with
  | answer response => exact hsame rfl rfl
  | win generation => exact fun _ => elected_won w.marks
  | handle message =>
    cases ht : message.messageType with
    | coordinator =>
      intro hi
      rw [ElectionHandler.finish, ht] at hi
      exact absurd hi.2 (hc message rfl)
    | election => exact hsame (by simp [markOf, ht]) (by simp [ElectionHandler.finish, ht])
    | ok => exact hsame (by simp [markOf, ht]) (by simp [ElectionHandler.finish, ht])

theorem Reports.turns (h : Reports cfg w) (hf : Foreign cfg w (.step l))
    (ht : Turns cfg w.process l p') :
    Reports cfg { w with process := p', marks := w.marks ++ markStep w.process l } := by
  cases ht with
  | quiet hh hm hs =>
    refine ⟨fun hi => ?_, fun s' hs' message hc => ?_⟩
    · rw [hm, List.append_nil]
      exact h.elected (hh ▸ hi)
    · obtain ⟨s, hsome, hcrit⟩ := hs s' hs'
      exact h.saving s hsome message (hcrit.trans hc)
  | @enters _ c hs hc hm =>
    rw [hm]
    have hforeign : ∀ message, c = .handle message → message.senderId ≠ cfg.monitorId := by
      intro message he
      exact hf message (congrArg _ (hc message he))
    rcases critical_cases cfg w.process c with ⟨hh, hsav, hnil⟩ |
      ⟨h', hb, hh, hsav, hmark⟩ | ⟨h', epoch, hb, hh, hsav, hnil⟩
    · refine ⟨fun hi => ?_, fun s' hs' => ?_⟩
      · rw [hnil, List.append_nil]
        exact h.elected (hh ▸ hi)
      · rw [hsav, hs] at hs'
        cases hs'
    · refine ⟨fun hi => ?_, fun s' hs' => ?_⟩
      · rw [hmark]
        exact h.effect hb.leader hb.running hforeign (hh ▸ hi)
      · rw [hsav, hs] at hs'
        cases hs'
    · refine ⟨fun hi => ?_, fun s' hs' message he => ?_⟩
      · rw [hh, ElectionHandler.iAmLeader, hb.leader, hb.running] at hi
        rw [hnil, List.append_nil]
        exact h.elected hi
      · rw [hsav] at hs'
        cases hs'
        exact hforeign message he
  | @completes c epoch hs =>
    have hmark : markStep w.process .saved = markOf c := by rw [markStep, hs]
    refine ⟨fun hi => ?_, nofun⟩
    rw [hmark]
    exact h.effect (q := { w.process.handler with epoch }) rfl rfl (h.saving _ hs) hi

theorem Reports.exec (h : Reports cfg w) {label : WatchedLabel} (hf : Foreign cfg w label)
    (he : w.exec cfg path label = some w') : Reports cfg w' := by
  cases label with
  | callStart =>
    rw [Watched.exec] at he
    split at he
    · cases he
      exact ⟨h.elected, h.saving⟩
    · cases he
  | refuse =>
    rw [Watched.exec] at he
    split at he
    · cases he
      exact ⟨h.elected, h.saving⟩
    · cases he
  | take =>
    rw [Watched.exec] at he
    split at he
    next hc =>
      cases he
      refine ⟨fun hi => ?_, h.saving⟩
      cases hi.1
    · cases he
  | callStop =>
    rw [Watched.exec] at he
    cases he
    exact ⟨fun hi => (h.elected hi).stopCalled, h.saving⟩
  | supersede =>
    rw [Watched.exec] at he
    split at he
    · cases he
      exact ⟨h.elected, h.saving⟩
    · cases he
  | step l =>
    rcases step_cases he with ⟨p', ht, rfl⟩ | ⟨epoch, trace, rfl⟩
    · exact h.turns hf ht
    · exact ⟨fun hi => (nomatch hi.1), nofun⟩

/-- A monitor whose process has just started, with the epoch that it loaded. -/
def boot (cfg : MonitorConfig) (epoch : Epoch) (file : EpochFile) : Watched where
  process := { handler := .init cfg epoch, file, trace := [.held epoch] }

/-- **A stale election changes nothing.** When the `_become_leader` of an election gets the leader
lock after a `COORDINATOR` was accepted or `stop` was called, it leaves the handler as it is and
saves nothing. A monitor that received no message with its own id reports itself as the leader only
after it was elected. -/
theorem stale_elections (cfg : MonitorConfig) (path : String) (epoch : Epoch) (file : EpochFile)
    (w : Watched) :
    (Transition.Reachable (exec cfg path) (fun _ _ => True) (boot cfg epoch file) w →
      ∀ generation started w',
        w.process.phase = .polling generation started [] false → Interrupted w.marks generation →
        w.exec cfg path (.step .decide) = some w' →
        w'.process.handler = w.process.handler ∧ w'.process.saving = none) ∧
    (Transition.Reachable (exec cfg path) (Foreign cfg) (boot cfg epoch file) w →
      w.process.handler.iAmLeader cfg → Elected w.marks) := by
  refine ⟨fun hr generation started w' hp hi he => ?_, fun hr => ?_⟩
  · have hinv : Outdates w :=
      hr.invariant (outdates_init cfg epoch file _) fun _ _ _ h _ he => h.exec he
    have hleave : w.process.handler.enter (.win generation) = .leave := by
      refine if_pos ?_
      rcases hinv.stale generation hi with hstop | hlt
      · exact .inl hstop
      · exact .inr (.inl (ne_of_lt hlt))
    simp only [exec, Process.exec, hp] at he
    cases hs : w.process.saving with
    | some s => simp [hs] at he
    | none =>
      simp only [hs, Bool.false_eq_true, if_false, Option.map_some, Process.critical, hleave] at he
      cases he
      exact ⟨rfl, rfl⟩
  · have hinit : Reports cfg (boot cfg epoch file) := ⟨fun hi => (nomatch hi.1), nofun⟩
    have hinv : Reports cfg w := hr.invariant hinit fun _ _ _ h hf he => h.exec hf he
    exact hinv.elected

/-- The second of three monitors. -/
def middle : MonitorConfig := ⟨2, 3, MonitorConfig.three_range, MonitorConfig.two_range⟩

/-- It starts an election and finds no peer. -/
def pollAlone : List WatchedLabel := [.callStart, .take, .step .contactFails, .step .contactFails]

/-- The third monitor announces itself before the second one becomes the leader; undisturbed, the
second one does. -/
theorem stale_elections_overtaken :
    (∃ w w' : Watched, Interrupted w.marks 1 ∧
      w.exec middle "epoch.json" (.step .decide) = some w' ∧
      w'.process.handler = w.process.handler) ∧
    ∃ w : Watched, w.process.handler.iAmLeader middle ∧ Elected w.marks := by
  constructor
  · have hrun : (Transition.runAllowed (exec middle "epoch.json") (fun _ _ => True)
        (boot middle 0 .missing)
        (pollAlone ++ [.step (.handle ⟨.coordinator, 5, 3⟩), .step .replace,
          .step .saved])).any fun w => decide (w.process.phase = .polling 1 0 [] false ∧
            w.marks = [.took 1, .accepted]) &&
              (w.exec middle "epoch.json" (.step .decide)).isSome := by
      decide +kernel
    obtain ⟨w, hw, hk⟩ := (Option.any_eq_true _ _).mp hrun
    obtain ⟨hk, hdecides⟩ := Bool.and_eq_true_iff.mp hk
    obtain ⟨hp, hm⟩ := of_decide_eq_true hk
    obtain ⟨w', hw'⟩ := Option.isSome_iff_exists.mp hdecides
    have hi : Interrupted w.marks 1 := ⟨[], [.accepted], hm, .inl (List.mem_singleton_self _)⟩
    exact ⟨w, w', hi, hw', ((stale_elections middle "epoch.json" 0 .missing w).1
      (Transition.reachable_of_runAllowed .init hw) 1 0 w' hp hi hw').1⟩
  · have hrun : (Transition.runAllowed (exec middle "epoch.json") (Foreign middle)
        (boot middle 0 .missing) (pollAlone ++ [.step .decide, .step .replace,
          .step .saved])).any fun w => decide (w.process.handler.iAmLeader middle) := by
      decide +kernel
    obtain ⟨w, hw, hk⟩ := (Option.any_eq_true _ _).mp hrun
    have hl := of_decide_eq_true hk
    exact ⟨w, hl, (stale_elections middle "epoch.json" 0 .missing w).2
      (Transition.reachable_of_runAllowed .init hw) hl⟩

/-- A step of the `_become_leader` of an election: it gets the leader lock, or the epoch is
saved. -/
def BecomesLeader (w : Watched) (generation : Nat) : Label → Prop
  | .decide => ∃ started, w.process.phase = .polling generation started [] false
  | .saved => ∃ epoch, w.process.saving = some ⟨.win generation, epoch, true⟩
  | _ => False

/-- `stop` is called while the second monitor, which found no peer, saves its new epoch. -/
def stopWhileSaving : List WatchedLabel :=
  pollAlone ++ [.step .decide, .callStop, .step .replace]

/-- `stop` does not wait for the leader lock before it sets its event, so it can be called while
`_become_leader` saves the epoch; the election is won all the same. -/
theorem stopped_while_saving :
    ¬ ∀ (cfg : MonitorConfig) (path : String) (epoch : Epoch) (file : EpochFile) (w w' : Watched)
      (generation : Nat) (l : Label),
      Transition.Reachable (exec cfg path) (fun _ _ => True) (boot cfg epoch file) w →
      Interrupted w.marks generation → w.BecomesLeader generation l →
      w.exec cfg path (.step l) = some w' →
      w'.process.handler.leader = w.process.handler.leader ∧
        w'.process.handler.epoch = w.process.handler.epoch ∧
        w'.process.handler.state = w.process.handler.state := by
  intro h
  have hrun : (Transition.runAllowed (exec middle "epoch.json") (fun _ _ => True)
      (boot middle 0 .missing) stopWhileSaving).any fun w =>
        decide (w.process.saving = some ⟨.win 1, 1, true⟩ ∧ w.marks = [.took 1, .stopCalled]) &&
          (w.exec middle "epoch.json" (.step .saved)).any fun w' =>
            decide (w'.process.handler.leader ≠ w.process.handler.leader) := by
    decide +kernel
  obtain ⟨w, hw, hk⟩ := (Option.any_eq_true _ _).mp hrun
  obtain ⟨hk, hwins⟩ := Bool.and_eq_true_iff.mp hk
  obtain ⟨hs, hm⟩ := of_decide_eq_true hk
  obtain ⟨w', hw', hleader⟩ := (Option.any_eq_true _ _).mp hwins
  have hi : Interrupted w.marks 1 := ⟨[], [.stopCalled], hm, .inr (List.mem_singleton_self _)⟩
  exact of_decide_eq_true hleader (h middle "epoch.json" 0 .missing w w' 1 .saved
    (Transition.reachable_of_runAllowed .init hw) hi ⟨1, hs⟩ hw').1

end Watched

end MoneyLaundering.Monitor
