import Mathlib.Data.List.Basic
import MoneyLaundering.Gateway.Results

/-!
# The consumer threads of the gateway

What the callbacks of five consumers do to one queue object, however their puts interleave: an item
is in the queue or with the callback that will put it. A step that is not about a client leaves all
that its session sees as it is.
-/

namespace MoneyLaundering

open InternalProtocol Transition
open List (Perm)

namespace Gateway

variable {cfg : GatewayConfig}

/-- What was put into a queue object. -/
def queue (g : Gateway) (k : Nat) : List QueueItem := g.queues[k]?.getD []

/-! ## The shared state between sessions -/

/-- Queue objects in use exist and belong to one client each; only connected clients have
remembered keys. -/
structure WF (g : Gateway) : Prop where
  queue_lt : ∀ {c k}, g.clientQueues.get? c = some k → k < g.queues.length
  queue_inj : ∀ {c c' k}, g.clientQueues.get? c = some k → g.clientQueues.get? c' = some k → c = c'
  task_lt : ∀ {q t}, g.tasks q = some t → t.queue < g.queues.length
  seen : ∀ k ∈ g.addressedResultSeen, (g.clientQueues.get? k.clientId).isSome

theorem WF.init : WF {} where
  queue_lt h := by cases h
  queue_inj h := by cases h
  task_lt h := by cases h
  seen k hk := by cases hk

variable {g g' : Gateway} {q : Query}

theorem WF.openSession (h : g.WF) (c : Nat) : (g.openSession cfg c).WF where
  queue_lt {c' k} hk := by
    simp only [Gateway.openSession, Dict.get?_set, List.length_append,
      List.length_singleton] at hk ⊢
    split at hk
    · cases hk
      omega
    · exact Nat.lt_succ_of_lt (h.queue_lt hk)
  queue_inj {c₁ c₂ k} h₁ h₂ := by
    simp only [Gateway.openSession, Dict.get?_set] at h₁ h₂
    split at h₁ <;> split at h₂
    · next e₁ e₂ => exact e₁.symm.trans e₂
    · cases h₁
      exact absurd (h.queue_lt h₂) (Nat.lt_irrefl _)
    · cases h₂
      exact absurd (h.queue_lt h₁) (Nat.lt_irrefl _)
    · exact h.queue_inj h₁ h₂
  task_lt ht := by
    simp only [Gateway.openSession, List.length_append, List.length_singleton]
    exact Nat.lt_succ_of_lt (h.task_lt ht)
  seen k hk := by
    simp only [Gateway.openSession, Dict.get?_set]
    split
    · rfl
    · exact h.seen k hk

theorem WF.closeSession (h : g.WF) (c : Nat) : (g.closeSession c).WF where
  queue_lt hk := by
    simp only [Gateway.closeSession, Dict.get?_erase] at hk
    split at hk
    · cases hk
    · exact h.queue_lt hk
  queue_inj h₁ h₂ := by
    simp only [Gateway.closeSession, Dict.get?_erase] at h₁ h₂
    split at h₁ <;> split at h₂
    · cases h₁
    · cases h₁
    · cases h₂
    · exact h.queue_inj h₁ h₂
  task_lt ht := h.task_lt ht
  seen k hk := by
    obtain ⟨hk, hne⟩ := List.mem_filter.mp hk
    simp only [Gateway.closeSession, Dict.get?_erase, if_neg (of_decide_eq_true hne)]
    exact h.seen k hk

theorem WF.accept (h : g.WF) {m : UnpackedResult} {k : Nat}
    (hk : g.clientQueues.get? m.clientId = some k) : (g.accept cfg q m k).WF where
  queue_lt hk' := h.queue_lt hk'
  queue_inj h₁ h₂ := h.queue_inj h₁ h₂
  task_lt {q' t} ht := by
    simp only [Gateway.accept] at ht
    split at ht
    · cases ht
      exact h.queue_lt hk
    · exact h.task_lt ht
  seen key hkey := by
    rcases List.mem_append.mp hkey with hkey | hkey
    · obtain ⟨a, -, rfl⟩ := Option.map_eq_some_iff.mp (Option.mem_toList.mp hkey)
      exact Option.isSome_iff_exists.mpr ⟨k, hk⟩
    · exact h.seen key hkey

/-- A delivery either settles at once, with nothing else changed, or is admitted for a connected
client. -/
theorem receive_cases (cfg : GatewayConfig) (g : Gateway) (q : Query) (message : Bytes) :
    (∃ acks, g.receive cfg q message = g.settle q acks) ∨
    ∃ m k, unpackResult q message = .ok m ∧ g.clientQueues.get? m.clientId = some k ∧
      g.receive cfg q message = g.accept cfg q m k := by
  unfold receive
  split
  · exact .inl ⟨_, rfl⟩
  · next m hm =>
    split
    · exact .inl ⟨_, rfl⟩
    · next k hk =>
      split
      · exact .inl ⟨_, rfl⟩
      · exact .inr ⟨m, k, hm, hk, rfl⟩

/-- After the lock a callback puts its next item, or is done. -/
theorem advance_cases (h : g.advance q = some g') : ∃ t, g.tasks q = some t ∧
    ((∃ item puts, t.puts = item :: puts ∧ g' = { g with
        queues := g.queues.modify t.queue (· ++ [item])
        tasks := fun q' => if q' = q then some ⟨t.queue, puts, t.acks⟩ else g.tasks q' }) ∨
      (t.puts = [] ∧ g' = { g.settle q t.acks with
        tasks := fun q' => if q' = q then none else g.tasks q' })) := by
  unfold advance at h
  split at h
  · cases h
  · next k item puts acks ht =>
    cases h
    exact ⟨_, ht, .inl ⟨item, puts, rfl, rfl⟩⟩
  · next k acks ht =>
    cases h
    exact ⟨_, ht, .inr ⟨rfl, rfl⟩⟩

theorem WF.advance (h : g.WF) (he : g.advance q = some g') : g'.WF := by
  obtain ⟨t, ht, ⟨item, puts, -, rfl⟩ | ⟨-, rfl⟩⟩ := advance_cases he
  · refine ⟨fun hk => ?_, h.queue_inj, fun {q' t'} ht' => ?_, h.seen⟩
    · rw [List.length_modify]
      exact h.queue_lt hk
    · rw [List.length_modify]
      dsimp only at ht'
      split at ht'
      · cases ht'
        exact (h.task_lt ht : t.queue < _)
      · exact h.task_lt ht'
  · refine ⟨h.queue_lt, h.queue_inj, fun {q' t'} ht' => ?_, h.seen⟩
    dsimp only at ht'
    split at ht'
    · cases ht'
    · exact h.task_lt ht'

theorem WF.receive (h : g.WF) (message : Bytes) : (g.receive cfg q message).WF := by
  obtain ⟨acks, e⟩ | ⟨m, k, -, hk, e⟩ := receive_cases cfg g q message
  · rw [e]
    exact ⟨h.queue_lt, h.queue_inj, h.task_lt, h.seen⟩
  · rw [e]
    exact h.accept hk

theorem WF.exec {l : Label} (h : g.WF) (he : g.exec cfg l = some g') : g'.WF := by
  cases l with
  | openSession c =>
    cases he
    exact h.openSession c
  | closeSession c =>
    cases he
    exact h.closeSession c
  | deliver q message =>
    dsimp only [Gateway.exec] at he
    split at he
    · cases he
      exact h.receive message
    · cases he
  | advance q => exact h.advance he

/-- The puts that the callback of `q` has left for the queue object `k`. -/
def waiting (k : Nat) : Option ResultTask → List QueueItem
  | none => []
  | some t => if t.queue = k then t.puts else []

/-- What is in a queue object or is about to be put there. -/
def holding (g : Gateway) (k : Nat) : List QueueItem :=
  g.queue k ++ Query.all.flatMap fun q => waiting k (g.tasks q)

/-- The puts of one callback exchanged for others. -/
theorem flatMap_update_perm {f : Query → List QueueItem} {a : List QueueItem} {qs : List Query}
    (hn : qs.Nodup) (hq : q ∈ qs) :
    Perm ((qs.flatMap fun q' => if q' = q then a else f q') ++ f q) (qs.flatMap f ++ a) := by
  induction qs with
  | nil => cases hq
  | cons p ps ih =>
    obtain ⟨hp, hn⟩ := List.nodup_cons.mp hn
    rw [List.flatMap_cons, List.flatMap_cons]
    rcases List.mem_cons.mp hq with rfl | hq
    · have hsame : (ps.flatMap fun q' => if q' = q then a else f q') = ps.flatMap f :=
        List.flatMap_congr fun q' hq' => if_neg (ne_of_mem_of_not_mem hq' hp)
      rw [if_pos rfl, hsame]
      calc Perm (a ++ ps.flatMap f ++ f q) (f q ++ (a ++ ps.flatMap f)) := List.perm_append_comm
        Perm _ (f q ++ (ps.flatMap f ++ a)) := List.perm_append_comm.append_left _
        _ = f q ++ ps.flatMap f ++ a := (List.append_assoc ..).symm
    · have hne : p ≠ q := fun e => hp (e ▸ hq)
      rw [if_neg hne, List.append_assoc, List.append_assoc]
      exact (ih hn hq).append_left _

theorem waiting_update_perm (tasks : Query → Option ResultTask) (q : Query) (t : Option ResultTask)
    (k : Nat) :
    Perm ((Query.all.flatMap fun q' => waiting k (if q' = q then t else tasks q')) ++
        waiting k (tasks q))
      ((Query.all.flatMap fun q' => waiting k (tasks q')) ++ waiting k t) := by
  have h := flatMap_update_perm (f := fun q' => waiting k (tasks q')) (a := waiting k t)
    Query.nodup_all (Query.mem_all q)
  simpa only [apply_ite (waiting k)] using h

theorem getElem?_modify_append {queues : List (List QueueItem)} {j : Nat} (hj : j < queues.length)
    (item : QueueItem) (k : Nat) : (queues.modify j (· ++ [item]))[k]?.getD [] =
      queues[k]?.getD [] ++ if j = k then [item] else [] := by
  rw [List.getElem?_modify]
  split
  · next e =>
    subst e
    simp [List.getElem?_eq_getElem hj]
  · simp

/-- A put moves an item from a callback to its queue object. -/
theorem WF.holding_advance (h : g.WF) (he : g.advance q = some g') (k : Nat) :
    Perm (g'.holding k) (g.holding k) := by
  obtain ⟨t, ht, ⟨item, puts, hputs, rfl⟩ | ⟨hputs, rfl⟩⟩ := advance_cases he
  · have hw := waiting_update_perm g.tasks q (some ⟨t.queue, puts, t.acks⟩) k
    simp only [holding, queue, getElem?_modify_append (h.task_lt ht), List.append_assoc]
    refine Perm.append_left _ ?_
    rw [ht, waiting, waiting, hputs] at hw
    split at hw
    · next hk =>
      rw [if_pos hk]
      refine (List.perm_append_right_iff puts).mp (Perm.trans ?_ hw)
      rw [List.append_assoc, List.singleton_append]
      exact List.perm_middle.symm
    · next hk =>
      rw [if_neg hk]
      simpa using hw
  · have hw := waiting_update_perm g.tasks q none k
    rw [ht, waiting, waiting, hputs, ite_self, List.append_nil, List.append_nil] at hw
    exact hw.append_left _

/-- An admitted message brings its puts. -/
theorem holding_admit (cfg : GatewayConfig) (hidle : g.tasks q = none)
    (m : UnpackedResult) (k k' : Nat) :
    Perm ((g.accept cfg q m k').holding k)
      (g.holding k ++ if k' = k then (resultPuts cfg q m (g.remaining m)).1 else []) := by
  have hw := waiting_update_perm g.tasks q
    (some ⟨k', (resultPuts cfg q m (g.remaining m)).1, (resultPuts cfg q m (g.remaining m)).2⟩) k
  rw [hidle] at hw
  unfold holding queue
  dsimp only [waiting, Gateway.accept] at hw ⊢
  rw [List.append_nil] at hw
  rw [List.append_assoc]
  exact hw.append_left _

/-! ## Steps of other clients -/

/-- A step that is not about the client `c`. -/
def Foreign (c : Nat) : Label → Prop
  | .openSession c' | .closeSession c' => c' ≠ c
  | .deliver q message => ∀ m, unpackResult q message = .ok m → m.clientId ≠ c
  | .advance _ => True

/-- What the session of `c` with the queue object `k` sees of the state is the same. -/
structure SameFor (c k : Nat) (g g' : Gateway) : Prop where
  session : g'.clientQueues.get? c = g.clientQueues.get? c
  pending : g'.pendingEofsByClient.get? c = g.pendingEofsByClient.get? c
  seen : ∀ key : ResultKey, key.clientId = c →
    (key ∈ g'.addressedResultSeen ↔ key ∈ g.addressedResultSeen)
  holding : Perm (g'.holding k) (g.holding k)

variable {c k : Nat}

theorem SameFor.settle (acks : Bool) : SameFor c k g (g.settle q acks) :=
  ⟨rfl, rfl, fun _ _ => Iff.rfl, .refl _⟩

theorem holding_openSession (hk : k < g.queues.length) (c : Nat) :
    (g.openSession cfg c).holding k = g.holding k := by
  simp only [Gateway.holding, queue, Gateway.openSession, List.getElem?_append_left hk]

theorem WF.sameFor_openSession (h : g.WF) (hk : g.clientQueues.get? c = some k) {c' : Nat}
    (hne : c' ≠ c) : SameFor c k g (g.openSession cfg c') where
  session := Dict.get?_set_of_ne _ _ hne
  pending := Dict.get?_set_of_ne _ _ hne
  seen _ _ := Iff.rfl
  holding := .of_eq (holding_openSession (h.queue_lt hk) c')

theorem sameFor_closeSession {c' : Nat} (hne : c' ≠ c) : SameFor c k g (g.closeSession c') where
  session := Dict.get?_erase_of_ne _ hne.symm
  pending := Dict.get?_erase_of_ne _ hne.symm
  seen key hkey := by
    simp only [Gateway.closeSession, List.mem_filter, decide_eq_true_eq, hkey, ne_eq, hne.symm,
      not_false_eq_true, and_true]
  holding := .refl _

theorem WF.sameFor_receive (h : g.WF) (hk : g.clientQueues.get? c = some k)
    (hidle : g.tasks q = none) {message : Bytes}
    (hf : ∀ m, unpackResult q message = .ok m → m.clientId ≠ c) :
    SameFor c k g (g.receive cfg q message) := by
  obtain ⟨acks, e⟩ | ⟨m, k', hm, hk', e⟩ := receive_cases cfg g q message
  · rw [e]
    exact .settle acks
  have hc := hf m hm
  rw [e]
  refine ⟨rfl, ?_, fun key hkey => ?_, ?_⟩
  · dsimp only [Gateway.accept]
    split
    · exact Dict.get?_set_of_ne _ _ hc
    · rfl
  · -- the remembered key is one of another client
    simp only [Gateway.accept, List.mem_append, Option.mem_toList, dedupKey,
      Option.map_eq_some_iff, or_iff_right_iff_imp, forall_exists_index, and_imp]
    rintro a - rfl
    exact absurd hkey hc
  · have hne : k' ≠ k := fun e' => hc (h.queue_inj (e' ▸ hk') hk)
    have := holding_admit cfg hidle m k k'
    rwa [if_neg hne, List.append_nil] at this

theorem WF.sameFor_exec {l : Label} (h : g.WF) (hk : g.clientQueues.get? c = some k)
    (hf : Foreign c l) (he : g.exec cfg l = some g') : SameFor c k g g' := by
  cases l with
  | openSession c' =>
    cases he
    exact h.sameFor_openSession hk hf
  | closeSession c' =>
    cases he
    exact sameFor_closeSession hf
  | deliver q message =>
    dsimp only [Gateway.exec] at he
    split at he
    · next hq =>
      cases he
      exact h.sameFor_receive hk (Option.isNone_iff_eq_none.mp hq.2) hf
    · cases he
  | advance q =>
    have hp := h.holding_advance he k
    obtain ⟨t, -, ⟨item, puts, -, rfl⟩ | ⟨-, rfl⟩⟩ := advance_cases he
    · exact ⟨rfl, rfl, fun _ _ => Iff.rfl, hp⟩
    · exact ⟨rfl, rfl, fun _ _ => Iff.rfl, hp⟩

/-! ## After a session -/

/-- No client has the queue object `k` any more. -/
structure Released (k : Nat) (g : Gateway) : Prop where
  wf : g.WF
  queue_lt : k < g.queues.length
  released : ∀ c, g.clientQueues.get? c ≠ some k

theorem WF.released_closeSession (h : g.WF) (hk : g.clientQueues.get? c = some k) :
    (g.closeSession c).Released k where
  wf := h.closeSession c
  queue_lt := h.queue_lt hk
  released c' hk' := by
    simp only [Gateway.closeSession, Dict.get?_erase] at hk'
    split at hk'
    · cases hk'
    · next hne => exact hne (h.queue_inj hk' hk)

/-- A second connection of the same client takes the place of the first. -/
theorem WF.released_openSession (h : g.WF) (hk : g.clientQueues.get? c = some k) :
    (g.openSession cfg c).Released k where
  wf := h.openSession c
  queue_lt := by
    simp only [Gateway.openSession, List.length_append]
    exact Nat.lt_add_right _ (h.queue_lt hk)
  released c' hk' := by
    simp only [Gateway.openSession, Dict.get?_set] at hk'
    split at hk'
    · cases hk'
      exact absurd (h.queue_lt hk) (Nat.lt_irrefl _)
    · next hne => exact hne (h.queue_inj hk hk')

theorem Released.openSession (h : g.Released k) (c' : Nat) : (g.openSession cfg c').Released k where
  wf := h.wf.openSession c'
  queue_lt := by
    simp only [Gateway.openSession, List.length_append]
    exact Nat.lt_add_right _ h.queue_lt
  released c hk := by
    simp only [Gateway.openSession, Dict.get?_set] at hk
    split at hk
    · cases hk
      exact absurd h.queue_lt (Nat.lt_irrefl _)
    · exact h.released c hk

theorem Released.closeSession (h : g.Released k) (c' : Nat) : (g.closeSession c').Released k where
  wf := h.wf.closeSession c'
  queue_lt := h.queue_lt
  released c hk := by
    simp only [Gateway.closeSession, Dict.get?_erase] at hk
    split at hk
    · cases hk
    · exact h.released c hk

/-- Nothing is put into a released queue object but what a callback already had for it. -/
theorem Released.exec {l : Label} (h : g.Released k) (he : g.exec cfg l = some g') :
    g'.Released k ∧ Perm (g'.holding k) (g.holding k) := by
  cases l with
  | openSession c' =>
    cases he
    exact ⟨h.openSession c', .of_eq (holding_openSession h.queue_lt c')⟩
  | closeSession c' =>
    cases he
    exact ⟨h.closeSession c', .refl _⟩
  | deliver q message =>
    dsimp only [Gateway.exec] at he
    split at he
    · next hq =>
      cases he
      have hwf : (g.receive cfg q message).WF := h.wf.receive message
      obtain ⟨acks, e⟩ | ⟨m, k', -, hk', e⟩ := receive_cases cfg g q message
      · rw [e] at hwf ⊢
        exact ⟨⟨hwf, h.queue_lt, h.released⟩, .refl _⟩
      · rw [e] at hwf ⊢
        have hne : k' ≠ k := fun e' => h.released _ (e' ▸ hk')
        have hhold := holding_admit cfg (Option.isNone_iff_eq_none.mp hq.2) m k k'
        rw [if_neg hne, List.append_nil] at hhold
        exact ⟨⟨hwf, h.queue_lt, h.released⟩, hhold⟩
    · cases he
  | advance q =>
    have hp := h.wf.holding_advance he k
    have hwf := h.wf.advance he
    obtain ⟨t, -, ⟨item, puts, -, rfl⟩ | ⟨-, rfl⟩⟩ := advance_cases he
    · exact ⟨⟨hwf, by simpa using h.queue_lt, h.released⟩, hp⟩
    · exact ⟨⟨hwf, h.queue_lt, h.released⟩, hp⟩

end Gateway

end MoneyLaundering
