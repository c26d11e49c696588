import MoneyLaundering.Eof.SharedCoordinator

/-!
# Speculative calls

A worker asks its coordinator what it would do: it takes a snapshot, makes the call, and restores
the snapshot. The copies of a snapshot are new objects, which the call leaves alone, so that the
restored coordinator holds what the coordinator held before. A call whose packet cannot be made
raises, and nothing is restored.
-/

namespace MoneyLaundering

namespace SharedCoordinator

/-! ## Copies -/

/-- The copies are new, one after the other, and hold the given sets. -/
structure Copied (h : ObjectHeap) (es : List (Nat × Finset Nat))
    (r : ObjectHeap × List (Nat × Nat)) : Prop where
  next : r.1.next = h.next + es.length
  pairs : r.1.pairs = h.pairs
  counts : r.1.counts = h.counts
  tables : r.1.tables = h.tables
  old : ∀ q < h.next, r.1.sets q = h.sets q
  refs : r.2.map Prod.snd = List.range' h.next es.length
  sets : r.2.map (fun e => (e.1, r.1.sets e.2)) = es

theorem copied_copySets (h : ObjectHeap) (es : List (Nat × Finset Nat)) :
    Copied h es (copySets h es) := by
  induction es generalizing h with
  | nil => exact ⟨rfl, rfl, rfl, rfl, fun _ _ => rfl, rfl, rfl⟩
  | cons e es ih =>
    obtain ⟨clientId, s⟩ := e
    have hrest := ih { h with sets := Function.update h.sets h.next s, next := h.next + 1 }
    have hset :=
      (hrest.old h.next (Nat.lt_succ_self _)).trans (Function.update_self h.next s h.sets)
    refine ⟨?_, hrest.pairs, hrest.counts, hrest.tables, fun q hq => ?_, ?_, ?_⟩
    · have hn : _ = h.next + 1 + es.length := hrest.next
      simp only [copySets, List.length_cons]
      omega
    · exact (hrest.old q (hq.trans (Nat.lt_succ_self _))).trans (Function.update_of_ne hq.ne _ _)
    · simp only [copySets, List.map_cons, hrest.refs, List.length_cons, List.range'_succ]
    · simp only [copySets, List.map_cons, hrest.sets, hset]

variable (h : ObjectHeap) (v : EofCoordinator)

/-- The first reference to a copied set of a table, and their number. -/
def copiesFrom : SetTable → Nat
  | .leaderResponders => h.next + 7
  | .flushAcks => h.next + 7 + v.leaderResponders.entries.length

theorem table_build (t : SetTable) :
    ((build h v).table t).entries.map Prod.snd = List.range' (copiesFrom h v t)
    (v.tableOf t).entries.length ∧
      (build h v).setsOf t = v.tableOf t := by
  have hr := copied_copySets { h with next := h.next + 7 } v.leaderResponders.entries
  have ha := copied_copySets (copySets { h with next := h.next + 7 } v.leaderResponders.entries).1
    v.flushAcks.entries
  have hrn : (copySets { h with next := h.next + 7 } v.leaderResponders.entries).1.next =
      h.next + 7 + v.leaderResponders.entries.length := hr.next
  have hsets : ∀ q, h.next + 7 ≤ q → (build h v).heap.sets q =
      (copySets (copySets { h with next := h.next + 7 } v.leaderResponders.entries).1
        v.flushAcks.entries).1.sets q := by
    intro q hq
    exact Function.update_of_ne (by omega) _ _
  cases t with
  | leaderResponders =>
    have htable : ((build h v).table .leaderResponders).entries =
        (copySets { h with next := h.next + 7 } v.leaderResponders.entries).2 := by
      simp [table, build]
    refine ⟨by rw [htable]; exact hr.refs, Dict.ext ?_⟩
    change ((build h v).table .leaderResponders).entries.map _ = v.leaderResponders.entries
    rw [htable]
    refine (List.map_congr_left fun e he => ?_).trans hr.sets
    have hmem : e.2 ∈ List.range' (h.next + 7) v.leaderResponders.entries.length :=
      hr.refs ▸ List.mem_map_of_mem he
    obtain ⟨hlo, hhi⟩ := List.mem_range'_1.mp hmem
    rw [hsets _ hlo, ha.old _ (by rw [hrn]; exact hhi)]
  | flushAcks =>
    have htable : ((build h v).table .flushAcks).entries =
        (copySets (copySets { h with next := h.next + 7 } v.leaderResponders.entries).1
          v.flushAcks.entries).2 := by
      simp [table, build]
    have hrefs := ha.refs
    rw [hrn] at hrefs
    refine ⟨by rw [htable]; exact hrefs, Dict.ext ?_⟩
    change ((build h v).table .flushAcks).entries.map _ = v.flushAcks.entries
    rw [htable]
    refine (List.map_congr_left fun e he => ?_).trans ha.sets
    have hmem := List.mem_map_of_mem (f := Prod.snd) he
    rw [hrefs] at hmem
    obtain ⟨hlo, -⟩ := List.mem_range'_1.mp hmem
    rw [hsets _ (by omega)]

/-- New objects hold the given contents. -/
theorem view_build : (build h v).view = v := by
  have hresp := (table_build h v .leaderResponders).2
  have hacks := (table_build h v .flushAcks).2
  simp only [view, hresp, hacks]
  simp [build, counts, EofCoordinator.tableOf]

theorem next_build : (build h v).heap.next =
    h.next + 7 + v.leaderResponders.entries.length + v.flushAcks.entries.length := by
  have hr := (copied_copySets { h with next := h.next + 7 } v.leaderResponders.entries).next
  have ha := (copied_copySets (copySets { h with next := h.next + 7 } v.leaderResponders.entries).1
    v.flushAcks.entries).next
  rw [hr] at ha
  exact ha

theorem inner_build {t : SetTable} {k r : Nat} (hk : (build h v).refAt (.inner t k) = some r) :
    copiesFrom h v t ≤ r ∧ r < copiesFrom h v t + (v.tableOf t).entries.length := by
  have hmem := List.mem_map_of_mem (f := Prod.snd) (Dict.mem_entries_iff.mpr hk)
  rw [(table_build h v t).1] at hmem
  exact List.mem_range'_1.mp hmem

theorem inner_build_injective {t : SetTable} {k k' r : Nat}
    (hk : (build h v).refAt (.inner t k) = some r)
    (hk' : (build h v).refAt (.inner t k') = some r) : k = k' := by
  have hnodup : (((build h v).table t).entries.map Prod.snd).Nodup := by
    rw [(table_build h v t).1]
    exact List.nodup_range'
  have hpair :=
    List.inj_on_of_nodup_map hnodup (Dict.mem_entries_iff.mpr hk) (Dict.mem_entries_iff.mpr hk') rfl
  exact congrArg Prod.fst hpair

/-- Where the maps of a new coordinator stand among its objects. -/
def offset : Place → Nat
  | .pendingEof | .inner _ _ => 0
  | .seenEof => 1
  | .counts .leaderExpected => 2
  | .counts .leaderProcessed => 3
  | .counts .forwardedFromAcks => 4
  | .table .leaderResponders => 5
  | .table .flushAcks => 6

def IsInner (p : Place) : Prop := ∃ t k, p = .inner t k

theorem refAt_build {p : Place} (hp : ¬ IsInner p) :
    (build h v).refAt p = some (h.next + offset p) ∧ offset p < 7 := by
  cases p with
  | inner t k => exact absurd ⟨t, k, rfl⟩ hp
  | pendingEof | seenEof => exact ⟨rfl, by decide⟩
  | counts m => cases m <;> exact ⟨rfl, by decide⟩
  | table t => cases t <;> exact ⟨rfl, by decide⟩

theorem eq_of_offset {p q : Place} (hp : ¬ IsInner p) (hq : ¬ IsInner q) (h : offset p = offset q) :
    p = q := by
  have hinner : ∀ t k, IsInner (.inner t k) := fun t k => ⟨t, k, rfl⟩
  rcases p with _ | _ | m | t | ⟨t, k⟩ <;> rcases q with _ | _ | m' | t' | ⟨t', k'⟩ <;>
    (try cases m) <;> (try cases t) <;> (try cases m') <;> (try cases t') <;> simp_all [offset]

theorem le_of_refAt_build {p : Place} {r : Nat} (hp : (build h v).refAt p = some r) :
    (IsInner p → h.next + 7 ≤ r) ∧ (¬ IsInner p → r = h.next + offset p ∧ offset p < 7) := by
  constructor
  · rintro ⟨t, k, rfl⟩
    have hlo := (inner_build h v hp).1
    cases t <;> simp only [copiesFrom] at hlo <;> omega
  · intro hfixed
    obtain ⟨hr, hlt⟩ := refAt_build h v hfixed
    rw [hr] at hp
    cases hp
    exact ⟨rfl, hlt⟩

/-- New objects are not there before. -/
theorem owns_build {r : Nat} (hr : (build h v).Owns r) : h.next ≤ r := by
  obtain ⟨p, hp⟩ := hr
  obtain ⟨hin, hfixed⟩ := le_of_refAt_build h v hp
  by_cases hi : IsInner p
  · have := hin hi
    omega
  · have := hfixed hi
    omega

/-- New objects are there, and no two places hold one. -/
theorem sound_build : (build h v).Sound := by
  have hnext := next_build h v
  constructor
  · intro p r hp
    by_cases hi : IsInner p
    · obtain ⟨t, k, rfl⟩ := hi
      have hlt := (inner_build h v hp).2
      cases t <;> simp only [copiesFrom, EofCoordinator.tableOf] at hlt <;> omega
    · obtain ⟨rfl, hlt⟩ := (le_of_refAt_build h v hp).2 hi
      omega
  · intro p q r hp hq
    obtain ⟨hpin, hpfixed⟩ := le_of_refAt_build h v hp
    obtain ⟨hqin, hqfixed⟩ := le_of_refAt_build h v hq
    by_cases hip : IsInner p
    · by_cases hiq : IsInner q
      · -- two copied sets
        obtain ⟨t, k, rfl⟩ := hip
        obtain ⟨t', k', rfl⟩ := hiq
        have hp' := inner_build h v hp
        have hq' := inner_build h v hq
        have ht : t = t' := by
          cases t <;> cases t' <;>
            simp only [copiesFrom, EofCoordinator.tableOf, reduceCtorEq] at hp' hq' ⊢ <;> omega
        subst ht
        rw [inner_build_injective h v hp hq]
      · have hle := hpin hip
        obtain ⟨rfl, hlt⟩ := hqfixed hiq
        omega
    · obtain ⟨rfl, hlt⟩ := hpfixed hip
      by_cases hiq : IsInner q
      · have hle := hqin hiq
        omega
      · exact eq_of_offset hip hiq (by have := (hqfixed hiq).1; omega)

/-- Old objects stay as they are. -/
theorem sameAt_build {r : Nat} (hr : r < h.next) : SameAt h (build h v).heap r := by
  have hc := copied_copySets { h with next := h.next + 7 } v.leaderResponders.entries
  have ha := copied_copySets (copySets { h with next := h.next + 7 } v.leaderResponders.entries).1
    v.flushAcks.entries
  have hcn : (copySets { h with next := h.next + 7 } v.leaderResponders.entries).1.next =
      h.next + 7 + v.leaderResponders.entries.length := hc.next
  refine ⟨?_, ?_, ?_, ?_⟩
  · refine (Function.update_of_ne (by omega) _ _).trans ?_
    rw [ha.pairs, hc.pairs]
  · refine (Function.update_of_ne (by omega) _ _).trans
      ((Function.update_of_ne (by omega) _ _).trans
      ((Function.update_of_ne (by omega) _ _).trans ?_))
    rw [ha.counts, hc.counts]
  · refine (Function.update_of_ne (by omega) _ _).trans ?_
    rw [ha.old r (by omega)]
    exact hc.old r (by change r < h.next + 7; omega)
  · refine (Function.update_of_ne (by omega) _ _).trans
      ((Function.update_of_ne (by omega) _ _).trans ?_)
    rw [ha.tables, hc.tables]

/-! ## Coordinators on a heap that changed -/

variable {h v} {c : SharedCoordinator}

/-- A coordinator stays what it is while its objects stay as they are. -/
theorem Sound.of_sameAt (hs : c.Sound) {heap : ObjectHeap} (hnext : c.heap.next ≤ heap.next)
    (hsame : ∀ {r}, c.Owns r → SameAt c.heap heap r) :
    Sound ⟨heap, c.refs⟩ ∧ view ⟨heap, c.refs⟩ = c.view ∧
    ∀ {r}, Owns ⟨heap, c.refs⟩ r → c.Owns r := by
  have htable : ∀ t, table ⟨heap, c.refs⟩ t = c.table t := fun t =>
    (hsame ⟨.table t, rfl⟩).2.2.2
  have hat : ∀ p, refAt ⟨heap, c.refs⟩ p = c.refAt p := by
    intro p
    cases p with
    | inner t k => simp only [refAt, htable]
    | pendingEof | seenEof | counts _ | table _ => rfl
  refine ⟨⟨fun hp => (hs.bounded ((hat _).symm.trans hp)).trans_le hnext,
    fun hp hq => hs.injective ((hat _).symm.trans hp) ((hat _).symm.trans hq)⟩, ?_,
    Exists.imp fun p hp => (hat p).symm.trans hp⟩
  have hsets : ∀ t, setsOf ⟨heap, c.refs⟩ t = c.setsOf t := by
    intro t
    rw [setsOf, htable]
    exact Dict.mapVals_congr fun k r hk => (hsame ⟨.inner t k, hk⟩).2.2.1
  have hcounts : ∀ m, counts ⟨heap, c.refs⟩ m = c.counts m := fun m => (hsame ⟨.counts m, rfl⟩).2.1
  have hpairs : heap.pairs c.refs.pendingEof = c.heap.pairs c.refs.pendingEof :=
    (hsame ⟨.pendingEof, rfl⟩).1
  have hseen : heap.sets c.refs.seenEof = c.heap.sets c.refs.seenEof :=
    (hsame ⟨.seenEof, rfl⟩).2.2.1
  simp only [view, hsets, hcounts, hpairs, hseen]

/-! ## The call behind a change -/

variable {δ : Type} {cfg : CoordinatorConfig}

/-- The call of the coordinator that `apply_change` makes. -/
def call (cfg : CoordinatorConfig) (c : SharedCoordinator) :
    WorkerOp δ → SharedCoordinator × Except String (Option CoordinatorAction)
  | .data .. | .close .. => (c, .ok none)
  | .coordinatorUpstreamEof clientId expectedTotal count forwarded =>
    c.onUpstreamEof cfg clientId expectedTotal count forwarded
  | .coordinatorMsg msgType clientId ctrl count forwarded =>
    c.processControlMessage cfg msgType clientId ctrl count forwarded
  | .coordinatorCleanup clientId => (c.cleanupClient clientId, .ok none)

end SharedCoordinator

/-- The action that the coordinator decides on. -/
def WorkerOp.action {δ : Type} (cfg : CoordinatorConfig) (v : EofCoordinator) :
    WorkerOp δ → Option CoordinatorAction
  | .data .. | .close .. | .coordinatorCleanup _ => none
  | .coordinatorUpstreamEof clientId expectedTotal count forwarded =>
    (v.onUpstreamEof cfg clientId expectedTotal count forwarded).2
  | .coordinatorMsg msgType clientId ctrl count forwarded =>
    (v.processControlMessage cfg msgType clientId ctrl count forwarded).2

/-- The fields of a packet fit their bytes. -/
def ControlPacket.Fits (p : ControlPacket) : Prop :=
  p.clientId < 256 ^ 16 ∧ p.ctrl.senderId < 256 ^ 4 ∧ p.ctrl.expectedTotal < 256 ^ 4 ∧
    p.ctrl.processedCount < 256 ^ 4

theorem ControlPacket.exists_toBytes_iff {p : ControlPacket} :
    (∃ body, p.toBytes = .ok body) ↔ p.Fits := by
  have htype : p.msgType.toNat < 256 ^ 1 := by cases p.msgType <;> decide
  constructor
  · rintro ⟨body, h⟩
    obtain ⟨payload, hs, h⟩ := Except.ok_of_bind h
    obtain ⟨_, hc, -⟩ := Except.ok_of_bind h
    exact ⟨(Bytes.pack_eq_ok_iff.mp hc).1, ControlMessage.exists_serialize_iff.mp ⟨payload, hs⟩⟩
  · rintro ⟨hc, hctrl⟩
    obtain ⟨payload, hs⟩ := ControlMessage.exists_serialize_iff.mpr hctrl
    rw [toBytes, hs, Except.ok_bind, InternalProtocol.createPacket,
      Bytes.pack_eq_ok_iff.mpr ⟨hc, rfl⟩, Except.ok_bind, Bytes.pack_eq_ok_iff.mpr ⟨htype, rfl⟩]
    exact ⟨_, rfl⟩

/-- The packet of an action can be made. -/
def CoordinatorAction.Fits : CoordinatorAction → Prop
  | .sendAnswer _ message | .broadcast _ message _ => message.Fits
  | .flush .. => True

namespace SharedCoordinator

variable {δ : Type} {cfg : CoordinatorConfig} {c : SharedCoordinator}

/-- An action, once its packet is made. -/
def made : Option CoordinatorAction → Except String (Option CoordinatorAction)
  | none => .ok none
  | some action => packed action

theorem made_eq_ok_iff {action : Option CoordinatorAction} :
    made action = .ok action ↔ ∀ a, action = some a → a.Fits := by
  have hmessage : ∀ (message : ControlPacket) (a : CoordinatorAction),
      (message.toBytes >>= fun _ => (.ok (some a) : Except String (Option CoordinatorAction))) =
      .ok (some a) ↔
        message.Fits := by
    intro message a
    rw [← ControlPacket.exists_toBytes_iff]
    cases hm : message.toBytes with
    | error e => exact ⟨nofun, nofun⟩
    | ok body => simp [Except.ok_bind]
  rcases action with _ | action
  · simp [made]
  · simp only [Option.some.injEq, forall_eq']
    cases action with
    | sendAnswer queueName message => exact hmessage message _
    | broadcast queueNames message sleep => exact hmessage message _
    | flush isLeader total queue => simp [made, packed, CoordinatorAction.Fits]

/-- What is returned is the action that was decided on. -/
theorem eq_of_made {action result : Option CoordinatorAction} (h : made action = .ok result) :
    result = action := by
  rcases action with _ | action
  · exact (Except.ok.inj h).symm
  · cases action with
    | sendAnswer queueName message =>
      obtain ⟨_, -, h⟩ := Except.ok_of_bind h
      exact (Except.ok.inj h).symm
    | broadcast queueNames message sleep =>
      obtain ⟨_, -, h⟩ := Except.ok_of_bind h
      exact (Except.ok.inj h).symm
    | flush isLeader total queue => exact (Except.ok.inj h).symm

theorem runs_cleanupClient (h : c.Sound) (clientId : Nat) :
    Runs c (c.cleanupClient clientId) (c.view.cleanupClient clientId) := by
  have hpending := runs_modifyPendingEof h (·.erase clientId)
  have hseen := runs_modifySeenEof hpending.sound (·.erase clientId)
  rw [hpending.view] at hseen
  exact hpending.trans hseen

theorem performs_processControlMessage (h : c.Sound) (msgType : MessageType) (clientId : Nat)
    (ctrl : ControlMessage) (count forwarded : Nat) :
    Performs c (c.processControlMessage cfg msgType clientId ctrl count forwarded)
      (c.view.processControlMessage cfg msgType clientId ctrl count forwarded) := by
  unfold processControlMessage EofCoordinator.processControlMessage
  cases msgType with
  | eofReceived => exact performs_onEofReceived h clientId ctrl count forwarded
  | processedRequest => exact performs_onProcessedRequest h clientId count forwarded
  | processedAnswer => exact performs_onProcessedAnswer h clientId ctrl
  | flushOrder => exact performs_onFlushOrder h clientId ctrl
  | flushAck => exact performs_onFlushAck h clientId ctrl
  | _ => exact ⟨.refl h, rfl⟩

/-- A call does to the contents of the maps what the change does to the coordinator. -/
theorem runs_call (h : c.Sound) (op : WorkerOp δ) :
    Runs c (c.call cfg op).1 (op.applyCoordinator cfg c.view) ∧
      (c.call cfg op).2 = made (op.action cfg c.view) := by
  have hperforms : ∀ {r v}, Performs c r v → Runs c r.1 v.1 ∧ r.2 = made v.2 := by
    intro r v hp
    refine ⟨hp.runs, hp.result.trans ?_⟩
    cases v.2 <;> rfl
  cases op with
  | data | close => exact ⟨.refl h, rfl⟩
  | coordinatorUpstreamEof clientId expectedTotal count forwarded =>
    exact hperforms (performs_onUpstreamEof h clientId expectedTotal count forwarded)
  | coordinatorMsg msgType clientId ctrl count forwarded =>
    exact hperforms (performs_processControlMessage h msgType clientId ctrl count forwarded)
  | coordinatorCleanup clientId => exact ⟨runs_cleanupClient h clientId, rfl⟩

/-! ## Snapshot, call, restore -/

/-- The call between a snapshot and its restoration. A call that raises leaves its changes
behind. -/
def speculate (cfg : CoordinatorConfig) (c : SharedCoordinator) (op : WorkerOp δ) :
    SharedCoordinator × Except String (Option CoordinatorAction) :=
  let (heap, snap) := c.snapshot
  let (c', result) := call cfg { c with heap } op
  match result with
  | .ok action => (c'.restore snap, .ok action)
  | .error e => (c', .error e)

/-- The coordinator is what it was once its snapshot is taken. -/
theorem sound_snapshot (h : c.Sound) :
    Sound ⟨c.snapshot.1, c.refs⟩ ∧ view ⟨c.snapshot.1, c.refs⟩ = c.view ∧
      ∀ {r}, Owns ⟨c.snapshot.1, c.refs⟩ r → c.Owns r := by
  refine h.of_sameAt ?_ fun ⟨p, hp⟩ => sameAt_build _ _ (h.bounded hp)
  have hnext := next_build c.heap c.view
  simp only [snapshot, hnext]
  omega

/-- What the call after a snapshot leaves: its own coordinator, and the copies as they were made. -/
theorem call_snapshot (h : c.Sound) (op : WorkerOp δ) :
    Runs ⟨c.snapshot.1, c.refs⟩ (call cfg ⟨c.snapshot.1, c.refs⟩ op).1
      (op.applyCoordinator cfg c.view) ∧
    (call cfg ⟨c.snapshot.1, c.refs⟩ op).2 = made (op.action cfg c.view) ∧
    Sound ((call cfg ⟨c.snapshot.1, c.refs⟩ op).1.restore c.snapshot.2) ∧
    ((call cfg ⟨c.snapshot.1, c.refs⟩ op).1.restore c.snapshot.2).view = c.view := by
  obtain ⟨hsound, hview, howns⟩ := sound_snapshot h
  obtain ⟨hrun, hresult⟩ := runs_call hsound op
  rw [hview] at hrun hresult
  refine ⟨hrun, hresult, ?_⟩
  -- the call does not reach the copies
  have hcopy := (sound_build c.heap c.view).of_sameAt hrun.next fun {r} hr => by
    refine hrun.same ?_ fun ho => ?_
    · obtain ⟨p, hp⟩ := hr
      exact (sound_build c.heap c.view).bounded hp
    · obtain ⟨p, hp⟩ := howns ho
      exact absurd (h.bounded hp) (not_lt.mpr (owns_build c.heap c.view hr))
  exact ⟨hcopy.1, hcopy.2.1.trans (view_build c.heap c.view)⟩

theorem sound_speculate (h : c.Sound) (op : WorkerOp δ) : (c.speculate cfg op).1.Sound := by
  obtain ⟨hrun, -, hsound, -⟩ := call_snapshot h op
  simp only [speculate]
  split
  · exact hsound
  · exact hrun.sound

/-- The result is that of the decision, whose packet may fail. -/
theorem speculate_result (h : c.Sound) (op : WorkerOp δ) :
    (c.speculate cfg op).2 = made (op.action cfg c.view) := by
  rw [← (call_snapshot h op).2.1]
  simp only [speculate]
  split <;> next he => rw [he]

/-- A call that returns is undone. -/
theorem view_speculate (h : c.Sound) {op : WorkerOp δ} {action : Option CoordinatorAction}
    (hm : made (op.action cfg c.view) = .ok action) : (c.speculate cfg op).1.view = c.view := by
  obtain ⟨-, hresult, -, hview⟩ := call_snapshot h op
  rw [hm] at hresult
  simp only [speculate]
  split
  · exact hview
  · next he => cases he.symm.trans hresult

/-- What a call that raises leaves in the maps. -/
theorem view_speculate_error (h : c.Sound) {op : WorkerOp δ} {e : String}
    (hm : made (op.action cfg c.view) = .error e) :
    (c.speculate cfg op).1.view = op.applyCoordinator cfg c.view := by
  obtain ⟨hrun, hresult, -, -⟩ := call_snapshot h op
  rw [hm] at hresult
  simp only [speculate]
  split
  · next he => cases he.symm.trans hresult
  · exact hrun.view

end SharedCoordinator

end MoneyLaundering
