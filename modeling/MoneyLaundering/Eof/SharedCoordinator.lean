import MoneyLaundering.Eof.WorkerChange

/-!
# The coordinator and its shared objects

A coordinator holds its maps by reference: a call changes the maps in place, `snapshot` copies every
map, and `restore` installs the maps of a snapshot without copying them. This module keeps the
objects on a heap and runs the calls of the coordinator there, statement by statement, with the
packets they make or fail to make. No two places of a coordinator ever hold one object, so each call
does to the contents of the maps what the coordinator of `Eof.Coordinator` does, and leaves every
other object alone.
-/

namespace MoneyLaundering

/-- The objects of a process, by kind. Objects from `next` on are not there yet. -/
structure ObjectHeap where
  pairs : Nat → Dict Nat (Nat × Nat) := fun _ => ∅
  counts : Nat → Dict Nat Nat := fun _ => ∅
  sets : Nat → Finset Nat := fun _ => ∅
  /-- Dictionaries whose values are sets, by reference. -/
  tables : Nat → Dict Nat Nat := fun _ => ∅
  next : Nat := 0

/-- The attributes of a coordinator that are numbers by client. -/
inductive CountMap where
  | leaderExpected | leaderProcessed | forwardedFromAcks
  deriving DecidableEq

/-- The attributes of a coordinator that are sets by client. -/
inductive SetTable where
  | leaderResponders | flushAcks
  deriving DecidableEq

/-- The references in the attributes of a coordinator, or in a snapshot of it. -/
structure CoordinatorRefs where
  pendingEof : Nat
  seenEof : Nat
  counts : CountMap → Nat
  table : SetTable → Nat

namespace EofCoordinator

/-- One of the maps of numbers. -/
def countsOf (v : EofCoordinator) : CountMap → Dict Nat Nat
  | .leaderExpected => v.leaderExpected
  | .leaderProcessed => v.leaderProcessed
  | .forwardedFromAcks => v.forwardedFromAcks

/-- One of the maps of sets. -/
def tableOf (v : EofCoordinator) : SetTable → Dict Nat (Finset Nat)
  | .leaderResponders => v.leaderResponders
  | .flushAcks => v.flushAcks

/-- Assignment to one of the maps of numbers. -/
def withCounts (v : EofCoordinator) (m : CountMap) (d : Dict Nat Nat) : EofCoordinator :=
  match m with
  | .leaderExpected => { v with leaderExpected := d }
  | .leaderProcessed => { v with leaderProcessed := d }
  | .forwardedFromAcks => { v with forwardedFromAcks := d }

/-- Assignment to one of the maps of sets. -/
def withTable (v : EofCoordinator) (t : SetTable) (d : Dict Nat (Finset Nat)) : EofCoordinator :=
  match t with
  | .leaderResponders => { v with leaderResponders := d }
  | .flushAcks => { v with flushAcks := d }

@[simp] theorem tableOf_withTable (v : EofCoordinator) (t : SetTable) (d : Dict Nat (Finset Nat)) :
    (v.withTable t d).tableOf t = d := by cases t <;> rfl

theorem withTable_withTable (v : EofCoordinator) (t : SetTable) (d d' : Dict Nat (Finset Nat)) :
    (v.withTable t d).withTable t d' = v.withTable t d' := by cases t <;> rfl

end EofCoordinator

/-- A coordinator among the objects of its process. -/
structure SharedCoordinator where
  heap : ObjectHeap
  refs : CoordinatorRefs

namespace SharedCoordinator

variable (c : SharedCoordinator)

/-- The contents of the maps. -/
def counts (m : CountMap) : Dict Nat Nat := c.heap.counts (c.refs.counts m)

/-- A map of sets, as references. -/
def table (t : SetTable) : Dict Nat Nat := c.heap.tables (c.refs.table t)

/-- A map of sets, as sets. -/
def setsOf (t : SetTable) : Dict Nat (Finset Nat) := (c.table t).mapVals c.heap.sets

/-- What can be observed of a coordinator. -/
def view : EofCoordinator where
  pendingEof := c.heap.pairs c.refs.pendingEof
  seenEof := c.heap.sets c.refs.seenEof
  leaderExpected := c.counts .leaderExpected
  leaderProcessed := c.counts .leaderProcessed
  leaderResponders := c.setsOf .leaderResponders
  flushAcks := c.setsOf .flushAcks
  forwardedFromAcks := c.counts .forwardedFromAcks

theorem tableOf_view (t : SetTable) : c.view.tableOf t = c.setsOf t := by cases t <;> rfl

theorem countsOf_view (m : CountMap) : c.view.countsOf m = c.counts m := by cases m <;> rfl

/-! ## Statements -/

def modifyPendingEof (f : Dict Nat (Nat × Nat) → Dict Nat (Nat × Nat)) : SharedCoordinator :=
  { c with heap := { c.heap with
      pairs := Function.update c.heap.pairs c.refs.pendingEof
        (f (c.heap.pairs c.refs.pendingEof)) } }

/-- A set is changed in place. -/
def modifySet (r : Nat) (f : Finset Nat → Finset Nat) : SharedCoordinator :=
  { c with heap := { c.heap with sets := Function.update c.heap.sets r (f (c.heap.sets r)) } }

def modifyCounts (m : CountMap) (f : Dict Nat Nat → Dict Nat Nat) : SharedCoordinator :=
  { c with heap := { c.heap with
      counts := Function.update c.heap.counts (c.refs.counts m) (f (c.counts m)) } }

/-- `pop(client_id, None)` on a map of sets. -/
def popSet (t : SetTable) (clientId : Nat) : SharedCoordinator :=
  { c with heap := { c.heap with
      tables := Function.update c.heap.tables (c.refs.table t) ((c.table t).erase clientId) } }

/-- `map[client_id] = set()`. -/
def newSet (t : SetTable) (clientId : Nat) : SharedCoordinator :=
  { c with heap := { c.heap with
      sets := Function.update c.heap.sets c.heap.next ∅
      tables :=
        Function.update c.heap.tables (c.refs.table t) ((c.table t).set clientId c.heap.next)
      next := c.heap.next + 1 } }

/-- `if client_id not in map: map[client_id] = set()`. -/
def ensureSet (t : SetTable) (clientId : Nat) : SharedCoordinator :=
  if (c.table t).contains clientId then c else c.newSet t clientId

/-- `map[client_id].add(x)`, on an entry that is there. -/
def addTo (t : SetTable) (clientId x : Nat) : SharedCoordinator :=
  match (c.table t).get? clientId with
  | some r => c.modifySet r (insert x)
  | none => c

/-- `map[client_id]`. -/
def setAt (t : SetTable) (clientId : Nat) : Finset Nat := (c.setsOf t).getD clientId ∅

/-! ## Calls -/

section calls
variable (cfg : CoordinatorConfig)

/-- An action is returned once its packet is made. -/
def packed (action : CoordinatorAction) : Except String (Option CoordinatorAction) :=
  match action with
  | .sendAnswer queueName message => do
    let _ ← message.toBytes
    return some (.sendAnswer queueName message)
  | .broadcast queueNames message sleepBefore => do
    let _ ← message.toBytes
    return some (.broadcast queueNames message sleepBefore)
  | .flush isLeader totalForwarded ackQueue => .ok (some (.flush isLeader totalForwarded ackQueue))

/-- `cleanup_client`. -/
def cleanupClient (clientId : Nat) : SharedCoordinator :=
  (c.modifyPendingEof (·.erase clientId)).modifySet c.refs.seenEof (·.erase clientId)

/-- `on_upstream_eof`. -/
def onUpstreamEof (clientId expectedTotal currentCount currentForwarded : Nat) :
    SharedCoordinator × Except String (Option CoordinatorAction) :=
  if cfg.totalInstances ≤ 1 then (c, packed (.flush true currentForwarded ""))
  else
    match cfg.mode with
    | .broadcast =>
      (c.modifyCounts .leaderExpected (·.set clientId expectedTotal),
        packed (.broadcast (EofCoordinator.allControlQueues cfg)
          { msgType := .eofReceived, clientId
            ctrl := { senderId := cfg.instanceId, expectedTotal } } 0))
    | .flushOrder =>
      if clientId ∈ c.heap.sets c.refs.seenEof then (c, .ok none)
      else
        let c := c.modifySet c.refs.seenEof (insert clientId)
        let c :=
          if cfg.isLeader then c.modifyCounts .leaderExpected (·.set clientId expectedTotal) else c
        (c, packed (.sendAnswer (cfg.responseQueueFor cfg.leaderId)
          (EofCoordinator.buildAnswer cfg clientId currentCount currentForwarded)))

/-- `_on_eof_received`. -/
def onEofReceived (clientId : Nat) (ctrl : ControlMessage) (currentCount currentForwarded : Nat) :
    SharedCoordinator × Except String (Option CoordinatorAction) :=
  if (c.heap.pairs c.refs.pendingEof).contains clientId then (c, .ok none)
  else
    (c.modifyPendingEof (·.set clientId (ctrl.expectedTotal, ctrl.senderId)),
      packed (.sendAnswer (cfg.responseQueueFor ctrl.senderId)
        (EofCoordinator.buildAnswer cfg clientId currentCount currentForwarded)))

/-- `_on_processed_request`. -/
def onProcessedRequest (clientId currentCount currentForwarded : Nat) :
    SharedCoordinator × Except String (Option CoordinatorAction) :=
  match cfg.mode with
  | .broadcast =>
    match (c.heap.pairs c.refs.pendingEof).get? clientId with
    | none => (c, .ok none)
    | some (_, leaderId) =>
      (c, packed (.sendAnswer (cfg.responseQueueFor leaderId)
        (EofCoordinator.buildAnswer cfg clientId currentCount currentForwarded)))
  | .flushOrder =>
    (c, packed (.sendAnswer (cfg.responseQueueFor cfg.leaderId)
      (EofCoordinator.buildAnswer cfg clientId currentCount currentForwarded)))

/-- `_on_processed_answer`. -/
def onProcessedAnswer (clientId : Nat) (ctrl : ControlMessage) :
    SharedCoordinator × Except String (Option CoordinatorAction) :=
  let c := c.ensureSet .leaderResponders clientId
  if ctrl.senderId ∈ c.setAt .leaderResponders clientId then (c, .ok none)
  else
    let c := c.addTo .leaderResponders clientId ctrl.senderId
    let c := c.modifyCounts .leaderProcessed fun d =>
      d.set clientId (d.getD clientId 0 + ctrl.processedCount)
    match (c.counts .leaderExpected).get? clientId with
    | none => (c, .ok none)
    | some expected =>
      if (c.setAt .leaderResponders clientId).card < cfg.totalInstances then (c, .ok none)
      else if expected ≤ (c.counts .leaderProcessed).getD clientId 0 then
        ((c.popSet .leaderResponders clientId).modifyCounts .leaderProcessed (·.erase clientId),
          packed (.broadcast (EofCoordinator.allControlQueues cfg)
            { msgType := .flushOrder, clientId
              ctrl := { senderId := cfg.instanceId, expectedTotal := 0 } } 0))
      else
        ((c.newSet .leaderResponders clientId).modifyCounts .leaderProcessed (·.set clientId 0),
          packed (.broadcast (EofCoordinator.allControlQueues cfg)
            { msgType := .processedRequest, clientId
              ctrl := { senderId := cfg.instanceId, expectedTotal := expected } } 500))

/-- Whether this replica leads the client. -/
def isLeaderHere (clientId : Nat) : Bool :=
  match cfg.mode with
  | .broadcast => (c.counts .leaderExpected).contains clientId
  | .flushOrder => cfg.isLeader

/-- `_on_flush_order`. -/
def onFlushOrder (clientId : Nat) (ctrl : ControlMessage) :
    SharedCoordinator × Except String (Option CoordinatorAction) :=
  if c.isLeaderHere cfg clientId then (c, .ok none)
  else (c, packed (.flush false 0 (cfg.responseQueueFor ctrl.senderId)))

/-- The end of `_on_flush_ack`, once all acks are in. -/
def cleanupLeaderState (clientId : Nat) : SharedCoordinator :=
  let c := c.modifyCounts .forwardedFromAcks (·.erase clientId)
  let c := c.popSet .flushAcks clientId
  let c := c.modifyCounts .leaderExpected (·.erase clientId)
  match cfg.mode with
  | .broadcast => c.modifyPendingEof (·.erase clientId)
  | .flushOrder => c.modifySet c.refs.seenEof (·.erase clientId)

/-- `_on_flush_ack`. -/
def onFlushAck (clientId : Nat) (ctrl : ControlMessage) :
    SharedCoordinator × Except String (Option CoordinatorAction) :=
  if c.isLeaderHere cfg clientId then
    let c := c.ensureSet .flushAcks clientId
    let c := c.addTo .flushAcks clientId ctrl.senderId
    let c := c.modifyCounts .forwardedFromAcks fun d =>
      d.set clientId (d.getD clientId 0 + ctrl.processedCount)
    if (c.setAt .flushAcks clientId).card < cfg.totalInstances - 1 then (c, .ok none)
    else
      (c.cleanupLeaderState cfg clientId,
        packed (.flush true ((c.counts .forwardedFromAcks).getD clientId 0) ""))
  else (c, .ok none)

/-- `process_control_message`. -/
def processControlMessage (msgType : MessageType) (clientId : Nat) (ctrl : ControlMessage)
    (currentCount currentForwarded : Nat) :
    SharedCoordinator × Except String (Option CoordinatorAction) :=
  match msgType with
  | .eofReceived => c.onEofReceived cfg clientId ctrl currentCount currentForwarded
  | .processedRequest => c.onProcessedRequest cfg clientId currentCount currentForwarded
  | .processedAnswer => c.onProcessedAnswer cfg clientId ctrl
  | .flushOrder => c.onFlushOrder cfg clientId ctrl
  | .flushAck => c.onFlushAck cfg clientId ctrl
  | _ => (c, .ok none)

end calls

/-! ## Snapshots -/

/-- `set(v)` for every value of a map, in order. -/
def copySets (h : ObjectHeap) : List (Nat × Finset Nat) → ObjectHeap × List (Nat × Nat)
  | [] => (h, [])
  | (clientId, s) :: rest =>
    let (h', rest') := copySets
      { h with sets := Function.update h.sets h.next s, next := h.next + 1 } rest
    (h', (clientId, h.next) :: rest')

theorem keys_copySets (h : ObjectHeap) (es : List (Nat × Finset Nat)) :
    (copySets h es).2.map Prod.fst = es.map Prod.fst := by
  induction es generalizing h with
  | nil => rfl
  | cons e es ih => simp [copySets, ih]

/-- New objects with the given contents: the maps, and then the sets inside them. -/
def build (h : ObjectHeap) (v : EofCoordinator) : SharedCoordinator :=
  let n := h.next
  let responders := copySets { h with next := n + 7 } v.leaderResponders.entries
  let acks := copySets responders.1 v.flushAcks.entries
  { heap :=
      { pairs := Function.update acks.1.pairs n v.pendingEof
        sets := Function.update acks.1.sets (n + 1) v.seenEof
        counts := Function.update (Function.update (Function.update acks.1.counts
          (n + 2) v.leaderExpected) (n + 3) v.leaderProcessed) (n + 4) v.forwardedFromAcks
        tables := Function.update (Function.update acks.1.tables
          (n + 5) ⟨responders.2, keys_copySets _ _ ▸ v.leaderResponders.nodup⟩)
          (n + 6) ⟨acks.2, keys_copySets _ _ ▸ v.flushAcks.nodup⟩
        next := acks.1.next }
    refs :=
      { pendingEof := n
        seenEof := n + 1
        counts := fun
          | .leaderExpected => n + 2
          | .leaderProcessed => n + 3
          | .forwardedFromAcks => n + 4
        table := fun
          | .leaderResponders => n + 5
          | .flushAcks => n + 6 } }

/-- `snapshot`: the references that it returns, and the heap with the copies. -/
def snapshot : ObjectHeap × CoordinatorRefs :=
  let copy := build c.heap c.view
  (copy.heap, copy.refs)

/-- `restore`. The maps are not copied. -/
def restore (snap : CoordinatorRefs) : SharedCoordinator := { c with refs := snap }

/-! ## No two places hold one object -/

/-- Where a coordinator holds a reference. -/
inductive Place where
  | pendingEof | seenEof
  | counts (m : CountMap)
  | table (t : SetTable)
  | inner (t : SetTable) (clientId : Nat)

/-- The reference that is held there. -/
def refAt : Place → Option Nat
  | .pendingEof => some c.refs.pendingEof
  | .seenEof => some c.refs.seenEof
  | .counts m => some (c.refs.counts m)
  | .table t => some (c.refs.table t)
  | .inner t clientId => (c.table t).get? clientId

/-- An object of the coordinator. -/
def Owns (r : Nat) : Prop := ∃ p, c.refAt p = some r

/-- Every reference is to an object that is there, and to one of its own. -/
structure Sound : Prop where
  bounded : ∀ {p r}, c.refAt p = some r → r < c.heap.next
  injective : ∀ {p q r}, c.refAt p = some r → c.refAt q = some r → p = q

/-- Two heaps that agree on an object. -/
def SameAt (h h' : ObjectHeap) (r : Nat) : Prop :=
  h'.pairs r = h.pairs r ∧ h'.counts r = h.counts r ∧ h'.sets r = h.sets r ∧
  h'.tables r = h.tables r

theorem SameAt.refl (h : ObjectHeap) (r : Nat) : SameAt h h r := ⟨rfl, rfl, rfl, rfl⟩

theorem SameAt.trans {h h' h'' : ObjectHeap} {r : Nat} (a : SameAt h h' r) (b : SameAt h' h'' r) :
    SameAt h h'' r :=
  ⟨b.1.trans a.1, b.2.1.trans a.2.1, b.2.2.1.trans a.2.2.1, b.2.2.2.trans a.2.2.2⟩

/-- What a statement does: the maps have the contents of `v` afterwards, and only objects of the
coordinator changed. -/
structure Runs (c c' : SharedCoordinator) (v : EofCoordinator) : Prop where
  sound : c'.Sound
  view : c'.view = v
  refs : c'.refs = c.refs
  next : c.heap.next ≤ c'.heap.next
  owns : ∀ {r}, c'.Owns r → c.Owns r ∨ c.heap.next ≤ r
  same : ∀ {r}, r < c.heap.next → ¬ c.Owns r → SameAt c.heap c'.heap r

variable {c} {c' c'' : SharedCoordinator} {v v' : EofCoordinator}

theorem Sound.ne (h : c.Sound) {p q : Place} {r r' : Nat} (hp : c.refAt p = some r)
    (hq : c.refAt q = some r') (hne : p ≠ q) : r ≠ r' := by
  rintro rfl
  exact hne (h.injective hp hq)

theorem ne_of_not_owns {p : Place} {r r' : Nat} (hr : ¬ c.Owns r) (hp : c.refAt p = some r') :
    r ≠ r' := by
  rintro rfl
  exact hr ⟨p, hp⟩

theorem Runs.refl (h : c.Sound) : Runs c c c.view :=
  ⟨h, rfl, rfl, le_rfl, .inl, fun _ _ => .refl _ _⟩

theorem Runs.of_eq (h : Runs c c' v) (he : v = v') : Runs c c' v' := he ▸ h

theorem Runs.trans (h : Runs c c' v) (h' : Runs c' c'' v') : Runs c c'' v' where
  sound := h'.sound
  view := h'.view
  refs := h'.refs.trans h.refs
  next := h.next.trans h'.next
  owns hr := by
    rcases h'.owns hr with hr | hr
    · exact h.owns hr
    · exact .inr (h.next.trans hr)
  same hlt hr := by
    refine (h.same hlt hr).trans (h'.same (hlt.trans_le h.next) fun ho => ?_)
    rcases h.owns ho with ho | ho
    · exact hr ho
    · omega

/-- A change of objects that keeps every reference where it is. -/
theorem Runs.of_refAt (h : c.Sound) (hat : ∀ p, c'.refAt p = c.refAt p) (hrefs : c'.refs = c.refs)
    (hnext : c'.heap.next = c.heap.next) (hview : c'.view = v)
    (hsame : ∀ r, ¬ c.Owns r → SameAt c.heap c'.heap r) : Runs c c' v where
  sound := ⟨fun hp => hnext ▸ h.bounded ((hat _).symm.trans hp),
    fun hp hq => h.injective ((hat _).symm.trans hp) ((hat _).symm.trans hq)⟩
  view := hview
  refs := hrefs
  next := hnext.ge
  owns := fun ⟨p, hp⟩ => .inl ⟨p, (hat p).symm.trans hp⟩
  same _ hr := hsame _ hr

/-- The sets inside a map, after a change of another set. -/
theorem mapVals_update_of_not_inner {t : SetTable} {r : Nat} {x : Finset Nat}
    (hr : ∀ k, c.refAt (.inner t k) ≠ some r) :
    (c.table t).mapVals (Function.update c.heap.sets r x) = c.setsOf t := by
  refine Dict.mapVals_congr fun k r' hk => Function.update_of_ne ?_ _ _
  rintro rfl
  exact hr k hk

/-- The maps of sets, where only the map `t` changed. -/
theorem view_eq_withTable {t : SetTable} {d : Dict Nat (Finset Nat)}
    (hpairs : c'.heap.pairs = c.heap.pairs) (hcounts : c'.heap.counts = c.heap.counts)
    (hrefs : c'.refs = c.refs) (hseen : c'.heap.sets c.refs.seenEof = c.heap.sets c.refs.seenEof)
    (hsets : ∀ t', c'.setsOf t' = if t' = t then d else c.setsOf t') :
    c'.view = c.view.withTable t d := by
  simp only [view, hsets, counts, hpairs, hcounts, hrefs, hseen]
  cases t <;> rfl

section statements
variable (h : c.Sound)

include h

theorem runs_modifyPendingEof (f : Dict Nat (Nat × Nat) → Dict Nat (Nat × Nat)) :
    Runs c (c.modifyPendingEof f) { c.view with pendingEof := f c.view.pendingEof } := by
  refine .of_refAt h (fun p => by cases p <;> rfl) rfl rfl ?_ fun r hr => ⟨?_, rfl, rfl, rfl⟩
  · simp [view, modifyPendingEof, counts, setsOf, table]
  · exact Function.update_of_ne (ne_of_not_owns (p := .pendingEof) hr rfl) _ _

theorem runs_modifySeenEof (f : Finset Nat → Finset Nat) :
    Runs c (c.modifySet c.refs.seenEof f) { c.view with seenEof := f c.view.seenEof } := by
  have hinner : ∀ t k, c.refAt (.inner t k) ≠ some c.refs.seenEof := fun t k hk =>
    h.ne (p := .inner t k) (q := .seenEof) hk rfl (by simp) rfl
  refine .of_refAt h (fun p => by cases p <;> rfl) rfl rfl ?_ fun r hr => ⟨rfl, rfl, ?_, rfl⟩
  · have hsets : ∀ t, (c.modifySet c.refs.seenEof f).setsOf t = c.setsOf t := fun t =>
      mapVals_update_of_not_inner (hinner t)
    simp only [view, hsets]
    simp [modifySet, counts]
  · exact Function.update_of_ne (ne_of_not_owns (p := .seenEof) hr rfl) _ _

theorem runs_modifyCounts (m : CountMap) (f : Dict Nat Nat → Dict Nat Nat) :
    Runs c (c.modifyCounts m f) (c.view.withCounts m (f (c.view.countsOf m))) := by
  rw [countsOf_view]
  refine .of_refAt h (fun p => by cases p <;> rfl) rfl rfl ?_ fun r hr => ⟨rfl, ?_, rfl, rfl⟩
  · have hcounts : ∀ m', (c.modifyCounts m f).counts m' = if m' = m then f (c.counts m)
        else c.counts m' := by
      intro m'
      dsimp only [counts, modifyCounts]
      split
      · next he => rw [he, Function.update_self]
      · next hne =>
        exact Function.update_of_ne
          (h.ne (p := .counts m') (q := .counts m) rfl rfl (by simpa using hne)) _ _
    simp only [view, hcounts]
    cases m <;> rfl
  · exact Function.update_of_ne (ne_of_not_owns (p := .counts m) hr rfl) _ _

theorem runs_addTo {t : SetTable} {clientId : Nat} (hk : (c.table t).contains clientId) (x : Nat) :
    Runs c (c.addTo t clientId x)
      (c.view.withTable t ((c.setsOf t).set clientId (insert x (c.setAt t clientId)))) := by
  obtain ⟨r, hr⟩ := Option.isSome_iff_exists.mp hk
  have hadd : c.addTo t clientId x = c.modifySet r (insert x) := by
    simp only [addTo, hr]
  have hset : c.setAt t clientId = c.heap.sets r := by
    simp [setAt, setsOf, Dict.getD, Dict.get?_mapVals, hr]
  rw [hadd, hset]
  refine .of_refAt h (fun p => by cases p <;> rfl) rfl rfl ?_ fun r' hr' => ⟨rfl, rfl, ?_, rfl⟩
  · have hseen : (c.modifySet r (insert x)).heap.sets c.refs.seenEof = c.heap.sets c.refs.seenEof :=
      Function.update_of_ne (h.ne (p := .seenEof) (q := .inner t clientId) rfl hr (by simp)) _ _
    have hsets : ∀ t', (c.modifySet r (insert x)).setsOf t' =
        if t' = t then (c.setsOf t).set clientId (insert x (c.heap.sets r)) else c.setsOf t' := by
      intro t'
      split
      · next he =>
        rw [he]
        refine Dict.mapVals_update _ _ hr fun k hk => ?_
        cases h.injective (p := .inner t k) (q := .inner t clientId) hk hr
        rfl
      · next hne =>
        refine mapVals_update_of_not_inner fun k hk => hne ?_
        cases h.injective (p := .inner t' k) (q := .inner t clientId) hk hr
        rfl
    exact view_eq_withTable rfl rfl rfl hseen hsets
  · exact Function.update_of_ne (ne_of_not_owns (p := .inner t clientId) hr' hr) _ _

theorem runs_newSet (t : SetTable) (clientId : Nat) :
    Runs c (c.newSet t clientId) (c.view.withTable t ((c.view.tableOf t).set clientId ∅)) := by
  rw [tableOf_view]
  have htable : ∀ t', (c.newSet t clientId).table t' =
      if t' = t then (c.table t).set clientId c.heap.next else c.table t' := by
    intro t'
    dsimp only [table, newSet]
    split
    · next he => rw [he, Function.update_self]
    · next hne =>
      exact Function.update_of_ne
        (h.ne (p := .table t') (q := .table t) rfl rfl (by simpa using hne)) _ _
  -- a place holds what it held before, or the new set
  have hat : ∀ p r, (c.newSet t clientId).refAt p = some r →
      c.refAt p = some r ∨ p = .inner t clientId ∧ r = c.heap.next := by
    intro p r hp
    cases p with
    | inner t' k =>
      simp only [refAt, htable] at hp
      split at hp
      · next he =>
        rw [Dict.get?_set] at hp
        split at hp
        · next hk =>
          cases hp
          exact .inr ⟨by rw [he, hk], rfl⟩
        · exact .inl (he ▸ hp)
      · exact .inl hp
    | pendingEof | seenEof | counts _ | table _ => exact .inl hp
  refine ⟨⟨fun {p r} hp => ?_, fun {p q r} hp hq => ?_⟩, ?_, rfl, Nat.le_succ _, ?_, ?_⟩
  · rcases hat p r hp with hp | ⟨-, rfl⟩
    · exact (h.bounded hp).trans (Nat.lt_succ_self _)
    · exact Nat.lt_succ_self _
  · rcases hat p r hp with hp | ⟨rfl, rfl⟩
    · rcases hat q r hq with hq | ⟨rfl, rfl⟩
      · exact h.injective hp hq
      · exact absurd (h.bounded hp) (lt_irrefl _)
    · rcases hat q _ hq with hq | ⟨rfl, -⟩
      · exact absurd (h.bounded hq) (lt_irrefl _)
      · rfl
  · have hold : ∀ r, r < c.heap.next → (c.newSet t clientId).heap.sets r = c.heap.sets r :=
      fun r hr =>
      Function.update_of_ne hr.ne _ _
    refine view_eq_withTable rfl rfl rfl (hold _ (h.bounded (p := .seenEof) rfl)) fun t' => ?_
    have hsame : (c.table t').mapVals (c.newSet t clientId).heap.sets = c.setsOf t' :=
      Dict.mapVals_congr fun k r hk => hold r (h.bounded (p := .inner t' k) hk)
    rw [setsOf, htable]
    split
    · next he =>
      subst he
      rw [Dict.mapVals_set, hsame]
      exact congrArg _ (Function.update_self _ _ _)
    · exact hsame
  · rintro r ⟨p, hp⟩
    rcases hat p r hp with hp | ⟨-, rfl⟩
    · exact .inl ⟨p, hp⟩
    · exact .inr le_rfl
  · intro r hlt hr
    exact ⟨rfl, rfl, Function.update_of_ne hlt.ne _ _,
      Function.update_of_ne (ne_of_not_owns (p := .table t) hr rfl) _ _⟩

theorem setAt_ensureSet (t : SetTable) (clientId : Nat) :
    (c.ensureSet t clientId).setAt t clientId = c.setAt t clientId := by
  unfold ensureSet
  split
  · rfl
  · next hk =>
    have hnone : (c.table t).get? clientId = none := by simpa [Dict.contains] using hk
    have hnew : (c.newSet t clientId).setsOf t = (c.setsOf t).set clientId ∅ := by
      rw [← tableOf_view, (runs_newSet h t clientId).view,
        EofCoordinator.tableOf_withTable, tableOf_view]
    rw [setAt, setAt, hnew, Dict.getD_set, if_pos rfl]
    simp [setsOf, Dict.getD, Dict.get?_mapVals, hnone]

omit h in
theorem ensureSet_of_mem_setAt {t : SetTable} {clientId x : Nat} (hx : x ∈ c.setAt t clientId) :
    c.ensureSet t clientId = c := by
  refine if_pos ?_
  cases hk : (c.table t).get? clientId with
  | none => simp [setAt, setsOf, Dict.getD, Dict.get?_mapVals, hk] at hx
  | some r => simp [Dict.contains, hk]

/-- Something is added to the entry of a client, which is made when it is not there. -/
theorem runs_addTo_ensureSet (t : SetTable) (clientId x : Nat) :
    Runs c ((c.ensureSet t clientId).addTo t clientId x) (c.view.withTable t
      ((c.view.tableOf t).set clientId (insert x ((c.view.tableOf t).getD clientId ∅)))) := by
  have hset : (c.view.tableOf t).getD clientId ∅ = (c.ensureSet t clientId).setAt t clientId := by
    rw [setAt_ensureSet h, tableOf_view]
    rfl
  rw [hset]
  unfold ensureSet
  split
  · next hk =>
    rw [tableOf_view]
    exact runs_addTo h hk x
  · have hnew := runs_newSet h t clientId
    have hk : ((c.newSet t clientId).table t).contains clientId := by
      simp [table, newSet, Dict.contains]
    have hadd := runs_addTo hnew.sound hk x
    rw [hnew.view, EofCoordinator.withTable_withTable, ← tableOf_view, hnew.view,
      EofCoordinator.tableOf_withTable, Dict.set_set] at hadd
    exact hnew.trans hadd

theorem runs_popSet (t : SetTable) (clientId : Nat) :
    Runs c (c.popSet t clientId) (c.view.withTable t ((c.view.tableOf t).erase clientId)) := by
  rw [tableOf_view]
  have htable : ∀ t', (c.popSet t clientId).table t' =
      if t' = t then (c.table t).erase clientId else c.table t' := by
    intro t'
    dsimp only [table, popSet]
    split
    · next he => rw [he, Function.update_self]
    · next hne =>
      exact Function.update_of_ne
        (h.ne (p := .table t') (q := .table t) rfl rfl (by simpa using hne)) _ _
  have hat : ∀ p r, (c.popSet t clientId).refAt p = some r → c.refAt p = some r := by
    intro p r hp
    cases p with
    | inner t' k =>
      simp only [refAt, htable] at hp
      split at hp
      · next he =>
        rw [Dict.get?_erase] at hp
        split at hp
        · cases hp
        · exact he ▸ hp
      · exact hp
    | pendingEof | seenEof | counts _ | table _ => exact hp
  refine ⟨⟨fun hp => h.bounded (hat _ _ hp), fun hp hq => h.injective (hat _ _ hp) (hat _ _ hq)⟩,
    ?_, rfl, le_rfl, fun hr => .inl (hr.imp fun p hp => hat _ _ hp), ?_⟩
  · refine view_eq_withTable rfl rfl rfl rfl fun t' => ?_
    rw [setsOf, htable]
    split
    · exact Dict.mapVals_erase _ _ _
    · rfl
  · intro r _ hr
    exact ⟨rfl, rfl, rfl, Function.update_of_ne (ne_of_not_owns (p := .table t) hr rfl) _ _⟩

end statements

/-! ## What the calls do -/

section calls
variable {cfg : CoordinatorConfig} (h : c.Sound)

/-- A call does to the contents what the coordinator does, and fails when the packet of its action
cannot be made. -/
structure Performs (c : SharedCoordinator)
    (r : SharedCoordinator × Except String (Option CoordinatorAction))
    (v : EofCoordinator × Option CoordinatorAction) : Prop where
  runs : Runs c r.1 v.1
  result : r.2 = match v.2 with
    | none => .ok none
    | some action => packed action

include h

theorem performs_onUpstreamEof (clientId expectedTotal count forwarded : Nat) :
    Performs c (c.onUpstreamEof cfg clientId expectedTotal count forwarded)
      (c.view.onUpstreamEof cfg clientId expectedTotal count forwarded) := by
  unfold onUpstreamEof EofCoordinator.onUpstreamEof
  split
  · exact ⟨.refl h, rfl⟩
  · cases cfg.mode with
    | broadcast => exact ⟨runs_modifyCounts h .leaderExpected (·.set clientId expectedTotal), rfl⟩
    | flushOrder =>
      change Performs c (if clientId ∈ c.view.seenEof then _ else _) _
      split
      · exact ⟨.refl h, rfl⟩
      · refine ⟨?_, rfl⟩
        have hseen := runs_modifySeenEof h (insert clientId)
        dsimp only
        split
        · refine hseen.trans ?_
          have hexp := runs_modifyCounts hseen.sound .leaderExpected (·.set clientId expectedTotal)
          rwa [hseen.view] at hexp
        · exact hseen

theorem performs_onEofReceived (clientId : Nat) (ctrl : ControlMessage) (count forwarded : Nat) :
    Performs c (c.onEofReceived cfg clientId ctrl count forwarded)
      (c.view.onEofReceived cfg clientId ctrl count forwarded) := by
  unfold onEofReceived EofCoordinator.onEofReceived
  change Performs c (if c.view.pendingEof.contains clientId then _ else _) _
  split
  · exact ⟨.refl h, rfl⟩
  · exact ⟨runs_modifyPendingEof h (·.set clientId (ctrl.expectedTotal, ctrl.senderId)), rfl⟩

theorem performs_onProcessedRequest (clientId count forwarded : Nat) :
    Performs c (c.onProcessedRequest cfg clientId count forwarded)
      (c.view.onProcessedRequest cfg clientId count forwarded) := by
  unfold onProcessedRequest EofCoordinator.onProcessedRequest
  cases cfg.mode with
  | broadcast =>
    have hview : c.heap.pairs c.refs.pendingEof = c.view.pendingEof := rfl
    rw [hview]
    cases c.view.pendingEof.get? clientId <;> exact ⟨.refl h, rfl⟩
  | flushOrder => exact ⟨.refl h, rfl⟩

theorem performs_onFlushOrder (clientId : Nat) (ctrl : ControlMessage) :
    Performs c (c.onFlushOrder cfg clientId ctrl) (c.view.onFlushOrder cfg clientId ctrl) := by
  unfold onFlushOrder EofCoordinator.onFlushOrder
  change Performs c (if EofCoordinator.isLeaderHere cfg c.view clientId then _ else _) _
  split <;> exact ⟨.refl h, rfl⟩

theorem performs_onProcessedAnswer (clientId : Nat) (ctrl : ControlMessage) :
    Performs c (c.onProcessedAnswer cfg clientId ctrl)
    (c.view.onProcessedAnswer cfg clientId ctrl) := by
  unfold onProcessedAnswer EofCoordinator.onProcessedAnswer
  simp only [setAt_ensureSet h]
  change Performs c (if ctrl.senderId ∈ c.view.leaderResponders.getD clientId ∅ then _ else _) _
  split
  · next hmem =>
    rw [ensureSet_of_mem_setAt hmem]
    exact ⟨.refl h, rfl⟩
  · -- the answer is added to the round
    have hadd := runs_addTo_ensureSet h .leaderResponders clientId ctrl.senderId
    generalize (c.ensureSet .leaderResponders clientId).addTo .leaderResponders clientId
      ctrl.senderId = c₁
      at hadd
    have hsum := runs_modifyCounts hadd.sound .leaderProcessed fun d =>
      d.set clientId (d.getD clientId 0 + ctrl.processedCount)
    have hrun := hadd.trans hsum
    rw [hadd.view] at hrun
    generalize c₁.modifyCounts .leaderProcessed _ = c₂ at hrun ⊢
    have hexp : c₂.counts .leaderExpected = c.view.leaderExpected :=
      congrArg EofCoordinator.leaderExpected hrun.view
    have hproc : c₂.counts .leaderProcessed = c.view.leaderProcessed.set clientId
        (c.view.leaderProcessed.getD clientId 0 + ctrl.processedCount) :=
      congrArg EofCoordinator.leaderProcessed hrun.view
    have hresp : c₂.setsOf .leaderResponders = c.view.leaderResponders.set clientId
        (insert ctrl.senderId (c.view.leaderResponders.getD clientId ∅)) :=
      congrArg EofCoordinator.leaderResponders hrun.view
    simp only [hexp, hproc, setAt, hresp, Dict.getD_set, if_pos]
    cases c.view.leaderExpected.get? clientId with
    | none => exact ⟨hrun, rfl⟩
    | some expected =>
      dsimp only
      split
      · exact ⟨hrun, rfl⟩
      · split
        · have hpop := runs_popSet hrun.sound .leaderResponders clientId
          have hdrop :=
            hpop.trans (runs_modifyCounts hpop.sound .leaderProcessed (·.erase clientId))
          rw [hpop.view, hrun.view] at hdrop
          exact ⟨hrun.trans hdrop, rfl⟩
        · have hnew := runs_newSet hrun.sound .leaderResponders clientId
          have hzero :=
            hnew.trans (runs_modifyCounts hnew.sound .leaderProcessed (·.set clientId 0))
          rw [hnew.view, hrun.view] at hzero
          exact ⟨hrun.trans hzero, rfl⟩

variable (cfg) in
theorem runs_cleanupLeaderState (clientId : Nat) :
    Runs c (c.cleanupLeaderState cfg clientId) (c.view.cleanupLeaderState cfg clientId) := by
  have hforwarded := runs_modifyCounts h .forwardedFromAcks (·.erase clientId)
  have hacks := runs_popSet hforwarded.sound .flushAcks clientId
  have hexp := runs_modifyCounts hacks.sound .leaderExpected (·.erase clientId)
  have hrun := hforwarded.trans (hacks.trans hexp)
  rw [hacks.view, hforwarded.view] at hrun
  unfold cleanupLeaderState EofCoordinator.cleanupLeaderState
  dsimp only
  generalize (((c.modifyCounts .forwardedFromAcks _).popSet .flushAcks clientId).modifyCounts
    .leaderExpected _) = c₁ at hrun ⊢
  cases cfg.mode with
  | broadcast =>
    have hlast := runs_modifyPendingEof hrun.sound (·.erase clientId)
    rw [hrun.view] at hlast
    exact hrun.trans hlast
  | flushOrder =>
    have hlast := runs_modifySeenEof hrun.sound (·.erase clientId)
    rw [hrun.view] at hlast
    exact hrun.trans hlast

theorem performs_onFlushAck (clientId : Nat) (ctrl : ControlMessage) :
    Performs c (c.onFlushAck cfg clientId ctrl) (c.view.onFlushAck cfg clientId ctrl) := by
  unfold onFlushAck EofCoordinator.onFlushAck
  change Performs c (if EofCoordinator.isLeaderHere cfg c.view clientId then _ else _) _
  split
  · have hadd := runs_addTo_ensureSet h .flushAcks clientId ctrl.senderId
    dsimp only
    generalize (c.ensureSet .flushAcks clientId).addTo .flushAcks clientId ctrl.senderId =
      c₁ at hadd ⊢
    have hsum := runs_modifyCounts hadd.sound .forwardedFromAcks fun d =>
      d.set clientId (d.getD clientId 0 + ctrl.processedCount)
    have hrun := hadd.trans hsum
    rw [hadd.view] at hrun
    generalize c₁.modifyCounts .forwardedFromAcks _ = c₂ at hrun ⊢
    have hforwarded : c₂.counts .forwardedFromAcks = c.view.forwardedFromAcks.set clientId
        (c.view.forwardedFromAcks.getD clientId 0 + ctrl.processedCount) :=
      congrArg EofCoordinator.forwardedFromAcks hrun.view
    have hacks : c₂.setsOf .flushAcks = c.view.flushAcks.set clientId
        (insert ctrl.senderId (c.view.flushAcks.getD clientId ∅)) :=
      congrArg EofCoordinator.flushAcks hrun.view
    simp only [hforwarded, setAt, hacks, Dict.getD_set, if_pos]
    split
    · exact ⟨hrun, rfl⟩
    · refine ⟨hrun.trans ?_, rfl⟩
      have hclean := runs_cleanupLeaderState cfg hrun.sound clientId
      rw [hrun.view] at hclean
      refine hclean.of_eq ?_
      simp only [EofCoordinator.cleanupLeaderState, EofCoordinator.withTable,
        EofCoordinator.withCounts, EofCoordinator.countsOf, EofCoordinator.tableOf, Dict.erase_set]
  · exact ⟨.refl h, rfl⟩

end calls

end SharedCoordinator

end MoneyLaundering
