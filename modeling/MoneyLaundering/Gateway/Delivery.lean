import Mathlib.Order.Fin.Basic
import MoneyLaundering.Gateway.Threads
import MoneyLaundering.Lib.Tally

/-!
# What the client of a session gets

The consumers of `gateway/gateway.py` over a whole session, from the handshake to the `finally` of
`_serve_client` and beyond, with every message delivered as often as the broker likes. The queries
whose packets carry `(sender, seq)` are deduplicated; Q1 and Q3 are not, so a message of theirs that
comes twice counts twice, for its lines and for the shared number of pending EOFs. A message that
comes after the session has ended finds no queue and is dropped.
-/

namespace MoneyLaundering

open InternalProtocol Transition Gateway
open List (Perm)

/-- A message that a worker publishes to a result queue; `senderId` and `seq` are on the wire for
the addressed queries only. -/
structure ResultMessage where
  query : Query
  isEof : Bool
  senderId : Nat
  seq : Nat
  payload : Bytes

namespace ResultMessage

def msgType (m : ResultMessage) : MessageType := if m.isEof then .eof else .data

def packet (m : ResultMessage) (c : Nat) : Except String Bytes :=
  if m.query.addressed then createAddressedPacket m.msgType.toNat c m.senderId m.seq m.payload
  else createPacket m.msgType.toNat c m.payload

/-- The lines of a batch as the client gets them. -/
def csvLines (cfg : GatewayConfig) (m : ResultMessage) : List QueueItem :=
  if m.isEof then []
  else (cfg.payloadToCsvLines m.query m.payload).1.map fun l =>
    .line (m.query.prefixOf ++ l ++ "\n")

/-- What the consumer reads of the packet. -/
def unpacked (m : ResultMessage) (c : Nat) : UnpackedResult :=
  ⟨m.msgType.toNat, c, if m.query.addressed then some (m.senderId, m.seq) else none, m.payload⟩

def key (m : ResultMessage) (c : Nat) : ResultKey := ⟨m.query.prefixOf, c, m.senderId, m.seq⟩

theorem unpackResult_packet {m : ResultMessage} {c : Nat} {p : Bytes} (h : m.packet c = .ok p) :
    unpackResult m.query p = .ok (m.unpacked c) := by
  unfold packet at h
  unfold unpackResult unpacked
  split at h
  · next ha => rw [if_pos ha, if_pos ha, unpackAddressedPacket_create h]; rfl
  · next ha => rw [if_neg ha, if_neg ha, unpackPacket_createPacket h]; rfl

theorem dedupKey_unpacked (m : ResultMessage) (c : Nat) :
    dedupKey m.query (m.unpacked c) = if m.query.addressed then some (m.key c) else none := by
  unfold dedupKey unpacked key
  dsimp only
  split <;> rfl

theorem msgType_eq_data {m : ResultMessage} (h : m.isEof = false) : m.msgType = .data := by
  unfold msgType
  rw [h]
  rfl

theorem msgType_eq_eof {m : ResultMessage} (h : m.isEof = true) : m.msgType = .eof := by
  unfold msgType
  rw [h]
  rfl

/-- A batch puts its lines, an EOF the mark when it is the last that is counted. -/
theorem resultPuts_unpacked (cfg : GatewayConfig) (m : ResultMessage) (c : Nat) (remaining : Int) :
    (resultPuts cfg m.query (m.unpacked c) remaining).1 = m.csvLines cfg ++
      if m.isEof = true ∧ remaining ≤ 0 then [.endOfResults] else [] := by
  unfold resultPuts unpacked csvLines
  cases h : m.isEof with
  | false =>
    dsimp only
    rw [msgType_eq_data h, if_pos rfl, if_neg Bool.false_ne_true, if_neg (fun h => nomatch h.1),
      List.append_nil]
  | true =>
    dsimp only
    rw [msgType_eq_eof h, if_neg (by decide), if_pos rfl, if_pos rfl, List.nil_append]
    simp only [true_and]

theorem endOfResults_not_mem_csvLines (cfg : GatewayConfig) (m : ResultMessage) :
    .endOfResults ∉ m.csvLines cfg := by
  unfold csvLines
  split
  · exact List.not_mem_nil
  · intro h
    obtain ⟨l, -, hl⟩ := List.mem_map.mp h
    cases hl

end ResultMessage

/-- The results of one client: well-formed batches and one EOF of each configured query, where the
messages on an addressed queue are told apart by `(sender, seq)`. -/
structure ResultSession (cfg : GatewayConfig) where
  clientId : Nat
  messages : List ResultMessage
  configured : ∀ m ∈ messages, cfg.configured m.query
  packs : ∀ m ∈ messages, ∃ p, m.packet clientId = .ok p
  parses : ∀ m ∈ messages, m.isEof = false → (cfg.payloadToCsvLines m.query m.payload).2 = true
  addresses : messages.Pairwise fun m m' =>
    m.query = m'.query → m.query.addressed → (m.senderId, m.seq) ≠ (m'.senderId, m'.seq)
  singleEof : ∀ q, cfg.configured q →
    (messages.filter fun m => m.isEof && decide (m.query = q)).length = 1

/-- A step of a run: a delivery of one of the messages of the session, or any other step. -/
inductive ResultEvent (n : Nat) where
  | message (i : Fin n)
  | other (l : Gateway.Label)

namespace ResultSession

variable {cfg : GatewayConfig} (S : ResultSession cfg)

abbrev Index : Type := Fin S.messages.length

def message (i : S.Index) : ResultMessage := S.messages.get i

def packetOf (i : S.Index) : Bytes := ((S.message i).packet S.clientId).toOption.getD []

def label : ResultEvent S.messages.length → Gateway.Label
  | .message i => .deliver (S.message i).query (S.packetOf i)
  | .other l => l

/-- The state after a list of events. -/
def run (g : Gateway) (events : List (ResultEvent S.messages.length)) : Option Gateway :=
  events.foldlM (fun g e => g.exec cfg (S.label e)) g

/-- The messages delivered in a run, in order. -/
def delivered (events : List (ResultEvent S.messages.length)) : List S.Index :=
  events.filterMap fun
    | .message i => some i
    | .other _ => none

/-- Whether a step ends the session: `_serve_client` takes the client out, or another connection
with its id takes its place. -/
def ends : ResultEvent S.messages.length → Bool
  | .other (.openSession c) => decide (c = S.clientId)
  | .other (.closeSession c) => decide (c = S.clientId)
  | _ => false

/-- The steps of a run up to the end of the session. -/
def whileOpen (events : List (ResultEvent S.messages.length)) :
    List (ResultEvent S.messages.length) :=
  events.takeWhile fun e => !S.ends e

/-- The messages that find the session open, in order. -/
def received (events : List (ResultEvent S.messages.length)) : List S.Index :=
  S.delivered (S.whileOpen events)

/-- The message that a step delivers, if the callback goes on to put into the queue object `k`. -/
def takenBy (k : Nat) (g' : Gateway) : ResultEvent S.messages.length → List S.Index
  | .message i =>
    if (g'.tasks (S.message i).query).any (fun t => decide (t.queue = k)) then [i] else []
  | .other _ => []

/-- The messages of a run that contribute to the queue object `k`, as often as they do. -/
def taken (k : Nat) : Gateway → List (ResultEvent S.messages.length) → List S.Index
  | _, [] => []
  | g, e :: events =>
    match g.exec cfg (S.label e) with
    | none => []
    | some g' => S.takenBy k g' e ++ taken k g' events

/-- Everything the client has to get, without the mark at the end. -/
def csvLines : List QueueItem := S.messages.flatMap (·.csvLines cfg)

/-- Every batch contributes its lines once, so that the client gets every line once, and one mark at
the end that no prefix of the run shows before the EOF of every configured query came to the
session. -/
structure ExactlyOnce (g : Gateway) (k : Nat) (events : List (ResultEvent S.messages.length)) :
    Prop where
  each : ∀ i, (S.message i).csvLines cfg ≠ [] → (S.taken k g events).count i = 1
  lines : ∀ g', S.run g events = some g' →
    Perm ((g'.queue k).filter fun item => decide (item ≠ .endOfResults)) S.csvLines
  marker : ∀ g', S.run g events = some g' → (g'.queue k).count .endOfResults = 1
  markerAfterEofs : ∀ events₁ events₂ g₁, events = events₁ ++ events₂ → S.run g events₁ = some g₁ →
    .endOfResults ∈ g₁.queue k →
    ∀ q, cfg.configured q → ∃ i ∈ S.received events₁, (S.message i).query = q ∧ (S.message i).isEof

/-! ## The messages of the session -/

variable {S}

theorem packet_packetOf (i : S.Index) :
    (S.message i).packet S.clientId = .ok (S.packetOf i) := by
  obtain ⟨p, hp⟩ := S.packs _ (List.get_mem S.messages i)
  unfold packetOf
  rw [message, hp]
  rfl

theorem key_injective {i j : S.Index} (ha : (S.message i).query.addressed)
    (h : (S.message i).key S.clientId = (S.message j).key S.clientId) : i = j := by
  have hq : (S.message i).query = (S.message j).query :=
    Query.prefixOf_injective (congrArg ResultKey.queryPrefix h)
  have hs : ((S.message i).senderId, (S.message i).seq) =
      ((S.message j).senderId, (S.message j).seq) :=
    Prod.ext (congrArg ResultKey.senderId h) (congrArg ResultKey.seq h)
  have hpair := List.pairwise_iff_get.mp S.addresses
  rcases lt_trichotomy i j with hlt | heq | hlt
  · exact absurd hs (hpair i j hlt hq ha)
  · exact heq
  · exact absurd hs.symm (hpair j i hlt hq.symm (hq ▸ ha))

theorem delivered_append (events₁ events₂ : List (ResultEvent S.messages.length)) :
    S.delivered events₁ ++ S.delivered events₂ = S.delivered (events₁ ++ events₂) :=
  List.filterMap_append.symm

theorem received_cons_of_ends {e : ResultEvent S.messages.length} (h : S.ends e = true)
    (events : List (ResultEvent S.messages.length)) : S.received (e :: events) = [] := by
  rw [received, whileOpen, List.takeWhile_cons_of_neg (by simp [h])]
  rfl

theorem received_cons_of_open {e : ResultEvent S.messages.length} (h : S.ends e = false)
    (events : List (ResultEvent S.messages.length)) :
    S.received (e :: events) = S.delivered [e] ++ S.received events := by
  rw [received, whileOpen, List.takeWhile_cons_of_pos (by simp [h]), received, delivered_append]
  rfl

theorem whileOpen_isPrefix (events₁ events₂ : List (ResultEvent S.messages.length)) :
    S.whileOpen events₁ <+: S.whileOpen (events₁ ++ events₂) := by
  unfold whileOpen
  rw [List.takeWhile_append]
  split
  · exact (List.takeWhile_prefix _).trans (List.prefix_append _ _)
  · exact List.prefix_refl _

/-- The EOFs among some messages. -/
def eofs (l : List S.Index) : Nat := tally (fun i => if (S.message i).isEof then 1 else 0) l

/-- The state after the session received the messages `received`, of which `admitted` passed the
deduplication: the queue object and the callbacks together hold the lines of `admitted`, and a mark
for each EOF from the last expected one on. -/
structure Account (k : Nat) (received admitted : List S.Index) (g : Gateway) : Prop where
  mem : ∀ i, i ∈ admitted ↔ i ∈ received
  once : ∀ i, (S.message i).query.addressed → admitted.count i ≤ 1
  each : ∀ i, ¬ (S.message i).query.addressed → admitted.count i = received.count i
  lines : Perm ((g.holding k).filter fun item => decide (item ≠ .endOfResults))
    (admitted.flatMap fun i => (S.message i).csvLines cfg)
  marker : (g.holding k).count .endOfResults = eofs admitted - (cfg.numResultQueues - 1)

/-- While the session is open, the keys and the number of EOFs that the gateway keeps for it agree
with the account. -/
structure Progress (k : Nat) (received admitted : List S.Index) (g : Gateway) : Prop extends
    Account k received admitted g where
  wf : g.WF
  session : g.clientQueues.get? S.clientId = some k
  seen : ∀ i, (S.message i).query.addressed →
    ((S.message i).key S.clientId ∈ g.addressedResultSeen ↔ i ∈ admitted)
  pending : g.pendingEofsByClient.get? S.clientId = some (cfg.numResultQueues - eofs admitted : Int)

theorem Account.perm {k : Nat} {received admitted : List S.Index} {g g' : Gateway}
    (h : Account k received admitted g) (hp : Perm (g'.holding k) (g.holding k)) :
    Account k received admitted g' where
  mem := h.mem
  once := h.once
  each := h.each
  lines := (hp.filter _).trans h.lines
  marker := hp.count_eq _ ▸ h.marker

namespace Progress

variable {k : Nat} {received admitted : List S.Index} {g g' : Gateway}

theorem openSession (hg : g.WF) (hc : g.clientQueues.get? S.clientId = none) :
    Progress (S := S) g.queues.length [] [] (g.openSession cfg S.clientId) := by
  have hempty : (g.openSession cfg S.clientId).holding g.queues.length = [] := by
    have hw : ∀ q, waiting g.queues.length (g.tasks q) = [] := by
      intro q
      cases ht : g.tasks q with
      | none => rfl
      | some t => exact if_neg (Nat.ne_of_lt (hg.task_lt ht))
    simp [holding, queue, Gateway.openSession, hw]
  refine ⟨⟨by simp, by simp, by simp, ?_, ?_⟩, hg.openSession _, ?_, fun i _ => ?_, ?_⟩
  · rw [hempty]
    exact .refl _
  · rw [hempty]
    simp [eofs]
  · simp [Gateway.openSession]
  · -- a client that is not connected has no remembered keys
    refine iff_of_false (fun hm => ?_) (by simp)
    have := hg.seen _ hm
    simp [ResultMessage.key, hc] at this
  · simp [Gateway.openSession, eofs]

theorem foreign {l : Gateway.Label} (h : Progress k received admitted g)
    (hf : Foreign S.clientId l) (he : g.exec cfg l = some g') :
    Progress k received admitted g' := by
  have hs := h.wf.sameFor_exec h.session hf he
  refine ⟨h.toAccount.perm hs.holding, h.wf.exec he, hs.session.trans h.session, fun i hi => ?_,
    hs.pending.trans h.pending⟩
  exact (hs.seen _ rfl).trans (h.seen i hi)

/-- The deduplication stops the addressed messages that came before, and no others. -/
theorem receive_message (h : Progress k received admitted g) (i : S.Index) :
    g.receive cfg (S.message i).query (S.packetOf i) =
      if (S.message i).query.addressed ∧ i ∈ admitted then g.settle (S.message i).query true
      else g.accept cfg (S.message i).query ((S.message i).unpacked S.clientId) k := by
  have hdup : (∃ key ∈ dedupKey (S.message i).query ((S.message i).unpacked S.clientId),
      key ∈ g.addressedResultSeen) ↔ (S.message i).query.addressed ∧ i ∈ admitted := by
    rw [ResultMessage.dedupKey_unpacked]
    split
    · next ha => simp [ha, h.seen i ha]
    · next ha => simp [ha]
  have hsession : g.clientQueues.get? ((S.message i).unpacked S.clientId).clientId = some k :=
    h.session
  simp only [Gateway.receive, ResultMessage.unpackResult_packet (packet_packetOf i), hsession]
  exact if_congr hdup rfl rfl

theorem duplicate (h : Progress k received admitted g) {i : S.Index}
    (ha : (S.message i).query.addressed) (hi : i ∈ admitted) :
    Progress k (received ++ [i]) admitted (g.settle (S.message i).query true) := by
  refine ⟨⟨fun j => ?_, h.once, fun j hj => ?_, h.lines, h.marker⟩,
    ⟨h.wf.queue_lt, h.wf.queue_inj, h.wf.task_lt, h.wf.seen⟩, h.session, h.seen, h.pending⟩
  · rw [List.mem_append, List.mem_singleton, ← h.mem j]
    exact ⟨.inl, fun hj => hj.elim id fun e => e ▸ hi⟩
  · have hne : i ≠ j := fun e => hj (e ▸ ha)
    rw [List.count_append, List.count_singleton, h.each j hj]
    simp [hne]

/-- A message that passes adds its lines, and a mark if it is an EOF of which no more are
expected. -/
theorem accept (h : Progress k received admitted g) {i : S.Index}
    (hidle : g.tasks (S.message i).query = none)
    (hi : ¬ ((S.message i).query.addressed ∧ i ∈ admitted)) :
    Progress k (received ++ [i]) (admitted ++ [i])
      (g.accept cfg (S.message i).query ((S.message i).unpacked S.clientId) k) := by
  have hrem : g.remaining ((S.message i).unpacked S.clientId) =
      cfg.numResultQueues - eofs admitted - 1 := by
    simp only [Gateway.remaining, Dict.getD, ResultMessage.unpacked, h.pending, Option.getD_some]
  have heofs : eofs (admitted ++ [i]) = eofs admitted + if (S.message i).isEof then 1 else 0 := by
    simp [eofs]
  have hhold := holding_admit cfg hidle ((S.message i).unpacked S.clientId) k k
  rw [if_pos rfl, ResultMessage.resultPuts_unpacked, hrem] at hhold
  refine ⟨⟨fun j => ?_, fun j hj => ?_, fun j hj => ?_, ?_, ?_⟩, h.wf.accept h.session, h.session,
    fun j hj => ?_, ?_⟩
  · rw [List.mem_append, List.mem_append, h.mem j]
  · rw [List.count_append, List.count_singleton]
    have := h.once j hj
    split
    · next e =>
      have e := eq_of_beq e
      subst e
      rw [List.count_eq_zero_of_not_mem fun hm => hi ⟨hj, hm⟩]
    · exact this
  · rw [List.count_append, List.count_append, h.each j hj]
  · have hlines : ((S.message i).csvLines cfg).filter (fun item => decide (item ≠ .endOfResults)) =
        (S.message i).csvLines cfg :=
      List.filter_eq_self.mpr fun item hm => decide_eq_true fun e =>
        ResultMessage.endOfResults_not_mem_csvLines cfg _ (e ▸ hm)
    have hmark :
        (if (S.message i).isEof = true ∧ (cfg.numResultQueues - eofs admitted - 1 : Int) ≤ 0
        then [QueueItem.endOfResults] else []).filter (fun item => decide (item ≠ .endOfResults)) =
        [] := by
      split <;> rfl
    refine (hhold.filter _).trans ?_
    rw [List.filter_append, List.filter_append, hlines, hmark, List.append_nil, List.flatMap_append,
      List.flatMap_singleton]
    exact h.lines.append_right _
  · rw [hhold.count_eq, List.count_append, List.count_append, h.marker, heofs,
      List.count_eq_zero_of_not_mem (ResultMessage.endOfResults_not_mem_csvLines cfg _)]
    cases (S.message i).isEof with
    | false => simp
    | true =>
      simp only [true_and, if_true]
      split
      · rw [List.count_singleton_self]
        omega
      · rw [List.count_nil]
        omega
  · simp only [Gateway.accept, ResultMessage.dedupKey_unpacked, List.mem_append, Option.mem_toList,
      List.mem_singleton, h.seen j hj]
    split
    · next ha =>
      rw [or_comm, Option.some_inj, eq_comm]
      exact or_congr_right ⟨key_injective hj, fun e => e ▸ rfl⟩
    · next ha =>
      have hne : j ≠ i := fun e => ha (e ▸ hj)
      simp [hne]
  · dsimp only [Gateway.accept]
    rw [hrem, heofs, ResultMessage.unpacked]
    cases he : (S.message i).isEof with
    | false =>
      have hne : MessageType.data.toNat ≠ MessageType.eof.toNat := by decide
      rw [ResultMessage.msgType_eq_data he, if_neg hne, h.pending]
      rfl
    | true =>
      rw [ResultMessage.msgType_eq_eof he, if_pos rfl, Dict.get?_set, if_pos rfl, if_pos rfl]
      congr 1
      omega

/-- A step while the session is open keeps the account. -/
theorem event (h : Progress k received admitted g) {e : ResultEvent S.messages.length}
    (hf : ∀ l, e = .other l → Foreign S.clientId l) (he : g.exec cfg (S.label e) = some g') :
    Progress k (received ++ S.delivered [e]) (admitted ++ S.takenBy k g' e) g' := by
  cases e with
  | other l =>
    rw [show S.delivered [.other l] = [] from rfl, takenBy, List.append_nil, List.append_nil]
    exact h.foreign (hf l rfl) he
  | message i =>
    dsimp only [label, Gateway.exec] at he
    split at he
    · next hq =>
      cases he
      have hidle := Option.isNone_iff_eq_none.mp hq.2
      rw [h.receive_message i, show S.delivered [.message i] = [i] from rfl, takenBy]
      split
      · next hi =>
        rw [settle, hidle, Option.any_none, if_neg Bool.false_ne_true, List.append_nil]
        exact h.duplicate hi.1 hi.2
      · next hi =>
        rw [if_pos (by simp [Gateway.accept])]
        exact h.accept hidle hi
    · cases he

/-- The step that ends the session leaves the account as it is. -/
theorem ended (h : Progress k received admitted g) {e : ResultEvent S.messages.length}
    (hend : S.ends e = true) (he : g.exec cfg (S.label e) = some g') :
    g'.Released k ∧ S.takenBy k g' e = [] ∧ Account k received admitted g' := by
  cases e with
  | message i => cases hend
  | other l =>
    cases l with
    | openSession c =>
      cases of_decide_eq_true hend
      cases he
      exact ⟨h.wf.released_openSession h.session, rfl,
        h.toAccount.perm (.of_eq (holding_openSession (h.wf.queue_lt h.session) _))⟩
    | closeSession c =>
      cases of_decide_eq_true hend
      cases he
      exact ⟨h.wf.released_closeSession h.session, rfl, h.toAccount.perm (.refl _)⟩
    | deliver q message => cases hend
    | advance q => cases hend

end Progress

/-- A message that comes after the session is not put into its queue object. -/
theorem takenBy_of_released {k : Nat} {g g' : Gateway} (h : g.Released k)
    {e : ResultEvent S.messages.length} (he : g.exec cfg (S.label e) = some g') :
    S.takenBy k g' e = [] := by
  cases e with
  | other l => rfl
  | message i =>
    dsimp only [label, Gateway.exec] at he
    split at he
    · next hq =>
      cases he
      obtain ⟨acks, e⟩ | ⟨m, k', -, hk', e⟩ :=
        receive_cases cfg g (S.message i).query (S.packetOf i)
      · rw [e, takenBy, settle, Option.isNone_iff_eq_none.mp hq.2]
        rfl
      · have hne : k' ≠ k := fun e' => h.released _ (e' ▸ hk')
        rw [e, takenBy, if_neg (by simp [Gateway.accept, hne])]
    · cases he

theorem Account.run_released {k : Nat} {received admitted : List S.Index} {g g' : Gateway}
    {events : List (ResultEvent S.messages.length)} (h : Account k received admitted g)
    (hg : g.Released k) (hr : S.run g events = some g') :
    S.taken k g events = [] ∧ Account k received admitted g' := by
  induction events generalizing g with
  | nil =>
    cases hr
    exact ⟨rfl, h⟩
  | cons e events ih =>
    rw [ResultSession.run, List.foldlM_cons] at hr
    obtain ⟨g₁, he, hr⟩ := Option.bind_eq_some_iff.mp hr
    obtain ⟨hg₁, hp⟩ := hg.exec he
    obtain ⟨ht, h'⟩ := ih (h.perm hp) hg₁ hr
    refine ⟨?_, h'⟩
    rw [taken, he]
    dsimp only
    rw [takenBy_of_released hg he, ht]
    rfl

/-- The other deliveries of a run are not for the client of the session, as long as it is open. -/
def OthersForeign (events : List (ResultEvent S.messages.length)) : Prop :=
  ∀ q message, .other (.deliver q message) ∈ S.whileOpen events →
    ∀ m, unpackResult q message = .ok m → m.clientId ≠ S.clientId

theorem OthersForeign.of_append {events₁ events₂ : List (ResultEvent S.messages.length)}
    (h : OthersForeign (events₁ ++ events₂)) : OthersForeign events₁ :=
  fun q message hm => h q message ((whileOpen_isPrefix events₁ events₂).subset hm)

/-- Every run keeps the account of what came to the session. -/
theorem Progress.run {k : Nat} {received admitted : List S.Index} {g g' : Gateway}
    {events : List (ResultEvent S.messages.length)} (h : Progress k received admitted g)
    (ho : OthersForeign events) (hr : S.run g events = some g') :
    Account k (received ++ S.received events) (admitted ++ S.taken k g events) g' := by
  induction events generalizing g received admitted with
  | nil =>
    cases hr
    simpa [ResultSession.received, whileOpen, delivered, taken] using h.toAccount
  | cons e events ih =>
    rw [ResultSession.run, List.foldlM_cons] at hr
    obtain ⟨g₁, he, hr⟩ := Option.bind_eq_some_iff.mp hr
    rw [taken, he]
    dsimp only
    cases hend : S.ends e with
    | true =>
      obtain ⟨hg₁, ht, ha⟩ := h.ended hend he
      obtain ⟨ht', ha'⟩ := ha.run_released hg₁ hr
      rw [received_cons_of_ends hend, ht, ht', List.append_nil, List.append_nil, List.append_nil]
      exact ha'
    | false =>
      have hopen : S.whileOpen (e :: events) = e :: S.whileOpen events :=
        List.takeWhile_cons_of_pos (by simp [hend])
      have hf : ∀ l, e = .other l → Foreign S.clientId l := by
        rintro l rfl
        cases l with
        | openSession c => exact of_decide_eq_false hend
        | closeSession c => exact of_decide_eq_false hend
        | deliver q message => exact ho q message (hopen ▸ List.mem_cons_self)
        | advance q => trivial
      have h₁ := ih (h.event hf he)
        (fun q message hm => ho q message (hopen ▸ List.mem_cons_of_mem _ hm)) hr
      rwa [List.append_assoc, List.append_assoc, ← received_cons_of_open hend] at h₁

/-! ## Counting -/

namespace Account

variable {k : Nat} {received admitted : List S.Index} {g : Gateway}

end Account

/-! ## Whole runs -/

variable (S)

/-- A message that leaves something with the client: an EOF or a batch with lines. -/
def Counts (i : S.Index) : Prop := (S.message i).isEof = true ∨ (S.message i).csvLines cfg ≠ []

variable {S}

namespace ExactlyOnce

variable {g g' : Gateway} {k : Nat} {events : List (ResultEvent S.messages.length)}

end ExactlyOnce

end ResultSession

end MoneyLaundering
