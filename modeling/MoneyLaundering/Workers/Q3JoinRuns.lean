import MoneyLaundering.Workers.Q3Join

/-!
# Runs of the barrier

Every run of the barrier in which the EOF of each of the two streams of a client comes after its
data, with any redeliveries and failures of the disk and the broker. As long as the inbox is not
misled about the packets of a sender, one input of the client emits, the later of the two EOFs, and
what it emits does not depend on how the streams were interleaved
(`Q3Session.q3_barrier_joined_once`). A packet `0` that comes after another one is taken for a
duplicate, and its candidates are lost (`Q3Session.candidates_lost_out_of_order`).
-/

namespace MoneyLaundering

open Bytes InternalProtocol Runner Consumer

namespace Q3Session

variable {α : Type} [LinearOrder α] {cfg : Q3BarrierConfig α} {clientId : Nat}
    (sess : Q3Session clientId)

/-- The inputs of the client that a history applies. -/
abbrev recorded (clientId : Nat) (history : List (WalRecord Q3Change)) : List InputKey :=
  (clientOutputs clientId history).map Prod.fst

/-- An input of the client has been dealt with: it is recorded, or acked. -/
def Settled (clientId : Nat) (s : State Q3BarrierState Q3Change) (key : InputKey) : Prop :=
  key ∈ recorded clientId s.node.history ∨ .acked key ∈ s.trace

instance (s : State Q3BarrierState Q3Change) (key : InputKey) :
    Decidable (Settled clientId s key) :=
  inferInstanceAs (Decidable (_ ∨ _))

/-- A message of the client comes in its turn: the messages before it in its stream are dealt
with. -/
def Comes (s : State Q3BarrierState Q3Change) (q : Q3Stream) (m : Addressed) : Prop :=
  m.clientId = clientId → ∃ i : Fin (sess.messages q).length, (sess.messages q).get i = m ∧
    ∀ m' ∈ (sess.messages q).take i, Settled clientId s (q.keyOf m')

/-- The environment: the messages of both streams of the client are delivered in turn, and every
message any number of times. -/
def InTurn (s : State Q3BarrierState Q3Change) : Label Q3BarrierConfig.Delivery → Prop
  | .deliver d _ => ∀ m ∈ (unpackAddressedPacket d.body).toOption, sess.Comes s d.stream m
  | _ => True

/-- The input that a task commits next. -/
def finishing (s : State Q3BarrierState Q3Change) (i : Nat) : Option InputKey :=
  match s.tasks[i]? with
  | some (.publishing key []) => some key
  | _ => none

/-- In addition the inbox is not misled: message `0` of a sender is finished before the sender's
other messages are, and no finished message skips more of them than the cap. -/
def InTime (s : State Q3BarrierState Q3Change) : Label Q3BarrierConfig.Delivery → Prop
  | .deliver d _ => ∀ m ∈ (unpackAddressedPacket d.body).toOption, sess.Comes s d.stream m ∧
      (m.clientId = clientId → ZeroFirst s.node.history (d.stream.keyOf m))
  | .commit i _ => ∀ key ∈ finishing s i, key.clientId = clientId → WithinCap s.node.history key
  | _ => True

instance (s : State Q3BarrierState Q3Change) (q : Q3Stream) (m : Addressed) :
    Decidable (sess.Comes s q m) := inferInstanceAs (Decidable (_ → _))

instance (s : State Q3BarrierState Q3Change) :
    (l : Label Q3BarrierConfig.Delivery) → Decidable (sess.InTurn s l)
  | .deliver d _ => inferInstanceAs
      (Decidable (∀ m ∈ (unpackAddressedPacket d.body).toOption, sess.Comes s d.stream m))
  | .publish .. | .commit .. | .ack _ => .isTrue trivial

instance (s : State Q3BarrierState Q3Change) :
    (l : Label Q3BarrierConfig.Delivery) → Decidable (sess.InTime s l)
  | .deliver d _ => inferInstanceAs (Decidable (∀ m ∈ (unpackAddressedPacket d.body).toOption,
      sess.Comes s d.stream m ∧
        (m.clientId = clientId → ZeroFirst s.node.history (d.stream.keyOf m))))
  | .commit i _ => inferInstanceAs (Decidable (∀ key ∈ finishing s i,
      key.clientId = clientId → WithinCap s.node.history key))
  | .publish .. | .ack _ => .isTrue trivial

/-- One input of the client has emitted, the EOF that came last, after all other messages of the
client. -/
def EmittedOnce (cfg : Q3BarrierConfig α) (emissions : List Q3Emission)
    (history : List (WalRecord Q3Change)) : Prop :=
  ∃ silent q outputs packets, clientOutputs clientId history = silent ++
    [(Q3Stream.keyOf q (sess.eof q), outputs)] ∧
    (∀ r ∈ silent, r.2 = []) ∧ Q3Stream.keyOf q (sess.eof q) ∉ silent.map Prod.fst ∧
    (∀ q', ∀ key ∈ sess.keys q', key ∈ silent.map Prod.fst ∨ key = Q3Stream.keyOf q (sess.eof q)) ∧
    emissions.mapM (cfg.packet clientId) = .ok packets ∧
    outputs.map (fun entry => (entry.destination, entry.body)) =
      packets.map fun output => (output.destination, output.body)

/-! ## The inputs of a stream -/

section keys
variable {sess}

theorem length_keys (q : Q3Stream) : (sess.keys q).length = (sess.entries q).length := by
  rw [keys, messages, List.length_map, List.length_map]

theorem nodup_keys (q : Q3Stream) : (sess.keys q).Nodup := by
  refine List.pairwise_map.mpr ((sess.distinct q).imp fun {m m'} hne heq => ?_)
  exact hne (congrArg InputKey.senderId heq) (congrArg InputKey.seq heq)

/-- A message at its place. -/
theorem getElem?_entries {q : Q3Stream} {i : Nat} {m : Addressed}
    (h : (sess.messages q)[i]? = some m) :
    ∃ body, (sess.entries q)[i]? = some (m, body) := by
  rw [messages, List.getElem?_map, Option.map_eq_some_iff] at h
  obtain ⟨⟨_, body⟩, he, rfl⟩ := h
  exact ⟨body, he⟩

theorem clientId_of_mem {q : Q3Stream} {m : Addressed} (h : m ∈ sess.messages q) :
    m.clientId = clientId := by
  obtain ⟨⟨m, body⟩, he, rfl⟩ := List.mem_map.mp h
  cases q with
  | averages => exact (sess.parse_of_mem he (d := .averages []) rfl).1
  | candidates => exact (sess.parse_of_mem he (d := .candidates []) rfl).1

/-- The inputs of a stream that come before a place. -/
theorem mem_take_keys {q : Q3Stream} {n : Nat} {key : InputKey} :
    key ∈ (sess.keys q).take n ↔ ∃ i < n, ∃ m, (sess.messages q)[i]? = some m ∧
    q.keyOf m = key := by
  rw [List.mem_take_iff_getElem]
  constructor
  · rintro ⟨i, hi, rfl⟩
    rw [lt_min_iff] at hi
    have hlt : i < (sess.messages q).length := by simpa [keys] using hi.2
    refine ⟨i, hi.1, (sess.messages q)[i], List.getElem?_eq_getElem hlt, ?_⟩
    simp [keys]
  · rintro ⟨i, hi, m, hm, rfl⟩
    obtain ⟨hlt, rfl⟩ := List.getElem?_eq_some_iff.mp hm
    refine ⟨i, lt_min hi (by simpa [keys] using hlt), ?_⟩
    simp [keys]

end keys

/-! ## How far a client is -/

/-- Some messages of each stream are recorded, none of them emitted, and the client is open; or the
last one has come, and it alone emitted. -/
inductive Progress (cfg : Q3BarrierConfig α) (history : List (WalRecord Q3Change))
    (s : Q3BarrierState) : Prop
  | gathering (n : Q3Stream → Nat) (hopen : ¬ sess.Complete n)
      (hsilent : ∀ r ∈ clientOutputs clientId history, r.2 = [])
      (hle : ∀ q, n q ≤ (sess.entries q).length)
      (hkeys : ∀ key, key ∈ recorded clientId history ↔ ∃ q, key ∈ (sess.keys q).take (n q))
      (hstate : sess.Gathered n (s.client clientId))
  | emitted (honce : sess.EmittedOnce cfg (cfg.emissions sess.averageOf sess.transactions) history)

variable {sess} {emissions : List Q3Emission} {history : List (WalRecord Q3Change)}
    {s s' : Q3BarrierState}

omit [LinearOrder α] in
theorem EmittedOnce.mem_recorded (h : sess.EmittedOnce cfg emissions history) {q : Q3Stream}
    {key : InputKey} (hk : key ∈ sess.keys q) : key ∈ recorded clientId history := by
  obtain ⟨silent, q₀, outputs, packets, hrec, -, -, hall, -⟩ := h
  rw [recorded, hrec, List.map_append]
  rcases hall q key hk with hk | rfl
  · exact List.mem_append_left _ hk
  · exact List.mem_append_right _ (by simp)

theorem progress_nil (cfg : Q3BarrierConfig α) : Progress sess cfg [] {} := by
  refine .gathering (fun _ => 0) (fun h => absurd h.1 (Nat.not_lt_zero _)) (by simp [clientOutputs])
    (fun q => Nat.zero_le _) (by simp [recorded, clientOutputs]) sess.gathered_init

/-- Nothing is recorded for the client, and its record stays. -/
theorem Progress.of_eq (h : Progress sess cfg history s) {history' : List (WalRecord Q3Change)}
    (hh : clientOutputs clientId history' = clientOutputs clientId history)
    (hs : s'.client clientId = s.client clientId) : Progress sess cfg history' s' := by
  cases h with
  | gathering n hopen hsilent hle hkeys hstate =>
    exact .gathering n hopen (hh ▸ hsilent) hle (by rw [recorded, hh]; exact hkeys) (hs ▸ hstate)
  | emitted honce => exact .emitted (by rw [EmittedOnce, hh]; exact honce)

/-- An input of a stream is recorded when its place is before `n`. -/
theorem mem_recorded_iff {n : Q3Stream → Nat}
    (hkeys : ∀ key, key ∈ recorded clientId history ↔ ∃ q, key ∈ (sess.keys q).take (n q))
    {q : Q3Stream} {i : Nat}
    {m : Addressed} (hm : (sess.messages q)[i]? = some m) :
    q.keyOf m ∈ recorded clientId history ↔ i < n q := by
  rw [hkeys]
  constructor
  · rintro ⟨q', hq⟩
    obtain ⟨k, hk, m', hm', heq⟩ := mem_take_keys.mp hq
    obtain rfl : q' = q := Q3Stream.kind_injective (congrArg InputKey.kind heq)
    have hi : (sess.keys q')[i]? = some (q'.keyOf m) := by
      rw [keys, List.getElem?_map, hm, Option.map_some]
    have hk' : (sess.keys q')[k]? = some (q'.keyOf m) := by
      rw [keys, List.getElem?_map, hm', Option.map_some, heq]
    obtain ⟨hilt, hi⟩ := List.getElem?_eq_some_iff.mp hi
    obtain ⟨hklt, hk'⟩ := List.getElem?_eq_some_iff.mp hk'
    obtain rfl := (nodup_keys q').getElem_inj_iff.mp (hi.trans hk'.symm)
    exact hk
  · exact fun hi => ⟨q, mem_take_keys.mpr ⟨i, hi, m, hm, rfl⟩⟩

/-- The message that comes in order and is not recorded is the next of its stream. -/
theorem eq_of_not_recorded {n : Q3Stream → Nat}
    (hkeys : ∀ key, key ∈ recorded clientId history ↔ ∃ q, key ∈ (sess.keys q).take (n q))
    {q : Q3Stream} {i : Nat} {m : Addressed} (hm : (sess.messages q)[i]? = some m)
    (hbefore : ∀ m' ∈ (sess.messages q).take i, q.keyOf m' ∈ recorded clientId history)
    (hnew : q.keyOf m ∉ recorded clientId history) : i = n q := by
  have hge : n q ≤ i := Nat.not_lt.mp (mt (mem_recorded_iff hkeys hm).mpr hnew)
  refine le_antisymm (Nat.not_lt.mp fun hlt => ?_) hge
  -- the message at place `n q` comes before this one, so it is recorded
  have hlen := (List.getElem?_eq_some_iff.mp hm).1
  have hn : (sess.messages q)[n q]? = some (sess.messages q)[n q] :=
    List.getElem?_eq_getElem (by omega)
  refine absurd ((mem_recorded_iff hkeys hn).mp (hbefore _ ?_)) (lt_irrefl _)
  exact List.mem_take_iff_getElem.mpr ⟨n q, by omega, rfl⟩

/-- With all messages of the client recorded, both streams have ended. -/
theorem complete_of_recorded {n : Q3Stream → Nat}
    (hkeys : ∀ key, key ∈ recorded clientId history ↔ ∃ q, key ∈ (sess.keys q).take (n q))
    (hall : ∀ q, ∀ key ∈ sess.keys q, key ∈ recorded clientId history) : sess.Complete n := by
  have heof : ∀ {q : Q3Stream} {i : Nat}, (sess.messages q)[i]? = some (sess.eof q) → i < n q := by
    intro q i hm
    refine (mem_recorded_iff hkeys hm).mp (hall q _ ?_)
    exact List.mem_map.mpr ⟨_, List.mem_of_getElem? hm, rfl⟩
  refine ⟨heof (q := .averages) ?_, heof (q := .candidates) ?_⟩
  · simp [messages, entries, eof]
  · simp [messages, entries, eof]

/-! ## One message -/

section message
variable {w touched : Q3BarrierState} {d : Q3BarrierConfig.Delivery} {m : Addressed} {body : Q3Body}
    {key : InputKey}
  {change : Q3Change} {result : Except String (Q3Change × List LogicalOutput)}

/-- The outputs of a message of an open client. -/
def resultFor (cfg : Q3BarrierConfig α) (w : Q3BarrierState) (m : Q3Message) :
    Except String (Q3Change × List LogicalOutput) := do
  let (change, emitted) ← cfg.changeFor w m
  return (change, ← emitted.mapM (cfg.packet m.clientId))

/-- A message of an open client that can be read is handled. -/
theorem react_of_parse (hm : unpackAddressedPacket d.body = .ok m)
    (hopen : w.isClosed m.clientId = false) (hparse : d.parse m = .ok body) : cfg.react w d =
      .handle (Q3Message.key ⟨m.clientId, m.senderId, m.seq, body⟩) w
        (resultFor cfg w ⟨m.clientId, m.senderId, m.seq, body⟩) := by
  simp only [Q3BarrierConfig.react, hm, hopen, hparse, Q3BarrierConfig.onMessage,
    Bool.false_eq_true, if_false]
  rfl

/-- The handlers leave the state alone; what they handle is a message of an open client. -/
theorem react_handle (h : cfg.react w d = .handle key touched result) : touched = w ∧ ∃ m body,
    unpackAddressedPacket d.body = .ok m ∧ w.isClosed m.clientId = false ∧ d.parse m = .ok body ∧
      key = Q3Message.key ⟨m.clientId, m.senderId, m.seq, body⟩ ∧
      result = resultFor cfg w ⟨m.clientId, m.senderId, m.seq, body⟩ := by
  cases hm : unpackAddressedPacket d.body with
  | error e =>
    rw [Q3BarrierConfig.react, hm] at h
    cases h
  | ok m =>
    cases hopen : w.isClosed m.clientId with
    | true =>
      simp only [Q3BarrierConfig.react, hm, hopen, if_true] at h
      split at h <;> cases h
    | false =>
      cases hparse : d.parse m with
      | error e =>
        simp only [Q3BarrierConfig.react, hm, hopen, hparse, Bool.false_eq_true, if_false] at h
        cases h
      | ok body =>
        rw [react_of_parse hm hopen hparse] at h
        cases h
        exact ⟨rfl, m, body, rfl, hopen, hparse, rfl, rfl⟩

theorem react_direct {sends : List (String × Bytes)} (h : cfg.react w d = .direct touched sends) :
    touched = w := by
  cases hm : unpackAddressedPacket d.body with
  | error e =>
    rw [Q3BarrierConfig.react, hm] at h
    cases h
  | ok m =>
    cases hopen : w.isClosed m.clientId with
    | true =>
      simp only [Q3BarrierConfig.react, hm, hopen, if_true] at h
      split at h
      · cases h
      · cases h
        rfl
    | false =>
      cases hparse : d.parse m with
      | error e =>
        simp only [Q3BarrierConfig.react, hm, hopen, hparse, Bool.false_eq_true, if_false] at h
        cases h
      | ok body =>
        rw [react_of_parse hm hopen hparse] at h
        cases h

/-- A message of a closed client is acked as the input of its queue. -/
theorem react_skip (h : cfg.react w d = .skip key) :
    ∃ m kind, unpackAddressedPacket d.body = .ok m ∧
    w.isClosed m.clientId = true ∧ d.kind m.msgType = some kind ∧
    key = ⟨m.clientId, kind, m.senderId, m.seq⟩ := by
  cases hm : unpackAddressedPacket d.body with
  | error e =>
    rw [Q3BarrierConfig.react, hm] at h
    cases h
  | ok m =>
    cases hclosed : w.isClosed m.clientId with
    | true =>
      simp only [Q3BarrierConfig.react, hm, hclosed, if_true] at h
      split at h
      · next kind hkind =>
        cases h
        exact ⟨m, kind, rfl, hclosed, hkind, rfl⟩
      · cases h
    | false =>
      cases hparse : d.parse m with
      | error e =>
        simp only [Q3BarrierConfig.react, hm, hclosed, hparse, Bool.false_eq_true, if_false] at h
        cases h
      | ok body =>
        rw [react_of_parse hm hclosed hparse] at h
        cases h

theorem clientId_key (m : Q3Message) : m.key.clientId = m.clientId := by
  rw [Q3Message.key]
  split <;> rfl

/-- A change is about the client of its message. -/
theorem clientId_changeFor {m : Q3Message} {emitted : List Q3Emission}
    (h : cfg.changeFor w m = .ok (change, emitted)) :
    ∀ op ∈ change.ops, op.clientId = m.clientId := by
  have hone : ∀ op : Q3Op, op.clientId = m.clientId → ∀ op' ∈ (Q3Change.single op).ops,
      op'.clientId = m.clientId := by
    intro op hop op' hm
    obtain rfl := List.mem_singleton.mp hm
    exact hop
  have htwo : ∀ op : Q3Op, op.clientId = m.clientId →
      ∀ op' ∈ (Q3Change.compound [op, .close m.clientId]).ops, op'.clientId = m.clientId := by
    intro op hop op' hm
    simp only [Q3Change.ops, List.mem_cons, List.not_mem_nil, or_false] at hm
    rcases hm with rfl | rfl
    · exact hop
    · rfl
  unfold Q3BarrierConfig.changeFor at h
  split at h
  · cases h
    exact hone _ rfl
  · cases h
    exact hone _ rfl
  · split at h
    · obtain ⟨candidates, -, h⟩ := Except.ok_of_bind h
      cases h
      exact htwo _ rfl
    · cases h
      exact hone _ rfl
  · split at h
    · obtain ⟨candidates, -, h⟩ := Except.ok_of_bind h
      cases h
      exact htwo _ rfl
    · cases h
      exact hone _ rfl
  · cases h
    exact hone _ rfl

/-- A change about another client. -/
theorem client_applyChange_of_ne (w : Q3BarrierState)
    (h : ∀ op ∈ change.ops, op.clientId ≠ clientId) :
    (w.applyChange change).client clientId = w.client clientId := by
  rw [Q3BarrierState.applyChange]
  generalize change.ops = ops at h
  induction ops generalizing w with
  | nil => rfl
  | cons op ops ih =>
    rw [List.foldl_cons, ih _ fun op' hm => h op' (List.mem_cons_of_mem _ hm),
      w.client_applyOp_of_ne (h op List.mem_cons_self)]

end message

/-- What is stamped for plain outputs. -/
theorem stamped_of_stamp {q : SenderSequencer} {inputId : String} {logical : List LogicalOutput}
    {outputs : List OutboxEntry} {c : Nat}
    (h : q.stamp cfg.consumer.toSequencerConfig c inputId logical = .ok outputs) :
    outputs.map (fun entry => (entry.destination, entry.body)) =
      logical.map fun output => (output.destination, output.body) := by
  have hstamped := SenderSequencer.forall₂_of_stamp h
  clear h
  induction hstamped with
  | nil => rfl
  | cons hs _ ih => rw [List.map_cons, List.map_cons, ih, hs.destination, (hs.plain rfl).1]

/-- The inputs before the places of both streams, when one stream has one message more. -/
theorem mem_take_advance {n : Q3Stream → Nat} {q : Q3Stream} {m : Addressed}
    (hm : (sess.messages q)[n q]? = some m)
    (key : InputKey) : (∃ q', key ∈ (sess.keys q').take (advance n q q')) ↔
      (∃ q', key ∈ (sess.keys q').take (n q')) ∨ key = q.keyOf m := by
  have hkey : (sess.keys q)[n q]? = some (q.keyOf m) := by
    rw [keys, List.getElem?_map, hm, Option.map_some]
  have hone : (sess.keys q).take (advance n q q) = (sess.keys q).take (n q) ++ [q.keyOf m] := by
    rw [advance, Function.update_self, List.take_add_one, hkey, Option.toList_some]
  constructor
  · rintro ⟨q', hk⟩
    by_cases hq : q' = q
    · subst hq
      rw [hone, List.mem_append, List.mem_singleton] at hk
      exact hk.imp_left fun hk => ⟨q', hk⟩
    · rw [advance, Function.update_of_ne hq] at hk
      exact .inl ⟨q', hk⟩
  · rintro (⟨q', hk⟩ | rfl)
    · refine ⟨q', ?_⟩
      by_cases hq : q' = q
      · subst hq
        exact hone ▸ List.mem_append_left _ hk
      · rwa [advance, Function.update_of_ne hq]
    · exact ⟨q, hone ▸ List.mem_append_right _ (List.mem_singleton_self _)⟩

/-- Complete streams have no message left. -/
theorem Complete.length_le {n : Q3Stream → Nat} (h : sess.Complete n) (q : Q3Stream) :
    (sess.entries q).length ≤ n q := by
  cases q with
  | averages => simpa [entries] using Nat.succ_le_of_lt h.1
  | candidates => simpa [entries] using Nat.succ_le_of_lt h.2

/-- The message that completes the streams is an EOF. -/
theorem eof_of_complete {n : Q3Stream → Nat} {q : Q3Stream} {m : Addressed} {body : Q3Body}
    (hm : (sess.entries q)[n q]? = some (m, body)) (hc : sess.Complete (advance n q)) :
    m = sess.eof q := by
  have hlen := hc.length_le q
  rw [advance, Function.update_self] at hlen
  cases q with
  | averages =>
    rcases sess.averages_getElem? hm with ⟨e, he, -, -⟩ | ⟨-, rfl, -⟩
    · have hlt := (List.getElem?_eq_some_iff.mp he).1
      simp only [entries, List.length_append, List.length_map, List.length_singleton] at hlen
      omega
    · rfl
  | candidates =>
    rcases sess.candidates_getElem? hm with ⟨e, he, -, -⟩ | ⟨-, rfl, -⟩
    · have hlt := (List.getElem?_eq_some_iff.mp he).1
      simp only [entries, List.length_append, List.length_map, List.length_singleton] at hlen
      omega
    · rfl

/-- A message of the client that is applied for the first time. -/
theorem Progress.append_applied {n : Q3Stream → Nat} (hle : ∀ q, n q ≤ (sess.entries q).length)
    (hsilent : ∀ r ∈ clientOutputs clientId history, r.2 = [])
    (hkeys : ∀ key, key ∈ recorded clientId history ↔ ∃ q, key ∈ (sess.keys q).take (n q))
    (hstate : sess.Gathered n (s.client clientId)) {q : Q3Stream} {m : Addressed} {body : Q3Body}
    (hm : (sess.entries q)[n q]? = some (m, body)) (hnew : q.keyOf m ∉ recorded clientId history)
    {change : Q3Change} {logical : List LogicalOutput}
    (hresult : resultFor cfg s ⟨clientId, m.senderId, m.seq, body⟩ = .ok (change, logical))
    {sequencer : SenderSequencer} {msgId : String} {outputs : List OutboxEntry}
    (hstamp : sequencer.stamp cfg.consumer.toSequencerConfig clientId msgId logical = .ok outputs) :
    Progress sess cfg (history ++ [.inputApplied msgId (q.keyOf m) change outputs])
    (s.applyChange change) := by
  have hmessage : (sess.messages q)[n q]? = some m := by
    rw [messages, List.getElem?_map, hm, Option.map_some]
  have hclient : m.clientId = clientId := clientId_of_mem (List.mem_of_getElem? hmessage)
  have hone : clientOutputs clientId (history ++ [.inputApplied msgId (q.keyOf m) change outputs]) =
      clientOutputs clientId history ++ [(q.keyOf m, outputs)] := by
    rw [clientOutputs_append]
    simp [clientOutputs, Q3Stream.keyOf, hclient]
  have hrecorded :
      ∀ key, key ∈ recorded clientId (history ++ [.inputApplied msgId (q.keyOf m) change outputs]) ↔
      ∃ q', key ∈ (sess.keys q').take (advance n q q') := by
    intro key
    rw [mem_take_advance hmessage, ← hkeys, recorded, hone, List.map_append, List.mem_append]
    simp
  rw [resultFor, hstate.changeFor cfg hm] at hresult
  split at hresult
  · next hc =>
    rw [Except.ok_bind] at hresult
    obtain ⟨packets, hpackets, hresult⟩ := Except.ok_of_bind hresult
    cases hresult
    obtain rfl := eof_of_complete hm hc
    refine .emitted ⟨_, q, outputs, logical, hone, hsilent, hnew, fun q' key hk =>
      ?_, hpackets, stamped_of_stamp hstamp⟩
    have hall : key ∈ (sess.keys q').take (advance n q q') := by
      rwa [List.take_of_length_le ((length_keys q').trans_le (hc.length_le q'))]
    have hmem := (hrecorded key).mpr ⟨q', hall⟩
    rw [recorded, hone, List.map_append, List.mem_append] at hmem
    simpa using hmem
  · next hc =>
    cases hresult
    obtain rfl : outputs = [] := by
      have hnone := stamped_of_stamp hstamp
      simpa using hnone
    have hop : (body.op clientId).clientId = clientId ∧ body.op clientId ≠ .close clientId := by
      have hmem := List.mem_of_getElem? hm
      cases q with
      | averages => exact (sess.parse_of_mem hmem (d := .averages []) rfl).2.2.2
      | candidates => exact (sess.parse_of_mem hmem (d := .candidates []) rfl).2.2.2
    refine .gathering (advance n q) hc ?_ ?_ hrecorded ?_
    · rw [hone]
      intro r hr
      rcases List.mem_append.mp hr with hr | hr
      · exact hsilent r hr
      · obtain rfl := List.mem_singleton.mp hr
        rfl
    · intro q'
      by_cases hq : q' = q
      · subst hq
        rw [advance, Function.update_self]
        exact (List.getElem?_eq_some_iff.mp hm).1
      · rw [advance, Function.update_of_ne hq]
        exact hle q'
    · have hstep : (s.applyChange (.single (body.op clientId))).client clientId =
          (s.client clientId).absorb (body.op clientId) :=
            s.client_applyOp hop.1 hstate.closed hop.2
      rw [hstep]
      exact hstate.absorb hm

/-! ## What a run keeps -/

/-- What holds in every run. -/
structure RunInv (sess : Q3Session clientId) (cfg : Q3BarrierConfig α)
    (s : State Q3BarrierState Q3Change) : Prop where
  sound : Sound cfg.consumer s
  done : DoneApplied s.node.history
  progress : Progress sess cfg s.node.history s.node.handler.workerState
  jumps : ∀ key : InputKey, key.clientId = clientId → JumpsBounded 0 (doneSeqs s.node.history key)
  acking : ∀ key : InputKey, key.clientId = clientId → .acking key ∈ s.tasks →
    key ∈ recorded clientId s.node.history
  acked : ∀ key : InputKey, key.clientId = clientId → .acked key ∈ s.trace →
    key ∈ recorded clientId s.node.history

theorem runInv_init : RunInv sess cfg (init cfg.consumer) where
  sound := sound_init
  done := fun _ _ h => absurd h (List.not_mem_nil)
  progress := progress_nil cfg
  jumps := fun _ _ => trivial
  acking := by simp [Consumer.init]
  acked := by simp [Consumer.init]

variable {st st' : State Q3BarrierState Q3Change} {l : Label Q3BarrierConfig.Delivery}

/-- What is dealt with is recorded. -/
theorem RunInv.recorded_of_settled (h : RunInv sess cfg st) {key : InputKey}
    (hc : key.clientId = clientId)
    (hs : Settled clientId st key) : key ∈ recorded clientId st.node.history :=
  hs.elim id (h.acked key hc)

/-- What the handler reads from a message of the client that comes in its turn. -/
theorem RunInv.place (h : RunInv sess cfg st) {q : Q3Stream} {m : Addressed}
    (hcomes : sess.Comes st q m)
    (hclient : m.clientId = clientId) : ∃ i, (sess.messages q)[i]? = some m ∧
      (∀ m' ∈ (sess.messages q).take i, q.keyOf m' ∈ recorded clientId st.node.history) ∧
      ∃ body, (sess.entries q)[i]? = some (m, body) := by
  obtain ⟨i, hi, hbefore⟩ := hcomes hclient
  have hm : (sess.messages q)[i.val]? = some m :=
    (List.getElem?_eq_getElem i.isLt).trans (congrArg some hi)
  refine ⟨i, hm, fun m' hm' => h.recorded_of_settled ?_ (hbefore m' hm'), getElem?_entries hm⟩
  exact clientId_of_mem (List.mem_of_mem_take hm')

/-- A message of the client that the inbox reports as finished is recorded. -/
theorem RunInv.recorded_of_done (h : RunInv sess cfg st) {key : InputKey}
    (hc : key.clientId = clientId)
    (hzero : ZeroFirst st.node.history key) (hdone : st.node.handler.inbox.classify key = .done) :
    key ∈ recorded clientId st.node.history := by
  have hfinished : ∃ m, .inputDone m key ∈ st.node.history := by
    rw [h.sound.node.inbox] at hdone
    rcases finished_of_classify_done (h.jumps key hc) hdone with hm | ⟨hseq, hne⟩
    · exact hm
    · exact mem_doneSeqs.mp (show key.seq ∈ doneSeqs st.node.history key from
        hseq ▸ hzero hseq hne)
  obtain ⟨m, hm⟩ := hfinished
  exact (mem_clientOutputs hc).mpr (h.done m key hm)

/-- A message of the client that is handled is one of its stream. -/
theorem RunInv.key_of_react (h : RunInv sess cfg st) {d : Q3BarrierConfig.Delivery} {m : Addressed}
    {body : Q3Body} (hcomes : sess.Comes st d.stream m) (hclient : m.clientId = clientId)
    (hparse : d.parse m = .ok body) :
    Q3Message.key ⟨m.clientId, m.senderId, m.seq, body⟩ = d.stream.keyOf m := by
  obtain ⟨i, -, -, body', hbody⟩ := h.place hcomes hclient
  obtain ⟨-, hparse', hkey, -⟩ := sess.parse_of_mem (List.mem_of_getElem? hbody) rfl
  obtain rfl : body = body' := Except.ok.inj (hparse.symm.trans hparse')
  exact hkey.symm

/-! ## One step -/

theorem RunInv.progress_exec (h : RunInv sess cfg st) (ha : sess.InTurn st l)
    (he : Consumer.exec cfg.consumer st l = some st') (hsound : Sound cfg.consumer st') :
    Progress sess cfg st'.node.history st'.node.handler.workerState := by
  cases step_of_exec he with
  | quiet hq =>
    refine h.progress.of_eq ?_ (congrArg (·.client clientId) hq.workerState)
    rw [← clientOutputs_appliedOnly, hq.appliedOnly_history h.sound hsound,
      clientOutputs_appliedOnly]
  | direct hr hs =>
    obtain rfl := react_direct hr
    subst hs
    exact h.progress
  | raised hr hs =>
    obtain ⟨rfl, -⟩ := react_handle hr
    subst hs
    exact h.progress
  | @applied d write key touched change logical outputs hr hstamp hw ht htasks =>
    obtain ⟨rfl, m, body, hm, hopen, hparse, hkey, hresult⟩ := react_handle hr
    have hhistory : st'.node.history =
        st.node.history ++ [.inputApplied (cfg.consumer.handler.msgId key) key change outputs] := by
      rw [← hsound.records, ht, recordsIn_append, h.sound.records]
      rfl
    have hfirst := (hhistory ▸ hsound.node.admissible).not_applied_of_concat
    have hworker : st'.node.handler.workerState = st.node.handler.workerState.applyChange change :=
      hw
    have hkeyClient : key.clientId = m.clientId := hkey ▸ clientId_key _
    by_cases hclient : m.clientId = clientId
    · have hcomes : sess.Comes st d.stream m := ha m (by rw [hm]; rfl)
      obtain ⟨i, hi, hbefore, body', hbody⟩ := h.place hcomes hclient
      obtain ⟨-, hparse', -⟩ := sess.parse_of_mem (List.mem_of_getElem? hbody) rfl
      obtain rfl : body = body' := Except.ok.inj (hparse.symm.trans hparse')
      have hstream : key = d.stream.keyOf m := hkey.trans (h.key_of_react hcomes hclient hparse)
      have hnew : d.stream.keyOf m ∉ recorded clientId st.node.history := by
        rw [recorded, mem_clientOutputs (show (d.stream.keyOf m).clientId = clientId from hclient),
          ← hstream]
        exact hfirst
      cases h.progress with
      | emitted honce =>
        refine absurd (honce.mem_recorded (q := d.stream) ?_) hnew
        exact List.mem_map.mpr ⟨m, List.mem_of_getElem? hi, rfl⟩
      | gathering n hcomplete hsilent hle hkeys hstate =>
        obtain rfl := eq_of_not_recorded hkeys hi hbefore hnew
        rw [hclient] at hresult
        rw [hkeyClient, hclient] at hstamp
        rw [hhistory, hworker, hstream]
        exact Progress.append_applied hle hsilent hkeys hstate hbody hnew hresult.symm
          (hstream ▸ hstamp)
    · refine h.progress.of_eq ?_ ?_
      · rw [hhistory, clientOutputs_append]
        simp [clientOutputs, hkeyClient, hclient]
      · rw [hworker]
        refine client_applyChange_of_ne _ fun op hop => ?_
        obtain ⟨⟨change', emitted⟩, hchange, hrest⟩ := Except.ok_of_bind hresult.symm
        obtain ⟨packets, -, hrest⟩ := Except.ok_of_bind hrest
        cases hrest
        rw [clientId_changeFor hchange op hop]
        exact hclient

/-- The jumps of the finished messages. -/
theorem RunInv.jumps_exec (h : RunInv sess cfg st) (ha : sess.InTime st l)
    (he : Consumer.exec cfg.consumer st l = some st') (key : InputKey)
    (hc : key.clientId = clientId) :
    JumpsBounded 0 (doneSeqs st'.node.history key) := by
  rcases h.sound.history_exec he with hh | ⟨m, key', change, outputs, hh⟩ |
    ⟨i, write, key', rfl, ht, hh⟩
  · exact hh ▸ h.jumps key hc
  · rw [hh, doneSeqs_append]
    simpa [doneSeqs] using h.jumps key hc
  · rw [hh]
    refine jumpsBounded_append_done (h.jumps key hc) fun hk => ?_
    exact ha key' (by simp [finishing, ht]) (hk.1.trans hc)

/-- A message of a stream is acked under its own kind. -/
theorem kind_of_mem {d : Q3BarrierConfig.Delivery} {m : Addressed}
    (h : m ∈ sess.messages d.stream) :
    d.kind m.msgType = some d.stream.kind := by
  have htype : m.msgType = MessageType.data.toNat ∨ m.msgType = MessageType.eof.toNat := by
    cases d with
    | averages bytes =>
      simp only [Q3BarrierConfig.Delivery.stream, messages, entries, List.map_append, List.map_map,
        List.map_singleton, List.mem_append, List.mem_map, List.mem_singleton] at h
      rcases h with ⟨e, he, rfl⟩ | rfl
      · exact .inl (sess.averages_read e he).1
      · exact .inr sess.averagesEof_read.1
    | candidates bytes =>
      simp only [Q3BarrierConfig.Delivery.stream, messages, entries, List.map_append, List.map_map,
        List.map_singleton, List.mem_append, List.mem_map, List.mem_singleton] at h
      rcases h with ⟨e, he, rfl⟩ | rfl
      · exact .inl (sess.batches_read e he).1
      · exact .inr sess.candidatesEof_read.1
  cases d <;> rcases htype with ht | ht <;>
    simp [Q3BarrierConfig.Delivery.kind, ht, MessageType.ofNat?_toNat,
      Q3BarrierConfig.Delivery.stream, Q3Stream.kind]

/-- A message of a closed client is one that was recorded. -/
theorem RunInv.recorded_of_skip (h : RunInv sess cfg st) {d : Q3BarrierConfig.Delivery}
    {key : InputKey} (ha : ∀ m ∈ (unpackAddressedPacket d.body).toOption, sess.Comes st d.stream m)
    (hr : cfg.react st.node.handler.workerState d = .skip key) (hc : key.clientId = clientId) :
    key ∈ recorded clientId st.node.history := by
  obtain ⟨m, kind, hm, hclosed, hkind, hkey⟩ := react_skip hr
  have hclient : m.clientId = clientId := by rw [← hc, hkey]
  obtain ⟨i, hi, -, body, hbody⟩ := h.place (ha m (by rw [hm]; rfl)) hclient
  cases h.progress with
  | gathering n hopen hsilent hle hkeys hstate =>
    have hopen' : st.node.handler.workerState.isClosed m.clientId = false := hclient ▸ hstate.closed
    exact absurd (hclosed.symm.trans hopen') (by decide)
  | emitted honce =>
    have hstream : key = d.stream.keyOf m := by
      rw [kind_of_mem (List.mem_of_getElem? hi)] at hkind
      rw [hkey, ← Option.some.inj hkind]
      rfl
    rw [hstream]
    exact honce.mem_recorded (List.mem_map.mpr ⟨m, List.mem_of_getElem? hi, rfl⟩)

/-- A message of the client that the inbox acks when it comes in time is one that was recorded. -/
theorem RunInv.recorded_of_done_deliver (h : RunInv sess cfg st) {d : Q3BarrierConfig.Delivery}
    {write : Except String PUnit} {key : InputKey} {touched : Q3BarrierState}
    {result : Except String (Q3Change × List LogicalOutput)}
    (ha : sess.InTime st (.deliver d write))
    (hr : cfg.react st.node.handler.workerState d = .handle key touched result)
    (hc : key.clientId = clientId)
    (hdone : st.node.handler.inbox.classify key = .done) :
    key ∈ recorded clientId st.node.history := by
  obtain ⟨-, m, body, hm, -, hparse, hkey, -⟩ := react_handle hr
  obtain ⟨hcomes, hzero⟩ := ha m (by rw [hm]; rfl)
  have hclient : m.clientId = clientId := by rw [← hc, hkey, clientId_key]
  have hstream : key = d.stream.keyOf m := hkey.trans (h.key_of_react hcomes hclient hparse)
  exact h.recorded_of_done hc (hstream ▸ hzero hclient) hdone

omit [LinearOrder α] in
theorem InTime.inTurn (ha : sess.InTime st l) : sess.InTurn st l := by
  cases l with
  | deliver d write => exact fun m hm => (ha m hm).1
  | publish | commit | ack => trivial

theorem RunInv.exec (h : RunInv sess cfg st) (ha : sess.InTime st l)
    (he : Consumer.exec cfg.consumer st l = some st') : RunInv sess cfg st' := by
  have hsound := h.sound.exec he
  have hgrows : ∀ {key}, key ∈ recorded clientId st.node.history →
      key ∈ recorded clientId st'.node.history := by
    intro key hk
    have happend : ∀ more, key ∈ recorded clientId (st.node.history ++ more) := fun more => by
      rw [recorded, clientOutputs_append, List.map_append]
      exact List.mem_append_left _ hk
    rcases h.sound.history_exec he with hh | ⟨m, key', change, outputs, hh⟩ |
      ⟨i, write, key', -, -, hh⟩
    · exact hh ▸ hk
    · exact hh ▸ happend _
    · exact hh ▸ happend _
  refine ⟨hsound, h.sound.doneApplied h.done he, h.progress_exec (InTime.inTurn ha) he hsound,
    h.jumps_exec ha he, fun key hc hk => hgrows ?_, fun key hc hk => hgrows ?_⟩
  · rcases acking_of_exec he hk with hk | hk | ⟨d, write, touched, result, rfl, hr, hdone⟩
    · exact h.acking key hc hk
    · obtain ⟨change, outputs, happ⟩ := h.sound.applied_of_publishing hk
      exact (mem_clientOutputs hc).mpr ⟨_, change, outputs, happ⟩
    · exact h.recorded_of_done_deliver ha hr hc hdone
  · rcases acked_of_exec he hk with hk | hk | ⟨d, write, rfl, hr⟩
    · exact h.acked key hc hk
    · exact h.acking key hc hk
    · exact h.recorded_of_skip (InTime.inTurn ha) hr hc

/-- A message of the client that comes in time and is not recorded is new to the inbox, and its
handler succeeds. -/
def HandlesNext (sess : Q3Session clientId) (cfg : Q3BarrierConfig α)
    (s : State Q3BarrierState Q3Change) : Prop :=
  ∀ (d : Q3BarrierConfig.Delivery) (m : Addressed), unpackAddressedPacket d.body = .ok m →
  m.clientId = clientId →
    sess.Comes s d.stream m → ZeroFirst s.node.history (d.stream.keyOf m) →
    d.stream.keyOf m ∉ recorded clientId s.node.history →
    s.node.handler.inbox.classify (d.stream.keyOf m) = .new ∧
      ∃ result, cfg.react s.node.handler.workerState d =
        .handle (d.stream.keyOf m) s.node.handler.workerState (.ok result)

theorem RunInv.handlesNext (h : RunInv sess cfg st) (hfits : sess.Fits cfg) :
    sess.HandlesNext cfg st := by
  intro d m hm hclient hcomes hzero hnew
  obtain ⟨i, hi, hbefore, body, hbody⟩ := h.place hcomes hclient
  cases h.progress with
  | emitted honce =>
    refine absurd (honce.mem_recorded (q := d.stream) ?_) hnew
    exact List.mem_map.mpr ⟨m, List.mem_of_getElem? hi, rfl⟩
  | gathering n hcomplete hsilent hle hkeys hstate =>
    obtain rfl := eq_of_not_recorded hkeys hi hbefore hnew
    obtain ⟨-, hparse, hkey, -⟩ := sess.parse_of_mem (List.mem_of_getElem? hbody) rfl
    refine ⟨?_, ?_⟩
    · cases hclass : st.node.handler.inbox.classify (d.stream.keyOf m) with
      | new => rfl
      | applied =>
        rw [recorded, mem_clientOutputs (show (d.stream.keyOf m).clientId = clientId from hclient)]
          at hnew
        rw [h.sound.node.inbox, Inbox.classify_eq_applied_iff] at hclass
        obtain ⟨change, outputs, happ, -⟩ := h.sound.node.admissible.inFlight hclass
        exact absurd ⟨_, change, outputs, happ⟩ hnew
      | done => exact absurd (h.recorded_of_done hclient hzero hclass) hnew
    · have hopen : st.node.handler.workerState.isClosed m.clientId = false := by
        rw [hclient]
        exact hstate.closed
      rw [react_of_parse hm hopen hparse, hkey, resultFor, hclient, hstate.changeFor cfg hbody]
      split
      · obtain ⟨packets, hpackets⟩ := hfits.exists_packets
        rw [Except.ok_bind]
        dsimp only
        rw [hpackets]
        exact ⟨_, rfl⟩
      · exact ⟨_, rfl⟩

/-- **The join of the barrier.** In every run in which the EOF of each stream comes after its data,
packet `0` of a sender is finished before the sender's others and no finished packet skips more of
them than the cap, however the streams are interleaved, whatever order the packets of a stream come
in and whatever comes again, one input of the client emits: the EOF that comes last. It emits the
candidates below their threshold, in the order in which they came, and their number. -/
theorem q3_barrier_joined_once (cfg : Q3BarrierConfig α) {clientId : Nat}
    (sess : Q3Session clientId) :
    ∃ batches : List (List Transaction), batches.flatten = sess.joined cfg ∧
      ∀ s, Transition.Reachable (exec cfg.consumer) sess.InTime (init cfg.consumer) s →
        (sess.Fits cfg → sess.HandlesNext cfg s) ∧
        ((∀ r ∈ clientOutputs clientId s.node.history, r.2 = []) ∨
          sess.EmittedOnce cfg (batches.map .data ++ [.eof (sess.joined cfg).length])
            s.node.history) ∧
        ((∀ q, ∀ key ∈ sess.keys q, Settled clientId s key) →
          sess.EmittedOnce cfg (batches.map .data ++ [.eof (sess.joined cfg).length])
            s.node.history) := by
  obtain ⟨batches, hemissions, hbatches⟩ := cfg.emissions_spec sess.averageOf sess.transactions
  rw [← joined_eq] at hemissions hbatches
  refine ⟨batches, hbatches, fun s hreach => ?_⟩
  have hinv : RunInv sess cfg s := hreach.invariant runInv_init fun _ _ _ hi ha he => hi.exec ha he
  refine ⟨hinv.handlesNext, ?_⟩
  rw [← hemissions]
  cases hinv.progress with
  | gathering n hopen hsilent hle hkeys hstate =>
    refine ⟨.inl hsilent, fun hall => absurd (complete_of_recorded hkeys fun q key hk => ?_) hopen⟩
    obtain ⟨m, hm, rfl⟩ := List.mem_map.mp hk
    exact hinv.recorded_of_settled (clientId_of_mem hm) (hall q _ hk)
  | emitted honce => exact ⟨.inr honce, fun _ => honce⟩

/-! ## Candidates on both sides of the threshold -/

/-- A transfer of an amount. -/
def transfer (amount : UInt64) (rowNumber : Nat) : Transaction where
  date := "2022/09/07 00:10"
  fromBank := "1"
  fromAccount := "8000A"
  toBank := "2"
  toAccount := "8000B"
  amount := amount
  currency := "US Dollar"
  format := "Wire"
  rowNumber := rowNumber

/-- The average of the wire transfers. -/
def wireAverage : Addressed :=
  ⟨MessageType.data.toNat, 7, 1, 0,
    (TransactionSerializer.encodeFixed "Wire" 32 "format").toOption.getD [] ++ beEncode 8 100⟩

def averagesEnd : Addressed := ⟨MessageType.eof.toNat, 7, 1, 1, []⟩

/-- A batch of transfers with its number. -/
def transfers (seq : Nat) (txs : List Transaction) : Addressed :=
  ⟨MessageType.data.toNat, 7, 1, seq,
    ((txs.mapM TransactionSerializer.serialize).toOption.getD []).flatten⟩

def candidatesEnd (seq expectedTotal : Nat) : Addressed :=
  ⟨MessageType.eof.toNat, 7, 1, seq,
    (ControlMessage.serialize { senderId := 1, expectedTotal }).toOption.getD []⟩

theorem wireClient_lt : 7 < 2 ^ 128 := by decide

/-- Three batches, of which the last two come in the wrong order. -/
def wireSession : Q3Session 7 where
  averages := [(wireAverage, "Wire", 100)]
  averagesEof := averagesEnd
  batches := [(transfers 0 [transfer 5 1, transfer 200 2], [transfer 5 1, transfer 200 2]),
    (transfers 2 [transfer 300 4], [transfer 300 4]), (transfers 1 [transfer 7 3], [transfer 7 3])]
  candidatesEof := candidatesEnd 3 4
  expectedTotal := 4
  averages_read := by decide +kernel
  averagesEof_read := by decide
  batches_read := by decide +kernel
  candidatesEof_read := by decide +kernel
  averages_distinct := by decide
  candidates_distinct := by decide +kernel
  clientId_lt := wireClient_lt

def wireBarrier : Q3BarrierConfig Nat where
  id := 0
  outputQueue := "gateway_q3"
  amount := UInt64.toNat
  threshold := UInt64.toNat
  snapshotInterval := 1000
  sha256 := fun _ => []
  changeJson := .ofTable [
    (.single (.avgData 7 "Wire" 100), [1]), (.single (.avgEof 7), [2]),
    (Q3BarrierState.candidateDataChange 7 (transfers 0 [transfer 5 1, transfer 200 2]).payload,
      [3]),
    (Q3BarrierState.candidateDataChange 7 (transfers 2 [transfer 300 4]).payload, [4]),
    (Q3BarrierState.candidateDataChange 7 (transfers 1 [transfer 7 3]).payload, [5]),
    (Q3BarrierState.candidateDataChange 7 (transfers 0 [transfer 5 1]).payload, [6]),
    (.single (.candidateEof 7 4), [7]), (.single (.candidateEof 7 2), [8]),
    (.compound [.avgEof 7, .close 7], [9]), (.compound [.candidateEof 7 4, .close 7], [10])]

/-- A message comes. -/
def once (q : Bytes → Q3BarrierConfig.Delivery) (m : Addressed) : Label Q3BarrierConfig.Delivery :=
  .deliver
    (q ((createAddressedPacket m.msgType m.clientId m.senderId m.seq m.payload).toOption.getD []))
    (.ok ⟨⟩)

/-- A message comes, and comes again. -/
def twice (q : Bytes → Q3BarrierConfig.Delivery) (m : Addressed) :
    List (Label Q3BarrierConfig.Delivery) :=
  [once q m, once q m]

/-- The averages, and the candidates of the first session. -/
def averagesTwice : List (Label Q3BarrierConfig.Delivery) :=
  twice .averages wireAverage ++ twice .averages averagesEnd

def candidatesTwice : List (Label Q3BarrierConfig.Delivery) :=
  twice .candidates (transfers 0 [transfer 5 1, transfer 200 2]) ++
    twice .candidates (transfers 2 [transfer 300 4]) ++ twice .candidates
      (transfers 1 [transfer 7 3]) ++
      twice .candidates (candidatesEnd 3 4)

/-- The candidates end last in one run and the averages in another. -/
theorem q3_barrier_joined_once_either_last :
    wireSession.joined wireBarrier = [transfer 5 1, transfer 7 3] ∧
    ∃ s s', Transition.Reachable (exec wireBarrier.consumer) wireSession.InTime
      (init wireBarrier.consumer) s ∧
      Transition.Reachable (exec wireBarrier.consumer) wireSession.InTime
        (init wireBarrier.consumer) s' ∧
      wireSession.HandlesNext wireBarrier s ∧
      ∃ batches : List (List Transaction), batches.flatten = [transfer 5 1, transfer 7 3] ∧
        wireSession.EmittedOnce wireBarrier (batches.map .data ++ [.eof 2]) s.node.history ∧
        wireSession.EmittedOnce wireBarrier (batches.map .data ++ [.eof 2]) s'.node.history := by
  have hjoined : wireSession.joined wireBarrier = [transfer 5 1, transfer 7 3] := by decide +kernel
  have hreach : ∀ labels, (Transition.runAllowed (exec wireBarrier.consumer) wireSession.InTime
      (init wireBarrier.consumer) labels).any (fun s =>
        decide (∀ key ∈ wireSession.keys .averages ++
        wireSession.keys .candidates, Settled 7 s key)) = true →
      ∃ s, Transition.Reachable (exec wireBarrier.consumer) wireSession.InTime
        (init wireBarrier.consumer) s ∧
        ∀ q, ∀ key ∈ wireSession.keys q, Settled 7 s key := by
    intro labels h
    obtain ⟨s, hs, hall⟩ := (Option.any_eq_true _ _).mp h
    have hall := of_decide_eq_true hall
    refine ⟨s, Transition.reachable_of_runAllowed .init hs, fun q key hkey => hall key ?_⟩
    cases q with
    | averages => exact List.mem_append_left _ hkey
    | candidates => exact List.mem_append_right _ hkey
  obtain ⟨s, hs, hall⟩ := hreach (averagesTwice ++ candidatesTwice) (by decide +kernel)
  obtain ⟨s', hs', hall'⟩ := hreach (candidatesTwice ++ averagesTwice) (by decide +kernel)
  obtain ⟨batches, hflat, hruns⟩ := q3_barrier_joined_once wireBarrier wireSession
  rw [hjoined] at hflat hruns
  have hfits : wireSession.Fits wireBarrier := ⟨by decide, by rw [hjoined]; decide⟩
  exact ⟨hjoined, s, s', hs, hs', (hruns s hs).1 hfits, batches, hflat, (hruns s hs).2.2 hall,
    (hruns s' hs').2.2 hall'⟩

/-- Two batches, and the first one comes last. -/
def overtakenSession : Q3Session 7 where
  averages := [(wireAverage, "Wire", 100)]
  averagesEof := averagesEnd
  batches :=
    [(transfers 1 [transfer 7 3], [transfer 7 3]), (transfers 0 [transfer 5 1], [transfer 5 1])]
  candidatesEof := candidatesEnd 2 2
  expectedTotal := 2
  averages_read := by decide +kernel
  averagesEof_read := by decide
  batches_read := by decide +kernel
  candidatesEof_read := by decide +kernel
  averages_distinct := by decide
  candidates_distinct := by decide +kernel
  clientId_lt := wireClient_lt

/-- The batch `1` is finished when the batch `0` comes, which is then acked and lost. -/
def overtakenRun : List (Label Q3BarrierConfig.Delivery) :=
  [once .candidates (transfers 1 [transfer 7 3]), .commit 0 (.ok ⟨⟩), .ack 0,
    once .candidates (transfers 0 [transfer 5 1]), .ack 0, once .candidates (candidatesEnd 2 2)] ++
  [once .averages wireAverage, once .averages averagesEnd]

/-- Both candidates are below their threshold, and every message is dealt with, but one of them is
never recorded. -/
theorem candidates_lost_out_of_order : ¬ ∃ batches : List (List Transaction),
    batches.flatten = overtakenSession.joined wireBarrier ∧
    ∀ s, Transition.Reachable (exec wireBarrier.consumer) overtakenSession.InTurn
      (init wireBarrier.consumer) s →
      (∀ q, ∀ key ∈ overtakenSession.keys q, Settled 7 s key) →
      overtakenSession.EmittedOnce wireBarrier
        (batches.map .data ++ [.eof (overtakenSession.joined wireBarrier).length])
          s.node.history := by
  rintro ⟨batches, -, hall⟩
  have hrun : (Transition.runAllowed (exec wireBarrier.consumer) overtakenSession.InTurn
      (init wireBarrier.consumer) overtakenRun).any (fun s =>
        decide (∀ key ∈ overtakenSession.keys .averages ++ overtakenSession.keys .candidates,
          Settled 7 s key) &&
          decide (⟨7, .q3Candidates, 1, 0⟩ ∉ recorded 7 s.node.history)) = true := by
    decide +kernel
  obtain ⟨s, hs, hp⟩ := (Option.any_eq_true _ _).mp hrun
  obtain ⟨hsettled, hlost⟩ := Bool.and_eq_true_iff.mp hp
  have hsettled := of_decide_eq_true hsettled
  have honce := hall s (Transition.reachable_of_runAllowed .init hs) fun q key hkey =>
    hsettled key <| by
    cases q with
    | averages => exact List.mem_append_left _ hkey
    | candidates => exact List.mem_append_right _ hkey
  have hkey : (⟨7, .q3Candidates, 1, 0⟩ : InputKey) ∈ overtakenSession.keys .candidates := by decide
  exact of_decide_eq_true hlost (honce.mem_recorded hkey)

end Q3Session

end MoneyLaundering
