import MoneyLaundering.Workers.Q3BarrierLog

/-!
# What the barrier emits

The two streams of a client and what the barrier makes of them. The barrier keeps a record for every
client (`Q3BarrierState.client`), which after the first `n` messages of each stream depends on these
numbers only (`Gathered`), not on how the streams were interleaved. The message that completes both
streams emits the candidates below their threshold, all others are silent (`changeFor_of_gathered`).
-/

namespace MoneyLaundering

open Bytes InternalProtocol

/-! ## The candidate log is read as it was written -/

namespace DiskLog

variable {payloads : List Bytes}

theorem iterFrom_frames (h : ∀ payload ∈ payloads, payload.length < 256 ^ recordLenSize)
    {fuel : Nat}
    (hf : payloads.length ≤ fuel) : iterFrom fuel (payloads.map frame).flatten = payloads := by
  induction payloads generalizing fuel with
  | nil => cases fuel <;> rfl
  | cons payload payloads ih =>
    obtain ⟨fuel, rfl⟩ := Nat.exists_eq_add_of_lt (Nat.lt_of_lt_of_le (Nat.succ_pos _) hf)
    have hlen : (beEncode recordLenSize payload.length).length = recordLenSize :=
      length_beEncode _ _
    have hdata : ((payload :: payloads).map frame).flatten =
        beEncode recordLenSize payload.length ++ (payload ++ (payloads.map frame).flatten) := by
      simp [frame]
    have hsize : beDecode ((((payload :: payloads).map frame).flatten).take recordLenSize) =
        payload.length := by
      rw [hdata, List.take_left' hlen, beDecode_beEncode (h payload List.mem_cons_self)]
    have hlong : ¬ (((payload :: payloads).map frame).flatten).length < recordLenSize := by
      rw [hdata, List.length_append, hlen]
      omega
    rw [Nat.zero_add, iterFrom, if_neg hlong, hsize, ← List.drop_drop, hdata, List.drop_left' hlen,
      List.take_left' rfl, List.drop_left' rfl, ih (fun p hp => h p (List.mem_cons_of_mem _ hp))
        (by simpa using hf)]

theorem iterRawBatches_frames (h : ∀ payload ∈ payloads, payload.length < 256 ^ recordLenSize) :
    iterRawBatches (payloads.map frame).flatten = payloads := by
  refine iterFrom_frames h ?_
  induction payloads with
  | nil => exact Nat.zero_le _
  | cons payload payloads ih =>
    have := ih fun p hp => h p (List.mem_cons_of_mem _ hp)
    rw [List.map_cons, List.flatten_cons, List.length_append, List.length_cons,
      Q3View.length_frame, recordLenSize]
    omega

end DiskLog

/-! ## The packets -/

namespace TransactionSerializer

/-- A transaction that was read can be written. -/
theorem exists_serialize {data : Bytes} {tx : Transaction} (h : deserialize data = .ok tx) :
    ∃ bytes, serialize tx = .ok bytes := by
  unfold deserialize at h
  obtain ⟨-, h⟩ := Except.ok_of_raiseIf h
  obtain ⟨date, hdate, h⟩ := Except.ok_of_bind h
  obtain ⟨fromBank, hfromBank, h⟩ := Except.ok_of_bind h
  obtain ⟨fromAccount, hfromAccount, h⟩ := Except.ok_of_bind h
  obtain ⟨toBank, htoBank, h⟩ := Except.ok_of_bind h
  obtain ⟨toAccount, htoAccount, h⟩ := Except.ok_of_bind h
  obtain ⟨currency, hcurrency, h⟩ := Except.ok_of_bind h
  obtain ⟨format, hformat, h⟩ := Except.ok_of_bind h
  cases h
  have hrow : beDecode ((data.drop 187).take 8) < 256 ^ 8 :=
    (beDecode_lt _).trans_le (Nat.pow_le_pow_right (by decide) (List.length_take_le _ _))
  rw [serialize, encodeFixed_of_fits (fits_of_decodeFixed hdate),
    encodeFixed_of_fits (fits_of_decodeFixed hfromBank),
    encodeFixed_of_fits (fits_of_decodeFixed hfromAccount),
    encodeFixed_of_fits (fits_of_decodeFixed htoBank),
    encodeFixed_of_fits (fits_of_decodeFixed htoAccount),
    encodeFixed_of_fits (fits_of_decodeFixed hcurrency),
    encodeFixed_of_fits (fits_of_decodeFixed hformat), pack_eq_ok_iff.mpr ⟨hrow, rfl⟩]
  exact ⟨_, rfl⟩

theorem exists_serialize_of_mem_batch {data : Bytes} {batch : List Transaction}
    (h : deserializeBatch data = .ok batch) {tx : Transaction} (htx : tx ∈ batch) :
    ∃ bytes, serialize tx = .ok bytes := by
  obtain ⟨i, -, hi⟩ := (Except.forall₂_of_mapM h).exists_left htx
  exact exists_serialize hi

end TransactionSerializer

namespace Q3BarrierConfig

variable {α : Type} [LinearOrder α] (cfg : Q3BarrierConfig α) (averages : Dict String UInt64)

/-- The loop over the candidates, after some of them. -/
structure EmitInv (seen : List Transaction) (st : EmitState) : Prop where
  emitted : st.emitted = (seen.filter (cfg.passes averages)).length
  packets : ∃ batches : List (List Transaction), st.packets = batches.map .data ∧
    batches.flatten ++ st.batch = seen.filter (cfg.passes averages)

variable {cfg averages}

theorem EmitInv.step {seen : List Transaction} {st : EmitState} (h : cfg.EmitInv averages seen st)
    (tx : Transaction) : cfg.EmitInv averages (seen ++ [tx]) (cfg.emitStep averages st tx) := by
  obtain ⟨hemitted, batches, hpackets, hbatches⟩ := h
  unfold emitStep
  split
  · next hpass =>
    have hfilter : (seen ++ [tx]).filter (cfg.passes averages) =
        seen.filter (cfg.passes averages) ++ [tx] := by simp [List.filter_append, hpass]
    split
    · refine ⟨?_, batches ++ [st.batch ++ [tx]], ?_, ?_⟩
      · rw [hfilter, List.length_append, List.length_singleton, hemitted]
      · rw [hpackets, List.map_append]
        rfl
      · simp [hfilter, ← hbatches]
    · refine ⟨?_, batches, hpackets, ?_⟩
      · rw [hfilter, List.length_append, List.length_singleton, hemitted]
      · rw [hfilter, ← hbatches, List.append_assoc]
  · next hpass =>
    have hfilter : (seen ++ [tx]).filter (cfg.passes averages) =
        seen.filter (cfg.passes averages) := by
      simp [List.filter_append, hpass]
    exact ⟨by rw [hfilter, hemitted], batches, hpackets, by rw [hfilter, hbatches]⟩

variable (cfg averages) in
theorem emitInv_foldl (candidates : List Transaction) :
    cfg.EmitInv averages candidates (candidates.foldl (cfg.emitStep averages) {}) := by
  induction candidates using List.reverseRecOn with
  | nil => exact ⟨rfl, [], rfl, rfl⟩
  | append_singleton candidates tx ih =>
    rw [List.foldl_append]
    exact ih.step tx

variable (cfg averages) in
/-- The packets carry the candidates that pass, in order, and their number comes last. -/
theorem emissions_spec (candidates : List Transaction) : ∃ batches : List (List Transaction),
    cfg.emissions averages candidates =
      batches.map .data ++ [.eof (candidates.filter (cfg.passes averages)).length] ∧
    batches.flatten = candidates.filter (cfg.passes averages) := by
  obtain ⟨hemitted, batches, hpackets, hbatches⟩ := cfg.emitInv_foldl averages candidates
  unfold emissions
  dsimp only
  rw [hpackets, hemitted]
  split
  · next hnil =>
    rw [hnil, List.append_nil] at hbatches
    exact ⟨batches, by rw [List.append_nil], hbatches⟩
  · refine ⟨batches ++ [(candidates.foldl (cfg.emitStep averages) {}).batch], ?_, ?_⟩
    · rw [List.map_append]
      rfl
    · rw [List.flatten_append, List.flatten_singleton, hbatches]

end Q3BarrierConfig

/-! ## The record of a client -/

/-- The client that a change is about. -/
def Q3Op.clientId : Q3Op → Nat
  | .avgData c _ _ | .avgEof c | .candidateData c _ | .candidateEof c _ | .close c => c

/-- What the barrier keeps for a client. -/
structure Q3Client where
  closed : Bool := false
  averages : Dict String UInt64 := ∅
  avgEof : Bool := false
  candidatesEof : Bool := false
  file : Bytes := []
  logOpen : Bool := false

/-- What a change adds to the record of an open client. -/
def Q3Client.absorb (client : Q3Client) : Q3Op → Q3Client
  | .avgData _ paymentFormat average =>
    { client with averages := client.averages.set paymentFormat average }
  | .avgEof _ => { client with avgEof := true }
  | .candidateData _ payload => { client with
    file := client.file ++ DiskLog.frame ((Base64.decode payload).getD [])
    logOpen := true }
  | .candidateEof .. => { client with candidatesEof := true }
  | .close _ => { client with closed := true }

namespace Q3BarrierState

/-- The record of a client. -/
def client (s : Q3BarrierState) (c : Nat) : Q3Client where
  closed := s.isClosed c
  averages := s.averages c
  avgEof := s.hasAvgEof c
  candidatesEof := s.hasCandidateEof c
  file := s.file c
  logOpen := s.diskLogs.contains c

/-- A candidate batch. -/
theorem client_applyCandidateData (s : Q3BarrierState) {c : Nat} (c' : Nat) (payload : List Char)
    (hc : c ∉ s.closedByClient) : (s.applyCandidateData c payload).client c' =
      if c = c' then (s.client c).absorb (.candidateData c payload) else s.client c' := by
  obtain ⟨hclosed, hfile, hcount⟩ := s.applyCandidateData_spec payload hc
  have hopen : (s.applyCandidateData c payload).diskLogs.contains c' =
      if c = c' then true else s.diskLogs.contains c' := by
    rw [Dict.contains, hcount c']
    split <;> rfl
  have hrest : (s.applyCandidateData c payload).averagesByClient = s.averagesByClient ∧
      (s.applyCandidateData c payload).avgEofByClient = s.avgEofByClient ∧
      (s.applyCandidateData c payload).candidatesEofByClient = s.candidatesEofByClient := by
    simp only [applyCandidateData, hc, if_false, appendLog, openLog]
    split <;> exact ⟨rfl, rfl, rfl⟩
  simp only [client, isClosed, averages, hasAvgEof, hasCandidateEof, hclosed, hrest.1,
    hrest.2.1, hrest.2.2, hfile c', hopen]
  split
  · next h =>
    subst h
    rfl
  · rfl

/-- A change of another client. -/
theorem client_applyOp_of_ne (s : Q3BarrierState) {op : Q3Op} {c : Nat} (h : op.clientId ≠ c) :
    (s.applyOp op).client c = s.client c := by
  cases op with
  | avgData c₀ paymentFormat average =>
    replace h : c₀ ≠ c := h
    rw [applyOp, applyAvgData]
    split
    · rfl
    · simp only [client, isClosed, averages, hasAvgEof, hasCandidateEof, file, Dict.getD_set]
      rw [if_neg h]
  | avgEof c₀ =>
    replace h : c₀ ≠ c := h
    rw [applyOp, applyAvgEof]
    split
    · rfl
    · simp only [client, isClosed, averages, hasAvgEof, hasCandidateEof, file, Finset.mem_insert,
        or_iff_right h.symm]
  | candidateData c₀ payload =>
    replace h : c₀ ≠ c := h
    by_cases hclosed : c₀ ∈ s.closedByClient
    · rw [applyOp, applyCandidateData, if_pos hclosed]
    · rw [applyOp, client_applyCandidateData s c payload hclosed, if_neg h]
  | candidateEof c₀ expectedTotal =>
    replace h : c₀ ≠ c := h
    rw [applyOp, applyCandidateEof]
    split
    · rfl
    · simp only [client, isClosed, averages, hasAvgEof, hasCandidateEof, file, Finset.mem_insert,
        or_iff_right h.symm]
  | close c₀ =>
    replace h : c₀ ≠ c := h
    have hfile : (s.applyClose c₀).file c = s.file c := by
      simp only [file, applyClose]
      split
      · rw [Dict.getD_erase, if_neg h.symm]
      · rfl
    simp only [applyOp, client, hfile]
    simp [applyClose, isClosed, averages, hasAvgEof, hasCandidateEof, Dict.contains,
      Dict.getD_erase, Dict.get?_erase, h.symm]

/-- A change of an open client that does not close it. -/
theorem client_applyOp (s : Q3BarrierState) {op : Q3Op} {c : Nat} (h : op.clientId = c)
    (hopen : s.isClosed c = false) (hclose : op ≠ .close c) :
    (s.applyOp op).client c = (s.client c).absorb op := by
  have hc : c ∉ s.closedByClient := by simpa [isClosed] using hopen
  cases op with
  | avgData c₀ paymentFormat average =>
    obtain rfl : c₀ = c := h
    rw [applyOp, applyAvgData, if_neg hc]
    simp only [client, isClosed, averages, hasAvgEof, hasCandidateEof, file, Dict.getD_set, if_true]
    rfl
  | avgEof c₀ =>
    obtain rfl : c₀ = c := h
    rw [applyOp, applyAvgEof, if_neg hc]
    simp [client, isClosed, averages, hasAvgEof, hasCandidateEof, file, Q3Client.absorb]
  | candidateData c₀ payload =>
    obtain rfl : c₀ = c := h
    exact (client_applyCandidateData s c₀ payload hc).trans (if_pos rfl)
  | candidateEof c₀ expectedTotal =>
    obtain rfl : c₀ = c := h
    rw [applyOp, applyCandidateEof, if_neg hc]
    simp [client, isClosed, averages, hasAvgEof, hasCandidateEof, file, Q3Client.absorb]
  | close c₀ =>
    obtain rfl : c₀ = c := h
    exact absurd rfl hclose

end Q3BarrierState

/-! ## The streams of a client -/

/-- The stream of a queue. -/
inductive Q3Stream where
  | averages | candidates
  deriving DecidableEq

namespace Q3Stream

def kind : Q3Stream → MsgKind
  | averages => .q3Averages
  | candidates => .q3Candidates

/-- The input that a `DATA` or `EOF` message of the stream is. -/
def keyOf (q : Q3Stream) (m : Addressed) : InputKey := ⟨m.clientId, q.kind, m.senderId, m.seq⟩

theorem kind_injective : Function.Injective kind := by
  intro q q' h
  cases q <;> cases q' <;> first | rfl | cases h

end Q3Stream

def Q3BarrierConfig.Delivery.stream : Q3BarrierConfig.Delivery → Q3Stream
  | .averages _ => .averages
  | .candidates _ => .candidates

/-- The change that a message makes. -/
def Q3Body.op (clientId : Nat) : Q3Body → Q3Op
  | .average paymentFormat avg => .avgData clientId paymentFormat avg
  | .avgEof => .avgEof clientId
  | .batch payload => .candidateData clientId (Base64.encode payload)
  | .candidateEof expectedTotal => .candidateEof clientId expectedTotal
  | .abort => .close clientId

/-- The messages of a client as they arrive: the averages of the payment formats and the batches of
candidates, each stream with its EOF at the end. What one sender sends has numbers of its own; they
arrive in any order. -/
structure Q3Session (clientId : Nat) where
  averages : List (Addressed × String × UInt64)
  averagesEof : Addressed
  batches : List (Addressed × List Transaction)
  candidatesEof : Addressed
  expectedTotal : Nat
  averages_read : ∀ e ∈ averages, e.1.msgType = MessageType.data.toNat ∧ e.1.clientId = clientId ∧
    Q3AverageResult.deserialize e.1.payload = .ok e.2
  averagesEof_read : averagesEof.msgType = MessageType.eof.toNat ∧ averagesEof.clientId = clientId
  batches_read : ∀ e ∈ batches, e.1.msgType = MessageType.data.toNat ∧ e.1.clientId = clientId ∧
    TransactionSerializer.deserializeBatch e.1.payload = .ok e.2 ∧
    e.1.payload.length < 256 ^ DiskLog.recordLenSize
  candidatesEof_read : candidatesEof.msgType = MessageType.eof.toNat ∧
    candidatesEof.clientId = clientId ∧
    (ControlMessage.deserialize candidatesEof.payload).map ControlMessage.expectedTotal =
    .ok expectedTotal
  averages_distinct : (averages.map Prod.fst ++ [averagesEof]).Pairwise fun m m' =>
    m.senderId = m'.senderId → m.seq ≠ m'.seq
  candidates_distinct : (batches.map Prod.fst ++ [candidatesEof]).Pairwise fun m m' =>
    m.senderId = m'.senderId → m.seq ≠ m'.seq
  clientId_lt : clientId < 256 ^ 16

namespace Q3Session

variable {clientId : Nat} (sess : Q3Session clientId)

/-- The messages of a stream, with what is read from them. -/
def entries : Q3Stream → List (Addressed × Q3Body)
  | .averages => (sess.averages.map fun e => (e.1, .average e.2.1 e.2.2)) ++
      [(sess.averagesEof, .avgEof)]
  | .candidates => (sess.batches.map fun e => (e.1, .batch e.1.payload)) ++
      [(sess.candidatesEof, .candidateEof sess.expectedTotal)]

def messages (q : Q3Stream) : List Addressed := (sess.entries q).map Prod.fst

/-- The inputs of a stream. -/
def keys (q : Q3Stream) : List InputKey := (sess.messages q).map q.keyOf

/-- The EOF of a stream. -/
def eof : Q3Stream → Addressed
  | .averages => sess.averagesEof
  | .candidates => sess.candidatesEof

/-- The average of every payment format, the last one where there are more. -/
def averageOf : Dict String UInt64 := .ofList (sess.averages.map Prod.snd)

/-- The candidates, in the order in which they come. -/
def transactions : List Transaction := (sess.batches.map Prod.snd).flatten

/-- The candidates whose payment format has an average and whose amount is below its threshold. -/
def joined {α : Type} [LinearOrder α] (cfg : Q3BarrierConfig α) : List Transaction :=
  sess.transactions.filter fun tx =>
    (sess.averageOf.get? tx.format).any fun avg => decide (cfg.amount tx.amount < cfg.threshold avg)

theorem distinct (q : Q3Stream) : (sess.messages q).Pairwise fun m m' =>
    m.senderId = m'.senderId → m.seq ≠ m'.seq := by
  cases q with
  | averages =>
    have h := sess.averages_distinct
    simpa [messages, entries, Function.comp_def] using h
  | candidates =>
    have h := sess.candidates_distinct
    simpa [messages, entries, Function.comp_def] using h

/-- A message at its place: one of the data, or the EOF behind them. -/
theorem averages_getElem? {i : Nat} {m : Addressed} {body : Q3Body}
    (h : (sess.entries .averages)[i]? = some (m, body)) :
    (∃ e, sess.averages[i]? = some e ∧ m = e.1 ∧ body = .average e.2.1 e.2.2) ∨
      i = sess.averages.length ∧ m = sess.averagesEof ∧ body = .avgEof := by
  rw [entries, List.getElem?_append, List.length_map] at h
  split at h
  · rw [List.getElem?_map, Option.map_eq_some_iff] at h
    obtain ⟨e, he, hm⟩ := h
    cases hm
    exact .inl ⟨e, he, rfl, rfl⟩
  · next hlt =>
    obtain ⟨hi, hm⟩ := List.getElem?_eq_some_iff.mp h
    rw [List.length_singleton] at hi
    rw [List.getElem_singleton] at hm
    cases hm
    exact .inr ⟨by omega, rfl, rfl⟩

theorem candidates_getElem? {i : Nat} {m : Addressed} {body : Q3Body}
    (h : (sess.entries .candidates)[i]? = some (m, body)) :
    (∃ e, sess.batches[i]? = some e ∧ m = e.1 ∧ body = .batch e.1.payload) ∨
      i = sess.batches.length ∧ m = sess.candidatesEof ∧
      body = .candidateEof sess.expectedTotal := by
  rw [entries, List.getElem?_append, List.length_map] at h
  split at h
  · rw [List.getElem?_map, Option.map_eq_some_iff] at h
    obtain ⟨e, he, hm⟩ := h
    cases hm
    exact .inl ⟨e, he, rfl, rfl⟩
  · next hlt =>
    obtain ⟨hi, hm⟩ := List.getElem?_eq_some_iff.mp h
    rw [List.length_singleton] at hi
    rw [List.getElem_singleton] at hm
    cases hm
    exact .inr ⟨by omega, rfl, rfl⟩

/-- What the handler of its queue reads from a message. -/
theorem parse_of_mem {q : Q3Stream} {m : Addressed} {body : Q3Body} (h : (m, body) ∈ sess.entries q)
    {d : Q3BarrierConfig.Delivery} (hd : d.stream = q) :
    m.clientId = clientId ∧ d.parse m = .ok body ∧
      q.keyOf m = Q3Message.key ⟨m.clientId, m.senderId, m.seq, body⟩ ∧
      (body.op clientId).clientId = clientId ∧ body.op clientId ≠ .close clientId := by
  subst hd
  cases d with
  | averages bytes =>
    simp only [Q3BarrierConfig.Delivery.stream, entries, List.mem_append, List.mem_map,
      List.mem_singleton] at h
    rcases h with ⟨e, he, hm⟩ | hm
    · cases hm
      obtain ⟨htype, hclient, hread⟩ := sess.averages_read e he
      refine ⟨hclient, ?_, rfl, rfl, nofun⟩
      simp only [Q3BarrierConfig.Delivery.parse, htype, MessageType.ofNat?_toNat, hread,
        Except.ok_bind]
      rfl
    · cases hm
      obtain ⟨htype, hclient⟩ := sess.averagesEof_read
      refine ⟨hclient, ?_, rfl, rfl, nofun⟩
      simp only [Q3BarrierConfig.Delivery.parse, htype, MessageType.ofNat?_toNat]
  | candidates bytes =>
    simp only [Q3BarrierConfig.Delivery.stream, entries, List.mem_append, List.mem_map,
      List.mem_singleton] at h
    rcases h with ⟨e, he, hm⟩ | hm
    · cases hm
      obtain ⟨htype, hclient, -⟩ := sess.batches_read e he
      refine ⟨hclient, ?_, rfl, rfl, nofun⟩
      simp only [Q3BarrierConfig.Delivery.parse, htype, MessageType.ofNat?_toNat]
    · cases hm
      obtain ⟨htype, hclient, hread⟩ := sess.candidatesEof_read
      obtain ⟨control, hcontrol, htotal⟩ := Except.ok_of_map hread
      refine ⟨hclient, ?_, rfl, rfl, nofun⟩
      simp only [Q3BarrierConfig.Delivery.parse, htype, MessageType.ofNat?_toNat, hcontrol,
        Except.ok_bind, htotal]
      rfl

/-! ## After the first messages of each stream -/

/-- One more message of a stream. -/
def advance (n : Q3Stream → Nat) (q : Q3Stream) : Q3Stream → Nat := Function.update n q (n q + 1)

/-- Both streams have ended. -/
def Complete (n : Q3Stream → Nat) : Prop := sess.averages.length < n .averages ∧
    sess.batches.length < n .candidates

instance (n : Q3Stream → Nat) : Decidable (sess.Complete n) := inferInstanceAs (Decidable (_ ∧ _))

/-- The record of the client after the first `n` messages of each stream, neither of which has
closed it. -/
structure Gathered (n : Q3Stream → Nat) (client : Q3Client) : Prop where
  closed : client.closed = false
  averages : client.averages = .ofList ((sess.averages.take (n .averages)).map Prod.snd)
  avgEof : client.avgEof = decide (sess.averages.length < n .averages)
  file : client.file = ((sess.batches.take (n .candidates)).map fun e =>
    DiskLog.frame e.1.payload).flatten
  logOpen : client.logOpen = !(sess.batches.take (n .candidates)).isEmpty
  candidatesEof : client.candidatesEof = decide (sess.batches.length < n .candidates)

theorem gathered_init : sess.Gathered (fun _ => 0) {} where
  closed := rfl
  averages := rfl
  avgEof := rfl
  file := rfl
  logOpen := rfl
  candidatesEof := rfl

variable {sess} {n : Q3Stream → Nat} {client : Q3Client}

/-- The next message of a stream. -/
theorem Gathered.absorb (h : sess.Gathered n client) {q : Q3Stream} {m : Addressed} {body : Q3Body}
    (hm : (sess.entries q)[n q]? = some (m, body)) :
    sess.Gathered (advance n q) (client.absorb (body.op clientId)) := by
  cases q with
  | averages =>
    have hone : advance n .averages .averages = n .averages + 1 := Function.update_self ..
    have hother : advance n .averages .candidates = n .candidates :=
      Function.update_of_ne (by decide) ..
    rcases sess.averages_getElem? hm with ⟨e, he, rfl, rfl⟩ | ⟨hi, rfl, rfl⟩
    · have hlt := (List.getElem?_eq_some_iff.mp he).1
      refine ⟨h.closed, ?_, ?_, ?_, ?_, ?_⟩
      · rw [hone, List.take_add_one, he, Option.toList_some, List.map_append, Dict.ofList,
          List.foldl_append, ← Dict.ofList, ← h.averages]
        rfl
      · rw [hone]
        have : client.avgEof = false := h.avgEof.trans (decide_eq_false (by omega))
        exact this.trans (decide_eq_false (by omega)).symm
      · rw [hother]
        exact h.file
      · rw [hother]
        exact h.logOpen
      · rw [hother]
        exact h.candidatesEof
    · refine ⟨h.closed, ?_, ?_, ?_, ?_, ?_⟩
      · rw [hone, List.take_of_length_le (by omega),
          ← List.take_of_length_le (Nat.le_of_eq hi.symm)]
        exact h.averages
      · rw [hone]
        exact (decide_eq_true (by omega)).symm
      · rw [hother]
        exact h.file
      · rw [hother]
        exact h.logOpen
      · rw [hother]
        exact h.candidatesEof
  | candidates =>
    have hone : advance n .candidates .candidates = n .candidates + 1 := Function.update_self ..
    have hother : advance n .candidates .averages = n .averages :=
      Function.update_of_ne (by decide) ..
    rcases sess.candidates_getElem? hm with ⟨e, he, rfl, rfl⟩ | ⟨hi, rfl, rfl⟩
    · have hlt := (List.getElem?_eq_some_iff.mp he).1
      have htake : sess.batches.take (n .candidates + 1) =
          sess.batches.take (n .candidates) ++ [e] := by
        rw [List.take_add_one, he, Option.toList_some]
      refine ⟨h.closed, ?_, ?_, ?_, ?_, ?_⟩
      · rw [hother]
        exact h.averages
      · rw [hother]
        exact h.avgEof
      · rw [hone, htake, List.map_append, List.flatten_append, ← h.file]
        simp [Q3Client.absorb, Q3Body.op, Base64.decode_encode]
      · rw [hone, htake]
        simp [Q3Client.absorb, Q3Body.op]
      · rw [hone]
        have : client.candidatesEof = false := h.candidatesEof.trans (decide_eq_false (by omega))
        exact this.trans (decide_eq_false (by omega)).symm
    · have htake : sess.batches.take (n .candidates + 1) = sess.batches.take (n .candidates) := by
        rw [List.take_of_length_le (by omega), List.take_of_length_le (Nat.le_of_eq hi.symm)]
      refine ⟨h.closed, ?_, ?_, ?_, ?_, ?_⟩
      · rw [hother]
        exact h.averages
      · rw [hother]
        exact h.avgEof
      · rw [hone, htake]
        exact h.file
      · rw [hone, htake]
        exact h.logOpen
      · rw [hone]
        exact (decide_eq_true (by omega)).symm

/-! ## What a message emits -/

section emits
variable {α : Type} [LinearOrder α] (cfg : Q3BarrierConfig α) {s : Q3BarrierState}

theorem joined_eq : sess.joined cfg = sess.transactions.filter (cfg.passes sess.averageOf) := by
  refine List.filter_congr fun tx _ => ?_
  rw [Q3BarrierConfig.passes]
  cases sess.averageOf.get? tx.format with
  | none => rfl
  | some avg => simp [← decide_not]

/-- With all batches in its file, the barrier reads all candidates. -/
theorem Gathered.candidatesOf (h : sess.Gathered n (s.client clientId))
    (hn : sess.batches.length ≤ n .candidates) :
    Q3BarrierConfig.candidatesOf s clientId = .ok sess.transactions := by
  have hfile := h.file
  have hopen := h.logOpen
  rw [List.take_of_length_le hn] at hfile hopen
  have hraw : s.rawBatches clientId = sess.batches.map fun e => e.1.payload := by
    change (if s.diskLogs.contains clientId then DiskLog.iterRawBatches (s.file clientId) else []) =
      _
    rw [show s.diskLogs.contains clientId = !sess.batches.isEmpty from hopen,
      show s.file clientId = (sess.batches.map fun e => DiskLog.frame e.1.payload).flatten
        from hfile]
    by_cases hnil : sess.batches = []
    · simp [hnil]
    · rw [if_pos (by simpa using hnil), ← Function.comp_def DiskLog.frame, ← List.map_map]
      refine DiskLog.iterRawBatches_frames fun payload hp => ?_
      obtain ⟨e, he, rfl⟩ := List.mem_map.mp hp
      exact (sess.batches_read e he).2.2.2
  have hread : (sess.batches.map fun e => e.1.payload).mapM TransactionSerializer.deserializeBatch =
      .ok (sess.batches.map Prod.snd) := by
    rw [List.mapM_map]
    exact Except.mapM_eq_map fun e he => (sess.batches_read e he).2.2.1
  rw [Q3BarrierConfig.candidatesOf, hraw, hread]
  rfl

/-- The message that completes both streams closes the client and emits, the others are silent. -/
theorem Gathered.changeFor (h : sess.Gathered n (s.client clientId)) {q : Q3Stream} {m : Addressed}
    {body : Q3Body} (hm : (sess.entries q)[n q]? = some (m, body)) (senderId seq : Nat) :
    cfg.changeFor s ⟨clientId, senderId, seq, body⟩ =
      if sess.Complete (advance n q) then
        .ok (.compound [body.op clientId, .close clientId],
          cfg.emissions sess.averageOf sess.transactions)
      else .ok (.single (body.op clientId), []) := by
  cases q with
  | averages =>
    have hone : advance n .averages .averages = n .averages + 1 := Function.update_self ..
    have hother : advance n .averages .candidates = n .candidates :=
      Function.update_of_ne (by decide) ..
    have hcomplete : sess.Complete (advance n .averages) ↔
        sess.averages.length < n .averages + 1 ∧ sess.batches.length < n .candidates := by
      rw [Complete, hone, hother]
    rcases sess.averages_getElem? hm with ⟨e, he, rfl, rfl⟩ | ⟨hi, rfl, rfl⟩
    · have hlt := (List.getElem?_eq_some_iff.mp he).1
      rw [if_neg fun hc => absurd (hcomplete.mp hc).1 (by omega)]
      rfl
    · have haverages : s.averages clientId = sess.averageOf := by
        refine h.averages.trans ?_
        rw [List.take_of_length_le (Nat.le_of_eq hi.symm), averageOf]
      have hready : s.hasCandidateEof clientId = decide (sess.batches.length < n .candidates) :=
        h.candidatesEof
      by_cases hc : sess.batches.length < n .candidates
      · rw [decide_eq_true hc] at hready
        rw [if_pos (hcomplete.mpr ⟨by omega, hc⟩), Q3BarrierConfig.changeFor]
        dsimp only
        rw [if_pos hready, h.candidatesOf hc.le, haverages]
        rfl
      · rw [decide_eq_false hc] at hready
        rw [if_neg fun h => hc (hcomplete.mp h).2, Q3BarrierConfig.changeFor]
        dsimp only
        rw [hready]
        rfl
  | candidates =>
    have hone : advance n .candidates .candidates = n .candidates + 1 := Function.update_self ..
    have hother : advance n .candidates .averages = n .averages :=
      Function.update_of_ne (by decide) ..
    have hcomplete : sess.Complete (advance n .candidates) ↔
        sess.averages.length < n .averages ∧ sess.batches.length < n .candidates + 1 := by
      rw [Complete, hone, hother]
    rcases sess.candidates_getElem? hm with ⟨e, he, rfl, rfl⟩ | ⟨hi, rfl, rfl⟩
    · have hlt := (List.getElem?_eq_some_iff.mp he).1
      rw [if_neg fun hc => absurd (hcomplete.mp hc).2 (by omega)]
      rfl
    · have hready : s.hasAvgEof clientId = decide (sess.averages.length < n .averages) := h.avgEof
      by_cases hc : sess.averages.length < n .averages
      · have haverages : s.averages clientId = sess.averageOf := by
          refine h.averages.trans ?_
          rw [List.take_of_length_le hc.le, averageOf]
        rw [decide_eq_true hc] at hready
        rw [if_pos (hcomplete.mpr ⟨hc, by omega⟩), Q3BarrierConfig.changeFor]
        dsimp only
        rw [if_pos hready, h.candidatesOf (Nat.le_of_eq hi.symm), haverages]
        rfl
      · rw [decide_eq_false hc] at hready
        rw [if_neg fun h => hc (hcomplete.mp h).1, Q3BarrierConfig.changeFor]
        dsimp only
        rw [hready]
        rfl

/-- The numbers of the EOF fit their fields. -/
structure Fits (sess : Q3Session clientId) : Prop where
  id_lt : cfg.id < 256 ^ 4
  total_lt : (sess.joined cfg).length < 256 ^ 4

variable {cfg}

/-- The packets of the emission can be built. -/
theorem Fits.exists_packets (h : sess.Fits cfg) :
    ∃ packets, (cfg.emissions sess.averageOf sess.transactions).mapM (cfg.packet clientId) =
      .ok packets := by
  obtain ⟨batches, hemissions, hbatches⟩ := cfg.emissions_spec sess.averageOf sess.transactions
  have hpacket : ∀ (msgType : MessageType) (payload : Bytes),
      ∃ body, createPacket msgType.toNat clientId payload = .ok body := by
    intro msgType payload
    have htype : msgType.toNat < 256 ^ 1 := by cases msgType <;> decide
    rw [createPacket, pack_eq_ok_iff.mpr ⟨sess.clientId_lt, rfl⟩, pack_eq_ok_iff.mpr ⟨htype, rfl⟩]
    exact ⟨_, rfl⟩
  rw [hemissions]
  refine Except.mapM_of_forall fun emission he => ?_
  rcases List.mem_append.mp he with he | he
  · obtain ⟨batch, hb, rfl⟩ := List.mem_map.mp he
    have hserialize : ∀ tx ∈ batch, ∃ bytes, TransactionSerializer.serialize tx = .ok bytes := by
      intro tx htx
      have hmem : tx ∈ sess.transactions.filter (cfg.passes sess.averageOf) :=
        hbatches ▸ List.mem_flatten.mpr ⟨batch, hb, htx⟩
      obtain ⟨_, hin, htx⟩ := List.mem_flatten.mp (List.mem_filter.mp hmem).1
      obtain ⟨e, he, rfl⟩ := List.mem_map.mp hin
      exact TransactionSerializer.exists_serialize_of_mem_batch (sess.batches_read e he).2.2.1 htx
    obtain ⟨payloads, hpayloads⟩ := Except.mapM_of_forall hserialize
    obtain ⟨body, hbody⟩ := hpacket .data payloads.flatten
    rw [Q3BarrierConfig.packet, hpayloads, Except.ok_bind, hbody]
    exact ⟨_, rfl⟩
  · obtain rfl := List.mem_singleton.mp he
    rw [← joined_eq]
    obtain ⟨payload, hpayload⟩ : ∃ payload, ControlMessage.serialize
        { senderId := cfg.id, expectedTotal := (sess.joined cfg).length } = .ok payload :=
      ControlMessage.exists_serialize_iff.mpr ⟨h.id_lt, h.total_lt, show 0 < 256 ^ 4 by decide⟩
    obtain ⟨body, hbody⟩ := hpacket .eof payload
    rw [Q3BarrierConfig.packet, hpayload, Except.ok_bind, hbody]
    exact ⟨_, rfl⟩

end emits

end Q3Session

end MoneyLaundering
