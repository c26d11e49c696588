import MoneyLaundering.Q2.Join

/-!
# Runs of the bank-name joiner

Every run of the joiner in which its inbox is not misled about the client's messages: whatever the
order, the redeliveries, the failed appends and the crashes, exactly one input of the client emits.
-/

namespace MoneyLaundering

open Bytes InternalProtocol Runner

namespace BankNameJoiner

variable {cfg : BankNameJoinerConfig} {clientId : Nat}

/-- The environment: for the client, the messages of its session are delivered and no others;
whatever is delivered for other clients can be read. -/
def Sends (sess : Session cfg clientId) (_ : State) : Label → Prop
  | .deliver queue m _ => Readable cfg queue m ∧ (m.clientId = clientId → (queue, m) ∈ sess.inputs)
  | .commit .. => True

/-- The inbox is not misled: message `0` of a sender is finished before the sender's other messages
are, and no finished message skips more of them than the cap. -/
def InTime (sess : Session cfg clientId) (s : State) : Label → Prop
  | .deliver queue m outcome => Sends sess s (.deliver queue m outcome) ∧
      (m.clientId = clientId → ZeroFirst s.node.history (keyOf queue m))
  | .commit key _ => key.clientId = clientId → WithinCap s.node.history key

instance (sess : Session cfg clientId) (s : State) : (l : Label) → Decidable (Sends sess s l)
  | .deliver queue m _ =>
    inferInstanceAs
      (Decidable (Readable cfg queue m ∧ (m.clientId = clientId → (queue, m) ∈ sess.inputs)))
  | .commit .. => .isTrue trivial

instance (sess : Session cfg clientId) (s : State) : (l : Label) → Decidable (InTime sess s l)
  | .deliver queue m outcome =>
    inferInstanceAs (Decidable (Sends sess s (.deliver queue m outcome) ∧ (_ → _)))
  | .commit .. => inferInstanceAs (Decidable (_ → _))

/-- One input of the client has emitted, the one that came last of all its messages. -/
def EmittedOnce (sess : Session cfg clientId) (history : List (WalRecord JoinerChange)) : Prop :=
  ∃ silent key outputs, clientRecords clientId history = silent ++ [(key, outputs)] ∧
    (∀ r ∈ silent, r.2 = []) ∧ key ∉ silent.map Prod.fst ∧
    (∃ i ∈ sess.inputs, keyOf i.1 i.2 = key) ∧
    (∀ i ∈ sess.inputs, keyOf i.1 i.2 ∈ silent.map Prod.fst ∨ keyOf i.1 i.2 = key) ∧
    sess.Emits outputs

/-- The rows of the join fit their fields, and a record of the log holds them with their EOF. -/
structure Session.RowsFit (sess : Session cfg clientId) : Prop where
  serialize : ∀ row, sess.Joins row → ∃ payload, row.serialize = .ok payload
  length_lt : ∀ rows : List Q2BankMaxResult, rows.Nodup → (∀ row ∈ rows, sess.Joins row) →
    rows.length < 65535

/-! ## What is recorded -/

theorem mem_appliedKeys {history : List (WalRecord JoinerChange)} {key : InputKey} :
    key ∈ appliedKeys history ↔ ∃ m change outputs,
    .inputApplied m key change outputs ∈ history := by
  simp only [appliedKeys, List.mem_filterMap]
  constructor
  · rintro ⟨record, hr, he⟩
    cases record with
    | inputApplied m key' change outputs =>
      cases he
      exact ⟨m, change, outputs, hr⟩
    | inputDone m key' => cases he
  · rintro ⟨m, change, outputs, hr⟩
    exact ⟨_, hr, rfl⟩

theorem mem_clientRecords {history : List (WalRecord JoinerChange)} {key : InputKey}
    (hc : key.clientId = clientId) :
    key ∈ (clientRecords clientId history).map Prod.fst ↔ key ∈ appliedKeys history := by
  rw [mem_appliedKeys]
  simp only [clientRecords, List.mem_map, List.mem_filterMap]
  constructor
  · rintro ⟨_, ⟨record, hr, he⟩, rfl⟩
    cases record with
    | inputApplied m key' change outputs =>
      simp only [Option.ite_none_right_eq_some, Option.some.injEq] at he
      obtain ⟨-, rfl⟩ := he
      exact ⟨m, change, outputs, hr⟩
    | inputDone m key' => cases he
  · rintro ⟨m, change, outputs, hr⟩
    exact ⟨(key, outputs), ⟨_, hr, by simp [hc]⟩, rfl⟩

theorem appliedKeys_append (history more : List (WalRecord JoinerChange)) :
    appliedKeys (history ++ more) = appliedKeys history ++ appliedKeys more := List.filterMap_append

/-- Memory, log and acks of a run agree, and the client's messages are where they should be. -/
structure RunInv (sess : Session cfg clientId) (s : State) : Prop where
  node : s.node.Inv (handler cfg) (.whole (handler cfg).worker)
  progress : Progress sess s.node.history s.node.handler.workerState
  done : ∀ m key, .inputDone m key ∈ s.node.history → key ∈ appliedKeys s.node.history
  jumps : ∀ key : InputKey, key.clientId = clientId → JumpsBounded 0 (doneSeqs s.node.history key)
  acked : ∀ key ∈ s.acked, key.clientId = clientId → key ∈ appliedKeys s.node.history

variable {sess : Session cfg clientId} {s : State}

/-- A message that is new to the inbox is not recorded. -/
theorem RunInv.not_mem_of_new (h : RunInv sess s) {key : InputKey}
    (hnew : s.node.handler.inbox.classify key = .new) : key ∉ appliedKeys s.node.history := by
  intro hmem
  obtain ⟨m, change, outputs, hr⟩ := mem_appliedKeys.mp hmem
  have habs : (specState (handler cfg) (.whole (handler cfg).worker) s.node.history).inbox.classify
      key ≠ .new :=
    h.node.admissible.absorbed hr
  exact habs (h.node.inbox ▸ hnew)

/-- A message of the client that the inbox reports as finished was applied. -/
theorem RunInv.applied_of_done (h : RunInv sess s) {key : InputKey} (hc : key.clientId = clientId)
    (hzero : ZeroFirst s.node.history key) (hdone : s.node.handler.inbox.classify key = .done) :
    key ∈ appliedKeys s.node.history := by
  rw [h.node.inbox] at hdone
  rcases finished_of_classify_done (h.jumps key hc) hdone with ⟨m, hm⟩ | ⟨hseq, hne⟩
  · exact h.done m key hm
  · obtain ⟨m, hm⟩ :=
      mem_doneSeqs.mp (show key.seq ∈ doneSeqs s.node.history key from hseq ▸ hzero hseq hne)
    exact h.done m key hm

/-- A call that records nothing. -/
theorem RunInv.of_history_eq (h : RunInv sess s)
    {node : Node BankNameJoinerState BankNameJoinerState JoinerChange}
    (hi : node.Inv (handler cfg) (.whole (handler cfg).worker)) (hh : node.history = s.node.history)
    {acked : List InputKey}
    (ha : ∀ key ∈ acked, key.clientId = clientId → key ∈ appliedKeys s.node.history) :
    RunInv sess ⟨node, acked⟩ where
  node := hi
  progress := by
    have hs : node.handler.workerState = s.node.handler.workerState := by
      have h₁ := hi.workerState
      have h₂ := h.node.workerState
      rw [hh, ← h₂] at h₁
      exact h₁
    rw [hh, hs]
    exact h.progress
  done m key hm := by
    rw [hh] at hm ⊢
    exact h.done m key hm
  jumps key hc := by
    rw [hh]
    exact h.jumps key hc
  acked key hk hc := by
    rw [hh]
    exact ha key hk hc

/-- Whatever is recorded for a message is about its client. -/
theorem clientOf_callFor {queue : JoinerQueue} {m : Addressed} {key : InputKey}
    {businessFn : BusinessFn BankNameJoinerState JoinerChange}
    (h : callFor cfg queue m = .ok (key, businessFn)) :
    key.clientId = m.clientId ∧ ∀ s result, businessFn s = .ok result →
    clientOf result.1 = m.clientId := by
  have hdata : ∀ change, clientOf change = m.clientId → ∀ s result,
      changeOutputsFor cfg m.clientId change s = .ok result → clientOf result.1 = m.clientId :=
    fun change hc s result hr => clientOf_changeOutputsFor hr hc
  unfold callFor at h
  split at h
  · cases h
    exact ⟨rfl, hdata _ rfl⟩
  · obtain ⟨mappings, -, h⟩ := Except.ok_of_bind h
    cases h
    exact ⟨rfl, hdata _ rfl⟩
  · obtain ⟨control, -, h⟩ := Except.ok_of_bind h
    cases h
    refine ⟨rfl, hdata _ ?_⟩
    split <;> rfl
  · cases h
    refine ⟨rfl, fun s result hr => ?_⟩
    cases hr
    rfl
  · cases h
  · cases h

/-- The handling of a message that is recorded. -/
theorem RunInv.append_applied (h : RunInv sess s) {queue : JoinerQueue} {m : Addressed}
    {key : InputKey}
    {businessFn : BusinessFn BankNameJoinerState JoinerChange}
    (hcall : callFor cfg queue m = .ok (key, businessFn))
    (hsends : m.clientId = clientId → (queue, m) ∈ sess.inputs)
    {node : Node BankNameJoinerState BankNameJoinerState JoinerChange}
    (hi : node.Inv (handler cfg) (.whole (handler cfg).worker)) {record : WalRecord JoinerChange}
    (ha : Appends (handler cfg) s.node.handler (.handle key businessFn) record)
    (hh : node.history = s.node.history ++ [record]) : RunInv sess ⟨node, s.acked⟩ := by
  obtain ⟨hnew, change, logical, outputs, hresult, hstamp, rfl⟩ := ha
  have hstate := congrArg HandlerState.workerState (h.node.applyOnce_of_append hi hh)
  refine ⟨hi, ?_, fun m' key' hm => ?_, fun key' hc => ?_, fun key' hk hc => ?_⟩
  · obtain ⟨hkey, hof⟩ := clientOf_callFor hcall
    rw [hh, hstate]
    by_cases hc : m.clientId = clientId
    · obtain ⟨change₀, hmem, hcall₀⟩ := sess.callFor_of_mem (hsends hc)
      obtain ⟨rfl, rfl⟩ := Prod.mk.inj (Except.ok.inj (hcall.symm.trans hcall₀))
      have hkc := hkey.trans hc
      refine h.progress.append_applied hmem hkc ?_ hresult (hkc ▸ hstamp)
      rw [mem_clientRecords hkc]
      exact h.not_mem_of_new hnew
    · have hne : clientOf change ≠ clientId := (hof _ _ hresult).symm ▸ hc
      obtain ⟨hs, hclosed⟩ := stateFor_changed_of_ne cfg s.node.handler.workerState hne
      refine h.progress.append_silent ?_ hs hclosed
      simp [clientRecords, hkey, hc]
  · rw [hh] at hm ⊢
    rw [appliedKeys_append]
    rcases List.mem_append.mp hm with hm | hm
    · exact List.mem_append_left _ (h.done m' key' hm)
    · cases List.mem_singleton.mp hm
  · rw [hh, doneSeqs_append]
    simpa [doneSeqs] using h.jumps key' hc
  · rw [hh, appliedKeys_append]
    exact List.mem_append_left _ (h.acked key' hk hc)

/-- The end of an input that is recorded. -/
theorem RunInv.append_done (h : RunInv sess s) {key : InputKey}
    (hk : key ∈ appliedKeys s.node.history)
    (hcap : key.clientId = clientId → WithinCap s.node.history key)
    {node : Node BankNameJoinerState BankNameJoinerState JoinerChange}
    (hi : node.Inv (handler cfg) (.whole (handler cfg).worker))
    (hh : node.history = s.node.history ++ [.inputDone (msgId key) key]) {acked : List InputKey}
    (hacked : ∀ key' ∈ acked, key' ∈ s.acked ∨ key' = key) : RunInv sess ⟨node, acked⟩ where
  node := hi
  progress := by
    have hstate := congrArg HandlerState.workerState (h.node.applyOnce_of_append hi hh)
    rw [hh, hstate]
    exact h.progress.append_silent rfl rfl Iff.rfl
  done m' key' hm := by
    rw [hh] at hm ⊢
    rw [appliedKeys_append]
    refine List.mem_append_left _ ?_
    rcases List.mem_append.mp hm with hm | hm
    · exact h.done m' key' hm
    · cases List.mem_singleton.mp hm
      exact hk
  jumps key' hc := by
    rw [hh]
    exact jumpsBounded_append_done (h.jumps key' hc) fun hk' => hcap (hk'.1.trans hc)
  acked key' hk' hc := by
    rw [hh, appliedKeys_append]
    refine List.mem_append_left _ ?_
    rcases hacked key' hk' with hold | rfl
    · exact h.acked key' hold hc
    · exact hk

/-- Every step keeps the invariant. -/
theorem RunInv.exec {s' : State} {l : Label} (h : RunInv sess s) (hp : InTime sess s l)
    (he : BankNameJoiner.exec cfg s l = some s') : RunInv sess s' := by
  cases l with
  | deliver queue m outcome =>
    dsimp only [BankNameJoiner.exec] at he
    split at he
    · cases he
      exact h
    · next key businessFn hcall =>
      obtain ⟨n, hn, hi, hh⟩ := h.node.outcome (.handle key businessFn) outcome
      rw [hn] at he
      cases he
      obtain ⟨⟨-, hsends⟩, hzero⟩ := hp
      obtain ⟨hkey, -⟩ := clientOf_callFor hcall
      have hacked : ∀ key' ∈ (if outcome = .returns ∧ s.node.handler.inbox.classify key = .done then
          s.acked ++ [key] else s.acked), key'.clientId = clientId →
            key' ∈ appliedKeys s.node.history := by
        intro key' hk hc
        split_ifs at hk with hdone
        · rcases List.mem_append.mp hk with hk | hk
          · exact h.acked key' hk hc
          · obtain rfl := List.mem_singleton.mp hk
            have hmc := hkey.symm.trans hc
            obtain ⟨change, -, hcall₀⟩ := sess.callFor_of_mem (hsends hmc)
            obtain ⟨rfl, -⟩ := Prod.mk.inj (Except.ok.inj (hcall.symm.trans hcall₀))
            exact h.applied_of_done hc (hzero hmc) hdone.2
        · exact h.acked key' hk hc
      rcases hh with hh | ⟨record, ha, hh⟩
      · exact h.of_history_eq hi hh hacked
      · have hnot : ¬ (outcome = .returns ∧ s.node.handler.inbox.classify key = .done) := by
          rintro ⟨-, hdone⟩
          obtain ⟨hnew, -⟩ := ha
          rw [hdone] at hnew
          cases hnew
        rw [if_neg hnot]
        exact h.append_applied hcall hsends hi ha hh
  | commit key outcome =>
    dsimp only [BankNameJoiner.exec] at he
    split_ifs at he with hk
    obtain ⟨n, hn, hi, hh⟩ := h.node.outcome (.commitDone key) outcome
    rw [hn] at he
    cases he
    rcases hh with hh | ⟨record, ha, hh⟩
    · rw [if_neg (by simp [hh])]
      exact h.of_history_eq hi hh h.acked
    · cases ha
      refine h.append_done hk hp hi hh fun key' hk' => ?_
      split_ifs at hk'
      · rcases List.mem_append.mp hk' with hk' | hk'
        · exact .inl hk'
        · exact .inr (List.mem_singleton.mp hk')
      · exact .inl hk'

theorem runInv_init (sess : Session cfg clientId) : RunInv sess (init cfg) where
  node := Node.inv_init
  progress := progress_nil sess
  done := by simp [init, Node.init]
  jumps := by simp [init, Node.init, doneSeqs, JumpsBounded]
  acked := by simp [init]

theorem runInv_of_reachable (h : Transition.Reachable (BankNameJoiner.exec cfg) (InTime sess)
    (init cfg) s) :
    RunInv sess s :=
  h.invariant (runInv_init sess) fun _ _ _ hi hp he => hi.exec hp he

/-! ## No handler raises -/

theorem exists_packet (cfg : BankNameJoinerConfig) (msgType : MessageType) {seq : Nat}
    (payload : Bytes) (hc : clientId < 256 ^ 16) (hseq : seq < 256 ^ 4) :
    ∃ body, packet cfg msgType clientId seq payload = .ok body := by
  have htype : msgType.toNat < 256 ^ 1 := by cases msgType <;> decide
  rw [packet, createAddressedPacket, pack_eq_ok_iff.mpr ⟨hc, rfl⟩, pack_eq_ok_iff.mpr ⟨htype, rfl⟩,
    pack_eq_ok_iff.mpr ⟨cfg.id_lt, rfl⟩, pack_eq_ok_iff.mpr ⟨hseq, rfl⟩]
  exact ⟨_, rfl⟩

/-- The outputs of a client whose rows fit can be built. -/
theorem exists_buildResultOutputs (hfits : sess.RowsFit) {state : JoinerClient}
    (hnodup : (resultRows state).Nodup) (hjoins : ∀ row ∈ resultRows state, sess.Joins row) :
    ∃ outputs, buildResultOutputs cfg state clientId = .ok outputs := by
  have hlength : (resultRows state).length < 256 ^ 4 :=
    (hfits.length_lt _ hnodup hjoins).trans (by decide)
  have hrows : ∀ row ∈ (resultRows state).zipIdx, ∃ body,
      rowPacket cfg clientId row = .ok body := by
    intro row hrow
    obtain ⟨payload, hp⟩ := hfits.serialize row.1 (hjoins _ (List.fst_mem_of_mem_zipIdx hrow))
    obtain ⟨body, hb⟩ := exists_packet cfg .data payload sess.clientId_lt
      ((List.snd_lt_of_mem_zipIdx hrow).trans hlength)
    exact ⟨body, by rw [rowPacket, hp, Except.ok_bind, hb]⟩
  obtain ⟨bodies, hbodies⟩ := Except.mapM_of_forall hrows
  obtain ⟨control, hcontrol⟩ : ∃ payload,
    ControlMessage.serialize ⟨cfg.id, (resultRows state).length, 0⟩ =
      .ok payload :=
    ControlMessage.exists_serialize_iff.mpr ⟨cfg.id_lt, hlength, show 0 < 256 ^ 4 by decide⟩
  obtain ⟨eof, heof⟩ := exists_packet cfg .eof control sess.clientId_lt hlength
  rw [buildResultOutputs, hbodies, Except.ok_bind, eofPacket, hcontrol, Except.ok_bind, heof,
    Except.ok_bind]
  exact ⟨_, rfl⟩

/-- No message of the client that is new to the inbox makes its handler raise. -/
theorem RunInv.exists_result (h : RunInv sess s) (hfits : sess.RowsFit)
    {i : JoinerQueue × Addressed}
    (hi : i ∈ sess.inputs) (hnew : s.node.handler.inbox.classify (keyOf i.1 i.2) = .new) :
    ∃ businessFn result, callFor cfg i.1 i.2 = .ok (keyOf i.1 i.2, businessFn) ∧
      businessFn s.node.handler.workerState = .ok result := by
  obtain ⟨change, hmem, hcall⟩ := sess.callFor_of_mem hi
  have hfirst := h.not_mem_of_new hnew
  rw [← mem_clientRecords (sess.clientId_of_mem hi)] at hfirst
  cases h.progress with
  | emitted pre last outputs hlast hnew' hall hrec hemits =>
    refine absurd ?_ hfirst
    rw [hrec, List.map_append, List.map_map]
    rcases hall _ hmem with hk | hk
    · exact List.mem_append_left _ hk
    · exact List.mem_append_right _ (by simp [← hk])
  | gathering pre hsub hnodup hmissing hrec hopen hstate =>
    rw [hrec, List.map_map] at hfirst
    obtain ⟨hsub', hnodup'⟩ := sess.extend hsub hnodup hmem hfirst
    have hresult := changeOutputsFor_of_gathered hmem hstate
    split_ifs at hresult with hready
    · obtain ⟨hrows, hjoins⟩ := sess.resultRows_gathered hsub' hnodup'
        ((sess.ready_gathered_iff hsub' hnodup').mp hready)
      obtain ⟨outputs, hbuild⟩ := exists_buildResultOutputs hfits hrows fun row hr =>
        (hjoins row).mp hr
      rw [hbuild, Except.ok_bind] at hresult
      exact ⟨_, _, hcall, hresult⟩
    · exact ⟨_, _, hcall, hresult⟩

/-! ## Once and completely -/

/-- In every run in which the inbox is not misled about the client's messages, no handler raises on
a message of the client that is new, nothing has been emitted for the client or one of its inputs,
the last to come, has emitted the join, and when all its messages are acked it has. -/
theorem bank_names_joined_once (cfg : BankNameJoinerConfig) (clientId : Nat)
    (sess : Session cfg clientId) (hfits : sess.RowsFit) {s : State}
    (h : Transition.Reachable (BankNameJoiner.exec cfg) (InTime sess) (init cfg) s) :
    (∀ i ∈ sess.inputs, s.node.handler.inbox.classify (keyOf i.1 i.2) = .new →
      ∃ businessFn result, callFor cfg i.1 i.2 = .ok (keyOf i.1 i.2, businessFn) ∧
        businessFn s.node.handler.workerState = .ok result) ∧
    ((∀ r ∈ clientRecords clientId s.node.history, r.2 = []) ∨ EmittedOnce sess s.node.history) ∧
    ((∀ i ∈ sess.inputs, keyOf i.1 i.2 ∈ s.acked) → EmittedOnce sess s.node.history) := by
  have hinv := runInv_of_reachable h
  refine ⟨fun i hi hnew => hinv.exists_result hfits hi hnew, ?_⟩
  cases hinv.progress with
  | gathering pre hsub hnodup hmissing hrec hopen hstate =>
    refine ⟨.inl fun r hr => ?_, fun hacked => absurd (fun e he => ?_) hmissing⟩
    · rw [hrec] at hr
      obtain ⟨e, -, rfl⟩ := List.mem_map.mp hr
      rfl
    · -- an acked message is recorded, so its entry was gathered
      have hkey : e.1 ∈ sess.inputs.map fun i => keyOf i.1 i.2 :=
        sess.keys_entries ▸ List.mem_map_of_mem he
      obtain ⟨i, hi, hk⟩ := List.mem_map.mp hkey
      have hc := sess.clientId_of_mem hi
      have hrecorded := (mem_clientRecords hc).mpr (hinv.acked _ (hacked i hi) hc)
      rw [hk, hrec, List.map_map] at hrecorded
      obtain ⟨e', he', hfst⟩ := List.mem_map.mp hrecorded
      exact List.inj_on_of_nodup_map sess.nodup_keys (hsub e' he') he hfst ▸ he'
  | emitted pre last outputs hlast hnew hall hrec hemits =>
    have honce : EmittedOnce sess s.node.history := by
      refine ⟨_, last.1, outputs, hrec, fun r hr => ?_, ?_, ?_, fun i hi => ?_, hemits⟩
      · obtain ⟨e, -, rfl⟩ := List.mem_map.mp hr
        rfl
      · rw [List.map_map]
        exact hnew
      · have hkey : last.1 ∈ sess.inputs.map fun i => keyOf i.1 i.2 :=
          sess.keys_entries ▸ List.mem_map_of_mem hlast
        exact List.mem_map.mp hkey
      · obtain ⟨change, hmem, -⟩ := sess.callFor_of_mem hi
        rw [List.map_map]
        exact (hall _ hmem).imp_right fun he => congrArg Prod.fst he
    exact ⟨.inr honce, fun _ => honce⟩

/-! ## A bank with two names -/

/-- The only Q2 result of the client. -/
def onlyResult : Q2BankMaxPartial := ⟨"1", "80011", 0x4059000000000000, 10⟩

/-- Its message, with number `0`. -/
def resultMessage : Addressed := ⟨MessageType.data.toNat, 7, 0, 0, onlyResult.encoded⟩

/-- The EOF of the Q2 stream, with number `1`. -/
def resultEof : Addressed := ⟨MessageType.eof.toNat, 7, 0, 1, [0, 0, 0, 0, 0, 0, 0, 1, 0, 0, 0, 0]⟩

/-- A batch of the accounts file. -/
def accountsPayload (lines : List String) : Bytes :=
  (LineBatchSerializer.serialize {
    fileType := fileTypeAccounts
    relPath := "a"
    batchId := 0
    firstLineNumber := 2
    header := ["Bank Name", "Bank ID"]
    lines := lines.map encodeText }).toOption.getD []

/-- Two batches of accounts, which name the bank twice, and another bank. -/
def firstAccounts : Addressed :=
  ⟨MessageType.data.toNat, 7, 0, 0, accountsPayload ["First,1", "Other,2"]⟩

def secondAccounts : Addressed :=
  ⟨MessageType.data.toNat, 7, 0, 1, accountsPayload ["Savings,1", "First,1"]⟩

/-- The EOF of the accounts, with number `2`. -/
def accountsEofMessage : Addressed :=
  ⟨MessageType.eof.toNat, 7, 0, 2, [0, 0, 0, 0, 0, 0, 0, 2, 0, 0, 0, 0]⟩

def sampleJoiner : BankNameJoinerConfig where
  id := 0
  outputQueue := "results"
  snapshotInterval := 100
  unicode := asciiDigits
  sha256 := id
  changeJson := .ofTable [(.q2Data 7 (Base64.encode onlyResult.encoded), [1]), (.q2Eof 7 1, [2]),
    (.accountsData 7 [("1", "First"), ("2", "Other")], [3]),
    (.accountsData 7 [("1", "Savings"), ("1", "First")], [4]), (.accountsEof 7 2, [5]),
      (.close 7, [6])]
  id_lt := by decide

def sampleSession : Session sampleJoiner 7 where
  q2 := [(resultMessage, onlyResult)]
  q2Eof := resultEof
  accounts := [(firstAccounts, [("1", "First"), ("2", "Other")]),
    (secondAccounts, [("1", "Savings"), ("1", "First")])]
  accountsEof := accountsEofMessage
  q2_read := by
    intro e he
    obtain rfl := List.mem_singleton.mp he
    exact ⟨⟨rfl, rfl⟩, by decide +kernel⟩
  accounts_read := by
    intro e he
    rcases List.mem_pair.mp he with rfl | rfl
    · exact ⟨⟨rfl, rfl⟩, by decide +kernel⟩
    · exact ⟨⟨rfl, rfl⟩, by decide +kernel⟩
  q2Eof_read := ⟨⟨rfl, rfl⟩, by decide +kernel⟩
  accountsEof_read := ⟨⟨rfl, rfl⟩, by decide +kernel⟩
  banks := by simp
  keys := by decide +kernel
  clientId_lt := by decide

/-- The bank under one of its names. -/
def namedBank (bankName : String) : Q2BankMaxResult := ⟨"1", "80011", bankName, 0x4059000000000000⟩

theorem sampleSession_joins_iff (row : Q2BankMaxResult) :
    sampleSession.Joins row ↔ row ∈ [namedBank "First", namedBank "Savings"] := by
  constructor
  · rintro ⟨e, he, batch, hb, bankName, hm, rfl⟩
    obtain rfl := List.mem_singleton.mp he
    rcases List.mem_pair.mp hb with rfl | rfl
    · have hname : bankName = "First" := by simpa [onlyResult] using hm
      simp [namedBank, onlyResult, hname]
    · have hname : bankName = "Savings" ∨ bankName = "First" := by simpa [onlyResult] using hm
      rcases hname with rfl | rfl <;> simp [namedBank, onlyResult]
  · intro hrow
    rcases List.mem_pair.mp hrow with rfl | rfl
    · exact ⟨_, List.mem_cons_self, _, List.mem_cons_self, "First", List.mem_cons_self, rfl⟩
    · exact ⟨_, List.mem_cons_self, _, List.mem_cons_of_mem _ List.mem_cons_self, "Savings",
        List.mem_cons_self, rfl⟩

theorem sampleSession_rowsFit : sampleSession.RowsFit where
  serialize row hrow := by
    have hfits : ∀ row ∈ [namedBank "First", namedBank "Savings"],
        row.serialize.toOption.isSome = true := by decide +kernel
    have hsome := hfits row ((sampleSession_joins_iff row).mp hrow)
    cases hs : row.serialize with
    | error e => rw [hs] at hsome; cases hsome
    | ok payload => exact ⟨payload, rfl⟩
  length_lt rows hnodup hrows := by
    have hsub : rows ⊆ [namedBank "First", namedBank "Savings"] :=
      fun row hrow => (sampleSession_joins_iff row).mp (hrows row hrow)
    exact ((hnodup.subperm hsub).length_le).trans_lt (by decide)

/-- Deliver a message and finish it. -/
def finished (queue : JoinerQueue) (m : Addressed) : List Label :=
  [.deliver queue m .returns, .commit (keyOf queue m) .returns]

/-- Both batches of accounts and their EOF, with one batch delivered again. -/
def accountsFinished : List Label :=
  finished .accounts firstAccounts ++ finished .accounts secondAccounts ++
    [.deliver .accounts firstAccounts .returns] ++ finished .accounts accountsEofMessage

/-- The messages lead to one emission of two rows. -/
theorem bank_names_joined_in_order :
    ∃ s, Transition.Reachable (BankNameJoiner.exec sampleJoiner) (InTime sampleSession)
    (init sampleJoiner) s ∧
      sampleSession.RowsFit ∧ sampleSession.Joins (namedBank "First") ∧
      sampleSession.Joins (namedBank "Savings") ∧ EmittedOnce sampleSession s.node.history := by
  have hrun : (Transition.runAllowed (BankNameJoiner.exec sampleJoiner) (InTime sampleSession)
      (init sampleJoiner)
      (accountsFinished ++ finished .q2 resultMessage ++ finished .q2 resultEof)).any
        (fun s => decide (∀ i ∈ sampleSession.inputs, keyOf i.1 i.2 ∈ s.acked)) = true := by
    decide +kernel
  obtain ⟨s, hs, hacked⟩ := (Option.any_eq_true _ _).mp hrun
  have hreach := Transition.reachable_of_runAllowed .init hs
  exact ⟨s, hreach, sampleSession_rowsFit, (sampleSession_joins_iff _).mpr List.mem_cons_self,
    (sampleSession_joins_iff _).mpr (List.mem_cons_of_mem _ List.mem_cons_self),
    (bank_names_joined_once sampleJoiner 7 sampleSession sampleSession_rowsFit hreach).2.2
      (of_decide_eq_true hacked)⟩

/-- The EOF of the Q2 stream comes first: its number `1` makes the inbox take the result, number
`0`, for finished. All messages are acked and nothing is emitted. -/
theorem bank_names_lost_after_early_eof :
    ∃ s, Transition.Reachable (BankNameJoiner.exec sampleJoiner) (Sends sampleSession)
    (init sampleJoiner) s ∧
      sampleSession.RowsFit ∧ (∀ i ∈ sampleSession.inputs, keyOf i.1 i.2 ∈ s.acked) ∧
      (∀ r ∈ clientRecords 7 s.node.history, r.2 = []) ∧
      ¬ EmittedOnce sampleSession s.node.history := by
  have hrun : (Transition.runAllowed (BankNameJoiner.exec sampleJoiner) (Sends sampleSession)
      (init sampleJoiner)
      (finished .q2 resultEof ++ [.deliver .q2 resultMessage .returns] ++ accountsFinished)).any
        (fun s => decide ((∀ i ∈ sampleSession.inputs, keyOf i.1 i.2 ∈ s.acked) ∧
          (∀ r ∈ clientRecords 7 s.node.history, r.2 = []) ∧
          keyOf .q2 resultMessage ∉ (clientRecords 7 s.node.history).map Prod.fst)) = true := by
    decide +kernel
  obtain ⟨s, hs, hdec⟩ := (Option.any_eq_true _ _).mp hrun
  obtain ⟨hacked, hsilent, hlost⟩ := of_decide_eq_true hdec
  refine ⟨s, Transition.reachable_of_runAllowed .init hs, sampleSession_rowsFit,
    hacked, hsilent, ?_⟩
  rintro ⟨silent, key, outputs, hrec, -, -, -, hall, -⟩
  refine hlost ?_
  rw [hrec, List.map_append]
  rcases hall (.q2, resultMessage) (by simp [Session.inputs, sampleSession]) with h | h
  · exact List.mem_append_left _ h
  · exact List.mem_append_right _ (by simp [← h])

end BankNameJoiner

end MoneyLaundering
