import MoneyLaundering.Eof.WorkerChange
import MoneyLaundering.FaultTolerance.Runner
import MoneyLaundering.FileSplitter.State
import MoneyLaundering.Lib.Base64
import MoneyLaundering.Q2.Maximum

/-!
# The bank-name joiner

`BankNameJoinerState` and `BankNameJoinerWorker`
(`workers/q2_bank_name_joiner/bank_name_joiner_state.py`, `bank_name_joiner.py`). Two streams come
in, the maxima of Q2 and the batches of the accounts file, each with an EOF that tells how many
messages it had. The message after which both totals are reached is recorded as the close of the
client and emits the join.
-/

namespace MoneyLaundering

open Bytes InternalProtocol

/-- `Q2BankMaxResult`. -/
structure Q2BankMaxResult where
  bankId : String
  fromAccount : String
  bankName : String
  amount : UInt64
  deriving DecidableEq

/-- `BANK_NAME_SIZE`. -/
def bankNameSize : Nat := 64

/-- `Q2BankMaxResultSerializer.serialize`. -/
def Q2BankMaxResult.serialize (r : Q2BankMaxResult) : Except String Bytes := do
  let bankId ← TransactionSerializer.encodeFixed r.bankId TransactionSerializer.bankSize "bank_id"
  let fromAccount ← TransactionSerializer.encodeFixed r.fromAccount
      TransactionSerializer.accountSize
    "from_account"
  let bankName ← TransactionSerializer.encodeFixed r.bankName bankNameSize "bank_name"
  return bankId ++ fromAccount ++ bankName ++ beEncode 8 r.amount.toNat

/-! ## The state of a client -/

/-- `ClientState`. -/
structure JoinerClient where
  bankNames : Dict String (List String) := ∅
  q2Results : Dict String Q2BankMaxPartial := ∅
  q2DataCount : Nat := 0
  q2ExpectedTotal : Option Nat := none
  accountsBatchCount : Nat := 0
  accountsExpectedTotal : Option Nat := none
  deriving DecidableEq

def JoinerClient.ready (s : JoinerClient) : Bool :=
  match s.q2ExpectedTotal, s.accountsExpectedTotal with
  | some q2Total, some accountsTotal =>
    decide (q2Total ≤ s.q2DataCount) && decide (accountsTotal ≤ s.accountsBatchCount)
  | _, _ => false

/-- The names of a bank with one more, unless it is known. -/
def addBankName (bankNames : Dict String (List String)) (mapping : String × String) :
    Dict String (List String) :=
  let names := bankNames.getD mapping.1 []
  bankNames.set mapping.1 (if mapping.2 ∈ names then names else names ++ [mapping.2])

/-- A change of `BankNameJoinerState`. -/
inductive JoinerChange where
  | q2Data (clientId : Nat) (payload : List Char)
  | q2Eof (clientId expectedTotal : Nat)
  | accountsData (clientId : Nat) (mappings : List (String × String))
  | accountsEof (clientId expectedTotal : Nat)
  | close (clientId : Nat)
  deriving DecidableEq

/-- `BankNameJoinerState`. -/
structure BankNameJoinerState where
  states : Dict Nat JoinerClient := ∅
  closedByClient : Finset Nat := ∅

/-- The environment of a joiner. -/
structure BankNameJoinerConfig where
  id : Nat
  outputQueue : String
  snapshotInterval : Nat
  unicode : UnicodeDigits
  sha256 : Bytes → Bytes
  changeJson : StateChangeCodec JoinerChange
  id_lt : id < 256 ^ 4

namespace BankNameJoiner

variable (cfg : BankNameJoinerConfig)

/-- The partial of a Q2 payload under its normal bank. A partial whose bank had to be normalised
loses its row number. -/
def q2Partial (payload : List Char) : Except String Q2BankMaxPartial := do
  match Base64.decode payload with
  | none => .error "Incorrect padding"
  | some payload => do
    let p ← Q2BankMaxPartialSerializer.deserialize payload
    let bankId ← notebookBankId cfg.unicode p.bankId
    return if bankId ≠
      p.bankId then { bankId, fromAccount := p.fromAccount, amount := p.amount, rowNumber := 0 }
      else p

/-- A client state with one more partial. -/
def addQ2Result (s : JoinerClient) (p : Q2BankMaxPartial) : JoinerClient :=
  { s with
    q2Results := s.q2Results.set p.bankId p
    q2DataCount := s.q2DataCount + 1 }

/-- A client state with one more batch of accounts. -/
def addAccounts (s : JoinerClient) (mappings : List (String × String)) : JoinerClient :=
  { s with
    bankNames := mappings.foldl addBankName s.bankNames
    accountsBatchCount := s.accountsBatchCount + 1 }

/-- `_state_for`. -/
def stateFor (s : BankNameJoinerState) (clientId : Nat) : JoinerClient := s.states.getD clientId {}

/-- The record of an open client is replaced. -/
def updateOpen (s : BankNameJoinerState) (clientId : Nat) (f : JoinerClient → JoinerClient) :
    BankNameJoinerState :=
  if clientId ∈ s.closedByClient then s
  else { s with states := s.states.set clientId (f (stateFor s clientId)) }

/-- `apply_change`. A Q2 payload of an open client that cannot be read raises. -/
def applyChange (s : BankNameJoinerState) : JoinerChange → Except String BankNameJoinerState
  | .q2Data clientId payload =>
    if clientId ∈ s.closedByClient then .ok s
    else do
      let p ← q2Partial cfg payload
      return updateOpen s clientId fun state => addQ2Result state p
  | .q2Eof clientId expectedTotal =>
    .ok (updateOpen s clientId fun state => { state with q2ExpectedTotal := some expectedTotal })
  | .accountsData clientId mappings =>
    .ok (updateOpen s clientId fun state => addAccounts state mappings)
  | .accountsEof clientId expectedTotal =>
    .ok (updateOpen s clientId fun state =>
      { state with accountsExpectedTotal := some expectedTotal })
  | .close clientId =>
    .ok { states := s.states.erase clientId
          closedByClient := insert clientId s.closedByClient }

/-- The state after a change, as long as `apply_change` does not raise. Where it does, the record of
the change is in the log already, and a recovery that replays it raises too; that is not modelled,
and the runs below are those in which every payload can be read (`Readable`). -/
def changed (s : BankNameJoinerState) (change : JoinerChange) : BankNameJoinerState :=
  (applyChange cfg s change).toOption.getD s

/-! ## The message handlers -/

/-- `_prospective_state`. -/
def prospectiveState (s : BankNameJoinerState) (clientId : Nat) :
    JoinerChange → Except String JoinerClient
  | .q2Data _ payload => do return addQ2Result (stateFor s clientId) (← q2Partial cfg payload)
  | .q2Eof _ expectedTotal => .ok { stateFor s clientId with q2ExpectedTotal := some expectedTotal }
  | .accountsData _ mappings => .ok (addAccounts (stateFor s clientId) mappings)
  | .accountsEof _ expectedTotal =>
    .ok { stateFor s clientId with accountsExpectedTotal := some expectedTotal }
  | .close _ => .error "unsupported prospective change type: close"

/-- The rows of the join, in the order of the loops of `_build_result_outputs`. -/
def resultRows (state : JoinerClient) : List Q2BankMaxResult :=
  state.q2Results.entries.flatMap fun (bankId, p) =>
    (state.bankNames.getD bankId []).map fun bankName =>
      ⟨p.bankId, p.fromAccount, bankName, p.amount⟩

/-- `_packet`. -/
def packet (msgType : MessageType) (clientId seq : Nat) (payload : Bytes) : Except String Bytes :=
  createAddressedPacket msgType.toNat clientId cfg.id seq payload

/-- The packet of the row with index `emitted`. -/
def rowPacket (clientId : Nat) (row : Q2BankMaxResult × Nat) : Except String Bytes := do
  packet cfg .data clientId row.2 (← row.1.serialize)

/-- The packet that ends `emitted` rows. -/
def eofPacket (clientId emitted : Nat) : Except String Bytes := do
  packet cfg .eof clientId emitted (← ControlMessage.serialize ⟨cfg.id, emitted, 0⟩)

/-- `_build_result_outputs`. -/
def buildResultOutputs (state : JoinerClient) (clientId : Nat) :
    Except String (List LogicalOutput) := do
  let rows ← (resultRows state).zipIdx.mapM (rowPacket cfg clientId)
  let eof ← eofPacket cfg clientId (resultRows state).length
  return (rows ++ [eof]).map fun body => { destination := cfg.outputQueue, body }

/-- `change["type"] in ("q2_data", "accounts_data")`. -/
def isData : JoinerChange → Bool
  | .q2Data .. | .accountsData .. => true
  | _ => false

/-- One of the totals is not known yet. -/
def awaitsTotals (s : BankNameJoinerState) (clientId : Nat) : Bool :=
  match s.states.get? clientId with
  | none => true
  | some current => current.q2ExpectedTotal.isNone || current.accountsExpectedTotal.isNone

/-- `_change_outputs_for`. -/
def changeOutputsFor (clientId : Nat) (change : JoinerChange) (s : BankNameJoinerState) :
    Except String (JoinerChange × List LogicalOutput) :=
  -- without both totals no `DATA` can complete them
  if isData change && awaitsTotals s clientId then .ok (change, [])
  else do
    let prospective ← prospectiveState cfg s clientId change
    if !prospective.ready then return (change, [])
    return (.close clientId, ← buildResultOutputs cfg prospective clientId)

/-- The columns of a line of accounts: bank id and bank name, `none` for a line that is passed
over. -/
def accountOf (bankIdIdx bankNameIdx : Nat) (line : Bytes) :
    Except String (Option (String × String)) := do
  let clean := FileSplitterStateConfig.cleanLine line
  if clean = [] then return none
  let fields ← parseCsvLine clean
  match fields[bankIdIdx]?, fields[bankNameIdx]? with
  | some bankId, some bankName => do
    let bankId ← notebookBankId cfg.unicode bankId
    if bankId = "" then return none
    return some (bankId, String.ofList (Text.strip bankName.toList))
  | _, _ => return none

/-- `_parse_accounts_batch`. -/
def parseAccountsBatch (payload : Bytes) : Except String (List (String × String)) := do
  let batch ← LineBatchSerializer.deserialize payload
  Except.raiseIf (batch.fileType ≠ fileTypeAccounts)
    s!"unexpected accounts batch file_type: {batch.fileType}"
  match batch.header.idxOf? "Bank ID", batch.header.idxOf? "Bank Name" with
  | some bankIdIdx, some bankNameIdx => do
    let accounts ← batch.lines.mapM (accountOf cfg bankIdIdx bankNameIdx)
    return accounts.filterMap id
  | _, _ => .error s!"accounts header missing required columns: {batch.header}"

/-- `ACCOUNTS_SENDER_OFFSET`. -/
def accountsSenderOffset : Nat := 1000000

/-- The two input queues. -/
inductive JoinerQueue where
  | q2 | accounts
  deriving DecidableEq

/-- The sender that the inbox knows a message by. -/
def effectiveSenderId : JoinerQueue → Nat → Nat
  | .q2, senderId => senderId
  | .accounts, senderId => senderId + accountsSenderOffset

/-- `_on_q2_message` and `_on_accounts_message` up to `handle`: the input and the business
function. -/
def callFor (queue : JoinerQueue) (m : Addressed) :
    Except String (InputKey × BusinessFn BankNameJoinerState JoinerChange) := do
  let sender := effectiveSenderId queue m.senderId
  match queue, MessageType.ofNat? m.msgType with
  | .q2, some .data =>
    return (⟨m.clientId, .data, sender, m.seq⟩,
      changeOutputsFor cfg m.clientId (.q2Data m.clientId (Base64.encode m.payload)))
  | .accounts, some .data => do
    let mappings ← parseAccountsBatch cfg m.payload
    return (⟨m.clientId, .data, sender, m.seq⟩,
      changeOutputsFor cfg m.clientId (.accountsData m.clientId mappings))
  | _, some .eof => do
    let control ← ControlMessage.deserialize m.payload
    return (⟨m.clientId, .data, sender, m.seq⟩,
      changeOutputsFor cfg m.clientId (match queue with
        | .q2 => .q2Eof m.clientId control.expectedTotal
        | .accounts => .accountsEof m.clientId control.expectedTotal))
  | _, some .abort =>
    return (⟨m.clientId, .abort, sender, m.seq⟩, fun _ => .ok (.close m.clientId, []))
  | .q2, _ => .error "unsupported q2 message type"
  | .accounts, _ => .error "unsupported accounts message type"

/-- The payload of a Q2 `DATA` message can be read, so that its change applies. -/
def Readable (queue : JoinerQueue) (m : Addressed) : Prop :=
  queue = .q2 → m.msgType = MessageType.data.toNat →
    (q2Partial cfg (Base64.encode m.payload)).toBool = true

instance (queue : JoinerQueue) (m : Addressed) : Decidable (Readable cfg queue m) :=
  inferInstanceAs (Decidable (_ → _ → _))

/-! ## The durable handler -/

/-- The parts of a message id: `f"q2:{sender_id}:{client_id}:{seq}"`, `f"acc:…"` with the sender's
own id, and `f"abort:…"`. The source writes the own id of the sender of an accounts `ABORT` too; an
`ABORT` has no outputs, so nothing is looked up by its id. Other kinds do not occur. -/
def msgIdParts (key : InputKey) : List (List Char) :=
  match key.kind with
  | .data =>
    if key.senderId < accountsSenderOffset then
      ["q2".toList, Text.ofNat key.senderId, Text.ofNat key.clientId, Text.ofNat key.seq]
    else
      ["acc".toList, Text.ofNat (key.senderId - accountsSenderOffset), Text.ofNat key.clientId,
        Text.ofNat key.seq]
  | .abort => ["abort".toList, Text.ofNat key.senderId, Text.ofNat key.clientId, Text.ofNat key.seq]
  | kind => [Text.ofNat kind.toNat, Text.ofNat key.senderId, Text.ofNat key.seq]

def msgId (key : InputKey) : String := String.ofList (Text.join ':' (msgIdParts key))

theorem msgIdParts_spec (key : InputKey) :
    msgIdParts key ≠ [] ∧ ∀ part ∈ msgIdParts key, ':' ∉ part := by
  have hn : ∀ n, ':' ∉ Text.ofNat n := Text.not_mem_ofNat (by decide)
  unfold msgIdParts
  split
  · split <;> simp [hn]
  · simp [hn]
  · simp [hn]

theorem msgId_inj (a b : InputKey) (hc : a.clientId = b.clientId) (h : msgId a = msgId b) :
    a = b := by
  have heq := Text.join_inj (msgIdParts_spec a) (msgIdParts_spec b) (String.ofList_injective h)
  have hinj : ∀ m n, Text.ofNat m = Text.ofNat n ↔ m = n := fun _ _ => Text.ofNat_injective.eq_iff
  obtain ⟨ac, ak, as, aq⟩ := a
  obtain ⟨bc, bk, bs, bq⟩ := b
  cases hc
  clear h
  unfold msgIdParts at heq
  cases ak <;> cases bk <;> simp only [MsgKind.toNat] at heq <;> (try split at heq) <;>
    (try split at heq) <;> simp_all
  omega

def handler : HandlerConfig BankNameJoinerState BankNameJoinerState JoinerChange where
  nodeId := workerNodeId "q2_bank_name_joiner" cfg.id
  nodeId_noColon := workerNodeId_noColon (by decide) _
  sha256 := cfg.sha256
  worker := ⟨{}, id, id, changed cfg, fun _ => rfl⟩
  json := cfg.changeJson
  snapshotEvery := cfg.snapshotInterval
  msgId := msgId
  msgId_inj := msgId_inj

/-! ## Runs -/

/-- A running joiner and the inputs it has acked. -/
structure State where
  node : Node BankNameJoinerState BankNameJoinerState JoinerChange
  acked : List InputKey := []

/-- What can happen: a message is delivered, for the first time or again, or `commit_done` follows
the publication of the outputs of an input. Every step may end in a failed append or in a crash and
the recovery from it. -/
inductive Label where
  | deliver (queue : JoinerQueue) (m : Addressed) (outcome : Outcome)
  | commit (key : InputKey) (outcome : Outcome)

def init : State where
  node := Node.init (handler cfg)

/-- The inputs that a history applies, in order. -/
def appliedKeys (history : List (WalRecord JoinerChange)) : List InputKey :=
  history.filterMap fun
    | .inputApplied _ key _ _ => some key
    | .inputDone _ _ => none

/-- One step, `none` when it is not enabled. A message that cannot be read is nacked. -/
def exec (s : State) : Label → Option State
  | .deliver queue m outcome =>
    match callFor cfg queue m with
    | .error _ => some s
    | .ok (key, businessFn) =>
      match s.node.exec (handler cfg) (outcome.event (.handle key businessFn)) with
      | .error _ => none
      | .ok node => some {
          node
          -- a finished input is acked at once
          acked := if outcome = .returns ∧ s.node.handler.inbox.classify key =
          .done then s.acked ++ [key]
            else s.acked }
  | .commit key outcome =>
    if key ∈ appliedKeys s.node.history then
      match s.node.exec (handler cfg) (outcome.event (.commitDone key)) with
      | .error _ => none
      | .ok node => some {
          node
          acked := if outcome = .returns ∧
          s.node.history.length < node.history.length then s.acked ++ [key]
            else s.acked }
    else none

end BankNameJoiner

end MoneyLaundering
