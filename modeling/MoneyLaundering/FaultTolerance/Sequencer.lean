import MoneyLaundering.Lib.Text
import MoneyLaundering.FaultTolerance.Outbox
import MoneyLaundering.MessageProtocol

/-!
# Durable output ids

`SenderSequencer` numbers the outputs of a worker (`handler/sender_sequencer.py`). `stamp` reads the
counters without advancing them; `observe` advances them past outputs that were recorded, by parsing
the output ids back, both live and on recovery.

`Stamped` describes what one `stamp` call produces relative to the counters as they stand entry by
entry, and `Dense` what a whole log of outputs looks like: `Dense.append_stamped` is the step
that every recorded input takes.
-/

namespace MoneyLaundering

open Bytes InternalProtocol

/-- `EdgeSpec`. -/
structure EdgeSpec where
  senderId : Nat
  shardCount : Nat
  deriving DecidableEq, Repr

/-- `LogicalOutput`, with the missing shard of a pair as `none`. -/
structure LogicalOutput where
  destination : String
  body : Bytes
  shard : Option Nat := none
  deriving DecidableEq, Repr

/-- What a sequencer is constructed with. The constructor rejects a node id with a colon. -/
structure SequencerConfig where
  nodeId : String
  nodeId_noColon : ':' ∉ nodeId.toList
  edges : Dict String EdgeSpec := ∅
  sha256 : Bytes → Bytes

/-- No addressed edge has a colon in its name. -/
def SequencerConfig.EdgesNoColon (cfg : SequencerConfig) : Prop :=
  ∀ edge spec, cfg.edges.get? edge = some spec → ':' ∉ edge.toList

/-- The counters of a `SenderSequencer`. -/
structure SenderSequencer where
  nextSeq : Dict Nat Nat := ∅
  nextAddrSeq : Dict (Nat × String × Nat) Nat := ∅
  deriving DecidableEq

namespace SenderSequencer

/-- `f"{node_id}:{client_id}:{seq}#{index}"`. -/
def plainId (cfg : SequencerConfig) (clientId seq index : Nat) : String :=
  String.ofList ((cfg.nodeId.toList ++ ':' :: (Text.ofNat clientId ++ ':' :: Text.ofNat seq)) ++
    '#' :: Text.ofNat index)

/-- `f"{node_id}:{client_id}:{destination}:{shard}:{seq}#{index}"`. -/
def addressedId (cfg : SequencerConfig) (clientId : Nat) (destination : String)
    (shard seq index : Nat) : String :=
  String.ofList ((cfg.nodeId.toList ++ ':' :: (Text.ofNat clientId ++ ':' ::
    (destination.toList ++ ':' :: (Text.ofNat shard ++ ':' :: Text.ofNat seq)))) ++
      '#' :: Text.ofNat index)

/-- The shard of an addressed output: the explicit one, else the digest of the payload. -/
def outputShard (cfg : SequencerConfig) (spec : EdgeSpec) (output : LogicalOutput)
    (payload : Bytes) : Except String Nat :=
  match output.shard with
  | some shard => .ok shard
  | none => shardForKey cfg.sha256 payload spec.shardCount

/-- The loop of `stamp` over the outputs from `index` on, with its local offsets. -/
def stampFrom (cfg : SequencerConfig) (s : SenderSequencer) (clientId : Nat) (inputId : String) :
    Nat → Dict Nat Nat → Dict (Nat × String × Nat) Nat → List LogicalOutput →
      Except String (List OutboxEntry)
  | _, _, _, [] => .ok []
  | index, localPlain, localAddr, output :: outputs =>
    match cfg.edges.get? output.destination with
    | none => do
      let offset := localPlain.getD clientId 0
      let seq := s.nextSeq.getD clientId 0 + offset
      let entries ← stampFrom cfg s clientId inputId (index + 1)
        (localPlain.set clientId (offset + 1)) localAddr outputs
      return { outputId := plainId cfg clientId seq index, inputId,
               destination := output.destination, body := output.body,
               shard := output.shard } :: entries
    | some spec => do
      let (msgType, _, payload) ← unpackPacket output.body
      let shard ← outputShard cfg spec output payload
      let bucket := (clientId, output.destination, shard)
      let offset := localAddr.getD bucket 0
      let seq := s.nextAddrSeq.getD bucket 0 + offset
      let addressed ← createAddressedPacket msgType clientId spec.senderId seq payload
      let entries ← stampFrom cfg s clientId inputId (index + 1) localPlain
        (localAddr.set bucket (offset + 1)) outputs
      return { outputId := addressedId cfg clientId output.destination shard seq index, inputId,
               destination := output.destination, body := addressed,
               shard := some shard } :: entries

def stamp (cfg : SequencerConfig) (s : SenderSequencer) (clientId : Nat) (inputId : String)
    (outputs : List LogicalOutput) : Except String (List OutboxEntry) :=
  stampFrom cfg s clientId inputId 0 ∅ ∅ outputs

/-- What `_parse` finds in an output id. -/
inductive ParsedId where
  | plain (clientId seq : Nat)
  | addressed (clientId : Nat) (edge : String) (shard seq : Nat)
  deriving DecidableEq

/-- `_parse`. The source raises on an id without `#` or with a part that is not a number; no stamped
id is of that form (`parse_plainId`, `parse_addressedId`), and it is `none` here. -/
def parse (outputId : String) : Option ParsedId := do
  let (head, _) ← Text.rsplit1 '#' outputId.toList
  match Text.split ':' head with
  | [_, clientId, seq] => return .plain (← Text.toNat? clientId) (← Text.toNat? seq)
  | [_, clientId, edge, shard, seq] =>
    return .addressed (← Text.toNat? clientId) (String.ofList edge) (← Text.toNat? shard)
      (← Text.toNat? seq)
  | _ => none

/-- One round of the loop of `observe`. -/
def observeEntry (s : SenderSequencer) (entry : OutboxEntry) : SenderSequencer :=
  match parse entry.outputId with
  | none => s
  | some (.plain clientId seq) =>
    if s.nextSeq.getD clientId 0 < seq + 1 then
      { s with nextSeq := s.nextSeq.set clientId (seq + 1) }
    else s
  | some (.addressed clientId edge shard seq) =>
    if s.nextAddrSeq.getD (clientId, edge, shard) 0 < seq + 1 then
      { s with nextAddrSeq := s.nextAddrSeq.set (clientId, edge, shard) (seq + 1) }
    else s

def observe (s : SenderSequencer) (outputs : List OutboxEntry) : SenderSequencer :=
  outputs.foldl observeEntry s

/-- The persisted form of the counters. -/
structure Dump where
  nextSeq : Dict Nat Nat := ∅
  nextAddrSeq : List (Nat × String × Nat × Nat) := []

def toDict (s : SenderSequencer) : Dump where
  nextSeq := s.nextSeq
  nextAddrSeq := s.nextAddrSeq.entries.map fun ((clientId, edge, shard), seq) =>
    (clientId, edge, shard, seq)

def fromDict (data : Dump) : SenderSequencer where
  nextSeq := data.nextSeq
  nextAddrSeq := .ofList (data.nextAddrSeq.map fun (clientId, edge, shard, seq) =>
    ((clientId, edge, shard), seq))

/-- Persisting and restoring the counters gives them back. -/
@[simp] theorem fromDict_toDict (s : SenderSequencer) : fromDict s.toDict = s := by
  have h : s.nextAddrSeq.entries.map ((fun (clientId, edge, shard, seq) =>
      ((clientId, edge, shard), seq)) ∘ fun ((clientId, edge, shard), seq) =>
        (clientId, edge, shard, seq)) = s.nextAddrSeq.entries := List.map_id _
  simp only [fromDict, toDict, List.map_map, h, Dict.ofList_entries]

@[simp] theorem observe_nil (s : SenderSequencer) : s.observe [] = s := rfl

@[simp] theorem observe_cons (s : SenderSequencer) (e : OutboxEntry) (es : List OutboxEntry) :
    s.observe (e :: es) = (s.observeEntry e).observe es := rfl

/-! ## The ids parse back -/

section ids
variable (cfg : SequencerConfig)

@[simp] theorem parse_plainId (clientId seq index : Nat) :
    parse (plainId cfg clientId seq index) = some (.plain clientId seq) := by
  have hi : '#' ∉ Text.ofNat index := Text.not_mem_ofNat (by decide) _
  have hc : ':' ∉ Text.ofNat clientId := Text.not_mem_ofNat (by decide) _
  have hs : ':' ∉ Text.ofNat seq := Text.not_mem_ofNat (by decide) _
  rw [parse, plainId, String.toList_ofList, Text.rsplit1_append_cons hi, Option.bind_eq_bind,
    Option.bind_some]
  simp only [Text.split_append_cons cfg.nodeId_noColon, Text.split_append_cons hc,
    Text.split_of_not_mem hs, Text.toNat?_ofNat]
  rfl

theorem parse_addressedId {destination : String} (hd : ':' ∉ destination.toList)
    (clientId shard seq index : Nat) :
    parse (addressedId cfg clientId destination shard seq index) =
      some (.addressed clientId destination shard seq) := by
  have hi : '#' ∉ Text.ofNat index := Text.not_mem_ofNat (by decide) _
  have hc : ':' ∉ Text.ofNat clientId := Text.not_mem_ofNat (by decide) _
  have hsh : ':' ∉ Text.ofNat shard := Text.not_mem_ofNat (by decide) _
  have hs : ':' ∉ Text.ofNat seq := Text.not_mem_ofNat (by decide) _
  rw [parse, addressedId, String.toList_ofList, Text.rsplit1_append_cons hi, Option.bind_eq_bind,
    Option.bind_some]
  simp only [Text.split_append_cons cfg.nodeId_noColon, Text.split_append_cons hc,
    Text.split_append_cons hd, Text.split_append_cons hsh, Text.split_of_not_mem hs,
    Text.toNat?_ofNat, String.ofList_toList]
  rfl

end ids

/-! ## What one call stamps -/

/-- The entries carry the numbers that the counters, advanced entry by entry, hold at their turn. -/
inductive Stamped (cfg : SequencerConfig) (clientId : Nat) :
    SenderSequencer → List OutboxEntry → Prop
  | nil (t : SenderSequencer) : Stamped cfg clientId t []
  | plain {t : SenderSequencer} {e : OutboxEntry} {es : List OutboxEntry} (index : Nat)
      (hedge : cfg.edges.get? e.destination = none)
      (hid : e.outputId = plainId cfg clientId (t.nextSeq.getD clientId 0) index)
      (rest : Stamped cfg clientId (t.observeEntry e) es) : Stamped cfg clientId t (e :: es)
  | addressed {t : SenderSequencer} {e : OutboxEntry} {es : List OutboxEntry}
      (index shard msgType : Nat) (spec : EdgeSpec) (payload : Bytes)
      (hedge : cfg.edges.get? e.destination = some spec) (hshard : e.shard = some shard)
      (hid : e.outputId = addressedId cfg clientId e.destination shard
        (t.nextAddrSeq.getD (clientId, e.destination, shard) 0) index)
      (hbody : createAddressedPacket msgType clientId spec.senderId
        (t.nextAddrSeq.getD (clientId, e.destination, shard) 0) payload = .ok e.body)
      (rest : Stamped cfg clientId (t.observeEntry e) es) : Stamped cfg clientId t (e :: es)

section stamping
variable {cfg : SequencerConfig} {clientId : Nat}

theorem observeEntry_plain {t : SenderSequencer} {e : OutboxEntry} (clientId index : Nat)
    (hid : e.outputId = plainId cfg clientId (t.nextSeq.getD clientId 0) index) :
    t.observeEntry e =
      { t with nextSeq := t.nextSeq.set clientId (t.nextSeq.getD clientId 0 + 1) } := by
  rw [observeEntry, hid, parse_plainId]
  exact if_pos (Nat.lt_succ_self _)

theorem observeEntry_addressed {t : SenderSequencer} {e : OutboxEntry} {edge : String}
    (clientId shard index : Nat) (hedge : ':' ∉ edge.toList)
    (hid : e.outputId = addressedId cfg clientId edge shard
      (t.nextAddrSeq.getD (clientId, edge, shard) 0) index) :
    t.observeEntry e = { t with
      nextAddrSeq := t.nextAddrSeq.set (clientId, edge, shard)
        (t.nextAddrSeq.getD (clientId, edge, shard) 0 + 1) } := by
  rw [observeEntry, hid, parse_addressedId cfg hedge]
  exact if_pos (Nat.lt_succ_self _)

/-- The local offsets of `stamp` count what `observe` will advance the counters by. -/
theorem stamped_of_stampFrom (hcolon : cfg.EdgesNoColon) {s : SenderSequencer} {inputId : String}
    {outputs : List LogicalOutput} {index : Nat} {localPlain : Dict Nat Nat}
    {localAddr : Dict (Nat × String × Nat) Nat} {entries : List OutboxEntry}
    (h : stampFrom cfg s clientId inputId index localPlain localAddr outputs = .ok entries)
    {t : SenderSequencer}
    (hplain : t.nextSeq.getD clientId 0 = s.nextSeq.getD clientId 0 + localPlain.getD clientId 0)
    (haddr : ∀ edge shard, t.nextAddrSeq.getD (clientId, edge, shard) 0 =
      s.nextAddrSeq.getD (clientId, edge, shard) 0 + localAddr.getD (clientId, edge, shard) 0) :
    Stamped cfg clientId t entries := by
  induction outputs generalizing index localPlain localAddr entries t with
  | nil => cases h; exact .nil t
  | cons output outputs ih =>
    rw [stampFrom] at h
    split at h
    · next hedge =>
      obtain ⟨rest, hrest, h⟩ := Except.ok_of_bind h
      cases h
      refine .plain index hedge (by rw [hplain]) (ih hrest ?_ ?_)
      · rw [observeEntry_plain clientId index (by rw [hplain])]
        simp only [Dict.getD_set, if_true, hplain, Nat.add_assoc]
      · rw [observeEntry_plain clientId index (by rw [hplain])]
        exact haddr
    · next spec hedge =>
      obtain ⟨⟨msgType, _, payload⟩, -, h⟩ := Except.ok_of_bind h
      obtain ⟨shard, -, h⟩ := Except.ok_of_bind h
      obtain ⟨body, hbody, h⟩ := Except.ok_of_bind h
      obtain ⟨rest, hrest, h⟩ := Except.ok_of_bind h
      cases h
      have hseq := haddr output.destination shard
      refine .addressed index shard msgType spec payload hedge rfl (by rw [hseq])
        (by rw [hseq]; exact hbody) (ih hrest ?_ ?_)
      · rw [observeEntry_addressed clientId shard index (hcolon _ _ hedge) (by rw [hseq])]
        exact hplain
      · rw [observeEntry_addressed clientId shard index (hcolon _ _ hedge) (by rw [hseq])]
        intro edge shard'
        simp only [Dict.getD_set]
        split
        · rw [hseq, Nat.add_assoc]; next he => rw [← he]
        · exact haddr edge shard'

theorem stamped_of_stamp (hcolon : cfg.EdgesNoColon) {s : SenderSequencer} {inputId : String}
    {outputs : List LogicalOutput} {entries : List OutboxEntry}
    (h : s.stamp cfg clientId inputId outputs = .ok entries) : Stamped cfg clientId s entries :=
  stamped_of_stampFrom hcolon h (by simp) (by simp)

/-- The entry of a logical output: the body as it is, or readdressed on an edge. -/
structure StampedAs (cfg : SequencerConfig) (clientId : Nat) (output : LogicalOutput)
    (e : OutboxEntry) : Prop where
  destination : e.destination = output.destination
  plain : cfg.edges.get? output.destination = none → e.body = output.body ∧ e.shard = output.shard
  addressed : ∀ spec, cfg.edges.get? output.destination = some spec →
    ∃ msgType c payload seq, unpackPacket output.body = .ok (msgType, c, payload) ∧
      createAddressedPacket msgType clientId spec.senderId seq payload = .ok e.body ∧
      ∀ shard, output.shard = some shard → e.shard = some shard

/-- Every output gets its entry, in order. -/
theorem forall₂_of_stampFrom {s : SenderSequencer} {inputId : String} {outputs : List LogicalOutput}
    {index : Nat} {localPlain : Dict Nat Nat} {localAddr : Dict (Nat × String × Nat) Nat}
    {entries : List OutboxEntry}
    (h : stampFrom cfg s clientId inputId index localPlain localAddr outputs = .ok entries) :
    List.Forall₂ (StampedAs cfg clientId) outputs entries := by
  induction outputs generalizing index localPlain localAddr entries with
  | nil => cases h; exact .nil
  | cons output outputs ih =>
    rw [stampFrom] at h
    split at h
    · next hedge =>
      obtain ⟨rest, hrest, h⟩ := Except.ok_of_bind h
      cases h
      exact .cons ⟨rfl, fun _ => ⟨rfl, rfl⟩, by simp [hedge]⟩ (ih hrest)
    · next spec hedge =>
      obtain ⟨⟨msgType, c, payload⟩, hu, h⟩ := Except.ok_of_bind h
      obtain ⟨shard, hs, h⟩ := Except.ok_of_bind h
      obtain ⟨body, hb, h⟩ := Except.ok_of_bind h
      obtain ⟨rest, hrest, h⟩ := Except.ok_of_bind h
      cases h
      refine .cons ⟨rfl, by simp [hedge], fun spec' he => ?_⟩ (ih hrest)
      rw [hedge] at he
      cases he
      refine ⟨msgType, c, payload, _, hu, hb, fun shard' hs' => ?_⟩
      rw [outputShard, hs'] at hs
      cases hs
      rfl

theorem forall₂_of_stamp {s : SenderSequencer} {inputId : String} {outputs : List LogicalOutput}
    {entries : List OutboxEntry} (h : s.stamp cfg clientId inputId outputs = .ok entries) :
    List.Forall₂ (StampedAs cfg clientId) outputs entries :=
  forall₂_of_stampFrom h

/-- Without addressed edges the outputs are stamped as they are. -/
theorem map_of_stamp_plain {s : SenderSequencer} {inputId : String} {outputs : List LogicalOutput}
    {entries : List OutboxEntry} (he : cfg.edges = ∅)
    (h : s.stamp cfg clientId inputId outputs = .ok entries) :
    entries.map (fun entry => (entry.destination, entry.body)) =
      outputs.map fun output => (output.destination, output.body) := by
  have hall := forall₂_of_stamp h
  clear h
  induction hall with
  | nil => rfl
  | @cons output entry _ _ hs _ ih =>
    have hplain : cfg.edges.get? output.destination = none := by rw [he]; rfl
    rw [List.map_cons, List.map_cons, ih, hs.destination, (hs.plain hplain).1]

end stamping

/-! ## A whole log of outputs -/

/-- The seq an addressed packet carries. -/
def packetSeq (body : Bytes) : Option Nat :=
  (unpackAddressedPacket body).toOption.map Addressed.seq

/-- The seqs of the packets recorded for one `(client, edge, shard)`. The log pairs each entry with
the client of its input. -/
def bucketSeqs (log : List (Nat × OutboxEntry)) (clientId : Nat) (edge : String) (shard : Nat) :
    List (Option Nat) :=
  (log.filter fun x =>
    decide (x.1 = clientId ∧ x.2.destination = edge ∧ x.2.shard = some shard)).map
    fun x => packetSeq x.2.body

/-- An id that the counters have passed. -/
def Passed (cfg : SequencerConfig) (t : SenderSequencer) (x : Nat × OutboxEntry) : Prop :=
  (∃ q i, x.2.outputId = plainId cfg x.1 q i ∧ q < t.nextSeq.getD x.1 0) ∨
  ∃ edge shard q i, ':' ∉ edge.toList ∧ x.2.outputId = addressedId cfg x.1 edge shard q i ∧
    q < t.nextAddrSeq.getD (x.1, edge, shard) 0

/-- The counters `t` and the log agree: every bucket holds the seqs below its counter in order, and
the ids are distinct and below the counters. -/
structure Dense (cfg : SequencerConfig) (log : List (Nat × OutboxEntry)) (t : SenderSequencer) :
    Prop where
  buckets : ∀ clientId edge shard, (cfg.edges.get? edge).isSome →
    bucketSeqs log clientId edge shard =
      (List.range (t.nextAddrSeq.getD (clientId, edge, shard) 0)).map some
  nodup : (log.map fun x => x.2.outputId).Nodup
  passed : ∀ x ∈ log, Passed cfg t x

section dense
variable {cfg : SequencerConfig} {log : List (Nat × OutboxEntry)} {t : SenderSequencer}

theorem dense_nil : Dense cfg [] {} where
  buckets := by simp [bucketSeqs]
  nodup := List.nodup_nil
  passed := by simp

theorem bucketSeqs_append (log log' : List (Nat × OutboxEntry)) (c : Nat) (edge : String)
    (shard : Nat) :
    bucketSeqs (log ++ log') c edge shard = bucketSeqs log c edge shard ++
      bucketSeqs log' c edge shard := by simp [bucketSeqs]

/-- An entry for a plain edge is next for its client. -/
theorem Dense.append_plain (h : Dense cfg log t) {clientId index : Nat} {e : OutboxEntry}
    (hedge : cfg.edges.get? e.destination = none)
    (hid : e.outputId = plainId cfg clientId (t.nextSeq.getD clientId 0) index) :
    Dense cfg (log ++ [(clientId, e)]) (t.observeEntry e) := by
  rw [observeEntry_plain clientId index hid]
  refine ⟨fun c edge shard hs => ?_, ?_, fun x hx => ?_⟩
  · have hne : e.destination ≠ edge := by rintro rfl; simp [hedge] at hs
    rw [bucketSeqs_append, h.buckets c edge shard hs]
    simp [bucketSeqs, hne]
  · rw [List.map_append, List.nodup_append]
    refine ⟨h.nodup, by simp, fun a ha b hb => ?_⟩
    obtain ⟨x, hx, rfl⟩ := List.mem_map.mp ha
    obtain rfl : b = e.outputId := by simpa using hb
    rw [hid]
    -- an equal id would parse to the same number, which the counter has passed
    rcases h.passed x hx with ⟨q, i, hx', hq⟩ | ⟨edge, shard, q, i, hcol, hx', -⟩ <;> intro he
    · have := congrArg parse (hx'.symm.trans he)
      simp only [parse_plainId, Option.some.injEq, ParsedId.plain.injEq] at this
      obtain ⟨rfl, rfl⟩ := this
      exact lt_irrefl _ hq
    · have := congrArg parse (hx'.symm.trans he)
      simp [parse_addressedId cfg hcol] at this
  · rcases List.mem_append.mp hx with hx | hx
    · rcases h.passed x hx with ⟨q, i, hx', hq⟩ | hx'
      · refine .inl ⟨q, i, hx', ?_⟩
        simp only [Dict.getD_set]
        split
        · next he => subst he; omega
        · exact hq
      · exact .inr hx'
    · obtain rfl : x = (clientId, e) := by simpa using hx
      exact .inl ⟨_, index, hid, by simp [Dict.getD_set]⟩

/-- An entry for an addressed edge is next in its bucket. -/
theorem Dense.append_addressed (h : Dense cfg log t)
    {clientId index shard msgType senderId : Nat} {payload : Bytes} {e : OutboxEntry}
    (hcol : ':' ∉ e.destination.toList) (hshard : e.shard = some shard)
    (hid : e.outputId = addressedId cfg clientId e.destination shard
      (t.nextAddrSeq.getD (clientId, e.destination, shard) 0) index)
    (hbody : createAddressedPacket msgType clientId senderId
      (t.nextAddrSeq.getD (clientId, e.destination, shard) 0) payload = .ok e.body) :
    Dense cfg (log ++ [(clientId, e)]) (t.observeEntry e) := by
  rw [observeEntry_addressed clientId shard index hcol hid]
  refine ⟨fun c edge shard' hs => ?_, ?_, fun x hx => ?_⟩
  · rw [bucketSeqs_append, h.buckets c edge shard' hs]
    simp only [Dict.getD_set, Prod.mk.injEq]
    by_cases hb : clientId = c ∧ e.destination = edge ∧ shard = shard'
    · obtain ⟨rfl, rfl, rfl⟩ := hb
      have hq : packetSeq e.body =
          some (t.nextAddrSeq.getD (clientId, e.destination, shard) 0) := by
        rw [packetSeq, unpackAddressedPacket_create hbody]; rfl
      simp [bucketSeqs, hshard, hq, List.range_succ]
    · have hne : ¬ (clientId = c ∧ e.destination = edge ∧ e.shard = some shard') := by
        rw [hshard]; simpa using hb
      rw [if_neg hb]
      simp [bucketSeqs, hne]
  · rw [List.map_append, List.nodup_append]
    refine ⟨h.nodup, by simp, fun a ha b hb => ?_⟩
    obtain ⟨x, hx, rfl⟩ := List.mem_map.mp ha
    obtain rfl : b = e.outputId := by simpa using hb
    rw [hid]
    rcases h.passed x hx with ⟨q, i, hx', -⟩ | ⟨edge, shard, q, i, hcol', hx', hq⟩ <;> intro he
    · have := congrArg parse (hx'.symm.trans he)
      simp [parse_addressedId cfg hcol] at this
    · have := congrArg parse (hx'.symm.trans he)
      rw [parse_addressedId cfg hcol, parse_addressedId cfg hcol'] at this
      simp only [Option.some.injEq, ParsedId.addressed.injEq] at this
      obtain ⟨rfl, rfl, rfl, rfl⟩ := this
      exact lt_irrefl _ hq
  · rcases List.mem_append.mp hx with hx | hx
    · rcases h.passed x hx with hx' | ⟨edge, shard', q, i, hcol', hx', hq⟩
      · exact .inl hx'
      · refine .inr ⟨edge, shard', q, i, hcol', hx', ?_⟩
        simp only [Dict.getD_set]
        split
        · next he => rw [he]; omega
        · exact hq
    · obtain rfl : x = (clientId, e) := by simpa using hx
      exact .inr ⟨e.destination, shard, _, index, hcol, hid, by simp [Dict.getD_set]⟩

/-- Recording the entries of one call keeps the log dense. -/
theorem Dense.append_stamped (hcolon : cfg.EdgesNoColon) {clientId : Nat} {es : List OutboxEntry}
    (hs : Stamped cfg clientId t es) (h : Dense cfg log t) :
    Dense cfg (log ++ es.map fun e => (clientId, e)) (t.observe es) := by
  induction hs generalizing log with
  | nil t => simpa using h
  | plain index hedge hid rest ih => simpa using ih (h.append_plain hedge hid)
  | addressed index shard msgType spec payload hedge hshard hid hbody rest ih =>
    simpa using ih (h.append_addressed (hcolon _ _ hedge) hshard hid hbody)

end dense

end SenderSequencer

end MoneyLaundering
