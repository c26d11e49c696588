import MoneyLaundering.FaultTolerance.History
import MoneyLaundering.Q2.BankNameJoiner

/-!
# What the bank-name joiner emits

The messages of a client and the rows they join to, whatever the order in which the joiner applies
them. The client's state is the fold of the messages applied so far (`gathered`); it is ready
exactly when all of them are among these, so the joiner emits with the last one and never again.
-/

namespace MoneyLaundering

open Bytes InternalProtocol

namespace BankNameJoiner

variable {cfg : BankNameJoinerConfig}

/-! ## Gathering the messages -/

section gathering
variable (cfg)

/-- What a message adds to the state of its client. -/
def absorb (s : JoinerClient) : JoinerChange → JoinerClient
  | .q2Data _ payload =>
    match q2Partial cfg payload with
    | .error _ => s
    | .ok p => addQ2Result s p
  | .q2Eof _ expectedTotal => { s with q2ExpectedTotal := some expectedTotal }
  | .accountsData _ mappings => addAccounts s mappings
  | .accountsEof _ expectedTotal => { s with accountsExpectedTotal := some expectedTotal }
  | .close _ => s

/-- The state of a client after some messages. -/
def gathered (changes : List JoinerChange) : JoinerClient := changes.foldl (absorb cfg) {}

/-- The partial that a message carries. -/
def partialOf : JoinerChange → List Q2BankMaxPartial
  | .q2Data _ payload => (q2Partial cfg payload).toOption.toList
  | _ => []

/-- The batch of accounts that a message carries, as pairs of bank and name. -/
def batchOf : JoinerChange → List (List (String × String))
  | .accountsData _ mappings => [mappings]
  | _ => []

/-- The total of the Q2 stream that a message carries. -/
def q2TotalOf : JoinerChange → List Nat
  | .q2Eof _ expectedTotal => [expectedTotal]
  | _ => []

/-- The total of the accounts stream that a message carries. -/
def accountsTotalOf : JoinerChange → List Nat
  | .accountsEof _ expectedTotal => [expectedTotal]
  | _ => []

/-- The names of a bank in a list of pairs, each once. -/
def namesOf (mappings : List (String × String)) (bankId : String) : List String :=
  (mappings.foldl addBankName ∅).getD bankId []

end gathering

/-- The fields of a state that has absorbed some messages. -/
theorem foldl_absorb (s : JoinerClient) (changes : List JoinerChange) :
    changes.foldl (absorb cfg) s = {
      bankNames := (changes.flatMap batchOf).flatten.foldl addBankName s.bankNames
      q2Results := (changes.flatMap (partialOf cfg)).foldl (fun d p => d.set p.bankId p) s.q2Results
      q2DataCount := s.q2DataCount + (changes.flatMap (partialOf cfg)).length
      q2ExpectedTotal := (changes.flatMap q2TotalOf).foldl (fun _ n => some n) s.q2ExpectedTotal
      accountsBatchCount := s.accountsBatchCount + (changes.flatMap batchOf).length
      accountsExpectedTotal := (changes.flatMap accountsTotalOf).foldl (fun _ n =>
        some n) s.accountsExpectedTotal } := by
  induction changes generalizing s with
  | nil => rfl
  | cons change changes ih =>
    rw [List.foldl_cons, ih]
    cases change with
    | q2Data c payload =>
      cases h : q2Partial cfg payload with
      | error e => simp [absorb, h, partialOf, batchOf, q2TotalOf, accountsTotalOf, Except.toOption]
      | ok p =>
        simp only [absorb, h, addQ2Result, partialOf, batchOf, q2TotalOf, accountsTotalOf,
          Except.toOption, List.flatMap_cons, Option.toList_some, List.singleton_append,
          List.foldl_cons, List.length_cons, List.nil_append]
        simp [Nat.add_assoc, Nat.add_comm 1]
    | accountsData c mappings =>
      simp [absorb, addAccounts, partialOf, batchOf, q2TotalOf, accountsTotalOf, Nat.add_assoc,
        Nat.add_comm 1]
    | _ => simp [absorb, partialOf, batchOf, q2TotalOf, accountsTotalOf]

/-! ## Names -/

theorem mem_getD_foldl_addBankName (d : Dict String (List String))
    (mappings : List (String × String))
    (bankId name : String) : name ∈ (mappings.foldl addBankName d).getD bankId [] ↔
      name ∈ d.getD bankId [] ∨ (bankId, name) ∈ mappings := by
  induction mappings generalizing d with
  | nil => simp
  | cons mapping mappings ih =>
    rw [List.foldl_cons, ih, addBankName, Dict.getD_set, List.mem_cons, ← or_assoc]
    refine or_congr_left ?_
    by_cases hb : mapping.1 = bankId
    · subst hb
      have he : ((mapping.1, name) : String × String) = mapping ↔ name = mapping.2 := by
        constructor
        · exact fun h => congrArg Prod.snd h
        · rintro rfl
          rfl
      rw [if_pos rfl, he]
      split_ifs with hmem
      · exact (or_iff_left_of_imp fun h => h ▸ hmem).symm
      · simp
    · rw [if_neg hb]
      exact (or_iff_left_of_imp fun h => absurd (congrArg Prod.fst h).symm hb).symm

theorem mem_namesOf {mappings : List (String × String)} {bankId name : String} :
    name ∈ namesOf mappings bankId ↔ (bankId, name) ∈ mappings := by
  simp [namesOf, mem_getD_foldl_addBankName]

theorem nodup_namesOf (mappings : List (String × String)) (bankId : String) :
    (namesOf mappings bankId).Nodup := by
  have key : ∀ (mappings : List (String × String)) (d : Dict String (List String)),
      (∀ bankId, (d.getD bankId []).Nodup) → ∀ bankId,
      ((mappings.foldl addBankName d).getD bankId []).Nodup := by
    intro mappings
    induction mappings with
    | nil => exact fun d hd => hd
    | cons mapping mappings ih =>
      intro d hd
      refine ih _ fun bankId => ?_
      rw [addBankName, Dict.getD_set]
      split_ifs with hb hmem
      · exact hd _
      · exact List.nodup_append.mpr ⟨hd _, List.nodup_singleton _, fun a ha b hb => by
          obtain rfl := List.mem_singleton.mp hb
          exact fun he => hmem (he ▸ ha)⟩
      · exact hd _
  exact key mappings ∅ (fun _ => List.nodup_nil) bankId

/-! ## The messages of a client -/

/-- A message of the client with a type. -/
def IsMessage (msgType : MessageType) (clientId : Nat) (m : Addressed) : Prop :=
  m.msgType = msgType.toNat ∧ m.clientId = clientId

/-- The input that a `DATA` or `EOF` message is. -/
def keyOf (queue : JoinerQueue) (m : Addressed) : InputKey :=
  ⟨m.clientId, .data, effectiveSenderId queue m.senderId, m.seq⟩

/-- The messages of a client: one Q2 result for each bank, the batches of its accounts, and the two
EOFs with the number of messages of their stream. No two of them have the same number on one
channel. -/
structure Session (cfg : BankNameJoinerConfig) (clientId : Nat) where
  q2 : List (Addressed × Q2BankMaxPartial)
  q2Eof : Addressed
  accounts : List (Addressed × List (String × String))
  accountsEof : Addressed
  q2_read : ∀ e ∈ q2, IsMessage .data clientId e.1 ∧
    q2Partial cfg (Base64.encode e.1.payload) = .ok e.2
  accounts_read : ∀ e ∈ accounts, IsMessage .data clientId e.1 ∧
    parseAccountsBatch cfg e.1.payload = .ok e.2
  q2Eof_read : IsMessage .eof clientId q2Eof ∧
    (ControlMessage.deserialize q2Eof.payload).map ControlMessage.expectedTotal = .ok q2.length
  accountsEof_read : IsMessage .eof clientId accountsEof ∧
    (ControlMessage.deserialize accountsEof.payload).map ControlMessage.expectedTotal =
    .ok accounts.length
  banks : (q2.map fun e => e.2.bankId).Nodup
  keys : ((q2.map fun e => keyOf .q2 e.1) ++ [keyOf .q2 q2Eof] ++
    (accounts.map fun e => keyOf .accounts e.1) ++ [keyOf .accounts accountsEof]).Nodup
  clientId_lt : clientId < 256 ^ 16

namespace Session

variable {clientId : Nat} (sess : Session cfg clientId)

/-- The messages, as they are delivered. -/
def inputs : List (JoinerQueue × Addressed) :=
  (sess.q2.map fun e => (.q2, e.1)) ++ [(.q2, sess.q2Eof)] ++
    (sess.accounts.map fun e => (.accounts, e.1)) ++ [(.accounts, sess.accountsEof)]

/-- The inputs and changes that the messages are. -/
def entries : List (InputKey × JoinerChange) :=
  (sess.q2.map fun e => (keyOf .q2 e.1, .q2Data clientId (Base64.encode e.1.payload))) ++
    [(keyOf .q2 sess.q2Eof, .q2Eof clientId sess.q2.length)] ++
    (sess.accounts.map fun e => (keyOf .accounts e.1, .accountsData clientId e.2)) ++
    [(keyOf .accounts sess.accountsEof, .accountsEof clientId sess.accounts.length)]

/-- A row of the join of the Q2 results with the names of their banks. -/
def Joins (row : Q2BankMaxResult) : Prop :=
  ∃ e ∈ sess.q2, ∃ batch ∈ sess.accounts, ∃ bankName, (e.2.bankId, bankName) ∈ batch.2 ∧
    row = ⟨e.2.bankId, e.2.fromAccount, bankName, e.2.amount⟩

theorem keys_entries : sess.entries.map Prod.fst = sess.inputs.map fun i => keyOf i.1 i.2 := by
  simp [entries, inputs, Function.comp_def]

theorem nodup_keys : (sess.entries.map Prod.fst).Nodup := by
  rw [keys_entries]
  simpa [inputs, Function.comp_def] using sess.keys

theorem nodup_entries : sess.entries.Nodup := sess.nodup_keys.of_map

theorem clientId_of_mem {i : JoinerQueue × Addressed} (h : i ∈ sess.inputs) :
    (keyOf i.1 i.2).clientId = clientId := by
  simp only [inputs, List.mem_append, List.mem_map, List.mem_singleton] at h
  rcases h with ((⟨e, he, rfl⟩ | rfl) | ⟨e, he, rfl⟩) | rfl
  · exact (sess.q2_read e he).1.2
  · exact sess.q2Eof_read.1.2
  · exact (sess.accounts_read e he).1.2
  · exact sess.accountsEof_read.1.2

/-- What a delivered message of the client is handled as. -/
theorem callFor_of_mem {queue : JoinerQueue} {m : Addressed} (h : (queue, m) ∈ sess.inputs) :
    ∃ change, (keyOf queue m, change) ∈ sess.entries ∧
      callFor cfg queue m = .ok (keyOf queue m, changeOutputsFor cfg clientId change) := by
  simp only [inputs, List.mem_append, List.mem_map, List.mem_singleton, Prod.mk.injEq] at h
  rcases h with ((⟨e, he, rfl, rfl⟩ | ⟨rfl, rfl⟩) | ⟨e, he, rfl, rfl⟩) | ⟨rfl, rfl⟩
  · obtain ⟨⟨htype, hclient⟩, -⟩ := sess.q2_read e he
    refine ⟨.q2Data clientId (Base64.encode e.1.payload), ?_, ?_⟩
    · simp only [entries, List.mem_append, List.mem_map]
      exact .inl (.inl (.inl ⟨e, he, rfl⟩))
    · simp only [callFor, htype, hclient, MessageType.ofNat?_toNat, keyOf]
      rfl
  · obtain ⟨⟨htype, hclient⟩, hread⟩ := sess.q2Eof_read
    obtain ⟨control, hcontrol, htotal⟩ := Except.ok_of_map hread
    refine ⟨.q2Eof clientId sess.q2.length, ?_, ?_⟩
    · simp [entries]
    · simp only [callFor, htype, hclient, MessageType.ofNat?_toNat, keyOf, hcontrol, htotal,
        Except.ok_bind]
      rfl
  · obtain ⟨⟨htype, hclient⟩, hread⟩ := sess.accounts_read e he
    refine ⟨.accountsData clientId e.2, ?_, ?_⟩
    · simp only [entries, List.mem_append, List.mem_map]
      exact .inl (.inr ⟨e, he, rfl⟩)
    · simp only [callFor, htype, hclient, MessageType.ofNat?_toNat, keyOf, hread, Except.ok_bind]
      rfl
  · obtain ⟨⟨htype, hclient⟩, hread⟩ := sess.accountsEof_read
    obtain ⟨control, hcontrol, htotal⟩ := Except.ok_of_map hread
    refine ⟨.accountsEof clientId sess.accounts.length, ?_, ?_⟩
    · simp [entries]
    · simp only [callFor, htype, hclient, MessageType.ofNat?_toNat, keyOf, hcontrol, htotal,
        Except.ok_bind]
      rfl

/-! ## What all messages carry -/

private theorem flatMap_none {α β : Type} (l : List α) : (l.flatMap fun _ => ([] : List β)) = [] :=
  List.flatMap_eq_nil_iff.mpr fun _ _ => rfl

theorem flatMap_partialOf :
    (sess.entries.map Prod.snd).flatMap (partialOf cfg) = sess.q2.map Prod.snd := by
  have hq2 :
      (sess.q2.flatMap fun e => (q2Partial cfg (Base64.encode e.1.payload)).toOption.toList) =
      sess.q2.map Prod.snd := by
    rw [List.map_eq_flatMap]
    refine List.flatMap_congr fun e he => ?_
    rw [(sess.q2_read e he).2]
    rfl
  simp [partialOf, entries, List.flatMap_map, hq2]

theorem flatMap_batchOf :
    (sess.entries.map Prod.snd).flatMap batchOf = sess.accounts.map Prod.snd := by
  have haccounts : (sess.accounts.flatMap fun e => [e.2]) = sess.accounts.map Prod.snd :=
    (List.map_eq_flatMap ..).symm
  simp [batchOf, entries, List.flatMap_map, flatMap_none, haccounts]

theorem flatMap_q2TotalOf : (sess.entries.map Prod.snd).flatMap q2TotalOf = [sess.q2.length] := by
  simp [q2TotalOf, entries, List.flatMap_map, flatMap_none]

theorem flatMap_accountsTotalOf :
    (sess.entries.map Prod.snd).flatMap accountsTotalOf = [sess.accounts.length] := by
  simp [accountsTotalOf, entries, List.flatMap_map, flatMap_none]

/-- Every message carries something. -/
theorem carries_of_mem {e : InputKey × JoinerChange} (h : e ∈ sess.entries) :
    partialOf cfg e.2 ≠ [] ∨ batchOf e.2 ≠ [] ∨ q2TotalOf e.2 ≠ [] ∨ accountsTotalOf e.2 ≠ [] := by
  simp only [entries, List.mem_append, List.mem_map, List.mem_singleton] at h
  rcases h with ((⟨x, hx, rfl⟩ | rfl) | ⟨x, hx, rfl⟩) | rfl
  · refine .inl ?_
    simp [partialOf, (sess.q2_read x hx).2, Except.toOption]
  · exact .inr (.inr (.inl (by simp [q2TotalOf])))
  · exact .inr (.inl (by simp [batchOf]))
  · exact .inr (.inr (.inr (by simp [accountsTotalOf])))

/-! ## Some of the messages -/

/-- Where all totals agree, the last one is any of them. -/
private theorem foldl_total {totals : List Nat} {k : Nat} (h : ∀ n ∈ totals, n = k) :
    totals.foldl (fun _ n => some n) none = if totals = [] then none else some k := by
  induction totals using List.reverseRecOn with
  | nil => rfl
  | append_singleton totals n ih =>
    rw [List.foldl_append, List.foldl_cons, List.foldl_nil, h n (by simp), if_neg (by simp)]

section part
variable {pre : List (InputKey × JoinerChange)} (hsub : ∀ e ∈ pre, e ∈ sess.entries)
  (hnodup : (pre.map Prod.fst).Nodup)
include hsub hnodup

/-- The messages that are missing make up the rest. -/
theorem perm_append_missing :
    sess.entries.Perm (pre ++ sess.entries.filter fun e => decide (e ∉ pre)) := by
  refine (List.perm_ext_iff_of_nodup sess.nodup_entries ?_).mpr fun e => ?_
  · refine List.nodup_append.mpr ⟨hnodup.of_map, sess.nodup_entries.filter _,
      fun a ha b hb he => ?_⟩
    have hnot := (List.mem_filter.mp hb).2
    simp only [decide_eq_true_eq] at hnot
    exact hnot (he ▸ ha)
  · simp only [List.mem_append, List.mem_filter, decide_eq_true_eq]
    constructor
    · intro he
      by_cases hp : e ∈ pre
      · exact .inl hp
      · exact .inr ⟨he, hp⟩
    · rintro (he | he)
      · exact hsub e he
      · exact he.1

theorem perm_of_complete (hall : ∀ e ∈ sess.entries, e ∈ pre) : pre.Perm sess.entries :=
  (List.perm_ext_iff_of_nodup hnodup.of_map sess.nodup_entries).mpr fun e => ⟨hsub e, hall e⟩

/-- Whatever the messages carry is divided between those that came and those that are missing. -/
theorem length_flatMap_missing {β : Type} (f : JoinerChange → List β) :
    ((sess.entries.map Prod.snd).flatMap f).length = ((pre.map Prod.snd).flatMap f).length +
      (((sess.entries.filter fun e => decide (e ∉ pre)).map Prod.snd).flatMap f).length := by
  have h := (((sess.perm_append_missing hsub hnodup).map Prod.snd).flatMap_right f).length_eq
  simpa using h

omit hnodup in
private theorem mem_of_mem_part {β : Type} {f : JoinerChange → List β} {b : β}
    (h : b ∈ (pre.map Prod.snd).flatMap f) : b ∈ (sess.entries.map Prod.snd).flatMap f := by
  obtain ⟨change, hc, hb⟩ := List.mem_flatMap.mp h
  obtain ⟨e, he, rfl⟩ := List.mem_map.mp hc
  exact List.mem_flatMap.mpr ⟨e.2, List.mem_map_of_mem (hsub e he), hb⟩

omit hnodup in
/-- The state is ready when the two EOFs and as many messages as they say have come. -/
private theorem ready_gathered : (gathered cfg (pre.map Prod.snd)).ready = true ↔
    (pre.map Prod.snd).flatMap q2TotalOf ≠ [] ∧ (pre.map Prod.snd).flatMap accountsTotalOf ≠ [] ∧
      sess.q2.length ≤ ((pre.map Prod.snd).flatMap (partialOf cfg)).length ∧
      sess.accounts.length ≤ ((pre.map Prod.snd).flatMap batchOf).length := by
  have hq2 : ∀ n ∈ (pre.map Prod.snd).flatMap q2TotalOf, n = sess.q2.length := fun n hn => by
    have := sess.mem_of_mem_part hsub hn
    simpa only [flatMap_q2TotalOf, List.mem_singleton] using this
  have haccounts : ∀ n ∈ (pre.map Prod.snd).flatMap accountsTotalOf, n = sess.accounts.length :=
    fun n hn => by
    have := sess.mem_of_mem_part hsub hn
    simpa only [flatMap_accountsTotalOf, List.mem_singleton] using this
  rw [gathered, foldl_absorb, JoinerClient.ready]
  simp only [foldl_total hq2, foldl_total haccounts, Nat.zero_add]
  by_cases hq : (pre.map Prod.snd).flatMap q2TotalOf = []
  · simp [hq]
  · by_cases ha : (pre.map Prod.snd).flatMap accountsTotalOf = []
    · simp [ha, hq]
    · simp [ha, hq]

/-- The state is ready exactly when every message of the client has come. -/
theorem ready_gathered_iff : (gathered cfg (pre.map Prod.snd)).ready = true ↔
    ∀ e ∈ sess.entries, e ∈ pre := by
  rw [sess.ready_gathered hsub]
  have hpartials := sess.length_flatMap_missing hsub hnodup (partialOf cfg)
  have hbatches := sess.length_flatMap_missing hsub hnodup batchOf
  have hq2 := sess.length_flatMap_missing hsub hnodup q2TotalOf
  have haccounts := sess.length_flatMap_missing hsub hnodup accountsTotalOf
  rw [flatMap_partialOf, List.length_map] at hpartials
  rw [flatMap_batchOf, List.length_map] at hbatches
  rw [flatMap_q2TotalOf, List.length_singleton] at hq2
  rw [flatMap_accountsTotalOf, List.length_singleton] at haccounts
  simp only [← List.length_pos_iff]
  constructor
  · rintro ⟨h₁, h₂, h₃, h₄⟩ e he
    by_contra hmissing
    have hmem : e.2 ∈ (sess.entries.filter fun e => decide (e ∉ pre)).map Prod.snd :=
      List.mem_map_of_mem (List.mem_filter.mpr ⟨he, by simpa using hmissing⟩)
    have hnone : ∀ {β : Type} (f : JoinerChange → List β), f e.2 ≠ [] →
        0 < (((sess.entries.filter fun e => decide (e ∉ pre)).map Prod.snd).flatMap f).length :=
      fun f hf => List.length_pos_iff.mpr fun h => hf (List.flatMap_eq_nil_iff.mp h _ hmem)
    rcases sess.carries_of_mem he with hc | hc | hc | hc
    all_goals
      have := hnone _ hc
      omega
  · intro hall
    have hmissing : (sess.entries.filter fun e => decide (e ∉ pre)) = [] := by
      simp only [List.filter_eq_nil_iff, decide_eq_true_eq, not_not]
      exact hall
    simp only [hmissing, List.map_nil, List.flatMap_nil, List.length_nil]
      at hpartials hbatches hq2 haccounts
    omega

/-- With all messages the rows are those of the join, each once. -/
theorem resultRows_gathered (hall : ∀ e ∈ sess.entries, e ∈ pre) :
    (resultRows (gathered cfg (pre.map Prod.snd))).Nodup ∧
      ∀ row, row ∈ resultRows (gathered cfg (pre.map Prod.snd)) ↔ sess.Joins row := by
  have hperm := (sess.perm_of_complete hsub hnodup hall).map Prod.snd
  have hpartials := hperm.flatMap_right (partialOf cfg)
  have hbatches := hperm.flatMap_right batchOf
  rw [flatMap_partialOf] at hpartials
  rw [flatMap_batchOf] at hbatches
  have hbanks :
      (((pre.map Prod.snd).flatMap (partialOf cfg)).map Q2BankMaxPartial.bankId).Nodup := by
    rw [(hpartials.map Q2BankMaxPartial.bankId).nodup_iff, List.map_map]
    exact sess.banks
  have hrows : resultRows (gathered cfg (pre.map Prod.snd)) =
      ((pre.map Prod.snd).flatMap (partialOf cfg)).flatMap fun p =>
        (namesOf ((pre.map Prod.snd).flatMap batchOf).flatten p.bankId).map fun bankName =>
          ⟨p.bankId, p.fromAccount, bankName, p.amount⟩ := by
    rw [gathered, foldl_absorb]
    generalize (pre.map Prod.snd).flatMap (partialOf cfg) = ps at hbanks
    have hkeys : ((ps.map fun p => (p.bankId, p)).map Prod.fst).Nodup := by
      rw [List.map_map]
      exact hbanks
    have hdict : ps.foldl (fun d p => d.set p.bankId p) ∅ = Dict.ofList (ps.map fun p =>
        (p.bankId, p)) := by
      rw [Dict.ofList, List.foldl_map]
    simp only [resultRows, hdict, Dict.entries_ofList hkeys, List.flatMap_map, namesOf]
  rw [hrows]
  constructor
  · refine List.nodup_flatMap.mpr ⟨fun p _ => ?_, ?_⟩
    · exact (nodup_namesOf _ _).map fun a b h => congrArg Q2BankMaxResult.bankName h
    · refine (List.pairwise_map.mp hbanks).imp fun {p q} hne => ?_
      intro row hp hq
      obtain ⟨_, -, rfl⟩ := List.mem_map.mp hp
      obtain ⟨_, -, he⟩ := List.mem_map.mp hq
      exact hne (congrArg Q2BankMaxResult.bankId he).symm
  · intro row
    simp only [List.mem_flatMap (l := List.flatMap _ _), hpartials.mem_iff,
      List.mem_map, mem_namesOf, List.mem_flatten, hbatches.mem_iff, Joins]
    constructor
    · rintro ⟨_, ⟨e, he, rfl⟩, bankName, ⟨_, ⟨batch, hb, rfl⟩, hm⟩, rfl⟩
      exact ⟨e, he, batch, hb, bankName, hm, rfl⟩
    · rintro ⟨e, he, batch, hb, bankName, hm, rfl⟩
      exact ⟨e.2, ⟨e, he, rfl⟩, bankName, ⟨batch.2, ⟨batch, hb, rfl⟩, hm⟩, rfl⟩

end part

end Session

/-! ## One message -/

/-- The client a change is about. -/
def clientOf : JoinerChange → Nat
  | .q2Data clientId _ | .q2Eof clientId _ | .accountsData clientId _ | .accountsEof clientId _
  | .close clientId => clientId

section message
variable {s : BankNameJoinerState} {clientId : Nat} {change : JoinerChange}

/-- The copy that readiness is decided on is what the change would make of the state. -/
theorem prospectiveState_of_mem (sess : Session cfg clientId) {key : InputKey}
    (h : (key, change) ∈ sess.entries) :
    prospectiveState cfg s clientId change = .ok (absorb cfg (stateFor s clientId) change) ∧
      clientOf change = clientId ∧ ∀ c, change ≠ .close c := by
  simp only [Session.entries, List.mem_append, List.mem_map, List.mem_singleton, Prod.mk.injEq] at h
  rcases h with ((⟨e, he, -, rfl⟩ | ⟨-, rfl⟩) | ⟨e, he, -, rfl⟩) | ⟨-, rfl⟩
  · rw [prospectiveState, absorb, (sess.q2_read e he).2]
    exact ⟨rfl, rfl, by rintro _ ⟨⟩⟩
  all_goals exact ⟨rfl, rfl, by rintro _ ⟨⟩⟩

/-- Skipping the check changes nothing: a `DATA` message cannot complete totals that are not
known. -/
theorem changeOutputsFor_eq {prospective : JoinerClient}
    (h : prospectiveState cfg s clientId change = .ok prospective)
    (ha : prospective = absorb cfg (stateFor s clientId) change) :
    changeOutputsFor cfg clientId change s =
      if prospective.ready then do return (.close clientId,
        ← buildResultOutputs cfg prospective clientId)
      else .ok (change, []) := by
  have hwaiting : isData change = true → awaitsTotals s clientId = true →
      prospective.ready = false := by
    intro hdata hw
    have htotals : (stateFor s clientId).q2ExpectedTotal = none ∨
        (stateFor s clientId).accountsExpectedTotal = none := by
      rw [stateFor, Dict.getD]
      cases hget : s.states.get? clientId with
      | none => exact .inl rfl
      | some current => simpa [awaitsTotals, hget] using hw
    have hkeep : prospective.q2ExpectedTotal = (stateFor s clientId).q2ExpectedTotal ∧
        prospective.accountsExpectedTotal = (stateFor s clientId).accountsExpectedTotal := by
      rw [ha]
      cases change with
      | q2Data c payload =>
        rw [absorb]
        cases q2Partial cfg payload <;> exact ⟨rfl, rfl⟩
      | accountsData c mappings => exact ⟨rfl, rfl⟩
      | _ => cases hdata
    rw [JoinerClient.ready, hkeep.1, hkeep.2]
    rcases htotals with h | h
    · rw [h]
    · rw [h]
      cases (stateFor s clientId).q2ExpectedTotal <;> rfl
  rw [changeOutputsFor, h, Except.ok_bind]
  by_cases hready : prospective.ready = true
  · rw [if_pos hready, if_neg, if_neg (by simp [hready])]
    intro hskip
    rw [Bool.and_eq_true] at hskip
    rw [hwaiting hskip.1 hskip.2] at hready
    cases hready
  · rw [if_neg hready]
    split_ifs with hskip hnot
    · rfl
    · rfl
    · simp [hready] at hnot

/-- A change of an open client. -/
theorem stateFor_changed (cfg : BankNameJoinerConfig) (hopen : clientId ∉ s.closedByClient)
    (hc : clientOf change = clientId) (hclose : ∀ c, change ≠ .close c) :
    stateFor (changed cfg s change) clientId = absorb cfg (stateFor s clientId) change ∧
      clientId ∉ (changed cfg s change).closedByClient := by
  subst hc
  cases change with
  | q2Data c payload =>
    simp only [clientOf] at hopen ⊢
    rw [changed, applyChange, absorb, if_neg hopen]
    cases q2Partial cfg payload with
    | error e => exact ⟨rfl, hopen⟩
    | ok p => simp [Except.ok_bind, Except.toOption, pure, Except.pure, updateOpen, hopen,
        stateFor, Dict.getD_set]
  | close c => exact absurd rfl (hclose c)
  | _ =>
    simp only [clientOf] at hopen ⊢
    simp [changed, applyChange, Except.toOption, absorb, updateOpen, hopen, stateFor, Dict.getD_set]

/-- A change of another client. -/
theorem stateFor_changed_of_ne (cfg : BankNameJoinerConfig) (s : BankNameJoinerState)
    (hc : clientOf change ≠ clientId) :
    stateFor (changed cfg s change) clientId = stateFor s clientId ∧
      (clientId ∈ (changed cfg s change).closedByClient ↔ clientId ∈ s.closedByClient) := by
  have hupdate : ∀ c f, c ≠ clientId → stateFor (updateOpen s c f) clientId = stateFor s clientId ∧
      (clientId ∈ (updateOpen s c f).closedByClient ↔ clientId ∈ s.closedByClient) := by
    intro c f hne
    rw [updateOpen]
    split_ifs
    · exact ⟨rfl, Iff.rfl⟩
    · simp [stateFor, Dict.getD_set, hne]
  cases change with
  | q2Data c payload =>
    rw [changed, applyChange]
    by_cases hclosed : c ∈ s.closedByClient
    · rw [if_pos hclosed]
      exact ⟨rfl, Iff.rfl⟩
    · rw [if_neg hclosed]
      cases q2Partial cfg payload with
      | error e => exact ⟨rfl, Iff.rfl⟩
      | ok p => exact hupdate c (fun state => addQ2Result state p) hc
  | close c =>
    have hne : clientId ≠ c := fun h => hc h.symm
    simp [changed, applyChange, Except.toOption, stateFor, Dict.getD_erase, hne]
  | _ =>
    simp only [changed, applyChange, Except.toOption, Option.getD_some]
    exact hupdate _ _ hc

/-- Whatever is recorded for an input is about its client. -/
theorem clientOf_changeOutputsFor {result : JoinerChange × List LogicalOutput}
    (h : changeOutputsFor cfg clientId change s = .ok result) (hc : clientOf change = clientId) :
    clientOf result.1 = clientId := by
  rw [changeOutputsFor] at h
  split_ifs at h
  · cases h
    exact hc
  · obtain ⟨prospective, -, h⟩ := Except.ok_of_bind h
    split_ifs at h
    · cases h
      exact hc
    · obtain ⟨outputs, -, h⟩ := Except.ok_of_bind h
      cases h
      rfl

/-- One more message of the client. -/
theorem Session.extend (sess : Session cfg clientId) {pre : List (InputKey × JoinerChange)}
    {key : InputKey} (hsub : ∀ e ∈ pre, e ∈ sess.entries) (hnodup : (pre.map Prod.fst).Nodup)
    (hmem : (key, change) ∈ sess.entries) (hnew : key ∉ pre.map Prod.fst) :
    (∀ e ∈ pre ++ [(key, change)], e ∈ sess.entries) ∧
    ((pre ++ [(key, change)]).map Prod.fst).Nodup := by
  constructor
  · intro e he
    rcases List.mem_append.mp he with he | he
    · exact hsub e he
    · exact List.mem_singleton.mp he ▸ hmem
  · rw [List.map_append]
    refine List.nodup_append.mpr ⟨hnodup, List.nodup_singleton _, fun a ha b hb he => ?_⟩
    rw [he, List.mem_singleton.mp hb] at ha
    exact hnew ha

theorem absorb_gathered {pre : List (InputKey × JoinerChange)} (key : InputKey)
    (change : JoinerChange) (hstate : stateFor s clientId = gathered cfg (pre.map Prod.snd)) :
    absorb cfg (stateFor s clientId) change =
      gathered cfg ((pre ++ [(key, change)]).map Prod.snd) := by
  rw [hstate, gathered, gathered, List.map_append, List.foldl_append]
  rfl

/-- What a message of the client is answered with, by the messages gathered with it. -/
theorem changeOutputsFor_of_gathered {sess : Session cfg clientId}
    {pre : List (InputKey × JoinerChange)} {key : InputKey} (hmem : (key, change) ∈ sess.entries)
    (hstate : stateFor s clientId = gathered cfg (pre.map Prod.snd)) :
    changeOutputsFor cfg clientId change s =
      if (gathered cfg ((pre ++ [(key, change)]).map Prod.snd)).ready then do
        return (.close clientId,
          ← buildResultOutputs cfg (gathered cfg ((pre ++ [(key, change)]).map Prod.snd)) clientId)
      else .ok (change, []) := by
  obtain ⟨hprospective, -, -⟩ := prospectiveState_of_mem (s := s) sess hmem
  rw [changeOutputsFor_eq hprospective rfl, absorb_gathered key change hstate]

end message

/-! ## A run -/

/-- The inputs of a client that a history applies, with the outputs they were stamped with. -/
def clientRecords (clientId : Nat) (history : List (WalRecord JoinerChange)) :
    List (InputKey × List OutboxEntry) :=
  history.filterMap fun
    | .inputApplied _ key _ outputs => if key.clientId = clientId then some (key, outputs) else none
    | .inputDone _ _ => none

/-- What is emitted for a client: the rows of its join, each once, numbered from `0`, and then an
EOF with their number. -/
def Session.Emits {clientId : Nat} (sess : Session cfg clientId) (outputs : List OutboxEntry) :
    Prop :=
  ∃ (rows : List Q2BankMaxResult) (packets : List Bytes) (eof : Bytes), rows.Nodup ∧
  (∀ row, row ∈ rows ↔ sess.Joins row) ∧
    rows.zipIdx.mapM (rowPacket cfg clientId) = .ok packets ∧
    eofPacket cfg clientId rows.length = .ok eof ∧
    outputs.map OutboxEntry.body = packets ++ [eof] ∧ ∀ entry ∈ outputs, entry.destination =
    cfg.outputQueue

/-- How far a client is: some messages are missing, the others are gathered and nothing was emitted;
or the last one has come, and it alone emitted. -/
inductive Progress {clientId : Nat} (sess : Session cfg clientId)
    (history : List (WalRecord JoinerChange)) (s : BankNameJoinerState) : Prop
  | gathering (pre : List (InputKey × JoinerChange)) (hsub : ∀ e ∈ pre, e ∈ sess.entries)
      (hnodup : (pre.map Prod.fst).Nodup) (hmissing : ¬ ∀ e ∈ sess.entries, e ∈ pre)
      (hrecords : clientRecords clientId history = pre.map fun e => (e.1, []))
      (hopen : clientId ∉ s.closedByClient)
      (hstate : stateFor s clientId = gathered cfg (pre.map Prod.snd))
  | emitted (pre : List (InputKey × JoinerChange)) (last : InputKey × JoinerChange)
      (outputs : List OutboxEntry) (hlast : last ∈ sess.entries) (hnew : last.1 ∉ pre.map Prod.fst)
      (hall : ∀ e ∈ sess.entries, e.1 ∈ pre.map Prod.fst ∨ e = last)
      (hrecords : clientRecords clientId history = (pre.map fun e => (e.1, [])) ++
        [(last.1, outputs)])
      (hemits : sess.Emits outputs)

section progress
variable {clientId : Nat} {sess : Session cfg clientId} {history : List (WalRecord JoinerChange)}
  {s : BankNameJoinerState}

theorem progress_nil (sess : Session cfg clientId) : Progress sess [] {} := by
  refine .gathering [] (by simp) (by simp) (fun h => ?_) rfl (by simp) rfl
  have hmem : (keyOf .q2 sess.q2Eof, .q2Eof clientId sess.q2.length) ∈ sess.entries := by
    simp [Session.entries]
  exact absurd (h _ hmem) List.not_mem_nil

/-- The entries of a client's emission. -/
theorem emits_of_buildResultOutputs {pre : List (InputKey × JoinerChange)}
    (hsub : ∀ e ∈ pre, e ∈ sess.entries)
    (hnodup : (pre.map Prod.fst).Nodup) (hall : ∀ e ∈ sess.entries, e ∈ pre)
    {logical : List LogicalOutput}
    (hbuild : buildResultOutputs cfg (gathered cfg (pre.map Prod.snd)) clientId = .ok logical)
    {q : SenderSequencer} {inputId : String} {outputs : List OutboxEntry}
    (hstamp : q.stamp (handler cfg).toSequencerConfig clientId inputId logical = .ok outputs) :
    sess.Emits outputs := by
  obtain ⟨hrows, hmem⟩ := sess.resultRows_gathered hsub hnodup hall
  obtain ⟨packets, hpackets, h⟩ := Except.ok_of_bind hbuild
  obtain ⟨eof, heof, h⟩ := Except.ok_of_bind h
  cases h
  have hstamped := SenderSequencer.forall₂_of_stamp hstamp
  refine ⟨_, packets, eof, hrows, hmem, hpackets, heof, ?_, fun entry he => ?_⟩
  · have hbodies : ∀ {logical : List LogicalOutput} {outputs : List OutboxEntry},
        List.Forall₂ (SenderSequencer.StampedAs (handler cfg).toSequencerConfig clientId)
          logical outputs →
        outputs.map OutboxEntry.body = logical.map LogicalOutput.body := by
      intro logical outputs h
      induction h with
      | nil => rfl
      | cons hs _ ih => rw [List.map_cons, List.map_cons, ih, (hs.plain rfl).1]
    rw [hbodies hstamped, List.map_map]
    exact List.map_id _
  · obtain ⟨output, hout, hs⟩ := hstamped.exists_left he
    obtain ⟨body, -, rfl⟩ := List.mem_map.mp hout
    exact hs.destination

theorem clientRecords_append (history more : List (WalRecord JoinerChange)) :
    clientRecords clientId (history ++ more) = clientRecords clientId history ++
      clientRecords clientId more :=
  List.filterMap_append

/-- A record that is not about the client. -/
theorem Progress.append_silent (h : Progress sess history s) {s' : BankNameJoinerState}
    {record : WalRecord JoinerChange} (hr : clientRecords clientId [record] = [])
    (hs : stateFor s' clientId = stateFor s clientId)
    (hc : clientId ∈ s'.closedByClient ↔ clientId ∈ s.closedByClient) :
    Progress sess (history ++ [record]) s' := by
  have hrecords : clientRecords clientId (history ++ [record]) =
      clientRecords clientId history := by
    rw [clientRecords_append, hr, List.append_nil]
  cases h with
  | gathering pre hsub hnodup hmissing hrec hopen hstate =>
    exact .gathering pre hsub hnodup hmissing (hrecords.trans hrec) (fun h => hopen (hc.mp h))
      (hs.trans hstate)
  | emitted pre last outputs hlast hnew hall hrec hemits =>
    exact .emitted pre last outputs hlast hnew hall (hrecords.trans hrec) hemits

/-- A message of the client that is applied for the first time. -/
theorem Progress.append_applied (h : Progress sess history s) {key : InputKey}
    {change change' : JoinerChange}
    {logical : List LogicalOutput} {q : SenderSequencer} {m : String} {outputs : List OutboxEntry}
    (hmem : (key, change) ∈ sess.entries) (hclient : key.clientId = clientId)
    (hfirst : key ∉ (clientRecords clientId history).map Prod.fst)
    (hresult : changeOutputsFor cfg clientId change s = .ok (change', logical))
    (hstamp : q.stamp (handler cfg).toSequencerConfig clientId m logical = .ok outputs) :
    Progress sess (history ++ [.inputApplied m key change' outputs]) (changed cfg s change') := by
  have hrecord : clientRecords clientId [WalRecord.inputApplied m key change' outputs] =
      [(key, outputs)] := by
    simp [clientRecords, hclient]
  cases h with
  | emitted pre last outputs' hlast hnew hall hrec hemits =>
    -- every message is recorded already
    refine absurd ?_ hfirst
    rw [hrec, List.map_append, List.map_map]
    rcases hall _ hmem with hk | hk
    · exact List.mem_append_left _ hk
    · exact List.mem_append_right _ (by simp [← hk])
  | gathering pre hsub hnodup hmissing hrec hopen hstate =>
    rw [hrec, List.map_map] at hfirst
    have hnew : key ∉ pre.map Prod.fst := hfirst
    obtain ⟨hsub', hnodup'⟩ := sess.extend hsub hnodup hmem hnew
    obtain ⟨-, hof, hclose⟩ := prospectiveState_of_mem (s := s) sess hmem
    have hgathered := absorb_gathered key change hstate
    rw [changeOutputsFor_of_gathered hmem hstate] at hresult
    have hready := sess.ready_gathered_iff hsub' hnodup'
    split_ifs at hresult with hr
    · obtain ⟨logical', hbuild, hresult⟩ := Except.ok_of_bind hresult
      cases hresult
      have hall := hready.mp hr
      refine .emitted pre (key, change) outputs hmem hnew (fun e he => ?_) ?_
        (emits_of_buildResultOutputs hsub' hnodup' hall hbuild hstamp)
      · rcases List.mem_append.mp (hall e he) with he | he
        · exact .inl (List.mem_map_of_mem he)
        · exact .inr (List.mem_singleton.mp he)
      · rw [clientRecords_append, hrec, hrecord]
    · cases hresult
      cases hstamp
      obtain ⟨hstate', hopen'⟩ := stateFor_changed cfg hopen hof hclose
      refine .gathering (pre ++ [(key, change)]) hsub' hnodup' (fun hall =>
        hr (hready.mpr hall)) ?_ hopen'
        (hstate'.trans hgathered)
      rw [clientRecords_append, hrec, hrecord, List.map_append]
      rfl

end progress

end BankNameJoiner

end MoneyLaundering
