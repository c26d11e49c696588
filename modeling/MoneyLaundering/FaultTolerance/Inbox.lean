import Mathlib.Data.Finset.Sort
import Mathlib.Data.Prod.Lex
import Mathlib.Order.Interval.Finset.Nat
import MoneyLaundering.Lib.Dict
import MoneyLaundering.Lib.Text

/-!
# Input deduplication

The deduplication tracker of one `(client, kind, sender)` key and the inbox that classifies every
incoming message as `NEW`, `APPLIED` or `DONE` (`inbox/deduplication_tracker.py`,
`inbox/inbox.py`, `inbox/msg_kind.py`).

The tracker compresses the set of finished sequence numbers into a high-water mark and the gaps
below it. `DeduplicationTracker.isDuplicate_observeAll` says exactly which numbers it reports:
those observed, and `0`, which is at or below the initial mark and never a gap.
-/

namespace MoneyLaundering

/-- `MsgKind`: the stream a message belongs to. -/
inductive MsgKind where
  | data | ctrlFlushOrder | ctrlFlushAck | ctrlUpstreamEof | ctrlEofReceived
  | ctrlProcessedAnswer | q3Averages | q3Candidates | abort
  deriving DecidableEq, Repr

namespace MsgKind

/-- `int(kind)`. -/
def toNat : MsgKind → Nat
  | data => 0
  | ctrlFlushOrder => 1
  | ctrlFlushAck => 2
  | ctrlUpstreamEof => 3
  | ctrlEofReceived => 4
  | ctrlProcessedAnswer => 5
  | q3Averages => 6
  | q3Candidates => 7
  | abort => 8

/-- `MsgKind(value)`, `none` when the value is not a member. -/
def ofNat? : Nat → Option MsgKind
  | 0 => some data
  | 1 => some ctrlFlushOrder
  | 2 => some ctrlFlushAck
  | 3 => some ctrlUpstreamEof
  | 4 => some ctrlEofReceived
  | 5 => some ctrlProcessedAnswer
  | 6 => some q3Averages
  | 7 => some q3Candidates
  | 8 => some abort
  | _ => none

@[simp] theorem ofNat?_toNat (kind : MsgKind) : ofNat? kind.toNat = some kind := by
  cases kind <;> rfl

theorem toNat_injective : Function.Injective toNat := fun a b h =>
  Option.some.inj ((ofNat?_toNat a).symm.trans (h ▸ ofNat?_toNat b))

@[simp] theorem toNat_inj {a b : MsgKind} : a.toNat = b.toNat ↔ a = b := toNat_injective.eq_iff

theorem toNat_lt (kind : MsgKind) : kind.toNat < 9 := by cases kind <;> decide

end MsgKind

/-- `InboxStatus`. -/
inductive InboxStatus where
  | new | applied | done
  deriving DecidableEq, Repr

/-! ## The tracker -/

/-- `_MAX_SEQUENTIAL_GAP`. -/
def maxSequentialGap : Nat := 65536

/-- `DeduplicationTracker`: the highest sequence number seen and the gaps below it. -/
structure DeduplicationTracker where
  biggest : Nat := 0
  pending : Finset Nat := ∅
  deriving DecidableEq

namespace DeduplicationTracker

def isDuplicate (t : DeduplicationTracker) (seq : Nat) : Bool :=
  decide (seq ≤ t.biggest) && decide (seq ∉ t.pending)

def observe (t : DeduplicationTracker) (seq : Nat) : DeduplicationTracker :=
  if t.biggest < seq then
    { biggest := seq
      pending :=
        -- past the cap the gap is not recorded
        if seq - t.biggest - 1 ≤ maxSequentialGap then
          t.pending ∪ Finset.Ico (t.biggest + 1) seq
        else t.pending }
  else
    { t with pending := t.pending.erase seq }

/-- Observing a whole sequence. -/
def observeAll (t : DeduplicationTracker) (seqs : List Nat) : DeduplicationTracker :=
  seqs.foldl observe t

/-- The persisted form of a tracker. -/
structure Dump where
  biggest : Nat
  pending : List Nat
  deriving DecidableEq

def toDict (t : DeduplicationTracker) : Dump where
  biggest := t.biggest
  pending := t.pending.sort (· ≤ ·)

def fromDict (data : Dump) : DeduplicationTracker where
  biggest := data.biggest
  pending := data.pending.toFinset

@[simp] theorem fromDict_toDict (t : DeduplicationTracker) : fromDict t.toDict = t := by
  simp [fromDict, toDict]

@[simp] theorem isDuplicate_iff {t : DeduplicationTracker} {seq : Nat} :
    t.isDuplicate seq = true ↔ seq ≤ t.biggest ∧ seq ∉ t.pending := by simp [isDuplicate]

/-- Every gap lies strictly between `0` and the mark. -/
def WF (t : DeduplicationTracker) : Prop := ∀ q ∈ t.pending, 0 < q ∧ q < t.biggest

theorem wf_default : WF {} := by simp [WF]

theorem WF.observe {t : DeduplicationTracker} (h : t.WF) (seq : Nat) : (t.observe seq).WF := by
  intro q hq
  unfold DeduplicationTracker.observe at hq ⊢
  split at hq
  · next hlt =>
    simp only [if_pos hlt]
    split at hq
    · rcases Finset.mem_union.mp hq with hq | hq
      · have := h q hq; omega
      · have := Finset.mem_Ico.mp hq; omega
    · have := h q hq; omega
  · next hlt =>
    simp only [if_neg hlt]
    exact h q (Finset.mem_of_mem_erase hq)

/-- An observed number is a duplicate from then on. -/
theorem isDuplicate_observe_self {t : DeduplicationTracker} (h : t.WF) (seq : Nat) :
    (t.observe seq).isDuplicate seq = true := by
  rw [isDuplicate_iff, observe]
  split
  · next hlt =>
    refine ⟨le_rfl, ?_⟩
    split
    · rw [Finset.mem_union, Finset.mem_Ico]
      rintro (hq | hq)
      · have := h seq hq; omega
      · omega
    · intro hq; have := h seq hq; omega
  · next hlt => exact ⟨by simpa using hlt, by simp⟩

/-- Duplicates stay duplicates, whatever is observed next. -/
theorem isDuplicate_observe_of {t : DeduplicationTracker} {q : Nat} (h : t.isDuplicate q = true)
    (seq : Nat) : (t.observe seq).isDuplicate q = true := by
  rw [isDuplicate_iff] at h ⊢
  rw [observe]
  split
  · next hlt =>
    refine ⟨by simp only; omega, ?_⟩
    split
    · rw [Finset.mem_union, Finset.mem_Ico]
      rintro (hq | hq)
      · exact h.2 hq
      · omega
    · exact h.2
  · exact ⟨h.1, fun hq => h.2 (Finset.mem_of_mem_erase hq)⟩

/-- Observing a duplicate changes nothing. -/
theorem observe_of_isDuplicate {t : DeduplicationTracker} {seq : Nat}
    (h : t.isDuplicate seq = true) : t.observe seq = t := by
  rw [isDuplicate_iff] at h
  rw [observe, if_neg (by omega), Finset.erase_eq_of_notMem h.2]

/-- One observation within the cap makes exactly one number a duplicate. -/
theorem isDuplicate_observe_iff {t : DeduplicationTracker} (h : t.WF) {seq q : Nat}
    (hgap : seq - t.biggest - 1 ≤ maxSequentialGap) :
    (t.observe seq).isDuplicate q = true ↔ t.isDuplicate q = true ∨ q = seq := by
  constructor
  · intro hq
    rw [isDuplicate_iff] at hq ⊢
    rw [observe] at hq
    split at hq
    · next hlt =>
      obtain ⟨hle, hnot⟩ := hq
      simp only at hle
      simp only [Finset.mem_union, Finset.mem_Ico, not_or] at hnot
      by_cases hqs : q = seq
      · exact .inr hqs
      · exact .inl ⟨by omega, hnot.1⟩
    · obtain ⟨hle, hnot⟩ := hq
      by_cases hqs : q = seq
      · exact .inr hqs
      · exact .inl ⟨hle, fun hm => hnot (Finset.mem_erase.mpr ⟨hqs, hm⟩)⟩
  · rintro (hq | rfl)
    · exact isDuplicate_observe_of hq seq
    · exact isDuplicate_observe_self h q

/-- The mark is the maximum of what was observed. -/
@[simp] theorem biggest_observe (t : DeduplicationTracker) (seq : Nat) :
    (t.observe seq).biggest = max t.biggest seq := by
  rw [observe]
  split
  · next h => rw [max_eq_right h.le]
  · next h => rw [max_eq_left (by omega)]

end DeduplicationTracker

/-- Starting from the maximum `m`, no number of the sequence skips more than the cap. -/
def JumpsBounded (m : Nat) : List Nat → Prop
  | [] => True
  | q :: seqs => q - m - 1 ≤ maxSequentialGap ∧ JumpsBounded (max m q) seqs

instance decidableJumpsBounded : (m : Nat) → (seqs : List Nat) → Decidable (JumpsBounded m seqs)
  | _, [] => inferInstanceAs (Decidable True)
  | m, q :: seqs =>
    have := decidableJumpsBounded (max m q) seqs
    inferInstanceAs (Decidable (_ ∧ _))

namespace DeduplicationTracker

theorem observeAll_concat (t : DeduplicationTracker) (seqs : List Nat) (seq : Nat) :
    t.observeAll (seqs ++ [seq]) = (t.observeAll seqs).observe seq := List.foldl_append

/-- What the tracker reports after any sequence within the cap: what it reported before, and
the numbers of the sequence. -/
theorem isDuplicate_observeAll {t : DeduplicationTracker} (h : t.WF) {seqs : List Nat}
    (hj : JumpsBounded t.biggest seqs) {q : Nat} :
    (t.observeAll seqs).isDuplicate q = true ↔ t.isDuplicate q = true ∨ q ∈ seqs := by
  induction seqs generalizing t with
  | nil => simp [DeduplicationTracker.observeAll]
  | cons seq seqs ih =>
    have hj' : JumpsBounded (t.observe seq).biggest seqs := by simpa using hj.2
    rw [DeduplicationTracker.observeAll, List.foldl_cons]
    refine (ih (h.observe seq) hj').trans ?_
    rw [isDuplicate_observe_iff h hj.1, List.mem_cons, or_assoc]

/-- A fresh tracker reports `0` only. -/
theorem isDuplicate_default_iff {q : Nat} : isDuplicate {} q = true ↔ q = 0 := by simp

end DeduplicationTracker

/-! ## The inbox -/

/-- The deduplication key of an input: `(client_id, kind, sender_id, seq)`. -/
structure InputKey where
  clientId : Nat
  kind : MsgKind
  senderId : Nat
  seq : Nat
  deriving DecidableEq, Repr

/-- `(int(kind), sender_id, seq)`, ordered as a Python tuple. -/
abbrev Triple := Nat ×ₗ Nat ×ₗ Nat

def InputKey.triple (key : InputKey) : Triple :=
  toLex (key.kind.toNat, toLex (key.senderId, key.seq))

/-- `(int(kind), sender_id)`: the tracker of a key within its client. -/
def InputKey.channel (key : InputKey) : Nat × Nat := (key.kind.toNat, key.senderId)

theorem InputKey.kind_of_channel {a b : InputKey} (h : a.channel = b.channel) : a.kind = b.kind :=
  MsgKind.toNat_injective (Prod.mk.inj h).1

theorem InputKey.ext_of {a b : InputKey} (hc : a.clientId = b.clientId)
    (ht : a.triple = b.triple) : a = b := by
  obtain ⟨c, k, s, q⟩ := a
  obtain ⟨c', k', s', q'⟩ := b
  simp only [triple, EmbeddingLike.apply_eq_iff_eq, Prod.mk.injEq, MsgKind.toNat_inj] at ht
  obtain ⟨rfl, rfl, rfl⟩ := ht
  cases hc
  rfl

/-- `Inbox`: the inputs in flight and the trackers of the finished ones. -/
structure Inbox where
  applied : Dict Nat (Finset Triple) := ∅
  done : Dict Nat (Dict (Nat × Nat) DeduplicationTracker) := ∅
  deriving DecidableEq

namespace Inbox

/-- `self._done.get(client_id, {}).get((kind, sender_id))`. -/
def tracker? (i : Inbox) (key : InputKey) : Option DeduplicationTracker :=
  (i.done.getD key.clientId ∅).get? key.channel

def classify (i : Inbox) (key : InputKey) : InboxStatus :=
  if key.triple ∈ i.applied.getD key.clientId ∅ then .applied
  else match i.tracker? key with
    | some tracker => if tracker.isDuplicate key.seq then .done else .new
    | none => .new

def markApplied (i : Inbox) (key : InputKey) : Inbox :=
  { i with
    applied := i.applied.set key.clientId
      (insert key.triple (i.applied.getD key.clientId ∅)) }

/-- The first half of `mark_done`: leave the in-flight set, which is dropped when empty. -/
def discardApplied (applied : Dict Nat (Finset Triple)) (key : InputKey) :
    Dict Nat (Finset Triple) :=
  match applied.get? key.clientId with
  | none => applied
  | some triples =>
    if triples.erase key.triple = ∅ then applied.erase key.clientId
    else applied.set key.clientId (triples.erase key.triple)

def markDone (i : Inbox) (key : InputKey) : Inbox :=
  let senders := i.done.getD key.clientId ∅
  let tracker := senders.getD key.channel {}
  { applied := discardApplied i.applied key
    done := i.done.set key.clientId (senders.set key.channel (tracker.observe key.seq)) }

/-- The persisted form of an inbox. -/
structure Dump where
  applied : Dict Nat (List Triple) := ∅
  done : Dict Nat (Dict String DeduplicationTracker.Dump) := ∅

/-- `f"{kind_val}:{sender_id}"`. -/
def doneKey (channel : Nat × Nat) : String :=
  String.ofList (Text.ofNat channel.1 ++ ':' :: Text.ofNat channel.2)

/-- `_parse_done_key`, `none` when a part is not a number. -/
def parseDoneKey (key : String) : Option (Nat × Nat) := do
  let (kindVal, senderId) ← Text.split1 ':' key.toList
  return (← Text.toNat? kindVal, ← Text.toNat? senderId)

/-- The trackers of one client, keyed by text. -/
def sendersToDict (senders : Dict (Nat × Nat) DeduplicationTracker) :
    Dict String DeduplicationTracker.Dump :=
  .ofList (senders.entries.map fun e => (doneKey e.1, e.2.toDict))

def sendersFromDict (senders : Dict String DeduplicationTracker.Dump) :
    Option (Dict (Nat × Nat) DeduplicationTracker) :=
  (senders.entries.mapM fun e =>
    (parseDoneKey e.1).map fun channel => (channel, .fromDict e.2)).map .ofList

def toDict (i : Inbox) : Dump where
  applied := i.applied.mapVals fun triples => triples.sort (· ≤ ·)
  done := i.done.mapVals sendersToDict

def fromDict (data : Dump) : Option Inbox := do
  let done ← data.done.mapM? sendersFromDict
  return { applied := data.applied.mapVals List.toFinset, done }

@[simp] theorem parseDoneKey_doneKey (channel : Nat × Nat) :
    parseDoneKey (doneKey channel) = some channel := by
  have h : ':' ∉ Text.ofNat channel.1 := Text.not_mem_ofNat (by decide) _
  simp [parseDoneKey, doneKey, String.toList_ofList, Text.split1_append_cons h]

theorem doneKey_injective : Function.Injective doneKey := fun a b h =>
  Option.some.inj ((parseDoneKey_doneKey a).symm.trans (h ▸ parseDoneKey_doneKey b))

theorem sendersFromDict_sendersToDict (senders : Dict (Nat × Nat) DeduplicationTracker) :
    sendersFromDict (sendersToDict senders) = some senders := by
  have hn : ((senders.entries.map fun e => (doneKey e.1, e.2.toDict)).map Prod.fst).Nodup := by
    simpa [Function.comp_def] using senders.nodup.map doneKey_injective
  have hm : (senders.entries.map fun e => (doneKey e.1, e.2.toDict)).mapM (fun e =>
      (parseDoneKey e.1).map fun channel => (channel, DeduplicationTracker.fromDict e.2)) =
        some senders.entries := by
    simpa [Function.comp_def] using List.mapM_pure (m := Option) (l := senders.entries) (f := id)
  rw [sendersFromDict, sendersToDict, Dict.entries_ofList hn, hm, Option.map_some,
    Dict.ofList_entries]

/-- Persisting and restoring an inbox gives it back. -/
@[simp] theorem fromDict_toDict (i : Inbox) : fromDict i.toDict = some i := by
  have hd : (i.done.mapVals sendersToDict).mapM? sendersFromDict = some i.done :=
    Dict.mapM?_mapVals fun e _ => sendersFromDict_sendersToDict e.2
  have ha : (i.applied.mapVals fun triples => triples.sort (· ≤ ·)).mapVals List.toFinset =
      i.applied := by
    refine Dict.ext ?_
    simp [Dict.mapVals, Function.comp_def]
  simp [fromDict, toDict, hd, ha]

/-! ### What the operations do to the two halves -/

section laws
variable (i : Inbox) (key key' : InputKey)

/-- The input is in flight. -/
def InFlight : Prop := key.triple ∈ i.applied.getD key.clientId ∅

/-- The input is reported by the tracker of its channel. -/
def Reported : Prop := ∃ t, i.tracker? key = some t ∧ t.isDuplicate key.seq = true

/-- No in-flight set is empty and every tracker is well formed. -/
structure WF : Prop where
  applied : ∀ c triples, i.applied.get? c = some triples → triples.Nonempty
  done : ∀ key t, i.tracker? key = some t → t.WF

theorem classify_eq_applied_iff : i.classify key = .applied ↔ i.InFlight key := by
  unfold classify InFlight
  split
  · simp_all
  · split
    · split <;> simp_all
    · simp_all

theorem classify_eq_done_iff :
    i.classify key = .done ↔ ¬ i.InFlight key ∧ i.Reported key := by
  unfold classify InFlight Reported
  split
  · simp_all
  · next h =>
    split
    · next t ht => split <;> simp_all
    · next ht => simp_all

theorem classify_eq_new_iff :
    i.classify key = .new ↔ ¬ i.InFlight key ∧ ¬ i.Reported key := by
  unfold classify InFlight Reported
  split
  · simp_all
  · next h =>
    split
    · next t ht => split <;> simp_all
    · next ht => simp_all

theorem inFlight_markApplied :
    (i.markApplied key).InFlight key' ↔ key' = key ∨ i.InFlight key' := by
  unfold InFlight markApplied
  rw [Dict.getD_set]
  split
  · next hc =>
    rw [Finset.mem_insert, hc]
    exact or_congr_left ⟨fun ht => InputKey.ext_of hc.symm ht, fun he => he ▸ rfl⟩
  · next hc =>
    exact ⟨.inr, fun h => h.resolve_left fun he => hc (he ▸ rfl)⟩

theorem getD_discardApplied (applied : Dict Nat (Finset Triple)) (c : Nat) :
    (discardApplied applied key).getD c ∅ =
      if c = key.clientId then (applied.getD c ∅).erase key.triple else applied.getD c ∅ := by
  unfold discardApplied
  by_cases hc : c = key.clientId
  · subst hc
    cases h : applied.get? key.clientId with
    | none => simp [Dict.getD, h]
    | some triples =>
      simp only [if_true]
      split
      · next he => simp [Dict.getD, h, he]
      · simp [Dict.getD, h]
  · rw [if_neg hc]
    split
    · rfl
    · split
      · simp [Dict.getD, Dict.get?_erase, hc]
      · simp [Dict.getD, Dict.get?_set, Ne.symm hc]

theorem inFlight_markDone :
    (i.markDone key).InFlight key' ↔ key' ≠ key ∧ i.InFlight key' := by
  unfold InFlight markDone
  simp only [getD_discardApplied]
  split
  · next hc =>
    rw [Finset.mem_erase]
    exact and_congr_left fun _ => not_congr ⟨fun ht => InputKey.ext_of hc ht, fun he => he ▸ rfl⟩
  · next hc =>
    exact ⟨fun h => ⟨fun he => hc (he ▸ rfl), h⟩, fun h => h.2⟩

@[simp] theorem tracker?_markApplied : (i.markApplied key).tracker? key' = i.tracker? key' := rfl

theorem tracker?_markDone :
    (i.markDone key).tracker? key' =
      if key.clientId = key'.clientId ∧ key.channel = key'.channel then
        some (((i.tracker? key).getD {}).observe key.seq)
      else i.tracker? key' := by
  unfold tracker? markDone
  simp only [Dict.getD_set]
  by_cases hc : key.clientId = key'.clientId
  · by_cases hk : key.channel = key'.channel
    · simp [hc, hk, Dict.getD]
    · simp [hc, hk, Dict.get?_set]
  · simp [hc]

end laws

variable {i : Inbox} {key key' : InputKey}

theorem wf_default : WF {} where
  applied := by simp
  done := by simp [tracker?]

theorem WF.markApplied (h : i.WF) (key : InputKey) : (i.markApplied key).WF where
  applied c triples hc := by
    rw [Inbox.markApplied, Dict.get?_set] at hc
    split at hc
    · cases hc; exact Finset.insert_nonempty _ _
    · exact h.applied c triples hc
  done := h.done

theorem WF.markDone (h : i.WF) (key : InputKey) : (i.markDone key).WF where
  applied c triples hc := by
    simp only [Inbox.markDone, discardApplied] at hc
    split at hc
    · exact h.applied c triples hc
    · split at hc
      · rw [Dict.get?_erase] at hc
        split at hc
        · cases hc
        · exact h.applied c triples hc
      · next hne =>
        rw [Dict.get?_set] at hc
        split at hc
        · cases hc; exact Finset.nonempty_iff_ne_empty.mpr hne
        · exact h.applied c triples hc
  done k t ht := by
    rw [tracker?_markDone] at ht
    split at ht
    · cases ht
      refine DeduplicationTracker.WF.observe ?_ _
      cases hk : i.tracker? key with
      | none => exact DeduplicationTracker.wf_default
      | some t => exact h.done key t hk
    · exact h.done k t ht

theorem reported_markDone_self (h : i.WF) (key : InputKey) : (i.markDone key).Reported key := by
  refine ⟨_, by rw [tracker?_markDone, if_pos ⟨rfl, rfl⟩],
    DeduplicationTracker.isDuplicate_observe_self ?_ _⟩
  cases hk : i.tracker? key with
  | none => exact DeduplicationTracker.wf_default
  | some t => exact h.done key t hk

/-- Once reported, an input is reported for good. -/
theorem Reported.markDone (h : i.Reported key') (key : InputKey) :
    (i.markDone key).Reported key' := by
  obtain ⟨t, ht, hd⟩ := h
  by_cases hk : key.clientId = key'.clientId ∧ key.channel = key'.channel
  · have he : i.tracker? key = some t := by rw [tracker?, hk.1, hk.2]; exact ht
    refine ⟨t.observe key.seq, ?_, DeduplicationTracker.isDuplicate_observe_of hd _⟩
    rw [tracker?_markDone, if_pos hk, he, Option.getD_some]
  · exact ⟨t, by rw [tracker?_markDone, if_neg hk]; exact ht, hd⟩

/-- Finishing a finished input changes nothing. -/
theorem markDone_of_done (h : i.WF) (hd : i.classify key = .done) : i.markDone key = i := by
  obtain ⟨hnot, t, ht, hdup⟩ := (classify_eq_done_iff i key).mp hd
  have happ : discardApplied i.applied key = i.applied := by
    unfold discardApplied
    cases hc : i.applied.get? key.clientId with
    | none => rfl
    | some triples =>
      have hnm : key.triple ∉ triples := by simpa [InFlight, Dict.getD, hc] using hnot
      have hne := (h.applied _ _ hc).ne_empty
      simp only [Finset.erase_eq_of_notMem hnm, hne, if_false, Dict.set_of_get? hc]
  have hsend : ∃ senders, i.done.get? key.clientId = some senders ∧
      senders.get? key.channel = some t := by
    unfold tracker? Dict.getD at ht
    cases hc : i.done.get? key.clientId with
    | none => simp [hc] at ht
    | some senders => exact ⟨senders, rfl, by simpa [hc] using ht⟩
  obtain ⟨senders, hc, hs⟩ := hsend
  have hset : senders.set key.channel t = senders := Dict.set_of_get? hs
  unfold markDone
  simp only [happ, Dict.getD, hc, Option.getD_some, hs,
    DeduplicationTracker.observe_of_isDuplicate hdup, hset, Dict.set_of_get? hc]

/-! ### Classification along the operations -/

theorem classify_markApplied_self : (i.markApplied key).classify key = .applied :=
  (classify_eq_applied_iff _ _).mpr ((inFlight_markApplied _ _ _).mpr (.inl rfl))

theorem classify_markDone_self (h : i.WF) : (i.markDone key).classify key = .done :=
  (classify_eq_done_iff _ _).mpr
    ⟨fun hf => ((inFlight_markDone _ _ _).mp hf).1 rfl, reported_markDone_self h key⟩

theorem classify_markApplied_of_ne (hne : key' ≠ key) :
    (i.markApplied key).classify key' = i.classify key' := by
  have hf : (i.markApplied key).InFlight key' ↔ i.InFlight key' := by
    rw [inFlight_markApplied]; exact or_iff_right hne
  cases h : i.classify key' with
  | new =>
    rw [classify_eq_new_iff] at h ⊢
    exact ⟨hf.not.mpr h.1, h.2⟩
  | applied =>
    rw [classify_eq_applied_iff] at h ⊢
    exact hf.mpr h
  | done =>
    rw [classify_eq_done_iff] at h ⊢
    exact ⟨hf.not.mpr h.1, h.2⟩

/-- An input in flight stays in flight until it is finished itself. -/
theorem classify_markDone_applied (hne : key' ≠ key) (h : i.classify key' = .applied) :
    (i.markDone key).classify key' = .applied :=
  (classify_eq_applied_iff _ _).mpr
    ((inFlight_markDone _ _ _).mpr ⟨hne, (classify_eq_applied_iff _ _).mp h⟩)

/-- A finished input stays finished. -/
theorem classify_markDone_done (h : i.classify key' = .done) :
    (i.markDone key).classify key' = .done := by
  obtain ⟨hf, hr⟩ := (classify_eq_done_iff _ _).mp h
  exact (classify_eq_done_iff _ _).mpr
    ⟨fun hf' => hf ((inFlight_markDone _ _ _).mp hf').2, hr.markDone key⟩

/-! ### A whole sequence of finished messages of one channel -/

/-- `mark_done` for every sequence number of the list, on the channel of `key`. -/
def markDoneAll (i : Inbox) (key : InputKey) (seqs : List Nat) : Inbox :=
  seqs.foldl (fun i seq => i.markDone { key with seq }) i

theorem not_inFlight_markDoneAll (h : ¬ i.InFlight key') (key : InputKey) (seqs : List Nat) :
    ¬ (i.markDoneAll key seqs).InFlight key' := by
  induction seqs generalizing i with
  | nil => exact h
  | cons seq seqs ih => exact ih fun hf => h ((inFlight_markDone _ _ _).mp hf).2

/-- The calls on one channel drive its tracker and nothing else of it. -/
theorem tracker?_markDoneAll (i : Inbox) (key : InputKey) {seqs : List Nat} (hne : seqs ≠ []) :
    (i.markDoneAll key seqs).tracker? key =
      some (((i.tracker? key).getD {}).observeAll seqs) := by
  induction seqs generalizing i with
  | nil => contradiction
  | cons seq seqs ih =>
    have hstep : (i.markDone { key with seq }).tracker? key =
        some (((i.tracker? key).getD {}).observe seq) := by
      rw [tracker?_markDone, if_pos ⟨rfl, rfl⟩]; rfl
    by_cases hs : seqs = []
    · subst hs; exact hstep
    · refine (ih _ hs).trans ?_
      rw [hstep, Option.getD_some]; rfl

/-- After finishing any sequence of messages of a fresh channel, each within the cap of the
highest one before, a message of the channel is reported as finished exactly when it was, or when
it carries `0` and the channel has a tracker at all. -/
theorem classify_markDoneAll_eq_done_iff (hnew : ∀ seq, i.classify { key with seq } = .new)
    (htr : i.tracker? key = none) {seqs : List Nat} (hj : JumpsBounded 0 seqs) (seq : Nat) :
    (i.markDoneAll key seqs).classify { key with seq } = .done ↔
      seq ∈ seqs ∨ seq = 0 ∧ seqs ≠ [] := by
  have hnf : ¬ (i.markDoneAll key seqs).InFlight { key with seq } :=
    not_inFlight_markDoneAll ((classify_eq_new_iff _ _).mp (hnew seq)).1 key seqs
  rw [classify_eq_done_iff, and_iff_right hnf]
  by_cases hs : seqs = []
  · subst hs
    have : ¬ i.Reported { key with seq } := ((classify_eq_new_iff _ _).mp (hnew seq)).2
    simpa [markDoneAll] using this
  · have ht : (i.markDoneAll key seqs).tracker? { key with seq } =
        some (DeduplicationTracker.observeAll {} seqs) := by
      have := tracker?_markDoneAll i key hs
      rwa [htr, Option.getD_none] at this
    have hd : (i.markDoneAll key seqs).Reported { key with seq } ↔
        (DeduplicationTracker.observeAll {} seqs).isDuplicate seq = true := by
      unfold Reported
      rw [ht]
      simp
    rw [hd, DeduplicationTracker.isDuplicate_observeAll DeduplicationTracker.wf_default hj,
      DeduplicationTracker.isDuplicate_default_iff]
    simp [hs, or_comm]

/-- **Unseen messages.** For a channel the inbox knows nothing about, and messages finished in any
order with every jump within the cap: only finished messages are reported as finished if and only
if nothing was finished yet or the message with sequence number `0` was. -/
theorem done_only_if_marked_iff (key : InputKey) (hnew : ∀ seq, i.classify { key with seq } = .new)
    (htr : i.tracker? key = none) {seqs : List Nat} (hj : JumpsBounded 0 seqs) :
    (∀ seq, (i.markDoneAll key seqs).classify { key with seq } = .done → seq ∈ seqs) ↔
      seqs = [] ∨ 0 ∈ seqs := by
  constructor
  · intro h
    by_cases hs : seqs = []
    · exact .inl hs
    · exact .inr (h 0 ((classify_markDoneAll_eq_done_iff hnew htr hj 0).mpr (.inr ⟨rfl, hs⟩)))
  · rintro hz seq hd
    rcases (classify_markDoneAll_eq_done_iff hnew htr hj seq).mp hd with hm | ⟨rfl, hne⟩
    · exact hm
    · exact hz.resolve_left hne

/-- Messages `2` and `0` of an edge are finished: exactly those two are reported. -/
theorem done_only_if_marked_iff_two_zero :
    JumpsBounded 0 [2, 0] ∧
    ∀ seq, (markDoneAll {} ⟨7, .data, 1, 0⟩ [2, 0]).classify ⟨7, .data, 1, seq⟩ = .done →
      seq ∈ [2, 0] :=
  ⟨by decide, (done_only_if_marked_iff ⟨7, .data, 1, 0⟩ (fun _ => rfl) rfl
    (by decide)).mpr (.inr (by decide))⟩

/-- The message with sequence number `1` overtakes the one with `0`, which is then reported as
finished although nobody has seen it. -/
theorem unseen_zero_is_done :
    ¬ ∀ seq, (markDoneAll {} ⟨7, .data, 1, 0⟩ [1]).classify ⟨7, .data, 1, seq⟩ = .done →
      seq ∈ [1] := fun h => by
  have := h 0 (by decide)
  simp at this

end Inbox

end MoneyLaundering
