import MoneyLaundering.FaultTolerance.Inbox
import MoneyLaundering.MessageProtocol

/-!
# Packets between the stages of Q4

What one worker of a stage sends another, and what the receiver's inbox makes of a delivery order.
A packet carries its records as values: the fixed-width formats of
`scatter_gather_serializer.py` write and read them back.

Packets may come in any order and any number of times. `Delivered` says what every delivery owes to
the packets that were sent; `Orderly` says when the inbox tells each packet it has not seen from
those it has.
-/

namespace MoneyLaundering

/-- `DATA` with its records, or `EOF`. -/
inductive Body (β : Type) where
  | data (batch : List β)
  | eof (control : ControlMessage)
  deriving DecidableEq

def Body.isEof {β : Type} : Body β → Bool
  | .data _ => false
  | .eof _ => true

/-- An addressed packet. -/
structure Packet (β : Type) where
  clientId : Nat
  senderId : Nat
  seq : Nat
  body : Body β
  deriving DecidableEq

namespace Packet

variable {β : Type}

/-- The coordinates that the inbox knows the packet by. -/
def key (p : Packet β) : InputKey := ⟨p.clientId, .data, p.senderId, p.seq⟩

/-- The batches of a list of packets, in order. -/
def batches (ps : List (Packet β)) : List (List β) :=
  ps.filterMap fun p => match p.body with
    | .data batch => some batch
    | .eof _ => none

@[simp] theorem batches_nil : batches ([] : List (Packet β)) = [] := rfl

@[simp] theorem batches_append (ps qs : List (Packet β)) :
    batches (ps ++ qs) = batches ps ++ batches qs := List.filterMap_append

theorem batches_data {p : Packet β} {batch : List β} (h : p.body = .data batch) :
    batches [p] = [batch] := by simp [batches, h]

theorem batches_eof {p : Packet β} {control : ControlMessage} (h : p.body = .eof control) :
    batches [p] = [] := by simp [batches, h]

theorem batches_perm {ps qs : List (Packet β)} (h : ps.Perm qs) : (batches ps).Perm (batches qs) :=
  h.filterMap _

/-- The senders whose `EOF` is in the list, by the id that the `EOF` carries. -/
def eofSenders (ps : List (Packet β)) : List Nat :=
  ps.filterMap fun p => match p.body with
    | .data _ => none
    | .eof control => some control.senderId

@[simp] theorem eofSenders_nil : eofSenders ([] : List (Packet β)) = [] := rfl

@[simp] theorem eofSenders_append (ps qs : List (Packet β)) :
    eofSenders (ps ++ qs) = eofSenders ps ++ eofSenders qs := List.filterMap_append

theorem eofSenders_data {p : Packet β} {batch : List β} (h : p.body = .data batch) :
    eofSenders [p] = [] := by simp [eofSenders, h]

theorem eofSenders_eof {p : Packet β} {control : ControlMessage} (h : p.body = .eof control) :
    eofSenders [p] = [control.senderId] := by simp [eofSenders, h]

/-- The sequence numbers of a sender's packets for a client, in the order of delivery. -/
def channelSeqs (clientId senderId : Nat) (ds : List (Packet β)) : List Nat :=
  (ds.filter fun p => p.clientId = clientId ∧ p.senderId = senderId).map seq

theorem channelSeqs_append (c s : Nat) (ds ds' : List (Packet β)) :
    channelSeqs c s (ds ++ ds') = channelSeqs c s ds ++ channelSeqs c s ds' := by
  simp [channelSeqs]

theorem channelSeqs_self (p : Packet β) : channelSeqs p.clientId p.senderId [p] = [p.seq] := by
  simp [channelSeqs]

theorem channelSeqs_other {p : Packet β} {c s : Nat} (h : ¬ (p.clientId = c ∧ p.senderId = s)) :
    channelSeqs c s [p] = [] := by simp [channelSeqs, h]

theorem mem_channelSeqs {c s q : Nat} {ds : List (Packet β)} :
    q ∈ channelSeqs c s ds ↔ ∃ p ∈ ds, p.key = ⟨c, .data, s, q⟩ := by
  simp only [channelSeqs, List.mem_map, List.mem_filter, decide_eq_true_eq, key]
  constructor
  · rintro ⟨p, ⟨hp, rfl, rfl⟩, rfl⟩
    exact ⟨p, hp, rfl⟩
  · rintro ⟨p, hp, he⟩
    cases he
    exact ⟨p, ⟨hp, rfl, rfl⟩, rfl⟩

end Packet

open Packet

section delivery
variable {β : Type} [DecidableEq β]

/-- What a client's deliveries owe to the packets sent: nothing else comes and everything comes,
once or more, and by the time a sender's `EOF` comes all its `DATA` has come. -/
structure Delivered (clientId : Nat) (sent ds : List (Packet β)) : Prop where
  sent_of_mem : ∀ p ∈ ds, p.clientId = clientId → p ∈ sent
  mem_of_sent : ∀ p ∈ sent, p ∈ ds
  eofLast : ∀ x ∈ ds.zipIdx, x.1.clientId = clientId → x.1.body.isEof →
    ∀ p ∈ sent, p.senderId = x.1.senderId → ¬ p.body.isEof → p ∈ ds.take x.2

instance (clientId : Nat) (sent ds : List (Packet β)) : Decidable (Delivered clientId sent ds) :=
  decidable_of_iff (_ ∧ _ ∧ _)
    ⟨fun ⟨h₁, h₂, h₃⟩ => ⟨h₁, h₂, h₃⟩, fun h => ⟨h.sent_of_mem, h.mem_of_sent, h.eofLast⟩⟩

omit [DecidableEq β] in
theorem Delivered.data_before {c : Nat} {sent ds pre post : List (Packet β)} {e p : Packet β}
    (h : Delivered c sent ds) (hds : ds = pre ++ e :: post) (hc : e.clientId = c)
    (he : e.body.isEof) (hp : p ∈ sent) (hs : p.senderId = e.senderId) (hd : ¬ p.body.isEof) :
    p ∈ pre := by
  have hmem : (e, pre.length) ∈ ds.zipIdx := by
    rw [List.mem_zipIdx_iff_getElem?, hds]
    simp
  simpa [hds] using h.eofLast _ hmem hc he p hp hs hd

end delivery

variable {β : Type}

/-- Of every sender the packet with sequence number `0` comes first, and no packet skips more than
`_MAX_SEQUENTIAL_GAP` of the sender's numbers. -/
def Orderly (clientId : Nat) (ds : List (Packet β)) : Prop :=
  ∀ p ∈ ds, p.clientId = clientId →
    (channelSeqs clientId p.senderId ds).head? = some 0 ∧
    JumpsBounded 0 (channelSeqs clientId p.senderId ds)

instance (clientId : Nat) (ds : List (Packet β)) : Decidable (Orderly clientId ds) :=
  inferInstanceAs (Decidable (∀ p ∈ ds, _))

theorem JumpsBounded.of_append {m : Nat} {seqs seqs' : List Nat}
    (h : JumpsBounded m (seqs ++ seqs')) :
    JumpsBounded m seqs := by
  induction seqs generalizing m with
  | nil => trivial
  | cons q seqs ih => exact ⟨h.1, ih h.2⟩

theorem Orderly.of_append {c : Nat} {ds ds' : List (Packet β)} (h : Orderly c (ds ++ ds')) :
    Orderly c ds := by
  intro p hp hc
  obtain ⟨hz, hj⟩ := h p (List.mem_append_left _ hp) hc
  rw [channelSeqs_append] at hz hj
  have hne : channelSeqs c p.senderId ds ≠ [] :=
    List.ne_nil_of_mem (mem_channelSeqs.mpr ⟨p, hp, by rw [Packet.key, hc]⟩)
  exact ⟨by rwa [List.head?_append_of_ne_nil _ hne] at hz, hj.of_append⟩

/-! ## The inbox of the receiver -/

/-- An input that runs through: `handle` marks it applied, its outputs are published, `commit_done`
marks it done. -/
def Inbox.finish (i : Inbox) (key : InputKey) : Inbox := (i.markApplied key).markDone key

namespace Inbox

variable {i : Inbox} {key key' : InputKey}

/-- Finishing an input says nothing about inputs of other channels. -/
theorem classify_finish_of_ne
    (hne : ¬ (key.clientId = key'.clientId ∧ key.channel = key'.channel)) :
    (i.finish key).classify key' = i.classify key' := by
  have hkey : key' ≠ key := fun h => hne ⟨h ▸ rfl, h ▸ rfl⟩
  have hflight : (i.finish key).InFlight key' ↔ i.InFlight key' := by
    rw [finish, inFlight_markDone, inFlight_markApplied]
    exact ⟨fun h => h.2.resolve_left hkey, fun h => ⟨hkey, .inr h⟩⟩
  have htracker : (i.finish key).tracker? key' = i.tracker? key' := by
    rw [finish, tracker?_markDone, if_neg hne, tracker?_markApplied]
  rw [classify, classify, htracker]
  exact if_congr hflight rfl rfl

theorem WF.finish (h : i.WF) (key : InputKey) : (i.finish key).WF :=
  (h.markApplied key).markDone key

theorem classify_finish_self (h : i.WF) : (i.finish key).classify key = .done :=
  classify_markDone_self (h.markApplied key)

end Inbox

/-- The inbox has finished exactly the client's packets delivered so far. -/
structure Tracks (clientId : Nat) (pre : List (Packet β)) (i : Inbox) : Prop where
  idle : ∀ s q, ¬ i.InFlight ⟨clientId, .data, s, q⟩
  tracker : ∀ s q, i.tracker? ⟨clientId, .data, s, q⟩ =
    if channelSeqs clientId s pre = [] then none
    else some (DeduplicationTracker.observeAll {} (channelSeqs clientId s pre))

namespace Tracks

variable {c : Nat} {pre : List (Packet β)} {i : Inbox} {p : Packet β}

theorem init (c : Nat) : Tracks c ([] : List (Packet β)) {} where
  idle s q h := by simp [Inbox.InFlight] at h
  tracker s q := rfl

/-- In an orderly delivery the inbox reports as finished what has been delivered, and the rest as
new. -/
theorem classify (h : Tracks c pre i) (ho : Orderly c pre) (hc : p.clientId = c) :
    i.classify p.key = if p.seq ∈ channelSeqs c p.senderId pre then .done else .new := by
  subst hc
  have hidle := h.idle p.senderId p.seq
  have htr := h.tracker p.senderId p.seq
  by_cases hnil : channelSeqs p.clientId p.senderId pre = []
  · rw [if_pos hnil] at htr
    rw [hnil, if_neg List.not_mem_nil]
    refine (Inbox.classify_eq_new_iff _ _).mpr ⟨hidle, ?_⟩
    rintro ⟨t, ht, -⟩
    exact nomatch htr.symm.trans ht
  · rw [if_neg hnil] at htr
    obtain ⟨q, hq⟩ := List.exists_mem_of_ne_nil _ hnil
    obtain ⟨p', hp', hk⟩ := mem_channelSeqs.mp hq
    obtain ⟨hz, hj⟩ := ho p' hp' (congrArg InputKey.clientId hk)
    have hs : p'.senderId = p.senderId := congrArg InputKey.senderId hk
    rw [hs] at hz hj
    have hzero : 0 ∈ channelSeqs p.clientId p.senderId pre := List.mem_of_head? hz
    have hrep : i.Reported p.key ↔ p.seq ∈ channelSeqs p.clientId p.senderId pre := by
      have hdup : i.Reported p.key ↔ (DeduplicationTracker.observeAll {}
          (channelSeqs p.clientId p.senderId pre)).isDuplicate p.seq = true := by
        constructor
        · rintro ⟨t, ht, hd⟩
          cases htr.symm.trans ht
          exact hd
        · exact fun hd => ⟨_, htr, hd⟩
      rw [hdup, DeduplicationTracker.isDuplicate_observeAll DeduplicationTracker.wf_default hj,
        DeduplicationTracker.isDuplicate_default_iff]
      exact or_iff_right_of_imp fun h0 => h0 ▸ hzero
    split
    · next hm => exact (Inbox.classify_eq_done_iff _ _).mpr ⟨hidle, hrep.mpr hm⟩
    · next hm => exact (Inbox.classify_eq_new_iff _ _).mpr ⟨hidle, fun hr => hm (hrep.mp hr)⟩

/-- Finishing a packet records its delivery. -/
theorem finish (h : Tracks c pre i) (p : Packet β) : Tracks c (pre ++ [p]) (i.finish p.key) where
  idle s q hf := by
    obtain ⟨hne, hf⟩ := (Inbox.inFlight_markDone _ _ _).mp hf
    exact ((Inbox.inFlight_markApplied _ _ _).mp hf).elim hne (h.idle s q)
  tracker s q := by
    rw [Inbox.finish, Inbox.tracker?_markDone, Inbox.tracker?_markApplied,
      Inbox.tracker?_markApplied, channelSeqs_append]
    by_cases hk : p.clientId = c ∧ p.senderId = s
    · obtain ⟨rfl, rfl⟩ := hk
      rw [if_pos ⟨rfl, rfl⟩, channelSeqs_self, if_neg (by simp)]
      have htr := h.tracker p.senderId p.seq
      rw [Packet.key, htr]
      split
      · next hnil => rw [hnil]; rfl
      · rw [Option.getD_some, DeduplicationTracker.observeAll_concat]
    · rw [if_neg fun hh => hk ⟨hh.1, congrArg Prod.snd hh.2⟩, channelSeqs_other hk, List.append_nil]
      exact h.tracker s q

/-- A redelivery changes nothing, and neither does a packet of another client that is not
handled. -/
theorem skip (h : Tracks c pre i) (hd : p.clientId = c → i.classify p.key = .done) :
    Tracks c (pre ++ [p]) i where
  idle := h.idle
  tracker s q := by
    rw [h.tracker s q, channelSeqs_append]
    by_cases hk : p.clientId = c ∧ p.senderId = s
    · obtain ⟨rfl, rfl⟩ := hk
      obtain ⟨-, t, ht, hdup⟩ := (Inbox.classify_eq_done_iff _ _).mp (hd rfl)
      have htr := (h.tracker p.senderId p.seq).symm.trans ht
      rw [channelSeqs_self]
      split at htr
      · cases htr
      · next hnil =>
        cases htr
        rw [if_neg hnil, if_neg (by simp), DeduplicationTracker.observeAll_concat]
        exact congrArg some (DeduplicationTracker.observe_of_isDuplicate hdup).symm
    · rw [channelSeqs_other hk, List.append_nil]

/-- An input that is no packet leaves the packets as they are. -/
theorem finish_other (h : Tracks c pre i) {key : InputKey} (hk : key.kind ≠ .data) :
    Tracks c pre (i.finish key) where
  idle s q hf := by
    obtain ⟨-, hf⟩ := (Inbox.inFlight_markDone _ _ _).mp hf
    exact ((Inbox.inFlight_markApplied _ _ _).mp hf).elim (fun he => hk (he ▸ rfl)) (h.idle s q)
  tracker s q := by
    rw [Inbox.finish, Inbox.tracker?_markDone, if_neg fun hh => hk (InputKey.kind_of_channel hh.2),
      Inbox.tracker?_markApplied]
    exact h.tracker s q

end Tracks

end MoneyLaundering
