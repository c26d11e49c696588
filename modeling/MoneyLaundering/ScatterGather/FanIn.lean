import MoneyLaundering.ScatterGather.Delivery

/-!
# Stages that wait for every upstream worker

`q4_sum`, `q4_joiner`, `q4_aggregator` and `q4_deduper` handle their input alike: a batch is folded
into the client's state, an `EOF` is counted by its sender (`upstream_eof_counter.py`), and the one
that brings the last sender closes the client and emits what the state has gathered. `Stage` is what
they differ in.

The run lemma: whatever other clients do, the outputs for a client are those of its batches, each
once, in some order, and of the close that follows them.
-/

namespace MoneyLaundering

open Packet

/-! ## Counting the upstream workers -/

/-- `UpstreamEofCounter`. -/
structure UpstreamEofCounter where
  expected : Nat
  eofsByClient : Dict Nat (Finset Nat) := ∅
  closed : Finset Nat := ∅

namespace UpstreamEofCounter

variable (t : UpstreamEofCounter) (clientId senderId : Nat)

def seen : Finset Nat := t.eofsByClient.getD clientId ∅

/-- `on_eof`: the counter it leaves and what it returns. -/
def onEof : UpstreamEofCounter × Bool :=
  if clientId ∈ t.closed then (t, false)
  else if senderId ∈ t.seen clientId then
    -- `setdefault` stores the set it returns
    ({ t with eofsByClient := t.eofsByClient.set clientId (t.seen clientId) }, false)
  else
    ({ t with eofsByClient := t.eofsByClient.set clientId (insert senderId (t.seen clientId)) },
      decide (t.expected ≤ (insert senderId (t.seen clientId)).card))

/-- `would_flush`. -/
def wouldFlush : Bool :=
  if clientId ∈ t.closed then false
  else if senderId ∈ t.seen clientId then false
  else decide (t.expected ≤ (t.seen clientId).card + 1)

def close : UpstreamEofCounter :=
  { t with
    eofsByClient := t.eofsByClient.erase clientId
    closed := insert clientId t.closed }

variable {t clientId senderId}

/-- The prediction is what `on_eof` returns. -/
theorem wouldFlush_eq : t.wouldFlush clientId senderId = (t.onEof clientId senderId).2 := by
  unfold wouldFlush onEof
  split
  · rfl
  · split
    · rfl
    · next h => rw [Finset.card_insert_of_notMem h]

@[simp] theorem expected_onEof : (t.onEof clientId senderId).1.expected = t.expected := by
  unfold onEof; split <;> [rfl; split <;> rfl]

@[simp] theorem closed_onEof : (t.onEof clientId senderId).1.closed = t.closed := by
  unfold onEof; split <;> [rfl; split <;> rfl]

theorem seen_onEof (hc : clientId ∉ t.closed) (c : Nat) :
    (t.onEof clientId senderId).1.seen c =
      if c = clientId then insert senderId (t.seen clientId) else t.seen c := by
  unfold onEof
  rw [if_neg hc]
  by_cases hcc : c = clientId
  · subst hcc
    rw [if_pos rfl]
    split
    · next h => rw [Finset.insert_eq_of_mem h]; simp [seen, Dict.getD]
    · simp [seen, Dict.getD]
  · rw [if_neg hcc]
    split <;> simp [seen, Dict.getD_set, Ne.symm hcc]

theorem seen_onEof_of_ne {c : Nat} (h : clientId ≠ c) :
    (t.onEof clientId senderId).1.seen c = t.seen c := by
  unfold onEof
  split
  · rfl
  · split <;> simp [seen, Dict.getD_set, h]

@[simp] theorem expected_close : (t.close clientId).expected = t.expected := rfl

theorem seen_close_of_ne {c : Nat} (h : clientId ≠ c) : (t.close clientId).seen c = t.seen c := by
  simp [close, seen, Dict.getD_erase, Ne.symm h]

theorem mem_closed_close_of_ne {c : Nat} (h : clientId ≠ c) :
    c ∈ (t.close clientId).closed ↔ c ∈ t.closed := by simp [close, Ne.symm h]

end UpstreamEofCounter

/-! ## The handler -/

/-- What a worker does with a client's state. -/
structure Accumulator (β σ ω : Type) where
  fresh : σ
  applyData : σ → List β → σ
  /-- the outputs of a batch, predicted from the state before it -/
  dataOutputs : σ → List β → List ω
  /-- the outputs of the input that closes the client -/
  flushOutputs : σ → List ω

namespace Accumulator

variable {β σ ω : Type} (a : Accumulator β σ ω)

/-- A state after some batches. -/
def afterBatches (bs : List (List β)) : σ := bs.foldl a.applyData a.fresh

/-- The outputs of some batches, from a state on. -/
def emittedFrom : σ → List (List β) → List ω
  | _, [] => []
  | s, b :: bs => a.dataOutputs s b ++ emittedFrom (a.applyData s b) bs

/-- Everything that is emitted for some batches and the close after them. -/
def emitted (bs : List (List β)) : List ω :=
  a.emittedFrom a.fresh bs ++ a.flushOutputs (a.afterBatches bs)

theorem emittedFrom_concat (s : σ) (bs : List (List β)) (b : List β) :
    a.emittedFrom s (bs ++ [b]) = a.emittedFrom s bs ++ a.dataOutputs
      (bs.foldl a.applyData s) b := by
  induction bs generalizing s with
  | nil => simp [emittedFrom]
  | cons b' bs ih => simp [emittedFrom, ih, List.append_assoc]

theorem afterBatches_concat (bs : List (List β)) (b : List β) :
    a.afterBatches (bs ++ [b]) = a.applyData (a.afterBatches bs) b := by
  simp [afterBatches]

/-- A worker that emits nothing for a batch emits everything when it closes. -/
theorem emitted_of_silent (h : ∀ s b, a.dataOutputs s b = []) (bs : List (List β)) :
    a.emitted bs = a.flushOutputs (a.afterBatches bs) := by
  have hnone : ∀ s, a.emittedFrom s bs = [] := by
    induction bs with
    | nil => exact fun s => rfl
    | cons b bs ih => exact fun s => by rw [emittedFrom, h, ih]; rfl
  rw [emitted, hnone, List.nil_append]

end Accumulator

/-- A stage that waits for all its upstream workers. -/
structure Stage (β σ ω : Type) extends Accumulator β σ ω where
  upstreamAmount : Nat
  /-- `DATA` of a closed client is acked before the handler sees it -/
  acksClosedData : Bool

/-- A worker of a stage. The `*_by_client` maps of its state are one record for each client. -/
structure StageNode (σ : Type) where
  byClient : Dict Nat σ := ∅
  eofCounter : UpstreamEofCounter
  closed : Finset Nat := ∅
  inbox : Inbox := {}

namespace Stage

variable {β σ ω : Type} (stage : Stage β σ ω)

def init : StageNode σ where
  eofCounter := { expected := stage.upstreamAmount }

/-- The client's record. -/
def clientState (n : StageNode σ) (clientId : Nat) : σ := n.byClient.getD clientId stage.fresh

/-- A `DATA` packet. -/
def handleData (n : StageNode σ) (p : Packet β) (batch : List β) : StageNode σ × List ω :=
  if stage.acksClosedData ∧ p.clientId ∈ n.closed then (n, [])
  else if n.inbox.classify p.key ≠ .new then (n, [])
  else if p.clientId ∈ n.closed then ({ n with inbox := n.inbox.finish p.key }, [])
  else
    ({ n with
        byClient := n.byClient.set p.clientId
          (stage.applyData (stage.clientState n p.clientId) batch)
        inbox := n.inbox.finish p.key },
      stage.dataOutputs (stage.clientState n p.clientId) batch)

/-- An `EOF` packet: the change is `eof`, or `eof` and `close` when the prediction says so. -/
def handleEof (n : StageNode σ) (p : Packet β) (control : ControlMessage) : StageNode σ × List ω :=
  if p.clientId ∈ n.closed then (n, [])
  else if n.inbox.classify p.key ≠ .new then (n, [])
  else if n.eofCounter.wouldFlush p.clientId control.senderId then
    ({ byClient := n.byClient.erase p.clientId
       eofCounter := (n.eofCounter.onEof p.clientId control.senderId).1.close p.clientId
       closed := insert p.clientId n.closed
       inbox := n.inbox.finish p.key },
      stage.flushOutputs (stage.clientState n p.clientId))
  else
    ({ n with
        eofCounter := (n.eofCounter.onEof p.clientId control.senderId).1
        inbox := n.inbox.finish p.key }, [])

/-- `_on_message`. -/
def onMessage (n : StageNode σ) (p : Packet β) : StageNode σ × List ω :=
  match p.body with
  | .data batch => stage.handleData n p batch
  | .eof control => stage.handleEof n p control

/-- The worker after a list of deliveries, and all its outputs, each with its client. -/
def run (n : StageNode σ) : List (Packet β) → StageNode σ × List (Nat × ω)
  | [] => (n, [])
  | p :: ps =>
    let (n', outputs) := stage.onMessage n p
    let (n'', rest) := run n' ps
    (n'', outputs.map (Prod.mk p.clientId) ++ rest)

/-- The outputs of a worker for a client over a list of deliveries. -/
def outputsFor (clientId : Nat) (ds : List (Packet β)) : List ω :=
  ((stage.run stage.init ds).2.filter (·.1 = clientId)).map Prod.snd

/-! ## One delivery -/

/-- What the handler of a packet cannot change for a client: the client is not the packet's. -/
structure SameFor (c : Nat) (p : Packet β) (n n' : StageNode σ) : Prop where
  closed : c ∈ n'.closed ↔ c ∈ n.closed
  counterClosed : c ∈ n'.eofCounter.closed ↔ c ∈ n.eofCounter.closed
  expected : n'.eofCounter.expected = n.eofCounter.expected
  seen : n'.eofCounter.seen c = n.eofCounter.seen c
  state : stage.clientState n' c = stage.clientState n c
  inbox : n'.inbox = n.inbox ∨ n'.inbox = n.inbox.finish p.key

variable {stage} {c : Nat} {n : StageNode σ} {p : Packet β}

theorem SameFor.refl (c : Nat) (p : Packet β) (n : StageNode σ) : stage.SameFor c p n n :=
  ⟨.rfl, .rfl, rfl, rfl, rfl, .inl rfl⟩

theorem sameFor_handleData (h : p.clientId ≠ c) (batch : List β) :
    stage.SameFor c p n (stage.handleData n p batch).1 := by
  unfold handleData
  split
  · exact .refl c p n
  · split
    · exact .refl c p n
    · split
      · exact ⟨.rfl, .rfl, rfl, rfl, rfl, .inr rfl⟩
      · exact ⟨.rfl, .rfl, rfl, rfl, by simp [clientState, Dict.getD_set, h], .inr rfl⟩

theorem sameFor_handleEof (h : p.clientId ≠ c) (control : ControlMessage) :
    stage.SameFor c p n (stage.handleEof n p control).1 := by
  unfold handleEof
  split
  · exact .refl c p n
  · split
    · exact .refl c p n
    · split
      · exact {
          closed := by simp [Ne.symm h]
          counterClosed := by rw [UpstreamEofCounter.mem_closed_close_of_ne h]; simp
          expected := by simp
          seen := by
            rw [UpstreamEofCounter.seen_close_of_ne h, UpstreamEofCounter.seen_onEof_of_ne h]
          state := by simp [clientState, Dict.getD_erase, Ne.symm h]
          inbox := .inr rfl }
      · exact ⟨.rfl, by simp, by simp, UpstreamEofCounter.seen_onEof_of_ne h, rfl, .inr rfl⟩

theorem sameFor_onMessage (h : p.clientId ≠ c) : stage.SameFor c p n (stage.onMessage n p).1 := by
  unfold onMessage
  split
  · exact sameFor_handleData h _
  · exact sameFor_handleEof h _

/-- A closed client stays closed and gets no further output. -/
theorem onMessage_of_closed (h : p.clientId ∈ n.closed) :
    (stage.onMessage n p).2 = [] ∧ (stage.onMessage n p).1.closed = n.closed := by
  unfold onMessage
  split
  · unfold handleData
    split
    · exact ⟨rfl, rfl⟩
    · split
      · exact ⟨rfl, rfl⟩
      · exact ⟨rfl, rfl⟩
  · rw [handleEof, if_pos h]; exact ⟨rfl, rfl⟩

/-- An input that the inbox has finished is acked. -/
theorem onMessage_of_done (h : n.inbox.classify p.key = .done) : stage.onMessage n p = (n, []) := by
  have hne : n.inbox.classify p.key ≠ .new := by rw [h]; decide
  unfold onMessage
  split
  · unfold handleData
    split
    · rfl
    · rfl
  · unfold handleEof
    split
    · rfl
    · rfl

/-- What a new packet of an open client does. -/
theorem handleData_of_new {batch : List β} (ho : p.clientId ∉ n.closed)
    (hn : n.inbox.classify p.key = .new) :
    stage.handleData n p batch =
      ({ n with
          byClient := n.byClient.set p.clientId
            (stage.applyData (stage.clientState n p.clientId) batch)
          inbox := n.inbox.finish p.key },
        stage.dataOutputs (stage.clientState n p.clientId) batch) := by
  rw [handleData, if_neg fun h => ho h.2, if_neg (not_not.mpr hn), if_neg ho]

end Stage

/-! ## The packets of one client -/

/-- What the workers of the stage before send a worker for a client: the coordinates are distinct,
and every worker sends an `EOF` that names it. -/
structure Fed {β : Type} (clientId amount : Nat) (sent : List (Packet β)) : Prop where
  client : ∀ p ∈ sent, p.clientId = clientId
  sender : ∀ p ∈ sent, p.senderId < amount
  keys : (sent.map key).Nodup
  eof : ∀ p ∈ sent, ∀ control, p.body = .eof control → control.senderId = p.senderId
  ends : ∀ s < amount, ∃ p ∈ sent, p.senderId = s ∧ p.body.isEof
  once : ∀ p ∈ sent, ∀ q ∈ sent, p.body.isEof → q.body.isEof → p.senderId = q.senderId → p = q

namespace Stage

variable {β σ ω : Type} (stage : Stage β σ ω)

/-- A client that is open: the packets delivered are applied, each once, in the order `acc`. -/
structure Gathering (c : Nat) (pre : List (Packet β)) (n : StageNode σ) (outputs : List ω)
    (acc : List (Packet β)) : Prop where
  tracks : Tracks c pre n.inbox
  isOpen : c ∉ n.closed
  counting : c ∉ n.eofCounter.closed
  expected : n.eofCounter.expected = stage.upstreamAmount
  few : (n.eofCounter.seen c).card < stage.upstreamAmount
  nodup : acc.Nodup
  mem_acc : ∀ p, p ∈ acc ↔ p ∈ pre ∧ p.clientId = c
  state : stage.clientState n c = stage.afterBatches (batches acc)
  seen : n.eofCounter.seen c = (eofSenders acc).toFinset
  outputs_eq : outputs = stage.emittedFrom stage.fresh (batches acc)

/-- A client that is closed: everything sent to the worker went into its outputs. -/
def Finished (c : Nat) (sent : List (Packet β)) (n : StageNode σ) (outputs : List ω) : Prop :=
  c ∈ n.closed ∧ ∃ bs, bs.Perm (batches sent) ∧ outputs = stage.emitted bs

def Inv (c : Nat) (sent pre : List (Packet β)) (n : StageNode σ) (outputs : List ω) : Prop :=
  (∃ acc, stage.Gathering c pre n outputs acc) ∨ stage.Finished c sent n outputs

variable {stage} {c : Nat} {sent ds pre post acc : List (Packet β)} {n : StageNode σ} {p : Packet β}
  {outputs : List ω}

theorem Gathering.mem_acc_concat (h : stage.Gathering c pre n outputs acc) (hc : p.clientId = c)
    (q : Packet β) : q ∈ acc ++ [p] ↔ q ∈ pre ++ [p] ∧ q.clientId = c := by
  rw [List.mem_append, List.mem_append, h.mem_acc, List.mem_singleton]
  constructor
  · rintro (h | rfl)
    · exact ⟨.inl h.1, h.2⟩
    · exact ⟨.inr rfl, hc⟩
  · rintro ⟨h | rfl, hq⟩
    · exact .inl ⟨h, hq⟩
    · exact .inr rfl

theorem Gathering.nodup_concat (h : stage.Gathering c pre n outputs acc) (hp : p ∉ pre) :
    (acc ++ [p]).Nodup := by
  rw [← List.concat_eq_append]
  exact h.nodup.concat fun hm => hp ((h.mem_acc p).mp hm).1

/-- A packet of another client. -/
theorem Gathering.other (h : stage.Gathering c pre n outputs acc) (hc : p.clientId ≠ c) :
    stage.Gathering c (pre ++ [p]) (stage.onMessage n p).1 outputs acc := by
  have hs : stage.SameFor c p n (stage.onMessage n p).1 := sameFor_onMessage hc
  exact {
    tracks := by
      rcases hs.inbox with he | he
      · rw [he]; exact h.tracks.skip fun hp => absurd hp hc
      · rw [he]; exact h.tracks.finish p
    isOpen := fun hm => h.isOpen (hs.closed.mp hm)
    counting := fun hm => h.counting (hs.counterClosed.mp hm)
    expected := hs.expected.trans h.expected
    few := by rw [hs.seen]; exact h.few
    nodup := h.nodup
    mem_acc := fun q => by
      rw [h.mem_acc, List.mem_append, List.mem_singleton]
      exact and_congr_left fun hq => ⟨.inl, fun ho => ho.resolve_right fun he => hc (he ▸ hq)⟩
    state := hs.state.trans h.state
    seen := hs.seen.trans h.seen
    outputs_eq := h.outputs_eq }

/-- The same packet again. -/
theorem Gathering.again (h : stage.Gathering c pre n outputs acc)
    (hd : n.inbox.classify p.key = .done) (hp : p ∈ pre) :
    stage.Gathering c (pre ++ [p]) n outputs acc :=
  { h with
    tracks := h.tracks.skip fun _ => hd
    mem_acc := fun q => by
      rw [h.mem_acc, List.mem_append, List.mem_singleton]
      exact and_congr_left fun _ => ⟨.inl, fun ho => ho.elim id fun he => he ▸ hp⟩ }

/-- A batch that is new. -/
theorem Gathering.data (h : stage.Gathering c pre n outputs acc) (hc : p.clientId = c)
    (hn : n.inbox.classify p.key = .new) (hp : p ∉ pre) {batch : List β}
    (hb : p.body = .data batch) :
    stage.Gathering c (pre ++ [p]) (stage.handleData n p batch).1
      (outputs ++ (stage.handleData n p batch).2) (acc ++ [p]) := by
  subst hc
  rw [handleData_of_new h.isOpen hn]
  exact { h with
    tracks := h.tracks.finish p
    nodup := h.nodup_concat hp
    mem_acc := h.mem_acc_concat rfl
    state := by
      rw [batches_append, batches_data hb, Accumulator.afterBatches_concat, ← h.state]
      simp [clientState, Dict.getD_set]
    seen := by
      rw [eofSenders_append, eofSenders_data hb, List.append_nil]
      exact h.seen
    outputs_eq := by
      rw [batches_append, batches_data hb, Accumulator.emittedFrom_concat, ← h.outputs_eq, h.state]
      rfl }

/-- An `EOF` that is new and not the last. -/
theorem Gathering.eof (h : stage.Gathering c pre n outputs acc) (hc : p.clientId = c)
    (hp : p ∉ pre) {control : ControlMessage} (hb : p.body = .eof control)
    (hw : ¬ n.eofCounter.wouldFlush p.clientId control.senderId) :
    stage.Gathering c (pre ++ [p])
      { n with
        eofCounter := (n.eofCounter.onEof p.clientId control.senderId).1
        inbox := n.inbox.finish p.key } outputs (acc ++ [p]) := by
  subst hc
  have hseen : (n.eofCounter.onEof p.clientId control.senderId).1.seen p.clientId =
      insert control.senderId (n.eofCounter.seen p.clientId) := by
    rw [UpstreamEofCounter.seen_onEof h.counting, if_pos rfl]
  exact {
    tracks := h.tracks.finish p
    isOpen := h.isOpen
    counting := by simpa using h.counting
    expected := by simpa using h.expected
    few := by
      rw [hseen]
      by_cases hm : control.senderId ∈ n.eofCounter.seen p.clientId
      · rw [Finset.insert_eq_of_mem hm]; exact h.few
      · rw [UpstreamEofCounter.wouldFlush, if_neg h.counting, if_neg hm, h.expected] at hw
        rw [Finset.card_insert_of_notMem hm]
        simpa using hw
    nodup := h.nodup_concat hp
    mem_acc := h.mem_acc_concat rfl
    state := by
      rw [batches_append, batches_eof hb, List.append_nil]
      exact h.state
    seen := by
      rw [hseen, eofSenders_append, eofSenders_eof hb, h.seen]
      simp
    outputs_eq := by
      rw [batches_append, batches_eof hb, List.append_nil]
      exact h.outputs_eq }

theorem mem_eofSenders {s : Nat} {ps : List (Packet β)} :
    s ∈ eofSenders ps ↔ ∃ p ∈ ps, ∃ control, p.body = .eof control ∧ control.senderId = s := by
  simp only [eofSenders, List.mem_filterMap]
  refine exists_congr fun p => and_congr_right fun _ => ?_
  cases p.body <;> simp

/-- When the last sender's `EOF` comes, everything sent has come. -/
theorem Gathering.all_delivered (h : stage.Gathering c pre n outputs acc)
    (hf : Fed c stage.upstreamAmount sent) (hd : Delivered c sent ds) (hds : ds = pre ++ p :: post)
    (hc : p.clientId = c) {control : ControlMessage} (hb : p.body = .eof control)
    (hw : n.eofCounter.wouldFlush p.clientId control.senderId) (q : Packet β) :
    q ∈ acc ++ [p] ↔ q ∈ sent := by
  have hds' : ds = (pre ++ [p]) ++ post := by simp [hds]
  have hsent : ∀ r ∈ acc ++ [p], r ∈ sent := by
    intro r hr
    obtain ⟨hrp, hrc⟩ := (h.mem_acc_concat hc r).mp hr
    exact hd.sent_of_mem r (hds' ▸ List.mem_append_left _ hrp) hrc
  have hsub : (eofSenders (acc ++ [p])).toFinset ⊆ Finset.range stage.upstreamAmount := by
    intro s hs
    obtain ⟨r, hr, control, hrb, rfl⟩ := mem_eofSenders.mp (List.mem_toFinset.mp hs)
    rw [hf.eof r (hsent r hr) control hrb]
    exact Finset.mem_range.mpr (hf.sender r (hsent r hr))
  have hcard : stage.upstreamAmount ≤ (eofSenders (acc ++ [p])).toFinset.card := by
    have hins : (eofSenders (acc ++ [p])).toFinset =
        insert control.senderId (n.eofCounter.seen c) := by
      rw [eofSenders_append, eofSenders_eof hb, h.seen]; simp
    rw [UpstreamEofCounter.wouldFlush, hc, if_neg h.counting] at hw
    split at hw
    · cases hw
    · next hm =>
      rw [hins, Finset.card_insert_of_notMem hm, ← h.expected]
      exact of_decide_eq_true hw
  have hall : (eofSenders (acc ++ [p])).toFinset = Finset.range stage.upstreamAmount :=
    Finset.eq_of_subset_of_card_le hsub (by simpa using hcard)
  refine ⟨hsent q, fun hq => ?_⟩
  -- the sender of `q` has ended its stream among the packets delivered
  have hs : q.senderId ∈ (eofSenders (acc ++ [p])).toFinset := by
    rw [hall]; exact Finset.mem_range.mpr (hf.sender q hq)
  obtain ⟨e, he, control', heb, hes⟩ := mem_eofSenders.mp (List.mem_toFinset.mp hs)
  rw [hf.eof e (hsent e he) control' heb] at hes
  have heof : e.body.isEof = true := by rw [heb]; rfl
  by_cases hqe : q.body.isEof = true
  · exact hf.once q hq e (hsent e he) hqe heof hes.symm ▸ he
  · obtain ⟨hep, hec⟩ := (h.mem_acc_concat hc e).mp he
    obtain ⟨pre₁, pre₂, hsplit⟩ := List.append_of_mem hep
    have hq₁ : q ∈ pre₁ := hd.data_before
      (show ds = pre₁ ++ e :: (pre₂ ++ post) by rw [hds', hsplit]; simp) hec heof hq hes.symm hqe
    exact (h.mem_acc_concat hc q).mpr
      ⟨hsplit ▸ List.mem_append_left _ hq₁, hf.client q hq⟩

/-- The `EOF` that brings the last sender. -/
theorem Gathering.flush (h : stage.Gathering c pre n outputs acc) (hp : p ∉ pre)
    (hf : Fed c stage.upstreamAmount sent) (hd : Delivered c sent ds) (hds : ds = pre ++ p :: post)
    (hc : p.clientId = c) {control : ControlMessage} (hb : p.body = .eof control)
    (hw : n.eofCounter.wouldFlush p.clientId control.senderId) :
    ∃ bs, bs.Perm (batches sent) ∧
      outputs ++ stage.flushOutputs (stage.clientState n p.clientId) = stage.emitted bs := by
  refine ⟨batches (acc ++ [p]), batches_perm ?_, ?_⟩
  · exact (List.perm_ext_iff_of_nodup (h.nodup_concat hp) hf.keys.of_map).mpr
      (h.all_delivered hf hd hds hc hb hw)
  · rw [batches_append, batches_eof hb, List.append_nil, hc, h.state, h.outputs_eq]
    rfl

/-- One delivery keeps the invariant. -/
theorem Inv.step (h : stage.Inv c sent pre n outputs) (hf : Fed c stage.upstreamAmount sent)
    (hd : Delivered c sent ds) (ho : Orderly c ds) (hds : ds = pre ++ p :: post) :
    stage.Inv c sent (pre ++ [p]) (stage.onMessage n p).1
      (outputs ++ if p.clientId = c then (stage.onMessage n p).2 else []) := by
  by_cases hc : p.clientId = c
  · rw [if_pos hc]
    rcases h with ⟨acc, h⟩ | ⟨hcl, bs, hbs, hout⟩
    · have hmem : p.seq ∈ channelSeqs c p.senderId pre ↔ p ∈ pre := by
        rw [mem_channelSeqs]
        constructor
        · rintro ⟨q, hq, hk⟩
          have hqc : q.clientId = c := congrArg InputKey.clientId hk
          have hk' : q.key = p.key := by rw [hk, Packet.key, hc]
          have hqs : q ∈ sent := hd.sent_of_mem q (hds ▸ List.mem_append_left _ hq) hqc
          have hps : p ∈ sent := hd.sent_of_mem p (by simp [hds]) hc
          exact List.inj_on_of_nodup_map hf.keys hqs hps hk' ▸ hq
        · exact fun hp => ⟨p, hp, by rw [Packet.key, hc]⟩
      have hclass := h.tracks.classify (p := p) (Orderly.of_append (hds ▸ ho)) hc
      by_cases hp : p ∈ pre
      · rw [if_pos (hmem.mpr hp)] at hclass
        rw [onMessage_of_done hclass, List.append_nil]
        exact .inl ⟨acc, h.again hclass hp⟩
      · rw [if_neg fun hm => hp (hmem.mp hm)] at hclass
        unfold onMessage
        split
        · next batch hb => exact .inl ⟨acc ++ [p], h.data hc hclass hp hb⟩
        · next control hb =>
          rw [handleEof, if_neg (hc ▸ h.isOpen), if_neg (not_not.mpr hclass)]
          split
          · next hw =>
            exact .inr ⟨by rw [← hc]; exact Finset.mem_insert_self _ _,
              h.flush hp hf hd hds hc hb hw⟩
          · next hw =>
            rw [List.append_nil]
            exact .inl ⟨acc ++ [p], h.eof hc hp hb hw⟩
    · obtain ⟨hnil, hsame⟩ : (stage.onMessage n p).2 = [] ∧
          (stage.onMessage n p).1.closed = n.closed := onMessage_of_closed (hc ▸ hcl)
      rw [hnil, List.append_nil]
      exact .inr ⟨hsame ▸ hcl, bs, hbs, hout⟩
  · rw [if_neg hc, List.append_nil]
    rcases h with ⟨acc, h⟩ | ⟨hcl, hbs⟩
    · exact .inl ⟨acc, h.other hc⟩
    · exact .inr ⟨(sameFor_onMessage hc).closed.mpr hcl, hbs⟩

theorem inv_init (c : Nat) (sent : List (Packet β)) (hpos : 0 < stage.upstreamAmount) :
    stage.Inv c sent [] stage.init [] :=
  .inl ⟨[], {
    tracks := .init c
    isOpen := Finset.notMem_empty c
    counting := Finset.notMem_empty c
    expected := rfl
    few := by simpa [init, UpstreamEofCounter.seen] using hpos
    nodup := List.nodup_nil
    mem_acc := by simp
    state := rfl
    seen := rfl
    outputs_eq := rfl }⟩

/-- The invariant after all the deliveries. -/
theorem Inv.run (h : stage.Inv c sent pre n outputs) (hf : Fed c stage.upstreamAmount sent)
    (hd : Delivered c sent ds) (ho : Orderly c ds) (hds : ds = pre ++ post) :
    stage.Inv c sent ds (stage.run n post).1
      (outputs ++ ((stage.run n post).2.filter (·.1 = c)).map Prod.snd) := by
  induction post generalizing pre n outputs with
  | nil => simpa [Stage.run, hds] using h
  | cons p post ih =>
    have hstep := h.step hf hd ho hds
    have hrest := ih hstep (by simp [hds])
    simp only [Stage.run, List.filter_append, List.map_append]
    rw [List.append_assoc] at hrest
    convert hrest using 2
    by_cases hc : p.clientId = c <;> simp [hc, List.filter_map, Function.comp_def]

/-- The inbox of a stage after an input that is no packet. -/
theorem Inv.finish_other (h : stage.Inv c sent pre n outputs) {key : InputKey}
    (hk : key.kind ≠ .data) :
    stage.Inv c sent pre { n with inbox := n.inbox.finish key } outputs :=
  h.imp_left fun ⟨acc, h⟩ => ⟨acc, { h with tracks := h.tracks.finish_other hk }⟩

theorem inbox_onMessage (n : StageNode σ) (p : Packet β) :
    (stage.onMessage n p).1.inbox = n.inbox ∨ (stage.onMessage n p).1.inbox =
      n.inbox.finish p.key := by
  unfold onMessage
  split
  · unfold handleData
    split
    · exact .inl rfl
    · split
      · exact .inl rfl
      · split <;> exact .inr rfl
  · unfold handleEof
    split
    · exact .inl rfl
    · split
      · exact .inl rfl
      · split <;> exact .inr rfl

/-- When everything was delivered the client is closed. -/
theorem Inv.finished {ds : List (Packet β)} (h : stage.Inv c sent ds n outputs)
    (hf : Fed c stage.upstreamAmount sent) (hd : ∀ p ∈ sent, p ∈ ds) :
    ∃ bs, bs.Perm (batches sent) ∧ outputs = stage.emitted bs := by
  rcases h with ⟨acc, h⟩ | ⟨-, hbs⟩
  · -- every sender has ended its stream, so the client cannot be open
    exfalso
    have hsub : Finset.range stage.upstreamAmount ⊆ (eofSenders acc).toFinset := by
      intro s hs
      obtain ⟨p, hp, rfl, he⟩ := hf.ends s (Finset.mem_range.mp hs)
      rw [List.mem_toFinset, mem_eofSenders]
      refine ⟨p, (h.mem_acc p).mpr ⟨hd p hp, hf.client p hp⟩, ?_⟩
      cases hb : p.body with
      | data batch => rw [hb] at he; cases he
      | eof control => exact ⟨control, rfl, hf.eof p hp control hb⟩
    have hcard := Finset.card_le_card hsub
    rw [← h.seen, Finset.card_range] at hcard
    exact absurd h.few (Nat.not_lt.mpr hcard)
  · exact hbs

end Stage

end MoneyLaundering
