import MoneyLaundering.ScatterGather.Records

/-!
# `q4_filter`: the gate of the sources

`Q4FilterState` and the handlers of `Q4FilterWorker` (`q4_filter/q4_filter_state.py`, `filters.py`).
A source's edges wait until it has enough distinct targets and are forwarded from then on, each as
an incoming edge of its target and an outgoing edge of its source.

The worker ends a client's stream when its coordinator says so: at the upstream `EOF` of a worker
that is alone, at `FLUSH_ORDER`, or at the last `FLUSH_ACK`. All three emit the same `EOF`s and
close; they are the event `flush`.
-/

namespace MoneyLaundering

open Packet

/-! ## The gate -/

/-- `_SourceState`. -/
structure SourceState where
  targets : Finset Q4AccountId := ∅
  qualified : Bool := false
  pending : List Q4TransactionEdge := []

/-- `_counted_for`. -/
def countedFor (edge : Q4TransactionEdge) : List Q4CountedEdge :=
  [{ role := .incoming, intermediate := edge.target, endpoint := edge.source, count := 1 },
   { role := .outgoing, intermediate := edge.source, endpoint := edge.target, count := 1 }]

/-- `state.targets` after the edge has been looked at. -/
def SourceState.addTarget (state : SourceState) (edge : Q4TransactionEdge) : Finset Q4AccountId :=
  if state.targets.card < qualifyTargets then insert edge.target state.targets else state.targets

/-- `_gate_emit`: the state it leaves and the edges it returns. -/
def gateEmit (state : SourceState) (edge : Q4TransactionEdge) : SourceState × List Q4CountedEdge :=
  if state.qualified then (state, countedFor edge)
  else if (state.addTarget edge).card < qualifyTargets then
    ({ state with targets := state.addTarget edge, pending := state.pending ++ [edge] }, [])
  else
    ({ targets := ∅, qualified := true, pending := [] },
      (state.pending ++ [edge]).flatMap countedFor)

/-- The gate of the edge's source, in the map of all sources. -/
def gateStep (sources : Dict Q4AccountId SourceState) (edge : Q4TransactionEdge) :
    Dict Q4AccountId SourceState × List Q4CountedEdge :=
  let (state, counted) := gateEmit (sources.getD edge.source {}) edge
  (sources.set edge.source state, counted)

/-- A list of edges through the gates. -/
def gateRun (sources : Dict Q4AccountId SourceState) :
    List Q4TransactionEdge → Dict Q4AccountId SourceState × List Q4CountedEdge
  | [] => (sources, [])
  | edge :: edges =>
    let (sources', counted) := gateStep sources edge
    let (sources'', rest) := gateRun sources' edges
    (sources'', counted ++ rest)

theorem gateRun_append (sources : Dict Q4AccountId SourceState)
    (edges edges' : List Q4TransactionEdge) :
    gateRun sources (edges ++ edges') =
      ((gateRun (gateRun sources edges).1 edges').1,
        (gateRun sources edges).2 ++ (gateRun (gateRun sources edges).1 edges').2) := by
  induction edges generalizing sources with
  | nil => rfl
  | cons e edges ih => simp only [List.cons_append, gateRun, ih, List.append_assoc]

/-! ### What the gates emit -/

open Q4

/-- What the gate of a source knows after a list of edges: that the source has enough targets, or
its targets and its edges. -/
structure GatedAt (edges : List Q4TransactionEdge) (s : Q4AccountId) (state : SourceState) :
    Prop where
  qualified : state.qualified = decide (Scatters edges s)
  targets : ¬ Scatters edges s → state.targets = targetsOf edges s
  pending : ¬ Scatters edges s → state.pending = edges.filter (·.source = s)

/-- All the gates after a list of edges. -/
def Gated (edges : List Q4TransactionEdge) (sources : Dict Q4AccountId SourceState) : Prop :=
  ∀ s, GatedAt edges s (sources.getD s {})

theorem targetsOf_concat (edges : List Q4TransactionEdge) (e : Q4TransactionEdge)
    (s : Q4AccountId) :
    targetsOf (edges ++ [e]) s =
      if e.source = s then insert e.target (targetsOf edges s) else targetsOf edges s := by
  unfold targetsOf
  split
  · next h => ext x; simp [List.filter_append, h]
  · next h => simp [List.filter_append, h]

theorem Q4.Scatters.concat {edges : List Q4TransactionEdge} {s : Q4AccountId} (h : Scatters edges s)
    (e : Q4TransactionEdge) : Scatters (edges ++ [e]) s := by
  unfold Scatters at h ⊢
  rw [targetsOf_concat]
  split
  · exact h.trans (Finset.card_le_card (Finset.subset_insert _ _))
  · exact h

theorem scatters_concat_of_ne (edges : List Q4TransactionEdge) {e : Q4TransactionEdge}
    {s : Q4AccountId} (h : e.source ≠ s) : Scatters (edges ++ [e]) s ↔ Scatters edges s := by
  rw [Scatters, targetsOf_concat, if_neg h, Scatters]

theorem gated_nil : Gated [] ∅ := fun s =>
  ⟨by simp [Scatters, targetsOf, qualifyTargets], fun _ => rfl, fun _ => rfl⟩

namespace Gated

variable {edges : List Q4TransactionEdge} {sources : Dict Q4AccountId SourceState}

/-- The three ways an edge meets its gate. -/
theorem gateEmit_cases (h : Gated edges sources) (e : Q4TransactionEdge) :
    (Scatters edges e.source ∧
      gateEmit (sources.getD e.source {}) e = (sources.getD e.source {}, countedFor e)) ∨
    (¬ Scatters (edges ++ [e]) e.source ∧
      gateEmit (sources.getD e.source {}) e =
        ({ targets := targetsOf (edges ++ [e]) e.source, qualified := false
           pending := (edges ++ [e]).filter (·.source = e.source) }, [])) ∨
    (¬ Scatters edges e.source ∧ Scatters (edges ++ [e]) e.source ∧
      gateEmit (sources.getD e.source {}) e =
        ({ targets := ∅, qualified := true, pending := [] },
          ((edges ++ [e]).filter (·.source = e.source)).flatMap countedFor)) := by
  by_cases hs : Scatters edges e.source
  · refine .inl ⟨hs, ?_⟩
    rw [gateEmit, if_pos (by rw [(h _).qualified, decide_eq_true hs])]
  · have hq : ¬ (sources.getD e.source {}).qualified = true := by
      rw [(h _).qualified]; simpa using hs
    have htargets : (sources.getD e.source {}).addTarget e = targetsOf (edges ++ [e]) e.source := by
      rw [SourceState.addTarget, (h _).targets hs, if_pos (Nat.not_le.mp hs), targetsOf_concat,
        if_pos rfl]
    have hpending : (sources.getD e.source {}).pending ++ [e] =
        (edges ++ [e]).filter (·.source = e.source) := by
      rw [(h _).pending hs]; simp [List.filter_append]
    rw [gateEmit, if_neg hq, htargets, hpending]
    by_cases hs' : Scatters (edges ++ [e]) e.source
    · exact .inr (.inr ⟨hs, hs', if_neg (Nat.not_lt.mpr hs')⟩)
    · refine .inr (.inl ⟨hs', ?_⟩)
      rw [if_pos (Nat.not_le.mp hs')]
      simp only [Bool.not_eq_true] at hq
      rw [hq]

/-- One edge through its gate. -/
theorem step (h : Gated edges sources) (e : Q4TransactionEdge) :
    Gated (edges ++ [e]) (gateStep sources e).1 := by
  intro s
  have hget : (gateStep sources e).1.getD s {} =
      if e.source = s then (gateEmit (sources.getD e.source {}) e).1 else sources.getD s {} :=
    Dict.getD_set ..
  rw [hget]
  by_cases hs : e.source = s
  · subst hs
    rw [if_pos rfl]
    rcases h.gateEmit_cases e with ⟨hs, hg⟩ | ⟨hs, hg⟩ | ⟨-, hs, hg⟩
    · have hs' := hs.concat e
      rw [hg]
      exact ⟨by rw [(h _).qualified, decide_eq_true hs, decide_eq_true hs'], absurd hs', absurd hs'⟩
    · rw [hg]
      exact ⟨(decide_eq_false hs).symm, fun _ => rfl, fun _ => rfl⟩
    · rw [hg]
      exact ⟨(decide_eq_true hs).symm, absurd hs, absurd hs⟩
  · have hiff := scatters_concat_of_ne edges hs
    rw [if_neg hs]
    exact {
      qualified := by rw [(h s).qualified]; exact decide_eq_decide.mpr hiff.symm
      targets := fun hn => by
        rw [(h s).targets fun hm => hn (hiff.mpr hm), targetsOf_concat, if_neg hs]
      pending := fun hn => by
        rw [(h s).pending fun hm => hn (hiff.mpr hm)]
        simp [List.filter_append, hs] }

/-- What an edge makes its gate emit is what it adds to the kept edges. -/
theorem tally_gateEmit (h : Gated edges sources) (e : Q4TransactionEdge) (w : Q4CountedEdge → Nat) :
    tally (fun e => tally w (countedFor e)) (kept (edges ++ [e])) =
      tally (fun e => tally w (countedFor e)) (kept edges) + tally w (gateStep sources e).2 := by
  have hout : (gateStep sources e).2 = (gateEmit (sources.getD e.source {}) e).2 := rfl
  rw [hout]
  -- sources other than the edge's are kept as before
  have hrest : ∀ (hiff : Scatters (edges ++ [e]) e.source ↔ Scatters edges e.source),
      (edges ++ [e]).filter (fun x => Scatters (edges ++ [e]) x.source) =
        kept edges ++ if Scatters edges e.source then [e] else [] := by
    intro hiff
    have hall : ∀ s, Scatters (edges ++ [e]) s ↔ Scatters edges s := by
      intro s
      by_cases hs : e.source = s
      · exact hs ▸ hiff
      · exact scatters_concat_of_ne _ hs
    simp only [hall, kept, List.filter_append]
    congr 1
    split
    · next h => simp [h]
    · next h => simp [h]
  rcases h.gateEmit_cases e with ⟨hs, hg⟩ | ⟨hs, hg⟩ | ⟨hs, hs', hg⟩
  · have hiff : Scatters (edges ++ [e]) e.source ↔ Scatters edges e.source :=
      ⟨fun _ => hs, fun h => h.concat e⟩
    rw [kept, hrest hiff, if_pos hs, tally_append, hg]
    simp
  · have hiff : Scatters (edges ++ [e]) e.source ↔ Scatters edges e.source :=
      ⟨fun h => absurd h hs, fun h => h.concat e⟩
    rw [kept, hrest hiff, if_neg fun hm => hs (hiff.mpr hm), List.append_nil, hg]
    simp
  · rw [hg, tally_flatMap, kept, kept, tally_filter, tally_filter, tally_filter]
    -- the source was not kept, and now all of it is
    have hsum : ∀ x ∈ edges ++ [e],
        (if decide (Scatters (edges ++ [e]) x.source) = true then tally w (countedFor x) else 0) =
        (if decide (Scatters edges x.source) = true then tally w (countedFor x) else 0) +
          if decide (x.source = e.source) = true then tally w (countedFor x) else 0 := by
      intro x _
      by_cases hx : x.source = e.source
      · simp [hx, hs, hs']
      · simp [hx, scatters_concat_of_ne _ (Ne.symm hx)]
    rw [tally_congr hsum, tally_add, tally_append]
    simp [hs]

end Gated

theorem gateRun_concat (sources : Dict Q4AccountId SourceState) (edges : List Q4TransactionEdge)
    (e : Q4TransactionEdge) :
    gateRun sources (edges ++ [e]) = ((gateStep (gateRun sources edges).1 e).1,
      (gateRun sources edges).2 ++ (gateStep (gateRun sources edges).1 e).2) := by
  rw [gateRun_append]; simp [gateRun]

theorem gated_gateRun (edges : List Q4TransactionEdge) : Gated edges (gateRun ∅ edges).1 := by
  induction edges using List.reverseRecOn with
  | nil => exact gated_nil
  | append_singleton edges e ih => rw [gateRun_concat]; exact ih.step e

/-- In whatever order a source's edges come, the gates emit the kept edges, each once. -/
theorem tally_gateRun (edges : List Q4TransactionEdge) (w : Q4CountedEdge → Nat) :
    tally w (gateRun ∅ edges).2 = tally (fun e => tally w (countedFor e)) (kept edges) := by
  induction edges using List.reverseRecOn with
  | nil => rfl
  | append_singleton edges e ih =>
    rw [gateRun_concat, tally_append, ih, (gated_gateRun edges).tally_gateEmit e w]

/-! ## The state of a client -/

/-- What `Q4FilterState` keeps for a client. -/
structure Q4FilterClient where
  sources : Dict Q4AccountId SourceState := ∅
  forwardedByPartition : Dict Nat Nat := ∅
  processed : Nat := 0

namespace Q4Filter

variable (cfg : Q4Config)

/-- `_partition_of`. -/
def partitionOf (counted : Q4CountedEdge) : Nat :=
  cfg.partitionForParts counted.intermediate.parts cfg.sumAmount

/-- One transaction of `_apply_data`. -/
def applyEdge (s : Q4FilterClient) (edge : Q4TransactionEdge) : Q4FilterClient :=
  let (sources, counted) := gateStep s.sources edge
  { s with
    sources
    forwardedByPartition := counted.foldl (fun forwarded counted =>
      forwarded.set (partitionOf cfg counted) (forwarded.getD (partitionOf cfg counted) 0 + 1))
      s.forwardedByPartition }

/-- `_apply_data`. -/
def applyData (s : Q4FilterClient) (edges : List Q4TransactionEdge) : Q4FilterClient :=
  { edges.foldl (applyEdge cfg) s with processed := s.processed + edges.length }

/-- One transaction of `predict_data_outputs`, on copies of the sources it meets. -/
def predictEdge (sources : Dict Q4AccountId SourceState)
    (work : Dict Q4AccountId SourceState × Dict Nat (List Q4CountedEdge))
    (edge : Q4TransactionEdge) : Dict Q4AccountId SourceState × Dict Nat (List Q4CountedEdge) :=
  let state := (work.1.get? edge.source).getD (sources.getD edge.source {})
  let (state', counted) := gateEmit state edge
  (work.1.set edge.source state', groupInto (partitionOf cfg) work.2 counted)

/-- `predict_data_outputs`. -/
def predictDataOutputs (s : Q4FilterClient) (edges : List Q4TransactionEdge) :
    Dict Nat (List Q4CountedEdge) :=
  (edges.foldl (predictEdge cfg s.sources) (∅, ∅)).2

/-- `_build_data_outputs`. -/
def buildDataOutputs (s : Q4FilterClient) (edges : List Q4TransactionEdge) :
    List (Output Q4CountedEdge) :=
  dataOutputs cfg.filterBatchMaxEdges (predictDataOutputs cfg s edges)
    (predictDataOutputs cfg s edges).sortedKeys

/-- `_build_eof_outputs`. -/
def buildEofOutputs (id : Nat) (s : Q4FilterClient) : List (Output Q4CountedEdge) :=
  eofOutputs id cfg.sumAmount fun partition => s.forwardedByPartition.getD partition 0

def accumulator (id : Nat) :
    Accumulator Q4TransactionEdge Q4FilterClient (Output Q4CountedEdge) where
  fresh := {}
  applyData := applyData cfg
  dataOutputs := buildDataOutputs cfg
  flushOutputs := buildEofOutputs cfg id

/-! ## What a run of batches emits -/

variable {cfg}

theorem sources_applyData (s : Q4FilterClient) (edges : List Q4TransactionEdge) :
    (applyData cfg s edges).sources = (gateRun s.sources edges).1 := by
  have key : (edges.foldl (applyEdge cfg) s).sources = (gateRun s.sources edges).1 := by
    induction edges generalizing s with
    | nil => rfl
    | cons e edges ih => exact ih _
  exact key

/-- The prediction on copies returns what the gates emit. -/
theorem predictDataOutputs_eq (s : Q4FilterClient) (edges : List Q4TransactionEdge) :
    predictDataOutputs cfg s edges = groupInto (partitionOf cfg) ∅ (gateRun s.sources edges).2 := by
  -- the copies shadow the sources they were taken from
  have key : ∀ (edges : List Q4TransactionEdge) (work : Dict Q4AccountId SourceState)
      (groups : Dict Nat (List Q4CountedEdge)) (sources : Dict Q4AccountId SourceState),
      (∀ a, sources.getD a {} = (work.get? a).getD (s.sources.getD a {})) →
      (edges.foldl (predictEdge cfg s.sources) (work, groups)).2 =
        groupInto (partitionOf cfg) groups (gateRun sources edges).2 := by
    intro edges
    induction edges with
    | nil => intro work groups sources _; rfl
    | cons e edges ih =>
      intro work groups sources hw
      rw [List.foldl_cons, gateRun, groupInto_append]
      simp only [gateStep, hw e.source]
      refine ih _ _ _ fun a => ?_
      rw [Dict.getD_set, Dict.get?_set]
      split
      · rfl
      · exact hw a
  exact key edges ∅ ∅ s.sources fun a => rfl

/-- What happens at a worker: a packet of the date filters, or the end of a client's stream. -/
inductive Event where
  | packet (p : Packet Transaction)
  | flush (clientId : Nat)
  deriving DecidableEq

/-- `Q4FilterWorker`. -/
structure Node where
  byClient : Dict Nat Q4FilterClient := ∅
  closed : Finset Nat := ∅
  inbox : Inbox := {}

variable (cfg)

def clientState (n : Node) (clientId : Nat) : Q4FilterClient := n.byClient.getD clientId {}

/-- The transaction can be read: every bank id that is all digits is a number. -/
def Readable (tx : Transaction) : Prop := (edgeFromTx cfg.unicode tx).toOption.isSome

instance (tx : Transaction) : Decidable (Readable cfg tx) := inferInstanceAs (Decidable (_ = true))

/-- The edges of the transactions that can be read. -/
def edgesOf (txs : List Transaction) : List Q4TransactionEdge :=
  txs.filterMap fun tx => (edgeFromTx cfg.unicode tx).toOption

/-- `DATA`. A transaction that cannot be read raises, and the packet goes back to the queue. -/
def handleData (n : Node) (p : Packet Transaction) (batch : List Transaction) :
    Node × List (Output Q4CountedEdge) :=
  if n.inbox.classify p.key ≠ .new then (n, [])
  else if p.clientId ∈ n.closed then ({ n with inbox := n.inbox.finish p.key }, [])
  else match batch.mapM (edgeFromTx cfg.unicode) with
    | .error _ => (n, [])
    | .ok edges =>
      ({ n with
          byClient := n.byClient.set p.clientId (applyData cfg (clientState n p.clientId) edges)
          inbox := n.inbox.finish p.key },
        buildDataOutputs cfg (clientState n p.clientId) edges)

/-- An upstream `EOF` concerns the coordinator only. -/
def handleUpstreamEof (n : Node) (p : Packet Transaction) : Node :=
  if p.clientId ∈ n.closed then n
  else if n.inbox.classify p.key ≠ .new then n
  else { n with inbox := n.inbox.finish p.key }

/-- The `EOF`s and the `close` change. -/
def flush (id : Nat) (n : Node) (clientId : Nat) : Node × List (Output Q4CountedEdge) :=
  if clientId ∈ n.closed then (n, [])
  else
    ({ n with
        byClient := n.byClient.erase clientId
        closed := insert clientId n.closed },
      buildEofOutputs cfg id (clientState n clientId))

def Event.clientId : Event → Nat
  | .packet p => p.clientId
  | .flush clientId => clientId

def exec (id : Nat) (n : Node) : Event → Node × List (Output Q4CountedEdge)
  | .packet p =>
    match p.body with
    | .data batch => handleData cfg n p batch
    | .eof _ => (handleUpstreamEof n p, [])
  | .flush clientId => flush cfg id n clientId

/-- The worker after some events, and all its outputs, each with its client. -/
def run (id : Nat) (n : Node) : List Event → Node × List (Nat × Output Q4CountedEdge)
  | [] => (n, [])
  | e :: es =>
    let (n', outputs) := exec cfg id n e
    let (n'', rest) := run id n' es
    (n'', outputs.map (Prod.mk e.clientId) ++ rest)

/-- The outputs of a worker for a client over some events. -/
def outputsFor (id clientId : Nat) (es : List Event) : List (Output Q4CountedEdge) :=
  ((run cfg id {} es).2.filter (·.1 = clientId)).map Prod.snd

/-- The packets among some events. -/
def packets (es : List Event) : List (Packet Transaction) :=
  es.filterMap fun e => match e with
    | .packet p => some p
    | .flush _ => none

/-- What a client's events owe to the packets sent to the worker: nothing else comes, everything
comes, once or more, before the client's stream ends, and it does end. -/
structure Supplied (clientId : Nat) (sent : List (Packet Transaction)) (es : List Event) :
    Prop where
  sent_of_mem : ∀ p ∈ packets es, p.clientId = clientId → p ∈ sent
  flushed : .flush clientId ∈ es
  flushLast : ∀ p ∈ sent, ¬ p.body.isEof →
    p ∈ packets (es.takeWhile fun e => decide (e ≠ .flush clientId))

instance (clientId : Nat) (sent : List (Packet Transaction)) (es : List Event) :
    Decidable (Supplied clientId sent es) :=
  decidable_of_iff (_ ∧ _ ∧ _)
    ⟨fun ⟨h₁, h₂, h₃⟩ => ⟨h₁, h₂, h₃⟩, fun h => ⟨h.sent_of_mem, h.flushed, h.flushLast⟩⟩

/-! ### One event -/

variable {cfg}

theorem mapM_edgeFromTx {batch : List Transaction} (h : ∀ tx ∈ batch, Readable cfg tx) :
    batch.mapM (edgeFromTx cfg.unicode) = .ok (edgesOf cfg batch) := by
  induction batch with
  | nil => rfl
  | cons tx batch ih =>
    have htx : Readable cfg tx := h tx List.mem_cons_self
    rw [List.mapM_cons, ih fun tx htx => h tx (List.mem_cons_of_mem _ htx)]
    unfold Readable at htx
    unfold edgesOf
    cases he : edgeFromTx cfg.unicode tx with
    | error e => rw [he] at htx; cases htx
    | ok edge => rw [List.filterMap_cons, he]; rfl

theorem packets_append (es es' : List Event) : packets (es ++ es') = packets es ++ packets es' :=
  List.filterMap_append

theorem packets_packet (p : Packet Transaction) : packets [.packet p] = [p] := rfl

theorem packets_flush (clientId : Nat) : packets [.flush clientId] = [] := rfl

/-- What an event cannot change for a client: the client is not the event's. -/
structure SameFor (c : Nat) (e : Event) (n n' : Node) : Prop where
  closed : c ∈ n'.closed ↔ c ∈ n.closed
  state : clientState n' c = clientState n c
  tracks : ∀ pre, Tracks c (packets pre) n.inbox → Tracks c (packets (pre ++ [e])) n'.inbox

variable {id c : Nat} {n : Node}

theorem SameFor.skipped {p : Packet Transaction} (h : p.clientId ≠ c) :
    SameFor c (.packet p) n n where
  closed := .rfl
  state := rfl
  tracks pre ht := by rw [packets_append]; exact ht.skip fun hc => absurd hc h

theorem SameFor.finished {p : Packet Transaction} {n' : Node} (hc : n'.closed = n.closed)
    (hs : clientState n' c = clientState n c) (hi : n'.inbox = n.inbox.finish p.key) :
    SameFor c (.packet p) n n' where
  closed := by rw [hc]
  state := hs
  tracks pre ht := by rw [packets_append, hi]; exact ht.finish p

theorem sameFor_handleData {p : Packet Transaction} (h : p.clientId ≠ c)
    (batch : List Transaction) :
    SameFor c (.packet p) n (handleData cfg n p batch).1 := by
  unfold handleData
  split
  · exact .skipped h
  · split
    · exact .finished rfl rfl rfl
    · split
      · exact .skipped h
      · exact .finished rfl (by simp [clientState, Dict.getD_set, h]) rfl

theorem sameFor_handleUpstreamEof {p : Packet Transaction} (h : p.clientId ≠ c) :
    SameFor c (.packet p) n (handleUpstreamEof n p) := by
  unfold handleUpstreamEof
  split
  · exact .skipped h
  · split
    · exact .skipped h
    · exact .finished rfl rfl rfl

theorem sameFor_flush {clientId : Nat} (h : clientId ≠ c) :
    SameFor c (.flush clientId) n (flush cfg id n clientId).1 := by
  have ht : ∀ pre, Tracks c (packets pre) n.inbox →
      Tracks c (packets (pre ++ [.flush clientId])) n.inbox := fun pre ht => by
    rw [packets_append, packets_flush, List.append_nil]; exact ht
  unfold flush
  split
  · exact ⟨.rfl, rfl, ht⟩
  · exact ⟨by simp [Ne.symm h], by simp [clientState, Dict.getD_erase, Ne.symm h], ht⟩

theorem sameFor_exec {e : Event} (h : e.clientId ≠ c) : SameFor c e n (exec cfg id n e).1 := by
  cases e with
  | packet p =>
    cases hb : p.body with
    | data batch => simp only [exec, hb]; exact sameFor_handleData h batch
    | eof control => simp only [exec, hb]; exact sameFor_handleUpstreamEof h
  | flush clientId => exact sameFor_flush h

/-- A closed client stays closed and gets no further output. -/
theorem exec_of_closed {e : Event} (h : e.clientId ∈ n.closed) :
    (exec cfg id n e).2 = [] ∧ (exec cfg id n e).1.closed = n.closed := by
  cases e with
  | packet p =>
    have hp : p.clientId ∈ n.closed := h
    cases hb : p.body with
    | data batch =>
      simp only [exec, hb, handleData, if_pos hp]
      split <;> exact ⟨rfl, rfl⟩
    | eof control => simp [exec, hb, handleUpstreamEof, if_pos hp]
  | flush clientId =>
    have hc : clientId ∈ n.closed := h
    rw [exec, flush, if_pos hc]
    exact ⟨rfl, rfl⟩

/-! ### All the events of a client -/

/-- The packets sent to a worker for a client: all its own, of distinct coordinates, and
readable. -/
structure Input (cfg : Q4Config) (c : Nat) (sent : List (Packet Transaction)) : Prop where
  client : ∀ p ∈ sent, p.clientId = c
  keys : (sent.map key).Nodup
  readable : ∀ batch ∈ batches sent, ∀ tx ∈ batch, Readable cfg tx

variable (cfg) in
/-- A client that is open: the packets delivered are applied, each once, in the order `acc`. -/
structure Gathering (id c : Nat) (pre : List Event) (n : Node)
    (outputs : List (Output Q4CountedEdge)) (acc : List (Packet Transaction)) : Prop where
  tracks : Tracks c (packets pre) n.inbox
  isOpen : c ∉ n.closed
  unflushed : .flush c ∉ pre
  nodup : acc.Nodup
  mem_acc : ∀ p, p ∈ acc ↔ p ∈ packets pre ∧ p.clientId = c
  state : clientState n c = (accumulator cfg id).afterBatches ((batches acc).map (edgesOf cfg))
  outputs_eq : outputs = (accumulator cfg id).emittedFrom {} ((batches acc).map (edgesOf cfg))

variable (cfg) in
/-- A client that is closed: everything sent to the worker went into its outputs. -/
def Finished (id c : Nat) (sent : List (Packet Transaction)) (n : Node)
    (outputs : List (Output Q4CountedEdge)) : Prop :=
  c ∈ n.closed ∧ ∃ bs, bs.Perm ((batches sent).map (edgesOf cfg)) ∧
    outputs = (accumulator cfg id).emitted bs

variable {pre post es : List Event} {outputs : List (Output Q4CountedEdge)}
  {acc sent : List (Packet Transaction)} {p : Packet Transaction}

theorem Gathering.mem_acc_concat (h : Gathering cfg id c pre n outputs acc) (hc : p.clientId = c)
    (q : Packet Transaction) :
    q ∈ acc ++ [p] ↔ q ∈ packets (pre ++ [.packet p]) ∧ q.clientId = c := by
  rw [packets_append, packets_packet, List.mem_append, List.mem_append, h.mem_acc,
    List.mem_singleton]
  constructor
  · rintro (h | rfl)
    · exact ⟨.inl h.1, h.2⟩
    · exact ⟨.inr rfl, hc⟩
  · rintro ⟨h | rfl, hq⟩
    · exact .inl ⟨h, hq⟩
    · exact .inr rfl

/-- An event of another client. -/
theorem Gathering.other (h : Gathering cfg id c pre n outputs acc) {e : Event}
    (hc : e.clientId ≠ c) :
    Gathering cfg id c (pre ++ [e]) (exec cfg id n e).1 outputs acc := by
  have hs : SameFor c e n (exec cfg id n e).1 := sameFor_exec hc
  exact { h with
    tracks := hs.tracks pre h.tracks
    isOpen := fun hm => h.isOpen (hs.closed.mp hm)
    unflushed := fun hm => by
      rcases List.mem_append.mp hm with hm | hm
      · exact h.unflushed hm
      · exact hc (congrArg Event.clientId (List.mem_singleton.mp hm)).symm
    mem_acc := fun q => by
      rw [h.mem_acc, packets_append, List.mem_append]
      refine and_congr_left fun hq => ⟨.inl, fun ho => ho.resolve_right fun hm => hc ?_⟩
      cases e with
      | packet p => rw [packets_packet, List.mem_singleton] at hm; exact hm ▸ hq
      | flush clientId => cases hm
    state := hs.state.trans h.state }

/-- The same packet again. -/
theorem Gathering.again (h : Gathering cfg id c pre n outputs acc)
    (hd : n.inbox.classify p.key = .done) (hp : p ∈ packets pre) :
    Gathering cfg id c (pre ++ [.packet p]) n outputs acc :=
  { h with
    tracks := by rw [packets_append]; exact h.tracks.skip fun _ => hd
    unflushed := by simpa using h.unflushed
    mem_acc := fun q => by
      rw [h.mem_acc, packets_append, packets_packet, List.mem_append, List.mem_singleton]
      exact and_congr_left fun _ => ⟨.inl, fun ho => ho.elim (fun hm => hm) fun he => he ▸ hp⟩ }

theorem Gathering.nodup_concat (h : Gathering cfg id c pre n outputs acc) (hp : p ∉ packets pre) :
    (acc ++ [p]).Nodup := by
  rw [← List.concat_eq_append]
  exact h.nodup.concat fun hm => hp ((h.mem_acc p).mp hm).1

/-- A packet that is new. -/
theorem Gathering.packet (h : Gathering cfg id c pre n outputs acc) (hi : Input cfg c sent)
    (hps : p ∈ sent) (hn : n.inbox.classify p.key = .new) (hp : p ∉ packets pre) :
    Gathering cfg id c (pre ++ [.packet p]) (exec cfg id n (.packet p)).1
      (outputs ++ (exec cfg id n (.packet p)).2) (acc ++ [p]) := by
  obtain rfl := hi.client p hps
  have hopen := h.isOpen
  have hshared : .flush p.clientId ∉ pre ++ [.packet p] := by simpa using h.unflushed
  have htracks : Tracks p.clientId (packets (pre ++ [.packet p])) (n.inbox.finish p.key) := by
    rw [packets_append]; exact h.tracks.finish p
  cases hb : p.body with
  | data batch =>
    have hmem : batch ∈ batches sent := List.mem_filterMap.mpr ⟨p, hps, by rw [hb]⟩
    simp only [exec, hb, handleData, if_neg (not_not.mpr hn), if_neg hopen,
      mapM_edgeFromTx (hi.readable batch hmem)]
    exact { h with
      tracks := htracks
      unflushed := hshared
      nodup := h.nodup_concat hp
      mem_acc := h.mem_acc_concat rfl
      state := by
        rw [batches_append, batches_data hb, List.map_append, List.map_singleton,
          Accumulator.afterBatches_concat, ← h.state]
        simp only [clientState, Dict.getD_set, if_true]
        rfl
      outputs_eq := by
        rw [batches_append, batches_data hb, List.map_append, List.map_singleton,
          Accumulator.emittedFrom_concat, ← h.outputs_eq, h.state]
        rfl }
  | eof control =>
    simp only [exec, hb, handleUpstreamEof, if_neg (not_not.mpr hn), if_neg hopen, List.append_nil]
    exact { h with
      tracks := htracks
      unflushed := hshared
      nodup := h.nodup_concat hp
      mem_acc := h.mem_acc_concat rfl
      state := by
        rw [batches_append, batches_eof hb, List.append_nil]
        exact h.state
      outputs_eq := by
        rw [batches_append, batches_eof hb, List.append_nil]
        exact h.outputs_eq }

/-- The batches of the packets that carry data. -/
theorem batches_filter (ps : List (Packet Transaction)) :
    batches (ps.filter fun p => !p.body.isEof) = batches ps := by
  induction ps with
  | nil => rfl
  | cons p ps ih =>
    cases hb : p.body <;> simp_all [batches, Body.isEof]

/-- The end of the client's stream. -/
theorem Gathering.flush (h : Gathering cfg id c pre n outputs acc) (hi : Input cfg c sent)
    (hs : Supplied c sent es) (hes : es = pre ++ .flush c :: post) :
    Finished cfg id c sent (exec cfg id n (.flush c)).1
      (outputs ++ (exec cfg id n (.flush c)).2) := by
  rw [exec, Q4Filter.flush, if_neg h.isOpen]
  refine ⟨Finset.mem_insert_self _ _, (batches acc).map (edgesOf cfg), List.Perm.map _ ?_, ?_⟩
  · have hpre : es.takeWhile (fun e => decide (e ≠ .flush c)) = pre := by
      rw [hes, List.takeWhile_append_of_pos]
      · simp
      · intro e he
        simpa using ne_of_mem_of_not_mem he h.unflushed
    have hmem : ∀ p, p ∈ acc.filter (fun p => !p.body.isEof) ↔
        p ∈ sent.filter (fun p => !p.body.isEof) := by
      intro p
      rw [List.mem_filter, List.mem_filter, h.mem_acc]
      refine and_congr_left fun hd => ⟨fun hp => ?_, fun hp => ⟨?_, hi.client p hp⟩⟩
      · refine hs.sent_of_mem p ?_ hp.2
        rw [hes, packets_append]
        exact List.mem_append_left _ hp.1
      · have := hs.flushLast p hp (by simpa using hd)
        rwa [hpre] at this
    rw [← batches_filter acc, ← batches_filter sent]
    exact batches_perm ((List.perm_ext_iff_of_nodup (h.nodup.filter _)
      (hi.keys.of_map.filter _)).mpr hmem)
  · rw [h.outputs_eq, h.state]
    rfl

variable (cfg) in
def Inv (id c : Nat) (sent : List (Packet Transaction)) (pre : List Event) (n : Node)
    (outputs : List (Output Q4CountedEdge)) : Prop :=
  (∃ acc, Gathering cfg id c pre n outputs acc) ∨ Finished cfg id c sent n outputs

/-- One event keeps the invariant. -/
theorem Inv.step {e : Event} (h : Inv cfg id c sent pre n outputs) (hi : Input cfg c sent)
    (hs : Supplied c sent es) (ho : Orderly c (packets es)) (hes : es = pre ++ e :: post) :
    Inv cfg id c sent (pre ++ [e]) (exec cfg id n e).1
      (outputs ++ if e.clientId = c then (exec cfg id n e).2 else []) := by
  by_cases hc : e.clientId = c
  · rw [if_pos hc]
    rcases h with ⟨acc, h⟩ | ⟨hcl, hbs⟩
    · cases e with
      | flush clientId =>
        have hcc : clientId = c := hc
        subst hcc
        exact .inr (h.flush hi hs hes)
      | packet p =>
        have hpc : p.clientId = c := hc
        have hsplit : packets es = packets pre ++ (p :: packets post) := by
          rw [hes, packets_append]; rfl
        have hsent : ∀ q ∈ packets pre ++ [p], q.clientId = c → q ∈ sent := by
          intro q hq hqc
          refine hs.sent_of_mem q ?_ hqc
          rw [hsplit]
          rcases List.mem_append.mp hq with hq | hq
          · exact List.mem_append_left _ hq
          · rw [List.mem_singleton.mp hq]; simp
        have hps : p ∈ sent := hsent p (by simp) hpc
        have hmem : p.seq ∈ channelSeqs c p.senderId (packets pre) ↔ p ∈ packets pre := by
          rw [mem_channelSeqs]
          constructor
          · rintro ⟨q, hq, hk⟩
            have hqc : q.clientId = c := congrArg InputKey.clientId hk
            have hk' : q.key = p.key := by rw [hk, Packet.key, hpc]
            have hqs : q ∈ sent := hsent q (List.mem_append_left _ hq) hqc
            exact List.inj_on_of_nodup_map hi.keys hqs hps hk' ▸ hq
          · exact fun hp => ⟨p, hp, by rw [Packet.key, hpc]⟩
        have hclass := h.tracks.classify (p := p) (Orderly.of_append (hsplit ▸ ho)) hpc
        by_cases hp : p ∈ packets pre
        · rw [if_pos (hmem.mpr hp)] at hclass
          have hsame : exec cfg id n (.packet p) = (n, []) := by
            have hne : n.inbox.classify p.key ≠ .new := by rw [hclass]; decide
            cases hb : p.body with
            | data batch => simp only [exec, hb, handleData, if_pos hne]
            | eof control => simp [exec, hb, handleUpstreamEof, hne]
          rw [hsame, List.append_nil]
          exact .inl ⟨acc, h.again hclass hp⟩
        · rw [if_neg fun hm => hp (hmem.mp hm)] at hclass
          exact .inl ⟨acc ++ [p], h.packet hi hps hclass hp⟩
    · obtain ⟨hnil, hsame⟩ : (exec cfg id n e).2 = [] ∧ (exec cfg id n e).1.closed = n.closed :=
        exec_of_closed (hc ▸ hcl)
      rw [hnil, List.append_nil]
      exact .inr ⟨hsame ▸ hcl, hbs⟩
  · rw [if_neg hc, List.append_nil]
    rcases h with ⟨acc, h⟩ | ⟨hcl, hbs⟩
    · exact .inl ⟨acc, h.other hc⟩
    · exact .inr ⟨(sameFor_exec hc).closed.mpr hcl, hbs⟩

/-- The invariant after all the events. -/
theorem Inv.run (h : Inv cfg id c sent pre n outputs) (hi : Input cfg c sent)
    (hs : Supplied c sent es) (ho : Orderly c (packets es)) (hes : es = pre ++ post) :
    Inv cfg id c sent es (run cfg id n post).1
      (outputs ++ ((run cfg id n post).2.filter (·.1 = c)).map Prod.snd) := by
  induction post generalizing pre n outputs with
  | nil => simpa [Q4Filter.run, hes] using h
  | cons e post ih =>
    have hrest := ih (h.step hi hs ho hes) (by simp [hes])
    simp only [Q4Filter.run, List.filter_append, List.map_append]
    rw [List.append_assoc] at hrest
    convert hrest using 2
    by_cases hc : e.clientId = c <;> simp [hc, List.filter_map, Function.comp_def]

end Q4Filter

end MoneyLaundering
