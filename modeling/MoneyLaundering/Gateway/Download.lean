import Mathlib.Data.List.ReduceOption
import MoneyLaundering.Client.ResultLines
import MoneyLaundering.Gateway.Delivery

/-!
# From the consumers to the result files

The puts of five consumers interleave in the queue object of a session, and `_wait_for_results`
sends it line by line up to the mark. A consumer has one callback at a time, so the lines of a query
keep the order in which their messages were admitted, all the way to the file of the query at the
client.
-/

namespace MoneyLaundering

open Bytes InternalProtocol Transition

namespace Gateway

variable (cfg : GatewayConfig) (k : Nat)

/-! ## What the consumers put -/

/-- The lines of a message. -/
def csvLines (q : Query) (m : UnpackedResult) : List ResultLine :=
  if m.msgType = MessageType.data.toNat then (cfg.payloadToCsvLines q m.payload).1.map
    (⟨q, ·⟩) else []

/-- What stands for a line, or the mark, in a queue object. -/
def queueItem : Option ResultLine → QueueItem
  | some r => .line (r.line ++ "\n")
  | none => .endOfResults

theorem resultPuts_eq (q : Query) (m : UnpackedResult) (remaining : Int) : ∃ left :
    List (Option ResultLine),
    (resultPuts cfg q m remaining).1 = left.map queueItem ∧
    left.reduceOption = csvLines cfg q m := by
  unfold resultPuts csvLines
  by_cases hdata : m.msgType = MessageType.data.toNat
  · rw [if_pos hdata, if_pos hdata]
    refine ⟨((cfg.payloadToCsvLines q m.payload).1.map (⟨q, ·⟩)).map some, ?_, ?_⟩
    · simp only [List.map_map]
      rfl
    · rw [List.reduceOption, List.filterMap_map]
      exact List.filterMap_some
  · rw [if_neg hdata, if_neg hdata]
    split
    · split
      · exact ⟨[none], rfl, rfl⟩
      · exact ⟨[], rfl, rfl⟩
    · exact ⟨[], rfl, rfl⟩

/-- The message that a step admits for the queue object `k`. -/
def admitted (g : Gateway) : Label → List (Query × UnpackedResult)
  | .deliver q message =>
    match unpackResult q message with
    | .error _ => []
    | .ok m =>
      if g.clientQueues.get? m.clientId = some k ∧ ¬ ∃ key ∈ dedupKey q m,
        key ∈ g.addressedResultSeen then [(q, m)]
      else []
  | .openSession _ | .closeSession _ | .advance _ => []

/-- A run of the gateway, and the messages admitted for the queue object `k` in order. -/
inductive ResultRun : Gateway → List (Query × UnpackedResult) → Prop
  | init : ResultRun {} []
  | step {g g' : Gateway} {l : Label} {log : List (Query × UnpackedResult)} (h : ResultRun g log)
      (he : g.exec cfg l = some g') : ResultRun g' (log ++ admitted k g l)

/-- The lines of the admitted messages of a query. -/
def acceptedLines (log : List (Query × UnpackedResult)) (q : Query) : List ResultLine :=
  (log.filter (·.1 = q)).flatMap fun e => csvLines cfg e.1 e.2

/-- What is in the queue object, and what the callback of each query will put there: of each query,
the lines of its messages in order. -/
structure InOrder (g : Gateway) (log : List (Query × UnpackedResult))
    (put : List (Option ResultLine)) (left : Query → List (Option ResultLine)) : Prop where
  queue_eq : g.queue k = put.map queueItem
  waiting_eq : ∀ q, waiting k (g.tasks q) = (left q).map queueItem
  query : ∀ q, ∀ r ∈ (left q).reduceOption, r.query = q
  order : ∀ q, put.reduceOption.filter (·.query = q) ++ (left q).reduceOption =
    acceptedLines cfg log q

variable {cfg k} {g g' : Gateway} {log : List (Query × UnpackedResult)}
    {put : List (Option ResultLine)}
  {left : Query → List (Option ResultLine)}

theorem csvLines_query {q : Query} {m : UnpackedResult} {r : ResultLine}
    (h : r ∈ csvLines cfg q m) : r.query = q := by
  unfold csvLines at h
  split at h
  · obtain ⟨csv, -, rfl⟩ := List.mem_map.mp h
    rfl
  · cases h

theorem acceptedLines_append (log log' : List (Query × UnpackedResult)) (q : Query) :
    acceptedLines cfg (log ++ log') q = acceptedLines cfg log q ++ acceptedLines cfg log' q := by
  rw [acceptedLines, List.filter_append, List.flatMap_append]
  rfl

theorem InOrder.init : InOrder cfg k {} [] [] fun _ => [] where
  queue_eq := by simp [queue]
  waiting_eq _ := rfl
  query _ r h := absurd h List.not_mem_nil
  order _ := rfl

/-- A step that puts nothing and admits nothing. -/
theorem InOrder.same (h : InOrder cfg k g log put left) (hqueue : g'.queue k = g.queue k)
    (htasks : g'.tasks = g.tasks) : InOrder cfg k g' (log ++ []) put left where
  queue_eq := hqueue.trans h.queue_eq
  waiting_eq q := by
    rw [htasks]
    exact h.waiting_eq q
  query := h.query
  order := by
    rw [List.append_nil]
    exact h.order

/-- The callback of `q` takes up a message. -/
theorem InOrder.accept (h : InOrder cfg k g log put left) {q : Query}
    {m : UnpackedResult} {k' : Nat}
    (hidle : g.tasks q = none) : ∃ left', InOrder cfg k (g.accept cfg q m k')
      (log ++ if k' = k then [(q, m)] else []) put left' := by
  obtain ⟨fresh, hfresh, hlines⟩ := resultPuts_eq cfg q m (g.remaining m)
  have hnone : left q = [] := by
    have := h.waiting_eq q
    rw [hidle] at this
    exact List.map_eq_nil_iff.mp this.symm
  refine ⟨fun q' => if q' = q then (if k' = k then fresh else []) else left q',
    ⟨h.queue_eq, fun q' => ?_, fun q' r hr => ?_, fun q' => ?_⟩⟩
  · by_cases hq : q' = q
    · subst hq
      simp only [Gateway.accept, if_true, waiting, hfresh]
      split <;> rfl
    · simp only [Gateway.accept, if_neg hq]
      exact h.waiting_eq q'
  · split at hr
    · next hq =>
      split at hr
      · rw [hlines] at hr
        exact (csvLines_query hr).trans hq.symm
      · cases hr
    · exact h.query q' r hr
  · have horder := h.order q'
    rw [acceptedLines_append, ← horder, List.append_assoc]
    refine (List.append_right_inj _).mpr ?_
    by_cases hq : q' = q
    · subst hq
      rw [if_pos rfl, hnone]
      by_cases hk : k' = k
      · rw [if_pos hk, if_pos hk, hlines]
        simp [acceptedLines]
      · rw [if_neg hk, if_neg hk]
        rfl
    · rw [if_neg hq]
      by_cases hk : k' = k
      · rw [if_pos hk]
        simp [acceptedLines, Ne.symm hq]
      · rw [if_neg hk]
        simp [acceptedLines]

/-- A step of a callback that the queue object `k` does not see. -/
theorem InOrder.elsewhere (h : InOrder cfg k g log put left) (hqueue : g'.queue k = g.queue k)
    (hwaiting : ∀ q, waiting k (g'.tasks q) = waiting k (g.tasks q)) :
    InOrder cfg k g' log put left where
  queue_eq := hqueue.trans h.queue_eq
  waiting_eq q := (hwaiting q).trans (h.waiting_eq q)
  query := h.query
  order := h.order

/-- A put moves the next line of a callback to the queue object. -/
theorem InOrder.advance (h : InOrder cfg k g log put left) (hg : g.WF) {q : Query}
    (he : g.advance q = some g') :
    ∃ put' left', InOrder cfg k g' log put' left' := by
  obtain ⟨t, ht, ⟨item, puts, hputs, rfl⟩ | ⟨hputs, rfl⟩⟩ := advance_cases he
  · have hmodify := getElem?_modify_append (hg.task_lt ht) item k
    by_cases hk : t.queue = k
    · have hw := h.waiting_eq q
      rw [ht, waiting, if_pos hk, hputs] at hw
      obtain ⟨next, rest, hleft, rfl, rfl⟩ := List.map_eq_cons_iff.mp hw.symm
      rw [if_pos hk] at hmodify
      have hquery := h.query q
      rw [hleft] at hquery
      refine ⟨put ++ [next], fun q' => if q' = q then rest else left q', ?_, fun q' =>
        ?_, fun q' r hr => ?_, fun q' => ?_⟩
      · rw [List.map_append, ← h.queue_eq]
        exact hmodify
      · by_cases hq : q' = q
        · simp only [if_pos hq, waiting, if_pos hk]
        · simp only [if_neg hq]
          exact h.waiting_eq q'
      · split at hr
        · next hq =>
          refine (hquery r ?_).trans hq.symm
          rw [← List.singleton_append, List.reduceOption_append]
          exact List.mem_append_right _ hr
        · exact h.query q' r hr
      · have horder := h.order q'
        rw [List.reduceOption_append, List.filter_append, List.append_assoc, ← horder]
        refine (List.append_right_inj _).mpr ?_
        have hnext : ∀ r ∈ [next].reduceOption, r.query = q := by
          intro r hr
          refine hquery r ?_
          rw [← List.singleton_append, List.reduceOption_append]
          exact List.mem_append_left _ hr
        by_cases hq : q' = q
        · subst hq
          have hself : [next].reduceOption.filter (·.query = q') = [next].reduceOption :=
            List.filter_eq_self.mpr fun r hr => decide_eq_true (hnext r hr)
          rw [if_pos rfl, hself, hleft, ← List.reduceOption_append]
          rfl
        · have hnone : [next].reduceOption.filter (·.query = q') = [] :=
            List.filter_eq_nil_iff.mpr fun r hr hquery' =>
              hq ((of_decide_eq_true hquery').symm.trans (hnext r hr))
          rw [if_neg hq, hnone, List.nil_append]
    · rw [if_neg hk, List.append_nil] at hmodify
      refine ⟨put, left, h.elsewhere hmodify fun q' => ?_⟩
      by_cases hq : q' = q
      · subst hq
        simp only [if_true, ht, waiting, if_neg hk]
      · simp only [if_neg hq]
  · refine ⟨put, left, h.elsewhere rfl fun q' => ?_⟩
    by_cases hq : q' = q
    · subst hq
      simp only [if_true, ht, waiting, hputs, ite_self]
    · simp only [if_neg hq]

theorem queue_openSession (g : Gateway) (c : Nat) : (g.openSession cfg c).queue k = g.queue k := by
  unfold queue Gateway.openSession
  by_cases hk : k < g.queues.length
  · rw [List.getElem?_append_left hk]
  · rw [List.getElem?_append_right (Nat.le_of_not_lt hk),
      List.getElem?_eq_none (Nat.le_of_not_lt hk)]
    cases k - g.queues.length <;> rfl

/-- A delivery either settles at once, or its message is admitted for one queue object. -/
theorem receive_admitted (g : Gateway) (q : Query) (message : Bytes) :
    (∃ acks, g.receive cfg q message = g.settle q acks ∧ admitted k g (.deliver q message) = []) ∨
    ∃ m k', g.receive cfg q message = g.accept cfg q m k' ∧
      admitted k g (.deliver q message) = if k' = k then [(q, m)] else [] := by
  dsimp only [receive, admitted]
  cases unpackResult q message with
  | error error => exact .inl ⟨false, rfl, rfl⟩
  | ok m =>
    dsimp only
    cases hqueue : g.clientQueues.get? m.clientId with
    | none => exact .inl ⟨true, rfl, if_neg fun h => by cases h.1⟩
    | some k' =>
      dsimp only
      by_cases hseen : ∃ key ∈ dedupKey q m, key ∈ g.addressedResultSeen
      · rw [if_pos hseen]
        exact .inl ⟨true, rfl, if_neg fun h => h.2 hseen⟩
      · rw [if_neg hseen]
        refine .inr ⟨m, k', rfl, ?_⟩
        by_cases hk : k' = k
        · rw [if_pos ⟨congrArg some hk, hseen⟩, if_pos hk]
        · rw [if_neg (fun h => hk (Option.some.inj h.1)), if_neg hk]

theorem InOrder.exec {l : Label} (h : InOrder cfg k g log put left) (hg : g.WF)
    (he : g.exec cfg l = some g') :
    ∃ put' left', InOrder cfg k g' (log ++ admitted k g l) put' left' := by
  cases l with
  | openSession c =>
    cases he
    exact ⟨put, left, h.same (queue_openSession g c) rfl⟩
  | closeSession c =>
    cases he
    exact ⟨put, left, h.same rfl rfl⟩
  | advance q =>
    rw [admitted, List.append_nil]
    exact h.advance hg he
  | deliver q message =>
    dsimp only [Gateway.exec] at he
    split at he
    · next hq =>
      cases he
      rcases @receive_admitted cfg k g q message with ⟨acks, he, hlog⟩ | ⟨m, k', he, hlog⟩
      · rw [he, hlog]
        exact ⟨put, left, h.same rfl rfl⟩
      · rw [he, hlog]
        exact ⟨put, h.accept (Option.isNone_iff_eq_none.mp hq.2)⟩
    · cases he

theorem ResultRun.inOrder (h : ResultRun cfg k g log) :
    g.WF ∧ ∃ put left, InOrder cfg k g log put left := by
  induction h with
  | init => exact ⟨.init, [], _, .init⟩
  | step _ he ih =>
    obtain ⟨hg, put, left, hi⟩ := ih
    exact ⟨hg.exec he, hi.exec hg he⟩

/-! ## What is sent to the client -/

def isLine : QueueItem → Bool
  | .line _ => true
  | .endOfResults => false

/-- What is sent of an item. -/
def itemBytes : QueueItem → Bytes
  | .line text => encodeText text
  | .endOfResults => []

/-- `_wait_for_results`: the lines in front of the mark, one after the other. -/
def sentBytes (items : List QueueItem) : Bytes := (items.takeWhile isLine).flatMap itemBytes

/-- The lines in front of the mark. -/
def sentLines (put : List (Option ResultLine)) : List ResultLine :=
  (put.takeWhile Option.isSome).reduceOption

theorem sentLines_cons (r : ResultLine) (put : List (Option ResultLine)) :
    sentLines (some r :: put) = r :: sentLines put := by
  rw [sentLines, List.takeWhile_cons_of_pos Option.isSome_some, List.reduceOption_cons_of_some]
  rfl

theorem sentBytes_eq (put : List (Option ResultLine)) :
    sentBytes (put.map queueItem) = ((sentLines put).map ResultLine.bytes).flatten := by
  induction put with
  | nil => rfl
  | cons r put ih =>
    cases r with
    | none => rfl
    | some r =>
      have hline : isLine (queueItem (some r)) = true := rfl
      rw [sentBytes] at ih
      rw [List.map_cons, sentBytes, List.takeWhile_cons_of_pos hline, List.flatMap_cons, ih,
        sentLines_cons]
      rfl

/-- No line is behind the mark. -/
theorem sentLines_eq {put : List (Option ResultLine)}
    (h : ∀ item ∈ (put.map queueItem).dropWhile isLine, isLine item = false) :
    sentLines put = put.reduceOption := by
  induction put with
  | nil => rfl
  | cons r put ih =>
    cases r with
    | some r =>
      have hline : isLine (queueItem (some r)) = true := rfl
      rw [List.map_cons, List.dropWhile_cons_of_pos hline] at h
      rw [sentLines_cons, List.reduceOption_cons_of_some, ih h]
    | none =>
      have hnone : ∀ l : List (Option ResultLine), (∀ item ∈ l.map queueItem, isLine item = false) →
          l.reduceOption = [] := by
        intro l hl
        refine List.filterMap_eq_nil_iff.mpr fun r hr => ?_
        cases r with
        | none => rfl
        | some r => cases hl _ (List.mem_map_of_mem hr)
      rw [List.reduceOption_cons_of_none, hnone put fun item hitem =>
        h item (List.mem_cons_of_mem _ hitem)]
      rfl

theorem sentLines_isPrefix (put : List (Option ResultLine)) : sentLines put <+: put.reduceOption :=
  (List.takeWhile_prefix _).filterMap _

/-- The lines of the admitted messages come back at the client as they were sent. -/
def CleanLog (cfg : GatewayConfig) (log : List (Query × UnpackedResult)) (maxLineSize : Nat) :
    Prop :=
  ∀ e ∈ log, ∀ r ∈ csvLines cfg e.1 e.2, r.Clean maxLineSize

theorem CleanLog.accepted {maxLineSize : Nat} (h : CleanLog cfg log maxLineSize) {q : Query}
    {r : ResultLine} (hr : r ∈ acceptedLines cfg log q) : r.Clean maxLineSize := by
  obtain ⟨e, he, hr⟩ := List.mem_flatMap.mp hr
  exact h e (List.mem_of_mem_filter he) r hr

theorem InOrder.mem_accepted (h : InOrder cfg k g log put left) {r : ResultLine}
    (hr : r ∈ put.reduceOption) :
    r ∈ acceptedLines cfg log r.query := by
  rw [← h.order]
  exact List.mem_append_left _ (List.mem_filter.mpr ⟨hr, decide_eq_true rfl⟩)

/-- **From the consumers to the result files.** However the puts of the five consumers interleave,
however the bytes are cut into pieces and wherever they end, each result file holds a beginning of
the lines of its query in the order in which their messages were admitted, and one file maybe a part
of one more line. When all has come, no line is behind the mark and no callback has a line left,
each file holds all of these lines. -/
theorem lines_reach_client {maxLineSize : Nat} (hmax : 0 < maxLineSize) (h : ResultRun cfg k g log)
    (hclean : CleanLog cfg log maxLineSize) {pieces : List Bytes}
    (hpieces : pieces.flatten <+: sentBytes (g.queue k)) :
    ∃ written cut, (∀ q, written.filter (·.query = q) <+: acceptedLines cfg log q) ∧
      (cut = [] ∨ ∃ r ∈ acceptedLines cfg log r.query, cut <+: r.bytes ∧
        cut.length < r.bytes.length) ∧
      Client.logResultLines maxLineSize pieces = (if cut = [] then ResultLine.filed written
        else Client.writeLine (ResultLine.filed written) (Sender.decodeResultLine cut), .ok ⟨⟩) ∧
      (pieces.flatten = sentBytes (g.queue k) →
        (∀ item ∈ (g.queue k).dropWhile isLine, isLine item = false) →
        (∀ q, waiting k (g.tasks q) = []) →
          cut = [] ∧ ∀ q, written.filter (·.query = q) = acceptedLines cfg log q) := by
  obtain ⟨-, put, left, hi⟩ := h.inOrder
  rw [hi.queue_eq, sentBytes_eq] at hpieces
  have haccepted : ∀ r ∈ sentLines put, r ∈ acceptedLines cfg log r.query :=
    fun r hr => hi.mem_accepted ((sentLines_isPrefix put).subset hr)
  obtain ⟨written, rest, cut, hlines, hbytes, hcut, hall, hfiles⟩ :=
    ResultLine.results_filed hmax (fun r hr => hclean.accepted (haccepted r hr)) hpieces
  refine ⟨written, cut, fun q => ?_, ?_, hfiles, fun hcame hmark hidle => ?_⟩
  · have hwritten : written <+: put.reduceOption :=
      (hlines ▸ List.prefix_append _ _).trans (sentLines_isPrefix put)
    rw [← hi.order]
    exact (hwritten.filter _).trans (List.prefix_append _ _)
  · rcases hcut with hnil | ⟨r, hr, hcut⟩
    · exact .inl hnil
    · refine .inr ⟨r, haccepted r ?_, hcut⟩
      rw [hlines]
      exact List.mem_append_right _ (List.mem_of_head? hr)
  · rw [hi.queue_eq, sentBytes_eq] at hcame
    obtain ⟨hwritten, hnil⟩ := hall hcame
    refine ⟨hnil, fun q => ?_⟩
    rw [hi.queue_eq] at hmark
    have hleft : left q = [] := by
      have hwaiting := hidle q
      rw [hi.waiting_eq] at hwaiting
      exact List.map_eq_nil_iff.mp hwaiting
    rw [← hi.order, hleft, hwritten, sentLines_eq hmark]
    exact (List.append_nil _).symm

end Gateway

end MoneyLaundering
