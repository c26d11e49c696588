import MoneyLaundering.FaultTolerance.Recovery

/-!
# Inputs in a history

What an admissible history says about one input: it is applied at most once, its pending outputs are
those of that record, and the tracker of its channel has observed exactly the finished seqs of the
channel, in order.
-/

namespace MoneyLaundering

open Bytes

variable {σ ς Δ τ : Type} {cfg : HandlerConfig σ ς Δ} {V : View cfg.worker τ}
  {history : List (WalRecord Δ)} {key : InputKey}

/-- The state changes of a history, in order. -/
def stateChanges (history : List (WalRecord Δ)) : List Δ :=
  history.filterMap fun
    | .inputApplied _ _ change _ => some change
    | .inputDone _ _ => none

/-- The worker state is the fold of the changes. -/
theorem workerState_specState (history : List (WalRecord Δ)) :
    (specState cfg V history).workerState =
      (stateChanges history).foldl V.apply (V.view cfg.worker.fresh) := by
  induction history using List.reverseRecOn with
  | nil => rfl
  | append_singleton history record ih =>
    rw [specState_snoc, stateChanges, List.filterMap_append, List.foldl_append]
    cases record with
    | inputApplied m key change outputs =>
      simp only [HandlerState.applyOnce, ih, stateChanges]
      rfl
    | inputDone m key => exact ih

/-- The records of a history that apply an input. -/
def appliedRecords (history : List (WalRecord Δ)) (key : InputKey) : List (WalRecord Δ) :=
  history.filter fun
    | .inputApplied _ key' _ _ => decide (key' = key)
    | .inputDone _ _ => false

theorem mem_appliedRecords {record : WalRecord Δ} :
    record ∈ appliedRecords history key ↔
      record ∈ history ∧ ∃ m change outputs, record = .inputApplied m key change outputs := by
  rw [appliedRecords, List.mem_filter]
  refine and_congr_right fun _ => ?_
  cases record with
  | inputApplied m key' change outputs =>
    simp only [decide_eq_true_eq, WalRecord.inputApplied.injEq]
    exact ⟨fun h => ⟨m, change, outputs, rfl, h, rfl, rfl⟩, fun ⟨_, _, _, h⟩ => h.2.1⟩
  | inputDone m key' => simp

theorem appliedRecords_append (history more : List (WalRecord Δ)) (key : InputKey) :
    appliedRecords (history ++ more) key = appliedRecords history key ++ appliedRecords more key :=
  List.filter_append ..

/-- An input is applied at most once. -/
theorem Admissible.length_appliedRecords_le (h : Admissible cfg V history) (key : InputKey) :
    (appliedRecords history key).length ≤ 1 := by
  induction h with
  | nil => simp [appliedRecords]
  | @snoc history record h ha ih =>
    rw [appliedRecords, List.filter_append, List.length_append]
    by_cases hr : ∃ m change outputs, record = .inputApplied m key change outputs
    · obtain ⟨m, change, outputs, rfl⟩ := hr
      -- the input was new, so no record before applied it
      have hnil : appliedRecords history key = [] := by
        refine List.eq_nil_iff_forall_not_mem.mpr fun r hr => ?_
        obtain ⟨hm, m', change', outputs', rfl⟩ := mem_appliedRecords.mp hr
        exact h.absorbed hm (ha.new m key change outputs rfl)
      rw [appliedRecords] at hnil
      rw [hnil]
      simp
    · have hnil : [record].filter (fun
          | .inputApplied _ key' _ _ => decide (key' = key)
          | .inputDone _ _ => false) = [] := by
        refine List.eq_nil_iff_forall_not_mem.mpr fun r hr' => hr ?_
        obtain ⟨hm, hx⟩ := mem_appliedRecords.mp hr'
        obtain rfl := List.mem_singleton.mp hm
        exact hx
      rw [hnil]
      simpa [appliedRecords] using ih

/-- Two records that apply one input are the same. -/
theorem Admissible.applied_unique (h : Admissible cfg V history) {m m' : String}
    {change change' : Δ}
    {outputs outputs' : List OutboxEntry} (h₁ : .inputApplied m key change outputs ∈ history)
    (h₂ : .inputApplied m' key change' outputs' ∈ history) :
    change = change' ∧ outputs = outputs' := by
  have hle := h.length_appliedRecords_le key
  have m₁ := mem_appliedRecords.mpr ⟨h₁, m, change, outputs, rfl⟩
  have m₂ := mem_appliedRecords.mpr ⟨h₂, m', change', outputs', rfl⟩
  generalize appliedRecords history key = records at *
  match records with
  | [] => cases m₁
  | [r] =>
    have he := (List.mem_singleton.mp m₁).trans (List.mem_singleton.mp m₂).symm
    cases he
    exact ⟨rfl, rfl⟩
  | _ :: _ :: _ => simp at hle

/-- What is pending for an input in flight are the outputs its record carries. -/
theorem Admissible.inFlight (h : Admissible cfg V history)
    (hf : (specState cfg V history).inbox.InFlight key) :
    ∃ change outputs, .inputApplied (cfg.msgId key) key change outputs ∈ history ∧
      (specState cfg V history).outbox.lookup key.clientId (cfg.msgId key) = some outputs := by
  induction h with
  | nil => simp [specState, HandlerState.appliedOnce, Inbox.InFlight] at hf
  | @snoc history record h ha ih =>
    rw [specState_snoc] at hf ⊢
    cases record with
    | inputApplied m key' change outputs =>
      simp only [HandlerState.applyOnce, Outbox.lookup_add] at hf ⊢
      rcases (Inbox.inFlight_markApplied _ _ _).mp hf with rfl | hf
      · have hm : m = cfg.msgId key := ha.msgId
        subst hm
        exact ⟨change, outputs, by simp, by simp⟩
      · obtain ⟨change', outputs', hm, hl⟩ := ih hf
        have hne : key ≠ key' := by
          rintro rfl
          exact h.absorbed hm (ha.new m key change outputs rfl)
        refine ⟨change', outputs', List.mem_append_left _ hm, ?_⟩
        rw [if_neg fun he => hne (cfg.msgId_inj key key' he.1.symm (he.2.symm.trans ha.msgId)), hl]
    | inputDone m key' =>
      simp only [HandlerState.applyOnce, Outbox.lookup_removeInput] at hf ⊢
      obtain ⟨hne, hf⟩ := (Inbox.inFlight_markDone _ _ _).mp hf
      obtain ⟨change', outputs', hm, hl⟩ := ih hf
      refine ⟨change', outputs', List.mem_append_left _ hm, ?_⟩
      rw [if_neg fun he => hne (cfg.msgId_inj key key' he.1.symm (he.2.symm.trans ha.msgId)), hl]

/-- A recorded input is in flight until it is finished. -/
theorem Admissible.inFlight_or_done (h : Admissible cfg V history) {m : String} {change : Δ}
    {outputs : List OutboxEntry} (hm : .inputApplied m key change outputs ∈ history) :
    (specState cfg V history).inbox.InFlight key ∨ ∃ m, .inputDone m key ∈ history := by
  induction h with
  | nil => cases hm
  | @snoc history record h ha ih =>
    rw [specState_snoc]
    rcases List.mem_append.mp hm with hm | hm
    · rcases ih hm with hf | ⟨m', hd⟩
      · cases record with
        | inputApplied m' key' change' outputs' =>
          exact .inl ((Inbox.inFlight_markApplied _ _ _).mpr (.inr hf))
        | inputDone m' key' =>
          by_cases hk : key = key'
          · exact .inr ⟨m', by simp [hk]⟩
          · exact .inl ((Inbox.inFlight_markDone _ _ _).mpr ⟨hk, hf⟩)
      · exact .inr ⟨m', List.mem_append_left _ hd⟩
    · obtain rfl := List.mem_singleton.mp hm
      exact .inl ((Inbox.inFlight_markApplied _ _ _).mpr (.inl rfl))

/-- Every pending entry belongs to a recorded input. -/
theorem Admissible.lookup (h : Admissible cfg V history) {c : Nat} {m : String}
    {es : List OutboxEntry} (hl : (specState cfg V history).outbox.lookup c m = some es) :
    ∃ key change, key.clientId = c ∧ cfg.msgId key = m ∧
      .inputApplied (cfg.msgId key) key change es ∈ history := by
  obtain ⟨key, rfl, rfl, hf⟩ := h.wellFormed.inFlight c m es hl
  obtain ⟨change, outputs, hm, hl'⟩ := h.inFlight hf
  rw [hl] at hl'
  cases hl'
  exact ⟨key, change, rfl, rfl, hm⟩

/-! ## The inputs that are applied -/

/-- The records of a history that apply an input, in order. -/
def appliedOnly (history : List (WalRecord Δ)) : List (WalRecord Δ) :=
  history.filter fun
    | .inputApplied .. => true
    | .inputDone .. => false

theorem appliedOnly_append (history history' : List (WalRecord Δ)) :
    appliedOnly (history ++ history') = appliedOnly history ++ appliedOnly history' :=
  List.filter_append ..

theorem mem_appliedOnly {m : String} {change : Δ} {outputs : List OutboxEntry} :
    .inputApplied m key change outputs ∈ appliedOnly history ↔
    .inputApplied m key change outputs ∈ history := by
  simp [appliedOnly]

/-- The end of an input touches neither the worker state nor the counters. -/
theorem specState_appliedOnly (history : List (WalRecord Δ)) :
    (specState cfg V history).workerState = (specState cfg V (appliedOnly history)).workerState ∧
      (specState cfg V history).sequencer = (specState cfg V (appliedOnly history)).sequencer := by
  induction history using List.reverseRecOn with
  | nil => exact ⟨rfl, rfl⟩
  | append_singleton history record ih =>
    rw [appliedOnly_append, specState_snoc]
    cases record with
    | inputApplied m key change outputs =>
      have hone : appliedOnly [WalRecord.inputApplied m key change outputs] =
          [.inputApplied m key change outputs] :=
        rfl
      rw [hone, specState_snoc]
      simp only [HandlerState.applyOnce, ih.1, ih.2, and_self]
    | inputDone m key =>
      have hnone : appliedOnly [WalRecord.inputDone (Δ := Δ) m key] = [] := rfl
      rw [hnone, List.append_nil]
      exact ih

/-- Nodes with the same applied inputs. -/
theorem Node.Inv.same {n n₀ : Node σ ς Δ} (h : n.Inv cfg V) (h₀ : n₀.Inv cfg V)
    (he : appliedOnly n₀.history = appliedOnly n.history) :
    V.view n₀.handler.workerState = V.view n.handler.workerState ∧
      n₀.handler.sequencer = n.handler.sequencer := by
  obtain ⟨hw, hq⟩ := specState_appliedOnly (V := V) n.history
  obtain ⟨hw₀, hq₀⟩ := specState_appliedOnly (V := V) n₀.history
  refine ⟨?_, ?_⟩
  · rw [h.workerState, h₀.workerState, hw, hw₀, he]
  · rw [h.sequencer, h₀.sequencer, hq, hq₀, he]

/-- The inputs of a client that a history applies, with the outputs they were stamped with. -/
def clientOutputs (clientId : Nat) (history : List (WalRecord Δ)) :
    List (InputKey × List OutboxEntry) :=
  history.filterMap fun
    | .inputApplied _ key _ outputs => if key.clientId = clientId then some (key, outputs) else none
    | .inputDone _ _ => none

theorem clientOutputs_append (clientId : Nat) (history more : List (WalRecord Δ)) :
    clientOutputs clientId (history ++ more) = clientOutputs clientId history ++
      clientOutputs clientId more :=
  List.filterMap_append

/-- The end of an input does not count. -/
theorem clientOutputs_appliedOnly (clientId : Nat) (history : List (WalRecord Δ)) :
    clientOutputs clientId (appliedOnly history) = clientOutputs clientId history := by
  rw [clientOutputs, clientOutputs, appliedOnly, List.filterMap_filter]
  refine List.filterMap_congr fun record _ => ?_
  cases record <;> rfl

theorem mem_clientOutputs {clientId : Nat} (hc : key.clientId = clientId) :
    key ∈ (clientOutputs clientId history).map Prod.fst ↔
      ∃ m change outputs, .inputApplied m key change outputs ∈ history := by
  simp only [clientOutputs, List.mem_map, List.mem_filterMap]
  constructor
  · rintro ⟨_, ⟨record, hr, he⟩, rfl⟩
    cases record with
    | inputApplied m key' change outputs =>
      simp only [Option.ite_none_right_eq_some, Option.some.injEq] at he
      obtain ⟨-, rfl⟩ := he
      exact ⟨m, change, outputs, hr⟩
    | inputDone m key' => cases he
  · rintro ⟨m, change, outputs, hr⟩
    exact ⟨(key, outputs), ⟨_, hr, by simp [hc]⟩, rfl⟩

/-- A record whose input was not applied before is the first of its input. -/
theorem Admissible.not_applied_of_concat {m : String} {change : Δ} {outputs : List OutboxEntry}
    (h : Admissible cfg V (history ++ [.inputApplied m key change outputs])) :
    ¬ ∃ m' change' outputs', .inputApplied m' key change' outputs' ∈ history := by
  rintro ⟨m', change', outputs', hr⟩
  have hle := h.length_appliedRecords_le key
  have hpos := List.length_pos_of_mem (mem_appliedRecords.mpr ⟨hr, m', change', outputs', rfl⟩)
  rw [appliedRecords_append, List.length_append] at hle
  have hone : appliedRecords [WalRecord.inputApplied m key change outputs] key =
      [.inputApplied m key change outputs] := by simp [appliedRecords]
  rw [hone, List.length_singleton] at hle
  omega

/-- Only applied inputs are finished. -/
def DoneApplied (history : List (WalRecord Δ)) : Prop :=
  ∀ m key, .inputDone m key ∈ history → ∃ m change outputs,
  .inputApplied m key change outputs ∈ history

/-! ## Finished inputs and their trackers -/

/-- The seqs of the channel of `key` that a history finishes, in order. -/
def doneSeqs (history : List (WalRecord Δ)) (key : InputKey) : List Nat :=
  history.filterMap fun
    | .inputDone _ key' =>
      if key'.clientId = key.clientId ∧ key'.channel = key.channel then some key'.seq else none
    | .inputApplied _ _ _ _ => none

theorem doneSeqs_append (history history' : List (WalRecord Δ)) (key : InputKey) :
    doneSeqs (history ++ history') key = doneSeqs history key ++ doneSeqs history' key :=
  List.filterMap_append

/-- A finished seq of the channel of an input is that of the input with this seq. -/
theorem mem_doneSeqs :
    key.seq ∈ doneSeqs history key ↔ ∃ m, .inputDone m key ∈ history := by
  simp only [doneSeqs, List.mem_filterMap]
  constructor
  · rintro ⟨record, hm, hr⟩
    cases record with
    | inputApplied => simp at hr
    | inputDone m key' =>
      simp only [Option.ite_none_right_eq_some, Option.some.injEq] at hr
      obtain ⟨⟨hc, hk⟩, hq⟩ := hr
      refine ⟨m, ?_⟩
      obtain rfl : key' = key := by
        refine InputKey.ext_of hc ?_
        simp only [InputKey.channel, Prod.mk.injEq] at hk
        simp only [InputKey.triple, hk.1, hk.2, hq]
      exact hm
  · rintro ⟨m, hm⟩
    exact ⟨_, hm, by simp⟩

/-- The tracker of a channel has observed the finished seqs of the channel. -/
theorem tracker?_specState (history : List (WalRecord Δ)) (key : InputKey) :
    (specState cfg V history).inbox.tracker? key =
      if doneSeqs history key = [] then none
      else some (DeduplicationTracker.observeAll {} (doneSeqs history key)) := by
  induction history using List.reverseRecOn with
  | nil => rfl
  | append_singleton history record ih =>
    rw [specState_snoc, doneSeqs_append]
    cases record with
    | inputApplied m key' change outputs =>
      simpa [HandlerState.applyOnce, doneSeqs] using ih
    | inputDone m key' =>
      simp only [HandlerState.applyOnce, Inbox.tracker?_markDone]
      split
      · next hk =>
        have htr : (specState cfg V history).inbox.tracker? key' =
            (specState cfg V history).inbox.tracker? key := by
          simp only [Inbox.tracker?, hk.1, hk.2]
        have hone : doneSeqs [WalRecord.inputDone (Δ := Δ) m key'] key = [key'.seq] := by
          simp [doneSeqs, hk]
        rw [htr, ih, hone]
        by_cases hnil : doneSeqs history key = []
        · simp [hnil, DeduplicationTracker.observeAll]
        · simp [hnil, DeduplicationTracker.observeAll, List.foldl_append]
      · next hk =>
        have hnone : doneSeqs [WalRecord.inputDone (Δ := Δ) m key'] key = [] := by
          simp [doneSeqs, hk]
        rw [ih, hnone, List.append_nil]

/-- An input that is not new has something recorded on its channel. -/
theorem Admissible.recorded_of_classify (h : Admissible cfg V history)
    (hk : (specState cfg V history).inbox.classify key ≠ .new) :
    ∃ record ∈ history, record.key.clientId = key.clientId ∧ record.key.channel = key.channel := by
  cases hc : (specState cfg V history).inbox.classify key with
  | new => exact absurd hc hk
  | applied =>
    obtain ⟨change, outputs, hm, -⟩ := h.inFlight ((Inbox.classify_eq_applied_iff _ _).mp hc)
    exact ⟨_, hm, rfl, rfl⟩
  | done =>
    obtain ⟨-, t, ht, -⟩ := (Inbox.classify_eq_done_iff _ _).mp hc
    rw [tracker?_specState] at ht
    split at ht
    · cases ht
    · next hne =>
      obtain ⟨seq, hseq⟩ := List.exists_mem_of_ne_nil _ hne
      obtain ⟨record, hm, hr⟩ := List.mem_filterMap.mp hseq
      cases record with
      | inputApplied => cases hr
      | inputDone m key' =>
        simp only [Option.ite_none_right_eq_some] at hr
        exact ⟨_, hm, hr.1⟩

/-- An input is reported as finished when it is, or when it carries `0` and anything of its channel
is, as long as no finished seq of the channel jumped over more than the cap. -/
theorem finished_of_classify_done (hj : JumpsBounded 0 (doneSeqs history key))
    (hd : (specState cfg V history).inbox.classify key = .done) :
    (∃ m, .inputDone m key ∈ history) ∨ key.seq = 0 ∧ doneSeqs history key ≠ [] := by
  obtain ⟨-, t, ht, hdup⟩ := (Inbox.classify_eq_done_iff _ _).mp hd
  rw [tracker?_specState] at ht
  split at ht
  · cases ht
  · next hne =>
    cases ht
    rw [DeduplicationTracker.isDuplicate_observeAll DeduplicationTracker.wf_default hj,
      DeduplicationTracker.isDuplicate_default_iff] at hdup
    rcases hdup with hz | hm
    · exact .inr ⟨hz, hne⟩
    · exact .inl (mem_doneSeqs.mp hm)

theorem exists_le_of_biggest {q : Nat} {seqs : List Nat} (hne : seqs ≠ [])
    (h : q ≤ (DeduplicationTracker.observeAll {} seqs).biggest) : ∃ q' ∈ seqs, q ≤ q' := by
  induction seqs using List.reverseRecOn with
  | nil => contradiction
  | append_singleton seqs seq ih =>
    rw [DeduplicationTracker.observeAll_concat, DeduplicationTracker.biggest_observe] at h
    rcases le_max_iff.mp h with h | h
    · by_cases hnil : seqs = []
      · subst hnil
        have hzero : q ≤ 0 := h
        exact ⟨seq, by simp, by omega⟩
      · obtain ⟨q', hm, hle⟩ := ih hnil h
        exact ⟨q', List.mem_append_left _ hm, hle⟩
    · exact ⟨seq, by simp, h⟩

/-- An input that the inbox reports as finished is not beyond all that were finished on its
channel. -/
theorem exists_done_of_classify_done (hd : (specState cfg V history).inbox.classify key = .done) :
    ∃ seq, key.seq ≤ seq ∧ ∃ m, .inputDone m { key with seq } ∈ history := by
  obtain ⟨-, t, ht, hdup⟩ := (Inbox.classify_eq_done_iff _ _).mp hd
  rw [tracker?_specState] at ht
  split at ht
  · cases ht
  · next hne =>
    cases ht
    obtain ⟨seq, hm, hle⟩ :=
      exists_le_of_biggest hne (DeduplicationTracker.isDuplicate_iff.mp hdup).1
    exact ⟨seq, hle, mem_doneSeqs.mp hm⟩

end MoneyLaundering
