import MoneyLaundering.FaultTolerance.Inbox

/-!
# Sequences of inbox calls

An inbox is marked by its callers in any order and is saved and loaded in between. Whatever the
sequence numbers, a finished input stays finished until it is marked applied again, and the channels
of an inbox do not touch each other.
-/

namespace MoneyLaundering.Inbox

/-- A call of an inbox, or its round trip through a snapshot. -/
inductive Call where
  | markApplied (key : InputKey)
  | markDone (key : InputKey)
  | reload
  deriving DecidableEq

/-- A call, `none` when the snapshot cannot be read. -/
def exec (i : Inbox) : Call → Option Inbox
  | .markApplied key => some (i.markApplied key)
  | .markDone key => some (i.markDone key)
  | .reload => fromDict i.toDict

/-- One call after the other. -/
def run (i : Inbox) : List Call → Option Inbox
  | [] => some i
  | call :: calls => do run (← i.exec call) calls

/-- The call marks a message of the channel of `key`. -/
def Call.On (key : InputKey) : Call → Prop
  | .markApplied key' | .markDone key' => key'.clientId = key.clientId ∧ key'.channel = key.channel
  | .reload => False

section steps
variable {i i' : Inbox} {key : InputKey} {call : Call} {calls : List Call}

theorem exists_exec (i : Inbox) (call : Call) : ∃ i', i.exec call = some i' := by
  cases call with
  | markApplied key => exact ⟨_, rfl⟩
  | markDone key => exact ⟨_, rfl⟩
  | reload => exact ⟨i, fromDict_toDict i⟩

theorem WF.exec (h : i.WF) (he : i.exec call = some i') : i'.WF := by
  cases call with
  | markApplied key => cases he; exact h.markApplied key
  | markDone key => cases he; exact h.markDone key
  | reload =>
    cases (fromDict_toDict i).symm.trans he
    exact h

/-- A call on another channel changes nothing about a message. -/
theorem classify_exec_of_not_on (he : i.exec call = some i') (hon : ¬ call.On key) :
    i'.classify key = i.classify key := by
  cases call with
  | markApplied key' =>
    cases he
    refine classify_markApplied_of_ne ?_
    rintro rfl
    exact hon ⟨rfl, rfl⟩
  | markDone key' =>
    cases he
    have hne : key ≠ key' := by
      rintro rfl
      exact hon ⟨rfl, rfl⟩
    have hf : (i.markDone key').InFlight key ↔ i.InFlight key := by
      rw [inFlight_markDone]
      exact and_iff_right hne
    have hr : (i.markDone key').Reported key ↔ i.Reported key := by
      have hother : ¬ (key'.clientId = key.clientId ∧ key'.channel = key.channel) := hon
      rw [Reported, Reported, tracker?_markDone, if_neg hother]
    cases h : i.classify key with
    | new =>
      rw [classify_eq_new_iff] at h ⊢
      rwa [hf, hr]
    | applied =>
      rw [classify_eq_applied_iff] at h ⊢
      rwa [hf]
    | done =>
      rw [classify_eq_done_iff] at h ⊢
      rwa [hf, hr]
  | reload =>
    cases (fromDict_toDict i).symm.trans he
    rfl

/-- A finished input is finished after every call but the one that marks it applied. -/
theorem classify_exec_done (h : i.classify key = .done) (he : i.exec call = some i')
    (hne : call ≠ .markApplied key) : i'.classify key = .done := by
  cases call with
  | markApplied key' =>
    cases he
    have hk : key ≠ key' := fun hk => hne (congrArg Call.markApplied hk.symm)
    rw [classify_markApplied_of_ne hk]
    exact h
  | markDone key' =>
    cases he
    exact classify_markDone_done h
  | reload =>
    cases (fromDict_toDict i).symm.trans he
    exact h

end steps

section runs
variable {i i' : Inbox} {key : InputKey} {calls : List Call}

theorem exists_run (i : Inbox) (calls : List Call) : ∃ i', i.run calls = some i' := by
  induction calls generalizing i with
  | nil => exact ⟨i, rfl⟩
  | cons call calls ih =>
    obtain ⟨i₁, he⟩ := exists_exec i call
    obtain ⟨i', hr⟩ := ih i₁
    exact ⟨i', by rw [run, he]; exact hr⟩

theorem run_cons {call : Call} (h : i.run (call :: calls) = some i') :
    ∃ i₁, i.exec call = some i₁ ∧ i₁.run calls = some i' :=
  Option.bind_eq_some_iff.mp h

theorem run_append {before after : List Call} (h : i.run (before ++ after) = some i') :
    ∃ i₁, i.run before = some i₁ ∧ i₁.run after = some i' := by
  induction before generalizing i with
  | nil => exact ⟨i, rfl, h⟩
  | cons call before ih =>
    obtain ⟨i₁, he, h⟩ := run_cons h
    obtain ⟨i₂, hb, ha⟩ := ih h
    exact ⟨i₂, by rw [run, he]; exact hb, ha⟩

theorem WF.run (h : i.WF) (hr : i.run calls = some i') : i'.WF := by
  induction calls generalizing i with
  | nil => cases hr; exact h
  | cons call calls ih =>
    obtain ⟨i₁, he, hr⟩ := run_cons hr
    exact ih (h.exec he) hr

theorem classify_run_of_not_on (hr : i.run calls = some i') (hon : ∀ call ∈ calls, ¬ call.On key) :
    i'.classify key = i.classify key := by
  induction calls generalizing i with
  | nil => cases hr; rfl
  | cons call calls ih =>
    obtain ⟨i₁, he, hr⟩ := run_cons hr
    rw [ih hr fun c hc => hon c (List.mem_cons_of_mem _ hc),
      classify_exec_of_not_on he (hon call List.mem_cons_self)]

theorem classify_run_done (h : i.classify key = .done) (hr : i.run calls = some i')
    (hne : .markApplied key ∉ calls) : i'.classify key = .done := by
  induction calls generalizing i with
  | nil => cases hr; exact h
  | cons call calls ih =>
    obtain ⟨i₁, he, hr⟩ := run_cons hr
    have hhead : call ≠ .markApplied key := fun hc => hne (hc ▸ List.mem_cons_self)
    exact ih (classify_exec_done h he hhead) hr fun hm => hne (List.mem_cons_of_mem _ hm)

end runs

/-- **A finished message stays finished.** After any calls, with sequence numbers that leave gaps of
any size and with round trips through a snapshot anywhere: a message that was marked done is done,
unless it was marked applied since; every gap of a tracker lies strictly between `0` and its mark;
and further calls that mark no message of a channel leave every message of it as it is. -/
theorem done_stays_done (calls : List Call) :
    ∃ i, run {} calls = some i ∧
      (∀ before after key, calls = before ++ .markDone key :: after → .markApplied key ∉ after →
        i.classify key = .done) ∧
      (∀ key t, i.tracker? key = some t → ∀ q ∈ t.pending, 0 < q ∧ q < t.biggest) ∧
      ∀ key more i', (∀ call ∈ more, ¬ call.On key) → i.run more = some i' →
        i'.classify key = i.classify key := by
  obtain ⟨i, hi⟩ := exists_run {} calls
  refine ⟨i, hi, ?_, (wf_default.run hi).done, fun key more i' hon hr =>
    classify_run_of_not_on hr hon⟩
  rintro before after key rfl hnot
  obtain ⟨i₁, hbefore, hr⟩ := run_append hi
  obtain ⟨i₂, he, hafter⟩ := run_cons hr
  cases he
  exact classify_run_done (classify_markDone_self (wf_default.run hbefore)) hafter hnot

end MoneyLaundering.Inbox
