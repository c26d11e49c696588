import MoneyLaundering.Lib.Bytes

/-!
# Programs over a connection

A program reads exact numbers of items from a connection and acts on the outside in between. It
means the same whether the items are at hand (`Program.eval`), come in pieces of any size
(`Program.run_eval`) or arrive while it runs (`Program.eval_feed`).
-/

namespace Connection

variable {β ε α γ : Type}

/-! ## Reading -/

def closedEarly (remaining : Nat) : String := s!"connection closed early; remaining={remaining}"

/-- `recv(n)`: the first piece, up to `n` items. Only a closed connection gives nothing. -/
def recv (n : Nat) : List (List β) → List β × List (List β)
  | [] => ([], [])
  | piece :: pieces =>
    if piece.length ≤ n then (piece, pieces) else (piece.take n, piece.drop n :: pieces)

theorem length_recv_le (n : Nat) (pieces : List (List β)) : (recv n pieces).1.length ≤ n := by
  cases pieces with
  | nil => exact Nat.zero_le _
  | cons piece pieces =>
    rw [recv]
    split
    · assumption
    · exact List.length_take_le _ _

/-- `recv_exact`: receive until nothing remains. -/
def recvExact (remaining : Nat) (pieces : List (List β)) : Except String (List β × List (List β)) :=
  if remaining = 0 then .ok ([], pieces)
  else if (recv remaining pieces).1 = [] then .error (closedEarly remaining)
  else do
    let (more, pieces') ← recvExact (remaining - (recv remaining pieces).1.length)
        (recv remaining pieces).2
    return ((recv remaining pieces).1 ++ more, pieces')
termination_by remaining
decreasing_by
  have := List.length_pos_iff.mpr ‹¬(recv remaining pieces).1 = []›
  omega

/-- No piece is empty. -/
def Pieces (pieces : List (List β)) : Prop := ∀ piece ∈ pieces, piece ≠ []

theorem recv_flatten (n : Nat) {pieces : List (List β)} (hp : Pieces pieces) :
    (recv n pieces).1 ++ (recv n pieces).2.flatten = pieces.flatten ∧ Pieces (recv n pieces).2 := by
  cases pieces with
  | nil => exact ⟨rfl, hp⟩
  | cons piece pieces =>
    have hrest : Pieces pieces := fun p h => hp p (List.mem_cons_of_mem _ h)
    rw [recv]
    split
    next => exact ⟨rfl, hrest⟩
    next hlt =>
      refine ⟨by simp [← List.append_assoc], fun p h => ?_⟩
      rcases List.mem_cons.mp h with rfl | h
      · exact List.length_pos_iff.mp (by rw [List.length_drop]; omega)
      · exact hrest p h

theorem recv_eq_nil {n : Nat} {pieces : List (List β)} (hp : Pieces pieces) (hn : n ≠ 0)
    (h : (recv n pieces).1 = []) : pieces.flatten = [] := by
  cases pieces with
  | nil => rfl
  | cons piece pieces =>
    have hpos := List.length_pos_iff.mpr (hp piece List.mem_cons_self)
    rw [recv] at h
    split at h
    · exact absurd h (hp piece List.mem_cons_self)
    · have hlen := congrArg List.length h
      rw [List.length_take, List.length_nil] at hlen
      omega

/-- However the items are cut into pieces, the first `n` of them are received, or the connection is
closed before. -/
theorem recvExact_flatten (n : Nat) {pieces : List (List β)} (hp : Pieces pieces) :
    (n ≤ pieces.flatten.length → ∃ rest, recvExact n pieces = .ok (pieces.flatten.take n, rest) ∧
      rest.flatten = pieces.flatten.drop n ∧ Pieces rest) ∧
    (pieces.flatten.length < n →
      recvExact n pieces = .error (closedEarly (n - pieces.flatten.length))) := by
  induction n using Nat.strong_induction_on generalizing pieces with
  | _ n ih =>
    rw [recvExact]
    by_cases hn : n = 0
    · rw [if_pos hn, hn]
      exact ⟨fun _ => ⟨pieces, rfl, rfl, hp⟩, fun h => absurd h (Nat.not_lt_zero _)⟩
    by_cases hnil : (recv n pieces).1 = []
    · rw [if_neg hn, if_pos hnil, recv_eq_nil hp hn hnil]
      exact ⟨fun h => absurd (Nat.le_zero.mp h) hn, fun _ => rfl⟩
    obtain ⟨hflat, hp'⟩ := recv_flatten n hp
    have hle := length_recv_le n pieces
    have hpos := List.length_pos_iff.mpr hnil
    obtain ⟨hok, herr⟩ := ih (n - (recv n pieces).1.length) (by omega) hp'
    have hlen : pieces.flatten.length = (recv n pieces).1.length +
        (recv n pieces).2.flatten.length := by
      rw [← hflat, List.length_append]
    rw [if_neg hn, if_neg hnil]
    constructor
    · intro h
      obtain ⟨rest, hr, hrest, hpr⟩ := hok (by omega)
      refine ⟨rest, ?_, ?_, hpr⟩
      · rw [hr, Except.ok_bind]
        simp only [← hflat, List.take_append, List.take_of_length_le hle]
        rfl
      · rw [hrest, ← hflat, List.drop_append, List.drop_of_length_le hle, List.nil_append]
    · intro h
      rw [herr (by omega)]
      have harith : n - (recv n pieces).1.length - (recv n pieces).2.flatten.length =
          n - pieces.flatten.length := by omega
      rw [harith]
      rfl

/-! ## Programs -/

/-- A program that receives items and emits effects. -/
inductive Program (β ε α : Type) where
  | ret (a : α)
  | raise (error : String)
  | recvExact (n : Nat) (k : List β → Program β ε α)
  | emit (e : ε) (k : Program β ε α)

namespace Program

def bind : Program β ε α → (α → Program β ε γ) → Program β ε γ
  | ret a, f => f a
  | raise error, _ => raise error
  | recvExact n k, f => recvExact n fun got => (k got).bind f
  | emit e k, f => emit e (k.bind f)

instance : Monad (Program β ε) where
  pure := ret
  bind := bind

/-- Wait for `n` items. -/
def receive (n : Nat) : Program β ε (List β) := recvExact n ret

/-- One effect. -/
def perform (e : ε) : Program β ε PUnit := emit e (ret ⟨⟩)

/-- A computation without items or effects. -/
def ofExcept : Except String α → Program β ε α
  | .ok a => ret a
  | .error error => raise error

/-- What a program has emitted, how it ended and what it left unread. -/
structure Outcome (β ε α : Type) where
  emitted : List ε
  result : Except String α
  unread : List β

/-- The outcome of what follows some effects. -/
def Outcome.after (es : List ε) (o : Outcome β ε α) : Outcome β ε α :=
  { o with emitted := es ++ o.emitted }

/-- The program on these items, with the end of the connection behind them. -/
def eval : Program β ε α → List β → Outcome β ε α
  | ret a, input => ⟨[], .ok a, input⟩
  | raise error, input => ⟨[], .error error, input⟩
  | recvExact n k, input =>
    if n ≤ input.length then (k (input.take n)).eval (input.drop n)
    else ⟨[], .error (closedEarly (n - input.length)), []⟩
  | emit e k, input => (k.eval input).after [e]

/-- The program on items that come in pieces. -/
def run : Program β ε α → List (List β) → List ε × Except String α × List (List β)
  | ret a, pieces => ([], .ok a, pieces)
  | raise error, pieces => ([], .error error, pieces)
  | recvExact n k, pieces =>
    match Connection.recvExact n pieces with
    | .ok (got, pieces) => (k got).run pieces
    | .error error => ([], .error error, [])
  | emit e k, pieces =>
    let (es, result, pieces) := k.run pieces
    (e :: es, result, pieces)

@[simp] theorem Outcome.after_nil (o : Outcome β ε α) : o.after [] = o := rfl

@[simp] theorem Outcome.after_after (es es' : List ε) (o : Outcome β ε α) :
    (o.after es').after es = o.after (es ++ es') := by
  simp only [Outcome.after, List.append_assoc]

/-- How the items are cut does not matter. -/
theorem run_eval (p : Program β ε α) {pieces : List (List β)} (hp : Pieces pieces) :
    ∃ rest, p.run pieces = ((p.eval pieces.flatten).emitted, (p.eval pieces.flatten).result, rest) ∧
      rest.flatten = (p.eval pieces.flatten).unread ∧ Pieces rest := by
  induction p generalizing pieces with
  | ret a => exact ⟨pieces, rfl, rfl, hp⟩
  | raise error => exact ⟨pieces, rfl, rfl, hp⟩
  | recvExact n k ih =>
    obtain ⟨hok, herr⟩ := recvExact_flatten n hp
    by_cases hn : n ≤ pieces.flatten.length
    · obtain ⟨rest, hr, hrest, hpr⟩ := hok hn
      obtain ⟨rest', hrun, hflat, hpr'⟩ := ih (pieces.flatten.take n) hpr
      rw [hrest] at hrun hflat
      simp only [run, hr, eval, if_pos hn]
      exact ⟨rest', hrun, hflat, hpr'⟩
    · simp only [run, herr (Nat.lt_of_not_le hn), eval, if_neg hn]
      exact ⟨[], rfl, rfl, fun p h => by cases h⟩
  | emit e k ih =>
    obtain ⟨rest, hrun, hflat, hpr⟩ := ih hp
    refine ⟨rest, ?_, hflat, hpr⟩
    rw [run, hrun]
    rfl

/-! ## What a sequence does -/

@[simp] theorem eval_pure (a : α) (input : List β) :
    (pure a : Program β ε α).eval input = ⟨[], .ok a, input⟩ := rfl

@[simp] theorem eval_ofExcept_ok (a : α) (input : List β) :
    (ofExcept (.ok a) : Program β ε α).eval input = ⟨[], .ok a, input⟩ := rfl

@[simp] theorem eval_perform (e : ε) (input : List β) :
    (perform e : Program β ε PUnit).eval input = ⟨[e], .ok ⟨⟩, input⟩ := rfl

theorem eval_receive {got rest : List β} {n : Nat} (hn : got.length = n) :
    (receive n : Program β ε (List β)).eval (got ++ rest) = ⟨[], .ok got, rest⟩ := by
  subst hn
  simp [receive, eval]

/-- One program after another. -/
theorem eval_bind (p : Program β ε α) (f : α → Program β ε γ) (input : List β) :
    (p >>= f).eval input =
      match (p.eval input).result with
      | .ok a => ((f a).eval (p.eval input).unread).after (p.eval input).emitted
      | .error error => ⟨(p.eval input).emitted, .error error, (p.eval input).unread⟩ := by
  change (p.bind f).eval input = _
  induction p generalizing input with
  | ret a => rfl
  | raise error => rfl
  | recvExact n k ih =>
    by_cases hn : n ≤ input.length
    · simp only [bind, eval, if_pos hn]
      exact ih _ _
    · simp only [bind, eval, if_neg hn]
  | emit e k ih =>
    simp only [bind, eval, ih, Outcome.after]
    cases (k.eval input).result <;> rfl

theorem eval_bind_of_ok {p : Program β ε α} {f : α → Program β ε γ} {input rest : List β}
    {es : List ε} {a : α}
    (h : p.eval input = ⟨es, .ok a, rest⟩) : (p >>= f).eval input = ((f a).eval rest).after es := by
  rw [eval_bind, h]

/-- A sequence ends well when both parts do. -/
theorem ok_of_eval_bind {p : Program β ε α} {f : α → Program β ε γ} {input rest : List β}
    {es : List ε} {c : γ} (h : (p >>= f).eval input = ⟨es, .ok c, rest⟩) :
    ∃ es₁ a rest₁ es₂, p.eval input = ⟨es₁, .ok a, rest₁⟩ ∧ (f a).eval rest₁ = ⟨es₂, .ok c, rest⟩ ∧
      es = es₁ ++ es₂ := by
  rw [eval_bind] at h
  cases hp : p.eval input with
  | mk es₁ result rest₁ =>
    rw [hp] at h
    cases result with
    | error error => cases h
    | ok a =>
      cases hf : (f a).eval rest₁ with
      | mk es₂ result rest₂ =>
        simp only [hf, Outcome.after, Outcome.mk.injEq] at h
        obtain ⟨rfl, rfl, rfl⟩ := h
        exact ⟨es₁, a, rest₁, es₂, rfl, hf, rfl⟩

theorem ok_of_eval_receive {n : Nat} {input rest got : List β} {es : List ε}
    (h : (receive n : Program β ε (List β)).eval input = ⟨es, .ok got, rest⟩) :
    es = [] ∧ got.length = n ∧ input = got ++ rest := by
  unfold receive eval at h
  split at h
  next hn =>
    cases h
    exact ⟨rfl, List.length_take_of_le hn, (List.take_append_drop n input).symm⟩
  next => cases h

theorem ok_of_eval_ofExcept {x : Except String α} {input rest : List β} {es : List ε} {a : α}
    (h : (ofExcept x : Program β ε α).eval input = ⟨es, .ok a, rest⟩) :
    x = .ok a ∧ es = [] ∧ input = rest := by
  cases x with
  | error error => cases h
  | ok a' => cases h; exact ⟨rfl, rfl, rfl⟩

/-- A sequence, or where its first part fails. -/
theorem eval_bind_cases (p : Program β ε α) (f : α → Program β ε γ) (input : List β) :
    (∃ es a rest, p.eval input = ⟨es, .ok a, rest⟩ ∧
      (p >>= f).eval input = ((f a).eval rest).after es) ∨
    ∃ es error rest, p.eval input = ⟨es, .error error, rest⟩ ∧
    (p >>= f).eval input = ⟨es, .error error, rest⟩ := by
  rw [eval_bind]
  cases hp : p.eval input with
  | mk es result rest =>
    cases result with
    | ok a => exact .inl ⟨es, a, rest, rfl, rfl⟩
    | error error => exact .inr ⟨es, error, rest, rfl, rfl⟩

/-- A program that only reads. -/
def Silent (p : Program β ε α) : Prop := ∀ input, (p.eval input).emitted = []

theorem silent_receive (n : Nat) : Silent (receive n : Program β ε (List β)) := by
  intro input
  unfold receive eval
  split
  · rfl
  · rfl

theorem silent_ofExcept (x : Except String α) : Silent (ofExcept x : Program β ε α) := by
  intro input
  cases x <;> rfl

theorem Silent.bind {p : Program β ε α} {f : α → Program β ε γ} (hp : Silent p)
    (hf : ∀ a, Silent (f a)) :
    Silent (p >>= f) := by
  intro input
  have hemitted := hp input
  rcases eval_bind_cases p f input with ⟨es, a, rest, h, hbind⟩ | ⟨es, error, rest, h, hbind⟩
  · rw [h] at hemitted
    rw [hbind, Outcome.after, hf a rest, List.append_nil]
    exact hemitted
  · rw [h] at hemitted
    rw [hbind]
    exact hemitted

/-! ## Items that arrive while the program runs -/

/-- What is left to do when some of the awaited items have come. -/
def feed : Program β ε α → List β → Program β ε α
  | recvExact n k, got => if got.length < n then recvExact (n - got.length) fun more =>
    k (got ++ more) else k got
  | p, _ => p

/-- A program that has been given its next items does what it would have done with them. -/
theorem eval_feed {n : Nat} {k : List β → Program β ε α} {got : List β} (hn : got.length ≤ n)
    (rest : List β) :
    ((recvExact n k).feed got).eval rest = (recvExact n k).eval (got ++ rest) := by
  by_cases hlt : got.length < n
  · rw [feed, if_pos hlt, eval, eval]
    by_cases hle : n - got.length ≤ rest.length
    · rw [if_pos hle, if_pos (by rw [List.length_append]; omega), List.take_append,
        List.drop_append, List.take_of_length_le hn, List.drop_of_length_le hn, List.nil_append]
    · rw [if_neg hle, if_neg (by rw [List.length_append]; omega), List.length_append,
        Nat.sub_sub]
  · obtain rfl : got.length = n := by omega
    rw [feed, if_neg hlt, eval, if_pos (by simp), List.take_left, List.drop_left]

end Program

end Connection
