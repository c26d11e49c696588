import MoneyLaundering.Lib.Connection
import MoneyLaundering.Lib.Inevitable

/-!
# Requests that wait for a reply

A server reads each request with a program that acts on the outside, and replies at its end. When it
breaks off in the middle of a request it cleans up. A client that waits for the reply to each
request before it sends the next is served request by request, whatever is on the way when something
fails.
-/

namespace RequestReply

open Connection Transition

variable {β α σ : Type}

/-- A server: the program for the next request, the reply to every request, the states in which it
takes no more, and what it does when it breaks off. It waits for a request before it acts on it. -/
structure Service (β α σ : Type) where
  serve : σ → Program β α σ
  reply : β
  closed : σ → Bool
  cleanup : σ → List α
  opens : ∀ s, closed s = false → ∃ n k, serve s = .recvExact (n + 1) k

/-- Where the server is. -/
inductive Phase (β α σ : Type) where
  /-- It runs the program for a request that came in this state. -/
  | serving (s : σ) (p : Program β α σ)
  /-- The program is at its end, and the reply is next. -/
  | replying (s s' : σ)
  /-- It takes no more requests. -/
  | done (s : σ)
  /-- It has broken off, and this is left to clean up. -/
  | cleaning (s : σ) (todo : List α)

/-- A call that sends something succeeds or raises; what is sent may be delivered all the same. -/
inductive Sent where
  | ok
  | raised (delivered : Bool)

/-- The steps of the server itself. -/
inductive Own where
  | receive (n : Nat)
  | endOfStream
  | reset
  | act (sent : Sent)
  | reply (ok : Bool)
  | clean (sent : Sent)
  | crash

/-- The steps at the server, those of its client among them. -/
inductive ServerLabel (β : Type) where
  | arrive (items : List β)
  | leave
  | takeReply
  | own (l : Own)

/-- A server, the items on the way to it and the replies on the way back. -/
structure Server (β α σ : Type) where
  up : List β
  hungUp : Bool
  down : List β
  phase : Phase β α σ
  trace : List α

variable (svc : Service β α σ)

namespace Service

/-- The program goes on until it waits, acts or ends. A receive of nothing does not wait. -/
def proceed (s : σ) : Program β α σ → Phase β α σ
  | .ret s' => .replying s s'
  | .raise _ => .cleaning s (svc.cleanup s)
  | .recvExact n k => if n = 0 then proceed s (k []) else .serving s (.recvExact n k)
  | .emit a k => .serving s (.emit a k)

/-- The server before its next request. -/
def start (s : σ) : Phase β α σ := if svc.closed s then .done s else .serving s (svc.serve s)

end Service

namespace Server

variable (x : Server β α σ)

def init (s : σ) : Server β α σ := ⟨[], false, [], svc.start s, []⟩

/-- The server breaks off. -/
def breakOff (s : σ) : Server β α σ := { x with phase := .cleaning s (svc.cleanup s) }

/-- What is sent is delivered, unless the call raises before. -/
def acted (a : α) : Sent → Server β α σ
  | .raised false => x
  | .ok | .raised true => { x with trace := x.trace ++ [a] }

def step (x : Server β α σ) : Own → Option (Server β α σ)
  | .receive n =>
    match x.phase with
    | .serving s (.recvExact m k) =>
      if 0 < n ∧ n ≤ m ∧ n ≤ x.up.length then
        some { x with
          up := x.up.drop n
          phase := svc.proceed s ((Program.recvExact m k).feed (x.up.take n)) }
      else none
    | _ => none
  | .endOfStream =>
    match x.phase with
    | .serving s (.recvExact ..) =>
      if x.up.isEmpty && x.hungUp then some (x.breakOff svc s) else none
    | _ => none
  | .reset =>
    match x.phase with
    | .serving s (.recvExact ..) => some (x.breakOff svc s)
    | _ => none
  | .act sent =>
    match x.phase with
    | .serving s (.emit a k) =>
      match sent with
      | .ok => some { x.acted a .ok with phase := svc.proceed s k }
      | .raised delivered => some ((x.acted a (.raised delivered)).breakOff svc s)
    | _ => none
  | .reply ok =>
    match x.phase with
    | .replying s s' =>
      if ok then some { x with down := x.down ++ [svc.reply], phase := svc.start s' }
      else some (x.breakOff svc s)
    | _ => none
  | .clean sent =>
    match x.phase with
    | .cleaning s (a :: todo) =>
      match sent with
      | .ok => some { x.acted a .ok with phase := .cleaning s todo }
      | .raised delivered => some { x.acted a (.raised delivered) with phase := .cleaning s [] }
    | _ => none
  | .crash =>
    match x.phase with
    | .serving s _ | .replying s _ | .done s
    | .cleaning s _ => some { x with phase := .cleaning s [] }

def exec (x : Server β α σ) : ServerLabel β → Option (Server β α σ)
  | .arrive items => if x.hungUp then none else some { x with up := x.up ++ items }
  | .leave => some { x with hungUp := true }
  | .takeReply =>
    match x.down with
    | _ :: down => some { x with down }
    | [] => none
  | .own l => x.step svc l

end Server

/-! ## Programs in the middle -/

/-- The program waits for items, or acts. -/
def Waits : Program β α σ → Prop
  | .recvExact n _ => 0 < n
  | .emit .. => True
  | .ret _ | .raise _ => False

/-- The second program is what is left of the first one, which has done this. -/
def Continues (p : Program β α σ) (now : List α) (q : Program β α σ) : Prop :=
  ∃ input, ∀ more, p.eval (input ++ more) = (q.eval more).after now

variable {svc} {p q : Program β α σ} {s s' s₀ : σ} {now done todo : List α} {a : α}

theorem Continues.refl (p : Program β α σ) : Continues p [] p := ⟨[], fun _ => rfl⟩

theorem Continues.feed {n : Nat} {k : List β → Program β α σ} {got : List β}
    (h : Continues p now (.recvExact n k)) (hn : got.length ≤ n) :
    Continues p now ((Program.recvExact n k).feed got) := by
  obtain ⟨input, h⟩ := h
  refine ⟨input ++ got, fun more => ?_⟩
  rw [List.append_assoc, h, Program.eval_feed hn]

theorem Continues.skip {k : List β → Program β α σ} (h : Continues p now (.recvExact 0 k)) :
    Continues p now (k []) := by
  obtain ⟨input, h⟩ := h
  refine ⟨input, fun more => ?_⟩
  rw [h, Program.eval, if_pos (Nat.zero_le _), List.take_zero, List.drop_zero]

theorem Continues.act {k : Program β α σ} (h : Continues p now (.emit a k)) :
    Continues p (now ++ [a]) k := by
  obtain ⟨input, h⟩ := h
  refine ⟨input, fun more => ?_⟩
  rw [h, Program.eval, Program.Outcome.after_after]

theorem Continues.ret (h : Continues p now (.ret s)) :
    ∃ input, p.eval input = ⟨now, .ok s, []⟩ := by
  obtain ⟨input, h⟩ := h
  refine ⟨input, ?_⟩
  rw [← List.append_nil input, h, Program.eval, Program.Outcome.after, List.append_nil]

/-- What was done is the beginning of what the program does on some input. -/
theorem Continues.begins (h : Continues p now q) : ∃ input, now <+: (p.eval input).emitted := by
  obtain ⟨input, h⟩ := h
  refine ⟨input, ?_⟩
  rw [← List.append_nil input, h]
  exact List.prefix_append _ _

theorem prefix_emitted {input : List β} (he : p.eval input = ⟨now, .ok s, []⟩) :
    now <+: (p.eval input).emitted := by
  rewrite [he]
  exact List.prefix_refl _

/-- Where a program goes on to. -/
theorem Continues.proceed (svc : Service β α σ) (s : σ) (h : Continues p now q) :
    (∃ q', svc.proceed s q = .serving s q' ∧ Continues p now q' ∧ Waits q') ∨
    (∃ s' input, svc.proceed s q = .replying s s' ∧ p.eval input = ⟨now, .ok s', []⟩) ∨
    svc.proceed s q = .cleaning s (svc.cleanup s) := by
  induction q with
  | ret s' => exact .inr (.inl ⟨s', h.ret.choose, rfl, h.ret.choose_spec⟩)
  | raise error => exact .inr (.inr rfl)
  | recvExact n k ih =>
    rw [Service.proceed]
    by_cases hn : n = 0
    · subst hn
      rw [if_pos rfl]
      exact ih [] h.skip
    · rw [if_neg hn]
      exact .inl ⟨_, rfl, h, Nat.pos_of_ne_zero hn⟩
  | emit a k => exact .inl ⟨_, rfl, h, trivial⟩

/-- A program that comes to its end on some items does so from where it goes on to. -/
theorem proceed_of_eval (svc : Service β α σ) (s : σ) {input rest : List β} {es : List α}
    (h : q.eval input = ⟨es, .ok s', rest⟩) :
    (∃ q', svc.proceed s q = .serving s q' ∧ Waits q' ∧ q'.eval input = ⟨es, .ok s', rest⟩) ∨
    svc.proceed s q = .replying s s' ∧ es = [] ∧ rest = input := by
  induction q with
  | ret s₁ =>
    cases h
    exact .inr ⟨rfl, rfl, rfl⟩
  | raise error => cases h
  | recvExact n k ih =>
    rw [Service.proceed]
    by_cases hn : n = 0
    · subst hn
      rw [if_pos rfl]
      rw [Program.eval, if_pos (Nat.zero_le _), List.take_zero, List.drop_zero] at h
      exact ih [] h
    · rw [if_neg hn]
      exact .inl ⟨_, rfl, Nat.pos_of_ne_zero hn, h⟩
  | emit a k => exact .inl ⟨_, rfl, trivial, h⟩

theorem waits_serve (hopen : svc.closed s = false) : Waits (svc.serve s) := by
  obtain ⟨n, k, h⟩ := svc.opens s hopen
  rw [h]
  exact Nat.succ_pos n

/-! ## Whatever the client sends -/

variable (svc) in
/-- Requests that were served to their end: what was done for them, and the state behind them. -/
inductive Served (s₀ : σ) : List α → σ → Prop
  | nil : Served s₀ [] s₀
  | snoc {done now : List α} {s s' : σ} {input rest : List β} (h : Served s₀ done s)
      (hopen : svc.closed s = false) (he : (svc.serve s).eval input = ⟨now, .ok s', rest⟩) :
      Served s₀ (done ++ now) s'

variable (svc) in
/-- What a server has done is what the requests asked for, the beginning of what one more did, and
then the beginning of the cleanup. -/
inductive Follows (s₀ : σ) : Phase β α σ → List α → Prop
  | serving {done now : List α} {s : σ} {p : Program β α σ} (h : Served svc s₀ done s)
      (hopen : svc.closed s = false) (hp : Continues (svc.serve s) now p) (hw : Waits p) :
      Follows s₀ (.serving s p) (done ++ now)
  | replying {done now : List α} {s s' : σ} {input : List β} (h : Served svc s₀ done s)
      (hopen : svc.closed s = false) (he : (svc.serve s).eval input = ⟨now, .ok s', []⟩) :
      Follows s₀ (.replying s s') (done ++ now)
  | done {done : List α} {s : σ} (h : Served svc s₀ done s) (hclosed : svc.closed s = true) :
      Follows s₀ (.done s) done
  | cleaning {done now cleaned todo : List α} {s : σ} {input : List β} (h : Served svc s₀ done s)
      (hb : now <+: ((svc.serve s).eval input).emitted) (hc : cleaned ++ todo <+: svc.cleanup s)
      (hclosed : svc.closed s = true → now = [] ∧ cleaned = [] ∧ todo = []) :
      Follows s₀ (.cleaning s todo) (done ++ now ++ cleaned)

namespace Follows

variable {phase : Phase β α σ} {trace : List α}

theorem start (h : Served svc s₀ done s) : Follows svc s₀ (svc.start s) done := by
  unfold Service.start
  split
  · next hclosed => exact .done h hclosed
  · next hopen =>
    have hopen := Bool.eq_false_iff.mpr hopen
    have hf := Follows.serving h hopen (.refl _) (waits_serve hopen)
    rwa [List.append_nil] at hf

theorem breakOff (h : Served svc s₀ done s) (hopen : svc.closed s = false) {input : List β}
    (hb : now <+: ((svc.serve s).eval input).emitted) :
    Follows svc s₀ (.cleaning s (svc.cleanup s)) (done ++ now) := by
  have hf : Follows svc s₀ (.cleaning s (svc.cleanup s)) (done ++ now ++ []) :=
    .cleaning h hb (List.prefix_refl _) fun hclosed => by rw [hopen] at hclosed; cases hclosed
  rwa [List.append_nil] at hf

theorem proceed (h : Served svc s₀ done s) (hopen : svc.closed s = false)
    (hp : Continues (svc.serve s) now q) : Follows svc s₀ (svc.proceed s q) (done ++ now) := by
  rcases hp.proceed svc s with ⟨q', he, hq, hw⟩ | ⟨s', input, he, heval⟩ | he
  · rw [he]
    exact .serving h hopen hq hw
  · rw [he]
    exact .replying h hopen heval
  · rw [he]
    exact breakOff h hopen hp.begins.choose_spec

end Follows

variable {x x' : Server β α σ}

/-! ## What a step does -/

/-- The state that a phase began in. -/
def Phase.state : Phase β α σ → σ
  | .serving s _ | .replying s _ | .done s | .cleaning s _ => s

variable (svc) in
/-- Everything that a server can do. -/
inductive Steps (x : Server β α σ) : Own → Server β α σ → Prop
  | receive {s : σ} {m n : Nat} {k : List β → Program β α σ}
      (h : x.phase = .serving s (.recvExact m k))
      (hn : 0 < n) (hm : n ≤ m) (hup : n ≤ x.up.length) :
      Steps x (.receive n) { x with
        up := x.up.drop n
        phase := svc.proceed s ((Program.recvExact m k).feed (x.up.take n)) }
  | endOfStream {s : σ} {m : Nat} {k : List β → Program β α σ}
      (h : x.phase = .serving s (.recvExact m k)) (hup : x.up = []) (hung : x.hungUp = true) :
      Steps x .endOfStream (x.breakOff svc s)
  | reset {s : σ} {m : Nat} {k : List β → Program β α σ}
      (h : x.phase = .serving s (.recvExact m k)) :
      Steps x .reset (x.breakOff svc s)
  | act {s : σ} {a : α} {k : Program β α σ} (h : x.phase = .serving s (.emit a k)) :
      Steps x (.act .ok) { x with trace := x.trace ++ [a], phase := svc.proceed s k }
  | actRaised {s : σ} {a : α} {k : Program β α σ} (h : x.phase = .serving s (.emit a k))
      (delivered : Bool) :
      Steps x (.act (.raised delivered)) ((x.acted a (.raised delivered)).breakOff svc s)
  | reply {s s' : σ} (h : x.phase = .replying s s') :
      Steps x (.reply true) { x with down := x.down ++ [svc.reply], phase := svc.start s' }
  | replyRaised {s s' : σ} (h : x.phase = .replying s s') :
      Steps x (.reply false) (x.breakOff svc s)
  | clean {s : σ} {a : α} {todo : List α} (h : x.phase = .cleaning s (a :: todo)) :
      Steps x (.clean .ok) { x with trace := x.trace ++ [a], phase := .cleaning s todo }
  | cleanRaised {s : σ} {a : α} {todo : List α} (h : x.phase = .cleaning s (a :: todo))
      (delivered : Bool) :
      Steps x (.clean (.raised delivered))
        { x.acted a (.raised delivered) with phase := .cleaning s [] }
  | crash : Steps x .crash { x with phase := .cleaning x.phase.state [] }

theorem steps_of_step {l : Own} (he : x.step svc l = some x') : Steps svc x l x' := by
  obtain ⟨up, hungUp, down, phase, trace⟩ := x
  cases l with
  | receive n =>
    cases phase with
    | serving s p =>
      cases p with
      | recvExact m k =>
        rw [Server.step] at he
        dsimp only at he
        split at he
        · next hn =>
          cases he
          exact .receive rfl hn.1 hn.2.1 hn.2.2
        · cases he
      | ret | raise | emit => cases he
    | replying | done | cleaning => cases he
  | endOfStream =>
    cases phase with
    | serving s p =>
      cases p with
      | recvExact m k =>
        rw [Server.step] at he
        dsimp only at he
        split at he
        · next hend =>
          obtain ⟨hup, hung⟩ := Bool.and_eq_true_iff.mp hend
          cases he
          exact .endOfStream rfl (List.isEmpty_iff.mp hup) hung
        · cases he
      | ret | raise | emit => cases he
    | replying | done | cleaning => cases he
  | reset =>
    cases phase with
    | serving s p =>
      cases p with
      | recvExact m k =>
        cases he
        exact .reset rfl
      | ret | raise | emit => cases he
    | replying | done | cleaning => cases he
  | act sent =>
    cases phase with
    | serving s p =>
      cases p with
      | emit a k =>
        cases sent with
        | ok =>
          cases he
          exact .act rfl
        | raised delivered =>
          cases he
          exact .actRaised rfl delivered
      | ret | raise | recvExact => cases he
    | replying | done | cleaning => cases he
  | reply ok =>
    cases phase with
    | replying s s' =>
      cases ok with
      | true =>
        cases he
        exact .reply rfl
      | false =>
        cases he
        exact .replyRaised rfl
    | serving | done | cleaning => cases he
  | clean sent =>
    cases phase with
    | cleaning s todo =>
      cases todo with
      | nil => cases he
      | cons a todo =>
        cases sent with
        | ok =>
          cases he
          exact .clean rfl
        | raised delivered =>
          cases he
          exact .cleanRaised rfl delivered
    | serving | replying | done => cases he
  | crash =>
    cases phase <;> cases he <;> exact .crash

/-! ## Nothing else is done -/

/-- A server that crashes while it has cleaned up this much. -/
theorem Follows.crash {phase : Phase β α σ} {trace : List α} (h : Follows svc s₀ phase trace) :
    Follows svc s₀ (.cleaning phase.state []) trace := by
  cases h with
  | @serving done now s p h hopen hp hw =>
    have hf : Follows svc s₀ (.cleaning s []) (done ++ now ++ []) :=
      .cleaning h hp.begins.choose_spec List.nil_prefix fun hs => by rw [hopen] at hs; cases hs
    rwa [List.append_nil] at hf
  | @replying done now s s' input h hopen heval =>
    have hf : Follows svc s₀ (.cleaning s []) (done ++ now ++ []) :=
      .cleaning h (prefix_emitted heval) List.nil_prefix fun hs => by rw [hopen] at hs; cases hs
    rwa [List.append_nil] at hf
  | @done done s h hclosed =>
    have hb : [] <+: ((svc.serve s).eval []).emitted := List.nil_prefix
    have hf : Follows svc s₀ (.cleaning s []) (trace ++ [] ++ []) :=
      .cleaning h hb List.nil_prefix fun _ => ⟨rfl, rfl, rfl⟩
    rwa [List.append_nil, List.append_nil] at hf
  | @cleaning done now cleaned todo s input h hb hc hclosed =>
    refine .cleaning h hb ?_ fun hs => ⟨(hclosed hs).1, (hclosed hs).2.1, rfl⟩
    rw [List.append_nil]
    exact (List.prefix_append _ _).trans hc

/-- One more item is cleaned up. -/
theorem Follows.clean {trace : List α} (h : Follows svc s₀ (.cleaning s (a :: todo)) trace) :
    Follows svc s₀ (.cleaning s todo) (trace ++ [a]) := by
  cases h with
  | @cleaning done now cleaned _ _ input h hb hc hclosed =>
    rw [List.append_assoc]
    refine .cleaning h hb (by rwa [List.append_assoc, List.singleton_append]) fun hs => ?_
    cases (hclosed hs).2.2

theorem Follows.of_serving {trace : List α} (h : Follows svc s₀ (.serving s p) trace) :
    ∃ done now, Served svc s₀ done s ∧ svc.closed s = false ∧
    Continues (svc.serve s) now p ∧ Waits p ∧
      trace = done ++ now := by
  cases h with
  | serving h hopen hp hw => exact ⟨_, _, h, hopen, hp, hw, rfl⟩

theorem Follows.of_replying {trace : List α} (h : Follows svc s₀ (.replying s s') trace) :
    ∃ done now input, Served svc s₀ done s ∧ svc.closed s = false ∧
      (svc.serve s).eval input = ⟨now, .ok s', []⟩ ∧ trace = done ++ now := by
  cases h with
  | replying h hopen he => exact ⟨_, _, _, h, hopen, he, rfl⟩

theorem Follows.step {l : Own} (h : Follows svc s₀ x.phase x.trace) (he : x.step svc l = some x') :
    Follows svc s₀ x'.phase x'.trace := by
  cases steps_of_step he with
  | receive hphase _ hm hup =>
    rw [hphase] at h
    obtain ⟨done, now, h, hopen, hp, -, htrace⟩ := h.of_serving
    dsimp only
    rw [htrace]
    exact .proceed h hopen (hp.feed (by rw [List.length_take_of_le hup]; exact hm))
  | endOfStream hphase | reset hphase =>
    rw [hphase] at h
    obtain ⟨done, now, h, hopen, hp, -, htrace⟩ := h.of_serving
    dsimp only [Server.breakOff]
    rw [htrace]
    exact .breakOff h hopen hp.begins.choose_spec
  | act hphase =>
    rw [hphase] at h
    obtain ⟨done, now, h, hopen, hp, -, htrace⟩ := h.of_serving
    dsimp only
    rw [htrace, List.append_assoc]
    exact .proceed h hopen hp.act
  | actRaised hphase delivered =>
    rw [hphase] at h
    obtain ⟨done, now, h, hopen, hp, -, htrace⟩ := h.of_serving
    cases delivered with
    | false =>
      dsimp only [Server.breakOff, Server.acted]
      rw [htrace]
      exact .breakOff h hopen hp.begins.choose_spec
    | true =>
      dsimp only [Server.breakOff, Server.acted]
      rw [htrace, List.append_assoc]
      exact .breakOff h hopen hp.act.begins.choose_spec
  | reply hphase =>
    rw [hphase] at h
    obtain ⟨done, now, input, h, hopen, heval, htrace⟩ := h.of_replying
    dsimp only
    rw [htrace]
    exact .start (.snoc h hopen heval)
  | replyRaised hphase =>
    rw [hphase] at h
    obtain ⟨done, now, input, h, hopen, heval, htrace⟩ := h.of_replying
    dsimp only [Server.breakOff]
    rw [htrace]
    exact .breakOff h hopen (prefix_emitted heval)
  | clean hphase =>
    rw [hphase] at h
    exact h.clean
  | cleanRaised hphase delivered =>
    rw [hphase] at h
    cases delivered with
    | false => exact h.crash
    | true => exact h.clean.crash
  | crash => exact h.crash

theorem Follows.exec {l : ServerLabel β} (h : Follows svc s₀ x.phase x.trace)
    (he : x.exec svc l = some x') :
    Follows svc s₀ x'.phase x'.trace := by
  cases l with
  | arrive items =>
    rw [Server.exec] at he
    split at he
    · cases he
    · cases he
      exact h
  | leave =>
    cases he
    exact h
  | takeReply =>
    rw [Server.exec] at he
    split at he
    · cases he
      exact h
    · cases he
  | own l => exact h.step he

/-- Whatever the client sends, and wherever anything fails. -/
theorem follows_of_reachable
    (h : Reachable (Server.exec svc) (fun _ _ => True) (Server.init svc s₀) x) :
    Follows svc s₀ x.phase x.trace :=
  @Reachable.invariant _ _ _ _ _ _ (fun x => Follows svc s₀ x.phase x.trace) (.start .nil)
    (fun _ _ _ hx _ he => hx.exec he) h

/-! ## A client that is gone -/

/-- The server is alone: its client is gone, and the outside takes its cleanup. -/
def Alone : ServerLabel β → Prop
  | .own .crash => False
  | .own (.clean sent) => sent = .ok
  | .own _ => True
  | .arrive _ | .leave | .takeReply => False

variable (svc) in
/-- The server takes no more requests, or it has cleaned up. -/
def Settled (x : Server β α σ) : Prop :=
  (∃ s, x.phase = .done s) ∨ ∃ s t, x.phase = .cleaning s [] ∧ x.trace = t ++ svc.cleanup s

variable (svc) in
/-- However the steps of a server alone are ordered, it settles. -/
def Settles (x : Server β α σ) : Prop := Inevitable (Server.exec svc) (fun _ => Alone)
    (Settled svc) x

theorem settles_cleaning {t cleaned : List α} (hphase : x.phase = .cleaning s todo)
    (ht : x.trace = t ++ cleaned) (hc : cleaned ++ todo = svc.cleanup s) : Settles svc x := by
  induction todo generalizing x cleaned with
  | nil =>
    rw [List.append_nil] at hc
    exact .here (.inr ⟨s, t, hphase, by rw [ht, hc]⟩)
  | cons a todo ih =>
    refine .next ⟨.own (.clean .ok), { x with trace := x.trace ++ [a], phase := .cleaning s todo },
      rfl, ?_⟩
      fun l x' ha he => ?_
    · rw [Server.exec, Server.step, hphase]
      rfl
    · cases l with
      | arrive | leave | takeReply => exact ha.elim
      | own l =>
        cases steps_of_step he with
        | clean h =>
          rw [hphase] at h
          cases h
          refine @ih _ (cleaned ++ [a]) rfl ?_ ?_
          · rw [ht, List.append_assoc]
          · rw [List.append_assoc, List.singleton_append, hc]
        | cleanRaised => cases ha
        | crash => exact ha.elim
        | receive h | endOfStream h | reset h | act h | actRaised h | reply h | replyRaised h =>
          rw [hphase] at h
          cases h

theorem settles_breakOff (x : Server β α σ) (s : σ) : Settles svc (x.breakOff svc s) :=
  settles_cleaning rfl (List.append_nil _).symm (List.nil_append _)

/-- Every server with fewer items on the way settles. -/
def SettlesBelow (svc : Service β α σ) (n : Nat) : Prop :=
  ∀ x s q, x.up.length < n → x.hungUp = true → x.phase = svc.proceed s q → Settles svc x

/-- A server that waits for items receives some, or breaks off. -/
theorem settles_waiting {m : Nat} {k : List β → Program β α σ} (ih : SettlesBelow svc x.up.length)
    (hung : x.hungUp = true) (hm : 0 < m) (hphase : x.phase = .serving s (.recvExact m k)) :
    Settles svc x := by
  refine .next ?_ fun l x' ha he => ?_
  · by_cases hup : x.up = []
    · refine ⟨.own .endOfStream, x.breakOff svc s, trivial, ?_⟩
      rw [Server.exec, Server.step, hphase]
      dsimp only
      rw [hup, hung]
      rfl
    · refine ⟨.own (.receive 1), { x with
        up := x.up.drop 1
        phase := svc.proceed s ((Program.recvExact m k).feed (x.up.take 1)) }, trivial, ?_⟩
      rw [Server.exec, Server.step, hphase]
      dsimp only
      rw [if_pos ⟨Nat.one_pos, hm, List.length_pos_iff.mpr hup⟩]
  · cases l with
    | arrive | leave | takeReply => exact ha.elim
    | own l =>
      cases steps_of_step he with
      | @receive s' m' n k' h hn hm' hup =>
        refine ih _ s' ((Program.recvExact m' k').feed (x.up.take n)) ?_ hung rfl
        change (x.up.drop n).length < x.up.length
        rw [List.length_drop]
        omega
      | endOfStream | reset => exact settles_breakOff _ _
      | crash => exact ha.elim
      | act h | actRaised h | reply h | replyRaised h | clean h | cleanRaised h =>
        rw [hphase] at h
        cases h

theorem settles_start (ih : SettlesBelow svc x.up.length) (hung : x.hungUp = true)
    (hphase : x.phase = svc.start s) : Settles svc x := by
  unfold Service.start at hphase
  split at hphase
  · exact .here (.inl ⟨s, hphase⟩)
  · next hopen =>
    obtain ⟨n, k, hk⟩ := svc.opens s (Bool.eq_false_iff.mpr hopen)
    rw [hk] at hphase
    exact settles_waiting ih hung (Nat.succ_pos n) hphase

theorem settles_proceed (ih : SettlesBelow svc x.up.length) (hung : x.hungUp = true)
    (hphase : x.phase = svc.proceed s q) : Settles svc x := by
  induction q generalizing x with
  | ret s' =>
    refine .next ⟨.own (.reply true),
      { x with down := x.down ++ [svc.reply], phase := svc.start s' }, trivial, by
      rw [Server.exec, Server.step, hphase]; rfl⟩ fun l x' ha he => ?_
    cases l with
    | arrive | leave | takeReply => exact ha.elim
    | own l =>
      cases steps_of_step he with
      | reply => exact settles_start ih hung rfl
      | replyRaised => exact settles_breakOff _ _
      | crash => exact ha.elim
      | receive h | endOfStream h | reset h | act h | actRaised h | clean h | cleanRaised h =>
        rw [hphase] at h
        cases h
  | raise error => exact settles_cleaning hphase (List.append_nil _).symm (List.nil_append _)
  | recvExact n k ihk =>
    rw [Service.proceed] at hphase
    by_cases hn : n = 0
    · rw [if_pos hn] at hphase
      exact ihk [] ih hung hphase
    · rw [if_neg hn] at hphase
      exact settles_waiting ih hung (Nat.pos_of_ne_zero hn) hphase
  | emit a k ihk =>
    refine .next ⟨.own (.act .ok), { x with trace := x.trace ++ [a], phase := svc.proceed s k },
      trivial, by
      rw [Server.exec, Server.step, hphase]; rfl⟩ fun l x' ha he => ?_
    cases l with
    | arrive | leave | takeReply => exact ha.elim
    | own l =>
      cases steps_of_step he with
      | act h =>
        rw [hphase] at h
        cases h
        exact ihk ih hung rfl
      | actRaised => exact settles_breakOff _ _
      | crash => exact ha.elim
      | receive h | endOfStream h | reset h | reply h | replyRaised h | clean h | cleanRaised h =>
        rw [hphase] at h
        cases h

theorem settlesBelow (svc : Service β α σ) (n : Nat) : SettlesBelow svc n := by
  induction n using Nat.strong_induction_on with
  | _ n ih => exact fun x s q hup hung hphase => settles_proceed (ih _ hup) hung hphase

/-- A server whose client is gone serves what is on the way, and then breaks off and cleans up,
unless it takes no more requests before. -/
theorem settles {s₀ : σ} (h : Reachable (Server.exec svc) (fun _ _ => True) (Server.init svc s₀) x)
    (hung : x.hungUp = true) (hcleaning : ∀ s todo, x.phase ≠ .cleaning s todo) :
    Settles svc x := by
  have hf := follows_of_reachable h
  have ih := settlesBelow svc x.up.length
  cases hphase : x.phase with
  | serving s p =>
    rw [hphase] at hf
    obtain ⟨-, -, -, -, -, hw, -⟩ := hf.of_serving
    cases p with
    | recvExact n k => exact settles_waiting ih hung hw hphase
    | emit a k => exact @settles_proceed _ _ _ svc (.emit a k) _ _ ih hung hphase
    | ret | raise => exact hw.elim
  | replying s s' => exact @settles_proceed _ _ _ svc (.ret s') _ _ ih hung hphase
  | done s => exact .here (.inl ⟨s, hphase⟩)
  | cleaning s todo => exact absurd hphase (hcleaning s todo)

/-! ## A client that waits for every reply -/

/-- A request, what the server does for it and the state behind it. -/
structure Round (β α σ : Type) where
  request : List β
  acts : List α
  next : σ

/-- The server and its client, which has the request under way, those behind it, and what is left to
send. -/
structure State (β α σ : Type) where
  requests : List (List β)
  unsent : List β
  server : Server β α σ

inductive Label where
  | send (n : Nat)
  | receiveReply
  | close
  | serve (l : Own)

namespace State

variable (svc) in
def init (s : σ) (requests : List (List β)) : State β α σ :=
  ⟨requests, requests.head?.getD [], .init svc s⟩

variable (svc) in
/-- The client sends a request in pieces, waits for the reply and checks it. It may break off at any
time. -/
def exec (accepts : β → Bool) (x : State β α σ) : Label → Option (State β α σ)
  | .send n =>
    if 0 < n ∧ n ≤ x.unsent.length then
      (x.server.exec svc (.arrive (x.unsent.take n))).map fun server =>
        { x with unsent := x.unsent.drop n, server }
    else none
  | .receiveReply =>
    match x.requests, x.server.down with
    | _ :: requests, b :: _ =>
      if x.unsent.isEmpty && !x.server.hungUp then
        if accepts b then
          (x.server.exec svc .takeReply).map fun server =>
            { requests, unsent := requests.head?.getD [], server }
        else (x.server.exec svc .leave).map fun server => { x with server }
      else none
    | _, _ => none
  | .close => (x.server.exec svc .leave).map fun server => { x with server }
  | .serve l => (x.server.exec svc (.own l)).map fun server => { x with server }

end State

variable (svc) in
/-- What the server does for each of these requests, from some state on. -/
inductive Answers : σ → List (Round β α σ) → Prop
  | nil (s : σ) : Answers s []
  | cons {s : σ} {r : Round β α σ} {rounds : List (Round β α σ)} (hopen : svc.closed s = false)
      (he : (svc.serve s).eval r.request = ⟨r.acts, .ok r.next, []⟩) (h : Answers r.next rounds) :
      Answers s (r :: rounds)

def actsOf (rounds : List (Round β α σ)) : List α := rounds.flatMap Round.acts

def stateAfter (s : σ) (rounds : List (Round β α σ)) : σ := rounds.foldl (fun _ r => r.next) s

@[simp] theorem actsOf_append (rounds rounds' : List (Round β α σ)) :
    actsOf (rounds ++ rounds') = actsOf rounds ++ actsOf rounds' := List.flatMap_append ..

@[simp] theorem actsOf_singleton (r : Round β α σ) : actsOf [r] = r.acts :=
  List.flatMap_singleton ..

@[simp] theorem stateAfter_concat (s : σ) (rounds : List (Round β α σ)) (r : Round β α σ) :
    stateAfter s (rounds ++ [r]) = r.next := by simp [stateAfter]

variable {pre post : List (Round β α σ)} {y y' : State β α σ}

variable (svc) in
/-- Where client and server stand when the client has the replies to `pre` and has not broken
off. -/
inductive Going (s₀ : σ) (pre : List (Round β α σ)) : List (Round β α σ) → State β α σ → Prop
  /-- The server is in the middle of a request. -/
  | busy {r : Round β α σ} {rest : List (Round β α σ)} {p : Program β α σ} {now late : List α}
      {y : State β α σ} (hphase : y.server.phase = .serving (stateAfter s₀ pre) p) (hw : Waits p)
      (hopen : svc.closed (stateAfter s₀ pre) = false)
      (he : p.eval (y.server.up ++ y.unsent) = ⟨late, .ok r.next, []⟩)
      (hacts : r.acts = now ++ late)
      (htrace : y.server.trace = actsOf pre ++ now) (hdown : y.server.down = []) :
      Going s₀ pre (r :: rest) y
  /-- The reply is next. -/
  | answering {r : Round β α σ} {rest : List (Round β α σ)} {y : State β α σ}
      (hphase : y.server.phase = .replying (stateAfter s₀ pre) r.next)
      (hopen : svc.closed (stateAfter s₀ pre) = false) (hup : y.server.up = [])
      (hunsent : y.unsent = [])
      (htrace : y.server.trace = actsOf pre ++ r.acts) (hdown : y.server.down = []) :
      Going s₀ pre (r :: rest) y
  /-- The reply is on the way. -/
  | answered {r : Round β α σ} {rest : List (Round β α σ)} {y : State β α σ}
      (hphase : y.server.phase = svc.start r.next) (hup : y.server.up = [])
      (hunsent : y.unsent = [])
      (htrace : y.server.trace = actsOf pre ++ r.acts) (hdown : y.server.down = [svc.reply]) :
      Going s₀ pre (r :: rest) y
  /-- The client has all replies. -/
  | finished {y : State β α σ} (hphase : y.server.phase = svc.start (stateAfter s₀ pre))
      (hup : y.server.up = [])
      (hunsent : y.unsent = []) (htrace : y.server.trace = actsOf pre)
      (hdown : y.server.down = []) :
      Going s₀ pre [] y

variable (svc) in
/-- The server has broken off, maybe with a reply still on the way. -/
structure Broken (s₀ : σ) (pre post : List (Round β α σ)) (more rest : List (Round β α σ))
    (now cleaned todo : List α) (y : State β α σ) : Prop where
  post_eq : post = more ++ rest
  phase_eq : y.server.phase = .cleaning (stateAfter s₀ (pre ++ more)) todo
  now_isPrefix : now <+: actsOf (rest.take 1)
  trace_eq : y.server.trace = actsOf (pre ++ more) ++ now ++ cleaned
  cleanup_isPrefix : cleaned ++ todo <+: svc.cleanup (stateAfter s₀ (pre ++ more))
  closed : svc.closed (stateAfter s₀ (pre ++ more)) = true → now = [] ∧ cleaned = [] ∧ todo = []
  down_eq : y.server.down = [] ∨ more ≠ [] ∧ ∃ b, y.server.down = [b]

variable (svc) in
/-- Where client and server stand when the client has the replies to `pre`. -/
inductive Stands (s₀ : σ) (pre post : List (Round β α σ)) (y : State β α σ) : Prop
  | going (h : Going svc s₀ pre post y)
  | broken {more rest : List (Round β α σ)} {now cleaned todo : List α}
      (h : Broken svc s₀ pre post more rest now cleaned todo y)

theorem Answers.drop {s : σ} (h : Answers svc s (pre ++ post)) :
    Answers svc (stateAfter s pre) post := by
  induction pre generalizing s with
  | nil => exact h
  | cons r pre ih =>
    cases h with
    | cons _ _ h => exact ih h

theorem start_cases (svc : Service β α σ) (s : σ) : svc.closed s = true ∧ svc.start s = .done s ∨
    svc.closed s = false ∧ ∃ n k, svc.start s = .serving s (.recvExact (n + 1) k) ∧
      svc.serve s = .recvExact (n + 1) k := by
  unfold Service.start
  split
  · next h => exact .inl ⟨h, rfl⟩
  · next h =>
    obtain ⟨n, k, hk⟩ := svc.opens s (Bool.eq_false_iff.mpr h)
    exact .inr ⟨Bool.eq_false_iff.mpr h, n, k, by rw [hk], hk⟩

/-- Nothing fails in the step. -/
def Own.Works : Own → Prop
  | .receive _ => True
  | .act sent => sent = .ok
  | .reply ok => ok = true
  | .endOfStream | .reset | .clean _ | .crash => False

/-- A server before a request of which nothing has come can only break off. -/
theorem step_start {l : Own} (hphase : x.phase = svc.start s) (hup : x.up = [])
    (he : x.step svc l = some x') : ¬ l.Works ∧ x'.trace = x.trace ∧ x'.down = x.down ∧
      ∃ todo, x'.phase = .cleaning s todo ∧ todo <+: svc.cleanup s ∧
      (svc.closed s = true → todo = []) := by
  rcases start_cases svc s with ⟨hclosed, hs⟩ | ⟨hopen, n, k, hs, -⟩
  · rw [hs] at hphase
    cases steps_of_step he with
    | crash =>
      refine ⟨id, rfl, rfl, [], ?_, List.nil_prefix, fun _ => rfl⟩
      rw [hphase]
      rfl
    | receive h | endOfStream h | reset h | act h | actRaised h | reply h | replyRaised h | clean h
      | cleanRaised h =>
      rw [hphase] at h
      cases h
  · rw [hs] at hphase
    have hno : ∀ {P : Prop}, svc.closed s = true → P := fun h => by rw [hopen] at h; cases h
    cases steps_of_step he with
    | crash =>
      refine ⟨id, rfl, rfl, [], ?_, List.nil_prefix, fun _ => rfl⟩
      rw [hphase]
      rfl
    | receive h hn hm hlen =>
      rw [hup] at hlen
      exact absurd hlen (Nat.not_le_of_gt hn)
    | endOfStream h | reset h =>
      rw [hphase] at h
      cases h
      exact ⟨id, rfl, rfl, _, rfl, List.prefix_refl _, hno⟩
    | act h | actRaised h | reply h | replyRaised h | clean h | cleanRaised h =>
      rw [hphase] at h
      cases h

theorem Going.proceed {r : Round β α σ} {rest : List (Round β α σ)} {now late : List α}
    (hopen : svc.closed (stateAfter s₀ pre) = false)
    (hphase : y.server.phase = svc.proceed (stateAfter s₀ pre) q)
    (he : q.eval (y.server.up ++ y.unsent) = ⟨late, .ok r.next, []⟩) (hacts : r.acts = now ++ late)
    (htrace : y.server.trace = actsOf pre ++ now) (hdown : y.server.down = []) :
    Going svc s₀ pre (r :: rest) y := by
  rcases proceed_of_eval svc (stateAfter s₀ pre) he with ⟨q', hq, hw, he'⟩ | ⟨hq, hnil, hrest⟩
  · exact .busy (hphase.trans hq) hw hopen he' hacts htrace hdown
  · obtain ⟨hup, hunsent⟩ := List.append_eq_nil_iff.mp hrest.symm
    refine .answering (hphase.trans hq) hopen hup hunsent ?_ hdown
    rw [htrace, hacts, hnil, List.append_nil]

/-- The server breaks off in the middle of a request. -/
theorem Broken.of_busy {r : Round β α σ} {rest : List (Round β α σ)} {now : List α}
    (hopen : svc.closed (stateAfter s₀ pre) = false) (hnow : now <+: r.acts)
    (htodo : todo <+: svc.cleanup (stateAfter s₀ pre))
    (hphase : y.server.phase = .cleaning (stateAfter s₀ pre) todo)
    (htrace : y.server.trace = actsOf pre ++ now) (hdown : y.server.down = []) :
    Broken svc s₀ pre (r :: rest) [] (r :: rest) now [] todo y where
  post_eq := rfl
  phase_eq := by rw [List.append_nil, hphase]
  now_isPrefix := by rwa [List.take_one, List.head?_cons, Option.toList_some, actsOf_singleton]
  trace_eq := by rw [List.append_nil, List.append_nil, htrace]
  cleanup_isPrefix := by rwa [List.append_nil, List.nil_append]
  closed h := by
    rw [List.append_nil, hopen] at h
    cases h
  down_eq := .inl hdown

/-- The server breaks off between two requests. -/
theorem Broken.of_start {more rest post : List (Round β α σ)} (hpost : post = more ++ rest)
    (hphase : y.server.phase = .cleaning (stateAfter s₀ (pre ++ more)) todo)
    (htodo : todo <+: svc.cleanup (stateAfter s₀ (pre ++ more)))
    (hclosed : svc.closed (stateAfter s₀ (pre ++ more)) = true → todo = [])
    (htrace : y.server.trace = actsOf (pre ++ more))
    (hdown : y.server.down = [] ∨ more ≠ [] ∧ ∃ b, y.server.down = [b]) :
    Broken svc s₀ pre post more rest [] [] todo y where
  post_eq := hpost
  phase_eq := hphase
  now_isPrefix := List.nil_prefix
  trace_eq := by rw [List.append_nil, List.append_nil, htrace]
  cleanup_isPrefix := htodo
  closed h := ⟨rfl, rfl, hclosed h⟩
  down_eq := hdown

theorem Broken.crash {more rest : List (Round β α σ)} {now cleaned : List α}
    (h : Broken svc s₀ pre post more rest now cleaned todo y) (server : Server β α σ)
    (hphase : server.phase = .cleaning (stateAfter s₀ (pre ++ more)) [])
    (htrace : server.trace = y.server.trace) (hdown : server.down = y.server.down) :
    Broken svc s₀ pre post more rest now cleaned [] { y with server } where
  post_eq := h.post_eq
  phase_eq := hphase
  now_isPrefix := h.now_isPrefix
  trace_eq := htrace.trans h.trace_eq
  cleanup_isPrefix := by
    rw [List.append_nil]
    exact (List.prefix_append _ _).trans h.cleanup_isPrefix
  closed hs := ⟨(h.closed hs).1, (h.closed hs).2.1, rfl⟩
  down_eq := by rw [hdown]; exact h.down_eq

theorem Broken.clean {more rest : List (Round β α σ)} {now cleaned : List α}
    (h : Broken svc s₀ pre post more rest now cleaned (a :: todo) y) (server : Server β α σ)
    (hphase : server.phase = .cleaning (stateAfter s₀ (pre ++ more)) todo)
    (htrace : server.trace = y.server.trace ++ [a]) (hdown : server.down = y.server.down) :
    Broken svc s₀ pre post more rest now (cleaned ++ [a]) todo { y with server } where
  post_eq := h.post_eq
  phase_eq := hphase
  now_isPrefix := h.now_isPrefix
  trace_eq := by rw [htrace, h.trace_eq, List.append_assoc _ cleaned]
  cleanup_isPrefix := by
    rw [List.append_assoc, List.singleton_append]
    exact h.cleanup_isPrefix
  closed hs := by cases (h.closed hs).2.2
  down_eq := by rw [hdown]; exact h.down_eq

theorem Going.step {l : Own} {server : Server β α σ} (h : Going svc s₀ pre post y)
    (he : y.server.step svc l = some server) :
    (l.Works ∧ Going svc s₀ pre post { y with server }) ∨
      ¬ l.Works ∧ ∃ more rest now todo, Broken svc s₀ pre post more rest now [] todo
        { y with server } := by
  cases h with
  | @busy r rest p now late _ hphase hw hopen heval hacts htrace hdown =>
    have hnow : now <+: r.acts := ⟨late, hacts.symm⟩
    have hp := steps_of_step he
    cases p with
    | ret | raise => exact hw.elim
    | recvExact m k =>
      cases hp with
      | @receive _ _ n _ h hn hm hup =>
        rw [hphase] at h
        cases h
        refine .inl ⟨trivial, .proceed hopen rfl ?_ hacts htrace hdown⟩
        dsimp only
        rw [Program.eval_feed (by rw [List.length_take_of_le hup]; exact hm), ← List.append_assoc,
          List.take_append_drop]
        exact heval
      | endOfStream h | reset h =>
        rw [hphase] at h
        cases h
        exact .inr ⟨by rintro ⟨⟩, _, _, _, _,
          .of_busy hopen hnow (List.prefix_refl _) rfl htrace hdown⟩
      | crash =>
        refine .inr ⟨id, _, _, _, _, .of_busy hopen hnow List.nil_prefix ?_ htrace hdown⟩
        dsimp only
        rw [hphase]
        rfl
      | act h | actRaised h | reply h | replyRaised h | clean h | cleanRaised h =>
        rw [hphase] at h
        cases h
    | emit a k =>
      obtain ⟨late', hk, rfl⟩ : ∃ late', k.eval (y.server.up ++ y.unsent) =
        ⟨late', .ok r.next, []⟩ ∧
          late = a :: late' := by
        rw [Program.eval, Program.Outcome.after, Program.Outcome.mk.injEq] at heval
        obtain ⟨hlate, hresult, hunread⟩ := heval
        refine ⟨(k.eval (y.server.up ++ y.unsent)).emitted, ?_, hlate.symm⟩
        rw [← hresult, ← hunread]
      have hmore : r.acts = (now ++ [a]) ++ late' := by rw [hacts, List.append_assoc]; rfl
      cases hp with
      | act h =>
        rw [hphase] at h
        cases h
        refine .inl ⟨rfl, .proceed hopen rfl hk hmore ?_ hdown⟩
        dsimp only
        rw [htrace, List.append_assoc]
      | actRaised h delivered =>
        rw [hphase] at h
        cases h
        cases delivered with
        | false => exact .inr ⟨by rintro ⟨⟩, _, _, _, _,
            .of_busy hopen hnow (List.prefix_refl _) rfl htrace hdown⟩
        | true =>
          refine .inr ⟨by rintro ⟨⟩, _, _, _, _,
            .of_busy hopen ⟨late', hmore.symm⟩ (List.prefix_refl _) rfl ?_ hdown⟩
          change y.server.trace ++ [a] = _
          rw [htrace, List.append_assoc]
      | crash =>
        refine .inr ⟨id, _, _, _, _, .of_busy hopen hnow List.nil_prefix ?_ htrace hdown⟩
        dsimp only
        rw [hphase]
        rfl
      | receive h | endOfStream h | reset h | reply h | replyRaised h | clean h | cleanRaised h =>
        rw [hphase] at h
        cases h
  | @answering r rest _ hphase hopen hup hunsent htrace hdown =>
    cases steps_of_step he with
    | reply h =>
      rw [hphase] at h
      cases h
      refine .inl ⟨rfl, .answered rfl hup hunsent htrace ?_⟩
      dsimp only
      rw [hdown]
      rfl
    | replyRaised h =>
      rw [hphase] at h
      cases h
      exact .inr ⟨by rintro ⟨⟩, _, _, _, _,
        .of_busy hopen (List.prefix_refl _) (List.prefix_refl _) rfl htrace hdown⟩
    | crash =>
      refine .inr
        ⟨id, _, _, _, _, .of_busy hopen (List.prefix_refl _) List.nil_prefix ?_ htrace hdown⟩
      dsimp only
      rw [hphase]
      rfl
    | receive h | endOfStream h | reset h | act h | actRaised h | clean h | cleanRaised h =>
      rw [hphase] at h
      cases h
  | @answered r rest _ hphase hup hunsent htrace hdown =>
    obtain ⟨hfails, htrace', hdown', todo, hphase', htodo, hclosed⟩ := step_start hphase hup he
    rw [← stateAfter_concat s₀ pre r] at hphase' htodo hclosed
    refine .inr ⟨hfails, _, _, _, _,
      @Broken.of_start _ _ _ svc _ _ _ _ [r] _ _ rfl hphase' htodo hclosed ?_
      (.inr ⟨List.cons_ne_nil _ _, svc.reply, hdown'.trans hdown⟩)⟩
    dsimp only
    rw [htrace', htrace, actsOf_append, actsOf_singleton]
  | finished hphase hup hunsent htrace hdown =>
    obtain ⟨hfails, htrace', hdown', todo, hphase', htodo, hclosed⟩ := step_start hphase hup he
    rw [← List.append_nil pre] at hphase' htodo hclosed htrace
    exact .inr ⟨hfails, _, _, _, _,
      @Broken.of_start _ _ _ svc _ _ _ _ [] _ _ rfl hphase' htodo hclosed
      (htrace'.trans htrace) (.inl (hdown'.trans hdown))⟩

theorem Stands.step {l : Own} {server : Server β α σ} (h : Stands svc s₀ pre post y)
    (he : y.server.step svc l = some server) : Stands svc s₀ pre post { y with server } := by
  cases h with
  | going h =>
    rcases h.step he with ⟨-, h'⟩ | ⟨-, _, _, _, _, h'⟩
    · exact .going h'
    · exact .broken h'
  | broken h =>
    cases steps_of_step he with
    | clean hphase =>
      rw [h.phase_eq] at hphase
      cases hphase
      exact .broken (h.clean _ rfl rfl rfl)
    | cleanRaised hphase delivered =>
      rw [h.phase_eq] at hphase
      cases hphase
      cases delivered with
      | false => exact .broken (h.crash _ rfl rfl rfl)
      | true => exact .broken ((h.clean { y.server.acted _ .ok with phase := _ } rfl rfl rfl).crash
          _ rfl rfl rfl)
    | crash =>
      refine .broken (h.crash _ ?_ rfl rfl)
      dsimp only
      rw [h.phase_eq]
      rfl
    | receive hphase | endOfStream hphase | reset hphase
    | act hphase | actRaised hphase | reply hphase
      | replyRaised hphase =>
      rw [h.phase_eq] at hphase
      cases hphase

theorem Stands.leave (h : Stands svc s₀ pre post y) :
    Stands svc s₀ pre post { y with server := { y.server with hungUp := true } } := by
  cases h with
  | going h =>
    cases h with
    | busy hphase hw hopen heval hacts htrace hdown =>
      exact .going (.busy hphase hw hopen heval hacts htrace hdown)
    | answering hphase hopen hup hunsent htrace hdown =>
      exact .going (.answering hphase hopen hup hunsent htrace hdown)
    | answered hphase hup hunsent htrace hdown =>
      exact .going (.answered hphase hup hunsent htrace hdown)
    | finished hphase hup hunsent htrace hdown =>
      exact .going (.finished hphase hup hunsent htrace hdown)
  | broken h => exact .broken ⟨h.post_eq, h.phase_eq, h.now_isPrefix, h.trace_eq,
      h.cleanup_isPrefix, h.closed, h.down_eq⟩

theorem exec_send {accepts : β → Bool} {n : Nat} (he : y.exec svc accepts (.send n) = some y') :
    0 < n ∧ n ≤ y.unsent.length ∧ y.server.hungUp = false ∧
      y' = { y with
        unsent := y.unsent.drop n
        server := { y.server with up := y.server.up ++ y.unsent.take n } } := by
  rw [State.exec] at he
  split at he
  · next hn =>
    obtain ⟨server, hserver, rfl⟩ := Option.map_eq_some_iff.mp he
    rw [Server.exec] at hserver
    split at hserver
    · cases hserver
    · next hung =>
      cases hserver
      exact ⟨hn.1, hn.2, Bool.eq_false_iff.mpr hung, rfl⟩
  · cases he

theorem exec_receiveReply {accepts : β → Bool} (he : y.exec svc accepts .receiveReply = some y') :
    ∃ r requests b down, y.requests = r :: requests ∧ y.server.down = b :: down ∧ y.unsent = [] ∧
      y.server.hungUp = false ∧
      (accepts b = true ∧ y' = ⟨requests, requests.head?.getD [], { y.server with down }⟩ ∨
        accepts b = false ∧ y' = { y with server := { y.server with hungUp := true } }) := by
  rw [State.exec] at he
  split at he
  · next r requests b down hrequests hdown =>
    split at he
    · next hsent =>
      obtain ⟨hunsent, hung⟩ := Bool.and_eq_true_iff.mp hsent
      refine ⟨r, requests, b, down, hrequests, hdown,
        List.isEmpty_iff.mp hunsent, by simpa using hung, ?_⟩
      split at he
      · next hok =>
        obtain ⟨server, hserver, rfl⟩ := Option.map_eq_some_iff.mp he
        rw [Server.exec, hdown] at hserver
        cases hserver
        exact .inl ⟨hok, rfl⟩
      · next hbad =>
        obtain ⟨server, hserver, rfl⟩ := Option.map_eq_some_iff.mp he
        cases hserver
        exact .inr ⟨Bool.eq_false_iff.mpr hbad, rfl⟩
    · cases he
  · cases he

theorem Going.send {n : Nat} (h : Going svc s₀ pre post y) (hn : 0 < n)
    (hle : n ≤ y.unsent.length) :
    Going svc s₀ pre post { y with
      unsent := y.unsent.drop n
      server := { y.server with up := y.server.up ++ y.unsent.take n } } := by
  cases h with
  | busy hphase hw hopen heval hacts htrace hdown =>
    refine .busy hphase hw hopen ?_ hacts htrace hdown
    dsimp only
    rw [List.append_assoc, List.take_append_drop]
    exact heval
  | answering hphase hopen hup hunsent | answered hphase hup hunsent
  | finished hphase hup hunsent =>
    rw [hunsent] at hle
    exact absurd hle (Nat.not_le_of_gt hn)

/-- The reply that is on the way is to the request under way. -/
theorem Going.receiveReply {b : β} {down : List β} (hans : Answers svc s₀ (pre ++ post))
    (h : Going svc s₀ pre post y) (hdowns : y.server.down = b :: down) :
    b = svc.reply ∧ ∃ r rest, post = r :: rest ∧ Going svc s₀ (pre ++ [r]) rest
      ⟨rest.map Round.request, (rest.map Round.request).head?.getD [], { y.server with down }⟩ := by
  cases h with
  | busy _ _ _ _ _ _ hdown | answering _ _ _ _ _ hdown | finished _ _ _ _ hdown =>
    rw [hdown] at hdowns
    cases hdowns
  | @answered r rest _ hphase hup hunsent htrace hdown =>
    rw [hdown] at hdowns
    cases hdowns
    refine ⟨rfl, r, rest, rfl, ?_⟩
    rw [← List.singleton_append, ← List.append_assoc] at hans
    have hans' := hans.drop
    rw [← stateAfter_concat s₀ pre r] at hphase
    have htrace' : y.server.trace = actsOf (pre ++ [r]) := by
      rw [htrace, actsOf_append, actsOf_singleton]
    cases rest with
    | nil => exact .finished hphase hup rfl htrace' rfl
    | cons r' rest =>
      cases hans' with
      | cons hopen heval _ =>
        rw [Service.start, if_neg (by rw [hopen]; exact Bool.false_ne_true)] at hphase
        refine @Going.busy _ _ _ _ _ _ _ _ _ [] _ _ hphase (waits_serve hopen) hopen ?_ rfl ?_ rfl
        · dsimp only
          rw [hup]
          exact heval
        · rw [List.append_nil]
          exact htrace'

/-- Where client and server stand, of which the client knows which replies it has. -/
theorem Stands.exec {accepts : β → Bool} {l : Label} (hans : Answers svc s₀ (pre ++ post))
    (hreq : y.requests = post.map Round.request) (h : Stands svc s₀ pre post y)
    (he : y.exec svc accepts l = some y') :
    ∃ pre' post', pre' ++ post' = pre ++ post ∧ y'.requests = post'.map Round.request ∧
      Stands svc s₀ pre' post' y' := by
  cases l with
  | send n =>
    obtain ⟨hn, hle, -, rfl⟩ := exec_send he
    refine ⟨pre, post, rfl, hreq, ?_⟩
    cases h with
    | going h => exact .going (h.send hn hle)
    | broken h => exact .broken ⟨h.post_eq, h.phase_eq, h.now_isPrefix, h.trace_eq,
        h.cleanup_isPrefix, h.closed, h.down_eq⟩
  | receiveReply =>
    obtain ⟨_, requests, b, down, hrequests, hdowns, -, -, ⟨-, rfl⟩ | ⟨-, rfl⟩⟩ :=
      exec_receiveReply he
    · cases h with
      | going h =>
        obtain ⟨-, r, rest, rfl, h'⟩ := h.receiveReply hans hdowns
        rw [hreq] at hrequests
        cases hrequests
        exact ⟨pre ++ [r], rest, by rw [List.append_assoc]; rfl, rfl, .going h'⟩
      | @broken more rest now cleaned todo h =>
        rcases h.down_eq with hdown | ⟨hmore, b', hdown⟩
        · rw [hdown] at hdowns
          cases hdowns
        · rw [hdown] at hdowns
          cases hdowns
          cases more with
          | nil => exact absurd rfl hmore
          | cons r more =>
            have hpost := h.post_eq
            subst hpost
            rw [hreq] at hrequests
            cases hrequests
            have hsame : pre ++ r :: more = pre ++ [r] ++ more := by rw [List.append_assoc]; rfl
            have hphase := h.phase_eq
            have htrace := h.trace_eq
            have hcleanup := h.cleanup_isPrefix
            have hclosed := h.closed
            rw [hsame] at hphase htrace hcleanup hclosed
            exact ⟨pre ++ [r], more ++ rest, by rw [List.append_assoc]; rfl, rfl,
              .broken ⟨rfl, hphase, h.now_isPrefix, htrace, hcleanup, hclosed, .inl rfl⟩⟩
    · exact ⟨pre, post, rfl, hreq, h.leave⟩
  | close =>
    rw [State.exec] at he
    obtain ⟨server, hserver, rfl⟩ := Option.map_eq_some_iff.mp he
    cases hserver
    exact ⟨pre, post, rfl, hreq, h.leave⟩
  | serve l =>
    obtain ⟨server, hserver, rfl⟩ := Option.map_eq_some_iff.mp he
    exact ⟨pre, post, rfl, hreq, h.step hserver⟩

theorem going_init {rounds : List (Round β α σ)} (hans : Answers svc s₀ rounds) :
    Going svc s₀ [] rounds (.init svc s₀ (rounds.map Round.request)) := by
  cases hans with
  | nil => exact .finished rfl rfl rfl rfl rfl
  | cons hopen heval _ =>
    refine @Going.busy _ _ _ _ _ _ _ _ _ [] _ _ ?_ (waits_serve hopen) hopen heval rfl rfl rfl
    exact if_neg (by rw [hopen]; exact Bool.false_ne_true)

section runs
variable {accepts : β → Bool} {rounds : List (Round β α σ)}

theorem stands_of_reachable (hans : Answers svc s₀ rounds)
    (h : Reachable (State.exec svc accepts) (fun _ _ => True)
      (.init svc s₀ (rounds.map Round.request)) y) :
    ∃ pre post, pre ++ post = rounds ∧ y.requests = post.map Round.request ∧
    Stands svc s₀ pre post y := by
  induction h with
  | init => exact ⟨[], rounds, rfl, rfl, .going (going_init hans)⟩
  | step _ _ he ih =>
    obtain ⟨pre, post, hrounds, hreq, hs⟩ := ih
    obtain ⟨pre', post', hsame, hreq', hs'⟩ := hs.exec (by rwa [hrounds]) hreq he
    exact ⟨pre', post', hsame.trans hrounds, hreq', hs'⟩

variable (svc) in
/-- What the outside sees: the acts for the requests in order, at least those for the requests with
a reply, and then the beginning of a cleanup, but none when every request has a reply. -/
structure Seen (s₀ : σ) (pre post : List (Round β α σ)) (trace shown cleaned : List α) : Prop where
  trace_eq : trace = shown ++ cleaned
  replied : actsOf pre <+: shown
  shown_prefix : shown <+: actsOf (pre ++ post)
  cleaned_prefix : cleaned = [] ∨ ∃ before, before <+: pre ++ post ∧
    svc.closed (stateAfter s₀ before) = false ∧
    cleaned <+: svc.cleanup (stateAfter s₀ before)
  all : post = [] → svc.closed (stateAfter s₀ pre) = true → shown = actsOf pre ∧ cleaned = []

theorem Going.seen (h : Going svc s₀ pre post y) :
    Seen svc s₀ pre post y.server.trace y.server.trace [] := by
  have hprefix : ∀ {r : Round β α σ} {rest : List (Round β α σ)} {now late : List α},
      r.acts = now ++ late →
      actsOf pre ++ now <+: actsOf (pre ++ r :: rest) := by
    intro r rest now late hacts
    refine ⟨late ++ actsOf rest, ?_⟩
    rw [actsOf_append, ← List.singleton_append, actsOf_append, actsOf_singleton, hacts]
    simp only [List.append_assoc]
  cases h with
  | busy hphase hw hopen he hacts htrace hdown =>
    rw [htrace]
    exact ⟨(List.append_nil _).symm, List.prefix_append _ _, hprefix hacts, .inl rfl,
      fun h => by cases h⟩
  | answering hphase hopen hup hunsent htrace hdown | answered hphase hup hunsent htrace hdown =>
    rw [htrace]
    exact ⟨(List.append_nil _).symm, List.prefix_append _ _,
      hprefix (List.append_nil _).symm, .inl rfl, fun h => by cases h⟩
  | finished hphase hup hunsent htrace hdown =>
    rw [htrace]
    refine ⟨(List.append_nil _).symm, List.prefix_refl _, ?_, .inl rfl, fun _ _ => ⟨rfl, rfl⟩⟩
    rewrite [List.append_nil]
    exact List.prefix_refl _

theorem Broken.seen {more rest : List (Round β α σ)} {now cleaned : List α}
    (h : Broken svc s₀ pre post more rest now cleaned todo y) :
    Seen svc s₀ pre post y.server.trace (actsOf (pre ++ more) ++ now) cleaned := by
  refine ⟨h.trace_eq, ?_, ?_, ?_, fun hpost hclosed => ?_⟩
  · rw [actsOf_append, List.append_assoc]
    exact List.prefix_append _ _
  · rw [h.post_eq, ← List.append_assoc, actsOf_append (pre ++ more)]
    refine (List.prefix_append_right_inj _).mpr (h.now_isPrefix.trans ?_)
    conv_rhs => rw [← List.take_append_drop 1 rest, actsOf_append]
    exact List.prefix_append _ _
  · cases hc : svc.closed (stateAfter s₀ (pre ++ more)) with
    | true => exact .inl (h.closed hc).2.1
    | false =>
      refine .inr ⟨pre ++ more, ?_, hc, (List.prefix_append _ _).trans h.cleanup_isPrefix⟩
      rw [h.post_eq, ← List.append_assoc]
      exact List.prefix_append _ _
  · have hnil := h.post_eq.symm.trans hpost
    obtain ⟨rfl, rfl⟩ := List.append_eq_nil_iff.mp hnil
    have hc := h.closed
    rw [List.append_nil] at hc
    obtain ⟨hnow, hcleaned, -⟩ := hc hclosed
    refine ⟨?_, hcleaned⟩
    rw [List.append_nil, hnow, List.append_nil]

/-- Wherever client and server are stopped, and whatever has failed. -/
theorem seen_of_reachable (hans : Answers svc s₀ rounds)
    (h : Reachable (State.exec svc accepts) (fun _ _ => True)
      (.init svc s₀ (rounds.map Round.request)) y) :
    ∃ pre post shown cleaned, pre ++ post = rounds ∧ y.requests = post.map Round.request ∧
      Seen svc s₀ pre post y.server.trace shown cleaned := by
  obtain ⟨pre, post, hrounds, hreq, hs⟩ := stands_of_reachable hans h
  cases hs with
  | going h => exact ⟨pre, post, _, _, hrounds, hreq, h.seen⟩
  | broken h => exact ⟨pre, post, _, _, hrounds, hreq, h.seen⟩

/-! ## When nothing fails -/

/-- Nothing fails in the step. -/
def Works : Label → Prop
  | .send _ | .receiveReply => True
  | .close => False
  | .serve l => l.Works

/-- What is left to do: items to send and to receive, acts, replies to send and to receive. -/
def work (total : Nat) (y : State β α σ) : Nat :=
  2 * (y.unsent.length + ((y.requests.drop 1).map List.length).sum) + y.server.up.length +
    (total - y.server.trace.length) + (y.requests.length - y.server.down.length) + y.requests.length

/-- Client and server are at work. -/
def AtWork (svc : Service β α σ) (s₀ : σ) (rounds : List (Round β α σ)) (y : State β α σ) : Prop :=
  ∃ pre post, pre ++ post = rounds ∧ y.requests = post.map Round.request ∧ Going svc s₀ pre post y ∧
    y.server.hungUp = false

theorem AtWork.length_trace_le (h : AtWork svc s₀ rounds y) :
    y.server.trace.length ≤ (actsOf rounds).length := by
  obtain ⟨pre, post, rfl, -, hg, -⟩ := h
  exact hg.seen.shown_prefix.length_le

theorem AtWork.length_down_le (h : AtWork svc s₀ rounds y) :
    y.server.down.length ≤ y.requests.length := by
  obtain ⟨pre, post, rfl, hreq, hg, -⟩ := h
  rw [hreq, List.length_map]
  cases hg with
  | busy _ _ _ _ _ _ hdown | answering _ _ _ _ _ hdown | answered _ _ _ _ hdown
  | finished _ _ _ _ hdown =>
    rw [hdown]
    simp

theorem AtWork.exec {l : Label} (hreply : accepts svc.reply = true) (hans : Answers svc s₀ rounds)
    (h : AtWork svc s₀ rounds y) (hl : Works l) (he : y.exec svc accepts l = some y') :
    AtWork svc s₀ rounds y' := by
  obtain ⟨pre, post, rfl, hreq, hg, hung⟩ := h
  cases l with
  | send n =>
    obtain ⟨hn, hle, -, rfl⟩ := exec_send he
    exact ⟨pre, post, rfl, hreq, hg.send hn hle, hung⟩
  | receiveReply =>
    obtain ⟨_, requests, b, down, hrequests, hdowns, -, -, hstep⟩ := exec_receiveReply he
    obtain ⟨rfl, r, rest, rfl, hg'⟩ := hg.receiveReply hans hdowns
    rcases hstep with ⟨-, rfl⟩ | ⟨hbad, -⟩
    · rw [hreq] at hrequests
      cases hrequests
      exact ⟨pre ++ [r], rest, by rw [List.append_assoc]; rfl, rfl, hg', hung⟩
    · rw [hreply] at hbad
      cases hbad
  | close => exact hl.elim
  | serve l =>
    obtain ⟨server, hserver, rfl⟩ := Option.map_eq_some_iff.mp he
    rcases hg.step hserver with ⟨-, hg'⟩ | ⟨hfails, -⟩
    · refine ⟨pre, post, rfl, hreq, hg', ?_⟩
      cases steps_of_step hserver with
      | receive | act | reply => exact hung
      | endOfStream | reset | replyRaised | clean | crash => exact hung
      | actRaised _ delivered | cleanRaised _ delivered => cases delivered <;> exact hung
    · exact absurd hl hfails

/-- Every step does some of the work. -/
theorem AtWork.work_lt {l : Label} (hreply : accepts svc.reply = true)
    (hans : Answers svc s₀ rounds)
    (h : AtWork svc s₀ rounds y) (hl : Works l) (he : y.exec svc accepts l = some y') :
    work (actsOf rounds).length y' < work (actsOf rounds).length y := by
  have h' := h.exec hreply hans hl he
  have htrace := h'.length_trace_le
  have hdown := h'.length_down_le
  cases l with
  | send n =>
    obtain ⟨hn, hle, -, rfl⟩ := exec_send he
    simp only [work, List.length_append, List.length_take_of_le hle, List.length_drop]
    omega
  | receiveReply =>
    obtain ⟨_, requests, b, down, hrequests, hdowns, hunsent, -, ⟨-, rfl⟩ | ⟨-, rfl⟩⟩ :=
      exec_receiveReply he
    · simp only [work, hrequests, hdowns, hunsent, List.length_cons, List.length_nil,
        List.drop_succ_cons, List.drop_zero]
      cases requests with
      | nil =>
        simp
      | cons r requests =>
        simp only [List.head?_cons, Option.getD_some, List.drop_succ_cons,
          List.drop_zero, List.map_cons, List.sum_cons, List.length_cons]
        omega
    · obtain ⟨_, _, _, _, _, hung⟩ := h'
      cases hung
  | close => exact hl.elim
  | serve l =>
    obtain ⟨server, hserver, rfl⟩ := Option.map_eq_some_iff.mp he
    cases steps_of_step hserver with
    | receive _ hn _ hup =>
      simp only [work, List.length_drop]
      omega
    | act =>
      simp only [work, List.length_append, List.length_singleton] at htrace ⊢
      omega
    | reply =>
      simp only [work, List.length_append, List.length_singleton] at hdown ⊢
      omega
    | endOfStream | reset | clean | cleanRaised | crash => exact hl.elim
    | actRaised => cases hl
    | replyRaised => cases hl

/-- As long as there is work to do, somebody can do some. -/
theorem AtWork.enabled (hreply : accepts svc.reply = true) (h : AtWork svc s₀ rounds y)
    (hleft : y.requests ≠ []) : ∃ l y', Works l ∧ y.exec svc accepts l = some y' := by
  obtain ⟨pre, post, rfl, hreq, hg, hung⟩ := h
  cases hg with
  | @busy r rest p now late _ hphase hw hopen heval hacts htrace hdown =>
    cases p with
    | ret | raise => exact hw.elim
    | emit a k =>
      refine ⟨.serve (.act .ok), { y with server := { y.server with
        trace := y.server.trace ++ [a], phase := svc.proceed (stateAfter s₀ pre) k } }, rfl, ?_⟩
      rw [State.exec, Server.exec, Server.step, hphase]
      rfl
    | recvExact m k =>
      by_cases hup : y.server.up = []
      · have hpos : 0 < y.unsent.length := by
          refine List.length_pos_iff.mpr fun hunsent => ?_
          rw [hup, hunsent, List.append_nil, Program.eval, List.length_nil,
            if_neg (Nat.not_le_of_gt hw)] at heval
          cases heval
        refine ⟨.send 1, { y with
          unsent := y.unsent.drop 1
          server := { y.server with up := y.server.up ++ y.unsent.take 1 } }, trivial, ?_⟩
        rw [State.exec, if_pos ⟨Nat.one_pos, hpos⟩, Server.exec,
          if_neg (by rw [hung]; exact Bool.false_ne_true)]
        rfl
      · refine ⟨.serve (.receive 1), { y with server := { y.server with
          up := y.server.up.drop 1
          phase := svc.proceed (stateAfter s₀ pre)
            ((Program.recvExact m k).feed (y.server.up.take 1)) } }, trivial, ?_⟩
        rw [State.exec, Server.exec, Server.step, hphase]
        dsimp only
        rw [if_pos ⟨Nat.one_pos, hw, List.length_pos_iff.mpr hup⟩]
        rfl
  | @answering r rest _ hphase hopen hup hunsent htrace hdown =>
    refine ⟨.serve (.reply true), { y with server := { y.server with
      down := y.server.down ++ [svc.reply], phase := svc.start r.next } }, rfl, ?_⟩
    rw [State.exec, Server.exec, Server.step, hphase]
    rfl
  | @answered r rest _ hphase hup hunsent htrace hdown =>
    refine ⟨.receiveReply, ⟨rest.map Round.request, (rest.map Round.request).head?.getD [],
      { y.server with down := [] }⟩, trivial, ?_⟩
    simp only [State.exec, hreq, hdown, List.map_cons, hunsent, hung, hreply, Server.exec]
    rfl
  | finished => exact absurd hreq hleft

variable (svc) in
/-- Every request has its reply, and everything was done for them. -/
structure Completed (s₀ : σ) (rounds : List (Round β α σ)) (y : State β α σ) : Prop where
  requests : y.requests = []
  phase : y.server.phase = svc.start (stateAfter s₀ rounds)
  trace : y.server.trace = actsOf rounds

/-- When nothing fails from here on, every request gets its reply. -/
theorem AtWork.completes (hreply : accepts svc.reply = true) (hans : Answers svc s₀ rounds)
    (h : AtWork svc s₀ rounds y) :
    Inevitable (State.exec svc accepts) (fun _ => Works) (Completed svc s₀ rounds) y := by
  have hover : ∀ y, AtWork svc s₀ rounds y → y.requests = [] → Completed svc s₀ rounds y := by
    rintro y ⟨pre, post, rfl, hreq, hg, -⟩ hnil
    cases post with
    | cons r rest =>
      rw [hreq] at hnil
      cases hnil
    | nil =>
      cases hg with
      | finished hphase hup hunsent htrace hdown =>
        rw [List.append_nil]
        exact ⟨hnil, hphase, htrace⟩
  have henabled : ∀ y, AtWork svc s₀ rounds y → ¬ Completed svc s₀ rounds y →
      ∃ l y', Works l ∧ y.exec svc accepts l = some y' :=
    fun y h hnot => h.enabled hreply fun hnil => hnot (hover y h hnil)
  exact .of_rank (measure (work (actsOf rounds).length)).wf id henabled
    (fun y l y' h _ hl he => ⟨h.exec hreply hans hl he, h.work_lt hreply hans hl he⟩) h

/-- Unless the client has left or the server has broken off, they are at work. -/
theorem atWork_of_reachable (hans : Answers svc s₀ rounds)
    (h : Reachable (State.exec svc accepts) (fun _ _ => True)
      (.init svc s₀ (rounds.map Round.request)) y)
    (hung : y.server.hungUp = false) (hbroken : ∀ s todo, y.server.phase ≠ .cleaning s todo) :
    AtWork svc s₀ rounds y := by
  obtain ⟨pre, post, hrounds, hreq, hs⟩ := stands_of_reachable hans h
  cases hs with
  | going hg => exact ⟨pre, post, hrounds, hreq, hg, hung⟩
  | broken hb => exact absurd hb.phase_eq (hbroken _ _)

end runs

end RequestReply
