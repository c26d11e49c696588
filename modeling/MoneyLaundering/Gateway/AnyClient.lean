import MoneyLaundering.Gateway.Upload

/-!
# Uploads of any client

A client that sends what it likes, and one that is gone: what the gateway publishes are the chunks
of one client id with the ends of their files, and aborts of that client behind them.
-/

namespace MoneyLaundering

open Bytes FileProtocol Connection RequestReply Transition

namespace Gateway

variable {partitions clientId : Nat} {prev : Option FileChunk} {cs : List FileChunk}
    {done : List PartitionMessage}
  {s : UploadState}

/-! ## The programs on any input -/

/-- What a round does: nothing before it fails, or what a chunk or FINISH asks for. -/
inductive FrameOutcome (partitions clientId : Nat) (prev : Option FileChunk) :
    Program.Outcome UInt8 PartitionMessage UploadState → Prop
  | failed {error : String} {rest : Bytes} :
      FrameOutcome partitions clientId prev ⟨[], .error error, rest⟩
  | chunk {c : FileChunk} {rest : Bytes} (hc : c.header.clientId = clientId) :
      FrameOutcome partitions clientId prev
        ⟨switchActs partitions prev c ++ [c.published partitions],
        .ok (.forwarding (sessionAfter partitions clientId (some c))), rest⟩
  | finish {rest : Bytes} : FrameOutcome partitions clientId prev
      ⟨prev.toList.map (FileChunk.eofPublished partitions), .ok (.finished clientId), rest⟩

/-- A chunk of another client, or any chunk without partitions, is not published. -/
theorem eval_forwardChunk_raise {c : FileChunk} {session : ClientSession} {rest : Bytes}
    (h : c.header.clientId ≠ session.clientId ∨ partitions = 0) :
    ∃ error, (forwardChunk partitions session c).eval rest = ⟨[], .error error, rest⟩ := by
  rw [forwardChunk]
  by_cases hc : c.header.clientId ≠ session.clientId
  · rw [if_pos hc]
    exact ⟨_, rfl⟩
  · obtain rfl := h.resolve_left hc
    rw [if_neg hc]
    exact ⟨_, rfl⟩

theorem eval_forwardFrame_cases (hprev : ∀ d ∈ prev, d.header.clientId = clientId) (input : Bytes) :
    FrameOutcome partitions clientId prev
      ((forwardFrame partitions (sessionAfter partitions clientId prev)).eval input) := by
  have hsession : (sessionAfter partitions clientId prev).clientId = clientId := rfl
  rw [forwardFrame]
  rcases Program.eval_bind_cases _ _ input with ⟨es, msgType, left, h, hbind⟩ |
    ⟨es, error, rest, h, hbind⟩
  · obtain ⟨rfl, -, -⟩ := Program.ok_of_eval_receive h
    rw [hbind, Program.Outcome.after_nil]
    split
    · rcases Program.eval_bind_cases FileChunk.recv _ left with ⟨es, c, rest, h, hbind⟩ |
        ⟨es, error, rest, h, hbind⟩
      · obtain ⟨rfl, -⟩ := FileChunk.of_eval_recv h
        rw [hbind, Program.Outcome.after_nil]
        by_cases hfails : c.header.clientId ≠ clientId ∨ partitions = 0
        · obtain ⟨error, herror⟩ := @eval_forwardChunk_raise partitions c
            (sessionAfter partitions clientId prev) rest hfails
          rw [Program.eval_bind, herror]
          exact .failed
        · obtain ⟨hc, hp⟩ := not_or.mp hfails
          rw [Program.eval_bind_of_ok
            (eval_forwardChunk (Nat.pos_of_ne_zero hp) hprev (not_not.mp hc)),
            Program.eval_pure, Program.Outcome.after, List.append_nil]
          exact .chunk (not_not.mp hc)
      · have hsilent : ((FileChunk.recv : UploadProgram FileChunk).eval left).emitted = [] :=
          FileChunk.silent_recv _
        rw [h] at hsilent
        cases hsilent
        rw [hbind]
        exact .failed
    · split
      · rw [Program.eval_bind_of_ok (eval_finishFile hprev), Program.eval_pure,
          Program.Outcome.after, List.append_nil]
        exact .finish
      · exact .failed
  · have hsilent : ((Program.receive 1 : UploadProgram Bytes).eval input).emitted = [] :=
      Program.silent_receive 1 input
    rw [h] at hsilent
    cases hsilent
    rw [hbind]
    exact .failed

theorem eval_recvHandshake_cases (partitions : Nat) (input : Bytes) :
    (recvHandshake.eval input).emitted = [] ∧ ∀ s, (recvHandshake.eval input).result = .ok s →
      ∃ clientId < 256 ^ 4, s = .forwarding (sessionAfter partitions clientId none) := by
  cases h : recvHandshake.eval input with
  | mk es result rest =>
    have hsilent : Program.Silent recvHandshake := by
      refine (Program.silent_receive _).bind fun msgType => ?_
      split
      · exact fun _ => rfl
      · exact (Program.silent_receive _).bind fun _ => fun _ => rfl
    have hnone := hsilent input
    rw [h] at hnone
    refine ⟨hnone, ?_⟩
    rintro s ⟨⟩
    obtain ⟨_, msgType, _, _, -, hafter, -⟩ := Program.ok_of_eval_bind h
    split at hafter
    · cases hafter
    · obtain ⟨_, packed, _, _, hpacked, hret, -⟩ := Program.ok_of_eval_bind hafter
      obtain ⟨-, hlen, -⟩ := Program.ok_of_eval_receive hpacked
      cases hret
      have hlt := beDecode_lt packed
      rw [hlen] at hlt
      exact ⟨_, hlt, rfl⟩

/-! ## What was served -/

theorem chunkRounds_concat (prev : Option FileChunk) (cs : List FileChunk) (c : FileChunk) :
    chunkRounds partitions clientId prev (cs ++ [c]) =
      chunkRounds partitions clientId prev cs ++
        [chunkRound partitions clientId (lastChunk prev cs) c] := by
  induction cs generalizing prev with
  | nil => rfl
  | cons d cs ih =>
    rw [List.cons_append, chunkRounds, ih, lastChunk_cons prev, chunkRounds, List.cons_append]

/-- The state and the publications when these chunks were served. -/
inductive ServedChunks (partitions clientId : Nat) (cs : List FileChunk) :
    UploadState → List PartitionMessage → Prop
  | forwarding : ServedChunks partitions clientId cs
      (.forwarding (sessionAfter partitions clientId (lastChunk none cs)))
      (actsOf (chunkRounds partitions clientId none cs))
  | finished : ServedChunks partitions clientId cs (.finished clientId) (plan partitions none cs)

/-- A client that has said its id is served chunks of this id. -/
theorem served_cases (h : Served (upload partitions) .greeting done s) : s = .greeting ∧ done = [] ∨
    ∃ clientId < 256 ^ 4, ∃ cs, (∀ c ∈ cs, c.header.clientId = clientId) ∧
      ServedChunks partitions clientId cs s done := by
  induction h with
  | nil => exact .inl ⟨rfl, rfl⟩
  | @snoc done now s s' input rest _ hopen he ih =>
    rcases ih with ⟨rfl, rfl⟩ | ⟨clientId, hid, cs, hcs, hserved⟩
    · obtain ⟨hnow, hstate⟩ := eval_recvHandshake_cases partitions input
      change recvHandshake.eval input = _ at he
      rw [he] at hnow hstate
      cases hnow
      obtain ⟨clientId, hid, rfl⟩ := hstate s' rfl
      exact .inr ⟨clientId, hid, [], fun c hc => absurd hc List.not_mem_nil, .forwarding⟩
    · cases hserved with
      | forwarding =>
        have hlast : ∀ d ∈ lastChunk none cs, d.header.clientId = clientId := by
          intro d hd
          rw [lastChunk, Option.or_none] at hd
          exact hcs d (List.mem_of_getLast? hd)
        have hcases := @eval_forwardFrame_cases partitions clientId _ hlast input
        change (forwardFrame _ _).eval input = _ at he
        rw [he] at hcases
        cases hcases with
        | @chunk c _ hc =>
          refine .inr ⟨clientId, hid, cs ++ [c], fun d hd => ?_, ?_⟩
          · rcases List.mem_append.mp hd with hd | hd
            · exact hcs d hd
            · rw [List.mem_singleton.mp hd]
              exact hc
          · have hacts := actsOf_append (chunkRounds partitions clientId none cs)
              [chunkRound partitions clientId (lastChunk none cs) c]
            rw [← chunkRounds_concat, actsOf_singleton] at hacts
            have hserved := @ServedChunks.forwarding partitions clientId (cs ++ [c])
            rw [hacts, lastChunk, List.getLast?_concat] at hserved
            exact hserved
        | finish =>
          refine .inr ⟨clientId, hid, cs, hcs, ?_⟩
          have hserved := @ServedChunks.finished partitions clientId cs
          rw [plan_eq clientId] at hserved
          exact hserved
      | finished => cases hopen

/-- Behind some chunks, the beginning of one more round is the beginning of a plan. -/
theorem acts_prefix_plan {now : List PartitionMessage} {input : Bytes}
    (hcs : ∀ c ∈ cs, c.header.clientId = clientId) (hnow : now <+: ((forwardFrame partitions
      (sessionAfter partitions clientId (lastChunk none cs))).eval input).emitted) :
    ∃ cs', (∀ c ∈ cs', c.header.clientId = clientId) ∧
      actsOf (chunkRounds partitions clientId none cs) ++ now <+: plan partitions none cs' := by
  have hlast : ∀ d ∈ lastChunk none cs, d.header.clientId = clientId := by
    intro d hd
    rw [lastChunk, Option.or_none] at hd
    exact hcs d (List.mem_of_getLast? hd)
  have hcases := @eval_forwardFrame_cases partitions clientId _ hlast input
  generalize (forwardFrame partitions (sessionAfter partitions clientId (lastChunk none cs))).eval
    input = outcome at hnow hcases
  cases hcases with
  | failed =>
    refine ⟨cs, hcs, ?_⟩
    rw [List.prefix_nil.mp hnow, List.append_nil, plan_eq clientId]
    exact List.prefix_append _ _
  | @chunk c _ hc =>
    refine ⟨cs ++ [c], fun d hd => ?_, ?_⟩
    · rcases List.mem_append.mp hd with hd | hd
      · exact hcs d hd
      · rw [List.mem_singleton.mp hd]
        exact hc
    · rw [plan_eq clientId, chunkRounds_concat, actsOf_append, actsOf_singleton]
      exact ((List.prefix_append_right_inj _).mpr hnow).trans (List.prefix_append _ _)
  | finish =>
    refine ⟨cs, hcs, ?_⟩
    rw [plan_eq clientId]
    exact (List.prefix_append_right_inj _).mpr hnow

/-- What was published for a client, whatever it has sent, and how the gateway cleans up behind
it. -/
theorem forwarded_of_follows {phase : Phase UInt8 PartitionMessage UploadState}
    {trace : List PartitionMessage}
    (h : Follows (upload partitions) .greeting phase trace) : phase.state = .greeting ∧ trace = [] ∨
      ∃ clientId < 256 ^ 4, ∃ cs shown aborts, (∀ c ∈ cs, c.header.clientId = clientId) ∧
      trace = shown ++ aborts ∧
        shown <+: plan partitions none cs ∧ aborts <+: phase.state.cleanup partitions ∧
        (phase.state.cleanup partitions = abortMessages partitions clientId ∧
          phase.state.isFinished = false ∨
          phase.state = .finished clientId ∧ shown = plan partitions none cs) := by
  have hcrash := h.crash
  generalize phase.state = s at hcrash
  clear h
  generalize hphase : Phase.cleaning s [] = cleaning at hcrash
  cases hcrash with
  | serving => cases hphase
  | replying => cases hphase
  | done => cases hphase
  | @cleaning done now cleaned todo _ input hserved hb hc hclosed =>
    cases hphase
    rw [List.append_nil] at hc
    rcases served_cases hserved with ⟨rfl, rfl⟩ | ⟨clientId, hid, cs, hcs, hchunks⟩
    · obtain rfl : now = [] := by
        change now <+: (recvHandshake.eval input).emitted at hb
        rw [(eval_recvHandshake_cases partitions input).1] at hb
        exact List.prefix_nil.mp hb
      obtain rfl : cleaned = [] := List.prefix_nil.mp hc
      exact .inl ⟨rfl, rfl⟩
    · cases hchunks with
      | forwarding =>
        obtain ⟨cs', hcs', hprefix⟩ := acts_prefix_plan hcs hb
        exact .inr ⟨clientId, hid, cs', _, cleaned, hcs', rfl, hprefix, hc, .inl ⟨rfl, rfl⟩⟩
      | finished =>
        obtain ⟨rfl, rfl, -⟩ := hclosed rfl
        refine .inr ⟨clientId, hid, cs, _, [], hcs, rfl, ?_, List.nil_prefix,
          .inr ⟨rfl, List.append_nil _⟩⟩
        rw [List.append_nil]

/-! ## Any client -/

/-- **Whatever a client sends.** Wherever the gateway stands, it has published the beginning of what
some chunks ask for, all of the client id of the handshake, each file with its EOF before the next,
and behind it only aborts of that client. When it has taken FINISH, all of it is published, and
there is no abort. -/
theorem forwarded_of_any_client {x : Server UInt8 PartitionMessage UploadState}
    (h : Reachable (Server.exec (upload partitions)) (fun _ _ => True)
      (.init (upload partitions) .greeting) x) :
    x.trace = [] ∨ ∃ clientId < 256 ^ 4, ∃ cs shown aborts,
    (∀ c ∈ cs, c.header.clientId = clientId) ∧
      x.trace = shown ++ aborts ∧ shown <+: plan partitions none cs ∧
      aborts <+: abortMessages partitions clientId ∧
      (x.phase.state.isFinished = true → shown = plan partitions none cs ∧ aborts = []) := by
  rcases forwarded_of_follows (follows_of_reachable h) with ⟨-, htrace⟩ |
    ⟨clientId, hid, cs, shown, aborts, hcs, htrace,
    hshown, haborts, ⟨hcleanup, hopen⟩ | ⟨hstate, hall⟩⟩
  · exact .inl htrace
  · refine .inr ⟨clientId, hid, cs, shown, aborts, hcs, htrace, hshown, ?_, fun hfinished => ?_⟩
    · rwa [hcleanup] at haborts
    · rw [hopen] at hfinished
      cases hfinished
  · rw [hstate] at haborts
    obtain rfl : aborts = [] := List.prefix_nil.mp haborts
    exact .inr ⟨clientId, hid, cs, shown, [], hcs, htrace, hshown, List.nil_prefix,
      fun _ => ⟨hall, rfl⟩⟩

/-- A client says its id, sends a chunk and a part of the next one, and is gone. The last byte is
still on the way. -/
def halfAnUpload : List (ServerLabel UInt8) :=
  [.arrive ((Client.streamFiles twoFiles twoContents).1.flatten.take 50), .own (.receive 1),
    .own (.receive 4),
    .own (.reply true), .own (.receive 1), .own (.receive 21), .own (.receive 5), .own (.receive 2),
    .own (.act .ok), .own (.reply true), .own (.receive 1), .leave, .own (.receive 14)]

/-- The gateway reads on and aborts the client. -/
def brokenOff : List (ServerLabel UInt8) :=
  [.own (.receive 1), .own .endOfStream, .own (.clean .ok), .own (.clean .ok)]

theorem forwarded_of_any_client_half : ∃ x : Server UInt8 PartitionMessage UploadState,
    Reachable (Server.exec (upload 2)) (fun _ _ => True) (.init (upload 2) .greeting) x ∧
    x.trace.map (·.message.head?) = [some msgChunk, some msgAbort, some msgAbort] ∧
    (x.trace = [] ∨ ∃ clientId < 256 ^ 4, ∃ cs shown aborts,
      (∀ c ∈ cs, c.header.clientId = clientId) ∧
      x.trace = shown ++ aborts ∧ shown <+: plan 2 none cs ∧ aborts <+: abortMessages 2 clientId ∧
      (x.phase.state.isFinished = true → shown = plan 2 none cs ∧ aborts = [])) := by
  have hrun : (runAllowed (Server.exec (upload 2)) (fun _ _ => True) (.init (upload 2) .greeting)
      (halfAnUpload ++ brokenOff)).map (fun x => x.trace.map (·.message.head?)) =
        some [some msgChunk, some msgAbort, some msgAbort] := by decide +kernel
  obtain ⟨x, hx, htrace⟩ := Option.map_eq_some_iff.mp hrun
  have hreach := reachable_of_runAllowed .init hx
  exact ⟨x, hreach, htrace, forwarded_of_any_client hreach⟩

/-! ## A client that is gone -/

/-- An abort, by its type. -/
def isAbort (m : PartitionMessage) : Bool := m.message.head? == some msgAbort

theorem isAbort_of_mem_aborts {m : PartitionMessage} (h : m ∈ abortMessages partitions clientId) :
    isAbort m = true := by
  unfold abortMessages at h
  split at h
  next abortMsg hmsg =>
    obtain ⟨packed, -, hcons⟩ := Except.ok_of_bind hmsg
    cases hcons
    obtain ⟨p, -, rfl⟩ := List.mem_map.mp h
    rfl
  next => cases h

theorem isAbort_of_mem_plan {m : PartitionMessage} (h : m ∈ plan partitions prev cs) :
    isAbort m = false := by
  induction cs generalizing prev with
  | nil =>
    obtain ⟨c, -, rfl⟩ := List.mem_map.mp h
    rfl
  | cons c cs ih =>
    rw [plan] at h
    rcases List.mem_append.mp h with h | h
    · cases prev with
      | none => cases h
      | some d =>
        rw [switchActs] at h
        split at h
        · cases h
        · rw [List.mem_singleton.mp h]
          rfl
    · rcases List.mem_cons.mp h with rfl | h
      · rfl
      · exact ih h

/-- A plan with all aborts behind it is not the beginning of a plan with fewer. -/
theorem aborts_complete {t shown aborts : List PartitionMessage}
    (hshown : shown <+: plan partitions prev cs)
    (haborts : aborts <+: abortMessages partitions clientId)
    (h : t ++ abortMessages partitions clientId = shown ++ aborts) : t = shown := by
  have hall : (abortMessages partitions clientId).filter isAbort =
      abortMessages partitions clientId :=
    List.filter_eq_self.mpr fun m hm => isAbort_of_mem_aborts hm
  have hsome : aborts.filter isAbort = aborts :=
    List.filter_eq_self.mpr fun m hm => isAbort_of_mem_aborts (haborts.subset hm)
  have hnone : shown.filter isAbort = [] := by
    refine List.filter_eq_nil_iff.mpr fun m hm => ?_
    rw [isAbort_of_mem_plan (hshown.subset hm)]
    exact Bool.false_ne_true
  have hlen := congrArg (List.length ∘ List.filter isAbort) h
  simp only [Function.comp_apply, List.filter_append, hall, hsome, hnone, List.length_append,
    List.length_nil] at hlen
  have hle := haborts.length_le
  obtain rfl : aborts = abortMessages partitions clientId := haborts.eq_of_length (by omega)
  exact List.append_cancel_right h

/-- **A client that is gone.** When the connection of a client is gone, whatever is on the way, the
gateway comes to an end: it has published all that was asked for, FINISH included, or the beginning
of it and then an abort to every partition; or the client never said its id, and nothing is
published. -/
theorem gone_client_settles {x : Server UInt8 PartitionMessage UploadState}
    (h : Reachable (Server.exec (upload partitions)) (fun _ _ => True)
      (.init (upload partitions) .greeting) x)
    (hung : x.hungUp = true) (hclean : ∀ s todo, x.phase ≠ .cleaning s todo) :
    Inevitable (Server.exec (upload partitions)) (fun _ => Alone)
      (fun x => x.trace = [] ∨ ∃ clientId < 256 ^ 4, ∃ cs shown,
        (∀ c ∈ cs, c.header.clientId = clientId) ∧
        (x.trace = plan partitions none cs ∨
          shown <+: plan partitions none cs ∧ x.trace = shown ++ abortMessages partitions clientId))
            x := by
  have hkeep : ∀ (x : Server UInt8 PartitionMessage UploadState) l x',
      Follows (upload partitions) .greeting x.phase x.trace → Alone l →
      x.exec (upload partitions) l = some x' →
        Follows (upload partitions) .greeting x'.phase x'.trace := fun _ _ _ hf _ he => hf.exec he
  have hsettles := (settles h hung hclean).with_invariant hkeep (follows_of_reachable h)
  refine hsettles.mono fun x' hx => ?_
  obtain ⟨hsettled, hfollows⟩ := hx
  rcases forwarded_of_follows hfollows with ⟨-, htrace⟩ |
    ⟨clientId, hid, cs, shown, aborts, hcs, htrace,
    hshown, haborts, ⟨hcleanup, hopen⟩ | ⟨hstate, hall⟩⟩
  · exact .inl htrace
  · refine .inr ⟨clientId, hid, cs, shown, hcs, .inr ⟨hshown, ?_⟩⟩
    rw [hcleanup] at haborts
    rcases hsettled with ⟨s, hphase⟩ | ⟨s, t, hphase, ht⟩
    · rw [hphase] at hfollows hopen
      cases hfollows with
      | done _ hclosed =>
        change s.isFinished = true at hclosed
        change s.isFinished = false at hopen
        rw [hclosed] at hopen
        cases hopen
    · rw [hphase] at hcleanup
      change s.cleanup partitions = _ at hcleanup
      change x'.trace = t ++ s.cleanup partitions at ht
      rw [hcleanup] at ht
      rw [← aborts_complete hshown haborts (ht.symm.trans htrace)]
      exact ht
  · rw [hstate] at haborts
    obtain rfl : aborts = [] := List.prefix_nil.mp haborts
    refine .inr ⟨clientId, hid, cs, shown, hcs, .inl ?_⟩
    rw [htrace, List.append_nil, hall]

theorem gone_client_settles_half : ∃ x : Server UInt8 PartitionMessage UploadState,
    x.hungUp = true ∧ x.trace.map (·.message.head?) = [some msgChunk] ∧
    Inevitable (Server.exec (upload 2)) (fun _ => Alone)
      (fun x => x.trace = [] ∨ ∃ clientId < 256 ^ 4, ∃ cs shown,
        (∀ c ∈ cs, c.header.clientId = clientId) ∧
        (x.trace = plan 2 none cs ∨ shown <+: plan 2 none cs ∧
          x.trace = shown ++ abortMessages 2 clientId)) x := by
  have hrun : (runAllowed (Server.exec (upload 2)) (fun _ _ => True) (.init (upload 2) .greeting)
      halfAnUpload).map
      (fun x =>
        (x.hungUp, x.trace.map (·.message.head?), (x.exec (upload 2) (.own (.receive 1))).isSome)) =
        some (true, [some msgChunk], true) := by decide +kernel
  obtain ⟨x, hx, hstate⟩ := Option.map_eq_some_iff.mp hrun
  obtain ⟨hung, hstate⟩ := Prod.mk.inj hstate
  obtain ⟨htrace, hreceives⟩ := Prod.mk.inj hstate
  refine ⟨x, hung, htrace, gone_client_settles (reachable_of_runAllowed .init hx) hung
    fun s todo hphase => ?_⟩
  -- a server that cleans up reads nothing
  rw [Server.exec, Server.step, hphase] at hreceives
  cases hreceives

end Gateway

end MoneyLaundering
