import MoneyLaundering.Client.ChunkReader
import MoneyLaundering.FileSplitter.Chunking
import MoneyLaundering.Gateway.Results
import MoneyLaundering.Lib.Text
import MoneyLaundering.Lib.Utf8

/-!
# The results at a client

`Sender.iter_result_lines` (`client/common/sender.py`) and `Client.log_result_lines`
(`client/common/client.py`): the lines in the bytes that come from the gateway, and the file that
each of them goes to. What `recv` returns is a list of pieces, and behind the last one the
connection is closed.
-/

namespace MoneyLaundering

open Bytes LineSplitter

namespace Sender

def tooLong (maxLineSize : Nat) : String := s!"result line exceeded max_line_size={maxLineSize}"

/-- `_decode_result_line`. -/
def decodeResultLine (line : Bytes) : String :=
  String.ofList (Text.rstrip (fun c => c == '\r' || c == '\n') (decodeReplace line).toList)

/-- The inner loop, over a piece that is cut at its line breaks: the lines that end in it, and what
is left of the last one. -/
def takeLines (maxLineSize : Nat) : Bytes → List Bytes → List String × Except String Bytes
  | line, [] => ([], .ok line)
  | line, segment :: segments =>
    if segments = [] then
      if maxLineSize < (line ++ segment).length then ([], .error (tooLong maxLineSize))
      else ([], .ok (line ++ segment))
    else if maxLineSize < (line ++ segment ++ [newline]).length then ([],
      .error (tooLong maxLineSize))
    else
      let rest := takeLines maxLineSize [] segments
      (decodeResultLine (line ++ segment ++ [newline]) :: rest.1, rest.2)

/-- The outer loop. -/
def receiveLines (maxLineSize : Nat) : Bytes → List Bytes → Generated String
  | line, [] => (if line = [] then [] else [decodeResultLine line], .ok ⟨⟩)
  | line, data :: pieces =>
    let taken := takeLines maxLineSize line (data.splitOn newline)
    match taken.2 with
    | .error error => (taken.1, .error error)
    | .ok line =>
      let rest := receiveLines maxLineSize line pieces
      (taken.1 ++ rest.1, rest.2)

def iterResultLines (maxLineSize : Nat) (pieces : List Bytes) : Generated String :=
  if maxLineSize = 0 then ([], .error "max_line_size must be greater than 0")
  else receiveLines maxLineSize [] pieces

end Sender

namespace Client

/-- `query_by_prefix`. -/
def queryByPrefix : List (String × Query) :=
  [("Q2|", .q2), ("Q3|", .q3), ("Q4|", .q4), ("Q5|", .q5)]

/-- The query of a line, and what is written of it. -/
def queryOf (line : String) : Query × String :=
  match queryByPrefix.lookup (String.ofList (line.toList.take 3)) with
  | none => (.q1, line)
  | some query => (query, String.ofList (line.toList.drop 3))

/-- The first line of each result file. -/
def resultHeader : Query → String
  | .q1 => "From Bank,Account,To Bank,Account.1,Amount Paid\n"
  | .q2 => "From Bank,Account,Bank Name,Amount Paid\n"
  | .q3 => "From Bank,Account,Payment Format,Amount Paid\n"
  | .q4 => "Bank,Account\n"
  | .q5 => "count\n"

/-- One round of the loop over the lines. -/
def writeLine (files : Query → String) (line : String) : Query → String := fun q =>
  if q = (queryOf line).1 then files q ++ ((queryOf line).2 ++ "\n") else files q

/-- `log_result_lines`: the files it leaves behind, and how it ended. -/
def logResultLines (maxLineSize : Nat) (pieces : List Bytes) :
    (Query → String) × Except String Unit :=
  let lines := Sender.iterResultLines maxLineSize pieces
  (lines.1.foldl writeLine resultHeader, lines.2)

end Client

/-! ## Pieces -/

namespace Sender

variable {maxLineSize : Nat} {line front back : Bytes}

theorem takeLines_last (segment : Bytes) : takeLines maxLineSize line [segment] =
    if maxLineSize < (line ++ segment).length then ([], .error (tooLong maxLineSize))
    else ([], .ok (line ++ segment)) := by
  rw [takeLines, if_pos rfl]

theorem takeLines_nothing : takeLines maxLineSize [] [[]] = ([], .ok []) := by
  rw [takeLines_last]
  exact if_neg (Nat.not_lt_zero _)

theorem takeLines_cons (segment : Bytes) {segments : List Bytes} (h : segments ≠ []) :
    takeLines maxLineSize line (segment :: segments) =
      if maxLineSize < (line ++ segment ++ [newline]).length then ([], .error (tooLong maxLineSize))
      else (decodeResultLine (line ++ segment ++ [newline]) ::
        (takeLines maxLineSize [] segments).1, (takeLines maxLineSize [] segments).2) := by
  rw [takeLines, if_neg h]

/-- Go on with more segments, when no line was too long. -/
def andTake (maxLineSize : Nat) (taken : List String × Except String Bytes)
    (segments : List Bytes) :
    List String × Except String Bytes :=
  match taken.2 with
  | .error error => (taken.1, .error error)
  | .ok line =>
    (taken.1 ++ (takeLines maxLineSize line segments).1, (takeLines maxLineSize line segments).2)

theorem andTake_ok (lines : List String) (line : Bytes) (segments : List Bytes) :
    andTake maxLineSize (lines, .ok line) segments =
      (lines ++ (takeLines maxLineSize line segments).1, (takeLines maxLineSize line segments).2) :=
  rfl

theorem takeLines_segments (lines : List Bytes) (last segment : Bytes) (segments : List Bytes) :
    takeLines maxLineSize line (lines ++ (last ++ segment) :: segments) =
      andTake maxLineSize (takeLines maxLineSize line (lines ++ [last])) (segment :: segments) := by
  induction lines generalizing line with
  | nil =>
    rw [List.nil_append, List.nil_append, takeLines_last]
    by_cases hlong : maxLineSize < (line ++ last).length
    · rw [if_pos hlong]
      rw [List.length_append] at hlong
      by_cases hnil : segments = []
      · subst hnil
        rw [takeLines_last, if_pos (by simp only [List.length_append]; omega)]
        rfl
      · rw [takeLines_cons _ hnil, if_pos (by simp only [List.length_append]; omega)]
        rfl
    · rw [if_neg hlong]
      by_cases hnil : segments = []
      · subst hnil
        rw [takeLines_last, andTake_ok, takeLines_last, List.append_assoc]
        rfl
      · rw [takeLines_cons _ hnil, andTake_ok, takeLines_cons _ hnil, List.append_assoc line last]
        rfl
  | cons l lines ih =>
    rw [List.cons_append, List.cons_append, takeLines_cons l (by simp),
      takeLines_cons l (by simp), ih]
    by_cases hlong : maxLineSize < (line ++ l ++ [newline]).length
    · rw [if_pos hlong, if_pos hlong]
      rfl
    · rw [if_neg hlong, if_neg hlong]
      unfold andTake
      cases (takeLines maxLineSize [] (lines ++ [last])).2 <;> rfl

/-- The bytes that come next only continue the line that was left. -/
theorem takeLines_append (line front back : Bytes) :
    takeLines maxLineSize line ((front ++ back).splitOn newline) =
      andTake maxLineSize (takeLines maxLineSize line (front.splitOn newline))
        (back.splitOn newline) := by
  obtain ⟨segment, segments, hback⟩ := List.exists_cons_of_ne_nil (List.splitOn_ne_nil newline back)
  rw [splitOn_append, splitOn_append_of_notMem back (newline_notMem_pendingOf front),
    splitOn_eq front, hback, List.modifyHead_cons, takeLines_segments]

theorem receiveLines_cons (line data : Bytes) (pieces : List Bytes) :
    receiveLines maxLineSize line (data :: pieces) =
      match (takeLines maxLineSize line (data.splitOn newline)).2 with
      | .error error => ((takeLines maxLineSize line (data.splitOn newline)).1, .error error)
      | .ok line' => ((takeLines maxLineSize line (data.splitOn newline)).1 ++
          (receiveLines maxLineSize line' pieces).1, (receiveLines maxLineSize line' pieces).2) :=
            rfl

theorem receiveLines_flatten (line data : Bytes) (pieces : List Bytes) :
    receiveLines maxLineSize line (data :: pieces) = receiveLines maxLineSize line
      [data ++ pieces.flatten] := by
  induction pieces generalizing line data with
  | nil => rw [List.flatten_nil, List.append_nil]
  | cons piece pieces ih =>
    rw [receiveLines_cons, receiveLines_cons, List.flatten_cons, takeLines_append]
    cases h : takeLines maxLineSize line (data.splitOn newline) with
    | mk taken result =>
      cases result with
      | error error => rfl
      | ok line' =>
        dsimp only [andTake]
        rw [ih, receiveLines_cons]
        cases (takeLines maxLineSize line' ((piece ++ pieces.flatten).splitOn newline)).2 with
        | error error => rfl
        | ok line'' =>
          dsimp only
          rw [List.append_assoc]

/-- **However the bytes come.** The lines, and where they end with an exception, depend on the bytes
only. -/
theorem iterResultLines_pieces (pieces : List Bytes) :
    iterResultLines maxLineSize pieces = iterResultLines maxLineSize [pieces.flatten] := by
  unfold iterResultLines
  split
  · rfl
  · cases pieces with
    | nil =>
      rw [List.flatten_nil, receiveLines_cons, List.splitOn_nil, takeLines_nothing]
      rfl
    | cons data pieces => exact receiveLines_flatten [] data pieces

/-! ## Lines that fit -/

/-- A line with its line break, as it is sent. -/
structure Ends (maxLineSize : Nat) (line body : Bytes) : Prop where
  line_eq : line = body ++ [newline]
  notMem : newline ∉ body
  fits : line.length ≤ maxLineSize

theorem splitOn_of_notMem {body : Bytes} (h : newline ∉ body) : body.splitOn newline = [body] := by
  have happend := splitOn_append_of_notMem [] h
  rwa [List.append_nil, List.splitOn_nil, List.modifyHead_cons, List.append_nil] at happend

theorem takeLines_ends {body : Bytes} (h : Ends maxLineSize line body) :
    takeLines maxLineSize [] (line.splitOn newline) = ([decodeResultLine line], .ok []) := by
  have hsplit : line.splitOn newline = [body, []] := by
    rw [h.line_eq, splitOn_append_of_notMem _ h.notMem]
    simp [List.splitOn_cons_eq_if_modifyHead]
  have hfits := h.fits
  rw [hsplit, takeLines_cons _ (List.cons_ne_nil _ _), List.nil_append, ← h.line_eq,
    if_neg (by omega), takeLines_nothing]

/-- Lines that fit are taken one by one. -/
theorem takeLines_all {lines : List Bytes}
    (h : ∀ line ∈ lines, ∃ body, Ends maxLineSize line body) :
    takeLines maxLineSize []
    (lines.flatten.splitOn newline) = (lines.map decodeResultLine, .ok []) := by
  induction lines with
  | nil =>
    rw [List.flatten_nil, List.splitOn_nil, takeLines_nothing]
    rfl
  | cons line lines ih =>
    obtain ⟨body, hline⟩ := h line List.mem_cons_self
    rw [List.flatten_cons, takeLines_append, takeLines_ends hline, andTake_ok,
      ih fun l hl => h l (List.mem_cons_of_mem _ hl)]
    rfl

/-- Lines that fit, and then the beginning of one more. -/
theorem receiveLines_all {lines : List Bytes} {cut : Bytes}
    (h : ∀ line ∈ lines, ∃ body, Ends maxLineSize line body)
    (hcut : newline ∉ cut) (hlen : cut.length ≤ maxLineSize) :
    receiveLines maxLineSize [] [lines.flatten ++ cut] =
      (lines.map decodeResultLine ++ (if cut = [] then [] else [decodeResultLine cut]),
        .ok ⟨⟩) := by
  rw [receiveLines_cons, takeLines_append, takeLines_all h, splitOn_of_notMem hcut, andTake_ok,
    takeLines_last, List.nil_append, if_neg (Nat.not_lt_of_le hlen)]
  dsimp only
  rw [List.append_nil]
  rfl

end Sender

/-! ## The lines of the gateway -/

/-- A line of a query, as a consumer of the gateway puts it. -/
structure ResultLine where
  query : Query
  csv : String

namespace ResultLine

open Client Sender

variable {maxLineSize : Nat} (r : ResultLine)

/-- The line without its line break. -/
def line : String := r.query.prefixOf ++ r.csv

def bytes : Bytes := encodeText (r.line ++ "\n")

/-- A line that comes back as it was sent: a line of Q1 does not look like one of another query. -/
structure Clean (maxLineSize : Nat) : Prop where
  noBreak : '\n' ∉ r.csv.toList
  last : r.csv.toList.getLast? ≠ some '\r'
  unprefixed : r.query = .q1 → queryByPrefix.lookup (String.ofList (r.csv.toList.take 3)) = none
  fits : r.bytes.length ≤ maxLineSize

variable {r}

theorem bytes_eq : r.bytes = encodeText r.line ++ [newline] := by
  rw [bytes, encodeText_append]
  rfl

theorem prefixOf_chars (q : Query) : ∀ c ∈ q.prefixOf.toList, c ≠ '\n' ∧ c ≠ '\r' := by
  cases q <;> simp [Query.prefixOf]

theorem Clean.ends (h : r.Clean maxLineSize) : Ends maxLineSize r.bytes (encodeText r.line) where
  line_eq := bytes_eq
  notMem := by
    refine newline_notMem_encodeText ?_
    rw [line, String.toList_append, List.mem_append, not_or]
    exact ⟨fun hc => (prefixOf_chars _ _ hc).1 rfl, h.noBreak⟩
  fits := h.fits

theorem Clean.decode (h : r.Clean maxLineSize) : decodeResultLine r.bytes = r.line := by
  have hbreak : (r.line ++ "\n").toList = r.line.toList ++ List.replicate 1 '\n' :=
    String.toList_append
  rw [decodeResultLine, bytes, decodeReplace_encodeText, hbreak,
    Text.rstrip_append_replicate (by decide), Text.rstrip_eq_self, String.ofList_toList]
  intro c hc
  rw [line, String.toList_append] at hc
  have hmem : c ≠ '\n' ∧ c ≠ '\r' := by
    cases hcsv : r.csv.toList.getLast? with
    | none =>
      rw [List.getLast?_eq_none_iff.mp hcsv, List.append_nil] at hc
      exact prefixOf_chars _ _ (List.mem_of_getLast? hc)
    | some d =>
      rw [List.getLast?_append, hcsv] at hc
      cases hc
      refine ⟨?_, ?_⟩
      · rintro rfl
        exact h.noBreak (List.mem_of_getLast? hcsv)
      · rintro rfl
        exact h.last hcsv
  simp [hmem.1, hmem.2]

/-- A line goes to the file of its query. -/
theorem Clean.queryOf (h : r.Clean maxLineSize) : Client.queryOf r.line = (r.query, r.csv) := by
  have hprefix : ∀ q : Query, q ≠ .q1 → queryByPrefix.lookup q.prefixOf = some q ∧
      q.prefixOf.toList.length = 3 := by
    intro q hq
    cases q with
    | q1 => exact absurd rfl hq
    | q2 | q3 | q4 | q5 => exact ⟨rfl, rfl⟩
  by_cases hq : r.query = .q1
  · have hline : r.line = r.csv := by
      rw [line, hq]
      exact String.empty_append
    rw [Client.queryOf, hline, h.unprefixed hq, hq]
  · obtain ⟨hlookup, hlen⟩ := hprefix r.query hq
    rw [Client.queryOf, line, String.toList_append, List.take_left' hlen, List.drop_left' hlen,
      String.ofList_toList, String.ofList_toList, hlookup]

/-- The files when these lines are written. -/
def filed (lines : List ResultLine) : Query → String := fun q =>
  resultHeader q ++ String.join ((lines.filter (·.query = q)).map fun r => r.csv ++ "\n")

theorem join_append_singleton (texts : List String) (text : String) :
    String.join (texts ++ [text]) = String.join texts ++ text := by
  rw [String.join, List.foldl_append]
  rfl

theorem foldl_writeLine {lines : List ResultLine} (h : ∀ r ∈ lines, r.Clean maxLineSize) :
    (lines.map line).foldl writeLine resultHeader = filed lines := by
  induction lines using List.reverseRecOn with
  | nil =>
    funext q
    exact String.append_empty.symm
  | append_singleton lines r ih =>
    have hr := h r (List.mem_append_right _ List.mem_cons_self)
    rw [List.map_append, List.foldl_append, ih fun r' hr' => h r' (List.mem_append_left _ hr'),
      List.map_singleton, List.foldl_cons, List.foldl_nil]
    funext q
    rw [writeLine, hr.queryOf, filed, filed, List.filter_append]
    by_cases hq : q = r.query
    · have hone : [r].filter (·.query = q) = [r] := List.filter_eq_self.mpr (by simp [hq])
      rw [if_pos hq, hone, List.map_append, List.map_singleton, join_append_singleton,
        String.append_assoc]
    · have hnone : [r].filter (·.query = q) = [] :=
        List.filter_eq_nil_iff.mpr (by simp [Ne.symm hq])
      rw [if_neg hq, hnone, List.append_nil]

/-- The beginning of some lines: whole ones, and a part of the next. -/
theorem prefix_bytes {lines : List ResultLine} {received : Bytes}
    (h : received <+: (lines.map bytes).flatten) :
    ∃ done rest cut, lines = done ++ rest ∧ received = (done.map bytes).flatten ++ cut ∧
      (cut = [] ∨ ∃ r ∈ rest.head?, cut <+: r.bytes ∧ cut.length < r.bytes.length) := by
  induction lines generalizing received with
  | nil => exact ⟨[], [], [], rfl, List.prefix_nil.mp h, .inl rfl⟩
  | cons r lines ih =>
    rw [List.map_cons, List.flatten_cons] at h
    by_cases hlen : received.length < r.bytes.length
    · exact ⟨[], r :: lines, received, rfl, rfl, .inr ⟨r, rfl,
        List.prefix_of_prefix_length_le h (List.prefix_append _ _) (Nat.le_of_lt hlen), hlen⟩⟩
    · obtain ⟨more, rfl⟩ : r.bytes <+: received :=
        List.prefix_of_prefix_length_le (List.prefix_append _ _) h (Nat.le_of_not_lt hlen)
      obtain ⟨done, rest, cut, rfl, rfl, hcut⟩ := ih ((List.prefix_append_right_inj _).mp h)
      exact ⟨r :: done, rest, cut, rfl, by rw [List.map_cons, List.flatten_cons, List.append_assoc],
        hcut⟩

/-- The result files. However the bytes of the gateway are cut into pieces, and wherever they end,
the client writes each line that has come in full to the file of its query, in order; and what has
come of one more line, if anything, as a line of its own. When all bytes have come, every line is
written, and nothing else. -/
theorem results_filed {maxLineSize : Nat} (hmax : 0 < maxLineSize) {lines : List ResultLine}
    (hclean : ∀ r ∈ lines, r.Clean maxLineSize) {pieces : List Bytes}
    (h : pieces.flatten <+: (lines.map bytes).flatten) :
    ∃ done rest cut, lines = done ++ rest ∧ pieces.flatten = (done.map bytes).flatten ++ cut ∧
      (cut = [] ∨ ∃ r ∈ rest.head?, cut <+: r.bytes ∧ cut.length < r.bytes.length) ∧
      (pieces.flatten = (lines.map bytes).flatten → done = lines ∧ cut = []) ∧
      logResultLines maxLineSize pieces =
        (if cut = [] then filed done else writeLine (filed done) (decodeResultLine cut),
          .ok ⟨⟩) := by
  obtain ⟨done, rest, cut, rfl, hbytes, hcut⟩ := prefix_bytes h
  have hdone : ∀ r ∈ done, r.Clean maxLineSize := fun r hr => hclean r (List.mem_append_left _ hr)
  have hnext : newline ∉ cut ∧ cut.length ≤ maxLineSize := by
    rcases hcut with rfl | ⟨r, hr, hprefix, hlen⟩
    · exact ⟨List.not_mem_nil, Nat.zero_le _⟩
    · have hr' := hclean r (List.mem_append_right _ (List.mem_of_head? hr))
      refine ⟨fun hmem => hr'.ends.notMem ?_, by have := hr'.fits; omega⟩
      rw [bytes_eq, List.length_append, List.length_singleton] at hlen
      rw [bytes_eq] at hprefix
      exact (List.prefix_of_prefix_length_le hprefix (List.prefix_append _ _) (by omega)).subset
        hmem
  refine ⟨done, rest, cut, rfl, hbytes, hcut, fun hall => ?_, ?_⟩
  · rw [hbytes, List.map_append, List.flatten_append, List.append_cancel_left_eq] at hall
    cases rest with
    | nil => exact ⟨(List.append_nil _).symm, hall⟩
    | cons r rest =>
      have hlen := congrArg List.length hall
      have hpos : 0 < r.bytes.length := by
        rw [bytes_eq, List.length_append, List.length_singleton]
        omega
      rw [List.map_cons, List.flatten_cons, List.length_append] at hlen
      rcases hcut with rfl | ⟨_, ⟨⟩, -, hlt⟩
      · rw [List.length_nil] at hlen
        omega
      · omega
  · have hends : ∀ line ∈ done.map bytes, ∃ body, Ends maxLineSize line body := by
      intro line hline
      obtain ⟨r, hr, rfl⟩ := List.mem_map.mp hline
      exact ⟨_, (hdone r hr).ends⟩
    have hdecode : (done.map bytes).map decodeResultLine = done.map line := by
      rw [List.map_map]
      exact List.map_congr_left fun r hr => (hdone r hr).decode
    rw [logResultLines, iterResultLines_pieces, iterResultLines,
      if_neg (Nat.pos_iff_ne_zero.mp hmax), hbytes, receiveLines_all hends hnext.1 hnext.2]
    dsimp only
    rw [hdecode, List.foldl_append, foldl_writeLine hdone]
    split <;> rfl

end ResultLine

end MoneyLaundering
