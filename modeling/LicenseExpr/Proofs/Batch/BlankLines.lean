import LicenseExpr.Proofs.Batch
import LicenseExpr.Proofs.Token
import LicenseExpr.Proofs.Utf8

/-!
# Blank lines

A line is left out where nothing of it remains after trimming, which is where it holds no token
(`holdsToken_iff`), and a text without a token is refused in every dialect. So a batch of all lines of
a text does what a batch of the lines that are read from it does, and counts a failure more for each
line that is left out (`blank_lines_only_add_failures`).
-/

namespace LicenseExpr

/-! ## Texts without a token -/

/-- The text has a token before its end. -/
def holdsToken (text : String) : Bool := (tokenize text).any (·.lexeme ≠ .endOfInput)

theorem Cursor.tokens_eq_nil_iff {c : Cursor} :
    c.tokens = [] ↔ ∀ ch ∈ c.rest, Text.isBlank ch = true := by
  constructor
  · intro h
    rcases c.blank_or_written with hblank | ⟨blanks, cs, rest, l, hrest, hblanks, hl, hend⟩
    · exact hblank
    · rw [show c = ⟨blanks ++ (cs ++ rest), c.offset⟩ from hrest ▸ rfl,
        tokens_of_written hblanks hl hend] at h
      cases h
  · exact fun h => tokens_of_blank h c.offset

theorem holdsToken_iff_tokens {text : String} :
    holdsToken text = true ↔ (Cursor.ofText text).tokens ≠ [] := by
  have hends : ∀ t ∈ (Cursor.ofText text).tokens, t.lexeme ≠ .endOfInput :=
    fun t ht => Cursor.lexeme_ne_endOfInput_of_mem_tokens ht
  rw [holdsToken, tokenize, List.any_append, Bool.or_eq_true, List.any_eq_true]
  constructor
  · rintro (⟨t, ht, -⟩ | h)
    · exact List.ne_nil_of_mem ht
    · simp [Cursor.endToken] at h
  · intro hne
    obtain ⟨t, ht⟩ := List.exists_mem_of_ne_nil _ hne
    exact .inl ⟨t, ht, by simpa using hends t ht⟩

/-- A text holds a token exactly if something of it remains after trimming. -/
theorem holdsToken_iff {text : String} : holdsToken text = true ↔ Text.trimChars text.toList ≠ [] := by
  rw [holdsToken_iff_tokens, Ne, Ne, Cursor.tokens_eq_nil_iff, Text.trimChars_eq_nil_iff]
  rfl

theorem read_of_not_holdsToken (reader : Reader) {text : String} (h : holdsToken text = false) :
    (reader.read text).result = .error (.emptyExpression (Text.byteLength text.toList)) := by
  have htokens : (Cursor.ofText text).tokens = [] := by
    rwa [← Bool.not_eq_true, holdsToken_iff_tokens, not_not] at h
  have hrun (strictness : Strictness) :
      (RightNested.read strictness reader.maxDepth text).result = .ok none := by
    rw [RightNested.read, htokens, RightNested.run_of_finish (Strictness.refusal?_nil strictness) rfl]
    rfl
  obtain ⟨dialect, limit⟩ := reader
  cases dialect with
  | lenient | strict =>
    change (RightNested.read _ limit text).result >>= Reader.requireExpression text = _
    rw [hrun]
    rfl
  | spdx =>
    change Precedence.readTokens limit (Cursor.ofText text).stop (Cursor.ofText text).tokens = _
    rw [htokens, ← stop_ofText]
    rfl

def Event.text : Event → String
  | parsed text _ | rejected text _ _ => text

def Summary.addFailed (s : Summary) (n : Nat) : Summary := { s with failed := s.failed + n }

namespace Batch

/-! ## Lines -/

/-- The lines of a text. A line ends before a line feed, or before a carriage return and a line feed,
and the last one may end with the text. -/
inductive LinesOf : List Char → List (List Char) → Prop where
  | nil : LinesOf [] []
  | last {line : List Char} : line ≠ [] → '\n' ∉ line → LinesOf line [line]
  | lineFeed {line rest : List Char} {lines : List (List Char)} :
      '\n' ∉ line → line.getLast? ≠ some '\r' → LinesOf rest lines →
      LinesOf (line ++ '\n' :: rest) (line :: lines)
  | returnLineFeed {line rest : List Char} {lines : List (List Char)} :
      '\n' ∉ line → LinesOf rest lines → LinesOf (line ++ '\r' :: '\n' :: rest) (line :: lines)

variable {line rest cs : List Char} {ls : List (List Char)}

theorem lines_of_notMem (h : '\n' ∉ line) :
    lines (.ofList line) = if line = [] then [] else [line] := by
  rw [lines, String.toList_ofList, List.splitOn_eq_singleton h]
  by_cases hnil : line = [] <;> simp [hnil]

theorem lines_append (h : '\n' ∉ line) (rest : List Char) :
    lines (.ofList (line ++ '\n' :: rest)) = dropReturn line :: lines (.ofList rest) := by
  obtain ⟨part, parts, hparts⟩ := List.exists_cons_of_ne_nil (List.splitOn_ne_nil '\n' rest)
  rw [lines, lines, String.toList_ofList, String.toList_ofList,
    List.splitOn_append_cons_self_of_not_mem h, hparts]
  rfl

theorem LinesOf.lines_eq (h : LinesOf cs ls) : lines (.ofList cs) = ls := by
  induction h with
  | nil => rfl
  | last hne hline => rw [lines_of_notMem hline, if_neg hne]
  | lineFeed hline hlast _ ih => rw [lines_append hline, ih, dropReturn, if_neg hlast]
  | @returnLineFeed line rest _ hline _ ih =>
    have hreturn : '\n' ∉ line ++ ['\r'] := by simp [hline]
    rw [show line ++ '\r' :: '\n' :: rest = (line ++ ['\r']) ++ '\n' :: rest by simp,
      lines_append hreturn, ih]
    simp [dropReturn]

theorem exists_linesOf (cs : List Char) : ∃ ls, LinesOf cs ls := by
  by_cases hfeed : '\n' ∈ cs
  · obtain ⟨line, rest, hcs, hline⟩ := List.eq_append_cons_of_mem hfeed
    have hshorter : rest.length < cs.length := by
      rw [hcs, List.length_append, List.length_cons]
      omega
    obtain ⟨ls, hls⟩ := exists_linesOf rest
    subst hcs
    by_cases hreturn : line.getLast? = some '\r'
    · obtain ⟨line, rfl⟩ := List.getLast?_eq_some_iff.mp hreturn
      have hfront : '\n' ∉ line := fun hmem => hline (List.mem_append_left _ hmem)
      refine ⟨line :: ls, ?_⟩
      rw [List.append_assoc]
      exact .returnLineFeed hfront hls
    · exact ⟨line :: ls, .lineFeed hline hreturn hls⟩
  · rcases cs with _ | ⟨c, cs⟩
    · exact ⟨[], .nil⟩
    · exact ⟨[c :: cs], .last (List.cons_ne_nil c cs) hfeed⟩
termination_by cs.length
decreasing_by exact hshorter

/-- A text has lines in one way only. -/
theorem linesOf_iff {text : String} : LinesOf text.toList ls ↔ ls = lines text := by
  have heq (ls : List (List Char)) (h : LinesOf text.toList ls) : ls = lines text := by
    rw [← h.lines_eq, String.ofList_toList]
  obtain ⟨ls', hls'⟩ := exists_linesOf text.toList
  constructor
  · exact heq ls
  · rintro rfl
    rwa [← heq ls' hls']

theorem readInputs_bytes (text : String) :
    readInputs (Text.bytes text) = .ok (((lines text).map String.ofList).filter holdsToken) := by
  have hline : (fun line => !(Text.trim line).isEmpty) = holdsToken := by
    funext line
    rw [Bool.eq_iff_iff, holdsToken_iff, Ne, Text.trimChars_eq_nil_iff, ← Text.isEmpty_trim_iff]
    simp
  rw [readInputs, Text.ofBytes?_bytes, hline]

/-! ## Batches with and without blank lines -/

/-- `n` texts without a token are left out of the first batch; nothing else sets them apart. -/
structure Progress.LeavesOut (n : Nat) (p p' : Progress) : Prop where
  sink : p'.sink = p.sink
  events : (p'.events.filter fun e => holdsToken e.text) = p.events
  summary : p'.summary = p.summary.addFailed n

/-- As `Progress.LeavesOut`, for batches that are over. -/
structure Report.LeavesOut (n : Nat) (r r' : Report) : Prop where
  sink : r'.sink = r.sink
  events : (r'.events.filter fun e => holdsToken e.text) = r.events
  result : r'.result = r.result.map (·.addFailed n)

variable {settings : Settings} {n : Nat} {p p' : Progress} {text : String}

theorem text_event (settings : Settings) (text : String) : (settings.event text).text = text := by
  unfold Settings.event
  cases (settings.reader.read text).result <;> rfl

theorem events_advance (settings : Settings) (p : Progress) (text : String) :
    (p.advance settings text).events = p.events ++ [settings.event text] :=
  p.events_note (settings.reader.read text) (settings.event text)

theorem events_breakOff (settings : Settings) (p : Progress) (text : String) (room : Nat) :
    (p.breakOff settings text room).events = p.events ++ [settings.event text] :=
  p.events_note (settings.reader.read text) (settings.event text)

namespace Progress.LeavesOut

theorem filter_events (h : p.LeavesOut n p') (settings : Settings) (text : String) :
    ((p'.events ++ [settings.event text]).filter fun e => holdsToken e.text) =
      p.events ++ if holdsToken text then [settings.event text] else [] := by
  rw [List.filter_append, h.events, List.filter_singleton, text_event, Bool.cond_eq_ite]

/-- A text without a token is noted and counted, and nothing is written for it. -/
theorem skip (h : p.LeavesOut n p') (htext : holdsToken text = false) :
    p'.process settings text = (p'.advance settings text, .ok ()) ∧
      p.LeavesOut (n + 1) (p'.advance settings text) := by
  have hresult := read_of_not_holdsToken settings.reader htext
  have hrendering : settings.rendering text = [] := by rw [Settings.rendering, hresult]
  have haccepts : settings.accepts text = false := by rw [Settings.accepts, hresult]; rfl
  refine ⟨process_of_fits (by rw [hrendering]; exact fun room _ => Nat.zero_le room), ?_, ?_, ?_⟩
  · rw [advance, hrendering, Sink.after_nil, h.sink]
  · rw [events_advance, h.filter_events, htext]
    exact List.append_nil _
  · rw [advance, haccepts, h.summary]
    rfl

theorem advance (h : p.LeavesOut n p') (htext : holdsToken text = true) :
    (p.advance settings text).LeavesOut n (p'.advance settings text) := by
  refine ⟨?_, ?_, ?_⟩
  · rw [Progress.advance, Progress.advance, h.sink]
  · rw [events_advance, events_advance, h.filter_events, htext]
    rfl
  · rw [Progress.advance, Progress.advance, h.summary]
    cases settings.accepts text
    · simp [Summary.addFailed, Nat.add_right_comm]
    · rfl

theorem breakOff (h : p.LeavesOut n p') (htext : holdsToken text = true) (room : Nat) :
    (p.breakOff settings text room).LeavesOut n (p'.breakOff settings text room) := by
  refine ⟨?_, ?_, h.summary⟩
  · rw [Progress.breakOff, Progress.breakOff, h.sink]
  · rw [events_breakOff, events_breakOff, h.filter_events, htext]
    rfl

theorem runFrom (h : p.LeavesOut n p') (texts : List String) :
    (runFrom settings p (texts.filter holdsToken)).LeavesOut
      (n + texts.countP fun text => !holdsToken text) (runFrom settings p' texts) := by
  induction texts generalizing n p p' with
  | nil => exact ⟨h.sink, h.events, congrArg Except.ok h.summary⟩
  | cons text texts ih =>
    rcases htext : holdsToken text with _ | _
    · obtain ⟨hprocess, hnext⟩ := @skip settings _ _ _ _ h htext
      have hrest := ih hnext
      rw [Batch.runFrom, hprocess, List.filter_cons_of_neg (by simp [htext]),
        List.countP_cons_of_pos (by simp [htext]), Nat.add_comm _ 1, ← Nat.add_assoc]
      exact hrest
    · rw [List.filter_cons_of_pos htext, List.countP_cons_of_neg (by simp [htext])]
      by_cases hfits : p.sink.Fits (settings.rendering text).length
      · rw [Batch.runFrom, Batch.runFrom, process_of_fits hfits, process_of_fits (h.sink ▸ hfits)]
        exact ih (h.advance htext)
      · obtain ⟨room, hroom, hlt⟩ := Sink.not_fits_iff.mp hfits
        obtain ⟨e, he, hprocess⟩ := process_of_lt hroom hlt
        obtain ⟨e', he', hprocess'⟩ := process_of_lt (h.sink ▸ hroom) hlt
        obtain rfl := Except.ok.inj (he.symm.trans he')
        rw [Batch.runFrom, Batch.runFrom, hprocess, hprocess', h.sink]
        have hbreak := @breakOff settings _ _ _ _ h htext room
        exact ⟨hbreak.sink, hbreak.events, rfl⟩

end Progress.LeavesOut

/-- Of the lines of a text those that hold a token are read. A batch of all lines does what a batch of
those does, but for the lines without a token, which are refused and counted. Bytes that are no text
give no lines at all. -/
theorem blank_lines_only_add_failures :
    (∀ text : String,
      let all := (lines text).map String.ofList
      let kept := all.filter holdsToken
      (∀ ls, LinesOf text.toList ls ↔ ls = lines text) ∧
      readInputs (Text.bytes text) = .ok kept ∧
      ∀ settings : Settings,
        (∀ sink, (run settings kept sink).LeavesOut (all.length - kept.length)
          (run settings all sink)) ∧
        ∃ parsed failed, (run settings kept .unbounded).result = .ok ⟨parsed, failed⟩ ∧
          (run settings all .unbounded).result =
            .ok ⟨parsed, failed + (all.length - kept.length)⟩) ∧
    ∀ bytes, (∀ text, Text.bytes text ≠ bytes) → readInputs bytes = .error .notUtf8 := by
  refine ⟨fun text => ?_, fun bytes h => ?_⟩
  · intro all kept
    have hdropped : all.length - kept.length = all.countP fun text => !holdsToken text := by
      have hlength := @List.length_eq_countP_add_countP _ holdsToken all
      simp only [Bool.not_eq_true, ← Bool.not_eq_true', Bool.decide_eq_true] at hlength
      rw [hlength, List.countP_eq_length_filter, Nat.add_sub_cancel_left]
    refine ⟨fun ls => linesOf_iff, readInputs_bytes text, fun settings => ?_⟩
    have hleaves (sink : Sink) :
        (run settings kept sink).LeavesOut (all.length - kept.length) (run settings all sink) := by
      have hstart : Progress.LeavesOut 0 ⟨sink, ⟨0, 0⟩, []⟩ ⟨sink, ⟨0, 0⟩, []⟩ := ⟨rfl, rfl, rfl⟩
      have hrun := @Progress.LeavesOut.runFrom settings _ _ _ hstart all
      rwa [Nat.zero_add, ← hdropped] at hrun
    have hkept : Completes settings kept (run settings kept .unbounded) :=
      completes_of_fits rfl (Sink.fits_unbounded _)
    refine ⟨hleaves, _, _, hkept.result, ?_⟩
    rw [(hleaves .unbounded).result, hkept.result]
    rfl
  · rw [readInputs, Text.ofBytes?_eq_none_iff.mpr h]

/-- A line of blanks between two others, and a byte that is part of no text. -/
theorem blank_line_counts_as_failed :
    let settings : Settings := ⟨.warn, .spdx, 9, .json⟩
    lines "MIT\r\n \t\nA AND" = [['M', 'I', 'T'], [' ', '\t'], ['A', ' ', 'A', 'N', 'D']] ∧
      readInputs (Text.bytes "MIT\r\n \t\nA AND") = .ok ["MIT", "A AND"] ∧
      (∃ parsed failed, (run settings ["MIT", "A AND"] .unbounded).result = .ok ⟨parsed, failed⟩ ∧
        (run settings ["MIT", " \t", "A AND"] .unbounded).result = .ok ⟨parsed, failed + 1⟩) ∧
      (∀ text, Text.bytes text ≠ [0x4D, 0xFF]) ∧ readInputs [0x4D, 0xFF] = .error .notUtf8 := by
  intro settings
  have hlines : lines "MIT\r\n \t\nA AND" =
      [['M', 'I', 'T'], [' ', '\t'], ['A', ' ', 'A', 'N', 'D']] := by decide +kernel
  have hbytes : ∀ text, Text.bytes text ≠ [0x4D, 0xFF] :=
    Text.ofBytes?_eq_none_iff.mp (by decide +kernel)
  obtain ⟨htexts, hnone⟩ := blank_lines_only_add_failures
  obtain ⟨-, hread, hrun⟩ := htexts "MIT\r\n \t\nA AND"
  have hkept : (((lines "MIT\r\n \t\nA AND").map String.ofList).filter holdsToken) =
      ["MIT", "A AND"] := by decide +kernel
  have hall : (lines "MIT\r\n \t\nA AND").map String.ofList = ["MIT", " \t", "A AND"] := by
    decide +kernel
  rw [hkept] at hread hrun
  rw [hall] at hrun
  exact ⟨hlines, hread, (hrun settings).2, hbytes, hnone _ hbytes⟩

end Batch
end LicenseExpr
