import LicenseExpr.CommandLine.LogLine
import LicenseExpr.Proofs.Sink
import Mathlib.Data.List.TakeWhile

/-!
# What a batch does

Each text has one event, and one that can be read has a rendering. A batch whose sink has room for all
renderings writes them in order, notes all events and counts the texts. Otherwise it breaks off at the
text whose rendering holds the first byte that does not fit (`batch_outcome`).
-/

namespace LicenseExpr

/-! ## Texts from a stream -/

theorem Text.trimChars_eq_nil_iff {cs : List Char} :
    trimChars cs = [] ↔ ∀ ch ∈ cs, isBlank ch = true := by
  rw [trimChars, List.reverse_eq_nil_iff, List.dropWhile_eq_nil_iff]
  constructor
  · intro h ch hch
    rw [← @List.takeWhile_append_dropWhile _ isBlank cs] at hch
    rcases List.mem_append.mp hch with hfront | hback
    · exact List.mem_takeWhile_imp hfront
    · exact h ch (List.mem_reverse.mpr hback)
  · intro h ch hch
    exact h ch ((List.dropWhile_sublist _).subset (List.mem_reverse.mp hch))

theorem Text.isEmpty_trim_iff {text : String} :
    (trim text).isEmpty = true ↔ ∀ ch ∈ text.toList, isBlank ch = true := by
  rw [String.isEmpty_iff, trim, String.ofList_eq_empty_iff, trimChars_eq_nil_iff]

/-- The lines that are left out are those of blanks alone. -/
theorem Batch.readInputs_eq (bytes : List UInt8) :
    readInputs bytes =
      match Text.ofBytes? bytes with
      | none => .error .notUtf8
      | some text =>
        .ok (((lines text).filter fun line => !line.all Text.isBlank).map String.ofList) := by
  have hline : (fun line => !(Text.trim line).isEmpty) ∘ String.ofList =
      fun line => !line.all Text.isBlank := by
    funext line
    rw [Function.comp_apply, Bool.not_inj_iff, Bool.eq_iff_iff, Text.isEmpty_trim_iff,
      String.toList_ofList, List.all_eq_true]
  rw [readInputs]
  cases Text.ofBytes? bytes with
  | none => rfl
  | some text =>
    dsimp only
    rw [List.filter_map, hline]

namespace Settings

def accepts (settings : Settings) (text : String) : Bool := (settings.reader.read text).result.isOk

/-- What is written for a text. -/
def rendering (settings : Settings) (text : String) : List UInt8 :=
  match (settings.reader.read text).result with
  | .ok e => Text.bytes (settings.format.render e)
  | .error _ => []

def output (settings : Settings) (texts : List String) : List UInt8 :=
  texts.flatMap settings.rendering

/-- What is noted about a text. -/
def event (settings : Settings) (text : String) : Event :=
  match (settings.reader.read text).result with
  | .ok e => .parsed text e.depth
  | .error error => .rejected text error settings.dialect

variable {settings : Settings} {n : Nat} {texts : List String}

theorem output_cons (text : String) (texts : List String) :
    settings.output (text :: texts) = settings.rendering text ++ settings.output texts :=
  List.flatMap_cons

theorem output_append (front back : List String) :
    settings.output (front ++ back) = settings.output front ++ settings.output back :=
  List.flatMap_append

theorem output_singleton (text : String) : settings.output [text] = settings.rendering text :=
  List.flatMap_singleton _ _

theorem exists_text_at (h : n < (settings.output texts).length) :
    ∃ front text back, texts = front ++ text :: back ∧ (settings.output front).length ≤ n ∧
      n < (settings.output (front ++ [text])).length := by
  induction texts generalizing n with
  | nil => cases h
  | cons text texts ih =>
    by_cases hfirst : n < (settings.rendering text).length
    · refine ⟨[], text, texts, rfl, Nat.zero_le _, ?_⟩
      rwa [List.nil_append, output_singleton]
    · rw [output_cons, List.length_append] at h
      obtain ⟨front, text', back, rfl, hle, hlt⟩ := @ih (n - (settings.rendering text).length) (by omega)
      refine ⟨text :: front, text', back, rfl, ?_, ?_⟩
      · rw [output_cons, List.length_append]
        omega
      · rw [List.cons_append, output_cons, List.length_append]
        omega

end Settings

namespace Batch

variable {settings : Settings} {p : Progress} {room : Nat} {text : String} {texts : List String}

def Progress.events (p : Progress) : List Event := p.journal.reverse.filterMap Entry.event?

theorem Progress.events_note (p : Progress) (reading : Reading) (event : Event) :
    (p.note reading event).events = p.events ++ [event] := by
  simp [events, note, List.filterMap_append, List.filterMap_map, Function.comp_def, Entry.event?]

/-! ## One text -/

/-- The batch behind a text whose rendering fits. -/
def Progress.advance (settings : Settings) (p : Progress) (text : String) : Progress where
  sink := p.sink.after (settings.rendering text)
  summary :=
    if settings.accepts text then { p.summary with parsed := p.summary.parsed + 1 }
    else { p.summary with failed := p.summary.failed + 1 }
  journal := (p.note (settings.reader.read text) (settings.event text)).journal

/-- The batch at a text whose rendering does not fit. -/
def Progress.breakOff (settings : Settings) (p : Progress) (text : String) (room : Nat) : Progress :=
  { p.note (settings.reader.read text) (settings.event text) with
    sink := p.sink.after ((settings.rendering text).take room) }

theorem process_of_fits (h : p.sink.Fits (settings.rendering text).length) :
    p.process settings text = (p.advance settings text, .ok ()) := by
  unfold Progress.process Progress.advance Settings.accepts Settings.event Settings.rendering at *
  cases hresult : (settings.reader.read text).result with
  | error error => simp [hresult, Except.isOk, Except.toBool, Progress.note]
  | ok e =>
    rw [hresult] at h
    have hwrite := Sink.writeExpression_of_fits h
    simp [hresult, Except.isOk, Except.toBool, Progress.note, hwrite]

theorem process_of_lt (hroom : p.sink.room = some room) (h : room < (settings.rendering text).length) :
    ∃ e, (settings.reader.read text).result = .ok e ∧
      p.process settings text = (p.breakOff settings text room,
        .error (p.sink.failure (settings.format = .json ∧ room < (Text.bytes e.toJson).length))) := by
  unfold Progress.process Progress.breakOff Settings.event Settings.rendering at *
  cases hresult : (settings.reader.read text).result with
  | error error =>
    rw [hresult] at h
    cases h
  | ok e =>
    rw [hresult] at h
    have hwrite := Sink.writeExpression_of_lt hroom h
    exact ⟨e, rfl, by simp [hresult, Progress.note, hwrite]⟩

/-! ## Texts whose renderings fit -/

def Progress.advanceAll (settings : Settings) (p : Progress) (texts : List String) : Progress :=
  texts.foldl (Progress.advance settings) p

theorem sink_advanceAll (settings : Settings) (p : Progress) (texts : List String) :
    (p.advanceAll settings texts).sink = p.sink.after (settings.output texts) := by
  induction texts generalizing p with
  | nil => exact (Sink.after_nil p.sink).symm
  | cons text texts ih =>
    have hadvance : (p.advance settings text).sink = p.sink.after (settings.rendering text) := rfl
    rw [Progress.advanceAll, List.foldl_cons, ← Progress.advanceAll, ih, hadvance, Sink.after_after,
      Settings.output_cons]

theorem events_advanceAll (settings : Settings) (p : Progress) (texts : List String) :
    (p.advanceAll settings texts).events = p.events ++ texts.map settings.event := by
  induction texts generalizing p with
  | nil => exact (List.append_nil _).symm
  | cons text texts ih =>
    have hadvance : (p.advance settings text).events = p.events ++ [settings.event text] :=
      p.events_note (settings.reader.read text) (settings.event text)
    rw [Progress.advanceAll, List.foldl_cons, ← Progress.advanceAll, ih, hadvance, List.map_cons,
      List.append_assoc, List.singleton_append]

theorem summary_advanceAll (settings : Settings) (p : Progress) (texts : List String) :
    (p.advanceAll settings texts).summary =
      ⟨p.summary.parsed + texts.countP settings.accepts,
        p.summary.failed + texts.countP fun text => !settings.accepts text⟩ := by
  induction texts generalizing p with
  | nil => rfl
  | cons text texts ih =>
    rw [Progress.advanceAll, List.foldl_cons, ← Progress.advanceAll, ih, Progress.advance]
    by_cases haccepts : settings.accepts text = true
    · simp [haccepts, Nat.add_assoc, Nat.add_comm 1]
    · simp [haccepts, Nat.add_assoc, Nat.add_comm 1]

/-- A batch goes on behind texts whose renderings fit as it would from there. -/
theorem runFrom_append (h : p.sink.Fits (settings.output texts).length) (rest : List String) :
    runFrom settings p (texts ++ rest) = runFrom settings (p.advanceAll settings texts) rest := by
  induction texts generalizing p with
  | nil => rfl
  | cons text texts ih =>
    rw [Settings.output_cons] at h
    obtain ⟨hfirst, hrest⟩ := Sink.fits_append_iff.mp h
    rw [List.cons_append, runFrom, process_of_fits hfirst]
    exact ih hrest

/-! ## Whole batches -/

/-- All renderings are written, each text has its event, and the texts are counted. -/
structure Completes (settings : Settings) (texts : List String) (report : Report) : Prop where
  taken : report.sink.taken.toList = settings.output texts
  events : report.events = texts.map settings.event
  result : report.result =
    .ok ⟨texts.countP settings.accepts, texts.countP fun text => !settings.accepts text⟩

/-- The first `n` bytes are written. The last event is that of the text whose rendering holds byte `n`,
and the failure is one of JSON if that byte is part of the document. -/
structure BreaksOff (settings : Settings) (texts : List String) (n : Nat) (refusal : String)
    (report : Report) : Prop where
  taken : report.sink.taken.toList = (settings.output texts).take n
  stop : ∃ front text back e, texts = front ++ text :: back ∧
    (settings.reader.read text).result = .ok e ∧
    (settings.output front).length ≤ n ∧ n < (settings.output (front ++ [text])).length ∧
    report.events = (front ++ [text]).map settings.event ∧
    report.result = .error
      (if settings.format = .json ∧ n < (settings.output front).length + (Text.bytes e.toJson).length
        then .json (.refused refusal) else .stream (.refused refusal))

theorem completes_of_fits {sink : Sink} (htaken : sink.taken = #[])
    (h : sink.Fits (settings.output texts).length) : Completes settings texts (run settings texts sink) := by
  have hrun := @runFrom_append settings ⟨sink, ⟨0, 0⟩, []⟩ texts h []
  rw [List.append_nil, runFrom] at hrun
  rw [run, hrun]
  refine ⟨?_, ?_, ?_⟩
  · simp [sink_advanceAll, htaken]
  · exact events_advanceAll settings _ texts
  · simp [summary_advanceAll]

theorem breaksOff_of_lt {n : Nat} {refusal : String} (h : n < (settings.output texts).length) :
    BreaksOff settings texts n refusal (run settings texts (.bounded n refusal)) := by
  -- `text` is the one whose rendering goes over the limit; all that stands before it is written.
  obtain ⟨front, text, back, rfl, hle, hlt⟩ := Settings.exists_text_at h
  let start : Progress := ⟨.bounded n refusal, ⟨0, 0⟩, []⟩
  let p : Progress := start.advanceAll settings front
  have hrun : run settings (front ++ text :: back) (.bounded n refusal) =
      runFrom settings p (text :: back) := runFrom_append (Sink.fits_bounded_iff.mpr hle) (text :: back)
  have hsink : p.sink = (Sink.bounded n refusal).after (settings.output front) :=
    sink_advanceAll settings start front
  have hevents : p.events = front.map settings.event := events_advanceAll settings start front
  have hroom : p.sink.room = some (n - (settings.output front).length) := hsink ▸ Sink.room_after rfl
  have hhere : n - (settings.output front).length < (settings.rendering text).length := by
    rw [Settings.output_append, Settings.output_singleton, List.length_append] at hlt
    omega
  obtain ⟨e, hresult, hprocess⟩ := process_of_lt hroom hhere
  rw [hrun, runFrom, hprocess]
  refine ⟨?_, front, text, back, e, rfl, hresult, hle, hlt, ?_, ?_⟩
  · have hbefore : (settings.output front).take n = settings.output front := List.take_of_length_le hle
    have hbehind : (settings.rendering text ++ settings.output back).take
        (n - (settings.output front).length) =
          (settings.rendering text).take (n - (settings.output front).length) :=
      List.take_append_of_le_length (Nat.le_of_lt hhere)
    rw [Settings.output_append, Settings.output_cons, List.take_append, hbefore, hbehind]
    simp [Progress.breakOff, hsink, Sink.bounded]
  · rw [List.map_append, List.map_singleton, ← hevents]
    exact p.events_note (settings.reader.read text) (settings.event text)
  · have hdocument : n - (settings.output front).length < (Text.bytes e.toJson).length ↔
        n < (settings.output front).length + (Text.bytes e.toJson).length := by omega
    simp [hsink, Sink.failure, Sink.bounded, hdocument]

/-- A sink that never refuses lets a batch come to its end, and so does one with room for the whole
output. Any other breaks it off at the first byte that does not fit. -/
theorem batch_outcome (settings : Settings) (texts : List String) :
    (∀ e, (Sink.unbounded.writeExpression settings.format e).1.taken.toList =
        Text.bytes (settings.format.render e)) ∧
      Completes settings texts (run settings texts .unbounded) ∧
      (∀ n refusal, (settings.output texts).length ≤ n →
        Completes settings texts (run settings texts (.bounded n refusal))) ∧
      (∀ n refusal, n < (settings.output texts).length →
        BreaksOff settings texts n refusal (run settings texts (.bounded n refusal))) ∧
      ∀ text, (CommandLine.LogLine.ofEntry (.event (settings.event text))).level =
        if settings.accepts text then .debug else .error := by
  refine ⟨fun e => ?_, completes_of_fits rfl (Sink.fits_unbounded _), fun n refusal h => ?_,
    fun n refusal h => breaksOff_of_lt h, fun text => ?_⟩
  · rw [Sink.writeExpression_of_fits (Sink.fits_unbounded _)]
    simp [Sink.unbounded]
  · exact completes_of_fits rfl (Sink.fits_bounded_iff.mpr h)
  · unfold Settings.event Settings.accepts
    cases (settings.reader.read text).result <;> rfl

/-- A sink with room for all, one that is full behind the first document, and one behind its line. -/
theorem batch_breaks_off_at_line_end :
    let settings : Settings := ⟨.warn, .strict, 9, .json⟩
    let texts := ["MIT", "A AND", "(B)"]
    (settings.output texts).length = 50 ∧
      Completes settings texts (run settings texts (.bounded 50 "full")) ∧
      BreaksOff settings texts 20 "full" (run settings texts (.bounded 20 "full")) ∧
      BreaksOff settings texts 21 "full" (run settings texts (.bounded 21 "full")) := by
  intro settings texts
  have hlength : (settings.output texts).length = 50 := by decide +kernel
  obtain ⟨-, -, hcompletes, hbreaks, -⟩ := batch_outcome settings texts
  exact ⟨hlength, hcompletes 50 "full" (Nat.le_of_eq hlength), hbreaks 20 "full" (by omega),
    hbreaks 21 "full" (by omega)⟩

end Batch

end LicenseExpr
