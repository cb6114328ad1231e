import LicenseExpr.Settings
import LicenseExpr.Sink

/-!
# Batches

A batch reads texts one after the other and writes an expression for each that can be read; the
others are counted. The journal of a batch holds the records of reading and an event for each
text, in order. A sink that refuses to take more ends the batch.
-/

namespace LicenseExpr

structure Summary where
  parsed : Nat
  failed : Nat
  deriving DecidableEq

inductive Event where
  /-- A text was read; stands before its expression is written. -/
  | parsed (text : String) (depth : Nat)
  | rejected (text : String) (error : SyntaxError) (dialect : Dialect)
  deriving DecidableEq

inductive Entry where
  | record (r : LogRecord)
  | event (e : Event)
  deriving DecidableEq

def Entry.event? : Entry → Option Event
  | record _ => none
  | event e => some e

namespace Batch

structure Progress where
  sink : Sink
  summary : Summary
  /-- The latest entry first. -/
  journal : List Entry

structure Report where
  sink : Sink
  journal : List Entry
  result : Except Failure Summary

def Report.events (r : Report) : List Event := r.journal.filterMap Entry.event?

/-- Puts the records of a reading and its event into the journal. -/
def Progress.note (p : Progress) (reading : Reading) (event : Event) : Progress :=
  { p with journal := .event event :: ((reading.records.map .record).reverse ++ p.journal) }

def Progress.process (settings : Settings) (p : Progress) (text : String) :
    Progress × Except Failure Unit :=
  let reading := settings.reader.read text
  match reading.result with
  | .error error =>
    let p := p.note reading (.rejected text error settings.dialect)
    ({ p with summary := { p.summary with failed := p.summary.failed + 1 } }, .ok ())
  | .ok e =>
    let p := p.note reading (.parsed text e.depth)
    match p.sink.writeExpression settings.format e with
    | (sink, .error failure) => ({ p with sink }, .error failure)
    | (sink, .ok ()) =>
      ({ p with sink, summary := { p.summary with parsed := p.summary.parsed + 1 } }, .ok ())

def runFrom (settings : Settings) (p : Progress) : List String → Report
  | [] => ⟨p.sink, p.journal.reverse, .ok p.summary⟩
  | text :: texts =>
    match p.process settings text with
    | (p, .ok ()) => runFrom settings p texts
    | (p, .error failure) => ⟨p.sink, p.journal.reverse, .error failure⟩

def run (settings : Settings) (texts : List String) (sink : Sink) : Report :=
  runFrom settings ⟨sink, ⟨0, 0⟩, []⟩ texts

/-! ## Texts from a stream -/

def dropReturn (line : List Char) : List Char :=
  if line.getLast? = some '\r' then line.dropLast else line

/-- The lines of a text. A line ends with a line feed and a carriage return before it, if there is
one; the last line may lack the line feed, and keeps a carriage return then. -/
def lines (text : String) : List (List Char) :=
  let parts := text.toList.splitOn '\n'
  parts.dropLast.map dropReturn ++ parts.getLast?.toList.filter (· ≠ [])

/-- The lines of which trimming leaves something, as they stand. -/
def readInputs (bytes : List UInt8) : Except StreamError (List String) :=
  match Text.ofBytes? bytes with
  | none => .error .notUtf8
  | some text => .ok (((lines text).map String.ofList).filter fun line => !(Text.trim line).isEmpty)

end Batch

end LicenseExpr
