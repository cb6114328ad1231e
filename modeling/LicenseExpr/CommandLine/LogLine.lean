import LicenseExpr.Batch

/-!
# Log lines

A log line holds a level, the part of the program that speaks, a message and named values.
Controls that a terminal could obey are escaped in the message; a value is shown as it is given,
texts in quotes.
-/

namespace LicenseExpr.CommandLine

/-- The name of a level, right-aligned in five columns. -/
def levelLabel : Level → String
  | .trace => "TRACE"
  | .debug => "DEBUG"
  | .info => " INFO"
  | .warn => " WARN"
  | .error => "ERROR"

/-- Escapes the controls that start or end a terminal's own sequences. -/
def escapeControl (c : Char) : List Char :=
  match c with
  | '\x07' => "\\x07".toList
  | '\x08' => "\\x08".toList
  | '\x0c' => "\\x0c".toList
  | '\x1b' => "\\x1b".toList
  | '\x7f' => "\\x7f".toList
  | c => if 0x80 ≤ c.toNat ∧ c.toNat ≤ 0x9F then Text.codePointEscape c else [c]

structure LogLine where
  level : Level
  target : String
  message : String
  fields : List (String × String)

namespace LogLine

def render (l : LogLine) : String :=
  levelLabel l.level ++ " " ++ l.target ++ ": " ++
    String.ofList (l.message.toList.flatMap escapeControl) ++
    String.join (l.fields.map fun (name, value) => " " ++ name ++ "=" ++ value)

def programTarget : String := "spdx_expr"

def ofEntry : Entry → LogLine
  | .record r => ⟨r.level, r.target, r.message, []⟩
  | .event (.parsed text depth) =>
    ⟨.debug, "spdx_expr_cli::app", "parsed expression",
      [("input", Text.quote text), ("depth", toString depth)]⟩
  | .event (.rejected text error dialect) =>
    ⟨.error, "spdx_expr_cli::app", error.message,
      [("input", Text.quote text), ("offset", toString error.offset), ("dialect", dialect.name)]⟩

def badSettings (e : SettingsError) : LogLine :=
  ⟨.error, programTarget, "invalid configuration", [("error", (Failure.settings e).message)]⟩

/-- The last line: the counts of a batch, or what ended it. -/
def ofResult : Except Failure Summary → LogLine
  | .ok s =>
    ⟨.info, programTarget, "finished",
      [("parsed", toString s.parsed), ("failed", toString s.failed)]⟩
  | .error f => ⟨.error, programTarget, "spdx-expr failed", [("error", f.message)]⟩

def shown (level : Level) (lines : List LogLine) : List String :=
  (lines.filter fun l => level.shows l.level).map render

end LogLine

end LicenseExpr.CommandLine
