import LicenseExpr.CommandLine.Arguments
import LicenseExpr.Text.Terminal

/-!
# Refused arguments

A refusal is worded for a terminal, with what is wrong in yellow and the names of options in bold,
and then written as plain text. Controls and sequences that came in with the arguments go the same
way as those that set the colours. A sequence that an argument leaves open ends at the next colour;
in the reason of a refusal there is none, so the sequence reaches into the text behind it.
-/

namespace LicenseExpr.CommandLine

def inYellow (text : String) : String := "\x1b[33m" ++ text ++ "\x1b[0m"

def inBold (text : String) : String := "\x1b[1m" ++ text ++ "\x1b[0m"

namespace UsageError

/-- The wording for a terminal. -/
def coloured : UsageError → String
  | unexpectedArgument argument => "unexpected argument '" ++ inYellow argument ++ "' found"
  | unexpectedValue value flag =>
    "unexpected value '" ++ inYellow value ++ "' for '" ++ inBold ("--" ++ flag) ++
      "' found; no more were expected"
  | missingValue option =>
    "a value is required for '" ++ inYellow option.usage ++ "' but none was supplied"
  | repeated option =>
    "the argument '" ++ inYellow option.usage ++ "' cannot be used multiple times"
  | invalidValue option value reason =>
    "invalid value '" ++ inYellow value ++ "' for '" ++ inBold option.usage ++ "': " ++ reason

def message (error : UsageError) : String :=
  Text.plain (inBold "error:" ++ " " ++ error.coloured ++
    "\n\nFor more information, try '" ++ inBold "--help" ++ "'.")

end UsageError

end LicenseExpr.CommandLine
