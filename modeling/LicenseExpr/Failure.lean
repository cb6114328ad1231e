import LicenseExpr.Dialect
import LicenseExpr.Size

/-!
# Failures of the tool

What keeps the tool from starting or stops it while it writes. An expression that cannot be read
is not among them.
-/

namespace LicenseExpr

/-- A setting that has no meaning, with the text that was given for it. -/
inductive SettingsError where
  | unknownLevel (value : String)
  | unknownDialect (error : UnknownDialect)
  | invalidMaxDepth (value : String)
  | unknownFormat (value : String)
  deriving DecidableEq

def SettingsError.message : SettingsError → String
  | unknownLevel value =>
    "unknown log level '" ++ value ++ "', expected one of: trace, debug, info, warn, error"
  | unknownDialect error => error.message
  | invalidMaxDepth value =>
    "invalid max depth '" ++ value ++ "', expected a positive integer"
  | unknownFormat value =>
    "unknown output format '" ++ value ++ "', expected one of: tree, debug, json"

inductive StreamError where
  | notUtf8
  /-- The other end takes nothing more. -/
  | refused (reason : String)
  deriving DecidableEq

def StreamError.message : StreamError → String
  | notUtf8 => "stream did not contain valid UTF-8"
  | refused reason => reason

inductive Failure where
  | settings (cause : SettingsError)
  | stream (cause : StreamError)
  /-- The stream failed inside a JSON document. -/
  | json (cause : StreamError)
  deriving DecidableEq

def Failure.message : Failure → String
  | settings cause => "invalid configuration: " ++ cause.message
  | stream cause => "I/O error: " ++ cause.message
  | json cause => "JSON output failed: " ++ cause.message

end LicenseExpr
