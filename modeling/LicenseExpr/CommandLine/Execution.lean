import LicenseExpr.CommandLine.Help
import LicenseExpr.CommandLine.LogLine
import LicenseExpr.CommandLine.Refusal

/-!
# Executions

`plan` decides from the arguments and the environment what is to be done, and `Plan.execute` does
it for given bytes of standard input. The exit status is 0 if all went well, 1 if a text or the
input could not be read, and 2 if the arguments or the settings are bad.
-/

namespace LicenseExpr.CommandLine

structure Execution where
  status : Nat
  stdout : Array UInt8
  /-- The messages for standard error, each to be followed by a line feed. -/
  stderr : List String

def Execution.printing (text : String) : Execution := ⟨0, (Text.bytes text).toArray, []⟩

def Execution.refusing (error : UsageError) : Execution := ⟨2, #[], [error.message]⟩

inductive Plan where
  /-- Nothing is to be read. -/
  | stop (execution : Execution)
  | read (settings : Settings) (texts : List String)

/-- A bad value in the environment counts even when an option replaces it. -/
def plan (arguments : List String) (environment : Environment) : Plan :=
  match parse arguments with
  | .error error => .stop (.refusing error)
  | .ok .help => .stop (.printing helpText)
  | .ok .version => .stop (.printing versionText)
  | .ok (.read given texts) =>
    match Settings.ofEnvironment environment with
    | .error error =>
      .stop ⟨2, #[], LogLine.shown Settings.standard.level [.badSettings error]⟩
    | .ok settings => .read (settings.override given) texts

def status : Except Failure Summary → Nat
  | .ok summary => if summary.failed > 0 then 1 else 0
  | .error _ => 1

def executeBatch (settings : Settings) (texts : List String) : Execution :=
  let report := Batch.run settings texts .unbounded
  ⟨status report.result, report.sink.taken,
    LogLine.shown settings.level (report.journal.map .ofEntry ++ [.ofResult report.result])⟩

namespace Plan

def needsInput : Plan → Bool
  | stop _ => false
  | read _ texts => texts.isEmpty

/-- Standard input is looked at only if `needsInput`. -/
def execute (input : List UInt8) : Plan → Execution
  | stop execution => execution
  | read settings [] =>
    match Batch.readInputs input with
    | .ok texts => executeBatch settings texts
    | .error cause =>
      ⟨1, #[], LogLine.shown settings.level [.ofResult (.error (.stream cause))]⟩
  | read settings texts => executeBatch settings texts

end Plan

end LicenseExpr.CommandLine
