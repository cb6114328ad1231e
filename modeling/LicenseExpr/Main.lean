import LicenseExpr.CommandLine.Execution

/-!
# The command line program
-/

open LicenseExpr CommandLine

/-- The runtime decodes what is not UTF-8 to U+FFFD, so that character stands for such a value here. -/
def readVariable (name : String) : IO (Except VariableError String) := do
  match ← IO.getEnv name with
  | none => return .error .notSet
  | some text => return if text.contains '\uFFFD' then .error .notUnicode else .ok text

def main (arguments : List String) : IO UInt32 := do
  let names := ["SPDX_EXPR_LOG_LEVEL", "SPDX_EXPR_DIALECT", "SPDX_EXPR_MAX_DEPTH"]
  let values ← names.mapM fun name => return (name, ← readVariable name)
  let plan := plan arguments (Environment.ofList values)
  let input ← if plan.needsInput then (← IO.getStdin).readBinToEnd else pure .empty
  let execution := plan.execute input.toList
  let stdout ← IO.getStdout
  stdout.write ⟨execution.stdout⟩
  stdout.flush
  for message in execution.stderr do
    IO.eprintln message
  return execution.status.toUInt32
