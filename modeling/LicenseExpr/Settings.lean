import LicenseExpr.Failure
import LicenseExpr.Format
import LicenseExpr.Reader

/-!
# Settings

Settings come from the environment, where each has a default, and are then overridden one by one.
-/

namespace LicenseExpr

structure Settings where
  level : Level
  dialect : Dialect
  maxDepth : Nat
  format : Format
  deriving DecidableEq

/-- The settings that are given in another place. -/
structure Overrides where
  level : Option Level
  dialect : Option Dialect
  maxDepth : Option Nat
  format : Option Format
  deriving DecidableEq

inductive VariableError where
  | notSet
  | notUnicode
  deriving DecidableEq

abbrev Environment := String → Except VariableError String

/-- What is not listed is not set. -/
def Environment.ofList (values : List (String × Except VariableError String)) : Environment :=
  fun key => (values.lookup key).getD (.error .notSet)

namespace Settings

def standard : Settings := ⟨.warn, .lenient, Reader.defaultMaxDepth, .tree⟩

/-! ## Values by their text -/

def readLevel (text : String) : Except SettingsError Level :=
  match Level.ofName? text with
  | some level => .ok level
  | none => .error (.unknownLevel text)

def readDialect (text : String) : Except SettingsError Dialect :=
  (Dialect.ofName text).mapError .unknownDialect

def readMaxDepth (text : String) : Except SettingsError Nat :=
  (Size.ofText text).mapError fun _ => .invalidMaxDepth text

def readFormat (text : String) : Except SettingsError Format :=
  match Format.ofName? text with
  | some format => .ok format
  | none => .error (.unknownFormat text)

/-! ## Where settings come from -/

def setting {α : Type} (lookup : String → Option String) (key : String)
    (read : String → Except SettingsError α) (default : α) : Except SettingsError α :=
  match lookup key with
  | none => .ok default
  | some text => read text

/-- The first bad text is the error. The format is not looked up. -/
def ofLookup (lookup : String → Option String) : Except SettingsError Settings := do
  let level ← setting lookup "SPDX_EXPR_LOG_LEVEL" readLevel standard.level
  let dialect ← setting lookup "SPDX_EXPR_DIALECT" readDialect standard.dialect
  let maxDepth ← setting lookup "SPDX_EXPR_MAX_DEPTH" readMaxDepth standard.maxDepth
  return ⟨level, dialect, maxDepth, standard.format⟩

/-- A variable that is not Unicode is passed over like one that is not set. -/
def ofEnvironment (environment : Environment) : Except SettingsError Settings :=
  ofLookup fun key => (environment key).toOption

def override (s : Settings) (o : Overrides) : Settings where
  level := o.level.getD s.level
  dialect := o.dialect.getD s.dialect
  maxDepth := o.maxDepth.getD s.maxDepth
  format := o.format.getD s.format

def reader (s : Settings) : Reader := ⟨s.dialect, s.maxDepth⟩

end Settings

namespace Overrides

def empty : Overrides := ⟨none, none, none, none⟩

/-- Reads the names that are given; the first bad one is the error. -/
def ofNames (level dialect : Option String) (maxDepth : Option Nat) (format : Option String) :
    Except SettingsError Overrides := do
  let level ← level.mapM Settings.readLevel
  let dialect ← dialect.mapM Settings.readDialect
  let format ← format.mapM Settings.readFormat
  return ⟨level, dialect, maxDepth, format⟩

end Overrides

end LicenseExpr
