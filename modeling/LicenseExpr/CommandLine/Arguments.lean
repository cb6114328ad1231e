import LicenseExpr.Settings

/-!
# Arguments

Options take a value as the next argument or behind a `=`, each option once; other arguments are
texts to read, and so is everything behind `--`. The value of an option is read as soon as no more
of it can come: at the next text, option or flag or at the end. An unknown option is refused
before that.
-/

namespace LicenseExpr.CommandLine

inductive ValueOption where
  | dialect
  | maxDepth
  | format
  | logLevel
  deriving DecidableEq

namespace ValueOption

def name : ValueOption → String
  | dialect => "dialect"
  | maxDepth => "max-depth"
  | format => "format"
  | logLevel => "log-level"

def usage : ValueOption → String
  | dialect => "--dialect <DIALECT>"
  | maxDepth => "--max-depth <MAX_DEPTH>"
  | format => "--format <FORMAT>"
  | logLevel => "--log-level <LOG_LEVEL>"

def ofName? (name : String) : Option ValueOption :=
  [dialect, maxDepth, format, logLevel].find? (·.name == name)

def isGiven (option : ValueOption) (given : Overrides) : Bool :=
  match option with
  | dialect => given.dialect.isSome
  | maxDepth => given.maxDepth.isSome
  | format => given.format.isSome
  | logLevel => given.level.isSome

end ValueOption

inductive UsageError where
  | unexpectedArgument (argument : String)
  /-- A flag takes no value. -/
  | unexpectedValue (value flag : String)
  | missingValue (option : ValueOption)
  | repeated (option : ValueOption)
  | invalidValue (option : ValueOption) (value reason : String)
  deriving DecidableEq

namespace ValueOption

/-- Sets an option in `given` to a value by its text, with the reason if it has no such value. -/
def read (option : ValueOption) (value : String) (given : Overrides) : Except String Overrides :=
  match option with
  | dialect => do
    let d ← (Dialect.ofName value).mapError (·.message)
    return { given with dialect := some d }
  | maxDepth => do
    let n ← (Size.ofText value).mapError (·.message)
    return { given with maxDepth := some n }
  | format => do
    let f ← (Settings.readFormat value).mapError fun e => (Failure.settings e).message
    return { given with format := some f }
  | logLevel => do
    let l ← (Settings.readLevel value).mapError fun e => (Failure.settings e).message
    return { given with level := some l }

/-- A second value for an option is refused whatever it is. -/
def accept (option : ValueOption) (value : String) (given : Overrides) :
    Except UsageError Overrides :=
  if option.isGiven given then .error (.repeated option)
  else (option.read value given).mapError (.invalidValue option value)

end ValueOption

/-! ## Kinds of arguments -/

inductive Argument where
  /-- `--`. -/
  | separator
  /-- A name behind `--`, with the value behind `=` if there is one. -/
  | long (name : String) (value : Option String)
  /-- The first letter behind a single `-`. -/
  | short (letter : Char)
  | text (text : String)
  deriving DecidableEq

/-- A `-` alone is a text. -/
def Argument.ofText (argument : String) : Argument :=
  match argument.toList with
  | ['-', '-'] => .separator
  | '-' :: '-' :: rest =>
    .long (String.ofList (rest.takeWhile (· ≠ '=')))
      (match rest.dropWhile (· ≠ '=') with
      | [] => none
      | _ :: value => some (String.ofList value))
  | '-' :: letter :: _ => .short letter
  | _ => .text argument

/-! ## What the arguments ask for -/

inductive Request where
  | help
  | version
  /-- To read texts; without any, the lines of standard input. -/
  | read (given : Overrides) (texts : List String)

structure Partial where
  given : Overrides
  /-- The latest first. -/
  texts : List String
  /-- An option whose value has not been read yet, or not even seen. -/
  pending : Option (ValueOption × Option String)

namespace Partial

def empty : Partial := ⟨.empty, [], none⟩

/-- Reads the value of a pending option. -/
def settle (p : Partial) : Except UsageError Partial :=
  match p.pending with
  | none => .ok p
  | some (option, none) => .error (.missingValue option)
  | some (option, some value) => do
    let given ← option.accept value p.given
    return { p with given, pending := none }

/-- A value for a pending option that has none yet, else a text. -/
def addText (p : Partial) (text : String) : Except UsageError Partial :=
  match p.pending with
  | some (option, none) => .ok { p with pending := some (option, some text) }
  | _ => do
    let p ← p.settle
    return { p with texts := text :: p.texts }

def addOption (p : Partial) (option : ValueOption) (value : Option String) :
    Except UsageError Partial := do
  let p ← p.settle
  match value with
  | none => return { p with pending := some (option, none) }
  | some value =>
    let given ← option.accept value p.given
    return { p with given }

def flag (p : Partial) (name : String) (value : Option String) (request : Request) :
    Except UsageError Request :=
  match value with
  | some value => .error (.unexpectedValue value name)
  | none => p.settle.map fun _ => request

end Partial

def parseFrom (p : Partial) : List String → Except UsageError Request
  | [] => do
    let p ← p.settle
    return .read p.given p.texts.reverse
  | argument :: rest =>
    match Argument.ofText argument with
    | .separator => do
      let p ← p.settle
      return .read p.given (p.texts.reverse ++ rest)
    | .long "help" value => p.flag "help" value .help
    | .long "version" value => p.flag "version" value .version
    | .long name value =>
      match ValueOption.ofName? name with
      | none => .error (.unexpectedArgument ("--" ++ name))
      | some option => do parseFrom (← p.addOption option value) rest
    | .short 'h' => p.flag "help" none .help
    | .short 'V' => p.flag "version" none .version
    | .short letter => .error (.unexpectedArgument (String.ofList ['-', letter]))
    | .text text => do parseFrom (← p.addText text) rest

def parse (arguments : List String) : Except UsageError Request := parseFrom .empty arguments

end LicenseExpr.CommandLine
