/-!
# Texts for a terminal

A text for a terminal mixes what is to be seen with controls and with sequences that set colours,
move the cursor or speak to the window. A sequence starts at an escape character, and its kind and
its end are told by the characters after that. `plain` keeps what is to be seen: no sequences, and
of the controls only those that space a text. A sequence that the text leaves open takes all the
rest with it.
-/

namespace LicenseExpr.Text

/-- What a terminal makes of the next character. -/
inductive TerminalMode where
  /-- No sequence is open. -/
  | plain
  /-- Right behind an escape character. -/
  | escape
  /-- In an escape sequence of more than one character. -/
  | escapeIntermediate
  /-- In a control sequence, which ends at a character from `@` to `~`. -/
  | control
  /-- Right behind the opening of a device control string. -/
  | deviceStart
  | deviceParameters
  | deviceIntermediate
  /-- In a string that lasts up to the byte 0x9C. -/
  | string
  /-- In a command to the terminal, which lasts up to U+0007. -/
  | command
  deriving DecidableEq

namespace TerminalMode

/-- The mode behind a character that is not shown. The escape character opens a new sequence in
any mode, and U+0018 and U+001A give up an open one. -/
def next (mode : TerminalMode) (c : Char) : TerminalMode :=
  if c = '\x1b' then escape
  else if c = '\x18' ∨ c = '\x1a' then plain
  else
    match mode with
    | plain => plain
    | escape =>
      if c = '[' then control
      else if c = ']' then command
      else if c = 'P' then deviceStart
      else if c = 'X' ∨ c = '^' ∨ c = '_' then string
      else if ' ' ≤ c ∧ c ≤ '/' then escapeIntermediate
      else if '0' ≤ c ∧ c ≤ '~' then plain
      else escape
    | escapeIntermediate => if '0' ≤ c ∧ c ≤ '~' then plain else escapeIntermediate
    | control => if '@' ≤ c ∧ c ≤ '~' then plain else control
    | deviceStart =>
      if ' ' ≤ c ∧ c ≤ '/' then deviceIntermediate
      else if '0' ≤ c ∧ c ≤ '?' then deviceParameters
      else if '@' ≤ c ∧ c ≤ '~' then string
      else deviceStart
    | deviceParameters =>
      if ' ' ≤ c ∧ c ≤ '/' then deviceIntermediate
      else if '<' ≤ c ∧ c ≤ '~' then string
      else deviceParameters
    | deviceIntermediate => if '0' ≤ c ∧ c ≤ '~' then string else deviceIntermediate
    | string => if (String.utf8EncodeChar c).contains 0x9C then plain else string
    | command => if c = '\x07' then plain else command

/-- Whether controls count although a sequence is open; in a string they belong to it. -/
def obeysControls : TerminalMode → Bool
  | escape | escapeIntermediate | control => true
  | plain | deviceStart | deviceParameters | deviceIntermediate | string | command => false

end TerminalMode

/-- The controls that space a text. -/
def isSpacing (c : Char) : Bool := c == '\t' || c == '\n' || c == '\x0c' || c == '\r'

def isShown (c : Char) : Bool := isSpacing c || (0x20 ≤ c.toNat && c.toNat ≠ 0x7F)

/-- What is to be seen of characters that follow on a mode. A spacing control inside a sequence is
shown and suspends the sequence: what follows is shown too, until another control takes the
sequence up again or a character beyond ASCII ends it. -/
def plainFrom (mode : TerminalMode) (suspended : Bool) : List Char → List Char
  | [] => []
  | c :: cs =>
    if (mode = .plain ∨ suspended) ∧ isShown c then
      c :: plainFrom (if c.toNat < 0x80 then mode else .plain) suspended cs
    else if mode.obeysControls ∧ isSpacing c then c :: plainFrom mode true cs
    else plainFrom (mode.next c) false cs

def plainChars (cs : List Char) : List Char := plainFrom .plain false cs

def plain (s : String) : String := String.ofList (plainChars s.toList)

end LicenseExpr.Text
