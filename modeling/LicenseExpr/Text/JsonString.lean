import LicenseExpr.Text.Utf8

/-!
# JSON strings

`jsonString` writes a text as a JSON string with the shortest escapes; characters from U+0020 on,
quotes and backslashes apart, stand for themselves. `readJsonString` reads what follows an opening
quote, up to and including the closing one, with any of the escapes that JSON allows. A surrogate
escape counts only as the first or second half of a pair.
-/

namespace LicenseExpr.Text

/-! ## Writing -/

def jsonChar (c : Char) : List Char :=
  match c with
  | '"' => ['\\', '"']
  | '\\' => ['\\', '\\']
  | '\x08' => ['\\', 'b']
  | '\t' => ['\\', 't']
  | '\n' => ['\\', 'n']
  | '\x0c' => ['\\', 'f']
  | '\r' => ['\\', 'r']
  | c =>
    if c.toNat < 0x20 then
      ['\\', 'u', '0', '0', Nat.digitChar (c.toNat / 16), Nat.digitChar (c.toNat % 16)]
    else [c]

def jsonString (s : String) : List Char := '"' :: (s.toList.flatMap jsonChar ++ ['"'])

/-! ## Reading -/

def hexDigit? (c : Char) : Option Nat :=
  if '0' ≤ c ∧ c ≤ '9' then some (c.toNat - '0'.toNat)
  else if 'a' ≤ c ∧ c ≤ 'f' then some (c.toNat - 'a'.toNat + 10)
  else if 'A' ≤ c ∧ c ≤ 'F' then some (c.toNat - 'A'.toNat + 10)
  else none

def readHex4? : List Char → Option (Nat × List Char)
  | a :: b :: c :: d :: rest => do
    let a ← hexDigit? a
    let b ← hexDigit? b
    let c ← hexDigit? c
    let d ← hexDigit? d
    return (((a * 16 + b) * 16 + c) * 16 + d, rest)
  | _ => none

def isLeadingSurrogate (n : Nat) : Bool := 0xD800 ≤ n && n < 0xDC00

def isTrailingSurrogate (n : Nat) : Bool := 0xDC00 ≤ n && n < 0xE000

/-- The character after a `\u`, which takes two escapes beyond U+FFFF. -/
def readCodePoint? (cs : List Char) : Option (Char × List Char) := do
  let (first, rest) ← readHex4? cs
  if isLeadingSurrogate first then
    match rest with
    | '\\' :: 'u' :: rest =>
      let (second, rest) ← readHex4? rest
      if isTrailingSurrogate second then
        some (Char.ofNat (0x10000 + (first - 0xD800) * 0x400 + (second - 0xDC00)), rest)
      else none
    | _ => none
  else if isTrailingSurrogate first then none
  else some (Char.ofNat first, rest)

def readEscape? : List Char → Option (Char × List Char)
  | '"' :: rest => some ('"', rest)
  | '\\' :: rest => some ('\\', rest)
  | '/' :: rest => some ('/', rest)
  | 'b' :: rest => some ('\x08', rest)
  | 'f' :: rest => some ('\x0c', rest)
  | 'n' :: rest => some ('\n', rest)
  | 'r' :: rest => some ('\r', rest)
  | 't' :: rest => some ('\t', rest)
  | 'u' :: rest => readCodePoint? rest
  | _ => none

theorem length_of_readHex4? {cs rest : List Char} {n : Nat} (h : readHex4? cs = some (n, rest)) :
    rest.length < cs.length := by
  unfold readHex4? at h
  split at h
  · simp only [bind, Option.bind_eq_some_iff, pure, Option.some.injEq, Prod.mk.injEq] at h
    obtain ⟨_, _, _, _, _, _, _, _, _, rfl⟩ := h
    simp only [List.length_cons]; omega
  · cases h

theorem length_of_readCodePoint? {cs rest : List Char} {c : Char}
    (h : readCodePoint? cs = some (c, rest)) : rest.length < cs.length := by
  unfold readCodePoint? at h
  obtain ⟨⟨first, after⟩, hfirst, h⟩ := Option.bind_eq_some_iff.mp h
  have hlt := length_of_readHex4? hfirst
  dsimp only at h
  split at h
  · split at h
    next after' =>
      obtain ⟨⟨second, final⟩, hsecond, h⟩ := Option.bind_eq_some_iff.mp h
      have hlt' := length_of_readHex4? hsecond
      dsimp only at h
      split at h
      · obtain ⟨-, rfl⟩ := Prod.mk.inj (Option.some.inj h)
        simp only [List.length_cons] at hlt
        omega
      · cases h
    · cases h
  · split at h
    · cases h
    · obtain ⟨-, rfl⟩ := Prod.mk.inj (Option.some.inj h)
      exact hlt

theorem length_of_readEscape? {cs rest : List Char} {c : Char}
    (h : readEscape? cs = some (c, rest)) : rest.length < cs.length := by
  unfold readEscape? at h
  split at h
  all_goals first
    | cases h; done
    | cases h; simp
    | exact Nat.lt_succ_of_lt (length_of_readCodePoint? h)

/-- Reads up to the closing quote; `read` holds the characters before, the latest first. A control
character must be escaped. -/
def readJsonChars (read : List Char) (cs : List Char) : Option (String × List Char) :=
  match cs with
  | [] => none
  | '"' :: rest => some (String.ofList read.reverse, rest)
  | '\\' :: rest =>
    match _h : readEscape? rest with
    | none => none
    | some (c, after) => readJsonChars (c :: read) after
  | c :: rest => if c.toNat < 0x20 then none else readJsonChars (c :: read) rest
termination_by cs.length
decreasing_by
  · exact Nat.lt_succ_of_lt (length_of_readEscape? _h)
  · simp

def readJsonString (cs : List Char) : Option (String × List Char) := readJsonChars [] cs

end LicenseExpr.Text
