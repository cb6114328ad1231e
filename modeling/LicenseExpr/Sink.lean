import LicenseExpr.Failure
import LicenseExpr.Format
import LicenseExpr.Text.Utf8

/-!
# Sinks

A sink takes the bytes of a text and may refuse to take more than a number of them. It then holds
the bytes that still fitted.
-/

namespace LicenseExpr

structure Sink where
  /-- The number of bytes that still fit, if there is a bound. -/
  room : Option Nat
  taken : Array UInt8
  /-- What the sink says when it is full. -/
  refusal : String

namespace Sink

def unbounded : Sink := ⟨none, #[], ""⟩

def bounded (room : Nat) (refusal : String) : Sink := ⟨some room, #[], refusal⟩

/-- Writing nothing never fails, also when no room is left. -/
def write (s : Sink) (text : String) : Sink × Except StreamError Unit :=
  let bytes := Text.bytes text
  match s.room with
  | none => ({ s with taken := s.taken ++ bytes }, .ok ())
  | some room =>
    if bytes.length ≤ room then
      ({ s with room := some (room - bytes.length), taken := s.taken ++ bytes }, .ok ())
    else
      ({ s with room := some 0, taken := s.taken ++ bytes.take room }, .error (.refused s.refusal))

/-- Writes chunks up to the first that does not fit. -/
def writeChunks (s : Sink) : List Chunk → Sink × Except Failure Unit
  | [] => (s, .ok ())
  | chunk :: chunks =>
    match s.write chunk.text with
    | (s, .ok ()) => s.writeChunks chunks
    | (s, .error cause) => (s, .error (if chunk.inDocument then .json cause else .stream cause))

def writeExpression (s : Sink) (format : Format) (e : Expression) : Sink × Except Failure Unit :=
  s.writeChunks (format.chunks e)

end Sink

end LicenseExpr
