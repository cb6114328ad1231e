/-!
# Texts as bytes

`byteLength` counts the UTF-8 bytes of a run of characters and `bytes` lists them. `ofBytes?`
reads bytes that are UTF-8 throughout; `ofTornBytes` reads bytes that were cut inside a character.
-/

namespace LicenseExpr.Text

def byteLength (cs : List Char) : Nat := cs.foldr (fun c n => c.utf8Size + n) 0

@[simp] theorem byteLength_nil : byteLength [] = 0 := rfl

@[simp] theorem byteLength_cons (c : Char) (cs : List Char) :
    byteLength (c :: cs) = c.utf8Size + byteLength cs := rfl

@[simp] theorem byteLength_append (cs ds : List Char) :
    byteLength (cs ++ ds) = byteLength cs + byteLength ds := by
  induction cs with
  | nil => rw [List.nil_append, byteLength_nil, Nat.zero_add]
  | cons c cs ih => rw [List.cons_append, byteLength_cons, byteLength_cons, ih, Nat.add_assoc]

theorem byteLength_eq_utf8ByteSize (cs : List Char) :
    byteLength cs = (String.ofList cs).utf8ByteSize := by
  induction cs with
  | nil => rfl
  | cons c cs ih =>
    have hsplit : String.ofList (c :: cs) = String.singleton c ++ String.ofList cs := by
      rw [String.singleton_eq_ofList, ← String.ofList_append]; rfl
    rw [byteLength_cons, ih, hsplit, String.utf8ByteSize_append, String.utf8ByteSize_singleton]

def bytes (s : String) : List UInt8 := s.toList.flatMap String.utf8EncodeChar

@[simp] theorem bytes_append (s t : String) : bytes (s ++ t) = bytes s ++ bytes t := by
  simp [bytes]

theorem length_bytes (s : String) : (bytes s).length = byteLength s.toList := by
  rw [bytes]
  induction s.toList with
  | nil => rfl
  | cons c cs ih => simp [ih]

def ofBytes? (bs : List UInt8) : Option String := String.fromUTF8? ⟨bs.toArray⟩

/-- At most three bytes of a character can stand before a cut; they become one U+FFFD. -/
def ofTornBytes (bs : List UInt8) : Option String :=
  ofBytes? bs <|> (List.range 3).findSome? fun k =>
    (ofBytes? (bs.take (bs.length - (k + 1)))).map (·.push '\uFFFD')

end LicenseExpr.Text
