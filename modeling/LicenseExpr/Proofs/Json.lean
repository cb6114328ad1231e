import LicenseExpr.Expression.Json
import Mathlib.Logic.Function.Iterate

/-!
# JSON is read back

A text written as a JSON string is read back from it, and nothing in the string is a control character.
An expression is read back from its JSON with whatever stands behind it, if its objects and arrays nest
no deeper than the reader goes; otherwise reading fails. As a reader may go as deep as needed, no two
expressions have the same JSON (`ofJson?_toJson`).
-/

namespace LicenseExpr

namespace Text

/-! ## Strings -/

theorem hexDigit?_digitChar {d : Nat} (h : d < 16) : hexDigit? (Nat.digitChar d) = some d := by
  revert d
  decide

theorem le_toNat_digitChar {d : Nat} (h : d < 16) : 0x20 ≤ (Nat.digitChar d).toNat := by
  revert d
  decide

theorem readEscape?_control {c : Char} (h : c.toNat < 0x20) (rest : List Char) :
    readEscape? ('u' :: '0' :: '0' :: Nat.digitChar (c.toNat / 16) ::
      Nat.digitChar (c.toNat % 16) :: rest) = some (c, rest) := by
  have hhigh := hexDigit?_digitChar (show c.toNat / 16 < 16 by omega)
  have hlow := hexDigit?_digitChar (show c.toNat % 16 < 16 by omega)
  have hzero : hexDigit? '0' = some 0 := by decide
  have hread : readHex4? ('0' :: '0' :: Nat.digitChar (c.toNat / 16) ::
      Nat.digitChar (c.toNat % 16) :: rest) = some (c.toNat, rest) := by
    simp only [readHex4?, hzero, hhigh, hlow, bind, Option.bind, pure]
    rw [show ((0 * 16 + 0) * 16 + c.toNat / 16) * 16 + c.toNat % 16 = c.toNat by omega]
  have hleading : isLeadingSurrogate c.toNat = false := by
    simp only [isLeadingSurrogate, Bool.and_eq_false_iff, decide_eq_false_iff_not]
    omega
  have htrailing : isTrailingSurrogate c.toNat = false := by
    simp only [isTrailingSurrogate, Bool.and_eq_false_iff, decide_eq_false_iff_not]
    omega
  simp [readEscape?, readCodePoint?, hread, hleading, htrailing]

theorem readJsonChars_escape {cs rest : List Char} {c : Char} (h : readEscape? cs = some (c, rest))
    (read : List Char) : readJsonChars read ('\\' :: cs) = readJsonChars (c :: read) rest := by
  rw [readJsonChars]
  split
  · next hnone => rw [h] at hnone; cases hnone
  · next hsome => rw [h] at hsome; cases hsome; rfl

theorem readJsonChars_shown {c : Char} (hquote : c ≠ '"') (hbackslash : c ≠ '\\')
    (hshown : ¬ c.toNat < 0x20) (read rest : List Char) :
    readJsonChars read (c :: rest) = readJsonChars (c :: read) rest := by
  rw [readJsonChars, if_neg hshown]
  · exact hquote
  · exact hbackslash

theorem readJsonChars_jsonChar (c : Char) (read rest : List Char) :
    readJsonChars read (jsonChar c ++ rest) = readJsonChars (c :: read) rest := by
  unfold jsonChar
  split
  case h_8 hquote hbackslash _ _ _ _ _ =>
    split
    · next hcontrol => exact readJsonChars_escape (readEscape?_control hcontrol rest) read
    · next hshown => exact readJsonChars_shown hquote hbackslash hshown read rest
  all_goals exact readJsonChars_escape rfl read

theorem readJsonChars_flatMap_jsonChar (read cs rest : List Char) :
    readJsonChars read (cs.flatMap jsonChar ++ '"' :: rest) =
      some (String.ofList (read.reverse ++ cs), rest) := by
  induction cs generalizing read with
  | nil => simp [readJsonChars]
  | cons c cs ih =>
    rw [List.flatMap_cons, List.append_assoc, readJsonChars_jsonChar, ih]
    simp

theorem readJsonString_flatMap_jsonChar (s : String) (rest : List Char) :
    readJsonString (s.toList.flatMap jsonChar ++ '"' :: rest) = some (s, rest) := by
  rw [readJsonString, readJsonChars_flatMap_jsonChar, List.reverse_nil, List.nil_append,
    String.ofList_toList]

theorem le_toNat_of_mem_jsonChar {c d : Char} (h : d ∈ jsonChar c) : 0x20 ≤ d.toNat := by
  unfold jsonChar at h
  split at h
  case h_8 =>
    split at h
    · simp only [List.mem_cons, List.not_mem_nil, or_false] at h
      rcases h with rfl | rfl | rfl | rfl | rfl | rfl
      · decide
      · decide
      · decide
      · decide
      · exact le_toNat_digitChar (by omega)
      · exact le_toNat_digitChar (by omega)
    · next hshown =>
      rw [List.mem_singleton.mp h]
      exact Nat.le_of_not_lt hshown
  all_goals
    simp only [List.mem_cons, List.not_mem_nil, or_false] at h
    rcases h with rfl | rfl <;> decide

theorem le_toNat_of_mem_jsonString {s : String} {d : Char} (h : d ∈ jsonString s) : 0x20 ≤ d.toNat := by
  simp only [jsonString, List.mem_cons, List.mem_append, List.mem_flatMap, List.not_mem_nil,
    or_false] at h
  rcases h with rfl | ⟨c, -, hd⟩ | rfl
  · decide
  · exact le_toNat_of_mem_jsonChar hd
  · decide

end Text

namespace Expression

/-! ## Reading what was written -/

theorem expect?_cons {c : Char} (h : isJsonBlank c = false) (rest : List Char) :
    expect? c (c :: rest) = some rest := by
  simp [expect?, h]

theorem readString?_jsonString (s : String) (rest : List Char) :
    readString? (Text.jsonString s ++ rest) = some (s, rest) := by
  rw [Text.jsonString, List.cons_append, List.append_assoc, readString?, expect?_cons (by decide)]
  exact Text.readJsonString_flatMap_jsonChar s rest

/-- The kinds are written as they are: there is nothing to escape in them. -/
theorem jsonHead_kind (e : Expression) :
    jsonHead e.kind = '{' :: (Text.jsonString e.kind ++ [':']) := by
  cases e with
  | identifier name | group inner => simp only [kind]; decide
  | binary op left right => simp only [kind]; cases op <;> decide

theorem readHead?_jsonHead (e : Expression) (rest : List Char) :
    readHead? (jsonHead e.kind ++ rest) = some (e.kind, rest) := by
  rw [jsonHead_kind, List.cons_append, List.append_assoc, readHead?, expect?_cons (by decide)]
  simp only [bind, Option.bind_some, readString?_jsonString, List.singleton_append]
  rw [expect?_cons (by decide)]
  rfl

theorem readClose?_brace (e : Expression) (rest : List Char) :
    readClose? e ('}' :: rest) = some (e, rest) := by
  rw [readClose?, expect?_cons (by decide)]
  rfl

theorem readJson?_identifier (name : String) (nesting : Nat) (tail : List Char) :
    readJson? (nesting + 1) ((identifier name).jsonOnto tail) = some (identifier name, tail) := by
  rw [jsonOnto, readJson?, readHead?_jsonHead]
  simp [kind, readString?_jsonString, readClose?_brace]

theorem readJson?_group (inner : Expression) (nesting : Nat) (tail : List Char) :
    readJson? (nesting + 1) (inner.group.jsonOnto tail) =
      (readJson? nesting (inner.jsonOnto ('}' :: tail))).bind fun (inner, rest) =>
        readClose? (group inner) rest := by
  rw [jsonOnto, readJson?, readHead?_jsonHead]
  simp [kind]

theorem readJson?_binary (op : Operator) (left right : Expression) (nesting : Nat) (tail : List Char) :
    readJson? (nesting + 2) ((binary op left right).jsonOnto tail) =
      (readJson? nesting (left.jsonOnto (',' :: right.jsonOnto (']' :: '}' :: tail)))).bind
        fun (left, rest) => (expect? ',' rest).bind fun rest =>
          (readJson? nesting rest).bind fun (right, rest) =>
            (expect? ']' rest).bind fun rest => readClose? (binary op left right) rest := by
  rw [jsonOnto, readJson?, readHead?_jsonHead]
  cases op <;> simp [kind, Operator.kind, operatorOfKind?, expect?_cons, isJsonBlank]

theorem readJson?_binary_one (op : Operator) (left right : Expression) (tail : List Char) :
    readJson? 1 ((binary op left right).jsonOnto tail) = none := by
  rw [jsonOnto, readJson?, readHead?_jsonHead]
  cases op <;> simp [kind, Operator.kind, operatorOfKind?]

/-- An expression is read back in front of any text, unless it nests too deep. -/
theorem readJson?_jsonOnto (e : Expression) (nesting : Nat) (tail : List Char) :
    readJson? nesting (e.jsonOnto tail) =
      if e.jsonNesting ≤ nesting then some (e, tail) else none := by
  induction e generalizing nesting tail with
  | identifier name =>
    cases nesting with
    | zero => rfl
    | succ nesting =>
      have hroom : (identifier name).jsonNesting ≤ nesting + 1 := Nat.le_add_left 1 nesting
      rw [readJson?_identifier, if_pos hroom]
  | group inner ih =>
    cases nesting with
    | zero => rfl
    | succ nesting =>
      rw [readJson?_group, ih, jsonNesting]
      by_cases hinner : inner.jsonNesting ≤ nesting
      · simp only [if_pos hinner, Option.bind_some, readClose?_brace,
          if_pos (Nat.succ_le_succ hinner)]
      · rw [if_neg hinner, if_neg (mt Nat.le_of_succ_le_succ hinner), Option.bind_none]
  | binary op left right ihl ihr =>
    rcases nesting with _ | _ | nesting
    · rfl
    · rw [readJson?_binary_one, if_neg]
      rw [jsonNesting]
      omega
    · rw [readJson?_binary, ihl, jsonNesting]
      have hcomma := expect?_cons (c := ',') (by decide)
      have hbracket := expect?_cons (c := ']') (by decide)
      by_cases hleft : left.jsonNesting ≤ nesting
      · simp only [if_pos hleft, Option.bind_some, hcomma, ihr]
        by_cases hright : right.jsonNesting ≤ nesting
        · have hroom : max left.jsonNesting right.jsonNesting + 2 ≤ nesting + 1 + 1 := by omega
          simp only [if_pos hright, Option.bind_some, hbracket, readClose?_brace, if_pos hroom]
        · rw [if_neg hright, Option.bind_none, if_neg (by omega)]
      · rw [if_neg hleft, Option.bind_none, if_neg (by omega)]

/-! ## Whole texts -/

theorem ofJson?_toJson (e : Expression) :
    ofJson? e.toJson = if e.jsonNesting ≤ maxJsonNesting then some e else none := by
  rw [ofJson?, toJson, String.toList_ofList, readJson?_jsonOnto]
  by_cases h : e.jsonNesting ≤ maxJsonNesting
  · rw [if_pos h, if_pos h]
    rfl
  · rw [if_neg h, if_neg h]
    rfl

/-- A reader that goes as deep as both expressions tells them apart. -/
theorem toJson_injective : Function.Injective toJson := by
  intro e e' h
  have hread := readJson?_jsonOnto e (max e.jsonNesting e'.jsonNesting) []
  have hread' := readJson?_jsonOnto e' (max e.jsonNesting e'.jsonNesting) []
  rw [if_pos (Nat.le_max_left _ _)] at hread
  rw [if_pos (Nat.le_max_right _ _), ← String.ofList_injective h, hread] at hread'
  exact (Prod.mk.inj (Option.some.inj hread')).1

theorem le_toNat_of_mem_jsonHead {e : Expression} : ∀ c ∈ jsonHead e.kind, 0x20 ≤ c.toNat := by
  rw [jsonHead_kind]
  refine List.forall_mem_cons.mpr ⟨by decide, List.forall_mem_append.mpr ⟨?_, ?_⟩⟩
  · exact fun c h => Text.le_toNat_of_mem_jsonString h
  · exact List.forall_mem_singleton.mpr (by decide)

theorem le_toNat_of_mem_jsonOnto (e : Expression) {tail : List Char}
    (htail : ∀ c ∈ tail, 0x20 ≤ c.toNat) : ∀ c ∈ e.jsonOnto tail, 0x20 ≤ c.toNat := by
  induction e generalizing tail with
  | identifier name =>
    refine List.forall_mem_append.mpr ⟨le_toNat_of_mem_jsonHead, List.forall_mem_append.mpr ⟨?_, ?_⟩⟩
    · exact fun c h => Text.le_toNat_of_mem_jsonString h
    · exact List.forall_mem_cons.mpr ⟨by decide, htail⟩
  | group inner ih =>
    refine List.forall_mem_append.mpr ⟨le_toNat_of_mem_jsonHead, ih ?_⟩
    exact List.forall_mem_cons.mpr ⟨by decide, htail⟩
  | binary op left right ihl ihr =>
    have hclose : ∀ c ∈ ']' :: '}' :: tail, 0x20 ≤ c.toNat :=
      List.forall_mem_cons.mpr ⟨by decide, List.forall_mem_cons.mpr ⟨by decide, htail⟩⟩
    have hright : ∀ c ∈ ',' :: right.jsonOnto (']' :: '}' :: tail), 0x20 ≤ c.toNat :=
      List.forall_mem_cons.mpr ⟨by decide, ihr hclose⟩
    refine List.forall_mem_append.mpr ⟨le_toNat_of_mem_jsonHead, ?_⟩
    exact List.forall_mem_cons.mpr ⟨by decide, ihl hright⟩

/-- The JSON of an expression has no control characters and so takes a single line. It is read back up
to the nesting that readers allow and refused beyond it, and no two expressions share it. -/
theorem json_reads_back (e : Expression) :
    (∀ c ∈ e.toJson.toList, 0x20 ≤ c.toNat) ∧
      (e.jsonNesting ≤ 127 → ofJson? e.toJson = some e) ∧
      (127 < e.jsonNesting → ofJson? e.toJson = none) ∧
      ∀ e' : Expression, e' ≠ e → e'.toJson ≠ e.toJson := by
  refine ⟨?_, ?_, ?_, fun e' h => toJson_injective.ne h⟩
  · rw [toJson, String.toList_ofList]
    exact e.le_toNat_of_mem_jsonOnto (List.forall_mem_nil _)
  · intro h
    rw [ofJson?_toJson, maxJsonNesting, if_pos h]
  · intro h
    rw [ofJson?_toJson, maxJsonNesting, if_neg (Nat.not_le.mpr h)]

/-- A name with every kind of escape, in as many groups as can be read back and next to one more. -/
theorem grouped_json_reads_back :
    let name := identifier "\"\\\n\x01é"
    let deep := group^[125] name
    'é' ∈ name.toJson.toList ∧ 0x20 ≤ 'é'.toNat ∧
      deep.group.jsonNesting = 127 ∧ ofJson? deep.group.toJson = some deep.group ∧
      (binary .and deep deep).jsonNesting = 128 ∧ ofJson? (binary .and deep deep).toJson = none ∧
      name.group ≠ name ∧ name.group.toJson ≠ name.toJson := by
  intro name deep
  have hmem : 'é' ∈ name.toJson.toList := by
    rw [toJson, String.toList_ofList]
    decide
  have hfits : deep.group.jsonNesting = 127 := by decide +kernel
  have hdeep : (binary .and deep deep).jsonNesting = 128 := by decide +kernel
  have hne : name.group ≠ name := by rintro ⟨⟩
  obtain ⟨hshown, -, -, hdistinct⟩ := json_reads_back name
  exact ⟨hmem, hshown _ hmem, hfits, (json_reads_back deep.group).2.1 (Nat.le_of_eq hfits),
    hdeep, (json_reads_back (binary .and deep deep)).2.2.1 (by omega), hne, hdistinct _ hne⟩

end Expression

end LicenseExpr
