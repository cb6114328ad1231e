import LicenseExpr.Proofs.Grammar
import LicenseExpr.Proofs.RightNested.Moves
import LicenseExpr.Reader

/-!
# What strict reading accepts

Strict reading gives a tree exactly on the texts that spell it, for right-nested trees of
unreserved names with room for their groups. `reaches_of_spells` reads a tree back from its
symbols whatever scopes are open around it; `State.symbols` and `Sound` say what the quiet moves
of any run keep.
-/

namespace LicenseExpr.RightNested

variable {limit stop : Nat}

/-! ## Trees are read back -/

/-- An operand is read wherever it stands; an operator takes the rest of its scope. -/
theorem reaches_of_spells {e : Expression} (hshape : e.RightNested) {tokens rest : List Token}
    (htokens : Spells tokens e.symbols) {openGroups : Nat} (hroom : openGroups + e.nesting ≤ limit)
    (hrest : e.IsOperand ∨ AtTerminator rest) (frames : List Frame) :
    Reaches limit ⟨tokens ++ rest, none, frames, openGroups⟩ ⟨rest, some e, frames, openGroups⟩ := by
  induction e generalizing tokens rest openGroups frames with
  | identifier name =>
    obtain ⟨token, _, hname, hnil, rfl⟩ := Spells.cons_iff.mp htokens
    obtain ⟨hword, htext⟩ := Lexeme.symbol?_eq_name_iff.mp hname
    cases Spells.nil_iff.mp hnil
    exact .step (.name rest frames openGroups hword htext) (.refl _)
  | group inner ih =>
    obtain ⟨lparen, _, hlparen, hgroup, rfl⟩ := Spells.cons_iff.mp htokens
    obtain ⟨itokens, _, hitokens, hclose, rfl⟩ := Spells.append_iff.mp hgroup
    obtain ⟨rparen, _, hrparen, hnil, rfl⟩ := Spells.cons_iff.mp hclose
    cases Spells.nil_iff.mp hnil
    replace hlparen := Lexeme.symbol?_eq_leftParen_iff.mp hlparen
    replace hrparen := Lexeme.symbol?_eq_rightParen_iff.mp hrparen
    simp only [Expression.nesting] at hroom
    rw [List.cons_append, List.append_assoc]
    refine .step (.openGroup _ frames hlparen (by omega)) ?_
    refine (ih hshape hitokens (by omega) (.inr (atTerminator_cons hrparen _)) _).trans ?_
    exact .step (.closeGroup rest inner lparen.start none frames _ hrparen) (.refl _)
  | binary op left right ihl ihr =>
    obtain ⟨hoperand, hleft, hright⟩ := hshape
    have hrest : AtTerminator rest := hrest.resolve_left id
    obtain ⟨ltokens, _, hltokens, hchain, rfl⟩ := Spells.append_iff.mp htokens
    obtain ⟨token, rtokens, hop, hrtokens, rfl⟩ := Spells.cons_iff.mp hchain
    replace hop := Lexeme.symbol?_eq_operator_iff.mp hop
    simp only [Expression.nesting] at hroom
    rw [List.append_assoc]
    refine (ihl hleft hltokens (by omega) (.inl hoperand) frames).trans ?_
    refine .step (.operator _ left frames openGroups hop) ?_
    refine (ihr hright hrtokens (by omega) (.inr hrest) _).trans ?_
    exact .step (.closeOperand right op token.start left frames openGroups hrest) (.refl _)

theorem run_of_spells {e : Expression} (hshape : e.RightNested) {tokens : List Token}
    (htokens : Spells tokens e.symbols) (hroom : e.nesting ≤ limit) (strictness : Strictness)
    (stop : Nat) : run strictness limit stop [] (.start tokens) = ⟨[], .ok (some e)⟩ := by
  have h : Reaches limit ⟨tokens ++ [], none, [], 0⟩ ⟨[], some e, [], 0⟩ :=
    reaches_of_spells hshape htokens (by omega) (.inr atTerminator_nil) []
  rw [List.append_nil] at h
  rw [State.start, run_of_reaches h, run_of_quiet_finish strictness (.finish (some e) 0)]
  rfl

/-! ## Nothing is lost, added or moved -/

def heldSymbols : Option Expression → List Symbol
  | none => []
  | some e => e.symbols

def Frame.symbols : Frame → List Symbol
  | group _ outer => heldSymbols outer ++ [.leftParen]
  | operand op _ left => heldSymbols left ++ [.operator op]

/-- The symbols that the open scopes hold and those still to be read. -/
def State.symbols (s : State) : List Symbol :=
  s.frames.reverse.flatMap Frame.symbols ++ (heldSymbols s.held ++ symbolsOf s.tokens)

theorem symbols_of_quiet {s s' : State} (h : Quiet limit s (.resume s'))
    (hframes : ∀ f ∈ s.frames, f.Whole) : s'.symbols = s.symbols := by
  cases h with
  | operator rest left frames openGroups hop =>
    simp [State.symbols, Frame.symbols, heldSymbols,
      symbolsOf_cons_of_eq (Lexeme.symbol?_eq_operator_iff.mpr hop)]
  | name rest frames openGroups hword htext =>
    simp [State.symbols, heldSymbols, Expression.symbols,
      symbolsOf_cons_of_eq (Lexeme.symbol?_eq_name_iff.mpr ⟨hword, htext⟩)]
  | openGroup rest frames hparen hroom =>
    simp [State.symbols, Frame.symbols, heldSymbols,
      symbolsOf_cons_of_eq (Lexeme.symbol?_eq_leftParen_iff.mpr hparen)]
  | closeGroup rest inner start outer frames openGroups hparen =>
    have houter : outer = none := hframes _ List.mem_cons_self
    simp [State.symbols, Frame.symbols, heldSymbols, Expression.symbols, houter,
      symbolsOf_cons_of_eq (Lexeme.symbol?_eq_rightParen_iff.mpr hparen)]
  | closeOperand inner op start left frames openGroups hend =>
    simp [State.symbols, Frame.symbols, heldSymbols, Expression.symbols]

/-! ## What open scopes hold -/

/-- The tree may stand where `openGroups` groups are open around it. -/
structure Fits (limit openGroups : Nat) (e : Expression) : Prop where
  shape : e.RightNested
  names : e.Unreserved
  room : openGroups + e.nesting ≤ limit

theorem fits_binary {openGroups : Nat} {op : Operator} {left right : Expression}
    (hoperand : left.IsOperand) (hleft : Fits limit openGroups left)
    (hright : Fits limit openGroups right) : Fits limit openGroups (.binary op left right) := by
  refine ⟨⟨hoperand, hleft.shape, hright.shape⟩, ⟨hleft.names, hright.names⟩, ?_⟩
  have hl := hleft.room
  have hr := hright.room
  unfold Expression.nesting
  omega

theorem fits_group {openGroups : Nat} {inner : Expression}
    (h : Fits limit (openGroups + 1) inner) : Fits limit openGroups (.group inner) := by
  refine ⟨h.shape, h.names, ?_⟩
  have hroom := h.room
  unfold Expression.nesting
  omega

/-- The scopes hold operands that fit, and as many groups as are open. -/
inductive Scopes (limit : Nat) : Nat → List Frame → Prop where
  | nil : Scopes limit 0 []
  | group {openGroups : Nat} {frames : List Frame} (start : Nat) : openGroups < limit →
      Scopes limit openGroups frames → Scopes limit (openGroups + 1) (.group start none :: frames)
  | operand {openGroups : Nat} {frames : List Frame} {left : Expression} (op : Operator)
      (start : Nat) : left.IsOperand → Fits limit openGroups left →
      Scopes limit openGroups frames →
      Scopes limit openGroups (.operand op start (some left) :: frames)

theorem Scopes.le_limit {openGroups : Nat} {frames : List Frame}
    (h : Scopes limit openGroups frames) : openGroups ≤ limit := by
  induction h with
  | nil => exact Nat.zero_le _
  | group start hroom _ _ => exact hroom
  | operand op start _ _ _ ih => exact ih

theorem Scopes.whole {openGroups : Nat} {frames : List Frame}
    (h : Scopes limit openGroups frames) : ∀ f ∈ frames, f.Whole := by
  induction h with
  | nil => exact nofun
  | group start _ _ ih => exact List.forall_mem_cons.mpr ⟨rfl, ih⟩
  | operand op start _ _ _ ih => exact List.forall_mem_cons.mpr ⟨rfl, ih⟩

/-- What holds between two quiet moves. -/
structure Sound (limit : Nat) (s : State) : Prop where
  scopes : Scopes limit s.openGroups s.frames
  fits : ∀ e ∈ s.held, Fits limit s.openGroups e
  /-- A tree with an operator at its root is only held where scopes close. -/
  operand : ∀ e ∈ s.held, e.IsOperand ∨ AtTerminator s.tokens

theorem sound_start (limit : Nat) (tokens : List Token) : Sound limit (.start tokens) :=
  ⟨.nil, nofun, nofun⟩

theorem sound_of_quiet {s s' : State} (h : Quiet limit s (.resume s')) (hs : Sound limit s) :
    Sound limit s' := by
  obtain ⟨hscopes, hfits, hoperand⟩ := hs
  cases h with
  | @operator token op rest left frames openGroups hop =>
    refine ⟨?_, nofun, nofun⟩
    have hleft : left.IsOperand := by
      refine (hoperand left rfl).resolve_right fun hparen => ?_
      rw [show token.lexeme = .rightParen from hparen] at hop
      cases hop
    exact .operand op token.start hleft (hfits left rfl) hscopes
  | name rest frames openGroups hword htext =>
    refine ⟨hscopes, ?_, ?_⟩ <;> rintro _ ⟨⟩
    · exact ⟨trivial, htext, hscopes.le_limit⟩
    · exact .inl trivial
  | openGroup rest frames hparen hroom => exact ⟨.group _ hroom hscopes, nofun, nofun⟩
  | closeGroup rest inner start outer frames openGroups hparen =>
    cases hscopes with
    | group _ hroom hscopes =>
      refine ⟨hscopes, ?_, ?_⟩ <;> rintro _ ⟨⟩
      · exact fits_group (hfits inner rfl)
      · exact .inl trivial
  | closeOperand inner op start left frames openGroups hend =>
    cases hscopes with
    | operand _ _ hleft hfit hscopes =>
      refine ⟨hscopes, ?_, ?_⟩ <;> rintro _ ⟨⟩
      · exact fits_binary hleft hfit (hfits inner rfl)
      · exact .inr hend

theorem fits_of_run {s : State} (hs : Sound limit s)
    (htokens : ∀ t ∈ s.tokens, t.lexeme ≠ .endOfInput) {made : List Repair} {e : Expression}
    (h : (run .strict limit stop made s).result = .ok (some e)) :
    s.symbols = e.symbols ∧ Fits limit 0 e := by
  rcases quiet_or_refused limit stop htokens hs.scopes.whole with ⟨next, hquiet⟩ | ⟨error, herror⟩
  · cases next with
    | resume s' =>
      rw [run_of_quiet .strict hquiet] at h
      have ih := fits_of_run (sound_of_quiet hquiet hs)
        (fun t ht => htokens t (tokens_of_quiet hquiet t ht)) h
      rwa [symbols_of_quiet hquiet hs.scopes.whole] at ih
    | finish result =>
      rw [run_of_quiet_finish .strict hquiet] at h
      cases h
      cases hquiet with
      | finish _ openGroups =>
        obtain ⟨hscopes, hfits, -⟩ := hs
        cases hscopes
        exact ⟨by simp [State.symbols, heldSymbols], hfits e rfl⟩
    | fail error =>
      rw [run_of_quiet_fail .strict hquiet] at h
      cases h
  · rw [run_strict_of_refused herror] at h
    cases h
termination_by s.weight
decreasing_by exact weight_lt_of_quiet hquiet

/-! ## Texts -/

theorem symbols_start (text : String) :
    (State.start (Cursor.ofText text).tokens).symbols = symbols text := by
  rw [← (spells_tokens text).symbolsOf_eq]
  rfl

theorem read_strict_eq_ok_iff {text : String} {e : Expression} :
    (RightNested.read .strict limit text).result = .ok (some e) ↔
      symbols text = e.symbols ∧ e.RightNested ∧ e.Unreserved ∧ e.nesting ≤ limit := by
  constructor
  · intro h
    obtain ⟨hsymbols, hshape, hnames, hroom⟩ := fits_of_run (sound_start limit _)
      (fun t ht => (spells_tokens text).lexeme_ne_endOfInput ht) h
    rw [symbols_start] at hsymbols
    exact ⟨hsymbols, hshape, hnames, by omega⟩
  · rintro ⟨hsymbols, hshape, -, hroom⟩
    rw [RightNested.read, run_of_spells hshape (hsymbols ▸ spells_tokens text) hroom]

theorem result_strict (limit : Nat) (text : String) :
    (Reader.read ⟨.strict, limit⟩ text).result =
      (RightNested.read .strict limit text).result >>= Reader.requireExpression text := rfl

theorem bind_requireExpression_eq_ok_iff {r : Except SyntaxError (Option Expression)}
    {text : String} {e : Expression} :
    r >>= Reader.requireExpression text = .ok e ↔ r = .ok (some e) := by
  rcases r with error | _ | e'
  · simp [bind, Except.bind]
  · simp [bind, Except.bind, Reader.requireExpression]
  · simp [bind, Except.bind, Reader.requireExpression]

theorem result_strict_eq_ok_iff {text : String} {e : Expression} :
    (Reader.read ⟨.strict, limit⟩ text).result = .ok e ↔
      symbols text = e.symbols ∧ e.RightNested ∧ e.Unreserved ∧ e.nesting ≤ limit := by
  rw [result_strict, bind_requireExpression_eq_ok_iff, read_strict_eq_ok_iff]

/-- A text spells at most one right-nested tree. -/
theorem eq_of_symbols_eq {text : String} {e e' : Expression} (h : symbols text = e.symbols)
    (h' : symbols text = e'.symbols) (hshape : e.RightNested) (hshape' : e'.RightNested) :
    e = e' := by
  have htokens := spells_tokens text
  have hrun := run_of_spells hshape (h ▸ htokens) (Nat.le_max_left e.nesting e'.nesting) .strict
  have hrun' := run_of_spells hshape' (h' ▸ htokens) (Nat.le_max_right e.nesting e'.nesting) .strict
  have hsame := (hrun 0).symm.trans (hrun' 0)
  simpa using hsame

/-- Strict reading gives a tree exactly if the text spells it and it is right-nested, and accepts
exactly the right-nested grammar; no text spells two right-nested trees. -/
theorem strict_accepts_exactly_right_nested (limit : Nat) (text : String) :
    (∀ e : Expression, (Reader.read ⟨.strict, limit⟩ text).result = .ok e ↔
      symbols text = e.symbols ∧ e.RightNested ∧ e.Unreserved ∧ e.nesting ≤ limit) ∧
    ((∃ e, (Reader.read ⟨.strict, limit⟩ text).result = .ok e) ↔
      Derives .expression limit (symbols text)) ∧
    (∀ e e' : Expression, symbols text = e.symbols →
      symbols text = e'.symbols → e.RightNested → e'.RightNested → e = e') := by
  refine ⟨fun e => result_strict_eq_ok_iff, ?_, fun e e' => eq_of_symbols_eq⟩
  rw [derives_iff]
  exact exists_congr fun e => result_strict_eq_ok_iff

end LicenseExpr.RightNested
