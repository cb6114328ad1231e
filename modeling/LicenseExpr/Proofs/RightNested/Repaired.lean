import LicenseExpr.Proofs.Legible
import LicenseExpr.Proofs.Names
import LicenseExpr.Proofs.RightNested.Reading
import LicenseExpr.Proofs.RightNested.Strictness
import LicenseExpr.Proofs.RightNested.Turns

/-!
# Trees of repaired texts

Whatever repairs it takes, lenient reading gives trees that strict reading could have built
(`fits_of_read_lenient`): where an operand may follow, no scope holds on to a tree with an operator
at its root. Names are dropped, but never changed, added or moved (`names_of_turn`), so the tree
written out is a text that needs no repair.
-/

namespace LicenseExpr

namespace RightNested

variable {limit stop : Nat} {s s' : State} {repairs : List Repair}

/-! ## What scopes hold on to -/

/-- An operand that may be missing, in a place with `openGroups` groups around it. -/
def FitsOperand (limit openGroups : Nat) (held : Option Expression) : Prop :=
  ∀ e ∈ held, e.IsOperand ∧ Fits limit openGroups e

/-- As `Scopes`, also where repairs have been made. -/
inductive Retains (limit : Nat) : Nat → List Frame → Prop where
  | nil : Retains limit 0 []
  | group {openGroups : Nat} {outer : Option Expression} {frames : List Frame} (start : Nat) :
      openGroups < limit → FitsOperand limit openGroups outer → Retains limit openGroups frames →
      Retains limit (openGroups + 1) (.group start outer :: frames)
  | operand {openGroups : Nat} {left : Option Expression} {frames : List Frame} (op : Operator)
      (start : Nat) : FitsOperand limit openGroups left → Retains limit openGroups frames →
      Retains limit openGroups (.operand op start left :: frames)

theorem Retains.le_limit {openGroups : Nat} {frames : List Frame}
    (h : Retains limit openGroups frames) : openGroups ≤ limit := by
  induction h with
  | nil => exact Nat.zero_le _
  | group start hroom _ _ _ => exact hroom
  | operand op start _ _ ih => exact ih

/-- What holds between two moves, whatever repairs they take. -/
structure Settled (limit : Nat) (s : State) : Prop where
  retains : Retains limit s.openGroups s.frames
  fits : ∀ e ∈ s.held, Fits limit s.openGroups e
  /-- A tree with an operator at its root is only held where scopes close. -/
  operand : ∀ e ∈ s.held, e.IsOperand ∨ AtTerminator s.tokens

theorem settled_start (limit : Nat) (tokens : List Token) : Settled limit (.start tokens) :=
  ⟨.nil, nofun, nofun⟩

theorem Settled.fitsOperand (hs : Settled limit s) (h : ¬ AtTerminator s.tokens) :
    FitsOperand limit s.openGroups s.held :=
  fun e he => ⟨(hs.operand e he).resolve_right h, hs.fits e he⟩

theorem fits_of_close_operand {openGroups : Nat} {op : Operator} {start : Nat}
    {left inner : Option Expression} (token : Token) (hleft : FitsOperand limit openGroups left)
    (hinner : ∀ e ∈ inner, Fits limit openGroups e) :
    ∀ e ∈ ((Frame.operand op start left).close token inner).2, Fits limit openGroups e := by
  rcases left with _ | left <;> rcases inner with _ | inner <;> rintro _ ⟨⟩
  · exact hinner inner rfl
  · exact (hleft left rfl).2
  · exact fits_binary (hleft left rfl).1 (hleft left rfl).2 (hinner inner rfl)

theorem fitsOperand_of_close_group {openGroups start : Nat} {outer inner : Option Expression}
    (token : Token) (houter : FitsOperand limit openGroups outer)
    (hinner : ∀ e ∈ inner, Fits limit (openGroups + 1) e) :
    FitsOperand limit openGroups ((Frame.group start outer).close token inner).2 := by
  rcases inner with _ | inner
  · exact houter
  · rintro _ ⟨⟩
    exact ⟨trivial, fits_group (hinner inner rfl)⟩

theorem not_atTerminator_cons {token : Token} (h : token.lexeme ≠ .rightParen) (rest : List Token) :
    ¬ AtTerminator (token :: rest) := h

theorem settled_of_turn (h : Turn limit stop s ⟨repairs, .resume s'⟩) (hs : Settled limit s) :
    Settled limit s' := by
  cases h with
  | @operator token op rest held frames openGroups hop =>
    have hparen : token.lexeme ≠ .rightParen := by
      intro hparen
      rw [hparen] at hop
      cases hop
    exact ⟨.operand op _ (hs.fitsOperand (not_atTerminator_cons hparen rest)) hs.retains,
      nofun, nofun⟩
  | name rest held frames openGroups hword htext =>
    refine ⟨hs.retains, ?_, ?_⟩ <;> rintro _ ⟨⟩
    · exact ⟨trivial, htext, hs.retains.le_limit⟩
    · exact .inl trivial
  | @openGroup token rest held frames openGroups hparen hroom =>
    have hne : token.lexeme ≠ .rightParen := by
      rw [hparen]
      exact nofun
    exact ⟨.group _ hroom (hs.fitsOperand (not_atTerminator_cons hne rest)) hs.retains,
      nofun, nofun⟩
  | @closeGroup tokens held start outer frames _ hend =>
    obtain ⟨hretains, hfits, -⟩ := hs
    cases hretains with
    | @group openGroups _ _ _ hroom houter hretains =>
      have hoperand : FitsOperand limit openGroups
          ((Frame.group start outer).close (terminator stop tokens) held).2 :=
        fitsOperand_of_close_group _ houter hfits
      exact ⟨hretains, fun e he => (hoperand e he).2, fun e he => .inl (hoperand e he).1⟩
  | closeOperand held op start left frames openGroups hend =>
    obtain ⟨hretains, hfits, -⟩ := hs
    cases hretains with
    | operand _ _ hleft hretains =>
      exact ⟨hretains, fits_of_close_operand _ hleft hfits, fun e he => .inr hend⟩

/-! ## Names -/

def heldNames : Option Expression → List String
  | none => []
  | some e => e.names

def Frame.names : Frame → List String
  | group _ outer => heldNames outer
  | operand _ _ left => heldNames left

/-- The names that the open scopes hold and those still to be read. -/
def State.names (s : State) : List String :=
  s.frames.reverse.flatMap Frame.names ++ (heldNames s.held ++ namesOf (symbolsOf s.tokens))

theorem names_close_sublist (token : Token) (inner : Option Expression) (frame : Frame) :
    (heldNames (frame.close token inner).2).Sublist (frame.names ++ heldNames inner) := by
  rcases frame with ⟨start, outer⟩ | ⟨op, start, _ | left⟩ <;> rcases inner with _ | inner
  · exact List.sublist_append_left _ _
  · exact List.sublist_append_right _ _
  · exact List.Sublist.refl _
  · exact List.Sublist.refl _
  · exact List.sublist_append_left _ _
  · exact List.Sublist.refl _

theorem symbolsOf_tail_of_atTerminator {tokens : List Token} (h : AtTerminator tokens) :
    namesOf (symbolsOf tokens.tail) = namesOf (symbolsOf tokens) := by
  rcases tokens with _ | ⟨token, rest⟩
  · rfl
  · rw [symbolsOf_cons_of_eq (Lexeme.symbol?_eq_rightParen_iff.mpr h)]
    rfl

/-- A move drops names, but adds none and keeps their order. -/
theorem names_of_turn (h : Turn limit stop s ⟨repairs, .resume s'⟩) :
    s'.names.Sublist s.names := by
  cases h with
  | operator rest held frames openGroups hop =>
    rw [State.names, State.names, symbolsOf_cons_of_eq (Lexeme.symbol?_eq_operator_iff.mpr hop)]
    simp [Frame.names, heldNames, namesOf]
  | name rest held frames openGroups hword htext =>
    rw [State.names, State.names, symbolsOf_cons_of_eq (Lexeme.symbol?_eq_name_iff.mpr ⟨hword, htext⟩)]
    exact (List.sublist_append_right _ _).append_left _
  | openGroup rest held frames hparen hroom =>
    rw [State.names, State.names, symbolsOf_cons_of_eq (Lexeme.symbol?_eq_leftParen_iff.mpr hparen)]
    simp [Frame.names, heldNames, namesOf]
  | @closeGroup tokens held start outer frames openGroups hend =>
    have hclose := names_close_sublist (terminator stop tokens) held (.group start outer)
    have hrest := hclose.append_right (namesOf (symbolsOf tokens))
    simpa [State.names, symbolsOf_tail_of_atTerminator hend] using hrest
  | @closeOperand tokens held op start left frames openGroups hend =>
    have hclose := names_close_sublist (terminator stop tokens) held (.operand op start left)
    have hrest := hclose.append_right (namesOf (symbolsOf tokens))
    simpa [State.names] using hrest

/-! ## Trees -/

theorem names_of_leads {made : List Repair} (h : Leads limit stop s made s') :
    s'.names.Sublist s.names := by
  refine @Leads.keeps _ _ _ _ _ (fun s'' => s''.names.Sublist s.names) ?_ h (.refl _)
  exact fun hturn hs => (names_of_turn hturn).trans hs

/-- A lenient reading with a tree is a sequence of moves and a last one that ends with the tree. -/
theorem exists_leads_of_read_lenient {text : String} {e : Expression}
    (h : (RightNested.read .lenient limit text).result = .ok (some e)) :
    ∃ s made repairs,
      Leads limit (Cursor.ofText text).stop (.start (Cursor.ofText text).tokens) made s ∧
      Turn limit (Cursor.ofText text).stop s ⟨repairs, .finish (some e)⟩ ∧
      (RightNested.read .lenient limit text).repairs = made ++ repairs := by
  obtain ⟨s, made, repairs, next, hleads, hlast, hresult, hrepairs⟩ :=
    @exists_leads_of_run limit (Cursor.ofText text).stop (.start (Cursor.ofText text).tokens)
      fun t ht => (spells_tokens text).lexeme_ne_endOfInput ht
  rw [show (run .lenient limit _ [] _).result = .ok (some e) from h] at hresult
  cases next with
  | resume s' => cases hresult
  | fail error => cases hresult
  | finish result =>
    cases hresult
    exact ⟨s, made, repairs, hleads, hlast, hrepairs⟩

/-- Whatever repairs it took, a tree fits and its names are names of the text, in their order. -/
theorem fits_of_read_lenient {text : String} {e : Expression}
    (h : (RightNested.read .lenient limit text).result = .ok (some e)) :
    Fits limit 0 e ∧ e.names.Sublist (namesOf (symbols text)) := by
  obtain ⟨s, made, repairs, hleads, hlast, -⟩ := exists_leads_of_read_lenient h
  have hsettled : Settled limit s := hleads.keeps settled_of_turn (settled_start limit _)
  have hnames : s.names.Sublist (State.start (Cursor.ofText text).tokens).names :=
    names_of_leads hleads
  obtain ⟨tokens, held, frames, openGroups⟩ := s
  obtain ⟨rfl, rfl⟩ := hlast.of_finish
  obtain ⟨hretains, hfits, -⟩ := hsettled
  cases hretains
  refine ⟨hfits e rfl, ?_⟩
  rw [← (spells_tokens text).symbolsOf_eq]
  exact (List.sublist_append_left e.names _).trans hnames

theorem isLegible_of_read_lenient {text : String} {e : Expression}
    (h : (RightNested.read .lenient limit text).result = .ok (some e)) :
    ∀ x ∈ e.symbols, x.IsLegible := by
  obtain ⟨-, hnames⟩ := fits_of_read_lenient h
  intro x hx
  cases x with
  | operator op => trivial
  | leftParen => trivial
  | rightParen => trivial
  | name name =>
    have hmem : name ∈ e.names := by rwa [← e.namesOf_symbols, mem_namesOf]
    exact isLegible_of_mem_symbols (mem_namesOf.mp (hnames.mem hmem))

end RightNested

/-- What lenient reading makes of any text is a tree that strict reading builds as well. Written
out, it is read back as the same tree, and no repair is made. -/
theorem lenient_tree_reads_back (limit : Nat) (text : String) {e : Expression}
    (h : (Reader.read ⟨.lenient, limit⟩ text).result = .ok e) :
    (Reader.read ⟨.strict, limit⟩ e.toText).result = .ok e ∧
      (Reader.read ⟨.lenient, limit⟩ e.toText).result = .ok e ∧
      (Reader.read ⟨.lenient, limit⟩ e.toText).debugMessages = [] ∧
      e.RightNested ∧ e.Unreserved ∧ e.nesting ≤ limit := by
  have hread := RightNested.bind_requireExpression_eq_ok_iff.mp h
  obtain ⟨⟨hshape, hnames, hroom⟩, -⟩ := RightNested.fits_of_read_lenient hread
  rw [Nat.zero_add] at hroom
  have hsymbols := symbols_toText (RightNested.isLegible_of_read_lenient hread)
  have hstrict := RightNested.result_strict_eq_ok_iff.mpr ⟨hsymbols, hshape, hnames, hroom⟩
  obtain ⟨hrepairs, hlenient⟩ := RightNested.result_lenient_of_strict hstrict
  refine ⟨hstrict, hlenient, ?_, hshape, hnames, hroom⟩
  rw [Reading.debugMessages_eq, hrepairs, List.map_nil]

theorem malformed_text_reads_back :
    (Reader.read ⟨.lenient, 2⟩ "OR (A and B ()").result =
        .ok (.group (.binary .and (.identifier "A") (.identifier "B"))) ∧
      (Reader.read ⟨.strict, 2⟩ "( A AND B )").result =
        .ok (.group (.binary .and (.identifier "A") (.identifier "B"))) := by
  have h : (Reader.read ⟨.lenient, 2⟩ "OR (A and B ()").result =
      .ok (.group (.binary .and (.identifier "A") (.identifier "B"))) := by decide +kernel
  exact ⟨h, (lenient_tree_reads_back 2 "OR (A and B ()" h).1⟩

end LicenseExpr
