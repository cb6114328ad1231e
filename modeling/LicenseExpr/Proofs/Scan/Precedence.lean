import LicenseExpr.Proofs.Precedence.Reading
import LicenseExpr.Proofs.Scan

/-!
# Reading by precedence by a scan

Reading by precedence gives the error that the scan of its grammar finds, and a tree if the scan
finds none. A tree moves the scan behind an operand and leaves the open groups as they are
(`exists_advance_of_spells`); an error of a reader is found from every place where the reader may
begin (`ErrsAt`).
-/

namespace LicenseExpr.Precedence

open Scan

variable {limit stop : Nat} {place : Place} {opened : List Opened}

/-! ## Trees -/

theorem not_endsAttached {e : Expression} (h : e.IsOperand) : ¬ e.EndsAttached := by
  cases e with
  | identifier name | group inner => exact id
  | binary op left right => exact h.elim

theorem endsAttached_binary_iff {op : Operator} {left right : Expression} :
    (Expression.binary op left right).EndsAttached ↔ op = .exception ∨ right.EndsAttached := by
  cases op <;> simp [Expression.EndsAttached]

theorem isOperand_of_rightOf {op : Operator} {e : Expression} (h : e.RightOf op)
    (hop : op = .exception) : e.IsOperand := by
  subst hop
  exact rightOf_exception_iff.mp h

theorem step_operator_of_leftOf {op : Operator} {left : Expression} {token : Token}
    {attached : Bool} (hop : token.lexeme.operator? = some op) (hleftOf : left.LeftOf op)
    (hends : attached = true → left.EndsAttached) :
    State.step .byPrecedence limit ⟨.after attached, opened⟩ token = .ok ⟨.behind op, opened⟩ := by
  refine step_operator_of_after hop fun _ hattached hexception => ?_
  subst hexception
  exact not_endsAttached (leftOf_exception_iff.mp hleftOf) (hends hattached)

/-- Only operands are read in the place that `WITH` leaves. -/
theorem exists_advance_of_spells {e : Expression} (hshape : e.ByPrecedence) {front : List Token}
    (hfront : Spells front e.symbols) (hplace : place.Awaits)
    (hattaches : place.attaches = true → e.IsOperand) (hroom : opened.length + e.nesting ≤ limit) :
    ∃ attached, State.advance .byPrecedence limit ⟨place, opened⟩ front =
        .ok ⟨.after attached, opened⟩ ∧
      (attached = true ↔ place.attaches = true ∨ e.EndsAttached) := by
  induction e generalizing front place opened with
  | identifier name =>
    obtain ⟨token, _, hname, hnil, rfl⟩ := Spells.cons_iff.mp hfront
    obtain ⟨hword, htext⟩ := Lexeme.symbol?_eq_name_iff.mp hname
    cases Spells.nil_iff.mp hnil
    refine ⟨place.attaches, ?_, by simp [Expression.EndsAttached]⟩
    exact advance_cons_eq_ok_iff.mpr ⟨_, step_name_of_awaits hplace hword htext, rfl⟩
  | group inner ih =>
    obtain ⟨lparen, _, hlparen, hgroup, rfl⟩ := Spells.cons_iff.mp hfront
    obtain ⟨ifront, _, hinner, hclose, rfl⟩ := Spells.append_iff.mp hgroup
    obtain ⟨rparen, _, hrparen, hnil, rfl⟩ := Spells.cons_iff.mp hclose
    cases Spells.nil_iff.mp hnil
    replace hlparen := Lexeme.symbol?_eq_leftParen_iff.mp hlparen
    replace hrparen := Lexeme.symbol?_eq_rightParen_iff.mp hrparen
    simp only [Expression.nesting] at hroom
    have hinside : (⟨lparen.start, place.attaches⟩ :: opened).length + inner.nesting ≤ limit := by
      rw [List.length_cons]
      omega
    obtain ⟨attached, hadvance, -⟩ :=
      @ih .opening (⟨lparen.start, place.attaches⟩ :: opened) hshape _ hinner trivial
        Place.of_attaches_opening hinside
    refine ⟨place.attaches, ?_, by simp [Expression.EndsAttached]⟩
    refine advance_cons_eq_ok_iff.mpr ⟨_, step_leftParen_of_awaits hplace hlparen (by omega), ?_⟩
    refine advance_append_eq_ok_iff.mpr ⟨_, hadvance, ?_⟩
    exact advance_cons_eq_ok_iff.mpr ⟨_, step_rightParen hrparen, rfl⟩
  | binary op left right ihl ihr =>
    obtain ⟨hleftOf, hrightOf, hlshape, hrshape⟩ := hshape
    obtain ⟨lfront, _, hlfront, hchain, rfl⟩ := Spells.append_iff.mp hfront
    obtain ⟨token, rfront, hop, hrfront, rfl⟩ := Spells.cons_iff.mp hchain
    replace hop := Lexeme.symbol?_eq_operator_iff.mp hop
    simp only [Expression.nesting] at hroom
    -- A tree with an operator is no operand, so this is not the place that `WITH` leaves.
    have hnotplace : ¬ place.attaches = true := hattaches
    obtain ⟨attached, hleft, hends⟩ := @ihl place opened hlshape _ hlfront hplace
      (fun h => (hnotplace h).elim) (by omega)
    obtain ⟨attached', hright, hends'⟩ := @ihr (.behind op) opened hrshape _ hrfront trivial
      (fun h => isOperand_of_rightOf hrightOf (Place.attaches_behind_iff.mp h)) (by omega)
    have hstep : State.step .byPrecedence limit ⟨.after attached, opened⟩ token =
        .ok ⟨.behind op, opened⟩ :=
      step_operator_of_leftOf hop hleftOf fun h => (hends.mp h).resolve_left hnotplace
    refine ⟨attached', ?_, ?_⟩
    · exact advance_append_eq_ok_iff.mpr ⟨_, hleft, advance_cons_eq_ok_iff.mpr ⟨_, hstep, hright⟩⟩
    · rw [hends', Place.attaches_behind_iff, endsAttached_binary_iff, or_iff_right hnotplace]

/-! ## Errors -/

/-- A reader begins here only if what must stand at the next token does. -/
inductive Ready : Place → List Opened → List Token → Prop where
  | start (tokens : List Token) : Ready .opening [] tokens
  | inside {token : Token} (opened : List Opened) (rest : List Token) :
      token.lexeme ≠ .rightParen → Ready .opening opened (token :: rest)
  | behind {token : Token} (op : Operator) (opened : List Opened) (rest : List Token) :
      token.lexeme.OpensOperand → Ready (.behind op) opened (token :: rest)

theorem ready_of_opens {op : Operator} {tokens : List Token}
    (h : (current stop tokens).lexeme.OpensOperand) : Ready (.behind op) opened tokens := by
  cases tokens with
  | nil => exact h.elim
  | cons first rest => exact .behind op opened rest h

theorem Ready.awaits {tokens : List Token} (h : Ready place opened tokens) : place.Awaits := by
  cases h <;> trivial

/-- The error of a level is the error that the scan finds. -/
def ErrsAt (limit stop : Nat) (level : Level) (tokens : List Token) : Prop :=
  ∀ place opened, opened.length ≤ limit → Ready place opened tokens →
    (place.attaches = true → level = .operand) →
    (∀ t ∈ tokens, t.lexeme ≠ .endOfInput) →
    ∀ error, readAt limit stop level opened.length tokens = .error error →
      State.check .byPrecedence limit stop ⟨place, opened⟩ tokens = .error error

theorem step_of_leaves {attached : Bool} {e : Expression} {token : Token}
    (hleaves : ∀ op, token.lexeme.operator? = some op → Level.Leaves .disjunction e op)
    (hends : e.EndsAttached → attached = true) (hparen : token.lexeme ≠ .rightParen) (hend : token.lexeme ≠ .endOfInput) :
    State.step .byPrecedence limit ⟨.after attached, opened⟩ token =
      .error (.unexpectedToken token.start token.lexeme) := by
  rcases hop : token.lexeme.operator? with _ | op
  · refine step_after_of_opens ?_
    cases hlexeme : token.lexeme with
    | word text => rwa [hlexeme] at hop
    | leftParen => trivial
    | rightParen => exact hparen hlexeme
    | endOfInput => exact hend hlexeme
  · obtain ⟨hexception, hattached⟩ := hleaves op hop
    rw [step_operator hop]
    exact if_pos ⟨rfl, hends hattached, hexception⟩

/-- The scan reads the tree that a reader has given. -/
theorem Yields.exists_check {level : Level} {tokens rest : List Token} {e : Expression}
    (h : Yields limit level opened.length [] tokens e rest) (place : Place) (hplace : place.Awaits)
    (hattaches : place.attaches = true → level = .operand) :
    ∃ attached, State.check .byPrecedence limit stop ⟨place, opened⟩ tokens =
        State.check .byPrecedence limit stop ⟨.after attached, opened⟩ rest ∧
      (attached = true ↔ place.attaches = true ∨ e.EndsAttached) := by
  obtain ⟨⟨front, ss, rfl, hfront, hsymbols⟩, hfits, hadmits, -⟩ := h
  rw [← List.nil_append ss, ← hsymbols] at hfront
  have hoperand (h : place.attaches = true) : e.IsOperand := by
    have hlevel := hattaches h
    subst hlevel
    exact hadmits
  obtain ⟨attached, hadvance, hends⟩ :=
    exists_advance_of_spells hfits.shape hfront hplace hoperand hfits.room
  exact ⟨attached, check_append_of_ok hadvance, hends⟩

/-- Where a scope ends behind a disjunction, nothing but `)` or the end is taken. -/
theorem Yields.exists_check_disjunction {tokens rest : List Token} {e : Expression}
    (h : Yields limit .disjunction opened.length [] tokens e rest) :
    ∃ attached, State.check .byPrecedence limit stop ⟨.opening, opened⟩ tokens =
        State.check .byPrecedence limit stop ⟨.after attached, opened⟩ rest ∧
      ∀ token ∈ rest.head?, token.lexeme ≠ .rightParen → token.lexeme ≠ .endOfInput →
        State.step .byPrecedence limit ⟨.after attached, opened⟩ token =
          .error (.unexpectedToken token.start token.lexeme) := by
  obtain ⟨attached, hcheck, hends⟩ := h.exists_check .opening trivial Place.of_attaches_opening
  refine ⟨attached, hcheck, fun token htoken hparen hend => ?_⟩
  exact step_of_leaves (h.closed token htoken) (fun h => hends.mpr (.inr h)) hparen hend

theorem check_behind_of_not_opens {op : Operator} {tokens : List Token}
    (h : ¬ (current stop tokens).lexeme.OpensOperand) (htokens : ∀ t ∈ tokens, t.lexeme ≠ .endOfInput) :
    State.check .byPrecedence limit stop ⟨.behind op, opened⟩ tokens =
      .error (.missingOperand (current stop tokens).start op) := by
  rcases tokens with _ | ⟨token, rest⟩
  · rfl
  · rw [current, List.headD_cons] at *
    refine check_cons_of_error ?_
    rcases hop : token.lexeme.operator? with _ | op'
    · cases hlexeme : token.lexeme with
      | word text => rw [hlexeme] at hop h; exact absurd hop h
      | leftParen => rw [hlexeme] at h; exact absurd trivial h
      | rightParen => exact step_rightParen hlexeme
      | endOfInput => exact absurd hlexeme (htokens token List.mem_cons_self)
    · exact step_operator hop

theorem below_of_attaches {op : Operator} (h : (Place.behind op).attaches = true) :
    op.below = .operand := by
  rw [Place.attaches_behind_iff.mp h]
  rfl

theorem check_of_joinAt_error {op : Operator} {left : Expression} {tokens : List Token}
    {attached : Bool} {error : SyntaxError} (hdepth : opened.length ≤ limit)
    (hleft : Pending limit op opened.length left tokens) (hends : attached = true ↔ left.EndsAttached)
    (htokens : ∀ t ∈ tokens, t.lexeme ≠ .endOfInput)
    (ih : ∀ rest : List Token, rest.length < tokens.length → ErrsAt limit stop op.below rest)
    (h : joinAt limit stop op left opened.length tokens = .error error) :
    State.check .byPrecedence limit stop ⟨.after attached, opened⟩ tokens = .error error := by
  induction hn : tokens.length using Nat.strongRecOn generalizing left tokens attached with
  | ind n hrec =>
    subst hn
    rcases tokens with _ | ⟨token, tokens⟩
    · rw [joinAt_nil] at h
      cases h
    · by_cases hop : token.lexeme.operator? = some op
      · rw [check_cons_of_ok (step_operator_of_leftOf hop hleft.leftOf hends.mp)]
        have hrest : ∀ t ∈ tokens, t.lexeme ≠ .endOfInput :=
          fun t ht => htokens t (List.mem_cons_of_mem _ ht)
        by_cases hopens : (current stop tokens).lexeme.OpensOperand
        · rw [joinAt_of_opens limit stop hop hopens] at h
          rcases bind_eq_error_iff.mp h with hread | ⟨⟨right, rest, depth'⟩, hread, hgo⟩
          · exact ih tokens (Nat.lt_succ_self _) _ _ hdepth (ready_of_opens hopens) below_of_attaches
              hrest _ hread
          · replace hgo : goOn limit stop op (.binary op left right) depth' rest = .error error := hgo
            obtain ⟨rfl, hright⟩ := readsAt limit stop op.below tokens _ hdepth _ _ _ hread
            obtain ⟨attached', hcheck, hends'⟩ := hright.exists_check (.behind op) trivial below_of_attaches
            have hlt := length_lt_of_readAt limit stop hread
            rw [hcheck]
            by_cases hexc : op = .exception
            · subst hexc
              cases hgo
            · rw [goOn_of_ne limit stop hexc] at hgo
              refine hrec rest.length (Nat.lt_succ_of_lt hlt) (hleft.binary hright hexc) ?_ ?_
                (fun rest' hrest' => ih rest' (by rw [List.length_cons]; omega)) hgo rfl
              · rw [hends', Place.attaches_behind_iff, endsAttached_binary_iff]
              · exact fun t ht => hrest t (hright.mem_of_mem_rest t ht)
        · rw [joinAt_of_not_opens limit stop hop hopens] at h
          cases h
          exact check_behind_of_not_opens hopens hrest
      · rw [joinAt_cons, if_neg hop] at h
        cases h

theorem errsAt_level {op : Operator} {tokens : List Token}
    (hbelow : ErrsAt limit stop op.below tokens)
    (ih : ∀ rest : List Token, rest.length < tokens.length → ErrsAt limit stop op.below rest) :
    ErrsAt limit stop op.level tokens := by
  intro place opened hdepth hready hattaches htokens error h
  have hplace : ¬ place.attaches = true := by
    intro hplace
    have hlevel := hattaches hplace
    cases op <;> cases hlevel
  rw [readAt_level] at h
  rcases bind_eq_error_iff.mp h with hread | ⟨⟨left, rest, depth'⟩, hread, hjoin⟩
  · exact hbelow place opened hdepth hready (fun h => absurd h hplace) htokens error hread
  · replace hjoin : joinAt limit stop op left depth' rest = .error error := hjoin
    obtain ⟨rfl, hleft⟩ := readsAt limit stop op.below tokens _ hdepth _ _ _ hread
    obtain ⟨attached, hcheck, hends⟩ := hleft.exists_check place hready.awaits fun h => absurd h hplace
    have hlt := length_lt_of_readAt limit stop hread
    have hpending : Pending limit op opened.length left rest :=
      ⟨hleft.fits, leftOf_of_below hleft.admits, admits_level_of_below hleft.admits, hleft.closed⟩
    rw [hcheck]
    exact check_of_joinAt_error hdepth hpending (hends.trans (or_iff_right hplace))
      (fun t ht => htokens t (hleft.mem_of_mem_rest t ht))
      (fun rest' hrest' => ih rest' (Nat.lt_trans hrest' hlt)) hjoin

/-- Between the parentheses of a group and behind it. -/
theorem check_of_group_error {token : Token} {tokens : List Token} {attached : Bool}
    {error : SyntaxError} (hroom : opened.length < limit)
    (htokens : ∀ t ∈ tokens, t.lexeme ≠ .endOfInput)
    (hinside : (current stop tokens).lexeme ≠ .rightParen) (hend : tokens ≠ [])
    (ih : ErrsAt limit stop .disjunction tokens)
    (h : (readAt limit stop .disjunction (opened.length + 1) tokens >>= fun (inner, rest, depth) =>
      readClose token.start inner depth rest) = .error error) :
    State.check .byPrecedence limit stop ⟨.opening, ⟨token.start, attached⟩ :: opened⟩ tokens =
      .error error := by
  have hready : Ready .opening (⟨token.start, attached⟩ :: opened) tokens := by
    rcases tokens with _ | ⟨first, rest⟩
    · exact absurd rfl hend
    · exact .inside _ rest hinside
  rcases bind_eq_error_iff.mp h with hread | ⟨⟨inner, rest, depth'⟩, hread, hclose⟩
  · exact ih .opening (⟨token.start, attached⟩ :: opened) hroom hready
      Place.of_attaches_opening htokens error hread
  · replace hclose : readClose token.start inner depth' rest = .error error := hclose
    obtain ⟨rfl, hinner⟩ := readsAt limit stop .disjunction tokens _ hroom _ _ _ hread
    obtain ⟨attached', hcheck, hbehind⟩ := @Yields.exists_check_disjunction limit stop
      (⟨token.start, attached⟩ :: opened) _ _ _ hinner
    rw [hcheck]
    rcases rest with _ | ⟨next, rest⟩
    · rw [readClose_nil] at hclose
      cases hclose
      rfl
    · have hnext := htokens next (hinner.mem_of_mem_rest next List.mem_cons_self)
      by_cases hparen : next.lexeme = .rightParen
      · rw [readClose_rightParen _ _ _ _ hparen] at hclose
        cases hclose
      · rw [readClose_ne _ _ _ _ hparen hnext] at hclose
        cases hclose
        exact check_cons_of_error (hbehind next rfl hparen hnext)

theorem errsAt_operand {tokens : List Token}
    (ih : ∀ rest : List Token, rest.length < tokens.length → ErrsAt limit stop .disjunction rest) :
    ErrsAt limit stop .operand tokens := by
  intro place opened hdepth hready _ htokens error h
  rcases tokens with _ | ⟨token, tokens⟩
  · rw [readAt_operand_nil] at h
    cases h
    cases hready
    rfl
  · rcases hop : token.lexeme.operator? with _ | op
    · cases hlexeme : token.lexeme with
      | word name =>
        have hname : Operator.ofWord? name = none := by simpa [hlexeme, Lexeme.operator?] using hop
        rw [readAt_operand_name limit stop _ tokens hlexeme hname] at h
        cases h
      | leftParen =>
        have hrest : ∀ t ∈ tokens, t.lexeme ≠ .endOfInput :=
          fun t ht => htokens t (List.mem_cons_of_mem _ ht)
        rw [readAt_operand_leftParen limit stop _ tokens hlexeme] at h
        rcases Nat.lt_or_ge opened.length limit with hroom | hfull
        · rw [check_cons_of_ok (step_leftParen_of_awaits hready.awaits hlexeme hroom)]
          rcases tokens with _ | ⟨first, rest⟩
          · rw [requireGroup_endOfInput limit hroom _ rfl] at h
            cases h
            rfl
          · by_cases hparen : first.lexeme = .rightParen
            · rw [current, List.headD_cons, requireGroup_rightParen limit hroom _ hparen] at h
              cases h
              exact check_cons_of_error (step_rightParen hparen)
            · have hfirst := hrest first List.mem_cons_self
              rw [current, List.headD_cons, requireGroup_of_lt limit hroom _ hparen hfirst] at h
              exact check_of_group_error hroom hrest hparen (List.cons_ne_nil _ _)
                (ih _ (Nat.lt_succ_self _)) h
        · rw [requireGroup_of_le limit hfull] at h
          cases h
          exact check_cons_of_error (step_leftParen_of_full hready.awaits hlexeme hfull)
      | rightParen =>
        rw [readAt_operand_rightParen limit stop _ tokens hlexeme] at h
        cases h
        refine check_cons_of_error ((step_rightParen hlexeme).trans ?_)
        cases hready with
        | start => rfl
        | inside _ _ hparen => exact absurd hlexeme hparen
        | behind op _ _ hopens => rw [hlexeme] at hopens; exact hopens.elim
      | endOfInput => exact absurd hlexeme (htokens token List.mem_cons_self)
    · rw [readAt_operand_operator limit stop _ tokens hop] at h
      cases h
      refine check_cons_of_error ((step_operator hop).trans ?_)
      cases hready with
      | start | inside _ _ _ => rfl
      | behind _ _ _ hopens =>
        obtain ⟨text, hword, htext⟩ := Lexeme.operator?_eq_some_iff.mp hop
        rw [hword] at hopens
        exact absurd (htext.symm.trans hopens) (Option.some_ne_none op)

theorem errsAt (limit stop : Nat) (level : Level) (tokens : List Token) :
    ErrsAt limit stop level tokens := by
  refine forall_levels ?operand ?above level tokens
  case operand => exact fun tokens ih => errsAt_operand ih
  case above => exact fun op tokens hbelow ih => errsAt_level hbelow ih

/-! ## Texts -/

theorem result_spdx_eq_verdict (limit : Nat) (text : String) :
    (Reader.read ⟨.spdx, limit⟩ text).result.map (fun _ => ()) = verdict .byPrecedence limit text := by
  have htokens : ∀ t ∈ (Cursor.ofText text).tokens, t.lexeme ≠ .endOfInput :=
    fun t ht => (spells_tokens text).lexeme_ne_endOfInput ht
  show (Precedence.read limit text).map (fun _ => ()) = State.check .byPrecedence limit
    (Cursor.ofText text).stop ⟨.opening, []⟩ (Cursor.ofText text).tokens
  rw [Precedence.read, readTokens_of_mem htokens]
  generalize (Cursor.ofText text).tokens = tokens at *
  generalize (Cursor.ofText text).stop = stop
  by_cases hnil : tokens = []
  · subst hnil
    rfl
  · rw [if_neg hnil]
    rcases hread : readAt limit stop .disjunction 0 tokens with error | ⟨e, rest, depth'⟩
    · exact (errsAt limit stop .disjunction tokens .opening [] (Nat.zero_le _) (.start tokens)
        Place.of_attaches_opening htokens error hread).symm
    · obtain ⟨rfl, he⟩ := readsAt limit stop .disjunction tokens 0 (Nat.zero_le _) _ _ _ hread
      obtain ⟨attached, hcheck, hbehind⟩ := @Yields.exists_check_disjunction limit stop [] _ _ _ he
      rw [hcheck]
      rcases rest with _ | ⟨next, rest⟩
      · rfl
      · have hnext := htokens next (he.mem_of_mem_rest next List.mem_cons_self)
        show (requireEnd next >>= fun _ => Except.ok e).map (fun _ => ()) = _
        by_cases hparen : next.lexeme = .rightParen
        · rw [check_cons_of_error (step_rightParen hparen), requireEnd, hparen]
          rfl
        · rw [check_cons_of_error (hbehind next rfl hparen hnext), requireEnd_of_ne hparen hnext]
          rfl

end LicenseExpr.Precedence
