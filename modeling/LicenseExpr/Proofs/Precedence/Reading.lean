import LicenseExpr.Proofs.Precedence.Readers
import LicenseExpr.Reader

/-!
# What reading by precedence accepts

Reading by precedence gives a tree exactly on the texts that spell it, for trees by precedence of
unreserved names with room for their groups. `Yields` says what a reader of any level has read
when it gives an expression; `found_of_spells` reads every tree back at each level that builds it.
-/

namespace LicenseExpr

/-- `WITH` stands before the last operand, so that another one cannot follow. -/
def Expression.EndsAttached : Expression → Prop
  | identifier _ | group _ => False
  | binary .exception _ _ => True
  | binary .and _ right | binary .or _ right => right.EndsAttached

namespace Precedence

/-- The operator may stand behind an expression that a level has read. -/
def Level.Leaves : Level → Expression → Operator → Prop
  | operand, _, _ => True
  | attachment, e, op => op = .exception → e.EndsAttached
  | conjunction, e, op => op ≠ .and ∧ (op = .exception → e.EndsAttached)
  | disjunction, e, op => op = .exception ∧ e.EndsAttached

/-- No operator that the level would go on with comes next. -/
def Level.Closed (level : Level) (e : Expression) (tokens : List Token) : Prop :=
  ∀ token ∈ tokens.head?, ∀ op, token.lexeme.operator? = some op → level.Leaves e op

theorem Level.closed_nil (level : Level) (e : Expression) : level.Closed e [] := nofun

theorem Level.closed_cons_iff {level : Level} {e : Expression} {token : Token} {rest : List Token} :
    level.Closed e (token :: rest) ↔
      ∀ op, token.lexeme.operator? = some op → level.Leaves e op := by
  simp [Closed]

theorem Level.leaves_level_of_below {op next : Operator} {e : Expression}
    (h : op.below.Leaves e next) (hne : next ≠ op) : op.level.Leaves e next := by
  cases op with
  | or => cases next <;> simp_all [Operator.level, Operator.below, Leaves]
  | and => exact ⟨hne, h⟩
  | exception => exact fun heq => absurd heq hne

theorem Level.leaves_below_of_level {op next : Operator} {e : Expression}
    (h : op.level.Leaves e next) (hop : op ≠ .exception) : op.below.Leaves e next ∧ next ≠ op := by
  cases op with
  | or => obtain ⟨rfl, hends⟩ := h; exact ⟨⟨nofun, fun _ => hends⟩, nofun⟩
  | and => exact ⟨h.2, h.1⟩
  | exception => exact absurd rfl hop

/-- Behind an expression that ends like another one the same operators may stand. -/
theorem Level.leaves_binary_iff {op next : Operator} {left right : Expression}
    (h : op ≠ .exception) : op.below.Leaves (.binary op left right) next ↔ op.below.Leaves right next := by
  cases op with
  | or => rfl
  | and => rfl
  | exception => exact absurd rfl h

theorem Level.leaves_self (op : Operator) (e : Expression) : op.below.Leaves e op := by
  cases op with
  | or => exact ⟨nofun, nofun⟩
  | and => exact nofun
  | exception => trivial

/-! ## What a reader has read -/

/-- The tree may stand where `depth` groups are open around it. -/
structure Fits (limit depth : Nat) (e : Expression) : Prop where
  shape : e.ByPrecedence
  names : e.Unreserved
  room : depth + e.nesting ≤ limit

/-- What a level has read of the tokens when it gives `e`, with `prior` read before them. -/
structure Yields (limit : Nat) (level : Level) (depth : Nat) (prior : List Symbol)
    (tokens : List Token) (e : Expression) (rest : List Token) : Prop where
  spelled : ∃ front ss, tokens = front ++ rest ∧ Spells front ss ∧ e.symbols = prior ++ ss
  fits : Fits limit depth e
  admits : level.Admits e
  closed : level.Closed e rest

/-- What stands left of `op` when its reader looks for the operator. -/
structure Pending (limit : Nat) (op : Operator) (depth : Nat) (left : Expression)
    (tokens : List Token) : Prop where
  fits : Fits limit depth left
  leftOf : left.LeftOf op
  admits : op.level.Admits left
  closed : op.below.Closed left tokens

variable {limit stop : Nat}

theorem Yields.extend {level : Level} {depth : Nat} {prior ss : List Symbol}
    {front tokens rest : List Token} {e : Expression} (hfront : Spells front ss)
    (h : Yields limit level depth (prior ++ ss) tokens e rest) :
    Yields limit level depth prior (front ++ tokens) e rest := by
  obtain ⟨⟨middle, ss', rfl, hmiddle, hsymbols⟩, hfits, hadmits, hclosed⟩ := h
  refine ⟨⟨front ++ middle, ss ++ ss', ?_, List.rel_append hfront hmiddle, ?_⟩, hfits, hadmits,
    hclosed⟩
  · rw [List.append_assoc]
  · rw [hsymbols, List.append_assoc]

theorem Yields.mem_of_mem_rest {level : Level} {depth : Nat} {prior : List Symbol}
    {tokens rest : List Token} {e : Expression} (h : Yields limit level depth prior tokens e rest) :
    ∀ t ∈ rest, t ∈ tokens := by
  obtain ⟨front, -, rfl, -⟩ := h.spelled
  exact fun t ht => List.mem_append_right _ ht

theorem admits_level_binary (op : Operator) (left right : Expression) :
    op.level.Admits (.binary op left right) := by
  cases op with
  | or => trivial
  | and => exact nofun
  | exception => rfl

theorem leftOf_binary {op : Operator} (h : op ≠ .exception) (left right : Expression) :
    (Expression.binary op left right).LeftOf op := by
  cases op with
  | or => trivial
  | and => exact nofun
  | exception => exact absurd rfl h

theorem admits_level_of_below {op : Operator} {e : Expression} (h : op.below.Admits e) :
    op.level.Admits e := by
  cases op with
  | or => trivial
  | and => exact rightOf_or_of_rightOf_and h
  | exception => exact rightOf_of_isOperand h .and

theorem leftOf_of_below {op : Operator} {e : Expression} (h : op.below.Admits e) : e.LeftOf op := by
  cases op with
  | or => cases e <;> trivial
  | and => exact leftOf_and_iff.mpr (rightOf_or_of_rightOf_and h)
  | exception => exact leftOf_exception_iff.mpr h

theorem rightOf_of_below {op : Operator} {e : Expression} (h : op.below.Admits e) : e.RightOf op := by
  cases op with
  | or => exact h
  | and => exact h
  | exception => exact rightOf_exception_iff.mpr h

theorem fits_binary {op : Operator} {depth : Nat} {left right : Expression}
    (hleft : Fits limit depth left) (hright : Fits limit depth right) (hleftOf : left.LeftOf op)
    (hrightOf : right.RightOf op) : Fits limit depth (.binary op left right) := by
  refine ⟨⟨hleftOf, hrightOf, hleft.shape, hright.shape⟩, ⟨hleft.names, hright.names⟩, ?_⟩
  have hl := hleft.room
  have hr := hright.room
  simp only [Expression.nesting]
  omega

theorem Pending.yields {op : Operator} {depth : Nat} {left : Expression} {tokens : List Token}
    (h : Pending limit op depth left tokens)
    (hop : ∀ token ∈ tokens.head?, token.lexeme.operator? ≠ some op) :
    Yields limit op.level depth left.symbols tokens left tokens := by
  refine ⟨⟨[], [], rfl, .nil, by simp⟩, h.fits, h.admits, fun token htoken next hnext => ?_⟩
  have hne : next ≠ op := fun heq => hop token htoken (heq ▸ hnext)
  exact Level.leaves_level_of_below (h.closed token htoken next hnext) hne

/-- Joining a right operand keeps all that matters for what follows. -/
theorem Pending.binary {op : Operator} {depth : Nat} {left right : Expression}
    {tokens rest rest' : List Token} (h : Pending limit op depth left tokens)
    (hright : Yields limit op.below depth [] rest right rest') (hop : op ≠ .exception) :
    Pending limit op depth (.binary op left right) rest' := by
  refine ⟨fits_binary h.fits hright.fits h.leftOf (rightOf_of_below hright.admits),
    leftOf_binary hop left right, admits_level_binary op left right,
    fun token htoken next hnext => ?_⟩
  exact (Level.leaves_binary_iff hop).mpr (hright.closed token htoken next hnext)

/-- `WITH` joins two operands and no more. -/
theorem Pending.attach {depth : Nat} {left right : Expression} {tokens rest rest' : List Token}
    (h : Pending limit .exception depth left tokens)
    (hright : Yields limit .operand depth [] rest right rest') :
    Yields limit .attachment depth (Expression.binary .exception left right).symbols rest'
      (.binary .exception left right) rest' :=
  ⟨⟨[], [], rfl, .nil, by simp⟩,
    fits_binary h.fits hright.fits h.leftOf (rightOf_exception_iff.mpr hright.admits),
    admits_level_binary .exception left right, fun _ _ _ _ _ => trivial⟩

/-- The reader of a level is right about the tokens. -/
def ReadsAt (limit stop : Nat) (level : Level) (tokens : List Token) : Prop :=
  ∀ depth, depth ≤ limit → ∀ e rest depth', readAt limit stop level depth tokens = .ok (e, rest, depth') →
    depth' = depth ∧ Yields limit level depth [] tokens e rest

theorem yields_of_joinAt {op : Operator} {depth depth' : Nat} {left e : Expression}
    {tokens rest : List Token} (hdepth : depth ≤ limit) (hleft : Pending limit op depth left tokens)
    (ih : ∀ rest : List Token, rest.length < tokens.length → ReadsAt limit stop op.below rest)
    (h : joinAt limit stop op left depth tokens = .ok (e, rest, depth')) :
    depth' = depth ∧ Yields limit op.level depth left.symbols tokens e rest := by
  -- What is joined so far is the left operand of the next round, so `left` goes with the tokens.
  induction hn : tokens.length using Nat.strongRecOn generalizing left tokens with
  | ind n hrec =>
    subst hn
    rcases tokens with _ | ⟨token, tokens⟩
    · rw [joinAt_nil] at h
      cases h
      exact ⟨rfl, hleft.yields nofun⟩
    · rw [joinAt_cons] at h
      by_cases hop : token.lexeme.operator? = some op
      · rw [if_pos hop] at h
        obtain ⟨_, -, hthen⟩ := bind_eq_ok_iff.mp h
        obtain ⟨⟨right, tokens', depth''⟩, hread, hgo⟩ := bind_eq_ok_iff.mp hthen
        replace hgo : goOn limit stop op (.binary op left right) depth'' tokens' =
          .ok (e, rest, depth') := hgo
        obtain ⟨rfl, hright⟩ := ih tokens (Nat.lt_succ_self _) depth hdepth _ _ _ hread
        obtain ⟨front, ss, rfl, hfront, hsymbols⟩ := hright.spelled
        have hspells : Spells (token :: front) (.operator op :: ss) :=
          .cons (Lexeme.symbol?_eq_operator_iff.mpr hop) hfront
        have hprior :
            left.symbols ++ .operator op :: ss = (Expression.binary op left right).symbols := by
          simp only [Expression.symbols, hsymbols, List.nil_append]
        by_cases hexc : op = .exception
        · subst hexc
          cases hgo
          exact ⟨rfl, .extend hspells (hprior ▸ hleft.attach hright)⟩
        · rw [goOn_of_ne limit stop hexc] at hgo
          have hlt : tokens'.length < (token :: (front ++ tokens')).length := by
            simp only [List.length_cons, List.length_append]
            omega
          obtain ⟨rfl, hyields⟩ := hrec tokens'.length hlt (hleft.binary hright hexc)
            (fun rest hrest => ih rest (Nat.lt_trans hrest hlt)) hgo rfl
          exact ⟨rfl, .extend hspells (hprior ▸ hyields)⟩
      · rw [if_neg hop] at h
        cases h
        exact ⟨rfl, hleft.yields (by simpa using hop)⟩

theorem readsAt_level {op : Operator} {tokens : List Token}
    (hbelow : ReadsAt limit stop op.below tokens)
    (ih : ∀ rest : List Token, rest.length < tokens.length → ReadsAt limit stop op.below rest) :
    ReadsAt limit stop op.level tokens := by
  intro depth hdepth e rest depth' h
  rw [readAt_level] at h
  obtain ⟨⟨left, middle, depth''⟩, hleft, hjoin⟩ := bind_eq_ok_iff.mp h
  replace hjoin : joinAt limit stop op left depth'' middle = .ok (e, rest, depth') := hjoin
  obtain ⟨rfl, ⟨front, ss, rfl, hfront, hsymbols⟩, hfits, hadmits, hclosed⟩ :=
    hbelow depth hdepth _ _ _ hleft
  have hpending : Pending limit op depth'' left middle :=
    ⟨hfits, leftOf_of_below hadmits, admits_level_of_below hadmits, hclosed⟩
  obtain ⟨rfl, hyields⟩ := yields_of_joinAt hdepth hpending
    (fun rest hlt => ih rest (by rw [List.length_append]; omega)) hjoin
  exact ⟨rfl, .extend hfront (hsymbols ▸ hyields)⟩

theorem readsAt_operand {tokens : List Token}
    (ih : ∀ rest : List Token, rest.length < tokens.length → ReadsAt limit stop .disjunction rest) :
    ReadsAt limit stop .operand tokens := by
  intro depth hdepth e rest depth' h
  rcases tokens with _ | ⟨token, tokens⟩
  · rw [readAt_operand_nil] at h
    cases h
  · rcases hop : token.lexeme.operator? with _ | op
    · cases hlexeme : token.lexeme with
      | word name =>
        have hname : Operator.ofWord? name = none := by simpa [hlexeme, Lexeme.operator?] using hop
        rw [readAt_operand_name limit stop depth tokens hlexeme hname] at h
        cases h
        have hspells : Spells [token] [.name name] :=
          .cons (Lexeme.symbol?_eq_name_iff.mpr ⟨hlexeme, hname⟩) .nil
        exact ⟨rfl, ⟨[token], [.name name], rfl, hspells, rfl⟩, ⟨trivial, hname, hdepth⟩, trivial,
          fun _ _ _ _ => trivial⟩
      | leftParen =>
        rw [readAt_operand_leftParen limit stop depth tokens hlexeme] at h
        obtain ⟨_, hroom, hinside⟩ := bind_eq_ok_iff.mp h
        obtain ⟨⟨inner, middle, depth''⟩, hinner, hclose⟩ := bind_eq_ok_iff.mp hinside
        replace hclose : readClose token.start inner depth'' middle = .ok (e, rest, depth') := hclose
        obtain ⟨rfl, ⟨front, ss, rfl, hfront, hsymbols⟩, hfits, -, -⟩ :=
          ih tokens (Nat.lt_succ_self _) (depth + 1) (lt_of_requireGroup limit hroom) _ _ _ hinner
        obtain ⟨rparen, rfl, hrparen, rfl, rfl⟩ := readClose_eq_ok _ hclose
        refine ⟨rfl, ⟨token :: (front ++ [rparen]), .leftParen :: (ss ++ [.rightParen]), ?_, ?_, ?_⟩,
          ⟨hfits.shape, hfits.names, ?_⟩, trivial, fun _ _ _ _ => trivial⟩
        · simp
        · exact .cons (Lexeme.symbol?_eq_leftParen_iff.mpr hlexeme) (List.rel_append hfront
            (.cons (Lexeme.symbol?_eq_rightParen_iff.mpr hrparen) .nil))
        · simp only [Expression.symbols, hsymbols, List.nil_append]
        · have hroom := hfits.room
          simp only [Expression.nesting]
          omega
      | rightParen =>
        rw [readAt_operand_rightParen limit stop depth tokens hlexeme] at h
        cases h
      | endOfInput =>
        rw [readAt_operand_endOfInput limit stop depth tokens hlexeme] at h
        cases h
    · rw [readAt_operand_operator limit stop depth tokens hop] at h
      cases h

theorem readsAt (limit stop : Nat) (level : Level) (tokens : List Token) :
    ReadsAt limit stop level tokens := by
  refine forall_levels ?operand ?above level tokens
  case operand => exact fun tokens ih => readsAt_operand ih
  case above => exact fun op tokens hbelow ih => readsAt_level hbelow ih

/-! ## Trees are read back -/

theorem exists_opens_of_spells {e : Expression} {tokens : List Token}
    (h : Spells tokens e.symbols) :
    ∃ token rest, tokens = token :: rest ∧ token.lexeme.OpensOperand := by
  induction e generalizing tokens with
  | identifier name =>
    obtain ⟨token, rest, hname, -, rfl⟩ := Spells.cons_iff.mp h
    obtain ⟨hword, htext⟩ := Lexeme.symbol?_eq_name_iff.mp hname
    exact ⟨token, rest, rfl, hword ▸ htext⟩
  | group inner ih =>
    obtain ⟨token, rest, hparen, -, rfl⟩ := Spells.cons_iff.mp h
    exact ⟨token, rest, rfl, Lexeme.symbol?_eq_leftParen_iff.mp hparen ▸ trivial⟩
  | binary op left right ihl ihr =>
    obtain ⟨front, rest, hfront, -, rfl⟩ := Spells.append_iff.mp h
    obtain ⟨token, front, rfl, hopens⟩ := ihl hfront
    exact ⟨token, front ++ rest, rfl, hopens⟩

/-- The reader of a level finds the expression, whatever closes it. -/
def Finds (limit stop : Nat) (level : Level) (depth : Nat) (front : List Token) (e : Expression) :
    Prop :=
  ∀ rest, level.Closed e rest → readAt limit stop level depth (front ++ rest) = .ok (e, rest, depth)

/-- The reader of `op` has the expression on its left when it looks for the operator. -/
def Collects (limit stop : Nat) (op : Operator) (depth : Nat) (front : List Token)
    (e : Expression) : Prop :=
  ∀ rest, op.below.Closed e rest →
    readAt limit stop op.level depth (front ++ rest) = joinAt limit stop op e depth rest

theorem Finds.collects {op : Operator} {depth : Nat} {front : List Token} {e : Expression}
    (h : Finds limit stop op.below depth front e) : Collects limit stop op depth front e := by
  intro rest hclosed
  rw [readAt_level, h rest hclosed]
  rfl

theorem Collects.finds_of_closed {op : Operator} {depth : Nat} {front : List Token} {e : Expression}
    (h : Collects limit stop op depth front e)
    (hclosed : ∀ next, op.level.Leaves e next → op.below.Leaves e next ∧ next ≠ op) :
    Finds limit stop op.level depth front e := by
  intro rest hrest
  rw [h rest fun token htoken next hnext => (hclosed next (hrest token htoken next hnext)).1]
  rcases rest with _ | ⟨token, rest⟩
  · rw [joinAt_nil]
  · rw [joinAt_cons, if_neg fun hop => (hclosed op (hrest token rfl op hop)).2 rfl]

theorem Collects.finds {op : Operator} {depth : Nat} {front : List Token} {e : Expression}
    (h : Collects limit stop op depth front e) (hop : op ≠ .exception) :
    Finds limit stop op.level depth front e :=
  h.finds_of_closed fun _ hleaves => Level.leaves_below_of_level hleaves hop

theorem Finds.attachment {depth : Nat} {front : List Token} {e : Expression}
    (h : Finds limit stop .operand depth front e) (he : e.IsOperand) :
    Finds limit stop .attachment depth front e := by
  have hcollects : Collects limit stop .exception depth front e := h.collects
  refine hcollects.finds_of_closed fun next hleaves => ⟨trivial, ?_⟩
  rintro rfl
  have hends := hleaves rfl
  cases e with
  | identifier name => exact hends
  | group inner => exact hends
  | binary op left right => exact he

theorem readAt_binary {op : Operator} {depth : Nat} {front back : List Token} {token : Token}
    {left right : Expression} (hleft : Collects limit stop op depth front left)
    (hright : Finds limit stop op.below depth back right) (hback : Spells back right.symbols)
    (hop : token.lexeme.operator? = some op) {rest : List Token}
    (hclosed : op.below.Closed right rest) :
    readAt limit stop op.level depth (front ++ (token :: (back ++ rest))) =
      goOn limit stop op (.binary op left right) depth rest := by
  rw [hleft _ (Level.closed_cons_iff.mpr fun next hnext => ?_), joinAt_cons, if_pos hop]
  · obtain ⟨first, back', rfl, hopens⟩ := exists_opens_of_spells hback
    rw [List.cons_append, current, List.headD_cons, requireOperand_of_opens op hopens,
      ← List.cons_append, hright rest hclosed]
    rfl
  · cases hop.symm.trans hnext
    exact Level.leaves_self op left

/-- A tree is found at each level that builds it, and collected at each level that goes on. -/
structure Found (limit stop depth : Nat) (front : List Token) (e : Expression) : Prop where
  finds : ∀ level : Level, level.Admits e → Finds limit stop level depth front e
  collects : ∀ op : Operator, op ≠ .exception → op.level.Admits e →
    Collects limit stop op depth front e

theorem found_of_or {depth : Nat} {front : List Token} {left right : Expression}
    (h : Collects limit stop .or depth front (.binary .or left right)) :
    Found limit stop depth front (.binary .or left right) := by
  constructor
  · intro level hadmits
    cases level with
    | disjunction => exact h.finds nofun
    | conjunction => exact absurd rfl hadmits
    | attachment => cases hadmits
    | operand => exact hadmits.elim
  · intro op hop hadmits
    cases op with
    | or => exact h
    | and => exact absurd rfl hadmits
    | exception => exact absurd rfl hop

theorem found_of_and {depth : Nat} {front : List Token} {e : Expression}
    (h : Collects limit stop .and depth front e)
    (hattachment : e.RightOf .and → Finds limit stop .attachment depth front e)
    (hoperand : e.IsOperand → Finds limit stop .operand depth front e) :
    Found limit stop depth front e := by
  have hconjunction : Finds limit stop .conjunction depth front e := h.finds nofun
  have hor : Collects limit stop .or depth front e := hconjunction.collects
  constructor
  · intro level hadmits
    cases level with
    | disjunction => exact hor.finds nofun
    | conjunction => exact hconjunction
    | attachment => exact hattachment hadmits
    | operand => exact hoperand hadmits
  · intro op hop _
    cases op with
    | or => exact hor
    | and => exact h
    | exception => exact absurd rfl hop

theorem found_of_operand {depth : Nat} {front : List Token} {e : Expression} (he : e.IsOperand)
    (h : Finds limit stop .operand depth front e) : Found limit stop depth front e := by
  have hattachment := h.attachment he
  have hand : Collects limit stop .and depth front e := hattachment.collects
  exact found_of_and hand (fun _ => hattachment) fun _ => h

theorem Found.collects_of_leftOf {op : Operator} {depth : Nat} {front : List Token} {e : Expression}
    (h : Found limit stop depth front e) (hleftOf : e.LeftOf op) :
    Collects limit stop op depth front e := by
  cases op with
  | or => exact h.collects .or nofun trivial
  | and => exact h.collects .and nofun (leftOf_and_iff.mp hleftOf)
  | exception => exact (h.finds .operand (leftOf_exception_iff.mp hleftOf)).collects

theorem Found.finds_of_rightOf {op : Operator} {depth : Nat} {front : List Token} {e : Expression}
    (h : Found limit stop depth front e) (hrightOf : e.RightOf op) :
    Finds limit stop op.below depth front e := by
  cases op with
  | or => exact h.finds .conjunction hrightOf
  | and => exact h.finds .attachment hrightOf
  | exception => exact h.finds .operand (rightOf_exception_iff.mp hrightOf)

theorem finds_group {depth : Nat} {front : List Token} {inner : Expression} {lparen rparen : Token}
    (hroom : depth < limit) (hlparen : lparen.lexeme = .leftParen)
    (hrparen : rparen.lexeme = .rightParen) (hfront : Spells front inner.symbols)
    (h : Finds limit stop .disjunction (depth + 1) front inner) :
    Finds limit stop .operand depth (lparen :: (front ++ [rparen])) (.group inner) := by
  intro rest _
  have hclosed : Level.Closed .disjunction inner (rparen :: rest) :=
    Level.closed_cons_iff.mpr fun op hop => by rw [hrparen] at hop; cases hop
  obtain ⟨first, front', hfirst, hopens⟩ := exists_opens_of_spells hfront
  have hgroup : requireGroup limit depth lparen.start (current stop (front ++ rparen :: rest)) =
      .ok () := by
    rw [hfirst, List.cons_append, current, List.headD_cons]
    refine requireGroup_of_lt limit hroom _ ?_ ?_ <;> intro h <;> rw [h] at hopens <;> exact hopens
  rw [List.cons_append, List.append_assoc, List.singleton_append,
    readAt_operand_leftParen limit stop depth _ hlparen, hgroup]
  show readAt limit stop .disjunction (depth + 1) (front ++ rparen :: rest) >>= _ = _
  rw [h _ hclosed]
  exact readClose_rightParen _ _ _ _ hrparen

theorem found_of_spells {e : Expression} {depth : Nat} (hfits : Fits limit depth e)
    {front : List Token} (hfront : Spells front e.symbols) : Found limit stop depth front e := by
  induction e generalizing depth front with
  | identifier name =>
    obtain ⟨token, _, hname, hnil, rfl⟩ := Spells.cons_iff.mp hfront
    obtain ⟨hword, htext⟩ := Lexeme.symbol?_eq_name_iff.mp hname
    cases Spells.nil_iff.mp hnil
    exact found_of_operand trivial fun rest _ =>
      readAt_operand_name limit stop depth rest hword htext
  | group inner ih =>
    obtain ⟨lparen, _, hlparen, hgroup, rfl⟩ := Spells.cons_iff.mp hfront
    obtain ⟨ifront, _, hinner, hclose, rfl⟩ := Spells.append_iff.mp hgroup
    obtain ⟨rparen, _, hrparen, hnil, rfl⟩ := Spells.cons_iff.mp hclose
    cases Spells.nil_iff.mp hnil
    have hroom := hfits.room
    simp only [Expression.nesting] at hroom
    have hinside : Fits limit (depth + 1) inner := ⟨hfits.shape, hfits.names, by omega⟩
    exact found_of_operand trivial (finds_group (by omega)
      (Lexeme.symbol?_eq_leftParen_iff.mp hlparen) (Lexeme.symbol?_eq_rightParen_iff.mp hrparen)
      hinner ((ih hinside hinner).finds .disjunction trivial))
  | binary op left right ihl ihr =>
    obtain ⟨lfront, _, hlfront, hchain, rfl⟩ := Spells.append_iff.mp hfront
    obtain ⟨token, rfront, hsymbol, hrfront, rfl⟩ := Spells.cons_iff.mp hchain
    obtain ⟨⟨hleftOf, hrightOf, hlshape, hrshape⟩, ⟨hlnames, hrnames⟩, hroom⟩ := hfits
    simp only [Expression.nesting] at hroom
    have hlfits : Fits limit depth left := ⟨hlshape, hlnames, by omega⟩
    have hrfits : Fits limit depth right := ⟨hrshape, hrnames, by omega⟩
    have hleft := (ihl hlfits hlfront).collects_of_leftOf hleftOf
    have hright := (ihr hrfits hrfront).finds_of_rightOf hrightOf
    have hop := Lexeme.symbol?_eq_operator_iff.mp hsymbol
    have hcollects (hne : op ≠ .exception) :
        Collects limit stop op depth (lfront ++ token :: rfront) (.binary op left right) := by
      intro rest hclosed
      rw [List.append_assoc, List.cons_append, readAt_binary hleft hright hrfront hop,
        goOn_of_ne limit stop hne]
      exact fun t ht next hnext => (Level.leaves_binary_iff hne).mp (hclosed t ht next hnext)
    cases op with
    | or => exact found_of_or (hcollects (by decide))
    | and => exact found_of_and (hcollects (by decide)) (fun h => by cases h) False.elim
    | exception =>
      -- `WITH` does not go on behind its right operand: the pair is found whole, for `AND` to collect.
      have hattachment : Finds limit stop .attachment depth (lfront ++ token :: rfront)
          (.binary .exception left right) := by
        intro rest _
        rw [List.append_assoc, List.cons_append]
        exact readAt_binary hleft hright hrfront hop fun _ _ _ _ => trivial
      have hand : Collects limit stop .and depth (lfront ++ token :: rfront)
          (.binary .exception left right) := hattachment.collects
      exact found_of_and hand (fun _ => hattachment) False.elim

/-! ## Texts -/

theorem readTokens_of_mem {tokens : List Token} (h : ∀ t ∈ tokens, t.lexeme ≠ .endOfInput) :
    readTokens limit stop tokens =
      if tokens = [] then .error (.emptyExpression stop)
      else readAt limit stop .disjunction 0 tokens >>= fun (e, rest, _) =>
        requireEnd (current stop rest) >>= fun _ => .ok e := by
  rcases tokens with _ | ⟨token, tokens⟩
  · rfl
  · have hne : (current stop (token :: tokens)).lexeme ≠ .endOfInput := h token List.mem_cons_self
    rw [readTokens, if_neg (List.cons_ne_nil _ _), if_neg hne]
    dsimp only [readAt]
    rcases disjunction limit stop 0 (token :: tokens) with error | ⟨e, rest, depth, hlt⟩ <;> rfl

theorem requireEnd_eq_ok_iff {tokens : List Token} (h : ∀ t ∈ tokens, t.lexeme ≠ .endOfInput) :
    requireEnd (current stop tokens) = .ok () ↔ tokens = [] := by
  rcases tokens with _ | ⟨⟨_ | _ | _ | _, start⟩, tokens⟩
  · exact iff_of_true rfl rfl
  · exact iff_of_false nofun (List.cons_ne_nil _ _)
  · exact iff_of_false nofun (List.cons_ne_nil _ _)
  · exact iff_of_false nofun (List.cons_ne_nil _ _)
  · exact absurd rfl (h _ List.mem_cons_self)

theorem read_eq_ok_iff {text : String} {e : Expression} :
    Precedence.read limit text = .ok e ↔
      symbols text = e.symbols ∧ e.ByPrecedence ∧ e.Unreserved ∧ e.nesting ≤ limit := by
  have htokens : ∀ t ∈ (Cursor.ofText text).tokens, t.lexeme ≠ .endOfInput :=
    fun _ ht => (spells_tokens text).lexeme_ne_endOfInput ht
  rw [Precedence.read, readTokens_of_mem htokens]
  constructor
  · intro h
    split at h
    · cases h
    · obtain ⟨⟨e', rest, depth⟩, hread, h⟩ := bind_eq_ok_iff.mp h
      obtain ⟨_, hend, h⟩ := bind_eq_ok_iff.mp h
      cases h
      obtain ⟨-, he⟩ := readsAt limit _ .disjunction _ 0 (Nat.zero_le _) _ _ _ hread
      have hrest : rest = [] :=
        (requireEnd_eq_ok_iff fun t ht => htokens t (he.mem_of_mem_rest t ht)).mp hend
      subst hrest
      obtain ⟨⟨front, ss, hsplit, hfront, hsymbols⟩, hfits, -, -⟩ := he
      rw [List.append_nil] at hsplit
      subst hsplit
      refine ⟨?_, hfits.shape, hfits.names, by have := hfits.room; omega⟩
      rw [← (spells_tokens text).symbolsOf_eq, hfront.symbolsOf_eq, hsymbols, List.nil_append]
  · rintro ⟨hsymbols, hshape, hnames, hroom⟩
    have hspells : Spells (Cursor.ofText text).tokens e.symbols := hsymbols ▸ spells_tokens text
    have hfits : Fits limit 0 e := ⟨hshape, hnames, by omega⟩
    have hfound : Found limit (Cursor.ofText text).stop 0 _ e := found_of_spells hfits hspells
    have hread := hfound.finds .disjunction trivial [] (Level.closed_nil _ _)
    obtain ⟨first, rest, hfirst, -⟩ := exists_opens_of_spells hspells
    rw [List.append_nil] at hread
    rw [if_neg (by rw [hfirst]; exact List.cons_ne_nil _ _), hread]
    rfl

/-- A text spells at most one tree by precedence. -/
theorem eq_of_symbols_eq {text : String} {e e' : Expression} (h : symbols text = e.symbols)
    (h' : symbols text = e'.symbols) (hshape : e.ByPrecedence) (hshape' : e'.ByPrecedence) :
    e = e' := by
  have hnames := Expression.unreserved_of_symbols_eq h
  have hnames' := Expression.unreserved_of_symbols_eq h'
  have hread := read_eq_ok_iff.mpr ⟨h, hshape, hnames, Nat.le_max_left e.nesting e'.nesting⟩
  have hread' := read_eq_ok_iff.mpr ⟨h', hshape', hnames', Nat.le_max_right e.nesting e'.nesting⟩
  exact Except.ok.inj (hread.symm.trans hread')

/-- Reading by precedence gives a tree exactly if the text spells it and operators nest in it by
precedence, and accepts exactly the grammar of levels; no text spells two such trees. -/
theorem spdx_accepts_exactly_by_precedence (limit : Nat) (text : String) :
    (∀ e : Expression, (Reader.read ⟨.spdx, limit⟩ text).result = .ok e ↔
      symbols text = e.symbols ∧ e.ByPrecedence ∧ e.Unreserved ∧ e.nesting ≤ limit) ∧
    ((∃ e, (Reader.read ⟨.spdx, limit⟩ text).result = .ok e) ↔
      Derives .disjunction limit (symbols text)) ∧
    (∀ e e' : Expression, symbols text = e.symbols → symbols text = e'.symbols →
      e.ByPrecedence → e'.ByPrecedence → e = e') := by
  refine ⟨fun e => read_eq_ok_iff, ?_, fun e e' => eq_of_symbols_eq⟩
  rw [derives_iff]
  exact exists_congr fun e => read_eq_ok_iff

end Precedence

end LicenseExpr
