import LicenseExpr.Expression.Symbols
import LicenseExpr.Proofs.Spelling

/-!
# Grammars

The two grammars of license expressions, as derivations over symbols. Next to a part of the
grammar stands the room for groups: how deep they may still nest. A text derives from a grammar
exactly when it spells a tree of the shape that goes with it (`RightNested.derives_iff`,
`Precedence.derives_iff`).
-/

namespace LicenseExpr

theorem Expression.unreserved_iff {e : Expression} :
    e.Unreserved ↔ ∀ name, Symbol.name name ∈ e.symbols → Operator.ofWord? name = none := by
  induction e with
  | identifier name => simp [Unreserved, symbols]
  | binary op left right ihl ihr => simp [Unreserved, symbols, ihl, ihr, or_imp, forall_and]
  | group inner ih => simp [Unreserved, symbols, ih]

/-- A tree that a text spells has only unreserved names. -/
theorem Expression.unreserved_of_symbols_eq {text : String} {e : Expression}
    (h : LicenseExpr.symbols text = e.symbols) : e.Unreserved := by
  rw [unreserved_iff, ← h, ← (spells_tokens text).symbolsOf_eq]
  exact fun _ => ofWord?_eq_none_of_name_mem

namespace RightNested

inductive Part where
  | expression
  | primary

/-- `expression := primary | primary operator expression`,
`primary := name | "(" expression ")"`. -/
inductive Derives : Part → Nat → List Symbol → Prop where
  | name {room : Nat} {text : String} :
      Operator.ofWord? text = none → Derives .primary room [.name text]
  | group {room : Nat} {ss : List Symbol} :
      Derives .expression room ss → Derives .primary (room + 1) (.leftParen :: (ss ++ [.rightParen]))
  | alone {room : Nat} {ss : List Symbol} : Derives .primary room ss → Derives .expression room ss
  | join {room : Nat} {left right : List Symbol} (op : Operator) :
      Derives .primary room left → Derives .expression room right →
        Derives .expression room (left ++ .operator op :: right)

theorem exists_of_derives {part : Part} {room : Nat} {ss : List Symbol}
    (h : Derives part room ss) :
    ∃ e : Expression, ss = e.symbols ∧ e.RightNested ∧ e.Unreserved ∧ e.nesting ≤ room ∧
      (part = .primary → e.IsOperand) := by
  induction h with
  | @name room text hname =>
    exact ⟨.identifier text, rfl, trivial, hname, Nat.zero_le _, fun _ => trivial⟩
  | group _ ih =>
    obtain ⟨e, rfl, hshape, hnames, hroom, -⟩ := ih
    exact ⟨.group e, rfl, hshape, hnames, Nat.succ_le_succ hroom, fun _ => trivial⟩
  | alone _ ih =>
    obtain ⟨e, rfl, hshape, hnames, hroom, -⟩ := ih
    exact ⟨e, rfl, hshape, hnames, hroom, nofun⟩
  | join op _ _ ihl ihr =>
    obtain ⟨left, rfl, hleft, hlnames, hlroom, hoperand⟩ := ihl
    obtain ⟨right, rfl, hright, hrnames, hrroom, -⟩ := ihr
    exact ⟨.binary op left right, rfl, ⟨hoperand rfl, hleft, hright⟩, ⟨hlnames, hrnames⟩,
      Nat.max_le.mpr ⟨hlroom, hrroom⟩, nofun⟩

theorem derives_symbols {e : Expression} {room : Nat} (hshape : e.RightNested)
    (hnames : e.Unreserved) (hroom : e.nesting ≤ room) :
    Derives .expression room e.symbols ∧ (e.IsOperand → Derives .primary room e.symbols) := by
  induction e generalizing room with
  | identifier name =>
    have h : Derives .primary room [.name name] := .name hnames
    exact ⟨.alone h, fun _ => h⟩
  | binary op left right ihl ihr =>
    obtain ⟨hoperand, hleft, hright⟩ := hshape
    obtain ⟨hlroom, hrroom⟩ := Nat.max_le.mp hroom
    have hl := (ihl hleft hnames.1 hlroom).2 hoperand
    have hr := (ihr hright hnames.2 hrroom).1
    exact ⟨.join op hl hr, False.elim⟩
  | group inner ih =>
    obtain ⟨room, rfl⟩ : ∃ n, room = n + 1 :=
      ⟨room - 1, by simp only [Expression.nesting] at hroom; omega⟩
    have h := (ih hshape hnames (Nat.le_of_succ_le_succ hroom)).1
    exact ⟨.alone (.group h), fun _ => .group h⟩

theorem derives_iff {room : Nat} {ss : List Symbol} :
    Derives .expression room ss ↔
      ∃ e : Expression, ss = e.symbols ∧ e.RightNested ∧ e.Unreserved ∧ e.nesting ≤ room := by
  constructor
  · intro h
    obtain ⟨e, hss, hshape, hnames, hroom, -⟩ := exists_of_derives h
    exact ⟨e, hss, hshape, hnames, hroom⟩
  · rintro ⟨e, rfl, hshape, hnames, hroom⟩
    exact (derives_symbols hshape hnames hroom).1

end RightNested

namespace Precedence

inductive Level where
  | disjunction
  | conjunction
  | attachment
  | operand

/-- `disjunction := conjunction | disjunction "OR" conjunction`,
`conjunction := attachment | conjunction "AND" attachment`,
`attachment := operand | operand "WITH" operand`, `operand := name | "(" disjunction ")"`. -/
inductive Derives : Level → Nat → List Symbol → Prop where
  | name {room : Nat} {text : String} :
      Operator.ofWord? text = none → Derives .operand room [.name text]
  | group {room : Nat} {ss : List Symbol} :
      Derives .disjunction room ss → Derives .operand (room + 1) (.leftParen :: (ss ++ [.rightParen]))
  | operand {room : Nat} {ss : List Symbol} : Derives .operand room ss → Derives .attachment room ss
  | exception {room : Nat} {left right : List Symbol} :
      Derives .operand room left → Derives .operand room right →
        Derives .attachment room (left ++ .operator .exception :: right)
  | attachment {room : Nat} {ss : List Symbol} :
      Derives .attachment room ss → Derives .conjunction room ss
  | and {room : Nat} {left right : List Symbol} :
      Derives .conjunction room left → Derives .attachment room right →
        Derives .conjunction room (left ++ .operator .and :: right)
  | conjunction {room : Nat} {ss : List Symbol} :
      Derives .conjunction room ss → Derives .disjunction room ss
  | or {room : Nat} {left right : List Symbol} :
      Derives .disjunction room left → Derives .conjunction room right →
        Derives .disjunction room (left ++ .operator .or :: right)

/-- The trees that a level builds, as far as their root tells. -/
def Level.Admits : Level → Expression → Prop
  | disjunction, _ => True
  | conjunction, e => e.RightOf .or
  | attachment, e => e.RightOf .and
  | operand, e => e.IsOperand

theorem leftOf_and_iff {e : Expression} : e.LeftOf .and ↔ e.RightOf .or := by
  cases e <;> rfl

theorem leftOf_exception_iff {e : Expression} : e.LeftOf .exception ↔ e.IsOperand := by
  cases e <;> rfl

theorem rightOf_exception_iff {e : Expression} : e.RightOf .exception ↔ e.IsOperand := by
  cases e <;> rfl

theorem rightOf_of_isOperand {e : Expression} (h : e.IsOperand) (op : Operator) : e.RightOf op := by
  cases e with
  | identifier name => trivial
  | binary inner left right => exact h.elim
  | group inner => trivial

theorem rightOf_or_of_rightOf_and {e : Expression} (h : e.RightOf .and) : e.RightOf .or := by
  cases e with
  | identifier name => trivial
  | binary inner left right => cases h; exact nofun
  | group inner => trivial

theorem Level.admits_of_isOperand {e : Expression} (h : e.IsOperand) (level : Level) :
    level.Admits e := by
  cases level with
  | disjunction => trivial
  | conjunction => exact rightOf_of_isOperand h .or
  | attachment => exact rightOf_of_isOperand h .and
  | operand => exact h

theorem exists_of_derives {level : Level} {room : Nat} {ss : List Symbol}
    (h : Derives level room ss) :
    ∃ e : Expression, ss = e.symbols ∧ e.ByPrecedence ∧ e.Unreserved ∧ e.nesting ≤ room ∧
      level.Admits e := by
  induction h with
  | @name room text hname =>
    exact ⟨.identifier text, rfl, trivial, hname, Nat.zero_le _, trivial⟩
  | group _ ih =>
    obtain ⟨e, rfl, hshape, hnames, hroom, -⟩ := ih
    exact ⟨.group e, rfl, hshape, hnames, Nat.succ_le_succ hroom, trivial⟩
  | operand _ ih =>
    obtain ⟨e, rfl, hshape, hnames, hroom, hlevel⟩ := ih
    exact ⟨e, rfl, hshape, hnames, hroom, Level.admits_of_isOperand hlevel .attachment⟩
  | attachment _ ih =>
    obtain ⟨e, rfl, hshape, hnames, hroom, hlevel⟩ := ih
    exact ⟨e, rfl, hshape, hnames, hroom, rightOf_or_of_rightOf_and hlevel⟩
  | conjunction _ ih =>
    obtain ⟨e, rfl, hshape, hnames, hroom, -⟩ := ih
    exact ⟨e, rfl, hshape, hnames, hroom, trivial⟩
  | exception _ _ ihl ihr =>
    obtain ⟨left, rfl, hleft, hlnames, hlroom, hlevel⟩ := ihl
    obtain ⟨right, rfl, hright, hrnames, hrroom, hrlevel⟩ := ihr
    exact ⟨.binary .exception left right, rfl,
      ⟨leftOf_exception_iff.mpr hlevel, rightOf_exception_iff.mpr hrlevel, hleft, hright⟩,
      ⟨hlnames, hrnames⟩, Nat.max_le.mpr ⟨hlroom, hrroom⟩, rfl⟩
  | and _ _ ihl ihr =>
    obtain ⟨left, rfl, hleft, hlnames, hlroom, hlevel⟩ := ihl
    obtain ⟨right, rfl, hright, hrnames, hrroom, hrlevel⟩ := ihr
    exact ⟨.binary .and left right, rfl, ⟨leftOf_and_iff.mpr hlevel, hrlevel, hleft, hright⟩,
      ⟨hlnames, hrnames⟩, Nat.max_le.mpr ⟨hlroom, hrroom⟩, nofun⟩
  | or _ _ ihl ihr =>
    obtain ⟨left, rfl, hleft, hlnames, hlroom, -⟩ := ihl
    obtain ⟨right, rfl, hright, hrnames, hrroom, hrlevel⟩ := ihr
    have hany : left.LeftOf .or := by cases left <;> trivial
    exact ⟨.binary .or left right, rfl, ⟨hany, hrlevel, hleft, hright⟩,
      ⟨hlnames, hrnames⟩, Nat.max_le.mpr ⟨hlroom, hrroom⟩, trivial⟩

theorem Derives.of_operand {room : Nat} {ss : List Symbol} (h : Derives .operand room ss)
    (level : Level) : Derives level room ss := by
  cases level with
  | disjunction => exact .conjunction (.attachment (.operand h))
  | conjunction => exact .attachment (.operand h)
  | attachment => exact .operand h
  | operand => exact h

theorem derives_symbols {e : Expression} {room : Nat} (hshape : e.ByPrecedence)
    (hnames : e.Unreserved) (hroom : e.nesting ≤ room) {level : Level} (hlevel : level.Admits e) :
    Derives level room e.symbols := by
  induction e generalizing room level with
  | identifier name => exact Derives.of_operand (.name hnames) level
  | group inner ih =>
    obtain ⟨room, rfl⟩ : ∃ n, room = n + 1 :=
      ⟨room - 1, by simp only [Expression.nesting] at hroom; omega⟩
    have h := @ih room hshape hnames (Nat.le_of_succ_le_succ hroom) .disjunction trivial
    exact Derives.of_operand (.group h) level
  | binary op left right ihl ihr =>
    obtain ⟨hleft, hright, hlshape, hrshape⟩ := hshape
    obtain ⟨hlroom, hrroom⟩ := Nat.max_le.mp hroom
    replace ihl : ∀ level : Level, level.Admits left → Derives level room left.symbols :=
      fun level => @ihl room hlshape hnames.1 hlroom level
    replace ihr : ∀ level : Level, level.Admits right → Derives level room right.symbols :=
      fun level => @ihr room hrshape hnames.2 hrroom level
    cases op with
    | or =>
      have h := Derives.or (ihl .disjunction trivial) (ihr .conjunction hright)
      cases level with
      | disjunction => exact h
      | conjunction => exact absurd rfl hlevel
      | attachment => cases hlevel
      | operand => exact hlevel.elim
    | and =>
      have h := Derives.and (ihl .conjunction (leftOf_and_iff.mp hleft))
        (ihr .attachment hright)
      cases level with
      | disjunction => exact .conjunction h
      | conjunction => exact h
      | attachment => cases hlevel
      | operand => exact hlevel.elim
    | exception =>
      have h := Derives.exception (ihl .operand (leftOf_exception_iff.mp hleft))
        (ihr .operand (rightOf_exception_iff.mp hright))
      cases level with
      | disjunction => exact .conjunction (.attachment h)
      | conjunction => exact .attachment h
      | attachment => exact h
      | operand => exact hlevel.elim

theorem derives_iff {room : Nat} {ss : List Symbol} :
    Derives .disjunction room ss ↔
      ∃ e : Expression, ss = e.symbols ∧ e.ByPrecedence ∧ e.Unreserved ∧ e.nesting ≤ room := by
  constructor
  · intro h
    obtain ⟨e, hss, hshape, hnames, hroom, -⟩ := exists_of_derives h
    exact ⟨e, hss, hshape, hnames, hroom⟩
  · rintro ⟨e, rfl, hshape, hnames, hroom⟩
    exact derives_symbols hshape hnames hroom trivial

end Precedence

end LicenseExpr
