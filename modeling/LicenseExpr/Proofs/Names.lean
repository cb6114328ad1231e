import LicenseExpr.Expression.Symbols

/-!
# Names of expressions

The names of a tree are those of its leaves, left to right. They are the names among its symbols, and
the walk that lists identifiers finds them in that order (`identifiers_eq_names`).
-/

namespace LicenseExpr

def Expression.names : Expression → List String
  | identifier name => [name]
  | binary _ left right => left.names ++ right.names
  | group inner => inner.names

def namesOf (ss : List Symbol) : List String :=
  ss.filterMap fun
    | .name text => some text
    | .operator _ | .leftParen | .rightParen => none

@[simp] theorem namesOf_append (ss ss' : List Symbol) :
    namesOf (ss ++ ss') = namesOf ss ++ namesOf ss' :=
  List.filterMap_append

theorem mem_namesOf {ss : List Symbol} {name : String} :
    name ∈ namesOf ss ↔ Symbol.name name ∈ ss := by
  rw [namesOf, List.mem_filterMap]
  constructor
  · rintro ⟨_ | _ | _ | _, hx, heq⟩ <;> cases heq
    exact hx
  · exact fun h => ⟨_, h, rfl⟩

theorem Expression.namesOf_symbols (e : Expression) : namesOf e.symbols = e.names := by
  induction e with
  | identifier name => rfl
  | binary op left right ihl ihr =>
    rw [symbols, namesOf_append, ihl, names, ← ihr]
    rfl
  | group inner ih =>
    have h : namesOf (.leftParen :: (inner.symbols ++ [.rightParen])) =
        namesOf (inner.symbols ++ [.rightParen]) := rfl
    rw [symbols, h, namesOf_append, ih, names]
    exact List.append_nil _

/-! ## The walk -/

namespace Expression

theorem names_ne_nil (e : Expression) : e.names ≠ [] := by
  induction e with
  | identifier name => exact List.cons_ne_nil name []
  | binary op left right ihl ihr => exact List.append_ne_nil_of_left_ne_nil ihl right.names
  | group inner ih => exact ih

theorem names_eq (e : Expression) : e.names = e.asIdentifier?.toList ++ e.children.flatMap names := by
  cases e <;> simp [names, asIdentifier?, children]

/-- What is found already stands before the names of the pending nodes. -/
theorem collectIdentifiers_eq (found : List String) (pending : List Expression) :
    collectIdentifiers found pending = (pending.flatMap names).reverse ++ found := by
  fun_induction collectIdentifiers found pending with
  | case1 found => rfl
  | case2 found e pending ih =>
    rw [ih, List.flatMap_append, List.flatMap_cons, names_eq e]
    cases e.asIdentifier? <;> simp

theorem identifiers_eq_names (e : Expression) : e.identifiers = e.names := by
  rw [identifiers, collectIdentifiers_eq, List.flatMap_singleton, List.append_nil, List.reverse_reverse]

end Expression

end LicenseExpr
