import LicenseExpr.Proofs.Names

/-!
# Heights of expressions

The height of a tree is the number of nodes on its longest path from the root. The walk that measures
depth carries a level with each pending node and takes the last child of a node first, the walk that
lists identifiers takes the first child first. Whatever nodes are pending, the deepest level is that
of the tree that reaches furthest down (`deepestLevel_le_iff`), so the order of the visits plays no
part there; for the identifiers it is the order of the list.
-/

namespace LicenseExpr.Expression

/-- One for a leaf, and one more than the tallest child for any other node. -/
def height : Expression → Nat
  | identifier _ => 1
  | binary _ left right => max left.height right.height + 1
  | group inner => inner.height + 1

theorem height_add_le_iff (e : Expression) (level n : Nat) :
    e.height + level ≤ n + 1 ↔ level ≤ n ∧ ∀ child ∈ e.children, child.height + (level + 1) ≤ n + 1 := by
  cases e with
  | identifier name =>
    simp only [height, children, List.not_mem_nil, false_implies, implies_true, and_true]
    omega
  | binary op left right =>
    simp only [height, children, List.forall_mem_cons, List.not_mem_nil, false_implies, implies_true,
      and_true]
    omega
  | group inner =>
    simp only [height, children, List.forall_mem_cons, List.not_mem_nil, false_implies, implies_true,
      and_true]
    omega

/-- The walk meets no level deeper than `n` if it met none so far and no pending tree reaches one. -/
theorem deepestLevel_le_iff (deepest : Nat) (pending : List (Expression × Nat)) (n : Nat) :
    deepestLevel deepest pending ≤ n ↔
      deepest ≤ n ∧ ∀ p ∈ pending, p.1.height + p.2 ≤ n + 1 := by
  fun_induction deepestLevel deepest pending with
  | case1 deepest => simp
  | case2 deepest e level pending ih =>
    have hchildren : (∀ p ∈ e.children.reverse.map (·, level + 1), p.1.height + p.2 ≤ n + 1) ↔
        ∀ child ∈ e.children, child.height + (level + 1) ≤ n + 1 := by
      simp
    rw [ih, List.forall_mem_append, List.forall_mem_cons, hchildren, height_add_le_iff, Nat.max_le,
      and_assoc, and_assoc]

theorem depth_eq_height (e : Expression) : e.depth = e.height := by
  have hle (n : Nat) : e.depth ≤ n ↔ e.height ≤ n := by
    rw [depth, deepestLevel_le_iff, List.forall_mem_singleton]
    simp
  exact Nat.le_antisymm ((hle _).mpr (Nat.le_refl _)) ((hle _).mp (Nat.le_refl _))

/-- Two walks over a list of pending nodes come to what recursion over the tree comes to: one lists
the identifiers from left to right, the other measures the height. -/
theorem walks_agree_with_recursion (e : Expression) :
    e.identifiers = e.names ∧ e.depth = e.height :=
  ⟨e.identifiers_eq_names, e.depth_eq_height⟩

end LicenseExpr.Expression
