import LicenseExpr.Proofs.Precedence.Reading
import LicenseExpr.Proofs.RightNested.Repaired
import LicenseExpr.Proofs.Sink
import LicenseExpr.Proofs.Utf8

/-!
# Outlines are read back

An outline has a line for each node, in the order in which the nodes are reached. The line tells the
kind of the node and so how many children it has, which is all it takes to build the trees again: as
long as no name breaks a line, outlines written one behind the other tell lists of trees apart
(`outlines_tell_trees_apart`).
-/

namespace LicenseExpr

namespace Expression

/-- The nodes of a tree, each with its level and before its children, the left child before the right
one. -/
def preorder (level : Nat) (e : Expression) : List (Nat × Expression) :=
  (level, e) ::
    match e with
    | identifier _ => []
    | binary _ left right => left.preorder (level + 1) ++ right.preorder (level + 1)
    | group inner => inner.preorder (level + 1)

theorem preorder_eq (level : Nat) (e : Expression) :
    e.preorder level = (level, e) :: e.children.flatMap (preorder (level + 1)) := by
  cases e <;> simp [preorder, children]

theorem length_preorder (level : Nat) (e : Expression) : (e.preorder level).length = e.nodeCount := by
  induction e generalizing level with
  | identifier name => rfl
  | binary op left right ihl ihr =>
    rw [preorder, List.length_cons, List.length_append, ihl, ihr, nodeCount]
  | group inner ih => rw [preorder, List.length_cons, ih, nodeCount]

def linesAt (level : Nat) (e : Expression) : List (List Char) :=
  (e.preorder level).map fun (level, node) => node.outlineLine level

theorem linesAt_eq (level : Nat) (e : Expression) :
    e.linesAt level = e.outlineLine level :: e.children.flatMap (linesAt (level + 1)) := by
  rw [linesAt, preorder_eq, List.map_cons, List.map_flatMap]
  rfl

/-- Each pending tree is written as a whole before the next one is begun. -/
theorem writeLines_eq (written : List (List Char)) (pending : List (Expression × Nat)) :
    writeLines written pending =
      (pending.flatMap fun p => p.1.linesAt p.2).reverse ++ written := by
  fun_induction writeLines written pending with
  | case1 written => rfl
  | case2 written e level pending ih =>
    rw [ih, List.flatMap_append, List.flatMap_map, List.flatMap_cons, linesAt_eq]
    simp

theorem outlineLines_eq (e : Expression) : e.outlineLines = e.linesAt 0 := by
  rw [outlineLines, writeLines_eq, List.flatMap_singleton, List.append_nil, List.reverse_reverse]

/-! ## Lines tell trees apart -/

/-- What a node is without its children. -/
inductive Root where
  | identifier (name : String)
  | binary (op : Operator)
  | group

def root : Expression → Root
  | identifier name => .identifier name
  | binary op _ _ => .binary op
  | group _ => .group

def Root.mark : Root → Char
  | identifier _ => 'i'
  | binary .and => 'c'
  | binary .or => 'd'
  | binary .exception => 'e'
  | group => 'g'

theorem head?_outlineLabel (e : Expression) : e.outlineLabel.head? = some e.root.mark := by
  cases e with
  | identifier name =>
    have hkind : "identifier".toList.head? = some 'i' := by decide
    change ("identifier".toList ++ ' ' :: name.toList).head? = some 'i'
    rw [List.head?_append, hkind, Option.some_or]
  | binary op left right =>
    cases op with
    | and => exact show "conjunction".toList.head? = some 'c' by decide
    | or => exact show "disjunction".toList.head? = some 'd' by decide
    | exception => exact show "exception".toList.head? = some 'e' by decide
  | group inner => exact show "group".toList.head? = some 'g' by decide

/-- The first letter tells the kinds apart, and behind its kind an identifier has its name. -/
theorem root_eq_of_outlineLabel {e e' : Expression} (h : e.outlineLabel = e'.outlineLabel) :
    e.root = e'.root := by
  have hmark : e.root.mark = e'.root.mark := by
    have hhead := e.head?_outlineLabel
    rw [h, e'.head?_outlineLabel] at hhead
    exact (Option.some.inj hhead).symm
  rcases e with name | ⟨op, _, _⟩ | _ <;> rcases e' with name' | ⟨op', _, _⟩ | _
  · have hname := (List.cons.inj (List.append_cancel_left h)).2
    rw [root, root, String.toList_inj.mp hname]
  · cases op' <;> simp [root, Root.mark] at hmark
  · simp [root, Root.mark] at hmark
  · cases op <;> simp [root, Root.mark] at hmark
  · cases op <;> cases op' <;> simp [root, Root.mark] at hmark ⊢
  · cases op <;> simp [root, Root.mark] at hmark
  · simp [root, Root.mark] at hmark
  · cases op' <;> simp [root, Root.mark] at hmark
  · rfl

section

variable {level : Nat} {e e' : Expression} {rest rest' : List (List Char)}

theorem root_eq_of_linesAt (h : e.linesAt level ++ rest = e'.linesAt level ++ rest') :
    e.root = e'.root ∧
      e.children.flatMap (linesAt (level + 1)) ++ rest =
        e'.children.flatMap (linesAt (level + 1)) ++ rest' := by
  rw [linesAt_eq, linesAt_eq] at h
  obtain ⟨hline, hrest⟩ := List.cons.inj h
  exact ⟨root_eq_of_outlineLabel (List.append_cancel_left hline), hrest⟩

/-- Trees that begin at one level and have the same lines are the same, whatever lines stand behind
them. -/
theorem eq_of_linesAt (h : e.linesAt level ++ rest = e'.linesAt level ++ rest') :
    e = e' ∧ rest = rest' := by
  induction e generalizing level e' rest rest' with
  | identifier name =>
    obtain ⟨hroot, hrest⟩ := root_eq_of_linesAt h
    cases e' <;> cases hroot
    exact ⟨rfl, hrest⟩
  | binary op left right ihl ihr =>
    obtain ⟨hroot, hrest⟩ := root_eq_of_linesAt h
    cases e' <;> cases hroot
    simp only [children, List.flatMap_cons, List.flatMap_nil, List.append_nil,
      List.append_assoc] at hrest
    obtain ⟨rfl, hright⟩ := ihl hrest
    obtain ⟨rfl, htail⟩ := ihr hright
    exact ⟨rfl, htail⟩
  | group inner ih =>
    obtain ⟨hroot, hrest⟩ := root_eq_of_linesAt h
    cases e' <;> cases hroot
    simp only [children, List.flatMap_cons, List.flatMap_nil, List.append_nil] at hrest
    obtain ⟨rfl, htail⟩ := ih hrest
    exact ⟨rfl, htail⟩

end

theorem flatMap_outlineLines_injective :
    Function.Injective fun es : List Expression => es.flatMap outlineLines := by
  intro es es' h
  induction es generalizing es' with
  | nil =>
    cases es' with
    | nil => rfl
    | cons e' es' => simp [outlineLines_eq, linesAt_eq] at h
  | cons e es ih =>
    cases es' with
    | nil => simp [outlineLines_eq, linesAt_eq] at h
    | cons e' es' =>
      simp only [List.flatMap_cons, outlineLines_eq e, outlineLines_eq e'] at h
      obtain ⟨rfl, hrest⟩ := eq_of_linesAt h
      exact congrArg (e :: ·) (ih hrest)

/-! ## Where lines end -/

/-- No name breaks a line. -/
def Unbroken (e : Expression) : Prop := ∀ name ∈ e.identifiers, '\n' ∉ name.toList

instance : DecidablePred Unbroken := fun e =>
  inferInstanceAs (Decidable (∀ name ∈ e.identifiers, '\n' ∉ name.toList))

theorem notMem_outlineLabel {e : Expression} (h : ∀ name ∈ e.asIdentifier?, '\n' ∉ name.toList) :
    '\n' ∉ e.outlineLabel := by
  cases e with
  | identifier name =>
    have hkind : '\n' ∉ "identifier".toList := by decide
    simp only [outlineLabel, kind, List.mem_append, List.mem_cons, not_or]
    exact ⟨hkind, by decide, h name rfl⟩
  | binary op left right =>
    have hkind : '\n' ∉ op.kind.toList := by cases op <;> decide
    exact hkind
  | group inner => exact show '\n' ∉ "group".toList by decide

theorem filterMap_preorder (level : Nat) (e : Expression) :
    (e.preorder level).filterMap (·.2.asIdentifier?) = e.names := by
  induction e generalizing level with
  | identifier name => rfl
  | binary op left right ihl ihr =>
    rw [preorder_eq, List.filterMap_cons_none rfl, children, List.flatMap_cons, List.flatMap_singleton,
      List.filterMap_append, ihl, ihr, names]
  | group inner ih =>
    rw [preorder_eq, List.filterMap_cons_none rfl, children, List.flatMap_singleton, ih, names]

theorem notMem_of_mem_outlineLines {e : Expression} (h : e.Unbroken) :
    ∀ line ∈ e.outlineLines, '\n' ∉ line := by
  intro line hline
  rw [outlineLines_eq] at hline
  obtain ⟨p, hp, rfl⟩ := List.mem_map.mp hline
  have hlabel : '\n' ∉ p.2.outlineLabel := by
    refine notMem_outlineLabel fun name hname => h name ?_
    rw [e.identifiers_eq_names, ← e.filterMap_preorder 0]
    exact List.mem_filterMap.mpr ⟨p, hp, hname⟩
  simp [outlineLine, hlabel]

theorem flatMap_lineFeed_injOn {lines lines' : List (List Char)} (hlines : ∀ line ∈ lines, '\n' ∉ line)
    (hlines' : ∀ line ∈ lines', '\n' ∉ line)
    (h : lines.flatMap (· ++ ['\n']) = lines'.flatMap (· ++ ['\n'])) : lines = lines' := by
  have hsplit (lines : List (List Char)) (hlines : ∀ line ∈ lines, '\n' ∉ line) :
      (lines.flatMap (· ++ ['\n'])).splitOn '\n' = lines ++ [[]] := by
    induction lines with
    | nil => rfl
    | cons line lines ih =>
      obtain ⟨hline, hlines⟩ := List.forall_mem_cons.mp hlines
      rw [List.flatMap_cons, List.append_assoc, List.singleton_append,
        List.splitOn_append_cons_self_of_not_mem hline, ih hlines, List.cons_append]
  exact List.append_cancel_right ((hsplit lines hlines).symm.trans (h ▸ hsplit lines' hlines'))

/-! ## Texts -/

/-- What is written for a tree in the outline format. -/
def writtenOutline (e : Expression) : List UInt8 :=
  (Sink.unbounded.writeExpression .tree e).1.taken.toList

theorem render_tree (e : Expression) :
    Format.tree.render e = .ofList (e.outlineLines.flatMap (· ++ ['\n'])) := by
  rw [Format.render, ← String.toList_inj, String.toList_join, String.toList_ofList]
  simp [Format.chunks, List.flatMap_map]

theorem writtenOutline_eq (e : Expression) :
    e.writtenOutline = Text.bytes (.ofList (e.outlineLines.flatMap (· ++ ['\n']))) := by
  have hformat : Format.tree ≠ .json := nofun
  rw [writtenOutline, Sink.writeExpression_eq_writeChunks_render hformat,
    Sink.writeChunks_of_fits (Sink.fits_unbounded _), render_tree]
  simp [Sink.unbounded, Chunk.bytes]

theorem flatMap_writtenOutline (es : List Expression) :
    es.flatMap writtenOutline =
      Text.bytes (.ofList ((es.flatMap outlineLines).flatMap (· ++ ['\n']))) := by
  induction es with
  | nil => rfl
  | cons e es ih =>
    rw [List.flatMap_cons, ih, writtenOutline_eq, List.flatMap_cons, List.flatMap_append,
      String.ofList_append, Text.bytes_append]

end Expression

theorem mem_symbols_of_read {reader : Reader} {text : String} {e : Expression}
    (h : (reader.read text).result = .ok e) : ∀ name ∈ e.names, Symbol.name name ∈ symbols text := by
  intro name hname
  have hsymbol : Symbol.name name ∈ e.symbols := by
    rwa [← mem_namesOf, e.namesOf_symbols]
  obtain ⟨dialect, limit⟩ := reader
  cases dialect with
  | lenient =>
    have hread := RightNested.bind_requireExpression_eq_ok_iff.mp h
    exact mem_namesOf.mp ((RightNested.fits_of_read_lenient hread).2.mem hname)
  | strict =>
    rw [(RightNested.result_strict_eq_ok_iff.mp h).1]
    exact hsymbol
  | spdx =>
    rw [(Precedence.read_eq_ok_iff.mp h).1]
    exact hsymbol

/-- A name that is read from a text is one word. -/
theorem unbroken_of_read {reader : Reader} {text : String} {e : Expression}
    (h : (reader.read text).result = .ok e) : e.Unbroken := by
  intro name hname
  rw [e.identifiers_eq_names] at hname
  obtain ⟨hwritten, -⟩ := isLegible_of_mem_symbols (mem_symbols_of_read h name hname)
  intro hfeed
  generalize name.toList = cs at hwritten hfeed
  cases hwritten with
  | word hne hword => exact absurd (hword _ hfeed) (by decide)

namespace Expression

/-- Lists of trees without line feeds in their names have the same outlines only if they are the same,
and trees that are read from texts are of that kind. An outline has one line for each node, as
`preorder` reaches them, with two spaces for each level. -/
theorem outlines_tell_trees_apart :
    (∀ es es' : List Expression, (∀ e ∈ es, e.Unbroken) → (∀ e ∈ es', e.Unbroken) →
      es.flatMap writtenOutline = es'.flatMap writtenOutline → es = es') ∧
    (∀ (reader : Reader) text e, (reader.read text).result = .ok e → e.Unbroken) ∧
    ∀ e : Expression,
      e.writtenOutline = Text.bytes (.ofList (e.outlineLines.flatMap (· ++ ['\n']))) ∧
      (e.Unbroken → ∀ line ∈ e.outlineLines, '\n' ∉ line) ∧
      e.outlineLines =
        (e.preorder 0).map (fun (level, node) => List.replicate (2 * level) ' ' ++ node.outlineLabel) ∧
      (e.preorder 0).length = e.nodeCount := by
  refine ⟨fun es es' hes hes' h => ?_, fun reader text e h => unbroken_of_read h, fun e => ?_⟩
  · rw [flatMap_writtenOutline, flatMap_writtenOutline] at h
    have hlines {es : List Expression} (hes : ∀ e ∈ es, e.Unbroken) :
        ∀ line ∈ es.flatMap outlineLines, '\n' ∉ line := by
      intro line hline
      obtain ⟨e, he, hmem⟩ := List.mem_flatMap.mp hline
      exact notMem_of_mem_outlineLines (hes e he) line hmem
    have hchars := String.ofList_injective (Text.bytes_injective h)
    exact flatMap_outlineLines_injective (flatMap_lineFeed_injOn (hlines hes) (hlines hes') hchars)
  · exact ⟨e.writtenOutline_eq, notMem_of_mem_outlineLines, e.outlineLines_eq, e.length_preorder 0⟩

/-- Names that look like kinds or like an indentation do not make two outlines the same, and a text
gives a tree without line feeds in its names. -/
theorem outlines_of_misleading_names :
    let one := [binary .or (identifier "group") (identifier "  group")]
    let other := [binary .or (identifier "group") (group (identifier "")), identifier " "]
    (∀ e ∈ one, e.Unbroken) ∧ (∀ e ∈ other, e.Unbroken) ∧
      one.flatMap writtenOutline ≠ other.flatMap writtenOutline ∧
      (Reader.read ⟨.strict, 1⟩ "A OR\n(B)").result =
        .ok (binary .or (identifier "A") (group (identifier "B"))) ∧
      (binary .or (identifier "A") (group (identifier "B"))).Unbroken ∧
      ∀ line ∈ (binary .or (identifier "A") (group (identifier "B"))).outlineLines, '\n' ∉ line := by
  intro one other
  have hone : ∀ e ∈ one, e.Unbroken := by decide +kernel
  have hother : ∀ e ∈ other, e.Unbroken := by decide +kernel
  have hread : (Reader.read ⟨.strict, 1⟩ "A OR\n(B)").result =
      .ok (binary .or (identifier "A") (group (identifier "B"))) := by decide +kernel
  obtain ⟨happart, hunbroken, hlines⟩ := outlines_tell_trees_apart
  have htree := hunbroken _ _ _ hread
  refine ⟨hone, hother, fun h => ?_, hread, htree, (hlines _).2.1 htree⟩
  exact absurd (happart one other hone hother h) (by decide)

end Expression

end LicenseExpr
