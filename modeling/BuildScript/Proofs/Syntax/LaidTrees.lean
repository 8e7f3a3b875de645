import BuildScript.Proofs.Syntax.Tiling
import BuildScript.Syntax.Tree

/-!
# Trees that are laid out in a text

Every node of a script has a span. A tree is laid out in a text if its spans are stretches of the
text, one for each node, and if they nest as the nodes do: children stand inside their parent, one
after another.

## Design

`Part` is one type for the nodes of all kinds, and `Part.groups` lists the children of a node. A
script has its children in five lists, each in source order, which the text may interleave; every
other node has one list. `Laid` asks the same of each node, whatever its kind, so that what is to be
shown of a node that was read is only a `Row` of children between the ends of its span.
-/

namespace BuildScript

/-! ## Spans of a text -/

/-- The span is that of a stretch of the text: it begins and ends between characters, and has 32 bits
of the line and of the column of its start. -/
def Span.Marks (s : Span) (text : List Char) : Prop :=
  ∃ front slice rest, text = front ++ (slice ++ rest) ∧ s = .ofStretch front slice

theorem prefix_of_byteLength_le {front front' text : List Char} (h : front <+: text)
    (h' : front' <+: text) (hle : byteLength front ≤ byteLength front') : front <+: front' := by
  rcases List.prefix_or_prefix_of_prefix h h' with hfront | ⟨more, rfl⟩
  · exact hfront
  · have hmore : more = [] := by
      by_contra hne
      have hpos := byteLength_pos hne
      rw [byteLength_append] at hle
      omega
    simp only [hmore, List.append_nil, List.prefix_rfl]

namespace Span

variable {s t : Span} {text : List Char}

theorem merge_of_le (hstart : s.start ≤ t.start) (hstop : s.stop ≤ t.stop) :
    s.merge t = { s with stop := t.stop } := by
  rw [merge, if_pos hstart, Nat.min_eq_left hstart, Nat.max_eq_right hstop]

namespace Marks

theorem start_le_stop (h : s.Marks text) : s.start ≤ s.stop := by
  obtain ⟨front, slice, rest, -, rfl⟩ := h
  rw [ofStretch, byteLength_append]
  exact Nat.le_add_right _ _

theorem stop_le (h : s.Marks text) : s.stop ≤ byteLength text := by
  obtain ⟨front, slice, rest, rfl, rfl⟩ := h
  rw [ofStretch, ← List.append_assoc, byteLength_append (front ++ slice)]
  exact Nat.le_add_right _ _

theorem exact (h : s.Marks text) (hshort : text.length + 1 < 2 ^ 32) : s.Exact text := by
  obtain ⟨front, slice, rest, htext, rfl⟩ := h
  exact exact_ofStretch slice ⟨_, htext.symm⟩ hshort

/-- Of two spans of a text, the one that begins later is not in an earlier line, if 32 bits are
enough for the lines of the text. -/
theorem line_le (hs : s.Marks text) (ht : t.Marks text) (h : s.start ≤ t.start)
    (hlines : 1 + text.count '\n' < 2 ^ 32) : s.line ≤ t.line := by
  obtain ⟨front, slice, rest, htext, rfl⟩ := hs
  obtain ⟨front', slice', rest', htext', rfl⟩ := ht
  have hprefix : front' <+: text := ⟨_, htext'.symm⟩
  have hfront : front <+: front' := prefix_of_byteLength_le ⟨_, htext.symm⟩ hprefix h
  have hle : front.count '\n' ≤ front'.count '\n' := hfront.sublist.count_le '\n'
  have hle' : front'.count '\n' ≤ text.count '\n' := hprefix.sublist.count_le '\n'
  rw [UInt32.le_iff_toNat_le, toNat_line_ofStretch slice (by omega),
    toNat_line_ofStretch slice' (by omega)]
  exact Nat.add_le_add_left hle 1

theorem merge (hs : s.Marks text) (ht : t.Marks text) (hstart : s.start ≤ t.start)
    (hstop : s.stop ≤ t.stop) : (s.merge t).Marks text := by
  rw [merge_of_le hstart hstop]
  have hle : s.start ≤ t.stop := Nat.le_trans hs.start_le_stop hstop
  obtain ⟨front, slice, rest, htext, rfl⟩ := hs
  obtain ⟨front', slice', rest', htext', rfl⟩ := ht
  rw [← List.append_assoc] at htext'
  obtain ⟨more, hmore⟩ := prefix_of_byteLength_le ⟨_, htext.symm⟩ ⟨_, htext'.symm⟩ hle
  refine ⟨front, more, rest', ?_, ?_⟩
  · rw [htext', ← hmore, List.append_assoc]
  · rw [ofStretch, ofStretch, ofStretch, hmore]

end Marks

end Span

/-! ## Parts of a script -/

/-- A node of a script, of any kind that has a place in the text. -/
inductive Part where
  | script (script : Script)
  | package (name : Named)
  | classImport (i : Import)
  | packageImport (i : StarImport)
  | method (m : Method)
  | parameter (name : Named)
  | stmt (s : Stmt)
  | expr (e : Expr)

namespace Part

def span : Part → Span
  | script s => s.span
  | package name => name.span
  | classImport i => i.span
  | packageImport i => i.span
  | method m => m.span
  | parameter name => name.span
  | stmt s => s.span
  | expr e => e.span

/-- The children of an expression in source order. -/
def ofExpr : Expr → List Part
  | .constant _ _ | .var _ _ | .classRef _ _ => []
  | .property object _ _ => [expr object]
  | .call _ arguments _ => arguments.map expr
  | .invoke receiver _ arguments _ => expr receiver :: arguments.map expr
  | .binary _ left right _ => [expr left, expr right]
  | .unary _ operand _ => [expr operand]
  | .assign _ value _ => [expr value]
  | .list elements _ => elements.map expr

/-- The children of a statement in source order. -/
def ofStmt : Stmt → List Part
  | .expression e => [expr e]
  | .declare _ value _ | .result value _ => value.toList.map expr
  | .ifThen condition body _ | .loop condition body _ => [expr condition, stmt body]
  | .ifElse condition body alternative _ => [expr condition, stmt body, stmt alternative]
  | .block body _ => body.map stmt

/-- The lists in which the children of a node are kept, each of them in source order. -/
def groups : Part → List (List Part)
  | script s => [s.package.toList.map package, s.imports.map classImport,
      s.starImports.map packageImport, s.statements.map stmt, s.methods.map method]
  | package _ | classImport _ | packageImport _ | parameter _ => [[]]
  | method m => [m.parameters.map parameter ++ m.body.map stmt]
  | stmt s => [ofStmt s]
  | expr e => [ofExpr e]

def children (p : Part) : List Part := p.groups.flatten

/-- The nodes of a tree: its root, and those below the children of the root. -/
inductive Has : Part → Part → Prop
  | root {p : Part} : p.Has p
  | under {p c q : Part} (hc : c ∈ p.children) (h : c.Has q) : p.Has q

/-- One node ends before the other begins, or where it begins. -/
def Before (p q : Part) : Prop := p.span.stop ≤ q.span.start

/-- No character of the text belongs to both nodes. -/
def Apart (p q : Part) : Prop := p.Before q ∨ q.Before p

theorem Apart.symm {p q : Part} (h : p.Apart q) : q.Apart p := Or.symm h

end Part

/-! ## Layout -/

/-- All spans of the tree are spans of the text. Children are not empty and stand inside their
parent; any two of them are apart, and those of one list stand in its order. -/
inductive Laid (text : List Char) : Part → Prop
  | node {p : Part} (marks : p.span.Marks text)
    (inside : ∀ c ∈ p.children,
      p.span.start ≤ c.span.start ∧ c.span.start < c.span.stop ∧ c.span.stop ≤ p.span.stop)
    (apart : p.children.Pairwise Part.Apart)
    (ordered : ∀ group ∈ p.groups, group.Pairwise Part.Before)
    (below : ∀ c ∈ p.children, Laid text c) : Laid text p

theorem Laid.of_has {text : List Char} {p q : Part} (h : Laid text p) (hq : p.Has q) :
    Laid text q := by
  induction hq with
  | root => exact h
  | under hc _ ih =>
    obtain ⟨-, -, -, -, hbelow⟩ := h
    exact ih (hbelow _ hc)

/-- Nodes one after another between two offsets of a text, none of them empty. -/
inductive Row (text : List Char) : Nat → Nat → List Part → Prop
  | nil {lo hi : Nat} (h : lo ≤ hi) : Row text lo hi []
  | cons {lo hi : Nat} {p : Part} {ps : List Part} (hlo : lo ≤ p.span.start)
    (hp : p.span.start < p.span.stop) (laid : Laid text p) (more : Row text p.span.stop hi ps) :
    Row text lo hi (p :: ps)

namespace Row

variable {text : List Char} {lo lo' mid hi hi' : Nat} {p : Part} {ps qs : List Part}

theorem le (h : Row text lo hi ps) : lo ≤ hi := by
  induction h with
  | nil h => exact h
  | cons hlo hp _ _ ih => omega

theorem mono (h : Row text lo hi ps) (hlo : lo' ≤ lo) (hhi : hi ≤ hi') : Row text lo' hi' ps := by
  induction h generalizing lo' with
  | nil h => exact .nil (by omega)
  | cons hlo' hp laid _ ih => exact .cons (by omega) hp laid (ih (Nat.le_refl _) hhi)

theorem append (h : Row text lo mid ps) (h' : Row text mid hi qs) : Row text lo hi (ps ++ qs) := by
  induction h with
  | nil hle => exact h'.mono hle (Nat.le_refl _)
  | cons hlo hp laid _ ih => exact .cons hlo hp laid (ih h')

theorem single (hlo : lo ≤ p.span.start) (hp : p.span.start < p.span.stop) (hhi : p.span.stop ≤ hi)
    (laid : Laid text p) : Row text lo hi [p] := .cons hlo hp laid (.nil hhi)

theorem inside (h : Row text lo hi ps) :
    ∀ p ∈ ps, lo ≤ p.span.start ∧ p.span.start < p.span.stop ∧ p.span.stop ≤ hi := by
  induction h with
  | nil => exact List.forall_mem_nil _
  | cons hlo hp _ more ih =>
    refine List.forall_mem_cons.mpr ⟨⟨hlo, hp, more.le⟩, fun q hq ↦ ?_⟩
    have hq := ih q hq
    omega

theorem laid (h : Row text lo hi ps) : ∀ p ∈ ps, Laid text p := by
  induction h with
  | nil => exact List.forall_mem_nil _
  | cons _ _ laid _ ih => exact List.forall_mem_cons.mpr ⟨laid, ih⟩

theorem ordered (h : Row text lo hi ps) : ps.Pairwise Part.Before := by
  induction h with
  | nil => exact .nil
  | cons _ _ _ more ih => exact .cons (fun q hq ↦ (more.inside q hq).1) ih

/-- A node with one list of children is laid out if they make a row between its ends. -/
theorem laid_of_groups (h : Row text p.span.start p.span.stop ps) (hgroups : p.groups = [ps])
    (hmarks : p.span.Marks text) : Laid text p := by
  have hchildren : p.children = ps := by rw [Part.children, hgroups, List.flatten_singleton]
  refine .node hmarks ?_ ?_ ?_ ?_
  · rw [hchildren]
    exact h.inside
  · rw [hchildren]
    exact h.ordered.imp .inl
  · rw [hgroups]
    exact List.forall_mem_singleton.mpr h.ordered
  · rw [hchildren]
    exact h.laid

end Row

end BuildScript
