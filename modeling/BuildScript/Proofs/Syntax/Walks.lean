import BuildScript.Proofs.Syntax.LaidTrees
import BuildScript.Proofs.Syntax.Replacing

/-!
# Walks over the nodes of a script

A reading and a rewriting walk agree if they are given the same nodes in the same order. That this
order is the right one has to be said without either of them: a node is known by its place, the
numbers of the children that lead to it from the script, and places are compared like words. Then a
walk is in order, omits nothing and repeats nothing if its nodes are those at all places, each place
once and in ascending order.

A renaming is judged at every place as well. The places stay, and what a node holds itself, apart
from its children, changes only where it is a variable of the name in question.
-/

namespace BuildScript

/-! ## Places -/

/-- What walks are given of a part: methods, statements and expressions. -/
def Part.node? : Part → Option Node
  | method m => some (.method m)
  | stmt s => some (.stmt s)
  | expr e => some (.expr e)
  | script _ | package _ | classImport _ | packageImport _ | parameter _ => none

/-- The nodes directly below a part, in reading order. -/
def Part.nodesBelow (p : Part) : List Node := p.children.filterMap node?

namespace Node

def part : Node → Part
  | method m => .method m
  | stmt s => .stmt s
  | expr e => .expr e

def children (n : Node) : List Node := n.part.nodesBelow

/-- The node at a place of a forest: the number of a tree, and then of a child at each level. -/
def at? : List Node → List Nat → Option Node
  | _, [] => none
  | forest, i :: place =>
    forest[i]?.bind fun n ↦ if place.isEmpty then some n else at? n.children place

/-- The nodes are those at all places of the forest, each place once and in ascending order. -/
def Lists (forest trace : List Node) : Prop :=
  ∃ places : List (List Nat), places.Pairwise (· < ·) ∧
    (∀ place, place ∈ places ↔ (at? forest place).isSome = true) ∧
    places.map (at? forest) = trace.map some

variable {n : Node} {forest below trace : List Node} {place : List Nat}

theorem at?_zero : at? (n :: forest) (0 :: place) =
    if place.isEmpty then some n else at? n.children place := rfl

theorem at?_succ {i : Nat} : at? (n :: forest) ((i + 1) :: place) = at? forest (i :: place) := rfl

theorem ne_nil_of_at? (h : (at? forest place).isSome = true) : place ≠ [] := by
  rintro rfl
  cases h

theorem Lists.nil : Lists [] [] := by
  refine ⟨[], .nil, fun place ↦ ?_, rfl⟩
  cases place <;> simp [at?]

/-- The place in a forest with one more tree in front. -/
def behindFirst : List Nat → List Nat
  | [] => []
  | i :: place => (i + 1) :: place

/-- The places of a forest, made of those below the root of its first tree and those of the
others. -/
def places (below others : List (List Nat)) : List (List Nat) :=
  [0] :: (below.map (0 :: ·) ++ others.map behindFirst)

section Places

variable {below others : List (List Nat)} (hbelow : [] ∉ below) (hothers : [] ∉ others)
include hothers

theorem behindFirst_of_mem (h : place ∈ others) :
    ∃ i rest, place = i :: rest ∧ behindFirst place = (i + 1) :: rest := by
  obtain ⟨i, rest, rfl⟩ := List.exists_cons_of_ne_nil (ne_of_mem_of_not_mem h hothers)
  exact ⟨i, rest, rfl, rfl⟩

theorem mem_places_iff : place ∈ places below others ↔
    match place with
    | [] => False
    | 0 :: rest => rest = [] ∨ rest ∈ below
    | (i + 1) :: rest => i :: rest ∈ others := by
  have hbehind : place ∈ others.map behindFirst ↔ ∃ i rest, i :: rest ∈ others ∧
      place = (i + 1) :: rest := by
    rw [List.mem_map]
    constructor
    · rintro ⟨p, hp, rfl⟩
      obtain ⟨i, rest, rfl, heq⟩ := behindFirst_of_mem hothers hp
      exact ⟨i, rest, hp, heq⟩
    · rintro ⟨i, rest, hp, rfl⟩
      exact ⟨i :: rest, hp, rfl⟩
  rw [places, List.mem_cons, List.mem_append, hbehind, List.mem_map]
  match place with
  | [] => simp
  | 0 :: rest => simp
  | (i + 1) :: rest => simp

include hbelow

theorem pairwise_places (h : below.Pairwise (· < ·)) (h' : others.Pairwise (· < ·)) :
    (places below others).Pairwise (· < ·) := by
  refine List.pairwise_cons.mpr ⟨fun place hplace ↦ ?_, List.pairwise_append.mpr ⟨?_, ?_, ?_⟩⟩
  · rcases List.mem_append.mp hplace with hplace | hplace
    · obtain ⟨rest, hrest, rfl⟩ := List.mem_map.mp hplace
      obtain ⟨i, rest, rfl⟩ := List.exists_cons_of_ne_nil (ne_of_mem_of_not_mem hrest hbelow)
      exact List.cons_lt_cons_iff.mpr (.inr ⟨rfl, List.nil_lt_cons _ _⟩)
    · obtain ⟨place, hmem, rfl⟩ := List.mem_map.mp hplace
      obtain ⟨i, rest, -, heq⟩ := behindFirst_of_mem hothers hmem
      rw [heq]
      exact List.cons_lt_cons_iff.mpr (.inl (Nat.succ_pos i))
  · exact List.pairwise_map.mpr (h.imp fun h ↦ List.cons_lt_cons_iff.mpr (.inr ⟨rfl, h⟩))
  · refine List.pairwise_map.mpr (h'.imp_of_mem fun {p q} hp hq hpq ↦ ?_)
    obtain ⟨i, p, rfl, hp⟩ := behindFirst_of_mem hothers hp
    obtain ⟨j, q, rfl, hq⟩ := behindFirst_of_mem hothers hq
    rw [hp, hq]
    rw [List.cons_lt_cons_iff] at hpq ⊢
    exact hpq.imp Nat.succ_lt_succ fun h ↦ ⟨congrArg _ h.1, h.2⟩
  · intro p hp q hq
    obtain ⟨p, -, rfl⟩ := List.mem_map.mp hp
    obtain ⟨q, hmem, rfl⟩ := List.mem_map.mp hq
    obtain ⟨j, rest, -, heq⟩ := behindFirst_of_mem hothers hmem
    rw [heq]
    exact List.cons_lt_cons_iff.mpr (.inl (Nat.succ_pos j))

end Places

/-- A tree in front of a forest comes first, its root before the nodes below. -/
theorem Lists.cons (hbelow : Lists n.children below) (hforest : Lists forest trace) :
    Lists (n :: forest) (n :: below ++ trace) := by
  obtain ⟨inner, hinner, hmemInner, hnodesInner⟩ := hbelow
  obtain ⟨outer, houter, hmemOuter, hnodesOuter⟩ := hforest
  have hinnerNe : [] ∉ inner := fun h ↦ ne_nil_of_at? ((hmemInner []).mp h) rfl
  have houterNe : [] ∉ outer := fun h ↦ ne_nil_of_at? ((hmemOuter []).mp h) rfl
  -- A place either begins with the number of the first tree, or it is one of the other trees.
  refine ⟨places inner outer, pairwise_places hinnerNe houterNe hinner houter, fun place ↦ ?_, ?_⟩
  · rw [mem_places_iff houterNe]
    match place with
    | [] => simp [at?]
    | 0 :: rest =>
      rw [at?_zero]
      cases rest with
      | nil => simp
      | cons i rest => simpa using hmemInner (i :: rest)
    | (i + 1) :: rest => exact hmemOuter (i :: rest)
  · have hin : inner.map (fun rest ↦ at? (n :: forest) (0 :: rest)) = inner.map (at? n.children) :=
      List.map_congr_left fun rest hrest ↦ by
        rw [at?_zero, if_neg]
        rw [List.isEmpty_iff]
        exact ne_of_mem_of_not_mem hrest hinnerNe
    have hout : outer.map (fun place ↦ at? (n :: forest) (behindFirst place)) =
        outer.map (at? forest) := List.map_congr_left fun place hplace ↦ by
      obtain ⟨i, rest, rfl, heq⟩ := behindFirst_of_mem houterNe hplace
      rw [heq, at?_succ]
    rw [places, List.map_cons, List.map_append, List.map_map, List.map_map, List.cons_append,
      List.map_cons, List.map_append, ← hnodesInner, ← hnodesOuter]
    exact congrArg₂ List.cons rfl (congrArg₂ _ hin hout)

/-- A tree whose nodes are its root and those below it in order. -/
def ListsTree (n : Node) (trace : List Node) : Prop :=
  ∃ below, trace = n :: below ∧ Lists n.children below

theorem ListsTree.cons {nodes : List Node} (h : n.ListsTree nodes) (hforest : Lists forest trace) :
    Lists (n :: forest) (nodes ++ trace) := by
  obtain ⟨below, rfl, hbelow⟩ := h
  exact hbelow.cons hforest

theorem ListsTree.single {nodes : List Node} (h : n.ListsTree nodes) : Lists [n] nodes := by
  have hlists := h.cons .nil
  rwa [List.append_nil] at hlists

end Node

/-! ## Reading -/

open Node

theorem Part.filterMap_node {α : Type} {f : α → Part} {g : α → Node}
    (h : ∀ x, (f x).node? = some (g x)) (xs : List α) : (xs.map f).filterMap node? = xs.map g := by
  rw [List.filterMap_map, ← List.filterMap_eq_map]
  exact List.filterMap_congr fun x _ ↦ h x

theorem Part.filterMap_noNode {α : Type} {f : α → Part} (h : ∀ x, (f x).node? = none)
    (xs : List α) : (xs.map f).filterMap node? = [] := by
  rw [List.filterMap_map]
  exact List.filterMap_eq_nil_iff.mpr fun x _ ↦ h x

theorem Node.children_expr (e : Expr) :
    (Node.expr e).children = (Part.ofExpr e).filterMap Part.node? :=
  congrArg (List.filterMap _) (List.flatten_singleton)

theorem Node.children_stmt (s : Stmt) :
    (Node.stmt s).children = (Part.ofStmt s).filterMap Part.node? :=
  congrArg (List.filterMap _) (List.flatten_singleton)

/-- The parameters of a method are no nodes. -/
theorem Node.children_method (m : Method) : (Node.method m).children = m.body.map .stmt := by
  change ([m.parameters.map Part.parameter ++ m.body.map Part.stmt].flatten).filterMap _ = _
  rw [List.flatten_singleton, List.filterMap_append, Part.filterMap_noNode fun _ ↦ rfl,
    Part.filterMap_node fun _ ↦ rfl, List.nil_append]

mutual

theorem Expr.lists_nodes : ∀ e : Expr, (Node.expr e).ListsTree e.nodes := by
  intro e
  cases e with
  | constant | var | classRef => exact ⟨[], rfl, .nil⟩
  | property object | unary _ object | assign _ object => exact ⟨_, rfl, object.lists_nodes.single⟩
  | call _ elements | list elements =>
    refine ⟨_, rfl, ?_⟩
    rw [Node.children_expr, Part.ofExpr, Part.filterMap_node fun _ ↦ rfl]
    have hlists := Expr.lists_nodesOfAll elements .nil
    rwa [List.append_nil, List.append_nil] at hlists
  | invoke receiver _ arguments =>
    refine ⟨_, rfl, ?_⟩
    have harguments := receiver.lists_nodes.cons (Expr.lists_nodesOfAll arguments .nil)
    rw [List.append_nil, List.append_nil, ← Part.filterMap_node (f := Part.expr) fun _ ↦ rfl]
      at harguments
    rw [Node.children_expr, Part.ofExpr]
    exact harguments
  | binary _ left right => exact ⟨_, rfl, left.lists_nodes.cons right.lists_nodes.single⟩

theorem Expr.lists_nodesOfAll : ∀ (es : List Expr) {forest trace : List Node}, Lists forest trace →
    Lists (es.map Node.expr ++ forest) (Expr.nodesOfAll es ++ trace)
  | [], _, _, h => h
  | e :: es, _, _, h => by
    rw [Expr.nodesOfAll, List.append_assoc]
    exact e.lists_nodes.cons (Expr.lists_nodesOfAll es h)

end

mutual

theorem Stmt.lists_nodes : ∀ s : Stmt, (Node.stmt s).ListsTree s.nodes := by
  intro s
  cases s with
  | expression e => exact ⟨_, rfl, e.lists_nodes.single⟩
  | declare _ value | result value =>
    cases value with
    | none => exact ⟨[], rfl, .nil⟩
    | some e => exact ⟨_, rfl, e.lists_nodes.single⟩
  | ifThen condition body | loop condition body =>
    exact ⟨_, rfl, condition.lists_nodes.cons body.lists_nodes.single⟩
  | ifElse condition body alternative =>
    exact ⟨_, rfl,
      condition.lists_nodes.cons (body.lists_nodes.cons alternative.lists_nodes.single)⟩
  | block body =>
    refine ⟨_, rfl, ?_⟩
    rw [Node.children_stmt, Part.ofStmt, Part.filterMap_node fun _ ↦ rfl]
    have hlists := Stmt.lists_nodesOfAll body .nil
    rwa [List.append_nil, List.append_nil] at hlists

theorem Stmt.lists_nodesOfAll : ∀ (ss : List Stmt) {forest trace : List Node}, Lists forest trace →
    Lists (ss.map Node.stmt ++ forest) (Stmt.nodesOfAll ss ++ trace)
  | [], _, _, h => h
  | s :: ss, _, _, h => by
    rw [Stmt.nodesOfAll, List.append_assoc]
    exact s.lists_nodes.cons (Stmt.lists_nodesOfAll ss h)

end

theorem Method.listsTree (m : Method) :
    (Node.method m).ListsTree (.method m :: Stmt.nodesOfAll m.body) := by
  refine ⟨_, rfl, ?_⟩
  rw [Node.children_method]
  have hlists := Stmt.lists_nodesOfAll m.body .nil
  rwa [List.append_nil, List.append_nil] at hlists

/-- The nodes directly below a script: its statements, and then its methods. -/
def Script.topNodes (script : Script) : List Node := (Part.script script).nodesBelow

theorem Script.topNodes_eq (script : Script) :
    script.topNodes = script.statements.map .stmt ++ script.methods.map .method := by
  simp only [topNodes, Part.nodesBelow, Part.children, Part.groups, List.flatten_cons,
    List.flatten_nil, List.filterMap_append, List.append_nil]
  rw [Part.filterMap_noNode fun _ ↦ rfl, Part.filterMap_noNode fun _ ↦ rfl,
    Part.filterMap_noNode fun _ ↦ rfl, Part.filterMap_node fun _ ↦ rfl,
    Part.filterMap_node fun _ ↦ rfl, List.nil_append, List.nil_append, List.nil_append]

theorem Script.lists_nodes (script : Script) : Lists script.topNodes script.nodes := by
  have hmethods : ∀ ms : List Method,
      Lists (ms.map .method) (ms.flatMap fun m ↦ .method m :: Stmt.nodesOfAll m.body) := by
    intro ms
    induction ms with
    | nil => exact .nil
    | cons m ms ih =>
      rw [List.flatMap_cons]
      exact m.listsTree.cons ih
  rw [topNodes_eq, nodes]
  exact Stmt.lists_nodesOfAll script.statements (hmethods script.methods)

/-! ## Declared names -/

/-- The name that a node declares. -/
def Node.declared? : Node → Option String
  | stmt (.declare name _ _) => some name
  | _ => none

mutual

theorem Expr.declared_nodes : ∀ e : Expr, e.nodes.filterMap Node.declared? = [] := by
  intro e
  cases e with
  | constant | var | classRef => rfl
  | property object | unary _ object | assign _ object => exact object.declared_nodes
  | call _ elements | list elements => exact Expr.declared_nodesOfAll elements
  | invoke receiver _ arguments =>
    refine (List.filterMap_append (l := receiver.nodes)).trans ?_
    rw [receiver.declared_nodes, Expr.declared_nodesOfAll arguments, List.append_nil]
  | binary _ left right =>
    refine (List.filterMap_append (l := left.nodes)).trans ?_
    rw [left.declared_nodes, right.declared_nodes, List.append_nil]

theorem Expr.declared_nodesOfAll : ∀ es : List Expr,
    (Expr.nodesOfAll es).filterMap Node.declared? = []
  | [] => rfl
  | e :: es => by
    rw [Expr.nodesOfAll, List.filterMap_append, e.declared_nodes, Expr.declared_nodesOfAll es,
      List.append_nil]

end

mutual

theorem Stmt.collectDeclared_eq : ∀ (s : Stmt) (names : Array String),
    (s.collectDeclared names).toList = names.toList ++ s.nodes.filterMap Node.declared? := by
  intro s names
  cases s with
  | expression e => simp only [collectDeclared, nodes, Node.declared?, List.filterMap_cons,
      e.declared_nodes, List.append_nil]
  | declare name value =>
    cases value with
    | none => exact Array.toList_push
    | some e =>
      simp only [collectDeclared, nodes, Node.declared?, List.filterMap_cons,
        e.declared_nodes, Array.toList_push]
  | result value =>
    cases value with
    | none => exact (List.append_nil _).symm
    | some e => simp only [collectDeclared, nodes, Node.declared?, List.filterMap_cons,
        e.declared_nodes, List.append_nil]
  | ifThen condition body | loop condition body =>
    simp only [collectDeclared, nodes, Node.declared?, List.filterMap_cons,
      List.filterMap_append, condition.declared_nodes, body.collectDeclared_eq, List.nil_append]
  | ifElse condition body alternative =>
    simp only [collectDeclared, nodes, Node.declared?, List.filterMap_cons,
      List.filterMap_append, condition.declared_nodes, body.collectDeclared_eq,
      alternative.collectDeclared_eq, List.nil_append, List.append_assoc]
  | block body =>
    simp only [collectDeclared, nodes, Node.declared?, List.filterMap_cons,
      Stmt.collectAllDeclared_eq body]

theorem Stmt.collectAllDeclared_eq : ∀ (ss : List Stmt) (names : Array String),
    (Stmt.collectAllDeclared names ss).toList =
      names.toList ++ (Stmt.nodesOfAll ss).filterMap Node.declared?
  | [], names => (List.append_nil _).symm
  | s :: ss, names => by
    rw [Stmt.collectAllDeclared, Stmt.collectAllDeclared_eq ss, s.collectDeclared_eq,
      Stmt.nodesOfAll, List.filterMap_append, List.append_assoc]

end

/-- The names that a body declares are read off its nodes. -/
theorem declaredNames_eq (body : List Stmt) :
    declaredNames body = (Stmt.nodesOfAll body).filterMap Node.declared? :=
  (Stmt.collectAllDeclared_eq body #[]).trans (List.nil_append _)

/-! ## Rewriting that only looks -/

/-- What the state of a rewriter becomes when it is given a node. -/
def Rewriter.see {σ : Type} (r : Rewriter σ) (s : σ) : Node → σ
  | .method m => r.method m s
  | .stmt stmt => r.stmt stmt s
  | .expr e => (r.expr e s).2

/-- The rewriter puts nothing in place of an expression. -/
def Rewriter.OnlyLooks {σ : Type} (r : Rewriter σ) : Prop := ∀ e s, (r.expr e s).1 = none

namespace Rewriter.OnlyLooks

variable {σ : Type} {r : Rewriter σ}

mutual

theorem expr_rewrite (h : r.OnlyLooks) : ∀ (e : Expr) (s : σ),
    e.rewrite r s = (e, e.nodes.foldl r.see s) := by
  intro e s
  have hself : r.expr e s = (none, r.see s (.expr e)) := Prod.ext (h e s) rfl
  rw [Expr.rewrite, hself]
  cases e with
  | constant | var | classRef => rfl
  | property object | unary _ object | assign _ object =>
    simp only [expr_rewrite h object, Expr.nodes, List.foldl_cons]
  | call _ elements | list elements =>
    simp only [expr_rewriteAll h elements, Expr.nodes, List.foldl_cons, List.reverse_nil,
      List.nil_append]
  | invoke receiver _ arguments =>
    simp only [expr_rewrite h receiver, expr_rewriteAll h arguments, Expr.nodes, List.foldl_cons,
      List.foldl_append, List.reverse_nil, List.nil_append]
  | binary _ left right =>
    simp only [expr_rewrite h left, expr_rewrite h right, Expr.nodes, List.foldl_cons,
      List.foldl_append]

theorem expr_rewriteAll (h : r.OnlyLooks) : ∀ (es done : List Expr) (s : σ),
    Expr.rewriteAll r done es s = (done.reverse ++ es, (Expr.nodesOfAll es).foldl r.see s)
  | [], done, s => by
    rw [Expr.rewriteAll, Expr.nodesOfAll, List.append_nil, List.foldl_nil]
  | e :: es, done, s => by
    rw [Expr.rewriteAll, expr_rewrite h e s]
    dsimp only
    rw [expr_rewriteAll h es, Expr.nodesOfAll, List.foldl_append, List.reverse_cons,
      List.append_assoc, List.singleton_append]

end

mutual

theorem stmt_rewrite (h : r.OnlyLooks) : ∀ (stmt : Stmt) (s : σ),
    stmt.rewrite r s = (stmt, stmt.nodes.foldl r.see s) := by
  intro stmt s
  have hself : r.stmt stmt s = r.see s (.stmt stmt) := rfl
  rw [Stmt.rewrite.eq_def, hself]
  cases stmt with
  | expression e => simp only [h.expr_rewrite, Stmt.nodes, List.foldl_cons]
  | declare _ value | result value =>
    cases value with
    | none => rfl
    | some e => simp only [h.expr_rewrite, Stmt.nodes, List.foldl_cons]
  | ifThen condition body | loop condition body =>
    simp only [h.expr_rewrite, stmt_rewrite h body, Stmt.nodes, List.foldl_cons, List.foldl_append]
  | ifElse condition body alternative =>
    simp only [h.expr_rewrite, stmt_rewrite h body, stmt_rewrite h alternative, Stmt.nodes,
      List.foldl_cons, List.foldl_append]
  | block body =>
    simp only [stmt_rewriteAll h body, Stmt.nodes, List.foldl_cons, List.reverse_nil,
      List.nil_append]

theorem stmt_rewriteAll (h : r.OnlyLooks) : ∀ (stmts done : List Stmt) (s : σ),
    Stmt.rewriteAll r done stmts s = (done.reverse ++ stmts, (Stmt.nodesOfAll stmts).foldl r.see s)
  | [], done, s => by
    rw [Stmt.rewriteAll, Stmt.nodesOfAll, List.append_nil, List.foldl_nil]
  | stmt :: stmts, done, s => by
    rw [Stmt.rewriteAll, stmt_rewrite h stmt s]
    dsimp only
    rw [stmt_rewriteAll h stmts, Stmt.nodesOfAll, List.foldl_append, List.reverse_cons,
      List.append_assoc, List.singleton_append]

end

theorem method_rewriteAll (h : r.OnlyLooks) (ms done : List Method) (s : σ) :
    Method.rewriteAll r done ms s = (done.reverse ++ ms,
      (ms.flatMap fun m ↦ .method m :: Stmt.nodesOfAll m.body).foldl r.see s) := by
  induction ms generalizing done s with
  | nil => rw [Method.rewriteAll, List.append_nil, List.flatMap_nil, List.foldl_nil]
  | cons m ms ih =>
    rw [Method.rewriteAll, Method.rewrite, h.stmt_rewriteAll]
    dsimp only
    rw [ih, List.flatMap_cons, List.foldl_append, List.foldl_cons, List.reverse_cons,
      List.append_assoc, List.singleton_append, List.reverse_nil, List.nil_append]
    rfl

/-- A rewriting walk that replaces nothing is given the nodes that a reading walk reports. -/
theorem script_rewrite (h : r.OnlyLooks) (script : Script) (s : σ) :
    script.rewrite r s = (script, script.nodes.foldl r.see s) := by
  rw [Script.rewrite, h.stmt_rewriteAll]
  dsimp only
  rw [h.method_rewriteAll, Script.nodes, List.foldl_append]
  rfl

end Rewriter.OnlyLooks

end BuildScript
