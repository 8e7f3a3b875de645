import BuildScript.Proofs.Syntax.Walks

/-!
# Renaming variables

A renaming follows a rule for single expressions, `renameRule`, which replaces variables by
variables. So the tree keeps its shape: the node at a place becomes the node at the same place, and
what it holds itself, its children left out, is what `Node.renamed` says. With what is known of the
order of walks this settles what reading and rewriting visitors do.
-/

namespace BuildScript

open Node

/-! ## Replacing in nodes -/

section Replacing

variable {f : Expr → Option Expr}

theorem Expr.replaceAll_eq_map (es : List Expr) : Expr.replaceAll f es = es.map (·.replace f) := by
  induction es with
  | nil => rfl
  | cons e es ih => rw [Expr.replaceAll, ih, List.map_cons]

theorem Stmt.replaceAll_eq_map (ss : List Stmt) : Stmt.replaceAll f ss = ss.map (·.replace f) := by
  induction ss with
  | nil => rfl
  | cons s ss ih => rw [Stmt.replaceAll, ih, List.map_cons]

/-- The method with the rule applied to the expressions of its body. -/
def Method.replace (f : Expr → Option Expr) (m : Method) : Method :=
  { m with body := Stmt.replaceAll f m.body }

/-- The script with the rule applied to its expressions. -/
def Script.replace (f : Expr → Option Expr) (script : Script) : Script :=
  { script with
    statements := Stmt.replaceAll f script.statements
    methods := script.methods.map (·.replace f) }

def Node.replace (f : Expr → Option Expr) : Node → Node
  | method m => method (m.replace f)
  | stmt s => stmt (s.replace f)
  | expr e => expr (e.replace f)

mutual

theorem Expr.replace_eq_self (h : ∀ e e', f e = some e' → e' = e) :
    ∀ e : Expr, e.replace f = e := by
  intro e
  rw [Expr.replace.eq_def]
  cases hf : f e with
  | some e' => exact h e e' hf
  | none =>
    cases e with
    | constant | var | classRef => rfl
    | property object | unary _ object | assign _ object => simp only [object.replace_eq_self h]
    | call _ elements | list elements => simp only [Expr.replaceAll_eq_self h elements]
    | invoke receiver _ arguments =>
      simp only [receiver.replace_eq_self h, Expr.replaceAll_eq_self h arguments]
    | binary _ left right => simp only [left.replace_eq_self h, right.replace_eq_self h]

theorem Expr.replaceAll_eq_self (h : ∀ e e', f e = some e' → e' = e) :
    ∀ es : List Expr, Expr.replaceAll f es = es
  | [] => rfl
  | e :: es => by rw [Expr.replaceAll, e.replace_eq_self h, Expr.replaceAll_eq_self h es]

end

mutual

theorem Stmt.replace_eq_self (h : ∀ e e', f e = some e' → e' = e) :
    ∀ s : Stmt, s.replace f = s := by
  intro s
  cases s with
  | expression e => rw [Stmt.replace, e.replace_eq_self h]
  | declare _ value | result value =>
    cases value with
    | none => rfl
    | some e => rw [Stmt.replace, Option.map_some, e.replace_eq_self h]
  | ifThen condition body | loop condition body =>
    rw [Stmt.replace, condition.replace_eq_self h, body.replace_eq_self h]
  | ifElse condition body alternative =>
    rw [Stmt.replace, condition.replace_eq_self h, body.replace_eq_self h,
      alternative.replace_eq_self h]
  | block body => rw [Stmt.replace, Stmt.replaceAll_eq_self h body]

theorem Stmt.replaceAll_eq_self (h : ∀ e e', f e = some e' → e' = e) :
    ∀ ss : List Stmt, Stmt.replaceAll f ss = ss
  | [] => rfl
  | s :: ss => by rw [Stmt.replaceAll, s.replace_eq_self h, Stmt.replaceAll_eq_self h ss]

end

theorem Script.replace_eq_self (h : ∀ e e', f e = some e' → e' = e) (script : Script) :
    script.replace f = script := by
  have hmethods : script.methods.map (·.replace f) = script.methods := by
    refine (List.map_congr_left fun m _ ↦ ?_).trans (List.map_id _)
    rw [Method.replace, Stmt.replaceAll_eq_self h]
    rfl
  rw [replace, hmethods, Stmt.replaceAll_eq_self h]

theorem Script.topNodes_replace (script : Script) :
    (script.replace f).topNodes = script.topNodes.map (·.replace f) := by
  rw [topNodes_eq, topNodes_eq, List.map_append, List.map_map, List.map_map, replace,
    Stmt.replaceAll_eq_map, List.map_map, List.map_map]
  rfl

end Replacing

/-! ## The rule of a renaming -/

/-- What is put in the place of an expression if the variable `source` is renamed to `target`. -/
def renameRule (source target : String) : Expr → Option Expr
  | .var name span => if name = source then some (.var target span) else none
  | _ => none

section Rule

variable (source target : String)

theorem follows_rename :
    (Rewriter.rename source target).Follows (fun _ ↦ True) (renameRule source target)
      fun s _ ↦ s where
  stmt _ _ := rfl
  expr e s _ := by cases e <;> rfl
  keeps _ _ _ := trivial

theorem Method.rewriteAll_rename (ms done : List Method) :
    Method.rewriteAll (.rename source target) done ms () =
      (done.reverse ++ ms.map (·.replace (renameRule source target)), ()) := by
  induction ms generalizing done with
  | nil => rw [Method.rewriteAll, List.map_nil, List.append_nil]
  | cons m ms ih =>
    rw [Method.rewriteAll, Method.rewrite,
      (follows_rename source target).stmt_rewriteAll m.body [] _ trivial]
    refine (ih _).trans ?_
    rw [List.reverse_cons, List.append_assoc, List.singleton_append, List.map_cons]
    rfl

theorem Script.rewrite_rename (script : Script) :
    script.rewrite (.rename source target) () =
      (script.replace (renameRule source target), ()) := by
  rw [Script.rewrite, (follows_rename source target).stmt_rewriteAll script.statements [] _ trivial]
  dsimp only
  rw [Method.rewriteAll_rename]
  rfl

theorem eq_of_renameRule_self {name : String} {e e' : Expr} (h : renameRule name name e = some e') :
    e' = e := by
  cases e with
  | var other span =>
    rw [renameRule] at h
    split at h
    next heq =>
      cases h
      rw [heq]
    next => cases h
  | _ => cases h

end Rule

/-! ## What nodes hold themselves -/

/-- The expression without those below it. -/
def Expr.bare : Expr → Expr
  | e@(.constant _ _) | e@(.var _ _) | e@(.classRef _ _) => e
  | .property _ name span => .property default name span
  | .call name _ span => .call name [] span
  | .invoke _ name _ span => .invoke default name [] span
  | .binary op _ _ span => .binary op default default span
  | .unary op _ span => .unary op default span
  | .assign target _ span => .assign target default span
  | .list _ span => .list [] span

/-- The statement without the statements and expressions below it. -/
def Stmt.bare : Stmt → Stmt
  | .expression _ => .expression default
  | .declare name _ span => .declare name none span
  | .ifThen _ _ span => .ifThen default default span
  | .ifElse _ _ _ span => .ifElse default default default span
  | .loop _ _ span => .loop default default span
  | .result _ span => .result none span
  | .block _ span => .block [] span

/-- What a node holds itself, whatever its children are. -/
def Node.bare : Node → Node
  | method m => method { m with body := [] }
  | stmt s => stmt s.bare
  | expr e => expr e.bare

/-- The node with the variable `source` renamed to `target`, if it is that variable. -/
def Node.renamed (source target : String) : Node → Node
  | expr (.var name span) => expr (.var (if name = source then target else name) span)
  | n => n

section Renaming

variable (source target : String)

theorem replace_var (name : String) (span : Span) :
    (Expr.var name span).replace (renameRule source target) =
      .var (if name = source then target else name) span := by
  rw [Expr.replace, renameRule]
  by_cases h : name = source
  · rw [if_pos h, if_pos h]
  · rw [if_neg h, if_neg h]

theorem bare_replace (n : Node) :
    (n.replace (renameRule source target)).bare = (n.renamed source target).bare := by
  cases n with
  | method m => rfl
  | stmt s => cases s <;> rfl
  | expr e =>
    cases e with
    | var name span => rw [Node.replace, replace_var, Node.renamed]
    | _ => rfl

/-- Variables are replaced by variables, so no node gets other children than it had. -/
theorem children_replace (n : Node) : (n.replace (renameRule source target)).children =
    n.children.map (·.replace (renameRule source target)) := by
  have hexprs (es : List Expr) :
      ((Expr.replaceAll (renameRule source target) es).map Part.expr).filterMap Part.node? =
        ((es.map Part.expr).filterMap Part.node?).map (·.replace (renameRule source target)) := by
    rw [Expr.replaceAll_eq_map, Part.filterMap_node fun _ ↦ rfl, Part.filterMap_node fun _ ↦ rfl,
      List.map_map, List.map_map]
    rfl
  cases n with
  | method m =>
    rw [Node.replace, children_method, children_method, Method.replace, Stmt.replaceAll_eq_map,
      List.map_map, List.map_map]
    rfl
  | stmt s =>
    cases s with
    | block body span =>
      rw [Node.replace, Stmt.replace, children_stmt, children_stmt, Part.ofStmt, Part.ofStmt,
        Stmt.replaceAll_eq_map, Part.filterMap_node fun _ ↦ rfl, Part.filterMap_node fun _ ↦ rfl,
        List.map_map, List.map_map]
      rfl
    | declare _ value | result value => cases value <;> rfl
    | _ => rfl
  | expr e =>
    cases e with
    | var name span =>
      rw [Node.replace, replace_var]
      rfl
    | call name arguments span =>
      change (Node.expr (.call name (Expr.replaceAll _ arguments) span)).children = _
      rw [children_expr, children_expr]
      exact hexprs arguments
    | list elements span =>
      change (Node.expr (.list (Expr.replaceAll _ elements) span)).children = _
      rw [children_expr, children_expr]
      exact hexprs elements
    | invoke receiver name arguments span =>
      change (Node.expr (.invoke (receiver.replace _) name (Expr.replaceAll _ arguments)
        span)).children = _
      rw [children_expr, children_expr]
      exact congrArg (_ :: ·) (hexprs arguments)
    | _ => rfl

theorem at?_replace (forest : List Node) (place : List Nat) :
    at? (forest.map (·.replace (renameRule source target))) place =
      (at? forest place).map (·.replace (renameRule source target)) := by
  induction place generalizing forest with
  | nil => rfl
  | cons i place ih =>
    rw [at?, at?, List.getElem?_map]
    cases forest[i]? with
    | none => rfl
    | some n =>
      rw [Option.map_some, Option.bind_some, Option.bind_some]
      by_cases h : place.isEmpty = true
      · rw [if_pos h, if_pos h, Option.map_some]
      · rw [if_neg h, if_neg h, children_replace, ih]

end Renaming

/-! ## Reading and rewriting walks -/

/-- The node of a script at a place. -/
def Script.nodeAt? (script : Script) (place : List Nat) : Option Node := at? script.topNodes place

/-- A rewriting walk that records what it is given and changes nothing is given the nodes that a
reading walk reports: those at all places of the script, each place once and in ascending order, the
statements of the script before its methods. The names that a body declares are those of the
declarations among its nodes. A renaming leaves what stands around the nodes as it is, and the nodes
at their places; what a node holds itself changes where it is a variable of the name, and nowhere
else. A name that is renamed to itself changes nothing. -/
theorem walks_alike (script : Script) :
    script.rewrite .recorder [] = (script, script.nodes.reverse) ∧
    (∃ places : List (List Nat), places.Pairwise (· < ·) ∧
      (∀ place, place ∈ places ↔ (script.nodeAt? place).isSome = true) ∧
      places.map script.nodeAt? = script.nodes.map some) ∧
    script.topNodes = script.statements.map .stmt ++ script.methods.map .method ∧
    (∀ body, declaredNames body = (Stmt.nodesOfAll body).filterMap Node.declared?) ∧
    ∀ source target, ∃ renamed, script.rewrite (.rename source target) () = (renamed, ()) ∧
      renamed.package = script.package ∧ renamed.imports = script.imports ∧
      renamed.starImports = script.starImports ∧ renamed.span = script.span ∧
      (∀ place, (renamed.nodeAt? place).map Node.bare =
        (script.nodeAt? place).map fun n ↦ (n.renamed source target).bare) ∧
      (source = target → renamed = script) := by
  refine ⟨?_, script.lists_nodes, script.topNodes_eq, declaredNames_eq,
    fun source target ↦ ?_⟩
  · have hlooks : Rewriter.recorder.OnlyLooks := fun _ _ ↦ rfl
    have hsee : Rewriter.recorder.see = fun nodes n ↦ n :: nodes := by
      funext nodes n
      cases n <;> rfl
    rw [hlooks.script_rewrite, hsee, List.foldl_flip_cons_eq_append, List.append_nil,
      List.map_id']
  · refine ⟨_, script.rewrite_rename source target, rfl, rfl, rfl, rfl, fun place ↦ ?_, ?_⟩
    · rw [Script.nodeAt?, Script.topNodes_replace, at?_replace, Option.map_map]
      exact congrArg (Option.map · _) (funext (bare_replace source target))
    · rintro rfl
      exact Script.replace_eq_self (fun _ _ ↦ eq_of_renameRule_self) script

end BuildScript
