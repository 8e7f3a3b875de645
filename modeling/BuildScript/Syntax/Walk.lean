import BuildScript.Syntax.Tree

/-!
# Walks over syntax trees

Two walks visit the nodes of a script in the same order, each node before its children and the
statements of the script before its methods. `Script.nodes` reads: it lists the nodes.
`Script.rewrite` writes: a `Rewriter` sees every node in turn, carries a state along, and may put
another expression in place of the one it sees, in which case the walk does not descend into it.
-/

namespace BuildScript

/-- A node of a script, as a reading walk reports it. -/
inductive Node where
  | method (m : Method)
  | stmt (s : Stmt)
  | expr (e : Expr)

mutual

/-- The nodes of an expression, itself first. -/
def Expr.nodes : Expr → List Node
  | e@(.constant _ _) | e@(.var _ _) | e@(.classRef _ _) => [.expr e]
  | e@(.property object _ _) => .expr e :: object.nodes
  | e@(.call _ arguments _) => .expr e :: Expr.nodesOfAll arguments
  | e@(.invoke receiver _ arguments _) => .expr e :: (receiver.nodes ++ Expr.nodesOfAll arguments)
  | e@(.binary _ left right _) => .expr e :: (left.nodes ++ right.nodes)
  | e@(.unary _ operand _) => .expr e :: operand.nodes
  | e@(.assign _ value _) => .expr e :: value.nodes
  | e@(.list elements _) => .expr e :: Expr.nodesOfAll elements

def Expr.nodesOfAll : List Expr → List Node
  | [] => []
  | e :: es => e.nodes ++ Expr.nodesOfAll es

end

mutual

/-- The nodes of a statement, itself first. -/
def Stmt.nodes : Stmt → List Node
  | s@(.expression e) => .stmt s :: e.nodes
  | s@(.declare _ none _) | s@(.result none _) => [.stmt s]
  | s@(.declare _ (some e) _) | s@(.result (some e) _) => .stmt s :: e.nodes
  | s@(.ifThen condition body _) => .stmt s :: (condition.nodes ++ body.nodes)
  | s@(.ifElse condition body alternative _) =>
    .stmt s :: (condition.nodes ++ (body.nodes ++ alternative.nodes))
  | s@(.loop condition body _) => .stmt s :: (condition.nodes ++ body.nodes)
  | s@(.block body _) => .stmt s :: Stmt.nodesOfAll body

def Stmt.nodesOfAll : List Stmt → List Node
  | [] => []
  | s :: ss => s.nodes ++ Stmt.nodesOfAll ss

end

/-- All nodes of a script in reading order. -/
def Script.nodes (script : Script) : List Node :=
  Stmt.nodesOfAll script.statements ++
    script.methods.flatMap fun m ↦ .method m :: Stmt.nodesOfAll m.body

/-- A rewriting walk with state `σ`. -/
structure Rewriter (σ : Type) where
  method : Method → σ → σ
  stmt : Stmt → σ → σ
  /-- The expression to put in place, or `none` to keep it and go on with its children. -/
  expr : Expr → σ → Option Expr × σ

mutual

def Expr.rewrite {σ : Type} (r : Rewriter σ) (e : Expr) (s : σ) : Expr × σ :=
  match r.expr e s with
  | (some e', s) => (e', s)
  | (none, s) =>
    match e with
    | .constant _ _ | .var _ _ | .classRef _ _ => (e, s)
    | .property object name span =>
      let (object, s) := object.rewrite r s
      (.property object name span, s)
    | .call name arguments span =>
      let (arguments, s) := Expr.rewriteAll r [] arguments s
      (.call name arguments span, s)
    | .invoke receiver name arguments span =>
      let (receiver, s) := receiver.rewrite r s
      let (arguments, s) := Expr.rewriteAll r [] arguments s
      (.invoke receiver name arguments span, s)
    | .binary op left right span =>
      let (left, s) := left.rewrite r s
      let (right, s) := right.rewrite r s
      (.binary op left right span, s)
    | .unary op operand span =>
      let (operand, s) := operand.rewrite r s
      (.unary op operand span, s)
    | .assign target value span =>
      let (value, s) := value.rewrite r s
      (.assign target value span, s)
    | .list elements span =>
      let (elements, s) := Expr.rewriteAll r [] elements s
      (.list elements span, s)

/-- Rewrites a list from left to right; `done` holds the finished part, last first. -/
def Expr.rewriteAll {σ : Type} (r : Rewriter σ) (done : List Expr) :
    List Expr → σ → List Expr × σ
  | [], s => (done.reverse, s)
  | e :: es, s =>
    let (e, s) := e.rewrite r s
    Expr.rewriteAll r (e :: done) es s

end

mutual

def Stmt.rewrite {σ : Type} (r : Rewriter σ) (stmt : Stmt) (s : σ) : Stmt × σ :=
  let s := r.stmt stmt s
  match stmt with
  | .expression e =>
    let (e, s) := e.rewrite r s
    (.expression e, s)
  | .declare name (some e) span =>
    let (e, s) := e.rewrite r s
    (.declare name (some e) span, s)
  | .result (some e) span =>
    let (e, s) := e.rewrite r s
    (.result (some e) span, s)
  | .declare _ none _ | .result none _ => (stmt, s)
  | .ifThen condition body span =>
    let (condition, s) := condition.rewrite r s
    let (body, s) := body.rewrite r s
    (.ifThen condition body span, s)
  | .ifElse condition body alternative span =>
    let (condition, s) := condition.rewrite r s
    let (body, s) := body.rewrite r s
    let (alternative, s) := alternative.rewrite r s
    (.ifElse condition body alternative span, s)
  | .loop condition body span =>
    let (condition, s) := condition.rewrite r s
    let (body, s) := body.rewrite r s
    (.loop condition body span, s)
  | .block body span =>
    let (body, s) := Stmt.rewriteAll r [] body s
    (.block body span, s)

/-- Rewrites a list from left to right; `done` holds the finished part, last first. -/
def Stmt.rewriteAll {σ : Type} (r : Rewriter σ) (done : List Stmt) :
    List Stmt → σ → List Stmt × σ
  | [], s => (done.reverse, s)
  | stmt :: stmts, s =>
    let (stmt, s) := stmt.rewrite r s
    Stmt.rewriteAll r (stmt :: done) stmts s

end

def Method.rewrite {σ : Type} (r : Rewriter σ) (m : Method) (s : σ) : Method × σ :=
  let (body, s) := Stmt.rewriteAll r [] m.body (r.method m s)
  ({ m with body }, s)

/-- Rewrites methods from left to right; `done` holds the finished part, last first. -/
def Method.rewriteAll {σ : Type} (r : Rewriter σ) (done : List Method) :
    List Method → σ → List Method × σ
  | [], s => (done.reverse, s)
  | m :: ms, s =>
    let (m, s) := m.rewrite r s
    Method.rewriteAll r (m :: done) ms s

def Script.rewrite {σ : Type} (r : Rewriter σ) (script : Script) (s : σ) : Script × σ :=
  let (statements, s) := Stmt.rewriteAll r [] script.statements s
  let (methods, s) := Method.rewriteAll r [] script.methods s
  ({ script with statements, methods }, s)

/-- Renames the variable `source` to `target` wherever it is read. Declarations, assignment targets,
property names and method names keep their names. -/
def Rewriter.rename (source target : String) : Rewriter Unit where
  method _ s := s
  stmt _ s := s
  expr
    | .var name span, s => (if name = source then some (.var target span) else none, s)
    | _, s => (none, s)

/-- A rewriter that changes nothing and records the nodes it is given, last first. -/
def Rewriter.recorder : Rewriter (List Node) where
  method m s := .method m :: s
  stmt stmt s := .stmt stmt :: s
  expr e s := (none, .expr e :: s)

end BuildScript
