import BuildScript.Syntax.Token

/-!
# Syntax trees

A script is an optional package, imports, the statements of its body and the methods it declares.

## Design

Calls come in two constructors, `Expr.call` on the script itself and `Expr.invoke` on a receiver,
and so do conditionals, with and without an `else`: no node has an optional child of its own kind.
An expression statement has no span of its own; it covers its expression. `Expr.classRef` is never
parsed: class resolution puts it in place of the names that turn out to be classes.
-/

namespace BuildScript

inductive Literal where
  | null
  | bool (value : Bool)
  | int (value : Int64)
  | float (value : Binary64)
  | str (value : String)
deriving DecidableEq, Repr

inductive BinaryOp where
  | add | subtract | multiply | divide | modulo
  | equal | notEqual | less | lessEqual | greater | greaterEqual
  | and | or
deriving DecidableEq, Repr

inductive UnaryOp where
  | negate | not
deriving DecidableEq, Repr

inductive Expr where
  | constant (value : Literal) (span : Span)
  | var (name : String) (span : Span)
  /-- A class, by binary name. -/
  | classRef (name : String) (span : Span)
  | property (object : Expr) (name : String) (span : Span)
  /-- A call on the script itself. -/
  | call (name : String) (arguments : List Expr) (span : Span)
  /-- A call on a receiver. -/
  | invoke (receiver : Expr) (name : String) (arguments : List Expr) (span : Span)
  | binary (op : BinaryOp) (left right : Expr) (span : Span)
  | unary (op : UnaryOp) (operand : Expr) (span : Span)
  | assign (target : String) (value : Expr) (span : Span)
  | list (elements : List Expr) (span : Span)
deriving Repr

instance : Inhabited Expr := ⟨.constant .null .none⟩

namespace Expr

def span : Expr → Span
  | constant _ s | var _ s | classRef _ s | property _ _ s | call _ _ s | invoke _ _ _ s
  | binary _ _ _ s | unary _ _ s | assign _ _ s | list _ s => s

def isConstant : Expr → Bool
  | constant _ _ => true
  | _ => false

/-- The name that a chain of property accesses on a variable spells, such as `a.b.C`. -/
def dottedName? : Expr → Option String
  | var name _ => some name
  | property object name _ => object.dottedName?.map fun start ↦ start ++ "." ++ name
  | _ => none

end Expr

inductive Stmt where
  | expression (e : Expr)
  /-- A local declared with `def`. -/
  | declare (name : String) (initial : Option Expr) (span : Span)
  | ifThen (condition : Expr) (body : Stmt) (span : Span)
  | ifElse (condition : Expr) (body alternative : Stmt) (span : Span)
  | loop (condition : Expr) (body : Stmt) (span : Span)
  | result (value : Option Expr) (span : Span)
  | block (body : List Stmt) (span : Span)
deriving Repr

instance : Inhabited Stmt := ⟨.block [] .none⟩

def Stmt.span : Stmt → Span
  | expression e => e.span
  | declare _ _ s | ifThen _ _ s | ifElse _ _ _ s | loop _ _ s | result _ s | block _ s => s

/-- A name and where it stands. -/
structure Named where
  name : String
  span : Span
deriving DecidableEq, Repr

/-- A method declared by a script. -/
structure Method where
  name : String
  parameters : List Named
  body : List Stmt
  span : Span
deriving Repr, Inhabited

/-- The import of one class, under its simple name or an alias. -/
structure Import where
  className : String
  localName : String
  span : Span
deriving DecidableEq, Repr

/-- The import of all classes of a package. The package name ends in a dot, so that a candidate is
the package followed by the simple name. -/
structure StarImport where
  package : String
  span : Span
deriving DecidableEq, Repr

/-- The package name with exactly the dot it may already have, and one if it has none. -/
def StarImport.withDot (package : String) : String :=
  if package.toList.getLast? = some '.' then package else package ++ "."

/-- A parsed script. -/
structure Script where
  package : Option Named := none
  imports : List Import := []
  starImports : List StarImport := []
  statements : List Stmt := []
  methods : List Method := []
  span : Span
deriving Repr, Inhabited

/-- Adds a star import that stands nowhere in the text, unless the package is imported already. -/
def Script.addStarImport (script : Script) (package : String) : Script :=
  let package := StarImport.withDot package
  if script.starImports.any (·.package == package) then script
  else { script with starImports := script.starImports ++ [⟨package, .none⟩] }

/-! ## Declared names and effects -/

mutual

/-- Adds the names that `def` declares anywhere in the statement, in source order. -/
def Stmt.collectDeclared (names : Array String) : Stmt → Array String
  | .expression _ | .result _ _ => names
  | .declare name _ _ => names.push name
  | .ifThen _ body _ | .loop _ body _ => body.collectDeclared names
  | .ifElse _ body alternative _ => alternative.collectDeclared (body.collectDeclared names)
  | .block body _ => Stmt.collectAllDeclared names body

def Stmt.collectAllDeclared (names : Array String) : List Stmt → Array String
  | [] => names
  | s :: ss => Stmt.collectAllDeclared (s.collectDeclared names) ss

end

/-- The names declared anywhere in a body, nested blocks included; repetitions are kept. -/
def declaredNames (body : List Stmt) : List String := (Stmt.collectAllDeclared #[] body).toList

mutual

/-- Whether running the statement could be observed. Only constants, declarations and returns of
constants, and blocks of such statements, are known to do nothing. -/
def Stmt.mayHaveEffect : Stmt → Bool
  | .expression e => !e.isConstant
  | .declare _ initial _ => !initial.all Expr.isConstant
  | .result value _ => !value.all Expr.isConstant
  | .block body _ => Stmt.anyMayHaveEffect body
  | .ifThen .. | .ifElse .. | .loop .. => true

def Stmt.anyMayHaveEffect : List Stmt → Bool
  | [] => false
  | s :: ss => s.mayHaveEffect || Stmt.anyMayHaveEffect ss

end

end BuildScript
