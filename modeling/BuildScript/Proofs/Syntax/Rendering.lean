import BuildScript.Syntax.Grammar
import BuildScript.Text.Segments

/-!
# Rendering scripts

The tokens that spell a script: headers, then statements, then methods, each with a newline behind
it. Parentheses stand around an expression only where it would otherwise be taken apart: every
expression has a level, that of its outermost operator, and an operand is put in parentheses if its
level is below the one its place asks for.

`Script.Written` collects what can be spelled at all. Class references have no spelling, and an
`else` belongs to the nearest `if`, so no branch in front of it may end in an `if` without one.
-/

namespace BuildScript

/-! ## Without spans -/

mutual

/-- The expression with no places. -/
def Expr.eraseSpans : Expr → Expr
  | .constant value _ => .constant value .none
  | .var name _ => .var name .none
  | .classRef name _ => .classRef name .none
  | .property object name _ => .property object.eraseSpans name .none
  | .call name arguments _ => .call name (Expr.eraseAllSpans arguments) .none
  | .invoke receiver name arguments _ =>
    .invoke receiver.eraseSpans name (Expr.eraseAllSpans arguments) .none
  | .binary op left right _ => .binary op left.eraseSpans right.eraseSpans .none
  | .unary op operand _ => .unary op operand.eraseSpans .none
  | .assign target value _ => .assign target value.eraseSpans .none
  | .list elements _ => .list (Expr.eraseAllSpans elements) .none

def Expr.eraseAllSpans : List Expr → List Expr
  | [] => []
  | e :: es => e.eraseSpans :: Expr.eraseAllSpans es

end

mutual

/-- The statement with no places. -/
def Stmt.eraseSpans : Stmt → Stmt
  | .expression e => .expression e.eraseSpans
  | .declare name initial _ => .declare name (initial.map Expr.eraseSpans) .none
  | .ifThen condition body _ => .ifThen condition.eraseSpans body.eraseSpans .none
  | .ifElse condition body alternative _ =>
    .ifElse condition.eraseSpans body.eraseSpans alternative.eraseSpans .none
  | .loop condition body _ => .loop condition.eraseSpans body.eraseSpans .none
  | .result value _ => .result (value.map Expr.eraseSpans) .none
  | .block body _ => .block (Stmt.eraseAllSpans body) .none

def Stmt.eraseAllSpans : List Stmt → List Stmt
  | [] => []
  | s :: ss => s.eraseSpans :: Stmt.eraseAllSpans ss

end

theorem Expr.eraseAllSpans_eq_map (es : List Expr) :
    Expr.eraseAllSpans es = es.map Expr.eraseSpans := by
  induction es with
  | nil => rfl
  | cons e es ih => rw [Expr.eraseAllSpans, ih, List.map_cons]

theorem Stmt.eraseAllSpans_eq_map (ss : List Stmt) :
    Stmt.eraseAllSpans ss = ss.map Stmt.eraseSpans := by
  induction ss with
  | nil => rfl
  | cons s ss ih => rw [Stmt.eraseAllSpans, ih, List.map_cons]

def Named.eraseSpan (n : Named) : Named := ⟨n.name, .none⟩

def Method.eraseSpans (m : Method) : Method :=
  ⟨m.name, m.parameters.map Named.eraseSpan, Stmt.eraseAllSpans m.body, .none⟩

def Import.eraseSpan (i : Import) : Import := ⟨i.className, i.localName, .none⟩

def StarImport.eraseSpan (i : StarImport) : StarImport := ⟨i.package, .none⟩

/-- The script with no places. -/
def Script.eraseSpans (script : Script) : Script where
  package := script.package.map Named.eraseSpan
  imports := script.imports.map Import.eraseSpan
  starImports := script.starImports.map StarImport.eraseSpan
  statements := Stmt.eraseAllSpans script.statements
  methods := script.methods.map Method.eraseSpans
  span := .none

/-! ## Expressions -/

def Literal.token : Literal → Token
  | null => .keyword .nullWord
  | bool true => .keyword .trueWord
  | bool false => .keyword .falseWord
  | int value => .integer value
  | float value => .float value
  | str value => .string value

def BinaryOp.symbol : BinaryOp → Symbol
  | add => .plus
  | subtract => .minus
  | multiply => .star
  | divide => .slash
  | modulo => .percent
  | equal => .equal
  | notEqual => .notEqual
  | less => .less
  | lessEqual => .lessEqual
  | greater => .greater
  | greaterEqual => .greaterEqual
  | and => .andAnd
  | or => .orOr

def UnaryOp.symbol : UnaryOp → Symbol
  | negate => .minus
  | not => .bang

/-- How tightly the operator binds. -/
def BinaryOp.level : BinaryOp → Nat
  | or => 1
  | and => 2
  | equal | notEqual => 3
  | less | lessEqual | greater | greaterEqual => 4
  | add | subtract => 5
  | multiply | divide | modulo => 6

/-- How tightly the outermost operator of an expression binds: assignments least, then the binary
operators, the unary ones, and most tightly what needs none in front or between. -/
def Expr.level : Expr → Nat
  | assign _ _ _ => 0
  | binary op _ _ _ => op.level
  | unary _ _ _ => 7
  | constant _ _ | var _ _ | classRef _ _ | property _ _ _ | call _ _ _ | invoke _ _ _ _
  | list _ _ => 8

def parenthesize (ts : List Token) : List Token :=
  .symbol .leftParen :: (ts ++ [.symbol .rightParen])

mutual

/-- The tokens of an expression. An operand of a lower level than its place is put in parentheses;
so binary operators associate to the left, and assignments to the right. -/
def Expr.tokens : Expr → List Token
  | .constant value _ => [value.token]
  | .var name _ | .classRef name _ => [.identifier name]
  | .property object name _ =>
    (if object.level < 8 then parenthesize object.tokens else object.tokens) ++
      [.symbol .dot, .identifier name]
  | .call name arguments _ => .identifier name :: parenthesize (Expr.tokensOfAll arguments)
  | .invoke receiver name arguments _ =>
    (if receiver.level < 8 then parenthesize receiver.tokens else receiver.tokens) ++
      .symbol .dot :: .identifier name :: parenthesize (Expr.tokensOfAll arguments)
  | .binary op left right _ =>
    (if left.level < op.level then parenthesize left.tokens else left.tokens) ++
      .symbol op.symbol ::
        (if right.level < op.level + 1 then parenthesize right.tokens else right.tokens)
  | .unary op operand _ =>
    .symbol op.symbol ::
      (if operand.level < 7 then parenthesize operand.tokens else operand.tokens)
  | .assign target value _ => .identifier target :: .symbol .assign :: value.tokens
  | .list elements _ =>
    .symbol .leftBracket :: (Expr.tokensOfAll elements ++ [.symbol .rightBracket])

/-- The tokens of expressions, commas between them. -/
def Expr.tokensOfAll : List Expr → List Token
  | [] => []
  | [e] => e.tokens
  | e :: e' :: es => e.tokens ++ .symbol .comma :: Expr.tokensOfAll (e' :: es)

end

/-- The tokens of an expression in a place for expressions of a level. -/
def Expr.tokensAt (level : Nat) (e : Expr) : List Token :=
  if e.level < level then parenthesize e.tokens else e.tokens

/-! ## Statements and scripts -/

mutual

/-- The tokens of a statement, without the newline behind it. -/
def Stmt.tokens : Stmt → List Token
  | .expression e => e.tokens
  | .declare name none _ => [.keyword .defWord, .identifier name]
  | .declare name (some e) _ =>
    .keyword .defWord :: .identifier name :: .symbol .assign :: e.tokens
  | .ifThen condition body _ =>
    .keyword .ifWord :: (parenthesize condition.tokens ++ body.tokens)
  | .ifElse condition body alternative _ =>
    .keyword .ifWord :: (parenthesize condition.tokens ++
      (body.tokens ++ .newline :: .keyword .elseWord :: alternative.tokens))
  | .loop condition body _ =>
    .keyword .whileWord :: (parenthesize condition.tokens ++ body.tokens)
  | .result none _ => [.keyword .returnWord]
  | .result (some e) _ => .keyword .returnWord :: e.tokens
  | .block body _ => .symbol .leftBrace :: (Stmt.tokensOfAll body ++ [.symbol .rightBrace])

/-- The tokens of statements, each with a newline behind it. -/
def Stmt.tokensOfAll : List Stmt → List Token
  | [] => []
  | s :: ss => s.tokens ++ .newline :: Stmt.tokensOfAll ss

end

/-- The tokens of the segments behind the first one. -/
def segmentTokens (segments : List String) : List Token :=
  segments.flatMap fun segment ↦ [.symbol .dot, .identifier segment]

/-- The tokens of a dotted name. -/
def nameTokens (name : String) : List Token :=
  match splitText '.' name with
  | [] => []
  | first :: rest => .identifier first :: segmentTokens rest

/-- The tokens of an import; the local name is spelled only if it is not the simple name. -/
def Import.tokens (i : Import) : List Token :=
  .keyword .importWord :: (nameTokens i.className ++
    if i.localName = Grammar.lastSegment i.className then []
    else [.keyword .asWord, .identifier i.localName])

/-- The tokens of the import of a package, which ends in a dot. -/
def StarImport.tokens (i : StarImport) : List Token :=
  .keyword .importWord ::
    (nameTokens (String.ofList i.package.toList.dropLast) ++ [.symbol .dot, .symbol .star])

/-- The tokens of names, commas between them. -/
def parameterTokens : List String → List Token
  | [] => []
  | [name] => [.identifier name]
  | name :: name' :: names => .identifier name :: .symbol .comma :: parameterTokens (name' :: names)

def Method.tokens (m : Method) : List Token :=
  .keyword .defWord :: .identifier m.name ::
    (parenthesize (parameterTokens (m.parameters.map (·.name))) ++
      .symbol .leftBrace :: (Stmt.tokensOfAll m.body ++ [.symbol .rightBrace]))

/-- Items with a newline behind each. -/
def lines (items : List (List Token)) : List Token := items.flatMap (· ++ [.newline])

@[simp] theorem lines_nil : lines [] = [] := rfl

@[simp] theorem lines_cons (item : List Token) (items : List (List Token)) :
    lines (item :: items) = item ++ .newline :: lines items := by
  simp [lines]

/-- The tokens of a script, without the end of the text. -/
def Script.tokens (script : Script) : List Token :=
  lines (script.package.toList.map (.keyword .packageWord :: nameTokens ·.name)) ++
    (lines (script.imports.map Import.tokens) ++
      (lines (script.starImports.map StarImport.tokens) ++
        (lines (script.statements.map Stmt.tokens) ++ lines (script.methods.map Method.tokens))))

/-! ## What can be spelled -/

mutual

/-- The expression has a spelling: there is no class reference in it. -/
def Expr.Written : Expr → Prop
  | .classRef _ _ => False
  | .constant _ _ | .var _ _ => True
  | .property object _ _ => object.Written
  | .call _ arguments _ => Expr.AllWritten arguments
  | .invoke receiver _ arguments _ => receiver.Written ∧ Expr.AllWritten arguments
  | .binary _ left right _ => left.Written ∧ right.Written
  | .unary _ operand _ => operand.Written
  | .assign _ value _ => value.Written
  | .list elements _ => Expr.AllWritten elements

def Expr.AllWritten : List Expr → Prop
  | [] => True
  | e :: es => e.Written ∧ Expr.AllWritten es

end

/-- Whether the statement ends in a conditional without `else`, which would take an `else` behind
it for its own. -/
def Stmt.endsOpen : Stmt → Bool
  | .ifThen _ _ _ => true
  | .ifElse _ _ alternative _ => alternative.endsOpen
  | .loop _ body _ => body.endsOpen
  | .expression _ | .declare _ _ _ | .result _ _ | .block _ _ => false

mutual

/-- The statement has a spelling from which each `else` finds back to its conditional. -/
def Stmt.Written : Stmt → Prop
  | .expression e => e.Written
  | .declare _ none _ | .result none _ => True
  | .declare _ (some e) _ | .result (some e) _ => e.Written
  | .ifThen condition body _ | .loop condition body _ => condition.Written ∧ body.Written
  | .ifElse condition body alternative _ =>
    condition.Written ∧ body.Written ∧ body.endsOpen = false ∧ alternative.Written
  | .block body _ => Stmt.AllWritten body

def Stmt.AllWritten : List Stmt → Prop
  | [] => True
  | s :: ss => s.Written ∧ Stmt.AllWritten ss

end

/-- The name is not that of a package import. -/
def Import.Written (i : Import) : Prop := ¬ ['.', '*'] <:+ i.className.toList

/-- The package name ends in exactly one dot. -/
def StarImport.Written (i : StarImport) : Prop :=
  ∃ name, i.package = name ++ "." ∧ name.toList.getLast? ≠ some '.'

structure Method.Written (m : Method) : Prop where
  nodup : (m.parameters.map (·.name)).Nodup
  body : Stmt.AllWritten m.body

/-- The script has a spelling. -/
structure Script.Written (script : Script) : Prop where
  imports : ∀ i ∈ script.imports, i.Written
  starImports : ∀ i ∈ script.starImports, i.Written
  statements : ∀ s ∈ script.statements, s.Written
  methods : ∀ m ∈ script.methods, m.Written

/-! ## First tokens -/

/-- Whether a token can begin an expression. -/
def Token.startsExpression : Token → Bool
  | .identifier _ | .integer _ | .float _ | .string _ => true
  | .keyword .trueWord | .keyword .falseWord | .keyword .nullWord => true
  | .symbol .leftParen | .symbol .leftBracket | .symbol .minus | .symbol .bang => true
  | _ => false

/-- Whether a token can begin a statement. -/
def Token.startsStatement : Token → Bool
  | .keyword .defWord | .keyword .ifWord | .keyword .whileWord | .keyword .returnWord => true
  | .symbol .leftBrace => true
  | t => t.startsExpression

theorem Literal.startsExpression_token (l : Literal) : l.token.startsExpression = true := by
  cases l with
  | bool b => cases b <;> rfl
  | _ => rfl

theorem UnaryOp.startsExpression_symbol (op : UnaryOp) :
    (Token.symbol op.symbol).startsExpression = true := by
  cases op <;> rfl

/-- The first token of an operand is its own or a parenthesis. -/
theorem exists_head_parenthesize {c : Prop} [Decidable c] {ts : List Token}
    (h : ∃ t rest, ts = t :: rest ∧ t.startsExpression = true) (more : List Token) :
    ∃ t rest, (if c then parenthesize ts else ts) ++ more = t :: rest ∧
      t.startsExpression = true := by
  split
  · exact ⟨_, _, rfl, rfl⟩
  · obtain ⟨t, rest, rfl, ht⟩ := h
    exact ⟨t, rest ++ more, rfl, ht⟩

theorem Expr.exists_head_tokens (e : Expr) :
    ∃ t rest, e.tokens = t :: rest ∧ t.startsExpression = true := by
  cases e with
  | constant value => exact ⟨_, _, rfl, value.startsExpression_token⟩
  | unary op => exact ⟨_, _, rfl, op.startsExpression_symbol⟩
  | var | classRef | call | assign | list => exact ⟨_, _, rfl, rfl⟩
  | property object | invoke object => exact exists_head_parenthesize object.exists_head_tokens _
  | binary op left => exact exists_head_parenthesize left.exists_head_tokens _

theorem Stmt.exists_head_tokens (s : Stmt) :
    ∃ t rest, s.tokens = t :: rest ∧ t.startsStatement = true := by
  cases s with
  | expression e =>
    obtain ⟨t, rest, heq, ht⟩ := e.exists_head_tokens
    refine ⟨t, rest, heq, ?_⟩
    rw [Token.startsStatement.eq_def]
    split
    all_goals first | rfl | exact ht
  | declare name initial => cases initial <;> exact ⟨_, _, rfl, rfl⟩
  | result value => cases value <;> exact ⟨_, _, rfl, rfl⟩
  | ifThen | ifElse | loop | block => exact ⟨_, _, rfl, rfl⟩

end BuildScript
