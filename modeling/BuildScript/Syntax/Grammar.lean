import BuildScript.Syntax.SyntaxError
import BuildScript.Syntax.Tree

/-!
# The grammar of scripts

A recursive descent over located tokens. Newlines separate statements, so they are skipped only
where a construct may go on in the next line: behind operators and commas, inside brackets and
parentheses, and between a conditional's branch and its `else`.

Precedence, lowest first: assignment, `||`, `&&`, equality, order, sum, product, sign and negation,
member access and calls. Binary operators associate to the left, assignment to the right.

## Design

`GrammarM` threads the tokens still to be read, and a failure keeps those that were left when it
arose: the script level skips from there to the next separator and goes on, so that one pass
reports one error for each broken statement. The functions that call each other recurse on a bound
for the depth of their calls. `parseTokens` supplies a bound in terms of the number of tokens:
between two tokens consumed there are never more than eight nested calls.
-/

namespace BuildScript

/-- Reading from the front of a token list. A failure keeps the tokens left where it arose. -/
abbrev GrammarM := EStateM SyntaxError (List Located)

namespace Grammar

/-! ## Single tokens -/

/-- The next token; behind the last one, the end of the text. -/
def current : GrammarM Located :=
  return (← get).headD ⟨.eof, .none⟩

def advance : GrammarM Unit := modify (·.drop 1)

def fail {α : Type} (fault : SyntaxFault) (span : Span) : GrammarM α := throw ⟨fault, span⟩

def unexpected {α : Type} (wanted : Wanted) : GrammarM α := do
  let t ← current
  fail (.unexpected t.token wanted) t.span

def nextIs (t : Token) : GrammarM Bool := return (← current).token == t

/-- Reads the token if it comes next. -/
def accept (t : Token) : GrammarM Bool := do
  if ← nextIs t then
    advance
    return true
  else return false

def expect (t : Token) : GrammarM Span := do
  let next ← current
  if next.token == t then
    advance
    return next.span
  else unexpected (.token t)

def identifier (wanted : Wanted) : GrammarM Named := do
  let next ← current
  match next.token with
  | .identifier name =>
    advance
    return ⟨name, next.span⟩
  | _ => unexpected wanted

def skipNewlines : GrammarM Unit := modify (·.dropWhile (·.token == .newline))

def skipSeparators : GrammarM Unit := modify (·.dropWhile (·.token.isSeparator))

/-! ## Expressions -/

/-- The operator that a token spells, and how tightly it binds. -/
def operator? : Token → Option (BinaryOp × Nat)
  | .symbol .orOr => some (.or, 1)
  | .symbol .andAnd => some (.and, 2)
  | .symbol .equal => some (.equal, 3)
  | .symbol .notEqual => some (.notEqual, 3)
  | .symbol .less => some (.less, 4)
  | .symbol .lessEqual => some (.lessEqual, 4)
  | .symbol .greater => some (.greater, 4)
  | .symbol .greaterEqual => some (.greaterEqual, 4)
  | .symbol .plus => some (.add, 5)
  | .symbol .minus => some (.subtract, 5)
  | .symbol .star => some (.multiply, 6)
  | .symbol .slash => some (.divide, 6)
  | .symbol .percent => some (.modulo, 6)
  | _ => none

/-- The value of a literal token. -/
def literal? : Token → Option Literal
  | .integer value => some (.int value)
  | .float value => some (.float value)
  | .string value => some (.str value)
  | .keyword .trueWord => some (.bool true)
  | .keyword .falseWord => some (.bool false)
  | .keyword .nullWord => some .null
  | _ => none

/-- The operator that a token spells in front of an operand. -/
def signOperator? : Token → Option UnaryOp
  | .symbol .bang => some .not
  | .symbol .minus => some .negate
  | _ => none

def tooDeep {α : Type} : GrammarM α := do fail .nestedTooDeeply (← current).span

mutual

/-- An assignment, or anything that binds more tightly. -/
def expression : Nat → GrammarM Expr
  | 0 => tooDeep
  | n + 1 => do
    let target ← operation n 0
    let next ← current
    if next.token == .symbol .assign then
      advance
      skipNewlines
      match target with
      | .var name span =>
        let value ← expression n
        return .assign name value (span.merge value.span)
      | _ => fail .invalidAssignmentTarget next.span
    else return target

/-- Operands joined by operators that bind at least as tightly as `level`. -/
def operation : Nat → Nat → GrammarM Expr
  | 0, _ => tooDeep
  | n + 1, level => do operationTail n level (← signed n)

/-- The operators and operands behind the left operand of an operation. -/
def operationTail : Nat → Nat → Expr → GrammarM Expr
  | 0, _, _ => tooDeep
  | n + 1, level, left => do
    match operator? (← current).token with
    | some (op, binding) =>
      if binding < level then return left
      else
        advance
        skipNewlines
        let right ← operation n (binding + 1)
        operationTail n level (.binary op left right (left.span.merge right.span))
    | none => return left

def signed : Nat → GrammarM Expr
  | 0 => tooDeep
  | n + 1 => do
    let next ← current
    match signOperator? next.token with
    | some op =>
      advance
      let operand ← signed n
      return .unary op operand (next.span.merge operand.span)
    | none => memberTail n (← primary n)

/-- The property accesses and method calls behind an expression. -/
def memberTail : Nat → Expr → GrammarM Expr
  | 0, _ => tooDeep
  | n + 1, object => do
    if ← accept (.symbol .dot) then
      skipNewlines
      let member ← identifier .memberName
      if ← nextIs (.symbol .leftParen) then
        let (arguments, stop) ← arguments n
        memberTail n (.invoke object member.name arguments (object.span.merge stop))
      else memberTail n (.property object member.name (object.span.merge member.span))
    else return object

def primary : Nat → GrammarM Expr
  | 0 => tooDeep
  | n + 1 => do
    let next ← current
    match literal? next.token with
    | some value =>
      advance
      return .constant value next.span
    | none =>
      match next.token with
      | .identifier name =>
        advance
        if ← nextIs (.symbol .leftParen) then
          let (arguments, stop) ← arguments n
          return .call name arguments (next.span.merge stop)
        else return .var name next.span
      | .symbol .leftParen =>
        advance
        skipNewlines
        let e ← expression n
        skipNewlines
        let _ ← expect (.symbol .rightParen)
        return e
      | .symbol .leftBracket =>
        advance
        skipNewlines
        let (elements, stop) ← elements n .rightBracket []
        return .list elements (next.span.merge stop)
      | _ => unexpected .expression

/-- Parenthesised arguments, and the span of the closing parenthesis. -/
def arguments : Nat → GrammarM (List Expr × Span)
  | 0 => tooDeep
  | n + 1 => do
    let _ ← expect (.symbol .leftParen)
    skipNewlines
    elements n .rightParen []

/-- Expressions separated by commas up to the closing symbol, behind those already read; a comma may
stand behind the last one. -/
def elements : Nat → Symbol → List Expr → GrammarM (List Expr × Span)
  | 0, _, _ => tooDeep
  | n + 1, close, done => do
    if ← nextIs (.symbol close) then return (done.reverse, ← expect (.symbol close))
    else
      let e ← expression n
      skipNewlines
      if ← accept (.symbol .comma) then
        skipNewlines
        elements n close (e :: done)
      else return ((e :: done).reverse, ← expect (.symbol close))

end

/-! ## Statements -/

/-- A statement is followed by a separator, the end of the text or, in a block, a closing brace. -/
def statementEnd (inBlock : Bool) : GrammarM Unit := do
  match (← current).token with
  | .newline | .symbol .semicolon | .eof => return
  | .symbol .rightBrace => if inBlock then return else unexpected .endOfStatement
  | _ => unexpected .endOfStatement

/-- Whether `def name (` comes next. -/
def atMethod : GrammarM Bool := do
  match (← get) with
  | ⟨.keyword .defWord, _⟩ :: ⟨.identifier _, _⟩ :: ⟨.symbol .leftParen, _⟩ :: _ => return true
  | _ => return false

/-- Further arguments of a call without parentheses, behind those already read. -/
def commandArguments : Nat → List Expr → GrammarM (List Expr)
  | 0, _ => tooDeep
  | n + 1, done => do
    if ← accept (.symbol .comma) then
      skipNewlines
      let e ← expression n
      commandArguments n (e :: done)
    else return done.reverse

/-- An expression, or a call without parentheses: a name or a property followed by arguments. -/
def expressionStatement (n : Nat) : GrammarM Stmt := do
  let e ← expression n
  if (← current).token.startsCommandArgument then
    match e with
    | .var name span =>
      let first ← expression n
      let arguments ← commandArguments n [first]
      return .expression (.call name arguments (span.merge (arguments.getLastD first).span))
    | .property receiver name span =>
      let first ← expression n
      let arguments ← commandArguments n [first]
      return .expression (.invoke receiver name arguments (span.merge (arguments.getLastD first).span))
    | _ => unexpected .endOfStatement
  else return .expression e

def declaration (n : Nat) : GrammarM Stmt := do
  if ← atMethod then fail .methodInBody (← current).span
  let start ← expect (.keyword .defWord)
  let binder ← identifier .variableOrMethodName
  let span := start.merge binder.span
  if ← accept (.symbol .assign) then
    skipNewlines
    let value ← expression n
    return .declare binder.name (some value) (span.merge value.span)
  else return .declare binder.name none span

/-- A parenthesised condition. -/
def condition (n : Nat) : GrammarM Expr := do
  let _ ← expect (.symbol .leftParen)
  skipNewlines
  let e ← expression n
  skipNewlines
  let _ ← expect (.symbol .rightParen)
  skipNewlines
  return e

def result (n : Nat) : GrammarM Stmt := do
  let start ← expect (.keyword .returnWord)
  match (← current).token with
  | .newline | .symbol .semicolon | .symbol .rightBrace | .eof => return .result none start
  | _ =>
    let value ← expression n
    return .result (some value) (start.merge value.span)

mutual

def statement : Nat → GrammarM Stmt
  | 0 => tooDeep
  | n + 1 => do
    let next ← current
    match next.token with
    | .keyword .defWord => declaration n
    | .keyword .ifWord =>
      advance
      let test ← condition n
      let body ← statement n
      let span := next.span.merge body.span
      match (← get).dropWhile (·.token == .newline) with
      | ⟨.keyword .elseWord, _⟩ :: rest =>
        set rest
        skipNewlines
        let alternative ← statement n
        return .ifElse test body alternative (span.merge alternative.span)
      | _ => return .ifThen test body span
    | .keyword .whileWord =>
      advance
      let test ← condition n
      let body ← statement n
      return .loop test body (next.span.merge body.span)
    | .keyword .returnWord => result n
    | .symbol .leftBrace =>
      let (body, span) ← block n
      return .block body span
    | .keyword .packageWord => fail (.headerInBody .packageWord) next.span
    | .keyword .importWord => fail (.headerInBody .importWord) next.span
    | _ => expressionStatement n

/-- Statements in braces, and the span of the whole. -/
def block : Nat → GrammarM (List Stmt × Span)
  | 0 => tooDeep
  | n + 1 => do
    let start ← expect (.symbol .leftBrace)
    let body ← blockBody n []
    let stop ← expect (.symbol .rightBrace)
    return (body, start.merge stop)

/-- The statements up to a closing brace or the end of the text, behind those already read. -/
def blockBody : Nat → List Stmt → GrammarM (List Stmt)
  | 0, _ => tooDeep
  | n + 1, done => do
    skipSeparators
    match (← current).token with
    | .symbol .rightBrace | .eof => return done.reverse
    | _ =>
      let s ← statement n
      statementEnd true
      blockBody n (s :: done)

end

/-! ## Headers and methods -/

/-- The segments behind the first one of a dotted name, joined to what was read, with the span of
the last. If `star` is set, the name may end in a star. -/
def nameTail (star : Bool) : Nat → Named → GrammarM Named
  | 0, _ => tooDeep
  | n + 1, start => do
    if ← accept (.symbol .dot) then
      let next ← current
      if star && next.token == .symbol .star then
        advance
        return ⟨start.name ++ ".*", next.span⟩
      else
        let segment ← identifier .name
        nameTail star n ⟨start.name ++ "." ++ segment.name, segment.span⟩
    else return start

def qualifiedName (star : Bool) (n : Nat) : GrammarM Named := do
  nameTail star n (← identifier .name)

/-- `package a.b.c` -/
def package (n : Nat) : GrammarM Named := do
  let start ← expect (.keyword .packageWord)
  let name ← qualifiedName false n
  return ⟨name.name, start.merge name.span⟩

/-- The last segment of a dotted name. -/
def lastSegment (name : String) : String :=
  String.ofList (name.toList.reverse.takeWhile (· != '.')).reverse

/-- `import a.b.C`, `import a.b.C as D` or `import a.b.*`, added to the script. -/
def importInto (script : Script) (n : Nat) : GrammarM Script := do
  let start ← expect (.keyword .importWord)
  let next ← current
  if next.token == .keyword .staticWord then fail .staticImport next.span
  let name ← qualifiedName true n
  match name.name.toList.reverse with
  | '*' :: '.' :: package =>
    let package := StarImport.withDot (String.ofList package.reverse)
    return { script with starImports := script.starImports ++ [⟨package, start.merge name.span⟩] }
  | _ =>
    let localName ←
      if ← accept (.keyword .asWord) then identifier .importAlias
      else pure ⟨lastSegment name.name, name.span⟩
    let entry : Import := ⟨name.name, localName.name, start.merge localName.span⟩
    return { script with imports := script.imports ++ [entry] }

/-- Parameter names up to the closing parenthesis, behind those already read. -/
def parameters : Nat → List Named → GrammarM (List Named)
  | 0, _ => tooDeep
  | n + 1, done => do
    if ← nextIs (.symbol .rightParen) then return done.reverse
    else
      let parameter ← identifier .parameterName
      if done.any (·.name == parameter.name) then
        fail (.duplicateParameter parameter.name) parameter.span
      skipNewlines
      if ← accept (.symbol .comma) then
        skipNewlines
        parameters n (parameter :: done)
      else return (parameter :: done).reverse

/-- `def name(a, b) { body }`, the body being a block. -/
def method (n : Nat) : GrammarM Method := do
  let start ← expect (.keyword .defWord)
  let name ← identifier .methodName
  let _ ← expect (.symbol .leftParen)
  skipNewlines
  let parameters ← parameters n []
  let _ ← expect (.symbol .rightParen)
  skipNewlines
  let (body, span) ← block n
  return ⟨name.name, parameters, body, start.merge span⟩

/-! ## Scripts -/

/-- Whether nothing precedes the next item of the script. -/
def isBlankScript (script : Script) : Bool :=
  script.package.isNone && script.imports.isEmpty && script.starImports.isEmpty &&
    script.statements.isEmpty && script.methods.isEmpty

/-- One item at the top of a script. Statements and methods are added in front of those before
them; `parseTokens` turns them around at the end. -/
def item (script : Script) (n : Nat) : GrammarM Script := do
  match (← current).token with
  | .keyword .packageWord =>
    let name ← package n
    if isBlankScript script then return { script with package := some name }
    else fail .packageNotFirst name.span
  | .keyword .importWord => importInto script n
  | _ =>
    if ← atMethod then
      let m ← method n
      return { script with methods := m :: script.methods }
    else
      let s ← statement n
      return { script with statements := s :: script.statements }

/-- Skips to the next separator or the end of the text. -/
def recover (tokens : List Located) : List Located :=
  tokens.dropWhile fun t ↦ !t.token.isSeparator && t.token != .eof

/-- Reads items to the end of the text. An item that fails leaves an error, and reading goes on
behind the next separator; an item with something behind it counts as read. Errors are collected
last first, and `rounds` bounds the number of items. -/
def items (n : Nat) : Nat → Script → List SyntaxError → List Located →
    Script × List SyntaxError × List Located
  | 0, script, errors, tokens => (script, errors, tokens)
  | rounds + 1, script, errors, tokens =>
    let tokens := tokens.dropWhile (·.token.isSeparator)
    match tokens with
    | [] | [⟨.eof, _⟩] => (script, errors, tokens)
    | _ =>
      match item script n tokens with
      | .error e rest => items n rounds script (e :: errors) (recover rest)
      | .ok script rest =>
        match statementEnd false rest with
        | .error e rest => items n rounds script (e :: errors) (recover rest)
        | .ok _ rest => items n rounds script errors rest

end Grammar

/-- The script that the tokens of a whole text spell, or its syntax errors in source order. -/
def parseTokens (tokens : List Located) : Except (List SyntaxError) Script :=
  let span (ts : List Located) : Span := (ts.headD ⟨.eof, .none⟩).span
  let (script, errors, rest) :=
    Grammar.items (8 * (tokens.length + 2)) (tokens.length + 1) { span := span tokens } [] tokens
  if errors.isEmpty then
    .ok { script with
      statements := script.statements.reverse
      methods := script.methods.reverse
      span := (span tokens).merge (span rest) }
  else .error errors.reverse

/-- The script that a text spells, or its lexical errors, or its syntax errors. -/
def parse (text : String) : Except (List SyntaxError) Script :=
  match tokenize text.toList with
  | .ok tokens => parseTokens tokens
  | .error errors => .error (errors.map .ofLexError)

end BuildScript
