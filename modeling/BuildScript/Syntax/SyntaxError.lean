import BuildScript.Syntax.Lexeme

/-!
# Syntax errors

The causes of a rejected script, and the one place where they are put into words.
-/

namespace BuildScript

/-- What the grammar would have accepted. -/
inductive Wanted where
  | name | memberName | importAlias | methodName | parameterName | variableOrMethodName
  | expression
  | endOfStatement
  | token (t : Token)
deriving DecidableEq, Repr

def Wanted.describe : Wanted → String
  | name => "name"
  | memberName => "property or method name"
  | importAlias => "import alias"
  | methodName => "method name"
  | parameterName => "parameter name"
  | variableOrMethodName => "variable or method name"
  | expression => "expression"
  | endOfStatement => "end of statement"
  | token t => t.describe

/-- Why a text is no script. -/
inductive SyntaxFault where
  | lexical (fault : LexFault)
  /-- A token that does not continue the construct; the end of the text counts as one. -/
  | unexpected (found : Token) (wanted : Wanted)
  | packageNotFirst
  | staticImport
  | duplicateParameter (name : String)
  /-- A package or an import below the top level. -/
  | headerInBody (header : Keyword)
  | methodInBody
  | invalidAssignmentTarget
  /-- Nesting beyond the bound that the parser was given. -/
  | nestedTooDeeply
deriving DecidableEq, Repr

def SyntaxFault.message : SyntaxFault → String
  | lexical fault => fault.message
  | unexpected .eof wanted => "unexpected end of file, expected " ++ wanted.describe
  | unexpected found wanted => "unexpected " ++ found.describe ++ ", expected " ++ wanted.describe
  | packageNotFirst => "package definition must be the first statement"
  | staticImport => "static imports are not supported"
  | duplicateParameter name => "duplicate parameter '" ++ name ++ "'"
  | headerInBody header => "'" ++ header.spelling ++ "' is only allowed at the top of a script"
  | methodInBody => "method definition not expected here"
  | invalidAssignmentTarget => "invalid assignment target"
  | nestedTooDeeply => "nested too deeply"

/-- A fault and where it was found. -/
structure SyntaxError where
  fault : SyntaxFault
  span : Span
deriving DecidableEq, Repr

namespace SyntaxError

def ofLexError (e : LexError) : SyntaxError := ⟨.lexical e.fault, e.span⟩

def message (e : SyntaxError) : String := e.fault.message

/-- The message with its position. -/
def text (e : SyntaxError) : String :=
  e.message ++ " @ line " ++ toString e.span.line ++ ", column " ++ toString e.span.column ++ "."

end SyntaxError

end BuildScript
