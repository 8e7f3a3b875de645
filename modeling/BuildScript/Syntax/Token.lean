import BuildScript.Number.Binary64
import BuildScript.Syntax.Span

/-!
# Tokens

The lexical alphabet of scripts: keywords, symbols, identifiers, literals, and the newline, which
separates statements and is therefore a token of its own.
-/

namespace BuildScript

/-- The reserved words. -/
inductive Keyword where
  | packageWord | importWord | staticWord | asWord | defWord | ifWord | elseWord | whileWord
  | returnWord | trueWord | falseWord | nullWord
deriving DecidableEq, Repr

namespace Keyword

def all : List Keyword :=
  [packageWord, importWord, staticWord, asWord, defWord, ifWord, elseWord, whileWord, returnWord,
    trueWord, falseWord, nullWord]

def spelling : Keyword → String
  | packageWord => "package"
  | importWord => "import"
  | staticWord => "static"
  | asWord => "as"
  | defWord => "def"
  | ifWord => "if"
  | elseWord => "else"
  | whileWord => "while"
  | returnWord => "return"
  | trueWord => "true"
  | falseWord => "false"
  | nullWord => "null"

def ofSpelling? (s : String) : Option Keyword := all.find? fun k ↦ k.spelling == s

end Keyword

/-- Operators and punctuation. -/
inductive Symbol where
  | assign | equal | notEqual | less | lessEqual | greater | greaterEqual
  | plus | minus | star | slash | percent | bang | andAnd | orOr
  | dot | comma | semicolon | leftParen | rightParen | leftBrace | rightBrace
  | leftBracket | rightBracket
deriving DecidableEq, Repr

def Symbol.spelling : Symbol → String
  | assign => "="
  | equal => "=="
  | notEqual => "!="
  | less => "<"
  | lessEqual => "<="
  | greater => ">"
  | greaterEqual => ">="
  | plus => "+"
  | minus => "-"
  | star => "*"
  | slash => "/"
  | percent => "%"
  | bang => "!"
  | andAnd => "&&"
  | orOr => "||"
  | dot => "."
  | comma => ","
  | semicolon => ";"
  | leftParen => "("
  | rightParen => ")"
  | leftBrace => "\x7b"
  | rightBrace => "\x7d"
  | leftBracket => "["
  | rightBracket => "]"

/-- One unit of the token stream. The stream of a whole text ends with `eof`. -/
inductive Token where
  | keyword (k : Keyword)
  | symbol (s : Symbol)
  | identifier (name : String)
  | integer (value : Int64)
  | float (value : Binary64)
  | string (value : String)
  | newline
  | eof
deriving DecidableEq, Repr

namespace Token

/-- The token as error messages name it. -/
def describe : Token → String
  | keyword k => "'" ++ k.spelling ++ "'"
  | symbol s => "'" ++ s.spelling ++ "'"
  | identifier name => "identifier '" ++ name ++ "'"
  | integer value => "number " ++ toString value.toInt
  | float value => "number " ++ value.text
  | string _ => "string literal"
  | newline => "newline"
  | eof => "end of file"

/-- Whether the token can begin the first argument of a call written without parentheses. -/
def startsCommandArgument : Token → Bool
  | identifier _ | integer _ | float _ | string _ => true
  | keyword .trueWord | keyword .falseWord | keyword .nullWord => true
  | _ => false

/-- Whether the token separates statements. -/
def isSeparator : Token → Bool
  | newline | symbol .semicolon => true
  | _ => false

end Token

/-- A token and where it stands. -/
structure Located where
  token : Token
  span : Span
deriving DecidableEq, Repr

end BuildScript
