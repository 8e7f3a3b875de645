import BuildScript.Compile.Phase
import BuildScript.Compile.Resolution
import BuildScript.Files.Tree

/-!
# Messages of the compiler

Errors are collected while a phase runs and reported together when it ends.
-/

namespace BuildScript

inductive Message where
  /-- An error at a place of a source. -/
  | located (error : SourceError) (sourceName sourceText : String)
  | general (message : String) (sourceName : Option String)
deriving DecidableEq, Repr

namespace Message

def text : Message → String
  | located e sourceName _ =>
    sourceName ++ ": " ++ toString e.span.line ++ ": " ++ e.message ++ " @ line " ++
      toString e.span.line ++ ", column " ++ toString e.span.column ++ "."
  | general message (some sourceName) => sourceName ++ ": " ++ message
  | general message none => message

/-- Attributes an error at a place to a source of another name. -/
def rename (sourceName : String) : Message → Message
  | located e _ text => located e sourceName text
  | m => m

/-- The source and the line of an error at a place. -/
def place? : Message → Option (String × UInt32)
  | located e sourceName _ => some (sourceName, e.span.line)
  | general _ _ => none

end Message

/-- The messages collected so far. -/
structure MessageLog where
  messages : List Message := []
  /-- How many messages are collected before a phase gives up; zero stands for any number. -/
  tolerance : Nat
deriving Repr

namespace MessageLog

def add (log : MessageLog) (more : List Message) : MessageLog :=
  { log with messages := log.messages ++ more }

def hasErrors (log : MessageLog) : Bool := !log.messages.isEmpty

def overTolerance (log : MessageLog) : Bool :=
  0 < log.tolerance && log.tolerance < log.messages.length

def rename (log : MessageLog) (sourceName : String) : MessageLog :=
  { log with messages := log.messages.map (.rename sourceName) }

/-- The source and the line of the first error at a place. -/
def firstPlace? (log : MessageLog) : Option (String × UInt32) := log.messages.findSome? (·.place?)

/-- All messages, and their number. -/
def text (log : MessageLog) : String :=
  let count := log.messages.length
  "startup failed:\n" ++ String.join (log.messages.map (·.text ++ "\n")) ++ "\n" ++ toString count ++
    (if count = 1 then " error" else " errors")

end MessageLog

/-- Why a compilation fails. -/
inductive CompilationFailure where
  /-- A phase collected messages. -/
  | multiple (phase : Phase) (log : MessageLog)
  /-- A class file could not be written. -/
  | output (className : String) (path : Path) (cause : FileError)
deriving Repr

namespace CompilationFailure

def message : CompilationFailure → String
  | multiple _ log => log.text
  | output className path _ => "Could not write class file " ++ path.text ++ " for " ++ className

end CompilationFailure

end BuildScript
