import BuildScript.Bytecode.Checksum
import BuildScript.Files.Tree
import BuildScript.Text.Digits

/-!
# Script sources

Where the text of a script comes from, how the script is called in messages, and the name of the
class it is compiled to.
-/

namespace BuildScript

inductive TextResource where
  /-- A text at hand; it may be missing. -/
  | memory (text : Option String)
  | file (p : Path)
deriving DecidableEq, Repr

/-- The text, or `none` if there is none. A file that does not exist has no text; one that cannot be
read is an error. -/
def TextResource.text (files : FileTree) : TextResource → Except FileError (Option String)
  | memory text => .ok text
  | file p =>
    match files.readText p with
    | .ok text => .ok (some text)
    | .error .notFound => .ok none
    | .error e => .error e

structure ScriptSource where
  /-- How messages call the script. -/
  displayName : String
  className : String
  /-- The file that class files are said to come from. -/
  fileName : Option String
  resource : TextResource
deriving DecidableEq, Repr

namespace ScriptSource

/-- The class name of scripts that get no other one. -/
def usualClassName : String := "script"

/-- A script whose text is at hand or missing. -/
def ofText (displayName : String) (text className fileName : Option String) : ScriptSource :=
  ⟨displayName, className.getD usualClassName, fileName, .memory text⟩

def isAsciiNamePart (c : Char) : Bool := c.isAlphanum || c == '_'

/-- A text as an ASCII identifier: other characters become underscores, and one more stands in front
if the text is empty or begins with a digit. -/
def identifierOf (text : String) : String :=
  let name := text.toList.map fun c ↦ if isAsciiNamePart c then c else '_'
  match name with
  | c :: _ => String.ofList (if c.isDigit then '_' :: name else name)
  | [] => "_"

/-- A script in a file. The class name is made of the file's stem and a checksum of the whole path,
so that scripts of one name in two directories have two classes. -/
def ofFile (description : String) (workingDirectory p : Path) : ScriptSource :=
  let p := workingDirectory.join p.text
  let checksum := Checksum.crc32 p.text.toUTF8.data.toList
  { displayName := description ++ " '" ++ p.text ++ "'"
    className := identifierOf (p.fileStem?.getD "") ++ "_" ++ Digits.fixedHex 8 checksum.toNat
    fileName := some p.text
    resource := .file p }

end ScriptSource

end BuildScript
