import BuildScript.Bytecode.Verification
import BuildScript.Files.Tree

/-!
# Errors of loading classes
-/

namespace BuildScript

inductive LoadError where
  /-- Neither the loader nor one of its parents has the class. -/
  | classNotFound (name : String)
  | io (path : Path) (cause : FileError)
  | malformed (path : Path) (cause : ClassFileError)
  | verify (path : Path) (cause : VerifyError)
  /-- The file holds another class than its path promises. -/
  | nameMismatch (path : Path) (expected found : String)
  | incompatibleClass (className expected : String)
  | missingSuperclass (className superName : String) (cause : LoadError)
deriving DecidableEq, Repr

namespace LoadError

def message : LoadError → String
  | classNotFound name => "Class " ++ name ++ " not found"
  | io path _ => "Could not read class file " ++ path.text
  | malformed path _ => "Malformed class file " ++ path.text
  | verify path _ => "Class file " ++ path.text ++ " failed verification"
  | nameMismatch path expected found =>
    "Class file " ++ path.text ++ " defines " ++ found ++ ", expected " ++ expected
  | incompatibleClass className expected => className ++ " is not a subclass of " ++ expected
  | missingSuperclass className superName _ =>
    "Could not load superclass " ++ superName ++ " of " ++ className

end LoadError

end BuildScript
