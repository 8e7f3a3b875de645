import BuildScript.Compile.Message
import BuildScript.Loading.LoadError
import BuildScript.Scripts.Metadata
import BuildScript.Text.LetterCase

/-!
# Errors of compiled scripts
-/

namespace BuildScript

inductive ScriptError where
  /-- The line is that of the first error at a place. -/
  | scriptCompilationFailed (displayName : String) (line : Option UInt32) (cause : CompilationFailure)
  /-- The script has a text that cannot be read. -/
  | scriptSourceUnreadable (displayName : String) (cause : FileError)
  | illegalPackageStatement (displayName : String)
  | metadataIoError (displayName : String) (cause : MetadataError)
  | metadataUnreadable (displayName : String) (cause : MetadataError)
  | unloadableEmptyScript
  | compiledArtifactMissing (displayName : String) (path : Path) (cause : LoadError)
  | compiledArtifactUnloadable (displayName : String) (cause : LoadError)
  /-- A directory could not be emptied or created. -/
  | directoryIo (path : Path) (cause : FileError)
deriving Repr

namespace ScriptError

/-- A text with its first character in upper case. -/
def capitalized (text : String) : String :=
  match text.toList with
  | c :: cs => String.ofList (CaseMapping.upper.apply c ++ cs)
  | [] => ""

def message : ScriptError → String
  | scriptCompilationFailed name _ _ => "Could not compile " ++ name ++ "."
  | scriptSourceUnreadable name _ => "Could not read " ++ name ++ "."
  | illegalPackageStatement name =>
    capitalized name ++ " should not contain a package statement."
  | metadataIoError name _ => "Failed to serialize script metadata extracted for " ++ name
  | metadataUnreadable name _ => "Failed to deserialize script metadata extracted for " ++ name
  | unloadableEmptyScript => "Cannot load script that does nothing."
  | compiledArtifactMissing name path _ =>
    "Could not load compiled classes for " ++ name ++ " from cache. Expected class file " ++
      path.text ++ " does not exist."
  | compiledArtifactUnloadable name _ =>
    "Could not load compiled classes for " ++ name ++ " from cache."
  | directoryIo path _ => "Could not prepare directory " ++ path.text

/-- The line of the script that the error points at. -/
def line? : ScriptError → Option UInt32
  | scriptCompilationFailed _ line _ => line
  | _ => none

/-- The script that the error is about. -/
def displayName? : ScriptError → Option String
  | scriptCompilationFailed name _ _ | scriptSourceUnreadable name _ | illegalPackageStatement name
  | metadataIoError name _ | metadataUnreadable name _ | compiledArtifactMissing name _ _
  | compiledArtifactUnloadable name _ => some name
  | unloadableEmptyScript | directoryIo _ _ => none

end ScriptError

end BuildScript
