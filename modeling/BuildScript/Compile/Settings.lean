import BuildScript.Compile.Unit
import BuildScript.Toml.Grammar

/-!
# Compiler settings

A configuration written as a TOML document. Keys that are missing have their usual values, and keys
that mean nothing to the compiler are passed over.
-/

namespace BuildScript

namespace Configuration

/-- The value of a key, or the given one if there is no such key; `none` if it cannot be read. -/
def setting? {α : Type} (es : Toml.Entries) (key : String) (usual : α) (read : Toml.Value → Option α) :
    Option α :=
  match es.get? key with
  | none => some usual
  | some v => read v

/-- The configuration that a document describes. -/
def ofEntries? (es : Toml.Entries) : Option Configuration := do
  let usual : Configuration := {}
  let scriptBaseClass ← setting? es "script-base-class" usual.scriptBaseClass fun
    | .string s => some s
    | _ => none
  let targetDirectory ← setting? es "target-directory" usual.targetDirectory fun
    | .string s => some (some ⟨s⟩)
    | _ => none
  let debug ← setting? es "debug" usual.debug fun
    | .boolean b => some b
    | _ => none
  let tolerance ← setting? es "tolerance" usual.tolerance fun
    | .integer n => if n < 0 then none else some n.toInt.toNat
    | _ => none
  return { scriptBaseClass, targetDirectory, debug, tolerance }

/-- The configuration that a text describes. -/
def ofText? (text : String) : Option Configuration := (Toml.read? text).bind ofEntries?

end Configuration

end BuildScript
