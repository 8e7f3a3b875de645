import BuildScript.Text.Segments

/-!
# Candidate names

The binary names that a name in a script may stand for, in the order in which they are tried. A
dotted name may be a package with a class, or a class with classes nested in it, whose binary names
are written with dollar signs.
-/

namespace BuildScript

/-- The reading of a dotted name in which the last `k` dots separate nested classes. -/
def nestedForm (parts : List (List Char)) (k : Nat) : String :=
  let outer := joinSegments '.' (parts.take (parts.length - k))
  String.ofList (joinSegments '$' (outer :: parts.drop (parts.length - k)))

/-- All readings of a dotted name, the one without nested classes first. -/
def nestedForms (name : String) : List String :=
  let parts := segments '.' name.toList
  (List.range parts.length).map (nestedForm parts)

/-- Packages whose classes need no import. -/
def defaultPackages : List String :=
  ["java.lang.", "java.util.", "java.io.", "groovy.lang.", "groovy.util."]

/-- Names in front of others are imported aliases, each with the binary name it was resolved to. -/
abbrev Imports := List (String × String)

def dotCount (s : String) : Nat := s.toList.count '.'

/-- What an imported alias at the front of the name leads to. The import itself is resolved, so only
what follows the alias can be nested classes. -/
def importedForms (imports : Imports) (name : String) : List String :=
  let (front, rest) := name.toList.span (· != '.')
  match imports.lookup (String.ofList front) with
  | none => []
  | some binary =>
    match rest with
    | [] => [binary]
    | _ => (nestedForms (binary ++ String.ofList rest)).filter fun form ↦ dotCount binary ≤ dotCount form

/-- The candidates: by imports, the name as it is, by star imports, and by the default packages. A
name is tried only once. -/
def candidateNames (name : String) (imports : Imports) (starPackages : List String) : List String :=
  (importedForms imports name ++ (nestedForms name ++
    (starPackages ++ defaultPackages).flatMap fun package ↦ nestedForms (package ++ name))).eraseDups

end BuildScript
