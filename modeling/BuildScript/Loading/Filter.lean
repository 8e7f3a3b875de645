/-!
# Filters

What a loader lets through of the classes behind it: whole packages, and single classes.
-/

namespace BuildScript

/-- Both lists are in ascending order without repetitions, so equal filters are equal values. -/
structure Filter where
  /-- Packages, each ending in a dot; subpackages are included. -/
  packages : List String := []
  classes : List String := []
deriving DecidableEq, Repr, Inhabited

namespace Filter

/-- Puts a name at its place in an ascending list, unless it is there. -/
def insert (name : String) : List String → List String
  | [] => [name]
  | n :: ns => if name < n then name :: n :: ns else if name = n then n :: ns else n :: insert name ns

def allowPackage (f : Filter) (package : String) : Filter :=
  let package := if package.toList.getLast? = some '.' then package else package ++ "."
  { f with packages := insert package f.packages }

def allowClass (f : Filter) (name : String) : Filter :=
  { f with classes := insert name f.classes }

def allows (f : Filter) (name : String) : Bool :=
  f.classes.contains name || f.packages.any fun p ↦ p.toList.isPrefixOf name.toList

end Filter

end BuildScript
