import BuildScript.Text.CharSet

/-!
# Blanks

The property White_Space, and texts without blanks at their ends.
-/

namespace BuildScript

/-- The property White_Space. -/
def CharSet.blank : CharSet where
  boundaries := [
    9, 14, 32, 33, 133, 134, 160, 161, 5760, 5761, 8192, 8203, 8232, 8234, 8239, 8240, 8287, 8288,
    12288, 12289]

/-- A text without the blanks at its ends. -/
def trimBlanks (s : String) : String :=
  let front := s.toList.dropWhile CharSet.blank.contains
  String.ofList (front.reverse.dropWhile CharSet.blank.contains).reverse

end BuildScript
