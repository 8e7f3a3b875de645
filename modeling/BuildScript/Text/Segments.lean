/-!
# Segments

Cutting a text at every occurrence of a separator, and putting it together again. A text with `n`
separators has `n + 1` segments, some of which may be empty.
-/

namespace BuildScript

/-- The stretches between the separators. -/
def segments (separator : Char) : List Char → List (List Char)
  | [] => [[]]
  | c :: cs =>
    match segments separator cs with
    | [] => [[c]]
    | s :: ss => if c = separator then [] :: s :: ss else (c :: s) :: ss

/-- The stretches put together again, a separator between any two. -/
def joinSegments (separator : Char) : List (List Char) → List Char
  | [] => []
  | [s] => s
  | s :: ss => s ++ separator :: joinSegments separator ss

theorem segments_ne_nil (separator : Char) (cs : List Char) : segments separator cs ≠ [] := by
  cases cs with
  | nil => simp [segments]
  | cons c cs =>
    simp only [segments]
    split
    · simp
    · split <;> simp

theorem joinSegments_segments (separator : Char) (cs : List Char) :
    joinSegments separator (segments separator cs) = cs := by
  induction cs with
  | nil => rfl
  | cons c cs ih =>
    simp only [segments]
    split
    next h => exact absurd h (segments_ne_nil separator cs)
    next s ss h =>
      rw [h] at ih
      split
      next hc => simp [joinSegments, ih, hc]
      next hc =>
        cases ss with
        | nil => simpa [joinSegments] using ih
        | cons t ss => simpa [joinSegments] using ih

/-- The segments of a string. -/
def splitText (separator : Char) (s : String) : List String :=
  (segments separator s.toList).map String.ofList

end BuildScript
