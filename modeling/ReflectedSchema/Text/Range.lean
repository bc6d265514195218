/-!
# Character ranges

A set of characters given by a standard is stored as a list of closed intervals of code points.
-/

namespace ReflectedSchema.Text

/-- Whether a code point lies in one of the closed intervals. -/
def inRanges (ranges : List (Nat × Nat)) (code : Nat) : Bool :=
  ranges.any fun (first, last) => first ≤ code && code ≤ last

end ReflectedSchema.Text
