/-!
# Splitting at a separator

A text of `n` separators has `n + 1` pieces, some of which may be empty.
-/

namespace ReflectedSchema.Text

/-- The pieces of a text after an unfinished piece, which is kept in reverse. -/
def splitFrom (separator : Char) (piece : List Char) : List Char → List (List Char)
  | [] => [piece.reverse]
  | c :: rest =>
    if c = separator then piece.reverse :: splitFrom separator [] rest
    else splitFrom separator (c :: piece) rest

/-- The pieces of a text between separators. -/
def split (separator : Char) (cs : List Char) : List (List Char) :=
  splitFrom separator [] cs

/-- What holds no separator goes on with the piece. -/
theorem splitFrom_append {separator : Char} {cs : List Char} (h : separator ∉ cs)
    (piece rest : List Char) :
    splitFrom separator piece (cs ++ rest) = splitFrom separator (cs.reverse ++ piece) rest := by
  induction cs generalizing piece with
  | nil => rfl
  | cons c cs ih =>
    have hc : c ≠ separator := fun hc => h (hc ▸ List.mem_cons_self)
    rw [List.cons_append, splitFrom, if_neg hc, ih fun hm => h (List.mem_cons_of_mem _ hm)]
    simp

/-- A text without separators is one piece. -/
theorem split_of_not_mem {separator : Char} {cs : List Char} (h : separator ∉ cs) :
    split separator cs = [cs] := by
  have := splitFrom_append h [] []
  simpa [split, splitFrom] using this

/-- The first piece ends at the first separator. -/
theorem split_append_cons {separator : Char} {cs : List Char} (h : separator ∉ cs)
    (rest : List Char) : split separator (cs ++ separator :: rest) = cs :: split separator rest := by
  rw [split, splitFrom_append h, splitFrom, if_pos rfl]
  simp [split]

/-- There is one piece more than there are separators. -/
theorem length_splitFrom (separator : Char) (piece cs : List Char) :
    (splitFrom separator piece cs).length = cs.count separator + 1 := by
  induction cs generalizing piece with
  | nil => rfl
  | cons c cs ih =>
    by_cases hc : c = separator
    · rw [splitFrom, if_pos hc, List.length_cons, ih, hc, List.count_cons_self]
    · rw [splitFrom, if_neg hc, ih, List.count_cons_of_ne (by simpa using hc)]

/-- There is one part more than there are separators. -/
theorem length_split (separator : Char) (cs : List Char) :
    (split separator cs).length = cs.count separator + 1 :=
  length_splitFrom separator [] cs

end ReflectedSchema.Text
