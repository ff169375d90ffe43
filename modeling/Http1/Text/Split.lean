import Http1.Bytes

/-!
Text cut at every occurrence of a character. There is always one piece more than there are cuts.
-/

namespace Http1

/-- The pieces of a text between the occurrences of `sep`. -/
def split (sep : Char) : Text → List Text
  | [] => [[]]
  | c :: t =>
    if c = sep then [] :: split sep t
    else
      match split sep t with
      | [] => [[c]]
      | p :: ps => (c :: p) :: ps

theorem split_ne_nil (sep : Char) (t : Text) : split sep t ≠ [] := by
  unfold split
  split
  · simp
  · split
    · simp
    · split <;> simp

end Http1
