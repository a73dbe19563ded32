/-!
# Separated lists

A text is cut at each separator; the pieces may be empty, and there is always one
more piece than there are separators.

Main statement:

* `split_ne_nil`: there is a piece.
-/

namespace VpnNode.Text

/-- The pieces between the separators of a text. -/
def split (sep : Char) : List Char → List (List Char)
  | [] => [[]]
  | c :: r =>
    if c = sep then [] :: split sep r
    else match split sep r with
      | [] => [[c]]
      | p :: ps => (c :: p) :: ps

/-- There is a piece. -/
theorem split_ne_nil (sep : Char) (cs : List Char) : split sep cs ≠ [] := by
  cases cs with
  | nil => simp [split]
  | cons c r =>
    unfold split
    split
    · simp
    · split <;> simp

/-- Does a text occur within another? -/
def contains (part : List Char) : List Char → Bool
  | [] => part.isEmpty
  | c :: r => part.isPrefixOf (c :: r) || contains part r

end VpnNode.Text
