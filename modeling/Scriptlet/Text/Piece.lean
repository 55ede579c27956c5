namespace Scriptlet
namespace Text

/-!
Cutting a text into pieces at a separator, and cutting every occurrence of a piece out of
a text.
-/

/-- The pieces between separators.  There is always one piece more than separators, so an
empty text has one empty piece. -/
def pieces (separator : Char) : List Char → List (List Char)
  | [] => [[]]
  | c :: rest =>
      match pieces separator rest with
      | [] => [[c]]
      | piece :: others =>
          if c = separator then [] :: piece :: others else (c :: piece) :: others

/-- Walks a text from the left.  While `skip` is positive the character belongs to an
occurrence that has already been found. -/
def eraseFrom (piece : List Char) : Nat → List Char → List Char
  | _, [] => []
  | skip + 1, _ :: rest => eraseFrom piece skip rest
  | 0, c :: rest =>
      if piece.isPrefixOf (c :: rest) then eraseFrom piece (piece.length - 1) rest
      else c :: eraseFrom piece 0 rest

/-- Cuts out the occurrences of a piece, from the left and without overlap.  An empty piece
occurs nowhere. -/
def eraseAll (piece text : List Char) : List Char :=
  if piece.isEmpty then text else eraseFrom piece 0 text

end Text
end Scriptlet
