import Rollout.Text.Blank
import Rollout.Yaml.Value

/-!
# Placeholders

A placeholder is a name between double parentheses, with blanks around it or not:
`((name))`. A text is cut into the placeholders in it and the texts between them, from left to
right and without overlaps.
-/

namespace Rollout

/-- A part of a text. -/
inductive Piece where
  | text (cs : List Char)
  | placeholder (name : String)
deriving DecidableEq, Repr

namespace Placeholder

/-- A character of a placeholder's name. -/
def isNameChar (c : Char) : Bool :=
  c.isAlphanum || c == '_' || c == '.' || c == '/' || c == '-'

/-- The placeholder that a text begins with: its name and the number of its characters. -/
def atStart? : List Char → Option (List Char × Nat)
  | '(' :: '(' :: cs =>
    let before := cs.takeWhile Text.isBlank
    let cs := cs.dropWhile Text.isBlank
    let name := cs.takeWhile isNameChar
    let cs := cs.dropWhile isNameChar
    let after := cs.takeWhile Text.isBlank
    match cs.dropWhile Text.isBlank with
    | ')' :: ')' :: _ =>
      if name.isEmpty then none else some (name, before.length + name.length + after.length + 4)
    | _ => none
  | _ => none

/-- Puts a character in front of the pieces. -/
def consChar (c : Char) : List Piece → List Piece
  | .text cs :: ps => .text (c :: cs) :: ps
  | ps => .text [c] :: ps

/-- The pieces of a text after its first `skipped` characters. -/
def piecesAfter : (skipped : Nat) → List Char → List Piece
  | _, [] => []
  | n + 1, _ :: cs => piecesAfter n cs
  | 0, c :: cs =>
    match atStart? (c :: cs) with
    | some (name, width) => .placeholder (.ofList name) :: piecesAfter (width - 1) cs
    | none => consChar c (piecesAfter 0 cs)

/-- The pieces of a text; there are never two texts in a row. -/
def pieces (s : String) : List Piece := piecesAfter 0 s.toList

/-- The names of the placeholders in a text, from left to right. -/
def names (s : String) : List String :=
  (pieces s).filterMap fun
    | .placeholder name => some name
    | .text _ => none

end Placeholder

end Rollout
