/-!
# Positions in a document

The character classes that the block structure of YAML rests on, and a position in the text of a
document: what is left to read, with the line and column reached. Columns and lines count
characters and breaks; a carriage return with the line feed after it is one break.
-/

namespace Rollout.Yaml

/-- A line break: line feed, carriage return, next line, line separator or paragraph separator. -/
def isBreak (c : Char) : Bool :=
  c == '\n' || c == '\r' || c == '\x85' || c == '\u2028' || c == '\u2029'

/-- A space or a tab. -/
def isGap (c : Char) : Bool := c == ' ' || c == '\t'

/-- A character of anchors, tag handles and directive names. -/
def isWordChar (c : Char) : Bool := c.isAlphanum || c == '_' || c == '-'

/-- Whether the text begins with a gap or a break, or is at its end. -/
def endsWord : List Char → Bool
  | [] => true
  | c :: _ => isGap c || isBreak c

/-- Whether the text begins with a break or is at its end. -/
def endsLine : List Char → Bool
  | [] => true
  | c :: _ => isBreak c

/-- Whether the text begins with `---` or `...` as a word of its own. -/
def atDocumentMark : List Char → Bool
  | '-' :: '-' :: '-' :: cs => endsWord cs
  | '.' :: '.' :: '.' :: cs => endsWord cs
  | _ => false

/-- The character that a break adds to a scalar: the separators stand for themselves, all other
breaks for a line feed. -/
def breakText (c : Char) : Char := if c == '\u2028' || c == '\u2029' then c else '\n'

/-- The characters that may occur in a document at all. -/
def isAllowed (c : Char) : Bool :=
  let n := c.toNat
  n == 9 || n == 10 || n == 13 || (0x20 ≤ n && n ≤ 0x7E) || n == 0x85 ||
    (0xA0 ≤ n && n ≤ 0xFFFD) || 0x10000 ≤ n

/-- A place in a document. -/
structure Mark where
  index : Nat
  line : Nat
  column : Nat
deriving DecidableEq, Repr

namespace Mark

def start : Mark := ⟨0, 0, 0⟩

/-- The place some characters further on the same line. -/
def advance (m : Mark) (n : Nat) : Mark := ⟨m.index + n, m.line, m.column + n⟩

/-- The place one character further on the same line. -/
def next (m : Mark) : Mark := m.advance 1

/-- The start of the next line, after a break of the given number of characters. -/
def newLine (m : Mark) (n : Nat) : Mark := ⟨m.index + n, m.line + 1, 0⟩

end Mark

/-- A position in a document: the text not read yet and its place. -/
structure Cursor where
  rest : List Char
  mark : Mark
deriving DecidableEq, Repr

namespace Cursor

def start (text : List Char) : Cursor := ⟨text, .start⟩

/-- The position some characters further on the same line. -/
def advance (c : Cursor) (n : Nat) : Cursor := ⟨c.rest.drop n, c.mark.advance n⟩

/-- The characters of the line from here on that satisfy `p`, and the position after them. -/
def span (c : Cursor) (p : Char → Bool) : List Char × Cursor :=
  let taken := c.rest.takeWhile p
  (taken, c.advance taken.length)

/-- The position after the characters that satisfy `p`. -/
def skip (c : Cursor) (p : Char → Bool) : Cursor := (c.span p).2

/-- The position after the break that stands here; there need not be one. -/
def skipBreak (c : Cursor) : Cursor :=
  match c.rest with
  | '\r' :: '\n' :: cs => ⟨cs, c.mark.newLine 2⟩
  | x :: cs => if isBreak x then ⟨cs, c.mark.newLine 1⟩ else c
  | [] => c

/-- The position at the end of the line if only gaps and a comment are left on it. -/
def finishLine? (c : Cursor) : Option Cursor :=
  let c := c.skip isGap
  let c := if c.rest.head? = some '#' then c.skip (!isBreak ·) else c
  if endsLine c.rest then some c.skipBreak else none

end Cursor

end Rollout.Yaml
