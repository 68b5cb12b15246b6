import Rollout.Yaml.Token
import Rollout.Text.Percent

/-!
# The text of scalars

Scanning of quoted, plain and block scalars, each by one pass over the characters. Gaps and breaks
inside a scalar that may run over several lines are collected in a `Gap`, whose text is settled by
what follows: a single break is folded to a space, further breaks are kept.
-/

namespace Rollout.Yaml

/-- The gaps and breaks since the last character of a scalar, last one first. -/
inductive Gap where
  /-- Gaps on the same line. -/
  | inline (gaps : List Char)
  /-- A first break, unless that break was escaped, and the further ones. -/
  | broken (first : Option Char) (more : List Char)
deriving DecidableEq, Repr

namespace Gap

def empty : Gap := .inline []

def isEmpty : Gap → Bool
  | .inline gaps => gaps.isEmpty
  | .broken .. => false

def isBroken : Gap → Bool
  | .inline _ => false
  | .broken .. => true

/-- One more space or tab; those at the ends of lines do not count. -/
def addGap (c : Char) : Gap → Gap
  | .inline gaps => .inline (c :: gaps)
  | gap => gap

/-- One more break, given by the character that it stands for. -/
def addBreak (c : Char) : Gap → Gap
  | .inline _ => .broken (some c) []
  | .broken first more => .broken first (c :: more)

/-- The text between two parts of a scalar, last character first. -/
def folded : Gap → List Char
  | .inline gaps => gaps
  | .broken (some '\n') [] => [' ']
  | .broken (some '\n') more => more
  | .broken (some c) more => more ++ [c]
  | .broken none more => more

end Gap

/-- The characters that a one-letter escape stands for. -/
def escapedChar : Char → Option Char
  | '0' => some '\x00'
  | 'a' => some '\x07'
  | 'b' => some '\x08'
  | 't' => some '\t'
  | '\t' => some '\t'
  | 'n' => some '\n'
  | 'v' => some '\x0b'
  | 'f' => some '\x0c'
  | 'r' => some '\r'
  | 'e' => some '\x1b'
  | ' ' => some ' '
  | '"' => some '"'
  | '/' => some '/'
  | '\\' => some '\\'
  | 'N' => some '\x85'
  | '_' => some '\xa0'
  | 'L' => some '\u2028'
  | 'P' => some '\u2029'
  | _ => none

/-- The number of hexadecimal digits after the letter of a numeric escape. -/
def escapeWidth : Char → Option Nat
  | 'x' => some 2
  | 'u' => some 4
  | 'U' => some 8
  | _ => none

/-- The character with a given code point, unless it is a surrogate or too large. -/
def charOfCode (n : Nat) : Option Char :=
  if (0xD800 ≤ n && n ≤ 0xDFFF) || 0x10FFFF < n then none else some (Char.ofNat n)

/-- The state inside a quoted scalar; the text is kept last character first. -/
structure Quoted where
  gap : Gap := .empty
  text : List Char := []
  /-- The digits still to come of a numeric escape, and its value so far. -/
  digits : Nat := 0
  code : Nat := 0

namespace Quoted

/-- The text with what the last gap stands for. -/
def joined (q : Quoted) : List Char := q.gap.folded ++ q.text

/-- The state after one more character. -/
def push (q : Quoted) (c : Char) : Quoted := { text := c :: q.joined }

/-- One digit of a numeric escape; the last digit completes a character. -/
def digit (q : Quoted) (c : Char) : Option Quoted := do
  let v ← Text.Percent.hexValue c
  let code := 16 * q.code + v
  if q.digits = 1 then
    let c ← charOfCode code
    return { text := c :: q.text }
  else
    return { q with digits := q.digits - 1, code }

/-- The rest of a quoted scalar after its opening quote. -/
def scan (double : Bool) (q : Quoted) (m : Mark) : List Char → Option (List Char × Cursor)
  | [] => none
  | c :: cs =>
    if q.digits ≠ 0 then do
      let q ← q.digit c
      scan double q m.next cs
    else if m.column = 0 && atDocumentMark (c :: cs) then none
    else if isGap c then scan double { q with gap := q.gap.addGap c } m.next cs
    else if isBreak c then
      let q := { q with gap := q.gap.addBreak (breakText c) }
      match c, cs with
      | '\r', '\n' :: cs' => scan double q (m.newLine 2) cs'
      | _, cs => scan double q (m.newLine 1) cs
    else if c = '\'' && !double then
      match cs with
      | '\'' :: cs' => scan double (q.push c) (m.advance 2) cs'
      | _ => some (q.joined.reverse, ⟨cs, m.next⟩)
    else if c = '"' && double then some (q.joined.reverse, ⟨cs, m.next⟩)
    else if c = '\\' && double then
      match cs with
      | [] => none
      | e :: cs' =>
        if isBreak e then
          let q : Quoted := { text := q.joined, gap := .broken none [] }
          match e, cs' with
          | '\r', '\n' :: cs'' => scan double q (m.next.newLine 2) cs''
          | _, cs' => scan double q (m.next.newLine 1) cs'
        else match escapeWidth e with
          | some n => scan double { text := q.joined, digits := n } (m.advance 2) cs'
          | none => do
            let x ← escapedChar e
            scan double (q.push x) (m.advance 2) cs'
    else scan double (q.push c) m.next cs

end Quoted

/-- A character that ends a plain scalar inside a flow collection. -/
def isFlowIndicator (c : Char) : Bool :=
  c == ',' || c == '[' || c == ']' || c == '{' || c == '}'

/-- A plain scalar that ends before `rest`: its text, given last character first, whether breaks
follow it, and the position of what comes next. -/
def endPlain (gap : Gap) (text : List Char) (m : Mark) (rest : List Char) :
    List Char × Bool × Cursor := (text.reverse, gap.isBroken, ⟨rest, m⟩)

/-- A plain scalar from its first character on. `indent` is the least column of its further
lines. -/
def scanPlain (flow : Bool) (indent : Nat) (gap : Gap) (text : List Char) (m : Mark) :
    List Char → Option (List Char × Bool × Cursor)
  | [] => some (endPlain gap text m [])
  | c :: cs =>
    if isGap c then
      if c = '\t' && gap.isBroken && m.column < indent then none
      else scanPlain flow indent (gap.addGap c) text m.next cs
    else if isBreak c then
      match c, cs with
      | '\r', '\n' :: cs' => scanPlain flow indent (gap.addBreak '\n') text (m.newLine 2) cs'
      | _, cs => scanPlain flow indent (gap.addBreak (breakText c)) text (m.newLine 1) cs
    else if !gap.isEmpty &&
        ((!flow && m.column < indent) || (m.column = 0 && atDocumentMark (c :: cs)) || c = '#') then
      some (endPlain gap text m (c :: cs))
    else if flow && c = ':' && cs.head?.any (fun d => isFlowIndicator d || d == '?') then none
    else if (c = ':' && endsWord cs) || (flow && isFlowIndicator c) then
      some (endPlain gap text m (c :: cs))
    else scanPlain flow indent .empty (c :: (gap.folded ++ text)) m.next cs

/-- What a block scalar does with the breaks at its end. -/
inductive Chomping where
  | strip
  | clip
  | keep
deriving DecidableEq, Repr

/-- The state inside a block scalar; texts are kept last character first. -/
structure Block where
  /-- The column of its lines, zero while that is still to be found. -/
  indent : Nat
  /-- The greatest column of the blank lines before the first line. -/
  widest : Nat := 0
  text : List Char := []
  /-- The break at the end of the last line. -/
  leading : Option Char := none
  /-- The breaks of the empty lines after it. -/
  trailing : List Char := []
  /-- Whether the last line begins with a gap. -/
  indented : Bool := false
  inLine : Bool := false

namespace Block

/-- The state at the start of a line that begins with `c`. In folded style the break between two
lines that do not begin with a gap is a space, or nothing where empty lines follow. -/
def startLine (b : Block) (literal : Bool) (c : Char) : Block :=
  let folds := !literal && b.leading = some '\n' && !b.indented && !isGap c
  let between :=
    if folds then (if b.trailing.isEmpty then [' '] else b.trailing)
    else b.trailing ++ b.leading.toList
  { b with
    text := c :: (between ++ b.text), leading := none, trailing := [], indented := isGap c
    inLine := true }

/-- The indentation, found from the first line that is not blank if it was not given. -/
def settle (b : Block) (parent : Int) : Block :=
  if b.indent ≠ 0 then b
  else { b with indent := max (max b.widest (parent + 1).toNat) 1 }

/-- The text of the scalar. -/
def finish (b : Block) (chomping : Chomping) : List Char :=
  match chomping with
  | .strip => b.text.reverse
  | .clip => (b.leading.toList ++ b.text).reverse
  | .keep => (b.trailing ++ b.leading.toList ++ b.text).reverse

/-- The state after a break. -/
def endLine (b : Block) (c : Char) : Block :=
  if b.inLine then { b with leading := some (breakText c), inLine := false, widest := 0 }
  else { b with trailing := breakText c :: b.trailing }

/-- The lines of a block scalar. `parent` is the column of the collection that it stands in. -/
def scan (literal : Bool) (parent : Int) (b : Block) (m : Mark) :
    List Char → Option (Block × Cursor)
  | [] =>
    let b := { b with widest := max b.widest m.column }
    some (b.settle parent, ⟨[], m⟩)
  | c :: cs =>
    let inMargin := b.indent = 0 || m.column < b.indent
    if b.inLine && !isBreak c then
      scan literal parent { b with text := c :: b.text } m.next cs
    else if !b.inLine && c = ' ' && inMargin then scan literal parent b m.next cs
    else
      let b := if b.inLine then b else { b with widest := max b.widest m.column }
      if isBreak c then
        match c, cs with
        | '\r', '\n' :: cs' => scan literal parent (b.endLine c) (m.newLine 2) cs'
        | _, cs => scan literal parent (b.endLine c) (m.newLine 1) cs
      else if c = '\t' && inMargin then none
      else
        let b := b.settle parent
        if m.column = b.indent then scan literal parent (b.startLine literal c) m.next cs
        else some (b, ⟨c :: cs, m⟩)

end Block

end Rollout.Yaml
