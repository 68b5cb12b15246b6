import Rollout.Yaml.Value
import Rollout.Yaml.Scalar
import Rollout.Text.Percent

/-!
# Writing documents

The text of a value in block style. Collections are indented by two columns, except that a sequence
that is the value of a key stays at the column of the key. Lines are never folded, and a text is
quoted only where it would not read back as itself otherwise; a text with line feeds is a literal
block where that keeps every character.

The text of a block node always ends at the start of a line.
-/

namespace Rollout.Yaml

/-- The ways in which a text can be written, found from its characters. -/
structure TextShape where
  /-- Whether it holds a break of any kind. -/
  multiline : Bool
  plainAllowed : Bool
  singleQuotedAllowed : Bool
  literalAllowed : Bool
deriving DecidableEq, Repr

namespace TextShape

/-- The characters that are written as they are. -/
def isShown (c : Char) : Bool :=
  let n := c.toNat
  n == 0x0A || (0x20 ≤ n && n ≤ 0x7E) || (0xA0 ≤ n && n ≤ 0xD7FF) ||
    (0xE000 ≤ n && n ≤ 0xFFFD && n != 0xFEFF) || 0x10000 ≤ n

/-- Whether `p` holds of some character and the one after it. -/
def anyPair (p : Char → Char → Bool) : List Char → Bool
  | a :: b :: cs => p a b || anyPair p (b :: cs)
  | _ => false

/-- Whether a plain scalar cannot begin like this. -/
def startsLikeIndicator : List Char → Bool
  | [] => false
  | c :: cs =>
    "#,[]\x7b\x7d&*!|>'\"%@`".toList.contains c ||
      ((c == '?' || c == ':' || c == '-') && endsWord cs)

/-- Whether a colon before a gap, or a number sign after one, stands inside the text. -/
def hasInnerIndicator : List Char → Bool
  | a :: b :: cs =>
    (b == ':' && endsWord cs) || (b == '#' && (isGap a || isBreak a)) || hasInnerIndicator (b :: cs)
  | _ => false

/-- The shape of a text that is not empty. -/
def ofChars (cs : List Char) : TextShape :=
  let marks := "---".toList.isPrefixOf cs || "...".toList.isPrefixOf cs
  let indicators := marks || startsLikeIndicator cs || hasInnerIndicator cs
  let special := cs.any (!isShown ·)
  let breaks := cs.any isBreak
  let space (c : Option Char) := c = some ' '
  let edge (c : Option Char) := c.any isBreak
  let outer := space cs.head? || edge cs.head? || space cs.getLast? || edge cs.getLast?
  let breakSpace := anyPair (fun a b => isBreak a && b == ' ') cs
  let spaceBreak := anyPair (fun a b => a == ' ' && isBreak b) cs
  { multiline := breaks
    plainAllowed := !(indicators || special || breaks || outer || breakSpace || spaceBreak)
    singleQuotedAllowed := !(special || breakSpace || spaceBreak)
    literalAllowed := !(special || spaceBreak || space cs.getLast?) }

/-- The shape of a text. -/
def of (cs : List Char) : TextShape :=
  if cs.isEmpty then ⟨false, true, true, false⟩ else ofChars cs

end TextShape

namespace Scalar

/-- Whether a plain scalar with this text would not be read as text. -/
def isAmbiguous (s : String) : Bool :=
  match ofPlain s with
  | .text _ => isPadded s.toList
  | _ => true

/-- The style in which a text is written. -/
def styleOf (s : String) : Style :=
  let cs := s.toList
  let shape := TextShape.of cs
  let quoted := if shape.singleQuotedAllowed then Style.singleQuoted else .doubleQuoted
  if cs.contains '\n' then (if shape.literalAllowed then .literal else .doubleQuoted)
  else if isAmbiguous s then quoted
  else if shape.plainAllowed then .plain
  else quoted

/-- The hexadecimal digits of a code point, filled up with zeros to a width. -/
def hexDigits (width n : Nat) : List Char :=
  let ds := (Nat.toDigits 16 n).map Char.toUpper
  List.replicate (width - ds.length) '0' ++ ds

/-- One character between double quotes. -/
def escape (c : Char) : List Char :=
  match c with
  | '\x00' => ['\\', '0']
  | '\x07' => ['\\', 'a']
  | '\x08' => ['\\', 'b']
  | '\t' => ['\\', 't']
  | '\n' => ['\\', 'n']
  | '\x0b' => ['\\', 'v']
  | '\x0c' => ['\\', 'f']
  | '\r' => ['\\', 'r']
  | '\x1b' => ['\\', 'e']
  | '"' => ['\\', '"']
  | '\\' => ['\\', '\\']
  | '\x85' => ['\\', 'N']
  | '\u2028' => ['\\', 'L']
  | '\u2029' => ['\\', 'P']
  | c =>
    let n := c.toNat
    if TextShape.isShown c then [c]
    else if n ≤ 0xFF then '\\' :: 'x' :: hexDigits 2 n
    else if n ≤ 0xFFFF then '\\' :: 'u' :: hexDigits 4 n
    else '\\' :: 'U' :: hexDigits 8 n

/-- The characters between single quotes. Line separators are followed by the indentation of the
next line; quotes are doubled. -/
def singleQuoted (indent : Nat) (afterBreak : Bool) : List Char → List Char
  | [] => if afterBreak then List.replicate indent ' ' else []
  | c :: cs =>
    if isBreak c then c :: singleQuoted indent true cs
    else
      (if afterBreak then List.replicate indent ' ' else []) ++
        (if c = '\'' then ['\'', '\''] else [c]) ++ singleQuoted indent false cs

/-- The lines of a literal block, each after the indentation unless it is empty. -/
def literalLines (indent : Nat) (afterBreak : Bool) : List Char → List Char
  | [] => if afterBreak then [] else ['\n']
  | c :: cs =>
    if isBreak c then c :: literalLines indent true cs
    else
      (if afterBreak then List.replicate indent ' ' else []) ++ c :: literalLines indent false cs

/-- The indicator of a literal block: the indentation is given where the text begins with a gap or
a break, and the breaks at the end are stripped, clipped or kept. -/
def literalHeader (cs : List Char) : List Char :=
  let opening := match cs with
    | c :: _ => c == ' ' || isBreak c
    | [] => false
  let chomping := match cs.reverse with
    | [] => ['-']
    | [c] => if isBreak c then ['+'] else ['-']
    | c :: d :: _ => if !isBreak c then ['-'] else if isBreak d then ['+'] else []
  '|' :: (if opening then ['2'] else []) ++ chomping

/-- A text in a given style on one line; `indent` only matters where it holds separators. -/
def inline (style : Style) (indent : Nat) (cs : List Char) : List Char :=
  match style with
  | .singleQuoted => '\'' :: singleQuoted indent false cs ++ ['\'']
  | .doubleQuoted => '"' :: cs.flatMap escape ++ ['"']
  | _ => cs

/-- A text as a block node after its lead, up to the start of the next line. -/
def block (s : String) (indent : Nat) : List Char :=
  let cs := s.toList
  match styleOf s with
  | .literal => literalHeader cs ++ '\n' :: literalLines indent true cs
  | style => inline style indent cs ++ ['\n']

end Scalar

/-- Where a node begins. -/
inductive Position where
  /-- At the start of its line, where the document begins. -/
  | lineStart
  /-- After the dash of an item or the mark of a long key or its value. -/
  | afterIndicator
  /-- After the colon of a short key, or after a tag. -/
  | afterKey
deriving DecidableEq, Repr

/-- What stands between a position and a scalar on the same line. -/
def Position.gap : Position → List Char
  | .lineStart => []
  | _ => [' ']

/-- What stands between a position and the first line of a block collection. -/
def Position.lead (p : Position) (indent : Nat) : List Char :=
  match p with
  | .lineStart => []
  | .afterIndicator => [' ']
  | .afterKey => '\n' :: List.replicate indent ' '

/-- The octets that stand for themselves in a tag; the others are escaped. -/
def isPlainTagOctet (b : UInt8) : Bool :=
  let c := Char.ofNat b.toNat
  b.toNat < 128 && (isWordChar c || ";/?:@&=+$,.~*'()[]".toList.contains c)

/-- The octets of a local tag after its exclamation mark. -/
def tagOctets (name : String) : List UInt8 :=
  match Text.Percent.octets name with
  | 33 :: octets => octets
  | octets => octets

/-- A local tag as it is written. -/
def tagText (name : String) : List Char :=
  if (tagOctets name).isEmpty then "!<%21>".toList
  else '!' :: (tagOctets name).flatMap fun b =>
    if isPlainTagOctet b then [Char.ofNat b.toNat] else Text.Percent.escape b

namespace Value

/-- The text of a value that is not a text or a collection. -/
def atom? : Value → Option (List Char)
  | .null => some "null".toList
  | .bool b => some (if b then "true" else "false").toList
  | .number n => some n.text.toList
  | _ => none

/-- A short key: a scalar without breaks or an empty collection, of at most 128 octets with its
tag, as it is written at the start of a line. -/
def shortKey? : Value → Option (List Char)
  | .tagged tag v => do
    let (text, size) ← untagged? v
    if (tagOctets tag).length + 1 + size ≤ 128 then some (tagText tag ++ ' ' :: text) else none
  | v => do
    let (text, size) ← untagged? v
    if size ≤ 128 then some text else none
where
  /-- The text of a key without a tag and the octets that count. -/
  untagged? : Value → Option (List Char × Nat)
    | .string s =>
      if (TextShape.of s.toList).multiline then none
      else some (Scalar.inline (Scalar.styleOf s) 0 s.toList, s.utf8ByteSize)
    | .sequence [] => some ("[]".toList, 0)
    | .mapping [] => some ("\x7b\x7d".toList, 0)
    | v => v.atom?.map fun text => (text, text.length)

mutual

/-- A block node after `position`, up to the start of the next line. `indent` is the column of the
collection around it, `none` for the root, and `inMapping` tells whether that is a mapping. -/
def writeBlock (position : Position) (indent : Option Nat) (inMapping : Bool) :
    Value → List Char
  | .tagged tag v => position.gap ++ tagText tag ++ writeBlock .afterKey indent inMapping v
  | .sequence [] => position.gap ++ "[]\n".toList
  | .mapping [] => position.gap ++ "\x7b\x7d\n".toList
  | .sequence items =>
    let column := match indent with
      | none => 0
      | some i => if inMapping && position = .afterKey then i else i + 2
    position.lead column ++ writeItems column true items
  | .mapping entries =>
    let column := (indent.map (· + 2)).getD 0
    position.lead column ++ writeEntries column true entries
  | .string s => position.gap ++ Scalar.block s ((indent.getD 0) + 2)
  | .null => position.gap ++ "null\n".toList
  | .bool b => position.gap ++ (if b then "true\n" else "false\n").toList
  | .number n => position.gap ++ n.text.toList ++ ['\n']
termination_by structural v => v

/-- The items of a block sequence. The first one stands where the sequence begins. -/
def writeItems (column : Nat) (first : Bool) : List Value → List Char
  | [] => []
  | v :: vs =>
    (if first then [] else List.replicate column ' ') ++
      '-' :: writeBlock .afterIndicator (some column) false v ++ writeItems column false vs
termination_by structural vs => vs

/-- The entries of a block mapping. A key that is not short is marked and has lines of its own. -/
def writeEntries (column : Nat) (first : Bool) : Entries → List Char
  | [] => []
  | (k, v) :: es =>
    (if first then [] else List.replicate column ' ') ++
      (match shortKey? k with
        | some key => key ++ ':' :: writeBlock .afterKey (some column) true v
        | none =>
          '?' :: writeBlock .afterIndicator (some column) true k ++ List.replicate column ' ' ++
            ':' :: writeBlock .afterIndicator (some column) true v) ++
      writeEntries column false es
termination_by structural es => es

end

/-- Whether a value is a mapping of one entry or carries a tag. -/
def opensLate : Value → Bool
  | .tagged .. => true
  | .mapping [_] => true
  | _ => false

mutual

/-- Whether a value can be written: no tag directly under another tag, and no mapping of one entry
whose key is such a mapping or carries a tag, except directly under a tag. -/
def isWritable (underTag : Bool) : Value → Bool
  | .tagged _ v => !underTag && v.isWritable true
  | .sequence items => itemsWritable items
  | .mapping [(k, v)] =>
    (underTag || !k.opensLate) && k.isWritable false && v.isWritable false
  | .mapping entries => entriesWritable entries
  | _ => true
termination_by structural v => v

/-- Whether all items can be written. -/
def itemsWritable : List Value → Bool
  | [] => true
  | v :: vs => v.isWritable false && itemsWritable vs
termination_by structural vs => vs

/-- Whether all keys and values can be written. -/
def entriesWritable : Entries → Bool
  | [] => true
  | (k, v) :: es => k.isWritable false && v.isWritable false && entriesWritable es
termination_by structural es => es

end

/-- The document that holds a value, if it can be written. -/
def write? (v : Value) : Option String :=
  if v.isWritable false then some (.ofList (writeBlock .lineStart none false v)) else none

end Value

end Rollout.Yaml
