import Rollout.Text.Percent

/-!
# JSON values

A JSON text is read strictly: no comments, no commas at the end of a collection, no leading zeros,
no control characters inside strings, nothing after the value. Members keep their order and may
repeat a name. A string whose escapes spell out half of a surrogate pair is well formed but holds no
text.
-/

namespace Rollout.Json

/-- A JSON value. Numbers are kept as they are written. -/
inductive Value where
  | null
  | bool (b : Bool)
  | number (text : String)
  /-- A string with its text, if its escapes spell out one. -/
  | string (text : Option String)
  | array (items : List Value)
  | object (members : List (Option String × Value))
deriving Repr

/-- A part of a string: a character, or a unit of sixteen bits that an escape spells out. -/
inductive Piece where
  | char (c : Char)
  | unit (n : Nat)
deriving DecidableEq, Repr

/-- The character of a surrogate pair. -/
def pairChar (high low : Nat) : Char :=
  Char.ofNat (0x10000 + (high - 0xD800) * 0x400 + (low - 0xDC00))

/-- The first half of a surrogate pair. -/
def isHigh (n : Nat) : Bool := 0xD800 ≤ n && n ≤ 0xDBFF

/-- The second half of a surrogate pair. -/
def isLow (n : Nat) : Bool := 0xDC00 ≤ n && n ≤ 0xDFFF

/-- The characters of a string: the two halves of a pair must stand side by side. -/
def pieceChars : List Piece → Option (List Char)
  | [] => some []
  | .char c :: ps => (pieceChars ps).map (c :: ·)
  | .unit h :: .unit l :: ps =>
    if isHigh h then
      if isLow l then (pieceChars ps).map (pairChar h l :: ·) else none
    else if isLow h then none
    else (pieceChars (.unit l :: ps)).map (Char.ofNat h :: ·)
  | .unit h :: ps =>
    if isHigh h || isLow h then none else (pieceChars ps).map (Char.ofNat h :: ·)

/-- The text of a string. -/
def pieceText (ps : List Piece) : Option String := (pieceChars ps).map .ofList

/-- The character that stands after a backslash for another one. -/
def escaped? : Char → Option Char
  | '"' => some '"'
  | '\\' => some '\\'
  | '/' => some '/'
  | 'b' => some '\x08'
  | 'f' => some '\x0c'
  | 'n' => some '\n'
  | 'r' => some '\r'
  | 't' => some '\t'
  | _ => none

/-- The unit that four hexadecimal digits spell out. -/
def unit? (a b c d : Char) : Option Nat := do
  let a ← Text.Percent.hexValue a
  let b ← Text.Percent.hexValue b
  let c ← Text.Percent.hexValue c
  let d ← Text.Percent.hexValue d
  return ((a * 16 + b) * 16 + c) * 16 + d

/-- The pieces of a string up to its closing quote, and what follows the quote. -/
def scanString : List Char → Option (List Piece × List Char)
  | [] => none
  | '"' :: cs => some ([], cs)
  | '\\' :: 'u' :: a :: b :: c :: d :: cs => do
    let n ← unit? a b c d
    let (ps, rest) ← scanString cs
    return (.unit n :: ps, rest)
  | '\\' :: e :: cs => do
    let c ← escaped? e
    let (ps, rest) ← scanString cs
    return (.char c :: ps, rest)
  | c :: cs =>
    if c.toNat < 0x20 || c = '\\' then none
    else (scanString cs).map fun (ps, rest) => (.char c :: ps, rest)

/-- The digits at the beginning, of which there must be one, and what follows. -/
def digits1 (cs : List Char) : Option (List Char × List Char) :=
  match cs.takeWhile Char.isDigit with
  | [] => none
  | ds => some (ds, cs.dropWhile Char.isDigit)

/-- The whole part of a number: a zero, or digits that do not begin with one. -/
def scanWhole (cs : List Char) : Option (List Char × List Char) := do
  let (ds, rest) ← digits1 cs
  match ds with
  | '0' :: _ :: _ => none
  | _ => some (ds, rest)

/-- The fraction of a number, if there is one. -/
def scanFraction : List Char → Option (List Char × List Char)
  | '.' :: cs => (digits1 cs).map fun (ds, rest) => ('.' :: ds, rest)
  | cs => some ([], cs)

/-- The exponent of a number, if there is one. -/
def scanExponent : List Char → Option (List Char × List Char)
  | e :: cs =>
    if e = 'e' ∨ e = 'E' then
      match cs with
      | s :: ds =>
        if s = '+' ∨ s = '-' then (digits1 ds).map fun (ds, rest) => (e :: s :: ds, rest)
        else (digits1 cs).map fun (ds, rest) => (e :: ds, rest)
      | [] => none
    else some ([], e :: cs)
  | [] => some ([], [])

/-- A number and what follows it. -/
def scanNumber (cs : List Char) : Option (String × List Char) := do
  let (sign, cs) := match cs with
    | '-' :: cs => (['-'], cs)
    | cs => ([], cs)
  let (whole, cs) ← scanWhole cs
  let (fraction, cs) ← scanFraction cs
  let (exponent, cs) ← scanExponent cs
  return (.ofList (sign ++ whole ++ fraction ++ exponent), cs)

/-- White space between the parts of a text. -/
def isSpace (c : Char) : Bool := c = ' ' || c = '\t' || c = '\n' || c = '\r'

/-- The text from the first character on that is not white space. -/
def skipSpace (cs : List Char) : List Char := cs.dropWhile isSpace

mutual

/-- A value and what follows it. -/
def scanValue : Nat → List Char → Option (Value × List Char)
  | 0, _ => none
  | fuel + 1, cs =>
    match skipSpace cs with
    | 'n' :: 'u' :: 'l' :: 'l' :: cs => some (.null, cs)
    | 't' :: 'r' :: 'u' :: 'e' :: cs => some (.bool true, cs)
    | 'f' :: 'a' :: 'l' :: 's' :: 'e' :: cs => some (.bool false, cs)
    | '"' :: cs => (scanString cs).map fun (ps, cs) => (.string (pieceText ps), cs)
    | '[' :: cs =>
      match skipSpace cs with
      | ']' :: cs => some (.array [], cs)
      | cs => (scanItems fuel cs).map fun (vs, cs) => (.array vs, cs)
    | '\x7b' :: cs =>
      match skipSpace cs with
      | '\x7d' :: cs => some (.object [], cs)
      | cs => (scanMembers fuel cs).map fun (ms, cs) => (.object ms, cs)
    | cs => (scanNumber cs).map fun (n, cs) => (.number n, cs)

/-- The items of an array up to its closing bracket, and what follows. -/
def scanItems : Nat → List Char → Option (List Value × List Char)
  | 0, _ => none
  | fuel + 1, cs => do
    let (v, cs) ← scanValue fuel cs
    match skipSpace cs with
    | ']' :: cs => return ([v], cs)
    | ',' :: cs =>
      let (vs, cs) ← scanItems fuel cs
      return (v :: vs, cs)
    | _ => none

/-- The members of an object up to its closing brace, and what follows. -/
def scanMembers : Nat → List Char → Option (List (Option String × Value) × List Char)
  | 0, _ => none
  | fuel + 1, cs => do
    let '"' :: cs := skipSpace cs | none
    let (name, cs) ← scanString cs
    let ':' :: cs := skipSpace cs | none
    let (v, cs) ← scanValue fuel cs
    match skipSpace cs with
    | '\x7d' :: cs => return ([(pieceText name, v)], cs)
    | ',' :: cs =>
      let (ms, cs) ← scanMembers fuel cs
      return ((pieceText name, v) :: ms, cs)
    | _ => none

end

/-- The value that a text spells out. A value inside another one begins after at least one
character of it, so two steps for each character are enough. -/
def Value.ofText? (text : String) : Option Value := do
  let cs := text.toList
  let (v, rest) ← scanValue (2 * cs.length + 2) cs
  if (skipSpace rest).isEmpty then some v else none

end Rollout.Json
