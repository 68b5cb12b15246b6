import Rollout.Yaml.Node
import Rollout.Decimal.Binary64
import Rollout.Text.Percent

/-!
# The meaning of scalars

What the text of a scalar stands for: null, a truth value, an integer, a floating-point number or
text. Only plain scalars stand for anything but text, unless a tag of the core says so.
-/

namespace Rollout.Yaml

/-- What a scalar stands for. Integers are those of 128 bits, signed or unsigned. -/
inductive Scalar where
  | null
  | bool (b : Bool)
  | integer (n : Int)
  | float (x : Decimal.Binary64)
  | text (s : String)
deriving DecidableEq, Repr

namespace Scalar

def isNull (cs : List Char) : Bool :=
  cs == "null".toList || cs == "Null".toList || cs == "NULL".toList || cs == ['~']

def bool? (cs : List Char) : Option Bool :=
  if cs == "true".toList || cs == "True".toList || cs == "TRUE".toList then some true
  else if cs == "false".toList || cs == "False".toList || cs == "FALSE".toList then some false
  else none

/-- The number that digits of a base stand for; there is at least one digit. -/
def digitsValue (base : Nat) (cs : List Char) : Option Nat :=
  if cs.isEmpty then none
  else cs.foldlM (fun n c => do
    let d ← Text.Percent.hexValue c
    if d < base then some (base * n + d) else none) 0

/-- Whether the text begins with a sign. -/
def isSigned : List Char → Bool
  | '+' :: _ | '-' :: _ => true
  | _ => false

/-- Digits with a needless zero in front are text, not a number, with a sign or without. -/
def isPadded (cs : List Char) : Bool :=
  let body := if isSigned cs then cs.tail else cs
  1 < body.length && body.head? = some '0' && body.all Char.isDigit

/-- The number that digits with `0x`, `0o` or `0b` in front stand for. -/
def based? : List Char → Option Nat
  | '0' :: 'x' :: cs => digitsValue 16 cs
  | '0' :: 'o' :: cs => digitsValue 8 cs
  | '0' :: 'b' :: cs => digitsValue 2 cs
  | _ => none

/-- The natural number that digits stand for, in base ten or with the mark of another base. -/
def natural? (cs : List Char) : Option Nat :=
  match based? cs with
  | some n => some n
  | none => if isPadded cs then none else digitsValue 10 cs

/-- The integer that a text stands for, if it fits into 128 bits. -/
def integer? : List Char → Option Int
  | '-' :: cs => do
    let n ← natural? cs
    if n ≤ Nat.pow 2 127 then some (-(n : Int)) else none
  | '+' :: cs => do
    let n ← natural? cs
    if n < Nat.pow 2 128 then some (n : Int) else none
  | cs => do
    let n ← natural? cs
    if n < Nat.pow 2 128 then some (n : Int) else none

/-- The exponent at the end of a decimal number: nothing, or `e` and an integer. -/
def exponent? : List Char → Option Int
  | [] => some 0
  | e :: cs =>
    if e = 'e' || e = 'E' then
      match cs with
      | '-' :: cs => (digitsValue 10 cs).map fun n => -(n : Int)
      | '+' :: cs => (digitsValue 10 cs).map (↑·)
      | cs => (digitsValue 10 cs).map (↑·)
    else none

/-- The number nearest to a decimal without a sign: digits with a point anywhere or none, and
perhaps an exponent. -/
def decimal? (negative : Bool) (cs : List Char) : Option Decimal.Binary64 := do
  let whole := cs.takeWhile Char.isDigit
  let (fraction, rest) := match cs.dropWhile Char.isDigit with
    | '.' :: cs => (cs.takeWhile Char.isDigit, cs.dropWhile Char.isDigit)
    | cs => ([], cs)
  let digits ← digitsValue 10 (whole ++ fraction)
  let exponent ← exponent? rest
  return .ofDecimal negative digits (exponent - fraction.length)

/-- The floating-point number that a text stands for; a decimal must not be too large. -/
def float? (cs : List Char) : Option Decimal.Binary64 :=
  let isInfinity (cs : List Char) : Bool :=
    cs == ".inf".toList || cs == ".Inf".toList || cs == ".INF".toList
  let finite (x : Option Decimal.Binary64) := x.filter (·.isFinite)
  match cs with
  | '+' :: cs => if isInfinity cs then some (.infinite false) else finite (decimal? false cs)
  | '-' :: cs => if isInfinity cs then some (.infinite true) else finite (decimal? true cs)
  | cs =>
    if isInfinity cs then some (.infinite false)
    else if cs == ".nan".toList || cs == ".NaN".toList || cs == ".NAN".toList then some .nan
    else finite (decimal? false cs)

/-- What a plain scalar stands for. -/
def ofPlain (s : String) : Scalar :=
  let cs := s.toList
  if cs.isEmpty || isNull cs then .null
  else match bool? cs with
    | some b => .bool b
    | none => match integer? cs with
      | some n => .integer n
      | none => match if isPadded cs then none else float? cs with
        | some x => .float x
        | none => .text s

/-- The octets of a tag of the core. -/
def coreTag (name : String) : Tag := ("tag:yaml.org,2002:" ++ name).toUTF8.data.toList

/-- What a scalar with its tag and style stands for. The error is what the tag asks for. With
`tagKnown` the tag has been taken off already. -/
def read (tag : Option Tag) (style : Style) (s : String) (tagKnown : Bool) :
    Except String Scalar :=
  let untagged := if style = .plain then ofPlain s else .text s
  match if tagKnown then none else tag with
  | none => .ok untagged
  | some t =>
    let cs := s.toList
    let orElse (expected : String) (x : Option Scalar) : Except String Scalar :=
      match x with
      | some x => .ok x
      | none => .error expected
    if t = coreTag "bool" then orElse "a boolean" ((bool? cs).map .bool)
    else if t = coreTag "int" then orElse "an integer" ((integer? cs).map .integer)
    else if t = coreTag "float" then orElse "a float" ((float? cs).map .float)
    else if t = coreTag "null" then orElse "null" (if isNull cs then some .null else none)
    else if t.head? = some 33 then .ok untagged
    else .ok (.text s)

/-- An integer that neither 64 bits nor 64 bits with a sign can hold. -/
def isWide (n : Int) : Bool := n < -(Int.pow 2 63) || Int.pow 2 64 ≤ n

end Scalar

end Rollout.Yaml
