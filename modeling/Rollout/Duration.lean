import Rollout.Text.Blank

/-!
# Durations

A duration is written as a sum of terms such as `1h 30m` or `1.5s`: digits, perhaps a fraction, and
the name of a unit. Blanks between the parts of a term and between terms do not count. A lone `0`
needs no unit. Durations are counted in whole nanoseconds, and every number that comes up on the way
must fit into 64 bits.
-/

namespace Rollout

/-- A duration of whole seconds and some nanoseconds, fewer than a second has. -/
structure Duration where
  seconds : Nat
  nanos : Nat
deriving DecidableEq, Repr

namespace Duration

/-- A unit of time: a number of seconds, or a number of nanoseconds. -/
structure TimeUnit where
  seconds : Nat
  nanos : Nat
deriving DecidableEq, Repr

/-- The units by their names. A month is 30.44 days long, a year 365.25 days. -/
def units : List (List String × TimeUnit) :=
  [(["nanos", "nsec", "ns"], ⟨0, 1⟩),
    (["usec", "us", "µs"], ⟨0, 1000⟩),
    (["millis", "msec", "ms"], ⟨0, 1000000⟩),
    (["seconds", "second", "secs", "sec", "s"], ⟨1, 0⟩),
    (["minutes", "minute", "mins", "min", "m"], ⟨60, 0⟩),
    (["hours", "hour", "hrs", "hr", "h"], ⟨3600, 0⟩),
    (["days", "day", "d"], ⟨86400, 0⟩),
    (["weeks", "week", "wks", "wk", "w"], ⟨604800, 0⟩),
    (["months", "month", "M"], ⟨2630016, 0⟩),
    (["years", "year", "yrs", "yr", "y"], ⟨31557600, 0⟩)]

/-- The unit with a name. -/
def unit? (name : String) : Option TimeUnit :=
  (units.find? fun (names, _) => names.contains name).map (·.2)

/-- A term: a number in decimal digits, the digits after the point, and the unit. -/
structure Term where
  whole : List Char
  fraction : Option (List Char)
  unit : String
deriving DecidableEq, Repr

/-- A number that fits into 64 bits. -/
def word? (n : Nat) : Option Nat := if n < Nat.pow 2 64 then some n else none

/-- The number that digits spell out. -/
def number (ds : List Char) : Nat := ds.foldl (fun n c => 10 * n + (c.toNat - 48)) 0

/-- A letter of the name of a unit. -/
def isUnitLetter (c : Char) : Bool := c.isAlpha || c = 'µ'

/-- A character inside a number. -/
def isInNumber (c : Char) : Bool := c.isDigit || Text.isBlank c

/-- The term at the beginning, which begins with a digit, and what follows it. -/
def scanTerm (cs : List Char) : Option (Term × List Char) := do
  let whole := (cs.takeWhile isInNumber).filter Char.isDigit
  let rest := cs.dropWhile isInNumber
  let (fraction, rest) ← match rest with
    | '.' :: rest =>
      let digits := (rest.takeWhile isInNumber).filter Char.isDigit
      if digits.isEmpty then none else some (some digits, rest.dropWhile isInNumber)
    | rest => some (none, rest)
  return (⟨whole, fraction, .ofList (rest.takeWhile isUnitLetter)⟩, rest.dropWhile isUnitLetter)

/-- All terms of a text. Each begins with a digit, so that there are no more of them than
characters. -/
def scanTerms : Nat → List Char → Option (List Term)
  | 0, _ => none
  | fuel + 1, cs =>
    match Text.dropBlanks cs with
    | [] => some []
    | c :: cs =>
      if c.isDigit then do
        let (t, rest) ← scanTerm (c :: cs)
        let ts ← scanTerms fuel rest
        return t :: ts
      else none

/-- A duration with seconds and nanoseconds added. -/
def add? (d : Duration) (seconds nanos : Nat) : Option Duration := do
  let nanos ← word? (d.nanos + nanos)
  let seconds ← word? (d.seconds + seconds + nanos / 1000000000)
  return ⟨seconds, nanos % 1000000000⟩

/-- A quotient without a remainder. -/
def exactQuotient? (a b : Nat) : Option Nat := if a % b = 0 then some (a / b) else none

/-- A duration with a whole number of units added. -/
def addWhole? (d : Duration) (n : Nat) (u : TimeUnit) : Option Duration := do
  d.add? (← word? (n * u.seconds)) (← word? (n * u.nanos))

/-- A duration with a fraction of a unit added. Fractions of hours and longer units must be whole
seconds, those of shorter units whole nanoseconds; a nanosecond has none. -/
def addFraction? (d : Duration) (digits : List Char) (u : TimeUnit) : Option Duration := do
  let denominator ← word? (Nat.pow 10 digits.length)
  let numerator ← word? (number digits)
  if u.nanos = 1 then none
  else if 3600 ≤ u.seconds then
    d.add? (← exactQuotient? (← word? (numerator * u.seconds)) denominator) 0
  else
    let nanos := u.seconds * 1000000000 + u.nanos
    d.add? 0 (← exactQuotient? (← word? (numerator * nanos)) denominator)

/-- A duration with a term added. -/
def addTerm? (d : Duration) (t : Term) : Option Duration := do
  let n ← word? (number t.whole)
  let u ← unit? t.unit
  let d ← d.addWhole? n u
  match t.fraction with
  | none => some d
  | some digits => d.addFraction? digits u

/-- The duration that a text spells out. -/
def parse? (text : String) : Option Duration :=
  if text = "0" then some ⟨0, 0⟩
  else do
    let ts ← scanTerms (text.length + 1) text.toList
    if ts.isEmpty then none else ts.foldlM addTerm? ⟨0, 0⟩

end Duration

end Rollout
