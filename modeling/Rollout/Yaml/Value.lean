import Rollout.Decimal.Format

/-!
# Values

The data that documents and variables hold. A mapping is a list of entries in the order in which
they were written. Two keys are the same key when they are the same value; in a key that is itself
a mapping the order of entries does not matter.
-/

namespace Rollout.Yaml

/-- An integer of 64 bits, signed or unsigned, or a floating-point number. -/
inductive Number where
  | integer (n : Int)
  | float (x : Decimal.Binary64)
deriving DecidableEq, Repr

/-- Floating-point numbers are written with the fewest digits, with an exponent from `1e16` on and
below `1e-5`. -/
def numberFormat : Decimal.NumberFormat := ⟨16, 5, ".inf", ".nan"⟩

namespace Number

/-- The canonical text of a number. -/
def text : Number → String
  | .integer n => .ofList (Decimal.integer n)
  | .float x => numberFormat.write x

/-- Equality of values: an integer is never equal to a floating-point number. -/
def sameValue : Number → Number → Bool
  | .integer n, .integer m => n == m
  | .float x, .float y => x.sameValue y
  | _, _ => false

end Number

/-- A value. -/
inductive Value where
  | null
  | bool (b : Bool)
  | number (n : Number)
  | string (s : String)
  | sequence (items : List Value)
  | mapping (entries : List (Value × Value))
  | tagged (tag : String) (value : Value)
deriving Inhabited, Repr

/-- The entries of a mapping, in order. -/
abbrev Entries := List (Value × Value)

namespace Value

mutual

/-- Whether two values are the same. -/
def same : Value → Value → Bool
  | .null, .null => true
  | .bool a, .bool b => a == b
  | .number a, .number b => a.sameValue b
  | .string a, .string b => a == b
  | .sequence as, .sequence bs => sameItems as bs
  | .mapping as, .mapping bs => as.length == bs.length && within as bs
  | .tagged t a, .tagged u b => t == u && a.same b
  | _, _ => false
termination_by structural v => v

/-- Whether two sequences hold the same values in the same order. -/
def sameItems : List Value → List Value → Bool
  | [], [] => true
  | a :: as, b :: bs => a.same b && sameItems as bs
  | _, _ => false
termination_by structural vs => vs

/-- Whether every entry of the first mapping is an entry of the second. -/
def within : Entries → Entries → Bool
  | [], _ => true
  | (k, v) :: es, bs => bs.any (fun (l, w) => k.same l && v.same w) && within es bs
termination_by structural es => es

end

/-- The value of the entry with the given key. -/
def find? (key : Value) (entries : Entries) : Option Value :=
  (entries.find? fun (k, _) => k.same key).map (·.2)

/-- The value of the entry whose key is a given text. -/
def field? (name : String) (entries : Entries) : Option Value := find? (.string name) entries

/-- Puts an entry into a mapping. A key that is there already keeps its place and takes the new
value. -/
def put (key value : Value) : Entries → Entries
  | [] => [(key, value)]
  | (k, v) :: es => if k.same key then (k, value) :: es else (k, v) :: put key value es

/-- The entries of a mapping. -/
def entries? : Value → Option Entries
  | .mapping es => some es
  | _ => none

/-- Only a mapping has entries. -/
theorem entries?_eq_some_iff {v : Value} {es : Entries} :
    v.entries? = some es ↔ v = .mapping es := by
  cases v <;> simp [entries?]

/-- The value under all the tags that it carries. -/
def underTags : Value → Value
  | .tagged _ value => value.underTags
  | v => v
termination_by structural v => v

end Value

end Rollout.Yaml
