import Rollout.Text.Split

/-!
# Release versions

A version is a base, or a base and a qualifier joined by a plus sign. Both are tokens that are not
empty and hold no plus sign. Versions are ordered by their dot-separated components, bases first: a
component of digits that fits into 64 bits counts as a number and comes before all others, and
versions that agree in all components are ordered by their text.
-/

namespace Rollout

/-- A release version. -/
structure Version where
  base : String
  qualifier : Option String
deriving DecidableEq, Repr

/-- A text that is not a version. -/
structure VersionFormatError where
  version : String
deriving DecidableEq, Repr

def VersionFormatError.message (e : VersionFormatError) : String :=
  "Expected version '" ++ e.version ++ "' to match version format '<base>[+<qualifier>]'"

namespace Version

/-- A dot-separated part of a base or a qualifier. -/
inductive Component where
  | number (n : Nat)
  | word (s : List Char)
deriving DecidableEq, Repr

namespace Component

/-- The component that a text stands for. -/
def ofChars (cs : List Char) : Component :=
  let n := cs.foldl (fun n c => 10 * n + (c.toNat - 48)) 0
  if !cs.isEmpty && cs.all Char.isDigit && n < Nat.pow 2 64 then .number n else .word cs

/-- Numbers come before words. -/
def compare : Component → Component → Ordering
  | .number n, .number m => Ord.compare n m
  | .number _, .word _ => .lt
  | .word _, .number _ => .gt
  | .word a, .word b => List.compareLex Ord.compare a b

end Component

/-- The components of a base or a qualifier. -/
def components (cs : List Char) : List Component := (Text.splitOn '.' cs).map .ofChars

/-- The order of bases, and of qualifiers. -/
def compareSegment (a b : String) : Ordering :=
  (List.compareLex Component.compare (components a.toList) (components b.toList)).then
    (List.compareLex Ord.compare a.toList b.toList)

/-- The order of qualifiers; a version without one comes first. -/
def compareQualifier : Option String → Option String → Ordering
  | none, none => .eq
  | none, some _ => .lt
  | some _, none => .gt
  | some a, some b => compareSegment a b

/-- The order of versions. -/
def compare (a b : Version) : Ordering :=
  (compareSegment a.base b.base).then (compareQualifier a.qualifier b.qualifier)

/-- The order of versions as a partial order: no two versions are left without an answer. -/
def partialCompare (a b : Version) : Option Ordering := some (compare a b)

/-- A version is at most another if the comparison answers so. -/
instance : LE Version := ⟨fun a b => ∃ o, partialCompare a b = some o ∧ o.isLE = true⟩

/-- The version that a text stands for. -/
def parse (text : String) : Except VersionFormatError Version :=
  match Text.split '+' text with
  | [base] => if base.isEmpty then .error ⟨text⟩ else .ok ⟨base, none⟩
  | [base, qualifier] =>
    if base.isEmpty || qualifier.isEmpty then .error ⟨text⟩ else .ok ⟨base, some qualifier⟩
  | _ => .error ⟨text⟩

/-- The text of a version. -/
def text (v : Version) : String :=
  match v.qualifier with
  | none => v.base
  | some q => v.base ++ "+" ++ q

/-- Versions in ascending order. -/
def sort (vs : List Version) : List Version := vs.mergeSort fun a b => compare a b != .gt

/-- The greatest of some versions. -/
def max? : List Version → Option Version
  | [] => none
  | v :: vs => some (vs.foldl (fun a b => if compare a b = .gt then a else b) v)

end Version

end Rollout
