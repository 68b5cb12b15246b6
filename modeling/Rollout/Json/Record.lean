import Rollout.Json.Value

/-!
# JSON records

A record with named fields is an object, whose members may come in any order and may include others
that are not looked at, or an array of the fields in order, of which the last ones may be left out.
No field may be given twice.
-/

namespace Rollout.Json.Value

/-- The value of the member with a name, `some none` without one; `none` if it is there twice. -/
def member? (name : String) (members : List (Option String × Value)) : Option (Option Value) :=
  match members.filter (·.1 = some name) with
  | [] => some none
  | [(_, v)] => some (some v)
  | _ => none

/-- The fields of a record in the order of their names, with `none` for those left out. -/
def fields? (names : List String) : Value → Option (List (Option Value))
  | .object members =>
    if members.all (·.1.isSome) then names.mapM (member? · members) else none
  | .array items =>
    if items.length ≤ names.length then
      some (items.map some ++ .replicate (names.length - items.length) none)
    else none
  | _ => none

/-- The text of a string. -/
def text? : Value → Option String
  | .string s => s
  | _ => none

/-- A text, or nothing for null. -/
def optionalText? : Value → Option (Option String)
  | .null => some none
  | v => v.text?.map some

/-- A whole number of at most 64 bits, written with digits only. -/
def natural? : Value → Option Nat
  | .number text =>
    let n := text.toList.foldl (fun n c => 10 * n + (c.toNat - 48)) 0
    if text.toList.all Char.isDigit && n < Nat.pow 2 64 then some n else none
  | _ => none

/-- The items of an array, each read by `read`. -/
def items? {α : Type} (read : Value → Option α) : Value → Option (List α)
  | .array items => items.mapM read
  | _ => none

/-- A field read by `read`, or the default if it was left out. -/
def fieldOr {α : Type} (default : α) (read : Value → Option α) : Option Value → Option α
  | none => some default
  | some v => read v

end Rollout.Json.Value
