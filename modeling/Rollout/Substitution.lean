import Rollout.Placeholder

/-!
# Substitution

The value with every placeholder in it replaced. A text that is exactly one placeholder becomes
the variable's value with its type; in a longer text the scalar's text takes the placeholder's
place. Inserted values are not looked at again. Keys are replaced as well, each before its value;
keys that become equal are one entry, at the place of the first and with the value of the last.
-/

namespace Rollout

open Yaml (Value Entries)

/-- Why a placeholder cannot be replaced. -/
inductive SubstitutionError where
  /-- No variable has the name. -/
  | missing (name : String)
  /-- The variable is a collection or carries a tag, and the placeholder is part of a text. -/
  | notScalar (name : String)
deriving DecidableEq, Repr

namespace Substitution

/-- The text of a scalar inside a longer text. -/
def scalarText? : Value → Option String
  | .string s => some s
  | .number n => some n.text
  | .bool b => some (if b then "true" else "false")
  | .null => some "null"
  | _ => none

/-- The value of a placeholder. -/
def resolve (lookup : String → Option Value) (name : String) : Except SubstitutionError Value :=
  match lookup name with
  | some value => .ok value
  | none => .error (.missing name)

/-- The text that takes the place of a piece. -/
def pieceText (lookup : String → Option Value) : Piece → Except SubstitutionError (List Char)
  | .text cs => .ok cs
  | .placeholder name => do
    let value ← resolve lookup name
    match scalarText? value with
    | some s => .ok s.toList
    | none => .error (.notScalar name)

/-- The texts of some pieces, joined. -/
def joinPieces (lookup : String → Option Value) : List Piece →
    Except SubstitutionError (List Char)
  | [] => .ok []
  | p :: ps => do
    let text ← pieceText lookup p
    let rest ← joinPieces lookup ps
    return text ++ rest

/-- A text with its placeholders replaced. -/
def evaluateText (lookup : String → Option Value) (s : String) :
    Except SubstitutionError Value :=
  match Placeholder.pieces s with
  | [.placeholder name] => resolve lookup name
  | ps => do
    let cs ← joinPieces lookup ps
    return .string (.ofList cs)

mutual

/-- A value with its placeholders replaced. -/
def evaluate (lookup : String → Option Value) : Value → Except SubstitutionError Value
  | .string s => evaluateText lookup s
  | .sequence items => do
    let items ← evaluateItems lookup items
    return .sequence items
  | .mapping entries => do
    let entries ← evaluateEntries lookup [] entries
    return .mapping entries
  | .tagged tag value => do
    let value ← evaluate lookup value
    return .tagged tag value
  | .null => .ok .null
  | .bool b => .ok (.bool b)
  | .number n => .ok (.number n)
termination_by structural v => v

/-- The items of a sequence, from left to right. -/
def evaluateItems (lookup : String → Option Value) :
    List Value → Except SubstitutionError (List Value)
  | [] => .ok []
  | v :: vs => do
    let v ← evaluate lookup v
    let vs ← evaluateItems lookup vs
    return v :: vs
termination_by structural vs => vs

/-- The entries of a mapping, put one after the other after those that are done. -/
def evaluateEntries (lookup : String → Option Value) (done : Entries) :
    Entries → Except SubstitutionError Entries
  | [] => .ok done
  | (k, v) :: es => do
    let k ← evaluate lookup k
    let v ← evaluate lookup v
    evaluateEntries lookup (Value.put k v done) es
termination_by structural es => es

end

end Substitution

end Rollout
