import Rollout.Yaml.Value
import Rollout.Text.Quoted

/-!
# Values in messages

The one-line form of a value that error messages show, with the kind of every part spelled out.
-/

namespace Rollout.Yaml.Value

open Text.Quoted (quote)

mutual

/-- A value with its kind. -/
def display : Value → String
  | .null => "Null"
  | .bool b => "Bool(" ++ (if b then "true" else "false") ++ ")"
  | .number n => "Number(" ++ n.text ++ ")"
  | .string s => "String(" ++ quote s ++ ")"
  | .sequence items => "Sequence [" ++ ", ".intercalate (displayItems items) ++ "]"
  | .mapping entries => "Mapping \x7b" ++ ", ".intercalate (displayEntries entries) ++ "\x7d"
  | .tagged tag value => "TaggedValue \x7b tag: !" ++ tag ++ ", value: " ++ value.display ++ " \x7d"
termination_by structural v => v

/-- The items of a sequence. -/
def displayItems : List Value → List String
  | [] => []
  | v :: vs => v.display :: displayItems vs
termination_by structural vs => vs

/-- The entries of a mapping; a key that is text, a number or a truth value is shown without its
kind. -/
def displayEntries : Entries → List String
  | [] => []
  | (k, v) :: es =>
    let key := match k with
      | .string s => quote s
      | .number n => n.text
      | .bool b => if b then "true" else "false"
      | k => k.display
    (key ++ ": " ++ v.display) :: displayEntries es
termination_by structural es => es

end

end Rollout.Yaml.Value
