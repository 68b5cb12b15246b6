import Rollout.Text.Blank
import Rollout.Text.Split
import Rollout.Yaml.Reader

/-!
# Variables

A variable is given directly as a pair of a name and a value, or by a file that holds a mapping of
names to values. A pair written as `name=value` has a scalar value: what the text after the equals
sign spells out if that is a truth value, a number or text, and that text itself otherwise.
-/

namespace Rollout

open Yaml (Value Entries)

/-- A variable given directly. -/
structure Binding where
  name : String
  value : Value
deriving Repr

/-- Why a text is not a pair of a name and a value. -/
inductive BindingError where
  | noEquals (text : String)
  | noName (text : String)
deriving DecidableEq, Repr

def BindingError.message : BindingError → String
  | .noEquals text => "Expected variable '" ++ text ++ "' to be in format 'name=value'"
  | .noName text => "Expected variable '" ++ text ++ "' to have a name"

namespace Binding

/-- The value that a text after an equals sign stands for. -/
def valueOf (text : String) : Value :=
  if text.isEmpty then .string ""
  else match Value.ofText text with
    | .ok (.bool b) => .bool b
    | .ok (.number n) => .number n
    | .ok (.string s) => .string s
    | _ => .string text

/-- The pair that a text stands for. The name ends at the first equals sign. -/
def parse (text : String) : Except BindingError Binding :=
  match Text.cutAt '=' text with
  | none => .error (.noEquals text)
  | some (name, value) =>
    let name := Text.trim name
    if name.isEmpty then .error (.noName text) else .ok ⟨name, valueOf value⟩

end Binding

/-- Why a variables file cannot be loaded. -/
inductive VariableFileError where
  | unreadable (name : String)
  | unparsable (name : String)
  | notMapping (name : String)
deriving DecidableEq, Repr

def VariableFileError.message : VariableFileError → String
  | .unreadable name => "Failed to read " ++ name
  | .unparsable name => "Failed to parse " ++ name
  | .notMapping name => "Expected " ++ name ++ " to contain a YAML mapping of variables"

/-- The variables of a file with the given content, `none` for a file that is not there. A blank
file and one that holds null have no variables. -/
def variablesOfFile (name : String) (content : Option ByteArray) :
    Except VariableFileError Entries :=
  match content.bind String.fromUTF8? with
  | none => .error (.unreadable name)
  | some text =>
    if Text.isBlankText text then .ok []
    else match Value.ofText text with
      | .error _ => .error (.unparsable name)
      | .ok (.mapping entries) => .ok entries
      | .ok .null => .ok []
      | .ok _ => .error (.notMapping name)

end Rollout
