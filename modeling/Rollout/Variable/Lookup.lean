import Rollout.Variable

/-!
# Looking up variables

Names are looked up first among the pairs, the last one first, and then in the files in the order
given. A name with dots may reach into the values of mappings: a pair defines its own name and the
names below it, a file defines its keys and the names below those without a dot.
-/

namespace Rollout

open Yaml (Value Entries)

/-- The variables of a loaded file. -/
structure VariableFile where
  name : String
  entries : Entries
deriving Repr

/-- All variables of a run. -/
structure Variables where
  pairs : List Binding
  files : List VariableFile
deriving Repr

/-- Where a variable comes from. -/
inductive Origin where
  | pair
  | file (name : String)
deriving DecidableEq, Repr

/-- The value at the end of a path of keys through nested mappings, whatever tags these carry. -/
def descend (value : Value) : List (List Char) → Option Value
  | [] => some value
  | key :: path => do
    let entries ← value.underTags.entries?
    let value ← Value.field? (.ofList key) entries
    descend value path

/-- The value that a path of keys with dots between them leads to. -/
def descendPath (value : Value) (path : List Char) : Option Value :=
  descend value (Text.splitOn '.' path)

/-- What a pair says about a name: its value for its own name, what lies inside for a name below
it. -/
def Binding.find? (b : Binding) (name : List Char) : Option Value :=
  match b.name.toList.isPrefixOf? name with
  | some [] => some b.value
  | some ('.' :: path) => descendPath b.value path
  | _ => none

/-- What a file says about a name: the value of that key, or what lies inside the value of the key
before the first dot. -/
def VariableFile.find? (f : VariableFile) (name : List Char) : Option Value :=
  match Value.field? (.ofList name) f.entries with
  | some value => some value
  | none => do
    let (head, path) ← Text.cut '.' name
    let value ← Value.field? (.ofList head) f.entries
    descendPath value path

namespace Variables

/-- What the pairs say about a name; later pairs override earlier ones. -/
def findPair? (vs : Variables) (name : String) : Option Value :=
  vs.pairs.reverse.findSome? (·.find? name.toList)

/-- The first file that says something about a name, with what it says. -/
def findFile? (vs : Variables) (name : String) : Option (Value × Origin) :=
  vs.files.findSome? fun f => (f.find? name.toList).map (·, .file f.name)

/-- The value of a variable and where it comes from. -/
def lookup (vs : Variables) (name : String) : Option (Value × Origin) :=
  match vs.findPair? name with
  | some value => some (value, .pair)
  | none => vs.findFile? name

/-- The value of a variable. -/
def value? (vs : Variables) (name : String) : Option Value := (vs.lookup name).map (·.1)

end Variables

end Rollout
