import Rollout.Text.Percent

/-!
# Writing JSON

Objects of texts on one line. Quotes, backslashes and control characters are escaped, all other
characters stand for themselves.
-/

namespace Rollout.Json

/-- One character inside a string. -/
def escape (c : Char) : List Char :=
  if c = '"' then ['\\', '"']
  else if c = '\\' then ['\\', '\\']
  else if c = '\x08' then ['\\', 'b']
  else if c = '\x0c' then ['\\', 'f']
  else if c = '\n' then ['\\', 'n']
  else if c = '\r' then ['\\', 'r']
  else if c = '\t' then ['\\', 't']
  else if c.toNat < 0x20 then
    ['\\', 'u', '0', '0', Nat.digitChar (c.toNat / 16), Nat.digitChar (c.toNat % 16)]
  else [c]

/-- A text as a string. -/
def writeString (s : String) : String := .ofList ('"' :: s.toList.flatMap escape ++ ['"'])

/-- An object with texts as its members. -/
def writeObject (members : List (String × String)) : String :=
  "\x7b" ++ ",".intercalate (members.map fun (name, text) =>
    writeString name ++ ":" ++ writeString text) ++ "\x7d"

end Rollout.Json
