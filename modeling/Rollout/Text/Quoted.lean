import Rollout.Text.Printable

/-!
# Quoted text

A text as a message quotes it: between double quotes, with a backslash before quotes, backslashes
and the common control characters, and the code points of what cannot be shown.
-/

namespace Rollout.Text.Quoted

/-- One character between quotes. -/
def escape (c : Char) : List Char :=
  if c = '\x00' then ['\\', '0']
  else if c = '\t' then ['\\', 't']
  else if c = '\r' then ['\\', 'r']
  else if c = '\n' then ['\\', 'n']
  else if c = '"' then ['\\', '"']
  else if c = '\\' then ['\\', '\\']
  else if isPrintable c then [c]
  else "\\u\x7b".toList ++ Nat.toDigits 16 c.toNat ++ ['\x7d']

/-- A text between quotes. -/
def quote (s : String) : String := .ofList ('"' :: s.toList.flatMap escape ++ ['"'])

end Rollout.Text.Quoted
