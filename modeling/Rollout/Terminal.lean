import Rollout.Text.Blank
import Rollout.Text.Lowercase

/-!
# The terminal

What the program writes and what it reads, and when its user interrupts it. Texts are coloured if
the terminal shows colours. A question is confirmed by a line that says `y` or `yes`, in letters of
either case and with blanks around it; nothing else confirms it.
-/

namespace Rollout

/-- What the user does while the program is busy with something. -/
inductive Patience where
  | waits
  /-- The user interrupts the program, but too late to keep it from coming to an end. -/
  | interruptsLate
  /-- The user interrupts the program before it comes to an end. -/
  | interrupts
deriving DecidableEq, Repr

/-- A terminal: how it behaves, what can still be read from it, and what has been written. -/
structure Terminal where
  color : Bool := false
  /-- Whether every question counts as confirmed. -/
  nonInteractive : Bool := false
  input : List UInt8 := []
  /-- What the user does during the next things that the program is busy with, one after the other.
  After the last one of these the user waits. -/
  patience : List Patience := []
  output : String := ""
  errors : String := ""

namespace Terminal

/-- The codes of a style. -/
inductive Style where
  | red
  | green
  | cyan
  | dimmed
  | brightBlue
  | brightCyan
  | boldBrightGreen
  | boldBrightRed
deriving DecidableEq, Repr

/-- The characters that begin a style. -/
def Style.start (s : Style) : List Char :=
  let codes := match s with
    | .red => "31"
    | .green => "32"
    | .cyan => "36"
    | .dimmed => "2"
    | .brightBlue => "94"
    | .brightCyan => "96"
    | .boldBrightGreen => "1;92"
    | .boldBrightRed => "1;91"
  '\x1b' :: '[' :: codes.toList ++ ['m']

/-- The characters that end every style. -/
def reset : List Char := ['\x1b', '[', '0', 'm']

/-- The characters of a text with the style begun again after each end of a style in it. -/
def resume (start : List Char) : List Char → List Char
  | '\x1b' :: '[' :: '0' :: 'm' :: cs => reset ++ start ++ resume start cs
  | c :: cs => c :: resume start cs
  | [] => []

/-- A text in a style. -/
def paint (t : Terminal) (s : Style) (text : String) : String :=
  if t.color then .ofList (s.start ++ resume s.start text.toList ++ reset) else text

/-- Writes a text. -/
def write (t : Terminal) (text : String) : Terminal := { t with output := t.output ++ text }

/-- Writes a line. -/
def writeLine (t : Terminal) (text : String) : Terminal := t.write (text ++ "\n")

/-- Writes a line to the errors. -/
def writeErrorLine (t : Terminal) (text : String) : Terminal :=
  { t with errors := t.errors ++ text ++ "\n" }

/-- Says a line of a run: added lines are green and removed ones red. -/
def say (t : Terminal) (line : String) : Terminal :=
  match line.toList with
  | '+' :: ' ' :: _ => t.write (t.paint .green line)
  | '-' :: ' ' :: _ => t.write (t.paint .red line)
  | _ => t.write line

/-- A rule of sixty characters. -/
def rule : String := .ofList (.replicate 60 '═')

/-- A text filled up with spaces to a width. -/
def padTo (width : Nat) (text : String) : String :=
  text ++ .ofList (.replicate (width - text.length) ' ')

/-- Shows a title in a box. -/
def showHeader (t : Terminal) (title : String) : Terminal :=
  let paint := t.paint .brightBlue
  ((((t.writeLine "").writeLine (paint ("╔" ++ rule ++ "╗"))).writeLine
    (paint ("║  " ++ padTo 58 title ++ "║"))).writeLine (paint ("╚" ++ rule ++ "╝"))).writeLine ""

/-- Shows a success. -/
def showSuccess (t : Terminal) (message : String) : Terminal :=
  t.writeLine (t.paint .boldBrightGreen ("✅ " ++ message))

/-- Shows an error. -/
def showError (t : Terminal) (message : String) : Terminal :=
  t.writeErrorLine (t.paint .boldBrightRed ("❌ " ++ message))

/-- Shows a remark. -/
def showInfo (t : Terminal) (message : String) : Terminal :=
  t.writeLine (t.paint .brightCyan ("ℹ️  " ++ message))

/-- Whether an answer confirms a question. -/
def isConfirmation (answer : String) : Bool :=
  let cs := Text.lower (Text.trimChars answer.toList)
  cs = ['y'] || cs = ['y', 'e', 's']

/-- The octets up to and including the first line feed. -/
def firstLine : List UInt8 → List UInt8
  | [] => []
  | b :: bs => if b = 10 then [b] else b :: firstLine bs

/-- What is left of the input after a line has been read. Input comes in blocks of 8192 octets, and
the rest of the block in which the line ends is lost. -/
def afterLine (input : List UInt8) : List UInt8 :=
  input.drop (((firstLine input).length + 8191) / 8192 * 8192)

/-- Why a question was not confirmed. -/
inductive Rejection where
  | stopped
  | badText
deriving DecidableEq, Repr

def Rejection.message : Rejection → String
  | .stopped => "Stopped"
  | .badText => "stream did not contain valid UTF-8"

/-- What the first line of some input says to a question. -/
def verdict (input : List UInt8) : Except Rejection Unit :=
  match String.fromUTF8? ⟨(firstLine input).toArray⟩ with
  | none => .error .badText
  | some answer => if isConfirmation answer then .ok () else .error .stopped

/-- Asks whether to go on, without reading an answer. Nothing is written if every question counts as
confirmed. -/
def prompt (t : Terminal) : Terminal :=
  if t.nonInteractive then t else t.write "\nContinue? [yN]: "

/-- Asks whether to go on and reads the answer, unless every question counts as confirmed. -/
def ask (t : Terminal) : Except Rejection Unit × Terminal :=
  if t.nonInteractive then (.ok (), t)
  else (verdict t.input, { t.prompt with input := afterLine t.input })

end Terminal

end Rollout
