import Rollout.Yaml.Node.Parse
import Rollout.Yaml.Scalar
import Rollout.Yaml.Value
import Rollout.Text.Quoted

/-!
# Reading documents

A document is read as a value or as a record with named fields. A `Reader` goes down the nodes,
follows aliases, and reports the first problem in document order with the path to it. Collections
may be nested 128 deep, and the aliases followed in one reading are limited.

A record skips the fields that it does not know without looking at them. Text fields take the
source text of a scalar whatever it stands for.
-/

namespace Rollout.Yaml

/-- The way to a node from the root of its document. -/
inductive Path where
  | root
  | item (parent : Path) (index : Nat)
  | field (parent : Path) (key : String)
  | unknown (parent : Path)
deriving DecidableEq, Repr

/-- A path as messages show it; the root is a single dot. -/
def Path.text : Path → String
  | .root => "."
  | .item parent i => parent.text ++ "[" ++ .ofList (Decimal.digits i) ++ "]"
  | .field .root key => key
  | .field parent key => parent.text ++ "." ++ key
  | .unknown .root => "?"
  | .unknown parent => parent.text ++ ".?"

/-- What stands in the place of something else. -/
inductive Found where
  | scalar (s : Scalar)
  | sequence
  | mapping
deriving DecidableEq, Repr

/-- Why a node cannot be read. -/
inductive Cause where
  | duplicateKey (key : Value)
  | duplicateField (name : String)
  | missingField (name : String)
  | wrongType (found : Found) (expected : String)
  | wrongText (text expected : String)
  | refused (reason : String)
deriving Repr

/-- Why a document cannot be read. -/
inductive ReadError where
  /-- The text is not one well-formed document. -/
  | malformed
  | nestingLimit
  | aliasLimit
  | node (path : Path) (cause : Cause)
deriving Repr

/-- Floating-point numbers in messages are never written with an exponent. -/
def plainFormat : Decimal.NumberFormat := ⟨400, 400, "inf", "NaN"⟩

namespace Found

/-- What was found, as messages name it. -/
def text : Found → String
  | .sequence => "sequence"
  | .mapping => "map"
  | .scalar .null => "unit value"
  | .scalar (.bool b) => "boolean `" ++ (if b then "true" else "false") ++ "`"
  | .scalar (.integer n) =>
    let width := if !Scalar.isWide n then "" else if n < 0 then " as i128" else " as u128"
    "integer `" ++ .ofList (Decimal.integer n) ++ "`" ++ width
  | .scalar (.float x) => "floating point `" ++ plainFormat.write x ++ "`"
  | .scalar (.text s) => "string " ++ Text.Quoted.quote s

end Found

/-- The text of a cause. -/
def Cause.message : Cause → String
  | .duplicateKey .null => "duplicate entry with null key"
  | .duplicateKey (.bool b) =>
    "duplicate entry with key `" ++ (if b then "true" else "false") ++ "`"
  | .duplicateKey (.number n) => "duplicate entry with key " ++ n.text
  | .duplicateKey (.string s) => "duplicate entry with key " ++ Text.Quoted.quote s
  | .duplicateKey _ => "duplicate entry in YAML map"
  | .duplicateField name => "duplicate field `" ++ name ++ "`"
  | .missingField name => "missing field `" ++ name ++ "`"
  | .wrongType found expected => "invalid type: " ++ found.text ++ ", expected " ++ expected
  | .wrongText text expected =>
    "invalid value: string " ++ Text.Quoted.quote text ++ ", expected " ++ expected
  | .refused reason => reason

/-- What a YAML parser says of a text that is not well-formed, and a YAML writer of a value that
cannot be written. The wording is up to them; this stands for it. -/
def libraryText : String := "<yaml>"

/-- The text of an error, without the place in the text that it is about. -/
def ReadError.message : ReadError → String
  | .malformed => libraryText
  | .nestingLimit => "recursion limit exceeded"
  | .aliasLimit => "repetition limit exceeded"
  | .node path cause =>
    if path.text = "." then cause.message else path.text ++ ": " ++ cause.message

/-- The path of the collection that a node is part of. -/
def Path.parent : Path → Path
  | .item p _ | .field p _ | .unknown p => p
  | .root => .root

/-- A step of reading: it counts the aliases followed so far and may fail. -/
abbrev ReadM := StateT Nat (Except ReadError)

/-- The node itself, or the one that it is an alias of. -/
def Document.follow (d : Document) : Node Nat → ReadM (Node Nat)
  | .alias id => do
    let followed ← get
    if d.aliasLimit ≤ followed then throw .aliasLimit
    set (followed + 1)
    return (d.target? id).getD .absent
  | n => return n

/-- A way to read the nodes of a document below a path, down to a depth. -/
def Reader (α : Type) : Type := Document → (depth : Nat) → Path → Node Nat → ReadM α

/-- The error for a node that is not what was expected. -/
def unexpected (path : Path) (expected : String) : Node Nat → ReadError
  | .scalar _ tag style s =>
    match Scalar.read tag style s false with
    | .ok x => .node path (.wrongType (.scalar x) expected)
    | .error e => .node path (.wrongText s e)
  | .sequence .. => .node path (.wrongType .sequence expected)
  | .mapping .. => .node path (.wrongType .mapping expected)
  | .alias _ => .node path (.wrongType (.scalar .null) expected)

/-- The path of the value of an entry with the given key. -/
def Path.entry (path : Path) : Node Nat → Path
  | .scalar _ _ _ key => .field path key
  | _ => .unknown path

/-- The name of a local tag; the lone exclamation mark is its own name. -/
def localTag? : Option Tag → Option String
  | some [33] => some "!"
  | some (33 :: name) => String.fromUTF8? ⟨name.toArray⟩
  | _ => none

/-- The name of a local tag after its exclamation mark, of which one more may be left out. -/
def tagName (name : String) : String :=
  match name.toList with
  | '!' :: c :: cs => .ofList (c :: cs)
  | _ => name

namespace Value

/-- The value with its local tag, if it has one. -/
def withTag (tag : Option Tag) (v : Value) : Value :=
  match localTag? tag with
  | some name => .tagged (tagName name) v
  | none => v

/-- The value of a scalar. Integers of more than 64 bits have none. -/
def ofScalar (path : Path) (tag : Option Tag) (style : Style) (s : String) :
    Except ReadError Value :=
  match Scalar.read tag style s (localTag? tag).isSome with
  | .error expected => .error (.node path (.wrongText s expected))
  | .ok .null => .ok (withTag tag .null)
  | .ok (.bool b) => .ok (withTag tag (.bool b))
  | .ok (.integer n) =>
    if Scalar.isWide n then
      .error (.node path (.wrongType (.scalar (.integer n)) "any YAML value"))
    else .ok (withTag tag (.number (.integer n)))
  | .ok (.float x) => .ok (withTag tag (.number (.float x)))
  | .ok (.text s) => .ok (withTag tag (.string s))

/-- The value of a node. -/
def read (d : Document) (depth : Nat) (path : Path) (n : Node Nat) : ReadM Value := do
  match ← d.follow n with
  | .scalar _ tag style s => ofScalar path tag style s
  | .sequence _ tag items =>
    match depth with
    | 0 => throw .nestingLimit
    | depth + 1 =>
      let values ← items.zipIdx.mapM fun (n, i) => read d depth (.item path i) n
      return withTag tag (.sequence values)
  | .mapping _ tag entries =>
    match depth with
    | 0 => throw .nestingLimit
    | depth + 1 =>
      let entries ← entries.foldlM (fun (done : Entries) (k, v) => do
        let key ← read d depth path k
        match done.find? fun (k, _) => k.same key with
        | some (k, _) => throw (.node path (.duplicateKey k))
        | none =>
          let value ← read d depth (path.entry k) v
          return done ++ [(key, value)]) []
      return withTag tag (.mapping entries)
  | .alias _ => return .null
termination_by structural depth

end Value

namespace Reader

variable {α σ : Type}

/-- Any value. -/
def value : Reader Value := Value.read

/-- The source text of a scalar. -/
def text : Reader String := fun d _ path n => do
  match ← d.follow n with
  | .scalar _ _ _ s => return s
  | n => throw (unexpected path "a string" n)

/-- A truth value. -/
def flag : Reader Bool := fun d _ path n => do
  match ← d.follow n with
  | n@(.scalar _ tag style s) =>
    let spelled := style = .plain || (style = .literal && tag = some (Scalar.coreTag "bool"))
    match if spelled then Scalar.bool? s.toList else none with
    | some b => return b
    | none => throw (unexpected path "a boolean" n)
  | n => throw (unexpected path "a boolean" n)

/-- Nothing for a null, else what `r` reads. -/
def optional (r : Reader α) : Reader (Option α) := fun d depth path n => do
  let n ← d.follow n
  let isNull ← match n with
    | .scalar _ tag .plain s =>
      match tag with
      | none => pure (s.isEmpty || Scalar.isNull s.toList)
      | some t =>
        if t = Scalar.coreTag "null" then
          if Scalar.isNull s.toList then pure true
          else
            throw (.node path.parent (.wrongText s "null"))
        else pure false
    | _ => pure false
  if isNull then return none
  else
    let a ← r d depth path n
    return some a

/-- The items of a sequence; an empty node has none. -/
def sequence (r : Reader α) : Reader (List α) := fun d depth path n => do
  match ← d.follow n with
  | .sequence _ _ items =>
    match depth with
    | 0 => throw .nestingLimit
    | depth + 1 => items.zipIdx.mapM fun (n, i) => r d depth (.item path i) n
  | n@(.scalar _ _ style s) =>
    if style = .plain && s.isEmpty then return []
    else throw (unexpected path "a sequence" n)
  | n => throw (unexpected path "a sequence" n)

/-- The name of a field. -/
def fieldName (d : Document) (path : Path) (n : Node Nat) : ReadM String := do
  match ← d.follow n with
  | .scalar _ _ _ s => return s
  | n => throw (unexpected path "field identifier" n)

/-- A record, read field by field from `init` on. `step` gives the reader for the fields that the
record has; no field may come twice. An empty node has no fields. -/
def record (expected : String) (init : σ) (step : σ → String → Option (Reader σ)) : Reader σ :=
  fun d depth path n => do
    match ← d.follow n with
    | .mapping _ _ entries =>
      match depth with
      | 0 => throw .nestingLimit
      | depth + 1 =>
        let (result, _) ← entries.foldlM (fun ((state, seen) : σ × List String) (k, v) => do
          let name ← fieldName d path k
          match step state name with
          | none => return (state, seen)
          | some r =>
            if seen.contains name then throw (.node path (.duplicateField name))
            let state ← r d depth (path.entry k) v
            return (state, name :: seen)) (init, [])
        return result
    | n@(.scalar _ _ style s) =>
      if style = .plain && s.isEmpty then return init
      else throw (unexpected path expected n)
    | n => throw (unexpected path expected n)

/-- A reading changed by a function that may refuse it; a cause belongs to the node read. -/
def refine (r : Reader α) (f : α → Except Cause σ) : Reader σ := fun d depth path n => do
  let a ← r d depth path n
  match f a with
  | .ok b => return b
  | .error cause => throw (.node path cause)

/-- A reading with its result changed. -/
def map (f : α → σ) (r : Reader α) : Reader σ := fun d depth path n => f <$> r d depth path n

/-- The field that a record must have. -/
def required (name : String) : Option α → Except Cause α
  | some a => .ok a
  | none => .error (.missingField name)

/-- What a document is read as. A text without a node counts as an empty node. -/
def run (r : Reader α) (d : Document) : Except ReadError α :=
  (r d 128 .root (d.root.getD .absent)).run' 0

/-- What a text is read as. -/
def readText (r : Reader α) (text : String) : Except ReadError α :=
  match Document.ofText? text with
  | none => .error .malformed
  | some d => r.run d

/-- What some bytes are read as; they must be UTF-8. -/
def readBytes (r : Reader α) (bytes : ByteArray) : Except ReadError α :=
  match String.fromUTF8? bytes with
  | none => .error .malformed
  | some text => r.readText text

end Reader

/-- The value that a text spells out. -/
def Value.ofText (text : String) : Except ReadError Value := Reader.value.readText text

end Rollout.Yaml
