import Rollout.Yaml.Node
import Rollout.Yaml.Token.Scan

/-!
# From tokens to nodes

The grammar of documents over tokens, by recursive descent. A text is one document, with directives
and document marks around it at most; a second document is an error, as is everything that the
grammar does not derive.
-/

namespace Rollout.Yaml

/-- The tags that handles stand for. -/
abbrev Handles := List (List Char × Tag)

/-- The handles that every document knows: `!` for local tags and `!!` for those of the core. -/
def Handles.default : Handles :=
  [(['!'], [33]), (['!', '!'], "tag:yaml.org,2002:".toUTF8.data.toList)]

namespace Node

/-- The tag of a node: its suffix after what the handle stands for. -/
def resolveTag? (handles : Handles) (handle : List Char) (suffix : List UInt8) : Option Tag :=
  if handle.isEmpty then some suffix
  else (handles.find? (·.1 == handle)).map (·.2 ++ suffix)

/-- The anchor and the tag in front of a node, in either order. -/
def properties? (handles : Handles) : List Token →
    Option (Option String × Option Tag × List Token)
  | .anchor a :: .tag h s :: ts | .tag h s :: .anchor a :: ts => do
    let tag ← resolveTag? handles h s
    return (some (.ofList a), some tag, ts)
  | .anchor a :: ts => some (some (.ofList a), none, ts)
  | .tag h s :: ts => do
    let tag ← resolveTag? handles h s
    return (none, some tag, ts)
  | ts => some (none, none, ts)

/-- Whether a node is absent before this token after the dash of a block sequence. -/
def endsItem : List Token → Bool
  | .blockEntry :: _ | .blockEnd :: _ => true
  | _ => false

/-- Whether a node is absent before this token inside a block mapping. -/
def endsField : List Token → Bool
  | .key :: _ | .value :: _ | .blockEnd :: _ => true
  | _ => false

/-- Whether a node is absent before this token after the colon of a flow mapping. -/
def endsFlowValue : List Token → Bool
  | .flowEntry :: _ | .flowMappingEnd :: _ => true
  | _ => false

mutual

/-- A node. In block context block collections may begin, and as a key or value of a block mapping
a sequence need not be indented. -/
def parse? (handles : Handles) (fuel : Nat) (block indentless : Bool) (ts : List Token) :
    Option (Node String × List Token) :=
  match fuel with
  | 0 => none
  | fuel + 1 =>
    match ts with
    | .alias name :: ts => some (.alias (.ofList name), ts)
    | ts => do
      let (anchor, tag, ts) ← properties? handles ts
      match ts, block, indentless with
      | .blockEntry :: _, _, true =>
        let (items, ts) ← indentlessItems? handles fuel ts
        some (.sequence anchor tag items, ts)
      | .scalar style text :: ts, _, _ =>
        some (.scalar anchor tag style (.ofList text), ts)
      | .flowSequenceStart :: ts, _, _ =>
        let (items, ts) ← flowItems? handles fuel true ts
        some (.sequence anchor tag items, ts)
      | .flowMappingStart :: ts, _, _ =>
        let (entries, ts) ← flowEntries? handles fuel true ts
        some (.mapping anchor tag entries, ts)
      | .blockSequenceStart :: ts, true, _ =>
        let (items, ts) ← blockItems? handles fuel ts
        some (.sequence anchor tag items, ts)
      | .blockMappingStart :: ts, true, _ =>
        let (entries, ts) ← blockEntries? handles fuel ts
        some (.mapping anchor tag entries, ts)
      | ts, _, _ =>
        if anchor.isSome || tag.isSome then some (.scalar anchor tag .plain "", ts) else none
termination_by structural fuel

/-- The items of an indented block sequence, up to its end. -/
def blockItems? (handles : Handles) (fuel : Nat) (ts : List Token) :
    Option (List (Node String) × List Token) :=
  match fuel with
  | 0 => none
  | fuel + 1 =>
    match ts with
    | .blockEntry :: ts => do
      let (item, ts) ← if endsItem ts then some (absent, ts) else parse? handles fuel true false ts
      let (items, ts) ← blockItems? handles fuel ts
      return (item :: items, ts)
    | .blockEnd :: ts => some ([], ts)
    | _ => none
termination_by structural fuel

/-- The items of a block sequence at the column of the mapping around it. -/
def indentlessItems? (handles : Handles) (fuel : Nat) (ts : List Token) :
    Option (List (Node String) × List Token) :=
  match fuel with
  | 0 => none
  | fuel + 1 =>
    match ts with
    | .blockEntry :: ts => do
      let (item, ts) ←
        if endsItem ts || endsField ts then some (absent, ts) else parse? handles fuel true false ts
      let (items, ts) ← indentlessItems? handles fuel ts
      return (item :: items, ts)
    | ts => some ([], ts)
termination_by structural fuel

/-- The entries of a block mapping, up to its end. -/
def blockEntries? (handles : Handles) (fuel : Nat) (ts : List Token) :
    Option (List (Node String × Node String) × List Token) :=
  match fuel with
  | 0 => none
  | fuel + 1 =>
    match ts with
    | .key :: ts => do
      let (k, ts) ← if endsField ts then some (absent, ts) else parse? handles fuel true true ts
      let (v, ts) ← match ts with
        | .value :: ts =>
          if endsField ts then some (absent, ts) else parse? handles fuel true true ts
        | ts => some (absent, ts)
      let (entries, ts) ← blockEntries? handles fuel ts
      return ((k, v) :: entries, ts)
    | .blockEnd :: ts => some ([], ts)
    | _ => none
termination_by structural fuel

/-- The items of a flow sequence, up to its closing bracket. A pair with a colon is a mapping of
one entry. -/
def flowItems? (handles : Handles) (fuel : Nat) (first : Bool) (ts : List Token) :
    Option (List (Node String) × List Token) :=
  match fuel with
  | 0 => none
  | fuel + 1 =>
    match ts with
    | .flowSequenceEnd :: ts => some ([], ts)
    | ts => do
      let ts ← match first, ts with
        | true, ts => some ts
        | false, .flowEntry :: ts => some ts
        | false, _ => none
      match ts with
      | .flowSequenceEnd :: ts => some ([], ts)
      | .key :: ts =>
        let (k, ts) ← match ts with
          | .value :: ts | .flowEntry :: ts | .flowSequenceEnd :: ts => some (absent, ts)
          | ts => parse? handles fuel false false ts
        let (v, ts) ← match ts with
          | .value :: .flowEntry :: ts => some (absent, .flowEntry :: ts)
          | .value :: .flowSequenceEnd :: ts => some (absent, .flowSequenceEnd :: ts)
          | .value :: ts => parse? handles fuel false false ts
          | ts => some (absent, ts)
        let (items, ts) ← flowItems? handles fuel false ts
        some (.mapping none none [(k, v)] :: items, ts)
      | ts =>
        let (item, ts) ← parse? handles fuel false false ts
        let (items, ts) ← flowItems? handles fuel false ts
        some (item :: items, ts)
termination_by structural fuel

/-- The entries of a flow mapping, up to its closing brace. A node without a colon is a key. -/
def flowEntries? (handles : Handles) (fuel : Nat) (first : Bool) (ts : List Token) :
    Option (List (Node String × Node String) × List Token) :=
  match fuel with
  | 0 => none
  | fuel + 1 =>
    match ts with
    | .flowMappingEnd :: ts => some ([], ts)
    | ts => do
      let ts ← match first, ts with
        | true, ts => some ts
        | false, .flowEntry :: ts => some ts
        | false, _ => none
      match ts with
      | .flowMappingEnd :: ts => some ([], ts)
      | .key :: ts =>
        let (k, ts) ← match ts with
          | .value :: ts => some (absent, .value :: ts)
          | ts => if endsFlowValue ts then some (absent, ts) else parse? handles fuel false false ts
        let (v, ts) ← match ts with
          | .value :: ts =>
            if endsFlowValue ts then some (absent, ts) else parse? handles fuel false false ts
          | ts => some (absent, ts)
        let (entries, ts) ← flowEntries? handles fuel false ts
        some ((k, v) :: entries, ts)
      | ts =>
        let (k, ts) ← parse? handles fuel false false ts
        let (entries, ts) ← flowEntries? handles fuel false ts
        some ((k, absent) :: entries, ts)
termination_by structural fuel

end

/-- The directives before a document mark: one version at most, which must be 1.1 or 1.2, and
handles that differ from each other. -/
def directives? (version : Bool) (handles : Handles) :
    List Token → Option (Handles × List Token)
  | .versionDirective major minor :: ts =>
    if version || major ≠ 1 || (minor ≠ 1 && minor ≠ 2) then none
    else directives? true handles ts
  | .tagDirective handle start :: ts =>
    if handles.any (·.1 == handle) then none
    else directives? version (handles ++ [(handle, start)]) ts
  | ts => some (handles, ts)

/-- Whether a document without a node ends before this token. -/
def endsDocument : List Token → Bool
  | [] => true
  | .versionDirective .. :: _ | .tagDirective .. :: _ | .documentStart :: _ | .documentEnd :: _ =>
    true
  | _ => false

/-- The node of the only document, `none` for a stream without one. -/
def ofTokens? (ts : List Token) : Option (Option (Node String)) := do
  let fuel := 2 * ts.length + 4
  let explicit := match ts with
    | .versionDirective .. :: _ | .tagDirective .. :: _ | .documentStart :: _ => true
    | _ => false
  if ts.isEmpty then some none
  else
    let (n, ts) ←
      if explicit then do
        let (handles, ts) ← directives? false [] ts
        match ts with
        | .documentStart :: ts =>
          let known := handles ++ Handles.default
          if endsDocument ts then some (absent, ts) else parse? known fuel true false ts
        | _ => none
      else parse? Handles.default fuel true false ts
    if ts.all (· == .documentEnd) then some (some n) else none

end Node

/-- The document that a text spells out, if it is well formed. -/
def Document.ofText? (text : String) : Option Document := do
  let ts ← Token.ofText? text.toList
  match ← Node.ofTokens? ts with
  | none => return .empty
  | some n =>
    let (n, _) ← n.link? []
    return .ofNode n

end Rollout.Yaml
