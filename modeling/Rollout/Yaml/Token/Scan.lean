import Rollout.Yaml.Token.Scalar

/-!
# From text to tokens

A document is read from left to right. The scanner keeps the columns of the open block collections
and, for every flow collection that is open, the place of a token that may turn out to be a key.
When the colon after such a token comes, the `key` token, and the start of a block mapping where one
begins, are put in front of it. A text that is not YAML has no tokens.
-/

namespace Rollout.Yaml

/-- A token that is a key if a colon follows it on its line. -/
structure KeyCandidate where
  /-- How many tokens stand before it. -/
  position : Nat
  mark : Mark
  /-- Whether it stands where a block mapping must go on with a key. -/
  required : Bool
deriving DecidableEq, Repr

/-- The state of the scanner. -/
structure Scanner where
  cursor : Cursor
  /-- The tokens so far, last one first. -/
  tokens : List Token := []
  /-- The column of the innermost block collection, and those of the ones around it. -/
  indent : Int := -1
  outerIndents : List Int := []
  /-- Whether a key may begin here. -/
  keyAllowed : Bool := true
  /-- The candidate of the innermost flow collection, or of the block level, and the outer ones. -/
  candidate : Option KeyCandidate := none
  outerCandidates : List (Option KeyCandidate) := []

namespace Scanner

/-- Whether a flow collection is open. -/
def inFlow (s : Scanner) : Bool := !s.outerCandidates.isEmpty

def column (s : Scanner) : Nat := s.cursor.mark.column

def push (s : Scanner) (t : Token) : Scanner := { s with tokens := t :: s.tokens }

/-- The scanner some characters further on the line. -/
def advance (s : Scanner) (n : Nat) : Scanner := { s with cursor := s.cursor.advance n }

/-- Puts tokens in front of the one that has `position` tokens before it. -/
def insertAt (s : Scanner) (position : Nat) (ts : List Token) : Scanner :=
  let after := s.tokens.length - position
  { s with tokens := s.tokens.take after ++ ts.reverse ++ s.tokens.drop after }

/-- Forgets the candidate; a required one must not be forgotten. -/
def dropCandidate? (s : Scanner) : Option Scanner :=
  match s.candidate with
  | some ⟨_, _, true⟩ => none
  | _ => some { s with candidate := none }

/-- Makes the token that comes next a candidate, where a key may begin. -/
def offerCandidate? (s : Scanner) : Option Scanner :=
  if s.keyAllowed then do
    let required := !s.inFlow && s.indent = s.column
    let s ← s.dropCandidate?
    return { s with candidate := some ⟨s.tokens.length, s.cursor.mark, required⟩ }
  else some s

/-- A candidate that a colon can no longer follow: it stands on an earlier line, or more than
1024 characters back. -/
def isStale (m : Mark) (k : KeyCandidate) : Bool :=
  k.mark.line < m.line || k.mark.index + 1024 < m.index

/-- The candidate if it is still good; a required one that is stale is an error. -/
def refresh? (m : Mark) : Option KeyCandidate → Option (Option KeyCandidate)
  | none => some none
  | some k => if isStale m k then (if k.required then none else some none) else some (some k)

/-- Forgets all stale candidates. -/
def dropStale? (s : Scanner) : Option Scanner := do
  let candidate ← refresh? s.cursor.mark s.candidate
  let outerCandidates ← s.outerCandidates.mapM (refresh? s.cursor.mark)
  return { s with candidate, outerCandidates }

/-- Opens a block collection at a column to the right of the innermost one. Its opening token is
put at `position`, at the end if that is not given. -/
def openBlock (s : Scanner) (column : Nat) (t : Token) (position : Option Nat) : Scanner :=
  if s.inFlow || (column : Int) ≤ s.indent then s
  else
    let s := { s with indent := column, outerIndents := s.indent :: s.outerIndents }
    match position with
    | none => s.push t
    | some p => s.insertAt p [t]

/-- Closes the block collections to the right of a column. -/
def closeBlocks (s : Scanner) (column : Int) : Scanner :=
  if s.inFlow then s else go s.indent s.outerIndents s.tokens
where
  /-- Closes them one by one. -/
  go (indent : Int) (outer : List Int) (tokens : List Token) : Scanner :=
    match outer with
    | [] => { s with indent, outerIndents := [], tokens }
    | i :: is =>
      if column < indent then go i is (.blockEnd :: tokens)
      else { s with indent, outerIndents := i :: is, tokens }

/-- Skips gaps, comments and breaks before a token. A tab is a gap only where no key may begin or
inside a flow collection; a break in block context lets a key begin. -/
def skipToToken (fuel : Nat) (s : Scanner) : Scanner :=
  match fuel with
  | 0 => s
  | fuel + 1 =>
    let c := s.cursor
    let c := if c.mark.column = 0 && c.rest.head? = some '\uFEFF' then c.advance 1 else c
    let c := c.skip fun x => x == ' ' || (x == '\t' && (s.inFlow || !s.keyAllowed))
    let c := if c.rest.head? = some '#' then c.skip (!isBreak ·) else c
    match c.rest with
    | x :: _ =>
      if isBreak x then
        skipToToken fuel { s with cursor := c.skipBreak, keyAllowed := s.keyAllowed || !s.inFlow }
      else { s with cursor := c }
    | [] => { s with cursor := c }

/-- The opening bracket of a flow collection. -/
def openFlow? (s : Scanner) (t : Token) : Option Scanner := do
  let s ← s.offerCandidate?
  let s := { s with
    candidate := none, outerCandidates := s.candidate :: s.outerCandidates, keyAllowed := true }
  return (s.advance 1).push t

/-- The closing bracket of a flow collection. -/
def closeFlow? (s : Scanner) (t : Token) : Option Scanner := do
  let s ← s.dropCandidate?
  let s := match s.outerCandidates with
    | [] => s
    | k :: ks => { s with candidate := k, outerCandidates := ks }
  return ({ s with keyAllowed := false }.advance 1).push t

/-- The comma of a flow collection. -/
def flowEntry? (s : Scanner) : Option Scanner := do
  let s ← s.dropCandidate?
  return ({ s with keyAllowed := true }.advance 1).push .flowEntry

/-- The dash of a block sequence. -/
def blockEntry? (s : Scanner) : Option Scanner := do
  if !s.inFlow && !s.keyAllowed then none
  let s := s.openBlock s.column .blockSequenceStart none
  let s ← s.dropCandidate?
  return ({ s with keyAllowed := true }.advance 1).push .blockEntry

/-- The question mark of an explicit key. -/
def key? (s : Scanner) : Option Scanner := do
  if !s.inFlow && !s.keyAllowed then none
  let s := s.openBlock s.column .blockMappingStart none
  let s ← s.dropCandidate?
  return ({ s with keyAllowed := !s.inFlow }.advance 1).push .key

/-- The colon of a mapping. -/
def value? (s : Scanner) : Option Scanner := do
  let s ← match s.candidate with
    | some k =>
      let s := s.insertAt k.position [.key]
      let s := s.openBlock k.mark.column .blockMappingStart (some k.position)
      some { s with candidate := none, keyAllowed := false }
    | none =>
      if !s.inFlow && !s.keyAllowed then none
      else
        let s := s.openBlock s.column .blockMappingStart none
        some { s with keyAllowed := !s.inFlow }
  return (s.advance 1).push .value

/-- The end of a document, or a mark between documents, closes everything in block context. -/
def closeAll? (s : Scanner) : Option Scanner := do
  let s ← (s.closeBlocks (-1)).dropCandidate?
  return { s with keyAllowed := false }

/-- The decimal digits of one number of a version, nine at most. -/
def versionNumber? (c : Cursor) : Option (Nat × Cursor) :=
  let (ds, c) := c.span Char.isDigit
  if ds.isEmpty || 9 < ds.length then none
  else some (ds.foldl (fun n d => 10 * n + (d.toNat - 48)) 0, c)

/-- The handle of a tag: an exclamation mark, word characters, and perhaps another mark. -/
def tagHandle? (c : Cursor) (directive : Bool) : Option (List Char × Cursor) :=
  match c.rest with
  | '!' :: _ =>
    let (word, c) := (c.advance 1).span isWordChar
    match c.rest with
    | '!' :: _ => some ('!' :: word ++ ['!'], c.advance 1)
    | _ => if directive && !word.isEmpty then none else some ('!' :: word, c)
  | _ => none

/-- The octet that `%` and two hexadecimal digits stand for. -/
def escapedOctet? : List Char → Option (Nat × List Char)
  | '%' :: h :: l :: cs => do
    let high ← Text.Percent.hexValue h
    let low ← Text.Percent.hexValue l
    return (16 * high + low, cs)
  | _ => none

/-- The octets of one escaped character: its first octet tells how many there are. -/
def escapedChar? (cs : List Char) : Option (List Nat × List Char) := do
  let (first, cs) ← escapedOctet? cs
  let count ←
    if first < 0x80 then some 0
    else if first / 32 = 6 then some 1
    else if first / 16 = 14 then some 2
    else if first / 8 = 30 then some 3
    else none
  let (more, cs) ← further count cs
  return (first :: more, cs)
where
  /-- The octets after the first. -/
  further : Nat → List Char → Option (List Nat × List Char)
    | 0, cs => some ([], cs)
    | n + 1, cs => do
      let (octet, cs) ← escapedOctet? cs
      if octet / 64 ≠ 2 then none
      let (more, cs) ← further n cs
      return (octet :: more, cs)

/-- A character of a tag; commas and brackets only occur in a tag in angle brackets. -/
def isTagChar (verbatim : Bool) (c : Char) : Bool :=
  isWordChar c || ";/?:@&=+$.!~*'()".toList.contains c || (verbatim && ",[]".toList.contains c)

/-- The octets of a tag. -/
def tagOctets? (fuel : Nat) (verbatim : Bool) (c : Cursor) : Option (List UInt8 × Cursor) :=
  match fuel with
  | 0 => some ([], c)
  | fuel + 1 =>
    match c.rest with
    | '%' :: _ => do
      let (octets, rest) ← escapedChar? c.rest
      let (more, c) ← tagOctets? fuel verbatim ⟨rest, c.mark.advance (3 * octets.length)⟩
      return (octets.map UInt8.ofNat ++ more, c)
    | x :: _ =>
      if isTagChar verbatim x then do
        let (more, c) ← tagOctets? fuel verbatim (c.advance 1)
        return (UInt8.ofNat x.toNat :: more, c)
      else some ([], c)
    | [] => some ([], c)

/-- The octets of a tag; there is at least one. -/
def tagText? (verbatim : Bool) (c : Cursor) : Option (List UInt8 × Cursor) := do
  let (octets, c) ← tagOctets? c.rest.length verbatim c
  if octets.isEmpty then none
  return (octets, c)

/-- A line that begins with a percent sign: a version or a tag directive. -/
def directive? (s : Scanner) : Option Scanner := do
  let s ← s.closeAll?
  let (name, c) := (s.cursor.advance 1).span isWordChar
  if !endsWord c.rest then none
  let c := c.skip isGap
  let (t, c) ← match name with
    | ['Y', 'A', 'M', 'L'] => do
      let (major, c) ← versionNumber? c
      if c.rest.head? ≠ some '.' then none
      let (minor, c) ← versionNumber? (c.advance 1)
      some (Token.versionDirective major minor, c)
    | ['T', 'A', 'G'] => do
      let (handle, c) ← tagHandle? c true
      if !c.rest.head?.any isGap then none
      let (start, c) ← tagText? true (c.skip isGap)
      if !endsWord c.rest then none
      some (Token.tagDirective handle start, c)
    | _ => none
  let c ← c.finishLine?
  return { s with cursor := c }.push t

/-- A mark between documents. -/
def documentMark? (s : Scanner) (t : Token) : Option Scanner := do
  let s ← s.closeAll?
  return (s.advance 3).push t

/-- An anchor or an alias. -/
def anchor? (s : Scanner) (token : List Char → Token) : Option Scanner := do
  let s ← s.offerCandidate?
  let (name, c) := (s.cursor.advance 1).span isWordChar
  if name.isEmpty then none
  if !endsWord c.rest && !c.rest.head?.any ("?:,]\x7d%@`".toList.contains ·) then none
  return { s with keyAllowed := false, cursor := c }.push (token name)

/-- A tag: in angle brackets, with a handle, or local. The tag of a lone exclamation mark has an
empty handle. -/
def tag? (s : Scanner) : Option Scanner := do
  let s ← s.offerCandidate?
  let (t, c) ← match s.cursor.rest with
    | '!' :: '<' :: _ => do
      let (octets, c) ← tagText? true (s.cursor.advance 2)
      if c.rest.head? ≠ some '>' then none
      some (Token.tag [] octets, c.advance 1)
    | _ => do
      let (handle, c) ← tagHandle? s.cursor false
      if 1 < handle.length && handle.getLast? = some '!' then do
        let (suffix, c) ← tagText? false c
        some (Token.tag handle suffix, c)
      else do
        let (more, c) ← tagOctets? c.rest.length false c
        let suffix := handle.tail.map (fun x => UInt8.ofNat x.toNat) ++ more
        if suffix.isEmpty then some (Token.tag [] [33], c)
        else some (Token.tag ['!'] suffix, c)
  if !endsWord c.rest && !(s.inFlow && c.rest.head? = some ',') then none
  return { s with keyAllowed := false, cursor := c }.push t

/-- The header of a block scalar after its indicator: chomping, indentation in either order, and
the end of the line. -/
def blockHeader? (c : Cursor) : Option (Chomping × Nat × Cursor) := do
  let chomp (c : Cursor) : Option (Chomping × Cursor) :=
    match c.rest with
    | '+' :: _ => some (.keep, c.advance 1)
    | '-' :: _ => some (.strip, c.advance 1)
    | _ => none
  let width (c : Cursor) : Option (Option (Nat × Cursor)) :=
    match c.rest with
    | '0' :: _ => none
    | d :: _ => some (if d.isDigit then some (d.toNat - 48, c.advance 1) else none)
    | [] => some none
  let (chomping, increment, c) ← match chomp c with
    | some (chomping, c) => do
      match ← width c with
      | some (n, c) => some (chomping, n, c)
      | none => some (chomping, 0, c)
    | none => do
      match ← width c with
      | some (n, c) =>
        match chomp c with
        | some (chomping, c) => some (chomping, n, c)
        | none => some (.clip, n, c)
      | none => some (.clip, 0, c)
  let c ← c.finishLine?
  return (chomping, increment, c)

/-- A literal or folded block scalar. -/
def blockScalar? (s : Scanner) (literal : Bool) : Option Scanner := do
  let s ← s.dropCandidate?
  let (chomping, increment, c) ← blockHeader? (s.cursor.advance 1)
  let indent := if increment = 0 then 0 else s.indent.toNat + increment
  let (b, c) ← Block.scan literal s.indent { indent } c.mark c.rest
  return { s with keyAllowed := true, cursor := c }.push
    (.scalar (if literal then .literal else .folded) (b.finish chomping))

/-- A quoted scalar. -/
def quotedScalar? (s : Scanner) (double : Bool) : Option Scanner := do
  let s ← s.offerCandidate?
  let c := s.cursor.advance 1
  let (text, c) ← Quoted.scan double {} c.mark c.rest
  return { s with keyAllowed := false, cursor := c }.push
    (.scalar (if double then .doubleQuoted else .singleQuoted) text)

/-- A plain scalar; breaks after it let a key begin. -/
def plainScalar? (s : Scanner) : Option Scanner := do
  let s ← s.offerCandidate?
  let (text, broken, c) ←
    scanPlain s.inFlow (s.indent + 1).toNat .empty [] s.cursor.mark s.cursor.rest
  return { s with keyAllowed := broken, cursor := c }.push (.scalar .plain text)

/-- The characters that no plain scalar begins with. -/
def indicators : List Char := "-?:,[]\x7b\x7d#&*!|>'\"%@`".toList

/-- Whether a plain scalar begins with `c` before `cs`. -/
def startsPlain (flow : Bool) (c : Char) (cs : List Char) : Bool :=
  !(isGap c || isBreak c || indicators.contains c) ||
    (c = '-' && !cs.head?.any isGap) ||
    (!flow && (c = '?' || c = ':') && !endsWord cs)

/-- One more token, from the first character of it on. -/
def token? (s : Scanner) (c : Char) (cs : List Char) : Option Scanner :=
  if s.column = 0 && c = '%' then s.directive?
  else if s.column = 0 && atDocumentMark (c :: cs) then
    s.documentMark? (if c = '-' then .documentStart else .documentEnd)
  else if c = '[' then s.openFlow? .flowSequenceStart
  else if c = '{' then s.openFlow? .flowMappingStart
  else if c = ']' then s.closeFlow? .flowSequenceEnd
  else if c = '}' then s.closeFlow? .flowMappingEnd
  else if c = ',' then s.flowEntry?
  else if c = '-' && endsWord cs then s.blockEntry?
  else if c = '?' && (s.inFlow || endsWord cs) then s.key?
  else if c = ':' && (s.inFlow || endsWord cs) then s.value?
  else if c = '*' then s.anchor? .alias
  else if c = '&' then s.anchor? .anchor
  else if c = '!' then s.tag?
  else if c = '|' && !s.inFlow then s.blockScalar? true
  else if c = '>' && !s.inFlow then s.blockScalar? false
  else if c = '\'' then s.quotedScalar? false
  else if c = '"' then s.quotedScalar? true
  else if startsPlain s.inFlow c cs then s.plainScalar?
  else none

/-- All tokens from here on, first one first. Each token takes at least one character, so a fuel
greater than the number of characters left stays so. -/
def run (fuel : Nat) (s : Scanner) : Option (List Token) :=
  match fuel with
  | 0 => none
  | fuel + 1 => do
    let s := s.skipToToken (fuel + 1)
    let s ← s.dropStale?
    let s := s.closeBlocks s.column
    match s.cursor.rest with
    | [] => do
      let s ← s.closeAll?
      return s.tokens.reverse
    | c :: cs => do
      let s ← s.token? c cs
      run fuel s

end Scanner

/-- The tokens of a document, if its text has any. -/
def Token.ofText? (text : List Char) : Option (List Token) :=
  if text.all isAllowed then Scanner.run (text.length + 1) { cursor := .start text } else none

end Rollout.Yaml
