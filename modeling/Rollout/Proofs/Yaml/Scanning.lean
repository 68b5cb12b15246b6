import Mathlib.Data.List.Basic
import Rollout.Yaml.Token.Scan

/-!
# Runs of the scanner in block context

What the scanner does with a text is told in steps: `Scanner.Reaches s s'` says that the tokens of
the document can as well be found from `s'` on. In block context a state of the scanner consists of
the open collections with the tokens so far (`Blocks`), a position, and a candidate for a key
(`Scanner.inBlock`), and there is one lemma for every token of the block structure.

A candidate that no colon can follow any more is dropped by the scanner in its own time. A
candidate that need not become a key and is on the current line or an earlier one is `Passing`: it
has no effect on what comes after the line.
-/

namespace Rollout.Yaml

namespace Mark

@[simp] theorem advance_zero (m : Mark) : m.advance 0 = m := rfl

/-- To move on twice is to move on by both lengths at once. -/
@[simp] theorem advance_advance (m : Mark) (i j : Nat) :
    (m.advance i).advance j = m.advance (i + j) := by
  simp [advance, Nat.add_assoc]

@[simp] theorem column_advance (m : Mark) (n : Nat) : (m.advance n).column = m.column + n := rfl

@[simp] theorem line_advance (m : Mark) (n : Nat) : (m.advance n).line = m.line := rfl

@[simp] theorem index_advance (m : Mark) (n : Nat) : (m.advance n).index = m.index + n := rfl

@[simp] theorem next_eq (m : Mark) : m.next = m.advance 1 := rfl

@[simp] theorem column_newLine (m : Mark) (n : Nat) : (m.newLine n).column = 0 := rfl

@[simp] theorem line_newLine (m : Mark) (n : Nat) : (m.newLine n).line = m.line + 1 := rfl

end Mark

/-- The open block collections: the column of the innermost one, those of the ones around it, and
the tokens so far, last one first. -/
structure Blocks where
  indent : Int
  outer : List Int
  tokens : List Token

namespace Blocks

/-- Nothing is open and no token has been read. -/
def start : Blocks := ⟨-1, [], []⟩

/-- Further tokens, in the order of the document. -/
def add (b : Blocks) (ts : List Token) : Blocks := { b with tokens := ts.reverse ++ b.tokens }

/-- Opens a collection at a column to the right of the innermost one. -/
def openAt (b : Blocks) (column : Nat) (t : Token) : Blocks :=
  if (column : Int) ≤ b.indent then b else ⟨column, b.indent :: b.outer, t :: b.tokens⟩

/-- The collections that are left when those to the right of a column have been closed. -/
def closeFrom (column indent : Int) : List Int → List Token → Blocks
  | [], ts => ⟨indent, [], ts⟩
  | i :: is, ts =>
    if column < indent then closeFrom column i is (.blockEnd :: ts) else ⟨indent, i :: is, ts⟩

/-- Closes the collections to the right of a column. -/
def close (b : Blocks) (column : Int) : Blocks := closeFrom column b.indent b.outer b.tokens

@[simp] theorem indent_add (b : Blocks) (ts : List Token) : (b.add ts).indent = b.indent := rfl

@[simp] theorem tokens_add (b : Blocks) (ts : List Token) :
    (b.add ts).tokens = ts.reverse ++ b.tokens := rfl

@[simp] theorem add_nil (b : Blocks) : b.add [] = b := rfl

/-- Tokens are added one after the other. -/
@[simp] theorem add_add (b : Blocks) (ts us : List Token) :
    (b.add ts).add us = b.add (ts ++ us) := by
  simp [add]

/-- A node that is not indented further opens no block. -/
theorem openAt_of_le {b : Blocks} {column : Nat} (h : (column : Int) ≤ b.indent) (t : Token) :
    b.openAt column t = b := if_pos h

/-- A node that is indented further opens a block at its column. -/
theorem openAt_of_lt {b : Blocks} {column : Nat} (h : b.indent < column) (t : Token) :
    b.openAt column t = ⟨column, b.indent :: b.outer, t :: b.tokens⟩ := if_neg (by omega)

/-- The indentation after a block may have been opened is the column of the node. -/
theorem indent_openAt {b : Blocks} {column : Nat} (h : b.indent ≤ column) (t : Token) :
    (b.openAt column t).indent = column := by
  rw [openAt]
  split_ifs with hle
  · exact Int.le_antisymm h hle
  · rfl

/-- A column at the indentation or to the right of it closes no block. -/
theorem close_of_le {b : Blocks} {column : Int} (h : b.indent ≤ column) : b.close column = b := by
  obtain ⟨indent, outer, ts⟩ := b
  have hlt : ¬ column < indent := by simpa using h
  cases outer with
  | nil => rfl
  | cons i is => simp [close, closeFrom, hlt]

/-- Closing to the right of a column and then of one before it closes all to the right of the
latter. -/
theorem closeFrom_closeFrom {j k : Int} (h : k ≤ j) (indent : Int) (outer : List Int)
    (ts : List Token) :
    (closeFrom j indent outer ts).close k = closeFrom k indent outer ts := by
  induction outer generalizing indent ts with
  | nil => rfl
  | cons i is ih =>
    rw [closeFrom]
    by_cases hj : j < indent
    · rw [if_pos hj, ih, closeFrom, if_pos (Int.lt_of_le_of_lt h hj)]
    · rw [if_neg hj]
      rfl

/-- To close the blocks beyond one column and then those beyond a smaller one is to do the latter at
once. -/
theorem close_close {b : Blocks} {j k : Int} (h : k ≤ j) : (b.close j).close k = b.close k :=
  closeFrom_closeFrom h _ _ _

/-- A collection to the right of a column is closed with a token of its own. -/
theorem close_openAt {b : Blocks} {column : Nat} {k : Int} (hcolumn : b.indent < column)
    (hk : k ≤ b.indent) (t : Token) (ts : List Token) :
    ((b.openAt column t).add ts).close k = (b.add (t :: ts ++ [.blockEnd])).close k := by
  have hlt : k < column := Int.lt_of_le_of_lt hk hcolumn
  simp [openAt_of_lt hcolumn, close, closeFrom, add, hlt]

end Blocks

/-- Whether a token begins here. -/
def startsToken : List Char → Bool
  | [] => false
  | c :: _ => !(isGap c || isBreak c || c == '#' || c == '\uFEFF')

/-- What can stand after a node: nothing, or some columns into a line the next token. The column
of nothing counts as `-1`. -/
def Follows (column : Int) (tail : List Char) : Prop :=
  (column = -1 ∧ tail = []) ∨ (0 ≤ column ∧ startsToken tail = true)

namespace Scanner

/-- The scanner outside of flow collections. -/
def inBlock (b : Blocks) (c : Cursor) (keyAllowed : Bool) (candidate : Option KeyCandidate) :
    Scanner :=
  { cursor := c, tokens := b.tokens, indent := b.indent, outerIndents := b.outer
    keyAllowed, candidate }

/-- What the scanner does between two tokens. -/
def prepare (fuel : Nat) (s : Scanner) : Option Scanner :=
  (s.skipToToken fuel).dropStale?.map fun s => s.closeBlocks s.column

/-- What the scanner does at a token or at the end. -/
def proceed (fuel : Nat) (s : Scanner) : Option (List Token) :=
  match s.cursor.rest with
  | [] => s.closeAll?.map (·.tokens.reverse)
  | c :: cs => (s.token? c cs).bind (run fuel)

/-- The scanner prepares for the next token and then goes on to it. -/
theorem run_succ (fuel : Nat) (s : Scanner) :
    run (fuel + 1) s = (s.prepare (fuel + 1)).bind (proceed fuel) := by
  rw [run, prepare]
  cases (s.skipToToken (fuel + 1)).dropStale? with
  | none => rfl
  | some t =>
    simp only [Option.bind_eq_bind, Option.bind_some, Option.map_some, proceed]
    split
    · simp only [*, Option.map_eq_bind]
      rfl
    · simp only [*]

/-- The tokens of the document can as well be found from the second state on. -/
def Reaches (s s' : Scanner) : Prop :=
  ∀ fuel, s.cursor.rest.length < fuel →
    ∃ fuel', s'.cursor.rest.length < fuel' ∧ run fuel s = run fuel' s'

/-- Every state is reached from itself. -/
theorem Reaches.refl (s : Scanner) : Reaches s s := fun fuel h => ⟨fuel, h, rfl⟩

/-- What is reached from a state that has been reached is reached. -/
theorem Reaches.trans {s t u : Scanner} (h : Reaches s t) (h' : Reaches t u) : Reaches s u := by
  intro fuel hfuel
  obtain ⟨fuel', hfuel', heq⟩ := h fuel hfuel
  obtain ⟨fuel'', hfuel'', heq'⟩ := h' fuel' hfuel'
  exact ⟨fuel'', hfuel'', heq.trans heq'⟩

/-- Two states that are the same at the next token. -/
theorem Reaches.of_prepare {s s' : Scanner}
    (hlen : s'.cursor.rest.length ≤ s.cursor.rest.length)
    (h : ∀ n m, s.cursor.rest.length ≤ n →
      (s.prepare (n + 1)).bind (proceed m) = (s'.prepare (n + 1)).bind (proceed m)) :
    Reaches s s' := by
  intro fuel hfuel
  refine ⟨fuel, by omega, ?_⟩
  obtain ⟨n, rfl⟩ : ∃ n, fuel = n + 1 := ⟨fuel - 1, by omega⟩
  rw [run_succ, run_succ, h n n (by omega)]

/-- A candidate that cannot be the cause of an error, nor of anything else after this line. -/
def Passing (m : Mark) (candidate : Option KeyCandidate) : Prop :=
  ∀ k ∈ candidate, k.required = false ∧ k.mark.line ≤ m.line

/-- Where no key has begun, nothing needs to be passed. -/
theorem passing_none (m : Mark) : Passing m none := by simp [Passing]

/-- A key that has been passed stays so further on in the text. -/
theorem Passing.mono {m m' : Mark} {candidate : Option KeyCandidate} (h : Passing m candidate)
    (hle : m.line ≤ m'.line) : Passing m' candidate :=
  fun k hk => ⟨(h k hk).1, Nat.le_trans (h k hk).2 hle⟩

/-- A passing candidate may be dropped, but that is all. -/
theorem Passing.exists_refresh? {m : Mark} {candidate : Option KeyCandidate}
    (h : Passing m candidate) :
    ∃ candidate', refresh? m candidate = some candidate' ∧ Passing m candidate' ∧
      (candidate = none → candidate' = none) := by
  cases candidate with
  | none => exact ⟨none, rfl, h, fun _ => rfl⟩
  | some k =>
    rw [refresh?, (h k rfl).1]
    by_cases hstale : isStale m k = true
    · exact ⟨none, by simp [hstale], passing_none m, fun _ => rfl⟩
    · exact ⟨some k, by simp [hstale], h, fun hk => by cases hk⟩

/-- On a later line a passing candidate is dropped. -/
theorem Passing.refresh?_eq {m m' : Mark} {candidate : Option KeyCandidate}
    (h : Passing m candidate) (hlt : m.line < m'.line) : refresh? m' candidate = some none := by
  cases candidate with
  | none => rfl
  | some k =>
    obtain ⟨hrequired, hline⟩ := h k rfl
    have hstale : isStale m' k = true := by
      simp only [isStale, Bool.or_eq_true, decide_eq_true_eq]
      exact .inl (Nat.lt_of_le_of_lt hline hlt)
    rw [refresh?, if_pos hstale, hrequired]
    rfl

section Block

variable {b : Blocks} {m : Mark} {keyAllowed : Bool} {candidate candidate' : Option KeyCandidate}
  {cs tail : List Char} {k : Int}

/-- The place that the scanner is at is the one that is given. -/
@[simp] theorem cursor_inBlock (c : Cursor) :
    (inBlock b c keyAllowed candidate).cursor = c := rfl

@[simp] theorem column_inBlock (c : Cursor) :
    (inBlock b c keyAllowed candidate).column = c.mark.column := rfl

/-- Whether a key may begin is as it is given. -/
@[simp] theorem keyAllowed_inBlock (c : Cursor) :
    (inBlock b c keyAllowed candidate).keyAllowed = keyAllowed := rfl

/-- The key that may have begun is the one that is given. -/
@[simp] theorem candidate_inBlock (c : Cursor) :
    (inBlock b c keyAllowed candidate).candidate = candidate := rfl

@[simp] theorem indent_inBlock (c : Cursor) :
    (inBlock b c keyAllowed candidate).indent = b.indent := rfl

/-- In a block there is no flow. -/
@[simp] theorem inFlow_inBlock (c : Cursor) :
    (inBlock b c keyAllowed candidate).inFlow = false := rfl

/-- Blocks are closed without moving on in the text. -/
@[simp] theorem closeBlocks_inBlock (c : Cursor) (k : Int) :
    (inBlock b c keyAllowed candidate).closeBlocks k =
      inBlock (b.close k) c keyAllowed candidate := by
  have hgo (indent : Int) (outer : List Int) (ts : List Token) :
      closeBlocks.go (inBlock b c keyAllowed candidate) k indent outer ts =
        inBlock (.closeFrom k indent outer ts) c keyAllowed candidate := by
    induction outer generalizing indent ts with
    | nil => rfl
    | cons i is ih =>
      rw [closeBlocks.go, Blocks.closeFrom]
      split_ifs
      · exact ih _ _
      · rfl
  exact hgo _ _ _

/-- In a block, a key that is no longer possible is dropped. -/
theorem dropStale?_inBlock (c : Cursor) :
    (inBlock b c keyAllowed candidate).dropStale? =
      (refresh? c.mark candidate).map (inBlock b c keyAllowed ·) := by
  rw [dropStale?]
  cases h : refresh? c.mark candidate with
  | none => simp [inBlock, h]
  | some k => simp [inBlock, h]

/-- A block is opened before the next token if the node is indented further. -/
theorem openBlock_inBlock (c : Cursor) (column : Nat) (t : Token) :
    (inBlock b c keyAllowed candidate).openBlock column t none =
      inBlock (b.openAt column t) c keyAllowed candidate := by
  rw [openBlock, Blocks.openAt]
  by_cases h : (column : Int) ≤ b.indent <;> simp [inBlock, h, inFlow, push]

/-- Tokens put in front of those that came last. -/
theorem insertAt_inBlock (c : Cursor) (ts us : List Token) :
    (inBlock (b.add ts) c keyAllowed candidate).insertAt b.tokens.length us =
      inBlock (b.add (us ++ ts)) c keyAllowed candidate := by
  have hafter : ((b.add ts).tokens.length - b.tokens.length) = ts.reverse.length := by simp
  have htokens : (b.add (us ++ ts)).tokens = ts.reverse ++ us.reverse ++ b.tokens := by simp
  simp only [insertAt, inBlock, hafter, htokens]
  simp [Blocks.add]

/-- A block is opened before a key that has been scanned already. -/
theorem openBlock_inBlock_of_position (c : Cursor) (column : Nat) (t : Token) (ts : List Token) :
    (inBlock (b.add ts) c keyAllowed candidate).openBlock column t (some b.tokens.length) =
      inBlock ((b.openAt column t).add ts) c keyAllowed candidate := by
  rw [openBlock, Blocks.openAt]
  by_cases h : (column : Int) ≤ b.indent
  · rw [if_pos h, if_pos (by simp [h])]
  · have hadd : (Blocks.mk column (b.indent :: b.outer) b.tokens).add ([t] ++ ts) =
        (Blocks.mk column (b.indent :: b.outer) (t :: b.tokens)).add ts := by
      simp [Blocks.add]
    rw [if_neg h, if_neg (by simp [h]), ← hadd]
    exact insertAt_inBlock (b := ⟨column, b.indent :: b.outer, b.tokens⟩) c ts [t]

/-! ## Between tokens -/

/-- A token starts with a character that is neither blank nor the start of a comment. -/
theorem startsToken_cons {c : Char} :
    startsToken (c :: cs) = true ↔
      isGap c = false ∧ isBreak c = false ∧ c ≠ '#' ∧ c ≠ '\uFEFF' := by
  simp [startsToken, and_assoc]

/-- Spaces before a token do not look like a mark at the start of a text. -/
theorem startsToken_replicate_ne (j : Nat) {tail : List Char}
    (htail : tail = [] ∨ startsToken tail = true) :
    (List.replicate j ' ' ++ tail).head? ≠ some '\uFEFF' := by
  cases j with
  | zero =>
    cases tail with
    | nil => simp
    | cons c cs => simpa using (startsToken_cons.1 (htail.resolve_left (by simp))).2.2.2
  | succ j => simp [List.replicate_succ]

/-- Spaces are skipped up to the next token. -/
theorem skip_spaces (j : Nat) (tail : List Char) {p : Char → Bool} (hspace : p ' ' = true)
    (htail : ∀ c ∈ tail.head?, p c = false) :
    Cursor.skip ⟨List.replicate j ' ' ++ tail, m⟩ p = ⟨tail, m.advance j⟩ := by
  have hspan : (List.replicate j ' ' ++ tail).takeWhile p = List.replicate j ' ' := by
    rw [List.takeWhile_append_of_pos (by simp +contextual [List.mem_replicate, hspace])]
    cases tail with
    | nil => simp
    | cons c cs => simp [htail c rfl]
  simp [Cursor.skip, Cursor.span, hspan, Cursor.advance]

/-- Spaces are skipped up to the next token or the end. -/
theorem skipToToken_spaces (n j : Nat) {s : Scanner}
    (hs : s.cursor = ⟨List.replicate j ' ' ++ tail, m⟩)
    (htail : tail = [] ∨ startsToken tail = true) :
    s.skipToToken (n + 1) = { s with cursor := ⟨tail, m.advance j⟩ } := by
  have hbom := startsToken_replicate_ne j htail
  have hskip := skip_spaces (m := m) j tail
    (p := fun x => x == ' ' || (x == '\t' && (s.inFlow || !s.keyAllowed))) (by simp) <| by
      intro c hc
      obtain ⟨cs, rfl⟩ := List.head?_eq_some_iff.1 hc
      have hgap := (startsToken_cons.1 (htail.resolve_left (by simp))).1
      have : c ≠ ' ' ∧ c ≠ '\t' := by simpa [isGap] using hgap
      simp [this]
  rw [skipToToken, hs]
  simp only [hbom, decide_false, Bool.and_false, Bool.false_eq_true, if_false, hskip]
  cases tail with
  | nil => simp
  | cons c cs =>
    obtain ⟨-, hbreak, hsharp, -⟩ := startsToken_cons.1 (htail.resolve_left (by simp))
    simp [hsharp, hbreak]

/-- Where a token starts, nothing is skipped. -/
theorem skipToToken_eq_self (n : Nat) {s : Scanner}
    (htail : s.cursor.rest = [] ∨ startsToken s.cursor.rest = true) :
    s.skipToToken (n + 1) = s := by
  have hs : s.cursor = ⟨List.replicate 0 ' ' ++ s.cursor.rest, s.cursor.mark⟩ := rfl
  exact skipToToken_spaces n 0 hs htail

/-- A break in block context lets a key begin. -/
theorem skipToToken_newLine (n : Nat) :
    (inBlock b ⟨'\n' :: cs, m⟩ keyAllowed candidate).skipToToken (n + 2) =
      (inBlock b ⟨cs, m.newLine 1⟩ true candidate).skipToToken (n + 1) := by
  have hbreak : isBreak '\n' = true := rfl
  rw [skipToToken]
  simp [Cursor.skip, Cursor.span, Cursor.advance, Mark.advance, Cursor.skipBreak, inBlock, hbreak,
    inFlow]

/-- A passing candidate is forgotten on a later line, and the collections to the right of the
next token are closed. -/
theorem prepare_inBlock {c : Cursor} {n : Nat}
    (hskip : (inBlock b c keyAllowed candidate).skipToToken n = inBlock b ⟨tail, m⟩ true candidate)
    (hdrop : refresh? m candidate = some candidate') :
    (inBlock b c keyAllowed candidate).prepare n =
      some (inBlock (b.close m.column) ⟨tail, m⟩ true candidate') := by
  rw [prepare, hskip, dropStale?_inBlock, hdrop]
  simp only [Option.map_some, closeBlocks_inBlock, column_inBlock]

/-- At the end everything is closed. -/
theorem proceed_nil (n : Nat) :
    (inBlock b ⟨[], m⟩ keyAllowed none).proceed n = some (b.close (-1)).tokens.reverse := by
  simp only [proceed, cursor_inBlock, closeAll?, closeBlocks_inBlock]
  rfl

/-- Closing what stands to the right of the next token before it changes nothing. -/
theorem reaches_of_prepare {c : Cursor} (hfollows : Follows k tail) (hcolumn : m.column = k.toNat)
    (hlen : tail.length ≤ c.rest.length)
    (hprepare : ∀ n, c.rest.length ≤ n → (inBlock b c keyAllowed candidate).prepare (n + 1) =
      some (inBlock (b.close k.toNat) ⟨tail, m⟩ true none)) :
    Reaches (inBlock b c keyAllowed candidate) (inBlock (b.close k) ⟨tail, m⟩ true none) := by
  refine .of_prepare hlen fun n p hn => ?_
  have htail : tail = [] ∨ startsToken tail = true := hfollows.imp And.right And.right
  have hskip := skipToToken_eq_self (s := inBlock (b.close k) ⟨tail, m⟩ true none) n htail
  rw [hprepare n hn, prepare_inBlock hskip rfl, hcolumn]
  rcases hfollows with ⟨rfl, rfl⟩ | ⟨hk, -⟩
  · simp only [Option.bind_some, proceed_nil]
    rw [Blocks.close_close (by decide), Blocks.close_close (by decide),
      Blocks.close_close (by decide)]
  · rw [Int.toNat_of_nonneg hk, Blocks.close_close Int.le_rfl]

/-- Where a node has ended and the next token or the end has been found. -/
theorem reaches_settled (hfollows : Follows k tail) (hcolumn : m.column = k.toNat)
    (hdrop : refresh? m candidate = some none) :
    Reaches (inBlock b ⟨tail, m⟩ true candidate) (inBlock (b.close k) ⟨tail, m⟩ true none) := by
  refine reaches_of_prepare hfollows hcolumn (Nat.le_refl _) fun n _ => ?_
  have htail : tail = [] ∨ startsToken tail = true := hfollows.imp And.right And.right
  have hskip := skipToToken_eq_self (s := inBlock b ⟨tail, m⟩ true candidate) n htail
  rw [prepare_inBlock hskip hdrop, hcolumn]

/-- Where a node has ended before the break. -/
theorem reaches_newLine (hfollows : Follows k tail) (hpassing : Passing m candidate) :
    Reaches
      (inBlock b ⟨'\n' :: (List.replicate k.toNat ' ' ++ tail), m⟩ keyAllowed candidate)
      (inBlock (b.close k) ⟨tail, (m.newLine 1).advance k.toNat⟩ true none) := by
  refine reaches_of_prepare hfollows (by simp) (by simp; omega) fun n hn => ?_
  have htail : tail = [] ∨ startsToken tail = true := hfollows.imp And.right And.right
  obtain ⟨n, rfl⟩ : ∃ n', n = n' + 1 := ⟨n - 1, by simp at hn; omega⟩
  have hskip := skipToToken_spaces (m := m.newLine 1)
    (s := inBlock b ⟨List.replicate k.toNat ' ' ++ tail, m.newLine 1⟩ true candidate)
    n k.toNat rfl htail
  rw [prepare_inBlock ((skipToToken_newLine n).trans hskip) (hpassing.refresh?_eq (by simp))]
  simp

/-- A space before a token. -/
theorem reaches_gap (hstart : startsToken tail = true) :
    Reaches (inBlock b ⟨' ' :: tail, m⟩ keyAllowed candidate)
      (inBlock b ⟨tail, m.advance 1⟩ keyAllowed candidate) := by
  refine .of_prepare (by simp) fun n p _ => ?_
  have hs : (inBlock b ⟨' ' :: tail, m⟩ keyAllowed candidate).cursor =
    ⟨List.replicate 1 ' ' ++ tail, m⟩ := rfl
  have hskip := skipToToken_spaces n 1 hs (.inr hstart)
  have hskip' := skipToToken_eq_self
    (s := inBlock b ⟨tail, m.advance 1⟩ keyAllowed candidate) n (.inr hstart)
  rw [prepare, prepare, hskip, hskip']
  rfl

/-! ## Tokens of the block structure -/

/-- One token. -/
theorem reaches_token {c : Char} {s : Scanner} (hstart : startsToken (c :: cs) = true)
    (hcolumn : b.indent ≤ m.column) (hdrop : refresh? m candidate = some candidate')
    (htoken : (inBlock b ⟨c :: cs, m⟩ keyAllowed candidate').token? c cs = some s)
    (hlen : s.cursor.rest.length ≤ cs.length) :
    Reaches (inBlock b ⟨c :: cs, m⟩ keyAllowed candidate) s := by
  intro fuel hfuel
  obtain ⟨n, rfl⟩ : ∃ n, fuel = n + 1 := ⟨fuel - 1, by omega⟩
  refine ⟨n, by simp at hfuel; omega, ?_⟩
  have hskip := skipToToken_eq_self
    (s := inBlock b ⟨c :: cs, m⟩ keyAllowed candidate) n (.inr hstart)
  have hprepare : (inBlock b ⟨c :: cs, m⟩ keyAllowed candidate).prepare (n + 1) =
      some (inBlock b ⟨c :: cs, m⟩ keyAllowed candidate') := by
    rw [prepare, hskip, dropStale?_inBlock, hdrop]
    simp [Blocks.close_of_le hcolumn]
  rw [run_succ, hprepare]
  simp [proceed, htoken]

/-- A character before the end of a word does not begin a mark between documents. -/
theorem atDocumentMark_of_endsWord (c : Char) (hends : endsWord cs = true) :
    atDocumentMark (c :: cs) = false := by
  have hne : ∀ d ds, cs = d :: ds → d ≠ '-' ∧ d ≠ '.' := by
    rintro d ds rfl
    constructor <;> rintro rfl <;> simp [endsWord, isGap, isBreak] at hends
  rw [atDocumentMark.eq_def]
  split
  · next heq =>
    injection heq with _ heq
    exact absurd rfl (hne _ _ heq).1
  · next heq =>
    injection heq with _ heq
    exact absurd rfl (hne _ _ heq).2
  · rfl

/-- The dash of an item, which opens a block sequence at a column of its own. -/
theorem reaches_blockEntry (hends : endsWord cs = true) (hcolumn : b.indent ≤ m.column) :
    Reaches (inBlock b ⟨'-' :: cs, m⟩ true none)
      (inBlock ((b.openAt m.column .blockSequenceStart).add [.blockEntry]) ⟨cs, m.advance 1⟩
        true none) := by
  refine reaches_token (startsToken_cons.2 (by decide)) hcolumn rfl ?_ (by simp)
  have hmark := atDocumentMark_of_endsWord '-' hends
  have htoken : (inBlock b ⟨'-' :: cs, m⟩ true none).token? '-' cs =
      blockEntry? (inBlock b ⟨'-' :: cs, m⟩ true none) := by
    simp [token?, hmark, hends]
  rw [htoken, blockEntry?, column_inBlock, openBlock_inBlock]
  rfl

/-- The question mark of a long key, which opens a block mapping at a column of its own. -/
theorem reaches_key (hends : endsWord cs = true) (hcolumn : b.indent ≤ m.column) :
    Reaches (inBlock b ⟨'?' :: cs, m⟩ true none)
      (inBlock ((b.openAt m.column .blockMappingStart).add [.key]) ⟨cs, m.advance 1⟩
        true none) := by
  refine reaches_token (startsToken_cons.2 (by decide)) hcolumn rfl ?_ (by simp)
  have hmark := atDocumentMark_of_endsWord '?' hends
  have htoken : (inBlock b ⟨'?' :: cs, m⟩ true none).token? '?' cs =
      (inBlock b ⟨'?' :: cs, m⟩ true none).key? := by
    simp [token?, hmark, hends]
  rw [htoken, key?, column_inBlock, openBlock_inBlock]
  rfl

/-- The colon after a long key. -/
theorem reaches_value (hends : endsWord cs = true) (hcolumn : b.indent = m.column) :
    Reaches (inBlock b ⟨':' :: cs, m⟩ true none)
      (inBlock (b.add [.value]) ⟨cs, m.advance 1⟩ true none) := by
  refine reaches_token (startsToken_cons.2 (by decide)) (Int.le_of_eq hcolumn) rfl ?_ (by simp)
  have hmark := atDocumentMark_of_endsWord ':' hends
  have htoken : (inBlock b ⟨':' :: cs, m⟩ true none).token? ':' cs =
      (inBlock b ⟨':' :: cs, m⟩ true none).value? := by
    simp [token?, hmark, hends]
  have hopen : b.openAt m.column .blockMappingStart = b :=
    Blocks.openAt_of_le (Int.le_of_eq hcolumn.symm) _
  simp only [htoken, value?, candidate_inBlock, inFlow_inBlock, keyAllowed_inBlock, column_inBlock,
    openBlock_inBlock, hopen]
  rfl

/-- The colon after a short key: the key gets its token, and the mapping that it may begin. -/
theorem reaches_value_of_candidate {ts : List Token} {mark : Mark} {required : Bool}
    (hfresh : isStale m ⟨b.tokens.length, mark, required⟩ = false) (hends : endsWord cs = true)
    (hcolumn : b.indent ≤ m.column) :
    Reaches
      (inBlock (b.add ts) ⟨':' :: cs, m⟩ keyAllowed (some ⟨b.tokens.length, mark, required⟩))
      (inBlock ((b.openAt mark.column .blockMappingStart).add (.key :: ts ++ [.value]))
        ⟨cs, m.advance 1⟩ false none) := by
  refine reaches_token (startsToken_cons.2 (by decide)) hcolumn
    (by rw [refresh?, if_neg (by simp [hfresh])]) ?_ (by simp)
  have hmark := atDocumentMark_of_endsWord ':' hends
  have htoken (s : Scanner) (hs : s.inFlow = false) : s.token? ':' cs = s.value? := by
    simp [token?, hmark, hends, hs]
  simp only [htoken _ (inFlow_inBlock _), value?, candidate_inBlock, insertAt_inBlock,
    openBlock_inBlock_of_position]
  rw [← Blocks.add_add _ (.key :: ts)]
  rfl

/-! ## Candidates and empty flow collections -/

/-- The candidate after a token that may be a key has begun. -/
def offer (b : Blocks) (m : Mark) (keyAllowed : Bool) (candidate : Option KeyCandidate) :
    Option KeyCandidate :=
  if keyAllowed then some ⟨b.tokens.length, m, b.indent = m.column⟩ else candidate

/-- In a block, a key may begin wherever it is allowed. -/
theorem offerCandidate?_inBlock {c : Cursor} (h : keyAllowed = true → candidate = none) :
    (inBlock b c keyAllowed candidate).offerCandidate? =
      some (inBlock b c keyAllowed (offer b c.mark keyAllowed candidate)) := by
  cases keyAllowed with
  | false => rfl
  | true =>
    rw [h rfl]
    rfl

/-- A key that begins to the right of the indentation can be passed. -/
theorem Passing.offer (hpassing : Passing m candidate) (hcolumn : b.indent < m.column) :
    Passing m (offer b m keyAllowed candidate) := by
  cases keyAllowed with
  | false => exact hpassing
  | true =>
    rintro k ⟨⟩
    exact ⟨by simpa using fun h => absurd h (by omega), Nat.le_refl _⟩

/-- The scanner after the first bracket of a flow collection in block context. -/
def inBracket (b : Blocks) (c : Cursor) (candidate : Option KeyCandidate) : Scanner :=
  { inBlock b c true none with outerCandidates := [candidate] }

/-- The first bracket of an empty flow collection. -/
theorem reaches_openFlow {bracket : Char} {t : Token}
    (hbracket : bracket = '[' ∧ t = .flowSequenceStart ∨ bracket = '\x7b' ∧ t = .flowMappingStart)
    (hcolumn : b.indent ≤ m.column) (hdrop : refresh? m candidate = some candidate')
    (hallowed : keyAllowed = true → candidate' = none) :
    Reaches (inBlock b ⟨bracket :: cs, m⟩ keyAllowed candidate)
      (inBracket (b.add [t]) ⟨cs, m.advance 1⟩ (offer b m keyAllowed candidate')) := by
  have hstart : startsToken (bracket :: cs) = true :=
    startsToken_cons.2 (by rcases hbracket with ⟨rfl, -⟩ | ⟨rfl, -⟩ <;> decide)
  refine reaches_token hstart hcolumn hdrop ?_ (Nat.le_refl _)
  have htoken : (inBlock b ⟨bracket :: cs, m⟩ keyAllowed candidate').token? bracket cs =
      (inBlock b ⟨bracket :: cs, m⟩ keyAllowed candidate').openFlow? t := by
    rcases hbracket with ⟨rfl, rfl⟩ | ⟨rfl, rfl⟩ <;> simp [token?, atDocumentMark]
  rw [htoken, openFlow?, offerCandidate?_inBlock hallowed]
  rfl

/-- The second bracket of an empty flow collection. -/
theorem reaches_closeFlow {bracket : Char} {t : Token}
    (hbracket : bracket = ']' ∧ t = .flowSequenceEnd ∨ bracket = '\x7d' ∧ t = .flowMappingEnd)
    (hdrop : refresh? m candidate = some candidate') (hcolumn : 0 < m.column) :
    Reaches (inBracket b ⟨bracket :: cs, m⟩ candidate)
      (inBlock (b.add [t]) ⟨cs, m.advance 1⟩ false candidate') := by
  intro fuel hfuel
  obtain ⟨n, rfl⟩ : ∃ n, fuel = n + 1 := ⟨fuel - 1, by omega⟩
  refine ⟨n, by simp [inBracket, inBlock] at hfuel ⊢; omega, ?_⟩
  have hstart : startsToken (bracket :: cs) = true :=
    startsToken_cons.2 (by rcases hbracket with ⟨rfl, -⟩ | ⟨rfl, -⟩ <;> decide)
  have hskip := skipToToken_eq_self
    (s := inBracket b ⟨bracket :: cs, m⟩ candidate) n (.inr hstart)
  have hnone : refresh? m none = some none := rfl
  have hprepare : (inBracket b ⟨bracket :: cs, m⟩ candidate).prepare (n + 1) =
      some (inBracket b ⟨bracket :: cs, m⟩ candidate') := by
    rw [prepare, hskip, dropStale?]
    simp [hdrop, hnone, inBracket, inBlock, closeBlocks, inFlow]
  have htoken : (inBracket b ⟨bracket :: cs, m⟩ candidate').token? bracket cs =
      (inBracket b ⟨bracket :: cs, m⟩ candidate').closeFlow? t := by
    have hne : m.column ≠ 0 := Nat.pos_iff_ne_zero.1 hcolumn
    rcases hbracket with ⟨rfl, rfl⟩ | ⟨rfl, rfl⟩ <;>
      simp [token?, inBracket, inBlock, column, hne]
  rw [run_succ, hprepare]
  simp only [Option.bind_some, proceed]
  change ((inBracket b ⟨bracket :: cs, m⟩ candidate').token? bracket cs).bind _ = _
  rw [htoken]
  rfl

/-- The two brackets of an empty flow collection with the tokens for them. -/
def IsEmptyFlow (cs : List Char) (ts : List Token) : Prop :=
  cs = ['[', ']'] ∧ ts = [.flowSequenceStart, .flowSequenceEnd] ∨
    cs = ['\x7b', '\x7d'] ∧ ts = [.flowMappingStart, .flowMappingEnd]

/-- An empty flow collection; it can be a key as well. -/
theorem reaches_emptyFlow {candidate'' : Option KeyCandidate} {brackets : List Char}
    {ts : List Token} (hflow : IsEmptyFlow brackets ts) (hcolumn : b.indent ≤ m.column)
    (hdrop : refresh? m candidate = some candidate')
    (hallowed : keyAllowed = true → candidate' = none)
    (hdrop' : refresh? (m.advance 1) (offer b m keyAllowed candidate') = some candidate'') :
    Reaches (inBlock b ⟨brackets ++ cs, m⟩ keyAllowed candidate)
      (inBlock (b.add ts) ⟨cs, m.advance 2⟩ false candidate'') := by
  rcases hflow with ⟨rfl, rfl⟩ | ⟨rfl, rfl⟩
  · refine (reaches_openFlow (.inl ⟨rfl, rfl⟩) hcolumn hdrop hallowed).trans ?_
    simpa using
      reaches_closeFlow (b := b.add [.flowSequenceStart]) (.inl ⟨rfl, rfl⟩) hdrop' (by simp)
  · refine (reaches_openFlow (.inr ⟨rfl, rfl⟩) hcolumn hdrop hallowed).trans ?_
    simpa using
      reaches_closeFlow (b := b.add [.flowMappingStart]) (.inr ⟨rfl, rfl⟩) hdrop' (by simp)

end Block

end Scanner

end Rollout.Yaml
