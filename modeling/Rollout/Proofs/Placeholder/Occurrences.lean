import Mathlib.Data.List.Basic
import Rollout.Placeholder

/-!
# Where placeholders stand in a text

A placeholder is told here by its characters alone (`Mark`), and a text has one wherever these
characters stand (`Occurs`). Two placeholders never overlap (`Occurs.add_length_le`), because there
is no opening parenthesis behind the two that a placeholder begins with. So every text is made up of
placeholders and of single characters between them (`mark_induction`), and there is one way only to
cut it at all its placeholders (`existsUnique_isCutOf`). The scanner finds just that cut
(`IsCutOf.piecesAfter_eq`).
-/

namespace Rollout.Placeholder

/-! ## Placeholders as they are written -/

/-- A placeholder as it is written: a name that stands between double parentheses, with blanks
around it or not. -/
@[ext] structure Mark where
  before : List Char
  name : List Char
  after : List Char
  isBlank_before : ∀ c ∈ before, Text.isBlank c = true
  name_ne_nil : name ≠ []
  isNameChar_name : ∀ c ∈ name, isNameChar c = true
  isBlank_after : ∀ c ∈ after, Text.isBlank c = true
deriving DecidableEq, Repr

/-- A character of a name is not blank. -/
theorem not_isBlank_of_isNameChar {c : Char} (h : isNameChar c = true) :
    Text.isBlank c = false := by
  simp only [isNameChar, Char.isAlphanum] at h
  delta Char.isAlpha Char.isUpper Char.isLower Char.isDigit at h
  simp only [Bool.or_eq_true, Bool.and_eq_true, decide_eq_true_eq, beq_iff_eq,
    UInt32.le_iff_toNat_le, ge_iff_le] at h
  change ((((((65 ≤ c.toNat ∧ c.toNat ≤ 90) ∨ (97 ≤ c.toNat ∧ c.toNat ≤ 122)) ∨
    (48 ≤ c.toNat ∧ c.toNat ≤ 57)) ∨ c = '_') ∨ c = '.') ∨ c = '/') ∨ c = '-' at h
  rcases h with (((((h | h) | h) | rfl) | rfl) | rfl) | rfl
  any_goals decide
  all_goals
    simp only [Text.isBlank, Bool.or_eq_false_iff, Bool.and_eq_false_iff, decide_eq_false_iff_not,
      beq_eq_false_iff_ne]
    omega

/-- The row of characters with a property that a text begins with ends at the first one without. -/
theorem span_append {p : Char → Bool} {cs rest : List Char} (hcs : ∀ c ∈ cs, p c = true)
    (hrest : ∀ c ∈ rest.head?, p c = false) :
    (cs ++ rest).takeWhile p = cs ∧ (cs ++ rest).dropWhile p = rest := by
  rw [List.takeWhile_append_of_pos hcs, List.dropWhile_append_of_pos hcs]
  cases rest with
  | nil => simp
  | cons c rest =>
    have hc : ¬p c = true := Bool.eq_false_iff.1 (hrest c rfl)
    rw [List.takeWhile_cons_of_neg hc, List.dropWhile_cons_of_neg hc, List.append_nil]
    exact ⟨rfl, rfl⟩

namespace Mark

variable {m n : Mark} {cs : List Char}

/-- The characters behind the opening parentheses. -/
def inner (m : Mark) : List Char := m.before ++ (m.name ++ (m.after ++ [')', ')']))

/-- The characters of a placeholder. -/
def chars (m : Mark) : List Char := '(' :: '(' :: m.inner

/-- There is something behind the opening parentheses. -/
theorem length_inner_pos (m : Mark) : 0 < m.inner.length := by
  simp only [inner, List.length_append, List.length_cons]
  omega

/-- Behind its opening parentheses a placeholder has no further one. -/
theorem ne_paren_of_mem_inner {c : Char} (h : c ∈ m.inner) : c ≠ '(' := by
  rintro rfl
  simp only [inner, List.mem_append] at h
  rcases h with h | h | h | h
  · exact absurd (m.isBlank_before _ h) (by decide)
  · exact absurd (m.isNameChar_name _ h) (by decide)
  · exact absurd (m.isBlank_after _ h) (by decide)
  · exact absurd h (by decide)

/-- What comes behind the opening parentheses is blanks, the name, blanks and the closing
parentheses. -/
theorem inner_append (m : Mark) (rest : List Char) :
    m.inner ++ rest = m.before ++ (m.name ++ (m.after ++ ')' :: ')' :: rest)) := by
  simp [inner]

/-- The blanks behind a name end where the closing parentheses begin. -/
theorem span_after (m : Mark) (rest : List Char) :
    (m.after ++ ')' :: ')' :: rest).takeWhile Text.isBlank = m.after ∧
      (m.after ++ ')' :: ')' :: rest).dropWhile Text.isBlank = ')' :: ')' :: rest :=
  span_append m.isBlank_after fun _ hc => Option.some.inj hc ▸ rfl

/-- A name ends where the blanks behind it begin. -/
theorem span_name (m : Mark) (rest : List Char) :
    (m.name ++ (m.after ++ ')' :: ')' :: rest)).takeWhile isNameChar = m.name ∧
      (m.name ++ (m.after ++ ')' :: ')' :: rest)).dropWhile isNameChar =
        m.after ++ ')' :: ')' :: rest := by
  refine span_append m.isNameChar_name fun c hc => ?_
  cases hafter : m.after with
  | nil =>
    rw [hafter] at hc
    exact Option.some.inj hc ▸ rfl
  | cons d ds =>
    rw [hafter] at hc
    obtain rfl : d = c := Option.some.inj hc
    have hblank : Text.isBlank d = true := m.isBlank_after d (hafter ▸ List.mem_cons_self)
    by_contra hname
    rw [not_isBlank_of_isNameChar (Bool.of_not_eq_false hname)] at hblank
    cases hblank

/-- The blanks before a name end where the name begins. -/
theorem span_before (m : Mark) (rest : List Char) :
    (m.inner ++ rest).takeWhile Text.isBlank = m.before ∧
      (m.inner ++ rest).dropWhile Text.isBlank =
        m.name ++ (m.after ++ ')' :: ')' :: rest) := by
  rw [inner_append]
  refine span_append m.isBlank_before fun c hc => ?_
  cases hname : m.name with
  | nil => exact absurd hname m.name_ne_nil
  | cons d ds =>
    rw [hname] at hc
    obtain rfl : d = c := Option.some.inj hc
    exact not_isBlank_of_isNameChar (m.isNameChar_name d (hname ▸ List.mem_cons_self))

/-- A text begins with at most one placeholder. -/
theorem eq_of_prefix (hm : m.chars <+: cs) (hn : n.chars <+: cs) : m = n := by
  obtain ⟨rest, rfl⟩ := hm
  obtain ⟨rest', h⟩ := hn
  have hinner : n.inner ++ rest' = m.inner ++ rest := (List.cons.inj (List.cons.inj h).2).2
  obtain ⟨hbefore, hname⟩ := n.span_before rest'
  rw [hinner, (m.span_before rest).1] at hbefore
  rw [hinner, (m.span_before rest).2] at hname
  obtain ⟨hname', hafter⟩ := n.span_name rest'
  rw [← hname, (m.span_name rest).1] at hname'
  rw [← hname, (m.span_name rest).2] at hafter
  have hafter' := (n.span_after rest').1
  rw [← hafter, (m.span_after rest).1] at hafter'
  exact Mark.ext hbefore hname' hafter'

/-- The scanner finds the placeholder that a text begins with. -/
theorem atStart?_append (m : Mark) (rest : List Char) :
    atStart? (m.chars ++ rest) = some (m.name, m.chars.length) := by
  change atStart? ('(' :: '(' :: (m.inner ++ rest)) = _
  rw [atStart?]
  simp only [m.span_before rest, m.span_name rest, m.span_after rest]
  rw [if_neg (mt List.isEmpty_iff.1 m.name_ne_nil)]
  simp only [chars, inner, List.length_cons, List.length_append]
  grind

/-- What the scanner finds at the beginning of a text is a placeholder. -/
theorem exists_of_atStart? {name : List Char} {width : Nat}
    (h : atStart? cs = some (name, width)) :
    ∃ m : Mark, m.chars <+: cs ∧ m.name = name ∧ m.chars.length = width := by
  rw [atStart?.eq_def] at h
  split at h
  · next cs =>
    dsimp only at h
    split at h
    · next rest hclose =>
      split_ifs at h with hname
      obtain ⟨rfl, rfl⟩ := Prod.mk.inj (Option.some.inj h)
      refine ⟨{
        before := cs.takeWhile Text.isBlank
        name := (cs.dropWhile Text.isBlank).takeWhile isNameChar
        after := ((cs.dropWhile Text.isBlank).dropWhile isNameChar).takeWhile Text.isBlank
        isBlank_before := List.all_eq_true.1 List.all_takeWhile
        name_ne_nil := mt List.isEmpty_iff.2 hname
        isNameChar_name := List.all_eq_true.1 List.all_takeWhile
        isBlank_after := List.all_eq_true.1 List.all_takeWhile }, ⟨rest, ?_⟩, rfl, ?_⟩
      · simp only [chars, inner, List.cons_append, List.append_assoc, List.nil_append, ← hclose,
          List.takeWhile_append_dropWhile]
      · simp only [chars, inner, List.length_cons, List.length_append]
        grind
    · cases h
  · cases h

/-- A text begins with a placeholder if some placeholder is its beginning. -/
theorem atStart?_eq_some_iff {name : List Char} {width : Nat} :
    atStart? cs = some (name, width) ↔
      ∃ m : Mark, m.chars <+: cs ∧ m.name = name ∧ m.chars.length = width := by
  refine ⟨exists_of_atStart?, ?_⟩
  rintro ⟨m, ⟨rest, rfl⟩, rfl, rfl⟩
  exact m.atStart?_append rest

/-- A text does not begin with a placeholder if no placeholder is its beginning. -/
theorem atStart?_eq_none (h : ∀ m : Mark, ¬m.chars <+: cs) : atStart? cs = none := by
  rw [Option.eq_none_iff_forall_ne_some]
  rintro ⟨name, width⟩ hstart
  obtain ⟨m, hm, -⟩ := exists_of_atStart? hstart
  exact h m hm

end Mark

/-! ## Occurrences -/

section Occurs

variable {cs : List Char} {i j : Nat} {m n : Mark}

/-- A placeholder stands in a text behind the first `i` characters. -/
def Occurs (cs : List Char) (i : Nat) (m : Mark) : Prop := m.chars <+: cs.drop i

/-- Nothing occurs in the empty text. -/
theorem not_occurs_nil : ¬Occurs [] i m := by
  rw [Occurs, List.drop_nil, List.prefix_nil]
  exact List.cons_ne_nil _ _

/-- What occurs behind the first character occurs in the rest. -/
theorem occurs_cons_succ {c : Char} : Occurs (c :: cs) (i + 1) m ↔ Occurs cs i m := Iff.rfl

/-- There is no opening parenthesis behind those that a placeholder begins with. -/
theorem not_prefix_drop_inner (hi : i < m.inner.length) (rest tail : List Char) :
    ¬ '(' :: tail <+: m.inner.drop i ++ rest := by
  rw [List.drop_eq_getElem_cons hi, List.cons_append, List.cons_prefix_cons]
  exact fun h => Mark.ne_paren_of_mem_inner (List.getElem_mem hi) h.1.symm

/-- A text that begins with a placeholder has it in front and all others behind it. -/
theorem occurs_append_iff (m : Mark) (rest : List Char) : Occurs (m.chars ++ rest) i n ↔
    (i = 0 ∧ n = m) ∨ ∃ j, i = m.chars.length + j ∧ Occurs rest j n := by
  constructor
  · intro h
    by_cases hi : i < m.chars.length
    · rw [Occurs, List.drop_append_of_le_length (Nat.le_of_lt hi)] at h
      match i, hi, h with
      | 0, _, h =>
        exact .inl ⟨rfl, Mark.eq_of_prefix h (List.prefix_append _ _)⟩
      | 1, _, h =>
        exact absurd (List.cons_prefix_cons.1 h).2
          (not_prefix_drop_inner m.length_inner_pos rest _)
      | k + 2, hi, h =>
        have hk : k < m.inner.length := by simpa [Mark.chars] using hi
        exact absurd h (not_prefix_drop_inner hk rest _)
    · rw [Nat.not_lt] at hi
      refine .inr ⟨i - m.chars.length, (Nat.add_sub_cancel' hi).symm, ?_⟩
      rwa [Occurs, List.drop_append, List.drop_eq_nil_of_le hi, List.nil_append] at h
  · rintro (⟨rfl, rfl⟩ | ⟨j, rfl, h⟩)
    · exact List.prefix_append _ _
    · rwa [Occurs, List.drop_length_add_append]

/-- Placeholders in a text do not overlap. -/
theorem Occurs.add_length_le (hm : Occurs cs i m) (hn : Occurs cs j n) (hij : i < j) :
    i + m.chars.length ≤ j := by
  obtain ⟨rest, hrest⟩ := hm
  have hn' : Occurs (m.chars ++ rest) (j - i) n := by
    rwa [hrest, Occurs, List.drop_drop, Nat.add_sub_cancel' (Nat.le_of_lt hij)]
  rcases (occurs_append_iff m rest).1 hn' with ⟨h, -⟩ | ⟨k, h, -⟩ <;> omega

end Occurs

/-! ## All placeholders of a text -/

/-- The placeholders that begin somewhere in a text, from left to right: their names and the numbers
of their characters. -/
def starts : List Char → List (List Char × Nat)
  | [] => []
  | c :: cs => (atStart? (c :: cs)).toList ++ starts cs

/-- The starts are the places of the placeholders. -/
theorem mem_starts_iff {cs : List Char} {p : List Char × Nat} :
    p ∈ starts cs ↔ ∃ i m, Occurs cs i m ∧ p = (m.name, m.chars.length) := by
  obtain ⟨name, width⟩ := p
  induction cs with
  | nil => exact iff_of_false List.not_mem_nil fun ⟨_, _, hm, _⟩ => not_occurs_nil hm
  | cons c cs ih =>
    rw [starts, List.mem_append, Option.mem_toList, Mark.atStart?_eq_some_iff, ih]
    constructor
    · rintro (⟨m, hm, rfl, rfl⟩ | ⟨i, m, hm, h⟩)
      · exact ⟨0, m, hm, rfl⟩
      · exact ⟨i + 1, m, hm, h⟩
    · rintro ⟨i, m, hm, h⟩
      cases i with
      | zero =>
        obtain ⟨rfl, rfl⟩ := Prod.mk.inj h
        exact .inl ⟨m, hm, rfl, rfl⟩
      | succ i => exact .inr ⟨i, m, hm, h⟩

/-- A character with which no placeholder begins adds no start. -/
theorem starts_cons {c : Char} {cs : List Char} (hc : ∀ m : Mark, ¬m.chars <+: c :: cs) :
    starts (c :: cs) = starts cs := by
  rw [starts, Mark.atStart?_eq_none hc, Option.toList_none, List.nil_append]

/-- Text without an opening parenthesis adds no start. -/
theorem starts_append_of_ne {cs : List Char} (h : ∀ c ∈ cs, c ≠ '(') (rest : List Char) :
    starts (cs ++ rest) = starts rest := by
  induction cs with
  | nil => rfl
  | cons c cs ih =>
    obtain ⟨hc, hcs⟩ := List.forall_mem_cons.1 h
    have hnone : ∀ m : Mark, ¬m.chars <+: c :: (cs ++ rest) :=
      fun m hm => hc (List.cons_prefix_cons.1 hm).1.symm
    rw [List.cons_append, starts_cons hnone, ih hcs]

/-- No placeholder begins inside a placeholder. -/
theorem starts_append (m : Mark) (cs : List Char) :
    starts (m.chars ++ cs) = (m.name, m.chars.length) :: starts cs := by
  have hsecond : ∀ n : Mark, ¬n.chars <+: '(' :: (m.inner ++ cs) := by
    intro n hn
    exact not_prefix_drop_inner m.length_inner_pos cs _ (List.cons_prefix_cons.1 hn).2
  change starts ('(' :: '(' :: (m.inner ++ cs)) = _
  rw [starts, starts_cons hsecond, starts_append_of_ne fun c => Mark.ne_paren_of_mem_inner]
  exact congrArg (Option.toList · ++ starts cs) (m.atStart?_append cs)

/-- Every text is made up of placeholders and of characters that no placeholder begins with. -/
theorem mark_induction {P : List Char → Prop} (nil : P [])
    (mark : ∀ (m : Mark) cs, P cs → P (m.chars ++ cs))
    (char : ∀ c cs, (∀ m : Mark, ¬m.chars <+: c :: cs) → P cs → P (c :: cs)) (cs : List Char) :
    P cs := by
  induction hlength : cs.length using Nat.strongRecOn generalizing cs with
  | ind k ih =>
    subst hlength
    by_cases hmark : ∃ m : Mark, m.chars <+: cs
    · obtain ⟨m, rest, rfl⟩ := hmark
      exact mark m rest (ih _ (by simp [Mark.chars]; omega) rest rfl)
    · cases cs with
      | nil => exact nil
      | cons c cs => exact char c cs (not_exists.1 hmark) (ih _ (Nat.lt_succ_self _) cs rfl)

/-! ## Cuts -/

/-- A text with placeholders cut out of it: the text before the first one, and each placeholder with
the text behind it. -/
structure Cut where
  head : List Char
  rest : List (Mark × List Char)
deriving DecidableEq, Repr

namespace Cut

variable {c : Cut} {m n : Mark} {x : Char} {i : Nat}

/-- The characters of the whole text. -/
def chars (c : Cut) : List Char := c.head ++ c.rest.flatMap fun p => p.1.chars ++ p.2

/-- The texts between the placeholders. -/
def texts (c : Cut) : List (List Char) := c.head :: c.rest.map Prod.snd

/-- The placeholders with the numbers of characters before them, of which there are `i` before the
first one. -/
def spotsFrom : Nat → List (Mark × List Char) → List (Nat × Mark)
  | _, [] => []
  | i, (m, text) :: rest => (i, m) :: spotsFrom (i + (m.chars.length + text.length)) rest

/-- The placeholders with the numbers of characters before them. -/
def spots (c : Cut) : List (Nat × Mark) := spotsFrom c.head.length c.rest

/-- The cut with a character in front. -/
def consChar (x : Char) (c : Cut) : Cut := ⟨x :: c.head, c.rest⟩

/-- The cut with a placeholder in front. -/
def consMark (m : Mark) (c : Cut) : Cut := ⟨[], (m, c.head) :: c.rest⟩

/-- A character in front of a cut stands in front of its text. -/
theorem chars_consChar (x : Char) (c : Cut) : (c.consChar x).chars = x :: c.chars := rfl

/-- A placeholder in front of a cut stands in front of its text. -/
theorem chars_consMark (m : Mark) (c : Cut) : (c.consMark m).chars = m.chars ++ c.chars := by
  simp [chars, consMark]

/-- The spots of a cut move along with its start. -/
theorem mem_spotsFrom_add {k l : Nat} {rest : List (Mark × List Char)} :
    (i, n) ∈ spotsFrom (k + l) rest ↔ ∃ j, i = k + j ∧ (j, n) ∈ spotsFrom l rest := by
  induction rest generalizing l with
  | nil => simp [spotsFrom]
  | cons p rest ih =>
    obtain ⟨m, text⟩ := p
    simp only [spotsFrom, List.mem_cons, Nat.add_assoc, ih, Prod.mk.injEq]
    grind

/-- A character in front moves the spots of a cut by one. -/
theorem mem_spots_consChar :
    (i, n) ∈ (c.consChar x).spots ↔ ∃ j, i = j + 1 ∧ (j, n) ∈ c.spots := by
  have hlength : (c.consChar x).head.length = 1 + c.head.length := Nat.add_comm _ _
  rw [spots, hlength, mem_spotsFrom_add]
  simp only [Nat.add_comm 1, spots, consChar]

/-- A placeholder in front is the first spot and moves the others by its length. -/
theorem mem_spots_consMark : (i, n) ∈ (c.consMark m).spots ↔
    (i = 0 ∧ n = m) ∨ ∃ j, i = m.chars.length + j ∧ (j, n) ∈ c.spots := by
  have hspots : (c.consMark m).spots =
      (0, m) :: spotsFrom (m.chars.length + c.head.length) c.rest := by
    simp [spots, consMark, spotsFrom]
  rw [hspots, List.mem_cons, Prod.mk.injEq, mem_spotsFrom_add, spots]

/-- Nothing but a placeholder in front of a cut stands at its beginning. -/
theorem exists_eq_consMark (h : (0, m) ∈ c.spots) : ∃ c', c = consMark m c' := by
  obtain ⟨head, rest⟩ := c
  rw [spots, ← Nat.add_zero head.length, mem_spotsFrom_add] at h
  obtain ⟨j, hj, h⟩ := h
  obtain rfl : head = [] := List.length_eq_zero_iff.1 (by omega)
  obtain rfl : j = 0 := by omega
  cases rest with
  | nil => cases h
  | cons p rest =>
    obtain ⟨m', text⟩ := p
    rw [spotsFrom, Nat.zero_add, ← Nat.add_zero (_ + _), List.mem_cons, mem_spotsFrom_add] at h
    rcases h with h | ⟨j, hj, -⟩
    · obtain ⟨-, rfl⟩ := Prod.mk.inj h
      exact ⟨⟨text, rest⟩, rfl⟩
    · rw [Mark.chars, List.length_cons] at hj
      omega

/-- A placeholder is shorter than the text, unless it is the whole text. -/
theorem length_lt_of_mem (hwhole : ∀ m, c ≠ ⟨[], [(m, [])]⟩) {p : Mark × List Char}
    (hp : p ∈ c.rest) : p.1.chars.length < c.chars.length := by
  obtain ⟨head, rest⟩ := c
  obtain ⟨m, text⟩ := p
  obtain ⟨before, behind, rfl⟩ := List.append_of_mem hp
  have hpos : ∀ {l : List (Mark × List Char)}, (l.flatMap fun p => p.1.chars ++ p.2) = [] →
      l = [] := by
    intro l hl
    cases l with
    | nil => rfl
    | cons p l => simp [Mark.chars] at hl
  by_contra hle
  simp only [chars, List.flatMap_append, List.flatMap_cons, List.length_append] at hle
  refine hwhole m ?_
  obtain rfl : head = [] := List.length_eq_zero_iff.1 (by omega)
  obtain rfl : text = [] := List.length_eq_zero_iff.1 (by omega)
  obtain rfl : before = [] := hpos (List.length_eq_zero_iff.1 (by omega))
  obtain rfl : behind = [] := hpos (List.length_eq_zero_iff.1 (by omega))
  rfl

end Cut

/-- The cut of a text at all its placeholders. -/
structure IsCutOf (cs : List Char) (c : Cut) : Prop where
  chars_eq : c.chars = cs
  mem_spots_iff : ∀ i m, (i, m) ∈ c.spots ↔ Occurs cs i m

section IsCutOf

variable {cs : List Char} {c : Cut} {m : Mark} {x : Char}

/-- The only cut of the empty text is empty. -/
theorem isCutOf_nil_iff : IsCutOf [] c ↔ c = ⟨[], []⟩ := by
  constructor
  · intro h
    obtain ⟨head, rest⟩ := c
    obtain ⟨rfl, hrest⟩ := List.append_eq_nil_iff.1 h.chars_eq
    cases rest with
    | nil => rfl
    | cons p rest => simp [Mark.chars] at hrest
  · rintro rfl
    exact ⟨rfl, fun i m => iff_of_false List.not_mem_nil not_occurs_nil⟩

/-- A text that begins with a placeholder is cut behind it. -/
theorem isCutOf_append_iff :
    IsCutOf (m.chars ++ cs) c ↔ ∃ c', IsCutOf cs c' ∧ c = c'.consMark m := by
  constructor
  · intro h
    obtain ⟨c', rfl⟩ := Cut.exists_eq_consMark
      ((h.mem_spots_iff 0 m).2 (List.prefix_append _ _))
    refine ⟨c', ⟨?_, fun i n => ?_⟩, rfl⟩
    · have hchars := h.chars_eq
      rw [Cut.chars_consMark] at hchars
      exact List.append_cancel_left hchars
    · have hiff := h.mem_spots_iff (m.chars.length + i) n
      rw [Cut.mem_spots_consMark, occurs_append_iff] at hiff
      simpa [Mark.chars] using hiff
  · rintro ⟨c', h, rfl⟩
    refine ⟨by rw [Cut.chars_consMark, h.chars_eq], fun i n => ?_⟩
    simp only [Cut.mem_spots_consMark, occurs_append_iff, h.mem_spots_iff]

/-- A text that does not begin with a placeholder is cut behind its first character. -/
theorem isCutOf_cons_iff (hx : ∀ m : Mark, ¬m.chars <+: x :: cs) :
    IsCutOf (x :: cs) c ↔ ∃ c', IsCutOf cs c' ∧ c = c'.consChar x := by
  constructor
  · intro h
    obtain ⟨head, rest⟩ := c
    cases head with
    | nil =>
      cases rest with
      | nil => cases h.chars_eq
      | cons p rest =>
        have hspot := (h.mem_spots_iff 0 p.1).1 List.mem_cons_self
        exact absurd hspot (hx p.1)
    | cons y head =>
      obtain ⟨rfl, hchars⟩ := List.cons.inj h.chars_eq
      refine ⟨⟨head, rest⟩, ⟨hchars, fun i n => ?_⟩, rfl⟩
      rw [← occurs_cons_succ (c := y), ← h.mem_spots_iff]
      change _ ↔ _ ∈ ((⟨head, rest⟩ : Cut).consChar y).spots
      rw [Cut.mem_spots_consChar]
      simp
  · rintro ⟨c', h, rfl⟩
    refine ⟨by rw [Cut.chars_consChar, h.chars_eq], fun i n => ?_⟩
    rw [Cut.mem_spots_consChar]
    cases i with
    | zero => exact iff_of_false (by simp) (hx n)
    | succ i => simp [h.mem_spots_iff, occurs_cons_succ]

/-- There is one cut of a text at all its placeholders. -/
theorem existsUnique_isCutOf (cs : List Char) : ∃! c, IsCutOf cs c := by
  induction cs using mark_induction with
  | nil => exact ⟨⟨[], []⟩, isCutOf_nil_iff.2 rfl, fun c hc => isCutOf_nil_iff.1 hc⟩
  | mark m cs ih =>
    obtain ⟨c, hc, hunique⟩ := ih
    refine ⟨c.consMark m, isCutOf_append_iff.2 ⟨c, hc, rfl⟩, fun d hd => ?_⟩
    obtain ⟨d', hd', rfl⟩ := isCutOf_append_iff.1 hd
    rw [hunique d' hd']
  | char x cs hx ih =>
    obtain ⟨c, hc, hunique⟩ := ih
    refine ⟨c.consChar x, (isCutOf_cons_iff hx).2 ⟨c, hc, rfl⟩, fun d hd => ?_⟩
    obtain ⟨d', hd', rfl⟩ := (isCutOf_cons_iff hx).1 hd
    rw [hunique d' hd']

/-- No placeholder is left in the texts of a cut. -/
theorem IsCutOf.not_occurs (h : IsCutOf cs c) {text : List Char} (htext : text ∈ c.texts) (i : Nat)
    (m : Mark) : ¬Occurs text i m := by
  induction cs using mark_induction generalizing c text i with
  | nil =>
    obtain rfl := isCutOf_nil_iff.1 h
    obtain rfl := List.mem_singleton.1 htext
    exact not_occurs_nil
  | mark n cs ih =>
    obtain ⟨c', hc', rfl⟩ := isCutOf_append_iff.1 h
    rcases List.mem_cons.1 htext with rfl | htext
    · exact not_occurs_nil
    · exact ih hc' htext i
  | char x cs hx ih =>
    obtain ⟨c', hc', rfl⟩ := (isCutOf_cons_iff hx).1 h
    rcases List.mem_cons.1 htext with rfl | htext
    · cases i with
      | zero =>
        have hprefix : x :: c'.head <+: x :: cs := by
          rw [← hc'.chars_eq]
          exact List.prefix_append _ _
        exact fun hm => hx m (hm.trans hprefix)
      | succ i => exact ih hc' List.mem_cons_self i
    · exact ih hc' (List.mem_cons_of_mem _ htext) i

/-- The placeholders of a cut are all that begin somewhere in the text. -/
theorem IsCutOf.starts_eq (h : IsCutOf cs c) :
    starts cs = c.rest.map fun p => (p.1.name, p.1.chars.length) := by
  induction cs using mark_induction generalizing c with
  | nil =>
    obtain rfl := isCutOf_nil_iff.1 h
    rfl
  | mark m cs ih =>
    obtain ⟨c', hc', rfl⟩ := isCutOf_append_iff.1 h
    rw [starts_append, ih hc']
    rfl
  | char x cs hx ih =>
    obtain ⟨c', hc', rfl⟩ := (isCutOf_cons_iff hx).1 h
    rw [starts_cons hx, ih hc']
    rfl

/-! ## The scanner -/

/-- A text as a piece; the empty text is none. -/
def textPieces : List Char → List Piece
  | [] => []
  | cs => [.text cs]

/-- A text that is not empty is one piece. -/
theorem textPieces_cons (x : Char) (cs : List Char) : textPieces (x :: cs) = [.text (x :: cs)] :=
  rfl

/-- The pieces of a cut. -/
def Cut.pieces (c : Cut) : List Piece :=
  textPieces c.head ++ c.rest.flatMap fun p => .placeholder (.ofList p.1.name) :: textPieces p.2

/-- A placeholder in front of a cut is a piece in front of the others. -/
theorem Cut.pieces_consMark (m : Mark) (c : Cut) :
    (c.consMark m).pieces = .placeholder (.ofList m.name) :: c.pieces := by
  simp [pieces, consMark, textPieces]

/-- A character in front of a cut goes to the text in front of its pieces. -/
theorem Cut.pieces_consChar (x : Char) (c : Cut) :
    (c.consChar x).pieces = Placeholder.consChar x c.pieces := by
  obtain ⟨head, rest⟩ := c
  cases head with
  | cons y head => rfl
  | nil =>
    cases rest with
    | nil => rfl
    | cons p rest => simp [pieces, consChar, textPieces, Placeholder.consChar]

/-- To pass some characters first is to drop them. -/
theorem piecesAfter_eq (n : Nat) (cs : List Char) :
    piecesAfter n cs = piecesAfter 0 (cs.drop n) := by
  induction cs generalizing n with
  | nil => cases n <;> rfl
  | cons c cs ih =>
    cases n with
    | zero => rfl
    | succ n => exact ih n

/-- A placeholder in front of a text is its first piece. -/
theorem piecesAfter_append (m : Mark) (cs : List Char) :
    piecesAfter 0 (m.chars ++ cs) = .placeholder (.ofList m.name) :: piecesAfter 0 cs := by
  have hstart := m.atStart?_append cs
  change piecesAfter 0 ('(' :: ('(' :: m.inner ++ cs)) = _
  change atStart? ('(' :: ('(' :: m.inner ++ cs)) = _ at hstart
  rw [piecesAfter, hstart]
  simp [piecesAfter_eq _ ('(' :: _), Mark.chars]

/-- A character with which no placeholder begins goes to the text of the first piece. -/
theorem piecesAfter_cons (hx : ∀ m : Mark, ¬m.chars <+: x :: cs) :
    piecesAfter 0 (x :: cs) = consChar x (piecesAfter 0 cs) := by
  rw [piecesAfter, Mark.atStart?_eq_none hx]

/-- The pieces of a text are those of its cut. -/
theorem IsCutOf.piecesAfter_eq (h : IsCutOf cs c) : piecesAfter 0 cs = c.pieces := by
  induction cs using mark_induction generalizing c with
  | nil =>
    obtain rfl := isCutOf_nil_iff.1 h
    rfl
  | mark m cs ih =>
    obtain ⟨c', hc', rfl⟩ := isCutOf_append_iff.1 h
    rw [piecesAfter_append, ih hc', Cut.pieces_consMark]
  | char x cs hx ih =>
    obtain ⟨c', hc', rfl⟩ := (isCutOf_cons_iff hx).1 h
    rw [piecesAfter_cons hx, ih hc', Cut.pieces_consChar]

end IsCutOf

end Rollout.Placeholder
