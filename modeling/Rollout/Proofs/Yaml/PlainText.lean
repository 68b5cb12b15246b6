import Rollout.Proofs.Yaml.NumberText
import Rollout.Proofs.Yaml.Scanning
import Rollout.Yaml.Value.Write

/-!
# Plain scalars

A text that `IsPlain` is scanned as one plain scalar on one line, in front of the break that ends
the line (`reaches_plain`) as well as in front of the colon that makes it a key
(`reaches_plainKey`). The texts that the writer does not quote are of this kind.
-/

namespace Rollout.Yaml

open TextShape Scanner

/-- A text that a plain scalar on one line can have. -/
structure IsPlain (cs : List Char) : Prop where
  ne_nil : cs ≠ []
  start : startsLikeIndicator cs = false
  inner : hasInnerIndicator cs = false
  mark : "---".toList.isPrefixOf cs = false ∧ "...".toList.isPrefixOf cs = false
  shown : ∀ c ∈ cs, isShown c = true ∧ isBreak c = false
  first : cs.head? ≠ some ' '
  last : cs.getLast? ≠ some ' '

/-- A text that may be written plainly is plain. -/
theorem isPlain_of_plainAllowed {cs : List Char} (hne : cs ≠ [])
    (h : (TextShape.of cs).plainAllowed = true) : IsPlain cs := by
  rw [TextShape.of, if_neg (by simpa using hne)] at h
  simp only [ofChars, Bool.not_eq_true', Bool.or_eq_false_iff] at h
  obtain ⟨⟨⟨⟨⟨⟨⟨hmark, hstart⟩, hinner⟩, hshown⟩, hbreak⟩, houter⟩, -⟩, -⟩ := h
  refine ⟨hne, hstart, hinner, hmark, fun c hc => ⟨?_, ?_⟩, ?_, ?_⟩
  · simpa using List.any_eq_false.1 hshown c hc
  · simpa using List.any_eq_false.1 hbreak c hc
  · simpa using houter.1.1.1
  · simpa using houter.1.2

/-- A character of the texts of nulls, truth values and numbers. -/
def isAtomChar (c : Char) : Bool := c.isAlphanum || c == '.' || c == '-' || c == '+'

/-- The characters of an atom are ASCII. -/
theorem toNat_lt_of_isAtomChar {c : Char} (h : isAtomChar c = true) : c.toNat < 128 := by
  simp only [isAtomChar, Char.isAlphanum] at h
  delta Char.isAlpha Char.isUpper Char.isLower Char.isDigit at h
  simp only [Bool.or_eq_true, Bool.and_eq_true, decide_eq_true_eq, beq_iff_eq, ge_iff_le,
    UInt32.le_iff_toNat_le] at h
  rcases h with ((((⟨-, h⟩ | ⟨-, h⟩) | ⟨-, h⟩) | rfl) | rfl) | rfl
  · exact Nat.lt_of_le_of_lt h (by decide)
  · exact Nat.lt_of_le_of_lt h (by decide)
  · exact Nat.lt_of_le_of_lt h (by decide)
  all_goals decide

/-- What these characters are not. -/
theorem isAtomChar_spec {c : Char} (h : isAtomChar c = true) :
    isShown c = true ∧ isBreak c = false ∧ isGap c = false ∧ c ≠ ':' ∧ c ≠ '#' ∧ c ≠ '?' ∧
      "#,[]\x7b\x7d&*!|>'\"%@`".toList.contains c = false := by
  have table : ∀ n < 128, isAtomChar (Char.ofNat n) = true →
      isShown (Char.ofNat n) = true ∧ isBreak (Char.ofNat n) = false ∧
        isGap (Char.ofNat n) = false ∧ Char.ofNat n ≠ ':' ∧ Char.ofNat n ≠ '#' ∧
        Char.ofNat n ≠ '?' ∧
        "#,[]\x7b\x7d&*!|>'\"%@`".toList.contains (Char.ofNat n) = false := by
    decide +kernel
  have hc := table c.toNat (toNat_lt_of_isAtomChar h)
  rw [Char.ofNat_toNat] at hc
  exact hc h

/-- A text of such characters is plain, unless it begins with a sign or a point that is alone or
doubled. -/
theorem isPlain_of_isAtomChar {c : Char} {cs : List Char}
    (hchars : ∀ d ∈ c :: cs, isAtomChar d = true)
    (hsecond : c.isAlphanum = true ∨ ∃ d ∈ cs.head?, d ≠ c) : IsPlain (c :: cs) := by
  obtain ⟨hc, hcs⟩ := List.forall_mem_cons.1 hchars
  obtain ⟨hshown, hbreak, hgap, hcolon, hsharp, hquestion, hlist⟩ := isAtomChar_spec hc
  have hinner : ∀ {ds : List Char}, (∀ d ∈ ds, isAtomChar d = true) →
      hasInnerIndicator ds = false := by
    intro ds hds
    fun_induction hasInnerIndicator ds with
    | case1 a b ds ih =>
      obtain ⟨-, hds⟩ := List.forall_mem_cons.1 hds
      obtain ⟨-, -, -, hcolon, hsharp, -⟩ := isAtomChar_spec (hds b List.mem_cons_self)
      simp [hcolon, hsharp, ih hds]
    | case2 => rfl
  have hspace : ∀ d ∈ c :: cs, d ≠ ' ' := by
    rintro d hd rfl
    exact absurd (isAtomChar_spec (hchars _ hd)).2.2.1 (by decide)
  refine ⟨List.cons_ne_nil _ _, ?_, hinner hchars, ?_, fun d hd => ?_, ?_, ?_⟩
  · have hword : (c == '-' && endsWord cs) = false := by
      rcases hsecond with hc | ⟨d, hd, -⟩
      · have : c ≠ '-' := by
          rintro rfl
          cases hc
        simp [this]
      · obtain ⟨ds, rfl⟩ := List.head?_eq_some_iff.1 hd
        obtain ⟨-, hbreak, hgap, -⟩ := isAtomChar_spec (hcs d List.mem_cons_self)
        simp [endsWord, hbreak, hgap]
    rw [startsLikeIndicator, hlist, Bool.false_or]
    simpa [hcolon, hquestion] using hword
  · have hmark : ∀ x : Char, x.isAlphanum = false → [x, x, x].isPrefixOf (c :: cs) = false := by
      intro x hx
      rw [Bool.eq_false_iff, ne_eq, List.isPrefixOf_iff_prefix]
      rintro ⟨rest, heq⟩
      obtain ⟨rfl, rfl⟩ := List.cons.inj heq
      rcases hsecond with hc | ⟨d, hd, hne⟩
      · rw [hx] at hc
        cases hc
      · exact hne (Option.some.inj hd).symm
    exact ⟨hmark '-' (by decide), hmark '.' (by decide)⟩
  · exact ⟨(isAtomChar_spec (hchars d hd)).1, (isAtomChar_spec (hchars d hd)).2.1⟩
  · exact fun h => hspace c List.mem_cons_self (Option.some.inj h)
  · exact fun h => hspace _ (List.mem_of_getLast? h) rfl

/-- A digit is a character of an atom. -/
theorem isAtomChar_of_isDigit {c : Char} (h : c.isDigit = true) : isAtomChar c = true := by
  simp [isAtomChar, Char.isAlphanum, h]

/-- The text of an integer is made of characters of an atom. -/
theorem isAtomChar_integer {i : Int} {c : Char} (h : c ∈ Decimal.integer i) :
    isAtomChar c = true := by
  rw [Decimal.integer] at h
  split_ifs at h
  · rcases List.mem_cons.1 h with rfl | h
    · rfl
    · exact isAtomChar_of_isDigit (isDigit_of_mem_digits h)
  · exact isAtomChar_of_isDigit (isDigit_of_mem_digits h)

/-- The text of a decimal is made of characters of an atom. -/
theorem isAtomChar_chars {l : Decimal.Literal} (hl : l.IsDecimal) {c : Char} (h : c ∈ l.chars) :
    isAtomChar c = true := by
  have hdigits : ∀ c ∈ l.digits, isAtomChar c = true :=
    fun c hc => isAtomChar_of_isDigit (hl.digits c hc)
  obtain ⟨whole, fraction, exponent⟩ := l
  simp only [Decimal.Literal.chars, List.mem_append] at h
  rcases h with h | h | h
  · exact hdigits c (List.mem_append_left _ h)
  · cases fraction with
    | none => cases h
    | some fraction =>
      rcases List.mem_cons.1 h with rfl | h
      · decide
      · exact hdigits c (List.mem_append_right _ h)
  · cases exponent with
    | none => cases h
    | some i =>
      rcases List.mem_cons.1 h with rfl | h
      · decide
      · exact isAtomChar_integer h

/-- The text of a number is plain. -/
theorem isPlain_number {n : Number} (h : n.IsProper) : IsPlain n.text.toList := by
  have hdigit : ∀ {c : Char}, c.isDigit = true → c.isAlphanum = true ∧ c ≠ '-' := by
    intro c hc
    refine ⟨by simp [Char.isAlphanum, hc], ?_⟩
    rintro rfl
    cases hc
  -- a text of digits and what comes with them, with a sign or without
  have hsigned (negative : Bool) {c : Char} {cs : List Char} (hc : c.isDigit = true)
      (hchars : ∀ d ∈ c :: cs, isAtomChar d = true) :
      IsPlain (if negative then '-' :: c :: cs else c :: cs) := by
    cases negative with
    | false => exact isPlain_of_isAtomChar hchars (.inl (hdigit hc).1)
    | true =>
      exact isPlain_of_isAtomChar (List.forall_mem_cons.2 ⟨rfl, hchars⟩)
        (.inr ⟨c, rfl, (hdigit hc).2⟩)
  cases n with
  | integer i =>
    obtain ⟨c, cs, hcs, hc⟩ := Scalar.exists_digits_eq_cons i.natAbs
    have h := hsigned (i < 0) hc fun d hd =>
      isAtomChar_of_isDigit (isDigit_of_mem_digits (n := i.natAbs) (hcs ▸ hd))
    simpa [Number.text, Decimal.integer, hcs] using h
  | float x =>
    cases x with
    | nan =>
      exact isPlain_of_isAtomChar (List.all_eq_true.1 (by decide)) (.inr ⟨'n', rfl, by decide⟩)
    | infinite negative =>
      cases negative with
      | false =>
        exact isPlain_of_isAtomChar (List.all_eq_true.1 (by decide)) (.inr ⟨'i', rfl, by decide⟩)
      | true =>
        exact isPlain_of_isAtomChar (List.all_eq_true.1 (by decide)) (.inr ⟨'.', rfl, by decide⟩)
    | finite negative m e =>
      rcases h with ⟨rfl, rfl⟩ | hm
      · have htext :
            (Number.text (.float (.finite negative 0 Decimal.Binary64.minExponent))).toList =
              if negative then ['-', '0', '.', '0'] else ['0', '.', '0'] := by
          cases negative <;> decide
        rw [htext]
        exact hsigned negative (by decide) (List.all_eq_true.1 (by decide))
      obtain ⟨l, hlayout, hl, -⟩ := Number.exists_literal hm
      obtain ⟨c, cs, d, rest, hchars, hdigits, -⟩ := Scalar.exists_chars_eq hl
      have h := hsigned negative (hdigits c List.mem_cons_self) fun d hd =>
        isAtomChar_chars hl (hchars ▸ hd)
      simpa [Number.text, Decimal.NumberFormat.write, hlayout, hchars] using h

/-! ## The characters of a plain scalar -/

/-- No tab is shown. -/
theorem isGap_of_isShown {c : Char} (h : isShown c = true) : isGap c = true ↔ c = ' ' := by
  have htab : c ≠ '\t' := by rintro rfl; cases h
  simp [isGap, htab]

/-- The end of a word is seen before the end of a text if the text goes on with a character. -/
theorem endsWord_append {cs : List Char} (rest : List Char) (h : cs ≠ []) :
    endsWord (cs ++ rest) = endsWord cs := by
  cases cs with
  | nil => exact absurd rfl h
  | cons c cs => rfl

/-- A space in a plain text is kept until it is known what follows. -/
theorem scanPlain_space (indent : Nat) (gaps text : List Char) (m : Mark) (cs : List Char) :
    scanPlain false indent (.inline gaps) text m (' ' :: cs) =
      scanPlain false indent (.inline (' ' :: gaps)) text (m.advance 1) cs := by
  rw [scanPlain.eq_def]
  simp [isGap, Gap.addGap]

/-- A character that is neither a gap nor a break, where the scalar does not end. -/
theorem scanPlain_char {indent : Nat} {gap : Gap} {text : List Char} {m : Mark} {c : Char}
    {cs : List Char} (hgap : isGap c = false) (hbreak : isBreak c = false)
    (hend : gap.isEmpty = true ∨
      (indent ≤ m.column ∧ (m.column = 0 → atDocumentMark (c :: cs) = false) ∧ c ≠ '#'))
    (hcolon : (c == ':' && endsWord cs) = false) :
    scanPlain false indent gap text m (c :: cs) =
      scanPlain false indent .empty (c :: (gap.folded ++ text)) (m.advance 1) cs := by
  have hcolon' : (decide (c = ':') && endsWord cs) = false := by simpa using hcolon
  have hgoesOn : (!gap.isEmpty && ((!false && decide (m.column < indent)) ||
      (decide (m.column = 0) && atDocumentMark (c :: cs)) || decide (c = '#'))) = false := by
    rcases hend with hempty | ⟨hindent, hmark, hsharp⟩
    · simp [hempty]
    · have hlt : decide (m.column < indent) = false := by simpa using hindent
      have hmark' : (decide (m.column = 0) && atDocumentMark (c :: cs)) = false := by
        simpa using hmark
      simp [hlt, hmark', hsharp]
  rw [scanPlain.eq_def]
  simp only [hgap, hbreak, hgoesOn, hcolon', Bool.false_and, Bool.or_false, Bool.false_eq_true,
    if_false, Mark.next_eq]

/-- Inside of a plain scalar the characters are taken one by one, with the spaces before them. -/
theorem scanPlain_inner {indent : Nat} (rest : List Char) {cs : List Char} {a : Char}
    {gaps text : List Char} {m : Mark} (hinner : hasInnerIndicator (a :: cs) = false)
    (hshown : ∀ c ∈ cs, isShown c = true ∧ isBreak c = false)
    (hlast : (a :: cs).getLast? ≠ some ' ') (hgap : gaps ≠ [] → a = ' ')
    (hcolumn : indent ≤ m.column) (hpos : 0 < m.column) :
    scanPlain false indent (.inline gaps) text m (cs ++ rest) =
      scanPlain false indent .empty (cs.reverse ++ (gaps ++ text)) (m.advance cs.length) rest := by
  induction cs generalizing a gaps text m with
  | nil =>
    have hnil : gaps = [] := by
      by_contra hne
      rw [hgap hne] at hlast
      exact hlast rfl
    simp [hnil, Gap.empty]
  | cons c cs ih =>
    obtain ⟨⟨hc, hbreak⟩, hcs⟩ := List.forall_mem_cons.1 hshown
    rw [hasInnerIndicator, Bool.or_eq_false_iff, Bool.or_eq_false_iff] at hinner
    obtain ⟨⟨hcolon, hsharp⟩, hinner⟩ := hinner
    have hlast' : (c :: cs).getLast? ≠ some ' ' := by
      rwa [List.getLast?_cons_cons] at hlast
    rw [List.cons_append]
    by_cases hspace : c = ' '
    · subst hspace
      have h : scanPlain false indent (.inline (' ' :: gaps)) text (m.advance 1) (cs ++ rest) = _ :=
        ih hinner hcs hlast' (fun _ => rfl) (by simp; omega) (by simp)
      rw [scanPlain_space, h]
      simp [Nat.add_comm]
    · have hgap' : isGap c = false := by
        rw [Bool.eq_false_iff]
        exact fun h => hspace ((isGap_of_isShown hc).1 h)
      have hends : (c == ':' && endsWord (cs ++ rest)) = false := by
        cases cs with
        | nil =>
          have : c ≠ ':' := by simpa [endsWord] using hcolon
          simp [this]
        | cons d ds => rwa [endsWord_append rest (List.cons_ne_nil d ds)]
      have hend : (Gap.inline gaps).isEmpty = true ∨ (indent ≤ m.column ∧
          (m.column = 0 → atDocumentMark (c :: (cs ++ rest)) = false) ∧ c ≠ '#') := by
        by_cases hnil : gaps = []
        · exact .inl (by simp [hnil, Gap.isEmpty])
        · exact .inr ⟨hcolumn, by omega, by simpa [hgap hnil, isGap] using hsharp⟩
      have h : scanPlain false indent (.inline []) (c :: (gaps ++ text)) (m.advance 1)
          (cs ++ rest) = _ :=
        ih hinner hcs hlast' (fun h => absurd rfl h) (by simp; omega) (by simp)
      rw [scanPlain_char hgap' hbreak hend hends, Gap.empty, Gap.folded, h]
      simp [Nat.add_comm, Gap.empty]

/-- The whole text of a plain scalar is taken. -/
theorem scanPlain_text {indent : Nat} (rest : List Char) {cs : List Char} {m : Mark}
    (h : IsPlain cs) (hcolumn : indent ≤ m.column + 1) :
    scanPlain false indent .empty [] m (cs ++ rest) =
      scanPlain false indent .empty cs.reverse (m.advance cs.length) rest := by
  obtain ⟨hne, hstart, hinner, -, hshown, hfirst, hlast⟩ := h
  cases cs with
  | nil => exact absurd rfl hne
  | cons c cs =>
    obtain ⟨⟨hc, hbreak⟩, hcs⟩ := List.forall_mem_cons.1 hshown
    have hgap : isGap c = false := by
      rw [Bool.eq_false_iff]
      exact fun h => hfirst (congrArg some ((isGap_of_isShown hc).1 h))
    have hcolon : (c == ':' && endsWord (cs ++ rest)) = false := by
      rw [startsLikeIndicator, Bool.or_eq_false_iff] at hstart
      by_cases hc : c = ':'
      · have hends : endsWord cs = false := by simpa [hc] using hstart.2
        cases cs with
        | nil => cases hends
        | cons d ds =>
          rw [endsWord_append rest (List.cons_ne_nil d ds), hends, Bool.and_false]
      · simp [hc]
    rw [List.cons_append, scanPlain_char hgap hbreak (.inl rfl) hcolon]
    have h : scanPlain false indent (.inline []) [c] (m.advance 1) (cs ++ rest) = _ :=
      scanPlain_inner rest hinner hcs hlast (fun h => absurd rfl h) hcolumn (by simp)
    simpa [Nat.add_comm, Gap.empty, Gap.folded] using h

/-- The scalar ends before a colon at the end of a word. -/
theorem scanPlain_colon (indent : Nat) (text : List Char) (m : Mark) {rest : List Char}
    (hends : endsWord rest = true) :
    scanPlain false indent .empty text m (':' :: rest) =
      some (text.reverse, false, ⟨':' :: rest, m⟩) := by
  rw [scanPlain.eq_def]
  simp [isGap, isBreak, Gap.empty, Gap.isEmpty, hends, endPlain, Gap.isBroken]

/-- After the break at the end of its line the scalar ends at the next token. -/
theorem scanPlain_newLine {indent j : Nat} (text : List Char) (m : Mark) {tail : List Char}
    (htail : tail = [] ∨ startsToken tail = true ∧ j < indent) :
    scanPlain false indent .empty text m ('\n' :: (List.replicate j ' ' ++ tail)) =
      some (text.reverse, true, ⟨tail, (m.newLine 1).advance j⟩) := by
  have hspaces (i : Nat) (m : Mark) :
      scanPlain false indent (.broken (some '\n') []) text m (List.replicate i ' ' ++ tail) =
        scanPlain false indent (.broken (some '\n') []) text (m.advance i) tail := by
    induction i generalizing m with
    | zero => rfl
    | succ i ih =>
      rw [List.replicate_succ, List.cons_append, scanPlain.eq_def]
      simpa [isGap, Gap.addGap, Nat.add_comm] using ih (m.advance 1)
  have hbreak : scanPlain false indent .empty text m ('\n' :: (List.replicate j ' ' ++ tail)) =
      scanPlain false indent (.broken (some '\n') []) text (m.newLine 1)
        (List.replicate j ' ' ++ tail) := by
    rw [scanPlain.eq_def]
    simp [isGap, isBreak, Gap.empty, Gap.addBreak, breakText]
  rw [hbreak, hspaces]
  cases tail with
  | nil => rfl
  | cons c cs =>
    obtain ⟨hstart, hj⟩ := htail.resolve_left (by simp)
    obtain ⟨hgap, hbreak, -, -⟩ := startsToken_cons.1 hstart
    rw [scanPlain.eq_def]
    simp [hgap, hbreak, Gap.isEmpty, hj, endPlain, Gap.isBroken]

/-! ## Plain scalars as tokens -/

section Block

variable {b : Blocks} {m : Mark} {keyAllowed : Bool} {candidate candidate' : Option KeyCandidate}
  {cs rest tail : List Char} {k : Int}

/-- A plain text does not begin with a mark between documents, whatever comes after it. -/
theorem atDocumentMark_append {r : Char}
    (hmark : "---".toList.isPrefixOf cs = false ∧ "...".toList.isPrefixOf cs = false)
    (hr : r ≠ '-' ∧ r ≠ '.') : atDocumentMark (cs ++ r :: rest) = false := by
  rw [atDocumentMark.eq_def]
  split
  · next heq =>
    rcases cs with _ | ⟨a, _ | ⟨b, _ | ⟨d, ds⟩⟩⟩ <;> simp at heq hmark
    · exact absurd heq.1 hr.1
    · exact absurd heq.2.1 hr.1
    · exact absurd heq.2.2.1 hr.1
    · obtain ⟨rfl, rfl, rfl, -⟩ := heq
      simp at hmark
  · next heq =>
    rcases cs with _ | ⟨a, _ | ⟨b, _ | ⟨d, ds⟩⟩⟩ <;> simp at heq hmark
    · exact absurd heq.1 hr.2
    · exact absurd heq.2.1 hr.2
    · exact absurd heq.2.2.1 hr.2
    · obtain ⟨rfl, rfl, rfl, -⟩ := heq
      simp at hmark
  · rfl

/-- The characters that no plain scalar begins with are those that no text in the plain style
begins with, and three that depend on what comes after them. -/
theorem mem_indicators_iff {c : Char} : c ∈ indicators ↔
    c = '-' ∨ c = '?' ∨ c = ':' ∨ "#,[]\x7b\x7d&*!|>'\"%@`".toList.contains c = true := by
  have hlist : indicators = ['-', '?', ':', ',', '[', ']', '\x7b', '\x7d', '#', '&', '*', '!', '|',
      '>', '\'', '"', '%', '@', '`'] := rfl
  simp [hlist]
  grind

/-- What begins like a plain text is scanned as a plain scalar. -/
theorem token?_of_isPlain {c r : Char} (h : IsPlain (c :: cs)) (hr : r = '\n' ∨ r = ':') :
    (inBlock b ⟨c :: (cs ++ r :: rest), m⟩ keyAllowed candidate).token? c (cs ++ r :: rest) =
      (inBlock b ⟨c :: (cs ++ r :: rest), m⟩ keyAllowed candidate).plainScalar? := by
  obtain ⟨-, hstart, -, hmark, hshown, hfirst, -⟩ := h
  obtain ⟨hc, hbreak⟩ := hshown c List.mem_cons_self
  have hgap : isGap c = false := by
    rw [Bool.eq_false_iff]
    exact fun h => hfirst (congrArg some ((isGap_of_isShown hc).1 h))
  have hnoMark : atDocumentMark (c :: (cs ++ r :: rest)) = false :=
    atDocumentMark_append hmark (by rcases hr with rfl | rfl <;> decide)
  rw [startsLikeIndicator, Bool.or_eq_false_iff] at hstart
  obtain ⟨hlist, hword⟩ := hstart
  have hlist' := hlist
  simp at hlist
  have hends : c = '-' ∨ c = '?' ∨ c = ':' → endsWord (cs ++ r :: rest) = false := by
    intro hc
    have hends : endsWord cs = false := by rcases hc with rfl | rfl | rfl <;> simpa using hword
    cases cs with
    | nil => cases hends
    | cons d ds => rwa [endsWord_append _ (List.cons_ne_nil d ds)]
  have hdash : (decide (c = '-') && endsWord (cs ++ r :: rest)) = false := by
    by_cases hc : c = '-' <;> simp [hc, hends]
  have hquestion : (decide (c = '?') && endsWord (cs ++ r :: rest)) = false := by
    by_cases hc : c = '?' <;> simp [hc, hends]
  have hcolon : (decide (c = ':') && endsWord (cs ++ r :: rest)) = false := by
    by_cases hc : c = ':' <;> simp [hc, hends]
  have hplain : startsPlain false c (cs ++ r :: rest) = true := by
    by_cases hc : c = '-' ∨ c = '?' ∨ c = ':'
    · have hgoesOn := hends hc
      have hhead : (cs ++ r :: rest).head?.any isGap = false := by
        cases hrest : cs ++ r :: rest with
        | nil => rfl
        | cons d ds =>
          rw [hrest] at hgoesOn
          simpa using (Bool.or_eq_false_iff.1 hgoesOn).1
      rw [startsPlain, hgoesOn, hhead]
      rcases hc with rfl | rfl | rfl <;> simp
    · have hindicator : indicators.contains c = false := by
        rw [List.contains_eq_mem, decide_eq_false_iff_not, mem_indicators_iff, hlist']
        simpa [← or_assoc] using hc
      rw [startsPlain, hgap, hbreak, hindicator]
      rfl
  simp [token?, hnoMark, hdash, hquestion, hcolon, hplain, hlist]

/-- A plain text starts a token. -/
theorem startsToken_of_isPlain (h : IsPlain cs) : startsToken (cs ++ rest) = true := by
  obtain ⟨hne, hstart, -, -, hshown, hfirst, -⟩ := h
  cases cs with
  | nil => exact absurd rfl hne
  | cons c cs =>
    obtain ⟨hc, hbreak⟩ := hshown c List.mem_cons_self
    refine startsToken_cons.2 ⟨?_, hbreak, ?_, ?_⟩
    · rw [Bool.eq_false_iff]
      exact fun h => hfirst (congrArg some ((isGap_of_isShown hc).1 h))
    · rintro rfl
      cases hstart
    · rintro rfl
      cases hc

/-- A plain text in front of a break or of a colon is one token. -/
theorem reaches_plain_of_scan {r : Char} {broken : Bool} {c : Cursor} (h : IsPlain cs)
    (hr : r = '\n' ∨ r = ':') (hcolumn : b.indent ≤ m.column)
    (hdrop : refresh? m candidate = some candidate')
    (hallowed : keyAllowed = true → candidate' = none)
    (hscan : scanPlain false (b.indent + 1).toNat .empty cs.reverse (m.advance cs.length)
      (r :: rest) = some (cs, broken, c)) (hlen : c.rest.length ≤ rest.length + 1) :
    Reaches (inBlock b ⟨cs ++ r :: rest, m⟩ keyAllowed candidate)
      (inBlock (b.add [.scalar .plain cs]) c broken (offer b m keyAllowed candidate')) := by
  have hscan' := (scanPlain_text (r :: rest) h (by omega)).trans hscan
  have hstart : startsToken (cs ++ r :: rest) = true := startsToken_of_isPlain h
  cases cs with
  | nil => exact absurd rfl h.ne_nil
  | cons a cs =>
    refine reaches_token hstart hcolumn hdrop ((token?_of_isPlain h hr).trans ?_) ?_
    · rw [plainScalar?, offerCandidate?_inBlock hallowed]
      simp only [Option.bind_eq_bind, Option.bind_some, inFlow_inBlock, indent_inBlock,
        cursor_inBlock]
      rw [← List.cons_append, hscan']
      rfl
    · rw [cursor_inBlock]
      exact Nat.le_trans hlen (by simp)

/-- A plain scalar is a key if a colon follows it. -/
theorem reaches_plainKey (h : IsPlain cs) (hends : endsWord rest = true)
    (hcolumn : b.indent ≤ m.column) (hdrop : refresh? m candidate = some candidate')
    (hallowed : keyAllowed = true → candidate' = none) :
    Reaches (inBlock b ⟨cs ++ ':' :: rest, m⟩ keyAllowed candidate)
      (inBlock (b.add [.scalar .plain cs]) ⟨':' :: rest, m.advance cs.length⟩ false
        (offer b m keyAllowed candidate')) :=
  reaches_plain_of_scan h (.inr rfl) hcolumn hdrop hallowed
    (by rw [scanPlain_colon _ _ _ hends, List.reverse_reverse]) (by simp)

/-- A plain scalar on the rest of its line. -/
theorem reaches_plain (h : IsPlain cs) (hfollows : Follows k tail) (hk : k ≤ b.indent)
    (hcolumn : b.indent < m.column) (hpassing : Passing m candidate)
    (hallowed : keyAllowed = true → candidate = none) :
    ∃ m' : Mark, m'.column = k.toNat ∧
      Reaches
        (inBlock b ⟨cs ++ '\n' :: (List.replicate k.toNat ' ' ++ tail), m⟩ keyAllowed candidate)
        (inBlock ((b.add [.scalar .plain cs]).close k) ⟨tail, m'⟩ true none) := by
  obtain ⟨candidate', hdrop, hpassing', hnone⟩ := hpassing.exists_refresh?
  have htail : tail = [] ∨ startsToken tail = true ∧ k.toNat < (b.indent + 1).toNat := by
    rcases hfollows with ⟨-, rfl⟩ | ⟨hpos, hstart⟩
    · exact .inl rfl
    · exact .inr ⟨hstart, by omega⟩
  have hscan := scanPlain_newLine cs.reverse (m.advance cs.length) htail
  rw [List.reverse_reverse] at hscan
  have hoffer : refresh? (((m.advance cs.length).newLine 1).advance k.toNat)
      (offer b m keyAllowed candidate') = some none :=
    (hpassing'.offer hcolumn).refresh?_eq (by simp)
  refine ⟨_, ?_, (reaches_plain_of_scan h (.inl rfl) (by omega) hdrop (fun h => hnone (hallowed h))
    hscan (by simp; omega)).trans (reaches_settled hfollows ?_ hoffer)⟩
  · simp
  · simp

end Block

end Rollout.Yaml
