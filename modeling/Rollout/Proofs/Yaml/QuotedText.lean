import Rollout.Proofs.Yaml.PlainText

/-!
# Quoted scalars

A text between double quotes is scanned as the text again, whatever its characters are: every
character reads back from its escape (`Quoted.scan_escape`). Between single quotes this holds of
the texts that the writer puts there; separators of lines and paragraphs are kept because the
lines after them are indented (`Quoted.scan_singleQuoted`).
-/

namespace Rollout.Yaml

open TextShape Scanner

namespace Quoted

/-! ## Between double quotes -/

/-- Whether nothing but gaps on the line came after the last character. -/
def IsInline (q : Quoted) : Prop := q.digits = 0 ∧ ∃ gaps, q.gap = .inline gaps

/-- A scan that has just read a character is inside a line. -/
theorem isInline_push (q : Quoted) (c : Char) : (q.push c).IsInline := ⟨rfl, [], rfl⟩

/-- A scan that begins has read nothing. -/
@[simp] theorem joined_default : ({} : Quoted).joined = [] := rfl

/-- A character that is read is joined to what has been read. -/
theorem joined_push (q : Quoted) (c : Char) : (q.push c).joined = c :: q.joined := rfl

variable {q : Quoted} {m : Mark} {rest : List Char}

/-- A backslash with a letter. -/
theorem scan_letter {e x : Char} (hq : q.digits = 0) (hpos : 0 < m.column)
    (hbreak : isBreak e = false) (hwidth : escapeWidth e = none) (hchar : escapedChar e = some x) :
    scan true q m ('\\' :: e :: rest) = scan true (q.push x) (m.advance 2) rest := by
  have hne : m.column ≠ 0 := Nat.pos_iff_ne_zero.1 hpos
  have hslash : isBreak '\\' = false := rfl
  rw [scan.eq_def]
  simp [hq, hne, isGap, hslash, hbreak, hwidth, hchar]

/-- A backslash with a letter that asks for digits. -/
theorem scan_numeric {e : Char} {n : Nat} (hq : q.digits = 0) (hpos : 0 < m.column)
    (hbreak : isBreak e = false) (hwidth : escapeWidth e = some n) :
    scan true q m ('\\' :: e :: rest) =
      scan true { text := q.joined, digits := n } (m.advance 2) rest := by
  have hne : m.column ≠ 0 := Nat.pos_iff_ne_zero.1 hpos
  have hslash : isBreak '\\' = false := rfl
  rw [scan.eq_def]
  simp [hq, hne, isGap, hslash, hbreak, hwidth]

/-- The code that hexadecimal digits stand for, after those that stand for `code`. -/
def readHex (code : Nat) (ds : List Char) : Option Nat :=
  ds.foldlM (fun n d => (Text.Percent.hexValue d).map (16 * n + ·)) code

/-- The digits of a numeric escape complete a character. -/
theorem scan_digits {ds : List Char} {n : Nat} {c : Char} (hne : ds ≠ [])
    (hdigits : q.digits = ds.length) (hcode : readHex q.code ds = some n)
    (hchar : charOfCode n = some c) :
    scan true q m (ds ++ rest) = scan true { text := c :: q.text } (m.advance ds.length) rest := by
  induction ds generalizing q m with
  | nil => exact absurd rfl hne
  | cons d ds ih =>
    rw [readHex, List.foldlM_cons] at hcode
    obtain ⟨code, hvalue, hcode⟩ := Option.bind_eq_some_iff.1 hcode
    obtain ⟨v, hv, rfl⟩ := Option.map_eq_some_iff.1 hvalue
    have hpos : q.digits ≠ 0 := by simp [hdigits]
    rw [List.cons_append, scan.eq_def]
    simp only [hpos, ne_eq, not_false_eq_true, if_true, digit, hv]
    cases ds with
    | nil =>
      have hone : q.digits = 1 := by simpa using hdigits
      cases hcode
      simp [hone, hchar]
    | cons d' ds =>
      have hmany : q.digits ≠ 1 := by simp [hdigits]
      have h := ih (q := { q with digits := q.digits - 1, code := 16 * q.code + v })
        (m := m.advance 1) (List.cons_ne_nil _ _) (by simp [hdigits]) hcode
      simp only [Option.bind_eq_bind, Option.bind_some, hmany, if_false, Mark.next_eq]
      exact h.trans (by simp [Nat.add_comm])

/-- The code of a character gives the character. -/
theorem charOfCode_toNat (c : Char) : charOfCode c.toNat = some c := by
  have hvalid : c.toNat < 0xD800 ∨ 0xDFFF < c.toNat ∧ c.toNat < 0x110000 := c.valid
  rw [charOfCode, Char.ofNat_toNat, if_neg]
  simp only [Bool.or_eq_true, Bool.and_eq_true, decide_eq_true_eq]
  omega

/-- Hexadecimal digits stand for the number that they spell. -/
theorem readHex_toDigits (n : Nat) :
    readHex 0 ((Nat.toDigits 16 n).map Char.toUpper) = some n := by
  have table : ∀ d < 16, Text.Percent.hexValue (Nat.digitChar d).toUpper = some d := by decide
  induction n using Nat.strongRecOn with
  | ind n ih =>
    by_cases hn : n < 16
    · rw [Nat.toDigits_of_lt_base hn]
      simp [readHex, table n hn]
    · rw [Nat.toDigits_of_base_le (by decide) (by omega), List.map_append, readHex,
        List.foldlM_append]
      have h := ih (n / 16) (by omega)
      rw [readHex] at h
      rw [h]
      simp [table (n % 16) (by omega)]
      omega

/-- The digits of a numeric escape. -/
theorem readHex_hexDigits (width n : Nat) :
    readHex 0 (Scalar.hexDigits width n) = some n := by
  have hzeros (j : Nat) : readHex 0 (List.replicate j '0') = some 0 := by
    induction j with
    | zero => rfl
    | succ j ih =>
      rw [List.replicate_succ]
      exact ih
  have happend (j : Nat) (ds : List Char) :
      readHex 0 (List.replicate j '0' ++ ds) = readHex 0 ds := by
    rw [readHex, List.foldlM_append, ← readHex, hzeros]
    rfl
  rw [Scalar.hexDigits, happend, readHex_toDigits]

/-- A number that fits the width is written with that many hexadecimal digits. -/
theorem length_hexDigits {width n : Nat} (hpos : 0 < width) (h : n < 16 ^ width) :
    (Scalar.hexDigits width n).length = width := by
  have hle := (Nat.length_toDigits_le_iff (n := n) (b := 16) (by decide) hpos).2 h
  simp only [Scalar.hexDigits, List.length_append, List.length_replicate, List.length_map]
  omega

/-- A numeric escape of a character. -/
theorem scan_hexDigits {e c : Char} {width : Nat} (hq : q.digits = 0) (hpos : 0 < m.column)
    (hbreak : isBreak e = false) (hwidth : escapeWidth e = some width) (hwide : 0 < width)
    (hlt : c.toNat < 16 ^ width) :
    scan true q m ('\\' :: e :: (Scalar.hexDigits width c.toNat ++ rest)) =
      scan true (q.push c) (m.advance (width + 2)) rest := by
  have hlength := length_hexDigits hwide hlt
  have hne : Scalar.hexDigits width c.toNat ≠ [] := by
    intro hnil
    rw [hnil] at hlength
    exact absurd hlength (Nat.ne_of_lt hwide)
  rw [scan_numeric hq hpos hbreak hwidth,
    scan_digits hne hlength.symm (readHex_hexDigits width c.toNat) (charOfCode_toNat c), hlength]
  simp [push, Nat.add_comm]

/-- A character that is written as it is. -/
theorem scan_shown {double : Bool} {c : Char} (hq : q.digits = 0) (hpos : 0 < m.column)
    (hgap : isGap c = false) (hbreak : isBreak c = false) (hquote : c ≠ '\'' ∨ double = true)
    (hdouble : double = true → c ≠ '"' ∧ c ≠ '\\') :
    scan double q m (c :: rest) = scan double (q.push c) (m.advance 1) rest := by
  have hne : m.column ≠ 0 := Nat.pos_iff_ne_zero.1 hpos
  rw [scan.eq_def]
  cases double with
  | false => simp [hq, hne, hgap, hbreak, by simpa using hquote]
  | true => simp [hq, hne, hgap, hbreak, hdouble rfl]

/-- A space. -/
theorem scan_space {double : Bool} (hq : q.digits = 0) :
    scan double q m (' ' :: rest) =
      scan double { q with gap := q.gap.addGap ' ' } (m.advance 1) rest := by
  rw [scan.eq_def]
  simp [hq, isGap, atDocumentMark]

/-- Every character reads back from its escape. -/
theorem scan_escape (c : Char) (rest : List Char) (hq : q.IsInline) (hpos : 0 < m.column) :
    ∃ q' : Quoted, q'.IsInline ∧ q'.joined = c :: q.joined ∧
      scan true q m (Scalar.escape c ++ rest) =
        scan true q' (m.advance (Scalar.escape c).length) rest := by
  obtain ⟨hdigits, gaps, hgap⟩ := hq
  have hletter : ∀ e x, isBreak e = false → escapeWidth e = none → escapedChar e = some x →
      ∃ q' : Quoted, q'.IsInline ∧ q'.joined = x :: q.joined ∧
        scan true q m ('\\' :: e :: rest) = scan true q' (m.advance 2) rest :=
    fun e x hbreak hwidth hchar => ⟨q.push x, isInline_push q x, joined_push q x,
      scan_letter hdigits hpos hbreak hwidth hchar⟩
  rw [Scalar.escape.eq_def]
  split
  iterate 14 exact hletter _ _ rfl rfl rfl
  · next _ hnul hbel hback htab hline hvertical hfeed hreturn hescape hquote hslash hnext hls hps =>
    simp only [imp_false] at htab hline hreturn hnext hls hps
    have hbreak : isBreak c = false := by simp [isBreak, hline, hreturn, hnext, hls, hps]
    have hnumeric : ∀ e width, isBreak e = false → escapeWidth e = some width → 0 < width →
        c.toNat < 16 ^ width → ∃ q' : Quoted, q'.IsInline ∧ q'.joined = c :: q.joined ∧
          scan true q m ('\\' :: e :: Scalar.hexDigits width c.toNat ++ rest) = scan true q'
            (m.advance ('\\' :: e :: Scalar.hexDigits width c.toNat).length) rest := by
      intro e width he hwidth hwide hlt
      refine ⟨q.push c, isInline_push q c, joined_push q c, ?_⟩
      have hlength := length_hexDigits hwide hlt
      rw [List.length_cons, List.length_cons, hlength]
      exact scan_hexDigits hdigits hpos he hwidth hwide hlt
    dsimp only
    split_ifs with hshown hbyte hplane
    · by_cases hspace : c = ' '
      · subst hspace
        refine ⟨{ q with gap := q.gap.addGap ' ' }, ⟨hdigits, ' ' :: gaps, ?_⟩, ?_, ?_⟩
        · rw [hgap, Gap.addGap]
        · rw [joined, joined, hgap]
          rfl
        · exact scan_space hdigits
      · refine ⟨q.push c, isInline_push q c, joined_push q c, ?_⟩
        exact scan_shown hdigits hpos (by simp [isGap, hspace, htab]) hbreak (.inr rfl)
          fun _ => ⟨hquote, hslash⟩
    · exact hnumeric 'x' 2 rfl rfl (by decide) (Nat.lt_succ_of_le hbyte)
    · exact hnumeric 'u' 4 rfl rfl (by decide) (Nat.lt_succ_of_le hplane)
    · have hvalid : c.toNat < 0xD800 ∨ 0xDFFF < c.toNat ∧ c.toNat < 0x110000 := c.valid
      exact hnumeric 'U' 8 rfl rfl (by decide) (by omega)

/-- A text between double quotes reads back. -/
theorem scan_doubleQuoted (cs : List Char) (hq : q.IsInline) (hpos : 0 < m.column) :
    scan true q m (cs.flatMap Scalar.escape ++ '"' :: rest) =
      some (q.joined.reverse ++ cs, ⟨rest, m.advance ((cs.flatMap Scalar.escape).length + 1)⟩) := by
  induction cs generalizing q m with
  | nil =>
    have hne : m.column ≠ 0 := Nat.pos_iff_ne_zero.1 hpos
    rw [List.flatMap_nil, List.nil_append, scan.eq_def]
    simp [hq.1, hne, isGap, isBreak]
  | cons c cs ih =>
    obtain ⟨q', hq', hjoined, hscan⟩ := scan_escape c (cs.flatMap Scalar.escape ++ '"' :: rest)
      hq hpos
    rw [List.flatMap_cons, List.append_assoc, hscan, ih hq' (by simp; omega), hjoined]
    simp [Nat.add_assoc]

/-! ## Between single quotes -/

/-- Spaces at the start of a further line do not count. -/
theorem scan_replicate {double : Bool} {first : Option Char} {more : List Char}
    (hq : q.digits = 0) (hgap : q.gap = .broken first more) (j : Nat) :
    scan double q m (List.replicate j ' ' ++ rest) = scan double q (m.advance j) rest := by
  induction j generalizing m with
  | zero => rfl
  | succ j ih =>
    have hsame : { q with gap := q.gap.addGap ' ' } = q := by
      rw [hgap]
      simp only [Gap.addGap, ← hgap]
    rw [List.replicate_succ, List.cons_append, scan_space hq, hsame, ih]
    simp [Nat.add_comm]

/-- A break that stands for itself. -/
theorem scan_separator {double : Bool} {c : Char} (hq : q.digits = 0)
    (hc : c = '\u2028' ∨ c = '\u2029') :
    scan double q m (c :: rest) =
      scan double { q with gap := q.gap.addBreak c } (m.newLine 1) rest := by
  rw [scan.eq_def]
  rcases hc with rfl | rfl <;> simp [hq, isGap, isBreak, breakText, atDocumentMark]

/-- A break that is not a line feed stays in the text, unless a line feed stands before it. -/
theorem joined_addBreak {c : Char} (hc : c ≠ '\n')
    (hgap : q.gap = .inline [] ∨ ∃ first more, q.gap = .broken (some first) more ∧ first ≠ '\n') :
    ({ q with gap := q.gap.addBreak c } : Quoted).joined = c :: q.joined := by
  rcases hgap with hgap | ⟨first, more, hgap, hfirst⟩
  · simp [joined, hgap, Gap.addBreak, Gap.folded, hc]
  · simp [joined, hgap, Gap.addBreak, Gap.folded, hfirst]

/-- A character of a text between single quotes that is no break. -/
theorem scan_singleChar {c : Char} (rest : List Char) (hq : q.digits = 0) (hpos : 0 < m.column)
    (hshown : isShown c = true) (hbreak : isBreak c = false)
    (hgap : c = ' ' → ∃ gaps, q.gap = .inline gaps) :
    ∃ q' : Quoted, q'.digits = 0 ∧ (∃ gaps, q'.gap = .inline gaps ∧ (gaps ≠ [] → c = ' ')) ∧
      q'.joined = c :: q.joined ∧
      scan false q m ((if c = '\'' then ['\'', '\''] else [c]) ++ rest) =
        scan false q' (m.advance (if c = '\'' then ['\'', '\''] else [c]).length) rest := by
  by_cases hspace : c = ' '
  · subst hspace
    obtain ⟨gaps, hgap⟩ := hgap rfl
    refine ⟨{ q with gap := q.gap.addGap ' ' }, hq, ⟨' ' :: gaps, ?_, fun _ => rfl⟩, ?_, ?_⟩
    · rw [hgap, Gap.addGap]
    · rw [joined, joined, hgap]
      rfl
    · exact scan_space hq
  · refine ⟨q.push c, rfl, ⟨[], rfl, fun h => absurd rfl h⟩, joined_push q c, ?_⟩
    have hgap : isGap c = false := by
      rw [Bool.eq_false_iff]
      exact fun h => hspace ((isGap_of_isShown hshown).1 h)
    by_cases hquote : c = '\''
    · subst hquote
      have hne : m.column ≠ 0 := Nat.pos_iff_ne_zero.1 hpos
      rw [scan.eq_def]
      simp [hq, hne, isGap, isBreak]
    · rw [if_neg hquote]
      exact scan_shown hq hpos hgap hbreak (.inl hquote) fun h => by cases h

/-- Where the text between single quotes goes on: in a line, or after a break. -/
def IsReady (q : Quoted) (afterBreak : Bool) (m : Mark) (next : Option Char) : Prop :=
  q.digits = 0 ∧
    if afterBreak then
      next ≠ some ' ' ∧ ∃ first more, q.gap = .broken (some first) more ∧ first ≠ '\n'
    else
      0 < m.column ∧
        ∃ gaps, q.gap = .inline gaps ∧ (gaps ≠ [] → ∀ c ∈ next, isBreak c = false)

/-- Where no two neighbours have a property, neither do those in the tail, nor the first two. -/
theorem anyPair_cons_eq_false {p : Char → Char → Bool} {c : Char} {cs : List Char}
    (h : anyPair p (c :: cs) = false) :
    anyPair p cs = false ∧ ∀ d ∈ cs.head?, p c d = false := by
  cases cs with
  | nil => exact ⟨rfl, fun d hd => by cases hd⟩
  | cons d ds =>
    obtain ⟨hp, hds⟩ := Bool.or_eq_false_iff.1 h
    refine ⟨hds, fun x hx => ?_⟩
    obtain rfl := Option.some.inj hx
    exact hp

/-- A quote that is not doubled ends the text. -/
theorem scan_quote (hq : q.digits = 0) (hrest : rest.head? ≠ some '\'') :
    scan false q m ('\'' :: rest) = some (q.joined.reverse, ⟨rest, m.advance 1⟩) := by
  rw [scan.eq_def]
  cases rest with
  | nil => simp [hq, isGap, isBreak, atDocumentMark]
  | cons c cs =>
    have hc : c ≠ '\'' := by simpa using hrest
    simp [hq, isGap, isBreak, atDocumentMark, hc]

/-- The breaks among the characters that are shown, other than line feeds. -/
theorem isSeparator_of_isBreak {c : Char} (hshown : isShown c = true) (hne : c ≠ '\n')
    (hbreak : isBreak c = true) : c = '\u2028' ∨ c = '\u2029' := by
  simp only [isBreak, Bool.or_eq_true, beq_iff_eq] at hbreak
  rcases hbreak with (((h | rfl) | rfl) | h) | h
  · exact absurd h hne
  · cases hshown
  · cases hshown
  · exact .inl h
  · exact .inr h

/-- A separator is kept, since what comes after it is indented. -/
theorem IsReady.scan_break {afterBreak : Bool} {c : Char} {next : Option Char} (rest : List Char)
    (h : q.IsReady afterBreak m (some c)) (hshown : isShown c = true) (hne : c ≠ '\n')
    (hbreak : isBreak c = true) (hnext : next ≠ some ' ') :
    ∃ q' : Quoted, q'.IsReady true (m.newLine 1) next ∧ q'.joined = c :: q.joined ∧
      scan false q m (c :: rest) = scan false q' (m.newLine 1) rest := by
  obtain ⟨hq, hready⟩ := h
  have hgap : q.gap = .inline [] ∨
      ∃ first more, q.gap = .broken (some first) more ∧ first ≠ '\n' := by
    cases afterBreak with
    | true => exact .inr hready.2
    | false =>
      obtain ⟨-, gaps, hgap, hgaps⟩ := hready
      by_cases hnil : gaps = []
      · exact .inl (hnil ▸ hgap)
      · exact absurd (hgaps hnil c rfl) (by simp [hbreak])
  refine ⟨{ q with gap := q.gap.addBreak c }, ⟨hq, hnext, ?_⟩, joined_addBreak hne hgap,
    scan_separator hq (isSeparator_of_isBreak hshown hne hbreak)⟩
  rcases hgap with hgap | ⟨first, more, hgap, hfirst⟩
  · exact ⟨c, [], by rw [hgap]; rfl, hne⟩
  · exact ⟨first, c :: more, by rw [hgap]; rfl, hfirst⟩

/-- The indentation of a line is passed over. -/
theorem IsReady.scan_indentation {afterBreak : Bool} {indent : Nat} {next : Option Char}
    (rest : List Char) (h : q.IsReady afterBreak m next)
    (hindent : afterBreak = true → 0 < indent) :
    ∃ m' : Mark, m'.line = m.line ∧ 0 < m'.column ∧ (afterBreak = false → m' = m) ∧
      scan false q m ((if afterBreak then List.replicate indent ' ' else []) ++ rest) =
        scan false q m' rest := by
  obtain ⟨hq, hready⟩ := h
  cases afterBreak with
  | false => exact ⟨m, rfl, hready.1, fun _ => rfl, rfl⟩
  | true =>
    obtain ⟨-, first, more, hgap, -⟩ := hready
    have := hindent rfl
    exact ⟨m.advance indent, rfl, by simp; omega, fun h => (by cases h),
      scan_replicate hq hgap indent⟩

/-- Any other character, after the indentation of its line. -/
theorem IsReady.scan_char {afterBreak : Bool} {indent : Nat} {c : Char} {next : Option Char}
    (rest : List Char) (h : q.IsReady afterBreak m (some c)) (hshown : isShown c = true)
    (hbreak : isBreak c = false) (hindent : afterBreak = true → 0 < indent)
    (hnext : c = ' ' → ∀ d ∈ next, isBreak d = false) :
    ∃ (q' : Quoted) (m' : Mark), q'.IsReady false m' next ∧ q'.joined = c :: q.joined ∧
      m'.line = m.line ∧
      (afterBreak = false → m' = m.advance (if c = '\'' then ['\'', '\''] else [c]).length) ∧
      scan false q m ((if afterBreak then List.replicate indent ' ' else []) ++
          ((if c = '\'' then ['\'', '\''] else [c]) ++ rest)) = scan false q' m' rest := by
  obtain ⟨m₁, hline, hpos, hsame, hstart⟩ :=
    h.scan_indentation ((if c = '\'' then ['\'', '\''] else [c]) ++ rest) hindent
  obtain ⟨hq, hready⟩ := h
  have hgap : c = ' ' → ∃ gaps, q.gap = .inline gaps := by
    rintro rfl
    cases afterBreak with
    | false =>
      obtain ⟨-, gaps, hgap, -⟩ := hready
      exact ⟨gaps, hgap⟩
    | true => exact absurd rfl hready.1
  obtain ⟨q', hq', ⟨gaps, hgaps, hspace⟩, hjoined, hchar⟩ :=
    scan_singleChar rest hq hpos hshown hbreak hgap
  refine ⟨q', m₁.advance (if c = '\'' then ['\'', '\''] else [c]).length,
    ⟨hq', by simp; omega, gaps, hgaps, fun hne => hnext (hspace hne)⟩, hjoined, hline,
    fun hafter => by rw [hsame hafter], ?_⟩
  rw [hstart, hchar]

/-- A text between single quotes reads back. -/
theorem scan_singleQuoted {indent : Nat} {cs : List Char} {afterBreak : Bool}
    (hshown : ∀ c ∈ cs, isShown c = true ∧ c ≠ '\n')
    (hbreakSpace : anyPair (fun a b => isBreak a && b == ' ') cs = false)
    (hspaceBreak : anyPair (fun a b => a == ' ' && isBreak b) cs = false)
    (hindent : afterBreak = true ∨ cs.any isBreak = true → 0 < indent)
    (hrest : rest.head? ≠ some '\'') (hready : q.IsReady afterBreak m cs.head?) :
    ∃ m' : Mark, m.line ≤ m'.line ∧
      (afterBreak = false → cs.any isBreak = false →
        m' = m.advance ((Scalar.singleQuoted indent afterBreak cs).length + 1)) ∧
      scan false q m (Scalar.singleQuoted indent afterBreak cs ++ '\'' :: rest) =
        some (q.joined.reverse ++ cs, ⟨rest, m'⟩) := by
  induction cs generalizing afterBreak q m with
  | nil =>
    obtain ⟨hq, hready⟩ := hready
    cases afterBreak with
    | false =>
      refine ⟨m.advance 1, Nat.le_refl _, fun _ _ => rfl, ?_⟩
      rw [Scalar.singleQuoted, if_neg (by decide), List.nil_append, scan_quote hq hrest]
      simp
    | true =>
      obtain ⟨-, first, more, hgap, -⟩ := hready
      refine ⟨(m.advance indent).advance 1, Nat.le_refl _, fun h => (by cases h), ?_⟩
      rw [Scalar.singleQuoted, if_pos rfl, scan_replicate hq hgap, scan_quote hq hrest]
      simp
  | cons c cs ih =>
    obtain ⟨⟨hc, hne⟩, hcs⟩ := List.forall_mem_cons.1 hshown
    obtain ⟨hbreakSpace, hnoSpace⟩ := anyPair_cons_eq_false hbreakSpace
    obtain ⟨hspaceBreak, hnoBreak⟩ := anyPair_cons_eq_false hspaceBreak
    rw [Scalar.singleQuoted]
    by_cases hbreak : isBreak c = true
    · have hnext : cs.head? ≠ some ' ' := by
        intro hspace
        simpa [hbreak] using hnoSpace ' ' hspace
      obtain ⟨q', hready', hjoined, hstep⟩ := hready.scan_break
        (Scalar.singleQuoted indent true cs ++ '\'' :: rest) hc hne hbreak hnext
      obtain ⟨m', hline, -, hscan⟩ := ih hcs hbreakSpace hspaceBreak
        (fun _ => hindent (.inr (by simp [hbreak]))) hready'
      refine ⟨m', Nat.le_of_succ_le hline, fun _ hany => ?_, ?_⟩
      · simp [hbreak] at hany
      · rw [if_pos hbreak, List.cons_append, hstep, hscan, hjoined]
        simp
    · have hbreak' : isBreak c = false := Bool.eq_false_iff.2 hbreak
      have hnext : c = ' ' → ∀ d ∈ cs.head?, isBreak d = false := by
        rintro rfl d hd
        simpa using hnoBreak d hd
      obtain ⟨q', m₁, hready', hjoined, hline₁, hmark₁, hstep⟩ := hready.scan_char
        (Scalar.singleQuoted indent false cs ++ '\'' :: rest) hc hbreak'
        (fun h => hindent (.inl h)) hnext
      obtain ⟨m', hline, hmark, hscan⟩ := ih hcs hbreakSpace hspaceBreak
        (fun h => hindent (.inr (by simpa using .inr (by simpa using h)))) hready'
      refine ⟨m', by simpa [hline₁] using hline, fun hafter hany => ?_, ?_⟩
      · rw [hmark rfl (by simpa [hbreak'] using hany), hmark₁ hafter]
        simp [hafter, hbreak', Nat.add_assoc]
      · rw [if_neg hbreak, List.append_assoc, List.append_assoc, hstep, hscan, hjoined]
        simp

end Quoted

/-! ## Quoted scalars as tokens -/

section Block

variable {b : Blocks} {m : Mark} {keyAllowed : Bool} {candidate candidate' : Option KeyCandidate}
  {cs rest : List Char}

/-- A quoted scalar is one token. -/
theorem reaches_quoted {double : Bool} {body : List Char} {c : Cursor}
    (hcolumn : b.indent ≤ m.column) (hdrop : refresh? m candidate = some candidate')
    (hallowed : keyAllowed = true → candidate' = none)
    (hscan : Quoted.scan double {} (m.advance 1) body = some (cs, c))
    (hlen : c.rest.length ≤ body.length) :
    Reaches
      (inBlock b ⟨(if double then '"' else '\'') :: body, m⟩ keyAllowed candidate)
      (inBlock (b.add [.scalar (if double then .doubleQuoted else .singleQuoted) cs]) c false
        (offer b m keyAllowed candidate')) := by
  have hstart : startsToken ((if double then '"' else '\'') :: body) = true := by
    cases double <;> exact startsToken_cons.2 (by decide)
  refine reaches_token hstart hcolumn hdrop ?_ hlen
  have htoken (s : Scanner) : s.token? (if double then '"' else '\'') body =
      s.quotedScalar? double := by
    cases double <;> simp [token?, atDocumentMark]
  rw [htoken, quotedScalar?, offerCandidate?_inBlock hallowed]
  simp only [Option.bind_eq_bind, Option.bind_some, cursor_inBlock]
  have hcursor : (Cursor.mk ((if double then '"' else '\'') :: body) m).advance 1 =
      ⟨body, m.advance 1⟩ := rfl
  rw [hcursor, hscan]
  rfl

/-- A text that can stand between single quotes. -/
structure IsSingle (cs : List Char) : Prop where
  shown : ∀ c ∈ cs, isShown c = true ∧ c ≠ '\n'
  breakSpace : anyPair (fun a b => isBreak a && b == ' ') cs = false
  spaceBreak : anyPair (fun a b => a == ' ' && isBreak b) cs = false

/-- The shape of a text of one line tells whether it can stand between single quotes. -/
theorem isSingle_of_singleQuotedAllowed (hline : '\n' ∉ cs)
    (h : (TextShape.of cs).singleQuotedAllowed = true) : IsSingle cs := by
  cases cs with
  | nil => exact ⟨List.forall_mem_nil _, rfl, rfl⟩
  | cons c cs =>
    rw [TextShape.of, if_neg (by simp)] at h
    simp only [ofChars, Bool.not_eq_true', Bool.or_eq_false_iff] at h
    obtain ⟨⟨hshown, hbreakSpace⟩, hspaceBreak⟩ := h
    refine ⟨fun d hd => ⟨?_, ?_⟩, ?_, ?_⟩
    · simpa using List.any_eq_false.1 hshown d hd
    · rintro rfl
      exact hline hd
    · exact hbreakSpace
    · exact hspaceBreak

/-- A text in one of the quoted styles, as it is written. -/
theorem reaches_inline {style : Style} {indent : Nat}
    (hstyle : style = .doubleQuoted ∨ style = .singleQuoted ∧ IsSingle cs)
    (hindent : cs.any isBreak = true → 0 < indent) (hrest : rest.head? ≠ some '\'')
    (hcolumn : b.indent ≤ m.column) (hdrop : refresh? m candidate = some candidate')
    (hallowed : keyAllowed = true → candidate' = none) :
    ∃ m' : Mark, m.line ≤ m'.line ∧
      (cs.any isBreak = false → m' = m.advance (Scalar.inline style indent cs).length) ∧
      Reaches (inBlock b ⟨Scalar.inline style indent cs ++ rest, m⟩ keyAllowed candidate)
        (inBlock (b.add [.scalar style cs]) ⟨rest, m'⟩ false
          (offer b m keyAllowed candidate')) := by
  rcases hstyle with rfl | ⟨rfl, h⟩
  · have hscan : Quoted.scan true {} (m.advance 1) (cs.flatMap Scalar.escape ++ '"' :: rest) = _ :=
      Quoted.scan_doubleQuoted cs ⟨rfl, [], rfl⟩ (by simp)
    refine ⟨(m.advance 1).advance ((cs.flatMap Scalar.escape).length + 1), Nat.le_refl _,
      fun _ => by simp [Scalar.inline, Nat.add_comm], ?_⟩
    simpa [Scalar.inline] using reaches_quoted hcolumn hdrop hallowed hscan (by simp; omega)
  · have hready : Quoted.IsReady {} false (m.advance 1) cs.head? :=
      ⟨rfl, by simp, [], rfl, fun hne => absurd rfl hne⟩
    have hindent' : false = true ∨ cs.any isBreak = true → 0 < indent := by simpa using hindent
    obtain ⟨m', hline, hmark, hscan⟩ :=
      Quoted.scan_singleQuoted h.shown h.breakSpace h.spaceBreak hindent' hrest hready
    refine ⟨m', hline, fun hany => ?_, ?_⟩
    · rw [hmark rfl hany]
      simp [Scalar.inline, Nat.add_comm]
    · simpa [Scalar.inline] using reaches_quoted hcolumn hdrop hallowed hscan (by simp; omega)

end Block

end Rollout.Yaml
