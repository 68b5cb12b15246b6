import Rollout.Proofs.Yaml.PlainText

/-!
# Literal block scalars

A text that the writer puts into a literal block is scanned as the text again
(`reaches_literal`). The scanner keeps the breaks at the end of the lines apart from the text, so
that they can be stripped or clipped; `Block.Holds` says which text a state stands for.
-/

namespace Rollout.Yaml

open TextShape Scanner

namespace Block

/-- The text read so far that a state stands for, inside of a line or after a break. -/
structure Holds (b : Block) (text : List Char) (afterBreak : Bool) : Prop where
  inLine : b.inLine = !afterBreak
  joined : b.trailing ++ b.leading.toList ++ b.text = text.reverse
  line : afterBreak = false → b.leading = none ∧ b.trailing = []
  ends : afterBreak = true → ∀ c ∈ text.getLast?, isBreak c = true
  last : ∀ cs c d, text = cs ++ [c, d] → isBreak c = false → afterBreak = true →
    b.leading = some d ∧ b.trailing = []

variable {b : Block} {text cs tail : List Char} {indent k : Nat} {parent : Int} {m : Mark}
  {c : Char}

/-- A break that is shown is kept as it is. -/
theorem breakText_of_isShown (hshown : isShown c = true) (hbreak : isBreak c = true) :
    breakText c = c := by
  simp only [isBreak, Bool.or_eq_true, beq_iff_eq] at hbreak
  rcases hbreak with (((rfl | rfl) | rfl) | rfl) | rfl
  · rfl
  · cases hshown
  · cases hshown
  · rfl
  · rfl

/-- One more character in a line. -/
theorem Holds.inside (h : b.Holds text false) (hbreak : isBreak c = false) :
    ∃ b' : Block, b'.indent = b.indent ∧ b'.Holds (text ++ [c]) false ∧ ∀ cs,
      scan true parent b m (c :: cs) = scan true parent b' (m.advance 1) cs := by
  obtain ⟨hleading, htrailing⟩ := h.line rfl
  have hjoined := h.joined
  refine ⟨{ b with text := c :: b.text }, rfl, ⟨h.inLine, ?_, fun _ => ⟨hleading, htrailing⟩,
    fun h => (by cases h), fun _ _ _ _ _ h => (by cases h)⟩, fun cs => ?_⟩
  · simpa [hleading, htrailing] using hjoined
  · rw [scan.eq_def]
    simp [h.inLine, hbreak]

/-- A break ends the line that is being scanned. -/
theorem scan_break (hreturn : c ≠ '\r') (hbreak : isBreak c = true) :
    scan true parent b m (c :: cs) = scan true parent
      ((if b.inLine then b else { b with widest := max b.widest m.column }).endLine c)
      (m.newLine 1) cs := by
  have hspace : c ≠ ' ' := by
    rintro rfl
    cases hbreak
  rw [scan.eq_def]
  simp only [hbreak, hspace, Bool.not_true, Bool.and_false, decide_false, Bool.false_and,
    Bool.false_eq_true, if_false, if_true]
  split
  · exact absurd rfl hreturn
  · rfl

/-- A break at the end of a line, or of a line without text. -/
theorem Holds.afterBreak {afterBreak : Bool} (h : b.Holds text afterBreak)
    (hshown : isShown c = true) (hbreak : isBreak c = true) :
    ∃ b' : Block, b'.indent = b.indent ∧ b'.Holds (text ++ [c]) true ∧ ∀ cs,
      scan true parent b m (c :: cs) = scan true parent b' (m.newLine 1) cs := by
  have hreturn : c ≠ '\r' := by
    rintro rfl
    cases hshown
  have htext := breakText_of_isShown hshown hbreak
  have hjoined := h.joined
  have hends : ∀ d ∈ (text ++ [c]).getLast?, isBreak d = true := by simp [hbreak]
  have hlast {xs : List Char} {x d : Char} (heq : text ++ [c] = xs ++ [x, d]) :
      text = xs ++ [x] ∧ c = d := by
    have heq' : text ++ [c] = (xs ++ [x]) ++ [d] := by simpa using heq
    exact ⟨List.append_inj_left' heq' rfl, by simpa using List.append_inj_right' heq' rfl⟩
  cases afterBreak with
  | false =>
    obtain ⟨hleading, htrailing⟩ := h.line rfl
    have hinLine : b.inLine = true := h.inLine
    refine ⟨{ b with leading := some c, inLine := false, widest := 0 }, rfl,
      ⟨rfl, ?_, fun h => (by cases h), fun _ => hends, fun xs x d heq _ _ => ?_⟩,
      fun cs => ?_⟩
    · simpa [hleading, htrailing] using hjoined
    · obtain ⟨-, rfl⟩ := hlast heq
      exact ⟨rfl, htrailing⟩
    · rw [scan_break hreturn hbreak, if_pos hinLine, endLine, if_pos hinLine, htext]
  | true =>
    have hinLine : b.inLine = false := h.inLine
    refine ⟨{ b with widest := max b.widest m.column, trailing := c :: b.trailing }, rfl,
      ⟨hinLine, ?_, fun h => (by cases h), fun _ => hends, fun xs x d heq hx _ => ?_⟩,
      fun cs => ?_⟩
    · simpa using hjoined
    · obtain ⟨rfl, -⟩ := hlast heq
      have := h.ends rfl x (by simp)
      rw [hx] at this
      cases this
    · rw [scan_break hreturn hbreak, if_neg (by simp [hinLine]), endLine,
        if_neg (by simp [hinLine]), htext]

/-- Where the lines of the scalar begin: that is known, or to be found from the first line. -/
def Starts (b : Block) (indent : Nat) (next : Option Char) : Prop :=
  b.indent = indent ∨
    (b.indent = 0 ∧ b.widest = 0 ∧ ∀ c ∈ next, c ≠ ' ' ∧ isBreak c = false)

/-- The indentation of a line. -/
theorem scan_margin (hinLine : b.inLine = false) {j : Nat} (hcolumn : m.column + j ≤ indent)
    (hindent : b.indent = indent ∨ b.indent = 0) :
    scan true parent b m (List.replicate j ' ' ++ cs) = scan true parent b (m.advance j) cs := by
  induction j generalizing m with
  | zero => rfl
  | succ j ih =>
    have hmargin : (b.indent = 0 || m.column < b.indent) = true := by
      rcases hindent with h | h
      · have : m.column < b.indent := by omega
        simp [this]
      · simp [h]
    rw [List.replicate_succ, List.cons_append, scan.eq_def]
    simp only [hinLine, hmargin, Bool.false_and, Bool.false_eq_true, if_false, Bool.not_false,
      Bool.true_and, decide_true, if_true, Mark.next_eq]
    rw [ih (by simp; omega)]
    simp [Nat.add_comm]

/-- The indentation of a block is that of its first line with text, if it is to the right of the
parent. -/
theorem settle_eq {next : Option Char} (hstarts : b.Starts indent next) (hpos : 0 < indent)
    (hparent : (parent + 1).toNat ≤ indent) :
    settle { b with widest := max b.widest indent } parent =
      { b with widest := max b.widest indent, indent } := by
  rcases hstarts with rfl | ⟨hindent, hwidest, -⟩
  · rw [settle, if_pos (by simp; omega)]
  · have hmax : max (max (max b.widest indent) (parent + 1).toNat) 1 = indent := by omega
    rw [settle, if_neg (by simp [hindent]), hmax]

/-- The first character of a line. -/
theorem Holds.startLine (h : b.Holds text true) (hshown : isShown c = true)
    (hbreak : isBreak c = false) (hcolumn : m.column = indent) (hpos : 0 < indent)
    (hparent : (parent + 1).toNat ≤ indent) (hstarts : b.Starts indent (some c)) :
    ∃ b' : Block, b'.indent = indent ∧ b'.Holds (text ++ [c]) false ∧ ∀ cs,
      scan true parent b m (c :: cs) = scan true parent b' (m.advance 1) cs := by
  have hinLine : b.inLine = false := h.inLine
  have htab : c ≠ '\t' := by
    rintro rfl
    cases hshown
  -- a space is part of the text where the indentation is known, and a line begins with none else
  have hmargin : (!b.inLine && decide (c = ' ') && (decide (b.indent = 0) ||
      decide (m.column < b.indent))) = false := by
    rcases hstarts with hindent | ⟨-, -, hnext⟩
    · have hzero : b.indent ≠ 0 := by omega
      have hlt : ¬ m.column < b.indent := by omega
      simp [hzero, hlt]
    · simp [(hnext c rfl).1]
  have hsettle := settle_eq hstarts hpos hparent
  refine ⟨{ b with
    widest := max b.widest indent, indent, text := c :: (b.trailing ++ b.leading.toList ++ b.text)
    leading := none, trailing := [], indented := isGap c, inLine := true }, rfl,
    ⟨rfl, ?_, fun _ => ⟨rfl, rfl⟩, fun h => (by cases h), fun _ _ _ _ _ h => (by cases h)⟩,
    fun cs => ?_⟩
  · simpa using h.joined
  · rw [scan.eq_def]
    simp only [hinLine, hbreak, htab, Bool.false_and, Bool.false_eq_true, if_false, decide_false,
      hcolumn] at hmargin hsettle ⊢
    rw [hmargin, hsettle]
    simp [Block.startLine]

/-- The scalar ends before a token to the left of its lines. -/
theorem scan_end (hinLine : b.inLine = false) (hindent : b.indent = indent)
    (hcolumn : m.column < indent) (htail : tail = [] ∨ startsToken tail = true) :
    scan true parent b m tail = some ({ b with widest := max b.widest m.column }, ⟨tail, m⟩) := by
  have hsettle : settle { b with widest := max b.widest m.column } parent =
      { b with widest := max b.widest m.column } := if_pos (by simp; omega)
  cases tail with
  | nil =>
    rw [scan.eq_def]
    dsimp only
    rw [hsettle]
  | cons c cs =>
    obtain ⟨hgap, hbreak, -, -⟩ := startsToken_cons.1 (htail.resolve_left (by simp))
    have hc : c ≠ ' ' ∧ c ≠ '\t' := by simpa [isGap] using hgap
    have hne : m.column ≠ b.indent := by omega
    rw [scan.eq_def]
    simp only [hinLine, hbreak, hc, Bool.false_and, Bool.false_eq_true, if_false, decide_false,
      Bool.and_false] at hsettle ⊢
    rw [hsettle]
    simp [hne]

/-- A character that is no break, after the indentation of its line. -/
theorem Holds.character {afterBreak : Bool} (h : b.Holds text afterBreak)
    (hshown : isShown c = true) (hbreak : isBreak c = false)
    (hline : afterBreak = false → b.indent = indent)
    (hstart : afterBreak = true → m.column = 0 ∧ b.Starts indent (some c)) (hpos : 0 < indent)
    (hparent : (parent + 1).toNat ≤ indent) :
    ∃ (b' : Block) (m' : Mark), b'.indent = indent ∧ b'.Holds (text ++ [c]) false ∧ ∀ rest,
      scan true parent b m
          ((if afterBreak then List.replicate indent ' ' else []) ++ c :: rest) =
        scan true parent b' m' rest := by
  cases afterBreak with
  | false =>
    obtain ⟨b', hb', hholds, hscan⟩ := h.inside (m := m) hbreak
    exact ⟨b', m.advance 1, hb'.trans (hline rfl), hholds, hscan⟩
  | true =>
    obtain ⟨hcolumn, hstarts⟩ := hstart rfl
    obtain ⟨b', hb', hholds, hscan⟩ := h.startLine (m := m.advance indent)
      hshown hbreak (by simp [hcolumn]) hpos hparent hstarts
    have hindent : b.indent = indent ∨ b.indent = 0 := hstarts.imp id And.left
    refine ⟨b', (m.advance indent).advance 1, hb', hholds, fun rest => ?_⟩
    rw [if_pos rfl, scan_margin h.inLine (by omega) hindent, hscan]

/-- The lines of a text that ends with a break. -/
theorem scan_lines {afterBreak : Bool} (hshown : ∀ c ∈ cs, isShown c = true)
    (hlast : ∀ c ∈ cs.getLast?, isBreak c = true) (h : b.Holds text afterBreak)
    (hline : afterBreak = false ∨ cs = [] → b.indent = indent)
    (hstart : afterBreak = true → m.column = 0 ∧ b.Starts indent cs.head?)
    (hnil : cs = [] → afterBreak = true) (hpos : 0 < indent) (hparent : (parent + 1).toNat ≤ indent)
    (hk : k < indent) (htail : tail = [] ∨ startsToken tail = true) :
    ∃ (b' : Block) (m' : Mark), m'.column = k ∧ b'.Holds (text ++ cs) true ∧
      scan true parent b m
          (Scalar.literalLines indent afterBreak cs ++ (List.replicate k ' ' ++ tail)) =
        some (b', ⟨tail, m'⟩) := by
  induction cs generalizing afterBreak b text m with
  | nil =>
    obtain rfl := hnil rfl
    have hindent := hline (.inr rfl)
    obtain ⟨hcolumn, -⟩ := hstart rfl
    refine ⟨{ b with widest := max b.widest k }, m.advance k, by simp [hcolumn], ?_, ?_⟩
    · rw [List.append_nil]
      exact ⟨h.inLine, h.joined, h.line, h.ends, h.last⟩
    · rw [Scalar.literalLines, if_pos rfl, List.nil_append,
        scan_margin h.inLine (by omega) (.inl hindent),
        scan_end h.inLine hindent (by simp; omega) htail]
      simp [hcolumn]
  | cons c cs ih =>
    obtain ⟨hc, hcs⟩ := List.forall_mem_cons.1 hshown
    have hlast' : ∀ d ∈ cs.getLast?, isBreak d = true := by
      intro d hd
      apply hlast d
      rw [Option.mem_def, List.getLast?_cons]
      rw [Option.mem_def] at hd
      simp [hd]
    rw [Scalar.literalLines]
    by_cases hbreak : isBreak c = true
    · have hindent : b.indent = indent := by
        cases afterBreak with
        | false => exact hline (.inl rfl)
        | true =>
          rcases (hstart rfl).2 with hindent | ⟨-, -, hnext⟩
          · exact hindent
          · have := (hnext c rfl).2
            rw [hbreak] at this
            cases this
      obtain ⟨b', hb', hholds, hscan⟩ := h.afterBreak (m := m) hc hbreak
      obtain ⟨b'', m', hm', hholds', hscan'⟩ := ih (m := m.newLine 1) hcs hlast' hholds
        (fun _ => hb'.trans hindent) (fun _ => ⟨rfl, .inl (hb'.trans hindent)⟩) (fun _ => rfl)
      refine ⟨b'', m', hm', by simpa using hholds', ?_⟩
      rw [if_pos hbreak, List.cons_append, hscan, hscan']
    · have hbreak' : isBreak c = false := Bool.eq_false_iff.2 hbreak
      have hcs' : cs ≠ [] := by
        rintro rfl
        exact hbreak (hlast c rfl)
      obtain ⟨b', m₁, hb', hholds, hscan⟩ :=
        h.character hc hbreak' (fun h => hline (.inl h)) hstart hpos hparent
      obtain ⟨b'', m', hm', hholds', hscan'⟩ := ih (m := m₁) hcs hlast' hholds (fun _ => hb')
        (fun h => by cases h) (fun h => absurd h hcs')
      refine ⟨b'', m', hm', by simpa using hholds', ?_⟩
      rw [if_neg hbreak, List.append_assoc, List.cons_append, hscan, hscan']

/-! ## What is done with the breaks at the end -/

/-- A text that does not end with a break is stripped of the one that was added. -/
theorem Holds.finish_strip {ds : List Char} {x d : Char} (h : b.Holds (ds ++ [x] ++ [d]) true)
    (hx : isBreak x = false) : b.finish .strip = ds ++ [x] := by
  obtain ⟨hleading, htrailing⟩ := h.last ds x d (by simp) hx rfl
  have hjoined := h.joined
  rw [hleading, htrailing] at hjoined
  have htext : b.text = (ds ++ [x]).reverse := by simpa using hjoined
  rw [finish, htext, List.reverse_reverse]

/-- A block that clips keeps one break at its end. -/
theorem Holds.finish_clip {ds : List Char} {x d : Char} (h : b.Holds (ds ++ [x] ++ [d]) true)
    (hx : isBreak x = false) : b.finish .clip = ds ++ [x] ++ [d] := by
  obtain ⟨-, htrailing⟩ := h.last ds x d (by simp) hx rfl
  have hjoined := h.joined
  rw [htrailing, List.nil_append] at hjoined
  rw [finish, hjoined, List.reverse_reverse]

/-- A block that keeps everything keeps all breaks at its end. -/
theorem Holds.finish_keep {afterBreak : Bool} (h : b.Holds text afterBreak) :
    b.finish .keep = text := by
  rw [finish, h.joined, List.reverse_reverse]

end Block

namespace Scalar

/-- Whether the indentation of a literal block must be given. -/
def opensBlank : List Char → Bool
  | c :: _ => c == ' ' || isBreak c
  | [] => false

/-- What is done with the breaks at the end of a literal block. -/
def literalChomping (cs : List Char) : Chomping :=
  match cs.reverse with
  | [] => .strip
  | [c] => if isBreak c then .keep else .strip
  | c :: d :: _ => if !isBreak c then .strip else if isBreak d then .keep else .clip

/-- The indicator of a literal block after its first character. -/
def headerText (opening : Bool) (chomping : Chomping) : List Char :=
  (if opening then ['2'] else []) ++
    match chomping with
    | .strip => ['-']
    | .clip => []
    | .keep => ['+']

/-- A literal block begins with its bar and what says how it is indented and how it ends. -/
theorem literalHeader_eq (cs : List Char) :
    literalHeader cs = '|' :: headerText (opensBlank cs) (literalChomping cs) := by
  cases cs with
  | nil => rfl
  | cons a as =>
    unfold literalHeader headerText literalChomping
    rcases (a :: as).reverse with _ | ⟨c, _ | ⟨d, ds⟩⟩
    · rfl
    · by_cases hc : isBreak c = true <;> simp [opensBlank, hc]
    · by_cases hc : isBreak c = true <;> by_cases hd : isBreak d = true <;>
        simp [opensBlank, hc, hd]

/-- The text with the break that ends its last line. -/
def closed (cs : List Char) : List Char := if cs.getLast?.any isBreak then cs else cs ++ ['\n']

/-- A break at the end adds nothing to the lines of a block. -/
theorem literalLines_append (indent : Nat) {afterBreak : Bool} {cs : List Char}
    (hlast : ∀ c ∈ cs.getLast?, isBreak c = false) (hnil : cs = [] → afterBreak = false) :
    literalLines indent afterBreak (cs ++ ['\n']) = literalLines indent afterBreak cs := by
  induction cs generalizing afterBreak with
  | nil =>
    obtain rfl := hnil rfl
    rfl
  | cons c cs ih =>
    have hlast' : ∀ d ∈ cs.getLast?, isBreak d = false := by
      intro d hd
      apply hlast d
      rw [Option.mem_def] at hd ⊢
      rw [List.getLast?_cons, hd]
      rfl
    rw [List.cons_append, literalLines, literalLines]
    by_cases hbreak : isBreak c = true
    · have hcs : cs ≠ [] := by
        rintro rfl
        have := hlast c rfl
        rw [hbreak] at this
        cases this
      rw [if_pos hbreak, if_pos hbreak, ih hlast' fun h => absurd h hcs]
    · rw [if_neg hbreak, if_neg hbreak, ih hlast' fun _ => rfl]

/-- The lines of a literal block are those of the text with all lines ended. -/
theorem literalLines_closed (indent : Nat) {cs : List Char} (hne : cs ≠ []) :
    literalLines indent true cs = literalLines indent true (closed cs) := by
  rw [closed]
  split_ifs with hlast
  · rfl
  · refine (literalLines_append indent (fun c hc => ?_) fun h => absurd h hne).symm
    rw [Option.mem_def] at hc
    simpa [hc] using hlast

/-- A text that is closed with a break begins as before. -/
theorem exists_closed_eq {cs : List Char} (hne : cs ≠ []) :
    ∃ c ds, cs.head? = some c ∧ closed cs = c :: ds := by
  cases cs with
  | nil => exact absurd rfl hne
  | cons c cs =>
    rw [closed]
    split_ifs
    · exact ⟨c, cs, rfl, rfl⟩
    · exact ⟨c, cs ++ ['\n'], rfl, rfl⟩

/-- A text stays one that is shown when it is closed with a break. -/
theorem isShown_of_mem_closed {cs : List Char} (hshown : ∀ c ∈ cs, isShown c = true) :
    ∀ c ∈ closed cs, isShown c = true := by
  intro c hc
  rw [closed] at hc
  split_ifs at hc
  · exact hshown c hc
  · rcases List.mem_append.1 hc with hc | hc
    · exact hshown c hc
    · obtain rfl : c = '\n' := by simpa using hc
      rfl

/-- A text that is closed ends with a break. -/
theorem isBreak_of_mem_closed (cs : List Char) : ∀ c ∈ (closed cs).getLast?, isBreak c = true := by
  intro c hc
  rw [closed] at hc
  split_ifs at hc with hlast
  · rw [Option.mem_def] at hc
    simpa [hc] using hlast
  · obtain rfl : '\n' = c := by simpa using hc
    rfl

/-- Chomping gives the text back. -/
theorem finish_literalChomping {b : Block} {cs : List Char} (hne : cs ≠ [])
    (h : b.Holds (closed cs) true) : b.finish (literalChomping cs) = cs := by
  rw [literalChomping]
  rcases hreverse : cs.reverse with _ | ⟨c, _ | ⟨d, ds⟩⟩
  · exact absurd (by simpa using hreverse) hne
  · obtain rfl : cs = [c] := by simpa using congrArg List.reverse hreverse
    by_cases hc : isBreak c = true
    · rw [closed, if_pos (by simpa using hc)] at h
      simpa [hc] using h.finish_keep
    · rw [closed, if_neg (by simpa using hc), ← List.nil_append [c]] at h
      simpa [hc] using Block.Holds.finish_strip h (Bool.eq_false_iff.2 hc)
  · obtain rfl : cs = ds.reverse ++ [d] ++ [c] := by simpa using congrArg List.reverse hreverse
    by_cases hc : isBreak c = true
    · rw [closed, if_pos (by simpa using hc)] at h
      by_cases hd : isBreak d = true
      · simpa [hc, hd] using h.finish_keep
      · simpa [hc, hd] using h.finish_clip (Bool.eq_false_iff.2 hd)
    · rw [closed, if_neg (by simpa using hc)] at h
      simpa [hc] using h.finish_strip (Bool.eq_false_iff.2 hc)

end Scalar

/-! ## Literal blocks as tokens -/

section Block

variable {b : Blocks} {m : Mark} {keyAllowed : Bool} {candidate : Option KeyCandidate}
  {cs rest tail : List Char} {k : Int}

/-- The header that is written for a block is read as it is meant. -/
theorem blockHeader?_headerText (opening : Bool) (chomping : Chomping) :
    blockHeader? ⟨Scalar.headerText opening chomping ++ '\n' :: rest, m⟩ =
      some (chomping, if opening then 2 else 0,
        ⟨rest, (m.advance (Scalar.headerText opening chomping).length).newLine 1⟩) := by
  cases opening <;> cases chomping <;>
    simp [blockHeader?, Scalar.headerText, Cursor.advance, Cursor.finishLine?, Cursor.skip,
      Cursor.span, isGap, endsLine, isBreak, Cursor.skipBreak]

/-- In a block, a key that has been passed can be dropped. -/
theorem dropCandidate?_inBlock {c : Cursor} (hpassing : Passing m candidate) :
    (inBlock b c keyAllowed candidate).dropCandidate? = some (inBlock b c keyAllowed none) := by
  cases candidate with
  | none => rfl
  | some k =>
    obtain ⟨position, mark, required⟩ := k
    obtain rfl : required = false := (hpassing _ rfl).1
    rfl

/-- A literal block with the lines of its text. -/
theorem reaches_literal {indent : Nat} (hshown : ∀ c ∈ cs, isShown c = true) (hne : cs ≠ [])
    (hfollows : Follows k tail) (hk : k ≤ b.indent) (hcolumn : b.indent < m.column)
    (hindent : indent = b.indent.toNat + 2) (hpassing : Passing m candidate) :
    ∃ m' : Mark, m'.column = k.toNat ∧
      Reaches
        (inBlock b ⟨Scalar.literalHeader cs ++ '\n' :: (Scalar.literalLines indent true cs ++
          (List.replicate k.toNat ' ' ++ tail)), m⟩ keyAllowed candidate)
        (inBlock ((b.add [.scalar .literal cs]).close k) ⟨tail, m'⟩ true none) := by
  obtain ⟨candidate', hdrop, hpassing', -⟩ := hpassing.exists_refresh?
  obtain ⟨c, ds, hhead, hclosed⟩ := Scalar.exists_closed_eq hne
  have htail : tail = [] ∨ startsToken tail = true := hfollows.imp And.right And.right
  -- the state of the scalar after its header
  let start : Block :=
    { indent := if (if Scalar.opensBlank cs then 2 else 0) = 0 then 0
        else b.indent.toNat + (if Scalar.opensBlank cs then 2 else 0) }
  let mark := ((m.advance 1).advance
    (Scalar.headerText (Scalar.opensBlank cs) (Scalar.literalChomping cs)).length).newLine 1
  have hstarts : start.Starts indent (Scalar.closed cs).head? := by
    by_cases hopens : Scalar.opensBlank cs = true
    · exact .inl (by simp [start, hopens, hindent])
    · refine .inr ⟨by simp [start, hopens], rfl, fun d hd => ?_⟩
      rw [hclosed] at hd
      obtain rfl := Option.some.inj hd
      obtain ⟨as, rfl⟩ := List.head?_eq_some_iff.1 hhead
      simpa [Scalar.opensBlank] using hopens
  have hholds : start.Holds [] true :=
    ⟨rfl, rfl, fun h => (by cases h), fun _ _ h => (by cases h), fun _ _ _ h => (by simp at h)⟩
  have hparent : (b.indent + 1).toNat ≤ indent := by omega
  have hleft : k.toNat < indent := by omega
  obtain ⟨b', m', hm', hholds', hscan⟩ := Block.scan_lines (m := mark)
    (Scalar.isShown_of_mem_closed hshown) (Scalar.isBreak_of_mem_closed cs) hholds
    (by simp [hclosed]) (fun _ => ⟨rfl, hstarts⟩) (fun _ => rfl) (by omega) hparent hleft htail
  refine ⟨m', hm', ?_⟩
  have hfinish := Scalar.finish_literalChomping hne (by simpa using hholds')
  rw [Scalar.literalHeader_eq, Scalar.literalLines_closed indent hne]
  refine (reaches_token (s := inBlock (b.add [.scalar .literal cs]) ⟨tail, m'⟩ true none)
    (startsToken_cons.2 (by decide)) (by omega) hdrop ?_ ?_).trans
    (reaches_settled hfollows hm' rfl)
  · have htoken (s : Scanner) (rest : List Char) (hs : s.inFlow = false) :
        s.token? '|' rest = s.blockScalar? true := by
      simp [token?, atDocumentMark, hs]
    have hcursor (rest : List Char) : (Cursor.mk ('|' :: rest) m).advance 1 =
        ⟨rest, m.advance 1⟩ := rfl
    rw [htoken _ _ rfl, blockScalar?, dropCandidate?_inBlock hpassing']
    simp only [Option.bind_eq_bind, Option.bind_some, cursor_inBlock, List.append_eq,
      hcursor, blockHeader?_headerText, indent_inBlock]
    rw [hscan]
    simp only [Option.bind_some, hfinish]
    rfl
  · simp
    omega

end Block

end Rollout.Yaml
