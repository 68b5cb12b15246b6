import Rollout.Proofs.Yaml.QuotedText
import Rollout.Proofs.Yaml.LiteralText
import Rollout.Proofs.Yaml.TagText

/-!
# Written scalars

The writer chooses a style in which a text reads back (`Scalar.styleOf_cases`), so a scalar node is
scanned as one token with its style and its text (`AtNode.reaches_scalar`). What is written has only
characters that a document may hold, and is not much longer than the text.
-/

namespace Rollout.Yaml

open TextShape Scanner

namespace Scalar

/-- The style of a text is one in which it reads back. -/
theorem styleOf_cases (s : String) :
    (styleOf s = .plain ∧ IsPlain s.toList) ∨
      (styleOf s = .doubleQuoted ∨ styleOf s = .singleQuoted ∧ IsSingle s.toList) ∨
      (styleOf s = .literal ∧ '\n' ∈ s.toList ∧ ∀ c ∈ s.toList, isShown c = true) := by
  have hquoted (hline : '\n' ∉ s.toList) (style : Style)
      (h : (if (TextShape.of s.toList).singleQuotedAllowed then .singleQuoted else .doubleQuoted) =
        style) : style = .doubleQuoted ∨ style = .singleQuoted ∧ IsSingle s.toList := by
    split_ifs at h with hsingle
    · exact .inr ⟨h.symm, isSingle_of_singleQuotedAllowed hline hsingle⟩
    · exact .inl h.symm
  simp only [styleOf]
  by_cases hline : '\n' ∈ s.toList
  · rw [if_pos (by simpa using hline)]
    split_ifs with hliteral
    · refine .inr (.inr ⟨rfl, hline, fun c hc => ?_⟩)
      rw [TextShape.of, if_neg (by simpa using List.ne_nil_of_mem hline)] at hliteral
      simp only [ofChars, Bool.not_eq_true', Bool.or_eq_false_iff] at hliteral
      simpa using List.any_eq_false.1 hliteral.1.1 c hc
    · exact .inr (.inl (.inl rfl))
  · rw [if_neg (by simpa using hline)]
    by_cases hambiguous : isAmbiguous s = true
    · rw [if_pos hambiguous]
      exact .inr (.inl (hquoted hline _ rfl))
    · rw [if_neg hambiguous]
      by_cases hplain : (TextShape.of s.toList).plainAllowed = true
      · have hne : s.toList ≠ [] := by
          intro hnil
          obtain rfl : s = "" := String.toList_eq_nil_iff.1 hnil
          exact hambiguous rfl
        rw [if_pos hplain]
        exact .inl ⟨rfl, isPlain_of_plainAllowed hne hplain⟩
      · rw [if_neg hplain]
        exact .inr (.inl (hquoted hline _ rfl))

/-- A text that is not written literally is written on one line. -/
theorem block_eq_inline {s : String} (h : styleOf s ≠ .literal) (indent : Nat) :
    block s indent = inline (styleOf s) indent s.toList ++ ['\n'] := by
  rw [block]
  split
  · next heq => exact absurd heq h
  · rfl

/-- A text that is written literally has a header and then its lines. -/
theorem block_eq_literal {s : String} (h : styleOf s = .literal) (indent : Nat) :
    block s indent = literalHeader s.toList ++ '\n' :: literalLines indent true s.toList := by
  rw [block, h]

/-! ## Lengths and characters -/

/-- A character that is shown as it is may stand in a document. -/
theorem isAllowed_of_isShown {c : Char} (h : isShown c = true) : isAllowed c = true := by
  simp only [isShown, isAllowed, Bool.or_eq_true, Bool.and_eq_true, decide_eq_true_eq,
    beq_iff_eq] at h ⊢
  omega

/-- The digits of a numeric escape. -/
theorem isAllowed_hexDigits {width n : Nat} {d : Char} (h : d ∈ hexDigits width n) :
    isAllowed d = true := by
  have hvalue : ∀ {ds : List Char} {code n : Nat}, Quoted.readHex code ds = some n →
      ∀ d ∈ ds, ∃ v, Text.Percent.hexValue d = some v := by
    intro ds
    induction ds with
    | nil => simp
    | cons d ds ih =>
      intro code n hread
      rw [Quoted.readHex, List.foldlM_cons] at hread
      obtain ⟨code', hd, hds⟩ := Option.bind_eq_some_iff.1 hread
      obtain ⟨v, hv, -⟩ := Option.map_eq_some_iff.1 hd
      exact List.forall_mem_cons.2 ⟨⟨v, hv⟩, ih hds⟩
  obtain ⟨v, hv⟩ := hvalue (Quoted.readHex_hexDigits width n) d h
  simp only [Text.Percent.hexValue] at hv
  simp only [isAllowed, Bool.or_eq_true, Bool.and_eq_true, decide_eq_true_eq, beq_iff_eq]
  split_ifs at hv <;> omega

/-- What the escape of a character is like. -/
theorem escape_spec (c : Char) :
    (escape c).length ≤ 4 * c.utf8Size ∧ ∀ d ∈ escape c, isAllowed d = true := by
  have hpos := c.utf8Size_pos
  have hletter (e : Char) (he : isAllowed e = true) :
      ['\\', e].length ≤ 4 * c.utf8Size ∧ ∀ d ∈ ['\\', e], isAllowed d = true :=
    ⟨by simp; omega, by simp [he]; rfl⟩
  have hnumeric (e : Char) (width : Nat) (he : isAllowed e = true) (hwide : 0 < width)
      (hlt : c.toNat < 16 ^ width) (hsize : width + 2 ≤ 4 * c.utf8Size) :
      ('\\' :: e :: hexDigits width c.toNat).length ≤ 4 * c.utf8Size ∧
        ∀ d ∈ '\\' :: e :: hexDigits width c.toNat, isAllowed d = true := by
    refine ⟨by simp [Quoted.length_hexDigits hwide hlt]; omega, ?_⟩
    simp only [List.forall_mem_cons]
    exact ⟨rfl, he, fun d hd => isAllowed_hexDigits hd⟩
  rw [Scalar.escape.eq_def]
  split
  iterate 14 exact hletter _ rfl
  · dsimp only
    have hsize : c.utf8Size = 1 ∧ c.toNat ≤ 0x7F ∨ c.utf8Size = 2 ∧ c.toNat ≤ 0x7FF ∨
        c.utf8Size = 3 ∧ c.toNat ≤ 0xFFFF ∨ c.utf8Size = 4 := by
      rcases c.utf8Size_eq with h | h | h | h
      · exact .inl ⟨h, Char.utf8Size_eq_one_iff.1 h⟩
      · exact .inr (.inl ⟨h, (Char.utf8Size_eq_two_iff.1 h).2⟩)
      · exact .inr (.inr (.inl ⟨h, (Char.utf8Size_eq_three_iff.1 h).2⟩))
      · exact .inr (.inr (.inr h))
    split_ifs with hshown hbyte hplane
    · exact ⟨by simp; omega, by simpa using isAllowed_of_isShown hshown⟩
    · exact hnumeric 'x' 2 rfl (by decide) (Nat.lt_succ_of_le hbyte) (by omega)
    · exact hnumeric 'u' 4 rfl (by decide) (Nat.lt_succ_of_le hplane) (by omega)
    · have hvalid : c.toNat < 0xD800 ∨ 0xDFFF < c.toNat ∧ c.toNat < 0x110000 := c.valid
      exact hnumeric 'U' 8 rfl (by decide) (by omega) (by omega)

/-- Single quotes at most double a text. -/
theorem length_singleQuoted_le (afterBreak : Bool) (cs : List Char) :
    (singleQuoted 0 afterBreak cs).length ≤ 2 * cs.length := by
  induction cs generalizing afterBreak with
  | nil => cases afterBreak <;> simp [singleQuoted]
  | cons c cs ih =>
    have h := ih false
    have h' := ih true
    rw [singleQuoted]
    split_ifs <;> simp <;> omega

/-- A text in one line is not much longer than its octets. -/
theorem length_inline_le (style : Style) (s : String) :
    (inline style 0 s.toList).length ≤ 4 * s.utf8ByteSize + 2 := by
  have hsize : s.utf8ByteSize = (s.toList.flatMap String.utf8EncodeChar).length := by
    rw [← octets_eq]
    rfl
  have hchars (cs : List Char) : cs.length ≤ (cs.flatMap String.utf8EncodeChar).length :=
    length_le_length_flatMap (fun _ => String.utf8EncodeChar_ne_nil) cs
  have hescape (cs : List Char) :
      (cs.flatMap escape).length ≤ 4 * (cs.flatMap String.utf8EncodeChar).length := by
    induction cs with
    | nil => simp
    | cons c cs ih =>
      have := (escape_spec c).1
      simp only [List.flatMap_cons, List.length_append, String.length_utf8EncodeChar]
      omega
  have hlength := hchars s.toList
  have hsingle := length_singleQuoted_le false s.toList
  have hdouble := hescape s.toList
  rw [hsize]
  cases style <;> simp only [inline, List.length_cons, List.length_append, List.length_nil] <;>
    omega

/-- Single quotes add spaces and quotes only. -/
theorem mem_singleQuoted {indent : Nat} {afterBreak : Bool} {cs : List Char} {c : Char}
    (h : c ∈ singleQuoted indent afterBreak cs) : c = ' ' ∨ c = '\'' ∨ c ∈ cs := by
  fun_induction singleQuoted indent afterBreak cs with
  | case1 => exact .inl (List.eq_of_mem_replicate h)
  | case2 => cases h
  | case3 afterBreak d cs hbreak ih =>
    rcases List.mem_cons.1 h with rfl | h
    · exact .inr (.inr List.mem_cons_self)
    · exact (ih h).imp_right (.imp_right (List.mem_cons_of_mem d))
  | case4 afterBreak d cs hbreak ih =>
    rw [List.mem_append, List.mem_append] at h
    rcases h with (h | h) | h
    · split_ifs at h
      · exact .inl (List.eq_of_mem_replicate h)
      · cases h
    · split_ifs at h <;> simp at h <;> simp [h]
    · exact (ih h).imp_right (.imp_right (List.mem_cons_of_mem d))

/-- Literal lines add spaces and line breaks only. -/
theorem mem_literalLines {indent : Nat} {afterBreak : Bool} {cs : List Char} {c : Char}
    (h : c ∈ literalLines indent afterBreak cs) : c = ' ' ∨ c = '\n' ∨ c ∈ cs := by
  fun_induction literalLines indent afterBreak cs with
  | case1 => cases h
  | case2 => exact .inr (.inl (by simpa using h))
  | case3 afterBreak d cs hbreak ih =>
    rcases List.mem_cons.1 h with rfl | h
    · exact .inr (.inr List.mem_cons_self)
    · exact (ih h).imp_right (.imp_right (List.mem_cons_of_mem d))
  | case4 afterBreak d cs hbreak ih =>
    rw [List.mem_append] at h
    rcases h with h | h
    · split_ifs at h
      · exact .inl (List.eq_of_mem_replicate h)
      · cases h
    · rcases List.mem_cons.1 h with rfl | h
      · exact .inr (.inr List.mem_cons_self)
      · exact (ih h).imp_right (.imp_right (List.mem_cons_of_mem d))

/-- All characters of a text on one line can stand in a document. -/
theorem isAllowed_inline {s : String} (hstyle : styleOf s ≠ .literal) (indent : Nat) :
    ∀ c ∈ inline (styleOf s) indent s.toList, isAllowed c = true := by
  rcases styleOf_cases s with ⟨h, hplain⟩ | (h | ⟨h, hsingle⟩) | ⟨h, -⟩
  · rw [h]
    exact fun c hc => isAllowed_of_isShown (hplain.shown c hc).1
  · rw [h]
    simp only [inline, List.cons_append, List.forall_mem_cons, List.forall_mem_append]
    refine ⟨rfl, fun d hd => ?_, by simp; rfl⟩
    obtain ⟨c, -, hd⟩ := List.mem_flatMap.1 hd
    exact (escape_spec c).2 d hd
  · rw [h]
    simp only [inline, List.cons_append, List.forall_mem_cons, List.forall_mem_append]
    refine ⟨rfl, fun c hc => ?_, by simp; rfl⟩
    rcases mem_singleQuoted hc with rfl | rfl | hc
    · rfl
    · rfl
    · exact isAllowed_of_isShown (hsingle.shown c hc).1
  · exact absurd h hstyle

/-- All characters of a text as a block node can stand in a document. -/
theorem isAllowed_block (s : String) (indent : Nat) :
    ∀ c ∈ block s indent, isAllowed c = true := by
  rcases styleOf_cases s with ⟨h, -⟩ | h | ⟨h, -, hshown⟩
  · rw [block_eq_inline (by simp [h]), List.forall_mem_append]
    exact ⟨isAllowed_inline (by simp [h]) indent, by simp; rfl⟩
  · have hne : styleOf s ≠ .literal := by rcases h with h | ⟨h, -⟩ <;> simp [h]
    rw [block_eq_inline hne, List.forall_mem_append]
    exact ⟨isAllowed_inline hne indent, by simp; rfl⟩
  · have hheader : ∀ opening chomping, ∀ c ∈ headerText opening chomping, isAllowed c = true := by
      rintro (_ | _) (_ | _ | _) <;> exact List.all_eq_true.1 (by decide)
    rw [block_eq_literal h, literalHeader_eq, List.forall_mem_append, List.forall_mem_cons,
      List.forall_mem_cons]
    refine ⟨⟨rfl, hheader _ _⟩, rfl, fun c hc => ?_⟩
    rcases mem_literalLines hc with rfl | rfl | hc
    · rfl
    · rfl
    · exact isAllowed_of_isShown (hshown c hc)

end Scalar

section Block

variable {b : Blocks} {m : Mark} {keyAllowed : Bool} {candidate candidate' : Option KeyCandidate}
  {tail : List Char} {k : Int}

/-- Where a node that is not a key begins: to the right of the collection around it. -/
structure AtNode (b : Blocks) (m : Mark) (keyAllowed : Bool) (candidate : Option KeyCandidate) :
    Prop where
  column : b.indent < m.column
  passing : Passing m candidate
  allowed : keyAllowed = true → candidate = none

/-- A text as a block node is one token. -/
theorem AtNode.reaches_scalar (h : AtNode b m keyAllowed candidate) (s : String)
    (hfollows : Follows k tail) (hk : k ≤ b.indent) :
    ∃ m' : Mark, m'.column = k.toNat ∧
      Reaches
        (inBlock b ⟨Scalar.block s (b.indent.toNat + 2) ++
          (List.replicate k.toNat ' ' ++ tail), m⟩ keyAllowed candidate)
        (inBlock ((b.add [.scalar (Scalar.styleOf s) s.toList]).close k) ⟨tail, m'⟩ true none) := by
  obtain ⟨hcolumn, hpassing, hallowed⟩ := h
  rcases Scalar.styleOf_cases s with ⟨hstyle, hplain⟩ | hstyle | ⟨hstyle, hline, hshown⟩
  · rw [Scalar.block_eq_inline (by simp [hstyle]), hstyle]
    simpa [Scalar.inline] using reaches_plain hplain hfollows hk hcolumn hpassing hallowed
  · -- a quoted text, then the break
    obtain ⟨candidate', hdrop, hpassing', hnone⟩ := hpassing.exists_refresh?
    have hallowed' : keyAllowed = true → candidate' = none := fun h => hnone (hallowed h)
    have hindent : s.toList.any isBreak = true → 0 < b.indent.toNat + 2 := fun _ => by omega
    have hrest : ('\n' :: (List.replicate k.toNat ' ' ++ tail)).head? ≠ some '\'' := by simp
    obtain ⟨m', hline, -, hreaches⟩ :=
      reaches_inline hstyle hindent hrest (Int.le_of_lt hcolumn) hdrop hallowed'
    have hend : Passing m' (offer b m keyAllowed candidate') := (hpassing'.offer hcolumn).mono hline
    refine ⟨(m'.newLine 1).advance k.toNat, by simp, ?_⟩
    rw [Scalar.block_eq_inline (by rcases hstyle with h | ⟨h, -⟩ <;> simp [h]), List.append_assoc]
    exact hreaches.trans (reaches_newLine hfollows hend)
  · have hne := List.ne_nil_of_mem hline
    rw [Scalar.block_eq_literal hstyle, hstyle, List.append_assoc]
    exact reaches_literal hshown hne hfollows hk hcolumn rfl hpassing

end Block

end Rollout.Yaml
