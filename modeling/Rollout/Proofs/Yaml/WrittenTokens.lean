import Rollout.Proofs.Yaml.WrittenScalar

/-!
# The tokens of a written value

The text that the writer makes of a value is scanned as the tokens of the value (`Value.tokens`).
The statement about a block node, `Value.Scans`, says what the scanner has done when it has come to
the token after the node: it has read the tokens of the node and has closed the collections to the
right of that token. The proof is an induction over the values that are `Value.IsLegible`: their
numbers are those that a text can stand for, their tags have no commas and no brackets, and their
mappings have no key twice.
-/

namespace Rollout.Yaml

open Scanner

namespace Value

/-- A value that can be read from what is written for it. -/
inductive IsLegible : Value → Prop where
  | null : IsLegible .null
  | bool (b : Bool) : IsLegible (.bool b)
  | number {n : Number} (h : n.IsProper) : IsLegible (.number n)
  | string (s : String) : IsLegible (.string s)
  | sequence {items : List Value} (h : ∀ v ∈ items, IsLegible v) : IsLegible (.sequence items)
  | mapping {entries : Entries} (hkeys : ∀ e ∈ entries, IsLegible e.1)
    (hvalues : ∀ e ∈ entries, IsLegible e.2)
    (hdistinct : entries.Pairwise fun e e' => e.1.same e'.1 = false) :
    IsLegible (.mapping entries)
  | tagged {tag : String} {v : Value} (htag : IsPlainTag tag) (h : IsLegible v) :
    IsLegible (.tagged tag v)

/-- The style and the text of a scalar as it is written. -/
def scalar? : Value → Option (Style × String)
  | .null => some (.plain, "null")
  | .bool b => some (.plain, if b then "true" else "false")
  | .number n => some (.plain, n.text)
  | .string s => some (Scalar.styleOf s, s)
  | _ => none

mutual

/-- The tokens of a block node after `position`. A sequence that stays at the column of the
mapping around it is not opened or closed by tokens of its own. -/
def tokens (position : Position) (inMapping : Bool) : Value → List Token
  | .tagged tag v => tagToken tag :: tokens .afterKey inMapping v
  | .sequence [] => [.flowSequenceStart, .flowSequenceEnd]
  | .mapping [] => [.flowMappingStart, .flowMappingEnd]
  | .sequence items =>
    if inMapping && position = .afterKey then itemTokens items
    else .blockSequenceStart :: itemTokens items ++ [.blockEnd]
  | .mapping entries => .blockMappingStart :: entryTokens entries ++ [.blockEnd]
  | .null => [.scalar .plain "null".toList]
  | .bool b => [.scalar .plain (if b then "true" else "false").toList]
  | .number n => [.scalar .plain n.text.toList]
  | .string s => [.scalar (Scalar.styleOf s) s.toList]
termination_by structural v => v

/-- The tokens of the items of a block sequence. -/
def itemTokens : List Value → List Token
  | [] => []
  | v :: vs => .blockEntry :: tokens .afterIndicator false v ++ itemTokens vs
termination_by structural vs => vs

/-- The tokens of the entries of a block mapping. -/
def entryTokens : Entries → List Token
  | [] => []
  | (k, v) :: es =>
    .key :: tokens .afterIndicator true k ++
      .value :: tokens (if (shortKey? k).isSome then .afterKey else .afterIndicator) true v ++
      entryTokens es
termination_by structural es => es

end

/-- A scalar is one token. -/
theorem tokens_of_scalar? {v : Value} {style : Style} {s : String}
    (h : v.scalar? = some (style, s)) (p : Position) (inMapping : Bool) :
    v.tokens p inMapping = [.scalar style s.toList] := by
  cases v with
  | null | bool | number | string =>
    obtain ⟨rfl, rfl⟩ := Prod.mk.inj (Option.some.inj h)
    simp only [tokens]
  | sequence | mapping | tagged => cases h

/-- The column of the collection around a node. -/
def outerColumn (indent : Option Nat) : Int := indent.elim (-1) (↑·)

/-- Where a block node after `position` begins. -/
inductive Ready (b : Blocks) (m : Mark) : Position → Bool → Option KeyCandidate → Prop
  | lineStart (hindent : b.indent = -1) (hcolumn : m.column = 0) : Ready b m .lineStart true none
  | afterIndicator (hindent : 0 ≤ b.indent) (hcolumn : m.column = b.indent + 1) :
    Ready b m .afterIndicator true none
  | afterKey {candidate : Option KeyCandidate} (hcolumn : b.indent < m.column)
    (hpassing : Passing m candidate) : Ready b m .afterKey false candidate

/-- The text of a block node is scanned as the tokens of its value. -/
def Scans (v : Value) : Prop :=
  ∀ {b : Blocks} {m : Mark} {position : Position} {keyAllowed : Bool}
    {candidate : Option KeyCandidate} (indent : Option Nat) (inMapping : Bool) {tail : List Char}
    {k : Int}, Ready b m position keyAllowed candidate → b.indent = outerColumn indent →
    (inMapping = true → indent ≠ none) → Follows k tail → k ≤ b.indent →
    ∃ m' : Mark, m'.column = k.toNat ∧
      Reaches
        (inBlock b ⟨v.writeBlock position indent inMapping ++
          (List.replicate k.toNat ' ' ++ tail), m⟩ keyAllowed candidate)
        (inBlock ((b.add (v.tokens position inMapping)).close k) ⟨tail, m'⟩ true none)

section Block

variable {b : Blocks} {m : Mark} {position : Position} {keyAllowed : Bool}
  {candidate : Option KeyCandidate} {indent : Option Nat} {text tail : List Char} {k : Int}

/-- The gap before a scalar. -/
theorem Ready.reaches_gap (h : Ready b m position keyAllowed candidate)
    (hstart : startsToken text = true) :
    ∃ m' : Mark, AtNode b m' keyAllowed candidate ∧
      Reaches (inBlock b ⟨position.gap ++ text, m⟩ keyAllowed candidate)
        (inBlock b ⟨text, m'⟩ keyAllowed candidate) := by
  cases h with
  | lineStart hindent hcolumn =>
    exact ⟨m, ⟨by omega, passing_none m, fun _ => rfl⟩, .refl _⟩
  | afterIndicator hinside hcolumn =>
    exact ⟨m.advance 1, ⟨by simp; omega, passing_none _, fun _ => rfl⟩,
      Scanner.reaches_gap hstart⟩
  | afterKey hcolumn hpassing =>
    exact ⟨m.advance 1, ⟨by simp; omega, hpassing, fun h => (by cases h)⟩,
      Scanner.reaches_gap hstart⟩

/-- The column of a block collection as a node after `position`. -/
def collectionColumn (position : Position) (indent : Option Nat) (stays : Bool) : Nat :=
  match indent with
  | none => 0
  | some i => if stays && position = .afterKey then i else i + 2

/-- What stands before the first line of a block collection. -/
theorem Ready.reaches_lead (h : Ready b m position keyAllowed candidate)
    (hindent : b.indent = outerColumn indent) (stays : Bool) (hstart : startsToken text = true) :
    ∃ m' : Mark, m'.column = collectionColumn position indent stays ∧
      Reaches
        (inBlock b ⟨position.lead (collectionColumn position indent stays) ++ text, m⟩
          keyAllowed candidate)
        (inBlock b ⟨text, m'⟩ true none) := by
  rw [outerColumn.eq_def] at hindent
  cases h with
  | lineStart hroot hcolumn =>
    cases indent with
    | none => exact ⟨m, hcolumn, .refl _⟩
    | some i => simp at hindent; omega
  | afterIndicator hinside hcolumn =>
    cases indent with
    | none => simp at hindent; omega
    | some i =>
      refine ⟨m.advance 1, ?_, Scanner.reaches_gap hstart⟩
      simp [collectionColumn] at hindent ⊢
      omega
  | afterKey hcolumn hpassing =>
    have hle : b.indent ≤ collectionColumn .afterKey indent stays := by
      cases indent with
      | none => simp at hindent; omega
      | some i =>
        simp [collectionColumn] at hindent ⊢
        split_ifs <;> omega
    refine ⟨(m.newLine 1).advance (collectionColumn .afterKey indent stays), by simp, ?_⟩
    have hfollows : Follows (collectionColumn .afterKey indent stays) text :=
      .inr ⟨Int.natCast_nonneg _, hstart⟩
    have hreaches : Reaches (inBlock b ⟨'\n' :: (List.replicate
        (collectionColumn .afterKey indent stays : Int).toNat ' ' ++ text), m⟩ false candidate) _ :=
      reaches_newLine hfollows hpassing
    rwa [Blocks.close_of_le hle] at hreaches

/-! ## Nodes on one line -/

/-- A block scalar begins with a token. -/
theorem startsToken_block (s : String) (indent : Nat) (rest : List Char) :
    startsToken (Scalar.block s indent ++ rest) = true := by
  rcases Scalar.styleOf_cases s with ⟨h, hplain⟩ | h | ⟨h, -⟩
  · rw [Scalar.block_eq_inline (by simp [h]), h, List.append_assoc]
    exact startsToken_of_isPlain hplain
  · rw [Scalar.block_eq_inline (by rcases h with h | ⟨h, -⟩ <;> simp [h])]
    rcases h with h | ⟨h, -⟩ <;> rw [h] <;> exact startsToken_cons.2 (by decide)
  · rw [Scalar.block_eq_literal h]
    exact startsToken_cons.2 (by decide)

/-- A string is scanned as it is written. -/
theorem scans_string (s : String) : Scans (.string s) := by
  intro b m position keyAllowed candidate indent inMapping tail k hready hindent hroot hfollows hk
  have hwidth : indent.getD 0 + 2 = b.indent.toNat + 2 := by
    rw [hindent]
    cases indent <;> rfl
  obtain ⟨m₁, hnode, hgap⟩ := hready.reaches_gap (startsToken_block s (indent.getD 0 + 2)
    (List.replicate k.toNat ' ' ++ tail))
  obtain ⟨m₂, hm₂, hscalar⟩ := hnode.reaches_scalar s hfollows hk
  refine ⟨m₂, hm₂, ?_⟩
  rw [writeBlock, List.append_assoc]
  rw [hwidth] at hgap ⊢
  exact hgap.trans hscalar

/-- A scalar that is no text. -/
theorem scans_of_isPlain {v : Value} {s : String} (hscalar : v.scalar? = some (.plain, s))
    (hplain : IsPlain s.toList) (hwrite : ∀ position indent inMapping,
      v.writeBlock position indent inMapping = position.gap ++ (s.toList ++ ['\n'])) : Scans v := by
  intro b m position keyAllowed candidate indent inMapping tail k hready hindent hroot hfollows hk
  have hstart : startsToken (s.toList ++ '\n' :: (List.replicate k.toNat ' ' ++ tail)) = true :=
    startsToken_of_isPlain hplain
  obtain ⟨m₁, ⟨hcolumn, hpassing, hallowed⟩, hgap⟩ := hready.reaches_gap hstart
  obtain ⟨m₂, hm₂, hscalar'⟩ := reaches_plain hplain hfollows hk hcolumn hpassing hallowed
  refine ⟨m₂, hm₂, ?_⟩
  rw [hwrite, tokens_of_scalar? hscalar]
  simpa using hgap.trans hscalar'

/-- An empty collection. -/
theorem scans_of_isEmptyFlow {v : Value} {brackets : List Char} {ts : List Token}
    (hflow : IsEmptyFlow brackets ts) (htokens : ∀ position inMapping,
      v.tokens position inMapping = ts) (hwrite : ∀ position indent inMapping,
      v.writeBlock position indent inMapping = position.gap ++ (brackets ++ ['\n'])) : Scans v := by
  intro b m position keyAllowed candidate indent inMapping tail k hready hindent hroot hfollows hk
  have hstart : startsToken (brackets ++ '\n' :: (List.replicate k.toNat ' ' ++ tail)) = true := by
    rcases hflow with ⟨rfl, -⟩ | ⟨rfl, -⟩ <;> exact startsToken_cons.2 (by decide)
  obtain ⟨m₁, ⟨hcolumn, hpassing, hallowed⟩, hgap⟩ := hready.reaches_gap hstart
  obtain ⟨candidate₁, hdrop, hpassing₁, hnone⟩ := hpassing.exists_refresh?
  have hoffer : Passing (m₁.advance 1) (offer b m₁ keyAllowed candidate₁) :=
    (hpassing₁.offer hcolumn).mono (Nat.le_refl _)
  obtain ⟨candidate₂, hdrop₂, hpassing₂, -⟩ := hoffer.exists_refresh?
  have hbrackets : Reaches (inBlock b ⟨brackets ++ '\n' :: (List.replicate k.toNat ' ' ++ tail), m₁⟩
      keyAllowed candidate) _ :=
    reaches_emptyFlow hflow (Int.le_of_lt hcolumn) hdrop (fun h => hnone (hallowed h)) hdrop₂
  refine ⟨((m₁.advance 2).newLine 1).advance k.toNat, by simp, ?_⟩
  rw [hwrite, htokens]
  simpa using (hgap.trans hbrackets).trans
    (reaches_newLine hfollows (hpassing₂.mono (Nat.le_refl _)))

/-- What stands before a node ends the word before it. -/
theorem endsWord_writeBlock (v : Value) (hposition : position ≠ .lineStart)
    (indent : Option Nat) (inMapping : Bool) (rest : List Char) :
    endsWord (v.writeBlock position indent inMapping ++ rest) = true := by
  have hgap (cs : List Char) : endsWord (position.gap ++ cs) = true := by
    cases position with
    | lineStart => exact absurd rfl hposition
    | afterIndicator | afterKey => rfl
  have hlead (column : Nat) (cs : List Char) : endsWord (position.lead column ++ cs) = true := by
    cases position with
    | lineStart => exact absurd rfl hposition
    | afterIndicator | afterKey => rfl
  cases v with
  | null | bool | number | string | tagged => simp only [writeBlock, List.append_assoc, hgap]
  | sequence items =>
    cases items <;> simp only [writeBlock, List.append_assoc, hgap, hlead]
  | mapping entries =>
    cases entries <;> simp only [writeBlock, List.append_assoc, hgap, hlead]

/-- A plain tag, up to the node after it. -/
theorem Ready.reaches_tag {name : String} {rest : List Char}
    (h : Ready b m position keyAllowed candidate) (htag : IsPlainTag name)
    (hends : endsWord rest = true) :
    ∃ (m' : Mark) (candidate' : Option KeyCandidate),
      Ready (b.add [tagToken name]) m' .afterKey false candidate' ∧
      Reaches (inBlock b ⟨position.gap ++ (tagText name ++ rest), m⟩ keyAllowed candidate)
        (inBlock (b.add [tagToken name]) ⟨rest, m'⟩ false candidate') := by
  obtain ⟨m₁, ⟨hcolumn, hpassing, hallowed⟩, hgap⟩ :=
    h.reaches_gap (startsToken_tagText name rest)
  obtain ⟨candidate₁, hdrop, hpassing₁, hnone⟩ := hpassing.exists_refresh?
  have htagged := Yaml.reaches_tag htag hends (Int.le_of_lt hcolumn) hdrop
    fun h => hnone (hallowed h)
  have hready : Ready (b.add [tagToken name]) (m₁.advance (tagText name).length) .afterKey false
      (offer b m₁ keyAllowed candidate₁) :=
    .afterKey (by simp; omega) ((hpassing₁.offer hcolumn).mono (Nat.le_refl _))
  exact ⟨_, _, hready, hgap.trans htagged⟩

/-- A node may begin after the indicator that it follows in a collection. -/
theorem ready_openAt (start t : Token) (hindent : b.indent ≤ m.column) :
    Ready ((b.openAt m.column start).add [t]) (m.advance 1) .afterIndicator true none := by
  have hopen := Blocks.indent_openAt hindent start
  exact .afterIndicator (by simp [hopen]) (by simp [hopen])

/-- A tag, and the node after it. -/
theorem Scans.tagged {v : Value} {tag : String} (htag : IsPlainTag tag) (h : Scans v) :
    Scans (.tagged tag v) := by
  intro b m position keyAllowed candidate indent inMapping tail k hready hindent hroot hfollows hk
  have hends : endsWord (v.writeBlock .afterKey indent inMapping ++
      (List.replicate k.toNat ' ' ++ tail)) = true :=
    endsWord_writeBlock v (by decide) indent inMapping _
  obtain ⟨m₁, candidate₁, hready', htagged⟩ := hready.reaches_tag htag hends
  obtain ⟨m₂, hm₂, hvalue⟩ := h indent inMapping hready' hindent hroot hfollows hk
  refine ⟨m₂, hm₂, ?_⟩
  rw [writeBlock, tokens]
  simpa using htagged.trans hvalue

/-! ## Short keys -/

variable {v : Value} {key rest : List Char} {size : Nat}

/-- The text of a null can be written plain. -/
theorem isPlain_null : IsPlain "null".toList :=
  isPlain_of_isAtomChar (List.all_eq_true.1 (by decide)) (.inl rfl)

/-- The text of a truth value can be written plain. -/
theorem isPlain_bool (value : Bool) : IsPlain (if value then "true" else "false").toList := by
  cases value
  · exact isPlain_of_isAtomChar (List.all_eq_true.1 (by decide)) (.inl rfl)
  · exact isPlain_of_isAtomChar (List.all_eq_true.1 (by decide)) (.inl rfl)

/-- The keys without a tag: a scalar on one line, or an empty collection. -/
inductive IsKeyText : Value → List Char → Prop
  | plain {v : Value} {s : String} (hscalar : v.scalar? = some (.plain, s))
    (hplain : IsPlain s.toList) : IsKeyText v s.toList
  | quoted {s : String} (hstyle : Scalar.styleOf s = .doubleQuoted ∨
    Scalar.styleOf s = .singleQuoted ∧ IsSingle s.toList) (hline : s.toList.any isBreak = false) :
    IsKeyText (.string s) (Scalar.inline (Scalar.styleOf s) 0 s.toList)
  | empty {v : Value} {brackets : List Char} {ts : List Token} (hflow : IsEmptyFlow brackets ts)
    (htokens : ∀ position inMapping, v.tokens position inMapping = ts) : IsKeyText v brackets

/-- A short key without a tag is the text of a key, and its size tells how long it can be. -/
theorem isKeyText_of_untagged? (hv : v.IsLegible) (h : shortKey?.untagged? v = some (key, size)) :
    IsKeyText v key ∧ key.length ≤ 4 * size + 2 := by
  have hatom {v : Value} {s : String} (hscalar : v.scalar? = some (.plain, s))
      (hplain : IsPlain s.toList) :
      IsKeyText v s.toList ∧ s.toList.length ≤ 4 * s.toList.length + 2 :=
    ⟨.plain hscalar hplain, by omega⟩
  cases hv with
  | null =>
    obtain ⟨rfl, rfl⟩ := Prod.mk.inj (Option.some.inj h)
    exact hatom rfl isPlain_null
  | bool value =>
    obtain ⟨rfl, rfl⟩ := Prod.mk.inj (Option.some.inj h)
    exact hatom rfl (isPlain_bool value)
  | number hn =>
    obtain ⟨rfl, rfl⟩ := Prod.mk.inj (Option.some.inj h)
    exact hatom rfl (isPlain_number hn)
  | string s =>
    rw [shortKey?.untagged?] at h
    split_ifs at h with hmultiline
    obtain ⟨rfl, rfl⟩ := Prod.mk.inj (Option.some.inj h)
    have hline : s.toList.any isBreak = false := by
      rw [TextShape.of] at hmultiline
      split_ifs at hmultiline with hnil
      · rw [List.isEmpty_iff.1 hnil]
        rfl
      · simpa [TextShape.ofChars] using hmultiline
    refine ⟨?_, Scalar.length_inline_le _ s⟩
    rcases Scalar.styleOf_cases s with ⟨hstyle, hplain⟩ | hstyle | ⟨-, hmem, -⟩
    · have hkey : Scalar.inline (Scalar.styleOf s) 0 s.toList = s.toList := by rw [hstyle]; rfl
      rw [hkey]
      exact .plain (by rw [scalar?, hstyle]) hplain
    · exact .quoted hstyle hline
    · exact absurd (List.any_eq_false.1 hline _ hmem) (by decide)
  | @sequence items hitems =>
    cases items with
    | nil =>
      obtain ⟨rfl, rfl⟩ := Prod.mk.inj (Option.some.inj h)
      exact ⟨.empty (.inl ⟨rfl, rfl⟩) fun _ _ => by simp only [tokens], by decide⟩
    | cons v vs => cases h
  | @mapping entries =>
    cases entries with
    | nil =>
      obtain ⟨rfl, rfl⟩ := Prod.mk.inj (Option.some.inj h)
      exact ⟨.empty (.inr ⟨rfl, rfl⟩) fun _ _ => by simp only [tokens], by decide⟩
    | cons e es => cases h
  | tagged => cases h

/-- The text of a key begins with a token. -/
theorem IsKeyText.startsToken (h : IsKeyText v key) (rest : List Char) :
    startsToken (key ++ rest) = true := by
  cases h with
  | plain hscalar hplain => exact startsToken_of_isPlain hplain
  | quoted hstyle hline =>
    rcases hstyle with h | ⟨h, -⟩ <;> rw [h] <;> exact startsToken_cons.2 (by decide)
  | empty hflow htokens =>
    rcases hflow with ⟨rfl, -⟩ | ⟨rfl, -⟩ <;> exact startsToken_cons.2 (by decide)

/-- A key without a tag. The candidate must last up to the colon. -/
theorem IsKeyText.reaches (h : IsKeyText v key) (hends : endsWord rest = true)
    (hcolumn : b.indent ≤ m.column) (hallowed : keyAllowed = true → candidate = none)
    (hdrop : refresh? m candidate = some candidate)
    (hfresh : ∀ n ≤ key.length, refresh? (m.advance n) (offer b m keyAllowed candidate) =
      some (offer b m keyAllowed candidate)) (position : Position) (inMapping : Bool) :
    Reaches (inBlock b ⟨key ++ ':' :: rest, m⟩ keyAllowed candidate)
      (inBlock (b.add (v.tokens position inMapping)) ⟨':' :: rest, m.advance key.length⟩ false
        (offer b m keyAllowed candidate)) := by
  cases h with
  | plain hscalar hplain =>
    rw [tokens_of_scalar? hscalar]
    exact reaches_plainKey hplain hends hcolumn hdrop hallowed
  | @quoted s hstyle hline =>
    have hindent : s.toList.any isBreak = true → 0 < 0 := fun h => by simp [hline] at h
    have hrest : (':' :: rest).head? ≠ some '\'' := by simp
    obtain ⟨m', -, hmark, hreaches⟩ :=
      reaches_inline hstyle hindent hrest hcolumn hdrop hallowed
    rw [tokens, ← hmark hline]
    exact hreaches
  | @empty _ _ ts hflow htokens =>
    have hlength : key.length = 2 := by rcases hflow with ⟨rfl, -⟩ | ⟨rfl, -⟩ <;> rfl
    rw [htokens, hlength]
    exact reaches_emptyFlow hflow hcolumn hdrop hallowed (hfresh 1 (by omega))

/-- A short key has no tag, or a tag in front. -/
theorem shortKey?_cases (h : shortKey? v = some key) :
    (∃ size ≤ 128, shortKey?.untagged? v = some (key, size)) ∨
      ∃ tag w text size, v = .tagged tag w ∧ shortKey?.untagged? w = some (text, size) ∧
        (tagOctets tag).length + 1 + size ≤ 128 ∧ key = tagText tag ++ ' ' :: text := by
  have huntagged {u : Value} (hu : ((shortKey?.untagged? u).bind fun p =>
      if p.2 ≤ 128 then some p.1 else none) = some key) :
      ∃ size ≤ 128, shortKey?.untagged? u = some (key, size) := by
    obtain ⟨⟨text, size⟩, htext, hsize⟩ := Option.bind_eq_some_iff.1 hu
    split_ifs at hsize with hle
    exact ⟨size, hle, Option.some.inj hsize ▸ htext⟩
  cases v with
  | tagged tag w =>
    obtain ⟨⟨text, size⟩, htext, hsize⟩ := Option.bind_eq_some_iff.1 h
    simp only at hsize
    split_ifs at hsize with hle
    exact .inr ⟨tag, w, text, size, rfl, htext, hle, (Option.some.inj hsize).symm⟩
  | _ => exact .inl (huntagged h)

/-- A candidate lasts for 1024 characters on its line. -/
theorem refresh?_advance {n : Nat} (hn : n ≤ 1024) (position : Nat) (required : Bool) :
    refresh? (m.advance n) (some ⟨position, m, required⟩) =
      some (some ⟨position, m, required⟩) := by
  have hstale : isStale (m.advance n) ⟨position, m, required⟩ = false := by
    simp [isStale, hn]
  rw [refresh?, hstale]
  rfl

/-- A short key begins with a token. -/
theorem startsToken_shortKey (hv : v.IsLegible) (h : shortKey? v = some key) (rest : List Char) :
    startsToken (key ++ rest) = true := by
  rcases shortKey?_cases h with ⟨size, -, huntagged⟩ | ⟨tag, w, text, size, rfl, -, -, rfl⟩
  · exact (isKeyText_of_untagged? hv huntagged).1.startsToken rest
  · rw [List.append_assoc]
    exact startsToken_tagText tag _

/-- A short key at the start of its entry is a candidate at the colon. -/
theorem reaches_shortKey (hv : v.IsLegible) (h : shortKey? v = some key)
    (hends : endsWord rest = true) (hcolumn : b.indent ≤ m.column) (position : Position)
    (inMapping : Bool) :
    key.length ≤ 1024 ∧ ∃ required,
      Reaches (inBlock b ⟨key ++ ':' :: rest, m⟩ true none)
        (inBlock (b.add (v.tokens position inMapping)) ⟨':' :: rest, m.advance key.length⟩ false
          (some ⟨b.tokens.length, m, required⟩)) := by
  rcases shortKey?_cases h with ⟨size, hsize, huntagged⟩ |
    ⟨tag, w, text, size, rfl, huntagged, hsize, rfl⟩
  · obtain ⟨hkey, hlength⟩ := isKeyText_of_untagged? hv huntagged
    have hfresh : ∀ n ≤ key.length, refresh? (m.advance n) (offer b m true none) =
        some (offer b m true none) := fun n hn => refresh?_advance (by omega) _ _
    exact ⟨by omega, b.indent = m.column,
      hkey.reaches hends hcolumn (fun _ => rfl) rfl hfresh position inMapping⟩
  · cases hv with
    | tagged htag hw =>
      obtain ⟨hkey, hlength⟩ := isKeyText_of_untagged? hw huntagged
      have htext := (tagText_spec tag).1
      refine ⟨by simp; omega, b.indent = m.column, ?_⟩
      have htagged : Reaches
          (inBlock b ⟨tagText tag ++ ' ' :: (text ++ ':' :: rest), m⟩ true none) _ :=
        reaches_tag htag rfl hcolumn rfl fun _ => rfl
      have hdrop : refresh? ((m.advance (tagText tag).length).advance 1) (offer b m true none) =
          some (offer b m true none) := by
        rw [Mark.advance_advance]
        exact refresh?_advance (by omega) _ _
      have hfresh : ∀ n ≤ text.length,
          refresh? (((m.advance (tagText tag).length).advance 1).advance n)
            (offer (b.add [tagToken tag]) ((m.advance (tagText tag).length).advance 1) false
              (offer b m true none)) =
            some (offer (b.add [tagToken tag]) ((m.advance (tagText tag).length).advance 1) false
              (offer b m true none)) := by
        intro n hn
        simp only [Mark.advance_advance]
        exact refresh?_advance (by omega) _ _
      have hcolumn' : (b.add [tagToken tag]).indent ≤
          ((m.advance (tagText tag).length).advance 1).column := by
        simp
        omega
      have hvalue := hkey.reaches hends hcolumn' (fun h => (by cases h)) hdrop hfresh .afterKey
        inMapping
      simpa [tokens, offer, Nat.add_assoc, Nat.add_comm 1] using
        (htagged.trans (Scanner.reaches_gap (hkey.startsToken _))).trans hvalue

/-! ## Block collections -/

/-- The lines of some elements, each but the first after the indentation. -/
def lines {α : Type} (column : Nat) (text : α → List Char) : List α → List Char
  | [] => []
  | a :: as => text a ++ as.flatMap fun a => List.replicate column ' ' ++ text a

/-- Elements that are scanned one by one are scanned one after the other. -/
theorem reaches_lines {α : Type} {column : Nat} {start : Token} {text : α → List Char}
    {ts : α → List Token} {l : List α} (hne : l ≠ [])
    (hstart : ∀ a ∈ l, ∀ rest, startsToken (text a ++ rest) = true)
    (hstep : ∀ a ∈ l, ∀ {b : Blocks} {m : Mark} {tail : List Char} {k : Int}, b.indent ≤ column →
      m.column = column → Follows k tail → k ≤ column → ∃ m' : Mark, m'.column = k.toNat ∧
        Reaches (inBlock b ⟨text a ++ (List.replicate k.toNat ' ' ++ tail), m⟩ true none)
          (inBlock (((b.openAt column start).add (ts a)).close k) ⟨tail, m'⟩ true none))
    (hindent : b.indent ≤ column) (hcolumn : m.column = column) (hfollows : Follows k tail)
    (hk : k ≤ column) :
    ∃ m' : Mark, m'.column = k.toNat ∧
      Reaches (inBlock b ⟨lines column text l ++ (List.replicate k.toNat ' ' ++ tail), m⟩ true none)
        (inBlock (((b.openAt column start).add (l.flatMap ts)).close k) ⟨tail, m'⟩ true none) := by
  induction l generalizing b m with
  | nil => exact absurd rfl hne
  | cons a as ih =>
    obtain ⟨ha, has⟩ := List.forall_mem_cons.1 hstart
    cases as with
    | nil =>
      simpa [lines] using hstep a List.mem_cons_self hindent hcolumn hfollows hk
    | cons a' as =>
      have hnext : Follows column
          (lines column text (a' :: as) ++ (List.replicate k.toNat ' ' ++ tail)) := by
        refine .inr ⟨Int.natCast_nonneg _, ?_⟩
        rw [lines, List.append_assoc]
        exact has a' List.mem_cons_self _
      obtain ⟨m₁, hm₁, hfirst⟩ := hstep a List.mem_cons_self hindent hcolumn hnext Int.le_rfl
      have hopen : ((b.openAt column start).add (ts a)).indent = column :=
        Blocks.indent_openAt hindent start
      rw [Blocks.close_of_le (Int.le_of_eq hopen)] at hfirst
      obtain ⟨m₂, hm₂, hothers⟩ := ih (List.cons_ne_nil _ _) has
        (fun a ha => hstep a (List.mem_cons_of_mem _ ha)) (Int.le_of_eq hopen) hm₁
      rw [Blocks.openAt_of_le (Int.le_of_eq hopen.symm), Blocks.add_add] at hothers
      refine ⟨m₂, hm₂, ?_⟩
      simpa [lines] using hfirst.trans hothers

variable {column : Nat}

/-- An item of a block sequence as it is written. -/
def itemText (column : Nat) (v : Value) : List Char :=
  '-' :: v.writeBlock .afterIndicator (some column) false

/-- Items are written as lines. -/
theorem writeItems_eq_lines (column : Nat) (items : List Value) :
    writeItems column true items = lines column (itemText column) items := by
  have hothers : ∀ items, writeItems column false items =
      items.flatMap fun v => List.replicate column ' ' ++ itemText column v := by
    intro items
    induction items with
    | nil => rfl
    | cons v vs ih => simp [writeItems, itemText, ih]
  cases items with
  | nil => rfl
  | cons v vs => simp [writeItems, lines, itemText, hothers]

/-- The tokens of items are those of each of them after its dash. -/
theorem itemTokens_eq (items : List Value) :
    itemTokens items = items.flatMap fun v => .blockEntry :: v.tokens .afterIndicator false := by
  induction items with
  | nil => rfl
  | cons v vs ih => simp [itemTokens, ih]

/-- An item of a block sequence. -/
theorem Scans.reaches_item (h : Scans v) (hindent : b.indent ≤ column) (hcolumn : m.column = column)
    (hfollows : Follows k tail) (hk : k ≤ column) :
    ∃ m' : Mark, m'.column = k.toNat ∧
      Reaches (inBlock b ⟨itemText column v ++ (List.replicate k.toNat ' ' ++ tail), m⟩ true none)
        (inBlock (((b.openAt column .blockSequenceStart).add
          (.blockEntry :: v.tokens .afterIndicator false)).close k) ⟨tail, m'⟩ true none) := by
  subst hcolumn
  have hends : endsWord (v.writeBlock .afterIndicator (some m.column) false ++
      (List.replicate k.toNat ' ' ++ tail)) = true :=
    endsWord_writeBlock v (by decide) _ _ _
  have hopen := Blocks.indent_openAt hindent .blockSequenceStart
  obtain ⟨m₁, hm₁, hvalue⟩ := h (some m.column) false
    (ready_openAt .blockSequenceStart .blockEntry hindent) hopen nofun hfollows (hopen ▸ hk)
  refine ⟨m₁, hm₁, ?_⟩
  simpa [itemText] using (reaches_blockEntry hends hindent).trans hvalue

/-- An entry of a block mapping as it is written. -/
def entryText (column : Nat) (e : Value × Value) : List Char :=
  match shortKey? e.1 with
  | some key => key ++ ':' :: e.2.writeBlock .afterKey (some column) true
  | none =>
    '?' :: e.1.writeBlock .afterIndicator (some column) true ++ List.replicate column ' ' ++
      ':' :: e.2.writeBlock .afterIndicator (some column) true

/-- An entry is written after the spaces in front of it and before the other entries. -/
theorem writeEntries_cons (column : Nat) (first : Bool) (e : Value × Value) (es : Entries) :
    writeEntries column first (e :: es) = (if first then [] else List.replicate column ' ') ++
      entryText column e ++ writeEntries column false es := by
  cases hkey : shortKey? e.1 <;> simp only [writeEntries, entryText, hkey]

/-- Entries are written as lines. -/
theorem writeEntries_eq_lines (column : Nat) (entries : Entries) :
    writeEntries column true entries = lines column (entryText column) entries := by
  have hothers : ∀ entries, writeEntries column false entries =
      entries.flatMap fun e => List.replicate column ' ' ++ entryText column e := by
    intro entries
    induction entries with
    | nil => rfl
    | cons e es ih => simp [writeEntries_cons, ih]
  cases entries with
  | nil => rfl
  | cons e es => simp [writeEntries_cons, lines, hothers]

/-- The tokens of an entry of a block mapping. -/
def tokensOfEntry (e : Value × Value) : List Token :=
  .key :: e.1.tokens .afterIndicator true ++
    .value :: e.2.tokens (if (shortKey? e.1).isSome then .afterKey else .afterIndicator) true

/-- The tokens of entries are those of each of them. -/
theorem entryTokens_eq (entries : Entries) :
    entryTokens entries = entries.flatMap tokensOfEntry := by
  induction entries with
  | nil => rfl
  | cons e es ih => simp [entryTokens, tokensOfEntry, ih]

/-- An entry begins with a token. -/
theorem startsToken_entryText {e : Value × Value} (he : e.1.IsLegible) (column : Nat)
    (rest : List Char) : startsToken (entryText column e ++ rest) = true := by
  rw [entryText]
  cases h : shortKey? e.1 with
  | none => exact startsToken_cons.2 (by decide)
  | some key =>
    rw [List.append_assoc]
    exact (startsToken_shortKey he h) _

/-- A short key with its colon, up to the value. -/
theorem reaches_shortColon (hv : v.IsLegible) (hshort : shortKey? v = some key)
    (hends : endsWord rest = true) (hindent : b.indent ≤ m.column) :
    ∃ m' : Mark,
      Ready ((b.openAt m.column .blockMappingStart).add
        (.key :: v.tokens .afterIndicator true ++ [.value])) m' .afterKey false none ∧
      Reaches (inBlock b ⟨key ++ ':' :: rest, m⟩ true none)
        (inBlock ((b.openAt m.column .blockMappingStart).add
          (.key :: v.tokens .afterIndicator true ++ [.value])) ⟨rest, m'⟩ false none) := by
  obtain ⟨hlength, required, hreaches⟩ :=
    reaches_shortKey hv hshort hends hindent .afterIndicator true
  have hfresh : isStale (m.advance key.length) ⟨b.tokens.length, m, required⟩ = false := by
    simp [isStale, hlength]
  have hcolon : Reaches (inBlock (b.add (v.tokens .afterIndicator true))
      ⟨':' :: rest, m.advance key.length⟩ false (some ⟨b.tokens.length, m, required⟩)) _ :=
    reaches_value_of_candidate hfresh hends (by simp; omega)
  refine ⟨(m.advance key.length).advance 1, .afterKey ?_ (passing_none _), hreaches.trans hcolon⟩
  simp [Blocks.indent_openAt hindent .blockMappingStart]

/-- An entry with a short key. -/
theorem Scans.reaches_shortEntry {e : Value × Value} (hkey : e.1.IsLegible) (hvalue : Scans e.2)
    (hshort : shortKey? e.1 = some key) (hindent : b.indent ≤ column) (hcolumn : m.column = column)
    (hfollows : Follows k tail) (hk : k ≤ column) :
    ∃ m' : Mark, m'.column = k.toNat ∧
      Reaches (inBlock b ⟨entryText column e ++ (List.replicate k.toNat ' ' ++ tail), m⟩ true none)
        (inBlock (((b.openAt column .blockMappingStart).add (tokensOfEntry e)).close k) ⟨tail, m'⟩
          true none) := by
  subst hcolumn
  have hends : endsWord (e.2.writeBlock .afterKey (some m.column) true ++
      (List.replicate k.toNat ' ' ++ tail)) = true :=
    endsWord_writeBlock e.2 (by decide) _ _ _
  have hopen := Blocks.indent_openAt hindent .blockMappingStart
  obtain ⟨m₁, hready, hcolon⟩ := reaches_shortColon hkey hshort hends hindent
  obtain ⟨m₂, hm₂, hentry⟩ := hvalue (some m.column) true hready hopen nofun hfollows (hopen ▸ hk)
  refine ⟨m₂, hm₂, ?_⟩
  simpa [entryText, hshort, tokensOfEntry] using hcolon.trans hentry

/-- A marked key, up to the value after its colon. -/
theorem Scans.reaches_longColon (hkey : Scans v) (hends : endsWord rest = true)
    (hindent : b.indent ≤ m.column) :
    ∃ m' : Mark,
      Ready ((b.openAt m.column .blockMappingStart).add
        (.key :: v.tokens .afterIndicator true ++ [.value])) m' .afterIndicator true none ∧
      Reaches
        (inBlock b ⟨'?' :: v.writeBlock .afterIndicator (some m.column) true ++
          (List.replicate m.column ' ' ++ ':' :: rest), m⟩ true none)
        (inBlock ((b.openAt m.column .blockMappingStart).add
          (.key :: v.tokens .afterIndicator true ++ [.value])) ⟨rest, m'⟩ true none) := by
  have hends' : endsWord (v.writeBlock .afterIndicator (some m.column) true ++
      (List.replicate (m.column : Int).toNat ' ' ++ ':' :: rest)) = true :=
    endsWord_writeBlock v (by decide) _ _ _
  have hopen := Blocks.indent_openAt hindent .blockMappingStart
  have hnext : Follows m.column (':' :: rest) :=
    .inr ⟨Int.natCast_nonneg _, startsToken_cons.2 (by decide)⟩
  obtain ⟨m₁, hm₁, hfirst⟩ :=
    hkey (some m.column) true (ready_openAt .blockMappingStart .key hindent) hopen nofun hnext
      (Int.le_of_eq hopen.symm)
  rw [Blocks.add_add, Blocks.close_of_le (b := (b.openAt _ _).add _) (Int.le_of_eq hopen)] at hfirst
  have hindent₁ : ((b.openAt m.column .blockMappingStart).add
      ([.key] ++ v.tokens .afterIndicator true)).indent = m₁.column := by
    simp [hopen, hm₁]
  have hmark := ((reaches_key hends' hindent).trans hfirst).trans (reaches_value hends hindent₁)
  refine ⟨m₁.advance 1, .afterIndicator (by simp [hopen]) (by simp [hopen, hm₁]), ?_⟩
  simpa using hmark

/-- An entry with a marked key. -/
theorem Scans.reaches_longEntry {e : Value × Value} (hkey : Scans e.1) (hvalue : Scans e.2)
    (hlong : shortKey? e.1 = none) (hindent : b.indent ≤ column) (hcolumn : m.column = column)
    (hfollows : Follows k tail) (hk : k ≤ column) :
    ∃ m' : Mark, m'.column = k.toNat ∧
      Reaches (inBlock b ⟨entryText column e ++ (List.replicate k.toNat ' ' ++ tail), m⟩ true none)
        (inBlock (((b.openAt column .blockMappingStart).add (tokensOfEntry e)).close k) ⟨tail, m'⟩
          true none) := by
  subst hcolumn
  have hends : endsWord (e.2.writeBlock .afterIndicator (some m.column) true ++
      (List.replicate k.toNat ' ' ++ tail)) = true :=
    endsWord_writeBlock e.2 (by decide) _ _ _
  have hopen := Blocks.indent_openAt hindent .blockMappingStart
  obtain ⟨m₁, hready, hcolon⟩ := hkey.reaches_longColon hends hindent
  obtain ⟨m₂, hm₂, hentry⟩ := hvalue (some m.column) true hready hopen nofun hfollows (hopen ▸ hk)
  refine ⟨m₂, hm₂, ?_⟩
  simpa [entryText, hlong, tokensOfEntry] using hcolon.trans hentry

/-- The items of a list are scanned to their end, if each of them is. -/
theorem reaches_items {items : List Value} (h : ∀ v ∈ items, Scans v) (hne : items ≠ [])
    (hindent : b.indent ≤ column) (hcolumn : m.column = column) (hfollows : Follows k tail)
    (hk : k ≤ column) :
    ∃ m' : Mark, m'.column = k.toNat ∧
      Reaches
        (inBlock b ⟨writeItems column true items ++ (List.replicate k.toNat ' ' ++ tail), m⟩
          true none)
        (inBlock (((b.openAt column .blockSequenceStart).add (itemTokens items)).close k)
          ⟨tail, m'⟩ true none) := by
  rw [writeItems_eq_lines, itemTokens_eq]
  exact reaches_lines hne (fun v _ rest => startsToken_cons.2 (by decide))
    (fun v hv => Scans.reaches_item (h v hv)) hindent hcolumn hfollows hk

/-- An entry of a block mapping. -/
theorem reaches_entry {e : Value × Value} (hkey : e.1.IsLegible) (hvalue : Scans e.2)
    (hscans : Scans e.1) (hindent : b.indent ≤ column) (hcolumn : m.column = column)
    (hfollows : Follows k tail) (hk : k ≤ column) :
    ∃ m' : Mark, m'.column = k.toNat ∧
      Reaches (inBlock b ⟨entryText column e ++ (List.replicate k.toNat ' ' ++ tail), m⟩ true none)
        (inBlock (((b.openAt column .blockMappingStart).add (tokensOfEntry e)).close k) ⟨tail, m'⟩
          true none) := by
  cases h : shortKey? e.1 with
  | some key => exact Scans.reaches_shortEntry hkey hvalue h hindent hcolumn hfollows hk
  | none => exact Scans.reaches_longEntry hscans hvalue h hindent hcolumn hfollows hk

/-- The entries of a mapping are scanned to their end, if their keys and their values are. -/
theorem reaches_entries {entries : Entries} (hlegible : ∀ e ∈ entries, e.1.IsLegible)
    (hkeys : ∀ e ∈ entries, Scans e.1) (hvalues : ∀ e ∈ entries, Scans e.2) (hne : entries ≠ [])
    (hindent : b.indent ≤ column) (hcolumn : m.column = column) (hfollows : Follows k tail)
    (hk : k ≤ column) :
    ∃ m' : Mark, m'.column = k.toNat ∧
      Reaches
        (inBlock b ⟨writeEntries column true entries ++ (List.replicate k.toNat ' ' ++ tail), m⟩
          true none)
        (inBlock (((b.openAt column .blockMappingStart).add (entryTokens entries)).close k)
          ⟨tail, m'⟩ true none) := by
  rw [writeEntries_eq_lines, entryTokens_eq]
  exact reaches_lines hne (fun e he => startsToken_entryText (hlegible e he) column)
    (fun e he => reaches_entry (hlegible e he) (hvalues e he) (hkeys e he)) hindent hcolumn hfollows
    hk

/-! ## All values -/

/-- A collection is written to the right of the block that it stands in, unless it stays at the
column of its key. -/
theorem lt_collectionColumn (hindent : b.indent = outerColumn indent) {stays : Bool}
    (hstays : (stays && position = .afterKey) = false) :
    b.indent < collectionColumn position indent stays := by
  rw [hindent]
  cases indent with
  | none => simp [collectionColumn, outerColumn]
  | some i =>
    simp only [collectionColumn, hstays, outerColumn, Option.elim_some, Bool.false_eq_true,
      if_false]
    omega

/-- A list is scanned as it is written, if its items are. -/
theorem scans_sequence {items : List Value} (h : ∀ v ∈ items, Scans v) :
    Scans (.sequence items) := by
  intro b m position keyAllowed candidate indent inMapping tail k hready hindent hroot hfollows hk
  cases items with
  | nil =>
    exact scans_of_isEmptyFlow (.inl ⟨rfl, rfl⟩) (fun _ _ => by simp only [tokens])
      (fun _ _ _ => by simp only [writeBlock]; rfl)
      indent inMapping hready hindent hroot hfollows hk
  | cons v vs =>
    have hstart : startsToken (writeItems (collectionColumn position indent inMapping) true
        (v :: vs) ++ (List.replicate k.toNat ' ' ++ tail)) = true := by
      rw [writeItems_eq_lines]
      exact startsToken_cons.2 (by decide)
    obtain ⟨m₁, hm₁, hlead⟩ := hready.reaches_lead hindent inMapping hstart
    have hwrite : (Value.sequence (v :: vs)).writeBlock position indent inMapping =
        position.lead (collectionColumn position indent inMapping) ++
          writeItems (collectionColumn position indent inMapping) true (v :: vs) := by
      cases indent <;> simp only [writeBlock, collectionColumn]
    have htokens : (Value.sequence (v :: vs)).tokens position inMapping =
        if inMapping && position = .afterKey then itemTokens (v :: vs)
        else .blockSequenceStart :: itemTokens (v :: vs) ++ [.blockEnd] := by
      simp only [tokens]
    rw [hwrite, htokens, List.append_assoc]
    cases hstays : inMapping && decide (position = .afterKey) with
    | true =>
      -- the items stay at the column of the mapping around them
      obtain ⟨hmapping, hposition⟩ := Bool.and_eq_true_iff.1 hstays
      obtain ⟨i, rfl⟩ := Option.ne_none_iff_exists'.1 (hroot hmapping)
      have hcolumn : b.indent = collectionColumn position (some i) inMapping := by
        rw [hindent, collectionColumn, hstays]
        rfl
      obtain ⟨m₂, hm₂, hitems⟩ := reaches_items h (List.cons_ne_nil v vs) (Int.le_of_eq hcolumn)
        hm₁ hfollows (by omega)
      rw [Blocks.openAt_of_le (Int.le_of_eq hcolumn.symm)] at hitems
      exact ⟨m₂, hm₂, by simpa using hlead.trans hitems⟩
    | false =>
      have hlt := lt_collectionColumn hindent hstays
      obtain ⟨m₂, hm₂, hitems⟩ :=
        reaches_items h (List.cons_ne_nil v vs) (Int.le_of_lt hlt) hm₁ hfollows (by omega)
      rw [Blocks.close_openAt hlt hk] at hitems
      exact ⟨m₂, hm₂, by simpa using hlead.trans hitems⟩

/-- A mapping is scanned as it is written, if its keys and its values are. -/
theorem scans_mapping {entries : Entries} (hlegible : ∀ e ∈ entries, e.1.IsLegible)
    (hkeys : ∀ e ∈ entries, Scans e.1) (hvalues : ∀ e ∈ entries, Scans e.2) :
    Scans (.mapping entries) := by
  intro b m position keyAllowed candidate indent inMapping tail k hready hindent hroot hfollows hk
  cases entries with
  | nil =>
    exact scans_of_isEmptyFlow (.inr ⟨rfl, rfl⟩) (fun _ _ => by simp only [tokens])
      (fun _ _ _ => by simp only [writeBlock]; rfl)
      indent inMapping hready hindent hroot hfollows hk
  | cons e es =>
    have hstart : startsToken (writeEntries (collectionColumn position indent false) true
        (e :: es) ++ (List.replicate k.toNat ' ' ++ tail)) = true := by
      rw [writeEntries_eq_lines, lines, List.append_assoc]
      exact startsToken_entryText (hlegible e List.mem_cons_self) _ _
    obtain ⟨m₁, hm₁, hlead⟩ := hready.reaches_lead hindent false hstart
    have hwrite : (Value.mapping (e :: es)).writeBlock position indent inMapping =
        position.lead (collectionColumn position indent false) ++
          writeEntries (collectionColumn position indent false) true (e :: es) := by
      cases indent <;> simp [writeBlock, collectionColumn]
    have htokens : (Value.mapping (e :: es)).tokens position inMapping =
        .blockMappingStart :: entryTokens (e :: es) ++ [.blockEnd] := by
      simp only [tokens]
    have hlt : b.indent < collectionColumn position indent false := lt_collectionColumn hindent rfl
    obtain ⟨m₂, hm₂, hentries⟩ := reaches_entries hlegible hkeys hvalues (List.cons_ne_nil e es)
      (Int.le_of_lt hlt) hm₁ hfollows (by omega)
    rw [Blocks.close_openAt hlt hk] at hentries
    rw [hwrite, htokens, List.append_assoc]
    exact ⟨m₂, hm₂, by simpa using hlead.trans hentries⟩

end Block

/-- The text of a value is scanned as its tokens. -/
theorem IsLegible.scans {v : Value} (h : v.IsLegible) : Scans v := by
  induction h with
  | null => exact scans_of_isPlain rfl isPlain_null fun _ _ _ => by simp only [writeBlock]; rfl
  | bool b =>
    refine scans_of_isPlain rfl (isPlain_bool b) fun _ _ _ => ?_
    cases b <;> simp only [writeBlock] <;> rfl
  | number hn =>
    exact scans_of_isPlain rfl (isPlain_number hn) fun _ _ _ => by
      simp only [writeBlock, List.append_assoc]
  | string s => exact scans_string s
  | sequence _ ih => exact scans_sequence ih
  | mapping hlegible _ _ ihkeys ihvalues => exact scans_mapping hlegible ihkeys ihvalues
  | tagged htag _ ih => exact ih.tagged htag

/-! ## The characters of a written value -/

/-- Lines hold only characters that may stand in a text, if what is written in them does. -/
theorem isAllowed_lines {α : Type} {column : Nat} {text : α → List Char} {l : List α}
    (h : ∀ a ∈ l, ∀ c ∈ text a, isAllowed c = true) :
    ∀ c ∈ lines column text l, isAllowed c = true := by
  cases l with
  | nil => exact List.forall_mem_nil _
  | cons a as =>
    obtain ⟨ha, has⟩ := List.forall_mem_cons.1 h
    rw [lines, List.forall_mem_append]
    refine ⟨ha, fun c hc => ?_⟩
    obtain ⟨a', ha', hc⟩ := List.mem_flatMap.1 hc
    rcases List.mem_append.1 hc with hc | hc
    · rw [List.eq_of_mem_replicate hc]
      rfl
    · exact has a' ha' c hc

/-- The blank before a value may stand in a text. -/
theorem isAllowed_gap (position : Position) : ∀ c ∈ position.gap, isAllowed c = true := by
  cases position <;> exact List.all_eq_true.1 (by decide)

/-- What leads to a collection may stand in a text. -/
theorem isAllowed_lead (position : Position) (column : Nat) :
    ∀ c ∈ position.lead column, isAllowed c = true := by
  cases position with
  | lineStart => exact List.forall_mem_nil _
  | afterIndicator => exact List.forall_mem_singleton.2 rfl
  | afterKey =>
    refine List.forall_mem_cons.2 ⟨rfl, fun c hc => ?_⟩
    rw [List.eq_of_mem_replicate hc]
    rfl

/-- The characters of a key may stand in a text. -/
theorem IsKeyText.isAllowed {v : Value} {key : List Char} (h : IsKeyText v key) :
    ∀ c ∈ key, isAllowed c = true := by
  cases h with
  | plain hscalar hplain => exact fun c hc => Scalar.isAllowed_of_isShown (hplain.shown c hc).1
  | quoted hstyle =>
    exact Scalar.isAllowed_inline (by rcases hstyle with h | ⟨h, -⟩ <;> simp [h]) 0
  | empty hflow => rcases hflow with ⟨rfl, -⟩ | ⟨rfl, -⟩ <;> exact List.all_eq_true.1 (by decide)

/-- The characters of a short key may stand in a text. -/
theorem isAllowed_shortKey {v : Value} {key : List Char} (hv : v.IsLegible)
    (h : shortKey? v = some key) : ∀ c ∈ key, isAllowed c = true := by
  rcases shortKey?_cases h with ⟨size, -, huntagged⟩ | ⟨tag, w, text, size, rfl, huntagged, -, rfl⟩
  · exact (isKeyText_of_untagged? hv huntagged).1.isAllowed
  · cases hv with
    | tagged htag hw =>
      rw [List.forall_mem_append, List.forall_mem_cons]
      exact ⟨(tagText_spec tag).2, rfl, (isKeyText_of_untagged? hw huntagged).1.isAllowed⟩

/-- All characters that are written can stand in a document. -/
theorem IsLegible.isAllowed {v : Value} (h : v.IsLegible) (position : Position)
    (indent : Option Nat) (inMapping : Bool) :
    ∀ c ∈ v.writeBlock position indent inMapping, isAllowed c = true := by
  have hgap := isAllowed_gap position
  induction h generalizing position indent inMapping with
  | null =>
    rw [writeBlock, List.forall_mem_append]
    exact ⟨hgap, List.all_eq_true.1 (by decide)⟩
  | bool b =>
    rw [writeBlock, List.forall_mem_append]
    exact ⟨hgap, by cases b <;> exact List.all_eq_true.1 (by decide)⟩
  | number hn =>
    rw [writeBlock, List.forall_mem_append, List.forall_mem_append]
    exact ⟨⟨hgap, fun c hc => Scalar.isAllowed_of_isShown ((isPlain_number hn).shown c hc).1⟩,
      List.all_eq_true.1 (by decide)⟩
  | string s =>
    rw [writeBlock, List.forall_mem_append]
    exact ⟨hgap, Scalar.isAllowed_block s _⟩
  | @sequence items _ ih =>
    cases items with
    | nil =>
      simp only [writeBlock, List.forall_mem_append]
      exact ⟨hgap, List.all_eq_true.1 (by decide)⟩
    | cons v vs =>
      simp only [writeBlock, List.forall_mem_append, writeItems_eq_lines]
      refine ⟨isAllowed_lead position _, isAllowed_lines fun v hv => ?_⟩
      exact List.forall_mem_cons.2 ⟨rfl, ih v hv _ _ _ (isAllowed_gap _)⟩
  | @mapping entries hlegible _ _ ihkeys ihvalues =>
    cases entries with
    | nil =>
      simp only [writeBlock, List.forall_mem_append]
      exact ⟨hgap, List.all_eq_true.1 (by decide)⟩
    | cons e es =>
      simp only [writeBlock, List.forall_mem_append, writeEntries_eq_lines]
      refine ⟨isAllowed_lead position _, isAllowed_lines fun e he => ?_⟩
      have hvalue := fun position =>
        ihvalues e he position (some ((indent.map (· + 2)).getD 0)) true (isAllowed_gap _)
      rw [entryText]
      cases h : shortKey? e.1 with
      | some key =>
        simp only [List.forall_mem_append, List.forall_mem_cons]
        exact ⟨isAllowed_shortKey (hlegible e he) h, rfl, hvalue .afterKey⟩
      | none =>
        simp only [List.cons_append, List.forall_mem_append, List.forall_mem_cons]
        refine ⟨rfl, ⟨ihkeys e he _ _ _ (isAllowed_gap _), fun c hc => ?_⟩, rfl,
          hvalue .afterIndicator⟩
        rw [List.eq_of_mem_replicate hc]
        rfl
  | @tagged tag v _ _ ih =>
    rw [writeBlock, List.forall_mem_append, List.forall_mem_append]
    exact ⟨⟨hgap, (tagText_spec tag).2⟩, ih _ _ _ (isAllowed_gap _)⟩

/-! ## The whole document -/

/-- The tokens of a document that holds a written value. -/
theorem IsLegible.ofText?_writeBlock {v : Value} (h : v.IsLegible) :
    Token.ofText? (v.writeBlock .lineStart none false) = some (v.tokens .lineStart false) := by
  have hready : Ready .start .start .lineStart true none := .lineStart rfl rfl
  have hfollows : Follows (-1) [] := .inl ⟨rfl, rfl⟩
  obtain ⟨m, hm, hreaches⟩ := h.scans none false hready rfl nofun hfollows Int.le_rfl
  have htext : v.writeBlock .lineStart none false ++ (List.replicate (-1 : Int).toNat ' ' ++ []) =
      v.writeBlock .lineStart none false := by simp
  have hclosed (ts : List Token) {k : Int} (hk : -1 ≤ k) :
      (Blocks.start.add ts).close k = Blocks.start.add ts := Blocks.close_of_le hk
  rw [htext, hclosed _ Int.le_rfl] at hreaches
  obtain ⟨fuel, hfuel, hrun⟩ := hreaches _ (Nat.lt_succ_self _)
  obtain ⟨n, rfl⟩ : ∃ n, fuel = n + 1 := ⟨fuel - 1, by simp at hfuel; omega⟩
  have hallowed : (v.writeBlock .lineStart none false).all Yaml.isAllowed = true :=
    List.all_eq_true.2 (h.isAllowed .lineStart none false)
  rw [Token.ofText?, if_pos hallowed]
  refine hrun.trans ?_
  rw [run_succ, prepare_inBlock (skipToToken_eq_self n (.inl rfl)) rfl, Option.bind_some,
    proceed_nil, hclosed _ (by omega), hclosed _ Int.le_rfl]
  simp [Blocks.start]

end Value

end Rollout.Yaml
