import Rollout.Proofs.Yaml.ValueReading

/-!
# Tags that are not read

A tag with a comma or a bracket is written as it is, and the scanner stops there (`stuck_tag`): the
tag ends at that character, but no blank follows it. So a text that is written for a value with such
a tag, wherever it stands, is not a document (`Value.IsProper.ofText?_eq_none`).
-/

namespace Rollout.Yaml

open Scanner Text

/-! ## Texts that are barred -/

/-- A text in which a comma or a bracket comes before any blank. -/
inductive Barred : List Char → Prop
  | here {c : Char} {cs : List Char} (hc : c ∈ ",[]".toList) : Barred (c :: cs)
  | later {c : Char} {cs : List Char} (hc : endsWord [c] = false) (h : Barred cs) : Barred (c :: cs)

namespace Barred

variable {c : Char} {cs cs' : List Char} {m : Mark}

/-- A comma or a bracket is no blank, and no part of a word, a tag or an escape. -/
theorem bar_spec (hc : c ∈ ",[]".toList) :
    endsWord [c] = false ∧ isWordChar c = false ∧ isTagChar false c = false ∧
      Percent.hexValue c = none ∧ c ≠ '%' ∧ c ≠ '!' := by
  obtain rfl | rfl | rfl : c = ',' ∨ c = '[' ∨ c = ']' := by simpa using hc
  all_goals decide

/-- A barred text does not start as a word may end. -/
theorem endsWord_eq_false (h : Barred cs) : endsWord cs = false := by
  cases h with
  | here hc => exact (bar_spec hc).1
  | later hc _ => exact hc

/-- A barred text stays so after a character that is no flow indicator. -/
theorem tail (h : Barred (c :: cs)) (hc : c ∉ ",[]".toList) : Barred cs := by
  cases h with
  | here hc' => exact absurd hc' hc
  | later _ h => exact h

/-- What follows a barred text does not matter. -/
theorem append {cs : List Char} (h : Barred cs) (rest : List Char) : Barred (cs ++ rest) := by
  induction h with
  | here hc => exact .here hc
  | later hc _ ih => exact .later hc ih

/-- A text without blanks in which there is a comma or a bracket. -/
theorem of_mem {cs : List Char} (hcs : ∀ c ∈ cs, endsWord [c] = false) (hc : c ∈ cs)
    (hbar : c ∈ ",[]".toList) : Barred cs := by
  induction cs with
  | nil => cases hc
  | cons d cs ih =>
    obtain ⟨hd, hcs⟩ := List.forall_mem_cons.1 hcs
    rcases List.mem_cons.1 hc with rfl | hc
    · exact .here hbar
    · exact .later hd (ih hcs hc)

/-! ## Reading before the bar -/

/-- A barred text stays so after the characters of a word. -/
theorem span_word {c : Cursor} (h : Barred c.rest) : Barred (c.span isWordChar).2.rest := by
  obtain ⟨cs, m⟩ := c
  change Barred cs at h
  change Barred (cs.drop (cs.takeWhile isWordChar).length)
  induction h with
  | here hc =>
    rw [List.takeWhile_cons_of_neg (by simp [(bar_spec hc).2.1])]
    exact .here hc
  | @later c cs hc h ih =>
    by_cases hword : isWordChar c = true
    · rw [List.takeWhile_cons_of_pos hword]
      exact ih
    · rw [List.takeWhile_cons_of_neg hword]
      exact .later hc h

/-- A barred text stays so after an escaped octet. -/
theorem escapedOctet? {n : Nat} (h : Barred cs) (heq : escapedOctet? cs = some (n, cs')) :
    Barred cs' := by
  rw [Scanner.escapedOctet?.eq_def] at heq
  split at heq
  · next high low rest =>
    obtain ⟨x, hx, heq⟩ := Option.bind_eq_some_iff.1 heq
    obtain ⟨y, hy, heq⟩ := Option.bind_eq_some_iff.1 heq
    obtain rfl := (Prod.mk.inj (Option.some.inj heq)).2
    have hhigh : high ∉ ",[]".toList := fun hc => by simp [(bar_spec hc).2.2.2.1] at hx
    have hlow : low ∉ ",[]".toList := fun hc => by simp [(bar_spec hc).2.2.2.1] at hy
    exact ((h.tail (by decide)).tail hhigh).tail hlow
  · cases heq

/-- A barred text stays so after the further octets of an escaped character. -/
theorem further {n : Nat} {octets : List Nat} (h : Barred cs)
    (heq : escapedChar?.further n cs = some (octets, cs')) : Barred cs' := by
  induction n generalizing cs octets with
  | zero =>
    cases heq
    exact h
  | succ n ih =>
    rw [escapedChar?.further] at heq
    obtain ⟨⟨octet, cs₁⟩, hoctet, heq⟩ := Option.bind_eq_some_iff.1 heq
    dsimp only at heq
    split_ifs at heq
    · cases heq
    · obtain ⟨⟨more, cs₂⟩, hmore, heq⟩ := Option.bind_eq_some_iff.1 heq
      cases heq
      exact ih (h.escapedOctet? hoctet) hmore

/-- A barred text stays so after an escaped character. -/
theorem escapedChar? {octets : List Nat} (h : Barred cs)
    (heq : escapedChar? cs = some (octets, cs')) : Barred cs' := by
  obtain ⟨⟨first, cs₁⟩, hfirst, heq⟩ := Option.bind_eq_some_iff.1 heq
  have hfurther : ∀ count, (do
      let p ← escapedChar?.further count cs₁
      pure (first :: p.1, p.2)) = some (octets, cs') → Barred cs' := by
    intro count heq
    obtain ⟨⟨more, cs₂⟩, hmore, heq⟩ := Option.bind_eq_some_iff.1 heq
    cases heq
    exact (h.escapedOctet? hfirst).further hmore
  dsimp only at heq
  split_ifs at heq
  · exact hfurther 0 heq
  · exact hfurther 1 heq
  · exact hfurther 2 heq
  · exact hfurther 3 heq
  · cases heq

/-- The octets of a tag end before the bar. -/
theorem tagOctets? {fuel : Nat} {octets : List UInt8} {c : Cursor} (h : Barred cs)
    (heq : tagOctets? fuel false ⟨cs, m⟩ = some (octets, c)) : Barred c.rest := by
  induction fuel generalizing cs m octets with
  | zero =>
    cases heq
    exact h
  | succ fuel ih =>
    rw [Scanner.tagOctets?.eq_def] at heq
    dsimp only at heq
    split at heq
    · obtain ⟨⟨first, rest⟩, hfirst, heq⟩ := Option.bind_eq_some_iff.1 heq
      obtain ⟨⟨more, c'⟩, hmore, heq⟩ := Option.bind_eq_some_iff.1 heq
      cases heq
      exact ih (h.escapedChar? hfirst) hmore
    · next x rest _ =>
      split_ifs at heq with htag
      · obtain ⟨⟨more, c'⟩, hmore, heq⟩ := Option.bind_eq_some_iff.1 heq
        cases heq
        have hx : x ∉ ",[]".toList := fun hc => by simp [(bar_spec hc).2.2.1] at htag
        exact ih (h.tail hx) hmore
      · cases heq
        exact h
    · cases heq
      exact h

/-- What is left of a barred text after the text of a tag is barred. -/
theorem tagText? {octets : List UInt8} {c : Cursor} (h : Barred cs)
    (heq : tagText? false ⟨cs, m⟩ = some (octets, c)) : Barred c.rest := by
  obtain ⟨⟨octets', c'⟩, hoctets, heq⟩ := Option.bind_eq_some_iff.1 heq
  dsimp only at heq
  split_ifs at heq
  · cases heq
  · cases heq
    exact h.tagOctets? hoctets

/-- The handle of a tag ends before the bar. -/
theorem tagHandle? {handle : List Char} {c : Cursor} (h : Barred cs)
    (heq : tagHandle? ⟨'!' :: cs, m⟩ false = some (handle, c)) : Barred c.rest := by
  have hword : Barred (((Cursor.mk ('!' :: cs) m).advance 1).span isWordChar).2.rest :=
    span_word h
  rw [Scanner.tagHandle?] at heq
  dsimp only at heq
  generalize ((Cursor.mk ('!' :: cs) m).advance 1).span isWordChar = p at hword heq
  obtain ⟨word, cs', m'⟩ := p
  dsimp only at hword heq
  split at heq
  · split at heq
    · cases heq
      exact hword.tail (by decide)
    · rw [Bool.false_and, if_neg Bool.false_ne_true] at heq
      cases heq
      exact hword
  · cases heq

end Barred

/-! ## The scanner at a barred tag -/

/-- The scanner finds no tokens from here on. -/
def Stuck (s : Scanner) : Prop := ∀ fuel, s.cursor.rest.length < fuel → run fuel s = none

/-- A scanner that reaches a stuck state is stuck. -/
theorem Stuck.of_reaches {s t : Scanner} (ht : Stuck t) (h : Reaches s t) : Stuck s := by
  intro fuel hfuel
  obtain ⟨fuel', hfuel', heq⟩ := h fuel hfuel
  rw [heq]
  exact ht fuel' hfuel'

section Block

variable {b : Blocks} {m : Mark} {keyAllowed : Bool} {candidate : Option KeyCandidate}
  {tag : String} {cs rest : List Char}

/-- To offer a candidate changes nothing else. -/
theorem offerCandidate?_cases (s : Scanner) :
    s.offerCandidate? = none ∨ ∃ k, s.offerCandidate? = some { s with candidate := k } := by
  rw [offerCandidate?]
  split_ifs
  · rw [dropCandidate?]
    split
    · exact .inl rfl
    · exact .inr ⟨_, rfl⟩
  · exact .inr ⟨s.candidate, rfl⟩

/-- A barred tag is no tag. -/
theorem tag?_eq_none (hangle : cs.head? ≠ some '<') (h : Barred cs) :
    (inBlock b ⟨'!' :: cs, m⟩ keyAllowed candidate).tag? = none := by
  by_contra hne
  obtain ⟨u, hu⟩ := Option.ne_none_iff_exists'.1 hne
  rw [tag?] at hu
  obtain ⟨t, ht, hu⟩ := Option.bind_eq_some_iff.1 hu
  rcases offerCandidate?_cases (inBlock b ⟨'!' :: cs, m⟩ keyAllowed candidate) with
    hoffer | ⟨k, hoffer⟩
  · rw [hoffer] at ht
    cases ht
  change _ = some (inBlock b ⟨'!' :: cs, m⟩ keyAllowed k) at hoffer
  obtain rfl := Option.some.inj (hoffer.symm.trans ht)
  -- whatever the tag is, the bar comes after it before any blank
  have hends (c : Cursor) (hc : Barred c.rest) : (!endsWord c.rest &&
      !((inBlock b ⟨'!' :: cs, m⟩ keyAllowed k).inFlow && decide (c.rest.head? = some ','))) =
        true := by
    rw [hc.endsWord_eq_false]
    rfl
  dsimp only [cursor_inBlock] at hu
  split at hu
  · next heq =>
    obtain ⟨-, rfl⟩ := List.cons.inj heq
    exact absurd rfl hangle
  · obtain ⟨⟨handle, c₁⟩, hhandle, hu⟩ := Option.bind_eq_some_iff.1 hu
    have hc₁ : Barred c₁.rest := h.tagHandle? hhandle
    dsimp only at hu
    split_ifs at hu
    · obtain ⟨⟨suffix, c₂⟩, hsuffix, hu⟩ := Option.bind_eq_some_iff.1 hu
      rw [Option.bind_eq_bind, Option.bind_some,
        if_pos (hends c₂ (hc₁.tagText? hsuffix))] at hu
      cases hu
    · obtain ⟨⟨more, c₂⟩, hmore, hu⟩ := Option.bind_eq_some_iff.1 hu
      dsimp only at hu
      split_ifs at hu
      all_goals
        rw [Option.bind_eq_bind, Option.bind_some] at hu
        rw [if_pos (hends c₂ (hc₁.tagOctets? hmore))] at hu
        cases hu

/-- A comma or a bracket is one octet, which is written as it is. -/
theorem exists_octetText_bar {c : Char} (hc : c ∈ ",[]".toList) :
    ∃ octet, String.utf8EncodeChar c = [octet] ∧ octet ≠ 33 ∧ octetText octet = [c] := by
  refine ⟨UInt8.ofNat c.toNat, ?_⟩
  obtain rfl | rfl | rfl : c = ',' ∨ c = '[' ∨ c = ']' := by simpa using hc
  all_goals decide

/-- An octet is written without blanks. -/
theorem endsWord_octetText (octet : UInt8) : ∀ c ∈ octetText octet, endsWord [c] = false := by
  have table : ∀ n : Fin 256,
      ((octetText (UInt8.ofNat n)).all fun c => !endsWord [c]) = true := by decide +kernel
  simpa using table ⟨octet.toNat, octet.toNat_lt⟩

/-- What is written for a tag that is not plain is barred. -/
theorem exists_barred_tagText (htag : ¬IsPlainTag tag) :
    ∃ cs, tagText tag = '!' :: cs ∧ cs.head? ≠ some '<' ∧ Barred cs := by
  obtain ⟨c, hc, hbar⟩ : ∃ c ∈ tag.toList, c ∈ ",[]".toList := by
    simpa only [IsPlainTag, not_forall, not_not, exists_prop] using htag
  obtain ⟨octet, hencode, hmark, htext⟩ := exists_octetText_bar hbar
  have hoctets : octet ∈ Percent.octets tag := by
    rw [octets_eq]
    exact List.mem_flatMap.2 ⟨c, hc, hencode ▸ List.mem_singleton_self octet⟩
  have hmem : octet ∈ tagOctets tag := by
    rw [tagOctets]
    split
    · next heq =>
      rw [heq] at hoctets
      exact (List.mem_cons.1 hoctets).resolve_left hmark
    · exact hoctets
  have hne : (tagOctets tag).isEmpty = false :=
    List.isEmpty_eq_false_iff.2 (List.ne_nil_of_mem hmem)
  refine ⟨(tagOctets tag).flatMap octetText, by rw [tagText_eq, hne]; rfl, fun hangle => ?_, ?_⟩
  · obtain ⟨octet, -, hangle⟩ := List.mem_flatMap.1 (List.mem_of_mem_head? hangle)
    exact ((octetText_spec octet).1 '<' hangle).2.1 rfl
  · refine .of_mem (fun c hc => ?_) (List.mem_flatMap.2 ⟨octet, hmem, ?_⟩) hbar
    · obtain ⟨octet, -, hc⟩ := List.mem_flatMap.1 hc
      exact endsWord_octetText octet c hc
    · rw [htext]
      exact List.mem_singleton_self c

/-- The scanner does not get past a tag that is not plain. -/
theorem stuck_tag (htag : ¬IsPlainTag tag) (rest : List Char) :
    Stuck (inBlock b ⟨tagText tag ++ rest, m⟩ keyAllowed candidate) := by
  obtain ⟨cs, htext, hangle, hbarred⟩ := exists_barred_tagText htag
  have hangle' : (cs ++ rest).head? ≠ some '<' := by
    cases hbarred with
    | here | later => exact hangle
  rw [htext, List.cons_append]
  intro fuel hfuel
  obtain ⟨n, rfl⟩ : ∃ n, fuel = n + 1 := ⟨fuel - 1, by omega⟩
  have hskip := skipToToken_eq_self (s := inBlock b ⟨'!' :: (cs ++ rest), m⟩ keyAllowed candidate) n
    (.inr (startsToken_cons.2 (by decide)))
  rw [run_succ, prepare, hskip, dropStale?_inBlock]
  cases refresh? m candidate with
  | none => rfl
  | some candidate' =>
    have htoken (s : Scanner) (cs : List Char) : s.token? '!' cs = s.tag? := by
      simp [token?, atDocumentMark]
    simp only [Option.map_some, closeBlocks_inBlock, column_inBlock, Option.bind_some, proceed,
      cursor_inBlock, htoken, tag?_eq_none hangle' (hbarred.append rest), Option.bind_none]

end Block

/-! ## The scanner in a value with such a tag -/

namespace Value

/-- The scanner gets stuck in the text of a block node. -/
def Sticks (v : Value) : Prop :=
  ∀ {b : Blocks} {m : Mark} {position : Position} {keyAllowed : Bool}
    {candidate : Option KeyCandidate} (indent : Option Nat) (inMapping : Bool) (rest : List Char),
    Ready b m position keyAllowed candidate → b.indent = outerColumn indent →
    (inMapping = true → indent ≠ none) →
    Stuck (inBlock b ⟨v.writeBlock position indent inMapping ++ rest, m⟩ keyAllowed candidate)

section Block

variable {b : Blocks} {m : Mark} {v : Value} {tag : String} {column : Nat} {rest : List Char}

/-- A value whose tag is not plain sticks in its tag. -/
theorem sticks_of_not_isPlainTag (htag : ¬IsPlainTag tag) (v : Value) : Sticks (.tagged tag v) := by
  intro b m position keyAllowed candidate indent inMapping rest hready _ _
  rw [writeBlock, List.append_assoc, List.append_assoc]
  obtain ⟨m₁, -, hgap⟩ := hready.reaches_gap (startsToken_tagText tag
    (v.writeBlock .afterKey indent inMapping ++ rest))
  exact (stuck_tag htag _).of_reaches hgap

/-- A tag, and a node after it in which the scanner gets stuck. -/
theorem Sticks.tagged (htag : IsPlainTag tag) (h : Sticks v) : Sticks (.tagged tag v) := by
  intro b m position keyAllowed candidate indent inMapping rest hready hindent hroot
  have hends : endsWord (v.writeBlock .afterKey indent inMapping ++ rest) = true :=
    endsWord_writeBlock v (by decide) indent inMapping _
  obtain ⟨m₁, candidate₁, hready', htagged⟩ := hready.reaches_tag htag hends
  rw [writeBlock, List.append_assoc, List.append_assoc]
  exact (h indent inMapping rest hready' hindent hroot).of_reaches htagged

/-- The scanner comes to the first element of a collection that it cannot read. -/
theorem stuck_lines {α : Type} {start : Token} {text : α → List Char} {ts : α → List Token}
    {l : List α} (good : α → Prop) (hbad : ∃ a ∈ l, ¬good a)
    (hstart : ∀ a ∈ l, ∀ rest, startsToken (text a ++ rest) = true)
    (hstep : ∀ a ∈ l, good a → ∀ {b : Blocks} {m : Mark} {tail : List Char} {k : Int},
      b.indent ≤ column → m.column = column → Follows k tail → k ≤ column →
      ∃ m' : Mark, m'.column = k.toNat ∧
        Reaches (inBlock b ⟨text a ++ (List.replicate k.toNat ' ' ++ tail), m⟩ true none)
          (inBlock (((b.openAt column start).add (ts a)).close k) ⟨tail, m'⟩ true none))
    (hstuck : ∀ a ∈ l, ¬good a → ∀ {b : Blocks} {m : Mark} (rest : List Char),
      b.indent ≤ column → m.column = column →
      Stuck (inBlock b ⟨text a ++ rest, m⟩ true none))
    (hindent : b.indent ≤ column) (hcolumn : m.column = column) (rest : List Char) :
    Stuck (inBlock b ⟨lines column text l ++ rest, m⟩ true none) := by
  induction l generalizing b m with
  | nil =>
    obtain ⟨a, ha, -⟩ := hbad
    cases ha
  | cons a as ih =>
    by_cases hgood : good a
    · have hlater : ∃ a ∈ as, ¬good a := by
        obtain ⟨a', ha', hbad⟩ := hbad
        rcases List.mem_cons.1 ha' with rfl | ha'
        · exact absurd hgood hbad
        · exact ⟨a', ha', hbad⟩
      cases as with
      | nil =>
        obtain ⟨a, ha, -⟩ := hlater
        cases ha
      | cons a' as =>
        have hnext : Follows column (lines column text (a' :: as) ++ rest) := by
          refine .inr ⟨Int.natCast_nonneg _, ?_⟩
          rw [lines, List.append_assoc]
          exact hstart a' (List.mem_cons_of_mem a List.mem_cons_self) _
        obtain ⟨m₁, hm₁, hfirst⟩ :=
          hstep a List.mem_cons_self hgood hindent hcolumn hnext Int.le_rfl
        have hopen : ((b.openAt column start).add (ts a)).indent = column :=
          Blocks.indent_openAt hindent start
        rw [Blocks.close_of_le (Int.le_of_eq hopen)] at hfirst
        have hothers := ih hlater (fun a ha => hstart a (List.mem_cons_of_mem _ ha))
          (fun a ha => hstep a (List.mem_cons_of_mem _ ha))
          (fun a ha => hstuck a (List.mem_cons_of_mem _ ha)) (Int.le_of_eq hopen) hm₁
        have hlines : lines column text (a :: a' :: as) ++ rest =
            text a ++ (List.replicate (column : Int).toNat ' ' ++
              (lines column text (a' :: as) ++ rest)) := by
          simp [lines]
        rw [hlines]
        exact hothers.of_reaches hfirst
    · rw [lines, List.append_assoc]
      exact hstuck a List.mem_cons_self hgood _ hindent hcolumn

/-- An item in which the scanner gets stuck. -/
theorem Sticks.stuck_item (h : Sticks v) (hindent : b.indent ≤ column) (hcolumn : m.column = column)
    (rest : List Char) : Stuck (inBlock b ⟨itemText column v ++ rest, m⟩ true none) := by
  subst hcolumn
  have hends : endsWord (v.writeBlock .afterIndicator (some m.column) false ++ rest) = true :=
    endsWord_writeBlock v (by decide) _ _ _
  have hopen := Blocks.indent_openAt hindent .blockSequenceStart
  exact (h (some m.column) false rest (ready_openAt .blockSequenceStart .blockEntry hindent) hopen
    nofun).of_reaches (reaches_blockEntry hends hindent)

/-- A collection stands no further to the left than what is around it. -/
theorem le_collectionColumn {indent : Option Nat} (hindent : b.indent = outerColumn indent)
    (position : Position) (stays : Bool) : b.indent ≤ collectionColumn position indent stays := by
  rw [hindent]
  cases indent with
  | none => simp [collectionColumn, outerColumn]
  | some i =>
    simp only [collectionColumn, outerColumn, Option.elim_some]
    split_ifs <;> omega

/-- A block sequence with an item in which the scanner gets stuck. -/
theorem sticks_sequence {items : List Value} (hbad : ∃ v ∈ items, ¬v.IsLegible)
    (h : ∀ v ∈ items, ¬v.IsLegible → Sticks v) : Sticks (.sequence items) := by
  intro b m position keyAllowed candidate indent inMapping rest hready hindent hroot
  cases items with
  | nil =>
    obtain ⟨v, hv, -⟩ := hbad
    cases hv
  | cons v vs =>
    have hwrite : (Value.sequence (v :: vs)).writeBlock position indent inMapping =
        position.lead (collectionColumn position indent inMapping) ++
          lines (collectionColumn position indent inMapping)
            (itemText (collectionColumn position indent inMapping)) (v :: vs) := by
      rw [← writeItems_eq_lines]
      cases indent <;> simp only [writeBlock, collectionColumn]
    have hstart : startsToken (lines (collectionColumn position indent inMapping)
        (itemText (collectionColumn position indent inMapping)) (v :: vs) ++ rest) = true :=
      startsToken_cons.2 (by decide)
    obtain ⟨m₁, hm₁, hlead⟩ := hready.reaches_lead hindent inMapping hstart
    rw [hwrite, List.append_assoc]
    refine (stuck_lines IsLegible hbad (fun v _ rest => startsToken_cons.2 (by decide))
      (fun v _ hv => Scans.reaches_item hv.scans) (fun v hv hbad _ _ rest hi hc => ?_)
      (le_collectionColumn hindent position inMapping) hm₁ rest).of_reaches hlead
    exact Sticks.stuck_item (h v hv hbad) hi hc rest

/-! ### Entries -/

/-- A short key without a tag is legible. -/
theorem isLegible_of_untagged? {key : List Char} {size : Nat} (hv : v.IsProper)
    (h : shortKey?.untagged? v = some (key, size)) : v.IsLegible := by
  cases hv with
  | null => exact .null
  | bool b => exact .bool b
  | number hn => exact .number hn
  | string s => exact .string s
  | @sequence items hitems =>
    cases items with
    | nil => exact .sequence (List.forall_mem_nil _)
    | cons => cases h
  | @mapping entries hkeys hvalues hdistinct =>
    cases entries with
    | nil => exact .mapping (List.forall_mem_nil _) (List.forall_mem_nil _) .nil
    | cons => cases h
  | tagged => cases h

/-- A short key is legible, or it begins with a tag at which the scanner gets stuck. -/
theorem shortKey_cases {key : List Char} (hv : v.IsProper) (h : shortKey? v = some key) :
    v.IsLegible ∨ ∃ tag text, ¬IsPlainTag tag ∧ key = tagText tag ++ text := by
  rcases shortKey?_cases h with ⟨size, -, huntagged⟩ | ⟨tag, w, text, size, rfl, huntagged, -, rfl⟩
  · exact .inl (isLegible_of_untagged? hv huntagged)
  · cases hv with
    | tagged hw =>
      by_cases htag : IsPlainTag tag
      · exact .inl (.tagged htag (isLegible_of_untagged? hw huntagged))
      · exact .inr ⟨tag, _, htag, rfl⟩

/-- The text of an entry with a proper key starts a token. -/
theorem startsToken_entryText_of_isProper {e : Value × Value} (he : e.1.IsProper) (column : Nat)
    (rest : List Char) : startsToken (entryText column e ++ rest) = true := by
  cases h : shortKey? e.1 with
  | none =>
    simp only [entryText, h]
    exact startsToken_cons.2 (by decide)
  | some key =>
    rcases shortKey_cases he h with hkey | ⟨tag, text, -, rfl⟩
    · exact startsToken_entryText hkey column rest
    · simp only [entryText, h, List.append_assoc]
      exact startsToken_tagText tag _

/-- An entry in which the scanner gets stuck, at its key or at its value. -/
theorem stuck_entry {e : Value × Value} (hproper : e.1.IsProper)
    (hbad : ¬(e.1.IsLegible ∧ e.2.IsLegible)) (hkey : ¬e.1.IsLegible → Sticks e.1)
    (hvalue : ¬e.2.IsLegible → Sticks e.2) (hindent : b.indent ≤ column)
    (hcolumn : m.column = column) (rest : List Char) :
    Stuck (inBlock b ⟨entryText column e ++ rest, m⟩ true none) := by
  subst hcolumn
  have hopen := Blocks.indent_openAt hindent .blockMappingStart
  have hends (position : Position) (hposition : position ≠ .lineStart) (v : Value)
      (rest : List Char) :
      endsWord (v.writeBlock position (some m.column) true ++ rest) = true :=
    endsWord_writeBlock v hposition _ _ _
  cases hshort : shortKey? e.1 with
  | some key =>
    simp only [entryText, hshort, List.append_assoc, List.cons_append]
    rcases shortKey_cases hproper hshort with hlegible | ⟨tag, text, htag, rfl⟩
    · have hsticks : Sticks e.2 := hvalue fun h => hbad ⟨hlegible, h⟩
      obtain ⟨m₁, hready, hcolon⟩ :=
        reaches_shortColon hlegible hshort (hends .afterKey (by decide) e.2 rest) hindent
      exact (hsticks (some m.column) true rest hready hopen
        fun _ => Option.some_ne_none _).of_reaches hcolon
    · rw [List.append_assoc]
      exact stuck_tag htag _
  | none =>
    simp only [entryText, hshort, List.append_assoc, List.cons_append]
    by_cases hlegible : e.1.IsLegible
    · have hsticks : Sticks e.2 := hvalue fun h => hbad ⟨hlegible, h⟩
      obtain ⟨m₁, hready, hcolon⟩ := Scans.reaches_longColon hlegible.scans
        (hends .afterIndicator (by decide) e.2 rest) hindent
      exact (hsticks (some m.column) true rest hready hopen
        fun _ => Option.some_ne_none _).of_reaches hcolon
    · have hready := ready_openAt .blockMappingStart .key hindent
      exact (hkey hlegible (some m.column) true _ hready hopen fun _ => Option.some_ne_none _)
        |>.of_reaches (reaches_key (hends .afterIndicator (by decide) e.1 _) hindent)

/-- A block mapping with an entry in which the scanner gets stuck. -/
theorem sticks_mapping {entries : Entries} (hproper : ∀ e ∈ entries, e.1.IsProper)
    (hbad : ∃ e ∈ entries, ¬(e.1.IsLegible ∧ e.2.IsLegible))
    (hkeys : ∀ e ∈ entries, ¬e.1.IsLegible → Sticks e.1)
    (hvalues : ∀ e ∈ entries, ¬e.2.IsLegible → Sticks e.2) : Sticks (.mapping entries) := by
  intro b m position keyAllowed candidate indent inMapping rest hready hindent hroot
  cases entries with
  | nil =>
    obtain ⟨e, he, -⟩ := hbad
    cases he
  | cons e es =>
    have hwrite : (Value.mapping (e :: es)).writeBlock position indent inMapping =
        position.lead (collectionColumn position indent false) ++
          lines (collectionColumn position indent false)
            (entryText (collectionColumn position indent false)) (e :: es) := by
      rw [← writeEntries_eq_lines]
      cases indent <;> simp [writeBlock, collectionColumn]
    have hstart : startsToken (lines (collectionColumn position indent false)
        (entryText (collectionColumn position indent false)) (e :: es) ++ rest) = true := by
      rw [lines, List.append_assoc]
      exact startsToken_entryText_of_isProper (hproper e List.mem_cons_self) _ _
    obtain ⟨m₁, hm₁, hlead⟩ := hready.reaches_lead hindent false hstart
    rw [hwrite, List.append_assoc]
    refine (stuck_lines (fun e => e.1.IsLegible ∧ e.2.IsLegible) hbad
      (fun e he rest => startsToken_entryText_of_isProper (hproper e he) _ rest)
      (fun e _ he => reaches_entry he.1 he.2.scans he.1.scans) (fun e he hbad _ _ rest hi hc => ?_)
      (le_collectionColumn hindent position false) hm₁ rest).of_reaches hlead
    exact stuck_entry (hproper e he) hbad (hkeys e he) (hvalues e he) hi hc rest

end Block

/-- The scanner gets stuck in a value that can be read but is not legible. -/
theorem IsProper.sticks {v : Value} (hv : v.IsProper) (h : ¬v.IsLegible) : Sticks v := by
  induction hv with
  | null => exact absurd .null h
  | bool b => exact absurd (.bool b) h
  | number hn => exact absurd (.number hn) h
  | string s => exact absurd (.string s) h
  | @sequence items _ ih =>
    refine sticks_sequence ?_ ih
    by_contra hnone
    exact h (.sequence fun v hv => by_contra fun hbad => hnone ⟨v, hv, hbad⟩)
  | @mapping entries hproper _ hdistinct ihkeys ihvalues =>
    refine sticks_mapping hproper ?_ ihkeys ihvalues
    by_contra hnone
    have hlegible : ∀ e ∈ entries, e.1.IsLegible ∧ e.2.IsLegible :=
      fun e he => by_contra fun hbad => hnone ⟨e, he, hbad⟩
    exact h (.mapping (fun e he => (hlegible e he).1) (fun e he => (hlegible e he).2) hdistinct)
  | @tagged tag v _ ih =>
    by_cases htag : IsPlainTag tag
    · exact Sticks.tagged htag (ih fun hv => h (.tagged htag hv))
    · exact sticks_of_not_isPlainTag htag v

/-- A value that can be read but is not legible is written to a text that is no document. -/
theorem IsProper.ofText?_eq_none {v : Value} (hv : v.IsProper) (h : ¬v.IsLegible) {text : String}
    (hwrite : v.write? = some text) : Document.ofText? text = none := by
  have hready : Ready .start .start .lineStart true none := .lineStart rfl rfl
  have hstuck := hv.sticks h none false [] hready rfl nofun
  have htokens : Token.ofText? (v.writeBlock .lineStart none false) = none := by
    rw [List.append_nil] at hstuck
    rw [Token.ofText?]
    split_ifs
    · exact hstuck _ (Nat.lt_succ_self _)
    · rfl
  obtain ⟨-, rfl⟩ := write?_eq_some_iff.1 hwrite
  rw [Document.ofText?, String.toList_ofList, htokens]
  rfl

end Value

end Rollout.Yaml
