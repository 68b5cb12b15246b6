import Rollout.Proofs.Yaml.Scanning
import Rollout.Yaml.Value.Write

/-!
# The texts of tags

A tag is written as its octets, with those escaped that do not stand for themselves, and it is
scanned as these octets again (`reaches_tag`). An escape stands for an octet while the scanner
counts escaped characters, so the reading goes by the characters that the octets encode.

The writer leaves commas and brackets as they are, but the scanner only takes them in angle
brackets. A tag without them is `IsPlainTag`.
-/

namespace Rollout.Yaml

open Scanner Text

/-- A tag without commas and brackets. -/
def IsPlainTag (name : String) : Prop := ∀ c ∈ name.toList, c ∉ ",[]".toList

-- Going through the characters of the name, and not through all that there are.
instance (name : String) : Decidable (IsPlainTag name) :=
  List.decidableBAll (fun c => c ∉ ",[]".toList) name.toList

/-- An octet of a tag as it is written. -/
def octetText (b : UInt8) : List Char :=
  if isPlainTagOctet b then [Char.ofNat b.toNat] else Percent.escape b

/-- What the texts of octets look like. -/
theorem octetText_spec (b : UInt8) :
    (∀ c ∈ octetText b, c ≠ '!' ∧ c ≠ '<' ∧ isAllowed c = true) ∧
      Percent.hexValue (Percent.hexDigit (b.toNat / 16)) = some (b.toNat / 16) ∧
      Percent.hexValue (Percent.hexDigit (b.toNat % 16)) = some (b.toNat % 16) ∧
      (isPlainTagOctet b = true → b.toNat < 128 ∧ Char.ofNat b.toNat ≠ '%' ∧
        (Char.ofNat b.toNat).toNat = b.toNat ∧
        (Char.ofNat b.toNat ∈ ",[]".toList ∨ isTagChar false (Char.ofNat b.toNat) = true)) := by
  have table : ∀ n : Fin 256,
      ((octetText (UInt8.ofNat n)).all fun c => c != '!' && (c != '<' && isAllowed c)) = true ∧
        Percent.hexValue (Percent.hexDigit (n.val / 16)) = some (n.val / 16) ∧
        Percent.hexValue (Percent.hexDigit (n.val % 16)) = some (n.val % 16) ∧
        (isPlainTagOctet (UInt8.ofNat n) = true → n.val < 128 ∧ Char.ofNat n ≠ '%' ∧
          (Char.ofNat n).toNat = n.val ∧
          (Char.ofNat n ∈ ",[]".toList ∨ isTagChar false (Char.ofNat n) = true)) := by
    decide +kernel
  simpa using table ⟨b.toNat, b.toNat_lt⟩

/-! ## Escaped characters -/

/-- An escaped octet is read back. -/
theorem escapedOctet?_escape (b : UInt8) (cs : List Char) :
    escapedOctet? (Percent.escape b ++ cs) = some (b.toNat, cs) := by
  obtain ⟨-, hhigh, hlow, -⟩ := octetText_spec b
  have hsum : 16 * (b.toNat / 16) + b.toNat % 16 = b.toNat := Nat.div_add_mod _ _
  simp [Percent.escape, escapedOctet?, hhigh, hlow, hsum]

/-- The further octets of a character are read back. -/
theorem further_escape {bs : List UInt8} (h : ∀ b ∈ bs, b.toNat / 64 = 2) (cs : List Char) :
    escapedChar?.further bs.length (bs.flatMap Percent.escape ++ cs) =
      some (bs.map UInt8.toNat, cs) := by
  induction bs with
  | nil => rfl
  | cons b bs ih =>
    obtain ⟨hb, hbs⟩ := List.forall_mem_cons.1 h
    simp [escapedChar?.further, escapedOctet?_escape, hb, ih hbs]

/-- The octets of one character: what the first one tells about the number of those after it. -/
structure IsEncoded (b : UInt8) (bs : List UInt8) : Prop where
  count : b.toNat < 0x80 ∧ bs.length = 0 ∨ b.toNat / 32 = 6 ∧ bs.length = 1 ∨
    b.toNat / 16 = 14 ∧ bs.length = 2 ∨ b.toNat / 8 = 30 ∧ bs.length = 3
  more : ∀ b ∈ bs, b.toNat / 64 = 2

/-- The octets of a character are encoded as the scanner expects it, and a single one is its
code. -/
theorem exists_utf8EncodeChar (c : Char) :
    ∃ b bs, String.utf8EncodeChar c = b :: bs ∧ IsEncoded b bs ∧
      (bs = [] → Char.ofNat b.toNat = c) := by
  rw [String.utf8EncodeChar]
  have hc : c.val.toNat < 0x110000 := by
    have := c.valid
    simp only [UInt32.isValidChar, Nat.isValidChar] at this
    omega
  split_ifs with h
  · have hb : (UInt8.ofNat c.val.toNat).toNat = c.toNat :=
      UInt8.toNat_ofNat_of_lt' (Nat.lt_of_le_of_lt h (by decide))
    exact ⟨_, _, rfl, ⟨.inl ⟨hb ▸ Nat.lt_succ_of_le h, rfl⟩, by simp⟩, fun _ => by
      rw [hb, Char.ofNat_toNat]⟩
  · exact ⟨_, _, rfl, ⟨.inr (.inl ⟨by simp; omega, rfl⟩), by simp; omega⟩, by simp⟩
  · exact ⟨_, _, rfl, ⟨.inr (.inr (.inl ⟨by simp; omega, rfl⟩)), by simp; omega⟩, by simp⟩
  · exact ⟨_, _, rfl, ⟨.inr (.inr (.inr ⟨by simp; omega, rfl⟩)), by simp; omega⟩, by simp⟩

/-- The octets of an escaped character are read back together. -/
theorem escapedChar?_escape {b : UInt8} {bs : List UInt8} (h : IsEncoded b bs) (cs : List Char) :
    escapedChar? (Percent.escape b ++ (bs.flatMap Percent.escape ++ cs)) =
      some (b.toNat :: bs.map UInt8.toNat, cs) := by
  have hmore (n : Nat) (hn : bs.length = n) :
      escapedChar?.further n (bs.flatMap Percent.escape ++ cs) = some (bs.map UInt8.toNat, cs) :=
    hn ▸ further_escape h.more cs
  rcases h.count with ⟨hb, hn⟩ | ⟨hb, hn⟩ | ⟨hb, hn⟩ | ⟨hb, hn⟩
  · simp [escapedChar?, escapedOctet?_escape, hmore _ hn, hb]
  · have h₁ : ¬b.toNat < 128 := by omega
    simp [escapedChar?, escapedOctet?_escape, hmore _ hn, hb, h₁]
  · have h₁ : ¬b.toNat < 128 ∧ b.toNat / 32 ≠ 6 := by omega
    simp [escapedChar?, escapedOctet?_escape, hmore _ hn, hb, h₁]
  · have h₁ : ¬b.toNat < 128 ∧ b.toNat / 32 ≠ 6 ∧ b.toNat / 16 ≠ 14 := by omega
    simp [escapedChar?, escapedOctet?_escape, hmore _ hn, hb, h₁]

/-- An octet beyond ASCII is escaped in a tag. -/
theorem isPlainTagOctet_eq_false {b : UInt8} (h : 128 ≤ b.toNat) : isPlainTagOctet b = false := by
  rw [Bool.eq_false_iff]
  intro hplain
  have := ((octetText_spec b).2.2.2 hplain).1
  omega

/-- An escaped character of a tag is read, and then the rest of the tag. -/
theorem tagOctets?_escape {b : UInt8} {bs : List UInt8} (h : IsEncoded b bs) (fuel : Nat)
    (rest : List Char) (m : Mark) :
    tagOctets? (fuel + 1) false
        ⟨Percent.escape b ++ (bs.flatMap Percent.escape ++ rest), m⟩ =
      (tagOctets? fuel false ⟨rest, m.advance (3 * (b :: bs).length)⟩).map
        (Prod.map (b :: bs ++ ·) id) := by
  have hread := escapedChar?_escape h rest
  have hoctets : (b.toNat :: bs.map UInt8.toNat).map UInt8.ofNat = b :: bs := by
    simp [Function.comp_def]
  rw [tagOctets?.eq_def]
  simp only [Percent.escape, List.cons_append, List.nil_append] at hread ⊢
  simp only [hread, Option.bind_eq_bind, Option.bind_some, hoctets, List.length_cons,
    List.length_map]
  exact (Option.map_eq_bind ..).symm

/-- A character that stands for itself. -/
theorem tagOctets?_cons {c : Char} (hpercent : c ≠ '%') (htag : isTagChar false c = true)
    (fuel : Nat) (rest : List Char) (m : Mark) :
    tagOctets? (fuel + 1) false ⟨c :: rest, m⟩ =
      (tagOctets? fuel false ⟨rest, m.advance 1⟩).map
        (Prod.map (UInt8.ofNat c.toNat :: ·) id) := by
  rw [tagOctets?.eq_def]
  simp only [htag, if_true]
  exact (Option.map_eq_bind ..).symm

/-- A character of a tag takes one step, whether it is escaped or not. -/
theorem tagOctets?_char {c : Char} (hc : c ∉ ",[]".toList) (fuel : Nat) (rest : List Char)
    (m : Mark) :
    tagOctets? (fuel + 1) false
        ⟨(String.utf8EncodeChar c).flatMap octetText ++ rest, m⟩ =
      (tagOctets? fuel false
        ⟨rest, m.advance ((String.utf8EncodeChar c).flatMap octetText).length⟩).map
          (Prod.map (String.utf8EncodeChar c ++ ·) id) := by
  obtain ⟨b, bs, hencode, h, hascii⟩ := exists_utf8EncodeChar c
  rw [hencode]
  by_cases hplain : isPlainTagOctet b = true
  · -- a character that stands for itself
    obtain ⟨hlt, hpercent, hchar, hb⟩ := (octetText_spec b).2.2.2 hplain
    have hnil : bs = [] := List.eq_nil_of_length_eq_zero (by have := h.count; omega)
    subst hnil
    have htag := hb.resolve_left (hascii rfl ▸ hc)
    have htext : [b].flatMap octetText = [Char.ofNat b.toNat] := by simp [octetText, hplain]
    rw [htext]
    simpa [hchar] using tagOctets?_cons hpercent htag fuel rest m
  · -- an escaped one
    have hescaped : (b :: bs).flatMap octetText =
        Percent.escape b ++ bs.flatMap Percent.escape := by
      rw [List.flatMap_cons, octetText, if_neg hplain]
      congr 1
      refine List.flatMap_congr fun x hx => ?_
      rw [octetText, isPlainTagOctet_eq_false (by have := h.more x hx; omega), if_neg (by decide)]
    have hlength : (Percent.escape b ++ bs.flatMap Percent.escape).length =
        3 * (b :: bs).length := by
      simp [Percent.escape, List.length_flatMap]
      omega
    rw [hescaped, hlength, List.append_assoc, tagOctets?_escape h]

/-- The octets of a text as it stands in a document read back. -/
theorem tagOctets?_text {cs rest : List Char} {fuel : Nat} (hcs : ∀ c ∈ cs, c ∉ ",[]".toList)
    (hends : endsWord rest = true) (hfuel : cs.length ≤ fuel) (m : Mark) :
    tagOctets? fuel false ⟨(cs.flatMap String.utf8EncodeChar).flatMap octetText ++ rest, m⟩ =
      some (cs.flatMap String.utf8EncodeChar,
        ⟨rest, m.advance ((cs.flatMap String.utf8EncodeChar).flatMap octetText).length⟩) := by
  induction cs generalizing fuel m with
  | nil =>
    rw [tagOctets?.eq_def]
    cases fuel with
    | zero => rfl
    | succ fuel =>
      cases rest with
      | nil => rfl
      | cons c cs =>
        have hc : c ≠ '%' ∧ isTagChar false c = false := by
          simp only [endsWord, isGap, isBreak, Bool.or_eq_true, beq_iff_eq] at hends
          rcases hends with (rfl | rfl) | ((((rfl | rfl) | rfl) | rfl) | rfl) <;> decide
        simp [hc.1, hc.2]
  | cons c cs ih =>
    obtain ⟨hc, hcs⟩ := List.forall_mem_cons.1 hcs
    obtain ⟨fuel, rfl⟩ : ∃ n, fuel = n + 1 := ⟨fuel - 1, by simp at hfuel; omega⟩
    have hcs' := ih hcs (Nat.le_of_succ_le_succ hfuel)
    simp only [List.flatMap_cons, List.flatMap_append, List.append_assoc]
    rw [tagOctets?_char hc, hcs']
    simp

/-- The characters of a handle without its marks are read one by one. -/
theorem tagOctets?_word {word : List Char} (hword : ∀ c ∈ word, isWordChar c = true) (fuel : Nat)
    (rest : List Char) (m : Mark) :
    tagOctets? (word.length + fuel) false ⟨word ++ rest, m⟩ =
      (tagOctets? fuel false ⟨rest, m.advance word.length⟩).map
        (Prod.map (word.map (fun c => UInt8.ofNat c.toNat) ++ ·) id) := by
  induction word generalizing m with
  | nil =>
    rw [List.length_nil, Nat.zero_add]
    exact Option.map_id'.symm
  | cons c word ih =>
    obtain ⟨hc, hword⟩ := List.forall_mem_cons.1 hword
    have hpercent : c ≠ '%' := by rintro rfl; cases hc
    rw [List.cons_append, List.length_cons, Nat.add_right_comm,
      tagOctets?_cons hpercent (by simp [isTagChar, hc]), ih hword]
    simp only [Option.map_map, Mark.advance_advance, Nat.add_comm 1]
    rfl

/-! ## Tags as tokens -/

/-- The token of a local tag. -/
def tagToken (name : String) : Token :=
  if (tagOctets name).isEmpty then .tag [] [33] else .tag ['!'] (tagOctets name)

/-- The octets of a text are those of its characters. -/
theorem octets_eq (s : String) : Percent.octets s = s.toList.flatMap String.utf8EncodeChar := by
  rw [Percent.octets, String.toUTF8_eq_toByteArray, ← String.utf8Encode_toList, List.utf8Encode,
    List.toList_data_toByteArray]

/-- The octets of a tag are those of some of its characters. -/
theorem exists_tagOctets (name : String) :
    ∃ cs : List Char, tagOctets name = cs.flatMap String.utf8EncodeChar ∧
      ∀ c ∈ cs, c ∈ name.toList := by
  rw [tagOctets, octets_eq]
  cases name.toList with
  | nil => exact ⟨[], rfl, List.forall_mem_nil _⟩
  | cons c cs =>
    obtain ⟨b, bs, hencode, h, -⟩ := exists_utf8EncodeChar c
    by_cases hb : b = 33
    · subst hb
      have hnil : bs = [] := List.eq_nil_of_length_eq_zero (by simpa using h.count)
      refine ⟨cs, ?_, fun d hd => List.mem_cons_of_mem c hd⟩
      rw [List.flatMap_cons, hencode, hnil]
      rfl
    · refine ⟨c :: cs, ?_, fun d hd => hd⟩
      rw [List.flatMap_cons, hencode]
      simp [hb]

/-- A list is no longer than the pieces that its members give, if none of them is empty. -/
theorem length_le_length_flatMap {α β : Type} {f : α → List β} (hf : ∀ a, f a ≠ []) (l : List α) :
    l.length ≤ (l.flatMap f).length := by
  induction l with
  | nil => exact Nat.le_refl _
  | cons a l ih =>
    have ha := List.length_pos_iff.2 (hf a)
    rw [List.flatMap_cons, List.length_append, List.length_cons]
    omega

/-- An octet of a tag is written with some character. -/
theorem octetText_ne_nil (b : UInt8) : octetText b ≠ [] := by
  rw [octetText]
  split_ifs <;> simp [Percent.escape]

/-- The text of a tag, with the empty one spelled out. -/
theorem tagText_eq (name : String) :
    tagText name = if (tagOctets name).isEmpty then "!<%21>".toList
      else '!' :: (tagOctets name).flatMap octetText := rfl

section Block

variable {b : Blocks} {m : Mark} {keyAllowed : Bool} {candidate candidate' : Option KeyCandidate}
  {name : String} {rest : List Char}

/-- A handle that is not closed by another exclamation mark. -/
theorem tagHandle?_word {word : List Char} (hword : ∀ c ∈ word, isWordChar c = true)
    (hrest : ∀ c ∈ rest.head?, isWordChar c = false ∧ c ≠ '!') :
    tagHandle? ⟨'!' :: (word ++ rest), m⟩ false =
      some ('!' :: word, ⟨rest, m.advance (word.length + 1)⟩) := by
  have htake : (word ++ rest).takeWhile isWordChar = word := by
    rw [List.takeWhile_append_of_pos hword]
    cases rest with
    | nil => simp
    | cons c cs => simp [(hrest c rfl).1]
  have hspan : Cursor.span ⟨word ++ rest, m.advance 1⟩ isWordChar =
      (word, ⟨rest, m.advance (word.length + 1)⟩) := by
    simp [Cursor.span, htake, Cursor.advance, Nat.add_comm]
  have hcursor : (Cursor.mk ('!' :: (word ++ rest)) m).advance 1 =
      ⟨word ++ rest, m.advance 1⟩ := rfl
  rw [tagHandle?]
  simp only [hcursor, hspan]
  split
  · exact absurd rfl (hrest _ rfl).2
  · rfl

/-- The texts of octets hold no character that a tag begins with. -/
theorem ne_of_mem_octetTexts {octets : List UInt8} {c : Char}
    (h : c ∈ octets.flatMap octetText) : c ≠ '!' ∧ c ≠ '<' := by
  obtain ⟨x, -, hx⟩ := List.mem_flatMap.1 h
  exact ⟨((octetText_spec x).1 c hx).1, ((octetText_spec x).1 c hx).2.1⟩

/-- The texts of octets begin with a word, which what follows it does not turn into a handle. -/
theorem exists_word (octets : List UInt8) (hends : endsWord rest = true) :
    ∃ word body, octets.flatMap octetText = word ++ body ∧ (∀ c ∈ word, isWordChar c = true) ∧
      ∀ c ∈ (body ++ rest).head?, isWordChar c = false ∧ c ≠ '!' := by
  have hmem : ∀ c ∈ octets.flatMap octetText, c ≠ '!' := fun c hc => (ne_of_mem_octetTexts hc).1
  have hhead := List.head?_dropWhile_not isWordChar (octets.flatMap octetText)
  have hsplit := (octets.flatMap octetText).takeWhile_append_dropWhile (p := isWordChar)
  refine ⟨_, _, hsplit.symm, List.all_eq_true.1 List.all_takeWhile, ?_⟩
  generalize (octets.flatMap octetText).dropWhile isWordChar = body at *
  cases body with
  | nil =>
    cases rest with
    | nil => simp
    | cons c cs =>
      simp only [endsWord, isGap, isBreak, Bool.or_eq_true, beq_iff_eq] at hends
      rintro d ⟨⟩
      rcases hends with (rfl | rfl) | ((((rfl | rfl) | rfl) | rfl) | rfl) <;> decide
  | cons c cs =>
    rintro d ⟨⟩
    refine ⟨hhead, hmem c ?_⟩
    rw [← hsplit]
    exact List.mem_append_right _ List.mem_cons_self

/-- A tag with a text after its exclamation mark. -/
theorem tag?_octets {octets : List UInt8} (hne : octets ≠ []) (hends : endsWord rest = true)
    (hread : ∀ (n : Nat) (m : Mark), octets.length ≤ n →
      tagOctets? n false ⟨octets.flatMap octetText ++ rest, m⟩ =
        some (octets, ⟨rest, m.advance (octets.flatMap octetText).length⟩))
    (hallowed : keyAllowed = true → candidate = none) :
    (inBlock b ⟨'!' :: (octets.flatMap octetText ++ rest), m⟩ keyAllowed candidate).tag? =
      some (inBlock (b.add [.tag ['!'] octets])
        ⟨rest, m.advance ('!' :: octets.flatMap octetText).length⟩ false
        (offer b m keyAllowed candidate)) := by
  have hmem : ∀ c ∈ octets.flatMap octetText, c ≠ '!' ∧ c ≠ '<' :=
    fun c hc => ne_of_mem_octetTexts hc
  have hle : octets.length ≤ (octets.flatMap octetText).length :=
    length_le_length_flatMap octetText_ne_nil octets
  rw [tag?, offerCandidate?_inBlock hallowed]
  simp only [Option.bind_eq_bind, Option.bind_some, cursor_inBlock]
  -- the handle takes the word at the start of the octets
  obtain ⟨word, body', hsplit, hword, hrest⟩ := exists_word octets hends
  generalize octets.flatMap octetText = body at *
  have hhandle := tagHandle?_word (m := m) hword hrest
  have hlength : octets.length ≤ word.length + (body' ++ rest).length := by
    simp [hsplit] at hle ⊢
    omega
  have hoctets := hread (word.length + (body' ++ rest).length) (m.advance 1) hlength
  rw [hsplit, List.append_assoc, tagOctets?_word hword] at hoctets
  obtain ⟨⟨more, c⟩, hmore, heq⟩ := Option.map_eq_some_iff.1 hoctets
  obtain ⟨hsuffix, rfl⟩ : word.map (fun c => UInt8.ofNat c.toNat) ++ more = octets ∧ _ :=
    Prod.mk.inj heq
  have hword' : ∀ c ∈ word, c ≠ '!' := fun c hc => (hmem c (by simp [hsplit, hc])).1
  have hlast : (decide (1 < ('!' :: word).length) &&
      decide (('!' :: word).getLast? = some '!')) = false := by
    cases word with
    | nil => rfl
    | cons c cs =>
      have : (c :: cs).getLast? ≠ some '!' := fun h => hword' _ (List.mem_of_getLast? h) rfl
      simp [this]
  simp only [hsplit, List.append_assoc]
  split
  · next heq =>
    obtain ⟨c, cs, hcs⟩ := List.exists_cons_of_length_pos
      (Nat.lt_of_lt_of_le (List.length_pos_iff.2 hne) hle)
    rw [← List.append_assoc, ← hsplit, hcs] at heq
    obtain ⟨rfl, -⟩ : c = '<' ∧ _ := by simpa using heq
    exact absurd rfl (hmem '<' (by simp [hcs])).2
  · simp only [Mark.advance_advance, Nat.add_comm 1] at hmore
    simp only [hhandle, Option.bind_some, hlast, Bool.false_eq_true, if_false, hmore,
      List.tail_cons, hsuffix]
    simp [hne, hends]
    rfl

/-- The tag of a lone exclamation mark, in angle brackets. -/
theorem tag?_mark (hends : endsWord rest = true) (hallowed : keyAllowed = true → candidate = none) :
    (inBlock b ⟨"!<%21>".toList ++ rest, m⟩ keyAllowed candidate).tag? =
      some (inBlock (b.add [.tag [] [33]]) ⟨rest, m.advance 6⟩ false
        (offer b m keyAllowed candidate)) := by
  have hread : tagText? true ⟨"%21>".toList ++ rest, m.advance 2⟩ =
      some ([33], ⟨'>' :: rest, (m.advance 2).advance 3⟩) := rfl
  have hcursor : (Cursor.mk ("!<%21>".toList ++ rest) m).advance 2 =
      ⟨"%21>".toList ++ rest, m.advance 2⟩ := rfl
  rw [tag?, offerCandidate?_inBlock hallowed]
  simp only [Option.bind_eq_bind, Option.bind_some, cursor_inBlock]
  split
  · simp only [hcursor, hread, Option.bind_some]
    simp [Cursor.advance, hends]
    rfl
  · next h => exact absurd rfl (h _)

/-- A local tag. -/
theorem tag?_inBlock (hname : IsPlainTag name) (hends : endsWord rest = true)
    (hallowed : keyAllowed = true → candidate = none) :
    (inBlock b ⟨tagText name ++ rest, m⟩ keyAllowed candidate).tag? =
      some (inBlock (b.add [tagToken name]) ⟨rest, m.advance (tagText name).length⟩ false
        (offer b m keyAllowed candidate)) := by
  rw [tagText_eq, tagToken]
  split_ifs with hnil
  · exact tag?_mark hends hallowed
  · obtain ⟨cs, hcs, hmem⟩ := exists_tagOctets name
    have hlength := length_le_length_flatMap (f := String.utf8EncodeChar)
      (fun _ => String.utf8EncodeChar_ne_nil) cs
    refine tag?_octets (by simpa using hnil) hends (fun n m hn => ?_) hallowed
    rw [hcs] at hn ⊢
    exact tagOctets?_text (fun c hc => hname c (hmem c hc)) hends (by omega) m

/-- The text of a tag starts with an exclamation mark. -/
theorem exists_tagText_eq (name : String) : ∃ cs, tagText name = '!' :: cs := by
  rw [tagText]
  split_ifs
  · exact ⟨_, rfl⟩
  · exact ⟨_, rfl⟩

/-- A local tag is one token. -/
theorem reaches_tag (hname : IsPlainTag name) (hends : endsWord rest = true)
    (hcolumn : b.indent ≤ m.column) (hdrop : refresh? m candidate = some candidate')
    (hallowed : keyAllowed = true → candidate' = none) :
    Reaches (inBlock b ⟨tagText name ++ rest, m⟩ keyAllowed candidate)
      (inBlock (b.add [tagToken name]) ⟨rest, m.advance (tagText name).length⟩ false
        (offer b m keyAllowed candidate')) := by
  obtain ⟨cs, hcs⟩ := exists_tagText_eq name
  have htag := tag?_inBlock (b := b) (m := m) hname hends hallowed
  rw [hcs, List.cons_append] at htag ⊢
  have htoken (s : Scanner) (cs : List Char) : s.token? '!' cs = s.tag? := by
    simp [token?, atDocumentMark]
  exact reaches_token (startsToken_cons.2 (by decide)) hcolumn hdrop ((htoken _ _).trans htag)
    (by simp)

/-- The text of a tag starts a token. -/
theorem startsToken_tagText (name : String) (rest : List Char) :
    startsToken (tagText name ++ rest) = true := by
  obtain ⟨cs, hcs⟩ := exists_tagText_eq name
  rw [hcs]
  exact startsToken_cons.2 (by decide)

/-- What the text of a tag is like. -/
theorem tagText_spec (name : String) :
    (tagText name).length ≤ 3 * (tagOctets name).length + 6 ∧
      ∀ c ∈ tagText name, isAllowed c = true := by
  have hlength (b : UInt8) : (octetText b).length ≤ 3 := by
    rw [octetText]
    split_ifs <;> simp [Percent.escape]
  have hsum (octets : List UInt8) : (octets.flatMap octetText).length ≤ 3 * octets.length := by
    induction octets with
    | nil => simp
    | cons b bs ih =>
      have := hlength b
      rw [List.flatMap_cons, List.length_append, List.length_cons]
      omega
  rw [tagText_eq]
  split_ifs
  · exact ⟨by simp, List.all_eq_true.1 (by decide)⟩
  · refine ⟨by have := hsum (tagOctets name); simp only [List.length_cons]; omega, ?_⟩
    refine List.forall_mem_cons.2 ⟨rfl, fun c hc => ?_⟩
    obtain ⟨b, -, hb⟩ := List.mem_flatMap.1 hc
    exact ((octetText_spec b).1 c hb).2.2

end Block

end Rollout.Yaml
