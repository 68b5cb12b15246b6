import Rollout.Bytes
import Rollout.Proofs.Text.Lowercase
import Rollout.Proofs.Text.Trimming
import Rollout.Terminal

/-!
# What confirms a question

A question is answered by the first line of the input (`FirstLine`), and by nothing that comes after
it. The answer has to be a text, and what is left of it between blanks has to be a yes (`IsYes`):
`y` or `yes` in ASCII letters of either case. Answers are compared in small letters, and there are
characters beyond ASCII with an ASCII small letter; but no such letter is in a yes. The main
statement is `ask_confirms_only_yes`.
-/

namespace Rollout.Terminal

open Text (isBlank Trims IsFormOf)

variable {input line : List UInt8} {answer : String} {c : Char} {cs word : List Char}

/-! ## The first line -/

/-- The first line of some octets: those up to and including the first line feed, or all of them if
there is none. -/
inductive FirstLine : List UInt8 → List UInt8 → Prop
  | ended {line : List UInt8} (no_feed : 10 ∉ line) (rest : List UInt8) :
    FirstLine (line ++ 10 :: rest) (line ++ [10])
  | unended {line : List UInt8} (no_feed : 10 ∉ line) : FirstLine line line

/-- A line that ends with a line feed is the first line. -/
theorem firstLine_append (no_feed : 10 ∉ line) (rest : List UInt8) :
    firstLine (line ++ 10 :: rest) = line ++ [10] := by
  induction line with
  | nil => rfl
  | cons b line ih =>
    rw [List.mem_cons, not_or] at no_feed
    rw [List.cons_append, firstLine, if_neg (Ne.symm no_feed.1), ih no_feed.2, List.cons_append]

/-- An input without a line feed is its own first line. -/
theorem firstLine_of_notMem (no_feed : 10 ∉ line) : firstLine line = line := by
  induction line with
  | nil => rfl
  | cons b line ih =>
    rw [List.mem_cons, not_or] at no_feed
    rw [firstLine, if_neg (Ne.symm no_feed.1), ih no_feed.2]

/-- There is just one first line. -/
theorem firstLine_iff : FirstLine input line ↔ firstLine input = line := by
  constructor
  · rintro (⟨no_feed, rest⟩ | no_feed)
    · exact firstLine_append no_feed rest
    · exact firstLine_of_notMem no_feed
  · rintro rfl
    by_cases hfeed : 10 ∈ input
    · obtain ⟨before, rest, rfl, hbefore⟩ := List.eq_append_cons_of_mem hfeed
      rw [firstLine_append hbefore]
      exact .ended hbefore rest
    · rw [firstLine_of_notMem hfeed]
      exact .unended hfeed

/-! ## Words that mean yes -/

/-- The letter `y` or the word `yes`, in ASCII letters of either case. -/
inductive IsYes : List Char → Prop
  | letter {a : Char} (y : a = 'y' ∨ a = 'Y') : IsYes [a]
  | word {a b c : Char} (y : a = 'y' ∨ a = 'Y') (e : b = 'e' ∨ b = 'E') (s : c = 's' ∨ c = 'S') :
    IsYes [a, b, c]

/-- The letters that lowercase to `y`. -/
theorem isFormOf_y_iff : IsFormOf c 'y' ↔ c = 'y' ∨ c = 'Y' :=
  Text.isFormOf_iff rfl (by decide)

/-- The letters that lowercase to `e`. -/
theorem isFormOf_e_iff : IsFormOf c 'e' ↔ c = 'e' ∨ c = 'E' :=
  Text.isFormOf_iff rfl (by decide)

/-- The letters that lowercase to `s`. -/
theorem isFormOf_s_iff : IsFormOf c 's' ↔ c = 's' ∨ c = 'S' :=
  Text.isFormOf_iff rfl (by decide)

/-- The words with the small form of a yes are those in ASCII letters. -/
theorem lower_eq_yes_iff :
    Text.lower word = ['y'] ∨ Text.lower word = ['y', 'e', 's'] ↔ IsYes word := by
  rw [Text.lower_eq_iff (List.all_eq_true.1 rfl), Text.lower_eq_iff (List.all_eq_true.1 rfl)]
  simp only [List.forall₂_cons_right_iff, List.forall₂_nil_right_iff, isFormOf_y_iff,
    isFormOf_e_iff, isFormOf_s_iff]
  constructor
  · rintro (⟨a, _, ha, rfl, rfl⟩ | ⟨a, _, ha, ⟨b, _, hb, ⟨c, _, hc, rfl, rfl⟩, rfl⟩, rfl⟩)
    · exact .letter ha
    · exact .word ha hb hc
  · rintro (ha | ⟨ha, hb, hc⟩)
    · exact .inl ⟨_, _, ha, rfl, rfl⟩
    · exact .inr ⟨_, _, ha, ⟨_, _, hb, ⟨_, _, hc, rfl, rfl⟩, rfl⟩, rfl⟩

/-- An answer confirms a question if what is left of it between blanks is a yes. -/
theorem isConfirmation_iff :
    isConfirmation answer = true ↔ ∃ word, Trims answer.toList word ∧ IsYes word := by
  unfold isConfirmation
  rw [Bool.or_eq_true, decide_eq_true_eq, decide_eq_true_eq, lower_eq_yes_iff]
  simp only [Text.trims_iff, exists_eq_left']

/-- An answer that means yes is not empty. -/
theorem IsYes.ne_nil (h : IsYes word) : word ≠ [] := by
  cases h <;> exact List.cons_ne_nil _ _

/-- A yes is in ASCII. -/
theorem IsYes.lt_of_mem (h : IsYes word) (hc : c ∈ word) : c.toNat < 128 := by
  cases h with
  | letter y =>
    obtain rfl := List.mem_singleton.1 hc
    rcases y with rfl | rfl <;> decide
  | word y e s =>
    simp only [List.mem_cons, List.not_mem_nil, or_false] at hc
    rcases hc with rfl | rfl | rfl
    · rcases y with rfl | rfl <;> decide
    · rcases e with rfl | rfl <;> decide
    · rcases s with rfl | rfl <;> decide

/-- An answer with a letter beyond ASCII, or with nothing but blanks, does not confirm a
question. -/
theorem not_isConfirmation
    (h : (∃ c ∈ answer.toList, 128 ≤ c.toNat ∧ isBlank c = false) ∨
      ∀ c ∈ answer.toList, isBlank c = true) : isConfirmation answer = false := by
  rw [← Bool.not_eq_true, isConfirmation_iff]
  rintro ⟨word, htrims, hyes⟩
  rcases h with ⟨c, hc, hcode, hblank⟩ | hblank
  · have hlt : c.toNat < 128 := hyes.lt_of_mem (htrims.mem_of_not_blank hc hblank)
    omega
  · exact hyes.ne_nil (htrims.eq_nil_iff.2 hblank)

/-! ## Verdicts -/

/-- A first line that is a text is judged by what it says. -/
theorem verdict_of_text (h : FirstLine input answer.toUTF8.data.toList) :
    verdict input = if isConfirmation answer then .ok () else .error .stopped := by
  have hread : String.fromUTF8? ⟨(firstLine input).toArray⟩ = some answer := by
    rw [fromUTF8?_eq_some_iff, firstLine_iff.1 h]
  rw [verdict, hread]

/-- A first line that is no text is refused. -/
theorem verdict_of_not_text (h : ∀ answer : String, ¬FirstLine input answer.toUTF8.data.toList) :
    verdict input = .error .badText := by
  have hread : String.fromUTF8? ⟨(firstLine input).toArray⟩ = none := by
    refine Option.eq_none_iff_forall_ne_some.2 fun answer hanswer => h answer ?_
    rw [firstLine_iff, fromUTF8?_eq_some_iff.1 hanswer]
  rw [verdict, hread]

/-- An input is confirmed exactly if its first line is a text that confirms. -/
theorem verdict_eq_ok_iff : verdict input = .ok () ↔
    ∃ answer : String, FirstLine input answer.toUTF8.data.toList ∧
      isConfirmation answer = true := by
  constructor
  · intro hok
    by_cases htext : ∃ answer : String, FirstLine input answer.toUTF8.data.toList
    · obtain ⟨answer, hanswer⟩ := htext
      rw [verdict_of_text hanswer] at hok
      split at hok
      · next hconfirms => exact ⟨answer, hanswer, hconfirms⟩
      · cases hok
    · rw [verdict_of_not_text (not_exists.1 htext)] at hok
      cases hok
  · rintro ⟨answer, hanswer, hconfirms⟩
    rw [verdict_of_text hanswer, if_pos hconfirms]

/-- The answer at an interactive terminal is the verdict on its input. -/
theorem ask_fst {t : Terminal} (interactive : t.nonInteractive = false) :
    t.ask.1 = verdict t.input := by
  rw [ask, interactive]
  rfl

/-- A user who is asked confirms exactly if the first line of the input is a text that is `y` or
`yes` in ASCII letters of either case, with blanks around it or none. A text with a letter beyond
ASCII stops the run, and so does one of blanks alone, such as an empty line or the end of the input;
octets that are no text are refused. What comes after the first line does not matter. -/
theorem ask_confirms_only_yes (t : Terminal) (interactive : t.nonInteractive = false) :
    (t.ask.1 = .ok () ↔ ∃ (answer : String) (word : List Char),
      FirstLine t.input answer.toUTF8.data.toList ∧ Trims answer.toList word ∧ IsYes word) ∧
    (∀ answer : String, FirstLine t.input answer.toUTF8.data.toList →
      ((∃ c ∈ answer.toList, 128 ≤ c.toNat ∧ isBlank c = false) ∨
        ∀ c ∈ answer.toList, isBlank c = true) → t.ask.1 = .error .stopped) ∧
    ((∀ answer : String, ¬FirstLine t.input answer.toUTF8.data.toList) →
      t.ask.1 = .error .badText) ∧
    ∀ u : Terminal, u.nonInteractive = false →
      ∀ line, FirstLine t.input line → FirstLine u.input line → u.ask.1 = t.ask.1 := by
  rw [ask_fst interactive]
  refine ⟨?_, fun answer hline hno => ?_, verdict_of_not_text, fun u hu line ht hline => ?_⟩
  · rw [verdict_eq_ok_iff]
    simp only [isConfirmation_iff, exists_and_left]
  · rw [verdict_of_text hline, not_isConfirmation hno]
    rfl
  · rw [ask_fst hu, verdict, verdict, firstLine_iff.1 ht, firstLine_iff.1 hline]

/-- A yes with blanks around it confirms a question, whatever comes after its line. With a long s it
does not, nothing confirms at the end of the input, and a yes in the second line does not matter. -/
theorem ask_confirms_only_yes_sample :
    (ask { input := "\u00A0 YeS\r\nno\n".toUTF8.data.toList }).1 = .ok () ∧
      (ask { input := "yeſ\n".toUTF8.data.toList }).1 = .error .stopped ∧
      (ask { input := [] }).1 = .error .stopped ∧
      (ask { input := [0xFF, 10] }).1 =
        (ask { input := [0xFF, 10] ++ "yes\n".toUTF8.data.toList }).1 := by
  obtain ⟨hyes, -⟩ :=
    ask_confirms_only_yes { input := "\u00A0 YeS\r\nno\n".toUTF8.data.toList } rfl
  obtain ⟨-, hlong, -⟩ := ask_confirms_only_yes { input := "yeſ\n".toUTF8.data.toList } rfl
  obtain ⟨-, hend, -⟩ := ask_confirms_only_yes { input := [] } rfl
  obtain ⟨-, -, -, hrest⟩ :=
    ask_confirms_only_yes { input := [0xFF, 10] ++ "yes\n".toUTF8.data.toList } rfl
  refine ⟨hyes.2 ⟨"\u00A0 YeS\r\n", "YeS".toList, ?_, ?_, ?_⟩, hlong "yeſ\n" ?_ (.inl ?_),
    hend "" ?_ (.inr ?_), hrest { input := [0xFF, 10] } rfl [0xFF, 10] ?_ ?_⟩
  · exact firstLine_iff.2 (by decide +kernel)
  · exact Text.trims_iff.2 (by decide +kernel)
  · exact .word (.inr rfl) (.inl rfl) (.inr rfl)
  · exact firstLine_iff.2 (by decide +kernel)
  · exact ⟨'ſ', by decide +kernel, by decide, by decide⟩
  · exact firstLine_iff.2 (by decide +kernel)
  · exact List.forall_mem_nil _
  · exact firstLine_iff.2 (by decide +kernel)
  · exact firstLine_iff.2 (by decide +kernel)

end Rollout.Terminal
