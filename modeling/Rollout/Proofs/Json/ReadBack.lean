import Mathlib.Tactic.SplitIfs
import Rollout.Json.Value
import Rollout.Json.Write

/-!
# Written objects are read back

An object with texts as its members is read back from what is written for it, whatever characters
the texts are made of: a written string is scanned character by character (`scanString_escape`), the
members are scanned one after the other (`scanMembers_written`), and the steps that reading an
object may take are enough for all of them. The main statement is `ofText?_writeObject`.
-/

namespace Rollout.Json

variable {members : List (String × String)} {fuel : Nat}

/-! ## Strings -/

/-- The piece that a character in a written string is read as: a control character without an
escape of its own is written by its number. -/
def piece (c : Char) : Piece :=
  if c.toNat < 0x20 ∧ c ∉ ['\x08', '\x0c', '\n', '\r', '\t'] then .unit c.toNat else .char c

/-- The digits of a control character are read as the character. -/
theorem unit?_digitChar {n : Nat} (h : n < 0x20) :
    unit? '0' '0' (Nat.digitChar (n / 16)) (Nat.digitChar (n % 16)) = some n := by
  have table : ∀ n : Fin 32,
      unit? '0' '0' (Nat.digitChar (n.val / 16)) (Nat.digitChar (n.val % 16)) = some n.val := by
    decide
  exact table ⟨n, h⟩

/-- The character that stands after a backslash for another one. -/
theorem scanString_escaped {c e : Char} (he : escaped? e = some c) (cs : List Char) :
    scanString ('\\' :: e :: cs) =
      (scanString cs).map fun (ps, rest) => (.char c :: ps, rest) := by
  have hne : e ≠ 'u' := by
    rintro rfl
    cases he
  rw [scanString]
  · rw [he]
    cases scanString cs <;> rfl
  · intro _ _ _ _ _ heq
    exact absurd heq hne

/-- An escape of a control character is one piece. -/
theorem scanString_unit {n : Nat} (h : n < 0x20) (cs : List Char) :
    scanString ('\\' :: 'u' :: '0' :: '0' :: Nat.digitChar (n / 16) ::
        Nat.digitChar (n % 16) :: cs) =
      (scanString cs).map fun (ps, rest) => (.unit n :: ps, rest) := by
  rw [scanString, unit?_digitChar h]
  cases scanString cs <;> rfl

/-- A character that is no quote, no backslash and no control character is one piece. -/
theorem scanString_plain {c : Char} (hquote : c ≠ '"') (hbackslash : c ≠ '\\')
    (hcontrol : ¬c.toNat < 0x20) (cs : List Char) :
    scanString (c :: cs) = (scanString cs).map fun (ps, rest) => (.char c :: ps, rest) := by
  rw [scanString]
  · rw [if_neg (by simp [hcontrol, hbackslash])]
  · exact hquote
  · exact fun _ _ _ _ _ h => absurd h hbackslash
  · exact fun _ _ h => absurd h hbackslash

/-- Any other character than a control character is a piece by itself. -/
theorem piece_of_not_control {c : Char} (h : ¬c.toNat < 0x20) : piece c = .char c :=
  if_neg fun hcontrol => h hcontrol.1

/-- A written character is read as its piece. -/
theorem scanString_escape (c : Char) (cs : List Char) :
    scanString (escape c ++ cs) = (scanString cs).map fun (ps, rest) => (piece c :: ps, rest) := by
  unfold escape
  split_ifs with hquote hbackslash hb hf hn hr ht hcontrol
  · subst hquote
    exact scanString_escaped rfl cs
  · subst hbackslash
    exact scanString_escaped rfl cs
  · subst hb
    exact scanString_escaped rfl cs
  · subst hf
    exact scanString_escaped rfl cs
  · subst hn
    exact scanString_escaped rfl cs
  · subst hr
    exact scanString_escaped rfl cs
  · subst ht
    exact scanString_escaped rfl cs
  · have hpiece : piece c = .unit c.toNat := if_pos ⟨hcontrol, by simp [hb, hf, hn, hr, ht]⟩
    rw [hpiece]
    exact scanString_unit hcontrol cs
  · rw [piece_of_not_control hcontrol]
    exact scanString_plain hquote hbackslash hcontrol cs

/-- The escaped characters of a text are scanned up to the closing quote. -/
theorem scanString_flatMap_escape (cs rest : List Char) :
    scanString (cs.flatMap escape ++ '"' :: rest) = some (cs.map piece, rest) := by
  induction cs with
  | nil => rfl
  | cons c cs ih =>
    rw [List.flatMap_cons, List.append_assoc, scanString_escape, ih]
    rfl

/-- A unit that is no half of a surrogate pair is a character, whatever follows it. -/
theorem pieceChars_unit {n : Nat} (h : n < 0xD800) (ps : List Piece) :
    pieceChars (.unit n :: ps) = (pieceChars ps).map (Char.ofNat n :: ·) := by
  have hhigh : isHigh n = false := by
    simp only [isHigh, Bool.and_eq_false_iff, decide_eq_false_iff_not]
    omega
  have hlow : isLow n = false := by
    simp only [isLow, Bool.and_eq_false_iff, decide_eq_false_iff_not]
    omega
  rcases ps with _ | ⟨c | l, ps⟩ <;> simp [pieceChars, hhigh, hlow]

/-- The pieces of a text are its characters. -/
theorem pieceChars_map_piece (cs : List Char) : pieceChars (cs.map piece) = some cs := by
  induction cs with
  | nil => rfl
  | cons c cs ih =>
    rw [List.map_cons, piece]
    split
    · next h =>
      rw [pieceChars_unit (by omega), ih, Option.map_some, Char.ofNat_toNat]
    · rw [pieceChars, ih, Option.map_some]

/-- The pieces of a text make up the text. -/
theorem pieceText_map_piece (s : String) : pieceText (s.toList.map piece) = some s := by
  rw [pieceText, pieceChars_map_piece, Option.map_some, String.ofList_toList]

/-! ## Members -/

/-- The value that a member is read as. -/
def member (m : String × String) : Option String × Value := (some m.1, .string (some m.2))

/-- A member as it is written. -/
def writtenMember (m : String × String) : List Char :=
  '"' :: (m.1.toList.flatMap escape ++ '"' :: ':' :: '"' :: (m.2.toList.flatMap escape ++ ['"']))

/-- The characters of a member are those of its name, a colon and those of its value. -/
theorem toList_writeMember (m : String × String) :
    (writeString m.1 ++ ":" ++ writeString m.2).toList = writtenMember m := by
  simp [writeString, writtenMember]

/-- Nothing is skipped before a character that is no space. -/
theorem skipSpace_cons {c : Char} (h : isSpace c = false) (cs : List Char) :
    skipSpace (c :: cs) = c :: cs :=
  List.dropWhile_cons_of_neg (by simp [h])

/-- A text between quotes is a value. -/
theorem scanValue_string (fuel : Nat) (s : String) (rest : List Char) :
    scanValue (fuel + 1) ('"' :: (s.toList.flatMap escape ++ '"' :: rest)) =
      some (.string (some s), rest) := by
  rw [scanValue, skipSpace_cons rfl]
  simp only [scanString_flatMap_escape, Option.map_some, pieceText_map_piece]

/-- A member begins with the quote of its name. -/
theorem writtenMember_append (m : String × String) (cs : List Char) :
    writtenMember m ++ cs = '"' :: (m.1.toList.flatMap escape ++ '"' :: ':' :: '"' ::
      (m.2.toList.flatMap escape ++ '"' :: cs)) := by
  simp [writtenMember]

/-- The last member is followed by the closing brace. -/
theorem scanMembers_last (fuel : Nat) (m : String × String) (rest : List Char) :
    scanMembers (fuel + 2) (writtenMember m ++ '\x7d' :: rest) = some ([member m], rest) := by
  rw [writtenMember_append, scanMembers, skipSpace_cons rfl]
  simp only [scanString_flatMap_escape, bind, Option.bind, pieceText_map_piece, scanValue_string,
    skipSpace_cons (show isSpace ':' = false from rfl),
    skipSpace_cons (show isSpace '\x7d' = false from rfl)]
  rfl

/-- A member and a comma are followed by the other members. -/
theorem scanMembers_cons (fuel : Nat) (m : String × String) (cs : List Char) :
    scanMembers (fuel + 2) (writtenMember m ++ ',' :: cs) =
      (scanMembers (fuel + 1) cs).map fun (ms, rest) => (member m :: ms, rest) := by
  rw [writtenMember_append, scanMembers, skipSpace_cons rfl]
  simp only [scanString_flatMap_escape, bind, Option.bind, pieceText_map_piece, scanValue_string,
    skipSpace_cons (show isSpace ':' = false from rfl),
    skipSpace_cons (show isSpace ',' = false from rfl)]
  cases scanMembers (fuel + 1) cs <;> rfl

/-- The members that are written one after the other, with commas between them, are read. -/
theorem scanMembers_written (hne : members ≠ []) (hfuel : members.length < fuel)
    (rest : List Char) :
    scanMembers fuel ([','].intercalate (members.map writtenMember) ++ '\x7d' :: rest) =
      some (members.map member, rest) := by
  -- each member but the last takes one step and the comma behind it
  induction members generalizing fuel with
  | nil => exact absurd rfl hne
  | cons m ms ih =>
    obtain ⟨fuel, rfl⟩ : ∃ k, fuel = k + 2 :=
      ⟨fuel - 2, by simp only [List.length_cons] at hfuel; omega⟩
    cases ms with
    | nil =>
      rw [List.map_singleton, List.intercalate_singleton]
      exact scanMembers_last fuel m rest
    | cons m' ms =>
      have hlength : (m' :: ms).length < fuel + 1 := by
        simp only [List.length_cons] at hfuel ⊢
        omega
      have hrest := ih (List.cons_ne_nil m' ms) hlength
      rw [List.map_cons, List.map_cons, List.intercalate_cons_cons, ← List.map_cons]
      rw [List.append_assoc, List.append_assoc, List.singleton_append, scanMembers_cons, hrest]
      rfl

/-- Every member takes at least one character. -/
theorem length_le_length_written (members : List (String × String)) :
    members.length ≤ ([','].intercalate (members.map writtenMember)).length := by
  induction members with
  | nil => exact Nat.zero_le _
  | cons m ms ih =>
    cases ms with
    | nil => simp [writtenMember]
    | cons m' ms =>
      rw [List.map_cons, List.map_cons, List.intercalate_cons_cons, ← List.map_cons]
      simp only [List.length_append, List.length_cons] at ih ⊢
      omega

/-- The characters of an object are its members between braces, with commas between them. -/
theorem toList_writeObject (members : List (String × String)) : (writeObject members).toList =
    '\x7b' :: ([','].intercalate (members.map writtenMember) ++ ['\x7d']) := by
  unfold writeObject
  rw [String.toList_append, String.toList_append, String.toList_intercalate, List.map_map]
  exact congrArg (fun written => '\x7b' :: ([','].intercalate written ++ ['\x7d']))
    (List.map_congr_left fun m _ => toList_writeMember m)

/-- The members of a written object begin with a quote. -/
theorem exists_written_eq_cons (hne : members ≠ []) (rest : List Char) :
    ∃ cs, [','].intercalate (members.map writtenMember) ++ rest = '"' :: cs := by
  obtain ⟨m, ms, rfl⟩ := List.exists_cons_of_ne_nil hne
  cases ms with
  | nil => exact ⟨_, by rw [List.map_singleton, List.intercalate_singleton]; rfl⟩
  | cons m' ms =>
    rw [List.map_cons, List.map_cons, List.intercalate_cons_cons]
    exact ⟨_, rfl⟩

/-- An object is scanned as it is written. -/
theorem scanValue_writeObject (hfuel : members.length < fuel) :
    scanValue (fuel + 1) (writeObject members).toList =
      some (.object (members.map member), []) := by
  rw [toList_writeObject, scanValue, skipSpace_cons rfl]
  by_cases hne : members = []
  · subst hne
    rfl
  · have hscan := scanMembers_written hne hfuel []
    obtain ⟨cs, hcs⟩ := exists_written_eq_cons hne ['\x7d']
    rw [hcs] at hscan ⊢
    -- the quote is no closing brace, so the members are scanned
    change Option.map _ (scanMembers fuel ('"' :: cs)) = _
    rw [hscan]
    rfl

/-- What is written for an object with texts as its members is read as the object. -/
theorem ofText?_writeObject (members : List (String × String)) :
    Value.ofText? (writeObject members) = some (.object (members.map member)) := by
  have hlength : members.length < 2 * (writeObject members).toList.length + 1 := by
    have hle := length_le_length_written members
    rw [toList_writeObject]
    simp only [List.length_cons, List.length_append]
    omega
  unfold Value.ofText?
  dsimp only
  rw [scanValue_writeObject hlength]
  rfl

end Rollout.Json
