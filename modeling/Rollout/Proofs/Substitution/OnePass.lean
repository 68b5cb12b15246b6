import Rollout.Proofs.Placeholder.Occurrences
import Rollout.Proofs.Substitution.Dependence

/-!
# Substitution in a text is done in one pass

What becomes of a text can be read off its cut at the placeholders that stand in it (`Becomes`): a
text without a placeholder stays as it is, a text that is one placeholder becomes the value with its
type, and every other text keeps what stands between its placeholders and has the values in their
places (`evaluateText_exact`). The values are put in as they are: what looks like a placeholder only
with them is none.
-/

namespace Rollout.Substitution

open Yaml (Value)
open Placeholder (Mark Occurs Cut IsCutOf)

/-! ## What becomes of a cut -/

/-- The placeholders of a cut, each with the text behind it, make up these characters when the
values of the variables take their places. -/
inductive Fills (lookup : String → Option Value) : List (Mark × List Char) → List Char → Prop
  | nil : Fills lookup [] []
  | cons {m : Mark} {text : List Char} {rest : List (Mark × List Char)} {cs : List Char}
      {value : Value} {s : String} (hlookup : lookup (.ofList m.name) = some value)
      (hscalar : scalarText? value = some s) (hrest : Fills lookup rest cs) :
      Fills lookup ((m, text) :: rest) (s.toList ++ (text ++ cs))

/-- What the text of a cut becomes with the values of the variables. -/
inductive Becomes (lookup : String → Option Value) : Cut → Value → Prop
  /-- A text without placeholders stays the same. -/
  | plain (cs : List Char) : Becomes lookup ⟨cs, []⟩ (.string (.ofList cs))
  /-- A text that is nothing but one placeholder becomes the value of the variable. -/
  | whole {m : Mark} {value : Value} (hlookup : lookup (.ofList m.name) = some value) :
      Becomes lookup ⟨[], [(m, [])]⟩ value
  /-- In every other text the texts of the values take the places of the placeholders. -/
  | filled {c : Cut} {cs : List Char} (hrest : c.rest ≠ []) (hwhole : ∀ m, c ≠ ⟨[], [(m, [])]⟩)
      (hfills : Fills lookup c.rest cs) : Becomes lookup c (.string (.ofList (c.head ++ cs)))

section Cut

variable {lookup : String → Option Value} {c : Cut} {m : Mark} {cs : List Char} {value : Value}

/-- A text without placeholders becomes itself. -/
theorem becomes_plain_iff : Becomes lookup ⟨cs, []⟩ value ↔ value = .string (.ofList cs) := by
  constructor
  · intro h
    cases h with
    | plain => rfl
    | filled hrest => exact absurd rfl hrest
  · rintro rfl
    exact .plain cs

/-- A text that is one placeholder becomes the value of its variable. -/
theorem becomes_whole_iff :
    Becomes lookup ⟨[], [(m, [])]⟩ value ↔ lookup (.ofList m.name) = some value := by
  constructor
  · intro h
    cases h with
    | whole hlookup => exact hlookup
    | filled _ hwhole => exact absurd rfl (hwhole m)
  · exact .whole

/-- Any other text becomes a text, with the placeholders filled in. -/
theorem becomes_filled_iff (hrest : c.rest ≠ []) (hwhole : ∀ m, c ≠ ⟨[], [(m, [])]⟩) :
    Becomes lookup c value ↔
      ∃ cs, Fills lookup c.rest cs ∧ value = .string (.ofList (c.head ++ cs)) := by
  constructor
  · intro h
    cases h with
    | plain => exact absurd rfl hrest
    | whole => exact absurd rfl (hwhole _)
    | filled _ _ hfills => exact ⟨_, hfills, rfl⟩
  · rintro ⟨cs, hfills, rfl⟩
    exact .filled hrest hwhole hfills

/-! ## Joining the pieces of a cut -/

/-- Text in front is kept as it is. -/
theorem joinPieces_textPieces_append (text : List Char) (ps : List Piece) :
    joinPieces lookup (Placeholder.textPieces text ++ ps) =
      (joinPieces lookup ps).map (text ++ ·) := by
  cases text with
  | nil => cases h : joinPieces lookup ps <;> simp [Placeholder.textPieces, h]
  | cons x text =>
    rw [Placeholder.textPieces_cons, List.singleton_append, joinPieces, pieceText, ok_bind]
    cases joinPieces lookup ps <;> rfl

/-- A placeholder in front is filled in with the text of its variable, which has to be a scalar. -/
theorem joinPieces_placeholder_eq_ok_iff {name : String} {ps : List Piece} :
    joinPieces lookup (.placeholder name :: ps) = .ok cs ↔
      ∃ value s rest, lookup name = some value ∧ scalarText? value = some s ∧
        joinPieces lookup ps = .ok rest ∧ cs = s.toList ++ rest := by
  rw [joinPieces, pieceText]
  cases hlookup : lookup name with
  | none => simp [resolve, hlookup]
  | some value =>
    cases hscalar : scalarText? value with
    | none => simp [resolve, hlookup, hscalar]
    | some s =>
      cases hrest : joinPieces lookup ps with
      | error e => simp [resolve, hlookup, hscalar]
      | ok rest => simp [resolve, hlookup, hscalar, eq_comm]

/-- The pieces of a cut are joined to the text before the first placeholder and what fills the
rest. -/
theorem joinPieces_pieces_eq_ok_iff :
    joinPieces lookup c.pieces = .ok cs ↔
      ∃ filled, Fills lookup c.rest filled ∧ cs = c.head ++ filled := by
  obtain ⟨head, rest⟩ := c
  simp only [Cut.pieces, joinPieces_textPieces_append, map_eq_ok_iff]
  refine exists_congr fun filled => and_congr ?_ eq_comm
  induction rest generalizing filled with
  | nil =>
    constructor
    · intro h
      cases h
      exact .nil
    · rintro ⟨⟩
      rfl
  | cons p rest ih =>
    obtain ⟨m, text⟩ := p
    rw [List.flatMap_cons, List.cons_append, joinPieces_placeholder_eq_ok_iff]
    simp only [joinPieces_textPieces_append, map_eq_ok_iff, ih]
    constructor
    · rintro ⟨value, s, _, hlookup, hscalar, ⟨behind, hbehind, rfl⟩, rfl⟩
      exact .cons hlookup hscalar hbehind
    · intro h
      cases h with
      | cons hlookup hscalar hbehind =>
        exact ⟨_, _, _, hlookup, hscalar, ⟨_, hbehind, rfl⟩, rfl⟩

end Cut

/-! ## Texts -/

variable {lookup : String → Option Value} {s : String} {c : Cut} {value : Value}

/-- Only a cut that is one placeholder has a single placeholder for its pieces. -/
theorem pieces_eq_placeholder_iff {name : String} :
    c.pieces = [.placeholder name] ↔ ∃ m : Mark, c = ⟨[], [(m, [])]⟩ ∧ .ofList m.name = name := by
  constructor
  · intro h
    match c, h with
    | ⟨[], [(m, [])]⟩, h => exact ⟨m, rfl, by simpa [Cut.pieces, Placeholder.textPieces] using h⟩
    | ⟨[], []⟩, h => simp [Cut.pieces, Placeholder.textPieces] at h
    | ⟨x :: head, rest⟩, h => simp [Cut.pieces, Placeholder.textPieces] at h
    | ⟨[], (m, x :: text) :: rest⟩, h => simp [Cut.pieces, Placeholder.textPieces] at h
    | ⟨[], (m, []) :: p :: rest⟩, h => simp [Cut.pieces, Placeholder.textPieces] at h
  · rintro ⟨m, rfl, rfl⟩
    rfl

/-- A text that is one placeholder gives the value of its variable. -/
theorem evaluateText_of_whole {m : Mark} (h : IsCutOf s.toList ⟨[], [(m, [])]⟩) :
    evaluateText lookup s = resolve lookup (.ofList m.name) := by
  rw [evaluateText, Placeholder.pieces, h.piecesAfter_eq]
  rfl

/-- Any other text gives the text that its pieces are joined to. -/
theorem evaluateText_of_not_whole (h : IsCutOf s.toList c) (hwhole : ∀ m, c ≠ ⟨[], [(m, [])]⟩) :
    evaluateText lookup s =
      (joinPieces lookup c.pieces).map fun cs => Value.string (.ofList cs) := by
  rw [evaluateText, Placeholder.pieces, h.piecesAfter_eq]
  split
  · next name heq =>
    obtain ⟨m, rfl, -⟩ := pieces_eq_placeholder_iff.1 heq
    exact absurd rfl (hwhole m)
  · cases joinPieces lookup c.pieces <;> rfl

/-- A text becomes what its cut becomes. -/
theorem evaluateText_eq_ok_iff (h : IsCutOf s.toList c) :
    evaluateText lookup s = .ok value ↔ Becomes lookup c value := by
  by_cases hwhole : ∃ m, c = ⟨[], [(m, [])]⟩
  · obtain ⟨m, rfl⟩ := hwhole
    rw [evaluateText_of_whole h, resolve_eq_ok_iff, becomes_whole_iff]
  · rw [not_exists] at hwhole
    rw [evaluateText_of_not_whole h hwhole, map_eq_ok_iff]
    simp only [joinPieces_pieces_eq_ok_iff]
    obtain ⟨head, rest⟩ := c
    cases rest with
    | nil =>
      rw [becomes_plain_iff]
      constructor
      · rintro ⟨_, ⟨_, ⟨⟩, rfl⟩, rfl⟩
        rw [List.append_nil]
      · rintro rfl
        exact ⟨head, ⟨[], .nil, (List.append_nil head).symm⟩, rfl⟩
    | cons p rest =>
      rw [becomes_filled_iff (List.cons_ne_nil p rest) hwhole]
      constructor
      · rintro ⟨_, ⟨filled, hfills, rfl⟩, rfl⟩
        exact ⟨filled, hfills, rfl⟩
      · rintro ⟨filled, hfills, rfl⟩
        exact ⟨_, ⟨filled, hfills, rfl⟩, rfl⟩

/-- Substitution in a text is exact and done in one pass, however names are looked up. There is one
way to cut the text at all placeholders that stand in it; these do not overlap, and there is none in
the texts between them. The text is evaluated if and only if its cut becomes something, and to just
that: to itself if it has no placeholder, to the value if it is one placeholder, and else to the
texts between its placeholders with the texts of the values, which are not looked at again. -/
theorem evaluateText_exact (lookup : String → Option Value) (s : String) :
    ∃ c : Cut, IsCutOf s.toList c ∧ (∀ d, IsCutOf s.toList d → d = c) ∧
      (∀ i j m n, Occurs s.toList i m → Occurs s.toList j n → i < j →
        i + m.chars.length ≤ j) ∧
      (∀ text ∈ c.texts, ∀ i m, ¬Occurs text i m) ∧
      ∀ value, evaluateText lookup s = .ok value ↔ Becomes lookup c value := by
  obtain ⟨c, hc, hunique⟩ := Placeholder.existsUnique_isCutOf s.toList
  exact ⟨c, hc, hunique, fun i j m n hm hn hij => hm.add_length_le hn hij,
    fun text htext i m => hc.not_occurs htext i m, fun value => evaluateText_eq_ok_iff hc⟩

/-- What looks like a placeholder with an inserted value only is left alone. -/
example : evaluateText (fun name => if name = "a" then some (.string "b") else some .null)
    "((x((a))))" = .ok (.string "((xb))") := by
  rfl

end Rollout.Substitution
