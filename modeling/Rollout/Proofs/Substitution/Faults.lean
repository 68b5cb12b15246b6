import Rollout.Proofs.Substitution.OnePass
import Rollout.Proofs.Yaml.Position

/-!
# Why a substitution fails

A placeholder is at fault if its variable is not defined, or if it is only a part of its text and
its variable cannot stand in a text. Substitution fails if and only if some placeholder of the
document is at fault, wherever it stands, and the first one in the order of the document decides the
error (`evaluate_fails_at_first_fault`). The placeholders of a document are all that stand in its
texts (`mem_uses_iff`); which ones the scanner finds plays no part in it.
-/

namespace Rollout.Substitution

open Yaml (Value Entries)
open Placeholder (Mark Occurs Cut IsCutOf)

/-! ## The placeholders of a document -/

/-- A placeholder in a document. -/
structure Use where
  name : String
  /-- Whether it is only a part of its text. -/
  embedded : Bool
deriving DecidableEq, Repr

/-- The placeholders of a text, from left to right. -/
def usesOfText (s : String) : List Use :=
  (Placeholder.starts s.toList).map fun (name, width) => ⟨.ofList name, width ≠ s.length⟩

mutual

/-- The placeholders in the texts of a value, keys included, in the order of the document. -/
def uses : Value → List Use
  | .string s => usesOfText s
  | .sequence items => usesOfItems items
  | .mapping entries => usesOfEntries entries
  | .tagged _ value => uses value
  | _ => []
termination_by structural v => v

/-- The placeholders in the items of a sequence. -/
def usesOfItems : List Value → List Use
  | [] => []
  | v :: vs => uses v ++ usesOfItems vs
termination_by structural vs => vs

/-- The placeholders in the entries of a mapping, those of each key before those of its value. -/
def usesOfEntries : Entries → List Use
  | [] => []
  | (k, v) :: es => uses k ++ (uses v ++ usesOfEntries es)
termination_by structural es => es

end

section Uses

variable {u : Use}

/-- The uses in a text are its placeholders, each of them embedded unless it is the whole text. -/
theorem mem_usesOfText_iff {s : String} : u ∈ usesOfText s ↔
    ∃ i m, Occurs s.toList i m ∧ u = ⟨.ofList m.name, m.chars ≠ s.toList⟩ := by
  have hwidth : ∀ {i : Nat} {m : Mark}, Occurs s.toList i m →
      (m.chars.length = s.length ↔ m.chars = s.toList) := by
    intro i m hm
    rw [← String.length_toList]
    have hwithin : m.chars <:+: s.toList := hm.isInfix.trans (List.drop_suffix _ _).isInfix
    exact ⟨hwithin.eq_of_length, congrArg List.length⟩
  simp only [usesOfText, List.mem_map, Placeholder.mem_starts_iff]
  constructor
  · rintro ⟨_, ⟨i, m, hm, rfl⟩, rfl⟩
    exact ⟨i, m, hm, by simp only [ne_eq, hwidth hm]⟩
  · rintro ⟨i, m, hm, rfl⟩
    exact ⟨_, ⟨i, m, hm, rfl⟩, by simp only [ne_eq, hwidth hm]⟩

/-- The uses in a list are those in its items. -/
theorem mem_usesOfItems_iff {vs : List Value} : u ∈ usesOfItems vs ↔ ∃ v ∈ vs, u ∈ uses v := by
  induction vs with
  | nil => simp [usesOfItems]
  | cons v vs ih => simp [usesOfItems, ih]

/-- The uses in a mapping are those in its keys and in its values. -/
theorem mem_usesOfEntries_iff {es : Entries} :
    u ∈ usesOfEntries es ↔ ∃ e ∈ es, u ∈ uses e.1 ∨ u ∈ uses e.2 := by
  induction es with
  | nil => simp [usesOfEntries]
  | cons e es ih =>
    obtain ⟨k, v⟩ := e
    simp only [usesOfEntries, List.mem_append, ih, List.exists_mem_cons_iff, or_assoc]

/-- The placeholders of a value are those of the texts at its positions. -/
theorem mem_uses_iff {d : Value} : u ∈ uses d ↔
    ∃ position w, d.at? position = some w ∧ ∃ s, w = .string s ∧ u ∈ usesOfText s := by
  induction d using Value.tree_induction with
  | null =>
    rw [Value.exists_at?_iff_of_part?_eq_none fun step => by cases step <;> rfl]
    simp [uses]
  | bool b =>
    rw [Value.exists_at?_iff_of_part?_eq_none fun step => by cases step <;> rfl]
    simp [uses]
  | number n =>
    rw [Value.exists_at?_iff_of_part?_eq_none fun step => by cases step <;> rfl]
    simp [uses]
  | string s =>
    rw [Value.exists_at?_iff_of_part?_eq_none fun step => by cases step <;> rfl]
    simp [uses]
  | sequence items ih =>
    rw [Value.exists_at?_iff, Value.exists_part?_sequence_iff, uses, mem_usesOfItems_iff,
      or_iff_right (by simp)]
    exact exists_congr fun v => and_congr_right fun hv => ih v hv
  | mapping entries ih =>
    rw [Value.exists_at?_iff, Value.exists_part?_mapping_iff, uses, mem_usesOfEntries_iff,
      or_iff_right (by simp)]
    exact exists_congr fun e => and_congr_right fun he => or_congr (ih e he).1 (ih e he).2
  | tagged tag v ih =>
    rw [Value.exists_at?_iff, Value.exists_part?_tagged_iff, uses, or_iff_right (by simp)]
    exact ih

end Uses

/-! ## Faults -/

/-- A value that cannot stand in a text. -/
def isCompound : Value → Bool
  | .sequence _ | .mapping _ | .tagged .. => true
  | _ => false

namespace Use

variable {lookup : String → Option Value} {u : Use}

/-- There is no variable with the name. -/
def IsUndefined (lookup : String → Option Value) (u : Use) : Prop := lookup u.name = none

/-- The variable cannot stand in the text of which the placeholder is a part. -/
def IsMisplaced (lookup : String → Option Value) (u : Use) : Prop :=
  u.embedded = true ∧ ∃ value, lookup u.name = some value ∧ isCompound value = true

/-- The placeholder cannot be replaced. -/
def AtFault (lookup : String → Option Value) (u : Use) : Prop :=
  u.IsUndefined lookup ∨ u.IsMisplaced lookup

/-- The error for a placeholder, if it cannot be replaced. -/
def fault? (lookup : String → Option Value) (u : Use) : Option SubstitutionError :=
  match lookup u.name with
  | none => some (.missing u.name)
  | some value => if u.embedded && isCompound value then some (.notScalar u.name) else none

/-- A use has no error if it is not at fault. -/
theorem fault?_eq_none_iff : u.fault? lookup = none ↔ ¬u.AtFault lookup := by
  rw [fault?, AtFault, IsUndefined, IsMisplaced]
  cases lookup u.name with
  | none => simp
  | some value => simp

/-- A use of an undefined variable has the error that the variable is missing. -/
theorem fault?_of_isUndefined (h : u.IsUndefined lookup) :
    u.fault? lookup = some (.missing u.name) := by
  rw [fault?, show lookup u.name = none from h]

/-- A use of a list or a mapping inside a text has the error that it is no scalar. -/
theorem fault?_of_isMisplaced (h : u.IsMisplaced lookup) :
    u.fault? lookup = some (.notScalar u.name) := by
  obtain ⟨hembedded, value, hlookup, hcompound⟩ := h
  rw [fault?, hlookup]
  simp [hembedded, hcompound]

end Use

/-! ## What a substitution fails with -/

section Failure

variable {lookup : String → Option Value}

/-- The first error for a placeholder among some placeholders. -/
def firstFault? (lookup : String → Option Value) (us : List Use) : Option SubstitutionError :=
  us.findSome? (Use.fault? lookup)

/-- The first fault of some uses and then others is found among the first ones, if there is one. -/
theorem firstFault?_append (us us' : List Use) :
    firstFault? lookup (us ++ us') = (firstFault? lookup us).or (firstFault? lookup us') :=
  List.findSome?_append

/-- Exactly lists and mappings have no text that could be embedded. -/
theorem scalarText?_eq_none_iff {value : Value} :
    scalarText? value = none ↔ isCompound value = true := by
  cases value <;> simp [scalarText?, isCompound]

/-- A text that is one placeholder fails as its use does. -/
theorem failure?_resolve (name : String) :
    failure? (resolve lookup name) = Use.fault? lookup ⟨name, false⟩ := by
  rw [resolve, Use.fault?]
  cases lookup name with
  | none => rfl
  | some value => simp

/-- A text that begins with a placeholder fails with it or with what comes after it. -/
theorem failure?_joinPieces_placeholder (name : String) (ps : List Piece) :
    failure? (joinPieces lookup (.placeholder name :: ps)) =
      (Use.fault? lookup ⟨name, true⟩).or (failure? (joinPieces lookup ps)) := by
  rw [joinPieces, failure?_bind (o := failure? (joinPieces lookup ps)), pieceText]
  · congr 1
    rw [resolve, Use.fault?]
    cases lookup name with
    | none => rfl
    | some value =>
      rw [ok_bind]
      cases hscalar : scalarText? value with
      | none => simp [scalarText?_eq_none_iff.1 hscalar]
      | some s =>
        have hcompound : isCompound value = false := by
          rw [Bool.eq_false_iff]
          exact fun h => by simp [scalarText?_eq_none_iff.2 h] at hscalar
        simp [hcompound]
  · intro text
    cases joinPieces lookup ps <;> rfl

/-- The pieces of a cut cannot be joined for the first fault of a placeholder that is embedded. -/
theorem failure?_joinPieces_pieces (c : Cut) : failure? (joinPieces lookup c.pieces) =
    firstFault? lookup (c.rest.map fun p => ⟨.ofList p.1.name, true⟩) := by
  obtain ⟨head, rest⟩ := c
  simp only [Cut.pieces, joinPieces_textPieces_append, failure?_map]
  induction rest with
  | nil => rfl
  | cons p rest ih =>
    rw [List.flatMap_cons, List.cons_append, failure?_joinPieces_placeholder,
      joinPieces_textPieces_append, failure?_map, ih, List.map_cons, firstFault?, firstFault?,
      List.findSome?_cons]
    cases Use.fault? lookup ⟨.ofList p.1.name, true⟩ <;> rfl

/-- Substitution in a text fails for the first of its placeholders at fault. -/
theorem failure?_evaluateText (s : String) :
    failure? (evaluateText lookup s) = firstFault? lookup (usesOfText s) := by
  obtain ⟨c, hc, -⟩ := Placeholder.existsUnique_isCutOf s.toList
  have hlength : c.chars.length = s.length := by rw [hc.chars_eq, String.length_toList]
  rw [usesOfText, hc.starts_eq, List.map_map]
  by_cases hwhole : ∃ m, c = ⟨[], [(m, [])]⟩
  · obtain ⟨m, rfl⟩ := hwhole
    rw [evaluateText_of_whole hc, failure?_resolve]
    simp [Cut.chars] at hlength
    simp [firstFault?, hlength]
  · rw [not_exists] at hwhole
    rw [evaluateText_of_not_whole hc hwhole, failure?_map, failure?_joinPieces_pieces]
    congr 1
    refine List.map_congr_left fun p hp => ?_
    have hlt := Cut.length_lt_of_mem hwhole hp
    simp [Nat.ne_of_lt (hlength ▸ hlt)]

/-- A list fails with the first fault of its items, if each item fails with its own first fault. -/
theorem failure?_evaluateItems {vs : List Value}
    (h : ∀ v ∈ vs, failure? (evaluate lookup v) = firstFault? lookup (uses v)) :
    failure? (evaluateItems lookup vs) = firstFault? lookup (usesOfItems vs) := by
  induction vs with
  | nil => rfl
  | cons v vs ih =>
    obtain ⟨hv, hvs⟩ := List.forall_mem_cons.1 h
    rw [evaluateItems, failure?_bind (o := failure? (evaluateItems lookup vs)), hv, ih hvs,
      usesOfItems, firstFault?_append]
    intro w
    cases evaluateItems lookup vs <;> rfl

/-- A mapping fails with the first fault of its entries, the key of an entry before its value. -/
theorem failure?_evaluateEntries {es : Entries}
    (h : ∀ e ∈ es, failure? (evaluate lookup e.1) = firstFault? lookup (uses e.1) ∧
      failure? (evaluate lookup e.2) = firstFault? lookup (uses e.2)) (done : Entries) :
    failure? (evaluateEntries lookup done es) = firstFault? lookup (usesOfEntries es) := by
  induction es generalizing done with
  | nil => rfl
  | cons e es ih =>
    obtain ⟨k, v⟩ := e
    obtain ⟨⟨hk, hv⟩, hes⟩ := List.forall_mem_cons.1 h
    rw [evaluateEntries, usesOfEntries, firstFault?_append, firstFault?_append, ← hk, ← hv]
    exact failure?_bind fun k' => failure?_bind fun v' => ih hes _

/-- Substitution in a value fails for the first of its placeholders at fault. -/
theorem failure?_evaluate (d : Value) :
    failure? (evaluate lookup d) = firstFault? lookup (uses d) := by
  induction d using Value.tree_induction with
  | null => rfl
  | bool b => rfl
  | number n => rfl
  | string s => exact failure?_evaluateText s
  | sequence items ih =>
    rw [evaluate, uses, ← failure?_evaluateItems ih]
    cases evaluateItems lookup items <;> rfl
  | mapping entries ih =>
    rw [evaluate, uses, ← failure?_evaluateEntries ih []]
    cases evaluateEntries lookup [] entries <;> rfl
  | tagged tag v ih =>
    rw [evaluate, uses, ← ih]
    cases evaluate lookup v <;> rfl

end Failure

/-! ## The main statement -/

/-- A placeholder of a document is its first one at fault. -/
def IsFirstFault (lookup : String → Option Value) (d : Value) (u : Use) : Prop :=
  ∃ before behind, uses d = before ++ u :: behind ∧
    (∀ u' ∈ before, ¬u'.AtFault lookup) ∧ u.AtFault lookup

section First

variable {lookup : String → Option Value} {d : Value} {u : Use}

/-- The first fault is at fault. -/
theorem IsFirstFault.atFault (h : IsFirstFault lookup d u) : u.AtFault lookup := by
  obtain ⟨_, _, -, -, h⟩ := h
  exact h

/-- The error of the first fault is that of a use before which no other is at fault. -/
theorem firstFault?_uses_eq_some_iff {e : SubstitutionError} :
    firstFault? lookup (uses d) = some e ↔
      ∃ u, IsFirstFault lookup d u ∧ u.fault? lookup = some e := by
  rw [firstFault?, List.findSome?_eq_some_iff]
  constructor
  · rintro ⟨before, u, behind, huses, hu, hbefore⟩
    have hfault : u.AtFault lookup := by
      by_contra hnot
      rw [Use.fault?_eq_none_iff.2 hnot] at hu
      cases hu
    have hbefore' : ∀ u' ∈ before, ¬u'.AtFault lookup :=
      fun u' hu' => Use.fault?_eq_none_iff.1 (hbefore u' hu')
    exact ⟨u, ⟨before, behind, huses, hbefore', hfault⟩, hu⟩
  · rintro ⟨u, ⟨before, behind, huses, hbefore, -⟩, hu⟩
    exact ⟨before, u, behind, huses, hu, fun u' hu' => Use.fault?_eq_none_iff.2 (hbefore u' hu')⟩

/-- Substitution fails if some use is at fault. -/
theorem exists_evaluate_eq_error_iff :
    (∃ e, evaluate lookup d = .error e) ↔ ∃ u ∈ uses d, u.AtFault lookup := by
  simp only [← failure?_eq_some_iff, failure?_evaluate, firstFault?]
  rw [← Option.isSome_iff_exists, List.findSome?_isSome_iff]
  refine exists_congr fun u => and_congr_right fun _ => ?_
  rw [Option.isSome_iff_ne_none, ne_eq, Use.fault?_eq_none_iff, not_not]

/-- The error of a run for the placeholder that decides it. -/
def Use.deployError (lookup : String → Option Value) (u : Use) : DeployError :=
  if (lookup u.name).isNone then .missingVariable u.name else .invalidManifest (.notScalar u.name)

/-- A use at fault makes a run fail with its own error. -/
theorem Use.AtFault.map_fault? (h : u.AtFault lookup) :
    (u.fault? lookup).map SubstitutionError.toDeployError = some (u.deployError lookup) := by
  rcases h with h | h
  · rw [fault?_of_isUndefined h, deployError, show lookup u.name = none from h]
    rfl
  · rw [fault?_of_isMisplaced h]
    obtain ⟨-, value, hlookup, -⟩ := h
    rw [deployError, hlookup]
    rfl

end First

/-- Substitution fails if and only if some placeholder is at fault: one that stands in a text at
some position of the document, be it a key, a value, an item or what has a tag, and whose variable
is not defined, or is a collection or has a tag while there is more in the text than the
placeholder. The first of them in the order of the document, each key before its value and each text
from left to right, decides the error of the run: its variable is missing, or it is no scalar. -/
theorem evaluate_fails_at_first_fault (lookup : String → Option Value) (d : Value) :
    (∀ u, u ∈ uses d ↔ ∃ position s i m, d.at? position = some (.string s) ∧
      Occurs s.toList i m ∧ u = ⟨.ofList m.name, m.chars ≠ s.toList⟩) ∧
    ((∃ e, evaluate lookup d = .error e) ↔ ∃ u ∈ uses d, u.AtFault lookup) ∧
    ∀ e, (evaluate lookup d).mapError SubstitutionError.toDeployError = .error e ↔
      ∃ u, IsFirstFault lookup d u ∧ e = u.deployError lookup := by
  refine ⟨fun u => ?_, exists_evaluate_eq_error_iff, fun e => ?_⟩
  · rw [mem_uses_iff]
    constructor
    · rintro ⟨position, _, hposition, s, rfl, hu⟩
      obtain ⟨i, m, hm, rfl⟩ := mem_usesOfText_iff.1 hu
      exact ⟨position, s, i, m, hposition, hm, rfl⟩
    · rintro ⟨position, s, i, m, hposition, hm, rfl⟩
      exact ⟨position, _, hposition, s, rfl, mem_usesOfText_iff.2 ⟨i, m, hm, rfl⟩⟩
  · rw [← failure?_eq_some_iff, failure?_mapError, failure?_evaluate, Option.map_eq_some_iff]
    simp only [firstFault?_uses_eq_some_iff]
    constructor
    · rintro ⟨e, ⟨u, hu, hfault⟩, rfl⟩
      have hmap := hu.atFault.map_fault?
      rw [hfault] at hmap
      exact ⟨u, hu, Option.some.inj hmap⟩
    · rintro ⟨u, hu, rfl⟩
      obtain ⟨e, he, heq⟩ := Option.map_eq_some_iff.1 hu.atFault.map_fault?
      exact ⟨e, ⟨u, hu, he⟩, heq⟩

/-- A key goes before its value, and both before what comes later. -/
example : evaluate (fun name => if name = "c" then some (.sequence []) else none)
    (.mapping [(.string "x-((a))", .string "((b))"), (.string "k", .string "y-((c))")]) =
      .error (.missing "a") := by
  rfl

end Rollout.Substitution
