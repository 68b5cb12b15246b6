import Mathlib.Data.List.Basic
import Rollout.Yaml.Value

/-!
# Positions in a value

A position leads from a value to one of the values that it is made of, step by step: to an item of a
sequence, to the key or the value of an entry, or to what a tag belongs to. What holds of every
value whose parts it holds of holds of all values (`Value.tree_induction`).
-/

namespace Rollout.Yaml.Value

/-- A step from a value to one of its parts. -/
inductive Step where
  | item (index : Nat)
  | key (index : Nat)
  | value (index : Nat)
  /-- From a value with a tag to the value. -/
  | tagged
deriving DecidableEq, Repr

/-- The part that a step leads to. -/
def part? : Value → Step → Option Value
  | .sequence items, .item i => items[i]?
  | .mapping entries, .key i => entries[i]?.map Prod.fst
  | .mapping entries, .value i => entries[i]?.map Prod.snd
  | .tagged _ v, .tagged => some v
  | _, _ => none

/-- The value at a position. -/
def at? : Value → List Step → Option Value
  | v, [] => some v
  | v, step :: position => (v.part? step).bind (·.at? position)

section At

variable {v w : Value} {step : Step} {position : List Step}

/-- A position is reached by its first step and the rest of it. -/
theorem at?_cons_eq_some_iff :
    v.at? (step :: position) = some w ↔ ∃ part, v.part? step = some part ∧
      part.at? position = some w := Option.bind_eq_some_iff

/-- What stands somewhere in a value stands at its root or in one of its parts. -/
theorem exists_at?_iff {P : Value → Prop} (v : Value) :
    (∃ position w, v.at? position = some w ∧ P w) ↔
      P v ∨ ∃ step part, v.part? step = some part ∧
        ∃ position w, part.at? position = some w ∧ P w := by
  constructor
  · rintro ⟨position, w, hw, h⟩
    cases position with
    | nil =>
      obtain rfl : v = w := Option.some.inj hw
      exact .inl h
    | cons step position =>
      obtain ⟨part, hpart, hw⟩ := at?_cons_eq_some_iff.1 hw
      exact .inr ⟨step, part, hpart, position, w, hw, h⟩
  · rintro (h | ⟨step, part, hpart, position, w, hw, h⟩)
    · exact ⟨[], v, rfl, h⟩
    · exact ⟨step :: position, w, at?_cons_eq_some_iff.2 ⟨part, hpart, hw⟩, h⟩

/-- A value without parts has no position but the one that it is at itself. -/
theorem exists_at?_iff_of_part?_eq_none {P : Value → Prop} (h : ∀ step, v.part? step = none) :
    (∃ position w, v.at? position = some w ∧ P w) ↔ P v := by
  rw [exists_at?_iff]
  refine or_iff_left ?_
  rintro ⟨step, part, hpart, -⟩
  rw [h] at hpart
  cases hpart

/-- The parts of a list are its items. -/
theorem exists_part?_sequence_iff {P : Value → Prop} {items : List Value} :
    (∃ step part, (sequence items).part? step = some part ∧ P part) ↔ ∃ v ∈ items, P v := by
  constructor
  · rintro ⟨step, part, hpart, h⟩
    cases step with
    | item i => exact ⟨part, List.mem_of_getElem? hpart, h⟩
    | _ => cases hpart
  · rintro ⟨v, hv, h⟩
    obtain ⟨i, hi⟩ := List.getElem?_of_mem hv
    exact ⟨.item i, v, hi, h⟩

/-- The parts of a mapping are its keys and its values. -/
theorem exists_part?_mapping_iff {P : Value → Prop} {entries : Entries} :
    (∃ step part, (mapping entries).part? step = some part ∧ P part) ↔
      ∃ e ∈ entries, P e.1 ∨ P e.2 := by
  constructor
  · rintro ⟨step, part, hpart, h⟩
    cases step with
    | key i =>
      obtain ⟨e, he, rfl⟩ := Option.map_eq_some_iff.1 hpart
      exact ⟨e, List.mem_of_getElem? he, .inl h⟩
    | value i =>
      obtain ⟨e, he, rfl⟩ := Option.map_eq_some_iff.1 hpart
      exact ⟨e, List.mem_of_getElem? he, .inr h⟩
    | _ => cases hpart
  · rintro ⟨e, he, h⟩
    obtain ⟨i, hi⟩ := List.getElem?_of_mem he
    rcases h with h | h
    · exact ⟨.key i, e.1, Option.map_eq_some_iff.2 ⟨e, hi, rfl⟩, h⟩
    · exact ⟨.value i, e.2, Option.map_eq_some_iff.2 ⟨e, hi, rfl⟩, h⟩

/-- The only part of a tagged value is the value under the tag. -/
theorem exists_part?_tagged_iff {P : Value → Prop} {tag : String} :
    (∃ step part, (tagged tag v).part? step = some part ∧ P part) ↔ P v := by
  constructor
  · rintro ⟨step, part, hpart, h⟩
    cases step with
    | tagged =>
      obtain rfl : v = part := Option.some.inj hpart
      exact h
    | _ => cases hpart
  · exact fun h => ⟨.tagged, v, rfl, h⟩

end At

/-- What holds of a value whenever it holds of its parts holds of every value. -/
@[elab_as_elim]
theorem tree_induction {P : Value → Prop} (null : P .null) (bool : ∀ b, P (.bool b))
    (number : ∀ n, P (.number n)) (string : ∀ s, P (.string s))
    (sequence : ∀ items : List Value, (∀ v ∈ items, P v) → P (.sequence items))
    (mapping : ∀ entries : Entries, (∀ e ∈ entries, P e.1 ∧ P e.2) → P (.mapping entries))
    (tagged : ∀ tag v, P v → P (.tagged tag v)) : ∀ v, P v
  | .null => null
  | .bool b => bool b
  | .number n => number n
  | .string s => string s
  | .sequence items => sequence items fun v _ =>
    tree_induction null bool number string sequence mapping tagged v
  | .mapping entries => mapping entries fun (k, v) _ =>
    ⟨tree_induction null bool number string sequence mapping tagged k,
      tree_induction null bool number string sequence mapping tagged v⟩
  | .tagged tag v =>
    tagged tag v (tree_induction null bool number string sequence mapping tagged v)
termination_by v => sizeOf v
decreasing_by
  · have hsize := List.sizeOf_lt_of_mem ‹v ∈ items›
    rw [Value.sequence.sizeOf_spec]
    omega
  · have hsize : 1 + sizeOf k + sizeOf v < sizeOf entries :=
      List.sizeOf_lt_of_mem ‹(k, v) ∈ entries›
    rw [Value.mapping.sizeOf_spec]
    omega
  · have hsize : 1 + sizeOf k + sizeOf v < sizeOf entries :=
      List.sizeOf_lt_of_mem ‹(k, v) ∈ entries›
    rw [Value.mapping.sizeOf_spec]
    omega
  · rw [Value.tagged.sizeOf_spec]
    omega

end Rollout.Yaml.Value
