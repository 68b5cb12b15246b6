import Rollout.Placeholder
import Rollout.Proofs.Variable.Precedence

/-!
# A variable as a pair and in a file

The same variable can be given as a pair, or by a file that holds nothing else. Both ways find the
variable under its own name. What lies inside its value is found in both ways if there is no dot in
the name of the variable. If there is one, it is found only through the pair: a file takes the text
before the first dot for the whole key. The main statement is `pair_and_file_agree_iff`.
-/

namespace Rollout

open Yaml (Value)
open Placeholder (isNameChar)

variable {n name file : String} {v w : Value}

/-- A mapping with one entry has a value for the name of that entry. -/
theorem Yaml.Value.field?_singleton :
    Value.field? name [(.string n, v)] = if n = name then some v else none := by
  unfold Value.field? Value.find?
  rw [List.find?_singleton]
  by_cases h : n = name <;> simp [Value.same, h]

/-- A file with one entry gives what lies inside its value, unless there is a dot in its key. -/
theorem VariableFile.gives_singleton_iff :
    VariableFile.Gives ⟨file, [(.string n, v)]⟩ name w ↔
      ∃ path, IsBelow name.toList n.toList path ∧ v.LeadsTo path w ∧
        ('.' ∈ n.toList → path = []) := by
  constructor
  · rintro (own | ⟨-, hdot, hbelow, member, hleads⟩)
    · rw [Value.field?_singleton, Option.ite_none_right_eq_some] at own
      obtain ⟨rfl, hv⟩ := own
      obtain rfl := Option.some.inj hv
      exact ⟨[], isBelow_nil_iff.2 rfl, .here v, fun _ => rfl⟩
    · rw [Value.field?_singleton, Option.ite_none_right_eq_some] at member
      obtain ⟨rfl, hv⟩ := member
      obtain rfl := Option.some.inj hv
      rw [String.toList_ofList]
      exact ⟨_, hbelow, hleads, fun h => absurd h hdot⟩
  · rintro ⟨path, hbelow, hleads, hdot⟩
    by_cases hname : n = name
    · subst hname
      obtain rfl := hbelow.eq_nil
      cases hleads
      exact .key (by rw [Value.field?_singleton, if_pos rfl])
    · have hpath : path ≠ [] := by
        rintro rfl
        exact hname (String.toList_inj.1 (isBelow_nil_iff.1 hbelow).symm)
      refine .inside ?_ (fun h => hpath (hdot h)) hbelow ?_ hleads
      · rw [Value.field?_singleton, if_neg hname]
      · rw [Value.field?_singleton, String.ofList_toList, if_pos rfl]

namespace Variables

/-- One variable, given as a pair. -/
def ofPair (n : String) (v : Value) : Variables := ⟨[⟨n, v⟩], []⟩

/-- One variable, given by a file. -/
def ofFile (file n : String) (v : Value) : Variables := ⟨[], [⟨file, [(.string n, v)]⟩]⟩

/-- With one pair, a name is looked up in the pair. -/
theorem value?_ofPair : (ofPair n v).value? name = Binding.find? ⟨n, v⟩ name.toList := by
  unfold value? lookup findPair? ofPair
  rw [List.reverse_singleton, List.findSome?_singleton]
  cases Binding.find? ⟨n, v⟩ name.toList <;> rfl

/-- With one file of one key, a name is looked up in the file. -/
theorem value?_ofFile :
    (ofFile file n v).value? name = VariableFile.find? ⟨file, [(.string n, v)]⟩ name.toList := by
  unfold value? ofFile
  rw [lookup_of_not_defines (List.forall_mem_nil _), findFile?, List.findSome?_singleton,
    Option.map_map]
  exact Option.map_id'

/-- What a pair gives stands at the path below its name. -/
theorem value?_ofPair_eq_some_iff : (ofPair n v).value? name = some w ↔
    ∃ path, IsBelow name.toList n.toList path ∧ v.LeadsTo path w := by
  rw [value?_ofPair, Binding.find?_eq_some_iff]
  rfl

/-- What a file gives stands at the path below its key, and only at the key itself if the key holds
a dot. -/
theorem value?_ofFile_eq_some_iff : (ofFile file n v).value? name = some w ↔
    ∃ path, IsBelow name.toList n.toList path ∧ v.LeadsTo path w ∧
      ('.' ∈ n.toList → path = []) := by
  rw [value?_ofFile, VariableFile.find?_eq_some_iff, VariableFile.gives_singleton_iff]

/-- A pair finds its value under its own name, and what lies inside the value along a path below
that name. A file that holds the same variable finds the same, except that it finds nothing inside
the value if there is a dot in the name of the variable. So the two ways to give a variable agree on
a name unless there is such a dot and the name leads into the value, and where they do not agree the
file finds nothing. -/
theorem pair_and_file_agree_iff (file n name : String) (v : Value) :
    (∀ w, (ofPair n v).value? name = some w ↔
      ∃ path, IsBelow name.toList n.toList path ∧ v.LeadsTo path w) ∧
    (∀ w, (ofFile file n v).value? name = some w ↔
      ∃ path, IsBelow name.toList n.toList path ∧ v.LeadsTo path w ∧
        ('.' ∈ n.toList → path = [])) ∧
    ((ofPair n v).value? name = (ofFile file n v).value? name ↔
      ('.' ∈ n.toList → ∀ path w, IsBelow name.toList n.toList path → v.LeadsTo path w →
        path = [])) ∧
    ((ofFile file n v).value? name = (ofPair n v).value? name ∨
      (ofFile file n v).value? name = none) := by
  refine ⟨fun w => value?_ofPair_eq_some_iff, fun w => value?_ofFile_eq_some_iff, ⟨?_, ?_⟩, ?_⟩
  · intro h hdot path w hbelow hleads
    have hpair : (ofPair n v).value? name = some w :=
      value?_ofPair_eq_some_iff.2 ⟨path, hbelow, hleads⟩
    obtain ⟨own, hown, -, hnil⟩ := value?_ofFile_eq_some_iff.1 (h.symm.trans hpair)
    -- the file has found the variable itself, so the name is that of the variable
    rw [hnil hdot, isBelow_nil_iff] at hown
    rw [hown] at hbelow
    exact hbelow.eq_nil
  · intro h
    refine Option.ext fun w => ?_
    rw [value?_ofPair_eq_some_iff, value?_ofFile_eq_some_iff]
    constructor
    · rintro ⟨path, hbelow, hleads⟩
      exact ⟨path, hbelow, hleads, fun hdot => h hdot path w hbelow hleads⟩
    · rintro ⟨path, hbelow, hleads, -⟩
      exact ⟨path, hbelow, hleads⟩
  · cases hfile : (ofFile file n v).value? name with
    | none => exact .inr rfl
    | some w =>
      obtain ⟨path, hbelow, hleads, -⟩ := value?_ofFile_eq_some_iff.1 hfile
      exact .inl (value?_ofPair_eq_some_iff.2 ⟨path, hbelow, hleads⟩).symm

/-- What lies inside a variable is found through a pair but not in a file, if the name of the
variable has a dot. -/
theorem not_pair_and_file_agree :
    (ofPair "a.b" (.mapping [(.string "c", .number (.integer 1))])).value? "a.b.c" =
        some (.number (.integer 1)) ∧
      (ofFile "f.yml" "a.b" (.mapping [(.string "c", .number (.integer 1))])).value? "a.b.c" =
        none ∧
      ¬∀ file n v name, n ≠ "" → n.toList.all isNameChar = true →
        name.toList.all isNameChar = true →
        (ofPair n v).value? name = (ofFile file n v).value? name := by
  refine ⟨rfl, rfl, fun h => ?_⟩
  have hsame := h "f.yml" "a.b" (.mapping [(.string "c", .number (.integer 1))]) "a.b.c"
    (by decide) (by decide) (by decide)
  cases hsame

end Variables

end Rollout
