import Mathlib.Data.List.Infix
import Rollout.Variable.Lookup

/-!
# What pairs and files define

The meaning of a name, told without the way in which it is searched. A name lies below another name
if it is that name followed by a path of keys, with a dot before each key (`IsBelow`); a path leads
from a value through nested mappings to what lies inside (`Value.LeadsTo`). A pair gives a name what
its value leads to along the path of that name below its own. A file gives a name the value of the
key that is this name, and if it has no such key what the value of a key without dots leads to. The
main statements are `Binding.find?_eq_some_iff` and `VariableFile.find?_eq_some_iff`: what a search
finds in a pair or in a file is what that gives the name.
-/

namespace Rollout

open Yaml (Value Entries)

/-! ## Paths -/

/-- A path of keys leads from a value to what lies inside it at its end, through nested mappings,
whatever tags these carry. -/
inductive Yaml.Value.LeadsTo : Value → List (List Char) → Value → Prop
  | here (v : Value) : LeadsTo v [] v
  | entry {v u w : Value} {es : Entries} {key : List Char} {path : List (List Char)}
    (mapping : v.underTags = .mapping es) (member : Value.field? (.ofList key) es = some u)
    (rest : LeadsTo u path w) : LeadsTo v (key :: path) w

/-- A name is another name with a path of keys below it, each after a dot. -/
structure IsBelow (name top : List Char) (path : List (List Char)) : Prop where
  spelled : name = top ++ path.flatMap ('.' :: ·)
  no_dot : ∀ key ∈ path, '.' ∉ key

variable {v w : Value} {name top rest : List Char} {path : List (List Char)}

/-- Descending finds what the path leads to. -/
theorem descend_eq_some_iff : descend v path = some w ↔ v.LeadsTo path w := by
  induction path generalizing v with
  | nil =>
    constructor
    · intro h
      obtain rfl := Option.some.inj h
      exact .here v
    · intro h
      cases h
      rfl
  | cons key path ih =>
    rw [descend]
    refine Option.bind_eq_some_iff.trans ⟨?_, ?_⟩
    · rintro ⟨es, hes, h⟩
      obtain ⟨u, hu, h⟩ := Option.bind_eq_some_iff.1 h
      exact .entry (Value.entries?_eq_some_iff.1 hes) hu (ih.1 h)
    · rintro (_ | ⟨hes, hu, h⟩)
      exact ⟨_, Value.entries?_eq_some_iff.2 hes, Option.bind_eq_some_iff.2 ⟨_, hu, ih.2 h⟩⟩

/-- A name that is at the top is the top. -/
theorem isBelow_nil_iff : IsBelow name top [] ↔ name = top := by
  constructor
  · intro h
    rw [h.spelled, List.flatMap_nil, List.append_nil]
  · rintro rfl
    exact ⟨by simp, List.forall_mem_nil _⟩

/-- The path below a name is what stands between the dots after it. -/
theorem isBelow_append_iff : IsBelow (top ++ '.' :: rest) top path ↔
    Text.splitOn '.' rest = path := by
  rw [Text.splitOn_eq_iff]
  constructor
  · intro h
    exact ⟨(List.append_cancel_left h.spelled).symm, h.no_dot⟩
  · rintro ⟨hspelled, hdot⟩
    exact ⟨by rw [hspelled], hdot⟩

/-- A name below another one goes on with a dot, if it is not that name itself. -/
theorem IsBelow.exists_append (h : IsBelow name top path) (hpath : path ≠ []) :
    ∃ rest, name = top ++ '.' :: rest := by
  obtain ⟨key, keys, rfl⟩ := List.exists_cons_of_ne_nil hpath
  exact ⟨key ++ keys.flatMap ('.' :: ·), h.spelled⟩

/-- Only the empty path leads from a name to itself. -/
theorem IsBelow.eq_nil (h : IsBelow name name path) : path = [] := by
  by_contra hpath
  obtain ⟨rest, hname⟩ := h.exists_append hpath
  have hlength := congrArg List.length hname
  simp at hlength

/-- What lies below a name is found by the text after the dot. -/
theorem descendPath_eq_some_iff : descendPath v rest = some w ↔
    ∃ path, IsBelow (top ++ '.' :: rest) top path ∧ v.LeadsTo path w := by
  rw [descendPath, descend_eq_some_iff]
  constructor
  · intro h
    exact ⟨_, isBelow_append_iff.2 rfl, h⟩
  · rintro ⟨path, hbelow, h⟩
    rwa [isBelow_append_iff.1 hbelow]

/-! ## Pairs -/

namespace Binding

/-- A pair gives a name a value: its own name, or a name below it. -/
def Gives (b : Binding) (name : String) (v : Value) : Prop :=
  ∃ path, IsBelow name.toList b.name.toList path ∧ b.value.LeadsTo path v

/-- A pair defines a name if it gives it some value. -/
def Defines (b : Binding) (name : String) : Prop := ∃ v, b.Gives name v

/-- A pair gives its value under its own name. -/
theorem find?_self (b : Binding) : b.find? b.name.toList = some b.value := by
  have hprefix : b.name.toList.isPrefixOf? b.name.toList = some [] :=
    List.isPrefixOf?_eq_some_iff_append_eq.2 (List.append_nil _)
  rw [find?, hprefix]

/-- Below its name, a pair gives what its value has there. -/
theorem find?_append (b : Binding) (rest : List Char) :
    b.find? (b.name.toList ++ '.' :: rest) = descendPath b.value rest := by
  have hprefix : b.name.toList.isPrefixOf? (b.name.toList ++ '.' :: rest) = some ('.' :: rest) :=
    List.isPrefixOf?_eq_some_iff_append_eq.2 rfl
  rw [find?, hprefix]
  rfl

/-- A name that a pair finds is its own or goes on with a dot. -/
theorem cases_of_find? {b : Binding} (h : b.find? name = some v) :
    name = b.name.toList ∨ ∃ rest, name = b.name.toList ++ '.' :: rest := by
  rw [find?] at h
  split at h
  · next hprefix =>
    rw [List.isPrefixOf?_eq_some_iff_append_eq, List.append_nil] at hprefix
    exact .inl hprefix.symm
  · next rest hprefix =>
    exact .inr ⟨rest, (List.isPrefixOf?_eq_some_iff_append_eq.1 hprefix).symm⟩
  · cases h

/-- In a pair a search finds what the pair gives. -/
theorem find?_eq_some_iff {b : Binding} {name : String} :
    b.find? name.toList = some v ↔ b.Gives name v := by
  constructor
  · intro h
    rcases cases_of_find? h with hname | ⟨rest, hname⟩
    · rw [hname, find?_self] at h
      obtain rfl := Option.some.inj h
      exact ⟨[], isBelow_nil_iff.2 hname, .here _⟩
    · rw [hname, find?_append, descendPath_eq_some_iff] at h
      rw [Gives, hname]
      exact h
  · rintro ⟨path, hbelow, h⟩
    by_cases hpath : path = []
    · subst hpath
      cases h
      rw [isBelow_nil_iff.1 hbelow, find?_self]
    · obtain ⟨rest, hname⟩ := hbelow.exists_append hpath
      rw [hname] at hbelow ⊢
      rw [find?_append, descendPath_eq_some_iff]
      exact ⟨path, hbelow, h⟩

/-- A pair gives nothing under the names that it does not define. -/
theorem find?_eq_none_iff {b : Binding} {name : String} :
    b.find? name.toList = none ↔ ¬b.Defines name := by
  rw [Option.eq_none_iff_forall_ne_some, Defines, not_exists]
  exact forall_congr' fun v => not_congr find?_eq_some_iff

end Binding

/-! ## Files -/

namespace VariableFile

/-- A file gives a name a value: that of the key with this name, or if there is no such key what
lies below a key without dots. -/
inductive Gives (f : VariableFile) (name : String) : Value → Prop
  | key {v : Value} (own : Value.field? name f.entries = some v) : Gives f name v
  | inside {top : List Char} {path : List (List Char)} {u v : Value}
    (own : Value.field? name f.entries = none) (no_dot : '.' ∉ top)
    (below : IsBelow name.toList top path) (member : Value.field? (.ofList top) f.entries = some u)
    (leads : u.LeadsTo path v) : Gives f name v

/-- A file defines a name if it gives it some value. -/
def Defines (f : VariableFile) (name : String) : Prop := ∃ v, f.Gives name v

/-- In a file a search finds what the file gives. -/
theorem find?_eq_some_iff {f : VariableFile} {name : String} :
    f.find? name.toList = some v ↔ f.Gives name v := by
  rw [find?, String.ofList_toList]
  cases hown : Value.field? name f.entries with
  | some u =>
    constructor
    · intro h
      obtain rfl := Option.some.inj h
      exact .key hown
    · intro h
      cases h with
      | key own => exact hown.symm.trans own
      | inside own => rw [hown] at own; cases own
  | none =>
    constructor
    · intro h
      obtain ⟨⟨top, rest⟩, hcut, h⟩ := Option.bind_eq_some_iff.1 h
      obtain ⟨u, hu, h⟩ := Option.bind_eq_some_iff.1 h
      obtain ⟨hname, hdot⟩ := Text.cut_eq_some hcut
      obtain ⟨path, hbelow, hleads⟩ :
          ∃ path, IsBelow (top ++ '.' :: rest) top path ∧ u.LeadsTo path v :=
        descendPath_eq_some_iff.1 h
      rw [← hname] at hbelow
      exact .inside hown hdot hbelow hu hleads
    · intro h
      cases h with
      | key own => rw [hown] at own; cases own
      | @inside top path u _ own hdot hbelow hu hleads =>
        by_cases hpath : path = []
        · -- the name would be a key after all
          subst hpath
          rw [← isBelow_nil_iff.1 hbelow, String.ofList_toList, hown] at hu
          cases hu
        · obtain ⟨rest, hname⟩ := hbelow.exists_append hpath
          rw [hname] at hbelow
          have hcut : Text.cut '.' name.toList = some (top, rest) := by
            rw [hname, Text.cut_append hdot]
          refine Option.bind_eq_some_iff.2 ⟨_, hcut, Option.bind_eq_some_iff.2 ⟨u, hu, ?_⟩⟩
          exact descendPath_eq_some_iff.2 ⟨path, hbelow, hleads⟩

/-- A file gives nothing under the names that it does not define. -/
theorem find?_eq_none_iff {f : VariableFile} {name : String} :
    f.find? name.toList = none ↔ ¬f.Defines name := by
  rw [Option.eq_none_iff_forall_ne_some, Defines, not_exists]
  exact forall_congr' fun v => not_congr find?_eq_some_iff

end VariableFile

end Rollout
