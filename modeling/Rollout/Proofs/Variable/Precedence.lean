import Rollout.Proofs.Variable.Definition

/-!
# Which source decides

A name has the value that the last of the pairs that define it gives (`PairsGive`), and if no pair
defines it the value that the first of the files that define it gives (`FilesGive`). So files do not
matter to a name that a pair defines, and to any other name neither the files after the first that
defines it nor those that do not define it. A pair that comes last gives its name its value, and
matters to the names below that one and to no others. The main statement is
`lookup_is_precedence_chain`.
-/

namespace Rollout

open Yaml (Value)

/-- Among some pairs, the last one that defines a name gives it a value. -/
def PairsGive (pairs : List Binding) (name : String) (v : Value) : Prop :=
  ∃ before b after, pairs = before ++ b :: after ∧ b.Gives name v ∧ ∀ c ∈ after, ¬c.Defines name

/-- Among some files, one is the first that defines a name and gives it a value. -/
def FilesGive (files : List VariableFile) (name : String) (f : VariableFile) (v : Value) : Prop :=
  ∃ before after, files = before ++ f :: after ∧ f.Gives name v ∧ ∀ g ∈ before, ¬g.Defines name

variable {pairs : List Binding} {files : List VariableFile} {name : String} {v : Value}
  {b : Binding} {f : VariableFile}

/-! ## Names that a pair defines -/

/-- A pair gives its own name its value. -/
theorem Binding.gives_self (b : Binding) : b.Gives b.name b.value :=
  ⟨[], isBelow_nil_iff.2 rfl, .here _⟩

/-- A pair defines its own name and names below it. -/
theorem Binding.cases_of_defines (h : b.Defines name) :
    name = b.name ∨ ∃ rest, name = b.name ++ "." ++ rest := by
  obtain ⟨v, path, hbelow, -⟩ := h
  by_cases hpath : path = []
  · subst hpath
    exact .inl (String.toList_inj.1 (isBelow_nil_iff.1 hbelow))
  · obtain ⟨rest, hname⟩ := hbelow.exists_append hpath
    refine .inr ⟨.ofList rest, String.toList_inj.1 ?_⟩
    rw [hname]
    simp

namespace Variables

/-- The pairs give nothing exactly if none defines the name. -/
theorem findPair?_eq_none_iff :
    findPair? ⟨pairs, files⟩ name = none ↔ ∀ b ∈ pairs, ¬b.Defines name := by
  rw [findPair?, List.findSome?_eq_none_iff]
  simp only [List.mem_reverse, Binding.find?_eq_none_iff]

/-- Among the pairs the last one is asked first. -/
theorem findPair?_eq_some_iff :
    findPair? ⟨pairs, files⟩ name = some v ↔ PairsGive pairs name v := by
  rw [findPair?, List.findSome?_eq_some_iff]
  constructor
  · rintro ⟨after, b, before, hpairs, hb, hafter⟩
    refine ⟨before.reverse, b, after.reverse, ?_, Binding.find?_eq_some_iff.1 hb, ?_⟩
    · rw [← List.reverse_reverse pairs, hpairs]
      simp
    · intro c hc
      exact Binding.find?_eq_none_iff.1 (hafter c (List.mem_reverse.1 hc))
  · rintro ⟨before, b, after, rfl, hb, hafter⟩
    refine ⟨after.reverse, b, before.reverse, by simp, Binding.find?_eq_some_iff.2 hb, ?_⟩
    intro c hc
    exact Binding.find?_eq_none_iff.2 (hafter c (List.mem_reverse.1 hc))

/-- The pairs that come last are asked first. -/
theorem findPair?_append (before after : List Binding) :
    findPair? ⟨before ++ after, files⟩ name =
      (findPair? ⟨after, files⟩ name).or (findPair? ⟨before, files⟩ name) := by
  rw [findPair?, findPair?, findPair?, List.reverse_append, List.findSome?_append]

/-! ## Names that a file defines -/

/-- The files give nothing exactly if none defines the name. -/
theorem findFile?_eq_none_iff :
    findFile? ⟨pairs, files⟩ name = none ↔ ∀ f ∈ files, ¬f.Defines name := by
  rw [findFile?, List.findSome?_eq_none_iff]
  simp only [Option.map_eq_none_iff, VariableFile.find?_eq_none_iff]

/-- Among the files the first one is asked first. -/
theorem findFile?_eq_some_iff {o : Origin} : findFile? ⟨pairs, files⟩ name = some (v, o) ↔
    ∃ f, FilesGive files name f v ∧ o = .file f.name := by
  rw [findFile?, List.findSome?_eq_some_iff]
  constructor
  · rintro ⟨before, f, after, rfl, hf, hbefore⟩
    obtain ⟨w, hw, heq⟩ := Option.map_eq_some_iff.1 hf
    obtain ⟨rfl, rfl⟩ := Prod.mk.inj heq
    refine ⟨f, ⟨before, after, rfl, VariableFile.find?_eq_some_iff.1 hw, fun g hg => ?_⟩, rfl⟩
    exact VariableFile.find?_eq_none_iff.1 (Option.map_eq_none_iff.1 (hbefore g hg))
  · rintro ⟨f, ⟨before, after, rfl, hf, hbefore⟩, rfl⟩
    refine ⟨before, f, after, rfl, ?_, fun g hg => ?_⟩
    · rw [VariableFile.find?_eq_some_iff.2 hf, Option.map_some]
    · rw [VariableFile.find?_eq_none_iff.2 (hbefore g hg), Option.map_none]

/-- Files that do not define a name do not matter to it, wherever they stand. -/
theorem findFile?_of_not_defines {before others after : List VariableFile}
    (h : ∀ g ∈ others, ¬g.Defines name) :
    findFile? ⟨pairs, before ++ others ++ after⟩ name =
      findFile? ⟨pairs, before ++ after⟩ name := by
  have hothers : findFile? ⟨pairs, others⟩ name = none := findFile?_eq_none_iff.2 h
  rw [findFile?] at hothers ⊢
  rw [findFile?, List.findSome?_append, List.findSome?_append, hothers, Option.or_none,
    List.findSome?_append]

/-! ## The chain -/

/-- A name that a pair defines has the value that the pairs give, whatever the files are. -/
theorem lookup_of_pairsGive (h : PairsGive pairs name v) (files : List VariableFile) :
    lookup ⟨pairs, files⟩ name = some (v, .pair) := by
  rw [lookup, findPair?_eq_some_iff.2 h]

/-- A name that no pair defines is looked up in the files. -/
theorem lookup_of_not_defines (h : ∀ b ∈ pairs, ¬b.Defines name) (files : List VariableFile) :
    lookup ⟨pairs, files⟩ name = findFile? ⟨pairs, files⟩ name := by
  rw [lookup, findPair?_eq_none_iff.2 h]

/-- Pairs of which one defines a name give it a value. -/
theorem exists_pairsGive (h : ∃ b ∈ pairs, b.Defines name) : ∃ v, PairsGive pairs name v := by
  cases hfind : findPair? ⟨pairs, []⟩ name with
  | some v => exact ⟨v, findPair?_eq_some_iff.1 hfind⟩
  | none =>
    obtain ⟨b, hb, hdefines⟩ := h
    exact absurd hdefines (findPair?_eq_none_iff.1 hfind b hb)

/-- Files of which one defines a name give it a value. -/
theorem exists_filesGive (h : ∃ f ∈ files, f.Defines name) : ∃ f v, FilesGive files name f v := by
  cases hfind : findFile? ⟨[], files⟩ name with
  | some found =>
    obtain ⟨f, hf, -⟩ := findFile?_eq_some_iff.1 hfind
    exact ⟨f, _, hf⟩
  | none =>
    obtain ⟨f, hf, hdefines⟩ := h
    exact absurd hdefines (findFile?_eq_none_iff.1 hfind f hf)

/-- The look-up of a name depends on the pairs only through what they find. -/
theorem lookup_congr {pairs' : List Binding}
    (h : findPair? ⟨pairs, files⟩ name = findPair? ⟨pairs', files⟩ name) :
    lookup ⟨pairs, files⟩ name = lookup ⟨pairs', files⟩ name := by
  rw [lookup, lookup, h]
  rfl

/-- The sources of variables form one chain. A name that some pair defines, for itself or for a name
that it lies below, has the value that the last such pair gives, and comes from a pair whatever the
files are. Any other name has the value that the first file that defines it gives, and comes from
that file, whatever comes after this file and whichever files that do not define the name come
before it; a name that nothing defines has no value. Files that do not define a name change nothing
for it, wherever they are put in. A further pair gives its own name its value, and changes nothing
for a name that is not below its own. -/
theorem lookup_is_precedence_chain (pairs : List Binding) (files : List VariableFile)
    (name : String) :
    ((∃ b ∈ pairs, b.Defines name) → ∃ v, PairsGive pairs name v ∧
      ∀ others, lookup ⟨pairs, others⟩ name = some (v, .pair)) ∧
    ((∀ b ∈ pairs, ¬b.Defines name) →
      ((∃ f ∈ files, f.Defines name) → ∃ f v, FilesGive files name f v ∧
        ∀ before after, (∀ g ∈ before, ¬g.Defines name) →
          lookup ⟨pairs, before ++ f :: after⟩ name = some (v, .file f.name)) ∧
      ((∀ f ∈ files, ¬f.Defines name) → lookup ⟨pairs, files⟩ name = none)) ∧
    (∀ before others after, files = before ++ after → (∀ g ∈ others, ¬g.Defines name) →
      lookup ⟨pairs, before ++ others ++ after⟩ name = lookup ⟨pairs, files⟩ name) ∧
    (∀ v, lookup ⟨pairs ++ [⟨name, v⟩], files⟩ name = some (v, .pair)) ∧
    ∀ n v, name ≠ n → (¬∃ rest, name = n ++ "." ++ rest) →
      lookup ⟨pairs ++ [⟨n, v⟩], files⟩ name = lookup ⟨pairs, files⟩ name := by
  refine ⟨fun h => ?_, fun hpairs => ⟨fun h => ?_, fun hfiles => ?_⟩, ?_, fun v => ?_, ?_⟩
  · obtain ⟨v, hv⟩ := exists_pairsGive h
    exact ⟨v, hv, lookup_of_pairsGive hv⟩
  · obtain ⟨f, v, hgive⟩ := exists_filesGive h
    refine ⟨f, v, hgive, fun before after hbefore => ?_⟩
    obtain ⟨-, -, -, hf, -⟩ := hgive
    rw [lookup_of_not_defines hpairs, findFile?_eq_some_iff]
    exact ⟨f, ⟨before, after, rfl, hf, hbefore⟩, rfl⟩
  · rw [lookup_of_not_defines hpairs, findFile?_eq_none_iff]
    exact hfiles
  · rintro before others after rfl hothers
    have hfind : findFile? ⟨pairs, before ++ others ++ after⟩ name =
        findFile? ⟨pairs, before ++ after⟩ name := findFile?_of_not_defines hothers
    rw [lookup, lookup, hfind]
    rfl
  · exact lookup_of_pairsGive ⟨pairs, ⟨name, v⟩, [], rfl, Binding.gives_self _, by simp⟩ files
  · intro n v hne hbelow
    have hlast : findPair? ⟨[⟨n, v⟩], files⟩ name = none := by
      rw [findPair?_eq_none_iff, List.forall_mem_singleton]
      intro hdefines
      exact (Binding.cases_of_defines hdefines).elim hne hbelow
    refine lookup_congr ?_
    rw [findPair?_append, hlast, Option.none_or]

/-- A pair with one thing inside. -/
def userPair : Binding := ⟨"db", .mapping [(.string "user", .string "admin")]⟩

/-- A file with more in the same place. -/
def databaseFile : VariableFile where
  name := "database.yml"
  entries := [(.string "db",
    .mapping [(.string "user", .string "guest"), (.string "port", .number (.integer 5432))])]

/-- A file with a key that has a dot in it. -/
def portFile : VariableFile := ⟨"port.yml", [(.string "db.port", .number (.integer 1))]⟩

/-- The pair decides on the one name that lies below its own, and the first of the files on the
other. -/
theorem lookup_is_precedence_chain_sample :
    (∀ files, lookup ⟨[userPair], files⟩ "db.user" = some (.string "admin", .pair)) ∧
      (∀ b ∈ [userPair], ¬b.Defines "db.port") ∧
      (∃ f, f.name = "database.yml" ∧ ∀ before after, (∀ g ∈ before, ¬g.Defines "db.port") →
        lookup ⟨[userPair], before ++ f :: after⟩ "db.port" =
          some (.number (.integer 5432), .file "database.yml")) ∧
      lookup ⟨[userPair], [databaseFile] ++ [portFile] ++ []⟩ "db.user" =
        lookup ⟨[userPair], [databaseFile]⟩ "db.user" ∧
      lookup ⟨[userPair] ++ [⟨"d", .null⟩], []⟩ "db.user" = lookup ⟨[userPair], []⟩ "db.user" := by
  have huser : ∃ b ∈ [userPair], b.Defines "db.user" :=
    ⟨userPair, List.mem_cons_self, _, Binding.find?_eq_some_iff.1 rfl⟩
  have hport : ∀ b ∈ [userPair], ¬b.Defines "db.port" :=
    List.forall_mem_singleton.2 (Binding.find?_eq_none_iff.1 rfl)
  have hfile : ∃ f ∈ [databaseFile, portFile], f.Defines "db.port" :=
    ⟨databaseFile, List.mem_cons_self, _, VariableFile.find?_eq_some_iff.1 rfl⟩
  have hother : ∀ g ∈ [portFile], ¬g.Defines "db.user" :=
    List.forall_mem_singleton.2 (VariableFile.find?_eq_none_iff.1 rfl)
  have hbelow : ¬∃ rest, "db.user" = "d" ++ "." ++ rest := by
    rintro ⟨rest, h⟩
    have hchars : "db.user".toList = 'd' :: '.' :: rest.toList := by rw [h]; simp
    simp at hchars
  obtain ⟨hpairs, -, hadded, -, -⟩ :=
    lookup_is_precedence_chain [userPair] [databaseFile] "db.user"
  obtain ⟨-, hfiles, -⟩ := lookup_is_precedence_chain [userPair] [databaseFile, portFile] "db.port"
  obtain ⟨v, -, hv⟩ := hpairs huser
  obtain ⟨f, w, ⟨before, after, hlisted, -, hbefore⟩, hw⟩ := (hfiles hport).1 hfile
  have hvalue : some (v, Origin.pair) = some (.string "admin", .pair) := (hv []).symm
  have hfound : some (w, Origin.file f.name) =
      some (.number (.integer 5432), .file "database.yml") := by
    rw [← hw before after hbefore, ← hlisted]
    rfl
  obtain ⟨rfl, -⟩ := Prod.mk.inj (Option.some.inj hvalue)
  obtain ⟨rfl, horigin⟩ := Prod.mk.inj (Option.some.inj hfound)
  have hname : f.name = "database.yml" := Origin.file.inj horigin
  rw [hname] at hw
  obtain ⟨-, -, -, -, hlast⟩ := lookup_is_precedence_chain [userPair] [] "db.user"
  exact ⟨hv, hport, ⟨f, hname, hw⟩, hadded _ _ [] rfl hother,
    hlast "d" .null (by decide) hbelow⟩

end Variables

end Rollout
