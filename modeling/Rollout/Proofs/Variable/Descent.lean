import Rollout.Proofs.Variable.Precedence

/-!
# Dotted paths, step by step

A path with dots in it can be followed in two steps, wherever it is parted at a dot: what it leads
to is what its second part leads to from the end of the first, and there is nothing at its end if
there is nothing at the end of the first part. The parts may be empty or have dots themselves. So a
name below that of a pair, or below a key of a file, is looked up by following the rest of the name
inside the value of the pair or of the key. The main statement is `descendPath_composes`.
-/

namespace Rollout

open Yaml (Value)

variable {v u : Value} {name : String} {top rest : List Char} {pairs before after : List Binding}
  {b : Binding} {files earlier later : List VariableFile} {f : VariableFile}

/-! ## Paths in two parts -/

/-- Keys are followed one after the other. -/
theorem descend_append (v : Value) (path path' : List (List Char)) :
    descend v (path ++ path') = (descend v path).bind (descend · path') := by
  induction path generalizing v with
  | nil => rfl
  | cons key path ih =>
    rw [List.cons_append, descend, descend]
    simp only [ih, Option.bind_eq_bind, Option.bind_assoc]

/-- A path is followed up to a dot, and from there on. -/
theorem descendPath_append (v : Value) (p q : List Char) :
    descendPath v (p ++ '.' :: q) = (descendPath v p).bind (descendPath · q) := by
  unfold descendPath
  rw [Text.splitOn_append_cons, descend_append]

/-! ## Names below those of a source -/

/-- In a file a name that is no key is followed inside the value of the key before its first
dot. -/
theorem VariableFile.find?_append (no_dot : '.' ∉ top)
    (own : Value.field? (.ofList (top ++ '.' :: rest)) f.entries = none)
    (member : Value.field? (.ofList top) f.entries = some u) :
    f.find? (top ++ '.' :: rest) = descendPath u rest := by
  rw [find?, own, Text.cut_append no_dot]
  simp [member]

namespace Variables

/-- A name that no other pair defines is looked up in the one pair. -/
theorem findPair?_of_others (h : ∀ c ∈ before ++ after, ¬c.Defines name) :
    findPair? ⟨before ++ b :: after, files⟩ name = b.find? name.toList := by
  have hbefore : findPair? ⟨before, files⟩ name = none :=
    findPair?_eq_none_iff.2 fun c hc => h c (List.mem_append_left _ hc)
  have hafter : findPair? ⟨after, files⟩ name = none :=
    findPair?_eq_none_iff.2 fun c hc => h c (List.mem_append_right _ hc)
  have hpair : findPair? ⟨[b], files⟩ name = b.find? name.toList := by
    rw [findPair?, List.reverse_singleton, List.findSome?_singleton]
  rw [findPair?_append, hbefore, ← List.singleton_append, findPair?_append, hafter, hpair,
    Option.none_or, Option.or_none]

/-- A name that no other file defines is looked up in the one file. -/
theorem findFile?_of_others (h : ∀ g ∈ earlier ++ later, ¬g.Defines name) :
    findFile? ⟨pairs, earlier ++ f :: later⟩ name =
      (f.find? name.toList).map (·, .file f.name) := by
  have hearlier : findFile? ⟨pairs, [] ++ earlier ++ f :: later⟩ name =
      findFile? ⟨pairs, [] ++ f :: later⟩ name :=
    findFile?_of_not_defines fun g hg => h g (List.mem_append_left _ hg)
  have hlater : findFile? ⟨pairs, [f] ++ later ++ []⟩ name = findFile? ⟨pairs, [f] ++ []⟩ name :=
    findFile?_of_not_defines fun g hg => h g (List.mem_append_right _ hg)
  rw [List.append_nil, List.append_nil] at hlater
  rw [List.nil_append, List.nil_append] at hearlier
  rw [hearlier, ← List.singleton_append, hlater, findFile?, List.findSome?_singleton]

/-- A pair decides alone on a name that no other source defines. -/
theorem lookup_of_pair (hpairs : ∀ c ∈ before ++ after, ¬c.Defines name)
    (hfiles : ∀ f ∈ files, ¬f.Defines name) :
    lookup ⟨before ++ b :: after, files⟩ name = (b.find? name.toList).map (·, .pair) := by
  rw [lookup, findPair?_of_others hpairs]
  cases b.find? name.toList with
  | some w => rfl
  | none => exact findFile?_eq_none_iff.2 hfiles

/-- A path that is parted at a dot leads from a value to what its second part leads to from the end
of its first part, and to nothing if there is nothing at the end of the first part; so it leads to
what lies at the end of all its keys. A name that goes on with such a path below the name of a pair
has what the path leads to from the value of the pair, if no other source defines the name. The same
holds below a key of a file, if there is no dot in this key and the whole name is no key of the
file. -/
theorem descendPath_composes (v : Value) (p q : String) :
    descendPath v (p ++ "." ++ q).toList =
      (descendPath v p.toList).bind (descendPath · q.toList) ∧
    ∀ n name : String, name = n ++ "." ++ p ++ "." ++ q →
      (∀ w, descendPath v (p ++ "." ++ q).toList = some w ↔
        ∃ path, IsBelow name.toList n.toList path ∧ v.LeadsTo path w) ∧
      (∀ before after files, (∀ c ∈ before ++ after, ¬c.Defines name) →
        (∀ f ∈ files, ¬f.Defines name) →
        lookup ⟨before ++ ⟨n, v⟩ :: after, files⟩ name =
          (descendPath v (p ++ "." ++ q).toList).map (·, .pair)) ∧
      ∀ pairs earlier f later, '.' ∉ n.toList → Value.field? n f.entries = some v →
        Value.field? name f.entries = none → (∀ b ∈ pairs, ¬b.Defines name) →
        (∀ g ∈ earlier ++ later, ¬g.Defines name) →
        lookup ⟨pairs, earlier ++ f :: later⟩ name =
          (descendPath v (p ++ "." ++ q).toList).map (·, .file f.name) := by
  have hpath : (p ++ "." ++ q).toList = p.toList ++ '.' :: q.toList := by simp
  refine ⟨?_, fun n name hname => ?_⟩
  · rw [hpath, descendPath_append]
  have hchars : name.toList = n.toList ++ '.' :: (p ++ "." ++ q).toList := by
    rw [hname]
    simp
  refine ⟨fun w => ?_, fun before after files hpairs hfiles => ?_, ?_⟩
  · rw [hchars]
    exact descendPath_eq_some_iff
  · rw [lookup_of_pair hpairs hfiles, hchars]
    exact congrArg (Option.map _) (Binding.find?_append ⟨n, v⟩ _)
  · intro pairs earlier f later no_dot member own hpairs hfiles
    rw [lookup_of_not_defines hpairs, findFile?_of_others hfiles, hchars,
      VariableFile.find?_append no_dot]
    · rwa [← hchars, String.ofList_toList]
    · rwa [String.ofList_toList]

/-- A mapping with a key that is empty. -/
def primaryDatabase : Value :=
  .mapping [(.string "primary",
    .mapping [(.string "", .mapping [(.string "port", .number (.integer 5432))])])]

/-- A name with an empty key in it, below that of a pair that another pair of this name overrides,
and below a key of a file. -/
theorem descendPath_composes_sample :
    "db.primary..port" = "db" ++ "." ++ "primary" ++ "." ++ ".port" ∧
      (descendPath primaryDatabase "primary".toList).bind (descendPath · ".port".toList) =
        some (.number (.integer 5432)) ∧
      lookup ⟨[⟨"db", primaryDatabase⟩, userPair], [databaseFile]⟩ "db.primary..port" =
        some (.number (.integer 5432), .pair) ∧
      lookup ⟨[userPair], [portFile, ⟨"db.yml", [(.string "db", primaryDatabase)]⟩]⟩
        "db.primary..port" = some (.number (.integer 5432), .file "db.yml") := by
  have huser : ∀ b ∈ [userPair], ¬b.Defines "db.primary..port" :=
    List.forall_mem_singleton.2 (Binding.find?_eq_none_iff.1 rfl)
  have hdatabase : ∀ f ∈ [databaseFile], ¬f.Defines "db.primary..port" :=
    List.forall_mem_singleton.2 (VariableFile.find?_eq_none_iff.1 rfl)
  have hport : ∀ f ∈ [portFile], ¬f.Defines "db.primary..port" :=
    List.forall_mem_singleton.2 (VariableFile.find?_eq_none_iff.1 rfl)
  obtain ⟨hpath, hbelow⟩ := descendPath_composes primaryDatabase "primary" ".port"
  obtain ⟨-, hpair, hfile⟩ := hbelow "db" "db.primary..port" rfl
  refine ⟨rfl, hpath.symm, hpair [] [userPair] [databaseFile] huser hdatabase, ?_⟩
  exact hfile [userPair] [portFile] ⟨"db.yml", [(.string "db", primaryDatabase)]⟩ [] (by decide) rfl
    rfl huser hport

end Variables

end Rollout
