import Rollout.Proofs.Substitution.Dependence
import Rollout.Proofs.Variable.WrittenPair

/-!
# Pairs that a later pair overrides

A pair whose name comes again later in the list is overridden, but only where the later pair gives
something itself. A name that reaches into the value of the earlier pair, to a place that no later
pair has, still finds what lies there (`Binding.ShowsThrough`). These are the only names for which
the earlier pair matters, and there are none if its value is no mapping, as with all pairs of the
command line. The main statement is `overridden_pair_shows_through`.
-/

namespace Rollout

open Yaml (Value Entries)

/-- A pair shows through the pairs after it at a name that it defines and they do not. -/
structure Binding.ShowsThrough (b : Binding) (after : List Binding) (name : String) (v : Value) :
    Prop where
  given : b.Gives name v
  not_defined : ∀ c ∈ after, ¬c.Defines name

variable {b : Binding} {before after : List Binding} {files : List VariableFile} {name : String}
  {v : Value}

namespace Binding

/-- A pair that is overridden shows through below its name only, where its value leads along a path
that the later pair of this name does not have. -/
theorem ShowsThrough.exists_path (h : b.ShowsThrough after name v)
    (hoverridden : ∃ c ∈ after, c.name = b.name) :
    ∃ path, path ≠ [] ∧ IsBelow name.toList b.name.toList path ∧ b.value.LeadsTo path v ∧
      ∀ c ∈ after, c.name = b.name → ∀ w, ¬c.value.LeadsTo path w := by
  obtain ⟨path, hbelow, hleads⟩ := h.given
  refine ⟨path, ?_, hbelow, hleads, fun c hc hname w hw => ?_⟩
  · rintro rfl
    obtain ⟨c, hc, hname⟩ := hoverridden
    have hself : c.Gives name c.value := ⟨[], by rwa [hname], .here _⟩
    exact h.not_defined c hc ⟨_, hself⟩
  · have hgives : c.Gives name w := ⟨path, by rwa [hname], hw⟩
    exact h.not_defined c hc ⟨w, hgives⟩

/-- A pair that is overridden and has nothing inside does not show through. -/
theorem not_showsThrough_of_ne_mapping (hvalue : ∀ es, b.value.underTags ≠ .mapping es)
    (hoverridden : ∃ c ∈ after, c.name = b.name) : ¬b.ShowsThrough after name v := by
  intro h
  obtain ⟨path, hpath, -, hleads, -⟩ := h.exists_path hoverridden
  cases hleads with
  | here => exact hpath rfl
  | entry mapping => exact hvalue _ mapping

/-- A pair on the command line has nothing inside. -/
theorem ne_mapping_of_parse {text : String} (h : parse text = .ok b) (es : Entries) :
    b.value.underTags ≠ .mapping es := (isSimple_of_parse h).ne_mapping es

end Binding

namespace Variables

/-- Where a pair shows through it is found. -/
theorem lookup_of_showsThrough (h : b.ShowsThrough after name v) :
    lookup ⟨before ++ b :: after, files⟩ name = some (v, .pair) :=
  lookup_of_pairsGive ⟨before, b, after, rfl, h.given, h.not_defined⟩ files

/-- Where a pair does not show through it does not matter. -/
theorem lookup_of_not_showsThrough (h : ∀ v, ¬b.ShowsThrough after name v) :
    lookup ⟨before ++ b :: after, files⟩ name = lookup ⟨before ++ after, files⟩ name := by
  refine lookup_congr ?_
  rw [findPair?_append, findPair?_append, ← List.singleton_append, findPair?_append]
  cases hafter : findPair? ⟨after, files⟩ name with
  | some w => rfl
  | none =>
    have hb : findPair? ⟨[b], files⟩ name = none := by
      rw [findPair?_eq_none_iff, List.forall_mem_singleton]
      rintro ⟨v, hv⟩
      exact h v ⟨hv, findPair?_eq_none_iff.1 hafter⟩
    rw [hb]
    rfl

/-- A manifest whose placeholders a pair does not show through at is interpolated without it. -/
theorem interpolate_of_not_showsThrough {manifest : ByteArray}
    (h : ∀ name ∈ manifestNames manifest, ∀ v, ¬b.ShowsThrough after name v) :
    interpolate manifest ⟨before ++ b :: after, files⟩ =
      interpolate manifest ⟨before ++ after, files⟩ := by
  refine interpolate_congr fun name hname => ?_
  rw [value?, value?, lookup_of_not_showsThrough (h name hname)]

/-- A later pair overrides an earlier one of the same name, except inside the value of that one.
Without the earlier pair every name means the same, and every manifest is interpolated alike, unless
the earlier pair shows through at a name. It is then found there, although it has been overridden;
such a name lies below that of the two pairs, and leads into the value of the earlier one along a
path that the value of the later one does not have. So a pair whose value is no mapping is
overridden altogether, and this is so for all pairs of the command line. -/
theorem overridden_pair_shows_through (before after : List Binding) (files : List VariableFile)
    (b : Binding) (hoverridden : ∃ c ∈ after, c.name = b.name) :
    (∀ name, (∀ v, ¬b.ShowsThrough after name v) →
      lookup ⟨before ++ b :: after, files⟩ name = lookup ⟨before ++ after, files⟩ name) ∧
    (∀ name v, b.ShowsThrough after name v →
      lookup ⟨before ++ b :: after, files⟩ name = some (v, .pair) ∧
      ∃ path, path ≠ [] ∧ IsBelow name.toList b.name.toList path ∧ b.value.LeadsTo path v ∧
        ∀ c ∈ after, c.name = b.name → ∀ w, ¬c.value.LeadsTo path w) ∧
    (∀ manifest, (∀ name ∈ manifestNames manifest, ∀ v, ¬b.ShowsThrough after name v) →
      interpolate manifest ⟨before ++ b :: after, files⟩ =
        interpolate manifest ⟨before ++ after, files⟩) ∧
    ((∀ es, b.value.underTags ≠ .mapping es) → ∀ name v, ¬b.ShowsThrough after name v) ∧
    ∀ text, Binding.parse text = .ok b → ∀ name v, ¬b.ShowsThrough after name v := by
  refine ⟨fun name h => lookup_of_not_showsThrough h, fun name v h => ?_,
    fun manifest h => interpolate_of_not_showsThrough h, fun hvalue name v => ?_,
    fun text htext name v => ?_⟩
  · exact ⟨lookup_of_showsThrough h, h.exists_path hoverridden⟩
  · exact Binding.not_showsThrough_of_ne_mapping hvalue hoverridden
  · exact Binding.not_showsThrough_of_ne_mapping (Binding.ne_mapping_of_parse htext) hoverridden

/-- A pair with one thing inside. -/
def mappingPair : Binding := ⟨"n", .mapping [(.string "a", .number (.integer 1))]⟩

/-- A pair of the same name that has nothing inside. -/
def emptyPair : Binding := ⟨"n", .string ""⟩

/-- In the sample the earlier pair shows through. -/
theorem showsThrough_mappingPair :
    mappingPair.ShowsThrough [emptyPair] "n.a" (.number (.integer 1)) where
  given := Binding.find?_eq_some_iff.1 rfl
  not_defined := List.forall_mem_singleton.2 (Binding.find?_eq_none_iff.1 rfl)

/-- The mapping is overridden for its own name, but not for what is inside it; in the other order
nothing of the overridden pair is left. -/
theorem overridden_pair_shows_through_sample :
    (∃ c ∈ [emptyPair], c.name = mappingPair.name) ∧
      lookup ⟨[] ++ mappingPair :: [emptyPair], []⟩ "n.a" = some (.number (.integer 1), .pair) ∧
      lookup ⟨[] ++ mappingPair :: [emptyPair], []⟩ "n" = lookup ⟨[] ++ [emptyPair], []⟩ "n" ∧
      Binding.parse "n=" = .ok emptyPair ∧
      ∀ manifest, interpolate manifest ⟨[] ++ emptyPair :: [mappingPair], []⟩ =
        interpolate manifest ⟨[] ++ [mappingPair], []⟩ := by
  have hempty : ∃ c ∈ [emptyPair], c.name = mappingPair.name :=
    ⟨emptyPair, List.mem_cons_self, rfl⟩
  have hmapping : ∃ c ∈ [mappingPair], c.name = emptyPair.name :=
    ⟨mappingPair, List.mem_cons_self, rfl⟩
  have hparse : Binding.parse "n=" = .ok emptyPair := rfl
  have hown : ∀ v, ¬mappingPair.ShowsThrough [emptyPair] "n" v := by
    intro v h
    exact h.not_defined _ List.mem_cons_self ⟨_, emptyPair.gives_self⟩
  obtain ⟨hsame, hthrough, -⟩ := overridden_pair_shows_through [] [emptyPair] [] _ hempty
  obtain ⟨-, -, hmanifest, -, htext⟩ :=
    overridden_pair_shows_through [] [mappingPair] [] _ hmapping
  exact ⟨hempty, (hthrough _ _ showsThrough_mappingPair).1, hsame _ hown, hparse,
    fun manifest => hmanifest manifest fun name _ => htext _ hparse name⟩

/-- A pair whose name comes again later can still be found. -/
theorem not_overridden_altogether :
    lookup ⟨[mappingPair, emptyPair], []⟩ "n.a" = some (.number (.integer 1), .pair) ∧
      lookup ⟨[emptyPair], []⟩ "n.a" = none ∧
      interpolate "x: ((n.a))\n".toUTF8 ⟨[mappingPair, emptyPair], []⟩ = .ok "x: 1\n" ∧
      (∃ e, interpolate "x: ((n.a))\n".toUTF8 ⟨[emptyPair], []⟩ = .error e ∧
        e.message = "Expected to find variable 'n.a' in the given variable sources") ∧
      ¬∀ before b after files name, (∃ c ∈ after, c.name = b.name) →
        lookup ⟨before ++ b :: after, files⟩ name = lookup ⟨before ++ after, files⟩ name := by
  have hfound : lookup ⟨[mappingPair, emptyPair], []⟩ "n.a" =
      some (.number (.integer 1), .pair) := rfl
  have hmissing : lookup ⟨[emptyPair], []⟩ "n.a" = none := rfl
  have hwith : (interpolate "x: ((n.a))\n".toUTF8 ⟨[mappingPair, emptyPair], []⟩).toOption =
      some "x: 1\n" := by decide +kernel
  have hwithout : (failure? (interpolate "x: ((n.a))\n".toUTF8 ⟨[emptyPair], []⟩)).map
      DeployError.message =
      some "Expected to find variable 'n.a' in the given variable sources" := by decide +kernel
  obtain ⟨e, he, hmessage⟩ := Option.map_eq_some_iff.1 hwithout
  refine ⟨hfound, hmissing, toOption_eq_some_iff.1 hwith, ⟨e, failure?_eq_some_iff.1 he, hmessage⟩,
    ?_⟩
  intro h
  have hsame := h [] mappingPair [emptyPair] [] "n.a" ⟨emptyPair, List.mem_cons_self, rfl⟩
  rw [List.nil_append, List.nil_append, hfound, hmissing] at hsame
  cases hsame

end Variables

end Rollout
