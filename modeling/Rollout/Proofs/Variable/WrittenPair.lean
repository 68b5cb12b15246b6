import Rollout.Interpolation
import Rollout.Proofs.Substitution.Faults
import Rollout.Proofs.Text.Joining
import Rollout.Proofs.Text.Trimming
import Rollout.Proofs.Variable.Precedence

/-!
# Pairs written as text

A text is a pair if it has an equals sign and the text before the first one is not blank: that text
without the blanks around it is the name, and all that follows is for the value. The value is what
that spells out as a document if this is a truth value, a number or text, and else the text itself
(`StandsFor`). So the value of such a pair can always stand in a text. The main statement is
`Binding.parse_gives_embeddable`: substitution with such pairs alone can fail in one way only, for a
placeholder whose name is the name of none of them.
-/

namespace Rollout

open Yaml (Value)
open Substitution (Use uses)

/-- A truth value, a number or text. -/
inductive Yaml.Value.IsSimple : Value → Prop
  | bool (b : Bool) : IsSimple (.bool b)
  | number (n : Yaml.Number) : IsSimple (.number n)
  | string (s : String) : IsSimple (.string s)

/-- A simple value is no mapping under its tags. -/
theorem Yaml.Value.IsSimple.ne_mapping {v : Value} (h : v.IsSimple) (es : Yaml.Entries) :
    v.underTags ≠ .mapping es := by
  cases h <;> exact nofun

/-- A simple value is not compound. -/
theorem Yaml.Value.IsSimple.isCompound_eq_false {v : Value} (h : v.IsSimple) :
    Substitution.isCompound v = false := by
  cases h <;> rfl

/-- There is nothing inside a simple value. -/
theorem Yaml.Value.IsSimple.leadsTo_iff {v w : Value} {path : List (List Char)}
    (h : v.IsSimple) : v.LeadsTo path w ↔ path = [] ∧ v = w := by
  constructor
  · intro hleads
    cases hleads with
    | here => exact ⟨rfl, rfl⟩
    | entry mapping => exact absurd mapping (h.ne_mapping _)
  · rintro ⟨rfl, rfl⟩
    exact .here v

namespace Binding

variable {text : String} {v w : Value} {b : Binding} {pairs : List Binding} {name : String}
  {u : Use}

/-! ## What a text stands for -/

/-- What the text after an equals sign stands for: the simple value that it spells out as a
document, and itself if it is empty or spells out no such value. -/
inductive StandsFor (text : String) : Value → Prop
  | spelled {v : Value} (nonempty : text ≠ "") (document : Value.ofText text = .ok v)
    (simple : v.IsSimple) : StandsFor text v
  | verbatim (other : text ≠ "" → ∀ v, Value.ofText text = .ok v → ¬v.IsSimple) :
    StandsFor text (.string text)

/-- A text stands for a simple value. -/
theorem StandsFor.isSimple (h : StandsFor text v) : v.IsSimple := by
  cases h with
  | spelled nonempty document simple => exact simple
  | verbatim other => exact .string text

/-- A text stands for the value that is made of it. -/
theorem standsFor_valueOf (text : String) : StandsFor text (valueOf text) := by
  unfold valueOf
  split
  · next hempty =>
    obtain rfl := String.isEmpty_iff.1 hempty
    exact .verbatim fun hne => absurd rfl hne
  · next hempty =>
    have hne : text ≠ "" := fun h => hempty (String.isEmpty_iff.2 h)
    split
    · next b hb => exact .spelled hne hb (.bool b)
    · next n hn => exact .spelled hne hn (.number n)
    · next s hs => exact .spelled hne hs (.string s)
    · next hbool hnumber hstring =>
      refine .verbatim fun _ v hv hsimple => ?_
      cases hsimple with
      | bool b => exact hbool b hv
      | number n => exact hnumber n hv
      | string s => exact hstring s hv

/-- A text stands for one value. -/
theorem StandsFor.unique (hv : StandsFor text v) (hw : StandsFor text w) : v = w := by
  cases hv with
  | spelled nonempty document simple =>
    cases hw with
    | spelled _ document' _ => exact Except.ok.inj (document.symm.trans document')
    | verbatim other => exact absurd simple (other nonempty v document)
  | verbatim other =>
    cases hw with
    | spelled nonempty document simple => exact absurd simple (other nonempty w document)
    | verbatim _ => rfl

/-- A text is read as what it stands for. -/
theorem valueOf_eq_iff : valueOf text = v ↔ StandsFor text v := by
  constructor
  · rintro rfl
    exact standsFor_valueOf text
  · intro h
    exact (standsFor_valueOf text).unique h

/-! ## Pairs as texts -/

/-- A text that is a pair has an equals sign, and it is cut at the first one. -/
theorem exists_append_of_parse (h : parse text = .ok b) : ∃ before after,
    text = before ++ "=" ++ after ∧ '=' ∉ before.toList := by
  unfold parse at h
  split at h
  · cases h
  · next before after hcut => exact ⟨before, after, Text.cutAt_eq_some_iff.1 hcut⟩

/-- The pair that a text with an equals sign is read as. -/
theorem parse_append_eq_ok_iff {before after : String} (hmem : '=' ∉ before.toList) :
    parse (before ++ "=" ++ after) = .ok b ↔
      Text.Trims before.toList b.name.toList ∧ b.name ≠ "" ∧ StandsFor after b.value := by
  obtain ⟨name, value⟩ := b
  have hcut : Text.cutAt '=' (before ++ "=" ++ after) = some (before, after) :=
    Text.cutAt_eq_some_iff.2 ⟨rfl, hmem⟩
  unfold parse
  rw [hcut, ← Text.trim_eq_iff, ← valueOf_eq_iff]
  dsimp only
  rw [ne_eq, ← String.isEmpty_iff]
  split
  · next hempty =>
    constructor
    · intro h
      cases h
    · rintro ⟨rfl, hname, -⟩
      exact absurd hempty hname
  · next hempty =>
    rw [Except.ok.injEq, Binding.mk.injEq]
    constructor
    · rintro ⟨rfl, hvalue⟩
      exact ⟨rfl, hempty, hvalue⟩
    · rintro ⟨hname, -, hvalue⟩
      exact ⟨hname, hvalue⟩

/-- The name is missing if there are blanks only before the equals sign. -/
theorem exists_parse_eq_ok_iff : (∃ b, parse text = .ok b) ↔ ∃ before after,
    text = before ++ "=" ++ after ∧ '=' ∉ before.toList ∧
      ¬∀ c ∈ before.toList, Text.isBlank c = true := by
  constructor
  · rintro ⟨b, h⟩
    obtain ⟨before, after, rfl, hmem⟩ := exists_append_of_parse h
    obtain ⟨htrims, hname, -⟩ := (parse_append_eq_ok_iff hmem).1 h
    refine ⟨before, after, rfl, hmem, fun hblank => hname ?_⟩
    exact String.toList_inj.1 (htrims.eq_nil_iff.2 hblank)
  · rintro ⟨before, after, rfl, hmem, hblank⟩
    have htrims : Text.Trims before.toList (Text.trim before).toList := Text.trim_eq_iff.1 rfl
    refine ⟨⟨Text.trim before, valueOf after⟩, (parse_append_eq_ok_iff hmem).2 ⟨htrims, ?_, ?_⟩⟩
    · intro hname
      exact hblank (htrims.eq_nil_iff.1 (String.toList_inj.2 hname))
    · exact standsFor_valueOf after

/-- The value of a pair is simple. -/
theorem isSimple_of_parse (h : parse text = .ok b) : b.value.IsSimple := by
  obtain ⟨before, after, rfl, hmem⟩ := exists_append_of_parse h
  obtain ⟨-, -, hvalue⟩ := (parse_append_eq_ok_iff hmem).1 h
  exact hvalue.isSimple

/-! ## Substitution with such pairs -/

/-- A pair with a simple value gives it to its own name and nothing to any other. -/
theorem gives_iff_of_isSimple (h : b.value.IsSimple) :
    b.Gives name v ↔ name = b.name ∧ b.value = v := by
  unfold Gives
  simp only [h.leadsTo_iff]
  constructor
  · rintro ⟨path, hbelow, rfl, hv⟩
    exact ⟨String.toList_inj.1 (isBelow_nil_iff.1 hbelow), hv⟩
  · rintro ⟨rfl, hv⟩
    exact ⟨[], isBelow_nil_iff.2 rfl, rfl, hv⟩

/-- A pair with a simple value defines its own name and no other. -/
theorem defines_iff_of_isSimple (h : b.value.IsSimple) : b.Defines name ↔ b.name = name := by
  unfold Defines
  simp only [gives_iff_of_isSimple h]
  constructor
  · rintro ⟨_, hname, -⟩
    exact hname.symm
  · rintro rfl
    exact ⟨b.value, rfl, rfl⟩

/-- Without files the pairs alone are searched. -/
theorem value?_pairs (pairs : List Binding) (name : String) :
    Variables.value? ⟨pairs, []⟩ name = Variables.findPair? ⟨pairs, []⟩ name := by
  unfold Variables.value? Variables.lookup
  cases Variables.findPair? ⟨pairs, []⟩ name <;> rfl

/-- With pairs that have simple values a placeholder is at fault only if none of them has its
name. -/
theorem atFault_iff_of_isSimple (h : ∀ b ∈ pairs, b.value.IsSimple) :
    u.AtFault (Variables.value? ⟨pairs, []⟩) ↔ u.IsUndefined (Variables.value? ⟨pairs, []⟩) := by
  unfold Use.AtFault Use.IsMisplaced
  refine or_iff_left ?_
  rintro ⟨-, value, hvalue, hcompound⟩
  rw [value?_pairs, Variables.findPair?_eq_some_iff] at hvalue
  obtain ⟨before, b, after, rfl, hgives, -⟩ := hvalue
  have hsimple : b.value.IsSimple := h b (by simp)
  obtain ⟨-, rfl⟩ := (gives_iff_of_isSimple hsimple).1 hgives
  rw [hsimple.isCompound_eq_false] at hcompound
  cases hcompound

/-- Among pairs with simple values a placeholder is undefined exactly if none has its name. -/
theorem isUndefined_iff_of_isSimple (h : ∀ b ∈ pairs, b.value.IsSimple) :
    u.IsUndefined (Variables.value? ⟨pairs, []⟩) ↔ ∀ b ∈ pairs, b.name ≠ u.name := by
  unfold Use.IsUndefined
  rw [value?_pairs, Variables.findPair?_eq_none_iff]
  exact forall₂_congr fun b hb => not_congr (defines_iff_of_isSimple (h b hb))

/-- Substitution succeeds if every placeholder has the name of a pair. -/
theorem exists_evaluate_eq_ok_iff (h : ∀ b ∈ pairs, b.value.IsSimple) {d : Value} :
    (∃ v, Substitution.evaluate (Variables.value? ⟨pairs, []⟩) d = .ok v) ↔
      ∀ u ∈ uses d, ∃ b ∈ pairs, b.name = u.name := by
  have hfails : (∃ e, Substitution.evaluate (Variables.value? ⟨pairs, []⟩) d = .error e) ↔ _ :=
    Substitution.exists_evaluate_eq_error_iff
  simp only [atFault_iff_of_isSimple h, isUndefined_iff_of_isSimple h] at hfails
  cases hd : Substitution.evaluate (Variables.value? ⟨pairs, []⟩) d with
  | ok v => simpa [hd] using hfails
  | error e => simpa [hd] using hfails

/-- Substitution fails for a placeholder that has the name of no pair. -/
theorem missing_of_evaluate_eq_error (h : ∀ b ∈ pairs, b.value.IsSimple) {d : Value}
    {e : DeployError} (herror : (Substitution.evaluate (Variables.value? ⟨pairs, []⟩) d).mapError
      SubstitutionError.toDeployError = .error e) :
    ∃ u ∈ uses d, (∀ b ∈ pairs, b.name ≠ u.name) ∧ e = .missingVariable u.name := by
  rw [← failure?_eq_some_iff, failure?_mapError, Substitution.failure?_evaluate,
    Option.map_eq_some_iff] at herror
  obtain ⟨e, hfault, rfl⟩ := herror
  obtain ⟨u, hfirst, hu⟩ := Substitution.firstFault?_uses_eq_some_iff.1 hfault
  have hundefined := (atFault_iff_of_isSimple h).1 hfirst.atFault
  obtain ⟨before, behind, huses, -, -⟩ := hfirst
  refine ⟨u, by simp [huses], (isUndefined_iff_of_isSimple h).1 hundefined, ?_⟩
  rw [Use.fault?_of_isUndefined hundefined] at hu
  obtain rfl := Option.some.inj hu
  rfl

/-- A text is a pair exactly if it has an equals sign and not only blanks before the first one. Its
name is what is left of the text before that sign between blanks, and its value is what all the text
after it stands for, further equals signs included: a truth value, a number or text. With such pairs
alone substitution in a document succeeds exactly if every placeholder has the name of one of them,
and whatever else it comes to is that the variable of a placeholder is missing. -/
theorem parse_gives_embeddable :
    (∀ text, (∃ b, parse text = .ok b) ↔ ∃ before after, text = before ++ "=" ++ after ∧
      '=' ∉ before.toList ∧ ¬∀ c ∈ before.toList, Text.isBlank c = true) ∧
    (∀ before after b, '=' ∉ before.toList → parse (before ++ "=" ++ after) = .ok b →
      Text.Trims before.toList b.name.toList ∧ StandsFor after b.value ∧ b.value.IsSimple) ∧
    ∀ pairs, (∀ b ∈ pairs, ∃ text, parse text = .ok b) → ∀ d,
      ((∃ v, Substitution.evaluate (Variables.value? ⟨pairs, []⟩) d = .ok v) ↔
        ∀ u ∈ uses d, ∃ b ∈ pairs, b.name = u.name) ∧
      ∀ e, (Substitution.evaluate (Variables.value? ⟨pairs, []⟩) d).mapError
          SubstitutionError.toDeployError = .error e →
        ∃ u ∈ uses d, (∀ b ∈ pairs, b.name ≠ u.name) ∧ e = .missingVariable u.name := by
  refine ⟨fun text => exists_parse_eq_ok_iff, fun before after b hmem h => ?_,
    fun pairs hpairs d => ?_⟩
  · obtain ⟨htrims, -, hvalue⟩ := (parse_append_eq_ok_iff hmem).1 h
    exact ⟨htrims, hvalue, hvalue.isSimple⟩
  · have hsimple : ∀ b ∈ pairs, b.value.IsSimple := by
      intro b hb
      obtain ⟨text, htext⟩ := hpairs b hb
      exact isSimple_of_parse htext
    exact ⟨exists_evaluate_eq_ok_iff hsimple, fun e => missing_of_evaluate_eq_error hsimple⟩

/-- A text that spells out a sequence is the value itself, so that it can stand in a longer text. A
placeholder for another name is missing its variable. -/
theorem parse_gives_embeddable_sequence :
    ∃ b, parse " list =[1, 2]" = .ok b ∧ b.name = "list" ∧ b.value = .string "[1, 2]" ∧
      (∃ v, Substitution.evaluate (Variables.value? ⟨[b], []⟩) (.string "x-((list))") = .ok v) ∧
      ∀ e, (Substitution.evaluate (Variables.value? ⟨[b], []⟩)
        (.string "((list.0))")).mapError SubstitutionError.toDeployError = .error e →
          e = .missingVariable "list.0" := by
  obtain ⟨hexists, hparts, hpairs⟩ := parse_gives_embeddable
  have hnoEquals : '=' ∉ " list ".toList := by decide +kernel
  have hnamed : ¬∀ c ∈ " list ".toList, Text.isBlank c = true := by
    intro h
    exact absurd (h 'l' (by decide +kernel)) (by decide +kernel)
  obtain ⟨b, hb⟩ := (hexists " list =[1, 2]").2 ⟨" list ", "[1, 2]", rfl, hnoEquals, hnamed⟩
  obtain ⟨htrims, hvalue, -⟩ := hparts " list " "[1, 2]" b hnoEquals hb
  have hname : b.name = "list" := (Text.trim_eq_iff.2 htrims).symm.trans (by decide +kernel)
  have hsequence : (Value.ofText "[1, 2]").toOption.any Substitution.isCompound = true := by
    decide +kernel
  have hstring : b.value = .string "[1, 2]" := by
    refine hvalue.unique (.verbatim fun _ v hv hsimple => ?_)
    obtain ⟨w, hw, hcompound⟩ := any_toOption_iff.1 hsequence
    obtain rfl := Except.ok.inj (hv.symm.trans hw)
    rw [hsimple.isCompound_eq_false] at hcompound
    cases hcompound
  have huses : uses (.string "x-((list))") = [⟨"list", true⟩] ∧
      uses (.string "((list.0))") = [⟨"list.0", false⟩] := by decide +kernel
  have hpair := hpairs [b] (List.forall_mem_singleton.2 ⟨_, hb⟩)
  refine ⟨b, hb, hname, hstring, (hpair _).1.2 ?_, fun e he => ?_⟩
  · rw [huses.1]
    simpa using hname
  · obtain ⟨u, hu, -, rfl⟩ := (hpair _).2 e he
    rw [huses.2, List.mem_singleton] at hu
    rw [hu]

end Binding

end Rollout
