import Rollout.Proofs.Substitution.Identity
import Rollout.Proofs.Substitution.ProperValues
import Rollout.Proofs.Yaml.RoundTrip

/-!
# Interpolation done twice

A manifest that has been interpolated and in which nothing is left to replace is a fixed point: it
interpolates to itself with any variables (`interpolate_idempotent`). This needs only that its text
is read as the value that it has been written for, and that is so unless the value is nested too
deep or has tags that are not read as they are written (`readBytes_of_interpolate`).
-/

namespace Rollout

open Yaml (Value Reader IsPlainTag IsStableTag)

variable {manifest : ByteArray} {vars : Variables} {v : Value} {text : String}

/-- Interpolation is idempotent once nothing is left to replace: if the value of an interpolated
manifest has no placeholders, whatever has been inserted, and its text is read as that value, then
the text interpolates to itself with any variables. -/
theorem interpolate_idempotent (hv : evaluateManifest manifest vars.value? = .ok v)
    (htext : interpolate manifest vars = .ok text) (hnames : Substitution.names v = [])
    (hread : Reader.value.readBytes text.toUTF8 = .ok v) (vars' : Variables) :
    interpolate text.toUTF8 vars' = .ok text := by
  rw [interpolate, evaluateManifest_eq_self hread hnames, ok_bind,
    write?_of_evaluateManifest hv htext]

/-- What an interpolated manifest is read as, if it has no tags but those that are read as they are
written and is not nested too deep. -/
theorem readBytes_of_interpolate (hvars : vars.IsProper)
    (hv : evaluateManifest manifest vars.value? = .ok v)
    (htext : interpolate manifest vars = .ok text)
    (htags : ∀ t ∈ v.tags, IsPlainTag t ∧ IsStableTag t) (hdepth : v.depth ≤ 128) :
    Reader.value.readBytes text.toUTF8 = .ok v := by
  have hlegible : v.IsLegible :=
    (isProper_of_evaluateManifest hvars hv).isLegible fun t ht => (htags t ht).1
  exact hlegible.readBytes_of_write? (fun t ht => (htags t ht).2) hdepth
    (write?_of_evaluateManifest hv htext)

/-- A manifest with placeholders in texts, in a key and under a tag. -/
def insertionSample : ByteArray :=
  "name: ((n))\n((k))-port: ((p))\nlist:\n- !host ((h))\n- ((n))-((p))\n".toUTF8

/-- Values of several kinds for the sample. -/
def insertionVars : Variables :=
  ⟨[⟨"n", .string "web"⟩, ⟨"k", .string "http"⟩, ⟨"p", .number (.integer 8080)⟩],
    [⟨"vars.yml", [(.string "h", .sequence [.string "a", .null])]⟩]⟩

/-- The variables of the sample are proper values. -/
theorem isProper_insertionVars : insertionVars.IsProper := by
  have hstring (s : String) : (Value.string s).IsProper := .string s
  have hport : (Value.number (.integer 8080)).IsProper :=
    .number (by decide : Yaml.Scalar.isWide 8080 = false)
  have hlist : (Value.sequence [.string "a", .null]).IsProper :=
    .sequence (List.forall_mem_cons.2 ⟨hstring _, List.forall_mem_singleton.2 .null⟩)
  have hfile : (Value.mapping [(.string "h", .sequence [.string "a", .null])]).IsProper :=
    .mapping (List.forall_mem_singleton.2 (hstring _)) (List.forall_mem_singleton.2 hlist)
      (List.pairwise_singleton _ _)
  refine ⟨?_, List.forall_mem_singleton.2 hfile⟩
  exact List.forall_mem_cons.2 ⟨hstring _,
    List.forall_mem_cons.2 ⟨hstring _, List.forall_mem_singleton.2 hport⟩⟩

/-- With everything inserted, the sample does not change any more, also without variables. -/
theorem interpolate_idempotent_sample :
    ∃ v text, evaluateManifest insertionSample insertionVars.value? = .ok v ∧
      interpolate insertionSample insertionVars = .ok text ∧ Substitution.names v = [] ∧
      text = "name: web\nhttp-port: 8080\nlist:\n- !host\n  - a\n  - null\n- web-8080\n" ∧
      Reader.value.readBytes text.toUTF8 = .ok v ∧
      interpolate text.toUTF8 ⟨[], []⟩ = .ok text := by
  have htext : (interpolate insertionSample insertionVars).toOption =
      some "name: web\nhttp-port: 8080\nlist:\n- !host\n  - a\n  - null\n- web-8080\n" := by
    decide +kernel
  have hvalue : (evaluateManifest insertionSample insertionVars.value?).toOption.any (fun v =>
      (Substitution.names v).isEmpty && decide (v.depth ≤ 128) &&
        v.tags.all fun t => decide (IsPlainTag t ∧ IsStableTag t)) = true := by decide +kernel
  rw [toOption_eq_some_iff] at htext
  obtain ⟨v, hv, hchecks⟩ := any_toOption_iff.1 hvalue
  simp only [Bool.and_eq_true, List.isEmpty_iff, decide_eq_true_eq, List.all_eq_true] at hchecks
  obtain ⟨⟨hnames, hdepth⟩, htags⟩ := hchecks
  have hread := readBytes_of_interpolate isProper_insertionVars hv htext htags hdepth
  exact ⟨v, _, hv, htext, hnames, rfl, hread, interpolate_idempotent hv htext hnames hread _⟩

end Rollout
