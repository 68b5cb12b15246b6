import Rollout.Proofs.Deploy.Approval
import Rollout.Proofs.Text.Joining
import Rollout.Proofs.Version.Order

/-!
# The grammar of versions

The texts that spell out a version, told without the cutting at plus signs by which they are read: a
version is spelled by a token, its base, or by two tokens with a plus sign between them, its base
and its qualifier (`Spells`). Reading accepts these texts and no others, and gives the version that
they spell (`parse_eq_ok_iff`); writing a version gives back the text that spells it. So the text of
the version in an upload request is the one in the manifest. The main statement is
`parse_follows_grammar`.
-/

namespace Rollout.Version

/-- A text that may stand for a base or a qualifier. -/
structure IsToken (s : String) : Prop where
  ne_empty : s ≠ ""
  no_plus : '+' ∉ s.toList

/-- The texts that spell out a version. -/
inductive Spells : String → Version → Prop
  | base {b : String} (base : IsToken b) : Spells b ⟨b, none⟩
  | qualified {b q : String} (base : IsToken b) (qualifier : IsToken q) :
    Spells (b ++ "+" ++ q) ⟨b, some q⟩

/-! ## Pieces -/

/-- A text without a plus sign is not cut. -/
theorem split_token {b : String} (hb : IsToken b) : Text.split '+' b = [b] :=
  Text.split_of_notMem hb.no_plus

/-- Two tokens are cut at the plus sign between them. -/
theorem split_qualified {b q : String} (hb : IsToken b) (hq : IsToken q) :
    Text.split '+' (b ++ "+" ++ q) = [b, q] := by
  have hsplit := Text.split_append hb.no_plus q
  rw [split_token hq] at hsplit
  exact hsplit

/-- A piece that is not empty is a token. -/
theorem isToken_of_mem_split {s piece : String} (h : piece ∈ Text.split '+' s)
    (hne : piece ≠ "") : IsToken piece :=
  ⟨hne, Text.notMem_of_mem_split h⟩

/-! ## Reading and writing -/

/-- A text that spells a version is the text of that version. -/
theorem Spells.text_eq {s : String} {v : Version} (h : Spells s v) : v.text = s := by
  cases h <;> rfl

/-- A version of tokens is spelled by its text. -/
theorem spells_text {v : Version} (hbase : IsToken v.base)
    (hqualifier : ∀ q, v.qualifier = some q → IsToken q) : Spells v.text v := by
  obtain ⟨b, _ | q⟩ := v
  · exact .base hbase
  · exact .qualified hbase (hqualifier q rfl)

/-- Reading gives a version of tokens. -/
theorem isToken_of_parse {s : String} {v : Version} (h : parse s = .ok v) :
    IsToken v.base ∧ ∀ q, v.qualifier = some q → IsToken q := by
  unfold parse at h
  split at h
  · next base hsplit =>
    split at h
    · cases h
    · next hne =>
      obtain rfl := Except.ok.inj h
      rw [String.isEmpty_iff] at hne
      have hmem : base ∈ Text.split '+' s := by simp [hsplit]
      exact ⟨isToken_of_mem_split hmem hne, nofun⟩
  · next base qualifier hsplit =>
    split at h
    · cases h
    · next hne =>
      obtain rfl := Except.ok.inj h
      rw [Bool.or_eq_true, String.isEmpty_iff, String.isEmpty_iff, not_or] at hne
      have hmem : base ∈ Text.split '+' s := by simp [hsplit]
      have hmem' : qualifier ∈ Text.split '+' s := by simp [hsplit]
      refine ⟨isToken_of_mem_split hmem hne.1, ?_⟩
      rintro _ ⟨⟩
      exact isToken_of_mem_split hmem' hne.2
  · cases h

/-- Reading accepts the texts that spell a version, and gives that version. -/
theorem parse_eq_ok_iff {s : String} {v : Version} : parse s = .ok v ↔ Spells s v := by
  constructor
  · intro h
    obtain ⟨hbase, hqualifier⟩ := isToken_of_parse h
    have hspells : Spells v.text v := spells_text hbase hqualifier
    rwa [text_of_parse h] at hspells
  · intro h
    cases h with
    | base hb =>
      unfold parse
      rw [split_token hb]
      exact if_neg fun hempty => hb.ne_empty (String.isEmpty_iff.1 hempty)
    | qualified hb hq =>
      unfold parse
      rw [split_qualified hb hq]
      refine if_neg fun hempty => ?_
      rcases (Bool.or_eq_true _ _).mp hempty with hempty | hempty
      · exact hb.ne_empty (String.isEmpty_iff.1 hempty)
      · exact hq.ne_empty (String.isEmpty_iff.1 hempty)

/-- Reading refuses the texts that spell no version, and names the text. -/
theorem parse_eq_error_iff {s : String} {e : VersionFormatError} :
    parse s = .error e ↔ e = ⟨s⟩ ∧ ∀ v, ¬Spells s v := by
  constructor
  · intro h
    refine ⟨error_of_parse h, fun v hspells => ?_⟩
    rw [parse_eq_ok_iff.2 hspells] at h
    cases h
  · rintro ⟨rfl, hnone⟩
    cases h : parse s with
    | error e => rw [error_of_parse h]
    | ok v => exact absurd (parse_eq_ok_iff.1 h) (hnone v)

/-- The version in the upload request of a release is written as in the manifest. -/
theorem text_of_uploadRequest? {r : Release} {q : UploadRequest}
    (h : r.uploadRequest? = .ok (some q)) : q.version.text = r.version := by
  obtain ⟨url, version, -, hversion, rfl⟩ := Deploy.uploadRequest?_eq_some_iff.1 h
  exact text_of_parse hversion

/-- Versions are read by their grammar. A text is accepted exactly if it spells a version, which is
if it is a token or two tokens with a plus sign between them; the version that is read has these
tokens for its base and its qualifier. Any other text is refused with an error that names it. A
version that has been read is written as the text that it was read from and is read again as the
same version; so the upload that a release asks for has the version as the manifest writes it. -/
theorem parse_follows_grammar (s : String) (r : Release) :
    ((∃ v, parse s = .ok v) ↔ IsToken s ∨ ∃ b q, IsToken b ∧ IsToken q ∧ s = b ++ "+" ++ q) ∧
      (∀ v, parse s = .ok v ↔ Spells s v) ∧
      (∀ e, parse s = .error e ↔ e = ⟨s⟩ ∧ ∀ v, ¬Spells s v) ∧
      (∀ v, parse s = .ok v → v.text = s ∧ parse v.text = .ok v) ∧
      ∀ q, r.uploadRequest? = .ok (some q) → q.version.text = r.version := by
  refine ⟨?_, fun v => parse_eq_ok_iff, fun e => parse_eq_error_iff, fun v h => ?_,
    fun q => text_of_uploadRequest?⟩
  · constructor
    · rintro ⟨v, h⟩
      cases parse_eq_ok_iff.1 h with
      | base hb => exact .inl hb
      | qualified hb hq => exact .inr ⟨_, _, hb, hq, rfl⟩
    · rintro (hs | ⟨b, q, hb, hq, rfl⟩)
      · exact ⟨_, parse_eq_ok_iff.2 (.base hs)⟩
      · exact ⟨_, parse_eq_ok_iff.2 (.qualified hb hq)⟩
  · have htext : v.text = s := (parse_eq_ok_iff.1 h).text_eq
    exact ⟨htext, by rw [htext, h]⟩

/-- A release with a qualified version. -/
def qualifiedRelease : Release := ⟨"web", none, some "https://releases/web.tgz", "1.10+dev.2"⟩

/-- Its version is accepted and written again; with one more plus sign it is refused. -/
theorem parse_follows_grammar_sample :
    Spells "1.10+dev.2" ⟨"1.10", some "dev.2"⟩ ∧
      parse "1.10+dev.2" = .ok ⟨"1.10", some "dev.2"⟩ ∧
      (∀ v, ¬Spells "1.10+dev.2+" v) ∧
      ∃ q, qualifiedRelease.uploadRequest? = .ok (some q) ∧ q.version.text = "1.10+dev.2" := by
  have hspells : Spells "1.10+dev.2" ⟨"1.10", some "dev.2"⟩ :=
    .qualified (b := "1.10") (q := "dev.2") ⟨by decide, by decide⟩ ⟨by decide, by decide⟩
  obtain ⟨-, hread, -, -, hrequest⟩ := parse_follows_grammar "1.10+dev.2" qualifiedRelease
  obtain ⟨-, -, hrefused, -, -⟩ := parse_follows_grammar "1.10+dev.2+" qualifiedRelease
  have herror : parse "1.10+dev.2+" = .error ⟨"1.10+dev.2+"⟩ := rfl
  exact ⟨hspells, (hread _).2 hspells, ((hrefused _).1 herror).2, _, rfl, hrequest _ rfl⟩

end Rollout.Version
