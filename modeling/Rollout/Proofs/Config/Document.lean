import Rollout.Config
import Rollout.Proofs.Yaml.Member

/-!
# What a document says about the configuration

A configuration that has been read from a document is told field by field: each setting and each
duration is that of the entry with its key, and what has no entry is at its default
(`Config.says_of_parse`). The settings that can be given in several places are told apart by
`Setting`, the durations by `Timing`.
-/

namespace Rollout

open Yaml (Document Node Reader)

/-! ## Settings and durations -/

/-- What can be set about the director, apart from durations. -/
inductive Setting where
  | url
  | token
  | username
  | password
deriving DecidableEq, Repr

namespace Setting

/-- The key of a setting in a document. -/
def key : Setting → String
  | .url => "url"
  | .token => "token"
  | .username => "username"
  | .password => "password"

/-- A setting of a configuration. -/
def of : Setting → DirectorConfig → Option String
  | .url, c => c.url
  | .token, c => c.token
  | .username, c => c.username
  | .password, c => c.password

/-- A configuration with another value for a setting. -/
def set (s : Setting) (v : Option String) (c : DirectorConfig) : DirectorConfig :=
  match s with
  | .url => { c with url := v }
  | .token => { c with token := v }
  | .username => { c with username := v }
  | .password => { c with password := v }

/-- Different settings have different keys. -/
theorem key_injective {s s' : Setting} (h : s.key = s'.key) : s = s' := by
  revert h
  cases s <;> cases s' <;> decide

end Setting

/-- The durations of a configuration. -/
inductive Timing where
  | requestTimeout
  | connectTimeout
  | taskPollInterval
deriving DecidableEq, Repr

namespace Timing

/-- The key of a duration in a document. -/
def key : Timing → String
  | .requestTimeout => "request_timeout"
  | .connectTimeout => "connect_timeout"
  | .taskPollInterval => "task_poll_interval"

/-- What a duration is where nothing is said about it. -/
def default : Timing → String
  | .requestTimeout => "60s"
  | .connectTimeout => "10s"
  | .taskPollInterval => "2s"

/-- A duration of a configuration, as it is written. -/
def of : Timing → DirectorConfig → String
  | .requestTimeout, c => c.requestTimeout
  | .connectTimeout, c => c.connectTimeout
  | .taskPollInterval, c => c.taskPollInterval

/-- A configuration with another duration. -/
def set (t : Timing) (v : String) (c : DirectorConfig) : DirectorConfig :=
  match t with
  | .requestTimeout => { c with requestTimeout := v }
  | .connectTimeout => { c with connectTimeout := v }
  | .taskPollInterval => { c with taskPollInterval := v }

/-- Different durations have different keys. -/
theorem key_injective {t t' : Timing} (h : t.key = t'.key) : t = t' := by
  revert h
  cases t <;> cases t' <;> decide

/-- No duration goes by the name of a setting. -/
theorem key_ne {s : Setting} {t : Timing} : t.key ≠ s.key := by
  cases t <;> cases s <;> decide

end Timing

section Updates

variable {s s' : Setting} {t t' : Timing} {c : DirectorConfig}

/-- A setting that is set has the value that it is set to. -/
theorem Setting.of_set (s : Setting) (v : Option String) (c : DirectorConfig) :
    s.of (s.set v c) = v := by
  cases s <;> rfl

/-- Setting one setting leaves the others as they are. -/
theorem Setting.of_set_of_ne (h : s' ≠ s) (v : Option String) : s.of (s'.set v c) = s.of c := by
  cases s <;> cases s' <;> first | rfl | exact absurd rfl h

/-- Setting a duration leaves the settings as they are. -/
theorem Setting.of_timing_set (v : String) : s.of (t.set v c) = s.of c := by
  cases s <;> cases t <;> rfl

/-- A duration that is set has the value that it is set to. -/
theorem Timing.of_set (t : Timing) (v : String) (c : DirectorConfig) : t.of (t.set v c) = v := by
  cases t <;> rfl

/-- Setting one duration leaves the others as they are. -/
theorem Timing.of_set_of_ne (h : t' ≠ t) (v : String) : t.of (t'.set v c) = t.of c := by
  cases t <;> cases t' <;> first | rfl | exact absurd rfl h

/-- Setting a setting leaves the durations as they are. -/
theorem Timing.of_setting_set (v : Option String) : t.of (s.set v c) = t.of c := by
  cases s <;> cases t <;> rfl

end Updates

/-! ## What a document says -/

section Document

variable {d : Document} {depth : Nat} {n : Node Nat} {name : String}

/-- Every field of the director's part of a configuration is a setting or a duration. -/
theorem DirectorConfig.field_cases {c result : DirectorConfig} {r : Reader DirectorConfig}
    (hstep : c.field name = some r) (h : r.Accepts d depth n result) :
    (∃ (s : Setting) (v : Option String), name = s.key ∧ Reader.text.optional.Accepts d depth n v ∧
      result = s.set v c) ∨
    ∃ (t : Timing) (v : String), name = t.key ∧ Reader.text.Accepts d depth n v ∧
      result = t.set v c := by
  rw [field.eq_def] at hstep
  split at hstep <;> cases hstep <;> obtain ⟨v, hv, rfl⟩ := h.of_map
  · exact .inl ⟨.url, v, rfl, hv, rfl⟩
  · exact .inl ⟨.token, v, rfl, hv, rfl⟩
  · exact .inl ⟨.username, v, rfl, hv, rfl⟩
  · exact .inl ⟨.password, v, rfl, hv, rfl⟩
  · exact .inr ⟨.requestTimeout, v, rfl, hv, rfl⟩
  · exact .inr ⟨.connectTimeout, v, rfl, hv, rfl⟩
  · exact .inr ⟨.taskPollInterval, v, rfl, hv, rfl⟩

/-- The reader of a director takes a setting from the member with its key: a text or nothing. -/
theorem Setting.takesMember (s : Setting) (hd : d.IsTied) :
    Reader.TakesMember d DirectorConfig.field s.key s.of fun n v => v = d.optionalText? n where
  isSome c := by cases s <;> rfl
  own hstep h := by
    rcases DirectorConfig.field_cases hstep h with ⟨s', v, hkey, hv, rfl⟩ | ⟨t, v, hkey, -, -⟩
    · obtain rfl := key_injective hkey
      rw [of_set]
      exact hv.optionalText? hd
    · exact absurd hkey.symm Timing.key_ne
  other hne hstep h := by
    rcases DirectorConfig.field_cases hstep h with ⟨s', v, rfl, -, rfl⟩ | ⟨t, v, -, -, rfl⟩
    · exact of_set_of_ne (fun heq => hne (congrArg key heq)) v
    · exact of_timing_set v

/-- The reader of a director takes a duration from the member with its key, as a source text. -/
theorem Timing.takesMember (t : Timing) :
    Reader.TakesMember d DirectorConfig.field t.key t.of fun n v => d.sourceText? n = some v where
  isSome c := by cases t <;> rfl
  own hstep h := by
    rcases DirectorConfig.field_cases hstep h with ⟨s, v, hkey, -, -⟩ | ⟨t', v, hkey, hv, rfl⟩
    · exact absurd hkey key_ne
    · obtain rfl := key_injective hkey
      rw [of_set]
      exact hv.sourceText?
  other hne hstep h := by
    rcases DirectorConfig.field_cases hstep h with ⟨s, v, -, -, rfl⟩ | ⟨t', v, rfl, -, rfl⟩
    · exact of_setting_set v
    · exact of_set_of_ne (fun heq => hne (congrArg key heq)) v

namespace Config

/-- The members that the reader of a configuration knows are the director and the one that turns off
questions. -/
theorem field_cases {c result : Config} {r : Reader Config} (hstep : c.field name = some r)
    (h : r.Accepts d depth n result) :
    (∃ director, name = "director" ∧ DirectorConfig.reader.Accepts d depth n director ∧
      result = { c with director }) ∨
    ∃ b, name = "non_interactive" ∧ Reader.flag.Accepts d depth n b ∧
      result = { c with nonInteractive := b } := by
  rw [field.eq_def] at hstep
  split at hstep <;> cases hstep <;> obtain ⟨v, hv, rfl⟩ := h.of_map
  · exact .inl ⟨v, rfl, hv, rfl⟩
  · exact .inr ⟨v, rfl, hv, rfl⟩

/-- The director of a configuration is read from the member with this name. -/
theorem takesMember_director :
    Reader.TakesMember d field "director" Config.director fun n director =>
      ∃ depth, DirectorConfig.reader.Accepts d depth n director where
  isSome _ := rfl
  own hstep h := by
    rcases field_cases hstep h with ⟨director, -, hdirector, rfl⟩ | ⟨b, hname, -, -⟩
    · exact ⟨_, hdirector⟩
    · exact absurd hname (by decide)
  other hne hstep h := by
    rcases field_cases hstep h with ⟨director, hname, -, -⟩ | ⟨b, -, -, rfl⟩
    · exact absurd hname hne
    · rfl

/-- Whether questions are asked is read from the member with this name. -/
theorem takesMember_nonInteractive :
    Reader.TakesMember d field "non_interactive" Config.nonInteractive fun n b =>
      d.truth? n = some b where
  isSome _ := rfl
  own hstep h := by
    rcases field_cases hstep h with ⟨director, hname, -, -⟩ | ⟨b, -, hb, rfl⟩
    · exact absurd hname (by decide)
    · exact hb.truth?
  other hne hstep h := by
    rcases field_cases hstep h with ⟨director, -, -, rfl⟩ | ⟨b, hname, -, -⟩
    · rfl
    · exact absurd hname hne

end Config

/-- What a document has about the director under a key. -/
def Config.directorMember? (d : Document) (key : String) : Option (Node Nat) :=
  (d.member? "director" (d.root.getD .absent)).bind (d.member? key)

/-- A setting in a document, if there is a document. -/
def Setting.said? (s : Setting) (d : Option Document) : Option String :=
  d.bind fun d => (Config.directorMember? d s.key).bind d.optionalText?

/-- A duration in a document. -/
def Timing.said? (t : Timing) (d : Option Document) : Option String :=
  d.bind fun d => (Config.directorMember? d t.key).bind d.sourceText?

/-- What a document says about asking questions. -/
def Config.saidNonInteractive? (d : Option Document) : Option Bool :=
  d.bind fun d => (d.member? "non_interactive" (d.root.getD .absent)).bind d.truth?

namespace Config

/-- A configuration is what a document says, and at its default where nothing is said. -/
structure Says (d : Option Document) (c : Config) : Prop where
  setting : ∀ s : Setting, s.of c.director = s.said? d
  timing : ∀ t : Timing, t.of c.director = (t.said? d).getD t.default
  nonInteractive : c.nonInteractive = (saidNonInteractive? d).getD false

/-- Without a document there is the configuration that is there by default. -/
theorem says_default : Says none {} where
  setting s := by cases s <;> rfl
  timing t := by cases t <;> rfl
  nonInteractive := rfl

/-- The director's part of a configuration is read from a node, or there is none and it is at its
default. -/
theorem director_cases {c : Config} (h : reader.Accepts d depth n c) :
    (d.member? "director" n = none ∧ c.director = {}) ∨
      ∃ m depth, d.member? "director" n = some m ∧
        DirectorConfig.reader.Accepts d depth m c.director := by
  rcases takesMember_director.record_cases h with ⟨hnone, hdirector⟩ | ⟨m, hm, depth, hdirector⟩
  · exact .inl ⟨hnone, hdirector⟩
  · exact .inr ⟨m, depth, hm, hdirector⟩

/-- A configuration that has been read has the settings that its document gives. -/
theorem setting_of_accepts (hd : d.IsTied) {c : Config}
    (h : reader.Accepts d depth (d.root.getD .absent) c) (s : Setting) :
    s.of c.director = s.said? (some d) := by
  rw [Setting.said?, Option.bind_some, directorMember?]
  rcases director_cases h with ⟨hnone, hdirector⟩ | ⟨m, depth, hm, hdirector⟩
  · rw [hnone, hdirector]
    cases s <;> rfl
  · have hinit : s.of {} = none := by cases s <;> rfl
    rw [hm, Option.bind_some]
    exact (s.takesMember hd).view_eq_bind hinit hdirector

/-- A configuration that has been read has the durations that its document gives, and the default
ones where it gives none. -/
theorem timing_of_accepts {c : Config} (h : reader.Accepts d depth (d.root.getD .absent) c)
    (t : Timing) : t.of c.director = (t.said? (some d)).getD t.default := by
  rw [Timing.said?, Option.bind_some, directorMember?]
  rcases director_cases h with ⟨hnone, hdirector⟩ | ⟨m, depth, hm, hdirector⟩
  · rw [hnone, hdirector]
    cases t <;> rfl
  · rw [hm, Option.bind_some]
    rcases t.takesMember.record_cases hdirector with ⟨hnone, hview⟩ | ⟨m', hm', hview⟩
    · rw [hnone, hview]
      cases t <;> rfl
    · rw [hm', Option.bind_some, hview]
      rfl

/-- A configuration that has been read asks no questions if its document says so. -/
theorem nonInteractive_of_accepts {c : Config}
    (h : reader.Accepts d depth (d.root.getD .absent) c) :
    c.nonInteractive = (saidNonInteractive? (some d)).getD false := by
  rw [saidNonInteractive?, Option.bind_some]
  rcases takesMember_nonInteractive.record_cases h with ⟨hnone, hview⟩ | ⟨m, hm, hview⟩
  · rw [hnone, hview]
    rfl
  · rw [hm, Option.bind_some, hview]
    rfl

/-- The document of a text, unless the text is blank. -/
def documentOf? (text : String) : Option Document :=
  if Text.isBlankText text then none else Document.ofText? text

/-- A configuration that can be read is what its text says. -/
theorem says_of_parse {text : String} {c : Config} (h : parse text = .ok c) :
    Says (documentOf? text) c := by
  rw [parse] at h
  rw [documentOf?]
  split_ifs at h ⊢
  · cases h
    exact says_default
  · obtain ⟨d, hd, hc⟩ := Reader.exists_accepts_of_readText (mapError_eq_ok_iff.1 h)
    rw [hd]
    exact ⟨setting_of_accepts (Document.isTied_of_ofText? hd) hc, timing_of_accepts hc,
      nonInteractive_of_accepts hc⟩

end Config

end Document

end Rollout
