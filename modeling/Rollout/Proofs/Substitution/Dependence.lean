import Rollout.Interpolation
import Rollout.Proofs.Except

/-!
# What substitution depends on

Substitution looks up the names of the placeholders that occur in a value and nothing else. So two
ways to look names up that agree on these names give the same result, or the same error
(`evaluate_congr`), and a substitution that succeeds has found all of these names
(`isSome_of_evaluate`). For manifests this says that only the variables that occur in it matter,
and that a further file changes nothing once every placeholder has a value
(`interpolate_depends_on_placeholders`).
-/

namespace Rollout

open Yaml (Value Entries)

/-! ## The placeholders of a value -/

mutual

/-- The names of the placeholders in the texts of a value, keys included, in the order of the
document. -/
def Substitution.names : Value → List String
  | .string s => Placeholder.names s
  | .sequence items => namesOfItems items
  | .mapping entries => namesOfEntries entries
  | .tagged _ value => names value
  | _ => []
termination_by structural v => v

/-- The names in the items of a sequence. -/
def Substitution.namesOfItems : List Value → List String
  | [] => []
  | v :: vs => names v ++ namesOfItems vs
termination_by structural vs => vs

/-- The names in the entries of a mapping, those of each key before those of its value. -/
def Substitution.namesOfEntries : Entries → List String
  | [] => []
  | (k, v) :: es => names k ++ (names v ++ namesOfEntries es)
termination_by structural es => es

end

/-- A name in a text stands in one of its placeholders. -/
theorem Placeholder.mem_names_iff {s name : String} :
    name ∈ names s ↔ .placeholder name ∈ pieces s := by
  rw [names, List.mem_filterMap]
  constructor
  · rintro ⟨_ | name', hmem, h⟩
    · cases h
    · obtain rfl := Option.some.inj h
      exact hmem
  · intro hmem
    exact ⟨_, hmem, rfl⟩

namespace Substitution

variable {lookup lookup' : String → Option Value}

/-- The placeholders of some pieces, joined with nothing else looked up. -/
theorem joinPieces_congr {ps : List Piece}
    (h : ∀ name, .placeholder name ∈ ps → lookup name = lookup' name) :
    joinPieces lookup ps = joinPieces lookup' ps := by
  induction ps with
  | nil => rfl
  | cons p ps ih =>
    have hpiece : pieceText lookup p = pieceText lookup' p := by
      cases p with
      | text cs => rfl
      | placeholder name => rw [pieceText, pieceText, resolve, resolve, h name List.mem_cons_self]
    rw [joinPieces, joinPieces, hpiece, ih fun name hmem => h name (List.mem_cons_of_mem _ hmem)]

/-- Only the placeholders of a text are looked up. -/
theorem evaluateText_congr {s : String}
    (h : ∀ name ∈ Placeholder.names s, lookup name = lookup' name) :
    evaluateText lookup s = evaluateText lookup' s := by
  have hpieces : ∀ name, .placeholder name ∈ Placeholder.pieces s → lookup name = lookup' name :=
    fun name hmem => h name (Placeholder.mem_names_iff.2 hmem)
  rw [evaluateText, evaluateText]
  split
  · next name heq => rw [resolve, resolve, hpieces name (by simp [heq])]
  · rw [joinPieces_congr hpieces]

mutual

/-- Only the placeholders of a value are looked up. -/
theorem evaluate_congr {v : Value} (h : ∀ name ∈ names v, lookup name = lookup' name) :
    evaluate lookup v = evaluate lookup' v := by
  cases v with
  | string s => exact evaluateText_congr h
  | sequence items => rw [evaluate, evaluate, evaluateItems_congr h]
  | mapping entries => rw [evaluate, evaluate, evaluateEntries_congr h]
  | tagged tag value =>
    have hvalue : evaluate lookup value = evaluate lookup' value := evaluate_congr h
    rw [evaluate, evaluate, hvalue]
  | null => rfl
  | bool b => rfl
  | number n => rfl

/-- Only the placeholders of some items are looked up. -/
theorem evaluateItems_congr {vs : List Value}
    (h : ∀ name ∈ namesOfItems vs, lookup name = lookup' name) :
    evaluateItems lookup vs = evaluateItems lookup' vs := by
  cases vs with
  | nil => rfl
  | cons v vs =>
    have hv : evaluate lookup v = evaluate lookup' v :=
      evaluate_congr fun name hmem => h name (List.mem_append_left _ hmem)
    have hvs : evaluateItems lookup vs = evaluateItems lookup' vs :=
      evaluateItems_congr fun name hmem => h name (List.mem_append_right _ hmem)
    rw [evaluateItems, evaluateItems, hv, hvs]

/-- Only the placeholders of some entries are looked up. -/
theorem evaluateEntries_congr {es done : Entries}
    (h : ∀ name ∈ namesOfEntries es, lookup name = lookup' name) :
    evaluateEntries lookup done es = evaluateEntries lookup' done es := by
  cases es with
  | nil => rfl
  | cons e es =>
    obtain ⟨k, v⟩ := e
    have hk : evaluate lookup k = evaluate lookup' k :=
      evaluate_congr fun name hmem => h name (List.mem_append_left _ hmem)
    have hrest : ∀ name ∈ names v ++ namesOfEntries es, lookup name = lookup' name :=
      fun name hmem => h name (List.mem_append_right _ hmem)
    have hv : evaluate lookup v = evaluate lookup' v :=
      evaluate_congr fun name hmem => hrest name (List.mem_append_left _ hmem)
    have hes : ∀ done, evaluateEntries lookup done es = evaluateEntries lookup' done es :=
      fun done => evaluateEntries_congr fun name hmem => hrest name (List.mem_append_right _ hmem)
    simp only [evaluateEntries, hk, hv, hes]

end

/-! ## What a substitution has found -/

/-- A name that is resolved has a value. -/
theorem resolve_eq_ok_iff {name : String} {v : Value} :
    resolve lookup name = .ok v ↔ lookup name = some v := by
  rw [resolve]
  cases lookup name with
  | none => simp
  | some w => simp

/-- Pieces that can be joined have values for all of their placeholders. -/
theorem isSome_of_joinPieces {ps : List Piece} {cs : List Char} {name : String}
    (h : joinPieces lookup ps = .ok cs) (hname : .placeholder name ∈ ps) :
    (lookup name).isSome = true := by
  induction ps generalizing cs with
  | nil => cases hname
  | cons p ps ih =>
    rw [joinPieces] at h
    obtain ⟨text, htext, h⟩ := bind_eq_ok_iff.1 h
    obtain ⟨rest, hrest, -⟩ := bind_eq_ok_iff.1 h
    rcases List.mem_cons.1 hname with rfl | hmem
    · rw [pieceText] at htext
      obtain ⟨v, hv, -⟩ := bind_eq_ok_iff.1 htext
      rw [resolve_eq_ok_iff.1 hv, Option.isSome_some]
    · exact ih hrest hmem

/-- A text that can be evaluated has values for all of its placeholders. -/
theorem isSome_of_evaluateText {s : String} {w : Value} (h : evaluateText lookup s = .ok w) :
    ∀ name ∈ Placeholder.names s, (lookup name).isSome = true := by
  intro name hname
  rw [Placeholder.mem_names_iff] at hname
  rw [evaluateText] at h
  split at h
  · next heq =>
    rw [heq, List.mem_singleton] at hname
    obtain rfl := Piece.placeholder.inj hname
    rw [resolve_eq_ok_iff.1 h, Option.isSome_some]
  · obtain ⟨cs, hcs, -⟩ := bind_eq_ok_iff.1 h
    exact isSome_of_joinPieces hcs hname

mutual

/-- A value that can be evaluated has values for all of its placeholders. -/
theorem isSome_of_evaluate {v w : Value} (h : evaluate lookup v = .ok w) :
    ∀ name ∈ names v, (lookup name).isSome = true := by
  cases v with
  | string s => exact isSome_of_evaluateText h
  | sequence items =>
    rw [evaluate] at h
    obtain ⟨_, hitems, -⟩ := bind_eq_ok_iff.1 h
    exact isSome_of_evaluateItems hitems
  | mapping entries =>
    rw [evaluate] at h
    obtain ⟨_, hentries, -⟩ := bind_eq_ok_iff.1 h
    exact isSome_of_evaluateEntries hentries
  | tagged tag value =>
    rw [evaluate] at h
    obtain ⟨_, hvalue, -⟩ := bind_eq_ok_iff.1 h
    exact isSome_of_evaluate (v := value) hvalue
  | null => exact fun _ hname => nomatch hname
  | bool b => exact fun _ hname => nomatch hname
  | number n => exact fun _ hname => nomatch hname
termination_by structural v

/-- Items that can be evaluated have values for all of their placeholders. -/
theorem isSome_of_evaluateItems {vs ws : List Value} (h : evaluateItems lookup vs = .ok ws) :
    ∀ name ∈ namesOfItems vs, (lookup name).isSome = true := by
  cases vs with
  | nil => exact fun _ hname => nomatch hname
  | cons v vs =>
    rw [evaluateItems] at h
    obtain ⟨_, hv, h⟩ := bind_eq_ok_iff.1 h
    obtain ⟨_, hvs, -⟩ := bind_eq_ok_iff.1 h
    intro name hname
    rcases List.mem_append.1 hname with hname | hname
    · exact isSome_of_evaluate hv name hname
    · exact isSome_of_evaluateItems hvs name hname
termination_by structural vs

/-- Entries that can be evaluated have values for all of their placeholders. -/
theorem isSome_of_evaluateEntries {es done ws : Entries}
    (h : evaluateEntries lookup done es = .ok ws) :
    ∀ name ∈ namesOfEntries es, (lookup name).isSome = true := by
  cases es with
  | nil => exact fun _ hname => nomatch hname
  | cons e es =>
    obtain ⟨k, v⟩ := e
    rw [evaluateEntries] at h
    obtain ⟨_, hk, h⟩ := bind_eq_ok_iff.1 h
    obtain ⟨_, hv, h⟩ := bind_eq_ok_iff.1 h
    intro name hname
    rcases List.mem_append.1 hname with hname | hname
    · exact isSome_of_evaluate hk name hname
    · rcases List.mem_append.1 hname with hname | hname
      · exact isSome_of_evaluate hv name hname
      · exact isSome_of_evaluateEntries h name hname
termination_by structural es

end

end Substitution

/-! ## Variables and manifests -/

/-- The variables with a further file after all others. -/
def Variables.append (vs : Variables) (f : VariableFile) : Variables :=
  { vs with files := vs.files ++ [f] }

/-- A further file does not change what has been defined before. -/
theorem Variables.lookup_append_of_some {vs : Variables} {name : String} {found : Value × Origin}
    (h : vs.lookup name = some found) (f : VariableFile) :
    (vs.append f).lookup name = some found := by
  rw [lookup] at h ⊢
  have hpairs : (vs.append f).findPair? name = vs.findPair? name := rfl
  rw [hpairs]
  cases hpair : vs.findPair? name with
  | some value =>
    rw [hpair] at h
    exact h
  | none =>
    rw [hpair] at h
    have hfile : vs.findFile? name = some found := h
    rw [findFile?] at hfile
    change (vs.append f).findFile? name = some found
    rw [findFile?, append, List.findSome?_append, hfile, Option.some_or]

/-- A further file does not change a name that has a value. -/
theorem Variables.value?_append_of_isSome {vs : Variables} {name : String}
    (h : (vs.value? name).isSome = true) (f : VariableFile) :
    (vs.append f).value? name = vs.value? name := by
  rw [value?, Option.isSome_map, Option.isSome_iff_exists] at h
  obtain ⟨found, hfound⟩ := h
  rw [value?, value?, hfound, lookup_append_of_some hfound f]

/-- The names of the placeholders that occur in a manifest; a manifest that cannot be read has
none. -/
def manifestNames (manifest : ByteArray) : List String :=
  match Yaml.Reader.value.readBytes manifest with
  | .ok document => Substitution.names document
  | .error _ => []

/-- Interpolation looks up the placeholders of the manifest and nothing else. -/
theorem interpolate_congr {manifest : ByteArray} {vs ws : Variables}
    (h : ∀ name ∈ manifestNames manifest, vs.value? name = ws.value? name) :
    interpolate manifest vs = interpolate manifest ws := by
  have hvalue : evaluateManifest manifest vs.value? = evaluateManifest manifest ws.value? := by
    rw [evaluateManifest, evaluateManifest]
    rw [manifestNames] at h
    cases hread : Yaml.Reader.value.readBytes manifest with
    | error e => rfl
    | ok document =>
      rw [hread] at h
      simp only [mapError_ok, ok_bind, Substitution.evaluate_congr h]
  rw [interpolate, interpolate, hvalue]

/-- A manifest that has been interpolated has values for all of its placeholders. -/
theorem isSome_of_interpolate {manifest : ByteArray} {vs : Variables} {text : String}
    (h : interpolate manifest vs = .ok text) :
    ∀ name ∈ manifestNames manifest, (vs.value? name).isSome = true := by
  rw [interpolate] at h
  obtain ⟨value, hvalue, -⟩ := bind_eq_ok_iff.1 h
  rw [evaluateManifest] at hvalue
  obtain ⟨document, hread, hvalue⟩ := bind_eq_ok_iff.1 hvalue
  rw [manifestNames, mapError_eq_ok_iff.1 hread]
  exact Substitution.isSome_of_evaluate (mapError_eq_ok_iff.1 hvalue)

/-- Interpolation depends on the variables only through the placeholders. Variables that agree on
the placeholders that occur in a manifest, however they are given, give the same text or the same
error. So a further file of variables changes nothing in a manifest that can be interpolated without
it. -/
theorem interpolate_depends_on_placeholders (manifest : ByteArray) :
    (∀ vs ws : Variables,
      (∀ name ∈ manifestNames manifest, vs.value? name = ws.value? name) →
        interpolate manifest vs = interpolate manifest ws) ∧
    ∀ (vs : Variables) (text : String), interpolate manifest vs = .ok text →
      ∀ f : VariableFile, interpolate manifest (vs.append f) = .ok text := by
  refine ⟨fun vs ws h => interpolate_congr h, fun vs text h f => ?_⟩
  have hagree : ∀ name ∈ manifestNames manifest,
      (vs.append f).value? name = vs.value? name :=
    fun name hname => Variables.value?_append_of_isSome (isSome_of_interpolate h name hname) f
  rw [interpolate_congr hagree, h]

/-! ## A sample manifest -/

/-- A manifest with one placeholder. -/
def placeholderSample : ByteArray := "name: ((n))\n".toUTF8

/-- A value for it, given by a pair. -/
def pairSample : Variables := ⟨[⟨"n", .string "web"⟩], []⟩

/-- The same value, given by a file among others. -/
def fileSample : VariableFile :=
  ⟨"vars.yml", [(.string "m", .null), (.string "n", .string "web")]⟩

/-- It does not matter where the value comes from, nor what else the file defines. -/
theorem interpolate_depends_on_placeholders_sample :
    manifestNames placeholderSample = ["n"] ∧
      interpolate placeholderSample pairSample = .ok "name: web\n" ∧
      interpolate placeholderSample ⟨[], [fileSample]⟩ = .ok "name: web\n" ∧
      interpolate placeholderSample (pairSample.append fileSample) = .ok "name: web\n" := by
  have hnames : manifestNames placeholderSample = ["n"] := by decide +kernel
  have htext : (interpolate placeholderSample pairSample).toOption = some "name: web\n" := by
    decide +kernel
  have hok : interpolate placeholderSample pairSample = .ok "name: web\n" :=
    toOption_eq_some_iff.1 htext
  have hagree : ∀ name ∈ manifestNames placeholderSample,
      (⟨[], [fileSample]⟩ : Variables).value? name = pairSample.value? name := by
    rw [hnames]
    intro name hname
    obtain rfl := List.mem_singleton.1 hname
    rfl
  have hdepends := interpolate_depends_on_placeholders placeholderSample
  exact ⟨hnames, hok, (hdepends.1 _ _ hagree).trans hok, hdepends.2 _ _ hok fileSample⟩

end Rollout
