import Rollout.Program.Command
import Rollout.Proofs.Yaml.Rereading

/-!
# Values that substitution can give

Documents, files of variables and values on the command line are read from texts, so their values
are `Value.IsProper`. Looking up a variable gives a part of such a value
(`Variables.IsProper.of_value?`), and substitution puts such values together: it gives a proper
value again (`Substitution.isProper_of_evaluate`), although keys that become equal meet in one
entry.
-/

namespace Rollout

open Yaml (Value Entries)

namespace Yaml.Value

/-! ## Entries -/

variable {k v w : Value} {es done : Entries} {name : String}

/-- A field of a proper mapping is proper. -/
theorem IsProper.of_field? (h : (Value.mapping es).IsProper) (hv : field? name es = some v) :
    v.IsProper := by
  obtain ⟨e, he, rfl⟩ := Option.map_eq_some_iff.1 hv
  exact (h.of_mem_mapping (List.mem_of_find?_eq_some he)).2

/-- What a proper value is under its tags is proper. -/
theorem IsProper.underTags (h : v.IsProper) : v.underTags.IsProper := by
  induction h with
  | null => exact .null
  | bool b => exact .bool b
  | number hn => exact .number hn
  | string s => exact .string s
  | sequence hitems _ => exact .sequence hitems
  | mapping hkeys hvalues hdistinct _ _ => exact .mapping hkeys hvalues hdistinct
  | tagged _ ih => exact ih

/-- An entry that is put into a mapping takes the place of the one with its key, or comes last. -/
theorem put_cases (k v : Value) (done : Entries) :
    (put k v done = done ++ [(k, v)] ∧ ∀ e ∈ done, e.1.same k = false) ∨
      ∃ es e es', done = es ++ e :: es' ∧ put k v done = es ++ (e.1, v) :: es' := by
  induction done with
  | nil => exact .inl ⟨rfl, List.forall_mem_nil _⟩
  | cons e es ih =>
    obtain ⟨l, w⟩ := e
    rw [put]
    by_cases hsame : l.same k = true
    · rw [if_pos hsame]
      exact .inr ⟨[], (l, w), es, rfl, rfl⟩
    · rw [if_neg hsame]
      rcases ih with ⟨hput, hnew⟩ | ⟨es₁, e, es₂, rfl, hput⟩
      · refine .inl ⟨by rw [hput, List.cons_append], ?_⟩
        exact List.forall_mem_cons.2 ⟨Bool.eq_false_iff.2 hsame, hnew⟩
      · exact .inr ⟨(l, w) :: es₁, e, es₂, rfl, by rw [hput, List.cons_append]⟩

/-- A mapping is proper if its keys and its values are and no key comes twice. -/
theorem isProper_mapping_iff : (Value.mapping es).IsProper ↔
    (∀ e ∈ es, e.1.IsProper ∧ e.2.IsProper) ∧
      (es.map Prod.fst).Pairwise fun k l => k.same l = false := by
  rw [List.pairwise_map]
  constructor
  · intro h
    cases h with
    | mapping hkeys hvalues hdistinct =>
      exact ⟨fun e he => ⟨hkeys e he, hvalues e he⟩, hdistinct⟩
  · rintro ⟨h, hdistinct⟩
    exact .mapping (fun e he => (h e he).1) (fun e he => (h e he).2) hdistinct

/-- A mapping into which an entry is put stays proper. -/
theorem IsProper.put (hk : k.IsProper) (hv : v.IsProper) (h : (Value.mapping done).IsProper) :
    (Value.mapping (put k v done)).IsProper := by
  rw [isProper_mapping_iff] at h ⊢
  obtain ⟨hparts, hdistinct⟩ := h
  rcases put_cases k v done with ⟨hput, hnew⟩ | ⟨es, e, es', rfl, hput⟩
  · rw [hput]
    refine ⟨List.forall_mem_append.2 ⟨hparts, List.forall_mem_singleton.2 ⟨hk, hv⟩⟩, ?_⟩
    rw [List.map_append, List.pairwise_append]
    refine ⟨hdistinct, List.pairwise_singleton _ _, fun l hl k' hk' => ?_⟩
    obtain ⟨e, he, rfl⟩ := List.mem_map.1 hl
    obtain rfl := List.mem_singleton.1 hk'
    exact hnew e he
  · rw [hput]
    rw [List.forall_mem_append, List.forall_mem_cons] at hparts
    refine ⟨List.forall_mem_append.2 ⟨hparts.1,
      List.forall_mem_cons.2 ⟨⟨hparts.2.1.1, hv⟩, hparts.2.2⟩⟩, ?_⟩
    rwa [List.map_append, List.map_cons] at hdistinct ⊢

end Yaml.Value

/-! ## Variables -/

/-- The values that a pair, a file or all variables can give are proper. -/
def Binding.IsProper (b : Binding) : Prop := b.value.IsProper

@[inherit_doc Binding.IsProper]
def VariableFile.IsProper (f : VariableFile) : Prop := (Value.mapping f.entries).IsProper

@[inherit_doc Binding.IsProper]
structure Variables.IsProper (vs : Variables) : Prop where
  pairs : ∀ b ∈ vs.pairs, b.IsProper
  files : ∀ f ∈ vs.files, f.IsProper

@[inherit_doc Binding.IsProper]
structure VariableSet.IsProper (vs : VariableSet) : Prop where
  pairs : ∀ b ∈ vs.pairs, b.IsProper
  sources : ∀ s ∈ vs.sources, ∀ es, s.content = .ok es → (Value.mapping es).IsProper

section Lookup

variable {v w : Value} {name : String}

/-- What is found below a proper value is proper. -/
theorem isProper_of_descend {path : List (List Char)} (hv : v.IsProper)
    (h : descend v path = some w) : w.IsProper := by
  induction path generalizing v with
  | nil =>
    obtain rfl := Option.some.inj h
    exact hv
  | cons key path ih =>
    rw [descend] at h
    obtain ⟨es, hes, h⟩ := Option.bind_eq_some_iff.1 h
    obtain ⟨u, hu, h⟩ := Option.bind_eq_some_iff.1 h
    have hmapping := hv.underTags
    rw [Value.entries?_eq_some_iff.1 hes] at hmapping
    exact ih (hmapping.of_field? hu) h

/-- What a proper pair gives is proper. -/
theorem Binding.IsProper.of_find? {b : Binding} {cs : List Char} (hb : b.IsProper)
    (h : b.find? cs = some v) : v.IsProper := by
  rw [Binding.find?] at h
  split at h
  · obtain rfl := Option.some.inj h
    exact hb
  · exact isProper_of_descend hb h
  · cases h

/-- What a proper file gives is proper. -/
theorem VariableFile.IsProper.of_find? {f : VariableFile} {cs : List Char} (hf : f.IsProper)
    (h : f.find? cs = some v) : v.IsProper := by
  rw [VariableFile.find?] at h
  split at h
  · next hfield =>
    obtain rfl := Option.some.inj h
    exact Value.IsProper.of_field? hf hfield
  · obtain ⟨⟨head, path⟩, -, h⟩ := Option.bind_eq_some_iff.1 h
    obtain ⟨u, hu, h⟩ := Option.bind_eq_some_iff.1 h
    exact isProper_of_descend (Value.IsProper.of_field? hf hu) h

/-- The value of a variable is a part of what has been given. -/
theorem Variables.IsProper.of_value? {vs : Variables} (hvs : vs.IsProper)
    (h : vs.value? name = some v) : v.IsProper := by
  obtain ⟨⟨u, origin⟩, hlookup, rfl⟩ := Option.map_eq_some_iff.1 h
  rw [Variables.lookup] at hlookup
  split at hlookup
  · next hpair =>
    obtain ⟨rfl, -⟩ := Prod.mk.inj (Option.some.inj hlookup)
    obtain ⟨b, hb, hfind⟩ := List.exists_of_findSome?_eq_some hpair
    exact (hvs.pairs b (List.mem_reverse.1 hb)).of_find? hfind
  · obtain ⟨f, hf, hfind⟩ := List.exists_of_findSome?_eq_some hlookup
    obtain ⟨u', hu', heq⟩ := Option.map_eq_some_iff.1 hfind
    obtain ⟨rfl, -⟩ := Prod.mk.inj heq
    exact (hvs.files f hf).of_find? hu'

end Lookup

/-! ## Where variables come from -/

/-- The value of a pair from a text is proper. -/
theorem Binding.isProper_valueOf (text : String) : (valueOf text).IsProper := by
  rw [valueOf]
  split_ifs
  · exact .string _
  · split
    · exact .bool _
    · next h => exact Yaml.Reader.isProper_of_readText h
    · exact .string _
    · exact .string _

/-- A pair on the command line has a proper value. -/
theorem Binding.isProper_of_parse {text : String} {b : Binding} (h : parse text = .ok b) :
    b.IsProper := by
  rw [parse] at h
  split at h
  · cases h
  · dsimp only at h
    split_ifs at h
    obtain rfl := Except.ok.inj h
    exact isProper_valueOf _

/-- A file of variables has proper values. -/
theorem isProper_of_variablesOfFile {name : String} {content : Option ByteArray} {es : Entries}
    (h : variablesOfFile name content = .ok es) : (Value.mapping es).IsProper := by
  have hnil : (Value.mapping []).IsProper :=
    .mapping (List.forall_mem_nil _) (List.forall_mem_nil _) .nil
  rw [variablesOfFile] at h
  split at h
  · cases h
  · split_ifs at h
    · obtain rfl := Except.ok.inj h
      exact hnil
    · split at h
      · cases h
      · next hread =>
        obtain rfl := Except.ok.inj h
        exact Yaml.Reader.isProper_of_readText hread
      · obtain rfl := Except.ok.inj h
        exact hnil
      · cases h

namespace Program

/-- The variables that the command line asks for are proper if its pairs are. -/
theorem isProper_variableSet {arguments : CommandLine.VariableArguments}
    (h : ∀ b ∈ arguments.pairs, b.IsProper) (files : String → Option ByteArray) :
    (variableSet arguments files).IsProper where
  pairs := h
  sources := by
    intro s hs es hes
    obtain ⟨path, -, rfl⟩ := List.mem_map.1 hs
    exact isProper_of_variablesOfFile (mapError_eq_ok_iff.1 hes)

/-- The files that come from proper sources are proper. -/
theorem isProper_of_mapM {sources : List VariableSource} {files : List VariableFile}
    {load : VariableSource → Except DeployError VariableFile}
    (hload : ∀ s f, load s = .ok f → s.content = .ok f.entries)
    (hsources : ∀ s ∈ sources, ∀ es, s.content = .ok es → (Value.mapping es).IsProper)
    (h : sources.mapM load = .ok files) : ∀ f ∈ files, f.IsProper := by
  induction sources generalizing files with
  | nil =>
    cases h
    exact List.forall_mem_nil _
  | cons source sources ih =>
    obtain ⟨hsource, hsources⟩ := List.forall_mem_cons.1 hsources
    rw [List.mapM_cons] at h
    obtain ⟨f, hf, h⟩ := bind_eq_ok_iff.1 h
    obtain ⟨fs, hfs, h⟩ := bind_eq_ok_iff.1 h
    cases h
    exact List.forall_mem_cons.2 ⟨hsource _ (hload source f hf), ih hsources hfs⟩

/-- Proper variables stay so when their sources are loaded. -/
theorem isProper_of_loadAll {vs : VariableSet} {vars : Variables} (hvs : vs.IsProper)
    (h : loadAll vs = .ok vars) : vars.IsProper := by
  obtain ⟨files, hfiles, h⟩ := bind_eq_ok_iff.1 h
  cases h
  refine ⟨hvs.pairs, isProper_of_mapM (fun s f hf => ?_) hvs.sources hfiles⟩
  rw [VariableSource.file, pure_bind] at hf
  cases hcontent : s.content with
  | error reason =>
    rw [hcontent] at hf
    cases hf
  | ok entries =>
    rw [hcontent] at hf
    obtain rfl := Except.ok.inj hf
    rfl

end Program

namespace Substitution

/-! ## Values that are put together -/

variable {lookup : String → Option Value}

/-- Substitution in a text gives the value of a variable, or a text. -/
theorem isProper_of_evaluateText (hlookup : ∀ name v, lookup name = some v → v.IsProper)
    {s : String} {v : Value} (h : evaluateText lookup s = .ok v) : v.IsProper := by
  rw [evaluateText] at h
  split at h
  · next name _ =>
    rw [resolve] at h
    cases hfound : lookup name with
    | none =>
      rw [hfound] at h
      cases h
    | some w =>
      rw [hfound] at h
      obtain rfl := Except.ok.inj h
      exact hlookup name _ hfound
  · obtain ⟨cs, -, h⟩ := bind_eq_ok_iff.1 h
    cases h
    exact .string _

/-- Items that become proper values one by one do so together. -/
theorem isProper_of_evaluateItems {vs ws : List Value}
    (ih : ∀ v ∈ vs, ∀ w, evaluate lookup v = .ok w → w.IsProper)
    (h : evaluateItems lookup vs = .ok ws) : ∀ w ∈ ws, w.IsProper := by
  induction vs generalizing ws with
  | nil =>
    cases h
    exact List.forall_mem_nil _
  | cons v vs ihvs =>
    obtain ⟨hv, hvs⟩ := List.forall_mem_cons.1 ih
    rw [evaluateItems] at h
    obtain ⟨w, hw, h⟩ := bind_eq_ok_iff.1 h
    obtain ⟨ws, hws, h⟩ := bind_eq_ok_iff.1 h
    cases h
    exact List.forall_mem_cons.2 ⟨hv w hw, ihvs hvs hws⟩

/-- Entries that are put into a proper mapping one after the other keep it proper. -/
theorem isProper_of_evaluateEntries {es done entries : Entries}
    (ihkeys : ∀ e ∈ es, ∀ w, evaluate lookup e.1 = .ok w → w.IsProper)
    (ihvalues : ∀ e ∈ es, ∀ w, evaluate lookup e.2 = .ok w → w.IsProper)
    (hdone : (Value.mapping done).IsProper) (h : evaluateEntries lookup done es = .ok entries) :
    (Value.mapping entries).IsProper := by
  induction es generalizing done with
  | nil =>
    cases h
    exact hdone
  | cons e es ih =>
    obtain ⟨k, v⟩ := e
    obtain ⟨hk, hks⟩ := List.forall_mem_cons.1 ihkeys
    obtain ⟨hv, hvs⟩ := List.forall_mem_cons.1 ihvalues
    rw [evaluateEntries] at h
    obtain ⟨k', hk', h⟩ := bind_eq_ok_iff.1 h
    obtain ⟨v', hv', h⟩ := bind_eq_ok_iff.1 h
    exact ih hks hvs (.put (hk k' hk') (hv v' hv') hdone) h

/-- Substitution of proper values in a proper value gives a proper value. -/
theorem isProper_of_evaluate (hlookup : ∀ name v, lookup name = some v → v.IsProper)
    {v w : Value} (hv : v.IsProper) (h : evaluate lookup v = .ok w) : w.IsProper := by
  induction hv generalizing w with
  | null =>
    cases h
    exact .null
  | bool b =>
    cases h
    exact .bool b
  | number hn =>
    cases h
    exact .number hn
  | string s => exact isProper_of_evaluateText hlookup h
  | sequence _ ih =>
    rw [evaluate] at h
    obtain ⟨ws, hws, h⟩ := bind_eq_ok_iff.1 h
    cases h
    exact .sequence (isProper_of_evaluateItems (fun v hv w hw => ih v hv hw) hws)
  | mapping _ _ _ ihkeys ihvalues =>
    rw [evaluate] at h
    obtain ⟨es, hes, h⟩ := bind_eq_ok_iff.1 h
    cases h
    exact isProper_of_evaluateEntries (fun e he w hw => ihkeys e he hw)
      (fun e he w hw => ihvalues e he hw)
      (.mapping (List.forall_mem_nil _) (List.forall_mem_nil _) .nil) hes
  | tagged _ ih =>
    rw [evaluate] at h
    obtain ⟨w, hw, h⟩ := bind_eq_ok_iff.1 h
    cases h
    exact .tagged (ih hw)

end Substitution

/-- The value of a manifest with everything replaced is proper. -/
theorem isProper_of_evaluateManifest {manifest : ByteArray} {vars : Variables} {v : Value}
    (hvars : vars.IsProper) (h : evaluateManifest manifest vars.value? = .ok v) : v.IsProper := by
  rw [evaluateManifest] at h
  obtain ⟨document, hread, h⟩ := bind_eq_ok_iff.1 h
  exact Substitution.isProper_of_evaluate (fun _ _ => hvars.of_value?)
    (Yaml.Reader.isProper_of_readBytes (mapError_eq_ok_iff.1 hread)) (mapError_eq_ok_iff.1 h)

end Rollout
