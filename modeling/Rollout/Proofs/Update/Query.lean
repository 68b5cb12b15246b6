import Mathlib.Data.List.Nodup
import Rollout.Proofs.Text.Joining
import Rollout.Proofs.Text.PercentEncoding
import Rollout.SkipDrain

/-!
# The query of an update

The path that an update is posted to can be taken apart again: it is cut at its question mark, the
query into its parts, and each part into a name and a value that is percent-encoded
(`Http.Target.ofText?`). What comes out are the options of the update and nothing else, whatever
characters the names of instance groups are made of (`Spells`). The main statement is
`path_spells_options`.
-/

namespace Rollout

namespace Http

/-- A path with the parameters of its query, if it has one. -/
structure Target where
  path : String
  query : Option (List (String × String))
deriving DecidableEq, Repr

namespace Target

/-- The parameter that a part of a query spells out: a name and an encoded value, with the only
equals sign between them. -/
def parameter? (part : String) : Option (String × String) :=
  match Text.split '=' part with
  | [name, value] => (Text.Percent.decode value).map (name, ·)
  | _ => none

/-- What a text spells out: the path before its first question mark, and the parameters between the
ampersands of what follows. -/
def ofText? (text : String) : Option Target :=
  match Text.cutAt '?' text with
  | none => some ⟨text, none⟩
  | some (path, query) =>
    ((Text.split '&' query).mapM parameter?).map fun parameters => ⟨path, some parameters⟩

variable {path : String} {parameters : List (String × String)}

/-- A parameter as it is sent. -/
def written (p : String × String) : String := p.1 ++ "=" ++ Text.Percent.encode p.2

/-- A written parameter is read back. -/
theorem parameter?_written {p : String × String} (hname : '=' ∉ p.1.toList) :
    parameter? (written p) = some p := by
  obtain ⟨name, value⟩ := p
  have hencoded : '=' ∉ (Text.Percent.encode value).toList :=
    Text.Percent.notMem_encode (by decide) value
  have hsplit : Text.split '=' (written (name, value)) = [name, Text.Percent.encode value] := by
    have hcut := Text.split_append hname (Text.Percent.encode value)
    rw [Text.split_of_notMem hencoded] at hcut
    exact hcut
  rw [parameter?, hsplit]
  simp only [Text.Percent.decode_encode, Option.map_some]

/-- A written parameter holds no ampersand. -/
theorem notMem_written {p : String × String} (hname : '&' ∉ p.1.toList) :
    '&' ∉ (written p).toList := by
  have hencoded : '&' ∉ (Text.Percent.encode p.2).toList :=
    Text.Percent.notMem_encode (by decide) p.2
  simp [written, hname, hencoded]

/-- Written parameters are read back one by one. -/
theorem mapM_written (hnames : ∀ p ∈ parameters, '=' ∉ p.1.toList) :
    (parameters.map written).mapM parameter? = some parameters := by
  induction parameters with
  | nil => rfl
  | cons p ps ih =>
    obtain ⟨hp, hps⟩ := List.forall_mem_cons.1 hnames
    rw [List.map_cons, List.mapM_cons, parameter?_written hp, ih hps]
    rfl

/-- Only a text with a question mark has a query. -/
theorem query_eq_none_iff {text : String} {t : Target} (h : ofText? text = some t) :
    t.query = none ↔ '?' ∉ text.toList := by
  rw [← Text.cutAt_eq_none_iff]
  unfold ofText? at h
  split at h
  · next hcut =>
    obtain rfl := Option.some.inj h
    simp [hcut]
  · next hcut =>
    obtain ⟨ps, -, rfl⟩ := Option.map_eq_some_iff.1 h
    simp [hcut]

/-- A query of written parameters spells them out. -/
theorem ofText?_append (hpath : '?' ∉ path.toList) (hne : parameters ≠ [])
    (hnames : ∀ p ∈ parameters, '&' ∉ p.1.toList ∧ '=' ∉ p.1.toList) :
    ofText? (path ++ "?" ++ "&".intercalate (parameters.map written)) =
      some ⟨path, some parameters⟩ := by
  have hcut : Text.cutAt '?' (path ++ "?" ++ "&".intercalate (parameters.map written)) =
      some (path, "&".intercalate (parameters.map written)) :=
    Text.cutAt_eq_some_iff.2 ⟨rfl, hpath⟩
  have hsplit : Text.split '&' ("&".intercalate (parameters.map written)) =
      parameters.map written := by
    refine Text.split_intercalate (by simpa using hne) fun t ht => ?_
    obtain ⟨p, hp, rfl⟩ := List.mem_map.1 ht
    exact notMem_written (hnames p hp).1
  rw [ofText?, hcut]
  dsimp only
  rw [hsplit, mapM_written fun p hp => (hnames p hp).2, Option.map_some]

end Target

end Http

namespace UpdateOptions

variable {o o' : UpdateOptions} {t : Http.Target}

/-! ## Parameters -/

/-- There is a parameter for machines that are recreated, and one for the directive if that has a
value. -/
theorem mem_parameters_iff {name value : String} : (name, value) ∈ o.parameters ↔
    (name = "recreate" ∧ value = "true" ∧ o.recreate = true) ∨
      (name = "skip_drain" ∧ o.skipDrain.queryValue? = some value) := by
  obtain ⟨recreate, skipDrain⟩ := o
  unfold parameters
  dsimp only
  rw [List.mem_append]
  refine or_congr ?_ ?_
  · cases recreate <;> simp
  · cases skipDrain.queryValue? <;> simp [eq_comm]

/-- No two parameters have one name. -/
theorem nodup_parameters (o : UpdateOptions) : (o.parameters.map Prod.fst).Nodup := by
  obtain ⟨recreate, skipDrain⟩ := o
  unfold parameters
  cases recreate <;> cases skipDrain.queryValue? <;> simp

/-- Without options there are no parameters. -/
theorem parameters_eq_nil_iff :
    o.parameters = [] ↔ o.recreate = false ∧ o.skipDrain.queryValue? = none := by
  unfold parameters
  rw [List.append_eq_nil_iff]
  refine and_congr ?_ ?_
  · cases o.recreate <;> simp
  · cases o.skipDrain.queryValue? <;> simp

/-! ## Paths -/

/-- What the path of an update has to spell out: the way to the deployments, and a query exactly if
an option asks for a parameter. No name is given twice. -/
structure Spells (o : UpdateOptions) (t : Http.Target) : Prop where
  path : t.path = "/deployments"
  query : t.query = none ↔ o.recreate = false ∧ o.skipDrain.queryValue? = none
  once : ∀ ps, t.query = some ps → (ps.map Prod.fst).Nodup
  parameters : ∀ ps, t.query = some ps → ∀ name value, (name, value) ∈ ps ↔
    (name = "recreate" ∧ value = "true" ∧ o.recreate = true) ∨
      (name = "skip_drain" ∧ o.skipDrain.queryValue? = some value)

/-- The parts of the path of an update. -/
def target (o : UpdateOptions) : Http.Target where
  path := "/deployments"
  query := if o.parameters = [] then none else some o.parameters

/-- The query of the options, if there is one, is their parameters. -/
theorem eq_parameters_of_query {ps : List (String × String)} (h : o.target.query = some ps) :
    ps = o.parameters := by
  unfold target at h
  split at h
  · cases h
  · exact (Option.some.inj h).symm

/-- The target of the options spells them. -/
theorem spells_target (o : UpdateOptions) : o.Spells o.target where
  path := rfl
  query := by
    rw [← parameters_eq_nil_iff, target]
    by_cases h : o.parameters = [] <;> simp [h]
  once ps h := by
    rw [eq_parameters_of_query h]
    exact o.nodup_parameters
  parameters ps h name value := by
    rw [eq_parameters_of_query h]
    exact mem_parameters_iff

/-- The path of an update spells out its parts. -/
theorem ofText?_path (o : UpdateOptions) : Http.Target.ofText? o.path = some o.target := by
  have hmark : '?' ∉ "/deployments".toList := by decide
  have hnames : ∀ p ∈ o.parameters, '&' ∉ p.1.toList ∧ '=' ∉ p.1.toList := by
    rintro ⟨name, value⟩ hp
    rcases mem_parameters_iff.1 hp with ⟨rfl, -, -⟩ | ⟨rfl, -⟩
    · simp
    · simp
  have hjoin : "/deployments?" = "/deployments" ++ "?" := rfl
  unfold path target
  split
  · next h =>
    rw [if_pos h, Http.Target.ofText?, Text.cutAt_eq_none_iff.2 hmark]
  · next ps hne =>
    rw [if_neg hne, hjoin]
    exact Http.Target.ofText?_append hmark hne hnames

/-- Options with the same parts of their paths have the same parameters. -/
theorem Spells.agree (h : o.Spells t) (h' : o'.Spells t) :
    o.recreate = o'.recreate ∧ o.skipDrain.queryValue? = o'.skipDrain.queryValue? := by
  cases hquery : t.query with
  | none =>
    obtain ⟨hrecreate, hvalue⟩ := h.query.1 hquery
    obtain ⟨hrecreate', hvalue'⟩ := h'.query.1 hquery
    exact ⟨hrecreate.trans hrecreate'.symm, hvalue.trans hvalue'.symm⟩
  | some ps =>
    have hboth (name value : String) := (h.parameters ps hquery name value).symm.trans
      (h'.parameters ps hquery name value)
    refine ⟨Bool.eq_iff_iff.2 ?_, Option.ext fun value => ?_⟩
    · simpa using hboth "recreate" "true"
    · simpa using hboth "skip_drain" value

/-- The path is decided by whether machines are recreated and by the value of the directive. -/
theorem path_congr (hrecreate : o.recreate = o'.recreate)
    (hvalue : o.skipDrain.queryValue? = o'.skipDrain.queryValue?) : o.path = o'.path := by
  have hparameters : o.parameters = o'.parameters := by
    unfold parameters
    rw [hrecreate, hvalue]
  unfold path
  rw [hparameters]

/-- The path of an update is decoded to its options. Cut at its question mark, at the ampersands and
at the equals signs, with the values decoded, it spells out `recreate=true` exactly if machines are
recreated, `skip_drain` once and with the value of the directive exactly if that has one, and
nothing else; without such a parameter there is no question mark in it. So two updates have the same
path exactly if they agree on recreating machines and on the value of the directive. -/
theorem path_spells_options (o : UpdateOptions) :
    (∃ t, Http.Target.ofText? o.path = some t ∧ o.Spells t) ∧
      ('?' ∉ o.path.toList ↔ o.recreate = false ∧ o.skipDrain.queryValue? = none) ∧
      ∀ o' : UpdateOptions, o.path = o'.path ↔ o.recreate = o'.recreate ∧
        o.skipDrain.queryValue? = o'.skipDrain.queryValue? := by
  refine ⟨⟨o.target, o.ofText?_path, o.spells_target⟩, ?_, fun o' => ⟨fun hpath => ?_, ?_⟩⟩
  · rw [← Http.Target.query_eq_none_iff o.ofText?_path]
    exact o.spells_target.query
  · have htarget : o.target = o'.target := by
      rw [← Option.some.injEq, ← ofText?_path, ← ofText?_path, hpath]
    have hspells : o'.Spells o.target := htarget ▸ o'.spells_target
    exact o.spells_target.agree hspells
  · rintro ⟨hrecreate, hvalue⟩
    exact path_congr hrecreate hvalue

/-- The characters that separate parts may stand in the name of a group. -/
example : Http.Target.ofText? (path ⟨true, .only ["a&b=c?", "é"]⟩) =
    some ⟨"/deployments", some [("recreate", "true"), ("skip_drain", "a&b=c?,é")]⟩ := by
  decide +kernel

end UpdateOptions

end Rollout
