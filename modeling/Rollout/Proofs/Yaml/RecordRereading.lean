import Rollout.Proofs.Yaml.Rereading

/-!
# Reading a record again

The fields of a record are found by the texts of their keys. A name that cannot stand for anything
but text (`Scalar.IsVerbatim`) is the text of a key before and after it has been written, so a
record with such names finds the same fields again, in the same order (`CarriesFields.foldlM`), and
accepts what is written for the value of a record that it has accepted (`CarriesFields.record`).
-/

namespace Rollout.Yaml

/-! ## Names of fields -/

/-- The text stands for nothing but itself. -/
def Scalar.IsVerbatim (s : String) : Prop := ∀ x, Spells s x → x = .text s

/-- A text that stands neither for a null nor for a truth value or a number is kept as it is. -/
theorem Scalar.isVerbatim_of_eq_none {s : String}
    (hnull : (s.toList.isEmpty || isNull s.toList) = false) (hbool : bool? s.toList = none)
    (hinteger : integer? s.toList = none) (hfloat : float? s.toList = none) : IsVerbatim s := by
  intro x hx
  rw [Bool.or_eq_false_iff] at hnull
  cases hx with
  | text => rfl
  | null h => rcases h with h | h <;> simp [hnull] at h
  | bool h => rw [hbool] at h; cases h
  | integer h => rw [hinteger] at h; cases h
  | float h => rw [hfloat] at h; cases h

section Retold

variable {s s' t : String} {v : Value}

/-- A text that is kept as it is stands for itself, and it is retold as itself. -/
theorem Retold.eq_of_isVerbatim (h : Retold s v s') (hs : Scalar.IsVerbatim s) :
    s' = s ∧ v.untagged = .string s := by
  obtain ⟨x, hx, hv, rfl⟩ := h
  obtain rfl := hs x hx
  exact ⟨rfl, hv⟩

/-- A text is also retold as itself if the text that comes out is one that is kept. -/
theorem Retold.eq_of_isVerbatim_canonical (h : Retold s v s') (hv : v.IsLegible)
    (hs' : Scalar.IsVerbatim s') : s' = s := by
  obtain ⟨x, hx, hvalue, rfl⟩ := h
  have hlegible := hv.untagged
  rw [hvalue] at hlegible
  obtain ⟨style, hscalar⟩ := x.exists_scalar?_toValue
  have htext : x = .text x.canonical :=
    hs' x (Scalar.spells_of_read (Scalar.read_of_scalar? hlegible hscalar false))
  rw [htext] at hx
  cases hx with
  | text => rfl

end Retold

namespace Value

/-- A value is the same as a string only if it is that string. -/
theorem same_string_iff {v : Value} {name : String} :
    v.same (.string name) = true ↔ v = .string name := by
  cases v with
  | string s => simp [same]
  | _ => simp [same]

/-- The value of the first entry whose key has the given text, with a tag or without. -/
def named? (name : String) (entries : Entries) : Option Value :=
  (entries.find? fun (k, _) => k.untagged.same (.string name)).map (·.2)

variable {name : String} {entries : Entries} {k v : Value}

/-- An entry with another key at the end changes nothing. -/
theorem named?_append_of_ne (hk : k.untagged ≠ .string name) :
    named? name (entries ++ [(k, v)]) = named? name entries := by
  have hsame : k.untagged.same (.string name) = false :=
    Bool.eq_false_iff.2 fun h => hk (same_string_iff.1 h)
  simp [named?, List.find?_append, hsame]

/-- An entry for another name at the end changes nothing. -/
theorem named?_append_of_other {other : String} (hk : k.untagged = .string name)
    (hne : name ≠ other) : named? other (entries ++ [(k, v)]) = named? other entries :=
  named?_append_of_ne fun heq => hne (Value.string.inj (hk.symm.trans heq))

/-- The first entry for a name is the one that counts. -/
theorem named?_append_of_eq (hk : k.untagged = .string name)
    (hentries : ∀ e ∈ entries, e.1.untagged ≠ .string name) (rest : Entries) :
    named? name (entries ++ (k, v) :: rest) = some v := by
  have hnone : entries.find? (fun (k, _) => k.untagged.same (.string name)) = none :=
    List.find?_eq_none.2 fun e he h => hentries e he (same_string_iff.1 h)
  have hsame : k.untagged.same (.string name) = true := same_string_iff.2 hk
  simp [named?, List.find?_append, hnone, hsame]

/-- The value of the first member with a given name of a mapping, with a tag or without. -/
def member? (name : String) (v : Value) : Option Value := v.untagged.entries?.bind (named? name)

/-- The members of a value are the entries of its mapping, whatever tag stands before it. -/
theorem member?_eq {v : Value} (h : v.untagged = .mapping entries) (name : String) :
    v.member? name = named? name entries := by
  rw [member?, h]
  rfl

end Value

namespace Reader

variable {σ : Type} {step : σ → String → Option (Reader σ)}

/-! ## One entry -/

/-- One entry of a record. -/
def recordEntry (step : σ → String → Option (Reader σ)) (d : Document) (depth : Nat)
    (path : Path) (p : σ × List String) (n : Node Nat × Node Nat) : ReadM (σ × List String) := do
  let name ← fieldName d path n.1
  match step p.1 name with
  | none => return p
  | some r =>
    if p.2.contains name then throw (.node path (.duplicateField name))
    let state ← r d depth (path.entry n.1) n.2
    return (state, name :: p.2)

/-- A record is read from a mapping entry by entry. -/
theorem record_mapping (expected : String) (init : σ) (d : Document) (depth : Nat) (path : Path)
    (anchor : Option Nat) (tag : Option Tag) (entries : List (Node Nat × Node Nat)) :
    record expected init step d (depth + 1) path (.mapping anchor tag entries) =
      entries.foldlM (recordEntry step d depth path) (init, []) >>= fun p => pure p.1 := rfl

/-- The name of a field is read as a text is. -/
theorem fieldName_eq_ok_iff {d : Document} {depth : Nat} {path : Path} {n : Node Nat}
    {s t : Nat} {name : String} :
    fieldName d path n s = .ok (name, t) ↔ text d depth path n s = .ok (name, t) := by
  rw [fieldName, text, ReadM.bind_eq_ok_iff, ReadM.bind_eq_ok_iff]
  refine exists_congr fun n' => exists_congr fun s₁ => and_congr_right fun _ => ?_
  cases n' with
  | scalar => rfl
  | _ => exact iff_of_false nofun nofun

section Entry

variable {d : Document} {depth : Nat} {path : Path} {state : σ} {seen : List String}
  {k n : Node Nat} {name : String} {s t : Nat}

/-- What an entry that is accepted is like: its field is not known, or it has not been seen. -/
theorem recordEntry_cases {p : σ × List String}
    (h : recordEntry step d depth path (state, seen) (k, n) s = .ok (p, t)) :
    ∃ name s₁, text d depth path k s = .ok (name, s₁) ∧
      ((step state name = none ∧ p = (state, seen)) ∨
        ∃ r a, step state name = some r ∧ name ∉ seen ∧ r.Accepts d depth n a ∧
          p = (a, name :: seen)) := by
  obtain ⟨name, s₁, hname, h⟩ := ReadM.bind_eq_ok_iff.1 h
  refine ⟨name, s₁, fieldName_eq_ok_iff.1 hname, ?_⟩
  cases hstep : step state name with
  | none =>
    rw [hstep] at h
    cases h
    exact .inl ⟨rfl, rfl⟩
  | some r =>
    rw [hstep] at h
    dsimp only at h
    split_ifs at h with hseen
    · cases h
    · obtain ⟨a, s₂, ha, h⟩ := ReadM.bind_eq_ok_iff.1 h
      cases h
      exact .inr ⟨r, a, rfl, fun hmem => hseen (List.contains_iff_mem.2 hmem), ⟨_, _, _, ha⟩, rfl⟩

/-- An entry that the record does not know is passed over. -/
theorem recordEntry_of_none (hname : text d depth path k s = .ok (name, s))
    (hstep : step state name = none) :
    recordEntry step d depth path (state, seen) (k, n) s = .ok ((state, seen), s) := by
  rw [recordEntry, ReadM.bind_of_eq_ok (fieldName_eq_ok_iff.2 hname), hstep]
  rfl

/-- An entry that the record knows is read, if there was none with its name before. -/
theorem recordEntry_of_some {r : Reader σ} {a : σ} (hname : text d depth path k s = .ok (name, s))
    (hstep : step state name = some r) (hseen : name ∉ seen)
    (ha : r d depth (path.entry k) n s = .ok (a, s)) :
    recordEntry step d depth path (state, seen) (k, n) s = .ok ((a, name :: seen), s) := by
  have hcontains : seen.contains name = false :=
    Bool.eq_false_iff.2 fun h => hseen (List.contains_iff_mem.1 h)
  rw [recordEntry, ReadM.bind_of_eq_ok (fieldName_eq_ok_iff.2 hname), hstep]
  dsimp only
  rw [hcontains]
  exact ReadM.bind_of_eq_ok ha

end Entry

/-! ## Records -/

/-- The fields of a record are read in the same way again. `R` relates the state of the record, the
entries so far and the state that is read from what is written for them; fields that are not known
do not matter to it, and every field that is known keeps it. -/
structure CarriesFields (step : σ → String → Option (Reader σ)) (known : List String)
    (P : String → Value → Prop) (R : σ → Entries → σ → Prop) : Prop where
  isVerbatim : ∀ name ∈ known, Scalar.IsVerbatim name
  eq_none_iff : ∀ {state : σ} {name : String}, step state name = none ↔ name ∉ known
  skip : ∀ {state state' : σ} {es : Entries} {e : Value × Value}, R state es state' →
    (∀ name ∈ known, e.1.untagged ≠ .string name) → R state (es ++ [e]) state'
  carries : ∀ {state state' : σ} {es : Entries} {name : String} {r r' : Reader σ} {k : Value},
    R state es state' → (∀ e ∈ es, e.1.untagged ≠ .string name) → step state name = some r →
    step state' name = some r' → k.untagged = .string name →
    r.Carries r' (P name) fun a v b => R a (es ++ [(k, v)]) b

variable {known : List String} {P : String → Value → Prop} {R : σ → Entries → σ → Prop}

/-- Every field that an entry can stand for has been seen. -/
def HasSeen (known seen : List String) (e : Value × Value) : Prop :=
  ∀ name ∈ known, e.1.untagged = .string name → name ∈ seen

/-- What is written for one entry is read in the same way again: the key of a field keeps its name,
and no other key is written with such a name. -/
theorem CarriesFields.recordEntry (h : CarriesFields step known P R) {d : Document} {depth : Nat}
    {path : Path} {k n : Node Nat} {key value : Value} (hd : d.IsTied)
    (hkey : Value.Reads d depth k key) (hvalue : Value.Reads d depth n value)
    (hkeyLegible : key.IsLegible) (hvalueLegible : value.IsLegible) {state state' : σ}
    {es : Entries} {seen : List String} {p : σ × List String} {s t : Nat}
    (hp : ∀ name, key.untagged = .string name → (∀ e ∈ es, e.1.untagged ≠ .string name) →
      P name value)
    (hstate : R state es state') (hseen : ∀ e ∈ es, HasSeen known seen e)
    (hentry : Reader.recordEntry step d depth path (state, seen) (k, n) s = .ok (p, t)) :
    ∃ a', R p.1 (es ++ [(key, value)]) a' ∧
      (∀ e ∈ es ++ [(key, value)], HasSeen known p.2 e) ∧ ∀ d path s,
        Reader.recordEntry step d depth path (state', seen) (key.toNode, value.toNode) s =
          .ok ((a', p.2), s) := by
  obtain ⟨name, s₁, hname, hcases⟩ := recordEntry_cases hentry
  obtain ⟨name', hretold, hname'⟩ := carries_text hd ⟨path, s, s₁, hname⟩ hkey hkeyLegible trivial
  rcases hcases with ⟨hstep, rfl⟩ | ⟨r, a, hstep, hnew, ha, rfl⟩
  · have hunknown : name ∉ known := h.eq_none_iff.1 hstep
    have hstep' : step state' name' = none := by
      refine h.eq_none_iff.2 fun hmem => hunknown ?_
      rwa [← hretold.eq_of_isVerbatim_canonical hkeyLegible (h.isVerbatim name' hmem)]
    have hne : ∀ field ∈ known, key.untagged ≠ .string field := by
      intro field hmem heq
      rw [(hretold.eq_of_string heq).2] at hmem
      exact hunknown hmem
    refine ⟨state', h.skip hstate hne, ?_, fun d path s => recordEntry_of_none (hname' d path s)
      hstep'⟩
    rw [List.forall_mem_append, List.forall_mem_singleton]
    exact ⟨hseen, fun field hmem heq => absurd heq (hne field hmem)⟩
  · have hknown : name ∈ known := by
      by_contra hunknown
      rw [h.eq_none_iff.2 hunknown] at hstep
      cases hstep
    obtain ⟨rfl, heq⟩ := hretold.eq_of_isVerbatim (h.isVerbatim name hknown)
    have hes : ∀ e ∈ es, e.1.untagged ≠ .string name' :=
      fun e he heq => hnew (hseen e he name' hknown heq)
    obtain ⟨r', hstep'⟩ : ∃ r', step state' name' = some r' :=
      Option.ne_none_iff_exists'.1 fun hnone => h.eq_none_iff.1 hnone hknown
    obtain ⟨b, hb, hyield⟩ :=
      h.carries hstate hes hstep hstep' heq hd ha hvalue hvalueLegible (hp name' heq hes)
    refine ⟨b, hb, ?_, fun d path s => recordEntry_of_some (hname' d path s) hstep' hnew
      (hyield d _ s)⟩
    rw [List.forall_mem_append, List.forall_mem_singleton]
    refine ⟨fun e he field hmem hfield => List.mem_cons_of_mem _ (hseen e he field hmem hfield),
      fun field _ hfield => ?_⟩
    rw [heq] at hfield
    obtain rfl := Value.string.inj hfield
    exact List.mem_cons_self

/-- The same for all entries, one after the other. -/
theorem CarriesFields.foldlM (h : CarriesFields step known P R) {d : Document} {depth : Nat}
    {path : Path} {nodes : List (Node Nat × Node Nat)} {entries : Entries} (hd : d.IsTied)
    (hreads : List.Forall₂ (fun n e => Value.Reads d depth n.1 e.1 ∧ Value.Reads d depth n.2 e.2)
      nodes entries)
    (hlegible : ∀ e ∈ entries, e.1.IsLegible ∧ e.2.IsLegible)
    {state state' result : σ} {es : Entries} {seen seen' : List String} {s t : Nat}
    (hp : ∀ name v, Value.named? name (es ++ entries) = some v → P name v)
    (hstate : R state es state') (hseen : ∀ e ∈ es, HasSeen known seen e)
    (hfold : nodes.foldlM (Reader.recordEntry step d depth path) (state, seen) s =
      .ok ((result, seen'), t)) :
    ∃ result', R result (es ++ entries) result' ∧ ∀ d path s,
      (Value.entryNodes entries).foldlM (Reader.recordEntry step d depth path) (state', seen) s =
        .ok ((result', seen'), s) := by
  induction hreads generalizing state state' es seen s with
  | nil =>
    cases hfold
    exact ⟨state', by rwa [List.append_nil], fun _ _ _ => rfl⟩
  | @cons n e nodes entries hread _ ih =>
    obtain ⟨⟨hkey, hvalue⟩, hlegible⟩ := List.forall_mem_cons.1 hlegible
    rw [List.foldlM_cons] at hfold
    obtain ⟨p, s₁, hentry, hfold⟩ := ReadM.bind_eq_ok_iff.1 hfold
    obtain ⟨a', ha, hseen', hyield⟩ := h.recordEntry hd hread.1 hread.2 hkey hvalue
      (fun name heq hes => hp name e.2 (Value.named?_append_of_eq heq hes entries)) hstate hseen
      hentry
    have hpRest : ∀ name v, Value.named? name ((es ++ [e]) ++ entries) = some v → P name v := by
      rwa [List.append_assoc, List.singleton_append]
    obtain ⟨result', hresult, hyields⟩ := ih hlegible hpRest ha hseen' hfold
    rw [List.append_assoc, List.singleton_append] at hresult
    refine ⟨result', hresult, fun d path s => ?_⟩
    rw [Value.entryNodes, List.foldlM_cons, ReadM.bind_of_eq_ok (hyield d path s)]
    exact hyields d path s

/-- What is written for the value of a record that has been read is read as the record, unless the
node of the record is empty. -/
theorem CarriesFields.record (h : CarriesFields step known P R) (expected : String) {init : σ}
    (hinit : R init [] init) {d : Document} {depth : Nat} {n : Node Nat} {result : σ} {v : Value}
    (hd : d.IsTied) (hresult : (record expected init step).Accepts d depth n result)
    (hread : v.Reads d depth n) (hv : v.IsLegible)
    (hp : ∀ name w, v.member? name = some w → P name w) :
    result = init ∨ ∃ es result', v.untagged = .mapping es ∧ R result es result' ∧
      (Reader.record expected init step).Yields depth v result' := by
  obtain ⟨path, s, t, hresult⟩ := hresult
  obtain ⟨n', s₁, hn', hresult⟩ := ReadM.bind_eq_ok_iff.1 hresult
  obtain rfl := Document.eq_followed hn'
  have hcases := hread.cases
  generalize d.followed n = n' at hresult hcases
  cases hcases with
  | @scalar _ _ _ style s =>
    dsimp only at hresult
    split_ifs at hresult
    · cases hresult
      exact .inl rfl
    · cases hresult
  | sequence => cases hresult
  | @mapping depth _ tag nodes entries hentries =>
    have huntagged := Value.untagged_withTag tag (v := .mapping entries) rfl
    have hlegible := hv.untagged
    rw [huntagged] at hlegible
    obtain ⟨p, s₂, hfold, heq⟩ := ReadM.bind_eq_ok_iff.1 hresult
    cases heq
    have hlegible : ∀ e ∈ entries, e.1.IsLegible ∧ e.2.IsLegible := by
      cases hlegible with
      | mapping hkeys hvalues _ => exact fun e he => ⟨hkeys e he, hvalues e he⟩
    have hp : ∀ name w, Value.named? name ([] ++ entries) = some w → P name w := by
      intro name w hw
      exact hp name w ((Value.member?_eq huntagged name).trans hw)
    obtain ⟨result', hresult, hyields⟩ := h.foldlM hd hentries hlegible hp hinit
      (fun e he => nomatch he) hfold
    rw [List.nil_append] at hresult
    obtain ⟨tag', hnode⟩ := Value.exists_toNode_of_mapping huntagged
    refine .inr ⟨entries, result', huntagged, hresult, fun d path s => ?_⟩
    rw [hnode, record_mapping]
    exact ReadM.bind_of_eq_ok (hyields d path s)
  | _ id => cases hresult

end Reader

end Rollout.Yaml
