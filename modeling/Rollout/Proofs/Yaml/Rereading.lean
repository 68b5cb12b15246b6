import Rollout.Bytes
import Rollout.Proofs.Yaml.ValueReading

/-!
# Reading a document again

A document that is read as a value and written again can be read in the same way as before: a
reader that has accepted the nodes accepts what is written for their values. `Carries r r' P R` says
this of a reader, together with what the two results have to do with each other and with the value.
It holds of texts, which the writer may have spelled anew (`Retold`), and it is kept by what readers
are made of, up to records (`Carries.record`).
-/

namespace Rollout.Yaml

section Anchored

variable {α : Type} {p : α × Node α}

/-- An anchor of a node that is no alias does not name an alias. -/
theorem Node.ne_alias_of_mem_toList {anchor : Option α} {n : Node α}
    (h : p ∈ (anchor.map (·, n)).toList) (hn : ∀ id, n ≠ .alias id) : ∀ id, p.2 ≠ .alias id := by
  rw [Option.mem_toList, Option.map_eq_some_iff] at h
  obtain ⟨_, -, rfl⟩ := h
  exact hn

mutual

/-- An anchored node is no alias. -/
theorem Node.ne_alias_of_mem_anchored {n : Node α} (h : p ∈ n.anchored) :
    ∀ id, p.2 ≠ .alias id := by
  cases n with
  | scalar anchor tag style text =>
    rw [anchored] at h
    exact ne_alias_of_mem_toList h nofun
  | sequence anchor tag items =>
    rw [anchored] at h
    rcases List.mem_append.1 h with h | h
    · exact ne_alias_of_mem_toList h nofun
    · exact ne_alias_of_mem_anchoredItems h
  | mapping anchor tag entries =>
    rw [anchored] at h
    rcases List.mem_append.1 h with h | h
    · exact ne_alias_of_mem_toList h nofun
    · exact ne_alias_of_mem_anchoredEntries h
  | _ => cases h
termination_by structural n

/-- No anchor in some items names an alias. -/
theorem Node.ne_alias_of_mem_anchoredItems {ns : List (Node α)} (h : p ∈ anchoredItems ns) :
    ∀ id, p.2 ≠ .alias id := by
  cases ns with
  | nil => cases h
  | cons n ns =>
    rw [anchoredItems] at h
    rcases List.mem_append.1 h with h | h
    · exact ne_alias_of_mem_anchored h
    · exact ne_alias_of_mem_anchoredItems h
termination_by structural ns

/-- No anchor in some entries names an alias. -/
theorem Node.ne_alias_of_mem_anchoredEntries {es : List (Node α × Node α)}
    (h : p ∈ anchoredEntries es) : ∀ id, p.2 ≠ .alias id := by
  cases es with
  | nil => cases h
  | cons e es =>
    obtain ⟨k, v⟩ := e
    rw [anchoredEntries, List.append_assoc] at h
    rcases List.mem_append.1 h with h | h
    · exact ne_alias_of_mem_anchored h
    · rcases List.mem_append.1 h with h | h
      · exact ne_alias_of_mem_anchored h
      · exact ne_alias_of_mem_anchoredEntries h
termination_by structural es

end

end Anchored

namespace Document

/-- No alias of the document stands for an alias. -/
def IsTied (d : Document) : Prop := ∀ n id, d.followed n ≠ .alias id

/-- In a document that comes from a text, no alias leads to another alias. -/
theorem isTied_of_ofText? {text : String} {d : Document} (h : ofText? text = some d) :
    d.IsTied := by
  have hanchors : ∀ p ∈ d.anchors, ∀ id, p.2 ≠ .alias id := by
    rw [ofText?] at h
    obtain ⟨ts, -, h⟩ := Option.bind_eq_some_iff.1 h
    obtain ⟨root, -, h⟩ := Option.bind_eq_some_iff.1 h
    cases root with
    | none =>
      cases h
      exact fun p hp => absurd hp List.not_mem_nil
    | some n =>
      obtain ⟨linked, -, h⟩ := Option.bind_eq_some_iff.1 h
      cases h
      exact fun p hp => Node.ne_alias_of_mem_anchored hp
  intro n id
  cases n with
  | scalar | sequence | mapping => exact fun h => by cases h
  | _ target =>
    rw [followed, target?]
    cases hfind : d.anchors.reverse.find? (·.1 == target) with
    | none => exact fun h => by cases h
    | some p => exact hanchors p (List.mem_reverse.1 (List.mem_of_find?_eq_some hfind)) id

end Document

/-! ## Scalars that are written -/

namespace Scalar

/-- A text that is written plain stands for itself. -/
theorem ofPlain_of_styleOf {s : String} (h : styleOf s = .plain) : ofPlain s = .text s := by
  have hambiguous : isAmbiguous s = false := by
    by_contra hne
    rw [Bool.not_eq_false] at hne
    simp only [styleOf, hne] at h
    split_ifs at h
  rw [isAmbiguous] at hambiguous
  split at hambiguous
  · next t heq =>
    cases heq ▸ spells_ofPlain s with
    | text => exact heq
  · cases hambiguous

/-- A plain text stands for a null if it is empty or spells one. -/
theorem ofPlain_eq_null_iff {s : String} :
    ofPlain s = .null ↔ (s.isEmpty || isNull s.toList) = true := by
  have hempty : s.toList.isEmpty = s.isEmpty := by
    rw [Bool.eq_iff_iff, List.isEmpty_iff, String.toList_eq_nil_iff, String.isEmpty_iff]
  rw [ofPlain, hempty]
  by_cases hnull : (s.isEmpty || isNull s.toList) = true
  · rw [if_pos hnull]
    exact iff_of_true rfl hnull
  · rw [if_neg hnull]
    refine iff_of_false (fun h => ?_) hnull
    split at h
    · cases h
    · split at h
      · cases h
      · split at h <;> cases h

/-- What a scalar stands for can be told from what is written for it. -/
theorem read_of_scalar? {x : Scalar} {style : Style} {s : String} (hx : x.toValue.IsLegible)
    (h : x.toValue.scalar? = some (style, s)) (tagKnown : Bool) :
    read none style s tagKnown = .ok x := by
  have huntagged : (if style = .plain then ofPlain s else .text s) = x := by
    cases x with
    | null =>
      cases h
      decide
    | bool b =>
      cases h
      cases b <;> decide
    | integer n =>
      cases h
      cases hx with
      | number hn => exact Number.ofPlain_text hn
    | float x =>
      cases h
      cases hx with
      | number hx => exact Number.ofPlain_text hx
    | text t =>
      cases h
      split_ifs with hplain
      · exact ofPlain_of_styleOf hplain
      · rfl
  rw [read, huntagged]
  cases tagKnown <;> rfl

end Scalar

namespace Value

variable {v : Value}

/-- What stands under the tags of a legible value is legible. -/
theorem IsLegible.untagged (h : v.IsLegible) : v.untagged.IsLegible := by
  cases h with
  | tagged _ h => exact h
  | null => exact .null
  | bool b => exact .bool b
  | number h => exact .number h
  | string s => exact .string s
  | sequence h => exact .sequence h
  | mapping hkeys hvalues hdistinct => exact .mapping hkeys hvalues hdistinct

/-- The node of a value is that of the value without its tag, apart from the tag. -/
theorem toNode_eq (v : Value) :
    (v.toNode : Node Nat) = v.untagged.toNode ∨
      ∃ name, (v.toNode : Node Nat) = v.untagged.toNode.setTag (nodeTag name) := by
  cases v with
  | tagged name v => exact .inr ⟨name, by rw [toNode, untagged]⟩
  | _ => exact .inl rfl

/-- The tag of a value is not that of nulls. -/
theorem nodeTag_ne_null (name : String) :
    some (nodeTag name) ≠ some (Scalar.coreTag "null") := by
  intro h
  have hhead : (nodeTag name).head? = some 33 := by
    rw [nodeTag]
    split_ifs <;> rfl
  rw [Option.some.inj h] at hhead
  exact absurd hhead (by decide)

/-- The node of a tagged scalar is that of the scalar with a tag. -/
theorem exists_toNode_of_scalar? {style : Style} {s : String}
    (h : v.untagged.scalar? = some (style, s)) :
    ∃ tag, (v.toNode : Node Nat) = .scalar none tag style s := by
  rcases toNode_eq v with heq | ⟨name, heq⟩
  · exact ⟨none, by rw [heq, toNode_of_scalar? h]⟩
  · exact ⟨some (nodeTag name), by rw [heq, toNode_of_scalar? h, Node.setTag]⟩

/-- The node of a tagged list is that of the list with a tag. -/
theorem exists_toNode_of_sequence {items : List Value} (h : v.untagged = .sequence items) :
    ∃ tag, (v.toNode : Node Nat) = .sequence none tag (itemNodes items) := by
  rcases toNode_eq v with heq | ⟨name, heq⟩
  · exact ⟨none, by rw [heq, h, toNode]⟩
  · exact ⟨some (nodeTag name), by rw [heq, h, toNode, Node.setTag]⟩

/-- The node of a tagged mapping is that of the mapping with a tag. -/
theorem exists_toNode_of_mapping {entries : Entries} (h : v.untagged = .mapping entries) :
    ∃ tag, (v.toNode : Node Nat) = .mapping none tag (entryNodes entries) := by
  rcases toNode_eq v with heq | ⟨name, heq⟩
  · exact ⟨none, by rw [heq, h, toNode]⟩
  · exact ⟨some (nodeTag name), by rw [heq, h, toNode, Node.setTag]⟩

end Value

/-- A text that has been read from a scalar, the value of the scalar, and the text that is written
for it: the canonical text of something that the first text spells. -/
def Retold (s : String) (v : Value) (s' : String) : Prop :=
  ∃ x, Scalar.Spells s x ∧ v.untagged = x.toValue ∧ s' = x.canonical

/-- A text that is written as text stays as it is. -/
theorem Retold.eq_of_string {s t s' : String} {v : Value} (h : Retold s v s')
    (hv : v.untagged = .string t) : s' = s ∧ t = s := by
  obtain ⟨x, hx, hvalue, rfl⟩ := h
  rw [hv] at hvalue
  cases hx with
  | text => exact ⟨rfl, Value.string.inj hvalue⟩
  | _ => cases hvalue

/-- A text that is there or not, in the same way as its value, and what is written for it. -/
inductive RetoldField : Option String → Option Value → Option String → Prop
  | missing : RetoldField none none none
  | given {s s' : String} {v : Value} (h : Retold s v s') :
    RetoldField (some s) (some v) (some s')

/-- A field that is there is there when it is retold. -/
theorem RetoldField.exists_eq_some {s : String} {v : Option Value} {s' : Option String}
    (h : RetoldField (some s) v s') : ∃ t, s' = some t := by
  cases h with
  | given => exact ⟨_, rfl⟩

/-- The same where a null counts as nothing. -/
inductive RetoldOptional : Option String → Option Value → Option String → Prop
  | missing : RetoldOptional none none none
  | null {s : Option String} (h : ∀ t, s = some t → Scalar.Spells t .null) :
    RetoldOptional s (some .null) none
  | given {s s' : String} {v : Value} (h : Retold s v s') :
    RetoldOptional (some s) (some v) (some s')

/-- The text of a scalar that has been read is written as text. -/
theorem Value.ReadsAs.retold {d : Document} {depth : Nat} {anchor : Option Nat} {tag : Option Tag}
    {style : Style} {s : String} {v : Value} (h : ReadsAs d depth (.scalar anchor tag style s) v) :
    ∃ s' tag' style', Retold s v s' ∧ (v.toNode : Node Nat) = .scalar none tag' style' s' := by
  cases h with
  | @scalar _ _ _ _ _ x hread hx =>
    have hv := untagged_withTag tag (untagged_toValue x)
    obtain ⟨style', hscalar⟩ := x.exists_scalar?_toValue
    rw [← hv] at hscalar
    obtain ⟨tag', hnode⟩ := exists_toNode_of_scalar? hscalar
    exact ⟨x.canonical, tag', style', ⟨x, Scalar.spells_of_read hread, hv, rfl⟩, hnode⟩

namespace Value

/-- The node with a tag, if there is one. -/
def nodeWithTag (tag : Option Tag) (v : Value) : Node Nat :=
  match tag with
  | none => v.toNode
  | some t => v.toNode.setTag t

/-- The value is read from its node with a tag: it carries the tag then. -/
def YieldsTagged (depth : Nat) (v : Value) (tag : Option Tag) : Prop :=
  ∀ (d : Document) (path : Path) (s : Nat),
    read d depth path (nodeWithTag tag v) s = .ok (withTag tag v, s)

/-- A scalar under a tag of its own. -/
theorem yieldsTagged_toValue {depth : Nat} {tag : Option Tag} {x : Scalar}
    (hx : x.toValue.IsLegible) (htag : tag = none ∨ (localTag? tag).isSome = true) :
    YieldsTagged depth x.toValue tag := by
  intro d path s
  obtain ⟨style, hscalar⟩ := x.exists_scalar?_toValue
  have hnode : nodeWithTag tag x.toValue = .scalar none tag style x.canonical := by
    cases tag with
    | none => exact toNode_of_scalar? hscalar
    | some t => rw [nodeWithTag, toNode_of_scalar? hscalar, Node.setTag]
  have hread : Scalar.read tag style x.canonical (localTag? tag).isSome = .ok x := by
    rcases htag with rfl | htag
    · exact Scalar.read_of_scalar? hx hscalar _
    · have huntagged := Scalar.read_of_scalar? hx hscalar true
      rw [htag]
      exact huntagged
  have hvalue : ofScalar path tag style x.canonical = .ok (withTag tag x.toValue) := by
    rw [ofScalar, hread]
    cases x with
    | integer n =>
      cases hx with
      | number hn =>
        have hwide : Scalar.isWide n = false := hn
        dsimp only
        rw [hwide]
        rfl
    | _ => rfl
  rw [hnode, read.eq_def]
  change (liftM (ofScalar path tag style x.canonical) : ReadM Value) s = _
  rw [hvalue]
  rfl

end Value

namespace Reader

variable {α β α' β' : Type}

/-- The reader gets a result from what is written for a value. -/
def Yields (r : Reader α) (depth : Nat) (v : Value) (a : α) : Prop :=
  ∀ (d : Document) (path : Path) (s : Nat), r d depth path v.toNode s = .ok (a, s)

/-- The reader accepts a node of a document with the given result. -/
def Accepts (r : Reader α) (d : Document) (depth : Nat) (n : Node Nat) (a : α) : Prop :=
  ∃ path s t, r d depth path n s = .ok (a, t)

/-- Where `r` accepts a node whose value has the property `P`, the reader `r'` accepts what is
written for the value, with a result that `R` relates to that of `r` and the value. -/
def Carries (r : Reader α) (r' : Reader β) (P : Value → Prop) (R : α → Value → β → Prop) : Prop :=
  ∀ ⦃d : Document⦄ ⦃depth : Nat⦄ ⦃n : Node Nat⦄ ⦃a : α⦄ ⦃v : Value⦄, d.IsTied →
    r.Accepts d depth n a → v.Reads d depth n → v.IsLegible → P v →
      ∃ b, R a v b ∧ r'.Yields depth v b

variable {r : Reader α} {r' : Reader β} {P : Value → Prop} {R : α → Value → β → Prop}

/-- A text that is written again is read as it is retold. -/
theorem carries_text : text.Carries text (fun _ => True) Retold := by
  rintro d depth n a v hd ⟨path, s, t, h⟩ hread _ _
  obtain ⟨n', s₁, hn', h⟩ := ReadM.bind_eq_ok_iff.1 h
  obtain rfl := Document.eq_followed hn'
  have hv := hread.cases
  generalize d.followed n = n' at h hv
  cases n' with
  | scalar anchor tag style text =>
    cases h
    obtain ⟨s', tag', style', hretold, hnode⟩ := hv.retold
    refine ⟨s', hretold, fun d path s => ?_⟩
    rw [hnode]
    rfl
  | _ => cases h

/-- A reader that carries values to results carries fewer values to more results. -/
theorem Carries.mono {P' : Value → Prop} {R' : α → Value → β → Prop} (h : r.Carries r' P R)
    (hP : ∀ v, P' v → P v) (hR : ∀ a v b, R a v b → R' a v b) : r.Carries r' P' R' := by
  intro d depth n a v hd ha hread hv hp
  obtain ⟨b, hb, hyields⟩ := h hd ha hread hv (hP v hp)
  exact ⟨b, hR a v b hb, hyields⟩

/-- A reader that is refined succeeds if what it has read passes the check. -/
theorem refine_eq_ok_iff {f : α → Except Cause α'} {d : Document} {depth : Nat} {path : Path}
    {n : Node Nat} {s t : Nat} {a' : α'} :
    r.refine f d depth path n s = .ok (a', t) ↔
      ∃ a, r d depth path n s = .ok (a, t) ∧ f a = .ok a' := by
  rw [refine, ReadM.bind_eq_ok_iff]
  constructor
  · rintro ⟨a, s₁, ha, h⟩
    cases hf : f a with
    | error cause =>
      rw [hf] at h
      cases h
    | ok b =>
      rw [hf] at h
      cases h
      exact ⟨a, ha, hf⟩
  · rintro ⟨a, ha, hf⟩
    exact ⟨a, t, ha, by rw [hf]; rfl⟩

/-- What is made of the results does not matter to whether they are carried. -/
theorem Carries.map (h : r.Carries r' P R) (f : α → α') (g : β → β') :
    (r.map f).Carries (r'.map g) P fun a v b => ∃ a' b', R a' v b' ∧ a = f a' ∧ b = g b' := by
  rintro d depth n a v hd ⟨path, s, t, hr⟩ hread hv hp
  obtain ⟨a', ha', rfl⟩ := ReadM.map_eq_ok_iff.1 hr
  obtain ⟨b', hrelated, hb'⟩ := h hd ⟨path, s, t, ha'⟩ hread hv hp
  refine ⟨g b', ⟨a', b', hrelated, rfl, rfl⟩, fun d path s => ?_⟩
  exact ReadM.map_eq_ok_iff.2 ⟨b', hb' d path s, rfl⟩

section Optional

variable {d : Document} {depth : Nat} {path : Path} {anchor : Option Nat} {tag : Option Tag}
  {style : Style} {text : String} {s t : Nat}

/-- A scalar that is not a null is read by the reader of what may be missing. -/
theorem optional_of_ne_null {a : α}
    (huntagged : style = .plain → tag = none → Scalar.ofPlain text ≠ .null)
    (htag : tag ≠ some (Scalar.coreTag "null"))
    (h : r d depth path (.scalar anchor tag style text) s = .ok (a, t)) :
    r.optional d depth path (.scalar anchor tag style text) s = .ok (some a, t) := by
  have hsome : (r d depth path (.scalar anchor tag style text) >>= fun a => pure (some a)) s =
      .ok (some a, t) := ReadM.bind_eq_ok_iff.2 ⟨a, t, h, rfl⟩
  rw [← hsome, optional]
  cases style with
  | plain =>
    cases tag with
    | none =>
      change (if (text.isEmpty || Scalar.isNull text.toList) = true then pure none else _ :
        ReadM _) _ = _
      rw [if_neg fun hnull => huntagged rfl rfl (Scalar.ofPlain_eq_null_iff.2 hnull)]
    | some octets =>
      change (if octets = Scalar.coreTag "null" then _ else _ : ReadM _) _ = _
      rw [if_neg fun heq => htag (congrArg some heq)]
      rfl
  | _ => rfl

/-- Where the reader of what may be missing accepts a scalar, it is a null or it is read. -/
theorem optional_scalar_cases {a : Option α}
    (h : r.optional d depth path (.scalar anchor tag style text) s = .ok (a, t)) :
    (a = none ∧ localTag? tag = none ∧ Scalar.read tag style text false = .ok .null) ∨
      ∃ b, a = some b ∧ r d depth path (.scalar anchor tag style text) s = .ok (b, t) := by
  have hsome (h : (r d depth path (.scalar anchor tag style text) >>= fun a => pure (some a)) s =
      .ok (a, t)) : ∃ b, a = some b ∧ r d depth path (.scalar anchor tag style text) s =
      .ok (b, t) := by
    obtain ⟨b, s₁, hb, h⟩ := ReadM.bind_eq_ok_iff.1 h
    cases h
    exact ⟨b, rfl, hb⟩
  cases style with
  | plain =>
    cases tag with
    | none =>
      change (if (text.isEmpty || Scalar.isNull text.toList) = true then pure none else _ :
        ReadM _) s = _ at h
      split_ifs at h with hnull
      · cases h
        refine .inl ⟨rfl, rfl, ?_⟩
        exact congrArg Except.ok (Scalar.ofPlain_eq_null_iff.2 hnull)
      · exact .inr (hsome h)
    | some octets =>
      change (if octets = Scalar.coreTag "null" then
        if Scalar.isNull text.toList = true then pure none else _ else _ : ReadM _) s = _ at h
      split_ifs at h with htag hnull
      · cases h
        subst htag
        refine .inl ⟨rfl, by decide, ?_⟩
        have hbool : Scalar.coreTag "null" ≠ Scalar.coreTag "bool" := by decide
        have hint : Scalar.coreTag "null" ≠ Scalar.coreTag "int" := by decide
        have hfloat : Scalar.coreTag "null" ≠ Scalar.coreTag "float" := by decide
        rw [Scalar.read]
        simp [hbool, hint, hfloat, hnull]
      · cases h
      · exact .inr (hsome h)
  | _ => exact .inr (hsome h)

end Optional

/-- A text that may be missing and is written again is read as it is retold. -/
theorem carries_optionalText :
    text.optional.Carries text.optional (fun _ => True)
      fun a v b => RetoldOptional a (some v) b := by
  rintro d depth n a v hd ⟨path, s, t, h⟩ hread hv _
  obtain ⟨n', s₁, hn', h⟩ := ReadM.bind_eq_ok_iff.1 h
  obtain rfl := Document.eq_followed hn'
  have hreads := hread.cases
  have hn := hd n
  generalize d.followed n = n' at h hreads hn
  cases n' with
  | scalar anchor tag style text =>
    have h : Reader.text.optional d depth path (.scalar anchor tag style text) s₁ = .ok (a, t) := h
    cases hreads with
    | @scalar _ _ _ _ _ x hx hlegible =>
      have hspells := Scalar.spells_of_read hx
      rcases optional_scalar_cases h with ⟨rfl, htag, hnull⟩ | ⟨b, rfl, hb⟩
      · rw [htag, Option.isSome_none, hnull] at hx
        cases hx
        have hvalue : Value.withTag tag Scalar.null.toValue = .null := by
          rw [Value.withTag, htag]
          rfl
        rw [hvalue]
        exact ⟨none, .null (fun _ h => by cases h), fun _ _ _ => rfl⟩
      · cases hb
        obtain ⟨style', hscalar⟩ := x.exists_scalar?_toValue
        have hnode : (x.toValue.toNode : Node Nat) = .scalar none none style' x.canonical :=
          Value.toNode_of_scalar? hscalar
        have hretold : Retold text (Value.withTag tag x.toValue) x.canonical :=
          ⟨x, hspells, Value.untagged_withTag tag (Value.untagged_toValue x), rfl⟩
        rcases Value.withTag_eq tag x.toValue with heq | ⟨name, -, heq⟩
        · by_cases hnull : x = .null
          · subst hnull
            rw [heq]
            refine ⟨none, .null fun t ht => ?_, fun _ _ _ => rfl⟩
            obtain rfl := Option.some.inj ht
            exact hspells
          · refine ⟨some x.canonical, .given hretold, fun d path s => ?_⟩
            rw [heq, hnode]
            refine optional_of_ne_null ?_ (Option.some_ne_none _).symm rfl
            rintro rfl - hplain
            have hread := Scalar.read_of_scalar? hlegible hscalar false
            rw [Scalar.read, if_pos rfl, hplain] at hread
            exact hnull (Except.ok.inj hread).symm
        · refine ⟨some x.canonical, .given hretold, fun d path s => ?_⟩
          rw [heq, Value.toNode, hnode]
          exact optional_of_ne_null (fun _ h => by cases h) (Value.nodeTag_ne_null _) rfl
  | _ id =>
    first
    | cases h
    | exact absurd rfl (hn id)

/-- A scalar is read as the value that it has been written for. -/
theorem yields_toValue {x : Scalar} (hx : x.toValue.IsLegible) (depth : Nat) :
    value.Yields depth x.toValue x.toValue := Value.yieldsTagged_toValue hx (.inl rfl)

/-- The results for some nodes, each with what is read from the node as it is written. -/
theorem Carries.exists_pairs (h : r.Carries r' P R) {d : Document} {depth : Nat}
    {nodes : List (Node Nat)} {values : List Value} {as : List α} (hd : d.IsTied)
    (haccepts : List.Forall₂ (r.Accepts d depth) nodes as)
    (hreads : List.Forall₂ (Value.Reads d depth) nodes values)
    (hlegible : ∀ w ∈ values, w.IsLegible) (hp : ∀ w ∈ values, P w) :
    ∃ ps : List (α × β), as = ps.map Prod.fst ∧
      List.Forall₂ (fun w p => R p.1 w p.2 ∧ r'.Yields depth w p.2) values ps := by
  induction hreads generalizing as with
  | nil =>
    cases haccepts
    exact ⟨[], rfl, .nil⟩
  | cons hread _ ih =>
    obtain ⟨hlegibleHead, hlegibleTail⟩ := List.forall_mem_cons.1 hlegible
    obtain ⟨hpHead, hpTail⟩ := List.forall_mem_cons.1 hp
    cases haccepts with
    | cons ha has =>
      obtain ⟨b, hb⟩ := h hd ha hread hlegibleHead hpHead
      obtain ⟨ps, rfl, hpairs⟩ := ih has hlegibleTail hpTail
      exact ⟨(_, b) :: ps, rfl, .cons hb hpairs⟩

/-- The items of a sequence, one after the other. -/
theorem Yields.mapM {depth : Nat} {values : List Value} {ps : List (α × β)}
    (h : List.Forall₂ (fun v p => r'.Yields depth v p.2) values ps) (d : Document) (path : Path)
    (k s : Nat) :
    List.mapM (m := ReadM) (fun (n, i) => r' d depth (.item path i) n)
      ((Value.itemNodes values).zipIdx k) s = .ok (ps.map Prod.snd, s) := by
  rw [Value.itemNodes_eq_map]
  induction h generalizing k with
  | nil => rfl
  | cons hv _ ih =>
    rw [List.map_cons, List.zipIdx_cons, List.mapM_cons, ReadM.bind_of_eq_ok (hv d _ s),
      ReadM.bind_of_eq_ok (ih (k + 1))]
    rfl

/-- A list that is written again is read item by item, if its items are carried. -/
theorem Carries.sequence (h : r.Carries r' P R) :
    r.sequence.Carries r'.sequence
      (fun v => ∃ items, v.untagged = .sequence items ∧ ∀ w ∈ items, P w)
      (fun as v bs => ∃ items ps, v.untagged = .sequence items ∧ as = ps.map Prod.fst ∧
        bs = ps.map Prod.snd ∧ List.Forall₂ (fun w p => R p.1 w p.2) items ps) := by
  rintro d depth n as v hd ⟨path, s, t, hr⟩ hread hv ⟨items, huntagged, hitems⟩
  obtain ⟨n', s₁, hn', hr⟩ := ReadM.bind_eq_ok_iff.1 hr
  obtain rfl := Document.eq_followed hn'
  have hcases := hread.cases
  have hlegible := hv.untagged
  rw [huntagged] at hlegible
  generalize d.followed n = n' at hr hcases
  cases hcases with
  | @scalar _ _ tag _ _ x =>
    rw [Value.untagged_withTag tag (Value.untagged_toValue x)] at huntagged
    cases x <;> cases huntagged
  | @sequence depth _ tag nodes values hnodes =>
    rw [Value.untagged_withTag tag rfl] at huntagged
    obtain rfl := Value.sequence.inj huntagged
    have hresults := (ReadM.forall₂_of_mapM hr).imp
      (S := fun (p : Node Nat × Nat) a => r.Accepts d depth p.1 a) fun p a h => ⟨_, h⟩
    rw [← List.forall₂_map_left_iff, List.zipIdx_map_fst] at hresults
    have hlegible : ∀ w ∈ values, w.IsLegible := by
      cases hlegible with
      | sequence h => exact h
    obtain ⟨ps, rfl, hps⟩ := h.exists_pairs hd hresults hnodes hlegible hitems
    obtain ⟨tag', hnode⟩ := Value.exists_toNode_of_sequence (Value.untagged_withTag tag rfl)
    refine ⟨ps.map Prod.snd, ⟨_, ps, Value.untagged_withTag tag rfl, rfl, rfl,
      hps.imp fun _ _ h => h.1⟩, fun d path s => ?_⟩
    rw [hnode]
    exact Yields.mapM (hps.imp fun _ _ h => h.2) d path 0 s
  | @mapping _ _ tag =>
    rw [Value.untagged_withTag tag rfl] at huntagged
    cases huntagged
  | _ id => cases huntagged

/-! ## Documents -/

/-- What is read from a text is read from the root of its document. -/
theorem exists_accepts_of_readText {text : String} {a : α} (h : r.readText text = .ok a) :
    ∃ d, Document.ofText? text = some d ∧ r.Accepts d 128 (d.root.getD .absent) a := by
  rw [readText] at h
  cases hd : Document.ofText? text with
  | none =>
    rw [hd] at h
    cases h
  | some d =>
    rw [hd] at h
    obtain ⟨⟨b, t⟩, hb, heq⟩ := map_eq_ok_iff.1 h
    cases heq
    exact ⟨d, rfl, .root, 0, t, hb⟩

/-- What is read from some bytes is read from the root of their document. -/
theorem exists_accepts_of_readBytes {bytes : ByteArray} {a : α} (h : r.readBytes bytes = .ok a) :
    ∃ text d, String.fromUTF8? bytes = some text ∧ Document.ofText? text = some d ∧
      r.Accepts d 128 (d.root.getD .absent) a := by
  rw [readBytes] at h
  cases htext : String.fromUTF8? bytes with
  | none =>
    rw [htext] at h
    cases h
  | some text =>
    rw [htext] at h
    obtain ⟨d, hd, ha⟩ := exists_accepts_of_readText h
    exact ⟨text, d, rfl, hd, ha⟩

/-- The value of a text is proper. -/
theorem isProper_of_readText {text : String} {v : Value} (h : value.readText text = .ok v) :
    v.IsProper := by
  obtain ⟨d, -, hread⟩ := exists_accepts_of_readText h
  have hread : v.Reads d 128 (d.root.getD .absent) := hread
  exact hread.isProper

/-- The value of some octets is proper. -/
theorem isProper_of_readBytes {bytes : ByteArray} {v : Value} (h : value.readBytes bytes = .ok v) :
    v.IsProper := by
  obtain ⟨_, d, -, -, hread⟩ := exists_accepts_of_readBytes h
  have hread : v.Reads d 128 (d.root.getD .absent) := hread
  exact hread.isProper

/-- The value of some octets is legible if its tags are plain. -/
theorem isLegible_of_readBytes {bytes : ByteArray} {v : Value} (h : value.readBytes bytes = .ok v)
    (htags : ∀ tag ∈ v.tags, IsPlainTag tag) : v.IsLegible :=
  (isProper_of_readBytes h).isLegible htags

/-- What is written for a value is read from its text. -/
theorem Yields.readBytes {v : Value} {a : α} (h : r.Yields 128 v a) (hv : v.IsLegible)
    {text : String} (hwrite : v.write? = some text) : r.readBytes text.toUTF8 = .ok a := by
  rw [Reader.readBytes, fromUTF8?_toUTF8]
  dsimp only
  rw [readText, hv.ofText?_of_write? hwrite]
  dsimp only
  rw [run]
  exact map_eq_ok_iff.2 ⟨(a, 0), h (.ofNode v.toNode) .root 0, rfl⟩

/-- A reader that has accepted some bytes accepts what is written for their value. -/
theorem Carries.readBytes (h : r.Carries r' P R) {bytes : ByteArray} {a : α} {v : Value}
    (ha : r.readBytes bytes = .ok a) (hvalue : value.readBytes bytes = .ok v)
    (htags : ∀ tag ∈ v.tags, IsPlainTag tag) (hp : P v) {text : String}
    (hwrite : v.write? = some text) : ∃ b, R a v b ∧ r'.readBytes text.toUTF8 = .ok b := by
  obtain ⟨source, d, hsource, hd, ha⟩ := exists_accepts_of_readBytes ha
  obtain ⟨source', d', hsource', hd', hread⟩ := exists_accepts_of_readBytes hvalue
  obtain rfl := Option.some.inj (hsource.symm.trans hsource')
  obtain rfl := Option.some.inj (hd.symm.trans hd')
  have hv := isLegible_of_readBytes hvalue htags
  obtain ⟨b, hb, hyields⟩ := h (Document.isTied_of_ofText? hd) ha hread hv hp
  exact ⟨b, hb, hyields.readBytes hv hwrite⟩

end Reader

end Rollout.Yaml
