import Rollout.Proofs.Yaml.RecordRereading

/-!
# Members of a mapping in a document

A record is read entry by entry, in the order of the document, and each field takes what it is from
the entry with its name. What a field is in the end does not depend on where its entry stands and on
what else there is: it is what the member with its name says, or what the field was at the start if
there is none (`Reader.TakesMember.record_cases`).
-/

namespace Rollout.Yaml

namespace Document

/-- The source text of a scalar. -/
def sourceText? (d : Document) (n : Node Nat) : Option String :=
  match d.followed n with
  | .scalar _ _ _ text => some text
  | _ => none

/-- Whether a node is a null: a plain scalar that is empty, spells a null or has the tag of one. -/
def isNull (d : Document) (n : Node Nat) : Bool :=
  match d.followed n with
  | .scalar _ tag .plain text =>
    match tag with
    | none => text.isEmpty || Scalar.isNull text.toList
    | some tag => tag = Scalar.coreTag "null"
  | _ => false

/-- The source text of a scalar that is not a null. -/
def optionalText? (d : Document) (n : Node Nat) : Option String :=
  if d.isNull n then none else d.sourceText? n

/-- The truth value that a node spells. -/
def truth? (d : Document) (n : Node Nat) : Option Bool :=
  (d.sourceText? n).bind fun text => Scalar.bool? text.toList

/-- The entry with a name. -/
def entry? (d : Document) (name : String) (entries : List (Node Nat × Node Nat)) :
    Option (Node Nat × Node Nat) := entries.find? fun e => d.sourceText? e.1 = some name

/-- What a mapping has under a name. -/
def member? (d : Document) (name : String) (n : Node Nat) : Option (Node Nat) :=
  match d.followed n with
  | .mapping _ _ entries => (d.entry? name entries).map Prod.snd
  | _ => none

/-- The items of a sequence; an empty node has none. -/
inductive HasItems (d : Document) (n : Node Nat) : List (Node Nat) → Prop
  | sequence {anchor : Option Nat} {tag : Option Tag} {items : List (Node Nat)}
    (node : d.followed n = .sequence anchor tag items) : HasItems d n items
  | empty {anchor : Option Nat} {tag : Option Tag}
    (node : d.followed n = .scalar anchor tag .plain "") : HasItems d n []

/-- A node has one list of items. -/
theorem HasItems.unique {d : Document} {n : Node Nat} {items items' : List (Node Nat)}
    (h : d.HasItems n items) (h' : d.HasItems n items') : items = items' := by
  cases h with
  | sequence node =>
    cases h' with
    | sequence node' =>
      rw [node] at node'
      exact (Node.sequence.inj node').2.2
    | empty node' =>
      rw [node] at node'
      cases node'
  | empty node =>
    cases h' with
    | sequence node' =>
      rw [node] at node'
      cases node'
    | empty _ => rfl

end Document

namespace Reader

variable {α β σ : Type} {d : Document} {depth : Nat} {path : Path} {n : Node Nat} {s t : Nat}

/-! ## Scalars -/

/-- A node that is read as a text has it as its source text. -/
theorem sourceText?_of_text {a : String} (h : text d depth path n s = .ok (a, t)) :
    d.sourceText? n = some a := by
  obtain ⟨n', s₁, hn', h⟩ := ReadM.bind_eq_ok_iff.1 h
  obtain rfl := Document.eq_followed hn'
  rw [Document.sourceText?]
  generalize d.followed n = n' at h
  cases n' with
  | scalar =>
    cases h
    rfl
  | _ => cases h

/-- A node that is accepted as a text has it as its source text. -/
theorem Accepts.sourceText? {a : String} (h : text.Accepts d depth n a) :
    d.sourceText? n = some a := by
  obtain ⟨path, s, t, h⟩ := h
  exact sourceText?_of_text h

/-- A node that is accepted as a flag has it as its truth value. -/
theorem Accepts.truth? {b : Bool} (h : flag.Accepts d depth n b) : d.truth? n = some b := by
  obtain ⟨path, s, t, h⟩ := h
  obtain ⟨n', s₁, hn', h⟩ := ReadM.bind_eq_ok_iff.1 h
  obtain rfl := Document.eq_followed hn'
  rw [Document.truth?, Document.sourceText?]
  generalize d.followed n = n' at h
  cases n' with
  | scalar anchor tag style text =>
    dsimp only at h
    rw [Option.bind_some]
    split_ifs at h
    · cases hbool : Scalar.bool? text.toList with
      | some b' =>
        rw [hbool] at h
        cases h
        rfl
      | none =>
        rw [hbool] at h
        cases h
    · cases h
  | _ => cases h

/-- What is accepted after a function comes from something that is accepted before it. -/
theorem Accepts.of_map {r : Reader α} {f : α → σ} {a : σ} (h : (r.map f).Accepts d depth n a) :
    ∃ b, r.Accepts d depth n b ∧ a = f b := by
  obtain ⟨path, s, t, h⟩ := h
  obtain ⟨b, hb, ha⟩ := ReadM.map_eq_ok_iff.1 h
  exact ⟨b, ⟨path, s, t, hb⟩, ha⟩

/-- A text that may be missing is that of its scalar, unless this is a null. -/
theorem Accepts.optionalText? (hd : d.IsTied) {a : Option String}
    (h : text.optional.Accepts d depth n a) : a = d.optionalText? n := by
  obtain ⟨path, s, t, h⟩ := h
  obtain ⟨n', s₁, hn', h⟩ := ReadM.bind_eq_ok_iff.1 h
  obtain rfl := Document.eq_followed hn'
  have htied := hd n
  rw [Document.optionalText?, Document.isNull, Document.sourceText?]
  generalize d.followed n = n' at h htied
  cases n' with
  | scalar anchor tag style text =>
    cases style with
    | plain =>
      cases tag with
      | none =>
        change (if (text.isEmpty || Scalar.isNull text.toList) = true then pure none
          else pure (some text) : ReadM _) s₁ = _ at h
        dsimp only
        split_ifs at h ⊢
        · cases h
          rfl
        · cases h
          rfl
      | some tag =>
        change (if tag = Scalar.coreTag "null" then
          if Scalar.isNull text.toList = true then pure none else _
          else pure (some text) : ReadM _) s₁ = _ at h
        by_cases htag : tag = Scalar.coreTag "null"
        · rw [if_pos htag] at h
          split_ifs at h
          · cases h
            exact (if_pos (decide_eq_true htag)).symm
          · cases h
        · rw [if_neg htag] at h
          cases h
          exact (if_neg fun hdecide => htag (of_decide_eq_true hdecide)).symm
    | _ =>
      cases h
      rfl
  | sequence => cases h
  | mapping => cases h
  | _ id => exact absurd rfl (htied id)

/-! ## Sequences -/

/-- The items of a sequence are read one by one, each giving one result. -/
theorem Accepts.exists_hasItems {r : Reader α} {as : List α}
    (h : r.sequence.Accepts d depth n as) :
    ∃ items depth', d.HasItems n items ∧ List.Forall₂ (r.Accepts d depth') items as := by
  obtain ⟨path, s, t, h⟩ := h
  obtain ⟨n', s₁, hn', h⟩ := ReadM.bind_eq_ok_iff.1 h
  have hfollowed : n' = d.followed n := Document.eq_followed hn'
  cases n' with
  | scalar anchor tag style text =>
    dsimp only at h
    split_ifs at h with hempty
    · obtain ⟨hstyle, htext⟩ := Bool.and_eq_true_iff.1 hempty
      obtain rfl := of_decide_eq_true hstyle
      obtain rfl := String.isEmpty_iff.1 htext
      cases h
      exact ⟨[], depth, .empty hfollowed.symm, .nil⟩
    · cases h
  | sequence anchor tag items =>
    cases depth with
    | zero => cases h
    | succ depth =>
      have hitems := (ReadM.forall₂_of_mapM h).imp
        (S := fun (p : Node Nat × Nat) a => r.Accepts d depth p.1 a) fun p a h => ⟨_, h⟩
      rw [← List.forall₂_map_left_iff, List.zipIdx_map_fst] at hitems
      exact ⟨items, depth, .sequence hfollowed.symm, hitems⟩
  | mapping => cases h
  | _ id => cases h

/-! ## Records -/

/-- Where a record has a field with the name: `view` shows what the field is, and `P` says what an
entry with the name makes of it. The other fields have nothing to do with it. -/
structure TakesMember (d : Document) (step : σ → String → Option (Reader σ)) (name : String)
    (view : σ → β) (P : Node Nat → β → Prop) : Prop where
  isSome : ∀ state, (step state name).isSome
  own : ∀ {state r depth n a}, step state name = some r → r.Accepts d depth n a → P n (view a)
  other : ∀ {state other r depth n a}, other ≠ name → step state other = some r →
    r.Accepts d depth n a → view a = view state

namespace TakesMember

variable {step : σ → String → Option (Reader σ)} {name : String} {view : σ → β}
  {P : Node Nat → β → Prop} {state result : σ} {seen seen' : List String}
  {entries : List (Node Nat × Node Nat)} {e : Node Nat × Node Nat}

/-- An entry with another name leaves the field as it is. -/
theorem view_of_ne (h : TakesMember d step name view P)
    (hentry : recordEntry step d depth path (state, seen) e s = .ok ((result, seen'), t))
    (hne : d.sourceText? e.1 ≠ some name) :
    view result = view state ∧ (name ∈ seen' ↔ name ∈ seen) := by
  obtain ⟨other, s₁, hother, hcases⟩ := recordEntry_cases hentry
  have hother : other ≠ name := by
    rintro rfl
    exact hne (sourceText?_of_text hother)
  rcases hcases with ⟨-, heq⟩ | ⟨r, a, hstep, -, ha, heq⟩
  · cases heq
    exact ⟨rfl, Iff.rfl⟩
  · cases heq
    exact ⟨h.other hother hstep ha, List.mem_cons.trans (or_iff_right hother.symm)⟩

/-- An entry with the name is the first one, and the field is what the entry makes of it. -/
theorem view_of_eq (h : TakesMember d step name view P)
    (hentry : recordEntry step d depth path (state, seen) e s = .ok ((result, seen'), t))
    (heq : d.sourceText? e.1 = some name) :
    name ∉ seen ∧ name ∈ seen' ∧ P e.2 (view result) := by
  obtain ⟨name', s₁, hname, hcases⟩ := recordEntry_cases hentry
  obtain rfl := Option.some.inj ((sourceText?_of_text hname).symm.trans heq)
  rcases hcases with ⟨hstep, -⟩ | ⟨r, a, hstep, hnew, ha, heq⟩
  · have hsome := h.isSome state
    rw [hstep] at hsome
    cases hsome
  · cases heq
    exact ⟨hnew, List.mem_cons_self, h.own hstep ha⟩

/-- A field that has been read stays as it is. -/
theorem view_of_mem (h : TakesMember d step name view P) (hseen : name ∈ seen)
    (hfold : entries.foldlM (recordEntry step d depth path) (state, seen) s =
      .ok ((result, seen'), t)) : view result = view state := by
  induction entries generalizing state seen s with
  | nil =>
    cases hfold
    rfl
  | cons e entries ih =>
    rw [List.foldlM_cons] at hfold
    obtain ⟨⟨state₁, seen₁⟩, s₁, hentry, hfold⟩ := ReadM.bind_eq_ok_iff.1 hfold
    by_cases heq : d.sourceText? e.1 = some name
    · exact absurd hseen (h.view_of_eq hentry heq).1
    · obtain ⟨hview, hmem⟩ := h.view_of_ne hentry heq
      rw [ih (hmem.2 hseen) hfold, hview]

/-- A field that has not been read is what the entry with its name makes of it. -/
theorem foldlM_cases (h : TakesMember d step name view P) (hseen : name ∉ seen)
    (hfold : entries.foldlM (recordEntry step d depth path) (state, seen) s =
      .ok ((result, seen'), t)) :
    (d.entry? name entries = none ∧ view result = view state) ∨
      ∃ e, d.entry? name entries = some e ∧ P e.2 (view result) := by
  induction entries generalizing state seen s with
  | nil =>
    cases hfold
    exact .inl ⟨rfl, rfl⟩
  | cons e entries ih =>
    rw [List.foldlM_cons] at hfold
    obtain ⟨⟨state₁, seen₁⟩, s₁, hentry, hfold⟩ := ReadM.bind_eq_ok_iff.1 hfold
    rw [Document.entry?, List.find?_cons]
    by_cases heq : d.sourceText? e.1 = some name
    · obtain ⟨-, hmem, hP⟩ := h.view_of_eq hentry heq
      rw [decide_eq_true heq, h.view_of_mem hmem hfold]
      exact .inr ⟨e, rfl, hP⟩
    · obtain ⟨hview, hmem⟩ := h.view_of_ne hentry heq
      rw [decide_eq_false heq, ← hview]
      exact ih (fun hmem₁ => hseen (hmem.1 hmem₁)) hfold

/-- A field of a record is what the member with its name makes of it, or else what it was at the
start. -/
theorem record_cases (h : TakesMember d step name view P) {expected : String} {init : σ}
    (hresult : (record expected init step).Accepts d depth n result) :
    (d.member? name n = none ∧ view result = view init) ∨
      ∃ m, d.member? name n = some m ∧ P m (view result) := by
  obtain ⟨path, s, t, hresult⟩ := hresult
  obtain ⟨n', s₁, hn', hresult⟩ := ReadM.bind_eq_ok_iff.1 hresult
  obtain rfl := Document.eq_followed hn'
  rw [Document.member?]
  generalize d.followed n = n' at hresult
  cases n' with
  | scalar anchor tag style text =>
    dsimp only at hresult
    split_ifs at hresult
    · cases hresult
      exact .inl ⟨rfl, rfl⟩
    · cases hresult
  | sequence => cases hresult
  | mapping anchor tag entries =>
    cases depth with
    | zero => cases hresult
    | succ depth =>
      obtain ⟨⟨result', seen⟩, s₂, hfold, heq⟩ := ReadM.bind_eq_ok_iff.1 hresult
      cases heq
      rcases h.foldlM_cases List.not_mem_nil hfold with ⟨hnone, hview⟩ | ⟨e, he, hP⟩
      · exact .inl ⟨congrArg (Option.map Prod.snd) hnone, hview⟩
      · exact .inr ⟨e.2, congrArg (Option.map Prod.snd) he, hP⟩
  | _ id => cases hresult

/-- A field that is missing at the start is what the member with its name says, if there is one. -/
theorem view_eq_bind {γ : Type} {view : σ → Option γ} {f : Node Nat → Option γ}
    (h : TakesMember d step name view fun m a => a = f m) {expected : String} {init : σ}
    (hinit : view init = none) (hresult : (record expected init step).Accepts d depth n result) :
    view result = (d.member? name n).bind f := by
  rcases h.record_cases hresult with ⟨hnone, hview⟩ | ⟨m, hm, hview⟩
  · rw [hnone, hview, hinit, Option.bind_none]
  · rw [hm, hview, Option.bind_some]

end TakesMember

end Reader

end Rollout.Yaml
