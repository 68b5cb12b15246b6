import Mathlib.Data.List.Forall2
import Rollout.Proofs.Except
import Rollout.Proofs.Yaml.WrittenNode
import Rollout.Yaml.Reader

/-!
# Values that have been read

What a node is like that can be read as a value: `Reads d depth n v` says that the value `v` is read
from the node `n`, and `Reads.cases` tells the parts of the node from the parts of the value. The
text of a scalar need not be the canonical one; what else it can spell is told by `Scalar.Spells`.

A value that has been read is one that can be read (`Reads.isProper`). It is legible, so that it
reads back from its canonical text, if its tags have no commas and no brackets
(`IsProper.isLegible`).
-/

namespace Rollout.Yaml

/-! ## Steps of reading -/

section Steps

variable {α β σ : Type}

/-- Two steps of reading succeed if both do, the second after the first. -/
theorem ReadM.bind_eq_ok_iff {x : ReadM α} {f : α → ReadM β} {s : Nat} {r : β × Nat} :
    (x >>= f) s = .ok r ↔ ∃ a t, x s = .ok (a, t) ∧ f a t = .ok r := by
  change (x s >>= fun p => f p.1 p.2) = .ok r ↔ _
  rw [Rollout.bind_eq_ok_iff]
  exact Prod.exists

/-- After a step that succeeds it is up to the next one. -/
theorem ReadM.bind_of_eq_ok {x : ReadM α} {f : α → ReadM β} {s t : Nat} {a : α}
    (h : x s = .ok (a, t)) : (x >>= f) s = f a t := by
  change (x s >>= fun p => f p.1 p.2) = _
  rw [h]
  rfl

/-- A step succeeds with what is made of its result if it does without that. -/
theorem ReadM.map_eq_ok_iff {x : ReadM α} {f : α → β} {s t : Nat} {b : β} :
    (f <$> x) s = .ok (b, t) ↔ ∃ a, x s = .ok (a, t) ∧ b = f a := by
  rw [map_eq_pure_bind, bind_eq_ok_iff]
  constructor
  · rintro ⟨a, s₁, ha, h⟩
    cases h
    exact ⟨a, ha, rfl⟩
  · rintro ⟨a, ha, rfl⟩
    exact ⟨a, t, ha, rfl⟩

/-- The results of a list of readings. -/
theorem ReadM.forall₂_of_mapM {f : α → ReadM β} {l : List α} {s : Nat} {bs : List β} {t : Nat}
    (h : l.mapM f s = .ok (bs, t)) :
    List.Forall₂ (fun a b => ∃ s t, f a s = .ok (b, t)) l bs := by
  induction l generalizing s bs with
  | nil =>
    cases h
    exact .nil
  | cons a as ih =>
    rw [List.mapM_cons] at h
    obtain ⟨b, s₁, hb, h⟩ := bind_eq_ok_iff.1 h
    obtain ⟨bs, s₂, hbs, h⟩ := bind_eq_ok_iff.1 h
    cases h
    exact .cons ⟨s, s₁, hb⟩ (ih hbs)

/-- What stands in the second of two related lists comes from the first. -/
theorem exists_of_forall₂ {R : α → β → Prop} {l : List α} {l' : List β}
    (h : List.Forall₂ R l l') {b : β} (hb : b ∈ l') : ∃ a, R a b := by
  induction h with
  | nil => cases hb
  | cons hab _ ih =>
    rcases List.mem_cons.1 hb with rfl | hmem
    · exact ⟨_, hab⟩
    · exact ih hmem

/-- Two relations that give related things at most one partner in common do so for lists. -/
theorem forall₂_unique {R S : α → β → Prop} {l : List α} {bs cs : List β} (hb : List.Forall₂ R l bs)
    (hc : List.Forall₂ S l cs) (hunique : ∀ a b c, R a b → S a c → b = c) : bs = cs := by
  induction hb generalizing cs with
  | nil =>
    cases hc
    rfl
  | cons hab _ ih =>
    obtain ⟨c, cs', hac, hcs, rfl⟩ := List.forall₂_cons_left_iff.1 hc
    rw [hunique _ _ _ hab hac, ih hcs]

end Steps

/-- The node itself, or the one that it is an alias of. -/
def Document.followed (d : Document) : Node Nat → Node Nat
  | .alias id => (d.target? id).getD .absent
  | n => n

/-- An alias that is followed leads to its target. -/
theorem Document.eq_followed {d : Document} {n n' : Node Nat} {s t : Nat}
    (h : d.follow n s = .ok (n', t)) : n' = d.followed n := by
  cases n with
  | scalar | sequence | mapping =>
    cases h
    rfl
  | _ id =>
    rw [Document.follow] at h
    obtain ⟨followed, s₁, -, h⟩ := ReadM.bind_eq_ok_iff.1 h
    split_ifs at h
    · cases h
    · cases h
      rfl

/-! ## Scalars -/

namespace Scalar

/-- What a text can stand for, as a plain scalar or under a tag of the core. -/
inductive Spells (s : String) : Scalar → Prop
  | text : Spells s (.text s)
  | null (h : s.toList.isEmpty = true ∨ isNull s.toList = true) : Spells s .null
  | bool {b : Bool} (h : bool? s.toList = some b) : Spells s (.bool b)
  | integer {n : Int} (h : integer? s.toList = some n) : Spells s (.integer n)
  | float {x : Decimal.Binary64} (h : float? s.toList = some x) : Spells s (.float x)

/-- The canonical text of a scalar. -/
def canonical : Scalar → String
  | .null => "null"
  | .bool b => if b then "true" else "false"
  | .integer n => (Number.integer n).text
  | .float x => (Number.float x).text
  | .text s => s

/-- A plain text spells the scalar that it stands for. -/
theorem spells_ofPlain (s : String) : Spells s (ofPlain s) := by
  rw [ofPlain]
  by_cases hnull : (s.toList.isEmpty || isNull s.toList) = true
  · rw [if_pos hnull]
    exact .null (by simpa using hnull)
  · rw [if_neg hnull]
    split
    · next b hb => exact .bool hb
    · split
      · next n hn => exact .integer hn
      · split
        · next x hx =>
          split_ifs at hx
          exact .float hx
        · exact .text

/-- A text spells the scalar that it is read as. -/
theorem spells_of_read {tag : Option Tag} {style : Style} {s : String} {tagKnown : Bool}
    {x : Scalar} (h : read tag style s tagKnown = .ok x) : Spells s x := by
  have huntagged : Spells s (if style = .plain then ofPlain s else .text s) := by
    split_ifs
    · exact spells_ofPlain s
    · exact .text
  rw [read] at h
  dsimp only at h
  split at h
  · cases h
    exact huntagged
  · split_ifs at h with _ _ _ _ hnull
    · cases hb : bool? s.toList with
      | none => rw [hb] at h; cases h
      | some b => rw [hb] at h; cases h; exact .bool hb
    · cases hn : integer? s.toList with
      | none => rw [hn] at h; cases h
      | some n => rw [hn] at h; cases h; exact .integer hn
    · cases hx : float? s.toList with
      | none => rw [hx] at h; cases h
      | some x => rw [hx] at h; cases h; exact .float hx
    · cases h
      exact .null (.inr hnull)
    · cases h
      exact spells_ofPlain s
    · cases h
      exact .text
    · cases h
      exact .text

/-- The value of a scalar. -/
def toValue : Scalar → Value
  | .null => .null
  | .bool b => .bool b
  | .integer n => .number (.integer n)
  | .float x => .number (.float x)
  | .text s => .string s

/-- A value that is a scalar is written with the canonical text of the scalar. -/
theorem exists_scalar?_toValue (x : Scalar) :
    ∃ style, x.toValue.scalar? = some (style, x.canonical) := by
  cases x <;> exact ⟨_, rfl⟩

end Scalar

namespace Value

/-! ## Tags -/

/-- The value under the tag, if there is one. -/
def untagged : Value → Value
  | .tagged _ v => v
  | v => v

/-- A tag of one's own stands above a value, and any other tag leaves no trace. -/
theorem withTag_eq (tag : Option Tag) (v : Value) :
    withTag tag v = v ∨ ∃ name, localTag? tag = some name ∧
      withTag tag v = .tagged (tagName name) v := by
  rw [withTag]
  split
  · next name h => exact .inr ⟨name, h, rfl⟩
  · exact .inl rfl

/-- A tag above a value does not change what stands under it. -/
theorem untagged_withTag (tag : Option Tag) {v : Value} (h : v.untagged = v) :
    (withTag tag v).untagged = v := by
  rcases withTag_eq tag v with heq | ⟨name, -, heq⟩
  · rw [heq, h]
  · rw [heq, untagged]

/-- A scalar has no tag above it. -/
theorem untagged_toValue (x : Scalar) : x.toValue.untagged = x.toValue := by
  cases x <;> rfl

mutual

/-- The tags in a value, in the order of the document. -/
def tags : Value → List String
  | .tagged tag v => tag :: v.tags
  | .sequence items => tagsOfItems items
  | .mapping entries => tagsOfEntries entries
  | _ => []
termination_by structural v => v

/-- The tags in the items of a sequence. -/
def tagsOfItems : List Value → List String
  | [] => []
  | v :: vs => v.tags ++ tagsOfItems vs
termination_by structural vs => vs

/-- The tags in the entries of a mapping, those of each key before those of its value. -/
def tagsOfEntries : Entries → List String
  | [] => []
  | (k, v) :: es => k.tags ++ (v.tags ++ tagsOfEntries es)
termination_by structural es => es

end

/-- The tags in a list are those in its items, in order. -/
theorem tagsOfItems_eq_flatMap (vs : List Value) : tagsOfItems vs = vs.flatMap tags := by
  induction vs with
  | nil => rfl
  | cons v vs ih => rw [tagsOfItems, ih, List.flatMap_cons]

/-- The tags in a mapping are those in its entries, in order. -/
theorem tagsOfEntries_eq_flatMap (es : Entries) :
    tagsOfEntries es = es.flatMap fun e => e.1.tags ++ e.2.tags := by
  induction es with
  | nil => rfl
  | cons e es ih => rw [tagsOfEntries, ih, List.flatMap_cons, List.append_assoc]

/-! ## Nodes that are read -/

/-- A scalar that is read as a value has the value of what it stands for. -/
theorem ofScalar_eq_ok {path : Path} {tag : Option Tag} {style : Style} {s : String} {v : Value}
    (h : ofScalar path tag style s = .ok v) :
    ∃ x, Scalar.read tag style s (localTag? tag).isSome = .ok x ∧ x.toValue.IsLegible ∧
      v = withTag tag x.toValue := by
  rw [ofScalar] at h
  split at h
  · cases h
  · next heq => exact ⟨_, heq, .null, (Except.ok.inj h).symm⟩
  · next heq => exact ⟨_, heq, .bool _, (Except.ok.inj h).symm⟩
  · next n heq =>
    by_cases hwide : Scalar.isWide n = true
    · rw [if_pos hwide] at h
      cases h
    · rw [if_neg hwide] at h
      exact ⟨_, heq, .number (Bool.eq_false_iff.2 hwide), (Except.ok.inj h).symm⟩
  · next x heq =>
    have hproper : x.IsProper := by
      cases Scalar.spells_of_read heq with
      | float hx => exact Scalar.isProper_of_float? hx
    exact ⟨_, heq, .number hproper, (Except.ok.inj h).symm⟩
  · next heq => exact ⟨_, heq, .string _, (Except.ok.inj h).symm⟩

/-- The value is read from the node, down to a depth. -/
def Reads (d : Document) (depth : Nat) (n : Node Nat) (v : Value) : Prop :=
  ∃ path s s', read d depth path n s = .ok (v, s')

/-- The parts of a node that is no alias to be followed, and the value that is read from it. -/
inductive ReadsAs (d : Document) : Nat → Node Nat → Value → Prop
  | scalar {depth : Nat} {anchor : Option Nat} {tag : Option Tag} {style : Style} {s : String}
    {x : Scalar} (hread : Scalar.read tag style s (localTag? tag).isSome = .ok x)
    (hx : x.toValue.IsLegible) :
    ReadsAs d depth (.scalar anchor tag style s) (withTag tag x.toValue)
  | sequence {depth : Nat} {anchor : Option Nat} {tag : Option Tag} {items : List (Node Nat)}
    {values : List Value} (hitems : List.Forall₂ (Reads d depth) items values) :
    ReadsAs d (depth + 1) (.sequence anchor tag items) (withTag tag (.sequence values))
  | mapping {depth : Nat} {anchor : Option Nat} {tag : Option Tag}
    {nodes : List (Node Nat × Node Nat)} {entries : Entries}
    (hentries : List.Forall₂ (fun n e => Reads d depth n.1 e.1 ∧ Reads d depth n.2 e.2)
      nodes entries)
    (hdistinct : entries.Pairwise fun e e' => e.1.same e'.1 = false) :
    ReadsAs d (depth + 1) (.mapping anchor tag nodes) (withTag tag (.mapping entries))
  | alias {depth : Nat} (id : Nat) : ReadsAs d depth (.alias id) .null

/-- Entries that are read one after the other, each with a key that has not come before. -/
theorem forall₂_of_foldlM {f : Entries → Node Nat × Node Nat → ReadM Entries}
    {q : Node Nat × Node Nat → Value × Value → Prop}
    (hf : ∀ {done n s r t}, f done n s = .ok (r, t) →
      ∃ e, r = done ++ [e] ∧ q n e ∧ ∀ e' ∈ done, e'.1.same e.1 = false)
    {nodes : List (Node Nat × Node Nat)} {done entries : Entries} {s t : Nat}
    (h : nodes.foldlM f done s = .ok (entries, t))
    (hdone : done.Pairwise fun e e' => e.1.same e'.1 = false) :
    (entries.Pairwise fun e e' => e.1.same e'.1 = false) ∧
      ∃ es, entries = done ++ es ∧ List.Forall₂ q nodes es := by
  induction nodes generalizing done s with
  | nil =>
    cases h
    exact ⟨hdone, [], (List.append_nil _).symm, .nil⟩
  | cons n nodes ih =>
    rw [List.foldlM_cons] at h
    obtain ⟨r, s₁, hn, h⟩ := ReadM.bind_eq_ok_iff.1 h
    obtain ⟨e, rfl, hq, hnew⟩ := hf hn
    have hpairwise : (done ++ [e]).Pairwise fun e e' => e.1.same e'.1 = false := by
      refine List.pairwise_append.2 ⟨hdone, List.pairwise_singleton _ _, fun e' he' e'' he'' => ?_⟩
      obtain rfl := List.mem_singleton.1 he''
      exact hnew e' he'
    obtain ⟨hdistinct, es, rfl, hes⟩ := ih h hpairwise
    exact ⟨hdistinct, e :: es, by rw [List.append_assoc, List.singleton_append], .cons hq hes⟩

/-- A node that is read is read as the node that it leads to. -/
theorem Reads.cases {d : Document} {depth : Nat} {n : Node Nat} {v : Value}
    (h : Reads d depth n v) : ReadsAs d depth (d.followed n) v := by
  obtain ⟨path, s, s', h⟩ := h
  rw [read.eq_def] at h
  obtain ⟨n', s₁, hn', h⟩ := ReadM.bind_eq_ok_iff.1 h
  obtain rfl := Document.eq_followed hn'
  generalize d.followed n = n' at h ⊢
  cases n' with
  | scalar anchor tag style text =>
    dsimp only at h
    cases hscalar : ofScalar path tag style text with
    | error e =>
      rw [hscalar] at h
      cases h
    | ok w =>
      rw [hscalar] at h
      cases h
      obtain ⟨x, hread, hx, rfl⟩ := ofScalar_eq_ok hscalar
      exact .scalar hread hx
  | sequence anchor tag items =>
    cases depth with
    | zero => cases h
    | succ depth =>
      obtain ⟨values, s₂, hvalues, h⟩ := ReadM.bind_eq_ok_iff.1 h
      cases h
      have hitems := (ReadM.forall₂_of_mapM hvalues).imp
        (S := fun (p : Node Nat × Nat) v => Reads d depth p.1 v) fun p v h => ⟨_, h⟩
      rw [← List.forall₂_map_left_iff, List.zipIdx_map_fst] at hitems
      exact .sequence hitems
  | mapping anchor tag nodes =>
    cases depth with
    | zero => cases h
    | succ depth =>
      obtain ⟨entries, s₂, hentries, h⟩ := ReadM.bind_eq_ok_iff.1 h
      cases h
      have hfold := forall₂_of_foldlM
        (q := fun n e => Reads d depth n.1 e.1 ∧ Reads d depth n.2 e.2) ?_ hentries .nil
      · obtain ⟨hdistinct, es, rfl, hes⟩ := hfold
        exact .mapping hes hdistinct
      · rintro done ⟨k, w⟩ s r t h
        obtain ⟨key, s₁, hkey, h⟩ := ReadM.bind_eq_ok_iff.1 h
        generalize hfind : done.find? _ = found at h
        cases found with
        | some e => cases h
        | none =>
          obtain ⟨value, s₂, hvalue, h⟩ := ReadM.bind_eq_ok_iff.1 h
          cases h
          refine ⟨(key, value), rfl, ⟨⟨_, _, _, hkey⟩, ⟨_, _, _, hvalue⟩⟩, fun e he => ?_⟩
          exact Bool.eq_false_iff.2 (List.find?_eq_none.1 hfind e he)
  | _ id =>
    cases h
    exact .alias id

/-- A node has at most one value, down to whatever depth it is read. -/
theorem Reads.unique {d : Document} {depth depth' : Nat} {n : Node Nat} {v w : Value}
    (hv : Reads d depth n v) (hw : Reads d depth' n w) : v = w := by
  induction depth generalizing depth' n v w with
  | zero =>
    have hv := hv.cases
    have hw := hw.cases
    generalize d.followed n = n' at hv hw
    cases hv with
    | scalar hx =>
      cases hw with
      | scalar hy => rw [Except.ok.inj (hx.symm.trans hy)]
    | _ id =>
      cases hw
      rfl
  | succ depth ih =>
    have hv := hv.cases
    have hw := hw.cases
    generalize d.followed n = n' at hv hw
    cases hv with
    | scalar hx =>
      cases hw with
      | scalar hy => rw [Except.ok.inj (hx.symm.trans hy)]
    | sequence hitems =>
      cases hw with
      | sequence hitems' => rw [forall₂_unique hitems hitems' fun _ _ _ h h' => ih h h']
    | mapping hentries =>
      cases hw with
      | mapping hentries' =>
        rw [forall₂_unique hentries hentries'
          fun _ _ _ h h' => Prod.ext (ih h.1 h'.1) (ih h.2 h'.2)]
    | _ id =>
      cases hw
      rfl

/-! ## Values that can be read -/

/-- A value that can be read: its numbers are those that a text can stand for, and its mappings have
no key twice. -/
inductive IsProper : Value → Prop where
  | null : IsProper .null
  | bool (b : Bool) : IsProper (.bool b)
  | number {n : Number} (h : n.IsProper) : IsProper (.number n)
  | string (s : String) : IsProper (.string s)
  | sequence {items : List Value} (h : ∀ v ∈ items, IsProper v) : IsProper (.sequence items)
  | mapping {entries : Entries} (hkeys : ∀ e ∈ entries, IsProper e.1)
    (hvalues : ∀ e ∈ entries, IsProper e.2)
    (hdistinct : entries.Pairwise fun e e' => e.1.same e'.1 = false) : IsProper (.mapping entries)
  | tagged {tag : String} {v : Value} (h : IsProper v) : IsProper (.tagged tag v)

/-- A value that can be read is proper. -/
theorem IsLegible.isProper {v : Value} (h : v.IsLegible) : v.IsProper := by
  induction h with
  | null => exact .null
  | bool b => exact .bool b
  | number h => exact .number h
  | string s => exact .string s
  | sequence _ ih => exact .sequence ih
  | mapping _ _ hdistinct ihkeys ihvalues => exact .mapping ihkeys ihvalues hdistinct
  | tagged _ _ ih => exact .tagged ih

/-- What stands under the tags of a proper value is proper. -/
theorem IsProper.untagged {v : Value} (h : v.IsProper) : v.untagged.IsProper := by
  cases h with
  | tagged h => exact h
  | null => exact .null
  | bool b => exact .bool b
  | number h => exact .number h
  | string s => exact .string s
  | sequence h => exact .sequence h
  | mapping hkeys hvalues hdistinct => exact .mapping hkeys hvalues hdistinct

/-- The keys and the values of a proper mapping are proper. -/
theorem IsProper.of_mem_mapping {es : Entries} (h : (Value.mapping es).IsProper)
    {e : Value × Value} (he : e ∈ es) : e.1.IsProper ∧ e.2.IsProper := by
  cases h with
  | mapping hkeys hvalues _ => exact ⟨hkeys e he, hvalues e he⟩

/-- Only the tags of a value that can be read can keep it from being read again. -/
theorem IsProper.isLegible {v : Value} (h : v.IsProper) (htags : ∀ tag ∈ v.tags, IsPlainTag tag) :
    v.IsLegible := by
  induction h with
  | null => exact .null
  | bool b => exact .bool b
  | number h => exact .number h
  | string s => exact .string s
  | sequence _ ih =>
    rw [tags, tagsOfItems_eq_flatMap] at htags
    exact .sequence fun v hv => ih v hv fun t ht => htags t (List.mem_flatMap.2 ⟨v, hv, ht⟩)
  | @mapping entries _ _ hdistinct ihkeys ihvalues =>
    rw [tags, tagsOfEntries_eq_flatMap] at htags
    have hentry : ∀ e ∈ entries, ∀ t ∈ e.1.tags ++ e.2.tags, IsPlainTag t :=
      fun e he t ht => htags t (List.mem_flatMap.2 ⟨e, he, ht⟩)
    refine .mapping (fun e he => ?_) (fun e he => ?_) hdistinct
    · exact ihkeys e he fun t ht => hentry e he t (List.mem_append_left _ ht)
    · exact ihvalues e he fun t ht => hentry e he t (List.mem_append_right _ ht)
  | tagged _ ih =>
    rw [tags] at htags
    obtain ⟨htag, htags⟩ := List.forall_mem_cons.1 htags
    exact .tagged htag (ih htags)

/-- A proper value stays proper under a tag. -/
theorem IsProper.withTag {v : Value} (h : v.IsProper) (tag : Option Tag) :
    (Value.withTag tag v).IsProper := by
  rcases withTag_eq tag v with heq | ⟨name, -, heq⟩
  · rw [heq]
    exact h
  · rw [heq]
    exact .tagged h

/-- A value that has been read can be read. -/
theorem Reads.isProper {d : Document} {depth : Nat} {n : Node Nat} {v : Value}
    (h : Reads d depth n v) : v.IsProper := by
  have hcases := h.cases
  generalize d.followed n = n' at hcases
  induction depth generalizing n n' v with
  | zero =>
    cases hcases with
    | scalar _ hx => exact hx.isProper.withTag _
    | _ id => exact .null
  | succ depth ih =>
    have hread : ∀ {n : Node Nat} {v : Value}, Reads d depth n v → v.IsProper :=
      fun h => ih h _ h.cases
    cases hcases with
    | scalar _ hx => exact hx.isProper.withTag _
    | sequence hitems =>
      refine (IsProper.sequence fun v hv => ?_).withTag _
      obtain ⟨n, hn⟩ := exists_of_forall₂ hitems hv
      exact hread hn
    | mapping hentries hdistinct =>
      refine (IsProper.mapping (fun e he => ?_) (fun e he => ?_) hdistinct).withTag _
      all_goals obtain ⟨n, hkey, hvalue⟩ := exists_of_forall₂ hentries he
      · exact hread hkey
      · exact hread hvalue
    | _ id => exact .null

end Value

end Rollout.Yaml
