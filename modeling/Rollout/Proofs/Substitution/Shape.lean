import Mathlib.Data.List.Forall2
import Rollout.Proofs.Substitution.Identity
import Rollout.Proofs.Yaml.Position

/-!
# The shape of a value with its placeholders replaced

Replacing placeholders changes nothing but texts. A mapping is built anew, entry by entry, and keys
that become the same key would be one entry; if none do (`KeepsKeysApart`), every value that stands
at a position of the document is replaced at that position, by a value of the same shape
(`Value.SameShape`), and a value without placeholders is replaced by itself. Nothing else stands in
the result, except in what has taken the place of a text (`evaluate_keeps_shape`).
-/

namespace Rollout

open Yaml (Value Entries)

/-! ## Shapes -/

/-- The second value has the shape of the first, as far as it can be told without a look at their
parts. A text has the shape of every value, since any value may take its place. -/
inductive Yaml.Value.SameShape : Value → Value → Prop where
  | null : SameShape .null .null
  | bool (b : Bool) : SameShape (.bool b) (.bool b)
  | number (n : Yaml.Number) : SameShape (.number n) (.number n)
  | string (s : String) (w : Value) : SameShape (.string s) w
  | sequence {items items' : List Value} (h : items'.length = items.length) :
    SameShape (.sequence items) (.sequence items')
  | mapping {entries entries' : Entries} (h : entries'.length = entries.length) :
    SameShape (.mapping entries) (.mapping entries')
  | tagged (tag : String) (v w : Value) : SameShape (.tagged tag v) (.tagged tag w)

section Pairs

variable {α β γ δ : Type} {R : α → β → Prop} {S : γ → δ → Prop}

/-- Related lists are related at every index. -/
theorem rel_getElem? {as : List α} {bs : List β} (h : List.Forall₂ R as bs) (i : Nat) :
    Option.Rel R as[i]? bs[i]? := by
  induction h generalizing i with
  | nil => exact .none
  | cons hab _ ih =>
    cases i with
    | zero => exact .some hab
    | succ i => exact ih i

/-- What is related to something is something. -/
theorem exists_of_rel_some {a : α} {b : Option β} (h : Option.Rel R (some a) b) :
    ∃ b', b = some b' ∧ R a b' := by
  cases h with
  | some h => exact ⟨_, rfl, h⟩

/-- What something is related to is something. -/
theorem exists_of_rel_some_right {a : Option α} {b : β} (h : Option.Rel R a (some b)) :
    ∃ a', a = some a' ∧ R a' b := by
  cases h with
  | some h => exact ⟨_, rfl, h⟩

/-- Related options stay related when related functions are applied to them. -/
theorem rel_map {a : Option α} {b : Option β} {f : α → γ} {g : β → δ} (h : Option.Rel R a b)
    (hfg : ∀ a b, R a b → S (f a) (g b)) : Option.Rel S (a.map f) (b.map g) := by
  cases h with
  | none => exact .none
  | some h => exact .some (hfg _ _ h)

/-- A list is equal to one that it is related to, if each item is related only to itself. -/
theorem eq_of_forall₂ {R : α → α → Prop} {as bs : List α} (h : List.Forall₂ R as bs)
    (heq : ∀ a ∈ as, ∀ b, R a b → b = a) : bs = as := by
  induction h with
  | nil => rfl
  | cons hab _ ih =>
    obtain ⟨ha, has⟩ := List.forall_mem_cons.1 heq
    rw [ha _ hab, ih has]

end Pairs

namespace Substitution

variable {lookup : String → Option Value} {d w x y : Value}

/-! ## Items and entries -/

/-- No two keys of a mapping become the same key, wherever the mapping stands in the value. -/
inductive KeepsKeysApart (lookup : String → Option Value) : Value → Prop where
  | null : KeepsKeysApart lookup .null
  | bool (b : Bool) : KeepsKeysApart lookup (.bool b)
  | number (n : Yaml.Number) : KeepsKeysApart lookup (.number n)
  | string (s : String) : KeepsKeysApart lookup (.string s)
  | sequence {items : List Value} (h : ∀ v ∈ items, KeepsKeysApart lookup v) :
    KeepsKeysApart lookup (.sequence items)
  | mapping {entries : Entries} (hkeys : ∀ e ∈ entries, KeepsKeysApart lookup e.1)
    (hvalues : ∀ e ∈ entries, KeepsKeysApart lookup e.2)
    (hapart : entries.Pairwise fun e e' => ∀ k k', evaluate lookup e.1 = .ok k →
      evaluate lookup e'.1 = .ok k' → k.same k' = false) :
    KeepsKeysApart lookup (.mapping entries)
  | tagged {tag : String} {v : Value} (h : KeepsKeysApart lookup v) :
    KeepsKeysApart lookup (.tagged tag v)

/-- Items are evaluated one by one. -/
theorem forall₂_of_evaluateItems {vs ws : List Value} (h : evaluateItems lookup vs = .ok ws) :
    List.Forall₂ (fun v w => evaluate lookup v = .ok w) vs ws := by
  induction vs generalizing ws with
  | nil =>
    cases h
    exact .nil
  | cons v vs ih =>
    rw [evaluateItems] at h
    obtain ⟨w, hw, h⟩ := bind_eq_ok_iff.1 h
    obtain ⟨ws, hws, h⟩ := bind_eq_ok_iff.1 h
    cases h
    exact .cons hw (ih hws)

/-- A list becomes a list, item by item. -/
theorem exists_of_sequence {items : List Value} (h : evaluate lookup (.sequence items) = .ok w) :
    ∃ items', w = .sequence items' ∧
      List.Forall₂ (fun v w => evaluate lookup v = .ok w) items items' := by
  rw [evaluate] at h
  obtain ⟨items', hitems, h⟩ := bind_eq_ok_iff.1 h
  exact ⟨items', (Except.ok.inj h).symm, forall₂_of_evaluateItems hitems⟩

/-- A tagged value becomes a value with the same tag. -/
theorem exists_of_tagged {tag : String} (h : evaluate lookup (.tagged tag d) = .ok w) :
    ∃ w', w = .tagged tag w' ∧ evaluate lookup d = .ok w' := by
  rw [evaluate] at h
  obtain ⟨w', hw', h⟩ := bind_eq_ok_iff.1 h
  exact ⟨w', (Except.ok.inj h).symm, hw'⟩

/-- Both parts of an entry are replaced by those of another. -/
def EntryBecomes (lookup : String → Option Value) (e e' : Value × Value) : Prop :=
  evaluate lookup e.1 = .ok e'.1 ∧ evaluate lookup e.2 = .ok e'.2

/-- Entries whose keys stay apart, from each other and from those that are done, are put at the end
in their order. -/
theorem forall₂_of_evaluateEntries {es done out : Entries}
    (hnew : ∀ e ∈ done, ∀ e' ∈ es, ∀ k, evaluate lookup e'.1 = .ok k → e.1.same k = false)
    (hapart : es.Pairwise fun e e' => ∀ k k', evaluate lookup e.1 = .ok k →
      evaluate lookup e'.1 = .ok k' → k.same k' = false)
    (h : evaluateEntries lookup done es = .ok out) :
    ∃ es', out = done ++ es' ∧ List.Forall₂ (EntryBecomes lookup) es es' := by
  induction es generalizing done with
  | nil =>
    cases h
    exact ⟨[], (List.append_nil _).symm, .nil⟩
  | cons e es ih =>
    obtain ⟨key, value⟩ := e
    rw [evaluateEntries] at h
    obtain ⟨k, hk, h⟩ := bind_eq_ok_iff.1 h
    obtain ⟨v, hv, h⟩ := bind_eq_ok_iff.1 h
    rw [put_of_new fun e he => hnew e he (key, value) List.mem_cons_self k hk] at h
    obtain ⟨hhead, hapart⟩ := List.pairwise_cons.1 hapart
    have hnew' : ∀ e ∈ done ++ [(k, v)], ∀ e' ∈ es, ∀ k', evaluate lookup e'.1 = .ok k' →
        e.1.same k' = false := by
      intro e he e' he' k' hk'
      rcases List.mem_append.1 he with he | he
      · exact hnew e he e' (List.mem_cons_of_mem _ he') k' hk'
      · obtain rfl := List.mem_singleton.1 he
        exact hhead e' he' k k' hk hk'
    obtain ⟨es', rfl, hes'⟩ := ih hnew' hapart h
    exact ⟨(k, v) :: es', List.append_assoc _ _ _, .cons ⟨hk, hv⟩ hes'⟩

/-- A mapping whose keys stay apart becomes a mapping, entry by entry. -/
theorem KeepsKeysApart.exists_of_mapping {entries : Entries}
    (hkeys : KeepsKeysApart lookup (.mapping entries))
    (h : evaluate lookup (.mapping entries) = .ok w) :
    ∃ entries', w = .mapping entries' ∧ List.Forall₂ (EntryBecomes lookup) entries entries' := by
  cases hkeys with
  | mapping _ _ hapart =>
    rw [evaluate] at h
    obtain ⟨out, hout, h⟩ := bind_eq_ok_iff.1 h
    cases h
    obtain ⟨entries', rfl, hentries⟩ := forall₂_of_evaluateEntries
      (fun _ he => absurd he List.not_mem_nil) hapart hout
    exact ⟨_, rfl, hentries⟩

/-! ## One step into the value -/

/-- Keys that stay apart in a value do so in its parts. -/
theorem KeepsKeysApart.part? {step : Value.Step} (hkeys : KeepsKeysApart lookup d)
    (hx : d.part? step = some x) : KeepsKeysApart lookup x := by
  cases hkeys with
  | sequence h =>
    cases step with
    | item i => exact h x (List.mem_of_getElem? hx)
    | _ => cases hx
  | mapping hkeys hvalues _ =>
    cases step with
    | key i =>
      obtain ⟨e, he, rfl⟩ := Option.map_eq_some_iff.1 hx
      exact hkeys e (List.mem_of_getElem? he)
    | value i =>
      obtain ⟨e, he, rfl⟩ := Option.map_eq_some_iff.1 hx
      exact hvalues e (List.mem_of_getElem? he)
    | _ => cases hx
  | tagged h =>
    cases step with
    | tagged =>
      obtain rfl := Option.some.inj hx
      exact h
    | _ => cases hx
  | _ => cases hx

/-- If keys stay apart, a value keeps its shape. -/
theorem KeepsKeysApart.sameShape (hkeys : KeepsKeysApart lookup d)
    (h : evaluate lookup d = .ok w) : d.SameShape w := by
  cases d with
  | string s => exact .string s w
  | sequence items =>
    obtain ⟨items', rfl, hitems⟩ := exists_of_sequence h
    exact .sequence hitems.length_eq.symm
  | mapping entries =>
    obtain ⟨entries', rfl, hentries⟩ := hkeys.exists_of_mapping h
    exact .mapping hentries.length_eq.symm
  | tagged tag v =>
    obtain ⟨v', rfl, -⟩ := exists_of_tagged h
    exact .tagged tag v v'
  | null =>
    cases h
    exact .null
  | bool b =>
    cases h
    exact .bool b
  | number n =>
    cases h
    exact .number n

/-- A value that is not a text is replaced part by part. -/
theorem KeepsKeysApart.rel_part? (hkeys : KeepsKeysApart lookup d) (h : evaluate lookup d = .ok w)
    (htext : ∀ s, d ≠ .string s) (step : Value.Step) :
    Option.Rel (fun x y => evaluate lookup x = .ok y) (d.part? step) (w.part? step) := by
  cases d with
  | string s => exact absurd rfl (htext s)
  | sequence items =>
    obtain ⟨items', rfl, hitems⟩ := exists_of_sequence h
    cases step with
    | item i => exact rel_getElem? hitems i
    | _ => exact .none
  | mapping entries =>
    obtain ⟨entries', rfl, hentries⟩ := hkeys.exists_of_mapping h
    cases step with
    | key i => exact rel_map (rel_getElem? hentries i) fun _ _ he => he.1
    | value i => exact rel_map (rel_getElem? hentries i) fun _ _ he => he.2
    | _ => exact .none
  | tagged tag v =>
    obtain ⟨v', rfl, hv⟩ := exists_of_tagged h
    cases step with
    | tagged => exact .some hv
    | _ => exact .none
  | _ =>
    cases h
    exact .none

/-- If keys stay apart, a value without placeholders stays as it is. -/
theorem KeepsKeysApart.eq_self (hkeys : KeepsKeysApart lookup d) (h : evaluate lookup d = .ok w)
    (hnames : names d = []) : w = d := by
  induction d using Value.tree_induction generalizing w with
  | null => exact (Except.ok.inj h).symm
  | bool b => exact (Except.ok.inj h).symm
  | number n => exact (Except.ok.inj h).symm
  | string s =>
    rw [evaluate, evaluateText_eq_self hnames] at h
    exact (Except.ok.inj h).symm
  | sequence items ih =>
    rw [names, namesOfItems_eq_flatMap, List.flatMap_eq_nil_iff] at hnames
    obtain ⟨items', rfl, hitems⟩ := exists_of_sequence h
    cases hkeys with
    | sequence hkeys =>
      rw [eq_of_forall₂ hitems fun v hv w hw =>
        ih v hv (hkeys v hv) hw (hnames v hv)]
  | mapping entries ih =>
    rw [names, namesOfEntries_eq_flatMap, List.flatMap_eq_nil_iff] at hnames
    obtain ⟨entries', rfl, hentries⟩ := hkeys.exists_of_mapping h
    cases hkeys with
    | mapping hkeys hvalues _ =>
      rw [eq_of_forall₂ hentries fun e he e' hbecomes => ?_]
      obtain ⟨hkey, hvalue⟩ := List.append_eq_nil_iff.1 (hnames e he)
      exact Prod.ext ((ih e he).1 (hkeys e he) hbecomes.1 hkey)
        ((ih e he).2 (hvalues e he) hbecomes.2 hvalue)
  | tagged tag v ih =>
    rw [names] at hnames
    obtain ⟨v', rfl, hv⟩ := exists_of_tagged h
    cases hkeys with
    | tagged hkeys => rw [ih hkeys hv hnames]

/-! ## The whole value -/

section Whole

variable {position : List Value.Step}

/-- What stands at a position is replaced at that position. -/
theorem KeepsKeysApart.exists_at? (hkeys : KeepsKeysApart lookup d)
    (h : evaluate lookup d = .ok w) (hx : d.at? position = some x) :
    ∃ y, w.at? position = some y ∧ KeepsKeysApart lookup x ∧ evaluate lookup x = .ok y := by
  induction position generalizing d w with
  | nil =>
    obtain rfl := Option.some.inj hx
    exact ⟨w, rfl, hkeys, h⟩
  | cons step position ih =>
    obtain ⟨part, hpart, hx⟩ := Value.at?_cons_eq_some_iff.1 hx
    have htext : ∀ s, d ≠ .string s := by
      rintro s rfl
      cases hpart
    have hrel := hkeys.rel_part? h htext step
    rw [hpart] at hrel
    obtain ⟨part', hpart', hbecomes⟩ := exists_of_rel_some hrel
    obtain ⟨y, hy, hx⟩ := ih (hkeys.part? hpart) hbecomes hx
    exact ⟨y, Value.at?_cons_eq_some_iff.2 ⟨part', hpart', hy⟩, hx⟩

/-- What stands at a position of the result has replaced what stands there in the document, or
belongs to what has replaced a text. -/
theorem KeepsKeysApart.at?_of_at? (hkeys : KeepsKeysApart lookup d)
    (h : evaluate lookup d = .ok w) (hy : w.at? position = some y) :
    (∃ x, d.at? position = some x ∧ evaluate lookup x = .ok y) ∨
      ∃ before s, before <+: position ∧ d.at? before = some (.string s) := by
  induction position generalizing d w with
  | nil =>
    obtain rfl := Option.some.inj hy
    exact .inl ⟨d, rfl, h⟩
  | cons step position ih =>
    by_cases htext : ∃ s, d = .string s
    · obtain ⟨s, rfl⟩ := htext
      exact .inr ⟨[], s, List.nil_prefix, rfl⟩
    obtain ⟨part', hpart', hy⟩ := Value.at?_cons_eq_some_iff.1 hy
    have hrel := hkeys.rel_part? h (not_exists.1 htext) step
    rw [hpart'] at hrel
    obtain ⟨part, hpart, hbecomes⟩ := exists_of_rel_some_right hrel
    rcases ih (hkeys.part? hpart) hbecomes hy with ⟨x, hx, hy⟩ | ⟨before, s, hbefore, hs⟩
    · exact .inl ⟨x, Value.at?_cons_eq_some_iff.2 ⟨part, hpart, hx⟩, hy⟩
    · exact .inr ⟨step :: before, s, List.cons_prefix_cons.2 ⟨rfl, hbefore⟩,
        Value.at?_cons_eq_some_iff.2 ⟨part, hpart, hs⟩⟩

/-- Where the placeholders of a document are replaced and no two keys of a mapping become the same,
every value that stands at a position of the document is replaced at that position of the result.
The two have the same shape, so that only texts change; a value without placeholders does not
change at all. Every other position of the result leads into what has replaced a text. -/
theorem evaluate_keeps_shape (hkeys : KeepsKeysApart lookup d) (h : evaluate lookup d = .ok w)
    (position : List Value.Step) :
    (∀ x, d.at? position = some x → ∃ y, w.at? position = some y ∧ evaluate lookup x = .ok y ∧
      x.SameShape y ∧ (names x = [] → y = x)) ∧
    (∀ y, w.at? position = some y → (∃ x, d.at? position = some x) ∨
      ∃ before s, before <+: position ∧ d.at? before = some (.string s)) := by
  constructor
  · intro x hx
    obtain ⟨y, hy, hkeys, hbecomes⟩ := hkeys.exists_at? h hx
    exact ⟨y, hy, hbecomes, hkeys.sameShape hbecomes, hkeys.eq_self hbecomes⟩
  · intro y hy
    exact (hkeys.at?_of_at? h hy).imp_left fun ⟨x, hx, _⟩ => ⟨x, hx⟩

end Whole

/-- A document with placeholders in two keys and under a tag. -/
def shapeSample : Value :=
  .mapping [(.string "((a))-port", .number (.integer 1)),
    (.string "((b))-port", .sequence [.bool true, .tagged "!host" (.string "((hosts))")])]

/-- Two names for the keys and a list. -/
def shapeSampleValue? : String → Option Value
  | "a" => some (.string "http")
  | "b" => some (.string "https")
  | "hosts" => some (.sequence [.string "x", .null])
  | _ => none

/-- The keys stay apart, the tag stays at its place, and what is below it comes from the list. -/
theorem evaluate_keeps_shape_sample :
    ∃ w y z, evaluate shapeSampleValue? shapeSample = .ok w ∧
      KeepsKeysApart shapeSampleValue? shapeSample ∧
      w.at? [.value 1, .item 1] = some y ∧
      y = .tagged "!host" (.sequence [.string "x", .null]) ∧
      (Value.tagged "!host" (.string "((hosts))")).SameShape y ∧
      w.at? [.value 1, .item 0] = some z ∧ z = .bool true ∧
      ∃ before s, before <+: [.value 1, .item 1, .tagged, .item 0] ∧
        shapeSample.at? before = some (.string s) := by
  have hkeys : KeepsKeysApart shapeSampleValue? shapeSample := by
    have htagged : KeepsKeysApart shapeSampleValue? (.tagged "!host" (.string "((hosts))")) :=
      .tagged (.string _)
    have hitems : KeepsKeysApart shapeSampleValue?
        (.sequence [.bool true, .tagged "!host" (.string "((hosts))")]) :=
      .sequence (List.forall_mem_cons.2 ⟨.bool _, List.forall_mem_singleton.2 htagged⟩)
    refine .mapping (List.forall_mem_cons.2 ⟨.string _, List.forall_mem_singleton.2 (.string _)⟩)
      (List.forall_mem_cons.2 ⟨.number _, List.forall_mem_singleton.2 hitems⟩)
      (List.pairwise_pair.2 fun k k' hk hk' => ?_)
    obtain rfl : .string "http-port" = k := Except.ok.inj hk
    obtain rfl : .string "https-port" = k' := Except.ok.inj hk'
    rfl
  have hok : evaluate shapeSampleValue? shapeSample =
      .ok (.mapping [(.string "http-port", .number (.integer 1)), (.string "https-port",
        .sequence [.bool true, .tagged "!host" (.sequence [.string "x", .null])])]) := rfl
  obtain ⟨y, hy, hhosts, hshape, -⟩ :=
    (evaluate_keeps_shape hkeys hok [.value 1, .item 1]).1 _ rfl
  obtain ⟨z, hz, -, -, hself⟩ := (evaluate_keeps_shape hkeys hok [.value 1, .item 0]).1 _ rfl
  rcases (evaluate_keeps_shape hkeys hok [.value 1, .item 1, .tagged, .item 0]).2 _ rfl with
    ⟨x, hx⟩ | hinserted
  · cases hx
  · exact ⟨_, y, z, hok, hkeys, hy, (Except.ok.inj hhosts).symm, hshape, hz, hself rfl, hinserted⟩

end Substitution

end Rollout
