import Rollout.Proofs.Yaml.WrittenTokens
import Rollout.Yaml.Node.Parse

/-!
# The node of a written value

The tokens of a value are parsed as the node of the value (`Value.toNode`): collections have the
nodes of their parts, scalars the style and the text that the writer gives them, and a tag is
carried by the node after it. Together with the tokens of a written value this says which document
the writer has written (`Value.ofText?_of_write?`).
-/

namespace Rollout.Yaml

open Node

/-- The node with another tag. -/
def Node.setTag {α : Type} (tag : Tag) : Node α → Node α
  | .scalar anchor _ style s => .scalar anchor (some tag) style s
  | .sequence anchor _ items => .sequence anchor (some tag) items
  | .mapping anchor _ entries => .mapping anchor (some tag) entries
  | .alias anchor => .alias anchor

namespace Value

/-- The octets of a local tag as a node carries them. -/
def nodeTag (name : String) : Tag :=
  if (tagOctets name).isEmpty then [33] else 33 :: tagOctets name

mutual

/-- The node of a value as the writer spells it. -/
def toNode {α : Type} : Value → Node α
  | .tagged name v => v.toNode.setTag (nodeTag name)
  | .sequence items => .sequence none none (itemNodes items)
  | .mapping entries => .mapping none none (entryNodes entries)
  | .null => .scalar none none .plain "null"
  | .bool b => .scalar none none .plain (if b then "true" else "false")
  | .number n => .scalar none none .plain n.text
  | .string s => .scalar none none (Scalar.styleOf s) s
termination_by structural v => v

/-- The nodes of the items of a sequence. -/
def itemNodes {α : Type} : List Value → List (Node α)
  | [] => []
  | v :: vs => v.toNode :: itemNodes vs
termination_by structural vs => vs

/-- The nodes of the entries of a mapping. -/
def entryNodes {α : Type} : Entries → List (Node α × Node α)
  | [] => []
  | (k, v) :: es => (k.toNode, v.toNode) :: entryNodes es
termination_by structural es => es

end

/-- The nodes of some items are those of each of them. -/
theorem itemNodes_eq_map {α : Type} (items : List Value) :
    (itemNodes items : List (Node α)) = items.map toNode := by
  induction items with
  | nil => rfl
  | cons v vs ih => rw [itemNodes, ih, List.map_cons]

/-- The node of a scalar has the style and the text that it is written with. -/
theorem toNode_of_scalar? {α : Type} {v : Value} {style : Style} {s : String}
    (h : v.scalar? = some (style, s)) : (v.toNode : Node α) = .scalar none none style s := by
  cases v with
  | null | bool | number | string =>
    obtain ⟨rfl, rfl⟩ := Prod.mk.inj (Option.some.inj h)
    simp only [toNode]
  | sequence | mapping | tagged => cases h

/-! ## First tokens -/

/-- The tokens that a node without anchor and tag begins with as a part of a block collection. -/
def opensNode (indentless : Bool) : Token → Bool
  | .scalar .. | .flowSequenceStart | .flowMappingStart | .blockSequenceStart
  | .blockMappingStart => true
  | .blockEntry => indentless
  | _ => false

/-- The tokens of a value without a tag begin with one that opens a node. -/
theorem exists_tokens_eq {v : Value} {position : Position} {inMapping : Bool}
    (hv : ∀ name w, v ≠ .tagged name w) :
    ∃ t ts, v.tokens position inMapping = t :: ts ∧ opensNode inMapping t = true := by
  cases v with
  | null | bool | number | string =>
    simp only [tokens]
    exact ⟨_, _, rfl, rfl⟩
  | tagged name w => exact absurd rfl (hv name w)
  | sequence items =>
    cases items <;> simp only [tokens]
    · exact ⟨_, _, rfl, rfl⟩
    · split_ifs with h
      · exact ⟨_, _, rfl, (Bool.and_eq_true_iff.1 h).1⟩
      · exact ⟨_, _, rfl, rfl⟩
  | mapping entries =>
    cases entries <;> simp only [tokens] <;> exact ⟨_, _, rfl, rfl⟩

/-- A value begins with its tag or with a node. -/
theorem exists_tokens_head (v : Value) (position : Position) (inMapping : Bool) :
    ∃ t ts, v.tokens position inMapping = t :: ts ∧
      (opensNode inMapping t = true ∨ ∃ handle suffix, t = .tag handle suffix) := by
  by_cases htagged : ∃ name w, v = .tagged name w
  · obtain ⟨name, w, rfl⟩ := htagged
    refine ⟨tagToken name, w.tokens .afterKey inMapping, by simp only [tokens], .inr ?_⟩
    rw [tagToken]
    split_ifs <;> exact ⟨_, _, rfl⟩
  · obtain ⟨t, ts, hts, ht⟩ := exists_tokens_eq fun name w h => htagged ⟨name, w, h⟩
    exact ⟨t, ts, hts, .inl ht⟩

variable {ts rest : List Token} {t : Token} {fuel : Nat}

/-- A node with a tag is the node with that tag. -/
theorem parse?_tagToken (name : String) {indentless : Bool} (ht : opensNode indentless t = true)
    (fuel : Nat) (ts : List Token) :
    parse? Handles.default (fuel + 1) true indentless (tagToken name :: t :: ts) =
      (parse? Handles.default (fuel + 1) true indentless (t :: ts)).map
        (Prod.map (Node.setTag (nodeTag name)) id) := by
  have hproperties : properties? Handles.default (tagToken name :: t :: ts) =
      some (none, some (nodeTag name), t :: ts) := by
    rw [tagToken, nodeTag]
    split_ifs <;> cases t <;> first | rfl | cases ht
  have hproperties' : properties? Handles.default (t :: ts) = some (none, none, t :: ts) := by
    cases t <;> first | rfl | cases ht
  have halias : ∀ anchor us, tagToken name :: t :: ts = .alias anchor :: us → False := by
    intro anchor us h
    rw [tagToken] at h
    split_ifs at h <;> cases h
  have halias' : ∀ anchor us, t :: ts = .alias anchor :: us → False := by
    intro anchor us h
    obtain ⟨rfl, -⟩ := List.cons.inj h
    cases ht
  have hmap {α : Type} (x : Option (α × List Token)) (f g : α → Node String)
      (h : ∀ a, f a = (g a).setTag (nodeTag name)) :
      (x.bind fun p => some (f p.1, p.2)) =
        (x.bind fun p => some (g p.1, p.2)).map (Prod.map (Node.setTag (nodeTag name)) id) := by
    cases x with
    | none => rfl
    | some p => simp [h]
  rw [parse?.eq_3 _ _ _ _ _ halias, parse?.eq_3 _ _ _ _ _ halias', hproperties, hproperties']
  cases t with
  | scalar style text => rfl
  | flowSequenceStart | flowMappingStart | blockSequenceStart | blockMappingStart =>
    exact hmap _ _ _ fun _ => rfl
  | blockEntry =>
    obtain rfl : indentless = true := ht
    exact hmap _ _ _ fun _ => rfl
  | _ => cases ht

/-- A node of a block collection is not absent before the tokens of a value. -/
theorem endsField_tokens (v : Value) (position : Position) (inMapping : Bool) (rest : List Token) :
    endsField (v.tokens position inMapping ++ rest) = false ∧
      (inMapping = false → endsItem (v.tokens position inMapping ++ rest) = false) := by
  obtain ⟨t, ts, hts, ht | ⟨handle, suffix, rfl⟩⟩ := exists_tokens_head v position inMapping
  · rw [hts]
    cases t with
    | scalar | flowSequenceStart | flowMappingStart | blockSequenceStart | blockMappingStart =>
      exact ⟨rfl, fun _ => rfl⟩
    | blockEntry => exact ⟨rfl, fun h => absurd ht (by simp [h, opensNode])⟩
    | _ => cases ht
  · rw [hts]
    exact ⟨rfl, fun _ => rfl⟩

/-! ## Collections -/

/-- The tokens of a value are parsed as its node. A sequence at the column of the mapping around it
goes on as long as there are dashes. -/
def Parses (v : Value) : Prop :=
  ∀ (position : Position) (inMapping : Bool) {fuel : Nat} {rest : List Token},
    2 * (v.tokens position inMapping).length + 2 ≤ fuel →
    (inMapping = true → rest.head? ≠ some .blockEntry) →
    parse? Handles.default fuel true inMapping (v.tokens position inMapping ++ rest) =
      some (v.toNode, rest)

/-- The items of a list in a block are parsed, if each of them is, up to the end of the block. -/
theorem blockItems?_itemTokens {items : List Value} (h : ∀ v ∈ items, Parses v)
    (hfuel : 2 * (itemTokens items).length + 1 ≤ fuel) (rest : List Token) :
    blockItems? Handles.default fuel (itemTokens items ++ .blockEnd :: rest) =
      some (itemNodes items, rest) := by
  induction items generalizing fuel with
  | nil =>
    obtain ⟨fuel, rfl⟩ : ∃ n, fuel = n + 1 := ⟨fuel - 1, by omega⟩
    rfl
  | cons v vs ih =>
    obtain ⟨hv, hvs⟩ := List.forall_mem_cons.1 h
    rw [itemTokens, List.length_append, List.length_cons] at hfuel
    obtain ⟨fuel, rfl⟩ : ∃ n, fuel = n + 1 := ⟨fuel - 1, by omega⟩
    have hends := (endsField_tokens v .afterIndicator false
      (itemTokens vs ++ .blockEnd :: rest)).2 rfl
    have hitem : 2 * (v.tokens .afterIndicator false).length + 2 ≤ fuel := by omega
    have hothers : 2 * (itemTokens vs).length + 1 ≤ fuel := by omega
    have hnotMapping (us : List Token) (h : false = true) : us.head? ≠ some Token.blockEntry :=
      absurd h Bool.false_ne_true
    rw [itemTokens, List.append_assoc, List.cons_append, blockItems?]
    simp only [hends, Bool.false_eq_true, if_false, hv .afterIndicator false hitem (hnotMapping _),
      Option.bind_eq_bind, Option.bind_some, ih hvs hothers]
    rfl

/-- The items of a list at the indentation of its parent are parsed, if each of them is, as long as
entries follow. -/
theorem indentlessItems?_itemTokens {items : List Value} (h : ∀ v ∈ items, Parses v)
    (hfuel : 2 * (itemTokens items).length + 1 ≤ fuel)
    (hrest : rest.head? ≠ some .blockEntry) :
    indentlessItems? Handles.default fuel (itemTokens items ++ rest) =
      some (itemNodes items, rest) := by
  induction items generalizing fuel with
  | nil =>
    obtain ⟨fuel, rfl⟩ : ∃ n, fuel = n + 1 := ⟨fuel - 1, by omega⟩
    rw [itemTokens, List.nil_append, indentlessItems?]
    · rfl
    · rintro us rfl
      exact hrest rfl
  | cons v vs ih =>
    obtain ⟨hv, hvs⟩ := List.forall_mem_cons.1 h
    rw [itemTokens, List.length_append, List.length_cons] at hfuel
    obtain ⟨fuel, rfl⟩ : ∃ n, fuel = n + 1 := ⟨fuel - 1, by omega⟩
    obtain ⟨hfield, hends⟩ := endsField_tokens v .afterIndicator false (itemTokens vs ++ rest)
    have hitem : 2 * (v.tokens .afterIndicator false).length + 2 ≤ fuel := by omega
    have hothers : 2 * (itemTokens vs).length + 1 ≤ fuel := by omega
    have hnotMapping (us : List Token) (h : false = true) : us.head? ≠ some Token.blockEntry :=
      absurd h Bool.false_ne_true
    rw [itemTokens, List.append_assoc, List.cons_append, indentlessItems?]
    simp only [hfield, hends rfl, Bool.or_self, Bool.false_eq_true, if_false,
      hv .afterIndicator false hitem (hnotMapping _), Option.bind_eq_bind, Option.bind_some,
      ih hvs hothers]
    rfl

/-- The entries of a mapping are parsed, if their keys and their values are, up to the end of the
block. -/
theorem blockEntries?_entryTokens {entries : Entries} (hkeys : ∀ e ∈ entries, Parses e.1)
    (hvalues : ∀ e ∈ entries, Parses e.2)
    (hfuel : 2 * (entryTokens entries).length + 1 ≤ fuel) (rest : List Token) :
    blockEntries? Handles.default fuel (entryTokens entries ++ .blockEnd :: rest) =
      some (entryNodes entries, rest) := by
  induction entries generalizing fuel with
  | nil =>
    obtain ⟨fuel, rfl⟩ : ∃ n, fuel = n + 1 := ⟨fuel - 1, by omega⟩
    rfl
  | cons e es ih =>
    obtain ⟨hk, hks⟩ := List.forall_mem_cons.1 hkeys
    obtain ⟨hv, hvs⟩ := List.forall_mem_cons.1 hvalues
    rw [entryTokens_eq, List.flatMap_cons, tokensOfEntry, ← entryTokens_eq] at hfuel ⊢
    generalize (if (shortKey? e.1).isSome then Position.afterKey else .afterIndicator) = position
      at hfuel ⊢
    simp only [List.length_append, List.length_cons] at hfuel
    obtain ⟨fuel, rfl⟩ : ∃ n, fuel = n + 1 := ⟨fuel - 1, by omega⟩
    have hkey : 2 * (e.1.tokens .afterIndicator true).length + 2 ≤ fuel := by omega
    have hvalue : 2 * (e.2.tokens position true).length + 2 ≤ fuel := by omega
    have hothers : 2 * (entryTokens es).length + 1 ≤ fuel := by omega
    have hmark (ts : List Token) : (.value :: ts).head? ≠ some Token.blockEntry := by simp
    have hnext : (entryTokens es ++ .blockEnd :: rest).head? ≠ some .blockEntry := by
      cases es <;> simp [entryTokens]
    have hendsKey := (endsField_tokens e.1 .afterIndicator true
      (.value :: e.2.tokens position true ++ (entryTokens es ++ .blockEnd :: rest))).1
    have hendsValue :=
      (endsField_tokens e.2 position true (entryTokens es ++ .blockEnd :: rest)).1
    simp only [List.append_assoc, List.cons_append] at hendsKey ⊢
    rw [blockEntries?]
    simp only [hendsKey, hendsValue, Bool.false_eq_true, if_false, Option.bind_eq_bind,
      Option.bind_some, hk .afterIndicator true hkey (fun _ => hmark _),
      hv position true hvalue (fun _ => hnext), ih hks hvs hothers]
    rfl

/-- Items can be written if each of them can. -/
theorem itemsWritable_iff {items : List Value} :
    itemsWritable items = true ↔ ∀ v ∈ items, v.isWritable false = true := by
  induction items with
  | nil => simp [itemsWritable]
  | cons v vs ih => rw [itemsWritable, Bool.and_eq_true, ih, List.forall_mem_cons]

/-- Entries can be written if their keys and their values can. -/
theorem entriesWritable_iff {entries : Entries} :
    entriesWritable entries = true ↔
      ∀ e ∈ entries, e.1.isWritable false = true ∧ e.2.isWritable false = true := by
  induction entries with
  | nil => simp [entriesWritable]
  | cons e es ih =>
    rw [entriesWritable, Bool.and_eq_true, Bool.and_eq_true, ih, List.forall_mem_cons]

/-- The keys and the values of a mapping that can be written can be written, also under a tag. -/
theorem isWritable_of_mem_mapping {entries : Entries} {underTag : Bool}
    (h : (Value.mapping entries).isWritable underTag = true) :
    ∀ e ∈ entries, e.1.isWritable false = true ∧ e.2.isWritable false = true := by
  rw [← entriesWritable_iff]
  rcases entries with _ | ⟨e, _ | ⟨e', es⟩⟩
  · rfl
  · rw [isWritable, Bool.and_eq_true, Bool.and_eq_true] at h
    simp [entriesWritable, h.1.2, h.2]
  · simpa only [isWritable] using h

/-- A scalar is parsed as it has been written. -/
theorem parses_of_scalar? {v : Value} {style : Style} {s : String}
    (h : v.scalar? = some (style, s)) : Parses v := by
  intro position inMapping fuel rest hfuel hrest
  obtain ⟨fuel, rfl⟩ : ∃ n, fuel = n + 1 := ⟨fuel - 1, by omega⟩
  have hparse : parse? Handles.default (fuel + 1) true inMapping
      (.scalar style s.toList :: rest) =
      some (.scalar none none style (.ofList s.toList), rest) := rfl
  rw [tokens_of_scalar? h, toNode_of_scalar? h, List.singleton_append, hparse,
    String.ofList_toList]

/-- A list is parsed as it has been written, if its items are. -/
theorem parses_sequence {items : List Value} (hitems : ∀ v ∈ items, Parses v) :
    Parses (.sequence items) := by
  intro position inMapping fuel rest hfuel hrest
  rw [toNode]
  cases items with
  | nil =>
    obtain ⟨fuel, rfl⟩ : ∃ n, fuel = n + 2 := ⟨fuel - 2, by omega⟩
    simp only [tokens]
    rfl
  | cons v vs =>
    obtain ⟨fuel, rfl⟩ : ∃ n, fuel = n + 1 := ⟨fuel - 1, by omega⟩
    simp only [tokens] at hfuel ⊢
    split_ifs at hfuel ⊢ with hstays
    · -- the items of a sequence in a mapping stand where the keys do
      obtain ⟨rfl, -⟩ := Bool.and_eq_true_iff.1 hstays
      have hparse : parse? Handles.default (fuel + 1) true true (itemTokens (v :: vs) ++ rest) =
          (indentlessItems? Handles.default fuel (itemTokens (v :: vs) ++ rest)).bind fun p =>
            some (.sequence none none p.1, p.2) := rfl
      rw [hparse, indentlessItems?_itemTokens hitems (by omega) (hrest rfl)]
      rfl
    · have hparse (ts : List Token) :
          parse? Handles.default (fuel + 1) true inMapping (.blockSequenceStart :: ts) =
            (blockItems? Handles.default fuel ts).bind fun p =>
              some (.sequence none none p.1, p.2) := rfl
      simp only [List.length_append, List.length_cons, List.length_nil] at hfuel
      rw [List.cons_append, List.cons_append, hparse, List.append_assoc, List.singleton_append,
        blockItems?_itemTokens hitems (by omega)]
      rfl

/-- A mapping is parsed as it has been written, if its keys and its values are. -/
theorem parses_mapping {entries : Entries} (hkeys : ∀ e ∈ entries, Parses e.1)
    (hvalues : ∀ e ∈ entries, Parses e.2) : Parses (.mapping entries) := by
  intro position inMapping fuel rest hfuel hrest
  rw [toNode]
  cases entries with
  | nil =>
    obtain ⟨fuel, rfl⟩ : ∃ n, fuel = n + 2 := ⟨fuel - 2, by omega⟩
    simp only [tokens]
    rfl
  | cons e es =>
    obtain ⟨fuel, rfl⟩ : ∃ n, fuel = n + 1 := ⟨fuel - 1, by omega⟩
    simp only [tokens] at hfuel ⊢
    have hparse (ts : List Token) :
        parse? Handles.default (fuel + 1) true inMapping (.blockMappingStart :: ts) =
          (blockEntries? Handles.default fuel ts).bind fun p =>
            some (.mapping none none p.1, p.2) := rfl
    simp only [List.length_append, List.length_cons, List.length_nil] at hfuel
    rw [List.cons_append, List.cons_append, hparse, List.append_assoc, List.singleton_append,
      blockEntries?_entryTokens hkeys hvalues (by omega)]
    rfl

/-- A tagged value is parsed as it has been written, if what stands under the tag is. -/
theorem parses_tagged {name : String} {v : Value} (hv : ∀ name w, v ≠ .tagged name w)
    (h : Parses v) : Parses (.tagged name v) := by
  intro position inMapping fuel rest hfuel hrest
  rw [tokens, List.length_cons] at hfuel
  have hvalue := h .afterKey inMapping (by omega : _ ≤ fuel) hrest
  obtain ⟨t, ts, hts, ht⟩ : ∃ t ts, v.tokens .afterKey inMapping = t :: ts ∧
      opensNode inMapping t = true := exists_tokens_eq hv
  obtain ⟨fuel, rfl⟩ : ∃ n, fuel = n + 1 := ⟨fuel - 1, by omega⟩
  rw [tokens, List.cons_append, hts, List.cons_append, parse?_tagToken name ht,
    ← List.cons_append, ← hts, hvalue, toNode]
  rfl

/-- The tokens of a value that can be written are parsed as its node. -/
theorem IsLegible.parses {v : Value} (h : v.IsLegible) {underTag : Bool}
    (hw : v.isWritable underTag = true) : Parses v := by
  induction h generalizing underTag with
  | null | bool | number | string => exact parses_of_scalar? rfl
  | @sequence items _ ih =>
    rw [isWritable] at hw
    exact parses_sequence fun v hv => ih v hv (itemsWritable_iff.1 hw v hv)
  | @mapping entries _ _ _ ihkeys ihvalues =>
    exact parses_mapping (fun e he => ihkeys e he (isWritable_of_mem_mapping hw e he).1)
      fun e he => ihvalues e he (isWritable_of_mem_mapping hw e he).2
  | @tagged name v _ _ ih =>
    rw [isWritable, Bool.and_eq_true] at hw
    refine parses_tagged ?_ (ih hw.2)
    rintro name w rfl
    simp [isWritable] at hw

/-! ## Documents -/

/-- A tag makes no difference to the anchors and aliases in a node. -/
theorem link?_setTag (tag : Tag) (n : Node String) (names : Names) :
    (n.setTag tag).link? names = (n.link? names).map (Prod.map (Node.setTag tag) id) := by
  cases n with
  | scalar => rfl
  | sequence anchor _ items =>
    rw [Node.setTag, Node.link?, Node.link?]
    simp only [Option.bind_eq_bind]
    cases linkItems? items (names.defineAnchor anchor).2 <;> rfl
  | mapping anchor _ entries =>
    rw [Node.setTag, Node.link?, Node.link?]
    simp only [Option.bind_eq_bind]
    cases linkEntries? entries (names.defineAnchor anchor).2 <;> rfl
  | _ =>
    rw [Node.setTag, Node.link?]
    cases List.find? _ names <;> rfl

/-- Items without anchors and aliases are linked as they stand. -/
theorem linkItems?_itemNodes {items : List Value} {names : Names}
    (h : ∀ v ∈ items, (v.toNode : Node String).link? names = some (v.toNode, names)) :
    linkItems? (itemNodes items) names = some (itemNodes items, names) := by
  induction items with
  | nil => rfl
  | cons v vs ih =>
    obtain ⟨hv, hvs⟩ := List.forall_mem_cons.1 h
    rw [itemNodes, itemNodes, linkItems?, hv]
    simp only [Option.bind_eq_bind, Option.bind_some, ih hvs]
    rfl

/-- Entries without anchors and aliases are linked as they stand. -/
theorem linkEntries?_entryNodes {entries : Entries} {names : Names}
    (hkeys : ∀ e ∈ entries, (e.1.toNode : Node String).link? names = some (e.1.toNode, names))
    (hvalues : ∀ e ∈ entries, (e.2.toNode : Node String).link? names = some (e.2.toNode, names)) :
    linkEntries? (entryNodes entries) names = some (entryNodes entries, names) := by
  induction entries with
  | nil => rfl
  | cons e es ih =>
    obtain ⟨hk, hks⟩ := List.forall_mem_cons.1 hkeys
    obtain ⟨hv, hvs⟩ := List.forall_mem_cons.1 hvalues
    rw [entryNodes, entryNodes, linkEntries?, hk]
    simp only [Option.bind_eq_bind, Option.bind_some, hv, ih hks hvs]
    rfl

/-- A written node has no anchors that would need numbers. -/
theorem IsLegible.link? {v : Value} (h : v.IsLegible) (names : Names) :
    (v.toNode : Node String).link? names = some (v.toNode, names) := by
  induction h with
  | null | bool | number | string => simp only [toNode]; rfl
  | @sequence items _ ih =>
    rw [toNode, toNode, Node.link?, Names.defineAnchor]
    simp only [linkItems?_itemNodes ih, Option.bind_eq_bind, Option.bind_some]
    rfl
  | @mapping entries _ _ _ ihkeys ihvalues =>
    rw [toNode, toNode, Node.link?, Names.defineAnchor]
    simp only [linkEntries?_entryNodes ihkeys ihvalues, Option.bind_eq_bind, Option.bind_some]
    rfl
  | @tagged name v _ _ ih =>
    rw [toNode, toNode, link?_setTag, ih]
    rfl

/-- A value that can be written is written as one block. -/
theorem write?_eq_some_iff {v : Value} {text : String} :
    v.write? = some text ↔
      v.isWritable false = true ∧ .ofList (v.writeBlock .lineStart none false) = text := by
  rw [write?]
  split_ifs with h <;> simp [h]

/-- The document that the writer has written. -/
theorem IsLegible.ofText?_of_write? {v : Value} (h : v.IsLegible) {text : String}
    (hwrite : v.write? = some text) : Document.ofText? text = some (.ofNode v.toNode) := by
  obtain ⟨hw, rfl⟩ := write?_eq_some_iff.1 hwrite
  have htokens : Token.ofText? (String.ofList (v.writeBlock .lineStart none false)).toList =
      some (v.tokens .lineStart false) := by
    rw [String.toList_ofList]
    exact h.ofText?_writeBlock
  have hfuel : 2 * (v.tokens .lineStart false).length + 2 ≤
      2 * (v.tokens .lineStart false).length + 4 := by omega
  have hparse : parse? Handles.default _ true false (v.tokens .lineStart false ++ []) =
      some (v.toNode, []) := h.parses hw .lineStart false hfuel nofun
  have hnode : ofTokens? (v.tokens .lineStart false) = some (some v.toNode) := by
    rw [List.append_nil] at hparse
    obtain ⟨t, ts, hts, ht⟩ := exists_tokens_head v .lineStart false
    rw [hts] at hparse ⊢
    rw [ofTokens?]
    · simp only [hparse]
      rfl
    -- a written document begins with its node
    all_goals
      intros
      rename_i heq
      obtain ⟨rfl, -⟩ := List.cons.inj heq
      rcases ht with ht | ⟨_, _, ht⟩ <;> cases ht
  rw [Document.ofText?, htokens, Option.bind_eq_bind, Option.bind_some, hnode]
  simp only [Option.bind_eq_bind, Option.bind_some, h.link? []]
  rfl

end Value

end Rollout.Yaml
