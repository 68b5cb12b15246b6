import Rollout.Proofs.Yaml.Rereading

/-!
# Values read back

The text that is written for a value is read as the same value
(`Value.IsLegible.readBytes_of_write?`), if the value is legible and does not go deeper than a
reading can and if its tags are written as they are read (`IsStableTag`). Of a tag that begins with
an exclamation mark one mark is taken off whenever it is written, so such a tag is not read as it
was, and neither is an empty one.
-/

namespace Rollout.Yaml

open Scanner Text

/-! ## Tags -/

/-- A tag that is read as it is written: it is not empty, and it does not begin with an exclamation
mark, unless it is one. -/
def IsStableTag (name : String) : Prop :=
  name = "!" ∨ name ≠ "" ∧ name.toList.head? ≠ some '!'

instance (name : String) : Decidable (IsStableTag name) :=
  inferInstanceAs (Decidable (_ ∨ _))

/-- The octets of a tag that does not begin with an exclamation mark are those of its name. -/
theorem tagOctets_eq_octets {name : String} (h : name.toList.head? ≠ some '!') :
    tagOctets name = Percent.octets name := by
  rw [tagOctets]
  split
  · next octets heq =>
    rw [octets_eq] at heq
    cases hname : name.toList with
    | nil =>
      rw [hname] at heq
      cases heq
    | cons c cs =>
      obtain ⟨b, bs, hencode, hb, hchar⟩ := exists_utf8EncodeChar c
      rw [hname, List.flatMap_cons, hencode, List.cons_append] at heq
      obtain ⟨rfl, -⟩ := List.cons.inj heq
      have hnil : bs = [] := List.eq_nil_of_length_eq_zero (by simpa using hb.count)
      rw [hname, ← hchar hnil] at h
      exact absurd rfl h
  · rfl

/-- A stable tag is read from its octets. -/
theorem localTag?_nodeTag {name : String} (h : IsStableTag name) :
    localTag? (some (Value.nodeTag name)) = some name ∧ tagName name = name := by
  rcases h with rfl | ⟨hne, hmark⟩
  · exact ⟨by decide, by decide⟩
  have hname : tagName name = name := by
    rw [tagName]
    split
    · next heq =>
      rw [heq] at hmark
      exact absurd rfl hmark
    · rfl
  have hoctets : Percent.octets name ≠ [] := by
    intro hnil
    have hlength : name.utf8ByteSize = 0 := congrArg List.length hnil
    exact hne (String.utf8ByteSize_eq_zero_iff.1 hlength)
  have hread : String.fromUTF8? ⟨(Percent.octets name).toArray⟩ = some name :=
    fromUTF8?_toUTF8 name
  refine ⟨?_, hname⟩
  rw [Value.nodeTag, tagOctets_eq_octets hmark]
  cases heq : Percent.octets name with
  | nil => exact absurd heq hoctets
  | cons b bs =>
    rw [heq] at hread
    exact hread

/-! ## Depth -/

namespace Value

mutual

/-- How deep the collections of a value are nested. -/
def depth : Value → Nat
  | .sequence items => depthOfItems items + 1
  | .mapping entries => depthOfEntries entries + 1
  | .tagged _ v => v.depth
  | _ => 0
termination_by structural v => v

/-- The greatest depth of the items of a sequence. -/
def depthOfItems : List Value → Nat
  | [] => 0
  | v :: vs => max v.depth (depthOfItems vs)
termination_by structural vs => vs

/-- The greatest depth of the keys and values of a mapping. -/
def depthOfEntries : Entries → Nat
  | [] => 0
  | (k, v) :: es => max (max k.depth v.depth) (depthOfEntries es)
termination_by structural es => es

end

/-- Items are no deeper than some depth if none of them is. -/
theorem depthOfItems_le_iff {items : List Value} {n : Nat} :
    depthOfItems items ≤ n ↔ ∀ v ∈ items, v.depth ≤ n := by
  induction items with
  | nil => simp [depthOfItems]
  | cons v vs ih => rw [depthOfItems, Nat.max_le, ih, List.forall_mem_cons]

/-- Entries are no deeper than some depth if no key and no value is. -/
theorem depthOfEntries_le_iff {entries : Entries} {n : Nat} :
    depthOfEntries entries ≤ n ↔ ∀ e ∈ entries, e.1.depth ≤ n ∧ e.2.depth ≤ n := by
  induction entries with
  | nil => simp [depthOfEntries]
  | cons e es ih => rw [depthOfEntries, Nat.max_le, Nat.max_le, ih, List.forall_mem_cons]

/-! ## Collections -/

variable {depth : Nat} {tag : Option Tag}

/-- A list yields itself, if its items do. -/
theorem yieldsTagged_sequence {items : List Value}
    (h : ∀ v ∈ items, YieldsTagged depth v none) (tag : Option Tag) :
    YieldsTagged (depth + 1) (.sequence items) tag := by
  intro d path s
  have hnode : nodeWithTag tag (.sequence items) = .sequence none tag (itemNodes items) := by
    cases tag <;> simp only [nodeWithTag, toNode, Node.setTag]
  have hpairs : List.Forall₂ (fun v (p : Value × Value) => Reader.value.Yields depth v p.2) items
      (items.map fun v => (v, v)) :=
    List.forall₂_map_right_iff.2 (List.forall₂_same.2 fun v hv => h v hv)
  have hitems := Reader.Yields.mapM hpairs d path 0 s
  have hvalues : (items.map fun v => (v, v)).map Prod.snd = items := by simp [Function.comp_def]
  rw [hvalues] at hitems
  rw [hnode, read.eq_def]
  exact ReadM.bind_of_eq_ok (f := fun values => pure (withTag tag (.sequence values))) hitems

/-- One entry of a mapping. -/
def readEntry (d : Document) (depth : Nat) (path : Path) (done : Entries)
    (n : Node Nat × Node Nat) : ReadM Entries := do
  let key ← read d depth path n.1
  match done.find? fun (k, _) => k.same key with
  | some (k, _) => throw (.node path (.duplicateKey k))
  | none =>
    let value ← read d depth (path.entry n.1) n.2
    return done ++ [(key, value)]

/-- A mapping is read entry by entry. -/
theorem read_mapping (d : Document) (depth : Nat) (path : Path) (anchor : Option Nat)
    (tag : Option Tag) (entries : List (Node Nat × Node Nat)) :
    read d (depth + 1) path (.mapping anchor tag entries) =
      entries.foldlM (readEntry d depth path) [] >>= fun es =>
        pure (withTag tag (.mapping es)) := by
  rw [read.eq_def]
  rfl

/-- The entries of a mapping are read one after the other. -/
theorem foldlM_readEntry {es done : Entries} (hkeys : ∀ e ∈ es, YieldsTagged depth e.1 none)
    (hvalues : ∀ e ∈ es, YieldsTagged depth e.2 none)
    (hdistinct : (done ++ es).Pairwise fun e e' => e.1.same e'.1 = false) (d : Document)
    (path : Path) (s : Nat) :
    (entryNodes es).foldlM (readEntry d depth path) done s = .ok (done ++ es, s) := by
  induction es generalizing done with
  | nil =>
    rw [List.append_nil]
    rfl
  | cons e es ih =>
    obtain ⟨hk, hks⟩ := List.forall_mem_cons.1 hkeys
    obtain ⟨hv, hvs⟩ := List.forall_mem_cons.1 hvalues
    have hnew : done.find? (fun (k, _) => k.same e.1) = none := by
      refine List.find?_eq_none.2 fun e' he' => ?_
      exact Bool.eq_false_iff.1 ((List.pairwise_append.1 hdistinct).2.2 e' he' e List.mem_cons_self)
    have hentry : readEntry d depth path done (e.1.toNode, e.2.toNode) s =
        .ok (done ++ [e], s) := by
      have hkey : read d depth path e.1.toNode s = .ok (e.1, s) := hk d path s
      rw [readEntry, ReadM.bind_of_eq_ok hkey]
      change (match done.find? (fun (k, _) => k.same e.1) with
        | some (k, _) => throw (.node path (.duplicateKey k))
        | none => _ : ReadM Entries) s = _
      rw [hnew]
      exact ReadM.bind_of_eq_ok (hv d (path.entry e.1.toNode) s)
    rw [← List.singleton_append, ← List.append_assoc] at hdistinct
    rw [entryNodes, List.foldlM_cons, ReadM.bind_of_eq_ok hentry, ih hks hvs hdistinct,
      List.append_assoc, List.singleton_append]

/-- A mapping yields itself, if its keys and its values do and its keys are distinct. -/
theorem yieldsTagged_mapping {entries : Entries}
    (hkeys : ∀ e ∈ entries, YieldsTagged depth e.1 none)
    (hvalues : ∀ e ∈ entries, YieldsTagged depth e.2 none)
    (hdistinct : entries.Pairwise fun e e' => e.1.same e'.1 = false) (tag : Option Tag) :
    YieldsTagged (depth + 1) (.mapping entries) tag := by
  intro d path s
  have hnode : nodeWithTag tag (.mapping entries) = .mapping none tag (entryNodes entries) := by
    cases tag <;> simp only [nodeWithTag, toNode, Node.setTag]
  rw [hnode, read_mapping]
  exact ReadM.bind_of_eq_ok (foldlM_readEntry hkeys hvalues (by rwa [List.nil_append]) d path s)

/-! ## Tagged values -/

/-- A value that can be written under a tag has no tag of its own. -/
theorem untagged_eq_self {v : Value} (hw : v.isWritable true = true) : v.untagged = v := by
  cases v with
  | tagged => simp [isWritable] at hw
  | _ => rfl

/-- A tagged value yields itself, if its tag is read back and the value under it yields itself. -/
theorem yieldsTagged_tagged {name : String} {v : Value} (hname : IsStableTag name)
    (h : YieldsTagged depth v (some (nodeTag name))) :
    YieldsTagged depth (.tagged name v) none := by
  intro d path s
  obtain ⟨hlocal, hstable⟩ := localTag?_nodeTag hname
  have hvalue := h d path s
  have htagged : withTag (some (nodeTag name)) v = .tagged name v := by
    rw [withTag, hlocal]
    exact congrArg (Value.tagged · v) hstable
  rw [htagged] at hvalue
  exact hvalue

/-! ## All values -/

/-- A value is read from its node, with a tag unless it carries one itself. -/
theorem IsLegible.yieldsTagged {v : Value} (hv : v.IsLegible)
    (htags : ∀ t ∈ v.tags, IsStableTag t) {underTag : Bool} (hw : v.isWritable underTag = true)
    (hdepth : v.depth ≤ depth)
    (htag : tag = none ∨ v.untagged = v ∧ (localTag? tag).isSome = true) :
    YieldsTagged depth v tag := by
  induction hv generalizing underTag depth tag with
  | null => exact yieldsTagged_toValue (x := .null) .null (htag.imp_right And.right)
  | bool b => exact yieldsTagged_toValue (x := .bool b) (.bool b) (htag.imp_right And.right)
  | @number n hn =>
    cases n with
    | integer i =>
      exact yieldsTagged_toValue (x := .integer i) (.number hn) (htag.imp_right And.right)
    | float x =>
      exact yieldsTagged_toValue (x := .float x) (.number hn) (htag.imp_right And.right)
  | string s => exact yieldsTagged_toValue (x := .text s) (.string s) (htag.imp_right And.right)
  | @sequence items _ ih =>
    rw [Value.depth] at hdepth
    obtain ⟨n, rfl⟩ : ∃ n, depth = n + 1 := ⟨depth - 1, by omega⟩
    rw [tags, tagsOfItems_eq_flatMap] at htags
    rw [isWritable] at hw
    have hitems := depthOfItems_le_iff.1 (Nat.le_of_succ_le_succ hdepth)
    exact yieldsTagged_sequence (fun v hv => ih v hv
      (fun t ht => htags t (List.mem_flatMap.2 ⟨v, hv, ht⟩)) (itemsWritable_iff.1 hw v hv)
      (hitems v hv) (.inl rfl)) tag
  | @mapping entries _ _ hdistinct ihkeys ihvalues =>
    rw [Value.depth] at hdepth
    obtain ⟨n, rfl⟩ : ∃ n, depth = n + 1 := ⟨depth - 1, by omega⟩
    rw [tags, tagsOfEntries_eq_flatMap] at htags
    have hentry : ∀ e ∈ entries, ∀ t ∈ e.1.tags ++ e.2.tags, IsStableTag t :=
      fun e he t ht => htags t (List.mem_flatMap.2 ⟨e, he, ht⟩)
    have hwritable := isWritable_of_mem_mapping hw
    have hentries := depthOfEntries_le_iff.1 (Nat.le_of_succ_le_succ hdepth)
    refine yieldsTagged_mapping (fun e he => ?_) (fun e he => ?_) hdistinct tag
    · exact ihkeys e he (fun t ht => hentry e he t (List.mem_append_left _ ht))
        (hwritable e he).1 (hentries e he).1 (.inl rfl)
    · exact ihvalues e he (fun t ht => hentry e he t (List.mem_append_right _ ht))
        (hwritable e he).2 (hentries e he).2 (.inl rfl)
  | @tagged name v _ _ ih =>
    rw [tags] at htags
    obtain ⟨hname, htags⟩ := List.forall_mem_cons.1 htags
    rw [isWritable, Bool.and_eq_true] at hw
    have hlocal : (localTag? (some (nodeTag name))).isSome = true := by
      rw [(localTag?_nodeTag hname).1]
      rfl
    have hnone : tag = none := by
      rcases htag with h | ⟨h, -⟩
      · exact h
      · have hcyclic : v = .tagged name v := h
        cases hcyclic
    subst hnone
    exact yieldsTagged_tagged hname
      (ih htags hw.2 hdepth (.inr ⟨untagged_eq_self hw.2, hlocal⟩))

/-- The text that is written for a value is read as the value. -/
theorem IsLegible.readBytes_of_write? {v : Value} (hv : v.IsLegible)
    (htags : ∀ t ∈ v.tags, IsStableTag t) (hdepth : v.depth ≤ 128) {text : String}
    (hwrite : v.write? = some text) : Reader.value.readBytes text.toUTF8 = .ok v := by
  have hw := (write?_eq_some_iff.1 hwrite).1
  have hyields : Reader.value.Yields 128 v v := hv.yieldsTagged htags hw hdepth (.inl rfl)
  exact hyields.readBytes hv hwrite

end Value

end Rollout.Yaml
