import Rollout.Interpolation
import Rollout.Proofs.Substitution.ProperValues
import Rollout.Proofs.Substitution.Shape
import Rollout.Proofs.Yaml.Sameness

/-!
# Keys that meet

The mapping with the placeholders of another replaced is built by putting the replaced entries into
it one after the other. When two keys have become the same key, the second entry takes the place of
the first, and nothing is said about it. So a mapping can be replaced whenever each of its keys and
values can, it then has the keys that are not the same as an earlier one, each with the value of the
last entry that it belongs to, and no entry is lost just when the keys stay apart
(`evaluate_mapping_keeps_last`). A document in which the same key is written twice is not read at
all.
-/

namespace Rollout

open Yaml (Value Entries)

namespace Yaml.Value

variable {k v : Value} {done es : Entries}

/-! ## Keys without repetition -/

/-- The keys that are not the same as an earlier one, in order. -/
def firstKeys (keys : List Value) : List Value :=
  keys.eraseDupsBy fun later earlier => earlier.same later

/-- The first of the keys stays, and those after it that are the same go. -/
theorem firstKeys_cons (k : Value) (ks : List Value) :
    firstKeys (k :: ks) = k :: firstKeys (ks.filter fun l => !k.same l) := by
  unfold firstKeys
  rw [List.eraseDupsBy_cons]
  simp only [Bool.decide_eq_false]

/-- What holds of a list of keys whenever it holds of what is left of the tail without the head
holds of every list of keys. -/
@[elab_as_elim]
theorem firstKeys_induction {P : List Value → Prop} (nil : P [])
    (cons : ∀ k ks, P (ks.filter fun l => !k.same l) → P (k :: ks)) : ∀ ks, P ks
  | [] => nil
  | k :: ks => cons k ks (firstKeys_induction nil cons (ks.filter fun l => !k.same l))
termination_by ks => ks.length
decreasing_by exact Nat.lt_succ_of_le (List.length_filter_le _ ks)

/-- The keys that stay do so in their order. -/
theorem firstKeys_sublist (ks : List Value) : (firstKeys ks).Sublist ks := by
  induction ks using firstKeys_induction with
  | nil => exact .slnil
  | cons k ks ih =>
    rw [firstKeys_cons]
    exact (ih.trans List.filter_sublist).cons_cons k

/-- No two of the keys that stay are the same. -/
theorem pairwise_firstKeys (ks : List Value) :
    (firstKeys ks).Pairwise fun k l => k.same l = false := by
  induction ks using firstKeys_induction with
  | nil => exact .nil
  | cons k ks ih =>
    rw [firstKeys_cons]
    refine .cons (fun l hl => ?_) ih
    have hfiltered := (firstKeys_sublist _).subset hl
    simpa using (List.mem_filter.1 hfiltered).2

/-- Keys that are distinct all stay. -/
theorem firstKeys_eq_self {ks : List Value} (h : ks.Pairwise fun k l => k.same l = false) :
    firstKeys ks = ks := by
  induction h with
  | nil => rfl
  | cons hhead _ ih =>
    rw [firstKeys_cons, List.filter_eq_self.2 fun l hl => ?_, ih]
    rw [hhead l hl, Bool.not_false]

/-- No key is left out just when no two keys are the same. -/
theorem length_firstKeys_eq_iff {ks : List Value} :
    (firstKeys ks).length = ks.length ↔ ks.Pairwise fun k l => k.same l = false := by
  constructor
  · intro h
    have hself := (firstKeys_sublist ks).eq_of_length h
    exact hself ▸ pairwise_firstKeys ks
  · intro h
    rw [firstKeys_eq_self h]

/-! ## Putting entries -/

/-- Entries put into a mapping one after the other. -/
def putAll (done es : Entries) : Entries := es.foldl (fun done e => put e.1 e.2 done) done

/-- To put an entry leaves the keys as they are, or adds its key at the end. -/
theorem map_fst_put (k v : Value) (done : Entries) : (put k v done).map Prod.fst =
    if (done.map Prod.fst).any (·.same k) then done.map Prod.fst else done.map Prod.fst ++ [k] := by
  induction done with
  | nil => rfl
  | cons e done ih =>
    obtain ⟨l, w⟩ := e
    rw [put, List.map_cons, List.any_cons]
    by_cases hsame : l.same k = true
    · rw [if_pos hsame, hsame, Bool.true_or, if_pos rfl]
      rfl
    · rw [if_neg hsame, Bool.eq_false_iff.2 hsame, Bool.false_or, List.map_cons, ih]
      split_ifs <;> rfl

/-- A key comes at the end when it is not there yet, so the keys of entries that are put into a
mapping follow those that are there, without the ones that are the same as an earlier one. -/
theorem map_fst_putAll (done es : Entries) : (putAll done es).map Prod.fst = done.map Prod.fst ++
    firstKeys ((es.map Prod.fst).filter fun k => !(done.map Prod.fst).any (·.same k)) := by
  induction es generalizing done with
  | nil => exact (List.append_nil _).symm
  | cons e es ih =>
    change (putAll (put e.1 e.2 done) es).map Prod.fst = _
    rw [ih, map_fst_put, List.map_cons]
    by_cases hthere : (done.map Prod.fst).any (·.same e.1) = true
    · rw [if_pos hthere, List.filter_cons_of_neg (by simpa using hthere)]
    · rw [if_neg hthere, List.filter_cons_of_pos (by simpa using hthere), firstKeys_cons,
        List.filter_filter, List.append_assoc, List.singleton_append]
      simp only [List.any_append, List.any_cons, List.any_nil, Bool.or_false, Bool.not_or,
        Bool.and_comm]

/-- The keys of a mapping that is built up entry by entry are the first of those that are the
same. -/
theorem map_fst_putAll_nil (es : Entries) :
    (putAll [] es).map Prod.fst = firstKeys (es.map Prod.fst) := by
  simpa using map_fst_putAll [] es

/-- A key is looked up in the first entry and then in the others. -/
theorem find?_cons (key : Value) (e : Value × Value) (es : Entries) :
    find? key (e :: es) = if e.1.same key then some e.2 else find? key es := by
  unfold find?
  rw [List.find?_cons]
  split <;> simp_all

/-- A key is looked up in what comes first and then in what follows. -/
theorem find?_append (key : Value) (es es' : Entries) :
    find? key (es ++ es') = (find? key es).or (find? key es') := by
  unfold find?
  rw [List.find?_append, Option.map_or]

/-- Only what is found under the key of an entry changes when the entry is put into a mapping. -/
theorem find?_put (hk : k.IsProper) (hdone : ∀ e ∈ done, e.1.IsProper) (key : Value) :
    find? key (put k v done) = if k.same key then some v else find? key done := by
  induction done with
  | nil => rw [put, find?_cons]
  | cons e done ih =>
    obtain ⟨l, w⟩ := e
    obtain ⟨hl, hdone⟩ := List.forall_mem_cons.1 hdone
    rw [put]
    by_cases hsame : l.same k = true
    · rw [if_pos hsame, find?_cons, find?_cons, hl.same_congr hsame]
      split_ifs <;> rfl
    · rw [if_neg hsame, find?_cons, find?_cons, ih hdone]
      by_cases hkey : k.same key = true
      · have hother : ¬l.same key = true := fun h => hsame (same_trans h (hk.same_symm hkey))
        rw [if_neg hother]
        simp only [if_pos hkey]
      · simp only [if_neg hkey]

/-- To put an entry with a proper key keeps all keys proper. -/
theorem forall_mem_put (hk : k.IsProper) (hdone : ∀ e ∈ done, e.1.IsProper) :
    ∀ e ∈ put k v done, e.1.IsProper := by
  rcases put_cases k v done with ⟨hput, -⟩ | ⟨es, e, es', rfl, hput⟩
  · rw [hput]
    exact List.forall_mem_append.2 ⟨hdone, List.forall_mem_singleton.2 hk⟩
  · rw [hput]
    rw [List.forall_mem_append, List.forall_mem_cons] at hdone ⊢
    exact hdone

/-- Under a key stands what has been put there last. -/
theorem find?_putAll (hdone : ∀ e ∈ done, e.1.IsProper) (hes : ∀ e ∈ es, e.1.IsProper)
    (key : Value) : find? key (putAll done es) = (find? key es.reverse).or (find? key done) := by
  induction es generalizing done with
  | nil => rfl
  | cons e es ih =>
    obtain ⟨he, hes⟩ := List.forall_mem_cons.1 hes
    change find? key (putAll (put e.1 e.2 done) es) = _
    rw [ih (forall_mem_put he hdone) hes, find?_put he hdone, List.reverse_cons, find?_append,
      Option.or_assoc, find?_cons]
    split_ifs <;> rfl

/-- Each entry is found under its key if no two keys are the same. -/
theorem find?_of_mem {e : Value × Value} (he : e ∈ es)
    (hapart : es.Pairwise fun e e' => e.1.same e'.1 = false) : find? e.1 es = some e.2 := by
  induction hapart with
  | nil => cases he
  | cons hhead _ ih =>
    rw [find?_cons]
    rcases List.mem_cons.1 he with rfl | he
    · rw [if_pos (same_refl _)]
    · rw [hhead e he, if_neg Bool.false_ne_true, ih he]

/-- Entries whose keys are apart, from each other and from those that are there, come after those
that are there. -/
theorem putAll_of_apart (hapart : (done ++ es).Pairwise fun e e' => e.1.same e'.1 = false) :
    putAll done es = done ++ es := by
  induction es generalizing done with
  | nil => exact (List.append_nil _).symm
  | cons e es ih =>
    have hnew : ∀ e' ∈ done, e'.1.same e.1 = false := fun e' he' =>
      (List.pairwise_append.1 hapart).2.2 e' he' e List.mem_cons_self
    change putAll (put e.1 e.2 done) es = _
    rw [Substitution.put_of_new hnew, ih (by rwa [List.append_assoc]), List.append_assoc]
    rfl

/-- Whether every entry is still there after the entries have been put into a mapping: there are as
many as before, and the value of each is found under its key. -/
def KeepsEveryEntry (es out : Entries) : Prop :=
  out.length = es.length ∧ ∀ e ∈ es, find? e.1 out = some e.2

/-- No entry is lost exactly if no two of the keys are the same. -/
theorem keepsEveryEntry_putAll_iff : KeepsEveryEntry es (putAll [] es) ↔
    es.Pairwise fun e e' => e.1.same e'.1 = false := by
  constructor
  · intro h
    have hlength : (firstKeys (es.map Prod.fst)).length = (es.map Prod.fst).length := by
      rw [← map_fst_putAll_nil, List.length_map, List.length_map, h.1]
    exact List.pairwise_map.1 (length_firstKeys_eq_iff.1 hlength)
  · intro hapart
    rw [putAll_of_apart (by exact hapart), List.nil_append]
    exact ⟨rfl, fun e he => find?_of_mem he hapart⟩

end Yaml.Value

namespace Substitution

variable {lookup : String → Option Value} {es done out : Entries}

/-! ## Replacing the entries of a mapping -/

/-- The entries of a mapping are replaced, and then they are put into a mapping. -/
theorem evaluateEntries_eq_ok_iff : evaluateEntries lookup done es = .ok out ↔
    ∃ replaced, List.Forall₂ (EntryBecomes lookup) es replaced ∧
      out = Value.putAll done replaced := by
  induction es generalizing done with
  | nil =>
    rw [evaluateEntries]
    constructor
    · intro h
      exact ⟨[], .nil, (Except.ok.inj h).symm⟩
    · rintro ⟨replaced, hreplaced, rfl⟩
      obtain rfl := List.forall₂_nil_left_iff.1 hreplaced
      rfl
  | cons e es ih =>
    obtain ⟨key, value⟩ := e
    rw [evaluateEntries]
    constructor
    · intro h
      obtain ⟨k, hk, h⟩ := bind_eq_ok_iff.1 h
      obtain ⟨v, hv, h⟩ := bind_eq_ok_iff.1 h
      obtain ⟨replaced, hreplaced, rfl⟩ := ih.1 h
      exact ⟨(k, v) :: replaced, .cons ⟨hk, hv⟩ hreplaced, rfl⟩
    · rintro ⟨replaced, hreplaced, rfl⟩
      obtain ⟨e', replaced, ⟨hk, hv⟩, htail, rfl⟩ := List.forall₂_cons_left_iff.1 hreplaced
      rw [hk, ok_bind, hv, ok_bind]
      exact ih.2 ⟨replaced, htail, rfl⟩

/-- A mapping is evaluated by replacing in each entry and putting the entries one after another. -/
theorem evaluate_mapping_eq_ok_iff {w : Value} : evaluate lookup (.mapping es) = .ok w ↔
    ∃ replaced, List.Forall₂ (EntryBecomes lookup) es replaced ∧
      w = .mapping (Value.putAll [] replaced) := by
  rw [evaluate, bind_eq_ok_iff]
  constructor
  · rintro ⟨out, hout, h⟩
    obtain ⟨replaced, hreplaced, rfl⟩ := evaluateEntries_eq_ok_iff.1 hout
    exact ⟨replaced, hreplaced, (Except.ok.inj h).symm⟩
  · rintro ⟨replaced, hreplaced, rfl⟩
    exact ⟨_, evaluateEntries_eq_ok_iff.2 ⟨replaced, hreplaced, rfl⟩, rfl⟩

/-- All entries can be replaced if each of them can. -/
theorem exists_forall₂_iff {α β : Type} {R : α → β → Prop} {as : List α} :
    (∃ bs, List.Forall₂ R as bs) ↔ ∀ a ∈ as, ∃ b, R a b := by
  induction as with
  | nil => exact iff_of_true ⟨[], .nil⟩ (List.forall_mem_nil _)
  | cons a as ih =>
    rw [List.forall_mem_cons, ← ih]
    constructor
    · rintro ⟨bs, hbs⟩
      obtain ⟨b, bs, hb, hbs, -⟩ := List.forall₂_cons_left_iff.1 hbs
      exact ⟨⟨b, hb⟩, bs, hbs⟩
    · rintro ⟨⟨b, hb⟩, bs, hbs⟩
      exact ⟨b :: bs, .cons hb hbs⟩

/-- An entry is replaced by one entry only. -/
theorem EntryBecomes.rightUnique : Relator.RightUnique (EntryBecomes lookup) := by
  intro e e₁ e₂ h₁ h₂
  have hkey : e₁.1 = e₂.1 := Except.ok.inj (h₁.1.symm.trans h₂.1)
  have hvalue : e₁.2 = e₂.2 := Except.ok.inj (h₁.2.symm.trans h₂.2)
  exact Prod.ext hkey hvalue

/-- The keys of entries that have been replaced are proper. -/
theorem isProper_key_of_mem (hlookup : ∀ name v, lookup name = some v → v.IsProper)
    (hkeys : ∀ e ∈ es, e.1.IsProper) {replaced : Entries}
    (hreplaced : List.Forall₂ (EntryBecomes lookup) es replaced) :
    ∀ e ∈ replaced, e.1.IsProper := by
  induction hreplaced with
  | nil => exact List.forall_mem_nil _
  | cons hbecomes _ ih =>
    obtain ⟨hkey, hkeys⟩ := List.forall_mem_cons.1 hkeys
    exact List.forall_mem_cons.2 ⟨isProper_of_evaluate hlookup hkey hbecomes.1, ih hkeys⟩

/-- The placeholders of a mapping can be replaced just when those of every key and every value can,
whether or not keys become the same. The keys of the result are the replaced ones without those that
are the same as an earlier one, and under a key stands the value of the last entry that has it. So
every entry is still there just when no two keys have become the same. -/
theorem evaluate_mapping_keeps_last (hlookup : ∀ name v, lookup name = some v → v.IsProper)
    (hes : (Value.mapping es).IsProper) :
    ((∃ w, evaluate lookup (.mapping es) = .ok w) ↔ ∀ e ∈ es, ∃ e', EntryBecomes lookup e e') ∧
    ∀ w, evaluate lookup (.mapping es) = .ok w → ∃ replaced out, w = .mapping out ∧
      List.Forall₂ (EntryBecomes lookup) es replaced ∧
      out.map Prod.fst = Value.firstKeys (replaced.map Prod.fst) ∧
      (∀ key, Value.find? key out = Value.find? key replaced.reverse) ∧
      (Value.KeepsEveryEntry replaced out ↔
        replaced.Pairwise fun e e' => e.1.same e'.1 = false) := by
  constructor
  · rw [← exists_forall₂_iff]
    constructor
    · rintro ⟨w, hw⟩
      obtain ⟨replaced, hreplaced, -⟩ := evaluate_mapping_eq_ok_iff.1 hw
      exact ⟨replaced, hreplaced⟩
    · rintro ⟨replaced, hreplaced⟩
      exact ⟨_, evaluate_mapping_eq_ok_iff.2 ⟨replaced, hreplaced, rfl⟩⟩
  · intro w hw
    obtain ⟨replaced, hreplaced, rfl⟩ := evaluate_mapping_eq_ok_iff.1 hw
    have hkeys := isProper_key_of_mem hlookup (fun e he => (hes.of_mem_mapping he).1) hreplaced
    refine ⟨replaced, _, rfl, hreplaced, ?_, ?_, Value.keepsEveryEntry_putAll_iff⟩
    · exact Value.map_fst_putAll_nil replaced
    · intro key
      rw [Value.find?_putAll (List.forall_mem_nil _) hkeys]
      exact Option.or_none

/-- Three entries, two of them with a placeholder as the key. -/
def collisionSample : Entries :=
  [(.string "((a))", .number (.integer 1)), (.string "y", .number (.integer 2)),
    (.string "((b))", .number (.integer 3))]

/-- Two variables with one value. -/
def collisionVars : Variables := ⟨[⟨"a", .string "x"⟩, ⟨"b", .string "x"⟩], []⟩

/-- The variables of the sample are proper values. -/
theorem isProper_collisionVars : collisionVars.IsProper := by
  refine ⟨?_, List.forall_mem_nil _⟩
  have hstring (s : String) : (Value.string s).IsProper := .string s
  exact List.forall_mem_cons.2 ⟨hstring _, List.forall_mem_singleton.2 (hstring _)⟩

/-- The manifest of the sample is a proper value. -/
theorem isProper_collisionSample : (Value.mapping collisionSample).IsProper := by
  have hentry (s : String) (n : Int) (hn : Yaml.Scalar.isWide n = false) :
      (Value.string s).IsProper ∧ (Value.number (.integer n)).IsProper := ⟨.string s, .number hn⟩
  rw [Value.isProper_mapping_iff]
  refine ⟨?_, by decide⟩
  exact List.forall_mem_cons.2 ⟨hentry _ 1 (by decide), List.forall_mem_cons.2
    ⟨hentry _ 2 (by decide), List.forall_mem_singleton.2 (hentry _ 3 (by decide))⟩⟩

/-- The sample with its placeholders replaced, entry by entry. -/
def collisionReplaced : Entries :=
  [(.string "x", .number (.integer 1)), (.string "y", .number (.integer 2)),
    (.string "x", .number (.integer 3))]

/-- What the entries of the sample become, one by one. -/
theorem forall₂_collisionReplaced :
    List.Forall₂ (EntryBecomes collisionVars.value?) collisionSample collisionReplaced :=
  .cons ⟨rfl, rfl⟩ (.cons ⟨rfl, rfl⟩ (.cons ⟨rfl, rfl⟩ .nil))

/-- The first and the last entry of the sample become one, with the place of the first and the value
of the last. -/
theorem evaluate_mapping_keeps_last_sample :
    (∀ name v, collisionVars.value? name = some v → v.IsProper) ∧
      (Value.mapping collisionSample).IsProper ∧
      ∃ out, evaluate collisionVars.value? (.mapping collisionSample) = .ok (.mapping out) ∧
        out.map Prod.fst = [.string "x", .string "y"] ∧
        Value.find? (.string "x") out = some (.number (.integer 3)) ∧
        ¬Value.KeepsEveryEntry collisionReplaced out := by
  have hlookup : ∀ name v, collisionVars.value? name = some v → v.IsProper :=
    fun _ _ h => isProper_collisionVars.of_value? h
  obtain ⟨hsucceeds, hresult⟩ := evaluate_mapping_keeps_last hlookup isProper_collisionSample
  obtain ⟨w, hw⟩ := hsucceeds.2 (exists_forall₂_iff.1 ⟨_, forall₂_collisionReplaced⟩)
  obtain ⟨replaced, out, rfl, hreplaced, hkeys, hfind, hkeeps⟩ := hresult w hw
  obtain rfl := EntryBecomes.rightUnique.forall₂ forall₂_collisionReplaced hreplaced
  refine ⟨hlookup, isProper_collisionSample, out, hw, hkeys, hfind (.string "x"), ?_⟩
  rw [hkeeps]
  decide

/-- An entry of the sample is lost, and nothing is said about it, while a document in which the same
key is written twice is refused. -/
theorem not_keepsEveryEntry_sample :
    (Value.mapping collisionSample).IsProper ∧
      List.Forall₂ (EntryBecomes collisionVars.value?) collisionSample collisionReplaced ∧
      (∃ out, evaluate collisionVars.value? (.mapping collisionSample) = .ok (.mapping out) ∧
        ¬Value.KeepsEveryEntry collisionReplaced out) ∧
      interpolate "((a)): 1\ny: 2\n((b)): 3\n".toUTF8 collisionVars = .ok "x: 3\ny: 2\n" ∧
      ∃ e, interpolate "x: 1\ny: 2\nx: 3\n".toUTF8 collisionVars = .error e ∧
        e.message = "Invalid manifest: Parsing manifest: duplicate entry with key \"x\"" := by
  have hsilent : (interpolate "((a)): 1\ny: 2\n((b)): 3\n".toUTF8 collisionVars).toOption =
      some "x: 3\ny: 2\n" := by decide +kernel
  have hrefused : (failure? (interpolate "x: 1\ny: 2\nx: 3\n".toUTF8 collisionVars)).map
      DeployError.message =
      some "Invalid manifest: Parsing manifest: duplicate entry with key \"x\"" := by decide +kernel
  obtain ⟨e, he, hmessage⟩ := Option.map_eq_some_iff.1 hrefused
  refine ⟨isProper_collisionSample, forall₂_collisionReplaced, ⟨_, rfl, ?_⟩,
    toOption_eq_some_iff.1 hsilent, e, failure?_eq_some_iff.1 he, hmessage⟩
  intro h
  exact absurd h.1 (by decide)

end Substitution

end Rollout
