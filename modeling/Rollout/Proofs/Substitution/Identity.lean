import Rollout.Proofs.Substitution.Dependence
import Rollout.Proofs.Yaml.Rereading

/-!
# Substitution without placeholders

A text without placeholders is the text of its pieces, so it stays the same, and a value without
placeholders stays the same as a whole if no key comes twice in a mapping (`evaluate_eq_self`). So a
manifest without placeholders keeps its value (`evaluateManifest_eq_self`).
-/

namespace Rollout

open Yaml (Value Entries)

namespace Placeholder

/-- A character in front adds no placeholder. -/
theorem placeholder_mem_consChar {c : Char} {ps : List Piece} {name : String} :
    .placeholder name ∈ consChar c ps ↔ .placeholder name ∈ ps := by
  rw [consChar.eq_def]
  split <;> simp

end Placeholder

namespace Substitution

variable {lookup : String → Option Value}

/-- A character in front is kept as it is. -/
theorem joinPieces_consChar {ps : List Piece} {cs : List Char} (h : joinPieces lookup ps = .ok cs)
    (c : Char) : joinPieces lookup (Placeholder.consChar c ps) = .ok (c :: cs) := by
  rw [Placeholder.consChar.eq_def]
  split
  · next text ps =>
    rw [joinPieces, pieceText, ok_bind] at h
    obtain ⟨rest, hrest, h⟩ := bind_eq_ok_iff.1 h
    cases h
    rw [joinPieces, pieceText, ok_bind, hrest]
    rfl
  · rw [joinPieces, pieceText, ok_bind, h]
    rfl

/-- The pieces of a text without placeholders make up the text. -/
theorem joinPieces_piecesAfter {cs : List Char}
    (h : ∀ name, .placeholder name ∉ Placeholder.piecesAfter 0 cs) :
    joinPieces lookup (Placeholder.piecesAfter 0 cs) = .ok cs := by
  induction cs with
  | nil => rfl
  | cons c cs ih =>
    rw [Placeholder.piecesAfter] at h ⊢
    cases hstart : Placeholder.atStart? (c :: cs) with
    | some p =>
      rw [hstart] at h
      exact absurd List.mem_cons_self (h _)
    | none =>
      rw [hstart] at h
      refine joinPieces_consChar (ih fun name hmem => h name ?_) c
      exact Placeholder.placeholder_mem_consChar.2 hmem

/-- A text without placeholders stays as it is. -/
theorem evaluateText_eq_self {s : String} (h : Placeholder.names s = []) :
    evaluateText lookup s = .ok (.string s) := by
  have hnone : ∀ name, .placeholder name ∉ Placeholder.pieces s := by
    intro name hmem
    have hname := Placeholder.mem_names_iff.2 hmem
    rw [h] at hname
    cases hname
  rw [evaluateText]
  split
  · next name heq => exact absurd (heq ▸ List.mem_cons_self) (hnone name)
  · rw [Placeholder.pieces, joinPieces_piecesAfter hnone, ok_bind, String.ofList_toList]
    rfl

/-- An entry with a new key comes last. -/
theorem put_of_new {k v : Value} {done : Entries} (h : ∀ e ∈ done, e.1.same k = false) :
    Value.put k v done = done ++ [(k, v)] := by
  induction done with
  | nil => rfl
  | cons e es ih =>
    obtain ⟨he, hes⟩ := List.forall_mem_cons.1 h
    rw [Value.put, he, ih hes]
    rfl

/-- Items that stay as they are make up the same list. -/
theorem evaluateItems_eq_self {vs : List Value} (hvs : ∀ v ∈ vs, evaluate lookup v = .ok v) :
    evaluateItems lookup vs = .ok vs := by
  induction vs with
  | nil => rfl
  | cons v vs ih =>
    obtain ⟨hv, hvs⟩ := List.forall_mem_cons.1 hvs
    rw [evaluateItems, hv, ok_bind, ih hvs]
    rfl

/-- Entries that stay as they are make up the same mapping, if their keys are distinct. -/
theorem evaluateEntries_eq_self {es done : Entries}
    (hes : ∀ e ∈ es, evaluate lookup e.1 = .ok e.1 ∧ evaluate lookup e.2 = .ok e.2)
    (hdistinct : (done ++ es).Pairwise fun e e' => e.1.same e'.1 = false) :
    evaluateEntries lookup done es = .ok (done ++ es) := by
  induction es generalizing done with
  | nil => rw [evaluateEntries, List.append_nil]
  | cons e es ih =>
    obtain ⟨k, v⟩ := e
    obtain ⟨⟨hk, hv⟩, hes⟩ := List.forall_mem_cons.1 hes
    have hnew : ∀ e ∈ done, e.1.same k = false := fun e he =>
      (List.pairwise_append.1 hdistinct).2.2 e he (k, v) List.mem_cons_self
    rw [evaluateEntries, hk, ok_bind, hv, ok_bind, put_of_new hnew]
    rw [← List.singleton_append, ← List.append_assoc] at hdistinct
    rw [ih hes hdistinct, List.append_assoc, List.singleton_append]

/-- The names in a list are those in its items, in order. -/
theorem namesOfItems_eq_flatMap (vs : List Value) : namesOfItems vs = vs.flatMap names := by
  induction vs with
  | nil => rfl
  | cons v vs ih => rw [namesOfItems, ih, List.flatMap_cons]

/-- The names in a mapping are those in its entries, those of a key before those of its value. -/
theorem namesOfEntries_eq_flatMap (es : Entries) :
    namesOfEntries es = es.flatMap fun e => names e.1 ++ names e.2 := by
  induction es with
  | nil => rfl
  | cons e es ih => rw [namesOfEntries, ih, List.flatMap_cons, List.append_assoc]

/-- A value without placeholders is not changed. -/
theorem evaluate_eq_self {v : Value} (hv : v.IsProper) (h : names v = []) :
    evaluate lookup v = .ok v := by
  induction hv with
  | null => rfl
  | bool => rfl
  | number => rfl
  | string s => exact evaluateText_eq_self h
  | @sequence items _ ih =>
    rw [names, namesOfItems_eq_flatMap, List.flatMap_eq_nil_iff] at h
    have hitems : ∀ v ∈ items, evaluate lookup v = .ok v := fun v hv => ih v hv (h v hv)
    rw [evaluate, evaluateItems_eq_self hitems]
    rfl
  | @mapping entries _ _ hdistinct ihkeys ihvalues =>
    rw [names, namesOfEntries_eq_flatMap, List.flatMap_eq_nil_iff] at h
    have hentries : ∀ e ∈ entries,
        evaluate lookup e.1 = .ok e.1 ∧ evaluate lookup e.2 = .ok e.2 := by
      intro e he
      obtain ⟨hkey, hvalue⟩ := List.append_eq_nil_iff.1 (h e he)
      exact ⟨ihkeys e he hkey, ihvalues e he hvalue⟩
    rw [evaluate, evaluateEntries_eq_self hentries (by rwa [List.nil_append])]
    rfl
  | tagged _ ih =>
    rw [names] at h
    rw [evaluate, ih h]
    rfl

end Substitution

/-! ## Manifests -/

section Manifest

variable {manifest : ByteArray} {vars : Variables} {v : Value} {text : String}

/-- A manifest that is read as a value without placeholders has that value, whatever the variables
are. -/
theorem evaluateManifest_eq_self (hread : Yaml.Reader.value.readBytes manifest = .ok v)
    (hnames : Substitution.names v = []) (lookup : String → Option Value) :
    evaluateManifest manifest lookup = .ok v := by
  have hproper := Yaml.Reader.isProper_of_readBytes hread
  rw [evaluateManifest, hread, mapError_ok, ok_bind, Substitution.evaluate_eq_self hproper hnames,
    mapError_ok]

/-- An interpolated manifest is the text of its value. -/
theorem write?_of_evaluateManifest (hv : evaluateManifest manifest vars.value? = .ok v)
    (h : interpolate manifest vars = .ok text) : v.write? = some text := by
  rw [interpolate, hv, ok_bind] at h
  cases hwrite : v.write? with
  | none =>
    rw [hwrite] at h
    cases h
  | some written =>
    rw [hwrite] at h
    exact congrArg some (Except.ok.inj h)

end Manifest

end Rollout
