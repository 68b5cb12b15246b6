import Rollout.Deploy.Run

/-!
# The collaborators seen through the calls

The collaborators of a run answer as the state of their world tells them, so that the calls of a
run and the world it began in say all that happened: `Collaborators.after` is the world after some
calls, `Collaborators.struck` says whether the run was cancelled during a call,
`Collaborators.returns` whether a call came to its end, and `Collaborators.fetched` is the diff that
a call brought.

A list of calls halts (`Halts`) if only what was under way follows a call that the cancellation
struck (`MayFollow`): further sources and what is said next after the loading of a source, and the
lines of a diff that has been fetched.
-/

namespace Rollout

variable {σ α : Type}

@[simp] theorem Reply.struck_returned (result : α) (cancelled : Bool) :
    (Reply.returned result cancelled).struck = cancelled := rfl

@[simp] theorem Reply.struck_abandoned : (Reply.abandoned : Reply α).struck = true := rfl

/-- Whether a call with this reply has returned. -/
def Reply.isReturned : Reply α → Bool
  | .returned _ _ => true
  | .abandoned => false

/-- A call that is not struck returns. -/
theorem Reply.isReturned_of_struck {reply : Reply α} (h : reply.struck = false) :
    reply.isReturned = true := by
  cases reply with
  | returned result cancelled => rfl
  | abandoned => cases h

namespace Collaborators

/-- What a call does to the world. -/
def act (cs : Collaborators σ) (w : σ) : Call → σ
  | .load source => (cs.load source w).2
  | .say text => (cs.say text w).2
  | .diff manifest => (cs.diff manifest w).2
  | .confirm => (cs.confirm w).2
  | .upload request => (cs.upload request w).2
  | .update request => (cs.update request w).2

/-- The world after some calls, made one after the other. -/
def after (cs : Collaborators σ) (w : σ) (calls : List Call) : σ := calls.foldl cs.act w

/-- Whether the run is cancelled during a call that is made in the world `w`. -/
def struck (cs : Collaborators σ) (w : σ) : Call → Bool
  | .load source => (cs.load source w).1.struck
  | .say text => (cs.say text w).1
  | .diff manifest => (cs.diff manifest w).1.struck
  | .confirm => (cs.confirm w).1.struck
  | .upload request => (cs.upload request w).1.struck
  | .update request => (cs.update request w).1.struck

/-- Whether a call that is made in the world `w` comes to its end. -/
def returns (cs : Collaborators σ) (w : σ) : Call → Bool
  | .load source => (cs.load source w).1.isReturned
  | .say _ => true
  | .diff manifest => (cs.diff manifest w).1.isReturned
  | .confirm => (cs.confirm w).1.isReturned
  | .upload request => (cs.upload request w).1.isReturned
  | .update request => (cs.update request w).1.isReturned

/-- Whether the run is cancelled during one of some calls, made one after the other. -/
def anyStruck (cs : Collaborators σ) : σ → List Call → Bool
  | _, [] => false
  | w, c :: calls => cs.struck w c || cs.anyStruck (cs.act w c) calls

/-- Whether all of some calls, made one after the other, come to their end. -/
def allReturn (cs : Collaborators σ) : σ → List Call → Bool
  | _, [] => true
  | w, c :: calls => cs.returns w c && cs.allReturn (cs.act w c) calls

/-- The lines of a diff that is asked for in the world `w`; none if it is not returned. -/
def fetched (cs : Collaborators σ) (w : σ) (manifest : ByteArray) : List DiffLine :=
  match (cs.diff manifest w).1 with
  | .returned (.ok lines) _ => lines
  | _ => []

variable (cs : Collaborators σ) (w : σ)

@[simp] theorem after_nil : cs.after w [] = w := rfl

@[simp] theorem after_cons (c : Call) (calls : List Call) :
    cs.after w (c :: calls) = cs.after (cs.act w c) calls := rfl

@[simp] theorem after_append (calls calls' : List Call) :
    cs.after w (calls ++ calls') = cs.after (cs.after w calls) calls' :=
  List.foldl_append

@[simp] theorem anyStruck_nil : cs.anyStruck w [] = false := rfl

@[simp] theorem anyStruck_cons (c : Call) (calls : List Call) :
    cs.anyStruck w (c :: calls) = (cs.struck w c || cs.anyStruck (cs.act w c) calls) := rfl

@[simp] theorem anyStruck_append (calls calls' : List Call) :
    cs.anyStruck w (calls ++ calls') =
      (cs.anyStruck w calls || cs.anyStruck (cs.after w calls) calls') := by
  induction calls generalizing w with
  | nil => rfl
  | cons c calls ih => simp [ih, Bool.or_assoc]

@[simp] theorem allReturn_nil : cs.allReturn w [] = true := rfl

@[simp] theorem allReturn_cons (c : Call) (calls : List Call) :
    cs.allReturn w (c :: calls) = (cs.returns w c && cs.allReturn (cs.act w c) calls) := rfl

/-- If calls all come to their end, so do the first of them. -/
theorem allReturn_of_prefix {calls calls' : List Call} (hcalls : calls <+: calls')
    (h : cs.allReturn w calls' = true) : cs.allReturn w calls = true := by
  induction calls generalizing w calls' with
  | nil => rfl
  | cons c calls ih =>
    cases calls' with
    | nil => simp at hcalls
    | cons d calls' =>
      obtain ⟨rfl, hrest⟩ := List.cons_prefix_cons.1 hcalls
      rw [allReturn_cons, Bool.and_eq_true] at h ⊢
      exact ⟨h.1, ih _ hrest h.2⟩

/-- A call during which the run is not cancelled comes to its end. -/
theorem returns_of_struck {c : Call} (h : cs.struck w c = false) : cs.returns w c = true := by
  cases c with
  | say text => rfl
  | _ => exact Reply.isReturned_of_struck h

/-- Calls during which the run is not cancelled all come to their end. -/
theorem allReturn_of_anyStruck {calls : List Call} (h : cs.anyStruck w calls = false) :
    cs.allReturn w calls = true := by
  induction calls generalizing w with
  | nil => rfl
  | cons c calls ih =>
    rw [anyStruck_cons, Bool.or_eq_false_iff] at h
    rw [allReturn_cons, cs.returns_of_struck w h.1, ih _ h.2]
    rfl

end Collaborators

/-! ## Halting -/

/-- What may follow a call that the cancellation strikes. A source that is loaded all the same may
be followed by further ones, and when they are loaded, by what is said then. Something that is said
may be one of the lines of a diff, and a diff is shown if it has been returned. -/
def MayFollow (cs : Collaborators σ) (w : σ) (after : List Call) : Call → Prop
  | .load _ => ∀ d ∈ after, (∃ source, d = .load source) ∨ d = .say (Deploy.banner cs.deployment)
  | .say _ => ∀ d ∈ after, ∃ line : DiffLine, d = .say line.render
  | .diff manifest => after = (cs.fetched w manifest).map (.say ·.render)
  | .confirm | .upload _ | .update _ => after = []

/-- Only what may follow it follows a call that the cancellation strikes. -/
def Halts (cs : Collaborators σ) (w : σ) (calls : List Call) : Prop :=
  ∀ before c after, calls = before ++ c :: after → cs.struck (cs.after w before) c = true →
    MayFollow cs (cs.after w before) after c

variable {cs : Collaborators σ} {w : σ}

/-- Calls that the cancellation does not strike may be followed by anything that halts. -/
theorem halts_of_anyStruck {calls : List Call} (h : cs.anyStruck w calls = false) :
    Halts cs w calls := by
  rintro before c after rfl hc
  simp [hc] at h

/-- A call may be the last one if nothing has to follow it. -/
theorem halts_singleton {c : Call} (h : MayFollow cs w [] c) : Halts cs w [c] := by
  intro before d after heq _
  cases before with
  | nil =>
    obtain ⟨rfl, rfl⟩ := List.cons_eq_cons.1 heq
    exact h
  | cons e before => simp at heq

/-- What halts may follow what halts, if there is nothing to follow once the run is cancelled. -/
theorem Halts.append {calls calls' : List Call} (h : Halts cs w calls)
    (h' : Halts cs (cs.after w calls) calls') (hend : cs.anyStruck w calls = true → calls' = []) :
    Halts cs w (calls ++ calls') := by
  intro before c after heq hc
  rcases List.append_eq_append_iff.1 heq with ⟨more, rfl, hcalls'⟩ | ⟨more, rfl, hmore⟩
  · -- the struck call is one of the later ones
    rw [cs.after_append] at hc ⊢
    exact h' more c after hcalls' hc
  · cases more with
    | nil =>
      have hcalls' : calls' = [] ++ c :: after := by simpa using hmore.symm
      rw [List.append_nil] at h'
      exact h' [] c after hcalls' hc
    | cons d more =>
      obtain ⟨rfl, (hafter : after = more ++ calls')⟩ := List.cons_eq_cons.1 hmore
      have hnil : calls' = [] := hend (by simp [hc])
      rw [hafter, hnil, List.append_nil]
      exact h before c more rfl hc

/-- An element in the beginning of a list that is not in its first part is in the second. -/
theorem exists_of_append_cons_within {before after p q : List α} {a : α}
    (h : before ++ a :: after <+: p ++ q) (ha : a ∉ p) :
    ∃ more, before = p ++ more ∧ more ++ a :: after <+: q := by
  obtain ⟨rest, h⟩ := h
  rw [List.append_assoc] at h
  rcases List.append_eq_append_iff.1 h with ⟨more, hp, hq⟩ | ⟨more, hbefore, hq⟩
  · cases more with
    | nil =>
      rw [List.append_nil] at hp
      exact ⟨[], by rw [hp, List.append_nil], rest, by simpa using hq⟩
    | cons b more =>
      obtain ⟨rfl, -⟩ := List.cons_eq_cons.1 hq
      exact absurd (hp ▸ List.mem_append_right _ List.mem_cons_self) ha
  · exact ⟨more, hbefore, rest, by rw [hq, List.append_assoc]⟩

/-- Sources may be loaded one after the other, and something may be said in the end. -/
theorem halts_loads {calls sources : List Call}
    (h : calls <+: sources ++ [.say (Deploy.banner cs.deployment)])
    (hsources : ∀ c ∈ sources, ∃ source, c = .load source) : Halts cs w calls := by
  rintro before c after rfl -
  by_cases hc : c ∈ sources
  · obtain ⟨source, rfl⟩ := hsources c hc
    intro d hd
    have hmem := h.subset (List.mem_append_right before (List.mem_cons_of_mem _ hd))
    rcases List.mem_append.1 hmem with hload | hsay
    · exact .inl (hsources d hload)
    · exact .inr (List.mem_singleton.1 hsay)
  · -- it is what is said in the end
    obtain ⟨more, -, hlast⟩ := exists_of_append_cons_within h hc
    cases more with
    | nil =>
      obtain ⟨rfl, hafter⟩ := List.cons_prefix_cons.1 hlast
      rw [List.prefix_nil.1 hafter]
      exact List.forall_mem_nil _
    | cons d more => simp at hlast

/-- A diff may be followed by its lines. -/
theorem halts_diff (manifest : ByteArray) :
    Halts cs w (.diff manifest :: (cs.fetched w manifest).map (.say ·.render)) := by
  intro before d after heq hd
  cases before with
  | nil =>
    obtain ⟨rfl, hafter⟩ := List.cons_eq_cons.1 heq
    exact hafter.symm
  | cons e before =>
    -- only lines are said after the first call
    have hlines : _ = before ++ d :: after := (List.cons_eq_cons.1 heq).2
    have hline : ∀ c ∈ before ++ d :: after, ∃ line : DiffLine, c = .say line.render := by
      intro c hc
      rw [← hlines] at hc
      obtain ⟨line, -, rfl⟩ := List.mem_map.1 hc
      exact ⟨line, rfl⟩
    obtain ⟨line, rfl⟩ := hline d (List.mem_append_right _ List.mem_cons_self)
    exact fun c hc => hline c (List.mem_append_right _ (List.mem_cons_of_mem _ hc))

end Rollout
