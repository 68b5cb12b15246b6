import Rollout.Proofs.Deploy.Plan

/-!
# The order of the calls

The calls of every run are the first of its plan, wherever it ends and for whatever reason. From
this the order of the calls is read off: `calls_follow_plan`.
-/

namespace Rollout

/-- What sort of call it is. -/
inductive Call.Kind where
  | load
  | say
  | diff
  | confirm
  | upload
  | update
deriving DecidableEq, Repr

def Call.kind : Call → Call.Kind
  | .load _ => .load
  | .say _ => .say
  | .diff _ => .diff
  | .confirm => .confirm
  | .upload _ => .upload
  | .update _ => .update

namespace Deploy

variable {σ : Type} {cs : Collaborators σ} {request : DeployRequest} {w : σ} {cancelled : Bool}

/-- The calls of a run before the user is asked. -/
def shownCalls (cs : Collaborators σ) (request : DeployRequest) (w : σ) (m : Manifest) :
    List Call :=
  openingCalls cs request ++ reviewCalls cs (cs.after w (openingCalls cs request)) m

/-- The plan of a run, with what is called before the confirmation and after it. -/
theorem plan_within_of_document {m : Manifest} (h : document cs.deployment request = .ok m) :
    plan cs request w <+: shownCalls cs request w m ++
      .confirm :: ((uploads m.releases).map .upload ++ [.update ⟨m.bytes, request.options⟩]) := by
  simp only [plan, approvalCalls, shownCalls, h, List.append_assoc, List.cons_append,
    List.prefix_append_right_inj, List.cons_prefix_cons, true_and]
  exact commitCalls_within request.options m

/-- Without a manifest that can be shown, only sources are loaded. -/
theorem plan_eq_of_error {e : DeployError} (h : document cs.deployment request = .error e) :
    plan cs request w = loads request.vars.sources := by
  simp [plan, h]

/-- A plan has one diff, one confirmation and one update at most. -/
theorem count_plan_le {k : Call.Kind} (h : k = .diff ∨ k = .confirm ∨ k = .update) :
    ((plan cs request w).map Call.kind).count k ≤ 1 := by
  cases hm : document cs.deployment request with
  | error e =>
    rw [plan_eq_of_error hm, loads]
    rcases h with rfl | rfl | rfl <;>
      simp [Call.kind, Function.comp_def, List.map_const', List.count_replicate]
  | ok m =>
    have hwithin := (plan_within_of_document (w := w) hm).map Call.kind
    refine Nat.le_trans (hwithin.sublist.count_le k) ?_
    rw [shownCalls, openingCalls, loads, reviewCalls]
    rcases h with rfl | rfl | rfl <;>
      simp [Call.kind, Function.comp_def, List.map_const', List.count_replicate]

/-- The calls before the user is asked neither ask the user nor upload nor update anything. -/
theorem kind_of_mem_shownCalls {m : Manifest} {c : Call} (h : c ∈ shownCalls cs request w m) :
    c.kind = .load ∨ c.kind = .say ∨ c.kind = .diff := by
  rw [shownCalls, openingCalls, List.mem_append, List.mem_append, List.mem_singleton, reviewCalls,
    List.mem_cons] at h
  rcases h with (h | rfl) | rfl | h
  · obtain ⟨source, rfl⟩ := exists_load_of_mem h
    exact .inl rfl
  · exact .inr (.inl rfl)
  · exact .inr (.inr rfl)
  · obtain ⟨line, -, rfl⟩ := List.mem_map.1 h
    exact .inr (.inl rfl)

/-- A run that asks the user, or goes further, has shown the diff of its manifest before. -/
theorem exists_shownCalls {before after : List Call} {c : Call}
    (h : calls cs request w cancelled = before ++ c :: after)
    (hc : c.kind = .confirm ∨ c.kind = .upload ∨ c.kind = .update) :
    ∃ m more, document cs.deployment request = .ok m ∧
      before = shownCalls cs request w m ++ more ∧
      more ++ c :: after <+:
        .confirm :: ((uploads m.releases).map .upload ++ [.update ⟨m.bytes, request.options⟩]) := by
  have hwithin : before ++ c :: after <+: plan cs request w := h ▸ course_calls.within
  cases hm : document cs.deployment request with
  | error e =>
    rw [plan_eq_of_error hm] at hwithin
    have hmem := hwithin.subset (List.mem_append_right before List.mem_cons_self)
    obtain ⟨source, rfl⟩ := exists_load_of_mem hmem
    simp [Call.kind] at hc
  | ok m =>
    have hplanned := hwithin.trans (plan_within_of_document hm)
    have hshown : c ∉ shownCalls cs request w m := by
      intro hmem
      rcases kind_of_mem_shownCalls hmem with hk | hk | hk <;> simp [hk] at hc
    obtain ⟨more, hbefore, hmore⟩ := exists_of_append_cons_within hplanned hshown
    exact ⟨m, more, rfl, hbefore, hmore⟩

/-- The calls of a run are the first of its plan: the sources are loaded in the order given, the
name of the deployment is said, and then come one diff, its lines one by one, one confirmation, one
upload for each release that has an address, in the order of the manifest, and one update. So in
every run the diff is fetched at most once, the user is asked at most once and only after the diff
has been shown, nothing is uploaded before that, there is at most one update, and nothing follows
it. -/
theorem calls_follow_plan (cs : Collaborators σ) (request : DeployRequest) (w : σ)
    (cancelled : Bool) :
    calls cs request w cancelled <+: plan cs request w ∧
      ((calls cs request w cancelled).map Call.kind).count .diff ≤ 1 ∧
      ((calls cs request w cancelled).map Call.kind).count .confirm ≤ 1 ∧
      ((calls cs request w cancelled).map Call.kind).count .update ≤ 1 ∧
      (∀ before after, calls cs request w cancelled = before ++ .confirm :: after →
        ∃ earlier manifest, before = earlier ++ .diff manifest ::
          (cs.fetched (cs.after w earlier) manifest).map (.say ·.render)) ∧
      (∀ before r after, calls cs request w cancelled = before ++ .upload r :: after →
        .confirm ∈ before) ∧
      ∀ before u after, calls cs request w cancelled = before ++ .update u :: after →
        after = [] := by
  have hwithin : calls cs request w cancelled <+: plan cs request w := course_calls.within
  have hcount : ∀ k : Call.Kind, k = .diff ∨ k = .confirm ∨ k = .update →
      ((calls cs request w cancelled).map Call.kind).count k ≤ 1 := by
    intro k hk
    exact Nat.le_trans ((hwithin.map Call.kind).sublist.count_le k) (count_plan_le hk)
  refine ⟨hwithin, hcount _ (by simp), hcount _ (by simp), hcount _ (by simp), ?_, ?_, ?_⟩
  · intro before after h
    obtain ⟨m, more, -, rfl, hmore⟩ := exists_shownCalls h (.inl rfl)
    cases more with
    | nil =>
      refine ⟨openingCalls cs request, m.bytes, ?_⟩
      rw [List.append_nil, shownCalls, reviewCalls]
    | cons c more =>
      -- a second confirmation would have to be among the uploads
      have hmem := (List.cons_prefix_cons.1 hmore).2.subset
        (List.mem_append_right _ List.mem_cons_self)
      simp at hmem
  · intro before r after h
    obtain ⟨m, more, -, rfl, hmore⟩ := exists_shownCalls h (.inr (.inl rfl))
    cases more with
    | nil => simp at hmore
    | cons c more =>
      obtain ⟨rfl, -⟩ := List.cons_prefix_cons.1 hmore
      exact List.mem_append_right _ List.mem_cons_self
  · intro before u after h
    obtain ⟨m, more, -, rfl, hmore⟩ := exists_shownCalls h (.inr (.inr rfl))
    cases more with
    | nil => simp at hmore
    | cons c more =>
      have hupdate : Call.update u ∉ (uploads m.releases).map Call.upload := by simp
      obtain ⟨last, -, hlast⟩ :=
        exists_of_append_cons_within (List.cons_prefix_cons.1 hmore).2 hupdate
      cases last with
      | nil => exact List.prefix_nil.1 (List.cons_prefix_cons.1 hlast).2
      | cons d last => simp at hlast

end Deploy

end Rollout
