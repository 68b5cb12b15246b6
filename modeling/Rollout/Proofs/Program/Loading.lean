import Mathlib.Data.List.Forall2
import Rollout.Proofs.Deploy.Order
import Rollout.Proofs.Program.Preview

/-!
# Loading variables

Sources of variables are loaded one after the other, in the order given. Either all of them can be
loaded, each giving one file (`Loads`), or one of them is the first that cannot (`FirstFailing`);
then no later source is loaded. The main statement is `variables_load_before_manifest`: both
commands load the variables before they look at the manifest, so that a source that cannot be loaded
ends a command in the same way whatever the manifest is, and without one the manifest is
interpolated with all the pairs and all the files. A run may also be cancelled while a source is
loaded, and abandon it; then no later source is loaded either.
-/

namespace Rollout.Deploy

/-! ## Sources -/

/-- A source can be loaded, and gives its entries under its name. -/
structure Loads (source : VariableSource) (file : VariableFile) : Prop where
  name : file.name = source.name
  content : source.content = .ok file.entries

/-- Among some sources, one is the first that cannot be loaded. -/
structure FirstFailing (sources before : List VariableSource) (source : VariableSource)
    (reason : Failure) : Prop where
  placed : ∃ after, sources = before ++ source :: after
  earlier : ∀ s ∈ before, ∃ file, Loads s file
  failed : source.content = .error reason

section Sources

variable {sources before : List VariableSource} {source : VariableSource}
  {files : List VariableFile} {file : VariableFile} {reason : Failure}

/-- Either all sources can be loaded, or there is a first one that cannot. -/
theorem loads_or_firstFailing (sources : List VariableSource) :
    (∃ files, List.Forall₂ Loads sources files) ∨
      ∃ before source reason, FirstFailing sources before source reason := by
  induction sources with
  | nil => exact .inl ⟨[], .nil⟩
  | cons s sources ih =>
    cases hs : s.content with
    | error reason => exact .inr ⟨[], s, reason, ⟨sources, rfl⟩, List.forall_mem_nil _, hs⟩
    | ok entries =>
      have hload : Loads s ⟨s.name, entries⟩ := ⟨rfl, hs⟩
      obtain ⟨files, hfiles⟩ | ⟨before, source, reason, ⟨after, rfl⟩, hbefore, hsource⟩ := ih
      · exact .inl ⟨⟨s.name, entries⟩ :: files, .cons hload hfiles⟩
      · exact .inr ⟨s :: before, source, reason, ⟨after, rfl⟩,
          List.forall_mem_cons.2 ⟨⟨_, hload⟩, hbefore⟩, hsource⟩

/-- A source becomes a file of variables exactly if it loads. -/
theorem sourceFile_eq_ok_iff : sourceFile source = .ok file ↔ Loads source file := by
  rw [sourceFile_eq]
  constructor
  · intro h
    split at h
    · next entries hentries =>
      obtain rfl := Except.ok.inj h
      exact ⟨rfl, hentries⟩
    · cases h
  · rintro ⟨hname, hcontent⟩
    rw [hcontent, ← hname]

/-- Sources that load become files in their order. -/
theorem mapM_sourceFile_of_loads (h : List.Forall₂ Loads sources files) :
    sources.mapM sourceFile = .ok files := by
  induction h with
  | nil => rfl
  | cons hload _ ih =>
    rw [List.mapM_cons, sourceFile_eq_ok_iff.2 hload, ok_bind, ih, ok_bind]
    rfl

/-- The first source that cannot be loaded is the last one that is tried, and its failure is that
of them all. -/
theorem FirstFailing.outcome (h : FirstFailing sources before source reason) :
    sources.mapM sourceFile = .error (.variablesFile source.name reason) ∧
      loadCalls sources = loads (before ++ [source]) := by
  obtain ⟨⟨after, rfl⟩, hbefore, hsource⟩ := h
  induction before with
  | nil =>
    rw [List.nil_append, List.mapM_cons, sourceFile_eq, loadCalls, hsource]
    exact ⟨rfl, rfl⟩
  | cons s before ih =>
    obtain ⟨⟨file, hfile⟩, hrest⟩ := List.forall_mem_cons.1 hbefore
    obtain ⟨hmapM, hcalls⟩ := ih hrest
    rw [List.cons_append, List.mapM_cons, sourceFile_eq_ok_iff.2 hfile, ok_bind, hmapM, loadCalls,
      hfile.content]
    dsimp only
    rw [hcalls]
    exact ⟨rfl, rfl⟩

end Sources

/-! ## Both commands -/

variable {σ : Type} {cs : Collaborators σ} {request : DeployRequest} {w : σ} {vs : VariableSet}
  {before : List VariableSource} {source : VariableSource} {files : List VariableFile}
  {reason : Failure}

/-- Sources that load are added to the pairs. -/
theorem loadAll_of_loads (h : List.Forall₂ Loads vs.sources files) :
    Program.loadAll vs = .ok ⟨vs.pairs, files⟩ := by
  rw [loadAll_eq, mapM_sourceFile_of_loads h]
  rfl

/-- The first source that fails decides the error. -/
theorem loadAll_of_firstFailing (h : FirstFailing vs.sources before source reason) :
    Program.loadAll vs = .error (.variablesFile source.name reason) := by
  rw [loadAll_eq, h.outcome.1]
  rfl

/-- With sources that load, the manifest is interpolated with their files. -/
theorem interpolatedBytes_of_loads (h : List.Forall₂ Loads request.vars.sources files) :
    interpolatedBytes request =
      (interpolate request.manifest ⟨request.vars.pairs, files⟩).map String.toUTF8 := by
  rw [interpolatedBytes, loadAll_of_loads h, ok_bind]
  cases interpolate request.manifest ⟨request.vars.pairs, files⟩ <;> rfl

/-- A source that cannot be loaded ends a run before the manifest is looked at. -/
theorem interpolatedBytes_of_firstFailing
    (h : FirstFailing request.vars.sources before source reason) :
    interpolatedBytes request = .error (.variablesFile source.name reason) := by
  rw [interpolatedBytes, loadAll_of_firstFailing h]
  rfl

/-- A run begins with loading the sources, unless it abandons one of them. -/
theorem loadCalls_prefix_calls (hreturn : cs.allReturn w (loadCalls request.vars.sources) = true) :
    loadCalls request.vars.sources <+: calls cs request w false := by
  rcases hopening : (opening cs request).exec { world := w } with ⟨e | m, t⟩
  · obtain ⟨made, -, hleads, -, hloads, -⟩ := exec_opening_error hopening
    rw [calls, (final_of_exec_opening_error hopening).2, hleads.calls, hloads rfl hreturn]
    exact List.prefix_rfl
  · obtain ⟨-, hm, -⟩ := exec_opening_eq_ok_iff.1 hopening
    obtain ⟨bytes, hbytes, -⟩ := bind_eq_ok_iff.1 hm
    obtain ⟨made, hmade⟩ : Keeps cs _ t _ := keeps_approval_commit m request.options
    rw [calls_eq_exec, steps_eq, exec_bind, hopening]
    dsimp only
    rw [hmade.leads.calls, (leads_of_exec_opening hopening).calls, openingCalls,
      loadCalls_of_interpolatedBytes hbytes, List.nil_append, List.append_assoc]
    exact List.prefix_append _ _

/-- In the plan of a run nothing is loaded after the sources. -/
theorem exists_plan_eq_loads_append (cs : Collaborators σ) (request : DeployRequest) (w : σ) :
    ∃ rest, plan cs request w = loads request.vars.sources ++ rest ∧
      ∀ c ∈ rest, c.kind ≠ .load := by
  rw [plan]
  cases document cs.deployment request with
  | error e => exact ⟨[], (List.append_nil _).symm, List.forall_mem_nil _⟩
  | ok m =>
    refine ⟨_, List.append_assoc _ _ _, fun c hc => ?_⟩
    intro hkind
    rcases List.mem_append.1 hc with hsay | hc
    · rw [List.mem_singleton.1 hsay] at hkind
      cases hkind
    rcases List.mem_append.1 hc with happroval | hcommit
    · cases c with
      | load source => simp [approvalCalls, reviewCalls] at happroval
      | _ => cases hkind
    · rw [List.mem_singleton.1 ((commitCalls_within request.options m).subset hcommit)] at hkind
      cases hkind

/-- A run loads each source once, in order, before it does anything else, unless it abandons one. -/
theorem exists_calls_eq_loads_append (h : List.Forall₂ Loads request.vars.sources files)
    (hreturn : cs.allReturn w (loads request.vars.sources) = true) :
    ∃ rest, calls cs request w false = loads request.vars.sources ++ rest ∧
      ∀ c ∈ rest, c.kind ≠ .load := by
  have hloads := loadCalls_eq_loads (mapM_sourceFile_of_loads h)
  rw [← hloads] at hreturn
  obtain ⟨rest, hcalls⟩ : loadCalls request.vars.sources <+: calls cs request w false :=
    loadCalls_prefix_calls hreturn
  rw [hloads] at hcalls
  obtain ⟨planned, hplan, hkinds⟩ := exists_plan_eq_loads_append cs request w
  have hwithin : calls cs request w false <+: plan cs request w := course_calls.within
  rw [hplan, ← hcalls] at hwithin
  have hrest : rest <+: planned := (List.prefix_append_right_inj _).1 hwithin
  exact ⟨rest, hcalls.symm, fun c hc => hkinds c (hrest.subset hc)⟩

/-- The interpolate command with a source that cannot be loaded. -/
theorem interpolateFile_of_firstFailing (h : FirstFailing vs.sources before source reason)
    (path : String) (manifest : ByteArray) :
    Program.interpolateFile ⟨path, some manifest⟩ vs =
      .error (.deploy (.variablesFile source.name reason)) := by
  unfold Program.interpolateFile
  rw [loadAll_of_firstFailing h]
  rfl

/-- With sources that load, the command interpolates with their files. -/
theorem interpolateFile_of_loads (h : List.Forall₂ Loads vs.sources files) (path : String)
    (manifest : ByteArray) :
    Program.interpolateFile ⟨path, some manifest⟩ vs =
      (interpolate manifest ⟨vs.pairs, files⟩).mapError .deploy := by
  unfold Program.interpolateFile
  rw [loadAll_of_loads h]
  rfl

/-- A run with a source that cannot be loaded. -/
theorem result_of_firstFailing (h : FirstFailing request.vars.sources before source reason)
    (hreturn : cs.allReturn w (loads (before ++ [source])) = true) :
    result cs request w false = .error (.variablesFile source.name reason) ∧
      calls cs request w false = loads (before ++ [source]) := by
  rw [← h.outcome.2] at hreturn
  obtain ⟨hresult, hfinal⟩ : result cs request w false = _ ∧ final cs request w false = _ :=
    execute_of_interpolatedBytes_error (interpolatedBytes_of_firstFailing h) hreturn
  refine ⟨hresult, ?_⟩
  unfold calls
  rw [hfinal]
  exact h.outcome.2

/-- A run never gets past a source that cannot be loaded, also if it is cancelled. -/
theorem calls_within_of_firstFailing (cs : Collaborators σ) (w : σ) (cancelled : Bool)
    (h : FirstFailing request.vars.sources before source reason) :
    calls cs request w cancelled <+: loads (before ++ [source]) := by
  rw [← h.outcome.2]
  rcases hopening : (opening cs request).exec { world := w, cancelled } with ⟨e | m, t⟩
  · obtain ⟨made, hmade, hleads, -⟩ := exec_opening_error hopening
    rw [calls, (final_of_exec_opening_error hopening).2, hleads.calls]
    exact hmade
  · obtain ⟨-, hm, -⟩ := exec_opening_eq_ok_iff.1 hopening
    obtain ⟨bytes, hbytes, -⟩ := bind_eq_ok_iff.1 hm
    cases (interpolatedBytes_of_firstFailing h).symm.trans hbytes

/-! ## The main statement -/

/-- Sources of variables are loaded before anything else is done, one by one and in order. Either
all of them can be loaded, or there is a first one that cannot. If there is, no source is loaded
after it, and both commands end with its failure, whatever the manifest and the pairs are. If all
can be loaded, each is loaded once, the variables are all the pairs and what all the sources hold,
in order, and both commands interpolate the manifest with these. A run that is cancelled while a
source is loaded and abandons it does not come to this. -/
theorem variables_load_before_manifest (sources : List VariableSource) :
    ((∃ files, List.Forall₂ Loads sources files) ∨
      ∃ before source reason, FirstFailing sources before source reason) ∧
    (∀ before source reason, FirstFailing sources before source reason → ∀ pairs manifest options,
      (∀ path, Program.interpolateFile ⟨path, some manifest⟩ ⟨pairs, sources⟩ =
        .error (.deploy (.variablesFile source.name reason))) ∧
      ∀ (σ : Type) (cs : Collaborators σ) (w : σ),
        calls cs ⟨manifest, ⟨pairs, sources⟩, options⟩ w false <+: loads (before ++ [source]) ∧
        (cs.allReturn w (loads (before ++ [source])) = true →
          (∀ phase, (VariableSet.resolve (load cs phase) ⟨pairs, sources⟩).exec { world := w } =
            (.error (.variablesFile source.name reason),
              State.made { world := w } cs (loads (before ++ [source])))) ∧
          result cs ⟨manifest, ⟨pairs, sources⟩, options⟩ w false =
            .error (.variablesFile source.name reason) ∧
          calls cs ⟨manifest, ⟨pairs, sources⟩, options⟩ w false = loads (before ++ [source]))) ∧
    ∀ files, List.Forall₂ Loads sources files → ∀ pairs manifest options,
      (∀ path, Program.interpolateFile ⟨path, some manifest⟩ ⟨pairs, sources⟩ =
        (interpolate manifest ⟨pairs, files⟩).mapError .deploy) ∧
      ∀ (σ : Type) (cs : Collaborators σ) (w : σ), cs.allReturn w (loads sources) = true →
        (∀ phase, (VariableSet.resolve (load cs phase) ⟨pairs, sources⟩).exec { world := w } =
          (.ok ⟨pairs, files⟩, State.made { world := w } cs (loads sources))) ∧
        (∀ phase, (interpolated cs ⟨manifest, ⟨pairs, sources⟩, options⟩ phase).exec
            { world := w } =
          ((interpolate manifest ⟨pairs, files⟩).map String.toUTF8,
            State.made { world := w } cs (loads sources))) ∧
        ∃ rest, calls cs ⟨manifest, ⟨pairs, sources⟩, options⟩ w false = loads sources ++ rest ∧
          ∀ c ∈ rest, c.kind ≠ .load := by
  refine ⟨loads_or_firstFailing sources, ?_, ?_⟩
  · intro before source reason h pairs manifest options
    refine ⟨fun path => interpolateFile_of_firstFailing h path manifest, fun σ cs w =>
      ⟨calls_within_of_firstFailing cs w false h, fun hreturn => ⟨fun phase => ?_, ?_⟩⟩⟩
    · rw [← h.outcome.2] at hreturn ⊢
      rw [exec_resolve cs phase hreturn, loadAll_of_firstFailing h]
    · exact result_of_firstFailing h hreturn
  · intro files h pairs manifest options
    have hcalls : loadCalls sources = loads sources :=
      loadCalls_eq_loads (mapM_sourceFile_of_loads h)
    refine ⟨fun path => interpolateFile_of_loads h path manifest, fun σ cs w hreturn =>
      ⟨fun phase => ?_, fun phase => ?_, exists_calls_eq_loads_append h hreturn⟩⟩
    · rw [← hcalls] at hreturn ⊢
      rw [exec_resolve cs phase hreturn, loadAll_of_loads h]
    · rw [← hcalls] at hreturn ⊢
      rw [exec_interpolated cs phase hreturn, interpolatedBytes_of_loads h]

/-- A file with a variable, one that is not there, and one that holds no mapping. -/
def mixedSources : List VariableSource :=
  [Program.File.source ⟨"a.yml", some "n: 1\n".toUTF8⟩, Program.File.source ⟨"b.yml", none⟩,
    Program.File.source ⟨"c.yml", some "- 1\n".toUTF8⟩]

/-- The file that is not there ends a run, although neither the last file nor the manifest can be
read. Without it and the last one the manifest is looked at. -/
theorem variables_load_before_manifest_missing :
    result sampleScript.collaborators ⟨"[".toUTF8, ⟨[], mixedSources⟩, {}⟩ {} false =
        .error (.variablesFile "b.yml" ⟨"Failed to read b.yml", []⟩) ∧
      calls sampleScript.collaborators ⟨"[".toUTF8, ⟨[], mixedSources⟩, {}⟩ {} false =
        [.load "a.yml", .load "b.yml"] ∧
      ∃ files, Program.interpolateFile ⟨"web.yml", some "[".toUTF8⟩ ⟨[], mixedSources.take 1⟩ =
        (interpolate "[".toUTF8 ⟨[], files⟩).mapError .deploy := by
  obtain ⟨entries, hentries⟩ :
      ∃ entries, (Program.File.source ⟨"a.yml", some "n: 1\n".toUTF8⟩).content = .ok entries := by
    obtain ⟨entries, h, -⟩ := any_toOption_iff.1
      (show (Program.File.source ⟨"a.yml", some "n: 1\n".toUTF8⟩).content.toOption.any
        (fun _ => true) = true by decide +kernel)
    exact ⟨entries, h⟩
  have hload : Loads (Program.File.source ⟨"a.yml", some "n: 1\n".toUTF8⟩) ⟨"a.yml", entries⟩ :=
    ⟨rfl, hentries⟩
  have hfailing : FirstFailing mixedSources
      [Program.File.source ⟨"a.yml", some "n: 1\n".toUTF8⟩] (Program.File.source ⟨"b.yml", none⟩)
      ⟨"Failed to read b.yml", []⟩ :=
    ⟨⟨_, rfl⟩, List.forall_mem_singleton.2 ⟨_, hload⟩, rfl⟩
  obtain ⟨-, hresult, hcalls⟩ :=
    (((variables_load_before_manifest mixedSources).2.1 _ _ _ hfailing [] "[".toUTF8 {}).2
      Script.Turn sampleScript.collaborators {}).2 rfl
  have hinterpolate := ((variables_load_before_manifest (mixedSources.take 1)).2.2 _
    (.cons hload .nil) [] "[".toUTF8 {}).1 "web.yml"
  exact ⟨hresult, hcalls, _, hinterpolate⟩

end Rollout.Deploy
