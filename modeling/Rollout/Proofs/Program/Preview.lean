import Rollout.Program.Run
import Rollout.Proofs.Deploy.Clearance

/-!
# Previews

The program can print a manifest with its variables replaced, and it can deploy a manifest. The two
commands go different ways, but the text that the first one prints is a preview of the second one
(`interpolate_previews_deploy`): a run on the same manifest with the same variables gets the same
bytes from its interpolation and passes on no others, and where nothing can be printed, the run ends
with the same error and has only loaded variables. The run must not be cancelled meanwhile
(`Undisturbed`); what happens once it has asked for the diff does not matter.
-/

namespace Rollout

namespace Deploy

variable {σ α β : Type} {cs : Collaborators σ} {request : DeployRequest} {s t : State σ} {w : σ}
  {cancelled : Bool}

/-! ## The interpolation step of a run -/

/-- A run is not cancelled before it asks for the diff, neither while its sources are loaded nor
while its deployment is named. -/
def Undisturbed (cs : Collaborators σ) (request : DeployRequest) (w : σ) : Prop :=
  cs.anyStruck w (loadCalls request.vars.sources ++ [.say (banner cs.deployment)]) = false

/-- Such a run abandons no source. -/
theorem Undisturbed.allReturn (h : Undisturbed cs request w) :
    cs.allReturn w (loadCalls request.vars.sources) = true := by
  rw [Undisturbed, cs.anyStruck_append, Bool.or_eq_false_iff] at h
  exact cs.allReturn_of_anyStruck w h.1

/-- A run that cannot interpolate its manifest ends with that, and has loaded what it could. -/
theorem execute_of_interpolatedBytes_error {e : DeployError}
    (h : interpolatedBytes request = .error e)
    (hreturn : cs.allReturn w (loadCalls request.vars.sources) = true) :
    result cs request w false = .error e ∧ final cs request w false =
      { State.made { world := w } cs (loadCalls request.vars.sources) with phase := .aborted } := by
  have hopening : (opening cs request).exec { world := w } =
      (.error e, State.made { world := w } cs (loadCalls request.vars.sources)) := by
    rw [opening, exec_bind, exec_proceed, if_neg Bool.false_ne_true, exec_interpolated cs _ hreturn,
      h]
  obtain ⟨hresult, hfinal⟩ := final_of_exec_opening_error hopening
  exact ⟨hresult, hfinal⟩

/-- A run that interpolates its manifest goes on from there. -/
theorem interpolated_mem_steps {bytes : ByteArray} (h : interpolatedBytes request = .ok bytes)
    (hreturn : cs.allReturn w (loadCalls request.vars.sources) = true) :
    .interpolated ∈ (final cs request w false).steps := by
  rcases hopening : (opening cs request).exec { world := w } with ⟨e | m, t⟩
  · rw [(final_of_exec_opening_error hopening).2]
    rw [opening, exec_bind, exec_proceed, if_neg Bool.false_ne_true, exec_interpolated cs _ hreturn,
      h] at hopening
    simp only [exec_bind, exec_advance, exec_validated] at hopening
    cases hm : validManifest cs.deployment bytes with
    | error e =>
      rw [hm] at hopening
      obtain rfl := (Prod.mk.inj hopening).2
      exact List.mem_singleton_self _
    | ok m => simp [hm, Except.map] at hopening
  · obtain ⟨-, -, -, ht⟩ := exec_opening_eq_ok_iff.1 hopening
    have hmem : .interpolated ∈ t.steps := by
      rw [ht]
      exact List.mem_append_left _ (List.mem_singleton_self _)
    exact (steps_of_exec_opening hopening).subset hmem

/-- A run has interpolated its manifest if the variables can be loaded and every placeholder can be
replaced. -/
theorem interpolated_mem_steps_iff
    (hreturn : cs.allReturn w (loadCalls request.vars.sources) = true) :
    .interpolated ∈ (final cs request w false).steps ↔
      ∃ bytes, interpolatedBytes request = .ok bytes := by
  cases h : interpolatedBytes request with
  | error e =>
    rw [(execute_of_interpolatedBytes_error h hreturn).2]
    exact iff_of_false List.not_mem_nil nofun
  | ok bytes => exact iff_of_true (interpolated_mem_steps h hreturn) ⟨bytes, rfl⟩

/-- The manifest that a run shows has the bytes that interpolation gives. -/
theorem bytes_of_document {deployment : String} {bytes : ByteArray} {m : Manifest}
    (hbytes : interpolatedBytes request = .ok bytes) (hm : document deployment request = .ok m) :
    m.bytes = bytes := by
  rw [document, hbytes, ok_bind] at hm
  exact bytes_of_parse (validManifest_eq_ok_iff.1 hm).1

/-! ## The diff of a run -/

/-- What comes after a part of a run takes back none of its calls. -/
theorem calls_prefix_bind (cs : Collaborators σ) (plan : List Call) {m : RunM σ α}
    {f : α → RunM σ β} (h : ∀ a t, m.exec s = (.ok a, t) → Keeps cs (f a) t plan) :
    (m.exec s).2.calls <+: ((m >>= f).exec s).2.calls := by
  rw [exec_bind]
  rcases hm : m.exec s with ⟨e | a, t⟩
  · exact List.prefix_rfl
  · obtain ⟨made, hmade⟩ := h a t hm
    rw [hmade.leads.calls]
    exact List.prefix_append _ _

/-- A diff is asked for if the run has not been cancelled before. -/
theorem diff_mem_exec_presentDiff (manifest : ByteArray) (h : s.cancelled = false) :
    .diff manifest ∈ ((proceed (presentDiff cs manifest)).exec s).2.calls := by
  rw [exec_proceed, if_neg (by simp [h]), exec_presentDiff]
  exact List.mem_append_right _ List.mem_cons_self

/-- A run that gets past validation asks for the diff of its manifest. -/
theorem diff_mem_calls {m : Manifest} (h : document cs.deployment request = .ok m)
    (hcalm : Undisturbed cs request w) : .diff m.bytes ∈ calls cs request w false := by
  obtain ⟨bytes, hbytes, -⟩ := bind_eq_ok_iff.1 h
  have hreturn := hcalm.allReturn
  rw [Undisturbed, loadCalls_of_interpolatedBytes hbytes] at hcalm
  rw [loadCalls_of_interpolatedBytes hbytes] at hreturn
  obtain ⟨t, hopening, hcancelled⟩ : ∃ t : State σ,
      (opening cs request).exec { world := w } = (.ok m, t) ∧ t.cancelled = false :=
    ⟨_, exec_opening_eq_ok_iff.2 ⟨rfl, h, hreturn, rfl⟩, hcalm⟩
  have happroval : .diff m.bytes ∈ ((approval cs m).exec t).2.calls := by
    rw [approval]
    refine (calls_prefix_bind cs (.confirm :: (uploads m.releases).map .upload)
      fun _ u _ => ?_).subset (diff_mem_exec_presentDiff m.bytes hcancelled)
    exact keeps_advance.bind_of_nil fun _ v _ => keeps_confirmation m
  rw [calls_eq_exec, steps_eq, exec_bind, hopening]
  dsimp only
  refine (calls_prefix_bind cs [.update ⟨m.bytes, request.options⟩]
    fun summary u _ => ?_).subset happroval
  exact (keeps_commit _).bind_nil fun _ v => keeps_pure summary

/-! ## Runs at a desk -/

/-- Loading something makes no difference to a user who waits. -/
theorem load_of_patience (link : Director.Link σ) (deployment : String) {d : Desk σ}
    (h : d.terminal.patience = []) (source : String) :
    (Desk.collaborators link deployment).load source d = (.returned () false, d) := by
  obtain ⟨terminal, session⟩ := d
  obtain ⟨color, nonInteractive, input, patience, output, errors⟩ := terminal
  cases h
  rfl

/-- The same for any number of sources. -/
theorem after_of_patience (link : Director.Link σ) (deployment : String) {d : Desk σ}
    (h : d.terminal.patience = []) {calls : List Call}
    (hcalls : ∀ c ∈ calls, ∃ source, c = .load source) :
    (Desk.collaborators link deployment).after d calls = d ∧
      (Desk.collaborators link deployment).anyStruck d calls = false := by
  induction calls with
  | nil => exact ⟨rfl, rfl⟩
  | cons c calls ih =>
    obtain ⟨source, rfl⟩ := hcalls c List.mem_cons_self
    have hload := load_of_patience link deployment h source
    have hrest := ih fun c hc => hcalls c (List.mem_cons_of_mem _ hc)
    rw [Collaborators.after_cons, Collaborators.anyStruck_cons, Collaborators.act,
      Collaborators.struck, hload]
    exact hrest

/-- A user who waits does not disturb a run. -/
theorem undisturbed_of_patience {link : Director.Link σ} {deployment : String} {d : Desk σ}
    (h : d.terminal.patience = []) :
    Undisturbed (Desk.collaborators link deployment) request d := by
  have hloads : ∀ c ∈ loadCalls request.vars.sources, ∃ source, c = .load source :=
    fun c hc => exists_load_of_mem ((loadCalls_within request.vars.sources).subset hc)
  obtain ⟨hafter, hstruck⟩ := after_of_patience link deployment h hloads
  rw [Undisturbed, Collaborators.anyStruck_append, hstruck, hafter, Bool.false_or]
  simp [Collaborators.struck, Desk.collaborators, Desk.say, Desk.wait, h]

end Deploy

namespace Program

open Deploy CommandLine

variable {world : World} {path : String} {manifest : ByteArray} {vars : VariableArguments}
  {i j : Invocation}

/-! ## The two commands -/

/-- Printing a manifest loads the variables and replaces the placeholders as a run does. -/
theorem perform_interpolate (hmanifest : world.files path = some manifest)
    (hi : i.command = .interpolate path vars) (options : UpdateOptions) :
    (perform i world).1 = (discard (interpolatedBytes
        ⟨manifest, variableSet vars world.files, options⟩)).mapError .deploy ∧
      ∀ bytes, interpolatedBytes ⟨manifest, variableSet vars world.files, options⟩ = .ok bytes →
        (perform i world).2.1.output.toUTF8 = bytes := by
  have hfile : (File.mk path (world.files path)).manifest = .ok manifest := by
    rw [File.manifest, hmanifest]
  rw [perform, hi, interpolatedBytes]
  dsimp only
  rw [interpolateFile, hfile, ok_bind]
  cases loadAll (variableSet vars world.files) with
  | error e => exact ⟨rfl, fun _ h => by cases h⟩
  | ok resolved =>
    rw [mapError_ok, ok_bind, ok_bind]
    cases interpolate manifest resolved with
    | error e => exact ⟨rfl, fun _ h => by cases h⟩
    | ok text =>
      refine ⟨rfl, fun bytes h => ?_⟩
      obtain rfl := Except.ok.inj h
      simp [Terminal.write]

/-- Running against a connected director and reporting on it comes to what the run comes to. -/
theorem deployVia_eq {σ : Type} (link : Director.Link σ) (task : DeployTask) (manifest : ByteArray)
    (d : Desk σ) :
    (deployVia link task manifest d).1 = result (Desk.collaborators link task.deployment)
        ⟨manifest, task.vars, task.options⟩ d false ∧
      (deployVia link task manifest d).2.session = (final (Desk.collaborators link task.deployment)
        ⟨manifest, task.vars, task.options⟩ d false).world.session := by
  rw [deployVia, result, final]
  rcases execute (Desk.collaborators link task.deployment) ⟨manifest, task.vars, task.options⟩
    { world := d } with ⟨e | report, s⟩
  · exact ⟨rfl, rfl⟩
  · exact ⟨rfl, rfl⟩

/-- Deploying a manifest makes the run of its bytes, with the director of the configuration. -/
theorem perform_deploy {deployment : String} {options : UpdateOptions} {nonInteractive : Bool}
    {config : Config} {connection : Director.Connection}
    (hmanifest : world.files path = some manifest)
    (hj : j.command = .deploy path deployment vars options nonInteractive)
    (hconfig : Config.load j.config world.files world.environment = .ok config)
    (hconnection : Director.Connection.ofConfig
      (config.withFlags j.director nonInteractive).director = .ok connection) :
    ∃ desk : Desk Http.Wire, desk.session.world = world.director ∧ desk.terminal.patience = [] ∧
      (perform j world).1 = (discard (result (Desk.collaborators connection.link deployment)
        ⟨manifest, variableSet vars world.files, options⟩ desk false)).mapError .deploy ∧
      (perform j world).2.2 = (final (Desk.collaborators connection.link deployment)
        ⟨manifest, variableSet vars world.files, options⟩ desk false).world.session.world := by
  have hfile : (File.mk path (world.files path)).manifest = .ok manifest := by
    rw [File.manifest, hmanifest]
  let task : DeployTask := ⟨config.withFlags j.director nonInteractive, ⟨path, world.files path⟩,
    deployment, variableSet vars world.files, options⟩
  let header : Terminal := Terminal.showHeader
    { color := colorForced world.environment, input := world.input.data.toList }
    ("Deploy: " ++ deployment)
  let desk : Desk Http.Wire :=
    ⟨{ header with nonInteractive := task.config.nonInteractive }, { world := world.director }⟩
  have hperform : perform j world =
      ((discard (deployVia connection.link task manifest desk).1).mapError .deploy,
        (deployVia connection.link task manifest desk).2.terminal,
        (deployVia connection.link task manifest desk).2.session.world) := by
    rw [perform, hj]
    dsimp only
    rw [hconfig]
    dsimp only
    rw [deployFile]
    dsimp only
    rw [hfile]
    dsimp only
    rw [hconnection]
  obtain ⟨hresult, hsession⟩ := deployVia_eq connection.link task manifest desk
  refine ⟨desk, rfl, rfl, ?_, ?_⟩
  · rw [hperform, hresult]
  · rw [hperform, hsession]

/-! ## The main statement -/

/-- What a command has come to is a preview of a run. -/
structure Previews {σ : Type} (shown : Except CommandError Unit × Terminal × Http.Wire)
    (cs : Collaborators σ) (request : DeployRequest) (w : σ) : Prop where
  /-- The command has printed what the run gets from its interpolation, if either comes to an
  end. -/
  interpolated : ∀ bytes, (shown.1 = .ok () ∧ shown.2.1.output.toUTF8 = bytes) ↔
    .interpolated ∈ (final cs request w false).steps ∧
      ∃ t, (proceed (Deploy.interpolated cs request)).exec { world := w } = (.ok bytes, t)
  /-- A run that gets past validation asks for the diff of what has been printed, and nothing else
  is shown or applied. -/
  passedOn : shown.1 = .ok () →
    (.validated ∈ (final cs request w false).steps →
      .diff shown.2.1.output.toUTF8 ∈ calls cs request w false) ∧
    (∀ bytes, .diff bytes ∈ calls cs request w false → bytes = shown.2.1.output.toUTF8) ∧
    ∀ u, .update u ∈ calls cs request w false → u.manifest = shown.2.1.output.toUTF8
  /-- If the command has failed, the run fails with the same error. It only loads variables, and
  nothing else happens to the collaborators. -/
  failed : ∀ e, shown.1 = .error e →
    ∃ reason, e = .deploy reason ∧ result cs request w false = .error reason ∧
      (final cs request w false).world = cs.after w (calls cs request w false) ∧
      ∀ c ∈ calls cs request w false, ∃ source ∈ request.vars.sources, c = .load source.name

section Previews

variable {σ : Type} {shown : Except CommandError Unit × Terminal × Http.Wire}
  {cs : Collaborators σ} {request : DeployRequest} {w : σ}

/-- Where nothing has been printed, the run has only loaded variables. -/
theorem previews_of_error {e : DeployError} (hcalm : Undisturbed cs request w)
    (hshown : shown.1 = .error (.deploy e)) (hbytes : interpolatedBytes request = .error e) :
    Previews shown cs request w := by
  obtain ⟨hrun, hfinal⟩ := execute_of_interpolatedBytes_error hbytes hcalm.allReturn
  refine ⟨fun bytes => ?_, fun h => ?_, fun e' he' => ?_⟩
  · rw [interpolated_mem_steps_iff hcalm.allReturn, hshown]
    constructor
    · rintro ⟨h, -⟩
      cases h
    · rintro ⟨⟨b, hb⟩, -⟩
      cases hbytes.symm.trans hb
  · rw [hshown] at h
    cases h
  · obtain rfl := Except.error.inj (hshown.symm.trans he')
    refine ⟨e, rfl, hrun, by rw [calls, hfinal]; rfl, fun c hc => ?_⟩
    rw [calls, hfinal] at hc
    obtain ⟨source, hsource, rfl⟩ :=
      List.mem_map.1 ((loadCalls_within request.vars.sources).subset hc)
    exact ⟨source, hsource, rfl⟩

/-- Where the bytes that the run gets have been printed, it passes on no others. -/
theorem previews_of_ok {printed : ByteArray} (hcalm : Undisturbed cs request w)
    (hshown : shown.1 = .ok ()) (hprinted : shown.2.1.output.toUTF8 = printed)
    (hbytes : interpolatedBytes request = .ok printed) : Previews shown cs request w := by
  have hreturn := hcalm.allReturn
  rw [loadCalls_of_interpolatedBytes hbytes] at hreturn
  have hpassed : ∀ c ∈ calls cs request w false, ∀ bytes, manifest? c = some bytes →
      bytes = printed := by
    intro c hc bytes hcb
    obtain ⟨m, hm, rfl⟩ := document_of_mem_calls hc hcb
    exact bytes_of_document hbytes hm
  refine ⟨fun bytes => ?_, fun _ => ⟨fun hvalid => ?_, fun bytes hb => ?_, fun u hu => ?_⟩, ?_⟩
  · rw [hshown, hprinted, interpolated_mem_steps_iff hcalm.allReturn]
    constructor
    · rintro ⟨-, rfl⟩
      exact ⟨⟨printed, hbytes⟩, _, exec_interpolated_eq_ok_iff.2 ⟨rfl, hbytes, hreturn, rfl⟩⟩
    · rintro ⟨-, t, ht⟩
      obtain ⟨-, hbytes', -⟩ := exec_interpolated_eq_ok_iff.1 ht
      exact ⟨rfl, Except.ok.inj (hbytes.symm.trans hbytes')⟩
  · obtain ⟨-, -, m, hm⟩ := validated_mem_steps_iff.1 hvalid
    rw [hprinted, ← bytes_of_document hbytes hm]
    exact diff_mem_calls hm hcalm
  · rw [hprinted]
    exact hpassed _ hb _ rfl
  · rw [hprinted]
    exact hpassed _ hu _ rfl
  · rw [hshown]
    exact fun _ h => by cases h

end Previews

/-- The interpolate command previews every run that is not disturbed. -/
theorem previews_perform (hmanifest : world.files path = some manifest)
    (hi : i.command = .interpolate path vars) (options : UpdateOptions) {σ : Type}
    (cs : Collaborators σ) (w : σ)
    (hcalm : Undisturbed cs ⟨manifest, variableSet vars world.files, options⟩ w) :
    Previews (perform i world) cs ⟨manifest, variableSet vars world.files, options⟩ w := by
  obtain ⟨hresult, houtput⟩ := perform_interpolate hmanifest hi options
  cases hbytes : interpolatedBytes ⟨manifest, variableSet vars world.files, options⟩ with
  | error e =>
    rw [hbytes] at hresult
    exact previews_of_error hcalm hresult hbytes
  | ok printed =>
    rw [hbytes] at hresult
    exact previews_of_ok hcalm hresult (houtput printed hbytes) hbytes

/-- What the interpolate command does with a manifest and variables is a preview of every run on
that manifest with these variables that is not cancelled before it asks for the diff, whatever its
collaborators do: the command prints some bytes if and only if the run gets the same bytes from its
interpolation, and the run then passes on no others; if the command fails, the run fails with the
same error and has only loaded variables. The deploy command, with a configuration that can be used,
makes such a run, and if nothing can be printed, it fails as the interpolate command does and asks
the director for nothing. -/
theorem interpolate_previews_deploy (world : World) (path : String) (manifest : ByteArray)
    (vars : VariableArguments) (i : Invocation) (hmanifest : world.files path = some manifest)
    (hi : i.command = .interpolate path vars) :
    (∀ (options : UpdateOptions) (σ : Type) (cs : Collaborators σ) (w : σ),
      Undisturbed cs ⟨manifest, variableSet vars world.files, options⟩ w →
      Previews (perform i world) cs ⟨manifest, variableSet vars world.files, options⟩ w) ∧
    ∀ (j : Invocation) (deployment : String) (options : UpdateOptions) (nonInteractive : Bool)
      (config : Config) (connection : Director.Connection),
      j.command = .deploy path deployment vars options nonInteractive →
      Config.load j.config world.files world.environment = .ok config →
      Director.Connection.ofConfig (config.withFlags j.director nonInteractive).director =
        .ok connection →
      (∃ desk : Desk Http.Wire, desk.session.world = world.director ∧
        Undisturbed (Desk.collaborators connection.link deployment)
          ⟨manifest, variableSet vars world.files, options⟩ desk ∧
        (perform j world).1 = (discard (result (Desk.collaborators connection.link deployment)
          ⟨manifest, variableSet vars world.files, options⟩ desk false)).mapError .deploy) ∧
      ∀ e, (perform i world).1 = .error e →
        (perform j world).1 = .error e ∧ (perform j world).2.2 = world.director := by
  refine ⟨fun options σ cs w hcalm => previews_perform hmanifest hi options cs w hcalm, ?_⟩
  intro j deployment options nonInteractive config connection hj hconfig hconnection
  obtain ⟨desk, hdesk, hwaits, hresult, hwire⟩ := perform_deploy hmanifest hj hconfig hconnection
  have hcalm : Undisturbed (Desk.collaborators connection.link deployment)
      ⟨manifest, variableSet vars world.files, options⟩ desk := undisturbed_of_patience hwaits
  refine ⟨⟨desk, hdesk, hcalm, hresult⟩, fun e he => ?_⟩
  obtain ⟨reason, rfl, hrun, hworld, hloads⟩ := (previews_perform hmanifest hi options
    (Desk.collaborators connection.link deployment) desk hcalm).failed e he
  have hloaded : ∀ c ∈ calls (Desk.collaborators connection.link deployment)
      ⟨manifest, variableSet vars world.files, options⟩ desk false, ∃ source, c = .load source := by
    intro c hc
    obtain ⟨source, -, rfl⟩ := hloads c hc
    exact ⟨source.name, rfl⟩
  rw [hresult, hwire, hrun, hworld, (after_of_patience _ _ hwaits hloaded).1]
  exact ⟨rfl, hdesk⟩

/-- A manifest, a variables file, and a director that never answers. -/
def previewWorld : World where
  environment name := if name = "DIRECTOR_URL" then some "http://director" else none
  files path :=
    if path = "web.yml" then some "name: ((app))\nlogin: x-((db.user))\n".toUTF8
    else if path = "vars.yml" then some "db: \x7buser: admin\x7d\n".toUTF8
    else none
  input := .empty
  director := { replies := [] }

/-- One variable from a pair and the others from the file. -/
def previewVariables : VariableArguments := ⟨[⟨"app", .string "web"⟩], ["vars.yml"]⟩

/-- The invocation of a command on that manifest, with nothing else on the command line. -/
def bareInvocation (command : Command) : Invocation := ⟨command, false, none, none⟩

/-- The text that is printed is the one that a scripted run shows, and the deploy command makes a
run of it. -/
theorem interpolate_previews_deploy_sample :
    (perform (bareInvocation (.interpolate "web.yml" previewVariables)) previewWorld).2.1.output =
        "name: web\nlogin: x-admin\n" ∧
      .diff "name: web\nlogin: x-admin\n".toUTF8 ∈ calls sampleScript.collaborators
        ⟨"name: ((app))\nlogin: x-((db.user))\n".toUTF8,
          variableSet previewVariables previewWorld.files, {}⟩ {} false ∧
      ∃ connection : Director.Connection, ∃ desk : Desk Http.Wire,
        desk.session.world = previewWorld.director ∧
        (perform (bareInvocation (.deploy "web.yml" "web" previewVariables {} true))
          previewWorld).1 = (discard (result (Desk.collaborators connection.link "web")
            ⟨"name: ((app))\nlogin: x-((db.user))\n".toUTF8,
              variableSet previewVariables previewWorld.files, {}⟩ desk false)).mapError
                .deploy := by
  obtain ⟨hpreviews, hdeploy⟩ := interpolate_previews_deploy previewWorld "web.yml"
    "name: ((app))\nlogin: x-((db.user))\n".toUTF8 previewVariables
    (bareInvocation (.interpolate "web.yml" previewVariables)) rfl rfl
  have houtput : (perform (bareInvocation (.interpolate "web.yml" previewVariables))
      previewWorld).2.1.output = "name: web\nlogin: x-admin\n" := by decide +kernel
  have hok : (perform (bareInvocation (.interpolate "web.yml" previewVariables))
      previewWorld).1 = .ok () := toOption_eq_some_iff.1 (by decide +kernel)
  have hcalm : Undisturbed sampleScript.collaborators
      ⟨"name: ((app))\nlogin: x-((db.user))\n".toUTF8,
        variableSet previewVariables previewWorld.files, {}⟩ {} := by
    unfold Undisturbed
    decide +kernel
  have hdiff := ((hpreviews {} Script.Turn sampleScript.collaborators {} hcalm).passedOn hok).1
    (by decide +kernel)
  rw [houtput] at hdiff
  have hconnection : Director.Connection.ofConfig
      (((({} : Config).withEnvironment previewWorld.environment).withFlags none true).director) =
        .ok ⟨"http://director", .anonymous⟩ := toOption_eq_some_iff.1 (by decide +kernel)
  obtain ⟨⟨desk, hdesk, -, hrun⟩, -⟩ := hdeploy
    (bareInvocation (.deploy "web.yml" "web" previewVariables {} true)) "web" {} true _ _ rfl rfl
      hconnection
  exact ⟨houtput, hdiff, _, desk, hdesk, hrun⟩

end Program

end Rollout
