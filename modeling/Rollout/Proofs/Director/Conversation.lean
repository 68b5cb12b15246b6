import Rollout.Director.Client
import Rollout.Proofs.Except

/-!
# Conversations with a director

The requests of some calls, each with what became of it, are a conversation. A call that begins a
task asks for the task as long as it is running (`TaskTalk`); a release is looked for in the list of
the director and is uploaded exactly if it is not there (`ReleaseTalk`). What the calls of a client
say is such a conversation (`perform_talk`, `ensureRelease_talk`), and a call succeeds only if the
conversation comes to a good end.

A conversation is told from the requests alone (`Link.heard`), since the way to the director decides
what becomes of them.
-/

namespace Rollout

/-- What the body of a successful answer is read as. -/
def Http.Outcome.read? {α : Type} (read : String → Option α) : Http.Outcome → Option α
  | .answered a => if a.isSuccess then read a.body else none
  | _ => none

namespace Director

/-- A request with what became of it. -/
structure Exchange where
  request : Request
  outcome : Http.Outcome
deriving DecidableEq

namespace Exchange

/-- The task that is answered. -/
def task? (x : Exchange) : Option Task := x.outcome.read? Task.ofBody?

/-- The list of releases that is answered. -/
def releases? (x : Exchange) : Option (List KnownRelease) :=
  x.outcome.read? KnownRelease.listOfBody?

/-- The diff that is answered. -/
def diff? (x : Exchange) : Option (List DiffLine) := x.outcome.read? diffOfBody?

/-- Whether a request has come out well: it has a successful answer that can be read as what was
asked for, and if that is a task, it has not failed. -/
def isGood (x : Exchange) : Bool :=
  match x.request with
  | .diff .. => x.diff?.isSome
  | .releases => x.releases?.isSome
  | .update .. | .uploadRelease .. | .task _ => x.task?.any (·.status ≠ .failed)

end Exchange

/-- Whether a request is answered by a task. -/
def Request.isOfTask : Request → Bool
  | .update .. | .uploadRelease .. | .task _ => true
  | .diff .. | .releases => false

/-- Whether a request begins the upload of a release. -/
def Request.isUpload : Request → Bool
  | .uploadRelease .. => true
  | .diff .. | .update .. | .releases | .task _ => false

/-- Whether a request begins an update. -/
def Request.isUpdate : Request → Bool
  | .update .. => true
  | .diff .. | .releases | .uploadRelease .. | .task _ => false

variable {σ : Type} {link : Link σ} {r : Request} {x : Exchange} {log : List Exchange}

/-! ## Tasks and releases -/

/-- A request that begins a task, and then requests for that task as long as it is running. `last`
is the task in the last answer. -/
inductive TaskTalk : Request → List Exchange → Option Task → Prop
  | ended {r : Request} {x : Exchange} (asked : x.request = r)
    (stopped : ∀ t, x.task? = some t → t.status ≠ .running) : TaskTalk r [x] x.task?
  | polled {r : Request} {x : Exchange} {t : Task} {log : List Exchange} {last : Option Task}
    (asked : x.request = r) (answer : x.task? = some t) (running : t.status = .running)
    (rest : TaskTalk (.task t.id) log last) : TaskTalk r (x :: log) last

/-- A conversation about a task that ends when the task is done. -/
def TaskDone (r : Request) (log : List Exchange) : Prop :=
  ∃ t, TaskTalk r log (some t) ∧ t.state = "done"

/-- Exactly the tasks in the state `done` have succeeded. -/
theorem Task.status_eq_succeeded_iff {t : Task} : t.status = .succeeded ↔ t.state = "done" := by
  rw [Task.status]
  split
  · simp [*]
  · split <;> simp [*]

/-- A conversation about a release at an address: the list of releases, and if the release is not
there in its version, its upload. -/
inductive ReleaseTalk (name version url : String) (sha1 : Option String) :
    List Exchange → Prop
  | unanswered {x : Exchange} (asked : x.request = .releases) (answer : x.releases? = none) :
    ReleaseTalk name version url sha1 [x]
  | present {x : Exchange} {known : List KnownRelease} (asked : x.request = .releases)
    (answer : x.releases? = some known) (listed : KnownRelease.has name version known = true) :
    ReleaseTalk name version url sha1 [x]
  | upload {x : Exchange} {known : List KnownRelease} {log : List Exchange} {last : Option Task}
    (asked : x.request = .releases) (answer : x.releases? = some known)
    (unlisted : KnownRelease.has name version known = false)
    (rest : TaskTalk (.uploadRelease url sha1) log last) :
    ReleaseTalk name version url sha1 (x :: log)

/-- A conversation about a release after which the director has it. -/
inductive ReleaseReady (name version url : String) (sha1 : Option String) :
    List Exchange → Prop
  | present {x : Exchange} {known : List KnownRelease} (asked : x.request = .releases)
    (answer : x.releases? = some known) (listed : KnownRelease.has name version known = true) :
    ReleaseReady name version url sha1 [x]
  | uploaded {x : Exchange} {known : List KnownRelease} {log : List Exchange}
    (asked : x.request = .releases) (answer : x.releases? = some known)
    (unlisted : KnownRelease.has name version known = false)
    (done : TaskDone (.uploadRelease url sha1) log) :
    ReleaseReady name version url sha1 (x :: log)

/-! ## Conversations that end well -/

/-- All requests of a conversation but the last have come out well. -/
def Orderly (log : List Exchange) : Prop := ∀ x ∈ log.dropLast, x.isGood = true

/-- A single exchange is in order. -/
theorem orderly_singleton (x : Exchange) : Orderly [x] := fun _ h => nomatch h

/-- A request that has come out well may be followed by a conversation that goes well. -/
theorem Orderly.cons (h : Orderly log) (hx : x.isGood = true) : Orderly (x :: log) := by
  cases log with
  | nil => exact orderly_singleton x
  | cons y log =>
    intro z hz
    rcases List.mem_cons.1 hz with rfl | hz
    · exact hx
    · exact h z hz

/-- A conversation in which everything has come out well may be followed by one that goes well. -/
theorem Orderly.append {log' : List Exchange} (h : Orderly log')
    (hlog : ∀ x ∈ log, x.isGood = true) : Orderly (log ++ log') := by
  induction log with
  | nil => exact h
  | cons x log ih =>
    exact (ih fun y hy => hlog y (List.mem_cons_of_mem _ hy)).cons (hlog x List.mem_cons_self)

/-- Nothing follows a request that has not come out well. -/
theorem Orderly.eq_nil (h : Orderly log) {before after : List Exchange}
    (hlog : log = before ++ x :: after) (hx : x.isGood = false) : after = [] := by
  cases after with
  | nil => rfl
  | cons y after =>
    have hmem : x ∈ log.dropLast := by
      rw [hlog, List.dropLast_append_of_ne_nil (by simp), List.dropLast_cons_cons]
      exact List.mem_append_right _ List.mem_cons_self
    rw [h x hmem] at hx
    cases hx

/-- A request that has been answered by a task that has not failed has come out well. -/
theorem isGood_of_task {t : Task} (hr : x.request.isOfTask = true) (ht : x.task? = some t)
    (hstatus : t.status ≠ .failed) : x.isGood = true := by
  obtain ⟨request, outcome⟩ := x
  cases request with
  | diff deployment manifest => cases hr
  | releases => cases hr
  | update manifest options => simp [Exchange.isGood, ht, hstatus]
  | uploadRelease url sha1 => simp [Exchange.isGood, ht, hstatus]
  | task id => simp [Exchange.isGood, ht, hstatus]

/-- A list of releases that can be read has come out well. -/
theorem isGood_of_releases {known : List KnownRelease} (hr : x.request = .releases)
    (hknown : x.releases? = some known) : x.isGood = true := by
  simp [Exchange.isGood, hr, hknown]

/-- The exchanges about a task are in order. -/
theorem TaskTalk.orderly {last : Option Task} (h : TaskTalk r log last)
    (hr : r.isOfTask = true) : Orderly log := by
  induction h with
  | ended asked stopped => exact orderly_singleton _
  | polled asked answer running rest ih =>
    have hstatus : _ ≠ TaskStatus.failed := fun hfailed => nomatch running.symm.trans hfailed
    exact (ih rfl).cons (isGood_of_task (by rw [asked, hr]) answer hstatus)

/-- In a conversation that ends with a task that has not failed, everything has come out well. -/
theorem TaskTalk.isGood {last : Option Task} {t : Task} (h : TaskTalk r log last)
    (hr : r.isOfTask = true) (hlast : last = some t) (ht : t.status ≠ .failed) :
    ∀ x ∈ log, x.isGood = true := by
  induction h with
  | ended asked stopped =>
    intro x hx
    obtain rfl := List.mem_singleton.1 hx
    exact isGood_of_task (by rw [asked, hr]) hlast ht
  | polled asked answer running rest ih =>
    intro x hx
    rcases List.mem_cons.1 hx with rfl | hx
    · have hstatus : _ ≠ TaskStatus.failed := fun hfailed => nomatch running.symm.trans hfailed
      exact isGood_of_task (by rw [asked, hr]) answer hstatus
    · exact ih rfl hlast x hx

/-- Every answer in the exchanges about a task that is done is good. -/
theorem TaskDone.isGood (h : TaskDone r log) (hr : r.isOfTask = true) :
    ∀ x ∈ log, x.isGood = true := by
  obtain ⟨t, htalk, hdone⟩ := h
  have hstatus : t.status ≠ .failed := by simp [Task.status_eq_succeeded_iff.2 hdone]
  exact htalk.isGood hr rfl hstatus

variable {name version url : String} {sha1 : Option String}

/-- The exchanges about a release are in order. -/
theorem ReleaseTalk.orderly (h : ReleaseTalk name version url sha1 log) : Orderly log := by
  cases h with
  | unanswered => exact orderly_singleton _
  | present => exact orderly_singleton _
  | upload asked answer unlisted rest =>
    exact (rest.orderly rfl).cons (isGood_of_releases asked answer)

/-- Every answer in the exchanges about a release that is ready is good. -/
theorem ReleaseReady.isGood (h : ReleaseReady name version url sha1 log) :
    ∀ x ∈ log, x.isGood = true := by
  cases h with
  | present asked answer listed =>
    intro x hx
    obtain rfl := List.mem_singleton.1 hx
    exact isGood_of_releases asked answer
  | uploaded asked answer unlisted done =>
    intro x hx
    rcases List.mem_cons.1 hx with rfl | hx
    · exact isGood_of_releases asked answer
    · exact done.isGood rfl x hx

/-! ## Uploads and their tasks -/

/-- A conversation about a task begins with the request for it, and all that follows are polls. -/
theorem TaskTalk.requests {last : Option Task} (h : TaskTalk r log last) :
    ∃ x polls, log = x :: polls ∧ x.request = r ∧ ∀ y ∈ polls, ∃ id, y.request = .task id := by
  induction h with
  | ended asked stopped => exact ⟨_, [], rfl, asked, fun y hy => nomatch hy⟩
  | polled asked answer running rest ih =>
    obtain ⟨y, polls, rfl, hy, hpolls⟩ := ih
    refine ⟨_, y :: polls, rfl, asked, fun z hz => ?_⟩
    rcases List.mem_cons.1 hz with rfl | hz
    · exact ⟨_, hy⟩
    · exact hpolls z hz

/-- There is no update in a conversation about a release. -/
theorem ReleaseTalk.isUpdate (h : ReleaseTalk name version url sha1 log) :
    ∀ x ∈ log, x.request.isUpdate = false := by
  cases h with
  | unanswered asked answer => simp [asked, Request.isUpdate]
  | present asked answer listed => simp [asked, Request.isUpdate]
  | upload asked answer unlisted rest =>
    obtain ⟨y, polls, rfl, hy, hpolls⟩ := rest.requests
    intro z hz
    rcases List.mem_cons.1 hz with rfl | hz
    · rw [asked, Request.isUpdate]
    rcases List.mem_cons.1 hz with rfl | hz
    · rw [hy, Request.isUpdate]
    · obtain ⟨id, hid⟩ := hpolls z hz
      rw [hid, Request.isUpdate]

/-- A conversation after which the director has a release is one about the release. -/
theorem ReleaseReady.talk (h : ReleaseReady name version url sha1 log) :
    ReleaseTalk name version url sha1 log := by
  cases h with
  | present asked answer listed => exact .present asked answer listed
  | uploaded asked answer unlisted done =>
    obtain ⟨t, htalk, -⟩ := done
    exact .upload asked answer unlisted htalk

/-- Every upload that is begun is followed by the polls of its task, which end with the task
done. -/
def UploadsDone (log : List Exchange) : Prop :=
  ∀ before x after, log = before ++ x :: after → x.request.isUpload = true →
    ∃ polls rest, after = polls ++ rest ∧ TaskDone x.request (x :: polls)

/-- Where no upload is begun, none is left undone. -/
theorem uploadsDone_of_isUpload (log : List Exchange)
    (h : ∀ x ∈ log, x.request.isUpload = false) : UploadsDone log := by
  rintro before x after rfl hx
  rw [h x (List.mem_append_right _ List.mem_cons_self)] at hx
  cases hx

/-- Uploads that are done stay so after others that are done. -/
theorem UploadsDone.append {log' : List Exchange} (h : UploadsDone log) (h' : UploadsDone log') :
    UploadsDone (log ++ log') := by
  intro before x after hlog hx
  rcases List.append_eq_append_iff.1 hlog with ⟨middle, -, hsecond⟩ | ⟨middle, hfirst, hafter⟩
  · exact h' middle x after hsecond hx
  · cases middle with
    | nil => exact h' [] x after hafter.symm hx
    | cons y middle =>
      obtain ⟨rfl, rfl⟩ := List.cons.inj hafter
      obtain ⟨polls, rest, rfl, hdone⟩ := h before x middle hfirst hx
      exact ⟨polls, rest ++ log', List.append_assoc _ _ _, hdone⟩

/-- An upload whose task is done leaves no other upload undone. -/
theorem TaskDone.uploadsDone (h : TaskDone r log) : UploadsDone log := by
  obtain ⟨t, htalk, hdone⟩ := h
  obtain ⟨x, polls, rfl, hx, hpolls⟩ := htalk.requests
  intro before y after hlog hy
  cases before with
  | nil =>
    obtain ⟨rfl, rfl⟩ := List.cons.inj hlog
    refine ⟨polls, [], (List.append_nil _).symm, t, ?_, hdone⟩
    rw [hx]
    exact htalk
  | cons z before =>
    have hmem : y ∈ polls := by
      rw [(List.cons.inj hlog).2]
      exact List.mem_append_right _ List.mem_cons_self
    obtain ⟨id, hid⟩ := hpolls y hmem
    rw [hid] at hy
    cases hy

/-- In the exchanges about a release that is ready, its upload is done. -/
theorem ReleaseReady.uploadsDone (h : ReleaseReady name version url sha1 log) :
    UploadsDone log := by
  cases h with
  | present asked answer listed =>
    exact uploadsDone_of_isUpload [_] (by simp [asked, Request.isUpload])
  | uploaded asked answer unlisted done =>
    exact (uploadsDone_of_isUpload [_] (by simp [asked, Request.isUpload])).append
      done.uploadsDone

/-! ## What a client says -/

/-- The state of the way to the director after some requests. -/
def Link.after (link : Link σ) (w : σ) (rs : List Request) : σ :=
  rs.foldl (fun w r => (link.exchange r w).2) w

/-- What becomes of some requests that are made one after the other. -/
def Link.heard (link : Link σ) : σ → List Request → List Exchange
  | _, [] => []
  | w, r :: rs => ⟨r, (link.exchange r w).1⟩ :: link.heard (link.exchange r w).2 rs

/-- What is heard of the requests of two lists is heard of one and then of the other. -/
theorem Link.heard_append (w : σ) (rs rs' : List Request) :
    link.heard w (rs ++ rs') = link.heard w rs ++ link.heard (link.after w rs) rs' := by
  induction rs generalizing w with
  | nil => rfl
  | cons r rs ih =>
    rw [List.cons_append, heard, heard, ih]
    rfl

/-- The calls that lead from one state to another have this conversation with the director. -/
structure Says (link : Link σ) (s t : Session σ) (log : List Exchange) : Prop where
  requests : t.requests = s.requests ++ log.map (·.request)
  heard : link.heard s.world (log.map (·.request)) = log
  world : t.world = link.after s.world (log.map (·.request))

variable {s t u : Session σ}

/-- Nothing is said between a session and itself. -/
theorem Says.refl (s : Session σ) : Says link s s [] where
  requests := (List.append_nil _).symm
  heard := rfl
  world := rfl

/-- One conversation after the other is a conversation. -/
theorem Says.trans {log' : List Exchange} (h : Says link s t log) (h' : Says link t u log') :
    Says link s u (log ++ log') where
  requests := by rw [h'.requests, h.requests, List.append_assoc, List.map_append]
  heard := by
    have hheard : link.heard (link.after s.world (log.map (·.request)))
        (log'.map (·.request)) = log' := by
      rw [← h.world]
      exact h'.heard
    rw [List.map_append, Link.heard_append, h.heard, hheard]
  world := by
    rw [h'.world, h.world, List.map_append, Link.after, Link.after, Link.after, List.foldl_append]

/-- A request succeeds with what its answer is read as. -/
theorem toOption_judge {α : Type} (read : String → Option α) (o : Http.Outcome) :
    (judge read o).toOption = o.read? read := by
  cases o with
  | answered a =>
    cases ha : a.isSuccess with
    | false => simp [judge, Http.Outcome.read?, ha, Except.toOption]
    | true => cases hr : read a.body <;> simp [judge, Http.Outcome.read?, ha, hr, Except.toOption]
  | failed reason => rfl
  | interrupted => rfl

/-- A request that is made is a conversation of one exchange. -/
theorem ask_talk {α : Type} (link : Link σ) (r : Request) (read : String → Option α)
    (s : Session σ) :
    ∃ x : Exchange, x.request = r ∧ Says link s ((ask link r read).run.run s).2 [x] ∧
      x.outcome.read? read = ((ask link r read).run.run s).1.toOption :=
  ⟨⟨r, (link.exchange r s.world).1⟩, rfl, ⟨rfl, rfl, rfl⟩, (toOption_judge read _).symm⟩

/-- After an answer with a task, the client asks for the task as long as it is running. -/
theorem waitFor_talk (link : Link σ) (task : Task) (s : Session σ) :
    ∃ log last, Says link s (waitFor link task s).2 log ∧
      (∀ r x, x.request = r → x.task? = some task → TaskTalk r (x :: log) last) ∧
      ∀ t, (waitFor link task s).1 = .ok t → last = some t ∧ t.status = .succeeded := by
  -- a task that is not running ends the conversation
  have hended : ∀ {task : Task}, task.status ≠ .running → ∀ r x, x.request = r →
      x.task? = some task → TaskTalk r [x] (some task) := by
    intro task hstatus r x hr hx
    rw [← hx]
    refine .ended hr fun t ht => ?_
    obtain rfl := Option.some.inj (hx.symm.trans ht)
    exact hstatus
  fun_induction waitFor link task s with
  | case1 task s hstatus =>
    refine ⟨[], some task, .refl s, hended (by simp [hstatus]), fun t ht => ?_⟩
    obtain rfl := Except.ok.inj ht
    exact ⟨rfl, hstatus⟩
  | case2 task s hstatus =>
    exact ⟨[], some task, .refl s, hended (by simp [hstatus]), fun t ht => nomatch ht⟩
  | case3 task s hstatus e t hask =>
    obtain ⟨y, hy, hsays, hread⟩ := ask_talk link (.task task.id) Task.ofBody? s
    rw [fetchTask] at hask
    rw [hask] at hsays hread
    have hnone : y.task? = none := hread
    refine ⟨_, none, hsays, fun r x hr hx => ?_, fun t ht => nomatch ht⟩
    refine .polled hr hx hstatus ?_
    rw [← hnone]
    exact .ended hy fun t ht => nomatch hnone.symm.trans ht
  | case4 task s hstatus task' t hask ih =>
    obtain ⟨y, hy, hsays, hread⟩ := ask_talk link (.task task.id) Task.ofBody? s
    rw [fetchTask] at hask
    rw [hask] at hsays hread
    obtain ⟨log, last, hrest, htalk, hok⟩ := ih
    refine ⟨_, last, hsays.trans hrest, fun r x hr hx => ?_, hok⟩
    exact .polled hr hx hstatus (htalk _ y hy hread)

/-- The second part of a call runs from the state that the first part leaves, unless that fails. -/
theorem run_call_bind {ε α β : Type} (m : ExceptT ε (StateM (Session σ)) α)
    (f : α → ExceptT ε (StateM (Session σ)) β) (s : Session σ) :
    (m >>= f).run.run s =
      match m.run.run s with
      | (.ok a, t) => (f a).run.run t
      | (.error e, t) => (.error e, t) := by
  rw [ExceptT.run_bind, StateT.run_bind]
  rcases m.run.run s with ⟨_ | a, t⟩ <;> rfl

/-- A function of the outcome leaves the requests as they are. -/
theorem run_call_map {ε α β : Type} (f : α → β) (m : ExceptT ε (StateM (Session σ)) α)
    (s : Session σ) :
    (f <$> m).run.run s = ((m.run.run s).1.map f, (m.run.run s).2) := by
  rw [map_eq_pure_bind, run_call_bind]
  rcases m.run.run s with ⟨_ | a, t⟩ <;> rfl

/-- The context that is put in front of its errors does not change what a call does. -/
theorem run_call_adapt {ε ε' α : Type} (f : ε → ε') (m : ExceptT ε (StateM (Session σ)) α)
    (s : Session σ) :
    (m.adapt f).run.run s = ((m.run.run s).1.mapError f, (m.run.run s).2) := by
  change ((Except.mapError f <$> m.run : StateM (Session σ) (Except ε' α)).run s) = _
  rw [StateT.run_map]
  rfl

/-- A request that begins a task and the wait for its end are a conversation about the task, and
they succeed only if it ends well. -/
theorem perform_talk (link : Link σ) (r : Request) (s : Session σ) :
    ∃ log last, Says link s ((perform link r).run.run s).2 log ∧ TaskTalk r log last ∧
      ∀ t, ((perform link r).run.run s).1 = .ok t → TaskDone r log := by
  obtain ⟨x, hx, hsays, hread⟩ := ask_talk link r Task.ofBody? s
  rw [perform, run_call_bind]
  generalize (ask link r Task.ofBody?).run.run s = y at hsays hread ⊢
  obtain ⟨e | task, t⟩ := y
  · have hnone : x.task? = none := hread
    have htalk : TaskTalk r [x] x.task? := .ended hx fun t ht => nomatch hnone.symm.trans ht
    exact ⟨_, _, hsays, htalk, fun t ht => nomatch ht⟩
  · obtain ⟨log, last, hrest, htalk, hok⟩ := waitFor_talk link task t
    refine ⟨_, last, hsays.trans hrest, htalk r x hx hread, fun t' ht' => ?_⟩
    obtain ⟨rfl, hstatus⟩ := hok t' ht'
    exact ⟨t', htalk r x hx hread, Task.status_eq_succeeded_iff.1 hstatus⟩

/-- What comes of a release is a conversation about the release, and it succeeds only if the
director has the release in the end. -/
theorem ensureRelease_talk (link : Link σ) (q : UploadRequest) (s : Session σ) :
    ∃ log, Says link s ((ensureRelease link q).run.run s).2 log ∧
      ReleaseTalk q.name q.version.text q.url q.sha1 log ∧
      ∀ outcome, ((ensureRelease link q).run.run s).1 = .ok outcome →
        ReleaseReady q.name q.version.text q.url q.sha1 log := by
  obtain ⟨x, hx, hsays, hread⟩ := ask_talk link .releases KnownRelease.listOfBody? s
  rw [ensureRelease, run_call_bind, run_call_adapt, hasRelease, run_call_map, releases]
  generalize (ask link .releases KnownRelease.listOfBody?).run.run s = y at hsays hread ⊢
  obtain ⟨e | known, t⟩ := y
  · exact ⟨_, hsays, .unanswered hx hread, fun t ht => nomatch ht⟩
  · have hsome : x.releases? = some known := hread
    cases hhas : KnownRelease.has q.name q.version.text known with
    | true =>
      simp only [map_ok, mapError_ok, hhas, if_true]
      exact ⟨_, hsays, .present hx hsome hhas, fun _ _ => .present hx hsome hhas⟩
    | false =>
      obtain ⟨log, last, hrest, htalk, hok⟩ := perform_talk link (.uploadRelease q.url q.sha1) t
      simp only [map_ok, mapError_ok, hhas, Bool.false_eq_true, if_false, run_call_bind,
        run_call_adapt, uploadRelease]
      generalize (perform link (.uploadRelease q.url q.sha1)).run.run t = z at hrest hok ⊢
      obtain ⟨e | task, u⟩ := z
      · refine ⟨_, hsays.trans hrest, .upload hx hsome hhas htalk, fun _ h => nomatch h⟩
      · refine ⟨_, hsays.trans hrest, .upload hx hsome hhas htalk, fun _ _ => ?_⟩
        exact .uploaded hx hsome hhas (hok task rfl)

end Director

end Rollout
