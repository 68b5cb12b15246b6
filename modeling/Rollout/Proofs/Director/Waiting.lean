import Mathlib.Data.List.Forall2
import Rollout.Director.Connection
import Rollout.Proofs.Director.Conversation

/-!
# Waiting for a task

A client that waits for a task asks for it until it hears of a task that has ended, or hears of none
at all. Each request asks for the task that the client has heard of last, which need not be the one
that it has begun with. The course of this is told from the way to the director alone (`Polling`):
the tasks that are heard of are all running but the last one, so that the last one is the first that
has ended. The main statement is `waitFor_stops_at_first_ended`: a client that waits makes just the
requests of such a course, and what it comes to is decided by what it hears last.
-/

namespace Rollout.Director

variable {σ : Type} {link : Link σ} {w : σ} {task t : Task} {earlier : List Task}
  {last : Except Halt Task}

/-! ## States of a task -/

namespace Task

/-- A task that has come to a bad end. -/
def HasFailed (t : Task) : Prop := t.state ∈ ["error", "cancelled", "timeout"]

/-- A task that has come to an end. In any other state, known or not, it is still running. -/
def HasEnded (t : Task) : Prop := t.state = "done" ∨ t.HasFailed

/-- The status of a task is failed exactly if the task has failed. -/
theorem status_eq_failed_iff : t.status = .failed ↔ t.HasFailed := by
  unfold status HasFailed
  split
  · next hdone => simp [hdone]
  · split
    · next h => simpa using h
    · next h => simpa using h

/-- A task that has not ended is running. -/
theorem status_eq_running_iff : t.status = .running ↔ ¬t.HasEnded := by
  unfold HasEnded
  rw [← status_eq_succeeded_iff, ← status_eq_failed_iff]
  cases t.status <;> simp

end Task

/-! ## What a client hears -/

/-- What a client hears of a task that it has asked for: the task, or why there is none. Only an
answer that reports success and has a task in its body tells of one. -/
inductive Hears : Http.Outcome → Except Halt Task → Prop
  | task {a : Http.Answer} {t : Task} (success : 200 ≤ a.status ∧ a.status ≤ 299)
    (body : Task.ofBody? a.body = some t) : Hears (.answered a) (.ok t)
  | refusal {a : Http.Answer} (failure : ¬(200 ≤ a.status ∧ a.status ≤ 299)) :
    Hears (.answered a) (.error (.failed (.status a.status a.body)))
  | noTask {a : Http.Answer} (success : 200 ≤ a.status ∧ a.status ≤ 299)
    (body : Task.ofBody? a.body = none) : Hears (.answered a) (.error (.failed .undecodable))
  | noAnswer (reason : Http.Failure) : Hears (.failed reason) (.error (.failed (.request reason)))
  | interruption : Hears .interrupted (.error .interrupted)

/-- What is heard of an answer is how it is judged. -/
theorem hears_iff {o : Http.Outcome} {heard : Except Halt Task} :
    Hears o heard ↔ judge Task.ofBody? o = heard := by
  have hsuccess (a : Http.Answer) : a.isSuccess = true ↔ 200 ≤ a.status ∧ a.status ≤ 299 := by
    simp [Http.Answer.isSuccess]
  constructor
  · intro h
    cases h with
    | task success body => simp [judge, (hsuccess _).2 success, body]
    | refusal failure => simp [judge, mt (hsuccess _).1 failure]
    | noTask success body => simp [judge, (hsuccess _).2 success, body]
    | noAnswer reason => rfl
    | interruption => rfl
  · rintro rfl
    cases o with
    | answered a =>
      unfold judge
      dsimp only
      split
      · next ha =>
        split
        · next t ht => exact .task ((hsuccess a).1 ha) ht
        · next hnone => exact .noTask ((hsuccess a).1 ha) hnone
      · next ha => exact .refusal (mt (hsuccess a).2 ha)
    | failed reason => exact .noAnswer reason
    | interrupted => exact .interruption

/-- The requests for some tasks. -/
def polls (ts : List Task) : List Request := ts.map (.task ·.id)

/-- All that is heard of: the earlier tasks, and what comes last. -/
def heardOf (earlier : List Task) (last : Except Halt Task) : List (Except Halt Task) :=
  earlier.map .ok ++ [last]

/-- The course of waiting for a task from the state `w` of the way to the director. The client
hears of the `earlier` tasks, the given one first, and then of the `last` one or of none; it asks
for each of the earlier ones and hears of the next. -/
structure Polling (link : Link σ) (w : σ) (task : Task) (earlier : List Task)
    (last : Except Halt Task) : Prop where
  given : (heardOf earlier last).head? = some (.ok task)
  heard : List.Forall₂ (fun x r => Hears x.outcome r) (link.heard w (polls earlier))
    (heardOf earlier last).tail
  running : ∀ t ∈ earlier, ¬t.HasEnded
  ended : ∀ t, last = .ok t → t.HasEnded

namespace Polling

/-! ## Steps of a course -/

/-- For a task that has ended the client does not ask. -/
theorem of_hasEnded (link : Link σ) (w : σ) (h : task.HasEnded) :
    Polling link w task [] (.ok task) where
  given := rfl
  heard := .nil
  running := List.forall_mem_nil _
  ended t ht := by
    obtain rfl := Except.ok.inj ht
    exact h

/-- The first request after which no task is heard of is the last one. -/
theorem of_error {e : Halt} (hrunning : ¬task.HasEnded)
    (hheard : Hears (link.exchange (.task task.id) w).1 (.error e)) :
    Polling link w task [task] (.error e) where
  given := rfl
  heard := .cons hheard .nil
  running := List.forall_mem_singleton.2 hrunning
  ended _ h := nomatch h

/-- After a running task the course goes on with the task that is heard of next. -/
theorem cons {next : Task} (hrunning : ¬task.HasEnded)
    (hheard : Hears (link.exchange (.task task.id) w).1 (.ok next))
    (hrest : Polling link (link.exchange (.task task.id) w).2 next earlier last) :
    Polling link w task (task :: earlier) last where
  given := rfl
  heard := by
    obtain ⟨rest, hrest'⟩ := List.head?_eq_some_iff.1 hrest.given
    have htail := hrest.heard
    rw [hrest', List.tail_cons] at htail
    change List.Forall₂ _ (_ :: _) (heardOf earlier last)
    rw [hrest']
    exact .cons hheard htail
  running := List.forall_mem_cons.2 ⟨hrunning, hrest.running⟩
  ended := hrest.ended

/-- A course without polls ends with the task itself. -/
theorem cases_nil (h : Polling link w task [] last) : last = .ok task ∧ task.HasEnded := by
  have hlast : last = .ok task := Option.some.inj h.given
  exact ⟨hlast, h.ended task hlast⟩

/-- A course that is not over goes on with a request for the task, after which either no task is
heard of or the next one. -/
theorem cases_cons (h : Polling link w task (t :: earlier) last) :
    t = task ∧ ¬task.HasEnded ∧
      ((∃ e, earlier = [] ∧ last = .error e ∧
        Hears (link.exchange (.task task.id) w).1 (.error e)) ∨
      ∃ next, Hears (link.exchange (.task task.id) w).1 (.ok next) ∧
        Polling link (link.exchange (.task task.id) w).2 next earlier last) := by
  obtain rfl : t = task := Except.ok.inj (Option.some.inj h.given)
  obtain ⟨hrunning, hearlier⟩ := List.forall_mem_cons.1 h.running
  refine ⟨rfl, hrunning, ?_⟩
  have hheard : List.Forall₂ _ (_ :: _) (heardOf earlier last) := h.heard
  obtain ⟨r, rest, hr, hrest, heq⟩ := List.forall₂_cons_left_iff.1 hheard
  rcases r with e | next
  · -- only what comes last can be an error
    left
    cases earlier with
    | nil =>
      obtain ⟨rfl, -⟩ := List.cons.inj heq
      exact ⟨e, rfl, rfl, hr⟩
    | cons t' earlier => exact nomatch (List.cons.inj heq).1
  · right
    refine ⟨next, hr, ?_, ?_, hearlier, h.ended⟩
    · rw [heq, List.head?_cons]
    · rw [heq, List.tail_cons]
      exact hrest

end Polling

/-! ## Waiting -/

/-- There is a course of waiting for every task. -/
theorem exists_polling (link : Link σ) (task : Task) (s : Session σ) :
    ∃ earlier last, Polling link s.world task earlier last := by
  fun_induction waitFor link task s with
  | case1 task s hstatus =>
    exact ⟨[], _, .of_hasEnded link _ (.inl (Task.status_eq_succeeded_iff.1 hstatus))⟩
  | case2 task s hstatus =>
    exact ⟨[], _, .of_hasEnded link _ (.inr (Task.status_eq_failed_iff.1 hstatus))⟩
  | case3 task s hstatus e t hask =>
    have hrunning := Task.status_eq_running_iff.1 hstatus
    exact ⟨[task], .error e, .of_error hrunning (hears_iff.2 (Prod.mk.inj hask).1)⟩
  | case4 task s hstatus next t hask ih =>
    obtain ⟨hheard, rfl⟩ := Prod.mk.inj hask
    obtain ⟨earlier, last, hrest⟩ := ih
    have hrunning := Task.status_eq_running_iff.1 hstatus
    exact ⟨task :: earlier, last, .cons hrunning (hears_iff.2 hheard) hrest⟩

/-- What waiting comes to, from what is heard last: only a task that is done is a success. -/
def concluded : Except Halt Task → Except Halt Task
  | .ok t =>
    if t.state = "done" then .ok t
    else .error (.failed (.taskFailed t.id t.state (t.result.getD "")))
  | .error e => .error e

/-- A task that has ended is not polled. -/
theorem waitFor_of_hasEnded (link : Link σ) (s : Session σ) (h : task.HasEnded) :
    waitFor link task s = (concluded (.ok task), s) := by
  rw [waitFor, concluded]
  by_cases hdone : task.state = "done"
  · rw [Task.status_eq_succeeded_iff.2 hdone, if_pos hdone]
  · rw [Task.status_eq_failed_iff.2 (h.resolve_left hdone), if_neg hdone]

/-- A client asks once for a task that is running, and goes on from what it hears. -/
theorem waitFor_of_running (s : Session σ) (h : ¬task.HasEnded) {heard : Except Halt Task}
    (hheard : Hears (link.exchange (.task task.id) s.world).1 heard) :
    waitFor link task s =
      let t : Session σ :=
        ⟨(link.exchange (.task task.id) s.world).2, s.requests ++ [.task task.id]⟩
      match heard with
      | .ok next => waitFor link next t
      | .error e => (.error e, t) := by
  have hask : (fetchTask link task.id).run.run s = (heard,
      ⟨(link.exchange (.task task.id) s.world).2, s.requests ++ [.task task.id]⟩) := by
    rw [← hears_iff.1 hheard]
    rfl
  rw [waitFor, Task.status_eq_running_iff.2 h]
  dsimp only
  split
  · next e t heq =>
    obtain ⟨rfl, rfl⟩ := Prod.mk.inj (hask.symm.trans heq)
    rfl
  · next next t heq =>
    obtain ⟨rfl, rfl⟩ := Prod.mk.inj (hask.symm.trans heq)
    rfl

/-- A client that waits makes the requests of the course. -/
theorem waitFor_of_polling {s : Session σ} (h : Polling link s.world task earlier last) :
    waitFor link task s =
      (concluded last, ⟨link.after s.world (polls earlier), s.requests ++ polls earlier⟩) := by
  induction earlier generalizing task s with
  | nil =>
    obtain ⟨rfl, hended⟩ := h.cases_nil
    rw [waitFor_of_hasEnded link s hended]
    simp [polls, Link.after]
  | cons t earlier ih =>
    obtain ⟨rfl, hrunning, ⟨e, rfl, rfl, hheard⟩ | ⟨next, hheard, hrest⟩⟩ := h.cases_cons
    · rw [waitFor_of_running s hrunning hheard]
      rfl
    · rw [waitFor_of_running s hrunning hheard]
      dsimp only
      rw [ih hrest]
      simp [polls, Link.after]

/-- No request fails because of a task, so such an error is not heard of. -/
theorem Hears.ne_taskFailed {o : Http.Outcome} {e : Halt} (h : Hears o (.error e)) (id : Nat)
    (state result : String) : e ≠ .failed (.taskFailed id state result) := by
  rintro rfl
  cases h

/-- An error of a poll does not tell of a failed task. -/
theorem Polling.ne_taskFailed {e : Halt} (h : Polling link w task earlier (.error e)) (id : Nat)
    (state result : String) : e ≠ .failed (.taskFailed id state result) := by
  induction earlier generalizing w task with
  | nil => exact nomatch h.cases_nil.1
  | cons t earlier ih =>
    obtain ⟨-, -, ⟨e', -, hlast, hheard⟩ | ⟨next, -, hrest⟩⟩ := h.cases_cons
    · obtain rfl := Except.error.inj hlast
      exact hheard.ne_taskFailed id state result
    · exact ih hrest

/-- Waiting succeeds with a task that is done. -/
theorem concluded_eq_ok_iff : concluded last = .ok t ↔ last = .ok t ∧ t.state = "done" := by
  rcases last with e | u
  · simp [concluded]
  · by_cases hdone : u.state = "done"
    · rw [concluded, if_pos hdone, Except.ok.injEq]
      constructor
      · rintro rfl
        exact ⟨rfl, hdone⟩
      · exact And.left
    · rw [concluded, if_neg hdone, Except.ok.injEq]
      constructor
      · intro h
        cases h
      · rintro ⟨rfl, h⟩
        exact absurd h hdone

/-- Waiting fails for a task exactly if the last task has failed. -/
theorem Polling.concluded_eq_taskFailed_iff (h : Polling link w task earlier last) {id : Nat}
    {state result : String} :
    concluded last = .error (.failed (.taskFailed id state result)) ↔
      ∃ t, last = .ok t ∧ t.HasFailed ∧ id = t.id ∧ state = t.state ∧
        result = t.result.getD "" := by
  rcases last with e | t
  · simp [concluded, h.ne_taskFailed id state result]
  · by_cases hdone : t.state = "done"
    · have hnot : ¬t.HasFailed := by simp [Task.HasFailed, hdone]
      simp [concluded, hdone, hnot]
    · have hfailed : t.HasFailed := (h.ended t rfl).resolve_left hdone
      simp [concluded, hdone, hfailed, eq_comm]

/-- Waiting for a task ends with the first task, from the given one on, that is done or has failed,
or with the first request after which no task is heard of. Until then the client has asked once for
each task that was still running, by the number of the task that it had heard of last, and for
nothing else. It returns the last task exactly if that is done, and fails with what is known of it
exactly if it has failed; if it has heard of no task, it fails for that reason. -/
theorem waitFor_stops_at_first_ended (link : Link σ) (task : Task) (s : Session σ) :
    (∃ earlier last, Polling link s.world task earlier last) ∧
    ∀ earlier last, Polling link s.world task earlier last →
      (waitFor link task s).2 =
        ⟨link.after s.world (polls earlier), s.requests ++ polls earlier⟩ ∧
      (∀ t, (waitFor link task s).1 = .ok t ↔ last = .ok t ∧ t.state = "done") ∧
      (∀ id state result,
        (waitFor link task s).1 = .error (.failed (.taskFailed id state result)) ↔
          ∃ t, last = .ok t ∧ t.HasFailed ∧ id = t.id ∧ state = t.state ∧
            result = t.result.getD "") ∧
      ∀ e, last = .error e → (waitFor link task s).1 = .error e := by
  refine ⟨exists_polling link task s, fun earlier last h => ?_⟩
  rw [waitFor_of_polling h]
  refine ⟨rfl, fun t => concluded_eq_ok_iff, fun id state result => ?_, fun e hlast => ?_⟩
  · exact h.concluded_eq_taskFailed_iff
  · rw [hlast]
    rfl

/-- A director that redirects the request for a task to another task, which takes a while and then
comes to a bad end. -/
def detour : Http.Wire where
  replies := [.answer 302 "" (some "/tasks/9"),
    .answer 200 "\x7b\"id\":9,\"state\":\"processing\"\x7d" none,
    .answer 200 "\x7b\"id\":9,\"state\":\"timeout\"\x7d" none]

/-- The way to that director. -/
def detourLink : Link Http.Wire := Connection.link ⟨"http://director", .anonymous⟩

/-- The redirection is followed within one request; the next request asks for the task that has
been told of, and the wait ends with its failure. -/
theorem waitFor_stops_at_first_ended_detour :
    Polling detourLink detour ⟨7, "queued", "", none⟩
        [⟨7, "queued", "", none⟩, ⟨9, "processing", "", none⟩]
        (.ok ⟨9, "timeout", "", none⟩) ∧
      (waitFor detourLink ⟨7, "queued", "", none⟩ ⟨detour, []⟩).1 =
        .error (.failed (.taskFailed 9 "timeout" "")) ∧
      (waitFor detourLink ⟨7, "queued", "", none⟩ ⟨detour, []⟩).2.requests =
        [.task 7, .task 9] := by
  have hpolling : Polling detourLink detour ⟨7, "queued", "", none⟩
      [⟨7, "queued", "", none⟩, ⟨9, "processing", "", none⟩]
      (.ok ⟨9, "timeout", "", none⟩) := by
    refine .cons (by simp [Task.HasEnded, Task.HasFailed]) (hears_iff.2 ?_)
      (.cons (by simp [Task.HasEnded, Task.HasFailed]) (hears_iff.2 ?_)
        (.of_hasEnded _ _ (.inr (by simp [Task.HasFailed]))))
    · exact toOption_eq_some_iff.1 (by decide +kernel)
    · exact toOption_eq_some_iff.1 (by decide +kernel)
  obtain ⟨hsession, -, hfailed, -⟩ :=
    (waitFor_stops_at_first_ended detourLink ⟨7, "queued", "", none⟩ ⟨detour, []⟩).2 _ _ hpolling
  refine ⟨hpolling, (hfailed _ _ _).2 ⟨_, rfl, by simp [Task.HasFailed], rfl, rfl, rfl⟩, ?_⟩
  rw [hsession]
  rfl

end Rollout.Director
