import Rollout.Proofs.Director.Waiting
import Rollout.Proofs.Json.ReadBack
import Rollout.Proofs.Version.Grammar

/-!
# The upload of a release

Whether a release is uploaded is decided by what the director lists. If its list has an entry with
the name and the version of the release, nothing else is asked of it; if its list has none, it is
asked once to fetch the release, and the upload is as good as the task that this begins; and without
a list nothing is uploaded. The main statement is `ensureRelease_follows_listing`, which compares
versions as the manifest writes them.

A request that begins a task and the requests for that task have a course of their own
(`Performing`), which goes on as a course of waiting.
-/

namespace Rollout.Director

variable {σ : Type} {link : Link σ} {s : Session σ} {w : σ} {r : Request} {earlier : List Task}
  {last : Except Halt Task}

/-! ## Requests that begin a task -/

/-- The course of a request that begins a task, from the state `w` of the way to the director.
Either no task is heard of, or the client waits for the one that it hears of; `earlier` are the
tasks that it asks for then. -/
inductive Performing (link : Link σ) (w : σ) (r : Request) :
    List Task → Except Halt Task → Prop
  | refused {e : Halt} (heard : Hears (link.exchange r w).1 (.error e)) :
    Performing link w r [] (.error e)
  | begun {task : Task} {earlier : List Task} {last : Except Halt Task}
    (heard : Hears (link.exchange r w).1 (.ok task))
    (waiting : Polling link (link.exchange r w).2 task earlier last) :
    Performing link w r earlier last

/-- There is a course for every request that begins a task. -/
theorem exists_performing (link : Link σ) (w : σ) (r : Request) :
    ∃ earlier last, Performing link w r earlier last := by
  cases hheard : judge Task.ofBody? (link.exchange r w).1 with
  | error e => exact ⟨[], .error e, .refused (hears_iff.2 hheard)⟩
  | ok task =>
    obtain ⟨earlier, last, hwaiting⟩ :=
      exists_polling link task ⟨(link.exchange r w).2, []⟩
    exact ⟨earlier, last, .begun (hears_iff.2 hheard) hwaiting⟩

/-- A question to the director is one request, and its answer is judged. -/
theorem run_ask {α : Type} (link : Link σ) (r : Request) (read : String → Option α)
    (s : Session σ) : (ask link r read).run.run s =
      (judge read (link.exchange r s.world).1,
        ⟨(link.exchange r s.world).2, s.requests ++ [r]⟩) :=
  rfl

/-- A client makes the request and then those of the wait. -/
theorem perform_of_performing (h : Performing link s.world r earlier last) :
    (perform link r).run.run s = (concluded last,
      ⟨link.after s.world (r :: polls earlier), s.requests ++ r :: polls earlier⟩) := by
  rw [perform, run_call_bind, run_ask]
  cases h with
  | refused heard =>
    rw [hears_iff.1 heard]
    rfl
  | begun heard waiting =>
    rw [hears_iff.1 heard]
    change waitFor link _ ⟨(link.exchange r s.world).2, s.requests ++ [r]⟩ = _
    rw [waitFor_of_polling waiting, List.append_assoc]
    rfl

/-- The requests for some tasks only read. -/
theorem method_of_mem_polls {ts : List Task} (h : r ∈ polls ts) : r.method = .get := by
  obtain ⟨t, -, rfl⟩ := List.mem_map.1 h
  rfl

/-! ## What the director lists -/

/-- The director lists some releases: its answer reports success and has the list in its body. -/
def Lists (o : Http.Outcome) (known : List KnownRelease) : Prop :=
  ∃ a, o = .answered a ∧ (200 ≤ a.status ∧ a.status ≤ 299) ∧
    KnownRelease.listOfBody? a.body = some known

/-- Some entry of a list has the given name and, among its versions, the given one. -/
def Knows (known : List KnownRelease) (name version : String) : Prop :=
  ∃ entry ∈ known, entry.name = name ∧ version ∈ entry.versions

/-- What an answer lists is how it is judged. -/
theorem lists_iff {o : Http.Outcome} {known : List KnownRelease} :
    Lists o known ↔ judge KnownRelease.listOfBody? o = .ok known := by
  simp [Lists, judge_eq_ok_iff, Http.Answer.isSuccess]

/-- A release is known exactly if it is found in the listing. -/
theorem knows_iff {known : List KnownRelease} {name version : String} :
    Knows known name version ↔ KnownRelease.has name version known = true := by
  simp [Knows, KnownRelease.has]

/-- Either the director lists some releases, or the client stops for an error. -/
theorem exists_lists_or_error (o : Http.Outcome) :
    (∃ known, Lists o known) ∨ ∃ e, judge KnownRelease.listOfBody? o = .error e := by
  cases h : judge KnownRelease.listOfBody? o with
  | ok known => exact .inl ⟨known, lists_iff.2 h⟩
  | error e => exact .inr ⟨e, rfl⟩

/-! ## What the director is sent -/

/-- A request that has the director fetch a release: it posts an object with the address and, if
there is one, the checksum, and with nothing else. -/
structure Posts (p : Request) (url : String) (sha1 : Option String) : Prop where
  method : p.method = .post
  path : p.path = "/releases"
  body : ∃ text members, p.body = some ⟨"application/json", text.toUTF8⟩ ∧
    Json.Value.ofText? text = some (.object members) ∧ (members.map (·.1)).Nodup ∧
    ∀ name v, (name, v) ∈ members ↔ name = some "location" ∧ v = .string (some url) ∨
      name = some "sha1" ∧ ∃ digest, sha1 = some digest ∧ v = .string (some digest)

/-- The request for an upload posts the address and the checksum. -/
theorem posts_uploadRelease (url : String) (sha1 : Option String) :
    Posts (.uploadRelease url sha1) url sha1 where
  method := rfl
  path := rfl
  body := by
    refine ⟨_, _, rfl, Json.ofText?_writeObject _, ?_, fun name v => ?_⟩
    · cases sha1 <;> simp [Json.member]
    · cases sha1 <;> simp [Json.member]

/-! ## Uploads -/

variable {q : UploadRequest} {known : List KnownRelease}

/-- Without a list the client stops. -/
theorem ensureRelease_of_error {e : Halt}
    (h : judge KnownRelease.listOfBody? (link.exchange .releases s.world).1 = .error e) :
    (ensureRelease link q).run.run s = (.error ⟨[], e⟩,
      ⟨(link.exchange .releases s.world).2, s.requests ++ [.releases]⟩) := by
  rw [ensureRelease, run_call_bind, run_call_adapt, hasRelease, run_call_map, releases,
    run_ask, h]
  rfl

/-- If the release is listed, the client stops. -/
theorem ensureRelease_of_knows (h : Lists (link.exchange .releases s.world).1 known)
    (hknows : Knows known q.name q.version.text) :
    (ensureRelease link q).run.run s = (.ok .alreadyPresent,
      ⟨(link.exchange .releases s.world).2, s.requests ++ [.releases]⟩) := by
  rw [ensureRelease, run_call_bind, run_call_adapt, hasRelease, run_call_map, releases,
    run_ask, lists_iff.1 h, map_ok, knows_iff.1 hknows]
  rfl

/-- If the release is not listed, the client has it uploaded and waits. -/
theorem ensureRelease_of_not_knows (h : Lists (link.exchange .releases s.world).1 known)
    (hknows : ¬Knows known q.name q.version.text)
    (hcourse : Performing link (link.exchange .releases s.world).2
      (.uploadRelease q.url q.sha1) earlier last) :
    (ensureRelease link q).run.run s =
      (((concluded last).mapError (⟨["Uploading release from " ++ q.url], ·⟩)).map
          fun _ => .uploaded,
        ⟨link.after s.world (.releases :: .uploadRelease q.url q.sha1 :: polls earlier),
          s.requests ++ .releases :: .uploadRelease q.url q.sha1 :: polls earlier⟩) := by
  have hhas : KnownRelease.has q.name q.version.text known = false :=
    Bool.eq_false_iff.2 (mt knows_iff.2 hknows)
  have hperform := perform_of_performing
    (s := ⟨(link.exchange .releases s.world).2, s.requests ++ [.releases]⟩) hcourse
  rw [ensureRelease, run_call_bind, run_call_adapt, hasRelease, run_call_map, releases,
    run_ask, lists_iff.1 h, map_ok, hhas]
  simp only [mapError_ok, Bool.false_eq_true, if_false]
  rw [run_call_bind, run_call_adapt, uploadRelease, hperform, List.append_assoc]
  cases concluded last <;> rfl

/-- An upload comes out well exactly if its task is done in the end. -/
theorem uploaded_iff {context : Halt → UploadHalt} :
    ((concluded last).mapError context).map (fun _ => UploadOutcome.uploaded) = .ok .uploaded ↔
      ∃ t, last = .ok t ∧ t.state = "done" := by
  simp only [map_eq_ok_iff, mapError_eq_ok_iff, concluded_eq_ok_iff, and_true]

/-- A release is already present exactly if it is listed. -/
theorem alreadyPresent_iff : ((ensureRelease link q).run.run s).1 = .ok .alreadyPresent ↔
    ∃ known, Lists (link.exchange .releases s.world).1 known ∧
      Knows known q.name q.version.text := by
  constructor
  · intro hpresent
    obtain ⟨known, hlists⟩ | ⟨e, he⟩ :=
      exists_lists_or_error (link.exchange .releases s.world).1
    · by_cases hknows : Knows known q.name q.version.text
      · exact ⟨known, hlists, hknows⟩
      · -- after an upload it is never already present
        obtain ⟨earlier, last, hcourse⟩ := exists_performing link
          (link.exchange .releases s.world).2 (.uploadRelease q.url q.sha1)
        rw [ensureRelease_of_not_knows hlists hknows hcourse] at hpresent
        obtain ⟨-, -, h⟩ := map_eq_ok_iff.1 hpresent
        cases h
    · rw [ensureRelease_of_error he] at hpresent
      cases hpresent
  · rintro ⟨known, hlists, hknows⟩
    rw [ensureRelease_of_knows hlists hknows]

/-- What the director lists decides about the upload of a release of a manifest. The release is
already present exactly if the director lists some releases and an entry of the list has the name
and, among its versions, the version of the release as the manifest writes it; then nothing but the
list is asked for. If the director lists some releases without such an entry, it is asked once to
fetch the release from its address, with the checksum if there is one, and after that the client
only reads the tasks that it waits for; the release is uploaded exactly if the last of them is done.
If the director does not list its releases, the upload fails, and nothing but the list is asked
for. -/
theorem ensureRelease_follows_listing (link : Link σ) (s : Session σ) {release : Release}
    (hq : release.uploadRequest? = .ok (some q)) :
    let listing := (link.exchange .releases s.world).1
    let run := (ensureRelease link q).run.run s
    (run.1 = .ok .alreadyPresent ↔
      ∃ known, Lists listing known ∧ Knows known release.name release.version) ∧
    (run.1 = .ok .alreadyPresent → run.2.requests = s.requests ++ [.releases]) ∧
    (∀ known, Lists listing known → ¬Knows known release.name release.version →
      ∃ url, release.url = some url ∧
        Posts (.uploadRelease url release.sha1) url release.sha1 ∧
        (∃ earlier last, Performing link (link.exchange .releases s.world).2
          (.uploadRelease url release.sha1) earlier last) ∧
        ∀ earlier last, Performing link (link.exchange .releases s.world).2
            (.uploadRelease url release.sha1) earlier last →
          run.2.requests =
            s.requests ++ .releases :: .uploadRelease url release.sha1 :: polls earlier ∧
          (∀ p ∈ polls earlier, p.method = .get) ∧
          (run.1 = .ok .uploaded ↔ ∃ t, last = .ok t ∧ t.state = "done")) ∧
    ((∀ known, ¬Lists listing known) →
      run.2.requests = s.requests ++ [.releases] ∧ ∃ e, run.1 = .error e) := by
  have hversion := Version.text_of_uploadRequest? hq
  obtain ⟨url, version, haddress, -, rfl⟩ := Deploy.uploadRequest?_eq_some_iff.1 hq
  obtain ⟨hurl, -⟩ := Option.filter_eq_some_iff.1 haddress
  dsimp only at hversion ⊢
  rw [← hversion]
  refine ⟨alreadyPresent_iff, fun hpresent => ?_, fun known hlists hknows => ?_, fun hnone => ?_⟩
  · obtain ⟨known, hlists, hknows⟩ := alreadyPresent_iff.1 hpresent
    rw [ensureRelease_of_knows hlists hknows]
  · refine ⟨url, hurl, posts_uploadRelease url release.sha1, exists_performing link _ _,
      fun earlier last hcourse => ?_⟩
    have hrun := ensureRelease_of_not_knows
      (q := ⟨release.name, url, release.sha1, version⟩) hlists hknows hcourse
    rw [hrun]
    exact ⟨rfl, fun p hp => method_of_mem_polls hp, uploaded_iff⟩
  · obtain ⟨known, hlists⟩ | ⟨e, he⟩ :=
      exists_lists_or_error (link.exchange .releases s.world).1
    · exact absurd hlists (hnone known)
    · rw [ensureRelease_of_error he]
      exact ⟨rfl, _, rfl⟩

/-- A release that the next director lists by its name and by its version, but not together. -/
def scatteredRelease : Release := ⟨"zk", some "f00", some "https://releases/zk.tgz", "1"⟩

/-- A director that has two entries for one name, neither with the version of the release as it is
written, and that takes a while to fetch the release. -/
def scattered : Http.Wire where
  replies := [.answer 200
      ("[\x7b\"name\":\"zk\"\x7d," ++
        "\x7b\"name\":\"zk\",\"release_versions\":[\x7b\"version\":\"01\"\x7d]\x7d," ++
        "\x7b\"name\":\"bpm\",\"release_versions\":[\x7b\"version\":\"1\"\x7d]\x7d]") none,
    .answer 200 "\x7b\"id\":7,\"state\":\"queued\"\x7d" none,
    .answer 200 "\x7b\"id\":7,\"state\":\"done\"\x7d" none]

/-- The way to that director. -/
def scatteredLink : Link Http.Wire := Connection.link ⟨"http://director", .anonymous⟩

/-- The release is fetched once, and the client asks for the task until that is done. -/
theorem ensureRelease_follows_listing_scattered :
    ∃ q, scatteredRelease.uploadRequest? = .ok (some q) ∧
      ((ensureRelease scatteredLink q).run.run ⟨scattered, []⟩).1 = .ok .uploaded ∧
      ((ensureRelease scatteredLink q).run.run ⟨scattered, []⟩).2.requests =
        [.releases, .uploadRelease "https://releases/zk.tgz" (some "f00"), .task 7] := by
  have hlists : Lists (scatteredLink.exchange .releases scattered).1
      [⟨"zk", []⟩, ⟨"zk", ["01"]⟩, ⟨"bpm", ["1"]⟩] :=
    lists_iff.2 (toOption_eq_some_iff.1 (by decide +kernel))
  have hknows : ¬Knows [⟨"zk", []⟩, ⟨"zk", ["01"]⟩, ⟨"bpm", ["1"]⟩] "zk" "1" := by
    simp [Knows]
  have hcourse : Performing scatteredLink (scatteredLink.exchange .releases scattered).2
      (.uploadRelease "https://releases/zk.tgz" (some "f00")) [⟨7, "queued", "", none⟩]
      (.ok ⟨7, "done", "", none⟩) := by
    refine .begun (hears_iff.2 ?_) (.cons (by simp [Task.HasEnded, Task.HasFailed])
      (hears_iff.2 ?_) (.of_hasEnded _ _ (.inl rfl)))
    · exact toOption_eq_some_iff.1 (by decide +kernel)
    · exact toOption_eq_some_iff.1 (by decide +kernel)
  have hq : scatteredRelease.uploadRequest? =
      .ok (some ⟨"zk", "https://releases/zk.tgz", some "f00", ⟨"1", none⟩⟩) := rfl
  obtain ⟨-, -, hupload, -⟩ := ensureRelease_follows_listing scatteredLink ⟨scattered, []⟩ hq
  obtain ⟨url, hurl, -, -, hrun⟩ := hupload _ hlists hknows
  obtain rfl := Option.some.inj hurl
  obtain ⟨hrequests, -, huploaded⟩ := hrun _ _ hcourse
  exact ⟨_, hq, huploaded.2 ⟨_, rfl, rfl⟩, hrequests⟩

end Rollout.Director
