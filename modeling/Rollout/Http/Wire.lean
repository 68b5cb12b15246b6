import Rollout.Http.Message
import Rollout.Http.Url

/-!
# Requests on the wire

How a request goes to a server and comes back: redirects are followed up to ten times, and the
credentials go along only as long as the server stays the same. The server is one whose replies are
all given in advance; after the last one it answers every request with an error.
-/

namespace Rollout.Http

/-- A request as it stands on the wire. -/
structure Sent where
  method : Method
  /-- The path with its query. -/
  target : String
  /-- The credentials in its headers, in order. -/
  authorizations : List String
  body : Option Body
deriving DecidableEq

/-- The credentials that a server takes which looks at one header only. -/
def Sent.authorization (s : Sent) : Option String := s.authorizations.head?

/-- What a server does with a request. -/
inductive Reply where
  | answer (status : Nat) (body : String) (location : Option String)
  /-- The connection is closed without an answer. -/
  | close
  /-- The answer never comes, and the user interrupts the program. -/
  | interrupt
deriving DecidableEq, Repr

/-- A server with the replies that it will give, and the requests that it has got. -/
structure Wire where
  replies : List Reply
  sent : List Sent := []

/-- The reply to every request after the last given one. -/
def exhausted : Reply := .answer 500 "script exhausted" none

/-- The next reply. -/
def Wire.next (w : Wire) : Reply := w.replies.head?.getD exhausted

/-- The server after a request. -/
def Wire.after (w : Wire) (r : Sent) : Wire := ⟨w.replies.tail, w.sent ++ [r]⟩

/-- A request together with its address. -/
structure Message where
  method : Method
  url : Url
  /-- The credentials in its headers, in order. -/
  authorizations : List String
  body : Option Body

namespace Message

/-- A message as it stands on the wire. Blanks at the ends of a header do not belong to it. -/
def sent (m : Message) : Sent :=
  let bare (cs : List Char) := cs.dropWhile fun c => c = ' ' ∨ c = '\t'
  let authorizations := m.authorizations.map fun s =>
    String.ofList (bare (bare s.toList).reverse).reverse
  ⟨m.method, m.url.target, authorizations, m.body⟩

/-- The address that an answer redirects to, if it does. -/
def redirect? (m : Message) (status : Nat) (location : Option String) : Option Address :=
  if [301, 302, 303, 307, 308].contains status then
    location.bind (Url.resolve? (some m.url) ·)
  else none

/-- The message that follows a redirect: statuses up to 303 ask for the new address without a body,
the others for the same once more. -/
def redirected (m : Message) (status : Nat) (url : Url) : Message :=
  let authorizations := if m.url.sameServer url then m.authorizations else []
  if status ≤ 303 then ⟨.get, url, authorizations, none⟩ else { m with url, authorizations }

/-- Sends a message and follows redirects, at most the given number of them. Nothing goes over a
secure connection. -/
def deliver : Nat → Message → Wire → Outcome × Wire
  | hops, m, w =>
    if m.url.secure then (.failed (.closed m.url.text), w)
    else
      let after := w.after m.sent
      match w.next with
      | .close => (.failed (.closed m.url.text), after)
      | .interrupt => (.interrupted, after)
      | .answer status body location =>
        match m.redirect? status location with
        | none => (.answered ⟨status, if isBodiless status then "" else body⟩, after)
        | some .foreign => (.failed .unusableAddress, after)
        | some (.url url) =>
          match hops with
          | 0 => (.failed (.tooManyRedirects url.text), after)
          | hops + 1 => deliver hops (m.redirected status url) after

/-- A request is sent to nothing but the replies that are left. -/
theorem length_replies_deliver_le (hops : Nat) (m : Message) (w : Wire) :
    (deliver hops m w).2.replies.length ≤ w.replies.length := by
  induction hops generalizing m w with
  | zero =>
    unfold deliver
    split
    · exact Nat.le_refl _
    · have : (w.after m.sent).replies.length ≤ w.replies.length := by simp [Wire.after]
      dsimp only
      repeat' split
      all_goals exact this
  | succ hops ih =>
    unfold deliver
    split
    · exact Nat.le_refl _
    · have h : (w.after m.sent).replies.length ≤ w.replies.length := by simp [Wire.after]
      dsimp only
      repeat' split
      all_goals first | exact h | exact Nat.le_trans (ih _ _) h

/-- A successful answer is one of the given replies. -/
theorem length_replies_deliver_lt {hops : Nat} {m : Message} {w : Wire} {a : Answer}
    (h : (deliver hops m w).1 = .answered a) (ha : a.isSuccess = true) :
    (deliver hops m w).2.replies.length < w.replies.length := by
  obtain ⟨replies, sent⟩ := w
  cases replies with
  | nil =>
    exfalso
    have hr : m.redirect? 500 none = none := by simp [redirect?]
    unfold deliver at h
    simp only [Wire.next, List.head?_nil, Option.getD_none, exhausted, hr] at h
    split at h
    · simp at h
    · obtain rfl := Outcome.answered.inj h
      simp [Answer.isSuccess] at ha
  | cons r rs =>
    have hs : (⟨r :: rs, sent⟩ : Wire).after m.sent = ⟨rs, sent ++ [m.sent]⟩ := rfl
    unfold deliver at h ⊢
    rw [hs] at h ⊢
    dsimp only at h ⊢
    revert h
    repeat' split
    all_goals intro h
    all_goals first
      | (simp at h; done)
      | (simp; done)
      | exact Nat.lt_succ_of_le (length_replies_deliver_le _ _ _)

end Message

end Rollout.Http
