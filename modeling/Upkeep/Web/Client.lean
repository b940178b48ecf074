import Upkeep.Inquiry
import Upkeep.Json.Parser
import Upkeep.Release.Lookup
import Upkeep.Sha512
import Upkeep.Web.Charset
import Upkeep.Web.Status
import Upkeep.Web.Url

/-!
# Getting things from the web

What is asked for by its address is had in one or more exchanges: a server may send on to another
address. That something does not exist is an answer; every other end of an exchange is a failure.

* `Web.get`: what a server answers for an address.
* `Web.textAt`, `Web.digestAt`, `Web.releaseAt`: a text, the digest of a download, a release.
* `Web.follow_of_final`: an answer that does not send on is the answer.
-/

namespace Upkeep.Web

open Text

/-- One request to a server. -/
structure Request where
  url : Url
  /-- The kinds of answers that are asked for. -/
  accept : String
  deriving DecidableEq, Inhabited

/-- How the program names itself to servers. -/
def userAgent : String := "update-dependencies/0.1.0"

/-- The answer of a server. -/
structure Response where
  status : Nat
  headers : List (String × String) := []
  body : Bytes := []
  /-- Whether the whole body arrived. -/
  isComplete : Bool := true
  deriving DecidableEq, Inhabited

/-- What an exchange ends with; none when the server cannot be reached or does not answer. -/
abbrev Answer (_ : Request) : Type := Option Response

/-- Work that exchanges requests and answers with servers. -/
abbrev Work (α : Type) := Inquiry Request Answer α

namespace Response

/-- The value of a header, of whose name the case does not matter. -/
def header? (r : Response) (name : String) : Option String :=
  (r.headers.find? fun h => sameIgnoringCase h.1.toList name.toList).map (·.2)

/-- The content of an answer; none when it broke off. -/
def content? (r : Response) : Option Bytes :=
  if ! Status.hasBody r.status then some [] else if r.isComplete then some r.body else none

/-- The charset that an answer names. -/
def charset? (r : Response) : Option Charset := (r.header? "content-type").bind Charset.ofContentType?

/-- The address that an answer sends on to. -/
def next? (u : Url) (r : Response) : Option Url :=
  if Status.isRedirect r.status then (r.header? "location").bind fun l => u.resolve? l.toList
  else none

end Response

/-- Why there is no answer for an address. -/
def unsent (u : Url) : String := "error sending request for url (" ++ u.text ++ ")"

/-- Why an address that sends on too often has no answer. -/
def unfollowed (u : Url) : String := "error following redirect for url (" ++ u.text ++ ")"

/-- Why an address that is none on the web has no answer. -/
def unbuilt : String := "builder error"

/-- How often an answer may send on. -/
def maxRedirects : Nat := 10

/-- What is made of the answer for an address: it is the answer, or `again` goes on where it sends,
if that is still allowed. -/
def judge (first u : Url) (again : Option (Url → Work (Except String Response))) :
    Option Response → Work (Except String Response)
  | none => Inquiry.done (.error (unsent first))
  | some r =>
    if Status.isFinal r.status then
      match r.next? u, again with
      | none, _ => Inquiry.done (.ok r)
      | some _, none => Inquiry.done (.error (unfollowed u))
      | some v, some again => again v
    else Inquiry.done (.error (unsent first))

/-- The answer for an address that was reached from a first one, when answers may still send on a
given number of times. -/
def follow (accept : String) (first : Url) : Nat → Url → Work (Except String Response)
  | 0, u => Inquiry.ask ⟨u, accept⟩ (judge first u none)
  | n + 1, u => Inquiry.ask ⟨u, accept⟩ (judge first u (some (follow accept first n)))

/-- What a server answers for an address; none when nothing is there. -/
def get (url accept : String) : Work (Except String (Option Response)) :=
  match Url.parse? url with
  | none => return .error unbuilt
  | some u => do
    match ← follow accept u maxRedirects u with
    | .error reason => return .error reason
    | .ok r =>
      if r.status = Status.notFound then return .ok none
      else if Status.isSuccess r.status then return .ok (some r)
      else return .error ("HTTP " ++ Status.text r.status)

/-- What is read from the content of an answer. -/
def fetch {α : Type} (operation url accept : String) (read : Response → Except Failure α) :
    Work (Except Failure (Option α)) := do
  match ← get url accept with
  | .error reason => return .error (.of (.network operation reason))
  | .ok none => return .ok none
  | .ok (some r) => return (read r).map some

/-- The failure of an answer whose content cannot be read. -/
def unreadable (activity : String) : Failure :=
  ⟨[activity], .message "error decoding response body"⟩

/-- Something that must be there for the content of an answer to be read. -/
def orUnreadable {α : Type} (activity : String) : Option α → Except Failure α
  | some a => .ok a
  | none => .error (unreadable activity)

/-- The text at an address. -/
def textAt (url : String) : Work (Except Failure (Option String)) :=
  fetch ("GET " ++ url) url "*/*" fun r =>
    orUnreadable ("Failed to read response body from " ++ url)
      (r.content?.map (Charset.text r.charset?))

/-- The digest of what is downloaded from an address. -/
def digestAt (url : String) : Work (Except Failure (Option String)) :=
  fetch ("GET " ++ url) url "*/*" fun r =>
    orUnreadable ("Failed to download " ++ url) (r.content?.map Sha512.hex)

/-- The address of the service that knows the releases of tools. -/
def releaseService : String := "https://api.github.com"

/-- The address of a release. -/
def releaseUrl (service : String) (k : Release.Key) : String :=
  String.ofList (dropEnd '/' service.toList) ++ "/repos/" ++ k.owner ++ "/" ++ k.repo
    ++ "/releases/tags/" ++ k.tag

/-- The release that a content describes. -/
def release? (b : Bytes) : Option Release := do
  let j ← (Json.parse (← b.text?)).toOption
  Release.ofData? (.ofJson j)

/-- The release of a key, asked from a service. -/
def releaseAt (service : String) (k : Release.Key) : Work (Except Failure (Option Release)) :=
  fetch ("fetch release " ++ k.text) (releaseUrl service k) "application/vnd.github+json" fun r =>
    orUnreadable ("Failed to parse release " ++ k.text) (r.content?.bind release?)

/-- **An answer that does not send on is the answer.** -/
theorem follow_of_final {m : Type → Type} [Monad m] [LawfulMonad m]
    (answer : (q : Request) → m (Answer q)) (accept : String) (first u : Url) (n : Nat)
    (r : Response) (ha : answer ⟨u, accept⟩ = pure (some r)) (hf : Status.isFinal r.status = true)
    (hr : r.next? u = none) :
    (follow accept first n u).perform answer = pure (.ok r) := by
  cases n <;> simp [follow, Inquiry.perform, judge, ha, hf, hr]

end Upkeep.Web
