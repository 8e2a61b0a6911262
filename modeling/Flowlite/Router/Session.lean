import Flowlite.Auth.Sessions

/-!
# session, login

What the dashboard answers before a page is reached: the session middleware, and the two
handlers of `/login`. They are programs over the sessions; what the provider said to a
password is handed to the one that asks it.
-/

namespace Flowlite.Router

open Flowlite.Store Flowlite.Threads Flowlite.Auth

def startsWith (s pattern : List Char) : Bool := pattern.isPrefixOf s

/-- What comes after the first `separator`. -/
def afterFirst (separator : List Char) : List Char → Option (List Char)
  | [] => if separator.isEmpty then some [] else none
  | c :: s =>
      if startsWith (c :: s) separator then some ((c :: s).drop separator.length)
      else afterFirst separator s

/-- `next` if it is a path on this server, and the home page otherwise. -/
def safeNext (next : List Char) : List Char :=
  let isLocal := startsWith next "/".toList && !startsWith next "//".toList
    && !startsWith next "/\\".toList
  if isLocal then next else "/".toList

/-- A digit as `X` formats it. -/
def upperHexDigit (n : Nat) : Char := if n < 10 then Char.ofNat (48 + n) else Char.ofNat (55 + n)

def isUnreserved (byte : UInt8) : Bool :=
  let c := Char.ofNat byte.toNat
  c.isAlphanum || c = '-' || c = '.' || c = '_' || c = '~'

def percentEncodeByte (byte : UInt8) : List Char :=
  if isUnreserved byte then [Char.ofNat byte.toNat]
  else ['%', upperHexDigit (byte.toNat / 16), upperHexDigit (byte.toNat % 16)]

def percentEncode (value : List Char) : List Char :=
  (value.flatMap String.utf8EncodeChar).flatMap percentEncodeByte

/-- Where to send someone who has to log in first. -/
def loginLocation (next : List Char) : List Char :=
  let next := safeNext next
  if next = "/".toList then "/login".toList else "/login?next=".toList ++ percentEncode next

/-- The path and query of an absolute URL. -/
def pathOf (url : List Char) : List Char :=
  match afterFirst "://".toList url with
  | none => url
  | some afterScheme =>
      match afterScheme.dropWhile (· ≠ '/') with
      | [] => "/".toList
      | path => path

inductive Outcome
  | pass (subject : String)
  | redirectToLogin (location : List Char)
  | htmxRedirectToLogin (location : List Char)
  | idpUnavailable
  deriving DecidableEq

def outcome (check : SessionCheck) (method : String) (pathAndQuery : List Char)
    (htmxCurrentUrl : Option (List Char)) : Outcome :=
  match check with
  | .signedIn subject => .pass subject
  | .idpUnavailable => .idpUnavailable
  | .signedOut =>
      match htmxCurrentUrl with
      -- back to the page the partial sits on
      | some currentUrl => .htmxRedirectToLogin (loginLocation (pathOf currentUrl))
      | none =>
          if method = "GET" then .redirectToLogin (loginLocation pathAndQuery)
          else .redirectToLogin (loginLocation "/".toList)

/-! ## The handlers -/

/-- What a handler answers with. -/
inductive Answer
  /-- The request goes on to its own handler. -/
  | next (signedInAs : Option String)
  /-- A redirect, and the session whose cookie is set with it. -/
  | redirect (location : List Char) (session : Option String)
  | htmxRedirect (location : List Char)
  | loginForm (status : Nat) (next : List Char) (username : String) (error : Option String)
  | status (code : Nat) (body : String)
  deriving DecidableEq

/-- What the handlers read of a request; the session id is the one its cookie carries. -/
structure Request where
  session : Option String
  method : String
  pathAndQuery : Option (List Char)
  hxRequest : Bool
  /-- `HX-Current-URL`, if it is text. -/
  hxCurrentUrl : Option (List Char)

structure LoginForm where
  username : String
  password : String
  next : Option (List Char)

section Handlers

-- which locations can stand in a header
variable (isHeaderValue : List Char → Bool)

/-- A location that cannot be a header is answered with an error. -/
def redirectTo (location : List Char) (session : Option String) : Answer :=
  if isHeaderValue location then .redirect location session
  else .status 500 "failed to parse header value"

def htmxRedirectTo (location : List Char) : Answer :=
  if isHeaderValue location then .htmxRedirect location
  else .status 500 "failed to parse header value"

/-- What the session of the request's cookie checks as. -/
def checkCookie (session : Option String) (now : Instant) : Auth.Code SessionCheck :=
  match session with
  | some session => check session now
  | none => pure .signedOut

/-- `auth` says whether `[auth]` is configured. -/
def sessionMiddleware (auth : Bool) (request : Request) (now : Instant) : Auth.Code Answer := do
  if !auth then
    return .next none
  else
    let result ← checkCookie request.session now
    let htmxCurrentUrl := if request.hxRequest then some (request.hxCurrentUrl.getD []) else none
    return match outcome result request.method (request.pathAndQuery.getD "/".toList)
        htmxCurrentUrl with
      | .pass subject => .next (some subject)
      | .redirectToLogin location => redirectTo isHeaderValue location none
      | .htmxRedirectToLogin location => htmxRedirectTo isHeaderValue location
      | .idpUnavailable => .status 503
          ("The identity provider cannot be reached, so your session cannot be checked. " ++
            "Try again in a moment.")

def loginPageRoute (auth : Bool) (session : Option String) (next : Option (List Char))
    (now : Instant) : Auth.Code Answer := do
  if !auth then
    return .status 404 ""
  else
    let next := safeNext (next.getD "/".toList)
    match session with
    | none => return .loginForm 200 next "" none
    | some session =>
        match ← check session now with
        | .signedIn _ => return redirectTo isHeaderValue next none
        | _ => return .loginForm 200 next "" none

/-- The session the browser arrived with is not carried over a login. -/
def endPrevious (session : Option String) : Auth.Code Unit :=
  match session with
  | some previous => endSession previous
  | none => pure ()

/-- `granted` is what the provider said to the password. -/
def loginRoute (auth : Bool) (session : Option String) (form : LoginForm)
    (granted : Except IdpError TokenGrant) (now : Instant) : Auth.Code Answer := do
  if !auth then
    return .status 404 ""
  else
    let next := safeNext (form.next.getD "/".toList)
    match granted with
    | .ok grant =>
        endPrevious session
        let id ← perform (.start form.username grant now)
        return redirectTo isHeaderValue next (some id)
    | .error (.rejected _) =>
        return .loginForm 401 next form.username (some "Wrong username or password.")
    | .error (.unavailable _) =>
        return .loginForm 503 next form.username
          (some "The identity provider cannot be reached. Try again in a moment.")

end Handlers

end Flowlite.Router
