import Flowlite.Auth.IdpClient
import Flowlite.Threads.Machine

/-!
# The dashboard's sessions

`SessionStore` and the calls on it, any number of which are made at a time. The map has a
lock that is given back at once, so what is done under it is one operation; every session
has a lock of its own, which a check holds across its request to the identity provider.

A check that is dropped gives its lock back, and its request may still arrive. Auxiliary
parts of the state say which ids have been ended, what each check has asked, and what the
provider has been presented with.
-/

namespace Flowlite.Auth

open Flowlite.Store Flowlite.Threads

structure Session where
  subject : String
  refreshToken : Option String
  expiresAt : Instant
  deriving DecidableEq

/-- What a request's session says about the person making it. -/
inductive SessionCheck
  | signedIn (subject : String)
  | signedOut
  | idpUnavailable
  deriving DecidableEq

def pruneAfterHours : Nat := 24

inductive Op
  /-- `start` as a whole; the id is new. -/
  | start (subject : String) (grant : TokenGrant) (now : Instant)
  /-- The id is taken out of the map. -/
  | remove (id : String)
  /-- The session the map has under the id, looked up by a check that begins. -/
  | get (id : String)
  | lock (session : Nat)
  | load (session : Nat)
  | store (session : Nat) (value : Session)
  | unlock (session : Nat)
  /-- A refresh is requested, and its reply awaited. -/
  | send (token : String)
  | reply
  /-- What the check answers with. -/
  | answer (result : SessionCheck)
  deriving DecidableEq

abbrev Op.Ret : Op → Type
  | .start _ _ _ => String
  | .get _ => Option Nat
  | .load _ => Session
  | .reply => Reply
  | .remove _ | .lock _ | .store _ _ | .unlock _ | .send _ | .answer _ => Unit

/-- The operations on the sessions; none of them fails. -/
abbrev sessionOps : Signature where
  Op := Op
  Ret := Op.Ret
  Err := Empty

abbrev Code := Prog sessionOps

def perform (o : Op) : Code o.Ret := Prog.perform (S := sessionOps) o

/-! ## The calls -/

def refresh (refreshToken : String) (now : Instant) : Code (Except IdpError TokenGrant) := do
  perform (.send refreshToken)
  let reply ← perform .reply
  return (readReply reply).map fun token => token.grant now

/-- `end`. -/
def endSession (id : String) : Code Unit := perform (.remove id)

/-- Whether `id` is a signed-in session at `now`, refreshing it first if its grant has run
out. The lock is given back where the check returns. -/
def check (id : String) (now : Instant) : Code SessionCheck := do
  match ← perform (.get id) with
  | none => return .signedOut
  | some lock =>
      perform (.lock lock)
      let session ← perform (.load lock)
      if now < session.expiresAt then
        perform (.unlock lock)
        return .signedIn session.subject
      else
        match session.refreshToken with
        | none =>
            endSession id
            perform (.unlock lock)
            return .signedOut
        | some refreshToken =>
            match ← refresh refreshToken now with
            | .ok grant =>
                perform (.store lock { session with
                  expiresAt := grant.expiresAt
                  -- a provider may answer without a new one
                  refreshToken := grant.refreshToken.or session.refreshToken })
                perform (.unlock lock)
                return .signedIn session.subject
            | .error (.rejected _) =>
                perform (.store lock { session with refreshToken := none })
                endSession id
                perform (.unlock lock)
                return .signedOut
            | .error (.unavailable _) =>
                perform (.unlock lock)
                return .idpUnavailable

inductive Start
  | start (subject : String) (grant : TokenGrant) (now : Instant)
  | endSession (id : String)
  | check (id : String) (now : Instant)

def Start.code : Start → Code Unit
  | .start subject grant now => do
      let _ ← perform (.start subject grant now)
      return ()
  | .endSession id => Auth.endSession id
  | .check id now => do
      let result ← Auth.check id now
      perform (.answer result)

/-! ## The state they act on -/

/-- A session behind its lock, and the call that has it. -/
structure Mutex where
  session : Session
  holder : Option Nat

/-- A refresh a call has requested: for which session, with which token, and what the
provider has answered by now. -/
structure Request where
  id : String
  token : String
  answer : Option Response

/-- What a check has been asked: about which id, and whether it had been ended by then. -/
structure Asked where
  id : String
  ended : Bool

/-- A refresh token that the provider was presented with: by which session, whether it had
exchanged it before, and whether the session had been ended. -/
structure Presented where
  id : String
  token : String
  spent : Bool
  ended : Bool

structure State where
  /-- `SessionStore::sessions`. -/
  sessions : String → Option Nat
  mutexes : Nat → Option Mutex
  requests : Nat → Option Request
  /-- Requests that nobody waits for any more, and that have not arrived. -/
  abandoned : List Request
  provider : Provider
  /-- The ids that a call has named. -/
  named : List String
  /-- The ids that have been ended. Auxiliary, as all that follows. -/
  ended : List String
  asked : Nat → Option Asked
  presented : List Presented

def State.new : State where
  sessions := fun _ => none
  mutexes := fun _ => none
  requests := fun _ => none
  abandoned := []
  provider := .new
  named := []
  ended := []
  asked := fun _ => none
  presented := []

namespace State

variable (s : State)

/-- What is left of the map at a login: a session that is in use, or has not been expired
for long. -/
def retained (now : Instant) (id : String) : Option Nat :=
  (s.sessions id).filter fun lock => (s.mutexes lock).all fun m =>
    m.holder.isSome || now - seconds (3600 * pruneAfterHours) < m.session.expiresAt

def setHolder (lock : Nat) (m : Mutex) (holder : Option Nat) : State :=
  { s with mutexes := Function.update s.mutexes lock (some { m with holder }) }

/-- The refresh of call `t` is over, whether or not its request has arrived. -/
def giveUp (t : Nat) (request : Request) : State :=
  { s with
    requests := Function.update s.requests t none
    abandoned := if request.answer.isNone then request :: s.abandoned else s.abandoned }

def answered (t : Nat) (request : Request) (answer : Response) : State :=
  { s with
    requests := Function.update s.requests t (some { request with answer := some answer }) }

/-- The provider is presented with a request; what it answers. -/
def present (request : Request) (offer : TokenResponse) : Option (Response × State) :=
  (s.provider.exchange request.token offer).map fun (answer, provider) =>
    (answer, { s with
      provider
      presented := { id := request.id, token := request.token
                     spent := request.token ∈ s.provider.spent
                     ended := request.id ∈ s.ended } :: s.presented })

end State

/-- What the outside decides about an operation: the id and the place of a session that is
started, and a reply that did not come from the provider. -/
structure Choice where
  id : String := ""
  lock : Nat := 0
  reply : Option Reply := none

abbrev Result (o : Op) : Type := Except Empty o.Ret

/-- One operation of call `t`; none where it has to wait. -/
def State.perform (t : Nat) (ch : Choice) (s : State) : (o : Op) → Option (Result o × State)
  | .start subject grant now =>
      if ch.id ∈ s.named ∨ (s.mutexes ch.lock).isSome ∨
          ∃ token ∈ grant.refreshToken, token ∈ s.provider.issued then none
      else
        let session := { subject, refreshToken := grant.refreshToken
                         expiresAt := grant.expiresAt }
        some (.ok ch.id, { s with
          sessions := Function.update (s.retained now) ch.id (some ch.lock)
          mutexes := Function.update s.mutexes ch.lock (some { session, holder := none })
          named := ch.id :: s.named
          provider := { s.provider with
            issued := grant.refreshToken.toList ++ s.provider.issued } })
  | .remove id => some (.ok (), { s with
      sessions := Function.update s.sessions id none
      named := id :: s.named
      ended := id :: s.ended })
  | .get id => some (.ok (s.sessions id), { s with
      named := id :: s.named
      asked := Function.update s.asked t (some { id, ended := id ∈ s.ended }) })
  | .lock lock =>
      match s.mutexes lock with
      | none => none
      | some m => if m.holder.isSome then none else some (.ok (), s.setHolder lock m (some t))
  | .load lock => (s.mutexes lock).map fun m => (.ok m.session, s)
  | .store lock session => (s.mutexes lock).map fun m => (.ok (), { s with
      mutexes := Function.update s.mutexes lock (some { m with session })
      requests := Function.update s.requests t none })
  | .unlock lock => (s.mutexes lock).map fun m => (.ok (), s.setHolder lock m none)
  | .send token => some (.ok (), { s with
      requests := Function.update s.requests t
        (some { id := (s.asked t).elim "" Asked.id, token, answer := none }) })
  | .reply =>
      match s.requests t with
      | none => none
      | some request =>
          match ch.reply, request.answer with
          | some reply, _ =>
              if reply.isUnavailable then some (.ok reply, s.giveUp t request) else none
          | none, some answer =>
              if Reply.isUnavailable (.ok answer) then
                some (.ok (.ok answer), s.giveUp t request)
              else some (.ok (.ok answer), s)
          | none, none => none
  | .answer _ => some (.ok (), s)

/-- What happens outside the calls. -/
inductive Env
  /-- The request of a call arrives, or one that was given up; `offer` is what the provider
  would grant. -/
  | receive (t : Nat) (offer : TokenResponse)
  | receiveAbandoned (i : Nat) (offer : TokenResponse)
  /-- The future of a call is dropped. -/
  | drop (t : Nat)

/-- A call that is dropped gives back what it has locked. -/
def State.dropped (t : Nat) (s : State) : State :=
  let s := { s with mutexes := fun lock => (s.mutexes lock).map fun m =>
    if m.holder = some t then { m with holder := none } else m }
  match s.requests t with
  | none => s
  | some request => s.giveUp t request

def State.env (s : State) : Env → Option (State × (Nat → Bool))
  | .receive t offer =>
      match s.requests t with
      | none => none
      | some request =>
          if request.answer.isSome then none
          else (s.present request offer).map fun (answer, s') =>
            (s'.answered t request answer, fun _ => false)
  | .receiveAbandoned i offer =>
      match s.abandoned[i]? with
      | none => none
      | some request => (s.present request offer).map fun (_, s') =>
          ({ s' with abandoned := s.abandoned.eraseIdx i }, fun _ => false)
  | .drop t => some (s.dropped t, fun u => u = t)

/-- Any number of calls on one store. -/
abbrev sessionStore : Machine sessionOps where
  Tid := Nat
  State := State
  Choice := Choice
  perform t o ch s := s.perform t ch o
  Start := Start
  start _ a _ := some a.code
  Env := Env
  env e s := s.env e
  init s := s = .new

end Flowlite.Auth
