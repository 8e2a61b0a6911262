import Flowlite.Store.Rows

/-!
# idp_client

What flowlite makes of an identity provider's answer to a token request.
-/

namespace Flowlite.Auth

open Flowlite.Store

/-- What a token endpoint granted, kept to the part flowlite uses. -/
structure TokenGrant where
  refreshToken : Option String
  expiresAt : Instant
  deriving DecidableEq

/-- Why a token endpoint did not grant. -/
inductive IdpError
  /-- The provider answered and said no. -/
  | rejected (reason : String)
  /-- It did not answer in a form that says anything about the person. -/
  | unavailable (reason : String)
  deriving DecidableEq

def expiresInSecondsWhenUnsaid : Int := 300

structure TokenResponse where
  accessToken : String
  expiresIn : Option Int
  refreshToken : Option String
  deriving DecidableEq

/-- What the endpoint answered: its status, and what its body reads as. -/
structure Response where
  status : Nat
  /-- The status as it is printed. -/
  shown : String
  /-- The body as an `OAuthErrorResponse`, if it is one. -/
  error : Option String
  /-- The body as a `TokenResponse`, or why it is none. -/
  token : Except String TokenResponse
  deriving DecidableEq

/-- A request that came to an answer, or did not. -/
abbrev Reply := Except String Response

/-- `request_token` once the request has come out. -/
def readReply : Reply → Except IdpError TokenResponse
  | .error e => .error (.unavailable e)
  | .ok response =>
      if response.status = 400 ∨ response.status = 401 then
        .error (.rejected (response.error.getD response.shown))
      else if ¬ (200 ≤ response.status ∧ response.status < 300) then
        .error (.unavailable s!"the token endpoint answered {response.shown}")
      else
        match response.token with
        | .error e =>
            .error (.unavailable s!"the token endpoint did not answer with a token: {e}")
        | .ok token => .ok token

def TokenResponse.grant (token : TokenResponse) (now : Instant) : TokenGrant where
  refreshToken := token.refreshToken
  expiresAt := now + 1000 * token.expiresIn.getD expiresInSecondsWhenUnsaid

/-- Nothing was said about the person. -/
def Reply.isUnavailable (reply : Reply) : Bool :=
  match readReply reply with
  | .error (.unavailable _) => true
  | _ => false

/-! ## An identity provider

It answers each refresh with a new refresh token, and rejects one it has exchanged. -/

structure Provider where
  issued : List String
  spent : List String

def Provider.new : Provider := { issued := [], spent := [] }

def refusal : Response where
  status := 400
  shown := "400 Bad Request"
  error := some "invalid_grant"
  token := .error "missing field access_token"

/-- What it answers to a refresh token, `offer` being what it would grant. -/
def Provider.exchange (p : Provider) (token : String) (offer : TokenResponse) :
    Option (Response × Provider) :=
  if token ∈ p.spent then some (refusal, p)
  else
    match offer.refreshToken with
    | none => none
    | some new =>
        if new ∈ p.issued then none
        else some ({ status := 200, shown := "200 OK", error := none, token := .ok offer },
          { issued := new :: p.issued, spent := token :: p.spent })

end Flowlite.Auth
