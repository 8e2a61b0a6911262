import Flowlite.Logic.EndedSessions
import Flowlite.Logic.RefreshTriples

/-!
# A refresh token is spent once

Checks, logins and logouts on one store, in any order, and any of them dropped anywhere. A
session presents no token twice as long as every check whose refresh the provider grants is
there to record it. A check that is not leaves the session with the token it has spent, and
the next one presents that: the lock it held keeps two checks apart, and is gone with it.
-/

namespace Flowlite.Auth

open Store Threads Machine

/-- What the provider has been presented with, and what it is about to be presented with,
by sessions that were not ended. -/
structure SpentOnce (s : State) : Prop where
  presented : ∀ p ∈ s.presented, p.ended = false → p.spent = false
  asking : ∀ t request, s.requests t = some request → request.answer = none →
    request.id ∉ s.ended → request.token ∉ s.provider.spent

/-- The operation a call is about to perform. -/
def nextOp (c : sessionStore.Config) (t : Nat) : Option Op :=
  match c.pool t with
  | some (.call o _) => some o
  | _ => none

/-- A check that answers that somebody is signed in began before its session was ended. -/
def NoneAfterEnd (c : sessionStore.Config) : Prop :=
  ∀ t subject, nextOp c t = some (.answer (.signedIn subject)) →
    ∀ asked, c.state.asked t = some asked → asked.ended = false

theorem none_after_end {c : sessionStore.Config} (hc : Reachable .any c) : NoneAfterEnd c := by
  intro t subject hnext
  unfold nextOp at hnext
  split at hnext
  · rename_i o k hpool
    obtain rfl := Option.some.inj hnext
    have hperf : Performs .any t (Op.answer (.signedIn subject)) c.state (.ok ()) c.state :=
      ⟨⟨{}, rfl⟩, trivial⟩
    exact endings_valid.pre hc hpool hperf
  · cases hnext

/-- **A refresh token is spent once** in every run in which what the provider grants is
recorded, and in every run at all a session that has been ended is signed in no more. -/
theorem refresh_token_spent_once (c : sessionStore.Config) :
    (Reachable recordsGrants c → SpentOnce c.state) ∧ (Reachable .any c → NoneAfterEnd c) := by
  refine ⟨fun hc => ?_, fun hc => none_after_end hc⟩
  have htokens : Tokens c.state :=
    (refreshes_valid ⟨fun _ _ _ _ _ h => h, fun _ _ _ h => h⟩).inv hc
  refine ⟨fun p hp _ => htokens.presented p hp, ?_⟩
  intro t request hrequest hopen _
  exact htokens.fresh hrequest hopen

namespace Replay

abbrev Event := Machine.Event sessionStore

/-- The next `n` operations of a call. -/
def steps (t n : Nat) : List Event := List.replicate n (.run t {})

/-- A login whose grant has run out by instant 1. -/
def login : List Event :=
  [.start 0 (.start "ada" { refreshToken := some "r0", expiresAt := 0 } 0),
    .run 0 { id := "s", lock := 0 }]

/-- A check that asks the provider. -/
def asking (t : Nat) : List Event := .start t (.check "s" 1) :: steps t 4

def granting (t : Nat) (refreshToken : String) : Event :=
  .env (.receive t { accessToken := "a", expiresIn := none, refreshToken := some refreshToken })

def replay (cond : sessionStore.Condition) [cond.Checked] (es : List Event) :
    Option sessionStore.Config :=
  exec cond ⟨.new, fun _ => none⟩ es

theorem reachable_of_replay {cond : sessionStore.Condition} [cond.Checked]
    {es : List Event} {check : sessionStore.Config → Bool}
    (h : (replay cond es).any check = true) : ∃ c, Reachable cond c ∧ check c = true := by
  obtain ⟨c, hc, hcheck⟩ := (Option.any_eq_true _ _).mp h
  exact ⟨c, exec_reachable (.init rfl) hc, hcheck⟩

end Replay

open Auth.Replay in
/-- A check is dropped after the provider has exchanged its token, and the next one asks
with it again. -/
theorem dropped_check_spends_again :
    ¬ ∀ c : sessionStore.Config, Reachable .any c → SpentOnce c.state ∧ NoneAfterEnd c := by
  intro h
  have hrun : (replay .any (login ++ asking 1 ++ [granting 1 "r1", .env (.drop 1)] ++
      asking 2)).any (fun c => (c.state.requests 2).any fun request =>
        request.answer.isNone && request.id ∉ c.state.ended &&
          request.token ∈ c.state.provider.spent) = true := by
    decide +kernel
  obtain ⟨c, hc, hcheck⟩ := reachable_of_replay hrun
  obtain ⟨request, hrequest, hspent⟩ := (Option.any_eq_true _ _).mp hcheck
  simp only [Bool.and_eq_true, decide_eq_true_eq, Option.isNone_iff_eq_none] at hspent
  exact (h c hc).1.asking 2 request hrequest hspent.1.1 hspent.1.2 hspent.2

open Auth.Replay in
/-- Two checks, of which the second waits for the first and asks with the new token. -/
theorem refresh_token_spent_once_in_turn : ∃ c : sessionStore.Config,
    (c.state.requests 2).any (fun request => request.token = "r1") = true ∧
      c.state.presented.length = 1 ∧ SpentOnce c.state := by
  have hrun : (replay recordsGrants (login ++ asking 1 ++ .start 2 (.check "s" 301000) ::
      steps 2 1 ++ granting 1 "r1" :: steps 1 4 ++ steps 2 3)).any (fun c =>
        (c.state.requests 2).any (fun request => request.token = "r1") &&
          decide (c.state.presented.length = 1)) = true := by
    decide +kernel
  obtain ⟨c, hc, hcheck⟩ := reachable_of_replay hrun
  obtain ⟨hrequest, hlength⟩ := Bool.and_eq_true_iff.mp hcheck
  exact ⟨c, hrequest, of_decide_eq_true hlength, (refresh_token_spent_once c).1 hc⟩

end Flowlite.Auth
