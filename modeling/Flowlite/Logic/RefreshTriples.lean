import Flowlite.Logic.RefreshTokens

/-!
# Checks, one beside the other

What a check knows of its session between two of its operations: that it has locked it, how
it reads, and what has come of its refresh. The other calls leave that alone, since nobody
else changes a session that is locked. From there `refreshes_valid` follows the program of a
check from its first operation to its last.
-/

namespace Flowlite.Auth

open Store Threads Machine Outline

variable {cond : sessionStore.Condition} {s s' : State} {t : Nat}

/-! ## What the other calls leave alone -/

/-- The call has locked the session, which reads like this, and asks for nothing. -/
def Locked (t lock : Nat) (session : Session) (s : State) : Prop :=
  s.mutexes lock = some { session, holder := some t } ∧ s.requests t = none

/-- The call has locked the session and asks the provider with its token, or has the
provider's answer. -/
def Asking (t lock : Nat) (session : Session) (token : String) (answer : Option Response)
    (s : State) : Prop :=
  s.mutexes lock = some { session, holder := some t } ∧ session.refreshToken = some token ∧
    ∃ request, s.requests t = some request ∧ request.token = token ∧
      ∀ response, answer = some response → request.answer = some response

theorem mutex_others (hcond : cond.Le recordsGrants) (h : refreshes.Others cond t s s')
    {lock : Nat} {session : Session}
    (hmine : s.mutexes lock = some { session, holder := some t }) :
    s'.mutexes lock = some { session, holder := some t } := by
  cases h with
  | env hkill _ _ he =>
      cases outside_happens hcond he with
      | received hrequest hopen hpresent heq =>
          obtain ⟨⟨_, _⟩, -, heq'⟩ := Option.map_eq_some_iff.mp hpresent
          cases heq'
          rw [heq]
          exact hmine
      | @dropped u _ heq hkills =>
          have hne : t ≠ u := by
            rw [hkills] at hkill
            exact of_decide_eq_false hkill
          rw [heq, dropped_mutexes]
          show (s.mutexes lock).map _ = _
          rw [hmine, Option.map_some, if_neg fun heq => hne (Option.some.inj heq)]
  | @run u o r hu hi _ hpre hperf =>
      have hold : ∀ {lock' m}, s.mutexes lock' = some m → m.holder ≠ some t → lock ≠ lock' := by
        rintro lock' m hm hother rfl
        obtain rfl := Option.some.inj (hmine.symm.trans hm)
        exact hother rfl
      cases moves_performs hperf with
      | none hm _ _ _ => rw [hm]; exact hmine
      | @started lock' _ hfree _ hm _ _ _ =>
          have hne : lock ≠ lock' := by
            rintro rfl
            rw [hfree] at hmine
            cases hmine
          rw [hm, Function.update_of_ne hne]
          exact hmine
      | locked _ hsome hfree heq =>
          rw [heq]
          exact (Function.update_of_ne (hold hsome (by rw [hfree]; exact nofun)) _ _).trans hmine
      | unlocked ho hsome heq =>
          subst ho
          obtain ⟨-, m', hm', hholder⟩ := hpre
          rw [heq]
          refine (Function.update_of_ne (hold hm' ?_) _ _).trans hmine
          rw [hholder]
          exact fun heq => hu (Option.some.inj heq)
      | stored ho hsome heq =>
          subst ho
          obtain ⟨m', request, hm', hholder, -⟩ := hpre
          rw [heq]
          refine (Function.update_of_ne (hold hm' ?_) _ _).trans hmine
          rw [hholder]
          exact fun heq => hu (Option.some.inj heq)
      | sent _ heq =>
          rw [heq]
          exact hmine
      | gaveUp _ _ heq =>
          rw [heq]
          exact hmine

/-- Of a call's request nobody else changes anything, but that it is answered. -/
theorem request_others (hcond : cond.Le recordsGrants) (h : refreshes.Others cond t s s') :
    s'.requests t = s.requests t ∨ ∃ request answer, s.requests t = some request ∧
      request.answer = none ∧ s'.requests t = some { request with answer := some answer } := by
  cases h with
  | env hkill _ _ he =>
      cases outside_happens hcond he with
      | @received u request answer _ _ hrequest hopen hpresent heq =>
          obtain ⟨⟨_, _⟩, -, heq'⟩ := Option.map_eq_some_iff.mp hpresent
          cases heq'
          rw [heq]
          by_cases hut : t = u
          · subst hut
            exact .inr ⟨request, answer, hrequest, hopen, Function.update_self ..⟩
          · exact .inl (Function.update_of_ne hut _ _)
      | @dropped u _ heq hkills =>
          have hne : t ≠ u := by
            rw [hkills] at hkill
            exact of_decide_eq_false hkill
          rw [heq, dropped_requests, Function.update_of_ne hne]
          exact .inl rfl
  | @run u o r hu hi _ hpre hperf =>
      left
      cases moves_performs hperf with
      | none _ hr _ _ => rw [hr]
      | started _ _ _ hr _ _ => rw [hr]
      | locked _ _ _ heq => rw [heq]; rfl
      | unlocked _ _ heq => rw [heq]; rfl
      | stored _ _ heq => rw [heq]; exact Function.update_of_ne hu.symm _ _
      | sent _ heq => rw [heq]; exact Function.update_of_ne hu.symm _ _
      | gaveUp _ _ heq => rw [heq]; exact Function.update_of_ne hu.symm _ _

theorem idle_stable (hcond : cond.Le recordsGrants) (t : Nat) :
    refreshes.Stable cond t (refreshes.idle t) := by
  intro s s' h hidle
  have hidle : s.requests t = none := hidle
  show s'.requests t = none
  rcases request_others hcond h with hsame | ⟨request, answer, hrequest, -⟩
  · rw [hsame]
    exact hidle
  · rw [hidle] at hrequest
    cases hrequest

theorem locked_stable (hcond : cond.Le recordsGrants) (t lock : Nat) (session : Session) :
    refreshes.Stable cond t (Locked t lock session) :=
  fun s s' h hlocked => ⟨mutex_others hcond h hlocked.1, idle_stable hcond t s s' h hlocked.2⟩

theorem asking_stable (hcond : cond.Le recordsGrants) (t lock : Nat) (session : Session)
    (token : String) (answer : Option Response) :
    refreshes.Stable cond t (Asking t lock session token answer) := by
  rintro s s' h ⟨hmine, hsession, request, hrequest, htoken, hanswer⟩
  refine ⟨mutex_others hcond h hmine, hsession, ?_⟩
  rcases request_others hcond h with hsame | ⟨request', answer', hrequest', hopen, hanswered⟩
  · exact ⟨request, hsame.trans hrequest, htoken, hanswer⟩
  · obtain rfl := Option.some.inj (hrequest'.symm.trans hrequest)
    refine ⟨_, hanswered, htoken, fun response hresponse => ?_⟩
    rw [hanswer response hresponse] at hopen
    cases hopen

/-! ## Triples -/

section Triples

/-- An operation that changes neither a session nor a request. -/
theorem plain_triple {o : Op} {P : State → Prop} (hP : refreshes.Stable cond t P)
    (hpre : ∀ s, refreshes.pre t o s)
    (hkeeps : ∀ s r s', Performs cond t o s r s' → P s → P s') :
    refreshes.Triple cond t P (perform o) fun _ => P :=
  Triple.perform hP (fun s _ _ _ _ _ => hpre s) fun s r s' _ hs hperf _ => hkeeps s r s' hperf hs

variable (hcond : cond.Le recordsGrants)

include hcond

theorem lock_triple (lock : Nat) :
    refreshes.Triple cond t (refreshes.idle t) (perform (.lock lock))
      fun _ s => ∃ session, Locked t lock session s := by
  refine Triple.perform (idle_stable hcond t) (fun _ _ _ _ _ _ => trivial) ?_
  intro s r s' _ hidle hperf _
  obtain ⟨⟨ch, hperform⟩, -⟩ := hperf
  simp only [State.perform] at hperform
  split at hperform
  · cases hperform
  · rename_i m hm
    split at hperform
    · cases hperform
    · cases hperform
      exact ⟨m.session, Function.update_self .., hidle⟩

theorem load_triple (lock : Nat) (session : Session) :
    refreshes.Triple cond t (Locked t lock session) (perform (.load lock))
      fun r s => r = .ok session ∧ Locked t lock session s := by
  refine Triple.perform (locked_stable hcond t lock session) (fun _ _ _ _ _ _ => trivial) ?_
  intro s r s' _ hlocked hperf _
  obtain ⟨⟨ch, hperform⟩, -⟩ := hperf
  obtain ⟨m, hm, heq⟩ := Option.map_eq_some_iff.mp hperform
  obtain rfl := Option.some.inj (hlocked.1.symm.trans hm)
  cases heq
  exact ⟨rfl, hlocked⟩

theorem unlock_triple (lock : Nat) (session : Session) :
    refreshes.Triple cond t (Locked t lock session) (perform (.unlock lock))
      fun _ => refreshes.idle t := by
  refine Triple.perform (locked_stable hcond t lock session) ?_ ?_
  · exact fun s _ _ _ hlocked _ => ⟨hlocked.2, _, hlocked.1, rfl⟩
  · intro s r s' _ hlocked hperf _
    obtain ⟨⟨ch, hperform⟩, -⟩ := hperf
    obtain ⟨m, hm, heq⟩ := Option.map_eq_some_iff.mp hperform
    cases heq
    exact hlocked.2

theorem end_triple (id : String) (lock : Nat) (session : Session) :
    refreshes.Triple cond t (Locked t lock session) (endSession id)
      fun _ => Locked t lock session := by
  refine plain_triple (locked_stable hcond t lock session) (fun _ => trivial) ?_
  intro s r s' hperf hlocked
  obtain ⟨⟨ch, hperform⟩, -⟩ := hperf
  cases hperform
  exact hlocked

/-- What a call knows once its refresh has come out: nothing was said, or it has the
provider's answer. -/
def Refreshed (t lock : Nat) (session : Session) (token : String) (now : Instant)
    (s : State) (result : Except IdpError TokenGrant) : Prop :=
  ((∃ reason, result = .error (.unavailable reason)) ∧ Locked t lock session s) ∨
    ∃ response, Asking t lock session token (some response) s ∧
      Reply.isUnavailable (.ok response) = false ∧
      result = (readReply (.ok response)).map fun token => token.grant now

theorem refresh_triple {lock : Nat} {session : Session} {token : String}
    (htoken : session.refreshToken = some token) (now : Instant) :
    refreshes.Triple cond t (Locked t lock session) (refresh token now)
      fun r s => ∀ result, r = .ok result → Refreshed t lock session token now s result := by
  have hsend : refreshes.Triple cond t (Locked t lock session) (perform (.send token))
      fun _ => Asking t lock session token none := by
    refine Triple.perform (locked_stable hcond t lock session) ?_ ?_
    · exact fun s _ _ _ hlocked _ => ⟨hlocked.2, lock, _, hlocked.1, rfl, htoken⟩
    · intro s r s' _ hlocked hperf _
      obtain ⟨⟨ch, hperform⟩, -⟩ := hperf
      cases hperform
      exact ⟨hlocked.1, htoken, _, Function.update_self .., rfl, nofun⟩
  have hreply : refreshes.Triple cond t (Asking t lock session token none) (perform .reply)
      fun r s => ∀ reply, r = .ok reply → Refreshed t lock session token now s
        ((readReply reply).map fun token => token.grant now) := by
    refine Triple.perform (asking_stable hcond t lock session token none)
      (fun _ _ _ _ _ _ => trivial) ?_
    intro s r s' _ hasking hperf _ reply hreply
    obtain ⟨hmine, -, request, hrequest, hsame, -⟩ := hasking
    -- a reply that says nothing ends the refresh
    have hgave : reply.isUnavailable = true → s' = s.giveUp t request →
        Refreshed t lock session token now s'
          ((readReply reply).map fun token => token.grant now) := by
      rintro hnone rfl
      refine .inl ⟨?_, hmine, Function.update_self ..⟩
      unfold Reply.isUnavailable at hnone
      split at hnone
      · rename_i reason heq
        rw [heq]
        exact ⟨reason, rfl⟩
      · cases hnone
    obtain ⟨⟨ch, hperform⟩, -⟩ := hperf
    simp only [State.perform, hrequest] at hperform
    split at hperform
    · split at hperform
      · rename_i hnone
        cases hperform
        cases hreply
        exact hgave hnone rfl
      · cases hperform
    · rename_i answer _ hanswer
      split at hperform
      · rename_i hnone
        cases hperform
        cases hreply
        exact hgave hnone rfl
      · rename_i hsays
        cases hperform
        cases hreply
        refine .inr ⟨answer, ⟨hmine, htoken, request, hrequest, hsame, fun response heq => ?_⟩,
          Bool.eq_false_iff.mpr hsays, rfl⟩
        rw [hanswer, Option.some.inj heq]
    · cases hperform
  refine hsend.bind (fun _ => hreply.bind (fun reply => Triple.ret ?_) ?_) ?_
  · intro s _ hrefreshed result heq
    cases heq
    exact hrefreshed reply rfl
  · exact fun e => e.elim
  · exact fun e => e.elim

/-- The provider's answer is recorded. -/
theorem store_triple {lock : Nat} {session session' : Session} {token : String}
    {response : Response}
    (hrecords : ∀ request : Request, request.answer = some response →
      Records request session session') :
    refreshes.Triple cond t (Asking t lock session token (some response))
      (perform (.store lock session')) fun _ => Locked t lock session' := by
  refine Triple.perform (asking_stable hcond t lock session token (some response)) ?_ ?_
  · rintro s _ _ _ ⟨hmine, htoken, request, hrequest, hsame, hanswer⟩ _
    refine ⟨_, request, hmine, rfl, hrequest, ?_, hrecords request (hanswer response rfl)⟩
    rw [hsame]
    exact htoken
  · rintro s r s' _ ⟨hmine, -⟩ hperf _
    obtain ⟨⟨ch, hperform⟩, -⟩ := hperf
    obtain ⟨m, hm, heq⟩ := Option.map_eq_some_iff.mp hperform
    obtain rfl := Option.some.inj (hmine.symm.trans hm)
    cases heq
    exact ⟨Function.update_self .., Function.update_self ..⟩

theorem return_triple {lock : Nat} {session : Session} (result : SessionCheck) :
    refreshes.Triple cond t (Locked t lock session)
      (perform (.unlock lock) >>= fun _ => pure result) fun _ => refreshes.idle t :=
  (unlock_triple hcond _ _).bind (fun _ => Triple.ret fun _ _ h => h) fun _ _ _ h => h

/-- What a check does with what came of its refresh. -/
theorem refreshed_triple {lock : Nat} {session : Session} {token : String} {now : Instant}
    (id : String) (result : Except IdpError TokenGrant) :
    refreshes.Triple cond t (Refreshed t lock session token now · result)
      (match result with
        | .ok grant => do
            perform (.store lock { session with
              expiresAt := grant.expiresAt
              refreshToken := grant.refreshToken.or session.refreshToken })
            perform (.unlock lock)
            return .signedIn session.subject
        | .error (.rejected _) => do
            perform (.store lock { session with refreshToken := none })
            endSession id
            perform (.unlock lock)
            return .signedOut
        | .error (.unavailable _) => do
            perform (.unlock lock)
            return .idpUnavailable : Code SessionCheck)
      fun _ => refreshes.idle t := by
  have hcase : ∀ {p : Code SessionCheck}, (∀ reason, result ≠ .error (.unavailable reason)) →
      (∀ response, result = (readReply (.ok response)).map (fun token => token.grant now) →
        refreshes.Triple cond t (Asking t lock session token (some response)) p
          fun _ => refreshes.idle t) →
      refreshes.Triple cond t (Refreshed t lock session token now · result) p
        fun _ => refreshes.idle t := by
    rintro p hnot hp s hi (⟨⟨reason, heq⟩, -⟩ | ⟨response, hasking, -, heq⟩)
    · exact absurd heq (hnot reason)
    · exact hp response heq s hi hasking
  match result with
  | .ok grant =>
      refine hcase nofun fun response hread => ?_
      have hrenewed : ∀ request : Request, request.answer = some response →
          request.renewed = grant.refreshToken := by
        intro request hanswer
        rw [renewed_of_answer hanswer]
        cases hreply : readReply (.ok response) with
        | error e =>
            rw [hreply] at hread
            cases hread
        | ok granted =>
            rw [hreply] at hread
            cases hread
            rfl
      refine (store_triple hcond fun request hanswer => ?_).bind
        (fun _ => return_triple hcond _) fun e => e.elim
      show grant.refreshToken.or session.refreshToken = request.renewed ∨ _
      rw [hrenewed request hanswer]
      cases grant.refreshToken with
      | none => exact .inr ⟨rfl, rfl⟩
      | some new => exact .inl rfl
  | .error (.rejected reason) =>
      refine hcase nofun fun response hread => ?_
      refine (store_triple hcond fun request hanswer => .inl ?_).bind (fun _ =>
        (end_triple hcond id lock _).bind (fun _ => return_triple hcond _) fun e => e.elim)
        fun e => e.elim
      show none = request.renewed
      rw [renewed_of_answer hanswer]
      cases hreply : readReply (.ok response) with
      | error e => rfl
      | ok granted =>
          rw [hreply] at hread
          cases hread
  | .error (.unavailable reason) =>
      refine Triple.pre (W := Locked t lock session) (return_triple hcond _) fun s _ h => ?_
      rcases h with ⟨-, hlocked⟩ | ⟨response, -, hsays, heq⟩
      · exact hlocked
      · unfold Reply.isUnavailable at hsays
        cases hreply : readReply (.ok response) with
        | ok granted =>
            rw [hreply] at heq
            cases heq
        | error e =>
            rw [hreply] at heq hsays
            cases heq
            cases hsays

theorem check_triple (id : String) (now : Instant) :
    refreshes.Triple cond t (refreshes.idle t) (check id now) fun _ => refreshes.idle t := by
  have hget : refreshes.Triple cond t (refreshes.idle t) (perform (.get id))
      fun _ => refreshes.idle t := by
    refine plain_triple (idle_stable hcond t) (fun _ => trivial) ?_
    intro s r s' hperf hidle
    obtain ⟨⟨ch, hperform⟩, -⟩ := hperf
    cases hperform
    exact hidle
  refine hget.bind (fun found => ?_) fun _ _ _ h => h
  cases found with
  | none => exact Triple.ret fun _ _ h => h
  | some lock =>
      refine (lock_triple hcond lock).bind (fun _ => ?_) fun e => e.elim
      refine Triple.of_exists fun session => ?_
      refine (load_triple hcond lock session).bind (fun loaded => ?_) fun e => e.elim
      refine Triple.of_fact (fun s _ h => h.1) fun hloaded => ?_
      cases hloaded
      refine Triple.pre ?_ fun s _ h => h.2
      dsimp only
      split
      · exact return_triple hcond _
      split
      · exact (end_triple hcond id lock session).bind (fun _ => return_triple hcond _) fun e => e.elim
      rename_i token htoken
      refine (refresh_triple hcond htoken now).bind (fun result => ?_) fun e => e.elim
      have hsaid : refreshes.Triple cond t (Refreshed t lock session token now · result) _
          fun _ => refreshes.idle t := refreshed_triple hcond id result
      exact hsaid.pre fun s _ h => h result rfl

theorem answer_triple (result : SessionCheck) :
    refreshes.Triple cond t (refreshes.idle t) (perform (.answer result))
      fun _ => refreshes.idle t := by
  refine plain_triple (idle_stable hcond t) (fun _ => trivial) ?_
  intro s r s' hperf hidle
  obtain ⟨⟨ch, hperform⟩, -⟩ := hperf
  cases hperform
  exact hidle

theorem start_triple (subject : String) (grant : TokenGrant) (now : Instant) :
    refreshes.Triple cond t (refreshes.idle t) (perform (.start subject grant now))
      fun _ => refreshes.idle t := by
  refine plain_triple (idle_stable hcond t) (fun _ => trivial) ?_
  intro s r s' hperf hidle
  obtain ⟨⟨ch, hperform⟩, -⟩ := hperf
  simp only [State.perform] at hperform
  split at hperform
  · cases hperform
  · cases hperform
    exact hidle

theorem remove_triple (id : String) :
    refreshes.Triple cond t (refreshes.idle t) (perform (.remove id))
      fun _ => refreshes.idle t := by
  refine plain_triple (idle_stable hcond t) (fun _ => trivial) ?_
  intro s r s' hperf hidle
  obtain ⟨⟨ch, hperform⟩, -⟩ := hperf
  cases hperform
  exact hidle

end Triples

theorem tokens_new : Tokens State.new where
  issued p token h := by cases p <;> cases h
  spentIssued token h := by cases h
  apart p q token h _ := by cases p <;> cases h
  waiting t request h := by cases h
  granted t token h := by cases h
  exchanged lock m token h _ _ := by cases h
  presented p h := by cases h

/-- **Refresh tokens** in every run that records what the provider grants. -/
theorem refreshes_valid (hcond : cond.Le recordsGrants) : refreshes.Valid cond where
  init s hs := by
    rw [show s = State.new from hs]
    exact ⟨tokens_new, fun _ => rfl⟩
  step t o s r s' hi hpre hperf := tokens_performs hcond hi hpre hperf
  env s s' kill hi he := by
    refine ⟨tokens_happens hcond hi he, fun t hkill => ?_⟩
    cases outside_happens hcond he with
    | received _ _ _ _ hkills =>
        rw [hkills] at hkill
        cases hkill
    | dropped _ heq hkills =>
        rw [hkills] at hkill
        rw [of_decide_eq_true hkill, heq]
        show (State.dropped _ s).requests _ = none
        rw [dropped_requests, Function.update_self]
  idle t := idle_stable hcond t
  start t a p := by
    refine Triple.of_fact (F := p = a.code) (fun s _ h => ?_) fun hp => ?_
    · exact (Option.some.inj h.2).symm
    rw [hp]
    refine Triple.pre ?_ fun s _ h => h.1
    cases a with
    | start subject grant now =>
        exact (start_triple hcond subject grant now).bind (fun _ => Triple.ret fun _ _ h => h)
          fun e => e.elim
    | endSession id => exact remove_triple hcond id
    | check id now =>
        exact (check_triple hcond id now).bind (fun result => answer_triple hcond result)
          fun e => e.elim

end Flowlite.Auth
