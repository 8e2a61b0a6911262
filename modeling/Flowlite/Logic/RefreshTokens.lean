import Flowlite.Auth.Sessions
import Flowlite.Threads.Outline

/-!
# Refresh tokens

A refresh token that the provider would still take is in one place: in its session, or in
a reply that has yet to be recorded. One that it has exchanged is out of its session as soon
as the reply is recorded there, and nobody else asks in between, because whoever does has
the session's lock. That is `Tokens`, and it takes that every reply that grants something
is recorded (`recordsGrants`).
-/

namespace Flowlite.Auth

open Store Threads Machine Outline

variable {cond : sessionStore.Condition} {s s' : State} {t : Nat}

/-- The refresh token that the answer grants. -/
def Request.renewed (request : Request) : Option String :=
  request.answer.bind fun answer =>
    match readReply (.ok answer) with
    | .ok token => token.refreshToken
    | .error _ => none

theorem renewed_of_answer {request : Request} {response : Response}
    (h : request.answer = some response) : request.renewed =
      match readReply (.ok response) with
      | .ok token => token.refreshToken
      | .error _ => none := by
  unfold Request.renewed
  rw [h]
  rfl

/-- The provider has granted what call `t` asks for. -/
def State.isGranted (s : State) (t : Nat) : Bool :=
  (s.requests t).any fun request => request.renewed.isSome

/-- Once the provider has granted a refresh, the call that asked for it is there to record
it: it is neither dropped nor gives up, before the request arrives or after. -/
def recordsGrants : sessionStore.Condition where
  step t o s _ s' := o = .reply → s.isGranted t = true → s'.isGranted t = true
  env e s _ :=
    match e with
    | .receive _ _ => True
    | .receiveAbandoned _ _ => False
    | .drop t => s.isGranted t = false

instance : recordsGrants.Checked where
  step t o s r s' := by
    dsimp only [recordsGrants]
    infer_instance
  env e s s' := by
    dsimp only [recordsGrants]
    cases e <;> infer_instance

/-! ## What one operation does -/

/-- What an operation of call `t` changes of the sessions, the requests and the provider. -/
inductive Moves (t : Nat) (o : Op) (s s' : State) : Prop
  | none : s'.mutexes = s.mutexes → s'.requests = s.requests → s'.provider = s.provider →
      s'.presented = s.presented → Moves t o s s'
  | started {lock : Nat} {session : Session} : s.mutexes lock = .none →
      (∀ token, session.refreshToken = some token → token ∉ s.provider.issued) →
      s'.mutexes = Function.update s.mutexes lock (some { session, holder := .none }) →
      s'.requests = s.requests →
      s'.provider = { s.provider with
        issued := session.refreshToken.toList ++ s.provider.issued } →
      s'.presented = s.presented → Moves t o s s'
  | locked {lock : Nat} {m : Mutex} : o = .lock lock → s.mutexes lock = some m →
      m.holder = .none → s' = s.setHolder lock m (some t) → Moves t o s s'
  | unlocked {lock : Nat} {m : Mutex} : o = .unlock lock → s.mutexes lock = some m →
      s' = s.setHolder lock m .none → Moves t o s s'
  | stored {lock : Nat} {m : Mutex} {session : Session} : o = .store lock session →
      s.mutexes lock = some m →
      s' = { s with
        mutexes := Function.update s.mutexes lock (some { m with session })
        requests := Function.update s.requests t .none } → Moves t o s s'
  | sent {token id : String} : o = .send token →
      s' = { s with
        requests := Function.update s.requests t (some { id, token, answer := .none }) } →
      Moves t o s s'
  | gaveUp {request : Request} : o = .reply → s.requests t = some request →
      s' = s.giveUp t request → Moves t o s s'

theorem moves_performs {o : Op} {r : Result o} (h : Performs cond t o s r s') :
    Moves t o s s' := by
  obtain ⟨⟨ch, hperform⟩, -⟩ := h
  cases o with
  | start subject grant now =>
      simp only [State.perform] at hperform
      split at hperform
      · cases hperform
      · rename_i hfresh
        cases hperform
        simp only [not_or, not_exists, not_and, Bool.not_eq_true, Option.isSome_eq_false_iff,
          Option.isNone_iff_eq_none] at hfresh
        exact .started hfresh.2.1 (fun token htoken => hfresh.2.2 token htoken) rfl rfl rfl rfl
  | lock lock =>
      simp only [State.perform] at hperform
      split at hperform
      · cases hperform
      · rename_i m hm
        split at hperform
        · cases hperform
        · rename_i hfree
          cases hperform
          exact .locked rfl hm (Option.not_isSome_iff_eq_none.mp hfree) rfl
  | unlock lock =>
      obtain ⟨m, hm, heq⟩ := Option.map_eq_some_iff.mp hperform
      cases heq
      exact .unlocked rfl hm rfl
  | store lock session =>
      obtain ⟨m, hm, heq⟩ := Option.map_eq_some_iff.mp hperform
      cases heq
      exact .stored rfl hm rfl
  | load lock =>
      obtain ⟨m, hm, heq⟩ := Option.map_eq_some_iff.mp hperform
      cases heq
      exact .none rfl rfl rfl rfl
  | send token =>
      cases hperform
      exact .sent rfl rfl
  | reply =>
      simp only [State.perform] at hperform
      split at hperform
      · cases hperform
      · rename_i request hrequest
        split at hperform
        · split at hperform
          · cases hperform
            exact .gaveUp rfl hrequest rfl
          · cases hperform
        · split at hperform
          · cases hperform
            exact .gaveUp rfl hrequest rfl
          · cases hperform
            exact .none rfl rfl rfl rfl
        · cases hperform
  | get id | remove id | answer result =>
      cases hperform
      exact .none rfl rfl rfl rfl

/-- What happens outside the calls: a request arrives, or a call is dropped. -/
inductive Outside (s s' : State) (kill : Nat → Bool) : Prop
  | received {t : Nat} {request : Request} {answer : Response} {offer : TokenResponse}
      {s₁ : State} : s.requests t = some request → request.answer = none →
      s.present request offer = some (answer, s₁) → s' = s₁.answered t request answer →
      (kill = fun _ => false) → Outside s s' kill
  | dropped {t : Nat} : s.isGranted t = false → s' = s.dropped t → (kill = fun u => u = t) →
      Outside s s' kill

theorem outside_happens {kill : Nat → Bool} (hcond : cond.Le recordsGrants)
    (h : Happens cond s s' kill) : Outside s s' kill := by
  obtain ⟨e, he, hmeets⟩ := h
  have hmeets := hcond.2 e s s' hmeets
  cases e with
  | receive t offer =>
      simp only [State.env] at he
      split at he
      · cases he
      · rename_i request hrequest
        split at he
        · cases he
        · rename_i hopen
          obtain ⟨⟨answer, s₁⟩, hpresent, heq⟩ := Option.map_eq_some_iff.mp he
          cases heq
          exact .received hrequest (Option.not_isSome_iff_eq_none.mp hopen) hpresent rfl rfl
  | receiveAbandoned i offer => exact hmeets.elim
  | drop t =>
      cases he
      exact .dropped hmeets rfl rfl

/-! ## Where refresh tokens are -/

inductive Place
  | session (lock : Nat)
  | reply (t : Nat)
  deriving DecidableEq

/-- The refresh token that is kept there. -/
def State.kept (s : State) : Place → Option String
  | .session lock => (s.mutexes lock).bind fun m => m.session.refreshToken
  | .reply t => (s.requests t).bind Request.renewed

/-- What holds of the tokens. -/
structure Tokens (s : State) : Prop where
  issued : ∀ p token, s.kept p = some token → token ∈ s.provider.issued
  spentIssued : ∀ token ∈ s.provider.spent, token ∈ s.provider.issued
  apart : ∀ p q token, s.kept p = some token → s.kept q = some token → p = q
  /-- A call that asks the provider has locked the session whose token it asks with. -/
  waiting : ∀ t request, s.requests t = some request → ∃ lock m, s.mutexes lock = some m ∧
    m.holder = some t ∧ m.session.refreshToken = some request.token
  /-- What has been granted has not been presented yet. -/
  granted : ∀ t token, s.kept (.reply t) = some token → token ∉ s.provider.spent
  /-- A session with a token that has been exchanged is about to be given its new one. -/
  exchanged : ∀ lock m token, s.mutexes lock = some m → m.session.refreshToken = some token →
    token ∈ s.provider.spent → ∃ t request, m.holder = some t ∧ s.requests t = some request ∧
      request.token = token ∧ request.renewed.isSome = true
  presented : ∀ p ∈ s.presented, p.spent = false

/-- The session is given the token that is granted, and keeps its own where none is. -/
def Records (request : Request) (before after : Session) : Prop :=
  after.refreshToken = request.renewed ∨
    request.renewed = none ∧ after.refreshToken = before.refreshToken

/-- The calls on the sessions. -/
def refreshes : Outline sessionStore where
  inv := Tokens
  pre t o s :=
    match o with
    | .send token => s.requests t = none ∧ ∃ lock m, s.mutexes lock = some m ∧
        m.holder = some t ∧ m.session.refreshToken = some token
    | .store lock session => ∃ m request, s.mutexes lock = some m ∧ m.holder = some t ∧
        s.requests t = some request ∧ m.session.refreshToken = some request.token ∧
        Records request m.session session
    | .unlock lock => s.requests t = none ∧ ∃ m, s.mutexes lock = some m ∧ m.holder = some t
    | _ => True
  idle t s := s.requests t = none

theorem kept_session {lock : Nat} {m : Mutex} (h : s.mutexes lock = some m) :
    s.kept (.session lock) = m.session.refreshToken := by
  show (s.mutexes lock).bind _ = _
  rw [h]
  rfl

theorem kept_reply {request : Request} (h : s.requests t = some request) :
    s.kept (.reply t) = request.renewed := by
  show (s.requests t).bind _ = _
  rw [h]
  rfl

theorem kept_update {lock : Nat} {m : Mutex}
    (hm : s'.mutexes = Function.update s.mutexes lock (some m)) (lock' : Nat) :
    s'.kept (.session lock') =
      if lock' = lock then m.session.refreshToken else s.kept (.session lock') := by
  show (s'.mutexes lock').bind _ = _
  rw [hm, Function.update_apply]
  by_cases heq : lock' = lock
  · rw [if_pos heq, if_pos heq]
    rfl
  · rw [if_neg heq, if_neg heq]
    rfl

theorem kept_request {request : Option Request}
    (hr : s'.requests = Function.update s.requests t request) (u : Nat) :
    s'.kept (.reply u) = if u = t then request.bind Request.renewed else s.kept (.reply u) := by
  show (s'.requests u).bind _ = _
  rw [hr, Function.update_apply]
  by_cases heq : u = t
  · rw [if_pos heq, if_pos heq]
  · rw [if_neg heq, if_neg heq]
    rfl

theorem kept_sessions (hm : s'.mutexes = s.mutexes) (lock : Nat) :
    s'.kept (.session lock) = s.kept (.session lock) :=
  congrArg (fun mutexes : Nat → Option Mutex => (mutexes lock).bind fun m =>
    m.session.refreshToken) hm

theorem kept_replies (hr : s'.requests = s.requests) (u : Nat) :
    s'.kept (.reply u) = s.kept (.reply u) :=
  congrArg (fun requests : Nat → Option Request => (requests u).bind Request.renewed) hr

/-! ## What keeps the tokens apart -/

/-- What the provider has seen and granted is as it was, and nothing is kept anywhere that
was not kept there. -/
theorem Tokens.of_kept (hi : Tokens s) (hp : s'.provider = s.provider)
    (hlog : s'.presented = s.presented)
    (hkept : ∀ p token, s'.kept p = some token → s.kept p = some token)
    (hwaiting : ∀ t request, s'.requests t = some request → ∃ lock m, s'.mutexes lock = some m ∧
      m.holder = some t ∧ m.session.refreshToken = some request.token)
    (hexchanged : ∀ lock m token, s'.mutexes lock = some m →
      m.session.refreshToken = some token → token ∈ s.provider.spent →
      ∃ t request, m.holder = some t ∧ s'.requests t = some request ∧
        request.token = token ∧ request.renewed.isSome = true) : Tokens s' where
  issued p token h := by
    rw [hp]
    exact hi.issued p token (hkept p token h)
  spentIssued := by
    rw [hp]
    exact hi.spentIssued
  apart p q token h h' := hi.apart p q token (hkept p token h) (hkept q token h')
  waiting := hwaiting
  granted t token h := by
    rw [hp]
    exact hi.granted t token (hkept _ token h)
  exchanged lock m token hm htoken hspent := by
    rw [hp] at hspent
    exact hexchanged lock m token hm htoken hspent
  presented := by
    rw [hlog]
    exact hi.presented

theorem Tokens.of_same (hi : Tokens s) (hm : s'.mutexes = s.mutexes)
    (hr : s'.requests = s.requests) (hp : s'.provider = s.provider)
    (hlog : s'.presented = s.presented) : Tokens s' := by
  refine hi.of_kept hp hlog ?_ ?_ ?_
  · intro p token h
    unfold State.kept at h ⊢
    rwa [hm, hr] at h
  · rw [hm, hr]
    exact hi.waiting
  · rw [hm, hr]
    exact hi.exchanged

/-- A session is started, at a place nobody uses and with a token nobody has. -/
theorem Tokens.start (hi : Tokens s) {lock : Nat} {session : Session}
    (hfree : s.mutexes lock = none)
    (hfresh : ∀ token, session.refreshToken = some token → token ∉ s.provider.issued)
    (hm : s'.mutexes = Function.update s.mutexes lock (some { session, holder := none }))
    (hr : s'.requests = s.requests)
    (hp : s'.provider = { s.provider with
      issued := session.refreshToken.toList ++ s.provider.issued })
    (hlog : s'.presented = s.presented) : Tokens s' := by
  have hnew : ∀ p token, session.refreshToken = some token → s.kept p ≠ some token :=
    fun p token h hkept => hfresh token h (hi.issued p token hkept)
  have hold : ∀ {lock' m}, s.mutexes lock' = some m → lock' ≠ lock := by
    rintro lock' m hsome rfl
    rw [hfree] at hsome
    cases hsome
  have hkept : ∀ p token, s'.kept p = some token →
      (p = .session lock ∧ session.refreshToken = some token) ∨ s.kept p = some token := by
    intro p token h
    cases p with
    | session lock' =>
        rw [kept_update hm] at h
        split at h
        · rename_i heq
          exact .inl ⟨congrArg _ heq, h⟩
        · exact .inr h
    | reply u =>
        rw [kept_replies hr] at h
        exact .inr h
  refine ⟨?_, ?_, ?_, ?_, ?_, ?_, ?_⟩
  · intro p token h
    rw [hp]
    refine List.mem_append.mpr ?_
    rcases hkept p token h with ⟨-, hgrant⟩ | hkept
    · exact .inl (Option.mem_toList.mpr hgrant)
    · exact .inr (hi.issued p token hkept)
  · rw [hp]
    exact fun token h => List.mem_append.mpr (.inr (hi.spentIssued token h))
  · intro p q token h h'
    rcases hkept p token h with ⟨heq, hgrant⟩ | hold
    · rcases hkept q token h' with ⟨heq', -⟩ | hold'
      · exact heq.trans heq'.symm
      · exact absurd hold' (hnew q token hgrant)
    · rcases hkept q token h' with ⟨-, hgrant'⟩ | hold'
      · exact absurd hold (hnew p token hgrant')
      · exact hi.apart p q token hold hold'
  · intro t request h
    rw [hr] at h
    obtain ⟨lock', m, hsome, hrest⟩ := hi.waiting t request h
    rw [hm]
    exact ⟨lock', m, (Function.update_of_ne (hold hsome) _ _).trans hsome, hrest⟩
  · intro t token h
    rw [kept_replies hr] at h
    rw [hp]
    exact hi.granted t token h
  · intro lock' m token hsome htoken hspent
    rw [hm] at hsome
    rw [hp] at hspent
    rw [hr]
    by_cases heq : lock' = lock
    · rw [heq, Function.update_self] at hsome
      cases hsome
      exact absurd (hi.spentIssued token hspent) (hfresh token htoken)
    · rw [Function.update_of_ne heq] at hsome
      exact hi.exchanged lock' m token hsome htoken hspent
  · rw [hlog]
    exact hi.presented

/-- A lock changes hands that nobody waits with. -/
theorem Tokens.setHolder (hi : Tokens s) {lock : Nat} {m : Mutex} {holder : Option Nat}
    (hsome : s.mutexes lock = some m)
    (hidle : ∀ u, m.holder = some u → s.requests u = none) :
    Tokens (s.setHolder lock m holder) := by
  have hmutexes : (s.setHolder lock m holder).mutexes =
    Function.update s.mutexes lock (some { m with holder }) := rfl
  refine hi.of_kept rfl rfl ?_ ?_ ?_
  · intro p token h
    cases p with
    | reply u => exact h
    | session lock' =>
        rw [kept_update hmutexes] at h
        split at h
        · rename_i heq
          rw [heq, kept_session hsome]
          exact h
        · exact h
  · intro u request h
    obtain ⟨lock', m', hm', hholder, htoken⟩ := hi.waiting u request h
    have hne : lock' ≠ lock := by
      rintro rfl
      cases hsome.symm.trans hm'
      cases (hidle u hholder).symm.trans h
    rw [hmutexes]
    exact ⟨lock', m', (Function.update_of_ne hne _ _).trans hm', hholder, htoken⟩
  · intro lock' m' token hm' htoken hspent
    rw [hmutexes] at hm'
    by_cases heq : lock' = lock
    · rw [heq, Function.update_self] at hm'
      cases hm'
      obtain ⟨u, request, hholder, hrequest, -⟩ := hi.exchanged lock m token hsome htoken hspent
      cases (hidle u hholder).symm.trans hrequest
    · rw [Function.update_of_ne heq] at hm'
      exact hi.exchanged lock' m' token hm' htoken hspent

theorem not_granted {request : Request} (hnot : s.isGranted t = false)
    (hrequest : s.requests t = some request) : request.renewed.isSome = false := by
  unfold State.isGranted at hnot
  rwa [hrequest] at hnot

/-- A refresh ends that nothing was granted to, and perhaps gives back its lock. -/
theorem Tokens.forget (hi : Tokens s) (hnot : s.isGranted t = false)
    (hr : s'.requests = Function.update s.requests t none)
    (hm : ∀ lock m', s'.mutexes lock = some m' → ∃ m, s.mutexes lock = some m ∧
      m'.session.refreshToken = m.session.refreshToken ∧
      (m'.holder = m.holder ∨ m.holder = some t))
    (hothers : ∀ lock m, s.mutexes lock = some m → m.holder ≠ some t →
      s'.mutexes lock = some m)
    (hp : s'.provider = s.provider) (hlog : s'.presented = s.presented) : Tokens s' := by
  refine hi.of_kept hp hlog ?_ ?_ ?_
  · intro p token h
    cases p with
    | session lock =>
        obtain ⟨m', hm', htoken⟩ := Option.bind_eq_some_iff.mp h
        obtain ⟨m, hsome, hkept, -⟩ := hm lock m' hm'
        rw [kept_session hsome, ← hkept]
        exact htoken
    | reply u =>
        obtain ⟨request, hrequest, hrenewed⟩ := Option.bind_eq_some_iff.mp h
        rw [hr, Function.update_apply] at hrequest
        split at hrequest
        · cases hrequest
        · rw [kept_reply hrequest]
          exact hrenewed
  · intro u request h
    rw [hr, Function.update_apply] at h
    split at h
    · cases h
    · rename_i hne
      obtain ⟨lock, m, hsome, hholder, htoken⟩ := hi.waiting u request h
      refine ⟨lock, m, hothers lock m hsome ?_, hholder, htoken⟩
      rw [hholder]
      exact fun h => hne (Option.some.inj h)
  · intro lock m' token hm' htoken hspent
    obtain ⟨m, hsome, hkept, hholder'⟩ := hm lock m' hm'
    rw [hkept] at htoken
    obtain ⟨u, request, hholder, hrequest, heq, hrenewed⟩ :=
      hi.exchanged lock m token hsome htoken hspent
    have hne : u ≠ t := by
      rintro rfl
      rw [not_granted hnot hrequest] at hrenewed
      cases hrenewed
    refine ⟨u, request, ?_, ?_, heq, hrenewed⟩
    · rcases hholder' with hsame | hmine
      · rw [hsame, hholder]
      · rw [hholder] at hmine
        exact absurd (Option.some.inj hmine) hne
    · rw [hr, Function.update_of_ne hne]
      exact hrequest

/-- A call that has the lock asks with the session's token. -/
theorem Tokens.send (hi : Tokens s) {lock : Nat} {m : Mutex} {token id : String}
    (hnone : s.requests t = none) (hsome : s.mutexes lock = some m) (hholder : m.holder = some t)
    (htoken : m.session.refreshToken = some token) (hm : s'.mutexes = s.mutexes)
    (hr : s'.requests = Function.update s.requests t (some { id, token, answer := none }))
    (hp : s'.provider = s.provider) (hlog : s'.presented = s.presented) : Tokens s' := by
  refine hi.of_kept hp hlog ?_ ?_ ?_
  · intro p token' h
    cases p with
    | session lock' => rwa [kept_sessions hm] at h
    | reply u =>
        rw [kept_request hr] at h
        split at h
        · cases h
        · exact h
  · intro u request h
    rw [hr, Function.update_apply] at h
    rw [hm]
    split at h
    · rename_i heq
      cases h
      exact ⟨lock, m, hsome, heq ▸ hholder, htoken⟩
    · exact hi.waiting u request h
  · intro lock' m' token' hm' htoken' hspent
    rw [hm] at hm'
    obtain ⟨u, request, hholder', hrequest, hrest⟩ :=
      hi.exchanged lock' m' token' hm' htoken' hspent
    have hne : u ≠ t := by
      rintro rfl
      cases hnone.symm.trans hrequest
    rw [hr]
    exact ⟨u, request, hholder', (Function.update_of_ne hne _ _).trans hrequest, hrest⟩

/-- A reply is recorded: what it grants is the session's token from then on. -/
theorem Tokens.store (hi : Tokens s) {lock : Nat} {m : Mutex} {request : Request}
    {session : Session} (hsome : s.mutexes lock = some m) (hholder : m.holder = some t)
    (hrequest : s.requests t = some request)
    (htoken : m.session.refreshToken = some request.token)
    (hrenewed : session.refreshToken = request.renewed)
    (hm : s'.mutexes = Function.update s.mutexes lock (some { m with session }))
    (hr : s'.requests = Function.update s.requests t none)
    (hp : s'.provider = s.provider) (hlog : s'.presented = s.presented) : Tokens s' := by
  -- what was kept in the reply is kept in the session
  have hkept : ∀ p token, s'.kept p = some token → ∃ q, s.kept q = some token ∧ p ≠ .reply t ∧
      ((p = .session lock ∧ q = .reply t) ∨ q = p) := by
    intro p token h
    cases p with
    | session lock' =>
        rw [kept_update hm] at h
        split at h
        · rename_i heq
          refine ⟨.reply t, ?_, nofun, .inl ⟨congrArg _ heq, rfl⟩⟩
          rw [kept_reply hrequest, ← hrenewed]
          exact h
        · exact ⟨.session lock', h, nofun, .inr rfl⟩
    | reply u =>
        rw [kept_request hr] at h
        split at h
        · cases h
        · rename_i hne
          exact ⟨.reply u, h, fun heq => hne (Place.reply.inj heq), .inr rfl⟩
  refine ⟨?_, ?_, ?_, ?_, ?_, ?_, ?_⟩
  · intro p token h
    obtain ⟨q, hq, -⟩ := hkept p token h
    rw [hp]
    exact hi.issued q token hq
  · rw [hp]
    exact hi.spentIssued
  · intro p q token h h'
    obtain ⟨p', hp', hpne, hwhere⟩ := hkept p token h
    obtain ⟨q', hq', hqne, hwhere'⟩ := hkept q token h'
    have hsame := hi.apart p' q' token hp' hq'
    rcases hwhere with ⟨hpl, hpr⟩ | hpp
    · rcases hwhere' with ⟨hql, -⟩ | hqq
      · rw [hpl, hql]
      · rw [hpr, hqq] at hsame
        exact absurd hsame.symm hqne
    · rcases hwhere' with ⟨-, hqr⟩ | hqq
      · rw [hqr, hpp] at hsame
        exact absurd hsame hpne
      · rw [← hpp, ← hqq, hsame]
  · intro u request' h
    rw [hr, Function.update_apply] at h
    split at h
    · cases h
    · rename_i hne
      obtain ⟨lock', m', hm', hholder', htoken'⟩ := hi.waiting u request' h
      have hlock : lock' ≠ lock := by
        rintro rfl
        cases hsome.symm.trans hm'
        exact hne (Option.some.inj (hholder'.symm.trans hholder))
      rw [hm]
      exact ⟨lock', m', (Function.update_of_ne hlock _ _).trans hm', hholder', htoken'⟩
  · intro u token h
    rw [kept_request hr] at h
    rw [hp]
    split at h
    · cases h
    · exact hi.granted u token h
  · intro lock' m' token hm' htoken' hspent
    rw [hp] at hspent
    rw [hm, Function.update_apply] at hm'
    split at hm'
    · -- what has just been recorded has not been presented
      cases hm'
      refine absurd hspent (hi.granted t token ?_)
      rw [kept_reply hrequest, ← hrenewed]
      exact htoken'
    · rename_i heq
      obtain ⟨u, request', hholder', hrequest', htok, hren⟩ :=
        hi.exchanged lock' m' token hm' htoken' hspent
      have hne : u ≠ t := by
        rintro rfl
        obtain rfl := Option.some.inj (hrequest'.symm.trans hrequest)
        -- the call has locked this session, not that one
        have hplace := hi.apart (.session lock') (.session lock) token
          (by rw [kept_session hm']; exact htoken')
          (by rw [kept_session hsome, ← htok]; exact htoken)
        exact heq (Place.session.inj hplace)
      rw [hr]
      exact ⟨u, request', hholder', (Function.update_of_ne hne _ _).trans hrequest', htok, hren⟩
  · rw [hlog]
    exact hi.presented

theorem renewed_of_open {request : Request} (h : request.answer = none) :
    request.renewed = none := by
  unfold Request.renewed
  rw [h]
  rfl

/-- A token that a call asks with has not been exchanged when it arrives. -/
theorem Tokens.fresh (hi : Tokens s) {request : Request} (hrequest : s.requests t = some request)
    (hopen : request.answer = none) : request.token ∉ s.provider.spent := by
  intro hspent
  obtain ⟨lock, m, hsome, hholder, htoken⟩ := hi.waiting t request hrequest
  obtain ⟨u, request', hholder', hrequest', -, hrenewed⟩ :=
    hi.exchanged lock m request.token hsome htoken hspent
  obtain rfl := Option.some.inj (hholder'.symm.trans hholder)
  obtain rfl := Option.some.inj (hrequest'.symm.trans hrequest)
  rw [renewed_of_open hopen] at hrenewed
  cases hrenewed

/-- What the provider does with a token it has not exchanged. -/
theorem present_fresh {request : Request} {answer : Response} {offer : TokenResponse}
    (hfresh : request.token ∉ s.provider.spent)
    (h : s.present request offer = some (answer, s')) :
    ∃ new entry, new ∉ s.provider.issued ∧
      Request.renewed { request with answer := answer } = some new ∧ entry.spent = false ∧
      s' = { s with
        provider := { issued := new :: s.provider.issued
                      spent := request.token :: s.provider.spent }
        presented := entry :: s.presented } := by
  unfold State.present Provider.exchange at h
  rw [if_neg hfresh] at h
  cases hoffer : offer.refreshToken with
  | none =>
      rw [hoffer] at h
      cases h
  | some new =>
      rw [hoffer] at h
      dsimp only at h
      by_cases hissued : new ∈ s.provider.issued
      · rw [if_pos hissued] at h
        cases h
      · rw [if_neg hissued] at h
        cases h
        exact ⟨new, _, hissued, hoffer, decide_eq_false hfresh, rfl⟩

/-- The request of a call arrives, and is granted. -/
theorem Tokens.receive (hi : Tokens s) {request answered : Request} {new : String}
    {entry : Presented} (hrequest : s.requests t = some request)
    (hopen : request.answer = none) (hissued : new ∉ s.provider.issued)
    (hsame : answered.token = request.token) (hrenewed : answered.renewed = some new)
    (hm : s'.mutexes = s.mutexes)
    (hr : s'.requests = Function.update s.requests t (some answered))
    (hp : s'.provider = { issued := new :: s.provider.issued
                          spent := request.token :: s.provider.spent })
    (hlog : s'.presented = entry :: s.presented) (hentry : entry.spent = false) : Tokens s' := by
  obtain ⟨lock, m, hsome, hholder, htoken⟩ := hi.waiting t request hrequest
  have hsession : s.kept (.session lock) = some request.token := by
    rw [kept_session hsome]
    exact htoken
  have hkept : ∀ p token, s'.kept p = some token →
      (p = .reply t ∧ token = new) ∨ s.kept p = some token := by
    intro p token h
    cases p with
    | session lock' =>
        rw [kept_sessions hm] at h
        exact .inr h
    | reply u =>
        rw [kept_request hr] at h
        split at h
        · rename_i heq
          exact .inl ⟨congrArg _ heq, Option.some.inj (h.symm.trans hrenewed)⟩
        · exact .inr h
  refine ⟨?_, ?_, ?_, ?_, ?_, ?_, ?_⟩
  · intro p token h
    rw [hp]
    rcases hkept p token h with ⟨-, rfl⟩ | hold
    · exact List.mem_cons_self
    · exact List.mem_cons_of_mem _ (hi.issued p token hold)
  · rw [hp]
    intro token h
    rcases List.mem_cons.mp h with rfl | h
    · exact List.mem_cons_of_mem _ (hi.issued _ _ hsession)
    · exact List.mem_cons_of_mem _ (hi.spentIssued token h)
  · intro p q token h h'
    rcases hkept p token h with ⟨heq, rfl⟩ | hold
    · rcases hkept q _ h' with ⟨heq', -⟩ | hold'
      · exact heq.trans heq'.symm
      · exact absurd (hi.issued q _ hold') hissued
    · rcases hkept q token h' with ⟨-, rfl⟩ | hold'
      · exact absurd (hi.issued p _ hold) hissued
      · exact hi.apart p q token hold hold'
  · intro u request' h
    rw [hr, Function.update_apply] at h
    rw [hm]
    split at h
    · rename_i heq
      cases h
      exact ⟨lock, m, hsome, heq ▸ hholder, by rw [hsame]; exact htoken⟩
    · exact hi.waiting u request' h
  · intro u token h hspent
    rw [hp] at hspent
    rcases hkept _ token h with ⟨-, rfl⟩ | hold
    · rcases List.mem_cons.mp hspent with rfl | hspent
      · exact hissued (hi.issued _ _ hsession)
      · exact hissued (hi.spentIssued _ hspent)
    · rcases List.mem_cons.mp hspent with rfl | hspent
      · cases hi.apart _ _ _ hold hsession
      · exact hi.granted u token hold hspent
  · intro lock' m' token hm' htoken' hspent
    rw [hm] at hm'
    rw [hp] at hspent
    rw [hr]
    rcases List.mem_cons.mp hspent with rfl | hspent
    · -- it is the session the call has locked
      have hplace := hi.apart (.session lock') (.session lock) _
        (by rw [kept_session hm']; exact htoken') hsession
      rw [Place.session.inj hplace] at hm'
      obtain rfl := Option.some.inj (hm'.symm.trans hsome)
      exact ⟨t, answered, hholder, Function.update_self .., hsame, by rw [hrenewed]; rfl⟩
    · obtain ⟨u, request', hholder', hrequest', htok, hren⟩ :=
        hi.exchanged lock' m' token hm' htoken' hspent
      have hne : u ≠ t := by
        rintro rfl
        obtain rfl := Option.some.inj (hrequest'.symm.trans hrequest)
        rw [renewed_of_open hopen] at hren
        cases hren
      exact ⟨u, request', hholder', (Function.update_of_ne hne _ _).trans hrequest', htok, hren⟩
  · rw [hlog]
    intro p h
    rcases List.mem_cons.mp h with rfl | h
    · exact hentry
    · exact hi.presented p h

/-! ## The outline -/

theorem tokens_performs {o : Op} {r : Result o} (hcond : cond.Le recordsGrants)
    (hi : Tokens s) (hpre : refreshes.pre t o s) (h : Performs cond t o s r s') : Tokens s' := by
  have hmeets := hcond.1 _ _ _ _ _ h.2
  cases moves_performs h with
  | none hm hr hp hlog => exact hi.of_same hm hr hp hlog
  | started hfree hfresh hm hr hp hlog => exact hi.start hfree hfresh hm hr hp hlog
  | locked ho hsome hfree heq =>
      rw [heq]
      refine hi.setHolder hsome fun u hholder => ?_
      rw [hfree] at hholder
      cases hholder
  | unlocked ho hsome heq =>
      subst ho
      obtain ⟨hnone, m', hm', hholder⟩ := hpre
      obtain rfl := Option.some.inj (hm'.symm.trans hsome)
      rw [heq]
      refine hi.setHolder hsome fun u hu => ?_
      rwa [← Option.some.inj (hholder.symm.trans hu)]
  | @stored lock _ _ ho hsome heq =>
      subst ho
      obtain ⟨m', request, hm', hholder, hrequest, htoken, hrenewed⟩ := hpre
      obtain rfl := Option.some.inj (hm'.symm.trans hsome)
      rw [heq]
      rcases hrenewed with hrenewed | ⟨hnone, hsame⟩
      · exact hi.store hsome hholder hrequest htoken hrenewed rfl rfl rfl rfl
      -- nothing is granted, and the session keeps its token
      refine hi.forget (t := t) ?_ rfl ?_ ?_ rfl rfl
      · unfold State.isGranted
        rw [hrequest, Option.any_some, hnone]
        rfl
      · intro lock' m'' hm''
        by_cases heq : lock' = lock
        · subst heq
          obtain rfl := Option.some.inj (hm''.symm.trans (Function.update_self ..))
          exact ⟨_, hsome, hsame, .inl rfl⟩
        · exact ⟨m'', (Function.update_of_ne heq _ _).symm.trans hm'', rfl, .inl rfl⟩
      · intro lock' m'' hm'' hother
        refine (Function.update_of_ne ?_ _ _).trans hm''
        rintro rfl
        obtain rfl := Option.some.inj (hm''.symm.trans hsome)
        exact hother hholder
  | sent ho heq =>
      subst ho
      obtain ⟨hnone, lock, m, hsome, hholder, htoken⟩ := hpre
      rw [heq]
      exact hi.send hnone hsome hholder htoken rfl rfl rfl rfl
  | gaveUp ho hrequest heq =>
      have hnone : s'.isGranted t = false := by
        rw [heq]
        show (Function.update s.requests t none t).any _ = false
        rw [Function.update_self]
        rfl
      have hnot : s.isGranted t = false := by
        cases hgranted : s.isGranted t with
        | false => rfl
        | true => rw [hmeets ho hgranted] at hnone; cases hnone
      rw [heq]
      exact hi.forget hnot rfl (fun lock m hm => ⟨m, hm, rfl, .inl rfl⟩)
        (fun lock m hm _ => hm) rfl rfl

theorem dropped_mutexes (t : Nat) (s : State) :
    (s.dropped t).mutexes = fun lock => (s.mutexes lock).map fun m =>
      if m.holder = some t then { m with holder := none } else m := by
  unfold State.dropped
  dsimp only
  split <;> rfl

theorem dropped_requests (t : Nat) (s : State) :
    (s.dropped t).requests = Function.update s.requests t none := by
  unfold State.dropped
  dsimp only
  split
  · rename_i hnone
    exact (Function.update_eq_self_iff.mpr hnone.symm).symm
  · rfl

theorem dropped_provider (t : Nat) (s : State) :
    (s.dropped t).provider = s.provider ∧ (s.dropped t).presented = s.presented := by
  unfold State.dropped
  dsimp only
  split <;> exact ⟨rfl, rfl⟩

theorem tokens_happens {kill : Nat → Bool} (hcond : cond.Le recordsGrants) (hi : Tokens s)
    (h : Happens cond s s' kill) : Tokens s' := by
  cases outside_happens hcond h with
  | received hrequest hopen hpresent heq =>
      obtain ⟨new, entry, hissued, hrenewed, hentry, rfl⟩ :=
        present_fresh (hi.fresh hrequest hopen) hpresent
      rw [heq]
      refine hi.receive hrequest hopen hissued ?_ hrenewed rfl rfl rfl rfl hentry
      rfl
  | @dropped u hnot heq _ =>
      rw [heq]
      refine hi.forget hnot (dropped_requests u s) ?_ ?_ (dropped_provider u s).1
        (dropped_provider u s).2
      · intro lock m' hm'
        rw [dropped_mutexes] at hm'
        obtain ⟨m, hsome, rfl⟩ := Option.map_eq_some_iff.mp hm'
        refine ⟨m, hsome, ?_⟩
        split
        · rename_i hholder
          exact ⟨rfl, .inr hholder⟩
        · exact ⟨rfl, .inl rfl⟩
      · intro lock m hsome hholder
        rw [dropped_mutexes]
        show (s.mutexes lock).map _ = _
        rw [hsome, Option.map_some, if_neg hholder]

end Flowlite.Auth
