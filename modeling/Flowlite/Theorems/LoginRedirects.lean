import Flowlite.Router.Session
import Flowlite.Text.Locations

/-!
# Where a login leads

The session middleware only ever leads to the login page of this server. Where the login
page leads to is up to `next`, and `safe_next` looks at it as it is, while a browser takes
tabs and line breaks out first: behind a slash, they hide the second one.
-/

namespace Flowlite.Router

open Store Threads Auth Text

variable {isHeaderValue : List Char → Bool} {server : Origin}

/-- Whatever it redirects to is on this server. -/
def StaysOn (server : Origin) : Answer → Prop
  | .redirect location _ | .htmxRedirect location => resolve server location = server
  | _ => True

/-- What can be asked of the middleware and of the login routes. -/
inductive Asked
  | guarded (request : Request)
  | loginPage (session : Option String) (next : Option (List Char))
  | login (session : Option String) (form : LoginForm) (granted : Except IdpError TokenGrant)

def Asked.answer (isHeaderValue : List Char → Bool) (auth : Bool) (now : Instant) :
    Asked → Auth.Code Answer
  | .guarded request => sessionMiddleware isHeaderValue auth request now
  | .loginPage session next => loginPageRoute isHeaderValue auth session next now
  | .login session form granted => loginRoute isHeaderValue auth session form granted now

/-- The `next` that is redirected to, where one is. -/
def Asked.next : Asked → Option (List Char)
  | .guarded _ => none
  | .loginPage session next => session.bind fun _ => next
  | .login _ form granted =>
      match granted with
      | .ok _ => form.next
      | .error _ => none

/-- A slash, nothing but tabs and line breaks, and then what a browser reads as the second
slash of another server. -/
def HidesServer (server : Origin) (next : List Char) : Prop :=
  ∃ (gap : List Char) (c : Char) (rest : List Char), next = '/' :: (gap ++ c :: rest) ∧
    gap ≠ [] ∧ (∀ g ∈ gap, isTabOrNewline g = true) ∧ (c = '/' ∨ c = '\\') ∧
    authorityOf (tidied rest) ≠ server.authority

/-! ## Local paths -/

theorem resolve_root (server : Origin) : resolve server "/".toList = server := by
  rw [show "/".toList = ['/'] from rfl, resolve_path, relativeTo_slash]
  intro rest h
  cases h

theorem isLocal_iff (next : List Char) :
    (startsWith next "/".toList && !startsWith next "//".toList
      && !startsWith next "/\\".toList) = true ↔
      ∃ s, next = '/' :: s ∧ s.head? ≠ some '/' ∧ s.head? ≠ some '\\' := by
  show (['/'].isPrefixOf next && !(['/', '/'].isPrefixOf next) && !(['/', '\\'].isPrefixOf next)) =
    true ↔ _
  cases next with
  | nil => simp
  | cons c s =>
      cases s with
      | nil => simp [List.isPrefixOf, eq_comm (a := c)]
      | cons d s =>
          simp only [List.isPrefixOf, Bool.and_true, Bool.and_eq_true, Bool.not_eq_true',
            Bool.and_eq_false_iff, beq_iff_eq, beq_eq_false_iff_ne]
          constructor
          · rintro ⟨⟨rfl, hslash⟩, hback⟩
            refine ⟨d :: s, rfl, fun h => ?_, fun h => ?_⟩
            · exact (hslash.resolve_left fun hne => hne rfl) (Option.some.inj h).symm
            · exact (hback.resolve_left fun hne => hne rfl) (Option.some.inj h).symm
          · rintro ⟨s', heq, hslash, hback⟩
            cases heq
            exact ⟨⟨rfl, .inr fun h => hslash (congrArg some h.symm)⟩,
              .inr fun h => hback (congrArg some h.symm)⟩

/-- `safe_next` and a browser agree but for what tabs and line breaks hide. -/
theorem resolve_safeNext (server : Origin) (next : List Char) :
    resolve server (safeNext next) = server ↔ ¬ HidesServer server next := by
  unfold safeNext
  dsimp only
  split
  · rename_i hlocal
    obtain ⟨s, rfl, hslash, hback⟩ := (isLocal_iff next).mp hlocal
    rw [resolve_path, relativeTo_slash]
    constructor
    · rintro h ⟨gap, c, rest, heq, -, hgap, hc, hother⟩
      injection heq with _ heq
      refine hother (h (tidied rest) ?_)
      exact tidied_eq_slash_cons.mpr ⟨gap, c, rest, heq, hgap, hc, rfl⟩
    · intro h rest htidied
      obtain ⟨gap, c, after, rfl, hgap, hc, rfl⟩ := tidied_eq_slash_cons.mp htidied
      by_contra hother
      refine h ⟨gap, c, after, rfl, ?_, hgap, hc, hother⟩
      rintro rfl
      rcases hc with rfl | rfl
      · exact hslash rfl
      · exact hback rfl
  · rename_i hnot
    refine iff_of_true (resolve_root server) ?_
    rintro ⟨gap, c, rest, rfl, hgap, htabs, -⟩
    refine hnot ((isLocal_iff _).mpr ⟨_, rfl, ?_⟩)
    cases gap with
    | nil => exact absurd rfl hgap
    | cons g gap =>
        have htab := htabs g List.mem_cons_self
        constructor
        · intro h
          rw [Option.some.inj h] at htab
          cases htab
        · intro h
          rw [Option.some.inj h] at htab
          cases htab

/-- The login page is on this server, whatever it is to come back to. -/
theorem resolve_loginLocation (server : Origin) (next : List Char) :
    resolve server (loginLocation next) = server := by
  unfold loginLocation
  dsimp only
  split
  · exact resolve_of_plain server (c := 'l') (s := "ogin".toList) rfl (by decide) (by decide)
  · exact resolve_of_plain server (c := 'l') (s := "ogin?next=".toList ++ _) rfl (by decide)
      (by decide)

/-! ## What the handlers redirect to -/

theorem staysOn_redirectTo (location : List Char) (session : Option String) :
    StaysOn server (redirectTo isHeaderValue location session) ↔
      (isHeaderValue location = true → resolve server location = server) := by
  unfold redirectTo
  split
  · rename_i hvalue
    exact ⟨fun h _ => h, fun h => h hvalue⟩
  · rename_i hvalue
    exact iff_of_true trivial fun h => absurd h hvalue

/-- What hides another server is passed on as it is. -/
theorem safeNext_of_hides {next : List Char} (h : HidesServer server next) :
    safeNext next = next := by
  have hleaves := (not_iff_not.mpr (resolve_safeNext server next)).mpr (not_not.mpr h)
  unfold safeNext at hleaves ⊢
  dsimp only at hleaves ⊢
  split at hleaves
  · rename_i hlocal
    rw [if_pos hlocal]
  · exact absurd (resolve_root server) hleaves

theorem staysOn_safeNext (next : Option (List Char)) (session : Option String) :
    StaysOn server (redirectTo isHeaderValue (safeNext (next.getD "/".toList)) session) ↔
      ∀ location, next = some location → isHeaderValue location = true →
        ¬ HidesServer server location := by
  rw [staysOn_redirectTo, resolve_safeNext]
  cases next with
  | none =>
      refine iff_of_true (fun _ => ?_) nofun
      rw [← resolve_safeNext]
      exact resolve_root server
  | some location =>
      rw [Option.getD_some]
      constructor
      · intro h location' heq hvalue hhides
        rw [← Option.some.inj heq] at hvalue hhides
        exact h (by rw [safeNext_of_hides hhides]; exact hvalue) hhides
      · intro h hvalue hhides
        rw [safeNext_of_hides hhides] at hvalue
        exact h location rfl hvalue hhides

/-- Whoever asks, somebody may be signed in. -/
theorem check_ends_signedIn {Q : SessionCheck → Prop} {session : String} {now : Instant}
    (h : (check session now).Ends Q) (subject : String) : Q (.signedIn subject) := by
  have hfound := h (.ok (some 0)) (.ok ())
    (.ok { subject, refreshToken := none, expiresAt := now + 1 })
  change Prog.Ends Q (if now < now + 1 then _ else _) at hfound
  rw [if_pos (Int.lt_succ now)] at hfound
  exact hfound (.ok ())

theorem middleware_stays (auth : Bool) (request : Request) (now : Instant) :
    (sessionMiddleware isHeaderValue auth request now).Ends (StaysOn server) := by
  have hto : ∀ location, resolve server location = server →
      StaysOn server (htmxRedirectTo isHeaderValue location) := by
    intro location h
    unfold htmxRedirectTo
    split
    · exact h
    · trivial
  unfold sessionMiddleware
  cases auth with
  | false => trivial
  | true =>
      refine (Prog.ends_bind _ _).mpr (Prog.Ends.of_forall _ fun result => ?_)
      show StaysOn server _
      cases result with
      | signedIn subject => trivial
      | idpUnavailable => trivial
      | signedOut =>
          cases request.hxRequest with
          | true => exact hto _ (resolve_loginLocation server _)
          | false =>
              by_cases hget : request.method = "GET"
              · simp only [outcome, hget, if_true]
                exact (staysOn_redirectTo _ none).mpr fun _ => resolve_loginLocation server _
              · simp only [outcome, hget, if_false]
                exact (staysOn_redirectTo _ none).mpr fun _ => resolve_loginLocation server _

theorem loginPage_stays (session : Option String) (next : Option (List Char)) (now : Instant) :
    (loginPageRoute isHeaderValue true session next now).Ends (StaysOn server) ↔
      ∀ location, (session.bind fun _ => next) = some location → isHeaderValue location = true →
        ¬ HidesServer server location := by
  cases session with
  | none => exact iff_of_true trivial nofun
  | some session =>
      rw [Option.bind_some, ← staysOn_safeNext next none]
      refine (Prog.ends_bind _ _).trans ⟨fun h => check_ends_signedIn h "", fun h => ?_⟩
      refine Prog.Ends.of_forall _ fun result => ?_
      cases result with
      | signedIn subject => exact h
      | signedOut | idpUnavailable => trivial

theorem login_stays (session : Option String) (form : LoginForm)
    (granted : Except IdpError TokenGrant) (now : Instant) :
    (loginRoute isHeaderValue true session form granted now).Ends (StaysOn server) ↔
      ∀ location, (Asked.login session form granted).next = some location →
        isHeaderValue location = true → ¬ HidesServer server location := by
  match granted with
  | .error (.rejected _) => exact iff_of_true trivial nofun
  | .error (.unavailable _) => exact iff_of_true trivial nofun
  | .ok grant =>
      have hstart : ∀ id, StaysOn server (redirectTo isHeaderValue
          (safeNext (form.next.getD "/".toList)) (some id)) ↔
          ∀ location, form.next = some location → isHeaderValue location = true →
            ¬ HidesServer server location :=
        fun id => staysOn_safeNext form.next (some id)
      refine (Prog.ends_bind _ _).trans ⟨fun h => ?_, fun h => ?_⟩
      · cases session with
        | none => exact (hstart "").mp (h (.ok ""))
        | some previous => exact (hstart "").mp (h (.ok ()) (.ok ""))
      · exact Prog.Ends.of_forall _ fun _ => (Prog.ends_bind _ _).mpr
          (Prog.Ends.of_forall _ fun id => (hstart id).mpr h)

/-- **Where a login leads**: off this server exactly where the `next` that is followed hides
another one behind tabs and line breaks, in a header that is sent. -/
theorem login_stays_here (isHeaderValue : List Char → Bool) (server : Origin) (auth : Bool)
    (now : Instant) (asked : Asked) :
    (asked.answer isHeaderValue auth now).Ends (StaysOn server) ↔
      (auth = true → ∀ next, asked.next = some next → isHeaderValue next = true →
        ¬ HidesServer server next) := by
  cases auth with
  | false => cases asked <;> exact iff_of_true trivial nofun
  | true =>
      rw [forall_prop_of_true rfl]
      cases asked with
      | guarded request => exact iff_of_true (middleware_stays true request now) nofun
      | loginPage session next => exact loginPage_stays session next now
      | login session form granted => exact login_stays session form granted now

namespace Replay

def here : Origin := { scheme := "https".toList, authority := "flowlite.example".toList }

/-- What a header may carry: no control characters but the tab. -/
def isHeaderText (s : List Char) : Bool :=
  s.all fun c => c = '\t' || (0x20 ≤ c.toNat && c.toNat ≠ 0x7f)

/-- Somebody who is signed in follows a link to the login page, and from there to another
server. -/
theorem login_leads_away : ¬ ∀ (asked : Asked),
    (asked.answer isHeaderText true 0).Ends (StaysOn here) := by
  intro h
  have hstays := (loginPage_stays (some "s") (some "/\t/evil.example".toList) 0).mp
    (h (.loginPage (some "s") (some "/\t/evil.example".toList)))
  have hgap : ∀ g ∈ ['\t'], isTabOrNewline g = true := by
    intro g hg
    rw [List.mem_singleton.mp hg]
    rfl
  exact hstays _ rfl (by decide) ⟨['\t'], '/', "evil.example".toList, by decide, by decide, hgap,
    .inl rfl, by decide⟩

end Replay

end Flowlite.Router
