import Flowlite.Auth.Sessions
import Flowlite.Threads.Outline

/-!
# Ended sessions

An id that has been ended is never in the map again: a session is started under an id that
no call has named. So a check that begins after that finds nothing, and one that finds its
session began in time.
-/

namespace Flowlite.Auth

open Store Threads Machine Outline

variable {cond : sessionStore.Condition} {s s' : State} {t : Nat}

/-- The map has no id that has been ended, and a check that began after that knows it. -/
structure Ended (s : State) : Prop where
  gone : ∀ id ∈ s.ended, s.sessions id = none
  named : ∀ id ∈ s.ended, id ∈ s.named

/-- The check began before its id had been ended. -/
def BeganInTime (t : Nat) (s : State) : Prop := ∀ asked, s.asked t = some asked → asked.ended = false

def endings : Outline sessionStore where
  inv := Ended
  pre t o s :=
    match o with
    | .answer (.signedIn _) => BeganInTime t s
    | _ => True
  idle _ _ := True

theorem Ended.of_same (hi : Ended s) (hsessions : s'.sessions = s.sessions)
    (hended : s'.ended = s.ended) (hnamed : s.named ⊆ s'.named) : Ended s' where
  gone := by
    rw [hsessions, hended]
    exact hi.gone
  named := by
    rw [hended]
    exact fun id h => hnamed (hi.named id h)

theorem ended_performs {o : Op} {r : Result o} (hi : Ended s) (h : Performs cond t o s r s') :
    Ended s' := by
  obtain ⟨⟨ch, hperform⟩, -⟩ := h
  cases o with
  | start subject grant now =>
      simp only [State.perform] at hperform
      split at hperform
      · cases hperform
      · rename_i hfresh
        cases hperform
        refine ⟨fun id hid => ?_, fun id hid => List.mem_cons_of_mem _ (hi.named id hid)⟩
        -- the new id is none that has been ended
        have hne : id ≠ ch.id := by
          rintro rfl
          exact hfresh (.inl (hi.named _ hid))
        show Function.update (s.retained now) ch.id (some ch.lock) id = none
        rw [Function.update_of_ne hne]
        unfold State.retained
        rw [hi.gone id hid]
        rfl
  | remove id =>
      cases hperform
      refine ⟨fun id' hid => ?_, fun id' hid => ?_⟩
      · show Function.update s.sessions id none id' = none
        rw [Function.update_apply]
        split
        · rfl
        · rename_i hne
          exact hi.gone id' ((List.mem_cons.mp hid).resolve_left hne)
      · rcases List.mem_cons.mp hid with rfl | hid
        · exact List.mem_cons_self
        · exact List.mem_cons_of_mem _ (hi.named id' hid)
  | get id =>
      cases hperform
      exact hi.of_same rfl rfl (List.subset_cons_self ..)
  | lock lock =>
      simp only [State.perform] at hperform
      split at hperform
      · cases hperform
      · split at hperform
        · cases hperform
        · cases hperform
          exact hi.of_same rfl rfl (List.Subset.refl _)
  | reply =>
      simp only [State.perform] at hperform
      (repeat' split at hperform) <;> cases hperform
      all_goals exact hi.of_same rfl rfl (List.Subset.refl _)
  | load lock | store lock session | unlock lock =>
      obtain ⟨m, -, heq⟩ := Option.map_eq_some_iff.mp hperform
      cases heq
      exact hi.of_same rfl rfl (List.Subset.refl _)
  | send token | answer result =>
      cases hperform
      exact hi.of_same rfl rfl (List.Subset.refl _)

theorem present_same {request : Request} {answer : Response} {offer : TokenResponse}
    (h : s.present request offer = some (answer, s')) :
    s'.sessions = s.sessions ∧ s'.ended = s.ended ∧ s'.named = s.named ∧ s'.asked = s.asked := by
  obtain ⟨⟨_, _⟩, -, heq⟩ := Option.map_eq_some_iff.mp h
  cases heq
  exact ⟨rfl, rfl, rfl, rfl⟩

/-- Nothing that happens outside the calls concerns the map. -/
theorem env_same {kill : Nat → Bool} (h : Happens cond s s' kill) :
    s'.sessions = s.sessions ∧ s'.ended = s.ended ∧ s'.named = s.named ∧ s'.asked = s.asked := by
  obtain ⟨e, he, -⟩ := h
  cases e with
  | receive t offer =>
      simp only [State.env] at he
      split at he
      · cases he
      · split at he
        · cases he
        · obtain ⟨⟨answer, s₁⟩, hpresent, heq⟩ := Option.map_eq_some_iff.mp he
          cases heq
          have hsame := present_same hpresent
          exact hsame
  | receiveAbandoned i offer =>
      simp only [State.env] at he
      split at he
      · cases he
      · obtain ⟨⟨answer, s₁⟩, hpresent, heq⟩ := Option.map_eq_some_iff.mp he
        cases heq
        have hsame := present_same hpresent
        exact hsame
  | drop t =>
      cases he
      unfold State.dropped
      dsimp only
      split <;> exact ⟨rfl, rfl, rfl, rfl⟩

/-- What is not the beginning of a check, and not its end. -/
def Between : Op → Prop
  | .get _ | .answer _ => False
  | _ => True

theorem asked_performs {o : Op} {r : Result o} {u : Nat} (h : Performs cond u o s r s')
    (hbetween : t ≠ u ∨ Between o) : s'.asked t = s.asked t := by
  obtain ⟨⟨ch, hperform⟩, -⟩ := h
  cases o with
  | get id =>
      cases hperform
      exact Function.update_of_ne (hbetween.resolve_right fun h => h) _ _
  | start subject grant now =>
      simp only [State.perform] at hperform
      split at hperform <;> cases hperform
      rfl
  | lock lock =>
      simp only [State.perform] at hperform
      (repeat' split at hperform) <;> cases hperform
      rfl
  | reply =>
      simp only [State.perform] at hperform
      (repeat' split at hperform) <;> cases hperform
      all_goals rfl
  | load lock | store lock session | unlock lock =>
      obtain ⟨m, -, heq⟩ := Option.map_eq_some_iff.mp hperform
      cases heq
      rfl
  | remove id | send token | answer result =>
      cases hperform
      rfl

theorem beganInTime_stable (t : Nat) : endings.Stable cond t (BeganInTime t) := by
  intro s s' h hbegan
  unfold BeganInTime
  cases h with
  | run hu _ _ _ hperf =>
      rw [asked_performs hperf (.inl hu.symm)]
      exact hbegan
  | env _ _ _ he =>
      rw [(env_same he).2.2.2]
      exact hbegan

/-- What a check does after it has looked the session up. -/
theorem between_triple {α : Type} {p : Code α} (hp : p.Uses Between) :
    endings.Triple cond t (BeganInTime t) p fun _ => BeganInTime t := by
  refine Triple.of_uses (beganInTime_stable t) (hp.mono fun o ho s r s' _ hbegan hperf => ?_)
  refine ⟨?_, fun _ => ?_⟩
  · cases o <;> first | exact ho.elim | trivial
  · unfold BeganInTime
    rw [asked_performs hperf (.inr ho)]
    exact hbegan

/-- A check that finds the session began before it was ended. -/
theorem get_triple (id : String) :
    endings.Triple cond t (fun _ => True) (perform (.get id))
      fun r s => ∀ lock, r = .ok (some lock) → BeganInTime t s := by
  have hstable : endings.Stable cond t fun _ => True := fun _ _ _ h => h
  refine Triple.perform hstable (fun _ _ _ _ _ _ => trivial) ?_
  intro s r s' hi _ hperf _ lock hfound asked hasked
  obtain ⟨⟨ch, hperform⟩, -⟩ := hperf
  cases hperform
  have hsessions : s.sessions id = some lock := Except.ok.inj hfound
  obtain rfl := Option.some.inj (hasked.symm.trans (Function.update_self ..))
  refine decide_eq_false fun hended => ?_
  rw [hi.gone id hended] at hsessions
  cases hsessions

theorem check_ends (id : String) (now : Instant) :
    endings.Triple cond t (fun _ => True) (check id now)
      fun r s => ∀ subject, r = .ok (.signedIn subject) → BeganInTime t s := by
  refine (get_triple id).bind (fun found => ?_) fun e => e.elim
  cases found with
  | none => exact Triple.ret fun s _ _ subject h => by cases h
  | some lock =>
      refine ((between_triple ?_).pre fun s _ h => h lock rfl).post fun _ _ _ h _ _ => h
      refine Prog.Uses.bind ((Prog.uses_perform _).mpr trivial) fun _ => ?_
      refine Prog.Uses.bind ((Prog.uses_perform _).mpr trivial) fun session => ?_
      have hreturn : ∀ result : SessionCheck,
          (perform (.unlock lock) >>= fun _ => pure result).Uses Between :=
        fun result => Prog.Uses.bind ((Prog.uses_perform _).mpr trivial) fun _ => trivial
      have hend : (endSession id).Uses Between := (Prog.uses_perform _).mpr trivial
      split
      · exact hreturn _
      split
      · exact hend.bind fun _ => hreturn _
      refine Prog.Uses.bind ?_ fun result => ?_
      · exact Prog.Uses.bind ((Prog.uses_perform _).mpr trivial) fun _ =>
          Prog.Uses.bind ((Prog.uses_perform _).mpr trivial) fun _ => trivial
      · match result with
        | .ok grant =>
            exact Prog.Uses.bind ((Prog.uses_perform _).mpr trivial) fun _ => hreturn _
        | .error (.rejected reason) =>
            exact Prog.Uses.bind ((Prog.uses_perform _).mpr trivial) fun _ =>
              hend.bind fun _ => hreturn _
        | .error (.unavailable reason) => exact hreturn _

/-- **Ended sessions** in every run. -/
theorem endings_valid : endings.Valid cond where
  init s hs := by
    rw [show s = State.new from hs]
    exact ⟨⟨fun _ h => (List.not_mem_nil h).elim, fun _ h => (List.not_mem_nil h).elim⟩,
      fun _ => trivial⟩
  step t o s r s' hi _ hperf := ended_performs hi hperf
  env s s' kill hi he := by
    obtain ⟨hsessions, hended, hnamed, -⟩ := env_same he
    exact ⟨hi.of_same hsessions hended (hnamed ▸ List.Subset.refl _), fun _ _ => trivial⟩
  idle t := stable_true t
  start t a p := by
    refine Triple.of_fact (F := p = a.code) (fun s _ h => ?_) fun hp => ?_
    · exact (Option.some.inj h.2).symm
    rw [hp]
    refine Triple.pre (W := fun _ => True) ?_ fun _ _ _ => trivial
    have hplain : ∀ o : Op, (∀ s, endings.pre t o s) →
        endings.Triple cond t (fun _ => True) (perform o) fun _ _ => True :=
      fun o hpre => Triple.perform (stable_true t) (fun s _ _ _ _ _ => hpre s)
        fun _ _ _ _ _ _ _ => trivial
    cases a with
    | start subject grant now =>
        exact (hplain (.start subject grant now) fun _ => trivial).bind
          (fun _ => Triple.ret fun _ _ _ => trivial) fun e => e.elim
    | endSession id => exact hplain (.remove id) fun _ => trivial
    | check id now =>
        refine (check_ends id now).bind (fun result => ?_) fun e => e.elim
        refine Triple.perform ?_ ?_ fun _ _ _ _ _ _ _ => trivial
        · exact Stable.all fun subject => Stable.imp_const fun _ => beganInTime_stable t
        · intro s r s' _ hbegan _
          cases result with
          | signedIn subject => exact hbegan subject rfl
          | signedOut | idpUnavailable => trivial

end Flowlite.Auth
