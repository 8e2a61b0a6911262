import Mathlib.Data.List.Forall2
import Flowlite.Threads.Machine

/-!
# Proof outlines for interleaved programs

The rule of thumb for reasoning about threads that share a state: fix an
invariant, say what each thread must know before it performs an operation, and
let every thread rely on the others doing no more than that.

An `Outline` is those three things: `inv` holds in every state, `pre t o` is
what thread `t` has established by the time it performs `o`, and `idle t` is
what an idle thread leaves standing. `Outline.Triple` is a Hoare triple for one
thread's program: its assertions are required to survive whatever the other
threads may do meanwhile (`Stable`), and each of its operations to meet `pre`.

`Outline.Valid` asks for a triple per program a thread can start, and
`Valid.inv`, `Valid.pre` and `Valid.idle_of_none` turn that into facts about every
reachable configuration. `Outline.established` hands the facts of one outline to
the next: what a first outline has proved of every step is a `Condition` the
second one may assume.
-/

namespace Flowlite.Threads

open Machine Relation

variable {S : Signature} {mc : Machine S} {α β γ : Type}

/-- What holds always, what a thread knows before each operation, and what holds
of a thread that is idle. -/
structure Outline (mc : Machine S) where
  inv : mc.State → Prop
  pre : mc.Tid → S.Op → mc.State → Prop
  idle : mc.Tid → mc.State → Prop

namespace Outline

variable (O : Outline mc) (cond : mc.Condition)

/-- What may happen between two operations of `t`: an operation of another
thread, or an outside event that leaves `t` alone. -/
inductive Others (t : mc.Tid) (s s' : mc.State) : Prop
  | run {u : mc.Tid} {o : S.Op} {r : S.Result o} : u ≠ t → O.inv s → O.inv s' →
      O.pre u o s → Performs cond u o s r s' → Others t s s'
  | env {kill : mc.Tid → Bool} : kill t = false → O.inv s → O.inv s' →
      Happens cond s s' kill → Others t s s'

/-- `P` survives everything that may happen between two operations of `t`. -/
def Stable (t : mc.Tid) (P : mc.State → Prop) : Prop :=
  ∀ s s', O.Others cond t s s' → P s → P s'

/-- Run from `s` among the other threads, `p` meets `pre` at each of its
operations and ends as `Q` says. -/
def wp (t : mc.Tid) : Prog S α → (Except S.Err α → mc.State → Prop) → mc.State → Prop
  | .ret a, Q, s => Q (.ok a) s
  | .throw e, Q, s => Q (.error e) s
  | .call o k, Q, s => ∀ s', ReflTransGen (O.Others cond t) s s' → O.inv s' →
      ∀ r s'', Performs cond t o s' r s'' →
        O.pre t o s' ∧ (O.inv s'' → wp t (k r) Q s'')

/-- From every state with `P`, `p` ends as `Q` says. -/
def Triple (t : mc.Tid) (P : mc.State → Prop) (p : Prog S α)
    (Q : Except S.Err α → mc.State → Prop) : Prop :=
  ∀ s, O.inv s → P s → O.wp cond t p Q s

/-- The outline holds of the system: the invariant is kept by every operation
whose thread met `pre`, and every program a thread may start has its triple. -/
structure Valid : Prop where
  init : ∀ s, mc.init s → O.inv s ∧ ∀ t, O.idle t s
  step : ∀ t o s r s', O.inv s → O.pre t o s → Performs cond t o s r s' → O.inv s'
  env : ∀ s s' kill, O.inv s → Happens cond s s' kill →
    O.inv s' ∧ ∀ t, kill t = true → O.idle t s'
  idle : ∀ t, O.Stable cond t (O.idle t)
  start : ∀ t a p, O.Triple cond t (fun s => O.idle t s ∧ mc.start t a s = some p) p
    fun _ => O.idle t

variable {O cond}

/-! ## Stable assertions -/

theorem stable_true (t : mc.Tid) : O.Stable cond t fun _ => True :=
  fun _ _ _ _ => trivial

theorem stable_const (t : mc.Tid) (P : Prop) : O.Stable cond t fun _ => P :=
  fun _ _ _ h => h

theorem Stable.and {t : mc.Tid} {P Q : mc.State → Prop} (hP : O.Stable cond t P)
    (hQ : O.Stable cond t Q) : O.Stable cond t fun s => P s ∧ Q s :=
  fun s s' h hPQ => ⟨hP s s' h hPQ.1, hQ s s' h hPQ.2⟩

theorem Stable.all {ι : Sort*} {t : mc.Tid} {P : ι → mc.State → Prop}
    (hP : ∀ i, O.Stable cond t (P i)) : O.Stable cond t fun s => ∀ i, P i s :=
  fun s s' h hs i => hP i s s' h (hs i)

theorem Stable.ex {ι : Sort*} {t : mc.Tid} {P : ι → mc.State → Prop}
    (hP : ∀ i, O.Stable cond t (P i)) : O.Stable cond t fun s => ∃ i, P i s :=
  fun s s' h ⟨i, hs⟩ => ⟨i, hP i s s' h hs⟩

theorem Stable.imp_const {t : mc.Tid} {P : Prop} {Q : mc.State → Prop}
    (hQ : P → O.Stable cond t Q) : O.Stable cond t fun s => P → Q s :=
  fun s s' h hs hp => hQ hp s s' h (hs hp)

theorem Stable.star {t : mc.Tid} {P : mc.State → Prop} (hP : O.Stable cond t P)
    {s s' : mc.State} (h : ReflTransGen (O.Others cond t) s s') (hs : P s) : P s' := by
  induction h with
  | refl => exact hs
  | tail _ hstep ih => exact hP _ _ hstep ih

/-! ## What nothing takes away -/

/-- No step takes `P` away, whoever performs it. -/
structure Permanent (cond : mc.Condition) (P : mc.State → Prop) : Prop where
  performs : ∀ {t o s r s'}, Performs cond t o s r s' → P s → P s'
  happens : ∀ {s s' kill}, Happens cond s s' kill → P s → P s'

namespace Permanent

variable {P Q : mc.State → Prop}

theorem stable (h : Permanent cond P) (t : mc.Tid) : O.Stable cond t P := by
  intro s s' hothers hs
  cases hothers with
  | run _ _ _ _ hperf => exact h.performs hperf hs
  | env _ _ _ hhappens => exact h.happens hhappens hs

theorem and (hP : Permanent cond P) (hQ : Permanent cond Q) : Permanent cond fun s => P s ∧ Q s where
  performs hperf hs := ⟨hP.performs hperf hs.1, hQ.performs hperf hs.2⟩
  happens hhappens hs := ⟨hP.happens hhappens hs.1, hQ.happens hhappens hs.2⟩

theorem all {ι : Sort*} {P : ι → mc.State → Prop} (hP : ∀ i, Permanent cond (P i)) :
    Permanent cond fun s => ∀ i, P i s where
  performs hperf hs i := (hP i).performs hperf (hs i)
  happens hhappens hs i := (hP i).happens hhappens (hs i)

theorem ex {ι : Sort*} {P : ι → mc.State → Prop} (hP : ∀ i, Permanent cond (P i)) :
    Permanent cond fun s => ∃ i, P i s where
  performs hperf := fun ⟨i, hs⟩ => ⟨i, (hP i).performs hperf hs⟩
  happens hhappens := fun ⟨i, hs⟩ => ⟨i, (hP i).happens hhappens hs⟩

theorem const (F : Prop) : Permanent cond fun _ : mc.State => F where
  performs _ hF := hF
  happens _ hF := hF

theorem imp_const {F : Prop} (hP : Permanent cond P) : Permanent cond fun s => F → P s where
  performs hperf hs hF := hP.performs hperf (hs hF)
  happens hhappens hs hF := hP.happens hhappens (hs hF)

theorem forall₂ {R : α → β → mc.State → Prop} (hR : ∀ a b, Permanent cond (R a b)) (xs : List α)
    (ys : List β) : Permanent cond fun s => List.Forall₂ (R · · s) xs ys where
  performs hperf := List.Forall₂.imp fun a b => (hR a b).performs hperf
  happens hhappens := List.Forall₂.imp fun a b => (hR a b).happens hhappens

end Permanent

/-! ## Rules for `wp` -/

theorem wp_mono {t : mc.Tid} {p : Prog S α} {Q R : Except S.Err α → mc.State → Prop}
    (hQR : ∀ r s, O.inv s → Q r s → R r s) {s : mc.State} (hi : O.inv s)
    (h : O.wp cond t p Q s) : O.wp cond t p R s := by
  induction p generalizing s with
  | ret a => exact hQR _ _ hi h
  | throw e => exact hQR _ _ hi h
  | call o k ih =>
      intro s' hs' hi' r s'' hp
      obtain ⟨hpre, hk⟩ := h s' hs' hi' r s'' hp
      exact ⟨hpre, fun hi'' => ih r hi'' (hk hi'')⟩

theorem wp_bind {t : mc.Tid} {p : Prog S α} {f : α → Prog S β}
    {Q : Except S.Err β → mc.State → Prop} {s : mc.State}
    (h : O.wp cond t p (fun r s => match r with
      | .ok a => O.wp cond t (f a) Q s
      | .error e => Q (.error e) s) s) : O.wp cond t (p.bind f) Q s := by
  induction p generalizing s with
  | ret a => exact h
  | throw e => exact h
  | call o k ih =>
      intro s' hs' hi' r s'' hp
      obtain ⟨hpre, hk⟩ := h s' hs' hi' r s'' hp
      exact ⟨hpre, fun hi'' => ih r (hk hi'')⟩

theorem wp_attempt {t : mc.Tid} {p : Prog S α}
    {Q : Except S.Err (Except S.Err α) → mc.State → Prop} {s : mc.State}
    (h : O.wp cond t p (fun r => Q (.ok r)) s) : O.wp cond t p.attempt Q s := by
  induction p generalizing s with
  | ret a => exact h
  | throw e => exact h
  | call o k ih =>
      intro s' hs' hi' r s'' hp
      obtain ⟨hpre, hk⟩ := h s' hs' hi' r s'' hp
      exact ⟨hpre, fun hi'' => ih r (hk hi'')⟩

/-- A program keeps `F` standing as long as each of its operations does. -/
theorem wp_frame {t : mc.Tid} {p : Prog S α} {F : mc.State → Prop}
    {Q : Except S.Err α → mc.State → Prop} (hF : O.Stable cond t F)
    (hp : p.Uses fun o => ∀ s r s', O.inv s → O.inv s' → O.pre t o s →
      Performs cond t o s r s' → F s → F s')
    {s : mc.State} (hs : F s) (h : O.wp cond t p Q s) :
    O.wp cond t p (fun r s => Q r s ∧ F s) s := by
  induction p generalizing s with
  | ret a => exact ⟨h, hs⟩
  | throw e => exact ⟨h, hs⟩
  | call o k ih =>
      intro s' hs' hi' r s'' hperf
      obtain ⟨hpre, hk⟩ := h s' hs' hi' r s'' hperf
      refine ⟨hpre, fun hi'' => ih r (hp.2 r) ?_ (hk hi'')⟩
      exact hp.1 s' r s'' hi' hi'' hpre hperf (hF.star hs' hs)

theorem wp_ends {t : mc.Tid} {p : Prog S α} {F : α → Prop}
    {Q : Except S.Err α → mc.State → Prop} (hp : p.Ends F) {s : mc.State}
    (h : O.wp cond t p Q s) :
    O.wp cond t p (fun r s => Q r s ∧ ∀ a, r = .ok a → F a) s := by
  induction p generalizing s with
  | ret a => exact ⟨h, fun b hb => Except.ok.inj hb ▸ hp⟩
  | throw e => exact ⟨h, nofun⟩
  | call o k ih =>
      intro s' hs' hi' r s'' hperf
      obtain ⟨hpre, hk⟩ := h s' hs' hi' r s'' hperf
      exact ⟨hpre, fun hi'' => ih r (hp r) (hk hi'')⟩

/-- A program that goes through where no operation of `F` fails. -/
theorem wp_goesThrough {t : mc.Tid} {p : Prog S α} {F : S.Op → Prop}
    {Q : Except S.Err α → mc.State → Prop} (hp : p.GoesThrough F)
    (hF : ∀ o s e s', F o → ¬ Performs cond t o s (.error e) s') {s : mc.State}
    (h : O.wp cond t p Q s) : O.wp cond t p (fun r s => Q r s ∧ ∃ a, r = .ok a) s := by
  induction p generalizing s with
  | ret a => exact ⟨h, a, rfl⟩
  | throw e => exact hp.elim
  | call o k ih =>
      intro s' hs' hi' r s'' hperf
      obtain ⟨hpre, hk⟩ := h s' hs' hi' r s'' hperf
      refine ⟨hpre, fun hi'' => ih r ?_ (hk hi'')⟩
      cases r with
      | ok a => exact hp.1 a
      | error e => exact hp.2 (fun ho => hF o s' e s'' ho hperf) e

/-! ## Rules for triples -/

namespace Triple

variable {t : mc.Tid} {P : mc.State → Prop}

theorem ret {a : α} {Q : Except S.Err α → mc.State → Prop}
    (h : ∀ s, O.inv s → P s → Q (.ok a) s) : O.Triple cond t P (.ret a) Q :=
  fun s hi hP => h s hi hP

theorem throw {e : S.Err} {Q : Except S.Err α → mc.State → Prop}
    (h : ∀ s, O.inv s → P s → Q (.error e) s) : O.Triple cond t P (.throw e) Q :=
  fun s hi hP => h s hi hP

theorem conseq {p : Prog S α} {W : mc.State → Prop}
    {Q Q' : Except S.Err α → mc.State → Prop} (h : O.Triple cond t W p Q')
    (hP : ∀ s, O.inv s → P s → W s) (hQ : ∀ r s, O.inv s → Q' r s → Q r s) :
    O.Triple cond t P p Q :=
  fun s hi hs => wp_mono hQ hi (h s hi (hP s hi hs))

theorem pre {p : Prog S α} {W : mc.State → Prop} {Q : Except S.Err α → mc.State → Prop}
    (h : O.Triple cond t W p Q) (hP : ∀ s, O.inv s → P s → W s) : O.Triple cond t P p Q :=
  h.conseq hP fun _ _ _ hQ => hQ

theorem post {p : Prog S α} {Q Q' : Except S.Err α → mc.State → Prop}
    (h : O.Triple cond t P p Q') (hQ : ∀ r s, O.inv s → Q' r s → Q r s) :
    O.Triple cond t P p Q :=
  h.conseq (fun _ _ hP => hP) hQ

/-- A fact that does not depend on the state moves out of the precondition. -/
theorem of_fact {p : Prog S α} {F : Prop} {Q : Except S.Err α → mc.State → Prop}
    (hF : ∀ s, O.inv s → P s → F) (h : F → O.Triple cond t P p Q) : O.Triple cond t P p Q :=
  fun s hi hs => h (hF s hi hs) s hi hs

/-- What holds for some value holds for one that is named. -/
theorem of_exists {ι : Sort*} {P : ι → mc.State → Prop} {p : Prog S α}
    {Q : Except S.Err α → mc.State → Prop} (h : ∀ i, O.Triple cond t (P i) p Q) :
    O.Triple cond t (fun s => ∃ i, P i s) p Q :=
  fun s hi ⟨i, hs⟩ => h i s hi hs

theorem bind {p : Prog S α} {f : α → Prog S β} {R : Except S.Err α → mc.State → Prop}
    {Q : Except S.Err β → mc.State → Prop} (hp : O.Triple cond t P p R)
    (hok : ∀ a, O.Triple cond t (R (.ok a)) (f a) Q)
    (herr : ∀ e s, O.inv s → R (.error e) s → Q (.error e) s) :
    O.Triple cond t P (p.bind f) Q := by
  intro s hi hs
  refine wp_bind (wp_mono ?_ hi (hp s hi hs))
  intro r s' hi' hR
  cases r with
  | ok a => exact hok a s' hi' hR
  | error e => exact herr e s' hi' hR

/-- `bind` where nothing is asked of the end. -/
theorem seq {p : Prog S α} {f : α → Prog S β} {R : Except S.Err α → mc.State → Prop}
    (hp : O.Triple cond t P p R)
    (hf : ∀ a, O.Triple cond t (R (.ok a)) (f a) fun _ _ => True) :
    O.Triple cond t P (p.bind f) fun _ _ => True :=
  hp.bind hf fun _ _ _ _ => trivial

theorem attempt {p : Prog S α} {Q : Except S.Err (Except S.Err α) → mc.State → Prop}
    (h : O.Triple cond t P p fun r => Q (.ok r)) : O.Triple cond t P p.attempt Q :=
  fun s hi hs => wp_attempt (h s hi hs)

/-- `bind` after a program whose failure is a value. -/
theorem attempt_bind {p : Prog S α} {f : Except S.Err α → Prog S β}
    {R : Except S.Err α → mc.State → Prop} {Q : Except S.Err β → mc.State → Prop}
    (hp : O.Triple cond t P p R) (hf : ∀ r, O.Triple cond t (R r) (f r) Q) :
    O.Triple cond t P (p.attempt.bind f) Q := by
  have hattempt := attempt (Q := fun r s => match r with
    | .ok r => R r s
    | .error _ => False) hp
  exact hattempt.bind hf fun _ _ _ h => h.elim

/-- One operation, from an assertion the other threads keep. -/
theorem perform {o : S.Op} {Q : S.Result o → mc.State → Prop} (hP : O.Stable cond t P)
    (hpre : ∀ s r s', O.inv s → P s → Performs cond t o s r s' → O.pre t o s)
    (hQ : ∀ s r s', O.inv s → P s → Performs cond t o s r s' → O.inv s' → Q r s') :
    O.Triple cond t P (Prog.perform o) Q := by
  intro s hi hs s' hs' hi' r s'' hperf
  have hPs := hP.star hs' hs
  refine ⟨hpre s' r s'' hi' hPs hperf, fun hi'' => ?_⟩
  have := hQ s' r s'' hi' hPs hperf hi''
  cases r with
  | ok a => exact this
  | error e => exact this

/-- What other threads keep, and each operation of `p` keeps, is kept by `p`. -/
theorem frame {p : Prog S α} {F : mc.State → Prop} {Q : Except S.Err α → mc.State → Prop}
    (h : O.Triple cond t P p Q) (hF : O.Stable cond t F)
    (hp : p.Uses fun o => ∀ s r s', O.inv s → O.inv s' → O.pre t o s →
      Performs cond t o s r s' → F s → F s') :
    O.Triple cond t (fun s => P s ∧ F s) p fun r s => Q r s ∧ F s :=
  fun s hi hs => wp_frame hF hp hs.2 (h s hi hs.1)

/-- What is known of every value a program may end with is known of this one. -/
theorem ends {p : Prog S α} {F : α → Prop} {Q : Except S.Err α → mc.State → Prop}
    (h : O.Triple cond t P p Q) (hp : p.Ends F) :
    O.Triple cond t P p fun r s => Q r s ∧ ∀ a, r = .ok a → F a :=
  fun s hi hs => wp_ends hp (h s hi hs)

theorem goesThrough {p : Prog S α} {F : S.Op → Prop} {Q : Except S.Err α → mc.State → Prop}
    (h : O.Triple cond t P p Q) (hp : p.GoesThrough F)
    (hF : ∀ o s e s', F o → ¬ Performs cond t o s (.error e) s') :
    O.Triple cond t P p fun r s => Q r s ∧ ∃ a, r = .ok a :=
  fun s hi hs => wp_goesThrough hp hF (h s hi hs)

/-- A program every operation of which meets `pre` from `P` and keeps `P`. -/
theorem of_uses {p : Prog S α} (hP : O.Stable cond t P)
    (hp : p.Uses fun o => ∀ s r s', O.inv s → P s → Performs cond t o s r s' →
      O.pre t o s ∧ (O.inv s' → P s')) :
    O.Triple cond t P p fun _ => P := by
  intro s hi hs
  induction p generalizing s with
  | ret a => exact hs
  | throw e => exact hs
  | call o k ih =>
      intro s' hs' hi' r s'' hperf
      obtain ⟨hpre, hnext⟩ := hp.1 s' r s'' hi' (hP.star hs' hs) hperf
      exact ⟨hpre, fun hi'' => ih r (hp.2 r) s'' hi'' (hnext hi'')⟩

/-- Programs that keep `P` up to their last part, which has to end as `Q` says. -/
theorem walk {Q : mc.State → Prop} {U : S.Op → Prop} (hP : O.Stable cond t P)
    (hU : ∀ o, U o → ∀ s r s', O.inv s → P s → Performs cond t o s r s' →
      O.pre t o s ∧ (O.inv s' → P s'))
    (hPQ : ∀ s, O.inv s → P s → Q s) :
    Prog.Walk U (fun _ p => O.Triple cond t P p fun _ => P)
      (fun _ p => O.Triple cond t P p fun _ => Q) where
  ret _ := ret fun _ _ h => h
  throw _ := throw fun _ _ h => h
  perform o ho := of_uses hP ((Prog.uses_perform o).mpr (hU o ho))
  attempt h := attempt h
  bind h hf := h.bind hf fun _ _ _ h => h
  last h := h.post fun _ s hi hs => hPQ s hi hs
  seq h hf := h.bind hf fun _ s hi hs => hPQ s hi hs

/-- A program nothing is asked of, in a run whose steps meet `pre` as it is. -/
theorem of_pre {p : Prog S α}
    (hpre : ∀ o s r s', O.inv s → Performs cond t o s r s' → O.pre t o s) :
    O.Triple cond t P p fun _ _ => True := by
  suffices h : O.Triple cond t (fun _ => True) p fun _ _ => True from h.pre fun _ _ _ => trivial
  exact of_uses (stable_true t) (.of_forall p fun o s r s' hi _ hperf =>
    ⟨hpre o s r s' hi hperf, fun _ => trivial⟩)

/-- What is permanent is kept by every program whose operations may be performed from it. -/
theorem permanent {p : Prog S α} (hP : Permanent cond P)
    (hp : p.Uses fun o => ∀ s, O.inv s → P s → O.pre t o s) : O.Triple cond t P p fun _ => P :=
  of_uses (hP.stable t) (hp.mono fun _ ho _ _ _ hi hs hperf =>
    ⟨ho _ hi hs, fun _ => hP.performs hperf hs⟩)

/-- What is permanent may be carried past any program. -/
theorem past {p : Prog S α} {F : mc.State → Prop} {Q : Except S.Err α → mc.State → Prop}
    (h : O.Triple cond t P p Q) (hF : Permanent cond F) :
    O.Triple cond t (fun s => P s ∧ F s) p fun r s => Q r s ∧ F s :=
  h.frame (hF.stable t) (.of_forall p fun _ _ _ _ _ _ _ hperf hs => hF.performs hperf hs)

/-- A loop over rows: `I` is what holds of the rows still to be handled. -/
theorem forEach {f : α → Prog S Unit} {I : List α → mc.State → Prop} {E : mc.State → Prop}
    (hbody : ∀ x rest, O.Triple cond t (I (x :: rest)) (f x) fun r s => match r with
      | .ok _ => I rest s
      | .error _ => E s)
    (xs : List α) :
    O.Triple cond t (I xs) (Prog.forEach xs f) fun r s => match r with
      | .ok _ => I [] s
      | .error _ => E s := by
  induction xs with
  | nil => exact ret fun _ _ h => h
  | cons x rest ih => exact (hbody x rest).bind (fun _ => ih) fun _ _ _ h => h

/-- A loop whose body keeps `P`. -/
theorem each {f : α → Prog S Unit} {xs : List α}
    (h : ∀ x ∈ xs, O.Triple cond t P (f x) fun _ => P) :
    O.Triple cond t P (Prog.forEach xs f) fun _ => P := by
  induction xs with
  | nil => exact ret fun _ _ h => h
  | cons x rest ih =>
      exact (h x (List.mem_cons_self ..)).bind
        (fun _ => ih fun y hy => h y (List.mem_cons_of_mem x hy)) fun _ _ _ h => h

/-- A loop that collects an answer for each row: `R` is what is known of an answer, and
what is done for a row leaves what is known of the answers so far. -/
theorem collect {f : α → Prog S β} {R : α → β → mc.State → Prop}
    (hR : ∀ x y, O.Stable cond t (R x y))
    (hbody : ∀ x, O.Triple cond t P (f x) fun r s => P s ∧ ∀ y, r = .ok y → R x y s)
    (hframe : ∀ x y z, (f z).Uses fun o => ∀ s r s', O.inv s → O.inv s' →
      O.pre t o s → Performs cond t o s r s' → R x y s → R x y s') (xs : List α) :
    O.Triple cond t P (Prog.collect xs f) fun r s => P s ∧
      ∀ ys, r = .ok ys → List.Forall₂ (fun x y => R x y s) xs ys := by
  induction xs with
  | nil =>
      refine ret fun s _ h => ⟨h, fun ys hys => ?_⟩
      cases hys
      exact .nil
  | cons x rest ih =>
      refine (hbody x).bind (fun y => ?_) fun e s _ h => ⟨h.1, nofun⟩
      have huses : (Prog.collect rest f).Uses fun o => ∀ s r s', O.inv s → O.inv s' →
          O.pre t o s → Performs cond t o s r s' → R x y s → R x y s' :=
        Prog.Uses.collect fun z _ => hframe x y z
      refine ((ih.frame (hR x y) huses).pre fun s _ h => ⟨h.1, h.2 y rfl⟩).bind (fun ys => ?_)
        fun e s _ h => ⟨h.1.1, nofun⟩
      refine ret fun s _ h => ⟨h.1.1, fun zs hzs => ?_⟩
      cases hzs
      exact .cons h.2 (h.1.2 ys rfl)

/-- A loop over rows that are handled each on its own: `K` is what is known of a
row that has yet to be handled, and handling one leaves what is known of the others. -/
theorem rows {f : α → Prog S Unit} {K : α → mc.State → Prop} {R : α → α → Prop}
    (hK : ∀ x, O.Stable cond t (K x))
    (hbody : ∀ x, O.Triple cond t (fun s => P s ∧ K x s) (f x) fun _ => P)
    (hframe : ∀ x y, R x y → (f x).Uses fun o => ∀ s r s', O.inv s → O.inv s' →
      O.pre t o s → Performs cond t o s r s' → K y s → K y s')
    {xs : List α} (hxs : xs.Pairwise R) :
    O.Triple cond t (fun s => P s ∧ ∀ x ∈ xs, K x s) (Prog.forEach xs f) fun _ => P := by
  induction xs with
  | nil => exact ret fun _ _ h => h.1
  | cons x rest ih =>
      obtain ⟨hx, hrest⟩ := List.pairwise_cons.mp hxs
      have hothers := Prog.Uses.all fun y : { y // y ∈ rest } => hframe x y (hx y y.2)
      have hkept := (hbody x).frame (F := fun s => ∀ y : { y // y ∈ rest }, K y s)
        (Stable.all fun y => hK y)
        (hothers.mono fun o ho s r s' hi hi' hpre hp hF y => ho y s r s' hi hi' hpre hp (hF y))
      refine (hkept.pre ?_).bind (fun _ => (ih hrest).pre ?_) fun _ _ _ h => h.1
      · intro s _ h
        exact ⟨⟨h.1, h.2 x (List.mem_cons_self ..)⟩,
          fun y => h.2 y (List.mem_cons_of_mem x y.2)⟩
      · exact fun s _ h => ⟨h.1, fun y hy => h.2 ⟨y, hy⟩⟩

end Triple

/-! ## Soundness -/

/-- What a valid outline says of thread `t` in a configuration. -/
def Holds (O : Outline mc) (cond : mc.Condition) (t : mc.Tid) (s : mc.State) :
    Option (Prog S Unit) → Prop
  | none => O.idle t s
  | some p => (∃ o k, p = .call o k) ∧ O.wp cond t p (fun _ => O.idle t) s

theorem holds_remaining {t : mc.Tid} {s : mc.State} {p : Prog S Unit}
    (h : O.wp cond t p (fun _ => O.idle t) s) : O.Holds cond t s (remaining p) := by
  cases p with
  | ret a => exact h
  | throw e => exact h
  | call o k => exact ⟨⟨o, k, rfl⟩, h⟩

theorem Holds.others {t : mc.Tid} {s s' : mc.State} {p : Option (Prog S Unit)}
    (hidle : O.Stable cond t (O.idle t)) (h : O.Holds cond t s p)
    (hs : O.Others cond t s s') : O.Holds cond t s' p := by
  cases p with
  | none => exact hidle s s' hs h
  | some p =>
      obtain ⟨⟨o, k, rfl⟩, hwp⟩ := h
      exact ⟨⟨o, k, rfl⟩, fun s'' hs'' hi => hwp s'' (.head hs hs'') hi⟩

/-- The facts an outline has proved of every step, as a condition on runs. -/
def established (O : Outline mc) : mc.Condition where
  step t o s _ s' := O.inv s ∧ O.pre t o s ∧ O.inv s'
  env _ s s' := O.inv s ∧ O.inv s'

namespace Valid

variable (hv : O.Valid cond)

include hv

private theorem next_holds {c c' : mc.Config} (hi : O.inv c.state)
    (hc : ∀ t, O.Holds cond t c.state (c.pool t)) (hn : Next cond c c') :
    (O.inv c'.state ∧ ∀ t, O.Holds cond t c'.state (c'.pool t)) ∧
      Next (cond.and O.established) c c' := by
  cases hn with
  | @run t o k r s' hp hperf =>
      have ht := hc t
      rw [hp] at ht
      obtain ⟨hpre, hk⟩ := ht.2 c.state .refl hi r s' hperf
      have hi' := hv.step t o c.state r s' hi hpre hperf
      refine ⟨⟨hi', fun u => ?_⟩, .run hp ⟨hperf.1, hperf.2, hi, hpre, hi'⟩⟩
      by_cases hu : u = t
      · subst hu
        simpa using holds_remaining (hk hi')
      · simpa [Function.update_of_ne hu] using
          (hc u).others (hv.idle u) (.run (fun h => hu h.symm) hi hi' hpre hperf)
  | @start t a p hp hstart =>
      refine ⟨⟨hi, fun u => ?_⟩, .start hp hstart⟩
      by_cases hu : u = t
      · subst hu
        have hidle : O.idle u c.state := by
          have := hc u
          rwa [hp] at this
        simpa using holds_remaining (hv.start u a p c.state hi ⟨hidle, hstart⟩)
      · simpa [Function.update_of_ne hu] using hc u
  | @env s' kill he =>
      obtain ⟨hi', hkill⟩ := hv.env c.state s' kill hi he
      obtain ⟨e, hev, hce⟩ := he
      refine ⟨⟨hi', fun u => ?_⟩, .env ⟨e, hev, hce, hi, hi'⟩⟩
      cases hu : kill u with
      | true =>
          simp only [hu, if_true]
          exact hkill u hu
      | false =>
          simpa [hu] using (hc u).others (hv.idle u) (.env hu hi hi' ⟨e, hev, hce⟩)

private theorem reachable_holds {c : mc.Config} (h : Reachable cond c) :
    (O.inv c.state ∧ ∀ t, O.Holds cond t c.state (c.pool t)) ∧
      Reachable (cond.and O.established) c := by
  induction h with
  | init hs => exact ⟨hv.init _ hs, .init hs⟩
  | next _ hn ih =>
      obtain ⟨hc, hstep⟩ := hv.next_holds ih.1.1 ih.1.2 hn
      exact ⟨hc, .next ih.2 hstep⟩

/-- The invariant holds in every reachable configuration. -/
theorem inv {c : mc.Config} (h : Reachable cond c) : O.inv c.state :=
  (hv.reachable_holds h).1.1

/-- A thread that is idle in a reachable configuration has left `idle` standing. -/
theorem idle_of_none {c : mc.Config} (h : Reachable cond c) {t : mc.Tid}
    (ht : c.pool t = none) : O.idle t c.state := by
  have := (hv.reachable_holds h).1.2 t
  rwa [ht] at this

/-- A thread that can perform its next operation has established what that takes. -/
theorem pre {c : mc.Config} (h : Reachable cond c) {t : mc.Tid} {o : S.Op}
    {k : S.Result o → Prog S Unit} (ht : c.pool t = some (.call o k)) {r : S.Result o}
    {s' : mc.State} (hperf : Performs cond t o c.state r s') : O.pre t o c.state := by
  have hholds := (hv.reachable_holds h).1.2 t
  rw [ht] at hholds
  exact (hholds.2 c.state .refl (hv.inv h) r s' hperf).1

/-- A run that meets `cond` also meets what the outline says of its steps. -/
theorem established {c : mc.Config} (h : Reachable cond c) :
    Reachable (cond.and O.established) c :=
  (hv.reachable_holds h).2

/-- The next outline may be laid over this one: what it says is a condition it may
assume. -/
theorem layer {c : mc.Config} (h : Reachable cond c) :
    ∃ cond' : mc.Condition, cond'.Le cond ∧ cond'.Le O.established ∧ Reachable cond' c :=
  ⟨cond.and O.established, Condition.and_le_left _ _, Condition.and_le_right _ _,
    hv.established h⟩

/-- A step from a reachable configuration meets what the outline says of it. -/
theorem next_established {c c' : mc.Config} (h : Reachable cond c) (hn : Next cond c c') :
    Next (cond.and O.established) c c' :=
  have hc := (hv.reachable_holds h).1
  (hv.next_holds hc.1 hc.2 hn).2

/-- The same for a run and a step from where it led. -/
theorem layer_next {c c' : mc.Config} (h : Reachable cond c) (hn : Next cond c c') :
    ∃ cond' : mc.Condition, cond'.Le cond ∧ cond'.Le O.established ∧ Reachable cond' c ∧
      Next cond' c c' :=
  ⟨cond.and O.established, Condition.and_le_left _ _, Condition.and_le_right _ _,
    hv.established h, hv.next_established h hn⟩

/-- A run that meets `cond` meets it together with what the outline says. -/
theorem star_established {c c' : mc.Config} (h : Reachable cond c)
    (hs : ReflTransGen (Next cond) c c') :
    ReflTransGen (Next (cond.and O.established)) c c' := by
  induction hs with
  | refl => exact .refl
  | tail hs hn ih => exact ih.tail (hv.next_established (h.star hs) hn)

end Valid

/-- Every run that meets `cond` meets `cond'`, which allows no more. -/
structure Entails (cond cond' : mc.Condition) : Prop where
  le : cond'.Le cond
  reachable : ∀ {c : mc.Config}, Reachable cond c → Reachable cond' c
  next : ∀ {c c' : mc.Config}, Reachable cond c → Next cond c c' → Next cond' c c'

namespace Entails

variable {cond' cond'' : mc.Condition}

theorem trans (h : Entails cond cond') (h' : Entails cond' cond'') : Entails cond cond'' :=
  ⟨h'.le.trans h.le, fun hc => h'.reachable (h.reachable hc),
    fun hc hn => h'.next (h.reachable hc) (h.next hc hn)⟩

theorem star (h : Entails cond cond') {c c' : mc.Config} (hc : Reachable cond c)
    (hs : ReflTransGen (Next cond) c c') : ReflTransGen (Next cond') c c' := by
  induction hs with
  | refl => exact .refl
  | tail hs hn ih => exact ih.tail (h.next (hc.star hs) hn)

end Entails

/-- What an outline says of a run is a condition the run meets. -/
theorem Valid.entails (hv : O.Valid cond) :
    ∃ cond', Entails cond cond' ∧ cond'.Le O.established :=
  ⟨cond.and O.established,
    ⟨Condition.and_le_left _ _, fun h => hv.established h, fun h hn => hv.next_established h hn⟩,
    Condition.and_le_right _ _⟩

/-- What is permanent is kept by every run. -/
theorem Permanent.star {P : mc.State → Prop} (hP : Permanent cond P) {c c' : mc.Config}
    (hs : ReflTransGen (Next cond) c c') (hc : P c.state) : P c'.state := by
  induction hs with
  | refl => exact hc
  | tail _ hn ih =>
      exact hn.keeps (fun _ _ _ _ _ hperf h => hP.performs hperf h)
        (fun _ _ _ hhappens h => hP.happens hhappens h) ih

end Outline

end Flowlite.Threads
