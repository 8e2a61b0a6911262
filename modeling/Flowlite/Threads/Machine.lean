import Mathlib.Logic.Function.Basic
import Mathlib.Logic.Relation
import Flowlite.Threads.Prog

/-!
# Interleaved programs over a shared state

A `Machine` gives the operations of a `Signature` their meaning on a shared
state. Each thread runs one `Prog` at a time; a step of the system is one
operation of one thread, a new program on an idle thread, or something that
happens outside every thread (which may kill threads where they stand).

What the outside decides (a clock's reading, whether a statement fails) is a
`Choice` handed to the operation, so a step is a function and a run can be
replayed: `Machine.exec`, sound for `Machine.Reachable` by `exec_reachable`.

A `Condition` restricts the runs one looks at, step by step. `Reachable cond`
is "reachable by a run every step of which meets `cond`".
-/

namespace Flowlite.Threads

/-- A shared state, the threads that act on it, and what each operation does. -/
structure Machine (S : Signature) where
  Tid : Type
  [tidDecEq : DecidableEq Tid]
  State : Type
  /-- What the outside decides about one operation. -/
  Choice : Type
  /-- `none` when the choice is not one the operation can meet in this state. -/
  perform : Tid → (o : S.Op) → Choice → State → Option (S.Result o × State)
  /-- What a thread is asked to do. -/
  Start : Type
  start : Tid → Start → State → Option (Prog S Unit)
  /-- What happens outside every thread. -/
  Env : Type
  /-- The state afterwards, and the threads that are killed by it. -/
  env : Env → State → Option (State × (Tid → Bool))
  init : State → Prop

attribute [instance] Machine.tidDecEq

namespace Machine

variable {S : Signature}

/-- The shared state and what each thread still has to do; an idle thread has
nothing. -/
structure Config (mc : Machine S) where
  state : mc.State
  pool : mc.Tid → Option (Prog S Unit)

/-- What a thread that has reached `p` still has to do. -/
def remaining : Prog S Unit → Option (Prog S Unit)
  | .ret _ => none
  | .throw _ => none
  | .call o k => some (.call o k)

/-- A restriction on runs: which results an operation of a thread may have, and
which outside events may happen. -/
structure Condition (mc : Machine S) where
  step : mc.Tid → (o : S.Op) → mc.State → S.Result o → mc.State → Prop
  env : mc.Env → mc.State → mc.State → Prop

namespace Condition

variable {mc : Machine S}

/-- No restriction. -/
def any : mc.Condition where
  step _ _ _ _ _ := True
  env _ _ _ := True

/-- Both restrictions. -/
def and (c d : mc.Condition) : mc.Condition where
  step t o s r s' := c.step t o s r s' ∧ d.step t o s r s'
  env e s s' := c.env e s s' ∧ d.env e s s'

/-- `c` allows no more than `d` does. -/
def Le (c d : mc.Condition) : Prop :=
  (∀ t o s r s', c.step t o s r s' → d.step t o s r s') ∧
    ∀ e s s', c.env e s s' → d.env e s s'

theorem Le.refl (c : mc.Condition) : c.Le c :=
  ⟨fun _ _ _ _ _ h => h, fun _ _ _ h => h⟩

theorem and_le_left (c d : mc.Condition) : (c.and d).Le c :=
  ⟨fun _ _ _ _ _ h => h.1, fun _ _ _ h => h.1⟩

theorem and_le_right (c d : mc.Condition) : (c.and d).Le d :=
  ⟨fun _ _ _ _ _ h => h.2, fun _ _ _ h => h.2⟩

theorem Le.trans {c d e : mc.Condition} (hcd : c.Le d) (hde : d.Le e) : c.Le e :=
  ⟨fun t o s r s' h => hde.1 t o s r s' (hcd.1 t o s r s' h),
    fun x s s' h => hde.2 x s s' (hcd.2 x s s' h)⟩

/-- A condition whose steps can be checked. -/
class Checked (c : mc.Condition) where
  step : ∀ t o s r s', Decidable (c.step t o s r s')
  env : ∀ e s s', Decidable (c.env e s s')

instance : Checked (any : mc.Condition) where
  step _ _ _ _ _ := isTrue trivial
  env _ _ _ := isTrue trivial

instance (c d : mc.Condition) [c.Checked] [d.Checked] : (c.and d).Checked where
  step t o s r s' :=
    have := Checked.step (c := c) t o s r s'
    have := Checked.step (c := d) t o s r s'
    inferInstanceAs (Decidable (_ ∧ _))
  env e s s' :=
    have := Checked.env (c := c) e s s'
    have := Checked.env (c := d) e s s'
    inferInstanceAs (Decidable (_ ∧ _))

end Condition

variable {mc : Machine S}

/-- An operation of `t` with a result the condition allows. -/
def Performs (cond : mc.Condition) (t : mc.Tid) (o : S.Op) (s : mc.State)
    (r : S.Result o) (s' : mc.State) : Prop :=
  (∃ ch, mc.perform t o ch s = some (r, s')) ∧ cond.step t o s r s'

/-- An outside event the condition allows, and the threads it kills. -/
def Happens (cond : mc.Condition) (s s' : mc.State) (kill : mc.Tid → Bool) : Prop :=
  ∃ e, mc.env e s = some (s', kill) ∧ cond.env e s s'

/-- One step of the machine under a condition. -/
inductive Next (cond : mc.Condition) : mc.Config → mc.Config → Prop
  | run {c : mc.Config} {t : mc.Tid} {o : S.Op} {k : S.Result o → Prog S Unit}
      {r : S.Result o} {s' : mc.State} :
      c.pool t = some (.call o k) → Performs cond t o c.state r s' →
      Next cond c ⟨s', Function.update c.pool t (remaining (k r))⟩
  | start {c : mc.Config} {t : mc.Tid} {a : mc.Start} {p : Prog S Unit} :
      c.pool t = none → mc.start t a c.state = some p →
      Next cond c ⟨c.state, Function.update c.pool t (remaining p)⟩
  | env {c : mc.Config} {s' : mc.State} {kill : mc.Tid → Bool} :
      Happens cond c.state s' kill →
      Next cond c ⟨s', fun t => if kill t then none else c.pool t⟩

/-- The configurations a run reaches whose steps all meet `cond`. -/
inductive Reachable (cond : mc.Condition) : mc.Config → Prop
  | init {s : mc.State} : mc.init s → Reachable cond ⟨s, fun _ => none⟩
  | next {c c' : mc.Config} : Reachable cond c → Next cond c c' → Reachable cond c'

theorem Performs.mono {c d : mc.Condition} (hcd : c.Le d) {t : mc.Tid} {o : S.Op}
    {s s' : mc.State} {r : S.Result o} (h : Performs c t o s r s') : Performs d t o s r s' :=
  ⟨h.1, hcd.1 t o s r s' h.2⟩

theorem Happens.mono {c d : mc.Condition} (hcd : c.Le d) {s s' : mc.State}
    {kill : mc.Tid → Bool} (h : Happens c s s' kill) : Happens d s s' kill := by
  obtain ⟨e, he, hc⟩ := h
  exact ⟨e, he, hcd.2 e s s' hc⟩

/-- What operations and outside events keep of the state is kept by a step. -/
theorem Next.keeps {cond : mc.Condition} {P : mc.State → Prop}
    (hrun : ∀ t o s r s', Performs cond t o s r s' → P s → P s')
    (henv : ∀ s s' kill, Happens cond s s' kill → P s → P s') {a b : mc.Config}
    (h : Next cond a b) (hP : P a.state) : P b.state := by
  cases h with
  | run _ hs => exact hrun _ _ _ _ _ hs hP
  | start _ _ => exact hP
  | env he => exact henv _ _ _ he hP

theorem Reachable.star {cond : mc.Condition} {c c' : mc.Config} (h : Reachable cond c)
    (hs : Relation.ReflTransGen (Next cond) c c') : Reachable cond c' := by
  induction hs with
  | refl => exact h
  | tail _ hn ih => exact .next ih hn

/-! ## Replaying a run -/

/-- One step of a run, with what the outside decided. -/
inductive Event (mc : Machine S) : Type
  | run (t : mc.Tid) (ch : mc.Choice)
  | start (t : mc.Tid) (a : mc.Start)
  | env (e : mc.Env)

section Replay

variable (cond : mc.Condition) [dec : cond.Checked]

/-- The step an event stands for, when it is one and meets the condition. -/
def execEvent (c : mc.Config) : mc.Event → Option mc.Config
  | .run t ch =>
      match c.pool t with
      | some (.call o k) =>
          match mc.perform t o ch c.state with
          | some (r, s') =>
              match dec.step t o c.state r s' with
              | isTrue _ => some ⟨s', Function.update c.pool t (remaining (k r))⟩
              | isFalse _ => none
          | none => none
      | _ => none
  | .start t a =>
      match c.pool t with
      | none => (mc.start t a c.state).map fun p =>
          ⟨c.state, Function.update c.pool t (remaining p)⟩
      | some _ => none
  | .env e =>
      match mc.env e c.state with
      | some (s', kill) =>
          match dec.env e c.state s' with
          | isTrue _ => some ⟨s', fun t => if kill t then none else c.pool t⟩
          | isFalse _ => none
      | none => none

/-- A run, event by event. -/
def exec (c : mc.Config) : List mc.Event → Option mc.Config
  | [] => some c
  | e :: es => (execEvent cond c e).bind fun c' => exec c' es

variable {cond}

theorem execEvent_next {c c' : mc.Config} {e : mc.Event}
    (h : execEvent cond c e = some c') : Next cond c c' := by
  cases e with
  | run t ch =>
      simp only [execEvent] at h
      split at h
      · rename_i o k hp
        split at h
        · rename_i r s' hperform
          split at h
          · rename_i hc _
            cases h
            exact .run hp ⟨⟨ch, hperform⟩, hc⟩
          · cases h
        · cases h
      · cases h
  | start t a =>
      simp only [execEvent] at h
      split at h
      · rename_i hp
        obtain ⟨p, hstart, rfl⟩ := Option.map_eq_some_iff.mp h
        exact .start hp hstart
      · cases h
  | env e =>
      simp only [execEvent] at h
      split at h
      · rename_i s' kill henv
        split at h
        · rename_i hc _
          cases h
          exact .env ⟨e, henv, hc⟩
        · cases h
      · cases h

/-- A replayed run is a run. -/
theorem exec_reachable {c c' : mc.Config} {es : List mc.Event}
    (hc : Reachable cond c) (h : exec cond c es = some c') : Reachable cond c' := by
  induction es generalizing c with
  | nil =>
      cases h
      exact hc
  | cons e es ih =>
      obtain ⟨c₁, hstep, hrest⟩ := Option.bind_eq_some_iff.mp h
      exact ih (.next hc (execEvent_next hstep)) hrest

/-- A replayed run leads from where it starts to where it ends. -/
theorem exec_star {c c' : mc.Config} {es : List mc.Event} (h : exec cond c es = some c') :
    Relation.ReflTransGen (Next cond) c c' := by
  induction es generalizing c with
  | nil =>
      cases h
      exact .refl
  | cons e es ih =>
      obtain ⟨c₁, hstep, hrest⟩ := Option.bind_eq_some_iff.mp h
      exact .head (execEvent_next hstep) (ih hrest)

end Replay

end Machine

end Flowlite.Threads
