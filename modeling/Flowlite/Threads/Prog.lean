import Mathlib.Logic.Basic

/-!
# Sequential programs over fallible operations

A thread of a concurrent machine runs a program that performs one operation at
a time. An operation either answers or fails, and the program sees which. `Prog`
is the tree of everything such a program can still do; it fixes nothing about
what an operation means, so several threads can be interleaved between any two
operations of each (`Flowlite.Threads.Machine`).

* `Prog.perform` is one operation whose failure ends the program;
* `Prog.attempt` turns a failure into a value, as a caller that logs it does;
* `Prog.forEach` runs a body over a list, in order;
* `Prog.alone` is what a program comes to while nobody else acts;
* `Prog.Uses P` says that every operation the program may ever perform has `P`;
* `Prog.Ends Q` says that every value it may ever end with has `Q`;
* `Prog.GoesThrough F` says that it ends with no error while no operation in `F` fails.
-/

namespace Flowlite.Threads

/-- The operations of a machine, what each of them answers with, and the errors
any of them may fail with. -/
structure Signature where
  Op : Type
  Ret : Op → Type
  Err : Type

variable {S : Signature} {α β γ : Type}

/-- How one operation came out. -/
abbrev Signature.Result (S : Signature) (o : S.Op) : Type :=
  Except S.Err (S.Ret o)

/-- A program: a value, an error, or one operation and what follows each of its
results. -/
inductive Prog (S : Signature) (α : Type) : Type
  | ret (a : α)
  | throw (e : S.Err)
  | call (o : S.Op) (k : S.Result o → Prog S α)

namespace Prog

/-- Run `p`, then the program its value selects; an error of `p` skips the rest. -/
def bind : Prog S α → (α → Prog S β) → Prog S β
  | .ret a, f => f a
  | .throw e, _ => .throw e
  | .call o k, f => .call o fun r => (k r).bind f

instance : Monad (Prog S) where
  pure := .ret
  bind := Prog.bind

@[simp] theorem pure_eq (a : α) : (pure a : Prog S α) = .ret a := rfl

@[simp] theorem bind_eq (p : Prog S α) (f : α → Prog S β) : p >>= f = p.bind f := rfl

@[simp] theorem bind_ret (a : α) (f : α → Prog S β) :
    (Prog.ret a : Prog S α).bind f = f a := rfl

@[simp] theorem bind_throw (e : S.Err) (f : α → Prog S β) :
    (Prog.throw e : Prog S α).bind f = .throw e := rfl

@[simp] theorem bind_call (o : S.Op) (k : S.Result o → Prog S α) (f : α → Prog S β) :
    (Prog.call o k).bind f = .call o fun r => (k r).bind f := rfl

/-- One operation; its failure is the program's. -/
def perform (o : S.Op) : Prog S (S.Ret o) :=
  .call o fun
    | .ok a => .ret a
    | .error e => .throw e

/-- Run a program to the end and hand its error over as a value. -/
def attempt : Prog S α → Prog S (Except S.Err α)
  | .ret a => .ret (.ok a)
  | .throw e => .ret (.error e)
  | .call o k => .call o fun r => (k r).attempt

/-- Run `f` on every element, in order; the first error ends it. -/
def forEach (xs : List α) (f : α → Prog S Unit) : Prog S Unit :=
  match xs with
  | [] => .ret ()
  | x :: rest => (f x).bind fun _ => forEach rest f

/-- Run `f` on every element, in order, and collect the values; the first error
ends it. -/
def collect (xs : List α) (f : α → Prog S β) : Prog S (List β) :=
  match xs with
  | [] => .ret []
  | x :: rest => (f x).bind fun y => (collect rest f).bind fun ys => .ret (y :: ys)

/-- Return a value already at hand, or its error. -/
def ofExcept : Except S.Err α → Prog S α
  | .ok a => .ret a
  | .error e => .throw e

/-- Every operation the program may perform, whatever its operations answer,
has `P`. -/
def Uses (P : S.Op → Prop) : Prog S α → Prop
  | .ret _ => True
  | .throw _ => True
  | .call o k => P o ∧ ∀ r, (k r).Uses P

section Uses

variable {P Q : S.Op → Prop}

@[simp] theorem uses_ret (a : α) : (Prog.ret a : Prog S α).Uses P := trivial

@[simp] theorem uses_throw (e : S.Err) : (Prog.throw e : Prog S α).Uses P := trivial

@[simp] theorem uses_perform (o : S.Op) : (perform o).Uses P ↔ P o := by
  constructor
  · exact fun h => h.1
  · intro h
    refine ⟨h, fun r => ?_⟩
    cases r <;> trivial

theorem Uses.bind {p : Prog S α} {f : α → Prog S β} (hp : p.Uses P)
    (hf : ∀ a, (f a).Uses P) : (p.bind f).Uses P := by
  induction p with
  | ret a => exact hf a
  | throw e => trivial
  | call o k ih => exact ⟨hp.1, fun r => ih r (hp.2 r)⟩

theorem Uses.attempt {p : Prog S α} (hp : p.Uses P) : p.attempt.Uses P := by
  induction p with
  | ret a => trivial
  | throw e => trivial
  | call o k ih => exact ⟨hp.1, fun r => ih r (hp.2 r)⟩

theorem Uses.forEach {xs : List α} {f : α → Prog S Unit}
    (hf : ∀ x ∈ xs, (f x).Uses P) : (forEach xs f).Uses P := by
  induction xs with
  | nil => trivial
  | cons x rest ih =>
      have hrest := ih fun y hy => hf y (List.mem_cons_of_mem x hy)
      exact (hf x (List.mem_cons_self ..)).bind fun _ => hrest

theorem Uses.collect {xs : List α} {f : α → Prog S β}
    (hf : ∀ x ∈ xs, (f x).Uses P) : (collect xs f).Uses P := by
  induction xs with
  | nil => trivial
  | cons x rest ih =>
      have hrest := ih fun y hy => hf y (List.mem_cons_of_mem x hy)
      exact (hf x (List.mem_cons_self ..)).bind fun _ => hrest.bind fun _ => trivial

@[simp] theorem uses_ofExcept (r : Except S.Err α) : (ofExcept r).Uses P := by
  cases r <;> trivial

theorem Uses.mono {p : Prog S α} (hp : p.Uses P) (hPQ : ∀ o, P o → Q o) : p.Uses Q := by
  induction p with
  | ret a => trivial
  | throw e => trivial
  | call o k ih => exact ⟨hPQ o hp.1, fun r => ih r (hp.2 r)⟩

theorem Uses.of_forall (p : Prog S α) (h : ∀ o, P o) : p.Uses P := by
  induction p with
  | ret a => trivial
  | throw e => trivial
  | call o k ih => exact ⟨h o, ih⟩

theorem Uses.all {ι : Sort*} {p : Prog S α} {P : ι → S.Op → Prop} (hp : ∀ i, p.Uses (P i)) :
    p.Uses fun o => ∀ i, P i o := by
  induction p with
  | ret a => trivial
  | throw e => trivial
  | call o k ih => exact ⟨fun i => (hp i).1, fun r => ih r fun i => (hp i).2 r⟩

end Uses

/-! ### What a program may end with -/

/-- Whatever its operations answer, a value the program ends with has `Q`. -/
def Ends (Q : α → Prop) : Prog S α → Prop
  | .ret a => Q a
  | .throw _ => True
  | .call _ k => ∀ r, (k r).Ends Q

section Ends

variable {Q : α → Prop}

@[simp] theorem ends_ret (a : α) : (Prog.ret a : Prog S α).Ends Q ↔ Q a := Iff.rfl

theorem ends_bind (p : Prog S β) (f : β → Prog S α) :
    (p.bind f).Ends Q ↔ p.Ends fun b => (f b).Ends Q := by
  induction p with
  | ret b => exact Iff.rfl
  | throw e => exact Iff.rfl
  | call o k ih => exact forall_congr' ih

theorem Ends.mono {R : α → Prop} {p : Prog S α} (hp : p.Ends Q) (hQR : ∀ a, Q a → R a) :
    p.Ends R := by
  induction p with
  | ret a => exact hQR a hp
  | throw e => trivial
  | call o k ih => exact fun r => ih r (hp r)

theorem Ends.of_forall (p : Prog S α) (h : ∀ a, Q a) : p.Ends Q := by
  induction p with
  | ret a => exact h a
  | throw e => trivial
  | call o k ih => exact ih

end Ends

/-! ### Programs that go through -/

/-- While no operation in `F` fails, the program ends with a value. -/
def GoesThrough (F : S.Op → Prop) : Prog S α → Prop
  | .ret _ => True
  | .throw _ => False
  | .call o k => (∀ a, (k (.ok a)).GoesThrough F) ∧ (¬ F o → ∀ e, (k (.error e)).GoesThrough F)

section GoesThrough

variable {F : S.Op → Prop}

theorem goesThrough_ret (a : α) : (Prog.ret a : Prog S α).GoesThrough F := trivial

theorem goesThrough_perform {o : S.Op} (ho : F o) : (perform o).GoesThrough F :=
  ⟨fun _ => trivial, fun hnot => absurd ho hnot⟩

theorem GoesThrough.bind {p : Prog S α} {f : α → Prog S β} (hp : p.GoesThrough F)
    (hf : ∀ a, (f a).GoesThrough F) : (p.bind f).GoesThrough F := by
  induction p with
  | ret a => exact hf a
  | throw e => exact hp.elim
  | call o k ih => exact ⟨fun a => ih _ (hp.1 a), fun hnot e => ih _ (hp.2 hnot e)⟩

/-- An error that is taken as a value stops nothing. -/
theorem goesThrough_attempt (p : Prog S α) : p.attempt.GoesThrough F := by
  induction p with
  | ret a => trivial
  | throw e => trivial
  | call o k ih => exact ⟨fun a => ih _, fun _ e => ih _⟩

theorem GoesThrough.forEach {xs : List α} {f : α → Prog S Unit}
    (hf : ∀ x ∈ xs, (f x).GoesThrough F) : (forEach xs f).GoesThrough F := by
  induction xs with
  | nil => trivial
  | cons x rest ih =>
      have hrest := ih fun y hy => hf y (List.mem_cons_of_mem x hy)
      exact (hf x List.mem_cons_self).bind fun _ => hrest

end GoesThrough

/-! ### A program by itself

What a program comes to when nobody acts between its operations. -/

variable {State : Type}

def alone (act : State → (o : S.Op) → Option (S.Result o × State)) :
    Prog S α → State → Option (Except S.Err α × State)
  | .ret a, s => some (.ok a, s)
  | .throw e, s => some (.error e, s)
  | .call o k, s =>
      match act s o with
      | none => none
      | some (r, s') => (k r).alone act s'

section Alone

variable {act : State → (o : S.Op) → Option (S.Result o × State)} {s s' : State}

@[simp] theorem alone_ret (a : α) :
    (Prog.ret a : Prog S α).alone act s = some (.ok a, s) := rfl

@[simp] theorem alone_throw (e : S.Err) :
    (Prog.throw e : Prog S α).alone act s = some (.error e, s) := rfl

theorem alone_perform {o : S.Op} {r : S.Result o} (h : act s o = some (r, s')) :
    (perform o).alone act s = some (r, s') := by
  unfold perform
  simp only [alone, h]
  cases r <;> rfl

theorem alone_bind (p : Prog S α) (f : α → Prog S β) (s : State) :
    (p.bind f).alone act s = match p.alone act s with
      | none => none
      | some (.ok a, s') => (f a).alone act s'
      | some (.error e, s') => some (.error e, s') := by
  induction p generalizing s with
  | ret a => rfl
  | throw e => rfl
  | call o k ih =>
      simp only [bind_call, alone]
      cases act s o with
      | none => rfl
      | some rs => exact ih rs.1 rs.2

/-- A part that is through with a value is gone on from. -/
theorem alone_bind_of_ok {p : Prog S α} {a : α} (h : p.alone act s = some (.ok a, s'))
    (f : α → Prog S β) : (p.bind f).alone act s = (f a).alone act s' := by
  rw [alone_bind, h]

theorem alone_bind_of_error {p : Prog S α} {e : S.Err} (h : p.alone act s = some (.error e, s'))
    (f : α → Prog S β) : (p.bind f).alone act s = some (.error e, s') := by
  rw [alone_bind, h]

/-- What every operation keeps, the whole program keeps. -/
theorem alone_keeps {I : State → Prop} (hact : ∀ {s o r s'}, act s o = some (r, s') → I s → I s')
    {p : Prog S α} {x : Except S.Err α} (h : p.alone act s = some (x, s')) (hs : I s) : I s' := by
  induction p generalizing s with
  | ret a =>
      cases h
      exact hs
  | throw e =>
      cases h
      exact hs
  | call o k ih =>
      unfold alone at h
      split at h
      · cases h
      · rename_i hstep
        exact ih _ h (hact hstep hs)

end Alone

/-! ### Walking through a program

A proof about a program goes through it once. `Φ` is what it shows of the parts the
program goes on from, `Ψ` of a part it ends with. -/

/-- Closed under the way programs are put together, from the operations with `P`. -/
structure Walk (P : S.Op → Prop) (Φ Ψ : ∀ α : Type, Prog S α → Prop) : Prop where
  ret : ∀ {α : Type} (a : α), Φ α (.ret a)
  throw : ∀ {α : Type} (e : S.Err), Φ α (.throw e)
  perform : ∀ o, P o → Φ _ (perform o)
  attempt : ∀ {α : Type} {p : Prog S α}, Φ α p → Φ _ p.attempt
  bind : ∀ {α β : Type} {p : Prog S α} {f : α → Prog S β}, Φ α p → (∀ a, Φ β (f a)) →
    Φ β (p.bind f)
  last : ∀ {α : Type} {p : Prog S α}, Φ α p → Ψ α p
  seq : ∀ {α β : Type} {p : Prog S α} {f : α → Prog S β}, Φ α p → (∀ a, Ψ β (f a)) →
    Ψ β (p.bind f)

theorem call_eq (o : S.Op) (k : S.Result o → Prog S α) :
    Prog.call o k = (Prog.perform o).attempt.bind k := by
  unfold Prog.perform
  simp only [attempt, bind_call]
  congr
  funext r
  cases r <;> rfl

namespace Walk

variable {P : S.Op → Prop} {Φ Ψ : ∀ α : Type, Prog S α → Prop}

/-- A part all of whose operations have `P`. -/
theorem uses (h : Walk P Φ Ψ) {α : Type} {p : Prog S α} (hp : p.Uses P) : Φ α p := by
  induction p with
  | ret a => exact h.ret a
  | throw e => exact h.throw e
  | call o k ih =>
      rw [call_eq]
      exact h.bind (h.attempt (h.perform o hp.1)) fun r => ih r (hp.2 r)

/-- A loop all of whose rounds are shown. -/
theorem forEach (h : Walk P Φ Ψ) {xs : List α} {f : α → Prog S Unit}
    (hf : ∀ x ∈ xs, Φ Unit (f x)) : Φ Unit (Prog.forEach xs f) := by
  induction xs with
  | nil => exact h.ret ()
  | cons x rest ih =>
      exact h.bind (hf x List.mem_cons_self) fun _ => ih fun y hy => hf y (List.mem_cons_of_mem x hy)

end Walk

theorem Uses.walk (P : S.Op → Prop) :
    Walk P (fun _ p => p.Uses P) (fun _ p => p.Uses P) where
  ret _ := trivial
  throw _ := trivial
  perform _ h := (uses_perform _).mpr h
  attempt h := h.attempt
  bind h hf := h.bind hf
  last h := h
  seq h hf := h.bind hf

end Prog

end Flowlite.Threads
