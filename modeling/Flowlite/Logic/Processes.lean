import Flowlite.Logic.Rules
import Flowlite.Logic.Spawns

/-!
# What one step can do to a process

A process is spawned once and its row stays. `Process.after` is what an operation
makes of it, `Process.afterExternal` what the outside does; `procs_find` and
`procs_happens` say that there is nothing else. Which attempt it was spawned for
never changes, how its `sh` ended is set once, and only a reader adds to what was
delivered.
-/

namespace Flowlite

open Store Host Threads Crud Machine

variable {lib : Library} {cond : (flowlite lib).Condition}

/-! ## The row after an operation -/

/-- `kill_process_group` of `target`, as far as it reaches `p`. -/
def Host.Process.afterKill (p target : Process) : Process :=
  let signalled :=
    if p.groupAlive && p.processGroupId = target.processGroupId then Process.kill.apply p else p
  if signalled.id = target.id then (Process.exit .signaled).apply signalled else signalled

/-- What an operation makes of a process that is there. -/
def Host.Process.after (w : World) (o : Op) (p : Process) : Process :=
  match o with
  | .childrenInsert _ child => if p.id = child.process then (heldBy .map).apply p else p
  | .childrenRemove a =>
      match w.children a with
      | none => p
      | some child => if p.id = child.process then (heldBy .monitor).apply p else p
  | .killProcessGroup n =>
      match w.procs.find n with
      | none => p
      | some target => p.afterKill target
  | .killOrphan g => if p.groupAlive && p.processGroupId = g then Process.kill.apply p else p
  | .tryRecvAll n | .recvUntilClosed n => if p.id = n then Process.drain.apply p else p
  | .abortReaders n => if p.id = n then Process.abortReaders.apply p else p
  | _ => p

theorem find_updateProcess (w : World) (n m : Nat) (f : Patch Process) :
    (w.updateProcess n f).procs.find m =
      (w.procs.find m).map fun p => if p.id = n then f.apply p else p := by
  simp only [World.updateProcess, Table.find_update]
  congr
  funext p
  simp

theorem find_killProcessGroup (w : World) {n : Nat} {target : Process}
    (h : w.procs.find n = some target) (m : Nat) :
    (w.killProcessGroup n).procs.find m = (w.procs.find m).map fun p => p.afterKill target := by
  have hid : target.id = n := Table.key_of_find h
  subst hid
  simp only [World.killProcessGroup, h, find_updateProcess, World.signalGroup, Table.find_update,
    Option.map_map]
  rfl

/-- The process under a key after a step: one the step spawned, or what it made of
the one that was there. -/
theorem procs_find {t : Tid} {o : Op} {w w' : World} {r : Result o}
    (h : Performs cond t o w r w') (n : Nat) :
    (∃ a command startedAt pid, o = .spawn a command startedAt ∧ Succeeded r ∧
      n = w.procs.next ∧
      w'.procs.find n = some ((Process.spawned a pid startedAt).row n)) ∨
    w'.procs.find n = (w.procs.find n).map fun p => p.after w o := by
  obtain ⟨ch, w₁, houtcome, rfl⟩ := performs_cases h
  cases o
  case write q =>
    right
    rcases write_cases h with ⟨e, -, heq⟩ | ⟨now, a, db, -, -, heq⟩ <;> rw [heq]
    · exact Option.map_id'.symm
    · simp only [commit_procs]
      exact Option.map_id'.symm
  case spawn a command startedAt =>
    simp only [World.outcome] at houtcome
    split at houtcome
    · cases houtcome
      exact .inr Option.map_id'.symm
    · split at houtcome <;> cases houtcome
      simp only [Table.find_insert]
      split
      · rename_i hn
        subst hn
        exact .inl ⟨a, command, startedAt, ch.pid, rfl, ⟨_, rfl⟩, rfl, rfl⟩
      · exact .inr Option.map_id'.symm
  all_goals right
  case childrenInsert a child =>
    cases houtcome
    exact find_updateProcess w child.process n (Process.heldBy .map)
  case childrenRemove a =>
    simp only [World.outcome, Option.some.injEq, Prod.mk.injEq] at houtcome
    obtain ⟨-, rfl⟩ := houtcome
    cases hchild : w.children a with
    | none => simp only [Process.after, hchild, Option.map_id']
    | some child =>
        simp only [Process.after, hchild]
        exact find_updateProcess w child.process n (Process.heldBy .monitor)
  case killProcessGroup m =>
    cases houtcome
    cases hm : w.procs.find m with
    | none => simp only [World.killProcessGroup, Process.after, hm, Option.map_id']
    | some target =>
        simp only [Process.after, hm]
        exact find_killProcessGroup w hm n
  case killOrphan g =>
    cases houtcome
    exact Table.find_update ..
  case tryRecvAll m =>
    simp only [World.outcome, Option.map_eq_some_iff, Prod.mk.injEq] at houtcome
    obtain ⟨p, -, -, rfl⟩ := houtcome
    exact find_updateProcess w m n Process.drain
  case recvUntilClosed m =>
    simp only [World.outcome, Option.bind_eq_some_iff] at houtcome
    obtain ⟨p, -, houtcome⟩ := houtcome
    split at houtcome
    · cases houtcome
      exact find_updateProcess w m n Process.drain
    · split at houtcome <;> cases houtcome
      exact find_updateProcess w m n Process.drain
  case abortReaders m =>
    cases houtcome
    exact find_updateProcess w m n Process.abortReaders
  all_goals
    simp only [World.outcome, Option.some.injEq, Option.map_eq_some_iff] at houtcome
  all_goals simp only [Process.after, Option.map_id']
  all_goals congr 1
  all_goals grind

theorem process_origin {t : Tid} {o : Op} {w w' : World} {r : Result o}
    (h : Performs cond t o w r w') {n : Nat} {p' : Process} (hp' : w'.procs.find n = some p') :
    (∃ a command startedAt pid, o = .spawn a command startedAt ∧ Succeeded r ∧
      n = w.procs.next ∧ p' = (Process.spawned a pid startedAt).row n) ∨
    ∃ p, w.procs.find n = some p ∧ p' = p.after w o := by
  rcases procs_find h n with ⟨a, command, startedAt, pid, ho, hok, hn, hrow⟩ | hrow
  · rw [hrow] at hp'
    cases hp'
    exact .inl ⟨a, command, startedAt, pid, ho, hok, hn, rfl⟩
  · rw [hrow] at hp'
    obtain ⟨p, hp, rfl⟩ := Option.map_eq_some_iff.mp hp'
    exact .inr ⟨p, hp, rfl⟩

theorem process_fate {t : Tid} {o : Op} {w w' : World} {r : Result o}
    (h : Performs cond t o w r w') {n : Nat} {p : Process} (hp : w.procs.find n = some p) :
    w'.procs.find n = some (p.after w o) := by
  rcases procs_find h n with ⟨-, -, -, -, -, -, rfl, -⟩ | hrow
  · exact absurd (Table.lt_next_of_find hp) (lt_irrefl _)
  · rw [hrow, hp]
    rfl

/-- The operations that leave every process as it is. -/
def KeepsProcs : Op → Prop
  | .spawn _ _ _ | .childrenInsert _ _ | .childrenRemove _ | .killProcessGroup _ | .killOrphan _
  | .tryRecvAll _ | .recvUntilClosed _ | .abortReaders _ => False
  | _ => True

theorem procs_kept {t : Tid} {o : Op} {w w' : World} {r : Result o} (ho : KeepsProcs o)
    (h : Performs cond t o w r w') (n : Nat) : w'.procs.find n = w.procs.find n := by
  rcases procs_find h n with ⟨_, _, _, _, rfl, -⟩ | hrow
  · exact ho.elim
  · rw [hrow]
    cases o <;> first
      | exact ho.elim
      | exact Option.map_id'

/-! ### What it leaves as it is -/

namespace Host.Process

/-- What an operation can make of a process: of a kill it may be the target, or only in the
group, and a receive is of its own channel. -/
theorem after_cases (w : World) (o : Op) (p : Process) :
    p.after w o = p ∨ p.after w o = kill.apply p ∨ p.after w o = (exit .signaled).apply p ∨
      p.after w o = (exit .signaled).apply (kill.apply p) ∨
      (∃ holder, p.after w o = (heldBy holder).apply p) ∨
      p.after w o = Process.abortReaders.apply p ∨
      (o = .tryRecvAll p.id ∨ o = .recvUntilClosed p.id) ∧ p.after w o = drain.apply p := by
  cases o with
  | childrenInsert a child =>
      simp only [after]
      split
      · exact .inr (.inr (.inr (.inr (.inl ⟨_, rfl⟩))))
      · exact .inl rfl
  | childrenRemove a =>
      simp only [after]
      split
      · exact .inl rfl
      · split
        · exact .inr (.inr (.inr (.inr (.inl ⟨_, rfl⟩))))
        · exact .inl rfl
  | killProcessGroup n =>
      simp only [after]
      split
      · exact .inl rfl
      · unfold afterKill
        dsimp only
        split <;> split
        · exact .inr (.inr (.inr (.inl rfl)))
        · exact .inr (.inl rfl)
        · exact .inr (.inr (.inl rfl))
        · exact .inl rfl
  | killOrphan g =>
      simp only [after]
      split
      · exact .inr (.inl rfl)
      · exact .inl rfl
  | tryRecvAll n =>
      simp only [after]
      split
      · rename_i hn
        exact .inr (.inr (.inr (.inr (.inr (.inr ⟨.inl (hn ▸ rfl), rfl⟩)))))
      · exact .inl rfl
  | recvUntilClosed n =>
      simp only [after]
      split
      · rename_i hn
        exact .inr (.inr (.inr (.inr (.inr (.inr ⟨.inr (hn ▸ rfl), rfl⟩)))))
      · exact .inl rfl
  | abortReaders n =>
      simp only [after]
      split
      · exact .inr (.inr (.inr (.inr (.inr (.inl rfl)))))
      · exact .inl rfl
  | _ => exact .inl rfl

@[simp] theorem after_id (w : World) (o : Op) (p : Process) : (p.after w o).id = p.id := by
  rcases after_cases w o p with h | h | h | h | ⟨holder, h⟩ | h | ⟨-, h⟩ <;> rw [h] <;> rfl

@[simp] theorem after_taskRunAttemptId (w : World) (o : Op) (p : Process) :
    (p.after w o).taskRunAttemptId = p.taskRunAttemptId := by
  rcases after_cases w o p with h | h | h | h | ⟨holder, h⟩ | h | ⟨-, h⟩ <;> rw [h] <;> rfl

@[simp] theorem after_delivered (w : World) (o : Op) (p : Process) :
    (p.after w o).delivered = p.delivered := by
  rcases after_cases w o p with h | h | h | h | ⟨holder, h⟩ | h | ⟨-, h⟩ <;> rw [h] <;> rfl

/-- How the `sh` ended is set once. -/
theorem after_exited {w : World} {o : Op} {p : Process} {status : ExitStatus}
    (h : p.exited = some status) : (p.after w o).exited = some status := by
  rcases after_cases w o p with heq | heq | heq | heq | ⟨holder, heq⟩ | heq | ⟨-, heq⟩ <;> rw [heq]
  all_goals simp [kill, exit, heldBy, drain, Process.abortReaders, h]

theorem alive_of_after {w : World} {o : Op} {p : Process} (h : (p.after w o).exited = none) :
    p.exited = none := by
  cases hp : p.exited with
  | none => rfl
  | some status => rw [after_exited hp] at h; cases h

/-- Who has the child afterwards. -/
theorem after_holder (w : World) (o : Op) (p : Process) :
    (p.after w o).holder = match o with
      | .childrenInsert _ child => if p.id = child.process then .map else p.holder
      | .childrenRemove a =>
          if (w.children a).any fun child => p.id = child.process then .monitor else p.holder
      | _ => p.holder := by
  cases o <;> simp only [after, afterKill] <;> repeat' split
  all_goals first
    | rfl
    | simp_all

/-- Only a receive takes chunks out. -/
theorem after_chunks (w : World) (o : Op) (p : Process) :
    (p.after w o).chunks = p.chunks ∨
      (o = .tryRecvAll p.id ∨ o = .recvUntilClosed p.id) ∧ (p.after w o).chunks = [] := by
  rcases after_cases w o p with h | h | h | h | ⟨holder, h⟩ | h | ⟨ho, h⟩ <;> rw [h]
  case inr.inr.inr.inr.inr.inr => exact .inr ⟨ho, rfl⟩
  all_goals exact .inl rfl

/-- An operation starts no reader. -/
theorem after_closed {w : World} {o : Op} {p : Process} (h : p.closed = true) :
    (p.after w o).closed = true := by
  rcases after_cases w o p with heq | heq | heq | heq | ⟨holder, heq⟩ | heq | ⟨-, heq⟩ <;> rw [heq]
  case inr.inr.inr.inr.inr.inl => simp_all [closed, Process.abortReaders]
  all_goals exact h

end Host.Process

/-! ## The row after an outside event -/

/-- What an outside event makes of a process that is there. -/
def Host.Process.afterExternal (p : Process) : External → Process
  | .crash => Process.orphan.apply p
  | .exit n status => if p.id = n then (Process.exit status).apply p else p
  | .groupExit n => if p.id = n then Process.groupExit.apply p else p
  | .deliver n chunk => if p.id = n then (Process.deliver chunk).apply p else p
  | .touch n at' => if p.id = n then (Process.touch at').apply p else p
  | .eof n stream => if p.id = n then (Process.reachEof stream).apply p else p
  | _ => p

theorem external_procs {w w' : World} {e : External} {kill : Tid → Bool}
    (h : w.external e = some (w', kill)) (n : Nat) :
    w'.procs.find n = (w.procs.find n).map fun p => p.afterExternal e := by
  cases e
  case crash =>
    simp only [World.external] at h
    split at h <;> cases h
    all_goals simp only [Table.find_update, Host.Process.afterExternal, if_true]
  case exit m status =>
    cases h
    exact find_updateProcess w m n (Process.exit status)
  case touch m at' =>
    cases h
    exact find_updateProcess w m n (Process.touch at')
  case groupExit m =>
    simp only [World.external, Option.bind_eq_some_iff] at h
    obtain ⟨p, -, h⟩ := h
    split at h <;> cases h
    exact find_updateProcess w m n Process.groupExit
  case deliver m chunk =>
    simp only [World.external, Option.bind_eq_some_iff] at h
    obtain ⟨p, -, h⟩ := h
    split at h <;> cases h
    exact find_updateProcess w m n (Process.deliver chunk)
  case eof m stream =>
    simp only [World.external, Option.bind_eq_some_iff] at h
    obtain ⟨p, -, h⟩ := h
    split at h <;> cases h
    exact find_updateProcess w m n (Process.reachEof stream)
  case boot config =>
    simp only [World.external] at h
    split at h <;> cases h
    exact Option.map_id'.symm
  all_goals
    cases h
    exact Option.map_id'.symm

theorem process_happens {w w' : World} {kill : Tid → Bool} (h : Happens cond w w' kill) :
    ∃ e, w.external e = some (w', kill) ∧ cond.env e w w' ∧
      ∀ n, w'.procs.find n = (w.procs.find n).map fun p => p.afterExternal e := by
  obtain ⟨e, he, hcond⟩ := h
  exact ⟨e, he, hcond, external_procs he⟩

namespace Host.Process

@[simp] theorem afterExternal_id (p : Process) (e : External) :
    (p.afterExternal e).id = p.id := by
  cases e <;> simp only [afterExternal] <;> repeat' split
  all_goals first
    | rfl
    | (rename_i stream _; cases stream <;> rfl)

@[simp] theorem afterExternal_taskRunAttemptId (p : Process) (e : External) :
    (p.afterExternal e).taskRunAttemptId = p.taskRunAttemptId := by
  cases e <;> simp only [afterExternal] <;> repeat' split
  all_goals first
    | rfl
    | (rename_i stream _; cases stream <;> rfl)

theorem afterExternal_exited {p : Process} {e : External} {status : ExitStatus}
    (h : p.exited = some status) : (p.afterExternal e).exited = some status := by
  cases e <;> simp only [afterExternal] <;> repeat' split
  all_goals first
    | exact h
    | simp [exit, h]
    | (rename_i stream _; cases stream <;> exact h)

theorem alive_of_afterExternal {p : Process} {e : External}
    (h : (p.afterExternal e).exited = none) : p.exited = none := by
  cases hp : p.exited with
  | none => rfl
  | some status => rw [afterExternal_exited hp] at h; cases h

/-- Only a crash takes a child from whoever has it. -/
theorem afterExternal_holder (p : Process) (e : External) :
    (p.afterExternal e).holder = match e with
      | .crash => .nobody
      | _ => p.holder := by
  cases e <;> simp only [afterExternal] <;> repeat' split
  all_goals first
    | rfl
    | (rename_i stream _; cases stream <;> rfl)

/-- Outside a crash, what is delivered goes into the channel, and nothing comes out. -/
theorem afterExternal_chunks (p : Process) {e : External} (he : e ≠ .crash) :
    ((p.afterExternal e).chunks = p.chunks ∧ (p.afterExternal e).delivered = p.delivered) ∨
      ∃ chunk, (p.afterExternal e).chunks = p.chunks ++ [chunk] ∧
        (p.afterExternal e).delivered = p.delivered ++ [chunk] := by
  cases e with
  | crash => exact absurd rfl he
  | deliver n chunk =>
      simp only [afterExternal]
      split
      · exact .inr ⟨chunk, rfl, rfl⟩
      · exact .inl ⟨rfl, rfl⟩
  | eof n stream =>
      simp only [afterExternal]
      split
      · cases stream <;> exact .inl ⟨rfl, rfl⟩
      · exact .inl ⟨rfl, rfl⟩
  | exit | groupExit | touch =>
      simp only [afterExternal]
      split <;> exact .inl ⟨rfl, rfl⟩
  | boot | endClient | writeFile => exact .inl ⟨rfl, rfl⟩

/-- What was delivered stays delivered. -/
theorem delivered_afterExternal (p : Process) (e : External) :
    p.delivered <+: (p.afterExternal e).delivered := by
  by_cases he : e = .crash
  · subst he
    exact List.prefix_rfl
  · rcases p.afterExternal_chunks he with ⟨-, heq⟩ | ⟨chunk, -, heq⟩
    · exact heq ▸ List.prefix_rfl
    · rw [heq]
      exact List.prefix_append _ _

end Host.Process

/-- Once both readers are gone nothing more is delivered. -/
theorem external_closed {w w' : World} {e : External} {kill : Tid → Bool}
    (h : w.external e = some (w', kill)) {n : Nat} {p : Process} (hp : w.procs.find n = some p)
    (hclosed : p.closed = true) :
    (p.afterExternal e).closed = true ∧ (p.afterExternal e).delivered = p.delivered ∧
      ((p.afterExternal e).chunks = p.chunks ∨ (p.afterExternal e).chunks = []) := by
  have hpid : p.id = n := Table.key_of_find hp
  have hreading : ∀ stream, p.reader stream ≠ .reading := by
    intro stream
    simp only [Process.closed, Bool.and_eq_true, decide_eq_true_eq] at hclosed
    cases stream
    · exact hclosed.1
    · exact hclosed.2
  cases e with
  | deliver m chunk =>
      simp only [World.external, Option.bind_eq_some_iff] at h
      obtain ⟨q, hq, h⟩ := h
      simp only [Process.afterExternal]
      split
      · rename_i hm
        cases hp.symm.trans (hpid ▸ hm ▸ hq)
        rw [if_neg (hreading _)] at h
        cases h
      · exact ⟨hclosed, rfl, .inl rfl⟩
  | crash =>
      simp only [Process.closed, Bool.and_eq_true, decide_eq_true_eq] at hclosed
      refine ⟨?_, rfl, .inr rfl⟩
      simp [Process.afterExternal, Process.orphan, Process.abortReaders, Process.closed, hclosed]
  | eof m stream =>
      simp only [Process.afterExternal]
      split
      · simp only [Process.closed, Bool.and_eq_true, decide_eq_true_eq] at hclosed
        cases stream <;> simp [Process.reachEof, Process.closed, hclosed]
      · exact ⟨hclosed, rfl, .inl rfl⟩
  | exit | groupExit | touch =>
      simp only [Process.afterExternal]
      split <;> exact ⟨hclosed, rfl, .inl rfl⟩
  | boot | endClient | writeFile => exact ⟨hclosed, rfl, .inl rfl⟩

/-! ## How it ends -/

/-- How the `sh` of a process ended. -/
def Exited (n : Nat) (status : ExitStatus) (w : World) : Prop :=
  ∃ p, w.procs.find n = some p ∧ p.exited = some status

/-- It is set once. -/
theorem exited_performs {t : Tid} {o : Op} {n : Nat} {status : ExitStatus} {w w' : World}
    {r : Result o} (h : Performs cond t o w r w') (hw : Exited n status w) :
    Exited n status w' := by
  obtain ⟨p, hp, hexited⟩ := hw
  exact ⟨_, process_fate h hp, Process.after_exited hexited⟩

theorem exited_happens {n : Nat} {status : ExitStatus} {w w' : World} {kill : Tid → Bool}
    (h : Happens cond w w' kill) (hw : Exited n status w) : Exited n status w' := by
  obtain ⟨p, hp, hexited⟩ := hw
  obtain ⟨e, -, -, hprocs⟩ := process_happens h
  exact ⟨p.afterExternal e, by rw [hprocs, hp]; rfl, Process.afterExternal_exited hexited⟩

theorem exited_stable {O : Outline (flowlite lib)} (t : Tid) (n : Nat) (status : ExitStatus) :
    O.Stable cond t (Exited n status) := by
  intro w w' hothers hw
  cases hothers with
  | run _ _ _ _ hperf => exact exited_performs hperf hw
  | env _ _ _ hhappens => exact exited_happens hhappens hw

/-- A process whose group is killed is gone. -/
theorem kill_exits {t : Tid} {n : Nat} {p : Process} {w w' : World}
    {r : Result (.killProcessGroup n)} (hp : w.procs.find n = some p)
    (h : Performs cond t (.killProcessGroup n) w r w') : ∃ status, Exited n status w' := by
  have hended : (p.after w (.killProcessGroup n)).exited.isSome = true := by
    simp only [Process.after, hp, Process.afterKill]
    split <;> simp [Process.kill, Process.exit]
  obtain ⟨status, hstatus⟩ := Option.isSome_iff_exists.mp hended
  exact ⟨status, _, process_fate h hp, hstatus⟩

/-! ## Answers -/

theorem kill_answer {t : Tid} {n : Nat} {w w' : World} {r : Result (.killProcessGroup n)}
    (h : Performs cond t (.killProcessGroup n) w r w') : r = .ok () := by
  obtain ⟨ch, w₁, houtcome, rfl⟩ := performs_cases h
  cases houtcome
  rfl

theorem tryWait_answer {t : Tid} {n : Nat} {w w' : World} {status : Option ExitStatus}
    (h : Performs cond t (.tryWait n) w (.ok status) w') :
    (w.procs.find n).bind (·.exited) = status := by
  obtain ⟨ch, w₁, houtcome, rfl⟩ := performs_cases h
  simp only [World.outcome, Option.some.injEq] at houtcome
  split at houtcome <;> cases houtcome
  rfl

end Flowlite
