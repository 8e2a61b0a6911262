import Flowlite.Logic.Attempts
import Flowlite.Logic.Held

/-!
# Whose child is whose

`TaskRunAttemptChildren` and the processes agree: what the map holds under an attempt
is the child of the one process spawned for it, and a child only moves from the pass
that spawned it to the map, and between the map and the monitor. `custody` is the
outline that says so; it holds of every run.
-/

namespace Flowlite

open Store Host Threads Crud Machine Outline

variable {lib : Library} {cond : (flowlite lib).Condition}

/-! ## The outline -/

/-- Each process is the only one of its attempt, and its child is in the map exactly
if the map has it. -/
structure Custody (w : World) : Prop where
  spawned : ∀ n p, w.procs.find n = some p → 0 < w.spawns p.taskRunAttemptId
  unique : ∀ n p m q, w.procs.find n = some p → w.procs.find m = some q →
    p.taskRunAttemptId = q.taskRunAttemptId → n = m
  process : ∀ a child, w.children a = some child →
    ∃ p, w.procs.find child.process = some p ∧ p.taskRunAttemptId = a ∧ p.holder = .map
  child : ∀ n p, w.procs.find n = some p → p.holder = .map →
    ∃ child, w.children p.taskRunAttemptId = some child ∧ child.process = n

/-- Where the child is while a thread has it. -/
def holderOf : Tid → Holder
  | .service .taskRunAttemptDispatcher => .dispatcher
  | .service .taskRunAttemptMonitor => .monitor
  | _ => .nobody

/-- `t` has the child of process `n`, which was spawned for the attempt. -/
def Holds (t : Tid) (n id : Nat) (w : World) : Prop :=
  ∃ p, w.procs.find n = some p ∧ p.taskRunAttemptId = id ∧ p.holder = holderOf t

/-- A child goes into the map from the thread that has it. -/
def custody (lib : Library) : Outline (flowlite lib) where
  inv := Custody
  pre t o w :=
    match o with
    | .childrenInsert id child => Holds t child.process id w
    | _ => True
  idle _ _ := True

/-- No child goes into the map. -/
def KeepsChildren : Op → Prop
  | .childrenInsert _ _ => False
  | _ => True

theorem keepsChildren_pre {t : Tid} {o : Op} (ho : KeepsChildren o) (w : World) :
    (custody lib).pre t o w := by
  cases o <;> trivial

theorem Silent.keepsChildren {o : Op} (h : Silent o) : KeepsChildren o := by
  cases o <;> trivial

/-! ## One step -/

section Steps

variable {t : Tid} {o : Op} {w w' : World} {r : Result o}

/-- A spawn adds one process, the one it answers with. -/
theorem spawn_answer {a n pid : Nat} {command : Command} {startedAt : Instant}
    (h : Performs cond t (.spawn a command startedAt) w (.ok (n, pid)) w') :
    w'.procs.find n = some ((Process.spawned a pid startedAt).row n) ∧
      ∀ m, m ≠ n → w'.procs.find m = w.procs.find m := by
  obtain ⟨ch, w₁, houtcome, rfl⟩ := performs_cases h
  simp only [World.outcome] at houtcome
  split at houtcome
  · cases houtcome
  · split at houtcome <;> cases houtcome
    simp only [Table.find_insert, if_true, true_and]
    exact fun m hm => if_neg hm

theorem spawn_error {a : Nat} {command : Command} {startedAt : Instant} {e : Err}
    (h : Performs cond t (.spawn a command startedAt) w (.error e) w') : w'.procs = w.procs := by
  obtain ⟨ch, w₁, houtcome, rfl⟩ := performs_cases h
  simp only [World.outcome] at houtcome
  split at houtcome
  · cases houtcome
    rfl
  · split at houtcome <;> cases houtcome

theorem spawns_le (h : Performs cond t o w r w') (id : Nat) : w.spawns id ≤ w'.spawns id := by
  rw [spawns_performs h id]
  exact Nat.le_add_right _ _

theorem custody_step (hs : cond.Le (spawnsOnce lib).established) (hi : Custody w)
    (hpre : (custody lib).pre t o w) (h : Performs cond t o w r w') : Custody w' := by
  -- a process that has just been spawned is the first of its attempt
  have hfirst : ∀ {a command startedAt}, o = .spawn a command startedAt → ∀ n p,
      w.procs.find n = some p → p.taskRunAttemptId ≠ a := by
    rintro a command startedAt rfl n p hp rfl
    have hnone := (hs.1 _ _ _ _ _ h.2).2.1.1.1
    have hspawned := hi.spawned n p hp
    omega
  refine ⟨fun n p' hp' => ?_, fun n p' m q' hp' hq' hsame => ?_, fun a child ha => ?_,
    fun n p' hp' hmap => ?_⟩
  · rcases process_origin h hp' with ⟨a, command, startedAt, pid, rfl, ⟨x, rfl⟩, -, rfl⟩ |
      ⟨p, hp, rfl⟩
    · rw [spawns_performs h]
      simp [Host.Event.spawned, Process.spawned]
    · rw [Process.after_taskRunAttemptId]
      exact lt_of_lt_of_le (hi.spawned n p hp) (spawns_le h _)
  · rcases process_origin h hp' with ⟨a, command, startedAt, pid, ho, -, hn, rfl⟩ | ⟨p, hp, rfl⟩ <;>
      rcases process_origin h hq' with ⟨b, command', startedAt', pid', ho', -, hm, rfl⟩ |
        ⟨q, hq, rfl⟩
    · exact hn.trans hm.symm
    · exact absurd ((q.after_taskRunAttemptId w o).symm.trans hsame.symm) (hfirst ho m q hq)
    · exact absurd ((p.after_taskRunAttemptId w o).symm.trans hsame) (hfirst ho' n p hp)
    · exact hi.unique n p m q hp hq (by simpa using hsame)
  · rcases children_cases h with ⟨b, child', rfl, heq⟩ | ⟨b, rfl, heq⟩ | ⟨hinsert, hremove, heq⟩ <;>
      rw [heq] at ha
    · by_cases hab : a = b
      · subst hab
        rw [Function.update_self] at ha
        cases ha
        obtain ⟨p, hp, hid, -⟩ := hpre
        refine ⟨_, process_fate h hp, by simpa using hid, ?_⟩
        have hpid : p.id = child.process := Table.key_of_find hp
        simp [Process.after_holder, hpid]
      · rw [Function.update_of_ne hab] at ha
        obtain ⟨p, hp, hid, hmap⟩ := hi.process a child ha
        refine ⟨_, process_fate h hp, by simpa using hid, ?_⟩
        simp [Process.after_holder, hmap]
    · by_cases hab : a = b
      · subst hab
        rw [Function.update_self] at ha
        cases ha
      · rw [Function.update_of_ne hab] at ha
        obtain ⟨p, hp, hid, hmap⟩ := hi.process a child ha
        refine ⟨_, process_fate h hp, by simpa using hid, ?_⟩
        have hpid : p.id = child.process := Table.key_of_find hp
        -- the child that is taken out is another one's
        have hother : ¬ (w.children b).any fun child => p.id = child.process := by
          intro hany
          obtain ⟨c, hc, hcp⟩ := (Option.any_eq_true _ _).mp hany
          obtain ⟨q, hq, hqid, -⟩ := hi.process b c hc
          have hcp : p.id = c.process := by simpa using hcp
          rw [← hcp, hpid, hp] at hq
          cases hq
          exact hab (hid.symm.trans hqid)
        simp only [Process.after_holder, hother, hmap]
        rfl
    · obtain ⟨p, hp, hid, hmap⟩ := hi.process a child ha
      refine ⟨_, process_fate h hp, by simpa using hid, ?_⟩
      rw [Process.after_holder]
      split
      · exact absurd rfl (hinsert _ _)
      · exact absurd rfl (hremove _)
      · exact hmap
  · rcases process_origin h hp' with ⟨a, command, startedAt, pid, ho, -, hn, rfl⟩ | ⟨p, hp, rfl⟩
    · cases hmap
    have hpid : p.id = n := Table.key_of_find hp
    rw [Process.after_taskRunAttemptId]
    rcases children_cases h with ⟨b, child', rfl, heq⟩ | ⟨b, rfl, heq⟩ | ⟨hinsert, hremove, heq⟩ <;>
      rw [heq]
    · obtain ⟨q, hq, hqid, -⟩ := hpre
      by_cases hb : p.taskRunAttemptId = b
      · have hn := hi.unique n p _ q hp hq (hb.trans hqid.symm)
        exact ⟨child', by rw [hb, Function.update_self], hn.symm⟩
      · rw [Function.update_of_ne hb]
        refine hi.child n p hp ?_
        have hne : p.id ≠ child'.process := by
          rintro heq'
          rw [← heq', hpid, hp] at hq
          cases hq
          exact hb hqid
        simpa [Process.after_holder, hne] using hmap
    · rw [Process.after_holder] at hmap
      dsimp only at hmap
      split at hmap
      · cases hmap
      rename_i hother
      obtain ⟨c, hc, hcn⟩ := hi.child n p hp hmap
      have hb : p.taskRunAttemptId ≠ b := by
        rintro rfl
        rw [hc] at hother
        exact hother (by simp [hpid, hcn])
      exact ⟨c, by rw [Function.update_of_ne hb, hc], hcn⟩
    · refine hi.child n p hp ?_
      rw [Process.after_holder] at hmap
      split at hmap
      · exact absurd rfl (hinsert _ _)
      · exact absurd rfl (hremove _)
      · exact hmap

/-- The child a thread took out of the map was spawned for that attempt. -/
theorem childrenRemove_holds {id : Nat} {child : TaskRunAttemptChild}
    (hi : Custody w)
    (h : Performs cond TaskRunAttemptMonitor.thread (.childrenRemove id) w (.ok (some child)) w') :
    Holds TaskRunAttemptMonitor.thread child.process id w' := by
  have hchild := childrenRemove_answer h
  obtain ⟨p, hp, hid, -⟩ := hi.process id child hchild
  have hpid : p.id = child.process := Table.key_of_find hp
  refine ⟨_, process_fate h hp, by simpa using hid, ?_⟩
  simp [Process.after_holder, hchild, hpid, holderOf]

/-- A thread that has a child keeps it until it hands it over. -/
theorem holds_kept {u : Tid} {n id : Nat} (hi : Custody w) (ht : holderOf u ≠ .map)
    (hat : Holds u n id w) (ho : KeepsChildren o) (h : Performs cond t o w r w') :
    Holds u n id w' := by
  obtain ⟨p, hp, hid, hholder⟩ := hat
  refine ⟨_, process_fate h hp, by simpa using hid, ?_⟩
  rw [Process.after_holder]
  split
  · exact ho.elim
  · rename_i b
    rw [if_neg, hholder]
    -- what is in the map is the map's
    intro hany
    obtain ⟨c, hc, hcp⟩ := (Option.any_eq_true _ _).mp hany
    obtain ⟨q, hq, -, hmap⟩ := hi.process b c hc
    have hpid : p.id = n := Table.key_of_find hp
    have hcp : p.id = c.process := by simpa using hcp
    rw [← hcp, hpid, hp] at hq
    cases hq
    exact ht (hholder.symm.trans hmap)
  · exact hholder

end Steps

/-- The two threads that have children. -/
def HasChildren (t : Tid) : Prop :=
  t = .service .taskRunAttemptDispatcher ∨ t = TaskRunAttemptMonitor.thread

theorem HasChildren.ne_map {t : Tid} (h : HasChildren t) : holderOf t ≠ .map := by
  rcases h with rfl | rfl <;> nofun

section Others

variable {t : Tid} {n id : Nat}

/-- Nobody else takes the child from a thread that has it. -/
theorem holds_other (hb : cond.Le (base lib).established) (ht : HasChildren t) {u : Tid} {o : Op}
    {w w' : World} {r : Result o} (hu : u ≠ t) (hi : Custody w)
    (hpre : (custody lib).pre u o w) (h : Performs cond u o w r w') (hat : Holds t n id w) :
    Holds t n id w' := by
  by_cases ho : KeepsChildren o
  · exact holds_kept hi ht.ne_map hat ho h
  · obtain ⟨p, hp, hid, hholder⟩ := hat
    have hpid : p.id = n := Table.key_of_find hp
    refine ⟨_, process_fate h hp, by simpa using hid, ?_⟩
    cases o with
    | childrenInsert b child =>
        obtain ⟨q, hq, -, hqu⟩ := hpre
        simp only [Process.after_holder]
        rw [if_neg, hholder]
        intro heq
        rw [← heq, hpid, hp] at hq
        cases hq
        rcases (allowed_of hb h).2 with rfl | rfl <;> rcases ht with rfl | rfl <;> first
          | exact hu rfl
          | (rw [hholder] at hqu; cases hqu)
    | _ => exact absurd trivial ho

/-- What happens outside leaves a child with the thread that has it. -/
theorem holds_happens (ht : HasChildren t) {w w' : World} {kill : Tid → Bool}
    (hkill : kill t = false) (h : Happens cond w w' kill) (hat : Holds t n id w) :
    Holds t n id w' := by
  obtain ⟨p, hp, hid, hholder⟩ := hat
  obtain ⟨e, he, -, hprocs⟩ := process_happens h
  refine ⟨_, by rw [hprocs, hp]; rfl, by simpa using hid, ?_⟩
  rw [Process.afterExternal_holder]
  split
  · -- a crash ends both threads
    rw [external_crash he] at hkill
    rcases ht with rfl | rfl <;> cases hkill
  · exact hholder

theorem holds_stable {O : Outline (flowlite lib)} (hb : cond.Le (base lib).established)
    (ht : HasChildren t) (hown : ∀ u o w r w', O.inv w → O.pre u o w → Performs cond u o w r w' →
      Custody w ∧ (custody lib).pre u o w) : O.Stable cond t (Holds t n id) := by
  intro w w' hothers hat
  cases hothers with
  | run hu hi _ hpre hperf =>
      obtain ⟨hcustody, hpre⟩ := hown _ _ _ _ _ hi hpre hperf
      exact holds_other hb ht hu hcustody hpre hperf hat
  | env hkill _ _ hhappens => exact holds_happens ht hkill hhappens hat

end Others

/-! ## The two services -/

theorem custody_uses {α : Type} {t : Tid} {P : World → Prop} {p : Code α}
    (hp : p.Uses KeepsChildren) : (custody lib).Triple cond t P p fun _ _ => True := by
  refine Triple.pre ?_ fun _ _ _ => trivial
  exact Triple.of_uses (stable_true _) (hp.mono fun _ ho w _ _ _ _ _ =>
    ⟨keepsChildren_pre ho w, fun _ => trivial⟩)

theorem custody_holds (hb : cond.Le (base lib).established) {t : Tid} (ht : HasChildren t)
    {α : Type} {n id : Nat} {p : Code α} (hp : p.Uses KeepsChildren) :
    (custody lib).Triple cond t (Holds t n id) p fun _ => Holds t n id :=
  Triple.of_uses (holds_stable hb ht fun _ _ _ _ _ hi hpre _ => ⟨hi, hpre⟩)
    (hp.mono fun _ ho w _ _ hi hat hperf =>
      ⟨keepsChildren_pre ho w, fun _ => holds_kept hi ht.ne_map hat ho hperf⟩)

theorem custody_insert (hb : cond.Le (base lib).established) {t : Tid} (ht : HasChildren t)
    {id : Nat} {child : TaskRunAttemptChild} :
    (custody lib).Triple cond t (Holds t child.process id)
      (Crud.perform (.childrenInsert id child)) fun _ _ => True :=
  Triple.perform (holds_stable hb ht fun _ _ _ _ _ hi hpre _ => ⟨hi, hpre⟩)
    (fun _ _ _ _ hat _ => hat) fun _ _ _ _ _ _ _ => trivial

theorem custody_setToRunning (hb : cond.Le (base lib).established) (config : Config)
    (a : TaskRunAttempt) {P : World → Prop} :
    (custody lib).Triple cond (.service .taskRunAttemptDispatcher) P
      (TaskRunAttemptDispatcher.setToRunning lib config a) fun _ _ => True := by
  have ht : HasChildren (.service .taskRunAttemptDispatcher) := .inl rfl
  refine Triple.seq (custody_uses (TaskRunAttemptDispatcher.prepare_uses
    (fun _ h => h.1.keepsChildren) (fun _ _ => trivial) lib config a)) fun (taskRun, command) => ?_
  refine Triple.seq (custody_uses (now_silent.mono fun _ h => h.keepsChildren)) fun startedAt => ?_
  refine Triple.seq (custody_uses (uses_write trivial)) fun _ => ?_
  refine Triple.seq (R := fun r w => ∀ n pid, r = .ok (.ok (n, pid)) →
    Holds (.service .taskRunAttemptDispatcher) n a.id w) ?_ fun spawned => ?_
  · refine Triple.attempt (Triple.perform (stable_true _) (fun _ _ _ _ _ _ => trivial) ?_)
    rintro w r w' - - hperf - n pid heq
    cases heq
    exact ⟨_, (spawn_answer hperf).1, rfl, rfl⟩
  · cases spawned with
    | error e => exact Triple.seq (custody_uses (uses_write trivial)) fun _ =>
        Triple.throw fun _ _ _ => trivial
    | ok spawned =>
        obtain ⟨n, pid⟩ := spawned
        refine Triple.seq ((custody_insert hb ht).pre fun w _ h => h n pid rfl) fun _ => ?_
        exact custody_uses (uses_write trivial)

theorem custody_dispatcher (hb : cond.Le (base lib).established) (config : Config)
    (a : TaskRunAttempt) :
    (custody lib).Triple cond (.service .taskRunAttemptDispatcher) (fun _ => True)
      (TaskRunAttemptDispatcher.handleQueuedTaskRunAttempt lib config a) fun _ _ => True := by
  have hsettle : ∀ status {P : World → Prop}, (custody lib).Triple cond
      (.service .taskRunAttemptDispatcher) P (TaskRunAttemptDispatcher.settle a status)
      fun _ _ => True :=
    fun status => custody_uses ((now_silent.mono fun _ h => h.keepsChildren).bind fun _ =>
      uses_write trivial)
  refine Triple.seq (custody_uses ((TaskRunAttemptDispatcher.deriveNextStatus_silent
    config a).mono fun _ h => h.keepsChildren)) fun status => ?_
  split
  · exact hsettle .invalid
  · exact hsettle .skipped
  · exact Triple.ret fun _ _ _ => trivial
  · exact custody_setToRunning hb config a
  · exact hsettle .invalid

open TaskRunAttemptMonitor in
/-- The monitor has the child until it hands it back, or needs it no more. -/
def custodyPhases (hb : cond.Le (base lib).established) (config : Config) (a : TaskRunAttempt) :
    Phases (custody lib) cond config a fun _ => True :=
  have hm : HasChildren thread := .inr rfl
  have hsilent : ∀ o, Silent o → KeepsChildren o := fun _ h => h.keepsChildren
  have hrecord : ∀ child, (custody lib).Triple cond thread (Holds thread child.process a.id)
      (recordOutput a child) fun _ => Holds thread child.process a.id :=
    fun child => custody_holds hb hm (recordOutput_uses a (fun _ _ => trivial) child trivial)
  { held child := Holds thread child.process a.id
    decided child _ := Holds thread child.process a.id
    ending child _ := Holds thread child.process a.id
    dead _ _ _ := True
    received _ _ := True
    refused _ _ := True
    settling _ _ := True
    derive child := by
      refine (deriveNextStatus_triple (holds_stable hb hm fun _ _ _ _ _ hi hpre _ => ⟨hi, hpre⟩)
        fun o ho w _ _ hi hw hperf => ⟨keepsChildren_pre (hsilent o ho) w, fun _ =>
          holds_kept hi hm.ne_map hw (hsilent o ho) hperf⟩).post ?_
      intro r w _ h
      cases r with
      | error e => exact h
      | ok status => cases status <;> first
        | exact h
        | trivial
    note child status := (custody_holds hb hm (noteTimeout_uses hsilent a (fun _ _ => trivial)
      child status)).post fun _ _ _ h => .intro h trivial
    wait child _ o ho := (custody_holds hb hm ((Prog.uses_perform o).mpr
      (by rcases ho with rfl | rfl | rfl <;> trivial))).post fun _ _ _ h => .intro h trivial
    kill child _ := (custody_uses (p := Crud.perform (.killProcessGroup child.process))
      ((Prog.uses_perform _).mpr trivial)).post fun _ _ _ h => .intro h h
    receive child _ := (custody_uses (finishReading_uses a (fun _ _ => trivial) child trivial
      trivial)).post fun _ _ _ h => .intro h h
    result := (custody_uses ((readTaskOutput_silent config a).mono hsilent)).post
      fun r _ _ _ => by
        cases r with
        | error e => trivial
        | ok r => cases r <;> trivial
    refuse _ := (custody_uses (insertOutput_uses a (fun _ _ => trivial) _ _)).post
      fun _ _ _ h => .intro h h
    settle _ _ _ _ _ := trivial
    finish status output := custody_uses (finishTaskRunAttempt_uses hsilent (fun _ => trivial) a
      status output fun _ => trivial)
    putBack _ := custody_insert hb hm
    keep child := recordAndPutBack_triple (hrecord child) (custody_insert hb hm)
    keepEnding child _ := recordAndPutBack_triple (hrecord child)
      ((custody_insert hb hm).pre fun _ _ h => h) }

open TaskRunAttemptMonitor in
theorem custody_monitor (hb : cond.Le (base lib).established) (config : Config)
    (a : TaskRunAttempt) :
    (custody lib).Triple cond thread (fun _ => True) (handleRunningTaskRunAttempt config a)
      fun _ _ => True := by
  refine Triple.seq (R := fun r w => ∀ child, r = .ok (some child) →
    EndsStopped child ∧ Holds thread child.process a.id w) ?_ fun child => ?_
  · refine Triple.perform (stable_true _) (fun _ _ _ _ _ _ => trivial) ?_
    rintro w r w' hi - hperf - child rfl
    exact ⟨(hb.1 _ _ _ _ _ hperf.2).1.2 a.id child (childrenRemove_answer hperf),
      childrenRemove_holds hi hperf⟩
  · cases child with
    | none =>
        exact custody_uses (finishTaskRunAttempt_uses (fun _ h => h.keepsChildren)
          (fun _ => trivial) a .invalid none fun _ => trivial)
    | some child =>
        refine Triple.of_fact (fun _ _ h => (h child rfl).1) fun hchild => ?_
        dsimp only
        split
        · rename_i termination hterminating
          refine ((custodyPhases hb config a).handleTerminating child hterminating ?_).pre
            fun _ _ h => (h child rfl).2
          rcases hchild termination hterminating with h | h <;> rw [h] <;> nofun
        · exact ((custodyPhases hb config a).handleChild child).pre fun _ _ h => (h child rfl).2

theorem custody_fresh : Custody .fresh where
  spawned _ _ h := nomatch h
  unique _ _ _ _ h := nomatch h
  process _ _ h := nomatch h
  child _ _ h := nomatch h

theorem custody_happens {w w' : World} {kill : Tid → Bool} (hi : Custody w)
    (h : Happens cond w w' kill) : Custody w' := by
  have hlog := log_happens h
  obtain ⟨e, he, -, hprocs⟩ := process_happens h
  have horigin : ∀ {n p'}, w'.procs.find n = some p' →
      ∃ p, w.procs.find n = some p ∧ p' = p.afterExternal e := by
    intro n p' hp'
    rw [hprocs] at hp'
    obtain ⟨p, hp, rfl⟩ := Option.map_eq_some_iff.mp hp'
    exact ⟨p, hp, rfl⟩
  refine ⟨fun n p' hp' => ?_, fun n p' m q' hp' hq' hsame => ?_, fun a child ha => ?_,
    fun n p' hp' hmap => ?_⟩
  · obtain ⟨p, hp, rfl⟩ := horigin hp'
    simpa [Host.World.spawns, hlog] using hi.spawned n p hp
  · obtain ⟨p, hp, rfl⟩ := horigin hp'
    obtain ⟨q, hq, rfl⟩ := horigin hq'
    exact hi.unique n p m q hp hq (by simpa using hsame)
  · rcases external_children he with ⟨-, heq⟩ | ⟨hcrash, heq⟩ <;> rw [heq] at ha
    · cases ha
    · obtain ⟨p, hp, hid, hmap⟩ := hi.process a child ha
      refine ⟨p.afterExternal e, by rw [hprocs, hp]; rfl, by simpa using hid, ?_⟩
      rw [Process.afterExternal_holder]
      split
      · exact absurd rfl hcrash
      · exact hmap
  · obtain ⟨p, hp, rfl⟩ := horigin hp'
    rw [Process.afterExternal_holder] at hmap
    rcases external_children he with ⟨rfl, -⟩ | ⟨hcrash, heq⟩
    · cases hmap
    · rw [Process.afterExternal_taskRunAttemptId, heq]
      refine hi.child n p hp ?_
      split at hmap
      · cases hmap
      · exact hmap

theorem custody_valid (hb : cond.Le (base lib).established)
    (hs : cond.Le (spawnsOnce lib).established) : (custody lib).Valid cond where
  init := by
    rintro w rfl
    exact ⟨custody_fresh, fun _ => trivial⟩
  step _ _ _ _ _ hi hpre hperf := custody_step hs hi hpre hperf
  env _ _ _ hi hhappens := ⟨custody_happens hi hhappens, fun _ _ => trivial⟩
  idle t := stable_true t
  start := by
    have hothers : ∀ {t : Tid}, ¬ HasChildren t → ∀ {P : World → Prop} (p : Code Unit),
        (custody lib).Triple cond t P p fun _ _ => True := by
      intro t ht P p
      refine Triple.pre (W := fun _ => True) ?_ fun _ _ _ => trivial
      refine Triple.of_pre fun o w r w' _ hperf => keepsChildren_pre ?_ w
      cases o with
      | childrenInsert => exact ht (allowed_of hb hperf).2
      | _ => trivial
    have hselect : ∀ {t : Tid} {P : World → Prop} (f : SelectTaskRunAttemptsFilter)
        (s : Option SelectTaskRunAttemptsSort), (custody lib).Triple cond t P
          (selectTaskRunAttempts f s) fun _ _ => True :=
      fun f s => custody_uses ((selectTaskRunAttempts_silent f s).mono fun _ h => h.keepsChildren)
    refine start_triple (fun config fuel s => ?_) fun c r => hothers (by rintro (h | h) <;> cases h) _
    refine Triple.pre (W := fun _ => True) ?_ fun _ _ _ => trivial
    cases s with
    | taskRunAttemptDispatcher =>
        exact Poller.pass_each (hselect _ _) (custody_dispatcher hb config)
    | taskRunAttemptMonitor =>
        exact Poller.pass_each (hselect _ _) (custody_monitor hb config)
    | _ => exact hothers (by rintro (h | h) <;> cases h) _

/-! ## What the outline says of a step -/

section Established

variable {t : Tid} {o : Op} {w w' : World} {r : Result o}

theorem custody_of (hc : cond.Le (custody lib).established) (h : Performs cond t o w r w') :
    Custody w ∧ Custody w' :=
  ⟨(hc.1 _ _ _ _ _ h.2).1, (hc.1 _ _ _ _ _ h.2).2.2⟩

theorem custody_pre_of (hc : cond.Le (custody lib).established) (h : Performs cond t o w r w') :
    (custody lib).pre t o w :=
  (hc.1 _ _ _ _ _ h.2).2.1

/-- The attempt of a process was there before the process was. -/
theorem process_attempt (hs : cond.Le (spawnsOnce lib).established)
    (hc : cond.Le (custody lib).established) (h : Performs cond t o w r w') {n : Nat}
    {p : Process} (hp : w.procs.find n = some p) :
    p.taskRunAttemptId < w.db.taskRunAttempts.next :=
  (((hs.1 _ _ _ _ _ h.2).1 _).2 ((custody_of hc h).1.spawned n p hp)).1

theorem Holds.stable {O : Outline (flowlite lib)} (hb : cond.Le (base lib).established)
    (hc : cond.Le (custody lib).established) (ht : HasChildren t) (n id : Nat) :
    O.Stable cond t (Holds t n id) :=
  holds_stable hb ht fun _ _ _ _ _ _ _ hperf => ⟨(custody_of hc hperf).1, custody_pre_of hc hperf⟩

end Established

/-! ## Every run -/

/-- What holds of every run of the system, as far as it is about attempts and their
processes. -/
structure Attended (cond : (flowlite lib).Condition) : Prop where
  base : cond.Le (base lib).established
  spawns : cond.Le (spawnsOnce lib).established
  attempts : cond.Le (attempts lib).established
  custody : cond.Le (custody lib).established

theorem Attended.of_le {cond' : (flowlite lib).Condition} (hle : cond'.Le cond)
    (hat : Attended cond) : Attended cond' :=
  ⟨hle.trans hat.base, hle.trans hat.spawns, hle.trans hat.attempts, hle.trans hat.custody⟩

theorem attended {c : (flowlite lib).Config} (h : Reachable cond c) :
    ∃ cond' : (flowlite lib).Condition, cond'.Le cond ∧ Attended cond' ∧ Reachable cond' c := by
  obtain ⟨c₁, h₁, hb, h⟩ := base_valid.layer h
  obtain ⟨c₂, h₂, hs, h⟩ := (spawnsOnce_valid hb).layer h
  obtain ⟨c₃, h₃, ha, h⟩ := (attempts_valid (h₂.trans hb)).layer h
  obtain ⟨c₄, h₄, hc, h⟩ := (custody_valid (h₃.trans (h₂.trans hb)) (h₃.trans hs)).layer h
  exact ⟨c₄, h₄.trans (h₃.trans (h₂.trans h₁)),
    ⟨h₄.trans (h₃.trans (h₂.trans hb)), h₄.trans (h₃.trans hs), h₄.trans ha, hc⟩, h⟩

end Flowlite
