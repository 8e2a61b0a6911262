import Flowlite.Logic.InHand
import Flowlite.Logic.Releases

/-!
# The tallies of running attempts

`TaskRunAttemptDispatcher` tallies the running attempts for each attempt it is about to
start, once for the cap on all of them and once for the named limits the attempt claims.
`tallies` is the outline of both: what has been read as a command is spawned, and what it
still says as the attempt is set to running.
-/

namespace Flowlite

open Store Host Threads Crud Machine Outline

variable {lib : Library} {cond : (flowlite lib).Condition} {O : Outline (flowlite lib)}

/-! ## Tallies -/

/-- The question both tallies begin with. -/
abbrev runningQuery : Query := .taskRunAttempts { status := some .running } none

/-- The question for an attempt's task run. -/
abbrev taskRunQuery (id : Nat) : Query := .taskRuns { id := some id }

/-- The attempts that hold a slot: one asleep in a wait of flowlite's own does not. -/
def working (rows : List TaskRunAttempt) : List TaskRunAttempt :=
  rows.filter fun a => a.waitingSince.isNone

/-- What the task run of an attempt claims, as the dispatcher has read it. -/
def ReadsClaims (w : World) (a : TaskRunAttempt) (claims : List String) : Prop :=
  ∃ x rest, w.HasRead (taskRunQuery a.taskRunId) (x :: rest) ∧ x.limits = claims

/-- The tally read for the attempt in hand leaves a slot in the cap. -/
def ReadsFreeCap (w : World) (cap : Nat) : Prop :=
  ∃ rows, w.HasRead runningQuery rows ∧ (working rows).length < cap

/-- The tally read for the attempt in hand leaves a slot in a named limit. -/
def ReadsFreeLimit (w : World) (limit : String) (max : Nat) : Prop :=
  ∃ rows claims, w.HasRead runningQuery rows ∧
    List.Forall₂ (ReadsClaims w) (working rows) claims ∧ claims.flatten.count limit < max

/-- The attempt is in hand, and what was read for it leaves a slot in the cap, and in each
limit its task run claims. -/
def OnFreeSlots (w : World) (id : Nat) : Prop :=
  ∀ config, w.serve = .up config →
    (0 < config.app.maxRunningAttempts → ReadsFreeCap w config.app.maxRunningAttempts) ∧
    ∀ a, w.db.taskRunAttempts.find id = some a → w.FoundUnstopped a.jobRunId ∧
      ∀ x, w.db.taskRuns.find a.taskRunId = some x →
        ∀ limit ∈ x.limits, ∀ max, config.app.concurrencyLimits.get limit = some max → 0 < max →
          ReadsFreeLimit w limit max

/-! ## What a step does to a tally -/

/-- Who is running now was running, of the same task run, when the rows were read. -/
def Snapshot (rows : List TaskRunAttempt) (w : World) : Prop :=
  ∀ a ∈ w.db.taskRunAttempts.rows, a.status = .running →
    ∃ b ∈ rows, b.id = a.id ∧ b.taskRunId = a.taskRunId

/-- The task run claims this, as long as it is there. -/
def ClaimsKnown (taskRunId : Nat) (claims : List String) (w : World) : Prop :=
  taskRunId < w.db.taskRuns.next ∧ ∀ x, w.db.taskRuns.find taskRunId = some x → x.limits = claims

section Steps

variable {t : Tid} {o : Op} {w w' : World} {r : Result o}

/-- The one write that sets an attempt running. -/
def StartsAttempt (o : Op) : Prop :=
  ∃ id processGroupId, o = .write (.updateTaskRunAttempts { id := some id }
    { status := some .running, processGroupId := some (some processGroupId) })

/-- Where a running attempt comes from. -/
theorem runningAttempt_origin (hb : cond.Le (base lib).established) (h : Performs cond t o w r w')
    {a' : TaskRunAttempt} (ha' : a' ∈ w'.db.taskRunAttempts.rows) (hrunning : a'.status = .running) :
    ∃ a ∈ w.db.taskRunAttempts.rows, a.id = a'.id ∧ a.taskRunId = a'.taskRunId ∧
      (a.status = .running ∨ t = .service .taskRunAttemptDispatcher ∧ ∃ processGroupId,
        o = .write (.updateTaskRunAttempts { id := some a'.id }
          { status := some .running, processGroupId := some (some processGroupId) })) := by
  rcases taskRunAttempt_origin h (Table.find_of_mem ha') with ha | ⟨i, now, rfl, -, -, -, -, -, hnew⟩ |
    ⟨a, ha, f, i, rfl, -, hf, hnew⟩
  · exact ⟨a', Table.mem_of_find ha, rfl, rfl, .inl hrunning⟩
  · have hstatus : i.status = .running := by rw [← hrunning, hnew]; rfl
    cases allowed_of hb h with
    | addAttempt hqueued =>
        rw [hqueued] at hstatus
        cases hstatus
  · have hkey : a.id = a'.id := Table.key_of_find ha
    have htask : a.taskRunId = a'.taskRunId := by rw [hnew]; rfl
    have hstatus : (i.patch.apply a).status = .running := by rw [← hnew]; exact hrunning
    refine ⟨a, Table.mem_of_find ha, hkey, htask, ?_⟩
    cases allowed_of hb h with
    | startAttempt =>
        have hid := updateTaskRunAttemptsFilter_holds rfl hf
        rw [← hid, hkey]
        exact .inr ⟨rfl, _, rfl⟩
    | markStarted | wait => exact .inl hstatus
    | dropAttempt hs => rcases hs with rfl | rfl <;> cases hstatus
    | settleAttempt hfinished =>
        cases hstatus
        cases hfinished
    | recoverAttempt => cases hstatus

theorem snapshot_performs (hb : cond.Le (base lib).established) (h : Performs cond t o w r w')
    (ho : t = .service .taskRunAttemptDispatcher → ¬ StartsAttempt o) {rows : List TaskRunAttempt}
    (hrows : Snapshot rows w) : Snapshot rows w' := by
  intro a' ha' hrunning
  obtain ⟨a, ha, hid, htask, hbefore | ⟨hdispatcher, p, hstart⟩⟩ :=
    runningAttempt_origin hb h ha' hrunning
  · obtain ⟨b, hb, hbid, hbtask⟩ := hrows a ha hbefore
    exact ⟨b, hb, hbid.trans hid, hbtask.trans htask⟩
  · exact absurd ⟨_, p, hstart⟩ (ho hdispatcher)

theorem claimsKnown_performs (h : Performs cond t o w r w') {id : Nat} {claims : List String}
    (hknown : ClaimsKnown id claims w) : ClaimsKnown id claims w' := by
  refine ⟨lt_of_lt_of_le hknown.1 (taskRuns_next_le h), fun x' hx' => ?_⟩
  rcases taskRun_origin h hx' with hx | ⟨i, now, -, -, hid, -⟩ |
    ⟨x, hx, ⟨f, i, -, -, -, rfl⟩ | ⟨now, j, -, -, -, -, rfl⟩⟩
  · exact hknown.2 x' hx
  · exact absurd hknown.1 (by omega)
  · exact hknown.2 x hx
  · exact hknown.2 x hx

end Steps

/-! ## What lasts while an attempt is in hand -/

/-- What the dispatcher does between its tallies and the spawn. -/
def Gathers (o : Op) : Prop := Reads o ∨ ∃ path content, o = .writeFile path content

/-- It neither asks for a stop nor starts an attempt. -/
def LeavesTally (o : Op) : Prop := ¬ AsksStop o ∧ ¬ StartsAttempt o

theorem Gathers.leavesTally {o : Op} (h : Gathers o) : LeavesTally o := by
  rcases h with ⟨hsilent, hask⟩ | ⟨path, content, rfl⟩
  · refine ⟨hask, ?_⟩
    rintro ⟨id, processGroupId, rfl⟩
    exact hsilent
  · exact ⟨id, by rintro ⟨_, _, h⟩; cases h⟩

/-- A fact that stays as long as the dispatcher has the same attempt in hand. -/
structure Lasts (cond : (flowlite lib).Condition) (P : World → Prop) : Prop where
  performs : ∀ {t : Tid} {o : Op} {w w' : World} {r : Result o}, Performs cond t o w r w' →
    (t = .service .taskRunAttemptDispatcher → LeavesTally o) → P w → P w'
  happens : ∀ {w w' : World} {kill : Tid → Bool}, Happens cond w w' kill → P w → P w'

namespace Lasts

variable {P Q : World → Prop}

theorem and (hP : Lasts cond P) (hQ : Lasts cond Q) : Lasts cond fun w => P w ∧ Q w where
  performs h ho hw := ⟨hP.performs h ho hw.1, hQ.performs h ho hw.2⟩
  happens h hw := ⟨hP.happens h hw.1, hQ.happens h hw.2⟩

theorem ex {ι : Sort*} {P : ι → World → Prop} (hP : ∀ i, Lasts cond (P i)) :
    Lasts cond fun w => ∃ i, P i w where
  performs h ho := fun ⟨i, hw⟩ => ⟨i, (hP i).performs h ho hw⟩
  happens h := fun ⟨i, hw⟩ => ⟨i, (hP i).happens h hw⟩

theorem all {ι : Sort*} {P : ι → World → Prop} (hP : ∀ i, Lasts cond (P i)) :
    Lasts cond fun w => ∀ i, P i w where
  performs h ho hw i := (hP i).performs h ho (hw i)
  happens h hw i := (hP i).happens h (hw i)

theorem const (P : Prop) : Lasts cond fun _ => P where
  performs _ _ h := h
  happens _ h := h

theorem forall₂ {α β : Type} {R : α → β → World → Prop} (hR : ∀ a b, Lasts cond (R a b))
    (xs : List α) (ys : List β) : Lasts cond fun w => List.Forall₂ (R · · w) xs ys where
  performs h ho := List.Forall₂.imp fun a b => (hR a b).performs h ho
  happens h := List.Forall₂.imp fun a b => (hR a b).happens h

theorem hasRead (q : Query) (a : q.Answer) : Lasts cond fun w => w.HasRead q a where
  performs {t} _ _ _ _ h ho hread := by
    by_cases ht : t = .service .taskRunAttemptDispatcher
    · subst ht
      exact hasRead_own h (ho rfl).1 hread
    · exact hasRead_other h ht hread
  happens h hread := hasRead_happens h hread

theorem foundUnstopped (id : Nat) : Lasts cond fun w => w.FoundUnstopped id where
  performs h ho hfound := (asked_performs h fun ht => (ho ht).1).trans hfound
  happens h hfound := (asked_happens h).trans hfound

theorem snapshot (hb : cond.Le (base lib).established) (rows : List TaskRunAttempt) :
    Lasts cond (Snapshot rows) where
  performs h ho hrows := snapshot_performs hb h (fun ht => (ho ht).2) hrows
  happens h hrows := by
    unfold Snapshot
    rwa [happens_db h]

theorem claimsKnown (id : Nat) (claims : List String) : Lasts cond (ClaimsKnown id claims) where
  performs h _ hknown := claimsKnown_performs h hknown
  happens h hknown := by
    unfold ClaimsKnown
    rwa [happens_db h]

theorem known (a : TaskRunAttempt) : Lasts cond (Known a) where
  performs h _ ha := known_performs h ha
  happens h ha := by
    unfold Known
    rwa [happens_db h]

theorem taskRunKnown (x : TaskRun) : Lasts cond (TaskRunKnown x) where
  performs h _ hx := taskRunKnown_performs h hx
  happens h hx := taskRunKnown_happens h hx

end Lasts

/-! ## The outline -/

/-- The claims of the running attempts, as the dispatcher has read them. -/
def Tallied (rows : List TaskRunAttempt) (claims : List (List String)) (w : World) : Prop :=
  w.HasRead runningQuery rows ∧ Snapshot rows w ∧
    List.Forall₂ (fun b c => ReadsClaims w b c ∧ ClaimsKnown b.taskRunId c w) (working rows) claims

/-- The cap was tallied, and has a slot. -/
def CapTally (cap : Nat) (w : World) : Prop :=
  ∃ rows, (w.HasRead runningQuery rows ∧ Snapshot rows w) ∧ (working rows).length < cap

/-- A limit was tallied, and has a slot. -/
def LimitTally (limit : String) (max : Nat) (w : World) : Prop :=
  ∃ rows claims, Tallied rows claims w ∧ claims.flatten.count limit < max

/-- Each limit of a task run was tallied, and has a slot. -/
def LimitsTally (config : Config) (limits : List String) (w : World) : Prop :=
  ∀ limit ∈ limits, ∀ max, config.app.concurrencyLimits.get limit = some max → 0 < max →
    LimitTally limit max w

/-- The dispatcher has begun with an attempt. -/
def Begun (a : TaskRunAttempt) (w : World) : Prop := Known a w ∧ w.FoundUnstopped a.jobRunId

/-- Everything was tallied for this attempt, and it has its slots. -/
def InLine (config : Config) (a : TaskRunAttempt) (w : World) : Prop :=
  (Begun a w ∧ (0 < config.app.maxRunningAttempts → CapTally config.app.maxRunningAttempts w)) ∧
    ∃ x, x.id = a.taskRunId ∧ TaskRunKnown x w ∧ LimitsTally config x.limits w

/-- A command is spawned, and an attempt set running, on tallies that leave it its slots. -/
def tallies (lib : Library) : Outline (flowlite lib) where
  inv _ := True
  pre _ o w :=
    match o with
    | .spawn id _ _ => ∀ config, w.serve = .up config → ∃ a, a.id = id ∧ InLine config a w
    | .write (.updateTaskRunAttempts f i) => i.status = some .running →
        ∀ config, w.serve = .up config → ∃ a, f.id = some a.id ∧ InLine config a w
    | _ => True
  idle _ _ := True

theorem onFreeSlots_of {w : World} {id : Nat}
    (h : ∀ config, w.serve = .up config → ∃ a, a.id = id ∧ InLine config a w) :
    OnFreeSlots w id := by
  intro config hserve
  obtain ⟨a, rfl, ⟨⟨hknown, hfound⟩, hcap⟩, x, hx, hxknown, hlimits⟩ := h config hserve
  refine ⟨fun hpos => ?_, fun b hb => ⟨?_, fun y hy limit hlimit max hmax hpos => ?_⟩⟩
  · obtain ⟨rows, ⟨hread, -⟩, hfree⟩ := hcap hpos
    exact ⟨rows, hread, hfree⟩
  · rw [show b = _ from hknown.2 b hb]
    exact hfound
  · have htask : b.taskRunId = x.id := by
      rw [show b = _ from hknown.2 b hb]
      exact hx.symm
    rw [htask] at hy
    have hclaims : y.limits = x.limits := by rw [show y = _ from hxknown.2 y hy]
    rw [hclaims] at hlimit
    obtain ⟨rows, claims, ⟨hread, -, hall⟩, hfree⟩ := hlimits limit hlimit max hmax hpos
    exact ⟨rows, claims, hread, hall.imp fun _ _ h => h.1, hfree⟩

namespace Lasts

theorem tallied (hb : cond.Le (base lib).established) (rows : List TaskRunAttempt)
    (claims : List (List String)) : Lasts cond (Tallied rows claims) := by
  refine (hasRead _ _).and ((snapshot hb rows).and (forall₂ (fun b c => ?_) _ _))
  exact (ex fun x => ex fun rest => (hasRead _ _).and (const _)).and (claimsKnown _ _)

theorem capTally (hb : cond.Le (base lib).established) (cap : Nat) : Lasts cond (CapTally cap) :=
  ex fun rows => ((hasRead _ _).and (snapshot hb rows)).and (const _)

theorem limitsTally (hb : cond.Le (base lib).established) (config : Config)
    (limits : List String) : Lasts cond (LimitsTally config limits) :=
  all fun _ => all fun _ => all fun _ => all fun _ => all fun _ => ex fun rows =>
    ex fun claims => (tallied hb rows claims).and (const _)

theorem begun (a : TaskRunAttempt) : Lasts cond (Begun a) := (known a).and (foundUnstopped _)

theorem inLine (hb : cond.Le (base lib).established) (config : Config) (a : TaskRunAttempt) :
    Lasts cond (InLine config a) :=
  ((begun a).and (all fun _ => capTally hb _)).and
    (ex fun x => (const _).and ((taskRunKnown x).and (limitsTally hb config x.limits)))

end Lasts

/-! ## The dispatcher -/

section Dispatcher

variable {config : Config}

/-- What lasts, while `serve` is up with this configuration. -/
def Up (config : Config) (P : World → Prop) (w : World) : Prop := w.serve = .up config ∧ P w

theorem up_stable (hb : cond.Le (base lib).established) {P : World → Prop} (hP : Lasts cond P) :
    O.Stable cond (.service .taskRunAttemptDispatcher) (Up config P) := by
  intro w w' hothers ⟨hserve, hw⟩
  refine ⟨ServedBy.stable hb config (.service .taskRunAttemptDispatcher) w w' hothers hserve, ?_⟩
  cases hothers with
  | run hu _ _ _ hperf => exact hP.performs hperf (fun h => absurd h hu) hw
  | env _ _ _ hhappens => exact hP.happens hhappens hw

theorem up_kept {P : World → Prop} (hP : Lasts cond P) {o : Op} {w w' : World} {r : Result o}
    (h : Performs cond (.service .taskRunAttemptDispatcher) o w r w') (ho : LeavesTally o)
    (hstart : o ≠ .startServices) (hw : Up config P w) : Up config P w' :=
  ⟨ServedBy.kept (t := .service .taskRunAttemptDispatcher) h hstart hw.1,
    hP.performs h (fun _ => ho) hw.2⟩

theorem Gathers.ne_start {o : Op} (h : Gathers o) : o ≠ .startServices := by
  rintro rfl
  rcases h with ⟨hsilent, -⟩ | ⟨path, content, h⟩
  · exact hsilent
  · cases h

theorem Gathers.pre {o : Op} (h : Gathers o) (t : Tid) (w : World) : (tallies lib).pre t o w := by
  rcases h with ⟨hsilent, -⟩ | ⟨path, content, rfl⟩
  · cases o <;> trivial
  · trivial

/-- Gathering what a spawn needs leaves the tallies standing. -/
theorem gathers_triple (hb : cond.Le (base lib).established) {α : Type} {p : Code α}
    {P : World → Prop} (hP : Lasts cond P) (hp : p.Uses Gathers) :
    (tallies lib).Triple cond (.service .taskRunAttemptDispatcher) (Up config P) p
      fun _ => Up config P :=
  Triple.of_uses (up_stable hb hP) (hp.mono fun _ ho _ _ _ _ hw h =>
    ⟨ho.pre _ _, fun _ => up_kept hP h ho.leavesTally ho.ne_start hw⟩)

theorem now_gathers : now.Uses Gathers := uses_op (o := .now) (.inl ⟨trivial, id⟩)

theorem reads_gathers {α : Type} {p : Code α} (h : p.Uses Reads) : p.Uses Gathers :=
  h.mono fun _ ho => .inl ho

/-- A select, and what its answer says of the moment it was read. -/
theorem reads_triple (hb : cond.Le (base lib).established) {P : World → Prop}
    (hP : Lasts cond P) {q : Query} (hq : ¬ AsksStop (.select q)) {Q : q.Answer → World → Prop}
    (hQ : ∀ w : World, Q (q.run w.db) { w with log :=
      ⟨.service .taskRunAttemptDispatcher, .select q, .ok (q.run w.db)⟩ :: w.log }) :
    (tallies lib).Triple cond (.service .taskRunAttemptDispatcher) (Up config P) (select q)
      fun r w => Up config P w ∧ ∀ a, r = .ok a → w.HasRead q a ∧ Q a w := by
  have ho : Gathers (.select q) := .inl ⟨trivial, hq⟩
  refine Triple.perform (up_stable hb hP) (fun _ _ _ _ _ _ => trivial) fun w r w' _ hw hperf _ => ?_
  refine ⟨up_kept hP hperf ho.leavesTally nofun hw, ?_⟩
  rintro a rfl
  refine ⟨hasRead_select hperf hq, ?_⟩
  rcases select_cases hperf with ⟨e, he⟩ | ha
  · cases he
  · cases ha
    rw [silent_performs (o := .select q) trivial hperf]
    exact hQ w

/-- The dispatcher has read this task run under this id. -/
def ReadTaskRun (id : Nat) (x : TaskRun) (w : World) : Prop :=
  (x.id = id ∧ TaskRunKnown x w) ∧ ∃ rest, w.HasRead (taskRunQuery id) (x :: rest)

theorem Lasts.readTaskRun (id : Nat) (x : TaskRun) : Lasts cond (ReadTaskRun id x) :=
  ((Lasts.const _).and (Lasts.taskRunKnown x)).and (Lasts.ex fun _ => Lasts.hasRead _ _)

theorem selectTaskRun_triple (hb : cond.Le (base lib).established) {P : World → Prop}
    (hP : Lasts cond P) (id : Nat) :
    (tallies lib).Triple cond (.service .taskRunAttemptDispatcher) (Up config P)
      (selectTaskRun { id := some id })
      fun r w => Up config P w ∧ ∀ found, r = .ok found → ∀ x ∈ found, ReadTaskRun id x w := by
  refine Triple.bind (reads_triple hb hP (q := taskRunQuery id)
    (Q := fun (rows : List TaskRun) w => ∀ x ∈ rows, x.id = id ∧ TaskRunKnown x w) nofun
    fun w x hx => ?_) (fun rows => Triple.ret fun w _ h => ⟨h.1, ?_⟩) fun _ _ _ h => ⟨h.1, nofun⟩
  · obtain ⟨hfind, hholds⟩ := Database.mem_selectTaskRuns.mp hx
    have hid : x.id = id := by simpa [SelectTaskRunsFilter.holds] using hholds
    exact ⟨hid, taskRunKnown_of_find hfind⟩
  · intro found hfound x hx
    cases hfound
    obtain ⟨rest, rfl⟩ := List.head?_eq_some_iff.mp hx
    obtain ⟨hread, hall⟩ := h.2 _ rfl
    exact ⟨hall x (List.mem_cons_self ..), rest, hread⟩

/-- `ok_or_else` on what was found. -/
theorem orBail_triple {α : Type} {t : Tid} {P : World → Prop} (text : String) (found : Option α) :
    O.Triple cond t P (orBail text found) fun r w => P w ∧ ∀ x, r = .ok x → x ∈ found := by
  cases found with
  | none => exact Triple.throw fun _ _ h => ⟨h, nofun⟩
  | some x =>
      refine Triple.ret fun _ _ h => ⟨h, fun y hy => ?_⟩
      cases hy
      rfl

theorem getTaskRun_triple (hb : cond.Le (base lib).established) {P : World → Prop}
    (hP : Lasts cond P) (a : TaskRunAttempt) :
    (tallies lib).Triple cond (.service .taskRunAttemptDispatcher) (Up config P)
      (TaskRunAttemptDispatcher.getTaskRun a)
      fun r w => Up config P w ∧ ∀ x, r = .ok x → ReadTaskRun a.taskRunId x w := by
  refine Triple.bind (selectTaskRun_triple hb hP a.taskRunId) (fun found => ?_)
    fun _ _ _ h => ⟨h.1, nofun⟩
  exact (orBail_triple _ found).post fun r w _ h => ⟨h.1.1, fun x hx => h.1.2 found rfl x (h.2 x hx)⟩

/-! ### The tallies -/

theorem isWaitingToRetry_triple (hb : cond.Le (base lib).established) {P : World → Prop}
    (hP : Lasts cond P) (a : TaskRunAttempt) :
    (tallies lib).Triple cond (.service .taskRunAttemptDispatcher) (Up config P)
      (TaskRunAttemptDispatcher.isWaitingToRetry a) fun _ => Up config P :=
  gathers_triple hb hP (reads_gathers (TaskRunAttemptDispatcher.isWaitingToRetry_reads a))

/-- The rows both tallies begin with. -/
theorem selectRunningAttempts_triple (hb : cond.Le (base lib).established) {P : World → Prop}
    (hP : Lasts cond P) :
    (tallies lib).Triple cond (.service .taskRunAttemptDispatcher) (Up config P)
      selectRunningAttempts fun r w => Up config P w ∧
        ∀ rows, r = .ok rows → w.HasRead runningQuery rows ∧ Snapshot rows w := by
  refine reads_triple hb hP (q := runningQuery) nofun fun w a ha hrunning => ⟨a, ?_, rfl, rfl⟩
  show a ∈ w.db.selectTaskRunAttempts { status := some .running } none
  refine Database.mem_selectTaskRunAttempts.mpr ⟨Table.find_of_mem ha, ?_⟩
  simp [SelectTaskRunAttemptsFilter.holds, hrunning]

theorem isAtMax_triple (hb : cond.Le (base lib).established) {P : World → Prop}
    (hP : Lasts cond P) :
    (tallies lib).Triple cond (.service .taskRunAttemptDispatcher) (Up config P)
      (TaskRunAttemptDispatcher.isAtMaxRunningAttempts config) fun r w => Up config P w ∧
        (r = .ok false → 0 < config.app.maxRunningAttempts →
          CapTally config.app.maxRunningAttempts w) := by
  unfold TaskRunAttemptDispatcher.isAtMaxRunningAttempts
  by_cases hpos : config.app.maxRunningAttempts > 0
  · rw [if_pos hpos]
    have hcount : (tallies lib).Triple cond (.service .taskRunAttemptDispatcher) (Up config P)
        countRunningAttempts fun r w => Up config P w ∧ ∀ n, r = .ok n → ∃ rows,
          (w.HasRead runningQuery rows ∧ Snapshot rows w) ∧ (working rows).length = n := by
      refine Triple.bind (selectRunningAttempts_triple hb hP) (fun rows => Triple.ret fun w _ h =>
        ⟨h.1, fun n hn => ?_⟩) fun _ _ _ h => ⟨h.1, nofun⟩
      cases hn
      exact ⟨rows, h.2 rows rfl, rfl⟩
    refine Triple.bind hcount (fun n => Triple.ret fun w _ h => ⟨h.1, ?_⟩) fun _ _ _ h => ⟨h.1, nofun⟩
    · intro hfree _
      obtain ⟨rows, hrows, hlength⟩ := h.2 n rfl
      have hfree := of_decide_eq_false (Except.ok.inj hfree)
      exact ⟨rows, hrows, by omega⟩
  · rw [if_neg hpos]
    exact Triple.ret fun w _ h => ⟨h, fun _ h => absurd h hpos⟩

/-- The slots of a limit are its occurrences among the claims. -/
theorem slots_count (claims : List String) (slots : BTreeMap String Nat) (limit : String) :
    ((claims.foldl (fun slots limit =>
      BTreeMap.insert slots limit ((slots.get limit).getD 0 + 1)) slots).get limit).getD 0 =
        (slots.get limit).getD 0 + claims.count limit := by
  induction claims generalizing slots with
  | nil => rfl
  | cons claim rest ih =>
      rw [List.foldl_cons, ih, BTreeMap.get_insert, List.count_cons]
      by_cases h : limit = claim
      · subst h
        simp only [if_true, Option.getD_some, beq_self_eq_true]
        omega
      · simp only [if_neg h, beq_iff_eq, if_neg (fun h' : claim = limit => h h'.symm)]
        omega

theorem claimedLimitSlots_triple (hb : cond.Le (base lib).established) {P : World → Prop}
    (hP : Lasts cond P) :
    (tallies lib).Triple cond (.service .taskRunAttemptDispatcher) (Up config P)
      claimedLimitSlots fun r w => Up config P w ∧ ∀ claimed, r = .ok claimed →
        ∃ rows claims, Tallied rows claims w ∧
          ∀ limit, (claimed.get limit).getD 0 = claims.flatten.count limit := by
  refine Triple.bind (selectRunningAttempts_triple hb hP) (fun rows => ?_)
    fun _ _ _ h => ⟨h.1, nofun⟩
  let F : World → Prop := fun w => P w ∧ (w.HasRead runningQuery rows ∧ Snapshot rows w)
  have hF : Lasts cond F := hP.and ((Lasts.hasRead _ _).and (Lasts.snapshot hb rows))
  have hpair : ∀ (b : TaskRunAttempt) (c : List String),
      Lasts cond fun w => ReadsClaims w b c ∧ ClaimsKnown b.taskRunId c w := fun b c =>
    (Lasts.ex fun x => Lasts.ex fun rest => (Lasts.hasRead _ _).and (Lasts.const _)).and
      (Lasts.claimsKnown _ _)
  refine Triple.bind (R := fun r w => Up config F w ∧ ∀ claims, r = .ok claims →
      List.Forall₂ (fun b c => ReadsClaims w b c ∧ ClaimsKnown b.taskRunId c w)
        (working rows) claims)
    (Triple.pre (Triple.collect (R := fun b c w => Up config (fun w =>
        ReadsClaims w b c ∧ ClaimsKnown b.taskRunId c w) w)
      (fun b c => up_stable hb (hpair b c)) (fun b => ?_) (fun b c z => ?_) (working rows) |>.post
        fun r w _ h => ⟨h.1, fun ys hys => (h.2 ys hys).imp fun _ _ h => h.2⟩) ?_)
    (fun claims => Triple.ret fun w _ h => ⟨⟨h.1.1, h.1.2.1⟩, ?_⟩)
    fun _ _ _ h => ⟨⟨h.1.1, h.1.2.1⟩, nofun⟩
  · -- the claims of one attempt
    refine Triple.bind (selectTaskRun_triple hb hF b.taskRunId) (fun found => ?_)
      fun _ _ _ h => ⟨h.1, nofun⟩
    refine Triple.bind (orBail_triple _ found) (fun x => ?_) fun _ _ _ h => ⟨h.1.1, nofun⟩
    refine Triple.ret fun w _ h => ⟨h.1.1, fun c hc => ?_⟩
    cases hc
    obtain ⟨⟨hid, hknown⟩, rest, hread⟩ := h.1.2 found rfl x (h.2 x rfl)
    refine ⟨h.1.1.1, ⟨x, rest, hread, rfl⟩, hid ▸ hknown.1, fun y hy => ?_⟩
    rw [show y = _ from hknown.2 y (hid ▸ hy)]
  · refine ((selectTaskRun_reads _).bind fun _ => orBail_uses.bind fun _ => Prog.uses_ret _).mono
      fun o ho w r w' _ _ _ hperf h => ?_
    have ho : Gathers o := .inl ho
    exact up_kept (hpair b c) hperf ho.leavesTally ho.ne_start h
  · exact fun w _ h => ⟨h.1.1, h.1.2, h.2 rows rfl⟩
  · intro claimed hclaimed
    cases hclaimed
    refine ⟨rows, claims, ⟨h.1.2.2.1, h.1.2.2.2, h.2 claims rfl⟩, fun limit => ?_⟩
    rw [slots_count]
    exact Nat.zero_add _

theorem aClaimedLimitIsFull_triple (hb : cond.Le (base lib).established) {P : World → Prop}
    (hP : Lasts cond P) (a : TaskRunAttempt) :
    (tallies lib).Triple cond (.service .taskRunAttemptDispatcher) (Up config P)
      (TaskRunAttemptDispatcher.aClaimedLimitIsFull config a) fun r w => Up config P w ∧
        (r = .ok false → ∃ x, x.id = a.taskRunId ∧ TaskRunKnown x w ∧
          LimitsTally config x.limits w) := by
  refine Triple.bind (getTaskRun_triple hb hP a) (fun x => ?_) fun _ _ _ h => ⟨h.1, nofun⟩
  let F : World → Prop := fun w => P w ∧ ReadTaskRun a.taskRunId x w
  have hF : Lasts cond F := hP.and (Lasts.readTaskRun _ _)
  refine Triple.pre (W := Up config F) ?_ fun w _ h => ⟨h.1.1, h.1.2, h.2 x rfl⟩
  by_cases hempty : x.limits.isEmpty = true
  · rw [if_pos hempty]
    refine Triple.ret fun w _ h => ⟨⟨h.1, h.2.1⟩, fun _ => ⟨x, h.2.2.1.1, h.2.2.1.2, ?_⟩⟩
    intro limit hlimit
    rw [List.isEmpty_iff.mp hempty] at hlimit
    cases hlimit
  · rw [if_neg hempty]
    refine Triple.bind (claimedLimitSlots_triple hb hF) (fun claimed => ?_)
      fun _ _ _ h => ⟨⟨h.1.1, h.1.2.1⟩, nofun⟩
    refine Triple.ret fun w _ h => ⟨⟨h.1.1, h.1.2.1⟩, fun hfree => ?_⟩
    refine ⟨x, h.1.2.2.1.1, h.1.2.2.1.2, fun limit hlimit max hmax hpos => ?_⟩
    obtain ⟨rows, claims, htallied, hcount⟩ := h.2 claimed rfl
    have hfree := Except.ok.inj hfree
    rw [TaskRunAttemptDispatcher.someLimitIsFull, List.any_eq_false] at hfree
    have hfull := hfree limit hlimit
    simp only [hmax, hcount] at hfull
    have hmax : max ≠ 0 := by omega
    simp only [hmax, ne_eq, not_false_eq_true, decide_true, Bool.true_and, decide_eq_true_eq,
      ge_iff_le, not_le] at hfull
    exact ⟨rows, claims, htallied, hfull⟩

theorem shouldStayQueued_triple (hb : cond.Le (base lib).established) (a : TaskRunAttempt) :
    (tallies lib).Triple cond (.service .taskRunAttemptDispatcher) (Up config (Begun a))
      (TaskRunAttemptDispatcher.shouldStayQueued config a) fun r w =>
        w.serve = .up config ∧ (r = .ok false → InLine config a w) := by
  refine Triple.bind (isWaitingToRetry_triple hb (Lasts.begun a) a) (fun isWaiting => ?_)
    fun _ _ _ h => ⟨h.1, nofun⟩
  cases isWaiting with
  | true => exact Triple.ret fun _ _ h => ⟨h.1, nofun⟩
  | false =>
      refine Triple.bind (isAtMax_triple hb (Lasts.begun a)) (fun isAtMax => ?_)
        fun _ _ _ h => ⟨h.1.1, nofun⟩
      cases isAtMax with
      | true => exact Triple.ret fun _ _ h => ⟨h.1.1, nofun⟩
      | false =>
          let F : World → Prop := fun w => Begun a w ∧ (0 < config.app.maxRunningAttempts →
            CapTally config.app.maxRunningAttempts w)
          have hF : Lasts cond F :=
            (Lasts.begun a).and (Lasts.all fun _ => Lasts.capTally hb config.app.maxRunningAttempts)
          exact ((aClaimedLimitIsFull_triple hb hF a).pre fun w _ h => ⟨h.1.1, h.1.2, h.2 rfl⟩).post
            fun r w _ h => ⟨h.1.1, fun hfree => ⟨h.1.2, h.2 hfree⟩⟩

/-- Asking takes the attempt in hand. -/
theorem isJobRunStopped_takes (hb : cond.Le (base lib).established) (a : TaskRunAttempt) :
    (tallies lib).Triple cond (.service .taskRunAttemptDispatcher) (Up config (Known a))
      (isJobRunStopped a.jobRunId) fun r w =>
        w.serve = .up config ∧ (r = .ok false → Begun a w) := by
  have hselect : (tallies lib).Triple cond (.service .taskRunAttemptDispatcher)
      (Up config (Known a)) (select (stopQuery a.jobRunId)) fun r w => w.serve = .up config ∧
        ∀ stops, r = .ok stops → Known a w ∧ w.asked = some
          ⟨.service .taskRunAttemptDispatcher, .select (stopQuery a.jobRunId), .ok stops⟩ := by
    refine Triple.perform (up_stable hb (Lasts.known a)) (fun _ _ _ _ _ _ => trivial) ?_
    intro w r w' _ hw hperf _
    refine ⟨ServedBy.kept (t := .service .taskRunAttemptDispatcher) hperf nofun hw.1, ?_⟩
    rintro stops rfl
    exact ⟨known_performs hperf hw.2, asked_own hperf trivial⟩
  refine Triple.bind (R := fun r (w : World) => w.serve = .up config ∧ (r = .ok none → Begun a w))
    (Triple.bind hselect (fun stops => Triple.ret fun w _ h => ⟨h.1, fun hnone => ?_⟩)
      fun _ _ _ h => ⟨h.1, nofun⟩)
    (fun stop => Triple.ret fun w _ h => ⟨h.1, fun hfalse => ?_⟩) fun _ _ _ h => ⟨h.1, nofun⟩
  · cases stop with
    | none => exact h.2 rfl
    | some stop => cases hfalse
  · obtain ⟨hknown, hasked⟩ := h.2 stops rfl
    have hempty : stops = [] := List.head?_eq_none_iff.mp (Except.ok.inj hnone)
    exact ⟨hknown, by rw [Host.World.FoundUnstopped, hasked, hempty]⟩

theorem tallies_deriveNextStatus (hb : cond.Le (base lib).established) (a : TaskRunAttempt) :
    (tallies lib).Triple cond (.service .taskRunAttemptDispatcher) (Up config (Known a))
      (TaskRunAttemptDispatcher.deriveNextStatus config a) fun r w =>
        w.serve = .up config ∧ (r = .ok .running → InLine config a w) := by
  unfold TaskRunAttemptDispatcher.deriveNextStatus
  split
  · exact Triple.ret fun _ _ h => ⟨h.1, nofun⟩
  · refine Triple.bind (isJobRunStopped_takes hb a) (fun isStopped => ?_)
      fun _ _ _ h => ⟨h.1, nofun⟩
    cases isStopped with
    | true => exact Triple.ret fun _ _ h => ⟨h.1, nofun⟩
    | false =>
        refine Triple.bind ((shouldStayQueued_triple hb a).pre fun _ _ h => ⟨h.1, h.2 rfl⟩)
          (fun stayQueued => ?_) fun _ _ _ h => ⟨h.1, nofun⟩
        cases stayQueued with
        | true => exact Triple.ret fun _ _ h => ⟨h.1, nofun⟩
        | false => exact Triple.ret fun _ _ h => ⟨h.1, fun _ => h.2 rfl⟩

theorem Up.inLine {a : TaskRunAttempt} {w : World} (h : Up config (InLine config a) w) :
    ∀ config', w.serve = .up config' → ∃ b, b.id = a.id ∧ InLine config' b w := by
  intro config' hserve
  cases h.1.symm.trans hserve
  exact ⟨a, rfl, h.2⟩

/-- A write on an attempt that starts none. -/
theorem tallies_update (hb : cond.Le (base lib).established) {P : World → Prop}
    (hP : Lasts cond P) {f : UpdateTaskRunAttemptsFilter} {i : UpdateTaskRunAttemptsInput}
    (hi : i.status ≠ some .running) :
    (tallies lib).Triple cond (.service .taskRunAttemptDispatcher) (Up config P)
      (updateTaskRunAttempts f i) fun _ => Up config P := by
  refine Triple.perform (up_stable hb hP) (fun _ _ _ _ _ _ h => absurd h hi) ?_
  refine fun w r w' _ hw hperf _ => up_kept hP hperf ⟨id, ?_⟩ nofun hw
  rintro ⟨id, processGroupId, heq⟩
  cases heq
  exact hi rfl

theorem tallies_setToRunning (hb : cond.Le (base lib).established) (a : TaskRunAttempt) :
    (tallies lib).Triple cond (.service .taskRunAttemptDispatcher) (Up config (InLine config a))
      (TaskRunAttemptDispatcher.setToRunning lib config a) fun _ w => w.serve = .up config := by
  have hP : Lasts cond (InLine config a) := Lasts.inLine hb config a
  have hstable : (tallies lib).Stable cond (.service .taskRunAttemptDispatcher)
      (Up config (InLine config a)) := up_stable hb hP
  have hprepare := TaskRunAttemptDispatcher.prepare_uses (P := Gathers) (fun _ h => .inl h)
    (fun path content => .inr ⟨path, content, rfl⟩) lib config a
  refine Triple.bind (gathers_triple hb hP hprepare) (fun (taskRun, command) => ?_)
    fun _ _ _ h => h.1
  refine Triple.bind (gathers_triple hb hP now_gathers) (fun startedAt => ?_)
    fun _ _ _ h => h.1
  refine Triple.bind (tallies_update hb hP nofun) (fun _ => ?_) fun _ _ _ h => h.1
  have hspawn : (tallies lib).Triple cond (.service .taskRunAttemptDispatcher)
      (Up config (InLine config a)) (Crud.perform (.spawn a.id command startedAt))
      fun _ => Up config (InLine config a) := by
    refine Triple.perform hstable (fun w _ _ _ h _ => h.inLine) fun w r w' _ h hperf _ => ?_
    refine up_kept hP hperf ⟨id, ?_⟩ nofun h
    rintro ⟨_, _, heq⟩
    cases heq
  refine Triple.attempt_bind hspawn fun spawned => ?_
  split
  · refine Triple.bind (tallies_update hb hP nofun) (fun _ => ?_) fun _ _ _ h => h.1
    exact Triple.throw fun _ _ h => h.1
  · have hinsert : ∀ child, (tallies lib).Triple cond (.service .taskRunAttemptDispatcher)
        (Up config (InLine config a)) (Crud.perform (.childrenInsert a.id child))
        fun _ => Up config (InLine config a) := by
      intro child
      refine Triple.perform hstable (fun _ _ _ _ _ _ => trivial) fun w r w' _ h hperf _ => ?_
      refine up_kept hP hperf ⟨id, ?_⟩ nofun h
      rintro ⟨_, _, heq⟩
      cases heq
    refine Triple.bind (hinsert _) (fun _ => ?_) fun _ _ _ h => h.1
    refine Triple.perform hstable (fun w _ _ _ h _ _ config' hserve => ?_)
      fun w r w' _ h hperf _ => ServedBy.kept (t := .service .taskRunAttemptDispatcher) hperf nofun h.1
    obtain ⟨b, hb, hline⟩ := h.inLine config' hserve
    exact ⟨b, congrArg some hb.symm, hline⟩

theorem tallies_dispatcher (hb : cond.Le (base lib).established) (a : TaskRunAttempt) :
    (tallies lib).Triple cond (.service .taskRunAttemptDispatcher) (Up config (Known a))
      (TaskRunAttemptDispatcher.handleQueuedTaskRunAttempt lib config a)
      fun _ w => w.serve = .up config := by
  have hsettle : ∀ status, status ≠ .running →
      (tallies lib).Triple cond (.service .taskRunAttemptDispatcher) (fun w => w.serve = .up config)
        (TaskRunAttemptDispatcher.settle a status) fun _ w => w.serve = .up config := by
    intro status hstatus
    have hP : Lasts cond fun _ => True := Lasts.const True
    refine Triple.bind ((gathers_triple hb hP now_gathers).conseq
      (fun _ _ h => ⟨h, trivial⟩) fun _ _ _ h => h) (fun now => ?_) fun _ _ _ h => h.1
    exact (tallies_update hb hP fun h => hstatus (Option.some.inj h)).post fun _ _ _ h => h.1
  refine Triple.bind (tallies_deriveNextStatus hb a) (fun status => ?_) fun _ _ _ h => h.1
  split
  · exact (hsettle .invalid nofun).pre fun _ _ h => h.1
  · exact (hsettle .skipped nofun).pre fun _ _ h => h.1
  · exact Triple.ret fun _ _ h => h.1
  · exact (tallies_setToRunning hb a).pre fun _ _ h => ⟨h.1, h.2 rfl⟩
  · exact (hsettle .invalid nofun).pre fun _ _ h => h.1

end Dispatcher

theorem tallies_valid (hb : cond.Le (base lib).established) : (tallies lib).Valid cond where
  init _ _ := ⟨trivial, fun _ => trivial⟩
  step _ _ _ _ _ _ _ _ := trivial
  env _ _ _ _ _ := ⟨trivial, fun _ _ => trivial⟩
  idle t := stable_true t
  start := by
    -- nobody else spawns a command or sets an attempt running
    have hothers : ∀ {t : Tid} {P : World → Prop}, t ≠ .service .taskRunAttemptDispatcher →
        ∀ p : Code Unit, (tallies lib).Triple cond t P p fun _ _ => True := by
      intro t P ht p
      refine Triple.of_pre fun o w r w' _ hperf => ?_
      have hallowed := allowed_of hb hperf
      unfold tallies
      dsimp only
      split
      · exact absurd hallowed ht
      · intro hi
        cases hallowed with
        | startAttempt => exact absurd rfl ht
        | dropAttempt hs => rcases hs with rfl | rfl <;> cases hi
        | settleAttempt hfinished =>
            cases hi
            cases hfinished
        | markStarted | wait | recoverAttempt => cases hi
      · trivial
    refine start_triple_served (fun config fuel s => ?_) fun c r => hothers (by nofun) _
    by_cases hs : s = .taskRunAttemptDispatcher
    · subst hs
      suffices h : (tallies lib).Triple cond (.service .taskRunAttemptDispatcher)
          (fun w => w.serve = .up config) (TaskRunAttemptDispatcher.poller lib config).pass
          fun _ w => w.serve = .up config from
        h.conseq (fun _ _ h => h.2) fun _ _ _ _ => trivial
      have hserved : (tallies lib).Stable cond (.service .taskRunAttemptDispatcher)
          fun w => w.serve = .up config :=
        ServedBy.stable hb config (.service .taskRunAttemptDispatcher)
      refine Poller.pass_triple (K := Known) (R := fun a b : TaskRunAttempt => a.id ≠ b.id) ?_
        (fun a => known_stable _ a) (fun a => tallies_dispatcher hb a) fun a b _ => ?_
      · exact Triple.selectTaskRunAttempts hserved (fun _ _ h => h) (fun _ _ => trivial)
          fun _ _ _ _ _ hfind _ => known_of_find hfind
      · exact Prog.Uses.of_forall _ fun o w r w' _ _ _ hperf h => known_performs hperf h
    · exact hothers (fun h => hs (Tid.service.inj h)) _

end Flowlite
