import Flowlite.Logic.Filed
import Flowlite.Logic.Stops
import Flowlite.Theorems.Outcomes

/-!
# A stop is final

After the stop of a run is there, at most one more of its commands is spawned: the one of
the attempt `TaskRunAttemptDispatcher` had in hand, and for which it had already been told
that the run is not stopped. And a run that was stopped before `JobRunDispatcher` was told so
has no attempt, now or later. Both hold whatever fails or crashes.
-/

namespace Flowlite

open Store Host Threads Crud Machine Outline Relation

variable {lib : Library} {cond : (flowlite lib).Condition}

/-! ## Spawns after a stop -/

/-- The attempts of the run for which a command was spawned from `w` to `w'`. -/
def spawnedSince (w w' : World) (id : Nat) : List Nat :=
  ((w'.log.take (w'.log.length - w.log.length)).filterMap Host.Event.spawned).filter fun n =>
    (w'.db.taskRunAttempts.find n).any fun a => a.jobRunId = id

/-- What is spawned of a run that is stopped in `w` is the attempt in hand. -/
structure StopIsFinal (w w' : World) (id : Nat) : Prop where
  last : (spawnedSince w w' id).length ≤ 1
  inHand : spawnedSince w w' id ≠ [] → w.FoundUnstopped id

/-- The event spawned no command of the run. -/
def SpawnsForeign (id : Nat) (e : Host.Event) (w : World) : Prop :=
  ∀ n, e.spawned = some n → ∃ a : TaskRunAttempt, a.id = n ∧ a.jobRunId ≠ id ∧ Known a w

theorem spawnsForeign_permanent (id : Nat) (e : Host.Event) :
    Permanent cond (SpawnsForeign id e) := by
  refine Permanent.all fun n => Permanent.imp_const (Permanent.ex fun a => ?_)
  exact (Permanent.const _).and ((Permanent.const _).and
    ⟨known_performs, fun h hknown => by
      unfold Known
      rwa [happens_db h]⟩)

/-- What has been spawned of the run since its log was `log`: nothing yet, and only if it was
found unstopped then is it so now; or one command, and then nothing is in hand. -/
inductive SpawnedAtMostOne (log : List Host.Event) (found : Prop) (id : Nat) (w : World) : Prop
  | none {new : List Host.Event} : w.log = new ++ log → (∀ e ∈ new, SpawnsForeign id e w) →
      (w.FoundUnstopped id → found) → SpawnedAtMostOne log found id w
  | one {after before : List Host.Event} {e : Host.Event} : w.log = after ++ e :: before ++ log →
      (∀ e ∈ after ++ before, SpawnsForeign id e w) → found →
      ¬ (w.FoundUnstopped id ∧ w.Unspent) → SpawnedAtMostOne log found id w

/-- The run is stopped, and nothing of it is spawned but what was in hand; or it is gone. -/
def AfterStop (log : List Host.Event) (found : Prop) (id : Nat) (w : World) : Prop :=
  id < w.db.jobRuns.next ∧ ((w.db.jobRuns.find id).isSome = true →
    IsStopped w id ∧ SpawnedAtMostOne log found id w)

section Step

variable {t : Tid} {o : Op} {w w' : World} {r : Result o} {log : List Host.Event} {found : Prop}
  {id : Nat}

/-- What `TaskRunAttemptDispatcher` was told of a stopped run, it was told before the step. -/
theorem foundUnstopped_before (h : Performs cond t o w r w') (hstopped : IsStopped w id)
    (hfound : w'.FoundUnstopped id) : w.FoundUnstopped id ∧
      ¬ (t = .service .taskRunAttemptDispatcher ∧ AsksStop o) := by
  have hnot : ¬ (t = .service .taskRunAttemptDispatcher ∧ AsksStop o) := by
    rintro ⟨rfl, hasks⟩
    have hsame := (asked_own h hasks).symm.trans hfound
    cases hsame
    exact not_unstopped_of_stopped h hstopped
  refine ⟨?_, hnot⟩
  unfold Host.World.FoundUnstopped at hfound ⊢
  rwa [asked_performs h fun ht hasks => hnot ⟨ht, hasks⟩] at hfound

/-- Nothing that was spent comes back, but by a question. -/
theorem unspent_before (h : Performs cond t o w r w')
    (hnot : ¬ (t = .service .taskRunAttemptDispatcher ∧ AsksStop o)) (hunspent : w'.Unspent) :
    w.Unspent := by
  by_cases ht : t = .service .taskRunAttemptDispatcher
  · subst ht
    intro e he
    refine hunspent e ?_
    rw [inHand_own h fun hasks => hnot ⟨rfl, hasks⟩]
    exact List.mem_cons_of_mem _ he
  · unfold Host.World.Unspent at hunspent ⊢
    rwa [inHand_other h ht] at hunspent

/-- A spawn, and what was asked and done before it. -/
theorem spawn_before (hb : cond.Le (base lib).established)
    (ht : cond.Le (tallies lib).established) (ho : cond.Le (oneEach lib).established)
    (h : Performs cond t o w r w') {n : Nat} (hspawned : (Host.Event.mk t o r).spawned = some n) :
    t = .service .taskRunAttemptDispatcher ∧ w.Unspent ∧ ∃ a : TaskRunAttempt, a.id = n ∧
      Known a w ∧ w.FoundUnstopped a.jobRunId := by
  obtain ⟨⟨command, at', rfl⟩, -⟩ := spawned_eq hspawned
  have hthread : t = .service .taskRunAttemptDispatcher := allowed_of hb h
  subst hthread
  obtain ⟨config, hserve⟩ : ∃ config, w.serve = .up config := running_of hb h
  obtain ⟨a, hid, hline⟩ := (ht.1 _ _ _ _ _ h.2).2.1 config hserve
  exact ⟨rfl, (ho.1 _ _ _ _ _ h.2).2.1, a, hid, hline.1.1⟩

theorem spawnedAtMostOne_performs (hb : cond.Le (base lib).established)
    (ht : cond.Le (tallies lib).established) (ho : cond.Le (oneEach lib).established)
    (h : Performs cond t o w r w') (hstopped : IsStopped w id)
    (hw : SpawnedAtMostOne log found id w) : SpawnedAtMostOne log found id w' := by
  have hlog := log_performs h
  have hforeign : ∀ {e}, SpawnsForeign id e w → SpawnsForeign id e w' :=
    fun hall => ((spawnsForeign_permanent id _ : Permanent cond _).performs h) hall
  by_cases hown : SpawnsForeign id ⟨t, o, r⟩ w'
  · cases hw with
    | none hnew hall hfound =>
        refine @SpawnedAtMostOne.none _ _ _ _ (⟨t, o, r⟩ :: _) (by rw [hlog, hnew]; rfl) ?_ fun hlater => ?_
        · exact List.forall_mem_cons.mpr ⟨hown, fun e he => hforeign (hall e he)⟩
        · exact hfound (foundUnstopped_before h hstopped hlater).1
    | one hnew hall hfound hspent =>
        refine @SpawnedAtMostOne.one _ _ _ _ (⟨t, o, r⟩ :: _) _ _ (by rw [hlog, hnew]; rfl) ?_ hfound
          fun hlater => ?_
        · exact List.forall_mem_cons.mpr ⟨hown, fun e he => hforeign (hall e he)⟩
        · obtain ⟨hbefore, hnot⟩ := foundUnstopped_before h hstopped hlater.1
          exact hspent ⟨hbefore, unspent_before h hnot hlater.2⟩
  · -- a command of the run is spawned
    obtain ⟨n, hspawned, hrun⟩ : ∃ n, (Host.Event.mk t o r).spawned = some n ∧
        ¬ ∃ a : TaskRunAttempt, a.id = n ∧ a.jobRunId ≠ id ∧ Known a w' := by
      by_contra hnone
      exact hown fun n hspawned => by_contra fun hrun => hnone ⟨n, hspawned, hrun⟩
    obtain ⟨rfl, hunspent, a, hid, hknown, hasked⟩ := spawn_before hb ht ho h hspawned
    have hjob : a.jobRunId = id := by
      by_contra hne
      exact hrun ⟨a, hid, hne, known_performs h hknown⟩
    rw [hjob] at hasked
    cases hw with
    | none hnew hall hfound =>
        refine @SpawnedAtMostOne.one _ _ _ _ [] _ ⟨_, o, r⟩ (by rw [hlog, hnew]; rfl)
          (fun e he => hforeign (hall e he)) (hfound hasked) fun hlater => ?_
        -- the spawn is the last thing in hand
        obtain ⟨⟨command, at', rfl⟩, -⟩ := spawned_eq hspawned
        have hnone := hlater.2 ⟨.service .taskRunAttemptDispatcher, _, r⟩ (by
          rw [inHand_own h fun hasks => hasks]
          exact List.mem_cons_self ..)
        rw [hspawned] at hnone
        cases hnone
    | one _ _ _ hspent => exact absurd ⟨hasked, hunspent⟩ hspent

end Step

theorem afterStop_permanent (hb : cond.Le (base lib).established)
    (ht : cond.Le (tallies lib).established) (ho : cond.Le (oneEach lib).established)
    (log : List Host.Event) (found : Prop) (id : Nat) :
    Permanent cond (AfterStop log found id) where
  performs h hw := by
    refine ⟨lt_of_lt_of_le hw.1 (jobRuns_next_le h), fun hthere => ?_⟩
    obtain ⟨hstopped, hspawned⟩ := hw.2 (jobRun_there_before h hw.1 hthere)
    refine ⟨(isStopped_fate h hstopped).resolve_left fun hremoves => ?_,
      spawnedAtMostOne_performs hb ht ho h hstopped hspawned⟩
    rw [(hremoves.gone h).1] at hthere
    cases hthere
  happens {w w' _} h hw := by
    have hforeign : ∀ {e}, SpawnsForeign id e w → SpawnsForeign id e w' :=
      fun hall => ((spawnsForeign_permanent id _ : Permanent cond _).happens h) hall
    have hasked : w'.asked = w.asked := asked_happens h
    have hinHand : w'.inHand = w.inHand := inHand_happens h
    unfold AfterStop IsStopped at hw ⊢
    rw [happens_db h]
    refine ⟨hw.1, fun hthere => ⟨(hw.2 hthere).1, ?_⟩⟩
    cases (hw.2 hthere).2 with
    | none hnew hall hfound =>
        refine .none ((log_happens h).trans hnew) (fun e he => hforeign (hall e he)) ?_
        unfold Host.World.FoundUnstopped at hfound ⊢
        rwa [hasked]
    | one hnew hall hfound hspent =>
        refine .one ((log_happens h).trans hnew) (fun e he => hforeign (hall e he)) hfound ?_
        unfold Host.World.FoundUnstopped Host.World.Unspent at hspent ⊢
        rwa [hasked, hinHand]

/-! ## A stop is final -/

/-- What was spawned of other runs only, was not spawned of this one. -/
theorem filter_foreign {w : World} {id : Nat} {es : List Host.Event}
    (h : ∀ e ∈ es, SpawnsForeign id e w) : (es.filterMap Host.Event.spawned).filter
      (fun n => (w.db.taskRunAttempts.find n).any fun a => a.jobRunId = id) = [] := by
  rw [List.filter_eq_nil_iff]
  intro n hn hrun
  obtain ⟨e, he, hspawned⟩ := List.mem_filterMap.mp hn
  obtain ⟨a, rfl, hne, hknown⟩ := h e he n hspawned
  obtain ⟨b, hb, hjob⟩ := (Option.any_eq_true _ _).mp hrun
  have hsame : b = _ := hknown.2 b hb
  rw [hsame] at hjob
  exact hne (of_decide_eq_true hjob)

theorem stopIsFinal_of {w w' : World} {id : Nat}
    (h : SpawnedAtMostOne w.log (w.FoundUnstopped id) id w') : StopIsFinal w w' id := by
  have htake : ∀ {new : List Host.Event}, w'.log = new ++ w.log →
      w'.log.take (w'.log.length - w.log.length) = new := by
    intro new hnew
    rw [hnew, List.length_append, Nat.add_sub_cancel, List.take_left]
  cases h with
  | none hnew hall _ =>
      have hnil : spawnedSince w w' id = [] := by
        unfold spawnedSince
        rw [htake hnew]
        exact filter_foreign hall
      exact ⟨by rw [hnil]; exact Nat.zero_le 1, fun hne => absurd hnil hne⟩
  | @one after before e hnew hall hfound _ =>
      refine ⟨?_, fun _ => hfound⟩
      have hafter := filter_foreign fun e' he => hall e' (List.mem_append_left _ he)
      have hbefore := filter_foreign fun e' he => hall e' (List.mem_append_right _ he)
      unfold spawnedSince
      rw [htake hnew, List.filterMap_append, List.filter_append, hafter, List.nil_append,
        List.filterMap_cons]
      cases e.spawned with
      | none =>
          rw [hbefore]
          exact Nat.zero_le 1
      | some n =>
          rw [List.filter_cons, hbefore]
          split <;> simp

/-- **A stop is final**: from a state in which a run is stopped on, at most one more of its
commands is spawned, and only for the attempt that was in hand then. -/
theorem stop_is_final (lib : Library) (c c' : (flowlite lib).Config) (hc : Reachable .any c)
    (hstar : ReflTransGen (Next .any) c c') (id : Nat) (hstop : IsStopped c.state id) :
    StopIsFinal c.state c'.state id := by
  obtain ⟨c₁, h₁, hbase⟩ := (base_valid : (base lib).Valid .any).entails
  obtain ⟨c₂, h₂, htallies⟩ := (tallies_valid hbase).entails
  obtain ⟨c₃, h₃, honeEach⟩ := (oneEach_valid (h₂.le.trans hbase)).entails
  have hb := h₃.le.trans (h₂.le.trans hbase)
  have hentails := (h₁.trans h₂).trans h₃
  have hpermanent := afterStop_permanent hb (h₃.le.trans htallies) honeEach c.state.log
    (c.state.FoundUnstopped id) id
  have hrefs : c.state.db.References := ((filed_valid hb).inv (hentails.reachable hc)).1
  have hrefs' : c'.state.db.References :=
    ((filed_valid hb).inv (hentails.reachable (hc.star hstar))).1
  have hbefore : AfterStop c.state.log (c.state.FoundUnstopped id) id c.state := by
    refine ⟨?_, fun _ => ⟨hstop, ?_⟩⟩
    · obtain ⟨stop, hrow, rfl⟩ := hstop
      obtain ⟨j, hj⟩ := Option.isSome_iff_exists.mp (hrefs.stop stop hrow)
      exact Table.lt_next_of_find hj
    · exact @SpawnedAtMostOne.none _ _ _ _ [] rfl (fun _ he => absurd he List.not_mem_nil)
        fun hfound => hfound
  have hafter := hpermanent.star (hentails.star hc hstar) hbefore
  by_cases hthere : (c'.state.db.jobRuns.find id).isSome = true
  · exact stopIsFinal_of (hafter.2 hthere).2
  · -- no attempt is one of a run that is gone
    have hnil : spawnedSince c.state c'.state id = [] := by
      unfold spawnedSince
      rw [List.filter_eq_nil_iff]
      intro n _ hrun
      obtain ⟨a, ha, hjob⟩ := (Option.any_eq_true _ _).mp hrun
      have hjob : a.jobRunId = id := of_decide_eq_true hjob
      exact hthere (hjob ▸ (hrefs'.attempt a (Table.mem_of_find ha)).2)
    exact ⟨by rw [hnil]; exact Nat.zero_le 1, fun hne => absurd hnil hne⟩


open Replay in
/-- The attempt in hand is spawned behind the stop, and the other one is not. -/
theorem stop_is_final_fork : ∃ c c' : (flowlite library).Config,
    IsStopped c.state 1 ∧ spawnedSince c.state c'.state 1 = [1] ∧
      attemptStatusOf 2 c' = some .skipped ∧ StopIsFinal c.state c'.state 1 := by
  have hrun : (replay .any (boot forkConfig ++
      request 0 (.submit forkConfig "etl" [] 0 none) 6 ++ wake .jobRunReleaser 4 ++
      wake .jobRunDispatcher 10 ++ wake .taskRunDispatcher 10 ++ wake .taskRunMonitor 7 ++
      wake .taskRunAttemptDispatcher 5 ++ request 1 (.stop 1) 2)).any (fun c =>
        decide (IsStopped c.state 1) &&
          (exec .any c (steps (.service .taskRunAttemptDispatcher) 9)).any fun c' =>
            decide (spawnedSince c.state c'.state 1 = [1] ∧
              attemptStatusOf 2 c' = some .skipped)) = true := by
    decide +kernel
  obtain ⟨c, hc, hcheck⟩ := (Option.any_eq_true _ _).mp hrun
  obtain ⟨hstop, hrest⟩ := Bool.and_eq_true_iff.mp hcheck
  obtain ⟨c', hc', hafter⟩ := (Option.any_eq_true _ _).mp hrest
  obtain ⟨hspawned, hskipped⟩ := of_decide_eq_true hafter
  have hstop := of_decide_eq_true hstop
  exact ⟨c, c', hstop, hspawned, hskipped,
    stop_is_final library c c' (replay_reachable hc) (exec_star hc') 1 hstop⟩

/-! ## A run that was stopped before it started -/

/-- The run has no attempt, and none of its task runs has been released. -/
structure NeverStarts (w : World) (id : Nat) : Prop where
  attempts : ∀ a ∈ w.db.taskRunAttempts.rows, a.jobRunId ≠ id
  taskRuns : ∀ x ∈ w.db.taskRuns.rows, x.jobRunId = id →
    x.status = .planned ∨ x.status = .skipped ∨ x.status = .invalid

/-- The run is stopped, and `t` was never told otherwise; or it is gone. -/
def StoppedUnseen (t : Tid) (id : Nat) (w : World) : Prop :=
  id < w.db.jobRuns.next ∧ ((w.db.jobRuns.find id).isSome = true →
    IsStopped w id ∧ ¬ w.Unstopped t id)

theorem stoppedUnseen_permanent (t : Tid) (id : Nat) :
    Permanent cond (StoppedUnseen t id) where
  performs h hw := by
    refine ⟨lt_of_lt_of_le hw.1 (jobRuns_next_le h), fun hthere => ?_⟩
    obtain ⟨hstopped, hunseen⟩ := hw.2 (jobRun_there_before h hw.1 hthere)
    refine ⟨(isStopped_fate h hstopped).resolve_left fun hremoves => ?_, fun hseen => ?_⟩
    · rw [(hremoves.gone h).1] at hthere
      cases hthere
    · unfold Host.World.Unstopped at hseen
      rw [log_performs h] at hseen
      rcases List.mem_cons.mp hseen with heq | hbefore
      · cases heq
        exact not_unstopped_of_stopped h hstopped
      · exact hunseen hbefore
  happens h hw := by
    unfold StoppedUnseen IsStopped Host.World.Unstopped at hw ⊢
    rwa [happens_db h, log_happens h]

/-- **A run that is stopped before its dispatcher was told otherwise never starts**, in any state
the system reaches from there. -/
theorem stopped_run_never_starts (lib : Library) (c c' : (flowlite lib).Config)
    (hc : Reachable .any c) (hstar : ReflTransGen (Next .any) c c') (id : Nat)
    (hstop : IsStopped c.state id)
    (hunseen : ¬ c.state.Unstopped (.service .jobRunDispatcher) id) :
    NeverStarts c'.state id := by
  obtain ⟨c₁, hentails, hb⟩ := (base_valid : (base lib).Valid .any).entails
  have hreach' := hentails.reachable (hc.star hstar)
  have hrefs : c.state.db.References := ((filed_valid hb).inv (hentails.reachable hc)).1
  have hrefs' : c'.state.db.References := ((filed_valid hb).inv hreach').1
  have hfirst : ReleasedFirst c'.state := (releases_valid hb).inv hreach'
  have hbefore : StoppedUnseen (.service .jobRunDispatcher) id c.state := by
    refine ⟨?_, fun _ => ⟨hstop, hunseen⟩⟩
    obtain ⟨stop, hrow, rfl⟩ := hstop
    obtain ⟨j, hj⟩ := Option.isSome_iff_exists.mp (hrefs.stop stop hrow)
    exact Table.lt_next_of_find hj
  have hpermanent : @Permanent _ (flowlite lib) .any
      (StoppedUnseen (.service .jobRunDispatcher) id) := stoppedUnseen_permanent _ id
  have hafter := hpermanent.star hstar hbefore
  have hunreleased : (c'.state.db.jobRuns.find id).isSome = true → ¬ c'.state.Released id :=
    fun hthere hreleased => (hafter.2 hthere).2 (hfirst.unstopped id hreleased)
  refine ⟨fun a ha hjob => ?_, fun x hx hjob => ?_⟩
  · subst hjob
    exact hunreleased (hrefs'.attempt a ha).2 (hfirst.attempted a ha).1
  · subst hjob
    have hnot : x.status.hasStarted ≠ true := fun hstarted =>
      hunreleased (hrefs'.taskRun x hx) (hfirst.started x hx hstarted)
    cases hstatus : x.status with
    | planned => exact .inl rfl
    | skipped => exact .inr (.inl rfl)
    | invalid => exact .inr (.inr rfl)
    | waiting | running | succeeded | failed | aborted | timedOut =>
        rw [hstatus] at hnot
        exact absurd rfl hnot

open Replay in
/-- A run that is stopped while it is queued is skipped. -/
theorem stopped_run_never_starts_queued : ∃ c c' : (flowlite library).Config,
    statusOf 1 c = some .queued ∧ statusOf 1 c' = some .skipped ∧ NeverStarts c'.state 1 := by
  have hrun : (replay .any (submitted ++ wake .jobRunReleaser 4 ++ request 1 (.stop 1) 2)).any
      (fun c => decide (statusOf 1 c = some .queued ∧ IsStopped c.state 1) &&
        (!c.state.log.any fun e => e.asksStop && decide (e.thread = .service .jobRunDispatcher)) &&
          (exec .any c (wake .jobRunDispatcher 5)).any fun c' =>
            decide (statusOf 1 c' = some .skipped)) = true := by
    decide +kernel
  obtain ⟨c, hc, hcheck⟩ := (Option.any_eq_true _ _).mp hrun
  obtain ⟨hnow, hrest⟩ := Bool.and_eq_true_iff.mp hcheck
  obtain ⟨hstop, hasked⟩ := Bool.and_eq_true_iff.mp hnow
  obtain ⟨hqueued, hstop⟩ := of_decide_eq_true hstop
  obtain ⟨c', hc', hafter⟩ := (Option.any_eq_true _ _).mp hrest
  -- the dispatcher has not asked yet
  have hunseen : ¬ c.state.Unstopped (.service .jobRunDispatcher) 1 := by
    intro hseen
    rw [Bool.not_eq_true', List.any_eq_false] at hasked
    exact hasked _ hseen rfl
  exact ⟨c, c', hqueued, of_decide_eq_true hafter,
    stopped_run_never_starts library c c' (replay_reachable hc) (exec_star hc') 1 hstop hunseen⟩

end Flowlite
