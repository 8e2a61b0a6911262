import Flowlite.Logic.Tallies

/-!
# The caps on running attempts

As long as no attempt goes to sleep in a wait of flowlite's own, a tally counts every
running attempt. Nobody else sets one running, so what was free as it was read is free as
the attempt is started: `caps` is the outline that makes this a bound.
-/

namespace Flowlite

open Store Host Threads Crud Machine Outline

variable {lib : Library} {cond : (flowlite lib).Condition} {O : Outline (flowlite lib)}

/-- The running attempts. -/
def Host.World.runningAttempts (w : World) : Nat :=
  w.db.taskRunAttempts.count fun a => a.status = .running

/-- The running attempts whose task run claims a limit. -/
def Host.World.claimants (w : World) (limit : String) : Nat :=
  w.db.taskRunAttempts.count fun a => a.status = .running &&
    (w.db.taskRuns.find a.taskRunId).any fun x => x.limits.contains limit

/-- Neither the cap nor a limit is exceeded; `0` is no limit. -/
structure WithinCaps (cap : Nat) (limits : BTreeMap String Nat) (w : World) : Prop where
  cap : 0 < cap → w.runningAttempts ≤ cap
  limits : ∀ limit max, limits.get limit = some max → 0 < max → w.claimants limit ≤ max

/-- `serve` always runs with these limits. -/
def capped (lib : Library) (cap : Nat) (limits : BTreeMap String Nat) :
    (flowlite lib).Condition where
  step _ _ _ _ _ := True
  env e _ _ :=
    match e with
    | .boot config => config.app.maxRunningAttempts = cap ∧ config.app.concurrencyLimits = limits
    | _ => True

/-- No attempt is ever marked as waiting. -/
def neverWaits (lib : Library) : (flowlite lib).Condition where
  step _ _ _ _ w' := ∀ a ∈ w'.db.taskRunAttempts.rows, a.waitingSince = none
  env _ _ _ := True

instance (cap : Nat) (limits : BTreeMap String Nat) : (capped lib cap limits).Checked where
  step _ _ _ _ _ := isTrue trivial
  env e w w' := by
    rcases e <;> (dsimp only [capped]; infer_instance)

instance : (neverWaits lib).Checked where
  step t o w r w' := by
    dsimp only [neverWaits]
    infer_instance
  env _ _ _ := isTrue trivial

/-! ## The outline -/

/-- The caps hold, and so does what the tallies rest on. -/
structure CapsHeld (cap : Nat) (limits : BTreeMap String Nat) (w : World) : Prop where
  declared : ∀ config, w.serve = .starting config ∨ w.serve = .up config →
    config.app.maxRunningAttempts = cap ∧ config.app.concurrencyLimits = limits
  awake : ∀ a ∈ w.db.taskRunAttempts.rows, a.waitingSince = none
  /-- A tally counted every running attempt. -/
  counted : ∀ rows, w.HasRead runningQuery rows → working rows = rows
  within : WithinCaps cap limits w

def caps (lib : Library) (cap : Nat) (limits : BTreeMap String Nat) : Outline (flowlite lib) where
  inv := CapsHeld cap limits
  pre _ _ _ := True
  idle _ _ := True

section Steps

variable {cap : Nat} {limits : BTreeMap String Nat} {t : Tid} {o : Op} {w w' : World}
  {r : Result o}

theorem working_eq {rows : List TaskRunAttempt} (h : ∀ a ∈ rows, a.waitingSince = none) :
    working rows = rows :=
  List.filter_eq_self.mpr fun a ha => by rw [h a ha]; rfl

/-- What is in hand was in hand before, or has just been read. -/
theorem hasRead_origin (h : Performs cond t o w r w') {q : Query} {a : q.Answer}
    (hread : w'.HasRead q a) : w.HasRead q a ∨ a = q.run w.db := by
  by_cases ht : t = .service .taskRunAttemptDispatcher
  · subst ht
    by_cases ho : AsksStop o
    · -- asking empties the hand
      have hasks := asksStop_iff (t := .service .taskRunAttemptDispatcher) (r := r) |>.mpr ho
      unfold Host.World.HasRead Host.World.inHand at hread
      rw [log_performs h, List.filter_cons] at hread
      simp only [decide_true, if_true, List.takeWhile_cons, hasks, Bool.not_true,
        Bool.false_eq_true, if_false, List.not_mem_nil] at hread
    · unfold Host.World.HasRead at hread
      rw [inHand_own h ho] at hread
      rcases List.mem_cons.mp hread with heq | hold
      · cases heq
        rcases select_cases h with ⟨e, he⟩ | ha
        · cases he
        · exact .inr (Except.ok.inj ha)
      · exact .inl hold
  · unfold Host.World.HasRead at hread
    rw [inHand_other h ht] at hread
    exact .inl hread

theorem counted_performs (h : Performs cond t o w r w') (hi : CapsHeld cap limits w)
    (rows : List TaskRunAttempt) (hread : w'.HasRead runningQuery rows) : working rows = rows := by
  rcases hasRead_origin h hread with hold | rfl
  · exact hi.counted rows hold
  · refine working_eq fun a ha => hi.awake a ?_
    have ha : a ∈ w.db.selectTaskRunAttempts { status := some .running } none := ha
    exact Table.mem_of_find (Database.mem_selectTaskRunAttempts.mp ha).1

/-- An attempt's task run stays, and claims what it claimed. -/
theorem claims_origin (hb : cond.Le (base lib).established) (h : Performs cond t o w r w')
    {a : TaskRunAttempt} (ha : a ∈ w.db.taskRunAttempts.rows) {x' : TaskRun}
    (hx' : w'.db.taskRuns.find a.taskRunId = some x') :
    ∃ x, w.db.taskRuns.find a.taskRunId = some x ∧ x.limits = x'.limits := by
  obtain ⟨x, hx⟩ := Option.isSome_iff_exists.mp ((linked_of hb h).1.taskRun_of_attempt a ha)
  have hknown : ClaimsKnown a.taskRunId x.limits w :=
    ⟨Table.lt_next_of_find hx, fun y hy => by rw [hx] at hy; cases hy; rfl⟩
  exact ⟨x, hx, ((claimsKnown_performs h hknown).2 x' hx').symm⟩

/-- The cap is left a slot for the one attempt a step can start. -/
theorem cap_performs (hb : cond.Le (base lib).established)
    (ht : cond.Le (tallies lib).established) (hi : CapsHeld cap limits w)
    (h : Performs cond t o w r w') (hpos : 0 < cap) : w'.runningAttempts ≤ cap := by
  by_cases hstart : t = .service .taskRunAttemptDispatcher ∧ StartsAttempt o
  · obtain ⟨rfl, id, processGroupId, rfl⟩ := hstart
    obtain ⟨config, hserve⟩ := running_of hb h
    obtain ⟨a, -, ⟨-, hcap⟩, -⟩ := (ht.1 _ _ _ _ _ h.2).2.1 rfl config hserve
    have hdeclared := (hi.declared config (.inr hserve)).1
    rw [hdeclared] at hcap
    obtain ⟨rows, ⟨hread, hsnapshot⟩, hfree⟩ := hcap hpos
    rw [hi.counted rows hread] at hfree
    have hcount : w'.runningAttempts ≤ (id :: rows.map (·.id)).length := by
      refine Table.count_le_length (f := fun n => n) fun a' ha' hrunning => ?_
      obtain ⟨a, ha, hid, -, hbefore | ⟨-, p, heq⟩⟩ :=
        runningAttempt_origin hb h ha' (of_decide_eq_true hrunning)
      · obtain ⟨b, hbrows, hbid, -⟩ := hsnapshot a ha hbefore
        exact ⟨b.id, List.mem_cons_of_mem _ (List.mem_map.mpr ⟨b, hbrows, rfl⟩), hbid.trans hid⟩
      · cases heq
        exact ⟨_, List.mem_cons_self .., rfl⟩
    rw [List.length_cons, List.length_map] at hcount
    omega
  · refine le_trans (Table.count_le fun a' ha' hrunning => ?_) (hi.within.cap hpos)
    obtain ⟨a, ha, hid, -, hbefore | ⟨hdispatcher, p, heq⟩⟩ :=
      runningAttempt_origin hb h ha' (of_decide_eq_true hrunning)
    · exact ⟨a, ha, hid, decide_eq_true hbefore⟩
    · exact absurd ⟨hdispatcher, _, p, heq⟩ hstart

/-- No more rows than occurrences claim a limit. -/
theorem claimants_le_count {R : TaskRunAttempt → List String → Prop} {rows : List TaskRunAttempt}
    {claims : List (List String)} (h : List.Forall₂ R rows claims) (limit : String) :
    ∃ found : List TaskRunAttempt, found.length ≤ claims.flatten.count limit ∧
      ∀ b ∈ rows, (∀ c, R b c → limit ∈ c) → b ∈ found := by
  induction h with
  | nil => exact ⟨[], Nat.zero_le _, fun _ h => absurd h List.not_mem_nil⟩
  | @cons b c rows claims hbc _ ih =>
      obtain ⟨found, hlength, hfound⟩ := ih
      rw [List.flatten_cons, List.count_append]
      by_cases hc : limit ∈ c
      · have hpos := List.count_pos_iff.mpr hc
        refine ⟨b :: found, ?_, fun b' hb' hclaims => ?_⟩
        · rw [List.length_cons]
          omega
        · rcases List.mem_cons.mp hb' with rfl | hb'
          · exact List.mem_cons_self ..
          · exact List.mem_cons_of_mem _ (hfound b' hb' hclaims)
      · refine ⟨found, by omega, fun b' hb' hclaims => ?_⟩
        rcases List.mem_cons.mp hb' with rfl | hb'
        · exact absurd (hclaims c hbc) hc
        · exact hfound b' hb' hclaims

/-- A claimant of a limit, before a step and after it. -/
theorem claimant_origin (hb : cond.Le (base lib).established) (h : Performs cond t o w r w')
    {limit : String} {a' : TaskRunAttempt} (ha' : a' ∈ w'.db.taskRunAttempts.rows)
    (hclaims : (a'.status = .running &&
      (w'.db.taskRuns.find a'.taskRunId).any fun x => x.limits.contains limit) = true) :
    ∃ a ∈ w.db.taskRunAttempts.rows, a.id = a'.id ∧ a.taskRunId = a'.taskRunId ∧
      (∃ x, w.db.taskRuns.find a.taskRunId = some x ∧ limit ∈ x.limits) ∧
      (a.status = .running ∨ t = .service .taskRunAttemptDispatcher ∧ ∃ processGroupId,
        o = .write (.updateTaskRunAttempts { id := some a'.id }
          { status := some .running, processGroupId := some (some processGroupId) })) := by
  obtain ⟨hrunning, hany⟩ := Bool.and_eq_true_iff.mp hclaims
  obtain ⟨x', hx', hlimit⟩ := (Option.any_eq_true ..).mp hany
  obtain ⟨a, ha, hid, htask, hcases⟩ :=
    runningAttempt_origin hb h ha' (of_decide_eq_true hrunning)
  obtain ⟨x, hx, hlimits⟩ := claims_origin hb h ha (htask ▸ hx')
  refine ⟨a, ha, hid, htask, ⟨x, hx, ?_⟩, hcases⟩
  rw [hlimits]
  exact List.contains_iff_mem.mp hlimit

theorem claimants_performs (hb : cond.Le (base lib).established)
    (ht : cond.Le (tallies lib).established) (hi : CapsHeld cap limits w)
    (h : Performs cond t o w r w') {limit : String} {max : Nat}
    (hmax : limits.get limit = some max) (hpos : 0 < max) : w'.claimants limit ≤ max := by
  by_cases hstart : t = .service .taskRunAttemptDispatcher ∧ ∃ a x processGroupId,
      o = .write (.updateTaskRunAttempts { id := some a.id }
        { status := some .running, processGroupId := some (some processGroupId) }) ∧
      w.db.taskRunAttempts.find a.id = some a ∧ w.db.taskRuns.find a.taskRunId = some x ∧
      limit ∈ x.limits
  · -- the attempt that is started claims the limit, and was tallied for it
    obtain ⟨rfl, a, x, processGroupId, rfl, ha, hx, hlimit⟩ := hstart
    obtain ⟨config, hserve⟩ := running_of hb h
    obtain ⟨b, hid, ⟨⟨hknown, -⟩, -⟩, y, hy, hyknown, hlimits⟩ :=
      (ht.1 _ _ _ _ _ h.2).2.1 rfl config hserve
    have hid : a.id = b.id := Option.some.inj hid
    have hsame : a = _ := hknown.2 a (hid ▸ ha)
    have htask : a.taskRunId = y.id := by
      rw [hsame]
      exact hy.symm
    have hclaims : x.limits = y.limits := by rw [show x = _ from hyknown.2 x (htask ▸ hx)]
    rw [← hclaims, LimitsTally, (hi.declared config (.inr hserve)).2] at hlimits
    obtain ⟨rows, claims, ⟨hread, hsnapshot, hall⟩, hfree⟩ := hlimits limit hlimit max hmax hpos
    rw [hi.counted rows hread] at hall
    obtain ⟨found, hlength, hfound⟩ := claimants_le_count hall limit
    have hcount : w'.claimants limit ≤ (a.id :: found.map (·.id)).length := by
      refine Table.count_le_length (f := fun n => n) fun a' ha' hclaimant => ?_
      obtain ⟨c, hc, hcid, -, ⟨z, hz, hzlimit⟩, hbefore | ⟨-, p, heq⟩⟩ :=
        claimant_origin hb h ha' hclaimant
      · obtain ⟨d, hd, hdid, hdtask⟩ := hsnapshot c hc hbefore
        refine ⟨d.id, List.mem_cons_of_mem _ (List.mem_map.mpr ⟨d, ?_, rfl⟩), hdid.trans hcid⟩
        refine hfound d hd fun claimed hclaimed => ?_
        rw [← hclaimed.2.2 z (hdtask ▸ hz)]
        exact hzlimit
      · have hown : a.id = a'.id := by
          simp only [Op.write.injEq, Write.updateTaskRunAttempts.injEq,
            UpdateTaskRunAttemptsFilter.mk.injEq, Option.some.injEq] at heq
          exact heq.1.1
        exact ⟨a.id, List.mem_cons_self .., hown⟩
    rw [List.length_cons, List.length_map] at hcount
    omega
  · refine le_trans (Table.count_le fun a' ha' hclaimant => ?_) (hi.within.limits limit max hmax hpos)
    obtain ⟨a, ha, hid, -, ⟨x, hx, hlimit⟩, hbefore | ⟨hdispatcher, p, heq⟩⟩ :=
      claimant_origin hb h ha' hclaimant
    · refine ⟨a, ha, hid, ?_⟩
      simp [hbefore, hx, hlimit]
    · exact absurd ⟨hdispatcher, a, x, p, by rw [hid, heq], Table.find_of_mem ha, hx, hlimit⟩ hstart

end Steps

theorem caps_valid {cap : Nat} {limits : BTreeMap String Nat}
    (hc : cond.Le (capped lib cap limits)) (hw : cond.Le (neverWaits lib))
    (hb : cond.Le (base lib).established) (ht : cond.Le (tallies lib).established) :
    (caps lib cap limits).Valid cond where
  init w hw := by
    have hw : w = .fresh := hw
    subst hw
    refine ⟨⟨fun config h => ?_, fun _ h => absurd h List.not_mem_nil,
      fun _ h => absurd h List.not_mem_nil,
      ⟨fun _ => Nat.zero_le _, fun _ _ _ _ => Nat.zero_le _⟩⟩, fun _ => trivial⟩
    rcases h with h | h <;> cases h
  step t o w r w' hi _ h := by
    refine ⟨fun config hserve => ?_, hw.1 _ _ _ _ _ h.2, counted_performs h hi,
      ⟨cap_performs hb ht hi h, fun limit max => claimants_performs hb ht hi h⟩⟩
    rcases serve_cases h with heq | ⟨-, config', hbefore, hafter⟩
    · rw [heq] at hserve
      exact hi.declared config hserve
    · rw [hafter] at hserve
      rcases hserve with hserve | hserve <;> cases hserve
      exact hi.declared _ (.inl hbefore)
  env w w' kill hi h := by
    have hdb := happens_db h
    refine ⟨⟨fun config hserve => ?_, hdb ▸ hi.awake, fun rows hread => ?_, ?_⟩, fun _ _ => trivial⟩
    · obtain ⟨e, he, hce⟩ := h
      rcases external_boots he hserve with rfl | heq
      · exact hc.2 _ _ _ hce
      · rw [heq] at hserve
        exact hi.declared config hserve
    · unfold Host.World.HasRead at hread
      rw [inHand_happens h] at hread
      exact hi.counted rows hread
    · refine ⟨fun hpos => ?_, fun limit max hmax hpos => ?_⟩
      · unfold Host.World.runningAttempts
        rw [hdb]
        exact hi.within.cap hpos
      · unfold Host.World.claimants
        rw [hdb]
        exact hi.within.limits limit max hmax hpos
  idle t := stable_true t
  start t a p := (Triple.of_pre fun _ _ _ _ _ _ => trivial).pre fun _ _ _ => trivial

end Flowlite
