import Flowlite.Logic.Filed
import Flowlite.Theorems.RetentionDeletes

/-!
# What a cascade deletes

A delete takes the runs its filter matches and all that is below them, in an order no
reference stands in the way of. The runs are matched before the first is deleted, so one
that has gone along with a run above it is deleted for again, and answered again.
-/

namespace Flowlite

open Store Host Threads Crud Machine Outline

/-- The runs below a run, each once and after the run that submitted it. -/
structure DescendantsFound (db : Database) (top : Nat) (ids : List Nat) : Prop where
  once : ids.Nodup
  mem_iff : ∀ id, id ∈ ids ↔ db.Below top id
  after : ∀ before id rest, ids = before ++ id :: rest →
    ∀ parent, db.parentJobRun id = some parent → parent = top ∨ parent ∈ before

/-- A delete by this filter takes the runs it matches and those below, and leaves every
reference in place. -/
structure DeletesWithChildren (db : Database) (filter : DeleteJobRunsFilter) (ids : List Nat)
    (db' : Database) : Prop where
  mem_iff : ∀ id, id ∈ ids ↔
    ∃ x ∈ db.jobRuns.rows, filter.holds x = true ∧ (id = x.id ∨ db.Below x.id id)
  rows : db' = db.deleteRows ids
  references : db'.referencesHold = true
  once : ids.Nodup

/-- What is asked of the cascade in one state of the system. -/
structure Cascades {lib : Library} (c : (flowlite lib).Config) (filter : DeleteJobRunsFilter) :
    Prop where
  descendants : ∀ top, DescendantsFound c.state.db top
    ((c.state.db.selectJobRunDescendants top).map (·.id))
  terminates : ∀ top fuel, c.state.db.jobRuns.rows.length < fuel →
    (c.state.db.descendants fuel [top] []).map (·.id) =
      (c.state.db.selectJobRunDescendants top).map (·.id)
  deletes : ∀ now, ∃ ids db',
    Write.run c.state.db now (.deleteJobRunsWithChildren filter) = some (ids, db') ∧
      DeletesWithChildren c.state.db filter ids db'
  unchanged : ∀ c' t e, Next .any c c' →
    c'.state.log = ⟨t, .write (.deleteJobRunsWithChildren filter), .error e⟩ :: c.state.log →
    c'.state.db = c.state.db

theorem sound_of_reachable {lib : Library} {c : (flowlite lib).Config}
    (hc : Reachable .any c) : c.state.db.Sound := by
  have hbase : (base lib).Valid .any := base_valid
  have hreach := hbase.established hc
  have hcond := Condition.and_le_right (.any : (flowlite lib).Condition) (base lib).established
  obtain ⟨hrefs, houtputs, holder⟩ := (filed_valid hcond).inv hreach
  exact sound_of_inv hrefs houtputs ((releases_valid hcond).inv hreach) holder

theorem descendantsFound_of_older {db : Database} (holder : db.Older) (top : Nat) :
    DescendantsFound db top ((db.selectJobRunDescendants top).map (·.id)) := by
  have hfound := (Database.descendants_spec holder top).1
  refine ⟨hfound.once, fun id => ?_, fun before id rest heq parent hparent => ?_⟩
  · rw [hfound.mem_iff, Database.below_iff]
  · obtain ⟨v, hv, hchild⟩ := hfound.after before id rest heq
    have hsame := (Database.mem_childrenOf.mp hchild).symm.trans hparent
    cases hsame
    exact List.mem_cons.mp hv

/-- **The cascade** does what is asked of it exactly if no run that is matched is below
another. -/
theorem cascade_delete (lib : Library) (c : (flowlite lib).Config) (hc : Reachable .any c)
    (filter : DeleteJobRunsFilter) :
    Cascades c filter ↔ ∀ x ∈ c.state.db.jobRuns.rows, ∀ y ∈ c.state.db.jobRuns.rows,
      filter.holds x = true → filter.holds y = true → ¬ c.state.db.Below x.id y.id := by
  have hsound := sound_of_reachable hc
  have hrun : ∀ now, Write.run c.state.db now (.deleteJobRunsWithChildren filter) =
      some (c.state.db.deletedBy filter, c.state.db.deleteRows (c.state.db.deletedBy filter)) :=
    fun now => (Database.deleteJobRunsWithChildren_sound hsound _).1
  have hdistinct : (c.state.db.deletedBy filter).Nodup ↔
      ∀ x ∈ c.state.db.jobRuns.rows, ∀ y ∈ c.state.db.jobRuns.rows,
        filter.holds x = true → filter.holds y = true → ¬ c.state.db.Below x.id y.id := by
    unfold Database.deletedBy
    rw [Database.nodup_deletedFrom hsound.older (Database.resolveDelete_ordered _ _)]
    constructor
    · intro h x hx y hy hxf hyf
      exact h x.id (Database.mem_resolveDelete.mpr ⟨x, hx, hxf, rfl⟩) y.id
        (Database.mem_resolveDelete.mpr ⟨y, hy, hyf, rfl⟩)
    · intro h top htop id hid
      obtain ⟨x, hx, hxf, rfl⟩ := Database.mem_resolveDelete.mp htop
      obtain ⟨y, hy, hyf, rfl⟩ := Database.mem_resolveDelete.mp hid
      exact h x hx y hy hxf hyf
  rw [← hdistinct]
  constructor
  · intro h
    obtain ⟨ids, db', hids, hdeletes⟩ := h.deletes 0
    cases (hrun 0).symm.trans hids
    exact hdeletes.once
  · intro honce
    refine ⟨fun top => descendantsFound_of_older hsound.older top,
      fun top fuel hfuel => (Database.descendants_spec hsound.older top).2 fuel hfuel,
      fun now => ⟨_, _, hrun now, ?_, rfl, ?_, honce⟩, fun c' t e hn hlog => ?_⟩
    · intro id
      rw [Database.deletedBy, Database.mem_deletedFrom hsound.older]
      constructor
      · rintro (hid | ⟨top, htop, hbelow⟩)
        · obtain ⟨x, hx, hxf, rfl⟩ := Database.mem_resolveDelete.mp hid
          exact ⟨x, hx, hxf, .inl rfl⟩
        · obtain ⟨x, hx, hxf, rfl⟩ := Database.mem_resolveDelete.mp htop
          exact ⟨x, hx, hxf, .inr hbelow⟩
      · rintro ⟨x, hx, hxf, rfl | hbelow⟩
        · exact .inl (Database.mem_resolveDelete.mpr ⟨x, hx, hxf, rfl⟩)
        · exact .inr ⟨x.id, Database.mem_resolveDelete.mpr ⟨x, hx, hxf, rfl⟩, hbelow⟩
    · exact Database.referencesHold_iff.mpr
        (Database.deleteJobRunsWithChildren_sound hsound _).2.references
    · exact write_error (performs_of_log hn hlog)

namespace Replay

/-- A run whose task has submitted another. -/
def submitsChild : List Event := boot pruned ++ starts 1 ++ submitsStopped

end Replay

open Replay in
/-- A delete of the one run takes the other along. -/
theorem cascade_delete_parent : ∃ c : (flowlite library).Config,
    (c.state.db.deleteJobRunsWithChildren [1]).map (·.1) = some [2, 1] ∧
      Cascades c { id := some 1 } := by
  have hrun : (replay .any submitsChild).any (fun c => decide
      ((c.state.db.deleteJobRunsWithChildren [1]).map (·.1) = some [2, 1])) = true := by
    decide +kernel
  obtain ⟨c, hc, hcheck⟩ := reachable_of_replay hrun
  refine ⟨c, of_decide_eq_true hcheck, (cascade_delete library c hc _).mpr ?_⟩
  intro x _ y _ hx hy hbelow
  have hx : x.id = 1 := by simpa [DeleteJobRunsFilter.holds] using hx
  have hy : y.id = 1 := by simpa [DeleteJobRunsFilter.holds] using hy
  rw [hx, hy] at hbelow
  exact lt_irrefl 1 (Database.lt_of_below (sound_of_reachable hc).older hbelow)

open Replay in
/-- The empty filter matches both, and the one below is answered twice. -/
theorem child_is_answered_twice : ∃ c : (flowlite library).Config, Reachable .any c ∧
    (∀ now, (Write.run c.state.db now (.deleteJobRunsWithChildren {})).map (·.1) =
      some [2, 1, 2]) ∧ ¬ Cascades c {} := by
  have hrun : (replay .any submitsChild).any (fun c => decide
      ((c.state.db.deleteJobRunsWithChildren (c.state.db.resolveDelete {})).map (·.1) =
        some [2, 1, 2])) = true := by
    decide +kernel
  obtain ⟨c, hc, hcheck⟩ := reachable_of_replay hrun
  have hids : ∀ now, (Write.run c.state.db now (.deleteJobRunsWithChildren {})).map (·.1) =
      some [2, 1, 2] := fun _ => of_decide_eq_true hcheck
  refine ⟨c, hc, hids, fun h => ?_⟩
  obtain ⟨ids, db', hdeletes, honly⟩ := h.deletes 0
  have hsame := hids 0
  rw [hdeletes, Option.map_some, Option.some.injEq] at hsame
  have honce := honly.once
  rw [show ids = [2, 1, 2] from hsame] at honce
  exact absurd honce (by decide)

end Flowlite
