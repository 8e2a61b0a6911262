import Mathlib.Logic.Relation
import Flowlite.Store.Writes

/-!
# Runs and the runs their tasks submitted

A run names the attempt that submitted it, so the runs form a forest: a run has at
most one parent, which is older than it is. `Below` is the relation, `isBelow` its
decision by walking up; what a delete takes along is below the run it was asked for.
-/

namespace Flowlite.Store.Database

/-- The run whose task submitted this one. -/
def parentJobRun (db : Database) (id : Nat) : Option Nat :=
  ((db.jobRuns.find id).bind (·.parentTaskRunAttemptId)).bind fun a =>
    (db.taskRunAttempts.find a).map (·.jobRunId)

/-- The run that submitted this one, the run that submitted that one, and so on. -/
def ancestors (db : Database) : Nat → Nat → List Nat
  | 0, _ => []
  | fuel + 1, id =>
      match db.parentJobRun id with
      | none => []
      | some parent => parent :: db.ancestors fuel parent

/-- Every run is older than those its tasks submit, so `id` steps lead to the top. -/
def isBelow (db : Database) (top id : Nat) : Bool := (db.ancestors id id).contains top

/-- `id` was submitted by a task of `top`, or by one of a run below it. -/
def Below (db : Database) (top id : Nat) : Prop :=
  Relation.TransGen (fun a b => db.parentJobRun b = some a) top id

/-- Every run is older than those its tasks submit. -/
def Older (db : Database) : Prop := ∀ id parent, db.parentJobRun id = some parent → parent < id

variable {db : Database}

theorem parentJobRun_eq {id parent : Nat} : db.parentJobRun id = some parent ↔
    ∃ x a, db.jobRuns.find id = some x ∧ x.parentTaskRunAttemptId = some a.id ∧
      db.taskRunAttempts.find a.id = some a ∧ a.jobRunId = parent := by
  unfold parentJobRun
  constructor
  · intro h
    obtain ⟨n, hn, hparent⟩ := Option.bind_eq_some_iff.mp h
    obtain ⟨x, hx, hxn⟩ := Option.bind_eq_some_iff.mp hn
    obtain ⟨a, ha, hrun⟩ := Option.map_eq_some_iff.mp hparent
    have hid : a.id = n := Table.key_of_find ha
    subst hid
    exact ⟨x, a, hx, hxn, ha, hrun⟩
  · rintro ⟨x, a, hx, hxa, ha, rfl⟩
    simp [hx, hxa, ha]

theorem mem_ancestors (holder : db.Older) {fuel top id : Nat} (hfuel : id ≤ fuel)
    (h : db.Below top id) : top ∈ db.ancestors fuel id := by
  induction fuel generalizing id with
  | zero =>
      obtain rfl := Nat.le_zero.mp hfuel
      cases h with
      | single hparent => exact absurd (holder _ _ hparent) (Nat.not_lt_zero _)
      | tail _ hparent => exact absurd (holder _ _ hparent) (Nat.not_lt_zero _)
  | succ fuel ih =>
      cases h with
      | single hparent =>
          simp only [ancestors, hparent]
          exact List.mem_cons_self ..
      | tail hbelow hparent =>
          simp only [ancestors, hparent]
          have hlt := holder _ _ hparent
          exact List.mem_cons_of_mem _ (ih (by omega) hbelow)

theorem isBelow_of_below (holder : db.Older) {top id : Nat} (h : db.Below top id) :
    db.isBelow top id = true :=
  List.contains_iff_mem.mpr (mem_ancestors holder (le_refl _) h)

/-- What the descendants query asks of each run. -/
theorem parentJobRun_of_select {q : SelectJobRuns} {parent : Nat} {x : JobRun}
    (hq : q.filter.parentJobRunId = some parent) (hx : x ∈ db.selectJobRuns q) :
    db.parentJobRun x.id = some parent := by
  obtain ⟨hfind, hholds⟩ := mem_selectJobRuns hx
  simp only [SelectJobRunsFilter.holds, hq, clause_some, Bool.and_eq_true, List.any_eq_true,
    decide_eq_true_eq] at hholds
  obtain ⟨a, ha, hrun, hparent⟩ := hholds.2
  exact parentJobRun_eq.mpr ⟨x, a, hfind, hparent, Table.find_of_mem ha, hrun⟩

/-- Every run the query is asked for is answered. -/
theorem select_of_parentJobRun {parent id : Nat} (h : db.parentJobRun id = some parent) :
    ∃ x ∈ db.selectJobRuns { filter := { parentJobRunId := some parent }, sort := some .id },
      x.id = id := by
  obtain ⟨x, a, hx, hxa, ha, hrun⟩ := parentJobRun_eq.mp h
  refine ⟨x, mem_selectJobRuns_all (Table.mem_of_find hx) ?_, Table.key_of_find hx⟩
  simp only [SelectJobRunsFilter.holds, clause_none, clause_some, Bool.true_and, List.any_eq_true]
  exact ⟨a, Table.mem_of_find ha, Bool.and_eq_true_iff.mpr
    ⟨decide_eq_true hrun, decide_eq_true hxa⟩⟩

theorem descendants_below {top : Nat} (fuel : Nat) (stack : List Nat) (found : List JobRun)
    (hstack : ∀ id ∈ stack, id = top ∨ db.Below top id)
    (hfound : ∀ x ∈ found, db.Below top x.id) :
    ∀ x ∈ db.descendants fuel stack found, db.Below top x.id := by
  induction fuel generalizing stack found with
  | zero => simpa [descendants] using hfound
  | succ fuel ih =>
      cases stack with
      | nil => simpa [descendants] using hfound
      | cons parent rest =>
          unfold descendants
          have hchildren : ∀ x ∈ db.selectJobRuns
              { filter := { parentJobRunId := some parent }, sort := some .id },
              db.Below top x.id := by
            intro x hx
            have hparent := parentJobRun_of_select rfl hx
            rcases hstack parent (List.mem_cons_self ..) with rfl | hbelow
            · exact .single hparent
            · exact .tail hbelow hparent
          refine ih _ _ (fun id hid => ?_) (fun x hx => ?_)
          · rcases List.mem_append.mp hid with hid | hid
            · obtain ⟨x, hx, rfl⟩ := List.mem_map.mp (List.mem_reverse.mp hid)
              exact .inr (hchildren x hx)
            · exact hstack id (List.mem_cons_of_mem _ hid)
          · rcases List.mem_append.mp hx with hx | hx
            · exact hfound x hx
            · exact hchildren x hx

/-- A delete of one run finds that run, if it is there. -/
theorem resolveDelete_id (db : Database) (top : Nat) :
    db.resolveDelete { id := some top } = [] ∨ db.resolveDelete { id := some top } = [top] := by
  have hresolve : ∀ id ∈ db.resolveDelete { id := some top }, id = top := by
    intro id hid
    obtain ⟨x, hx, rfl⟩ := List.mem_map.mp hid
    have hholds := (mem_selectJobRuns (List.mem_filter.mp hx).1).2
    simpa [SelectJobRunsFilter.holds] using hholds
  have hdistinct : (db.resolveDelete { id := some top }).Pairwise (· ≠ ·) :=
    List.pairwise_map.mpr ((db.selectJobRuns_distinct _).filter _)
  rcases hids : db.resolveDelete { id := some top } with _ | ⟨a, _ | ⟨b, rest⟩⟩
  · exact .inl rfl
  · rw [hids] at hresolve
    exact .inr (by rw [hresolve a (List.mem_singleton_self _)])
  · rw [hids] at hresolve hdistinct
    have ha := hresolve a (List.mem_cons_self ..)
    have hb := hresolve b (List.mem_cons_of_mem _ (List.mem_cons_self ..))
    exact absurd (ha.trans hb.symm) ((List.pairwise_cons.mp hdistinct).1 b (List.mem_cons_self ..))

theorem deletedBy_id (db : Database) (top : Nat) :
    db.deletedBy { id := some top } = [] ∨
      db.deletedBy { id := some top } = db.deletedWith top := by
  unfold deletedBy
  rcases db.resolveDelete_id top with hnone | hone
  · exact .inl (by rw [hnone]; rfl)
  · exact .inr (by rw [hone]; exact List.append_nil _)

theorem selectJobRunDescendants_below {top : Nat} {x : JobRun}
    (hx : x ∈ db.selectJobRunDescendants top) : db.Below top x.id :=
  descendants_below _ _ _ (fun _ hid => .inl (List.mem_singleton.mp hid))
    (fun _ hnil => absurd hnil List.not_mem_nil) x hx

/-- A delete of one run takes that run, and runs below it. -/
theorem deletedBy_below {top id : Nat} (h : id ∈ db.deletedBy { id := some top }) :
    id = top ∨ db.Below top id := by
  rcases db.deletedBy_id top with hnone | hone
  · rw [hnone] at h
    cases h
  rw [hone] at h
  rcases List.mem_append.mp h with hid | hid
  · obtain ⟨y, hy, rfl⟩ := List.mem_map.mp (List.mem_reverse.mp hid)
    exact .inr (selectJobRunDescendants_below hy)
  · exact .inl (List.mem_singleton.mp hid)

theorem not_below (holder : db.Older) {top : Nat}
    (hnone : ∀ x ∈ db.jobRuns.rows, db.isBelow top x.id = false) (id : Nat) :
    ¬ db.Below top id := by
  intro hbelow
  obtain ⟨parent, hparent⟩ : ∃ parent, db.parentJobRun id = some parent := by
    cases hbelow with
    | single hparent => exact ⟨_, hparent⟩
    | tail _ hparent => exact ⟨_, hparent⟩
  obtain ⟨x, a, hx, -⟩ := parentJobRun_eq.mp hparent
  have hkey : x.id = id := Table.key_of_find hx
  have hnot := hnone x (Table.mem_of_find hx)
  rw [hkey, isBelow_of_below holder hbelow] at hnot
  cases hnot

/-- A run nothing is below goes alone. -/
theorem deletedBy_length {top : Nat} (hnone : ∀ id, ¬ db.Below top id) :
    (db.deletedBy { id := some top }).length ≤ 1 := by
  rcases db.deletedBy_id top with hnothing | hone
  · rw [hnothing]
    exact Nat.zero_le _
  · have hempty : db.selectJobRunDescendants top = [] := by
      rw [List.eq_nil_iff_forall_not_mem]
      exact fun x hx => hnone x.id (selectJobRunDescendants_below hx)
    rw [hone, deletedWith, hempty]
    exact Nat.le_refl 1

end Flowlite.Store.Database
