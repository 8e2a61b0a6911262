import Flowlite.Graph.Forest
import Flowlite.Logic.Descendants

/-!
# Deleting runs with their children

The runs are a forest, so the descendants of one are found each once and after the run that
submitted it. A run whose children are gone can go without leaving a reference behind
(`deleteJobRunRows_sound`): everything that references one of its rows is a row of its own
or a child. `Sound` is what is needed for it, and what a delete keeps.
-/

namespace Flowlite.Store

/-- The runs a delete filter is about. -/
def DeleteJobRunsFilter.holds (f : DeleteJobRunsFilter) (r : JobRun) : Bool :=
  clause f.jobId (fun v => r.jobId = v) &&
  clause f.status (fun v => r.status = v) &&
  clause f.id (fun v => r.id = v) &&
  clause f.scheduleId (fun v => r.scheduleId = some v) &&
  clause f.scheduledAtGt (fun after => r.scheduledAt > after)

namespace Database

open Flowlite.Graph Relation

variable {db : Database}

/-! ## The descendants of a run -/

/-- The runs a run's tasks submitted. -/
def childrenOf (db : Database) (parent : Nat) : List Nat :=
  (db.selectJobRuns { filter := { parentJobRunId := some parent }, sort := some .id }).map (·.id)

theorem mem_childrenOf {parent id : Nat} :
    id ∈ db.childrenOf parent ↔ db.parentJobRun id = some parent := by
  constructor
  · intro h
    obtain ⟨x, hx, rfl⟩ := List.mem_map.mp h
    exact parentJobRun_of_select rfl hx
  · intro h
    obtain ⟨x, hx, rfl⟩ := select_of_parentJobRun h
    exact List.mem_map_of_mem hx

theorem below_iff {top id : Nat} :
    db.Below top id ↔ TransGen (fun u c => c ∈ db.childrenOf u) top id := by
  unfold Below
  rw [show (fun a b => db.parentJobRun b = some a) = fun u c => c ∈ db.childrenOf u from
    funext fun a => funext fun b => propext mem_childrenOf.symm]

theorem lt_of_below (holder : db.Older) {top id : Nat} (h : db.Below top id) : top < id := by
  induction h with
  | single hparent => exact holder _ _ hparent
  | tail _ hparent ih => exact ih.trans (holder _ _ hparent)

theorem forest_childrenOf (holder : db.Older) : Forest db.childrenOf where
  once parent := List.pairwise_map.mpr (db.selectJobRuns_distinct _)
  oneParent u v c hu hv := by
    rw [mem_childrenOf] at hu hv
    exact Option.some.inj (hu.symm.trans hv)
  acyclic a h := lt_irrefl a (lt_of_below holder (below_iff.mpr h))

theorem map_descendants (fuel : Nat) (stack : List Nat) (found : List JobRun) :
    (db.descendants fuel stack found).map (·.id) =
      searchBelow db.childrenOf fuel stack (found.map (·.id)) := by
  induction fuel generalizing stack found with
  | zero => rfl
  | succ fuel ih =>
      cases stack with
      | nil => rfl
      | cons parent stack =>
          rw [descendants, ih, List.map_append]
          rfl

theorem childrenOf_subset (parent : Nat) :
    db.childrenOf parent ⊆ db.jobRuns.rows.map (·.id) := by
  intro id hid
  obtain ⟨x, hx, rfl⟩ := List.mem_map.mp hid
  exact List.mem_map_of_mem (Table.mem_of_find (mem_selectJobRuns hx).1)

/-- **The search for descendants** finds them, and goes on finding them with more fuel. -/
theorem descendants_spec (holder : db.Older) (top : Nat) :
    FoundBelow db.childrenOf top ((db.selectJobRunDescendants top).map (·.id)) ∧
      ∀ fuel, db.jobRuns.rows.length < fuel →
        (db.descendants fuel [top] []).map (·.id) =
          (db.selectJobRunDescendants top).map (·.id) := by
  obtain ⟨all, hall, hsame⟩ := searchBelow_spec (forest_childrenOf holder) childrenOf_subset top
  rw [List.length_map] at hsame
  have hmap : (db.selectJobRunDescendants top).map (·.id) = all := by
    rw [selectJobRunDescendants, map_descendants]
    exact hsame _ (Nat.lt_succ_self _)
  rw [hmap]
  exact ⟨hall, fun fuel hfuel => by rw [map_descendants]; exact hsame fuel hfuel⟩

theorem mem_deletedWith (holder : db.Older) {top id : Nat} :
    id ∈ db.deletedWith top ↔ id = top ∨ db.Below top id := by
  have hfound := (descendants_spec holder top).1.mem_iff id
  rw [← below_iff] at hfound
  rw [deletedWith, List.mem_append, List.mem_reverse, hfound, List.mem_singleton, or_comm]

theorem nodup_deletedWith (holder : db.Older) (top : Nat) : (db.deletedWith top).Nodup := by
  have hfound := (descendants_spec holder top).1
  refine List.Nodup.append (List.nodup_reverse.mpr hfound.once) (List.nodup_singleton top) ?_
  rw [List.disjoint_singleton, List.mem_reverse, hfound.mem_iff, ← below_iff]
  exact fun h => lt_irrefl top (lt_of_below holder h)

/-! ## What is left when rows are deleted -/

/-- No row references one that is not there. -/
structure References (db : Database) : Prop where
  jobRun : ∀ r ∈ db.jobRuns.rows, ∀ a ∈ r.parentTaskRunAttemptId,
    (db.taskRunAttempts.find a).isSome = true
  taskRun : ∀ r ∈ db.taskRuns.rows, (db.jobRuns.find r.jobRunId).isSome = true
  attempt : ∀ r ∈ db.taskRunAttempts.rows, (db.taskRuns.find r.taskRunId).isSome = true ∧
    (db.jobRuns.find r.jobRunId).isSome = true
  stop : ∀ r ∈ db.jobRunStops.rows, (db.jobRuns.find r.jobRunId).isSome = true
  output : ∀ r ∈ db.taskRunAttemptOutputs.rows,
    (db.taskRunAttempts.find r.taskRunAttemptId).isSome = true ∧
      (db.taskRuns.find r.taskRunId).isSome = true ∧
        (db.jobRuns.find r.jobRunId).isSome = true
  notification : ∀ r ∈ db.jobRunNotifications.rows, (db.jobRuns.find r.jobRunId).isSome = true

theorem referencesHold_iff : db.referencesHold = true ↔ db.References := by
  unfold referencesHold hasJobRun hasTaskRun hasTaskRunAttempt
  simp only [Bool.and_eq_true, List.all_eq_true]
  have hparent : ∀ r : JobRun,
      r.parentTaskRunAttemptId.all (fun a => (db.taskRunAttempts.find a).isSome) = true ↔
        ∀ a ∈ r.parentTaskRunAttemptId, (db.taskRunAttempts.find a).isSome = true := by
    intro r
    cases r.parentTaskRunAttemptId <;> simp
  constructor
  · rintro ⟨⟨⟨⟨⟨hrun, htask⟩, hattempt⟩, hstop⟩, houtput⟩, hnotification⟩
    exact ⟨fun r hr => (hparent r).mp (hrun r hr), htask, hattempt, hstop,
      fun r hr => ⟨(houtput r hr).1.1, (houtput r hr).1.2, (houtput r hr).2⟩, hnotification⟩
  · rintro ⟨hrun, htask, hattempt, hstop, houtput, hnotification⟩
    exact ⟨⟨⟨⟨⟨fun r hr => (hparent r).mpr (hrun r hr), htask⟩, hattempt⟩, hstop⟩,
      fun r hr => ⟨⟨(houtput r hr).1, (houtput r hr).2.1⟩, (houtput r hr).2.2⟩⟩, hnotification⟩

/-- Whatever a row references is filed under the same job run as the row. -/
structure Filed (db : Database) : Prop where
  attempt : ∀ r ∈ db.taskRunAttempts.rows, ∀ x,
    db.taskRuns.find r.taskRunId = some x → x.jobRunId = r.jobRunId
  output : ∀ r ∈ db.taskRunAttemptOutputs.rows,
    (∀ a, db.taskRunAttempts.find r.taskRunAttemptId = some a → a.jobRunId = r.jobRunId) ∧
      ∀ x, db.taskRuns.find r.taskRunId = some x → x.jobRunId = r.jobRunId

/-- The tables as the services keep them. -/
structure Sound (db : Database) : Prop where
  references : db.References
  filed : db.Filed
  older : db.Older

theorem isSome_find_delete {α : Type} [Keyed α] {t : Table α} {p : α → Bool} {n : Nat}
    (h : (t.find n).isSome = true) (hkept : ∀ r, t.find n = some r → p r = false) :
    ((t.delete p).find n).isSome = true := by
  obtain ⟨r, hr⟩ := Option.isSome_iff_exists.mp h
  rw [Table.find_delete, hr, Option.filter, hkept r hr]
  rfl

theorem find_of_delete {α : Type} [Keyed α] {t : Table α} {p : α → Bool} {n : Nat} {r : α}
    (h : (t.delete p).find n = some r) : t.find n = some r ∧ p r = false := by
  rw [Table.find_delete] at h
  obtain ⟨hfind, hp⟩ := Option.filter_eq_some_iff.mp h
  exact ⟨hfind, by simpa using hp⟩

/-- **One run's rows can go** once none of its children is left: each of the six statements
leaves every reference in place. -/
theorem deleteJobRunRows_sound (h : db.Sound) {id : Nat}
    (hchildless : ∀ c, db.parentJobRun c ≠ some id) :
    db.deleteJobRunRows id = some (db.deleteRows [id]) := by
  obtain ⟨hrefs, hfiled, -⟩ := h
  have hother : ∀ {n : Nat}, decide (n = id) = false → n ≠ id := fun hn => of_decide_eq_false hn
  -- the outputs, which nothing references
  let db₁ : Database := { db with
    taskRunAttemptOutputs := db.taskRunAttemptOutputs.delete fun r => r.jobRunId = id }
  have h₁ : db₁.References :=
    { jobRun := hrefs.jobRun, taskRun := hrefs.taskRun, attempt := hrefs.attempt
      stop := hrefs.stop, notification := hrefs.notification
      output := fun r hr => hrefs.output r (Table.mem_delete.mp hr).1 }
  -- the attempts, which an output of the same run or a child references
  let db₂ : Database := { db₁ with
    taskRunAttempts := db₁.taskRunAttempts.delete fun r => r.jobRunId = id }
  have h₂ : db₂.References :=
    { taskRun := h₁.taskRun, stop := h₁.stop, notification := h₁.notification
      attempt := fun r hr => h₁.attempt r (Table.mem_delete.mp hr).1
      jobRun := by
        intro r hr a ha
        refine isSome_find_delete (h₁.jobRun r hr a ha) fun x hx => decide_eq_false fun hid => ?_
        have hkey : x.id = a := Table.key_of_find hx
        exact hchildless r.id (parentJobRun_eq.mpr
          ⟨r, x, Table.find_of_mem hr, by rw [hkey]; exact ha, Table.find_of_mem
            (Table.mem_of_find hx), hid⟩)
      output := by
        intro r hr
        obtain ⟨hattempt, hrest⟩ := h₁.output r hr
        refine ⟨isSome_find_delete hattempt fun x hx => decide_eq_false fun hid => ?_, hrest⟩
        obtain ⟨hr, hne⟩ := Table.mem_delete.mp hr
        exact hother hne (((hfiled.output r hr).1 x hx).symm.trans hid) }
  -- the task runs, which an attempt or an output of the same run references
  let db₃ : Database := { db₂ with taskRuns := db₂.taskRuns.delete fun r => r.jobRunId = id }
  have h₃ : db₃.References :=
    { jobRun := h₂.jobRun, stop := h₂.stop, notification := h₂.notification
      taskRun := fun r hr => h₂.taskRun r (Table.mem_delete.mp hr).1
      attempt := by
        intro r hr
        obtain ⟨htask, hrun⟩ := h₂.attempt r hr
        refine ⟨isSome_find_delete htask fun x hx => decide_eq_false fun hid => ?_, hrun⟩
        obtain ⟨hr, hne⟩ := Table.mem_delete.mp hr
        exact hother hne ((hfiled.attempt r hr x hx).symm.trans hid)
      output := by
        intro r hr
        obtain ⟨hattempt, htask, hrun⟩ := h₂.output r hr
        refine ⟨hattempt, isSome_find_delete htask fun x hx => decide_eq_false fun hid => ?_, hrun⟩
        obtain ⟨hr, hne⟩ := Table.mem_delete.mp hr
        exact hother hne (((hfiled.output r hr).2 x hx).symm.trans hid) }
  -- the stops and the notifications, which nothing references
  let db₄ : Database := { db₃ with
    jobRunStops := db₃.jobRunStops.delete fun r => r.jobRunId = id }
  have h₄ : db₄.References :=
    { jobRun := h₃.jobRun, taskRun := h₃.taskRun, attempt := h₃.attempt, output := h₃.output
      notification := h₃.notification
      stop := fun r hr => h₃.stop r (Table.mem_delete.mp hr).1 }
  let db₅ : Database := { db₄ with
    jobRunNotifications := db₄.jobRunNotifications.delete fun r => r.jobRunId = id }
  have h₅ : db₅.References :=
    { jobRun := h₄.jobRun, taskRun := h₄.taskRun, attempt := h₄.attempt, output := h₄.output
      stop := h₄.stop
      notification := fun r hr => h₄.notification r (Table.mem_delete.mp hr).1 }
  -- and the run, which only rows of its own reference
  have hkept : ∀ {n : Nat}, (db.jobRuns.find n).isSome = true → n ≠ id →
      ((db.jobRuns.delete fun r => r.id = id).find n).isSome = true := by
    intro n hsome hne
    refine isSome_find_delete hsome fun x hx => decide_eq_false fun hid => ?_
    exact hne ((Table.key_of_find hx).symm.trans hid)
  let db₆ : Database := { db₅ with jobRuns := db₅.jobRuns.delete fun r => r.id = id }
  have h₆ : db₆.References :=
    { jobRun := fun r hr => h₅.jobRun r (Table.mem_delete.mp hr).1
      taskRun := fun r hr => hkept (h₅.taskRun r hr) (hother (Table.mem_delete.mp hr).2)
      attempt := fun r hr => ⟨(h₅.attempt r hr).1,
        hkept (h₅.attempt r hr).2 (hother (Table.mem_delete.mp hr).2)⟩
      stop := fun r hr => hkept (h₅.stop r hr) (hother (Table.mem_delete.mp hr).2)
      output := fun r hr => ⟨(h₅.output r hr).1, (h₅.output r hr).2.1,
        hkept (h₅.output r hr).2.2 (hother (Table.mem_delete.mp hr).2)⟩
      notification := fun r hr =>
        hkept (h₅.notification r hr) (hother (Table.mem_delete.mp hr).2) }
  have hpass : ∀ {d : Database}, d.References → d.checked = some d := fun hd =>
    checked_eq_some.mpr ⟨rfl, referencesHold_iff.mpr hd⟩
  have hrun : db.deleteJobRunRows id = some db₆ := by
    unfold deleteJobRunRows
    simp only [Option.bind_eq_bind, Option.bind_eq_some_iff]
    exact ⟨db₁, hpass h₁, db₂, hpass h₂, db₃, hpass h₃, db₄, hpass h₄, db₅, hpass h₅, hpass h₆⟩
  rw [hrun, (deleteJobRunRows_eq hrun).1]

/-! ## Deleting one run after the other -/

theorem parentJobRun_deleteRows {ids : List Nat} {id parent : Nat} :
    (db.deleteRows ids).parentJobRun id = some parent ↔
      db.parentJobRun id = some parent ∧ id ∉ ids ∧ parent ∉ ids := by
  constructor
  · intro h
    obtain ⟨x, a, hx, hxa, ha, hrun⟩ := parentJobRun_eq.mp h
    obtain ⟨hx, hxkept⟩ := find_of_delete hx
    obtain ⟨ha, hakept⟩ := find_of_delete ha
    have hkey : x.id = id := Table.key_of_find hx
    rw [hkey] at hxkept
    rw [hrun] at hakept
    exact ⟨parentJobRun_eq.mpr ⟨x, a, hx, hxa, ha, hrun⟩, by simpa using hxkept,
      by simpa using hakept⟩
  · rintro ⟨h, hid, hparent⟩
    obtain ⟨x, a, hx, hxa, ha, hrun⟩ := parentJobRun_eq.mp h
    have hkey : x.id = id := Table.key_of_find hx
    refine parentJobRun_eq.mpr ⟨x, a, ?_, hxa, ?_, hrun⟩
    · rw [deleteRows, Table.find_delete, hx]
      simp [Option.filter, hkey, hid]
    · rw [deleteRows, Table.find_delete, ha]
      simp [Option.filter, hrun, hparent]

theorem Older.deleteRows (h : db.Older) (ids : List Nat) : (db.deleteRows ids).Older :=
  fun id parent hparent => h id parent (parentJobRun_deleteRows.mp hparent).1

theorem Filed.deleteRows (h : db.Filed) (ids : List Nat) : (db.deleteRows ids).Filed where
  attempt r hr x hx := h.attempt r (Table.mem_delete.mp hr).1 x (find_of_delete hx).1
  output r hr := ⟨fun a ha => (h.output r (Table.mem_delete.mp hr).1).1 a (find_of_delete ha).1,
    fun x hx => (h.output r (Table.mem_delete.mp hr).1).2 x (find_of_delete hx).1⟩

/-- Runs that are deleted each after its children leave nothing behind. -/
theorem foldlM_deleteJobRunRows {ids : List Nat} (h : db.Sound)
    (hfirst : ∀ before id rest, ids = before ++ id :: rest →
      ∀ c, db.parentJobRun c = some id → c ∈ before) :
    ids.foldlM deleteJobRunRows db = some (db.deleteRows ids) ∧ (db.deleteRows ids).Sound := by
  induction ids generalizing db with
  | nil =>
      rw [deleteRows_nil]
      exact ⟨rfl, h⟩
  | cons id ids ih =>
      have hchildless : ∀ c, db.parentJobRun c ≠ some id := fun c hc =>
        List.not_mem_nil (hfirst [] id ids rfl c hc)
      have hone := deleteJobRunRows_sound h hchildless
      have hsound : (db.deleteRows [id]).Sound :=
        ⟨referencesHold_iff.mp (deleteJobRunRows_eq hone).2, h.filed.deleteRows _,
          h.older.deleteRows _⟩
      have hrest := ih hsound fun before a rest heq c hc => by
        obtain ⟨hc, hkept, -⟩ := parentJobRun_deleteRows.mp hc
        have hmem := hfirst (id :: before) a rest (by rw [heq]; rfl) c hc
        exact (List.mem_cons.mp hmem).resolve_left fun heq => hkept (by simp [heq])
      rw [deleteRows_append] at hrest
      refine ⟨?_, hrest.2⟩
      rw [List.foldlM_cons, hone]
      exact hrest.1

theorem deletedWith_sound (h : db.Sound) (top : Nat) :
    (db.deletedWith top).foldlM deleteJobRunRows db =
        some (db.deleteRows (db.deletedWith top)) ∧
      (db.deleteRows (db.deletedWith top)).Sound := by
  refine foldlM_deleteJobRunRows h fun before id rest heq c hc => ?_
  exact (descendants_spec h.older top).1.children_first (forest_childrenOf h.older) heq
    (mem_childrenOf.mpr hc)

/-- **The transaction** goes through, and deletes the rows of the runs it answers. -/
theorem deleteJobRunsWithChildren_sound (h : db.Sound) (ids : List Nat) :
    db.deleteJobRunsWithChildren ids =
        some (db.deletedFrom ids, db.deleteRows (db.deletedFrom ids)) ∧
      (db.deleteRows (db.deletedFrom ids)).Sound := by
  induction ids generalizing db with
  | nil =>
      rw [deletedFrom, deleteRows_nil]
      exact ⟨rfl, h⟩
  | cons id ids ih =>
      obtain ⟨hgone, hsound⟩ := deletedWith_sound h id
      obtain ⟨hrest, hlast⟩ := ih hsound
      rw [deleteRows_append] at hrest hlast
      refine ⟨?_, hlast⟩
      unfold deleteJobRunsWithChildren
      dsimp only
      rw [hgone, Option.bind_eq_bind, Option.bind_some, hrest]
      rfl

/-! ## Which runs go, and how often they are answered -/

/-- Below a run of a database that has lost runs with all that is below them. -/
theorem below_deleteRows {gone : List Nat} {top id : Nat}
    (hclosed : ∀ a b, a ∈ gone → db.parentJobRun b = some a → b ∈ gone) :
    (db.deleteRows gone).Below top id ↔ db.Below top id ∧ id ∉ gone := by
  constructor
  · intro h
    induction h with
    | single hparent =>
        obtain ⟨hparent, hid, -⟩ := parentJobRun_deleteRows.mp hparent
        exact ⟨.single hparent, hid⟩
    | tail _ hparent ih =>
        obtain ⟨hparent, hid, -⟩ := parentJobRun_deleteRows.mp hparent
        exact ⟨.tail ih.1 hparent, hid⟩
  · rintro ⟨h, hid⟩
    induction h with
    | single hparent =>
        exact .single (parentJobRun_deleteRows.mpr
          ⟨hparent, hid, fun hmem => hid (hclosed _ _ hmem hparent)⟩)
    | tail _ hparent ih =>
        have hnot := fun hmem => hid (hclosed _ _ hmem hparent)
        exact .tail (ih hnot) (parentJobRun_deleteRows.mpr ⟨hparent, hid, hnot⟩)

theorem closed_deletedWith (holder : db.Older) (top : Nat) {a b : Nat}
    (ha : a ∈ db.deletedWith top) (hparent : db.parentJobRun b = some a) :
    b ∈ db.deletedWith top := by
  rw [mem_deletedWith holder] at ha ⊢
  rcases ha with rfl | ha
  · exact .inr (.single hparent)
  · exact .inr (.tail ha hparent)

theorem mem_deletedFrom (holder : db.Older) {ids : List Nat} {id : Nat} :
    id ∈ db.deletedFrom ids ↔ id ∈ ids ∨ ∃ top ∈ ids, db.Below top id := by
  induction ids generalizing db with
  | nil => simp [deletedFrom]
  | cons first ids ih =>
      have hbelow : ∀ top, (db.deleteRows (db.deletedWith first)).Below top id ↔
          db.Below top id ∧ id ∉ db.deletedWith first := fun top =>
        below_deleteRows fun a b => closed_deletedWith holder first
      rw [deletedFrom, List.mem_append, ih (holder.deleteRows _)]
      simp only [hbelow, mem_deletedWith holder, List.mem_cons, exists_eq_or_imp]
      constructor
      · rintro ((h | h) | h | ⟨top, htop, h, -⟩)
        · exact .inl (.inl h)
        · exact .inr (.inl h)
        · exact .inl (.inr h)
        · exact .inr (.inr ⟨top, htop, h⟩)
      · rintro ((h | h) | h | ⟨top, htop, h⟩)
        · exact .inl (.inl h)
        · exact .inr (.inl h)
        · exact .inl (.inr h)
        · by_cases hgone : id = first ∨ db.Below first id
          · exact .inl hgone
          · exact .inr (.inr ⟨top, htop, h, hgone⟩)

/-- A run is answered twice exactly if it was matched beside a run above it. -/
theorem nodup_deletedFrom (holder : db.Older) {ids : List Nat} (hids : ids.Pairwise (· < ·)) :
    (db.deletedFrom ids).Nodup ↔ ∀ top ∈ ids, ∀ id ∈ ids, ¬ db.Below top id := by
  induction ids generalizing db with
  | nil => simp [deletedFrom]
  | cons first ids ih =>
      obtain ⟨hlt, hids⟩ := List.pairwise_cons.mp hids
      have hbelow : ∀ top id, (db.deleteRows (db.deletedWith first)).Below top id ↔
          db.Below top id ∧ id ∉ db.deletedWith first := fun top id =>
        below_deleteRows fun a b => closed_deletedWith holder first
      rw [deletedFrom, List.nodup_append, ih (holder.deleteRows _) hids]
      constructor
      · intro hnodup top htop id hid h
        obtain ⟨-, hrest, hapart⟩ := hnodup
        -- the matched runs that come later are not below the first
        have hfirst : ∀ a, a ∈ ids → a ∉ db.deletedWith first := fun a ha hmem =>
          hapart a hmem a ((mem_deletedFrom (holder.deleteRows _)).mpr (.inl ha)) rfl
        rcases List.mem_cons.mp hid with heq | hlater
        · rw [heq] at h
          rcases List.mem_cons.mp htop with htop | htop
          · rw [htop] at h
            exact lt_irrefl first (lt_of_below holder h)
          · exact absurd (lt_of_below holder h) (lt_asymm (hlt top htop))
        · rcases List.mem_cons.mp htop with htop | htop
          · exact hfirst id hlater ((mem_deletedWith holder).mpr (.inr (htop ▸ h)))
          · exact hrest top htop id hlater ((hbelow top id).mpr ⟨h, hfirst id hlater⟩)
      · intro hnone
        refine ⟨nodup_deletedWith holder first, fun top htop id hid h => ?_,
          fun a ha b hb heq => ?_⟩
        · exact hnone top (List.mem_cons_of_mem _ htop) id (List.mem_cons_of_mem _ hid)
            ((hbelow top id).mp h).1
        · subst heq
          rcases (mem_deletedFrom (holder.deleteRows _)).mp hb with hb | ⟨top, -, h⟩
          · rcases (mem_deletedWith holder).mp ha with hfirst | ha
            · exact lt_irrefl _ (hfirst ▸ hlt a hb)
            · exact hnone first List.mem_cons_self a (List.mem_cons_of_mem _ hb) ha
          · exact ((hbelow top a).mp h).2 ha

theorem mem_resolveDelete {filter : DeleteJobRunsFilter} {id : Nat} :
    id ∈ db.resolveDelete filter ↔ ∃ x ∈ db.jobRuns.rows, filter.holds x = true ∧ x.id = id := by
  unfold resolveDelete
  simp only [List.mem_map, List.mem_filter]
  constructor
  · rintro ⟨x, ⟨hx, hafter⟩, rfl⟩
    obtain ⟨hfind, hholds⟩ := mem_selectJobRuns hx
    refine ⟨x, Table.mem_of_find hfind, ?_, rfl⟩
    simp only [SelectJobRunsFilter.holds, clause_none, Bool.and_true] at hholds
    simp only [DeleteJobRunsFilter.holds, hholds, hafter, Bool.and_true]
  · rintro ⟨x, hx, hholds, rfl⟩
    obtain ⟨hholds, hafter⟩ := Bool.and_eq_true_iff.mp hholds
    refine ⟨x, ⟨mem_selectJobRuns_all hx ?_, hafter⟩, rfl⟩
    simpa only [SelectJobRunsFilter.holds, clause_none, Bool.and_true] using hholds

theorem resolveDelete_ordered (db : Database) (filter : DeleteJobRunsFilter) :
    (db.resolveDelete filter).Pairwise (· < ·) := by
  unfold resolveDelete
  refine List.pairwise_map.mpr (List.Pairwise.filter _ ?_)
  refine List.Pairwise.sublist (window_sublist _ _ _) ?_
  exact db.jobRuns.ordered.filter _

end Database

end Flowlite.Store
