import Flowlite.Services.ServeState
import Flowlite.Threads.Outline

/-!
# The serve lock

A descriptor of a server that has the lock *serves*. Two cannot, whatever happens.
What a probe reports, and what a refused server is told, rest on more: a probe has
the lock too for a moment, and whoever meets it then takes it for a server, and a
server that has the lock may still have the state file of an earlier one lying
there. `meetsServers` is the condition that neither is met, and `serveLock` the
outline that says that every answer was then right at some moment of the call.
-/

namespace Flowlite.ServeState

open Store Host Host.DataDir Threads Machine Outline

variable {dataDir : String} {cond : (processes dataDir).Condition}

/-- Nobody is in the way of asking for the lock: of a server, no probe that has it; of
a probe, where a state file is there, nobody has it but the server that wrote it. -/
def isClearFor (w : Directory) : OpenedBy → Bool
  | .server => w.descriptors.rows.all fun e => !e.locked || e.openedBy = .server
  | .probe => w.stateFile.isNone || w.descriptors.rows.all fun e => !e.locked || e.described.isSome

/-- Whoever asks for the lock finds nobody in the way. -/
def meetsServers (dataDir : String) : (processes dataDir).Condition where
  step _ o w _ _ :=
    match o with
    | .flock file => ∀ d ∈ w.descriptors.rows, d.id = file → isClearFor w d.openedBy = true
    | _ => True
  env _ _ _ := True

instance : (meetsServers dataDir).Checked where
  step t o w r w' := by
    dsimp only [meetsServers]
    split <;> infer_instance
  env _ _ _ := isTrue trivial

/-! ## What one operation does -/

/-- What an operation changes of the descriptors and of the state file. -/
inductive Moves (t : Nat) (o : DataDir.Op) (w w' : Directory) : Prop
  | none : w'.descriptors = w.descriptors → w'.stateFile = w.stateFile →
      w'.lockFile = w.lockFile → Moves t o w w'
  | opened {openedBy : OpenedBy} : o = .openLock openedBy →
      w'.descriptors = w.descriptors.insert (Descriptor.opened t openedBy) →
      w'.stateFile = w.stateFile → w'.lockFile = true → Moves t o w w'
  | locked {file : Nat} : o = .flock file → w.isHeldFrom file = false →
      w'.descriptors = w.descriptors.update (fun d => d.id = file) Descriptor.lock →
      w'.stateFile = w.stateFile → w'.lockFile = w.lockFile → Moves t o w w'
  | removed : o = .removeState → w'.descriptors = w.descriptors → w'.stateFile = .none →
      w'.lockFile = w.lockFile → Moves t o w w'
  | described {content : Content} : o = .renameTmp →
      w'.descriptors = w.descriptors.update (fun d => d.process = t && d.serves)
        (Descriptor.describe content) →
      w'.stateFile = some content → w'.lockFile = w.lockFile → Moves t o w w'
  | closed {file : Nat} : o = .close file →
      w'.descriptors = w.descriptors.delete (fun d => d.id = file) →
      w'.stateFile = w.stateFile → w'.lockFile = w.lockFile → Moves t o w w'

section Steps

variable {t : Nat} {o : DataDir.Op} {w w' : Directory} {r : DataDir.Result o}

theorem performs_outcome (h : Performs cond t o w r w') :
    ∃ ch w₁, w.outcome t ch o = (r, w₁) ∧ w' = w₁.noted t o := by
  obtain ⟨⟨ch, hperform⟩, -⟩ := h
  cases hperform
  exact ⟨ch, _, rfl, rfl⟩

theorem moves_performs (h : Performs cond t o w r w') : Moves t o w w' := by
  obtain ⟨ch, w₁, houtcome, rfl⟩ := performs_outcome h
  suffices Moves t o w w₁ by
    cases this with
    | none hd hs hl => exact .none hd hs hl
    | opened ho hd hs hl => exact .opened ho hd hs hl
    | locked ho hfree hd hs hl => exact .locked ho hfree hd hs hl
    | removed ho hd hs hl => exact .removed ho hd hs hl
    | described ho hd hs hl => exact .described ho hd hs hl
    | closed ho hd hs hl => exact .closed ho hd hs hl
  cases o with
  | openLock openedBy =>
      simp only [Directory.outcome] at houtcome
      split at houtcome
      · cases houtcome
        exact .none rfl rfl rfl
      · split at houtcome
        · rename_i hfile
          cases houtcome
          exact .opened rfl rfl rfl hfile
        · split at houtcome <;> cases houtcome
          · exact .opened rfl rfl rfl rfl
          · exact .none rfl rfl rfl
          · exact .none rfl rfl rfl
  | flock file =>
      simp only [Directory.outcome] at houtcome
      split at houtcome
      · cases houtcome
        exact .none rfl rfl rfl
      · split at houtcome
        · cases houtcome
          exact .none rfl rfl rfl
        · rename_i hfree
          cases houtcome
          exact .locked rfl (by simpa using hfree) rfl rfl rfl
  | removeState =>
      simp only [Directory.outcome] at houtcome
      split at houtcome <;> cases houtcome
      · exact .removed rfl rfl rfl rfl
      · exact .none rfl rfl rfl
  | renameTmp =>
      simp only [Directory.outcome] at houtcome
      split at houtcome <;> cases houtcome
      · exact .described rfl rfl rfl rfl
      · exact .none rfl rfl rfl
  | close file =>
      cases houtcome
      exact .closed rfl rfl rfl rfl
  | report _ | refuse _ =>
      cases houtcome
      exact .none rfl rfl rfl
  | readState =>
      simp only [Directory.outcome] at houtcome
      split at houtcome
      · cases houtcome
        exact .none rfl rfl rfl
      · split at houtcome <;> cases houtcome <;> exact .none rfl rfl rfl
  | createStateDir | createTmp | fillTmp _ | startUp | serveUntilShutdown =>
      simp only [Directory.outcome] at houtcome
      split at houtcome <;> cases houtcome <;> exact .none rfl rfl rfl

/-- The moment after an operation belongs to every call that is being made. -/
theorem moment_performs (h : Performs cond t o w r w') (u : Nat) :
    w'.descriptors ∈ w'.moments u := by
  obtain ⟨ch, w₁, -, rfl⟩ := performs_outcome h
  exact List.mem_cons_self ..

theorem outcome_moments (t : Nat) (ch : Choice) (w : Directory) (o : DataDir.Op) :
    (w.outcome t ch o).2.moments = w.moments := by
  cases o <;> simp only [Directory.outcome] <;> (repeat' split) <;> rfl

/-- The moments of a call stay with it until the process makes another. -/
theorem moments_performs (h : Performs cond t o w r w') {u : Nat}
    (hu : u ≠ t ∨ Directory.begins o = false) {m : Table Descriptor} (hm : m ∈ w.moments u) :
    m ∈ w'.moments u := by
  obtain ⟨ch, w₁, houtcome, rfl⟩ := performs_outcome h
  have hmoments : w₁.moments = w.moments := by
    rw [← outcome_moments t ch w o, houtcome]
  have hnot : ¬ (u = t ∧ Directory.begins o = true) := by
    rintro ⟨rfl, hbegins⟩
    rcases hu with hu | hu
    · exact hu rfl
    · rw [hu] at hbegins
      cases hbegins
  refine List.mem_cons_of_mem _ ?_
  rw [if_neg hnot, hmoments]
  exact hm

end Steps

/-! ## The outline -/

/-- What holds of the descriptors, and of the state file of a server that has described
itself. -/
structure Orderly (w : Directory) : Prop where
  exclusive : ∀ d ∈ w.descriptors.rows, ∀ e ∈ w.descriptors.rows,
    d.locked = true → e.locked = true → d = e
  created : ∀ d ∈ w.descriptors.rows, w.lockFile = true
  described : ∀ d ∈ w.descriptors.rows, ∀ state, d.described = some state →
    d.serves = true ∧ w.stateFile = some (some state)

/-- It was so at some moment of the call `t` is making. -/
def AtSomeMoment (t : Nat) (P : Table Descriptor → Prop) (w : Directory) : Prop :=
  ∃ m ∈ w.moments t, P m

/-- No server holds the directory. -/
def IsDown (m : Table Descriptor) : Prop := ∀ d ∈ m.rows, d.serves = false

/-- A server that wrote this of itself holds the directory. -/
def IsUp (state : DataDir.ServeState) (m : Table Descriptor) : Prop :=
  ∃ d ∈ m.rows, d.serves = true ∧ d.described = some state

/-- A server other than `t` holds the directory. -/
def IsServed (t : Nat) (m : Table Descriptor) : Prop :=
  ∃ d ∈ m.rows, d.serves = true ∧ d.process ≠ t

/-- What an answer says is so. -/
def Agrees : ServeStatus → Table Descriptor → Prop
  | .down => IsDown
  | .starting => fun _ => True
  | .up state => IsUp state

/-- `d` is the one descriptor its process has. -/
def Mine (d : Descriptor) (w : Directory) : Prop :=
  d ∈ w.descriptors.rows ∧ ∀ e ∈ w.descriptors.rows, e.process = d.process → e = d

/-- The directory's lock, its probes and its servers. -/
def serveLock (dataDir : String) : Outline (processes dataDir) where
  inv := Orderly
  pre t o w :=
    match o with
    | .flock file | .close file => ∃ d, Mine d w ∧ d.process = t ∧ d.id = file
    | .removeState => ∃ d, Mine d w ∧ d.process = t ∧ d.serves = true ∧ d.described = none
    | .renameTmp => ∃ d, Mine d w ∧ d.process = t ∧ d.serves = true
    | .openLock _ => ∀ d ∈ w.descriptors.rows, d.process ≠ t
    | .report status => AtSomeMoment t (Agrees status) w
    | .refuse _ => AtSomeMoment t (IsServed t) w
    | _ => True
  idle t w := ∀ d ∈ w.descriptors.rows, d.process ≠ t

theorem isHeldFrom_false {w : Directory} {file : Nat} :
    w.isHeldFrom file = false ↔
      ∀ d ∈ w.descriptors.rows, d.locked = true → d.id = file := by
  unfold Directory.isHeldFrom
  rw [List.any_eq_false]
  constructor
  · intro h d hd hlocked
    have := h d hd
    rw [hlocked] at this
    simpa using this
  · intro h d hd
    by_cases hlocked : d.locked = true
    · simp [h d hd hlocked]
    · simp [hlocked]

theorem orderly_step {t : Nat} {o : DataDir.Op} {w w' : Directory} {r : DataDir.Result o}
    (hi : Orderly w) (hpre : (serveLock dataDir).pre t o w) (h : Performs cond t o w r w') :
    Orderly w' := by
  cases moves_performs h with
  | none hd hs hl =>
      refine ⟨?_, ?_, ?_⟩
      · rw [hd]; exact hi.exclusive
      · rw [hd, hl]; exact hi.created
      · rw [hd, hs]; exact hi.described
  | opened ho hd hs hl =>
      refine ⟨?_, fun _ _ => hl, ?_⟩
      · intro d hmem e hmem' hlocked hlocked'
        rw [hd] at hmem hmem'
        rcases Table.mem_insert.mp hmem with hmem | rfl
        · rcases Table.mem_insert.mp hmem' with hmem' | rfl
          · exact hi.exclusive d hmem e hmem' hlocked hlocked'
          · cases hlocked'
        · cases hlocked
      · intro d hmem state hdescribed
        rw [hd] at hmem
        rw [hs]
        rcases Table.mem_insert.mp hmem with hmem | rfl
        · exact hi.described d hmem state hdescribed
        · cases hdescribed
  | @locked file ho hfree hd hs hl =>
      have hfree := isHeldFrom_false.mp hfree
      refine ⟨?_, ?_, ?_⟩
      · intro d hmem e hmem' hlocked hlocked'
        rw [hd] at hmem hmem'
        obtain ⟨a, ha, rfl⟩ := Table.mem_update.mp hmem
        obtain ⟨b, hb, rfl⟩ := Table.mem_update.mp hmem'
        -- only the descriptor that took the lock can have it
        have haid : a.id = file := by
          by_contra hne
          simp only [hne, decide_false, Bool.false_eq_true, if_false] at hlocked
          exact hne (hfree a ha hlocked)
        have hbid : b.id = file := by
          by_contra hne
          simp only [hne, decide_false, Bool.false_eq_true, if_false] at hlocked'
          exact hne (hfree b hb hlocked')
        rw [w.descriptors.eq_of_key ha hb (haid.trans hbid.symm)]
      · intro d hmem
        rw [hd] at hmem
        rw [hl]
        obtain ⟨a, ha, rfl⟩ := Table.mem_update.mp hmem
        exact hi.created a ha
      · intro d hmem state hdescribed
        rw [hd] at hmem
        rw [hs]
        obtain ⟨a, ha, rfl⟩ := Table.mem_update.mp hmem
        split at hdescribed
        · obtain ⟨hserves, hfile⟩ := hi.described a ha state hdescribed
          rename_i hid
          refine ⟨?_, hfile⟩
          rw [if_pos hid]
          have hserver := (Bool.and_eq_true_iff.mp hserves).1
          exact Bool.and_eq_true_iff.mpr ⟨hserver, rfl⟩
        · rename_i hid
          rw [if_neg hid]
          exact hi.described a ha state hdescribed
  | removed ho hd hs hl =>
      subst ho
      obtain ⟨d, ⟨hmine, -⟩, -, hserves, hnone⟩ := hpre
      refine ⟨?_, ?_, ?_⟩
      · rw [hd]; exact hi.exclusive
      · rw [hd, hl]; exact hi.created
      · intro e hmem state hdescribed
        rw [hd] at hmem
        -- the one server there is has yet to describe itself
        have hlocked := (Bool.and_eq_true_iff.mp (hi.described e hmem state hdescribed).1).2
        have heq := hi.exclusive d hmine e hmem (Bool.and_eq_true_iff.mp hserves).2 hlocked
        rw [← heq, hnone] at hdescribed
        cases hdescribed
  | @described content ho hd hs hl =>
      subst ho
      obtain ⟨d, ⟨hmine, -⟩, hprocess, hserves⟩ := hpre
      have hsame : ∀ a : Descriptor,
          (if decide (a.process = t) && a.serves then (Descriptor.describe content).apply a
            else a).locked = a.locked := by
        intro a
        split <;> rfl
      refine ⟨?_, ?_, ?_⟩
      · intro a hmem b hmem' hlocked hlocked'
        rw [hd] at hmem hmem'
        obtain ⟨a, ha, rfl⟩ := Table.mem_update.mp hmem
        obtain ⟨b, hb, rfl⟩ := Table.mem_update.mp hmem'
        rw [hsame] at hlocked hlocked'
        rw [hi.exclusive a ha b hb hlocked hlocked']
      · intro a hmem
        rw [hd] at hmem
        rw [hl]
        obtain ⟨a, ha, rfl⟩ := Table.mem_update.mp hmem
        exact hi.created a ha
      · intro a hmem state hdescribed
        rw [hd] at hmem
        rw [hs]
        obtain ⟨a, ha, rfl⟩ := Table.mem_update.mp hmem
        split at hdescribed
        · rename_i hid
          rw [if_pos hid]
          have hcontent : content = some state := hdescribed
          exact ⟨(Bool.and_eq_true_iff.mp hid).2, by rw [hcontent]⟩
        · rename_i hid
          -- it would have to be the server that wrote the file
          have hlocked := (Bool.and_eq_true_iff.mp (hi.described a ha state hdescribed).1).2
          have heq := hi.exclusive d hmine a ha (Bool.and_eq_true_iff.mp hserves).2 hlocked
          subst heq
          exact absurd (by simp [hprocess, hserves]) hid
  | closed ho hd hs hl =>
      refine ⟨?_, ?_, ?_⟩
      · intro d hmem e hmem'
        rw [hd] at hmem hmem'
        exact hi.exclusive d (Table.mem_delete.mp hmem).1 e (Table.mem_delete.mp hmem').1
      · intro d hmem
        rw [hd] at hmem
        rw [hl]
        exact hi.created d (Table.mem_delete.mp hmem).1
      · intro d hmem state hdescribed
        rw [hd] at hmem
        rw [hs]
        exact hi.described d (Table.mem_delete.mp hmem).1 state hdescribed

theorem orderly_kill {w : Directory} (hi : Orderly w) (process : Nat) :
    Orderly (w.kill process).1 where
  exclusive d hd e he := hi.exclusive d (Table.mem_delete.mp hd).1 e (Table.mem_delete.mp he).1
  created d hd := hi.created d (Table.mem_delete.mp hd).1
  described d hd := hi.described d (Table.mem_delete.mp hd).1

/-! ## What the other processes leave alone -/

/-- A process has its descriptors to itself. -/
theorem rows_others {t : Nat} {w w' : Directory} (h : (serveLock dataDir).Others cond t w w')
    {d : Descriptor} (hd : d.process = t) :
    d ∈ w'.descriptors.rows ↔ d ∈ w.descriptors.rows := by
  cases h with
  | env hkill hi hi' he =>
      obtain ⟨process, he, -⟩ := he
      cases he
      have hne : d.process ≠ process := by
        rw [hd]
        simpa using hkill
      rw [Table.mem_delete]
      exact ⟨fun h => h.1, fun h => ⟨h, by simpa using hne⟩⟩
  | @run u o r hu hi hi' hpre hperf =>
      -- whatever another process changes has that process in it
      have hother : ∀ a : Descriptor, a ∈ w.descriptors.rows → (∃ e, Mine e w ∧ e.process = u ∧
          e.id = a.id) → a.process = u := by
        rintro a ha ⟨e, ⟨he, -⟩, hprocess, hid⟩
        rw [← w.descriptors.eq_of_key he ha hid]
        exact hprocess
      cases moves_performs hperf with
      | none hrows _ _ => rw [hrows]
      | removed _ hrows _ _ => rw [hrows]
      | opened _ hrows _ _ =>
          rw [hrows, Table.mem_insert]
          refine ⟨fun h => h.resolve_right ?_, .inl⟩
          rintro rfl
          exact hu hd
      | @locked file ho _ hrows _ _ =>
          subst ho
          obtain ⟨e, hmine, hprocess, hid⟩ := hpre
          rw [hrows, Table.mem_update]
          constructor
          · rintro ⟨a, ha, rfl⟩
            by_cases hfile : decide (a.id = file) = true
            · rw [if_pos hfile] at hd
              have hid := hid.trans (of_decide_eq_true hfile).symm
              exact absurd ((hother a ha ⟨e, hmine, hprocess, hid⟩).symm.trans hd) hu
            · rw [if_neg hfile]
              exact ha
          · intro h
            refine ⟨d, h, if_neg fun hfile => hu ?_⟩
            have hfile := of_decide_eq_true hfile
            exact (hother d h ⟨e, hmine, hprocess, hid.trans hfile.symm⟩).symm.trans hd
      | closed ho hrows _ _ =>
          subst ho
          obtain ⟨e, hmine, hprocess, hid⟩ := hpre
          rw [hrows, Table.mem_delete]
          refine ⟨fun h => h.1, fun h => ⟨h, decide_eq_false fun hfile => hu ?_⟩⟩
          exact (hother d h ⟨e, hmine, hprocess, hid.trans hfile.symm⟩).symm.trans hd
      | described _ hrows _ _ =>
          rw [hrows, Table.mem_update]
          constructor
          · rintro ⟨a, ha, rfl⟩
            by_cases hmine : (decide (a.process = u) && a.serves) = true
            · rw [if_pos hmine] at hd
              have hprocess := of_decide_eq_true (Bool.and_eq_true_iff.mp hmine).1
              exact absurd (hprocess.symm.trans hd) hu
            · rw [if_neg hmine]
              exact ha
          · intro h
            refine ⟨d, h, if_neg fun hmine => hu ?_⟩
            exact (of_decide_eq_true (Bool.and_eq_true_iff.mp hmine).1).symm.trans hd

theorem idle_stable (t : Nat) : (serveLock dataDir).Stable cond t ((serveLock dataDir).idle t) :=
  fun _ _ h hidle d hd hprocess => hidle d ((rows_others h hprocess).mp hd) hprocess

theorem mine_stable {t : Nat} {d : Descriptor} (hd : d.process = t) :
    (serveLock dataDir).Stable cond t (Mine d) :=
  fun _ _ h hmine => ⟨(rows_others h hd).mpr hmine.1, fun e he hprocess =>
    hmine.2 e ((rows_others h (hprocess.trans hd)).mp he) hprocess⟩

theorem atSomeMoment_performs {t : Nat} {o : DataDir.Op} {w w' : Directory}
    {r : DataDir.Result o} {P : Table Descriptor → Prop} (h : Performs cond t o w r w') {u : Nat}
    (hu : u ≠ t ∨ Directory.begins o = false) (hP : AtSomeMoment u P w) : AtSomeMoment u P w' := by
  obtain ⟨m, hm, hP⟩ := hP
  exact ⟨m, moments_performs h hu hm, hP⟩

theorem atSomeMoment_now {t : Nat} {o : DataDir.Op} {w w' : Directory}
    {r : DataDir.Result o} {P : Table Descriptor → Prop} (h : Performs cond t o w r w') {u : Nat}
    (hP : P w'.descriptors) : AtSomeMoment u P w' :=
  ⟨w'.descriptors, moment_performs h u, hP⟩

theorem atSomeMoment_stable (t : Nat) (P : Table Descriptor → Prop) :
    (serveLock dataDir).Stable cond t (AtSomeMoment t P) := by
  intro w w' h hP
  cases h with
  | run hu _ _ _ hperf => exact atSomeMoment_performs hperf (.inl fun heq => hu heq.symm) hP
  | env _ _ _ he =>
      obtain ⟨process, he, -⟩ := he
      cases he
      obtain ⟨m, hm, hP⟩ := hP
      exact ⟨m, List.mem_cons_of_mem _ hm, hP⟩

/-- Whatever state the file there is now describes was up at some moment of the call. -/
def Vouched (t : Nat) (w : Directory) : Prop :=
  ∀ state, w.stateFile = some (some state) → AtSomeMoment t (IsUp state) w

theorem vouched_stable (t : Nat) : (serveLock dataDir).Stable cond t (Vouched t) := by
  intro w w' h hvouched state hfile
  have hkept : w.stateFile = some (some state) → AtSomeMoment t (IsUp state) w' := fun hold =>
    atSomeMoment_stable t (IsUp state) w w' h (hvouched state hold)
  cases h with
  | env _ _ _ he =>
      obtain ⟨process, he, -⟩ := he
      cases he
      exact hkept hfile
  | run hu _ _ hpre hperf =>
      cases moves_performs hperf with
      | none _ hs _ => exact hkept (hs.symm.trans hfile)
      | opened _ _ hs _ => exact hkept (hs.symm.trans hfile)
      | locked _ _ _ hs _ => exact hkept (hs.symm.trans hfile)
      | closed _ _ hs _ => exact hkept (hs.symm.trans hfile)
      | removed _ _ hs _ =>
          rw [hs] at hfile
          cases hfile
      | described ho hrows hs _ =>
          subst ho
          obtain ⟨d, ⟨hmine, -⟩, hprocess, hserves⟩ := hpre
          rw [hs] at hfile
          obtain rfl := Option.some.inj hfile
          -- the server that wrote it has the directory as it does
          refine atSomeMoment_now hperf ⟨(Descriptor.describe (some state)).apply d, ?_, hserves, rfl⟩
          rw [hrows]
          refine Table.mem_update.mpr ⟨d, hmine, if_pos ?_⟩
          simp [hprocess, hserves]

/-! ## Triples -/

section Triples

variable {t : Nat}

/-- The operations that may come at any time, and keep what is known of a process. -/
def Plain : DataDir.Op → Prop
  | .createStateDir | .readState | .createTmp | .fillTmp _ | .startUp | .serveUntilShutdown => True
  | _ => False

theorem plain_rows {o : DataDir.Op} {w w' : Directory} {r : DataDir.Result o} (ho : Plain o)
    (h : Performs cond t o w r w') :
    w'.descriptors = w.descriptors ∧ w'.stateFile = w.stateFile := by
  cases moves_performs h with
  | none hrows hs _ => exact ⟨hrows, hs⟩
  | opened heq | locked heq | removed heq | described heq | closed heq =>
      subst heq
      exact ho.elim

/-- A program of such operations keeps what is said of the descriptors. -/
theorem plain_triple {α : Type} {p : Code α} (hp : p.Uses Plain) {d : Descriptor}
    (hd : d.process = t) :
    (serveLock dataDir).Triple cond t (Mine d) p fun _ => Mine d := by
  refine Triple.of_uses (mine_stable hd) (hp.mono fun o ho w r w' _ hmine hperf => ⟨?_, ?_⟩)
  · cases o <;> first | exact ho.elim | trivial
  · intro _
    unfold Mine
    rw [(plain_rows ho hperf).1]
    exact hmine

theorem close_triple {d : Descriptor} (hd : d.process = t) :
    (serveLock dataDir).Triple cond t (Mine d) (perform (.close d.id))
      fun _ => (serveLock dataDir).idle t := by
  refine Triple.perform (mine_stable hd) ?_ ?_
  · intro w r w' _ hmine _
    exact ⟨d, hmine, hd, rfl⟩
  · intro w r w' _ hmine hperf _ e he hprocess
    obtain ⟨ch, w₁, houtcome, rfl⟩ := performs_outcome hperf
    cases houtcome
    obtain ⟨he, hne⟩ := Table.mem_delete.mp he
    rw [hmine.2 e he (hprocess.trans hd.symm)] at hne
    simp at hne

theorem bail_triple {α : Type} {d : Descriptor} (hd : d.process = t) (error : Err)
    {Q : α → Directory → Prop} :
    (serveLock dataDir).Triple cond t (Mine d) (bail d.id error (α := α)) fun r w => match r with
      | .ok a => Q a w
      | .error _ => (serveLock dataDir).idle t w :=
  (close_triple hd).bind (fun _ => Triple.throw fun _ _ h => h) fun _ _ _ h => h

/-- A process with no descriptor gets one, unless there is no lock file to open. -/
theorem open_triple (openedBy : OpenedBy) :
    (serveLock dataDir).Triple cond t ((serveLock dataDir).idle t)
      (perform (.openLock openedBy)) fun r w => match r with
      | .ok (some file) => Mine ((Descriptor.opened t openedBy).row file) w
      | .ok none => (serveLock dataDir).idle t w ∧ (openedBy = .probe → AtSomeMoment t IsDown w)
      | .error _ => (serveLock dataDir).idle t w := by
  refine Triple.perform (idle_stable t) (fun w r w' _ hidle _ => hidle) ?_
  intro w r w' hi hidle hperf hi'
  have hmoment : ∀ {P : Table Descriptor → Prop}, P w'.descriptors → AtSomeMoment t P w' :=
    fun hP => atSomeMoment_now hperf hP
  have hmine : w'.descriptors = w.descriptors.insert (Descriptor.opened t openedBy) →
      Mine ((Descriptor.opened t openedBy).row w.descriptors.next) w' := by
    intro hrows
    unfold Mine
    rw [hrows]
    refine ⟨Table.mem_insert.mpr (.inr rfl), fun e he hprocess => ?_⟩
    rcases Table.mem_insert.mp he with hold | rfl
    · exact absurd hprocess (hidle e hold)
    · rfl
  obtain ⟨ch, w₁, houtcome, rfl⟩ := performs_outcome hperf
  simp only [Directory.outcome] at houtcome
  split at houtcome
  · cases houtcome
    exact hidle
  · split at houtcome
    · cases houtcome
      exact hmine rfl
    · rename_i hfile
      split at houtcome <;> cases houtcome
      · exact hmine rfl
      · exact hidle
      · refine ⟨hidle, fun _ => hmoment fun d hd => ?_⟩
        -- nobody opens a lock file that is not there
        exact absurd (hi.created d hd) hfile

/-- A process asks for the lock, and has it afterwards, or knows who was in the way. -/
theorem takeLock_triple (hcond : cond.Le (meetsServers dataDir)) {d : Descriptor}
    (hd : d.process = t) :
    (serveLock dataDir).Triple cond t (Mine d) (takeLock d.id) fun r w => match r with
      | .ok true => Mine { d with locked := true } w ∧
          (d.openedBy = .probe → AtSomeMoment t IsDown w)
      | .ok false => Mine d w ∧ (d.openedBy = .server → AtSomeMoment t (IsServed t) w) ∧
          (d.openedBy = .probe → Vouched t w)
      | .error _ => Mine d w := by
  refine Triple.perform (mine_stable hd) (fun w r w' _ hmine _ => ⟨d, hmine, hd, rfl⟩) ?_
  intro w r w' hi hmine hperf hi'
  have hmoment : ∀ {P : Table Descriptor → Prop}, P w'.descriptors → AtSomeMoment t P w' :=
    fun hP => atSomeMoment_now hperf hP
  have hclear : isClearFor w d.openedBy = true :=
    hcond.1 _ _ _ _ _ hperf.2 d hmine.1 rfl
  obtain ⟨ch, w₁, houtcome, rfl⟩ := performs_outcome hperf
  simp only [Directory.outcome] at houtcome
  split at houtcome
  · cases houtcome
    exact hmine
  · split at houtcome
    · rename_i hheld
      cases houtcome
      obtain ⟨e, he, hboth⟩ := List.any_eq_true.mp hheld
      obtain ⟨hlocked, hne⟩ := Bool.and_eq_true_iff.mp hboth
      refine ⟨hmine, fun hserver => ?_, fun hprobe => ?_⟩
      · rw [hserver] at hclear
        have hserves := List.all_eq_true.mp hclear e he
        rw [hlocked] at hserves
        refine hmoment ⟨e, he, ?_, fun hprocess => ?_⟩
        · unfold Descriptor.serves
          rw [hlocked, Bool.and_true]
          simpa using hserves
        · rw [hmine.2 e he (hprocess.trans hd.symm)] at hne
          simp at hne
      · intro state hfile
        rw [hprobe] at hclear
        have hfile : w.stateFile = some (some state) := hfile
        simp only [isClearFor, hfile, Option.isNone_some, Bool.false_or] at hclear
        have hdescribed := List.all_eq_true.mp hclear e he
        rw [hlocked] at hdescribed
        obtain ⟨state', hstate'⟩ := Option.isSome_iff_exists.mp hdescribed
        obtain ⟨hserves, hfile'⟩ := hi.described e he state' hstate'
        rw [hfile'] at hfile
        cases hfile
        exact hmoment ⟨e, he, hserves, hstate'⟩
    · rename_i hfree
      cases houtcome
      have hfree := isHeldFrom_false.mp (by simpa using hfree)
      have happly : ∀ a ∈ w.descriptors.rows, a.process = d.process →
          (if decide (a.id = d.id) then Descriptor.lock.apply a else a) =
            { d with locked := true } := by
        intro a ha hprocess
        rw [hmine.2 a ha hprocess, if_pos (decide_eq_true rfl)]
        rfl
      refine ⟨⟨Table.mem_update.mpr ⟨d, hmine.1, happly d hmine.1 rfl⟩, ?_⟩, fun hprobe => ?_⟩
      · intro e he hprocess
        obtain ⟨a, ha, rfl⟩ := Table.mem_update.mp he
        refine happly a ha ?_
        rw [← show _ = d.process from hprocess]
        split <;> rfl
      · refine hmoment fun e he => ?_
        obtain ⟨a, ha, rfl⟩ := Table.mem_update.mp he
        by_cases hid : a.id = d.id
        · rw [if_pos (decide_eq_true hid), w.descriptors.eq_of_key ha hmine.1 hid]
          simp [Descriptor.serves, Descriptor.lock, hprobe]
        · rw [if_neg (by simpa using hid)]
          have hlocked : a.locked = false := by
            by_contra hlocked
            exact hid (hfree a ha (by simpa using hlocked))
          simp [Descriptor.serves, hlocked]

/-- What a probe that was not given the lock reads is something to answer with. -/
theorem readState_triple {d : Descriptor} (hd : d.process = t) :
    (serveLock dataDir).Triple cond t (fun w => Mine d w ∧ Vouched t w) readState
      fun r w => Mine d w ∧ match r with
        | .ok (some state) => AtSomeMoment t (IsUp state) w
        | .ok none => AtSomeMoment t (fun _ => True) w
        | .error _ => True := by
  refine Triple.perform ((mine_stable hd).and (vouched_stable t)) (fun _ _ _ _ _ _ => trivial) ?_
  rintro w r w' hi ⟨hmine, hvouched⟩ hperf hi'
  have hkept : Mine d w' := by
    unfold Mine
    rw [(plain_rows (o := .readState) trivial hperf).1]
    exact hmine
  refine ⟨hkept, ?_⟩
  have hmoment := atSomeMoment_now (u := t) (P := fun _ => True) hperf trivial
  have hremembered : ∀ {P}, AtSomeMoment t P w → AtSomeMoment t P w' :=
    fun hP => atSomeMoment_performs hperf (.inr rfl) hP
  obtain ⟨ch, w₁, houtcome, rfl⟩ := performs_outcome hperf
  simp only [Directory.outcome] at houtcome
  split at houtcome
  · cases houtcome
    trivial
  · split at houtcome
    · cases houtcome
      exact hmoment
    · rename_i content hfile
      cases houtcome
      cases content with
      | none => exact hmoment
      | some state => exact hremembered (hvouched state hfile)

/-- Dropping the descriptor leaves what was so at some moment. -/
theorem close_remembers {d : Descriptor} (hd : d.process = t) (P : Table Descriptor → Prop) :
    (serveLock dataDir).Triple cond t (fun w => Mine d w ∧ AtSomeMoment t P w)
      (perform (.close d.id))
      fun _ w => (serveLock dataDir).idle t w ∧ AtSomeMoment t P w := by
  refine (close_triple hd).frame (atSomeMoment_stable t P) ((Prog.uses_perform _).mpr ?_)
  intro w r w' _ _ _ hperf hP
  exact atSomeMoment_performs hperf (.inr rfl) hP

/-- The server of a lock. -/
def Server (t lock : Nat) (w : Directory) : Prop :=
  ∃ d, Mine d w ∧ d.process = t ∧ d.id = lock ∧ d.serves = true

theorem server_stable (t lock : Nat) : (serveLock dataDir).Stable cond t (Server t lock) :=
  fun w w' h ⟨d, hmine, hd, hrest⟩ => ⟨d, mine_stable hd w w' h hmine, hd, hrest⟩

theorem acquire_triple (hcond : cond.Le (meetsServers dataDir)) (dir : String) :
    (serveLock dataDir).Triple cond t ((serveLock dataDir).idle t) (acquire dir)
      fun r w => match r with
      | .ok lock => Server t lock w
      | .error _ => (serveLock dataDir).idle t w := by
  have hcreate : (serveLock dataDir).Triple cond t ((serveLock dataDir).idle t)
      (perform .createStateDir) fun _ => (serveLock dataDir).idle t := by
    refine Triple.perform (idle_stable t) (fun _ _ _ _ _ _ => trivial) ?_
    intro w r w' _ hidle hperf _
    show ∀ d ∈ w'.descriptors.rows, d.process ≠ t
    rw [(plain_rows (o := .createStateDir) trivial hperf).1]
    exact hidle
  refine hcreate.bind (fun _ => (open_triple .server).bind ?_ fun _ _ _ h => h) fun _ _ _ h => h
  rintro (_ | file)
  · exact Triple.throw fun _ _ h => h.1
  · refine (takeLock_triple hcond rfl).attempt_bind ?_
    rintro (error | taken)
    · exact (bail_triple (Q := fun lock w => Server t lock w) rfl error).post
        fun r _ _ h => by cases r <;> exact h
    · cases taken with
      | true =>
          have hremove : (serveLock dataDir).Triple cond t
              (Mine { (Descriptor.opened t .server).row file with locked := true })
              (perform .removeState)
              fun _ => Mine { (Descriptor.opened t .server).row file with locked := true } := by
            refine Triple.perform (mine_stable rfl)
              (fun w r w' _ hmine _ => ⟨_, hmine, rfl, rfl, rfl⟩) ?_
            intro w r w' _ hmine hperf _
            have hrows : w'.descriptors = w.descriptors := by
              cases moves_performs hperf with
              | none hrows _ _ => exact hrows
              | removed _ hrows _ _ => exact hrows
              | opened heq | locked heq | described heq | closed heq => cases heq
            unfold Mine
            rw [hrows]
            exact hmine
          refine (hremove.pre fun _ _ h => h.1).attempt_bind fun _ => Triple.ret fun w _ hmine => ?_
          exact ⟨_, hmine, rfl, rfl, rfl⟩
      | false =>
          -- what is in the state file only decides how the refusal is worded
          have hplain : (serveLock dataDir).Triple cond t
              (Mine ((Descriptor.opened t .server).row file)) readState
              fun _ => Mine ((Descriptor.opened t .server).row file) :=
            plain_triple (p := readState) ((Prog.uses_perform _).mpr trivial) rfl
          have hread := hplain.frame (atSomeMoment_stable t (IsServed t))
            ((Prog.uses_perform _).mpr fun w r w' _ _ _ hperf hP => atSomeMoment_performs hperf (.inr rfl) hP)
          refine (hread.pre fun _ _ h => ⟨h.1, h.2.1 rfl⟩).attempt_bind ?_
          rintro (error | holder)
          · exact (bail_triple (d := (Descriptor.opened t .server).row file)
              (Q := fun lock w => Server t lock w) rfl error).conseq
              (fun _ _ h => h.1) fun r _ _ h => by cases r <;> exact h
          · refine (close_remembers rfl (IsServed t)).bind (fun _ => ?_) fun _ _ _ h => h.1
            have hrefuse : (serveLock dataDir).Triple cond t
                (fun w => (serveLock dataDir).idle t w ∧ AtSomeMoment t (IsServed t) w)
                (perform (.refuse (alreadyServed dir holder)))
                fun _ => (serveLock dataDir).idle t := by
              refine Triple.perform ((idle_stable t).and (atSomeMoment_stable t _))
                (fun _ _ _ _ h _ => h.2) ?_
              intro w r w' _ h hperf _
              show ∀ d ∈ w'.descriptors.rows, d.process ≠ t
              cases moves_performs hperf with
              | none hrows _ _ =>
                  rw [hrows]
                  exact h.1
              | opened heq | locked heq | removed heq | described heq | closed heq => cases heq
            exact hrefuse.bind (fun _ => Triple.throw fun _ _ h => h) fun _ _ _ h => h

theorem status_triple (hcond : cond.Le (meetsServers dataDir)) :
    (serveLock dataDir).Triple cond t ((serveLock dataDir).idle t) status fun r w =>
      (serveLock dataDir).idle t w ∧ match r with
        | .ok answer => AtSomeMoment t (Agrees answer) w
        | .error _ => True := by
  refine (open_triple .probe).bind ?_ fun _ _ _ h => ⟨h, trivial⟩
  rintro (_ | file)
  · exact Triple.ret fun _ _ h => ⟨h.1, h.2 rfl⟩
  · have hbail : ∀ (d : Descriptor) (error : Err), d.process = t →
        (serveLock dataDir).Triple cond t (Mine d) (bail d.id error (α := ServeStatus))
          fun r w => (serveLock dataDir).idle t w ∧ match r with
            | .ok answer => AtSomeMoment t (Agrees answer) w
            | .error _ => True := fun d error hd =>
      (bail_triple (Q := fun _ _ => False) hd error).post fun r _ _ h => by
        cases r with
        | ok _ => exact h.elim
        | error _ => exact ⟨h, trivial⟩
    refine (takeLock_triple hcond rfl).attempt_bind ?_
    rintro (error | taken)
    · exact hbail _ error rfl
    · cases taken with
      | true =>
          refine ((close_remembers (d := { (Descriptor.opened t .probe).row file with
            locked := true }) rfl IsDown).pre fun _ _ h => ⟨h.1, h.2 rfl⟩).bind (fun _ => ?_)
            fun _ _ _ h => ⟨h.1, trivial⟩
          exact Triple.ret fun _ _ h => h
      | false =>
          refine ((readState_triple rfl).pre fun _ _ h => ⟨h.1, h.2.2 rfl⟩).attempt_bind ?_
          rintro (error | state)
          · exact (hbail ((Descriptor.opened t .probe).row file) error rfl).pre fun _ _ h => h.1
          · cases state with
            | none =>
                refine (close_remembers rfl fun _ => True).bind (fun _ => ?_)
                  fun _ _ _ h => ⟨h.1, trivial⟩
                exact Triple.ret fun _ _ h => h
            | some state =>
                refine (close_remembers rfl (IsUp state)).bind (fun _ => ?_)
                  fun _ _ _ h => ⟨h.1, trivial⟩
                exact Triple.ret fun _ _ h => h

theorem statusCmd_triple (hcond : cond.Le (meetsServers dataDir)) :
    (serveLock dataDir).Triple cond t ((serveLock dataDir).idle t) statusCmd
      fun _ => (serveLock dataDir).idle t := by
  refine (status_triple hcond).bind (fun answer => ?_) fun _ _ _ h => h.1
  refine Triple.perform ((idle_stable t).and (atSomeMoment_stable t _)) (fun _ _ _ _ h _ => h.2) ?_
  intro w r w' _ h hperf _
  show ∀ d ∈ w'.descriptors.rows, d.process ≠ t
  cases moves_performs hperf with
  | none hrows _ _ =>
      rw [hrows]
      exact h.1
  | opened heq | locked heq | removed heq | described heq | closed heq => cases heq

/-- A server describes itself, and does not give its lock away. -/
theorem serving_triple (lock : Nat) (state : DataDir.ServeState) :
    (serveLock dataDir).Triple cond t (Server t lock) (do
      perform .startUp
      writeState state
      perform .serveUntilShutdown : Code Unit) fun _ => Server t lock := by
  have huses : (do
      perform .startUp
      writeState state
      perform .serveUntilShutdown : Code Unit).Uses
        fun o : DataDir.Op => Plain o ∨ o = .renameTmp := by
    have hplain : ∀ o : DataDir.Op, Plain o →
        (perform o).Uses fun o : DataDir.Op => Plain o ∨ o = .renameTmp :=
      fun o ho => (Prog.uses_perform (S := lockOps) o).mpr (Or.inl ho)
    refine (hplain .startUp trivial).bind fun _ => Prog.Uses.bind ?_ fun _ =>
      hplain .serveUntilShutdown trivial
    exact (hplain .createStateDir trivial).bind fun _ => (hplain .createTmp trivial).bind fun _ =>
      (hplain (.fillTmp state) trivial).bind fun _ => (Prog.uses_perform _).mpr (.inr rfl)
  refine Triple.of_uses (server_stable t lock) (huses.mono ?_)
  rintro o ho w r w' _ ⟨d, hmine, hd, hlock, hserves⟩ hperf
  rcases ho with ho | rfl
  · refine ⟨?_, fun _ => ⟨d, ?_, hd, hlock, hserves⟩⟩
    · cases o <;> first | exact ho.elim | trivial
    · unfold Mine
      rw [(plain_rows ho hperf).1]
      exact hmine
  · refine ⟨⟨d, hmine, hd, hserves⟩, fun _ => ?_⟩
    cases moves_performs hperf with
    | none hrows _ _ =>
        refine ⟨d, ?_, hd, hlock, hserves⟩
        unfold Mine
        rw [hrows]
        exact hmine
    | @described content _ hrows _ _ =>
        refine ⟨(Descriptor.describe content).apply d, ⟨?_, ?_⟩, hd, hlock, hserves⟩
        · rw [hrows]
          refine Table.mem_update.mpr ⟨d, hmine.1, if_pos ?_⟩
          simp [hd, hserves]
        · intro e he hprocess
          rw [hrows] at he
          obtain ⟨a, ha, rfl⟩ := Table.mem_update.mp he
          have hprocess : a.process = d.process := by
            rw [← show _ = d.process from hprocess]
            split <;> rfl
          rw [hmine.2 a ha hprocess, if_pos (by simp [hd, hserves])]
    | opened heq | locked heq | removed heq | closed heq => cases heq

theorem serve_triple (hcond : cond.Le (meetsServers dataDir)) (dir : String)
    (state : DataDir.ServeState) :
    (serveLock dataDir).Triple cond t ((serveLock dataDir).idle t) (serve dir state)
      fun _ => (serveLock dataDir).idle t := by
  refine (acquire_triple hcond dir).bind (fun lock => ?_) fun _ _ _ h => h
  refine (serving_triple lock state).attempt_bind fun result => ?_
  refine Triple.bind (R := fun _ => (serveLock dataDir).idle t) ?_ (fun _ => ?_) fun _ _ _ h => h
  · refine Triple.of_exists fun d => Triple.of_fact (fun _ _ h => h.2) ?_
    rintro ⟨hd, rfl, -⟩
    exact (close_triple hd).pre fun _ _ h => h.1
  · cases result with
    | ok a => exact Triple.ret fun _ _ h => h
    | error e => exact Triple.throw fun _ _ h => h

end Triples

/-- Every answer was right at some moment of the call, as long as whoever asks for the
lock meets servers only. -/
theorem serveLock_valid (hcond : cond.Le (meetsServers dataDir)) :
    (serveLock dataDir).Valid cond where
  init w hw := by
    have hrows : w.descriptors.rows = [] := by rw [show w = Directory.fresh from hw]; rfl
    refine ⟨⟨?_, ?_, ?_⟩, fun t => ?_⟩ <;>
      intro d hd <;> rw [hrows] at hd <;> exact absurd hd List.not_mem_nil
  step t o w r w' hi hpre h := orderly_step hi hpre h
  env w w' kill hi h := by
    obtain ⟨process, he, -⟩ := h
    cases he
    refine ⟨orderly_kill hi process, fun t ht d hd hprocess => ?_⟩
    have hgone := (Table.mem_delete.mp hd).2
    rw [hprocess, of_decide_eq_true ht] at hgone
    simp at hgone
  idle t := idle_stable t
  start t a p := by
    refine Triple.of_fact (F := some (a.code dataDir) = some p) (fun _ _ h => h.2) fun hstart => ?_
    cases hstart
    cases a with
    | serve state => exact (serve_triple hcond dataDir state).pre fun _ _ h => h.1
    | status => exact (statusCmd_triple hcond).pre fun _ _ h => h.1

end Flowlite.ServeState
