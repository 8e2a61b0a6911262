import Flowlite.Logic.ServeLock

/-!
# The serve lock protocol

`ServeLock::acquire`, `write_state` and `status` of any number of processes, any of
them killed anywhere. No two servers ever hold the directory. What a probe reports
and what a refused server is told is right of some moment of the call, as long as
whoever asked for the lock met servers only, and a probe none that has yet to clear
away an earlier server's state file.
-/

namespace Flowlite.ServeState

open Store Host Host.DataDir Threads Machine

/-- The operation a process is about to perform. -/
def nextOp {dataDir : String} (c : (processes dataDir).Config) (t : Nat) : Option DataDir.Op :=
  match c.pool t with
  | some (.call o _) => some o
  | _ => none

/-- One server at a time, and answers that were so while they were worked out. -/
structure LockProtocol {dataDir : String} (c : (processes dataDir).Config) : Prop where
  oneServer : ∀ d ∈ c.state.descriptors.rows, ∀ e ∈ c.state.descriptors.rows,
    d.serves = true → e.serves = true → d = e
  up : ∀ t state, nextOp c t = some (.report (.up state)) → AtSomeMoment t (IsUp state) c.state
  down : ∀ t, nextOp c t = some (.report .down) → AtSomeMoment t IsDown c.state
  refused : ∀ t error, nextOp c t = some (.refuse error) → AtSomeMoment t (IsServed t) c.state

/-- What the outline asks of a report or of a refusal holds where one is due. -/
theorem pre_of_nextOp {dataDir : String} {c : (processes dataDir).Config}
    (hc : Reachable (meetsServers dataDir) c) {t : Nat} {o : DataDir.Op}
    (ho : nextOp c t = some o) (hasks : ∀ file, o ≠ .flock file) :
    (serveLock dataDir).pre t o c.state := by
  unfold nextOp at ho
  split at ho
  · rename_i o' k hpool
    obtain rfl := Option.some.inj ho
    have hstep : (meetsServers dataDir).step t o' c.state (c.state.outcome t {} o').1
        ((c.state.outcome t {} o').2.noted t o') := by
      cases o' with
      | flock file => exact absurd rfl (hasks file)
      | _ => trivial
    exact (serveLock_valid ⟨fun _ _ _ _ _ h => h, fun _ _ _ h => h⟩).pre hc hpool
      ⟨⟨{}, rfl⟩, hstep⟩
  · cases ho

/-- **The serve lock protocol** in every run of processes at one data directory in which
whoever asks for the lock meets servers only. -/
theorem serve_lock_protocol (dataDir : String) (c : (processes dataDir).Config)
    (hc : Reachable (meetsServers dataDir) c) : LockProtocol c where
  oneServer d hd e he hserves hserves' := by
    have horderly := (serveLock_valid ⟨fun _ _ _ _ _ h => h, fun _ _ _ h => h⟩).inv hc
    have hlocked := (Bool.and_eq_true_iff.mp hserves).2
    have hlocked' := (Bool.and_eq_true_iff.mp hserves').2
    exact horderly.exclusive d hd e he hlocked hlocked'
  up t state ho := pre_of_nextOp hc ho nofun
  down t ho := pre_of_nextOp hc ho nofun
  refused t error ho := pre_of_nextOp hc ho nofun

namespace Replay

/-- A server on one port. -/
def state : DataDir.ServeState where
  pid := 4242
  address := "127.0.0.1"
  port := 8001
  startedAt := 0
  version := "0.1.0"

abbrev Event := Machine.Event (processes "data")

/-- The next `n` operations of a process. -/
def steps (t n : Nat) : List Event := List.replicate n (.run t {})

/-- A server, up to where it serves: it has the lock and has described itself. -/
def serving (t : Nat) : List Event := .start t (.serve state) :: steps t 9

/-- A probe, through its first `n` operations. -/
def probing (t n : Nat) : List Event := .start t .status :: steps t n

def replay (cond : (processes "data").Condition) [cond.Checked] (es : List Event) :
    Option (processes "data").Config :=
  exec cond ⟨.fresh, fun _ => none⟩ es

theorem reachable_of_replay {cond : (processes "data").Condition} [cond.Checked]
    {es : List Event} {check : (processes "data").Config → Bool}
    (h : (replay cond es).any check = true) : ∃ c, Reachable cond c ∧ check c = true := by
  obtain ⟨c, hc, hcheck⟩ := (Option.any_eq_true _ _).mp h
  exact ⟨c, exec_reachable (.init rfl) hc, hcheck⟩

end Replay

open ServeState.Replay in
/-- A probe finds the server that is there. -/
theorem serve_lock_protocol_at_probe : ∃ c : (processes "data").Config,
    nextOp c 1 = some (.report (.up state)) ∧ LockProtocol c := by
  have hrun : (replay (meetsServers "data") (serving 0 ++ probing 1 4)).any (fun c =>
      decide (nextOp c 1 = some (.report (.up state)))) = true := by
    decide +kernel
  obtain ⟨c, hc, hcheck⟩ := reachable_of_replay hrun
  exact ⟨c, of_decide_eq_true hcheck, serve_lock_protocol "data" c hc⟩

open ServeState.Replay in
/-- Without the condition it fails: two probes meet, and one of them reports the server
that was killed before either of them started. -/
theorem dead_server_is_reported : ∃ c : (processes "data").Config,
    Reachable .any c ∧ nextOp c 2 = some (.report (.up state)) ∧
      (∀ m ∈ c.state.moments 2, IsDown m) ∧ ¬ LockProtocol c := by
  have hrun : (replay .any (serving 0 ++ [.env 0] ++ probing 1 2 ++ probing 2 4)).any (fun c =>
      decide (nextOp c 2 = some (.report (.up state)) ∧
        ∀ m ∈ c.state.moments 2, ∀ d ∈ m.rows, d.serves = false)) = true := by
    decide +kernel
  obtain ⟨c, hc, hcheck⟩ := reachable_of_replay hrun
  obtain ⟨hreport, hdown⟩ := of_decide_eq_true hcheck
  refine ⟨c, hc, hreport, hdown, fun h => ?_⟩
  obtain ⟨m, hm, d, hd, hserves, -⟩ := h.up 2 state hreport
  rw [hdown m hm d hd] at hserves
  cases hserves

open ServeState.Replay in
/-- It fails for a server too, which is refused because somebody asks whether there is
one. -/
theorem probe_refuses_the_only_server : ∃ c : (processes "data").Config,
    Reachable .any c ∧ (∃ error, nextOp c 2 = some (.refuse error)) ∧
      (∀ m ∈ c.state.moments 2, IsDown m) ∧ ¬ LockProtocol c := by
  have hrun : (replay .any (serving 0 ++ [.env 0] ++ probing 1 2 ++
      .start 2 (.serve state) :: steps 2 5)).any (fun c =>
      decide (nextOp c 2 = some (.refuse (alreadyServed "data" (some state))) ∧
        ∀ m ∈ c.state.moments 2, ∀ d ∈ m.rows, d.serves = false)) = true := by
    decide +kernel
  obtain ⟨c, hc, hcheck⟩ := reachable_of_replay hrun
  obtain ⟨hrefuse, hdown⟩ := of_decide_eq_true hcheck
  refine ⟨c, hc, ⟨_, hrefuse⟩, hdown, fun h => ?_⟩
  obtain ⟨m, hm, d, hd, hserves, -⟩ := h.refused 2 _ hrefuse
  rw [hdown m hm d hd] at hserves
  cases hserves

end Flowlite.ServeState
