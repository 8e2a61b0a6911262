import Flowlite.Logic.Markup

/-!
# Fences that breaking them leaves

`fenceSafe` writes five characters for each three backticks, with a backtick at either
end. In a run of backticks that is three times some number and two more, the last one
written and the two left over make a fence again; no other run leaves one.

* `fencing`: the rewrite a stream goes through, escaped first and then its fences broken;
* `occursAt_fencing_iff` says where the fences of the result are, by the runs of backticks
  in the stream.
-/

namespace Flowlite.Slack

open Text

def tick : Char := '\x60'

theorem fence_eq : fence = [tick, tick, tick] := rfl

theorem fence_ne_nil : fence ≠ [] := List.cons_ne_nil _ _

theorem not_mem_fence {c : Char} (hc : c ≠ tick) : c ∉ fence := by
  rw [fence_eq]
  simp [hc]

/-- The broken fence begins and ends with a backtick. -/
theorem fenceSafe_fence (s : List Char) :
    fenceSafe (tick :: tick :: tick :: s) =
      [tick] ++ ' ' :: ([tick] ++ ' ' :: (tick :: fenceSafe s)) :=
  replaceAll_match fence_ne_nil _ s

/-! ## The rewrites of this program -/

theorem entity_ne_nil (c : Char) : entity c ≠ [] := by
  unfold entity
  split_ifs <;> exact List.cons_ne_nil _ _

/-- What a character other than a backtick is written as has none in it. -/
theorem tick_not_mem_entity {c : Char} (hc : c ≠ tick) : ∀ d ∈ entity c, d ∉ fence := by
  intro d hd
  apply not_mem_fence
  rintro rfl
  unfold entity at hd
  split_ifs at hd
  · exact absurd hd (by decide)
  · exact absurd hd (by decide)
  · exact absurd hd (by decide)
  · exact hc (List.mem_singleton.mp hd).symm

def escaping : Quoting where
  quote := escape
  plain s hs := by
    rw [escape_of_plain hs]
    exact hs
  special s c t _ := by
    rw [escape_append, escape_cons, List.append_assoc]

theorem fenceSafe_escape_append {c : Char} (hc : c ≠ tick) (s t : List Char) :
    fenceSafe (escape (s ++ c :: t)) =
      fenceSafe (escape s) ++ entity c ++ fenceSafe (escape t) := by
  rw [escape_append, escape_cons, ← List.append_assoc]
  exact replaceAll_separators fence_ne_nil (entity_ne_nil c) (tick_not_mem_entity hc) _ _ _

def fencing : Quoting where
  quote s := fenceSafe (escape s)
  plain s hs := by
    intro c hc
    rw [escape_of_plain hs] at hc
    rcases mem_of_mem_replaceFrom hc with hc | hc
    · exact hs c hc
    · have hbroken : Plain "` ` `".toList := by decide
      exact hbroken c hc
  special s c t hc := by
    apply fenceSafe_escape_append
    rintro rfl
    exact absurd hc (by decide)

/-! ## A run of backticks -/

theorem not_occursAt_short {s : List Char} (hs : s.length < 3) (i : Nat) :
    ¬ OccursAt fence s i :=
  not_occursAt_of_length_lt hs i

theorem occursAt_fence_iff (i : Nat) : OccursAt fence fence i ↔ i = 0 := by
  constructor
  · intro h
    have hle : i + 3 ≤ 3 := h.le fence_ne_nil
    omega
  · rintro rfl
    exact List.prefix_refl fence

theorem space_not_mem_fence : ' ' ∉ fence := not_mem_fence (by decide)

/-- With one more backtick before it, what is left over of a run makes a fence if it is
two. -/
theorem occursAt_tick_run (m i : Nat) :
    OccursAt fence (tick :: fenceSafe (List.replicate m tick)) i ↔
      m % 3 = 2 ∧ i = 5 * (m / 3) := by
  induction m using Nat.strong_induction_on generalizing i with
  | _ m ih =>
      rcases Nat.lt_or_ge m 3 with hm | hm
      · have hkept : fenceSafe (List.replicate m tick) = List.replicate m tick := by
          apply replaceAll_of_length_lt
          rw [List.length_replicate]
          exact hm
        rw [hkept, ← List.replicate_succ]
        rcases Nat.lt_or_ge m 2 with hm' | hm'
        · have hshort : ¬ OccursAt fence (List.replicate (m + 1) tick) i := by
            apply not_occursAt_short
            rw [List.length_replicate]
            omega
          constructor
          · intro h
            exact absurd h hshort
          · intro h
            omega
        · obtain rfl : m = 2 := by omega
          show OccursAt fence fence i ↔ 2 % 3 = 2 ∧ i = 5 * (2 / 3)
          rw [occursAt_fence_iff]
          omega
      · obtain ⟨n, rfl⟩ : ∃ n, m = n + 3 := ⟨m - 3, by omega⟩
        have htwo : ¬ OccursAt fence [tick, tick] i := not_occursAt_short (by decide) i
        have hone : ¬ OccursAt fence [tick] (i - 3) := not_occursAt_short (by decide) _
        show OccursAt fence (tick :: fenceSafe (tick :: tick :: tick :: List.replicate n tick)) i ↔ _
        rw [fenceSafe_fence]
        show OccursAt fence ([tick, tick] ++ ' ' :: ([tick] ++ ' ' :: _)) i ↔ _
        rw [occursAt_separator fence_ne_nil space_not_mem_fence,
          occursAt_separator fence_ne_nil space_not_mem_fence, ih n (by omega)]
        show _ ∨ 3 ≤ i ∧ (_ ∨ 2 ≤ i - 3 ∧ n % 3 = 2 ∧ i - 3 - 2 = 5 * (n / 3)) ↔ _
        constructor
        · rintro (h | ⟨hi, h | h⟩)
          · exact absurd h htwo
          · exact absurd h hone
          · omega
        · intro h
          exact Or.inr ⟨by omega, Or.inr ⟨by omega, by omega, by omega⟩⟩

/-- In a run of its own the fence ends where the run does. -/
theorem occursAt_run (m i : Nat) :
    OccursAt fence (fenceSafe (List.replicate m tick)) i ↔
      3 ≤ m ∧ m % 3 = 2 ∧ i + 1 = 5 * (m / 3) := by
  rcases Nat.lt_or_ge m 3 with hm | hm
  · have hkept : fenceSafe (List.replicate m tick) = List.replicate m tick := by
      apply replaceAll_of_length_lt
      rw [List.length_replicate]
      exact hm
    have hshort : ¬ OccursAt fence (List.replicate m tick) i := by
      apply not_occursAt_short
      rw [List.length_replicate]
      exact hm
    rw [hkept]
    constructor
    · intro h
      exact absurd h hshort
    · intro h
      omega
  · obtain ⟨n, rfl⟩ : ∃ n, m = n + 3 := ⟨m - 3, by omega⟩
    have hone : ∀ j, ¬ OccursAt fence [tick] j := fun j => not_occursAt_short (by decide) j
    show OccursAt fence (fenceSafe (tick :: tick :: tick :: List.replicate n tick)) i ↔ _
    rw [fenceSafe_fence, occursAt_separator fence_ne_nil space_not_mem_fence,
      occursAt_separator fence_ne_nil space_not_mem_fence, occursAt_tick_run]
    show _ ∨ 2 ≤ i ∧ (_ ∨ 2 ≤ i - 2 ∧ n % 3 = 2 ∧ i - 2 - 2 = 5 * (n / 3)) ↔ _
    constructor
    · rintro (h | ⟨hi, h | h⟩)
      · exact absurd h (hone i)
      · exact absurd h (hone _)
      · omega
    · intro h
      exact Or.inr ⟨by omega, Or.inr ⟨by omega, by omega, by omega⟩⟩

/-! ## The runs of a text -/

/-- `m` backticks stand between `before` and `after`, and no more than these. -/
structure IsRun (text before : List Char) (m : Nat) (after : List Char) : Prop where
  eq : text = before ++ List.replicate m tick ++ after
  left : before.getLast? ≠ some tick
  right : after.head? ≠ some tick

/-- The same backticks before something else are equally many. -/
theorem replicate_append_inj {m n : Nat} {s t : List Char} (hs : s.head? ≠ some tick)
    (ht : t.head? ≠ some tick)
    (h : List.replicate m tick ++ s = List.replicate n tick ++ t) : m = n ∧ s = t := by
  induction m generalizing n with
  | zero =>
      cases n with
      | zero => exact ⟨rfl, h⟩
      | succ n =>
          have hhead : s = tick :: (List.replicate n tick ++ t) := h
          exact absurd (congrArg List.head? hhead) hs
  | succ m ih =>
      cases n with
      | zero =>
          have hhead : t = tick :: (List.replicate m tick ++ s) := h.symm
          exact absurd (congrArg List.head? hhead) ht
      | succ n =>
          obtain ⟨hmn, hst⟩ := ih (List.cons.inj h).2
          exact ⟨congrArg Nat.succ hmn, hst⟩

/-- The backticks a text starts with are a run. -/
theorem isRun_first {n : Nat} {s : List Char} (hs : s.head? ≠ some tick) :
    IsRun (List.replicate n tick ++ s) [] n s :=
  ⟨rfl, by simp, hs⟩

theorem IsRun.behind {t before after : List Char} {m n : Nat} {c : Char} (hc : c ≠ tick)
    (h : IsRun t before m after) :
    IsRun (List.replicate n tick ++ c :: t) (List.replicate n tick ++ c :: before) m after := by
  refine ⟨?_, ?_, h.right⟩
  · rw [h.eq]
    simp
  · have hleft := h.left
    rw [List.getLast?_append_of_ne_nil _ (List.cons_ne_nil c before)]
    cases before with
    | nil => simp [hc]
    | cons d before =>
        rw [List.getLast?_cons_cons]
        exact hleft

theorem eq_nil_of_ticks {s : List Char} (hall : ∀ c ∈ s, c = tick)
    (hlast : s.getLast? ≠ some tick) : s = [] := by
  by_contra hne
  have hmem : s.getLast hne = tick := hall _ (List.getLast_mem hne)
  exact hlast (by rw [List.getLast?_eq_some_getLast hne, hmem])

/-- A run is the first one, or behind the character that ends the first. -/
theorem isRun_cases {u before after : List Char} {m n : Nat} (hu : u.head? ≠ some tick)
    (hm : 0 < m) (h : IsRun (List.replicate n tick ++ u) before m after) :
    (before = [] ∧ m = n) ∨
      ∃ c mid, before = List.replicate n tick ++ c :: mid ∧
        u = c :: (mid ++ List.replicate m tick ++ after) := by
  have heq := h.eq
  rw [List.append_assoc] at heq
  rcases List.append_eq_append_iff.mp heq with ⟨mid, hbefore, hmid⟩ | ⟨mid, hticks, hmid⟩
  · cases mid with
    | nil =>
        obtain ⟨k, rfl⟩ : ∃ k, m = k + 1 := ⟨m - 1, by omega⟩
        exact absurd (congrArg List.head? hmid) hu
    | cons c mid =>
        refine Or.inr ⟨c, mid, hbefore, ?_⟩
        rw [hmid, List.append_assoc]
        rfl
  · have hnil : before = [] := by
      refine eq_nil_of_ticks (fun c hc => ?_) h.left
      exact List.eq_of_mem_replicate (hticks ▸ List.mem_append_left mid hc)
    rw [hnil, List.nil_append] at heq
    exact Or.inl ⟨hnil, (replicate_append_inj h.right hu heq.symm).1⟩

/-- A run behind the character that ends the first one is a run of what follows it. -/
theorem IsRun.of_behind {t before after : List Char} {m n : Nat} {c d : Char}
    (h : IsRun (List.replicate n tick ++ c :: t) (List.replicate n tick ++ d :: before) m after)
    (heq : t = before ++ List.replicate m tick ++ after) : IsRun t before m after := by
  refine ⟨heq, ?_, h.right⟩
  have hleft := h.left
  rw [List.getLast?_append_of_ne_nil _ (List.cons_ne_nil d before)] at hleft
  cases before with
  | nil => simp
  | cons e before =>
      rw [List.getLast?_cons_cons] at hleft
      exact hleft

theorem fencing_run (n : Nat) :
    fencing.quote (List.replicate n tick) = fenceSafe (List.replicate n tick) := by
  show fenceSafe (escape _) = _
  rw [escape_of_plain fun c hc => List.eq_of_mem_replicate hc ▸ by decide]

theorem fencing_append {c : Char} (hc : c ≠ tick) (n : Nat) (t : List Char) :
    fencing.quote (List.replicate n tick ++ c :: t) =
      fenceSafe (List.replicate n tick) ++ entity c ++ fencing.quote t := by
  rw [← fencing_run]
  exact fenceSafe_escape_append hc _ t

/-- The fences of a stream that has been escaped and whose fences have been broken are the
last three characters of what runs of three times some number and two more are written
as. -/
theorem occursAt_fencing_iff (text : List Char) (i : Nat) :
    OccursAt fence (fencing.quote text) i ↔
      ∃ before m after, IsRun text before m after ∧ 3 ≤ m ∧ m % 3 = 2 ∧
        i + 1 = (fencing.quote before).length + 5 * (m / 3) := by
  induction text using separated_induction (fun c => c ≠ tick) generalizing i with
  | last s hs =>
      obtain ⟨n, rfl⟩ : ∃ n, s = List.replicate n tick :=
        ⟨s.length, List.eq_replicate_iff.mpr ⟨rfl, fun c hc => not_not.mp (hs c hc)⟩⟩
      rw [fencing_run, occursAt_run]
      constructor
      · intro h
        refine ⟨[], n, [], ?_, h.1, h.2.1, ?_⟩
        · have hrun := isRun_first (n := n) (s := []) (by simp)
          rwa [List.append_nil] at hrun
        · show i + 1 = 0 + 5 * (n / 3)
          omega
      · rintro ⟨before, m, after, hrun, hm, hmod, hi⟩
        have hrun' : IsRun (List.replicate n tick ++ []) before m after := by
          rwa [List.append_nil]
        rcases isRun_cases (by simp) (by omega) hrun' with ⟨rfl, rfl⟩ | ⟨c, mid, -, hnil⟩
        · have hi' : i + 1 = 0 + 5 * (m / 3) := hi
          exact ⟨hm, hmod, by omega⟩
        · cases hnil
  | more s c t hs hc ih =>
      obtain ⟨n, rfl⟩ : ∃ n, s = List.replicate n tick :=
        ⟨s.length, List.eq_replicate_iff.mpr ⟨rfl, fun c hc => not_not.mp (hs c hc)⟩⟩
      have hhead : (c :: t).head? ≠ some tick := by
        rw [List.head?_cons]
        simp [hc]
      have hlen : ∀ u, (fencing.quote (List.replicate n tick ++ c :: u)).length =
          (fenceSafe (List.replicate n tick)).length + (entity c).length +
            (fencing.quote u).length := by
        intro u
        rw [fencing_append hc, List.length_append, List.length_append]
      rw [fencing_append hc, occursAt_separators fence_ne_nil (entity_ne_nil c)
        (tick_not_mem_entity hc), occursAt_run, ih]
      constructor
      · rintro (h | ⟨hle, before, m, after, hrun, hm, hmod, hi⟩)
        · refine ⟨[], n, c :: t, isRun_first hhead, h.1, h.2.1, ?_⟩
          show i + 1 = 0 + 5 * (n / 3)
          omega
        · refine ⟨List.replicate n tick ++ c :: before, m, after, hrun.behind hc, hm, hmod, ?_⟩
          rw [hlen]
          omega
      · rintro ⟨before, m, after, hrun, hm, hmod, hi⟩
        rcases isRun_cases hhead (by omega) hrun with ⟨rfl, rfl⟩ | ⟨d, mid, rfl, heq⟩
        · have hi' : i + 1 = 0 + 5 * (m / 3) := hi
          exact Or.inl ⟨hm, hmod, by omega⟩
        · obtain ⟨rfl, ht⟩ := List.cons.inj heq
          rw [hlen] at hi
          exact Or.inr ⟨by omega, mid, m, after, hrun.of_behind ht, hm, hmod, by omega⟩

end Flowlite.Slack
