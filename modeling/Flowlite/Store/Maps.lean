import Mathlib.Data.String.Basic
import Flowlite.Store.Rows

/-!
# Looking things up in ordered maps

What `get` answers after each operation of an ordered map, and that each of them keeps the
keys in order.
-/

namespace Flowlite.Store.BTreeMap

variable {κ ν : Type} [LinearOrder κ] {m n : BTreeMap κ ν} {k k' : κ} {v : ν}

/-- The keys are in ascending order, each once. -/
def Ordered (m : BTreeMap κ ν) : Prop := m.Pairwise fun a b => a.1 < b.1

@[simp] theorem ordered_nil : Ordered ([] : BTreeMap κ ν) := List.Pairwise.nil

theorem Ordered.nodup (h : m.Ordered) : m.keys.Nodup :=
  List.pairwise_map.mpr (h.imp fun hlt => ne_of_lt hlt)

@[simp] theorem get_nil : BTreeMap.get ([] : BTreeMap κ ν) k = none := rfl

theorem get_cons (e : κ × ν) (m : BTreeMap κ ν) :
    BTreeMap.get (e :: m) k = if k = e.1 then some e.2 else m.get k := by
  unfold BTreeMap.get
  rw [List.find?_cons]
  by_cases h : k = e.1
  · rw [if_pos h, decide_eq_true h.symm]
    rfl
  · rw [if_neg h, decide_eq_false fun h' => h h'.symm]

theorem get_eq_none : m.get k = none ↔ k ∉ m.keys := by
  induction m with
  | nil => simp [keys]
  | cons e rest ih =>
      rw [get_cons]
      by_cases h : k = e.1
      · simp [keys, h]
      · rw [if_neg h, ih]
        simp [keys, h]

theorem mem_of_get (h : m.get k = some v) : (k, v) ∈ m := by
  induction m with
  | nil => cases h
  | cons e rest ih =>
      rw [get_cons] at h
      by_cases hk : k = e.1
      · rw [if_pos hk] at h
        cases h
        rw [hk]
        exact List.mem_cons_self
      · rw [if_neg hk] at h
        exact List.mem_cons_of_mem _ (ih h)

/-- Where no key stands twice, an entry is what its key is looked up as. -/
theorem get_of_mem (hm : m.keys.Nodup) (h : (k, v) ∈ m) : m.get k = some v := by
  induction m with
  | nil => cases h
  | cons e rest ih =>
      obtain ⟨hnew, hrest⟩ := List.nodup_cons.mp hm
      rw [get_cons]
      rcases List.mem_cons.mp h with rfl | h
      · exact if_pos rfl
      · have hne : k ≠ e.1 := by
          rintro rfl
          exact hnew (List.mem_map.mpr ⟨_, h, rfl⟩)
        rw [if_neg hne]
        exact ih hrest h

theorem isSome_get : (m.get k).isSome = true ↔ k ∈ m.keys := by
  rw [Option.isSome_iff_ne_none, ne_eq, get_eq_none, not_not]

theorem containsKey_iff : m.containsKey k = true ↔ k ∈ m.keys := by
  unfold containsKey keys
  simp only [List.any_eq_true, decide_eq_true_eq, List.mem_map]

/-- Only what the predicate holds of is left. -/
theorem get_filter (p : κ → Bool) (m : BTreeMap κ ν) (k : κ) :
    BTreeMap.get (m.filter fun e => p e.1) k = if p k then m.get k else none := by
  induction m with
  | nil => simp
  | cons e rest ih =>
      rw [List.filter_cons]
      by_cases hp : p e.1 = true
      · rw [if_pos hp, get_cons, ih, get_cons]
        by_cases hk : k = e.1
        · rw [if_pos hk, if_pos hk, if_pos (hk ▸ hp)]
        · rw [if_neg hk, if_neg hk]
      · rw [if_neg hp, ih, get_cons]
        by_cases hk : k = e.1
        · rw [if_neg (hk ▸ hp), if_neg (hk ▸ hp)]
        · rw [if_neg hk]

theorem get_remove : (m.remove k').get k = if k = k' then none else m.get k := by
  refine (get_filter (fun key => decide (key ≠ k')) m k).trans ?_
  by_cases h : k = k' <;> simp [h]

/-- The second map has the last word. -/
theorem get_extend (hn : n.keys.Nodup) : (m.extend n).get k = (n.get k).or (m.get k) := by
  unfold extend
  induction n generalizing m with
  | nil => rfl
  | cons e rest ih =>
      obtain ⟨hnew, hrest⟩ := List.nodup_cons.mp hn
      rw [List.foldl_cons, ih hrest, get_insert, get_cons]
      by_cases hk : k = e.1
      · rw [if_pos hk, if_pos hk, hk, get_eq_none.mpr hnew]
        rfl
      · rw [if_neg hk, if_neg hk]

theorem mem_keys_extend : k ∈ (m.extend n).keys ↔ k ∈ m.keys ∨ k ∈ n.keys := by
  unfold extend
  induction n generalizing m with
  | nil => simp [keys]
  | cons e rest ih =>
      rw [List.foldl_cons, ih, mem_keys_insert]
      simp only [keys, List.map_cons, List.mem_cons]
      tauto

/-- Of the entries put in one after another, `get` finds the value that all of its key's have. -/
theorem get_foldl_insert {α : Type} {key : α → κ} {val : α → ν} {xs : List α}
    (h : ∀ a ∈ xs, key a = k → val a = v) (m : BTreeMap κ ν) :
    (xs.foldl (fun m a => BTreeMap.insert m (key a) (val a)) m).get k =
      if k ∈ xs.map key then some v else m.get k := by
  induction xs generalizing m with
  | nil => simp
  | cons a rest ih =>
      rw [List.foldl_cons, ih fun b hb => h b (List.mem_cons_of_mem a hb), get_insert, List.map_cons]
      by_cases hrest : k ∈ rest.map key
      · rw [if_pos hrest, if_pos (List.mem_cons_of_mem _ hrest)]
      · rw [if_neg hrest]
        by_cases hk : k = key a
        · rw [if_pos hk, if_pos (hk ▸ List.mem_cons_self), h a List.mem_cons_self hk.symm]
        · rw [if_neg hk, if_neg]
          rintro hmem
          rcases List.mem_cons.mp hmem with heq | hmem
          · exact hk heq
          · exact hrest hmem

theorem lt_of_mem_insert {e : κ × ν} (hlt : k' < k) (h : ∀ x ∈ m, k' < x.1)
    (he : e ∈ BTreeMap.insert m k v) : k' < e.1 := by
  have hkey : e.1 ∈ BTreeMap.keys (BTreeMap.insert m k v) := List.mem_map_of_mem he
  rcases mem_keys_insert.mp hkey with heq | hmem
  · rwa [heq]
  · obtain ⟨x, hx, hxe⟩ := List.mem_map.mp hmem
    rw [← hxe]
    exact h x hx

theorem Ordered.insert (hm : m.Ordered) (k : κ) (v : ν) :
    Ordered (BTreeMap.insert m k v) := by
  induction m with
  | nil => exact List.pairwise_singleton _ _
  | cons e rest ih =>
      obtain ⟨hfirst, hrest⟩ := List.pairwise_cons.mp hm
      unfold BTreeMap.insert
      by_cases heq : k = e.1
      · rw [if_pos heq]
        exact List.pairwise_cons.mpr ⟨fun x hx => heq ▸ hfirst x hx, hrest⟩
      rw [if_neg heq]
      by_cases hlt : k < e.1
      · rw [if_pos hlt]
        refine List.pairwise_cons.mpr ⟨fun x hx => ?_, hm⟩
        rcases List.mem_cons.mp hx with rfl | hx
        · exact hlt
        · exact hlt.trans (hfirst x hx)
      · rw [if_neg hlt]
        have hgt : e.1 < k := lt_of_le_of_ne (not_lt.mp hlt) fun h => heq h.symm
        exact List.pairwise_cons.mpr ⟨fun x hx => lt_of_mem_insert hgt hfirst hx, ih hrest⟩

theorem Ordered.extend (hm : m.Ordered) (n : BTreeMap κ ν) : (m.extend n).Ordered := by
  unfold BTreeMap.extend
  induction n generalizing m with
  | nil => exact hm
  | cons e rest ih => exact ih (hm.insert e.1 e.2)

theorem Ordered.remove (hm : m.Ordered) (k : κ) : (m.remove k).Ordered := hm.filter _

end Flowlite.Store.BTreeMap
