import Mathlib.Algebra.Order.Ring.Nat
import Mathlib.Data.List.Sort

/-!
# Tables with an autoincrement key

A relational table whose primary key is assigned by the database and never
handed out twice, also not after the row it was given to is gone. The rows
stand in key order, so the key of a row determines it and a scan is ordered.

Both facts are fields of `Table`: no statement of this module (insert, update,
delete) can produce a table without them. What identifies a row cannot be
changed by an update, which is what `Patch` carries, and a row cannot be
inserted under a key of the caller's choosing, which is what `Draft` carries.
-/

namespace Flowlite.Store

/-- Rows with a primary key. -/
class Keyed (α : Type) where
  key : α → Nat

open Keyed (key)

variable {α : Type} [Keyed α]

/-- A row to insert: everything but its key. -/
structure Draft (α : Type) [Keyed α] where
  row : Nat → α
  key_row : ∀ n, key (row n) = n

/-- A change to the columns of a row other than its key. -/
structure Patch (α : Type) [Keyed α] where
  apply : α → α
  key_apply : ∀ r, key (apply r) = key r

attribute [simp] Draft.key_row Patch.key_apply

/-- The rows of a table, in key order, and the next key it hands out. -/
structure Table (α : Type) [Keyed α] where
  rows : List α
  next : Nat
  ordered : rows.Pairwise fun a b => key a < key b
  bounded : ∀ r ∈ rows, key r < next

namespace Table

/-- The table before the first insert. -/
def empty : Table α where
  rows := []
  next := 1
  ordered := List.Pairwise.nil
  bounded := fun _ h => absurd h List.not_mem_nil

instance : Inhabited (Table α) := ⟨empty⟩

/-- `INSERT`. -/
def insert (t : Table α) (d : Draft α) : Table α where
  rows := t.rows ++ [d.row t.next]
  next := t.next + 1
  ordered := by
    refine List.pairwise_append.mpr ⟨t.ordered, List.pairwise_singleton .., ?_⟩
    intro a ha b hb
    rw [List.mem_singleton.mp hb, d.key_row]
    exact t.bounded a ha
  bounded := by
    intro r hr
    rcases List.mem_append.mp hr with hr | hr
    · exact Nat.lt_succ_of_lt (t.bounded r hr)
    · rw [List.mem_singleton.mp hr, d.key_row]
      exact Nat.lt_succ_self _

/-- `UPDATE … WHERE p`. -/
def update (t : Table α) (p : α → Bool) (f : Patch α) : Table α where
  rows := t.rows.map fun r => if p r then f.apply r else r
  next := t.next
  ordered := by
    refine List.pairwise_map.mpr (t.ordered.imp ?_)
    intro a b hab
    split <;> split <;> simpa using hab
  bounded := by
    intro r hr
    obtain ⟨a, ha, rfl⟩ := List.mem_map.mp hr
    split <;> simpa using t.bounded a ha

/-- `DELETE … WHERE p`. -/
def delete (t : Table α) (p : α → Bool) : Table α where
  rows := t.rows.filter fun r => !p r
  next := t.next
  ordered := t.ordered.filter _
  bounded := fun r hr => t.bounded r (List.mem_of_mem_filter hr)

/-- The row with a key. -/
def find (t : Table α) (n : Nat) : Option α :=
  t.rows.find? fun r => key r == n

@[simp] theorem rows_empty : (empty : Table α).rows = [] := rfl

@[simp] theorem next_insert (t : Table α) (d : Draft α) :
    (t.insert d).next = t.next + 1 := rfl

@[simp] theorem next_update (t : Table α) (p : α → Bool) (f : Patch α) :
    (t.update p f).next = t.next := rfl

@[simp] theorem next_delete (t : Table α) (p : α → Bool) : (t.delete p).next = t.next := rfl

theorem mem_insert {t : Table α} {d : Draft α} {r : α} :
    r ∈ (t.insert d).rows ↔ r ∈ t.rows ∨ r = d.row t.next := by
  simp [insert]

theorem mem_update {t : Table α} {p : α → Bool} {f : Patch α} {r : α} :
    r ∈ (t.update p f).rows ↔ ∃ a ∈ t.rows, (if p a then f.apply a else a) = r := by
  simp [update]

theorem mem_delete {t : Table α} {p : α → Bool} {r : α} :
    r ∈ (t.delete p).rows ↔ r ∈ t.rows ∧ p r = false := by
  simp [delete]

theorem nodup_keys (t : Table α) : (t.rows.map key).Nodup :=
  List.pairwise_map.mpr (t.ordered.imp fun h => ne_of_lt h)

/-- The key determines the row. -/
theorem eq_of_key {t : Table α} {a b : α} (ha : a ∈ t.rows) (hb : b ∈ t.rows)
    (h : key a = key b) : a = b :=
  List.inj_on_of_nodup_map t.nodup_keys ha hb h

theorem find_eq_some {t : Table α} {n : Nat} {r : α} :
    t.find n = some r ↔ r ∈ t.rows ∧ key r = n := by
  constructor
  · intro h
    exact ⟨List.mem_of_find?_eq_some h, by simpa using List.find?_some h⟩
  · rintro ⟨hr, hk⟩
    cases hf : t.find n with
    | none =>
        have := List.find?_eq_none.mp hf r hr
        simp [hk] at this
    | some a =>
        have ha := List.mem_of_find?_eq_some hf
        have hka : key a = n := by simpa using List.find?_some hf
        rw [t.eq_of_key ha hr (hka.trans hk.symm)]

theorem find_eq_none {t : Table α} {n : Nat} :
    t.find n = none ↔ ∀ r ∈ t.rows, key r ≠ n := by
  simp [find]

theorem find_of_mem {t : Table α} {r : α} (h : r ∈ t.rows) : t.find (key r) = some r :=
  find_eq_some.mpr ⟨h, rfl⟩

theorem mem_of_find {t : Table α} {n : Nat} {r : α} (h : t.find n = some r) : r ∈ t.rows :=
  (find_eq_some.mp h).1

theorem key_of_find {t : Table α} {n : Nat} {r : α} (h : t.find n = some r) : key r = n :=
  (find_eq_some.mp h).2

theorem lt_next_of_find {t : Table α} {n : Nat} {r : α} (h : t.find n = some r) : n < t.next := by
  rw [← key_of_find h]
  exact t.bounded r (mem_of_find h)

theorem find_eq_none_of_le {t : Table α} {n : Nat} (h : t.next ≤ n) : t.find n = none := by
  cases hf : t.find n with
  | none => rfl
  | some r => exact absurd (lt_next_of_find hf) (by omega)

@[simp] theorem find_empty (n : Nat) : (empty : Table α).find n = none := rfl

theorem find_insert (t : Table α) (d : Draft α) (n : Nat) :
    (t.insert d).find n = if n = t.next then some (d.row t.next) else t.find n := by
  split
  · rename_i h
    refine find_eq_some.mpr ⟨mem_insert.mpr (.inr rfl), ?_⟩
    rw [d.key_row, h]
  · rename_i h
    cases hf : t.find n with
    | some r => exact find_eq_some.mpr ⟨mem_insert.mpr (.inl (mem_of_find hf)), key_of_find hf⟩
    | none =>
        refine find_eq_none.mpr fun r hr => ?_
        rcases mem_insert.mp hr with hr | rfl
        · exact find_eq_none.mp hf r hr
        · rw [d.key_row]
          exact fun h' => h h'.symm

theorem find_update (t : Table α) (p : α → Bool) (f : Patch α) (n : Nat) :
    (t.update p f).find n = (t.find n).map fun r => if p r then f.apply r else r := by
  cases hf : t.find n with
  | none =>
      refine find_eq_none.mpr fun r hr => ?_
      obtain ⟨a, ha, rfl⟩ := mem_update.mp hr
      have := find_eq_none.mp hf a ha
      split <;> simpa using this
  | some r =>
      refine find_eq_some.mpr ⟨mem_update.mpr ⟨r, mem_of_find hf, rfl⟩, ?_⟩
      have := key_of_find hf
      show key (if p r then f.apply r else r) = n
      split <;> simpa using this

theorem find_delete (t : Table α) (p : α → Bool) (n : Nat) :
    (t.delete p).find n = (t.find n).filter fun r => !p r := by
  cases hf : t.find n with
  | none =>
      exact find_eq_none.mpr fun r hr => find_eq_none.mp hf r (mem_delete.mp hr).1
  | some r =>
      cases hp : p r with
      | false =>
          simp only [Option.filter, hp]
          exact find_eq_some.mpr ⟨mem_delete.mpr ⟨mem_of_find hf, hp⟩, key_of_find hf⟩
      | true =>
          simp only [Option.filter, hp]
          refine find_eq_none.mpr fun a ha hk => ?_
          have hd := mem_delete.mp ha
          rw [t.eq_of_key hd.1 (mem_of_find hf) (hk.trans (key_of_find hf).symm), hp] at hd
          cases hd.2

theorem delete_delete (t : Table α) (p q : α → Bool) :
    (t.delete p).delete q = t.delete fun r => p r || q r := by
  unfold delete
  congr 1
  rw [List.filter_filter]
  refine List.filter_congr fun r _ => ?_
  rw [Bool.not_or, Bool.and_comm]

@[simp] theorem delete_false (t : Table α) : t.delete (fun _ => false) = t := by
  unfold delete
  congr 1
  exact List.filter_eq_self.mpr fun _ _ => rfl

/-! ### Counting rows -/

/-- How many rows a predicate holds of. -/
def count (t : Table α) (p : α → Bool) : Nat := (t.rows.filter p).length

theorem nodup_keys_where (t : Table α) (p : α → Bool) :
    ((t.rows.filter p).map key).Nodup :=
  t.nodup_keys.sublist (List.filter_sublist.map key)

/-- Where every row that counts has one with its key that counts there, there are no
more of them. -/
theorem count_le {t t' : Table α} {p q : α → Bool}
    (h : ∀ a ∈ t.rows, p a = true → ∃ b ∈ t'.rows, key b = key a ∧ q b = true) :
    t.count p ≤ t'.count q := by
  have hsub : (t.rows.filter p).map key ⊆ (t'.rows.filter q).map key := by
    intro k hk
    obtain ⟨a, ha, rfl⟩ := List.mem_map.mp hk
    obtain ⟨ha, hp⟩ := List.mem_filter.mp ha
    obtain ⟨b, hb, hkey, hq⟩ := h a ha hp
    exact List.mem_map.mpr ⟨b, List.mem_filter.mpr ⟨hb, hq⟩, hkey⟩
  have hle := (List.subperm_of_subset (t.nodup_keys_where p) hsub).length_le
  rwa [List.length_map, List.length_map] at hle

/-- There are no more rows that count than entries of a list that holds one for each. -/
theorem count_le_length {β : Type} {t : Table α} {p : α → Bool} {l : List β} {f : β → Nat}
    (h : ∀ a ∈ t.rows, p a = true → ∃ b ∈ l, f b = key a) : t.count p ≤ l.length := by
  have hsub : (t.rows.filter p).map key ⊆ l.map f := by
    intro k hk
    obtain ⟨a, ha, rfl⟩ := List.mem_map.mp hk
    obtain ⟨ha, hp⟩ := List.mem_filter.mp ha
    obtain ⟨b, hb, hkey⟩ := h a ha hp
    exact List.mem_map.mpr ⟨b, hb, hkey⟩
  have hle := (List.subperm_of_subset (t.nodup_keys_where p) hsub).length_le
  rwa [List.length_map, List.length_map] at hle

/-- The same with one row that has none. -/
theorem count_le_succ {t t' : Table α} {p q : α → Bool} {n : Nat}
    (h : ∀ a ∈ t.rows, p a = true → key a = n ∨ ∃ b ∈ t'.rows, key b = key a ∧ q b = true) :
    t.count p ≤ t'.count q + 1 := by
  have hsub : (t.rows.filter p).map key ⊆ n :: (t'.rows.filter q).map key := by
    intro k hk
    obtain ⟨a, ha, rfl⟩ := List.mem_map.mp hk
    obtain ⟨ha, hp⟩ := List.mem_filter.mp ha
    rcases h a ha hp with hn | ⟨b, hb, hkey, hq⟩
    · exact List.mem_cons.mpr (.inl hn)
    · exact List.mem_cons_of_mem _ (List.mem_map.mpr ⟨b, List.mem_filter.mpr ⟨hb, hq⟩, hkey⟩)
  have hle := (List.subperm_of_subset (t.nodup_keys_where p) hsub).length_le
  rwa [List.length_map, List.length_cons, List.length_map] at hle

end Table

end Flowlite.Store
