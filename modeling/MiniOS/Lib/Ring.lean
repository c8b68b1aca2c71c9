import Mathlib

/-!
# Ring buffers

`n` slots, of which one stays free so that head and tail tell a full ring from an
empty one. A ring stands for the list of its contents. `push` adds at the end of
the list, and `pop` takes its first element.
-/

namespace MiniOS.Lib

structure Ring (α : Type) (n : Nat) where
  buf : Vector α n
  head : Fin n
  tail : Fin n

namespace Ring

variable {α : Type} {n : Nat}

def next (i : Fin n) : Fin n := ⟨(i.val + 1) % n, Nat.mod_lt _ i.pos⟩

theorem next_val (i : Fin n) : (next i).val = if i.val + 1 < n then i.val + 1 else 0 := by
  unfold next
  split
  · exact Nat.mod_eq_of_lt ‹_›
  · have : i.val + 1 = n := by have := i.isLt; omega
    simp [this]

def count (r : Ring α n) : Nat :=
  if r.head ≤ r.tail then r.tail.val - r.head.val else r.tail.val + n - r.head.val

def slot (r : Ring α n) (i : Nat) : Fin n := ⟨(r.head.val + i) % n, Nat.mod_lt _ r.head.pos⟩

def get (r : Ring α n) (i : Fin n) : α := r.buf[i]

def contents (r : Ring α n) : List α := (List.range r.count).map fun i => r.get (r.slot i)

def full (r : Ring α n) : Prop := next r.tail = r.head

def store (r : Ring α n) (x : α) : Ring α n :=
  { r with buf := r.buf.set r.tail x, tail := next r.tail }

def advance (r : Ring α n) : Ring α n := { r with head := next r.head }

theorem get_store (r : Ring α n) (x : α) (i : Fin n) :
    (r.store x).get i = if i = r.tail then x else r.get i := by
  simp only [get, store, Fin.getElem_fin, Vector.getElem_set, Fin.ext_iff, eq_comm]

theorem slot_val (r : Ring α n) {i : Nat} (hi : i < n) :
    (r.slot i).val = if r.head.val + i < n then r.head.val + i else r.head.val + i - n := by
  have := r.head.isLt
  unfold slot
  split
  · exact Nat.mod_eq_of_lt ‹_›
  · have hsub : (r.head.val + i - n) % n = r.head.val + i - n := Nat.mod_eq_of_lt (by omega)
    simpa [Nat.mod_eq_sub_mod (show r.head.val + i ≥ n by omega)] using hsub

theorem length_contents (r : Ring α n) : r.contents.length = r.count := by simp [contents]

theorem count_lt (r : Ring α n) : r.count < n := by
  have := r.head.isLt
  have := r.tail.isLt
  unfold count
  split
  · omega
  · rename_i h
    rw [Fin.le_def] at h
    omega

theorem full_iff (r : Ring α n) : r.full ↔ r.count + 1 = n := by
  have := r.head.isLt
  have := r.tail.isLt
  unfold full count
  rw [Fin.ext_iff, next_val]
  simp only [Fin.le_def]
  split <;> split <;> omega

theorem contents_eq_nil (r : Ring α n) : r.contents = [] ↔ r.head = r.tail := by
  have := r.head.isLt
  have := r.tail.isLt
  rw [← List.length_eq_zero_iff, length_contents, Fin.ext_iff]
  unfold count
  simp only [Fin.le_def]
  split <;> omega

theorem count_store {r : Ring α n} (h : ¬ r.full) (x : α) : (r.store x).count = r.count + 1 := by
  have := r.head.isLt
  have := r.tail.isLt
  rw [full_iff] at h
  unfold count at h ⊢
  simp only [Fin.le_def, store, next_val] at h ⊢
  by_cases hle : r.head.val ≤ r.tail.val
  · rw [if_pos hle] at h ⊢
    split <;> split <;> omega
  · rw [if_neg hle] at h ⊢
    split <;> split <;> omega

/-- The tail's slot holds no element of a ring that is not full. -/
theorem slot_ne_tail (r : Ring α n) {i : Nat} (hi : i < r.count) : r.slot i ≠ r.tail := by
  have := r.head.isLt
  have := r.tail.isLt
  have := r.count_lt
  rw [ne_eq, Fin.ext_iff, slot_val r (by omega)]
  unfold count at hi
  simp only [Fin.le_def] at hi
  split at hi <;> split <;> omega

theorem slot_count (r : Ring α n) : r.slot r.count = r.tail := by
  have := r.head.isLt
  have := r.tail.isLt
  rw [Fin.ext_iff, slot_val r r.count_lt]
  unfold count
  simp only [Fin.le_def]
  split <;> split <;> omega

theorem contents_store {r : Ring α n} (h : ¬ r.full) (x : α) :
    (r.store x).contents = r.contents ++ [x] := by
  have hslot : ∀ i, (r.store x).slot i = r.slot i := fun _ => rfl
  unfold contents
  rw [count_store h, List.range_succ, List.map_append, List.map_singleton]
  congr 1
  · apply List.map_congr_left
    intro i hi
    rw [hslot, get_store, if_neg (r.slot_ne_tail (List.mem_range.mp hi))]
  · rw [hslot, get_store, slot_count, if_pos rfl]

theorem count_advance {r : Ring α n} (h : r.head ≠ r.tail) : r.advance.count + 1 = r.count := by
  have := r.head.isLt
  have := r.tail.isLt
  rw [ne_eq, Fin.ext_iff] at h
  unfold count
  simp only [Fin.le_def, advance, next_val]
  split <;> split <;> split at * <;> omega

theorem slot_advance (r : Ring α n) (i : Nat) : r.advance.slot i = r.slot (i + 1) := by
  apply Fin.ext
  simp only [slot, advance, next, Nat.mod_add_mod]
  congr 1
  omega

theorem contents_advance {r : Ring α n} (h : r.head ≠ r.tail) :
    r.contents = r.get r.head :: r.advance.contents := by
  have hzero : r.slot 0 = r.head := by
    apply Fin.ext
    simp [slot, Nat.mod_eq_of_lt r.head.isLt]
  unfold contents
  rw [← count_advance h, List.range_succ_eq_map, List.map_cons, List.map_map, hzero]
  congr 1
  apply List.map_congr_left
  intro i _
  rw [slot_advance]
  rfl

end Ring

end MiniOS.Lib
