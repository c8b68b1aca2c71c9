import Mathlib

/-!
# Bits packed into words

`n` words of `w` bits, read as `w * n` bits: bit `i` is bit `i % w` of word `i / w`.
-/

namespace MiniOS.Lib

variable {w n : Nat}

theorem word_lt (i : Fin (w * n)) : i.val / w < n := Nat.div_lt_of_lt_mul i.isLt

theorem width_pos (i : Fin (w * n)) : 0 < w := Nat.pos_of_mul_pos_right (Nat.zero_lt_of_lt i.isLt)

abbrev wordOf (i : Fin (w * n)) : Fin n := ⟨i.val / w, word_lt i⟩

def bitAt (ws : Vector (BitVec w) n) (i : Fin (w * n)) : Bool :=
  ws[wordOf i].getLsbD (i.val % w)

def setBit (ws : Vector (BitVec w) n) (i : Fin (w * n)) : Vector (BitVec w) n :=
  ws.set (i.val / w) (ws[wordOf i] ||| 1#w <<< (i.val % w)) (word_lt i)

def clearBit (ws : Vector (BitVec w) n) (i : Fin (w * n)) : Vector (BitVec w) n :=
  ws.set (i.val / w) (ws[wordOf i] &&& ~~~(1#w <<< (i.val % w))) (word_lt i)

theorem and_mask_ne_zero (x : BitVec w) (k : Nat) (hk : k < w) :
    x &&& 1#w <<< k ≠ 0#w ↔ x.getLsbD k = true := by
  rw [← BitVec.twoPow_eq, BitVec.and_twoPow]
  cases x.getLsbD k with
  | false => simp
  | true =>
    have h : (BitVec.twoPow w k).getLsbD k = true := by simp [hk]
    simp only [if_true, ne_eq, iff_true]
    intro h0
    rw [h0] at h
    simp at h

theorem same_bit {i j : Fin (w * n)} (hd : i.val / w = j.val / w) (hm : i.val % w = j.val % w) :
    i = j := by
  apply Fin.ext
  rw [← Nat.div_add_mod i.val w, ← Nat.div_add_mod j.val w, hd, hm]

theorem bitAt_setBit (ws : Vector (BitVec w) n) (i j : Fin (w * n)) :
    bitAt (setBit ws i) j = (decide (j = i) || bitAt ws j) := by
  simp only [bitAt, setBit, Fin.getElem_fin, Vector.getElem_set]
  split
  · rename_i hd
    rw [BitVec.getLsbD_or, ← BitVec.twoPow_eq, BitVec.getLsbD_twoPow]
    simp only [hd]
    have : (i.val % w = j.val % w) ↔ j = i :=
      ⟨fun hm => (same_bit hd hm).symm, fun h => by rw [h]⟩
    simp [Nat.mod_lt _ (width_pos i), this, Bool.or_comm]
  · rename_i hd
    have : j ≠ i := fun h => hd (by rw [h])
    simp [this]

theorem bitAt_clearBit (ws : Vector (BitVec w) n) (i j : Fin (w * n)) :
    bitAt (clearBit ws i) j = (decide (j ≠ i) && bitAt ws j) := by
  simp only [bitAt, clearBit, Fin.getElem_fin, Vector.getElem_set]
  split
  · rename_i hd
    rw [BitVec.getLsbD_and, BitVec.getLsbD_not, ← BitVec.twoPow_eq, BitVec.getLsbD_twoPow]
    simp only [hd]
    have : (i.val % w = j.val % w) ↔ j = i :=
      ⟨fun hm => (same_bit hd hm).symm, fun h => by rw [h]⟩
    simp [Nat.mod_lt _ (width_pos i), this, Bool.and_comm]
  · rename_i hd
    have : j ≠ i := fun h => hd (by rw [h])
    simp [this]

theorem bitAt_of_allOnes (ws : Vector (BitVec w) n) (i : Fin (w * n))
    (h : ws[wordOf i] = BitVec.allOnes w) : bitAt ws i = true := by
  simp [bitAt, h, Nat.mod_lt _ (width_pos i)]

def clearBits (ws : Vector (BitVec w) n) : Set (Fin (w * n)) := {i | bitAt ws i = false}

@[simp] theorem mem_clearBits (ws : Vector (BitVec w) n) (i : Fin (w * n)) :
    i ∈ clearBits ws ↔ bitAt ws i = false := Iff.rfl

theorem clearBits_setBit (ws : Vector (BitVec w) n) (i : Fin (w * n)) :
    clearBits (setBit ws i) = clearBits ws \ {i} := by
  ext j
  simp [bitAt_setBit, and_comm]

theorem clearBits_clearBit (ws : Vector (BitVec w) n) (i : Fin (w * n)) :
    clearBits (clearBit ws i) = insert i (clearBits ws) := by
  ext j
  simp only [mem_clearBits, bitAt_clearBit, Set.mem_insert_iff]
  by_cases h : j = i <;> simp [h]

/-- A loop of `setBit` takes exactly its bits out of the clear ones. -/
theorem clearBits_foldl_setBit {α : Type} (g : α → Fin (w * n)) (l : List α)
    (ws : Vector (BitVec w) n) :
    clearBits (l.foldl (fun ws a => setBit ws (g a)) ws) = clearBits ws \ {i | ∃ a ∈ l, g a = i} := by
  induction l generalizing ws with
  | nil => simp
  | cons a l ih =>
    rw [List.foldl_cons, ih, clearBits_setBit]
    ext i
    simp only [Set.mem_sdiff, Set.mem_singleton_iff, Set.mem_ofPred_eq, List.mem_cons]
    grind

theorem clearBits_foldl_clearBit {α : Type} (g : α → Fin (w * n)) (l : List α)
    (ws : Vector (BitVec w) n) :
    clearBits (l.foldl (fun ws a => clearBit ws (g a)) ws) = clearBits ws ∪ {i | ∃ a ∈ l, g a = i} := by
  induction l generalizing ws with
  | nil => simp
  | cons a l ih =>
    rw [List.foldl_cons, ih, clearBits_clearBit]
    ext i
    simp only [Set.mem_union, Set.mem_insert_iff, Set.mem_ofPred_eq, List.mem_cons]
    grind

theorem words_ext {a b : Vector (BitVec w) n} (h : clearBits a = clearBits b) : a = b := by
  ext k hk j hj
  have hlt : w * k + j < w * n := by
    calc w * k + j < w * k + w := by omega
      _ = w * (k + 1) := by ring
      _ ≤ w * n := Nat.mul_le_mul_left w hk
  have hd : (w * k + j) / w = k := by rw [Nat.mul_add_div (by omega), Nat.div_eq_of_lt hj, add_zero]
  have hm : (w * k + j) % w = j := by rw [Nat.mul_add_mod, Nat.mod_eq_of_lt hj]
  have hbit : bitAt a ⟨w * k + j, hlt⟩ = bitAt b ⟨w * k + j, hlt⟩ := by
    have := Set.ext_iff.mp h ⟨w * k + j, hlt⟩
    simp only [mem_clearBits] at this
    cases ha : bitAt a ⟨w * k + j, hlt⟩ <;> cases hb : bitAt b ⟨w * k + j, hlt⟩ <;> simp_all
  simpa [bitAt, hd, hm, BitVec.getLsbD_eq_getElem, hj] using hbit

/-! ## One word cut in two -/

theorem setWidth_mask {x m : BitVec w} (h : m.setWidth n = BitVec.allOnes n) :
    (x &&& m).setWidth n = x.setWidth n := by
  rw [BitVec.setWidth_and, h, BitVec.and_allOnes]

/-- The low `k` bits, behind `n` of those above them. -/
theorem shift_append (x : BitVec w) (n k : Nat) :
    (x >>> k).setWidth n ++ x.setWidth k = x.setWidth (n + k) := by
  apply BitVec.eq_of_getLsbD_eq
  intro i hi
  rw [BitVec.getLsbD_append]
  rcases Nat.lt_or_ge i k with h | h
  · simp [h, show i < n + k by omega]
  · simp [show ¬ i < k by omega, show i - k < n by omega, hi, show k + (i - k) = i by omega]

end MiniOS.Lib
