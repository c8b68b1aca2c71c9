import Mathlib

/-!
# A stack of words in a memory of bytes

Words of 32 bits, little-endian, in a memory whose addresses wrap. The stack grows
down. `StackIs` says what is on it, with some bytes under the words that stay as they
are.
-/

namespace MiniOS.Lib

abbrev Address := BitVec 32

abbrev Bytes := Address → BitVec 8

def peek (m : Bytes) (p : Address) : BitVec 32 :=
  m (p + 3#32) ++ m (p + 2#32) ++ m (p + 1#32) ++ m p

def poke (m : Bytes) (p : Address) (v : BitVec 32) : Bytes := fun x =>
  if (x - p).toNat < 4 then (v >>> (8 * (x - p).toNat)).setWidth 8 else m x

def wordBytes (v : BitVec 32) : List (BitVec 8) :=
  [v.setWidth 8, (v >>> 8).setWidth 8, (v >>> 16).setWidth 8, (v >>> 24).setWidth 8]

@[simp] theorem length_wordBytes (v : BitVec 32) : (wordBytes v).length = 4 := rfl

theorem wordBytes_append (v : BitVec 32) :
    (v >>> 24).setWidth 8 ++ (v >>> 16).setWidth 8 ++ (v >>> 8).setWidth 8 ++ v.setWidth 8 = v := by
  apply BitVec.eq_of_getLsbD_eq
  intro i hi
  simp only [BitVec.getLsbD_append, BitVec.getLsbD_setWidth, BitVec.getLsbD_ushiftRight]
  split
  · simp [*]
  split
  · grind
  split
  · grind
  · grind

theorem poke_other {m : Bytes} {p x : Address} {v : BitVec 32} (h : 4 ≤ (x - p).toNat) :
    poke m p v x = m x := by
  unfold poke
  rw [if_neg (by omega)]

theorem peek_poke (m : Bytes) (p : Address) (v : BitVec 32) : peek (poke m p v) p = v := by
  have hbyte : ∀ k < 4, poke m p v (p + BitVec.ofNat 32 k) = (v >>> (8 * k)).setWidth 8 := by
    intro k hk
    have hoff : (p + BitVec.ofNat 32 k - p).toNat = k := by
      rw [add_sub_cancel_left, BitVec.toNat_ofNat]
      omega
    unfold poke
    rw [hoff, if_pos hk]
  have hfirst : poke m p v p = v.setWidth 8 := by simpa using hbyte 0 (by decide)
  unfold peek
  rw [hbyte 3 (by decide), hbyte 2 (by decide), hbyte 1 (by decide), hfirst]
  exact wordBytes_append v

theorem peek_congr {m m' : Bytes} {p : Address}
    (h : ∀ k < 4, m' (p + BitVec.ofNat 32 k) = m (p + BitVec.ofNat 32 k)) : peek m' p = peek m p := by
  have h0 : m' p = m p := by simpa using h 0 (by decide)
  unfold peek
  rw [h 3 (by decide), h 2 (by decide), h 1 (by decide), h0]

/-! ## Bytes in a row -/

def bytesAt (m : Bytes) (p : Address) (n : Nat) : List (BitVec 8) :=
  (List.range n).map fun k => m (p + BitVec.ofNat 32 k)

theorem bytesAt_congr {m m' : Bytes} {p : Address} {n : Nat}
    (h : ∀ k < n, m' (p + BitVec.ofNat 32 k) = m (p + BitVec.ofNat 32 k)) :
    bytesAt m' p n = bytesAt m p n :=
  List.map_congr_left fun k hk => h k (List.mem_range.mp hk)

theorem bytesAt_update {m : Bytes} {p : Address} {n j : Nat} (hn : n ≤ 2 ^ 32) (hj : j < n) (v : BitVec 8) :
    bytesAt (Function.update m (p + BitVec.ofNat 32 j) v) p n = (bytesAt m p n).set j v := by
  refine List.ext_getElem (by simp [bytesAt]) fun k hk _ => ?_
  have hk' : k < n := by simpa [bytesAt] using hk
  have hiff : p + BitVec.ofNat 32 k = p + BitVec.ofNat 32 j ↔ j = k := by
    rw [add_right_inj, ← BitVec.toNat_inj, BitVec.toNat_ofNat, BitVec.toNat_ofNat,
      Nat.mod_eq_of_lt (by omega), Nat.mod_eq_of_lt (by omega)]
    exact eq_comm
  simp only [bytesAt, List.getElem_map, List.getElem_range, List.getElem_set, Function.update_apply, hiff]

/-! ## What is on the stack -/

/-- From `p` up: the words, and then `n` bytes that are as in `old`. -/
def StackIs (old : Bytes) (n : Nat) (m : Bytes) : Address → List (BitVec 32) → Prop
  | p, [] => ∀ k < n, m (p + BitVec.ofNat 32 k) = old (p + BitVec.ofNat 32 k)
  | p, w :: ws => peek m p = w ∧ StackIs old n m (p + 4#32) ws

variable {old m m' : Bytes} {n : Nat} {p : Address} {w : BitVec 32} {ws : List (BitVec 32)}

theorem add_four (p : Address) (k : Nat) :
    p + 4#32 + BitVec.ofNat 32 k = p + BitVec.ofNat 32 (k + 4) := by
  rw [BitVec.ofNat_add, add_assoc, add_comm 4#32]

theorem StackIs.congr (h : StackIs old n m p ws)
    (hm : ∀ k < 4 * ws.length + n, m' (p + BitVec.ofNat 32 k) = m (p + BitVec.ofNat 32 k)) :
    StackIs old n m' p ws := by
  induction ws generalizing p with
  | nil =>
    intro k hk
    rw [hm k (by simpa using hk)]
    exact h k hk
  | cons w ws ih =>
    obtain ⟨htop, hrest⟩ := h
    refine ⟨?_, ih hrest fun k hk => ?_⟩
    · rw [← htop]
      apply peek_congr
      intro k hk
      exact hm k (by rw [List.length_cons]; omega)
    · rw [add_four]
      exact hm (k + 4) (by rw [List.length_cons]; omega)

/-- What is pushed lies below everything else, as long as the addresses do not come round. -/
theorem StackIs.push (h : StackIs old n m p ws) (hfit : 4 * (ws.length + 1) + n ≤ 2 ^ 32)
    (w : BitVec 32) : StackIs old n (poke m (p - 4#32) w) (p - 4#32) (w :: ws) := by
  refine ⟨peek_poke m _ w, ?_⟩
  rw [sub_add_cancel]
  apply h.congr
  intro k hk
  apply poke_other
  have hoff : p + BitVec.ofNat 32 k - (p - 4#32) = BitVec.ofNat 32 (k + 4) := by
    rw [BitVec.ofNat_add]
    ring
  rw [hoff, BitVec.toNat_ofNat]
  omega

end MiniOS.Lib
