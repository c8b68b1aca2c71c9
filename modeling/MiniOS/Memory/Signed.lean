import MiniOS.Memory.Alloc

/-!
# The bitmap helpers on signed numbers

`bitmap_set`, `bitmap_clear` and `bitmap_test` as they are written: the bit is an `int`, and
so are its quotient, its remainder and the mask. A word outside the array, or a shift that
is not from 0 to 31, gives `none`. On every frame they are the helpers that the rest of the
model has.
-/

open MiniOS.Lib

namespace MiniOS.Memory.Signed

/-- `x << k`. As compiled, `1 << 31` is the least `int`. -/
def shiftLeft (x k : Int32) : Option Int32 := if 0 ≤ k ∧ k < 32 then some (x <<< k) else none

def load (pmm_bitmap : Bitmap) (i : Int32) : Option Word :=
  if 0 ≤ i then pmm_bitmap[i.toNatClampNeg]? else none

def store (pmm_bitmap : Bitmap) (i : Int32) (word : Word) : Option Bitmap :=
  if h : 0 ≤ i ∧ i.toNatClampNeg < PMM_BITMAP_SIZE then some (pmm_bitmap.set i.toNatClampNeg word h.2)
  else none

/-- The mask is an `int`, and becomes unsigned beside the word. -/
def bitmap_set (pmm_bitmap : Bitmap) (bit : Int32) : Option Bitmap := do
  let mask ← shiftLeft 1 (bit % 32)
  store pmm_bitmap (bit / 32) ((← load pmm_bitmap (bit / 32)) ||| mask.toBitVec)

def bitmap_clear (pmm_bitmap : Bitmap) (bit : Int32) : Option Bitmap := do
  let mask ← shiftLeft 1 (bit % 32)
  store pmm_bitmap (bit / 32) ((← load pmm_bitmap (bit / 32)) &&& (~~~mask).toBitVec)

/-- The unsigned word comes back as an `int`. -/
def bitmap_test (pmm_bitmap : Bitmap) (bit : Int32) : Option Int32 := do
  let mask ← shiftLeft 1 (bit % 32)
  return Int32.ofBitVec ((← load pmm_bitmap (bit / 32)) &&& mask.toBitVec)

/-- `int bit = phys_addr / PAGE_SIZE`, with an unsigned quotient. -/
def bitOf (phys_addr : Word) : Int32 := Int32.ofBitVec (phys_addr / BitVec.ofNat 32 PAGE_SIZE)

def IsSet (pmm_bitmap : Bitmap) (bit : Int32) : Prop := ∃ v, bitmap_test pmm_bitmap bit = some v ∧ v ≠ 0

/-! ## The numbers -/

theorem toInt_bitOf (a : Word) : (bitOf a).toInt = (frameOf a).val := by
  have h : (a / BitVec.ofNat 32 PAGE_SIZE).toNat = a.toNat / 4096 := by
    simp [BitVec.toNat_udiv, PAGE_SIZE]
  have hlt := (frameOf a).lt
  rw [frameOf_val] at hlt
  rw [bitOf, Int32.toInt_ofBitVec, BitVec.toInt_eq_toNat_of_lt (by omega), h, frameOf_val]

section

variable {bm : Bitmap} {bit : Int32} {f : Frame}

theorem toInt_quotient (h : bit.toInt = f.val) : (bit / 32).toInt = (f.val / 32 : Nat) := by
  rw [Int32.toInt_div_of_ne_right _ _ (by decide), h]
  rfl

theorem toInt_remainder (h : bit.toInt = f.val) : (bit % 32).toInt = (f.val % 32 : Nat) := by
  rw [Int32.toInt_mod, h]
  rfl

theorem quotient_inside (h : bit.toInt = f.val) : 0 ≤ bit / 32 ∧ bit / 32 ≤ 32767 := by
  have hf := f.lt
  rw [Int32.le_iff_toInt_le, Int32.le_iff_toInt_le, toInt_quotient h]
  simp only [Int32.reduceToInt]
  omega

/-- All 32 shifts of 1. -/
theorem shiftLeft_one {k : Int32} {j : Nat} (hk : k.toInt = j) (hj : j < 32) :
    shiftLeft 1 k = some (Int32.ofBitVec (1#32 <<< j)) := by
  have hofNat : k = Int32.ofNat j := by
    apply Int32.toInt_inj.mp
    rw [hk, Int32.toInt_ofNat_of_lt (by omega)]
  subst hofNat
  interval_cases j <;> rfl

theorem toNat_quotient (h : bit.toInt = f.val) : (bit / 32).toNatClampNeg = f.val / 32 := by
  rw [Int32.toNatClampNeg, toInt_quotient h, Int.toNat_natCast]

theorem load_word (h : bit.toInt = f.val) : load bm (bit / 32) = some bm[wordOf f] := by
  unfold load
  rw [if_pos (quotient_inside h).1, toNat_quotient h]
  exact Vector.getElem?_eq_getElem (word_lt f)

theorem store_word (h : bit.toInt = f.val) (word : Word) :
    store bm (bit / 32) word = some (bm.set (f.val / 32) word (word_lt f)) := by
  have hq := toNat_quotient h
  have hlt := word_lt f
  rw [← hq] at hlt
  unfold store
  rw [dif_pos ⟨(quotient_inside h).1, hlt⟩]
  simp only [hq]

/-! ## The helpers -/

theorem bitmap_set_frame (h : bit.toInt = f.val) : bitmap_set bm bit = some (Memory.bitmap_set bm f) := by
  have hmask := shiftLeft_one (toInt_remainder h) (Nat.mod_lt _ (by decide))
  unfold bitmap_set
  rw [hmask, load_word h]
  exact store_word h _

theorem bitmap_clear_frame (h : bit.toInt = f.val) :
    bitmap_clear bm bit = some (Memory.bitmap_clear bm f) := by
  have hmask := shiftLeft_one (toInt_remainder h) (Nat.mod_lt _ (by decide))
  unfold bitmap_clear
  rw [hmask, load_word h]
  exact store_word h _

theorem bitmap_test_frame (h : bit.toInt = f.val) :
    bitmap_test bm bit = some (Int32.ofBitVec (Memory.bitmap_test bm f)) := by
  have hmask := shiftLeft_one (toInt_remainder h) (Nat.mod_lt _ (by decide))
  unfold bitmap_test
  rw [hmask, load_word h]
  rfl

theorem isSet_frame (h : bit.toInt = f.val) : IsSet bm bit ↔ bitAt bm f = true := by
  unfold IsSet
  rw [bitmap_test_frame h, ← bitmap_test_ne_zero]
  constructor
  · rintro ⟨v, hv, hne⟩ h0
    rw [h0] at hv
    exact hne (Option.some.inj hv).symm
  · intro hne
    refine ⟨_, rfl, fun h0 => hne ?_⟩
    exact congrArg Int32.toBitVec h0

end

theorem pmm_free_page_clear (pmm : Pmm) (phys_addr : Word) :
    bitmap_clear pmm.pmm_bitmap (bitOf phys_addr) = some (pmm_free_page pmm phys_addr).pmm_bitmap :=
  bitmap_clear_frame (toInt_bitOf phys_addr)

theorem bitOf_eq_iff {a b : Word} : bitOf a = bitOf b ↔ frameOf a = frameOf b := by
  rw [← Int32.toInt_inj, toInt_bitOf, toInt_bitOf, Nat.cast_inj, Fin.val_inj]

/-- **Independent bits.** For the frames of all addresses the helpers stay inside the array, setting or
clearing one bit leaves every other as it was, and the bits are all that a bitmap is. -/
theorem bitmap_bits_independent :
    (∀ (bm : Bitmap) (a : Word), let f := bitOf a
      (0 ≤ f / 32 ∧ f / 32 ≤ 32767) ∧ (∃ v, bitmap_test bm f = some v) ∧
      (∃ bm', bitmap_set bm f = some bm' ∧
        ∀ b, let g := bitOf b
          IsSet bm' g ↔ g = f ∨ IsSet bm g) ∧
      ∃ bm', bitmap_clear bm f = some bm' ∧
        ∀ b, let g := bitOf b
          IsSet bm' g ↔ g ≠ f ∧ IsSet bm g) ∧
    ∀ bm bm' : Bitmap, (∀ a, IsSet bm (bitOf a) ↔ IsSet bm' (bitOf a)) ↔ bm = bm' := by
  refine ⟨fun bm a => ?_, fun bm bm' => ⟨fun h => ?_, fun h a => by rw [h]⟩⟩
  · have ha := toInt_bitOf a
    refine ⟨quotient_inside ha, ⟨_, bitmap_test_frame ha⟩, ⟨_, bitmap_set_frame ha, fun b => ?_⟩,
      ⟨_, bitmap_clear_frame ha, fun b => ?_⟩⟩
    · simp only [isSet_frame (toInt_bitOf b), bitOf_eq_iff, bitmap_set_eq, bitAt_setBit, Bool.or_eq_true,
        decide_eq_true_eq]
    · simp only [isSet_frame (toInt_bitOf b), bitOf_eq_iff, bitmap_clear_eq, bitAt_clearBit, Bool.and_eq_true,
        decide_eq_true_eq, ne_eq]
  · apply words_ext (w := 32)
    ext f
    have hf := h (addrOf f)
    rw [isSet_frame (toInt_bitOf _), isSet_frame (toInt_bitOf _), frameOf_addrOf] at hf
    rw [mem_clearBits, mem_clearBits, ← Bool.not_eq_true, ← Bool.not_eq_true, hf]

end MiniOS.Memory.Signed
