import MiniOS.Basic
import MiniOS.Lib.Bits

/-!
# The page bitmap

One bit for each 4 KiB frame of the 4 GiB space: 0 is free, 1 is occupied.
-/

open MiniOS.Lib

namespace MiniOS.Memory

abbrev PAGE_SIZE : Nat := 4096

abbrev PMM_BITMAP_SIZE : Nat := 32768

abbrev Bitmap := Vector Word PMM_BITMAP_SIZE

/-- A bit of the bitmap. Every caller's index is one: see `frameOf`. -/
abbrev Frame := Fin (32 * PMM_BITMAP_SIZE)

instance : NeZero (32 * PMM_BITMAP_SIZE) := ⟨by decide⟩

def frameOf (addr : Word) : Frame :=
  ⟨addr.toNat / PAGE_SIZE, Nat.div_lt_of_lt_mul addr.isLt⟩

/-- `bit * PAGE_SIZE`, modulo 2^32 as the compiled product is. -/
def addrOf (bit : Frame) : Word := BitVec.ofNat 32 (bit.val * PAGE_SIZE)

def bitmap_set (pmm_bitmap : Bitmap) (bit : Frame) : Bitmap :=
  pmm_bitmap.set (bit.val / 32) (pmm_bitmap[bit.val / 32] ||| 1#32 <<< (bit.val % 32))

def bitmap_clear (pmm_bitmap : Bitmap) (bit : Frame) : Bitmap :=
  pmm_bitmap.set (bit.val / 32) (pmm_bitmap[bit.val / 32] &&& ~~~(1#32 <<< (bit.val % 32)))

def bitmap_test (pmm_bitmap : Bitmap) (bit : Frame) : Word :=
  pmm_bitmap[bit.val / 32] &&& 1#32 <<< (bit.val % 32)

def freeFrames (pmm_bitmap : Bitmap) : Set Frame := {f | bitmap_test pmm_bitmap f = 0#32}

theorem bitmap_set_eq (bm : Bitmap) (f : Frame) : bitmap_set bm f = setBit bm f := rfl

theorem bitmap_clear_eq (bm : Bitmap) (f : Frame) : bitmap_clear bm f = clearBit bm f := rfl

theorem bitmap_test_ne_zero (bm : Bitmap) (f : Frame) :
    bitmap_test bm f ≠ 0#32 ↔ bitAt bm f = true :=
  and_mask_ne_zero _ _ (Nat.mod_lt _ (by decide))

theorem freeFrames_eq (bm : Bitmap) : freeFrames bm = clearBits bm := by
  ext f
  have h := bitmap_test_ne_zero bm f
  simp only [freeFrames, Set.mem_ofPred_eq, mem_clearBits]
  cases hb : bitAt bm f <;> simp_all

@[simp] theorem mem_freeFrames (bm : Bitmap) (f : Frame) :
    f ∈ freeFrames bm ↔ bitmap_test bm f = 0#32 := Iff.rfl

theorem freeFrames_set (bm : Bitmap) (f : Frame) :
    freeFrames (bitmap_set bm f) = freeFrames bm \ {f} := by
  rw [freeFrames_eq, freeFrames_eq, bitmap_set_eq, clearBits_setBit]

theorem freeFrames_clear (bm : Bitmap) (f : Frame) :
    freeFrames (bitmap_clear bm f) = insert f (freeFrames bm) := by
  rw [freeFrames_eq, freeFrames_eq, bitmap_clear_eq, clearBits_clearBit]

/-! ## Frames and addresses -/

theorem Frame.lt (f : Frame) : f.val < 1048576 := f.isLt

@[simp] theorem frameOf_val (a : Word) : (frameOf a).val = a.toNat / 4096 := rfl

theorem addrOf_toNat (f : Frame) : (addrOf f).toNat = f.val * 4096 := by
  have := f.lt
  simp only [addrOf, PAGE_SIZE, BitVec.toNat_ofNat]
  omega

theorem frameOf_addrOf (f : Frame) : frameOf (addrOf f) = f := by
  apply Fin.ext
  rw [frameOf_val, addrOf_toNat]
  omega

theorem addrOf_eq_zero (f : Frame) : addrOf f = 0#32 ↔ f = 0 := by
  constructor
  · intro h
    rw [← frameOf_addrOf f, h]
    rfl
  · rintro rfl
    rfl

end MiniOS.Memory
