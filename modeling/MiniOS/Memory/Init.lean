import MiniOS.Memory.Alloc
import MiniOS.Memory.Multiboot
import MiniOS.Lib.Stride

/-!
# `pmm_initialize`

The four steps of `memory.c`, with fuel for the loops that may run forever, and the
set of frames that they leave free.
-/

open MiniOS.Lib

namespace MiniOS.Memory

/-- `for (addr = region_start; addr < region_end; addr += PAGE_SIZE)` of step 2. -/
def clear_region (fuel : Nat) (bm : Bitmap) (region_start region_end : Word) : Option Bitmap :=
  forStride (fun addr => addr < region_end) (BitVec.ofNat 32 PAGE_SIZE)
    (fun bm addr => bitmap_clear bm (frameOf addr)) fuel region_start bm

/-- `for (addr = first; addr <= last; addr += PAGE_SIZE)` of steps 3 and 4. -/
def mark_range (fuel : Nat) (bm : Bitmap) (first last : Word) : Option Bitmap :=
  forStride (fun addr => addr ≤ last) (BitVec.ofNat 32 PAGE_SIZE)
    (fun bm addr => bitmap_set bm (frameOf addr)) fuel first bm

def mark_all (bm : Bitmap) : Bitmap :=
  (List.finRange PMM_BITMAP_SIZE).foldl (fun bm i => bm.set i.val 0xFFFFFFFF#32 i.isLt) bm

/-- One round of step 2. The high halves of base and length are not read. -/
def free_entry (fuel : Nat) (bm : Bitmap) (mmap : MultibootMemoryMap) : Option Bitmap :=
  if mmap.type = 1#32 then
    clear_region fuel bm mmap.base_addr_low (mmap.base_addr_low + mmap.length_low)
  else some bm

def walking (stop : Word) (x : Word × Bitmap) : Bool := x.1 < stop

/-- One round of the walk over the memory map: the entry, then the step to the next one. -/
def walkStep (fuel : Nat) (mem : Mem) (x : Word × Bitmap) : Option (Word × Bitmap) :=
  let mmap := MultibootMemoryMap.read mem x.1
  (free_entry fuel x.2 mmap).map fun bm => (x.1 + mmap.size + 4#32, bm)

def free_available (fuel : Nat) (mem : Mem) (mbinfo : MultibootInfo) (bm : Bitmap) : Option Bitmap :=
  if mbinfo.flags &&& MULTIBOOT_FLAG_MEMMAP ≠ 0#32 then
    let mmap_addr := mbinfo.mmap_addr + KERNEL_VIRTUAL_BASE
    (whileLoop (walking (mmap_addr + mbinfo.mmap_length)) (walkStep fuel mem) fuel
      (mmap_addr, bm)).map Prod.snd
  else some bm

def mark_modules (fuel : Nat) (mem : Mem) (mbinfo : MultibootInfo) (bm : Bitmap) : Option Bitmap :=
  if mbinfo.flags &&& MULTIBOOT_FLAG_MODS ≠ 0#32 then
    if mbinfo.mods_count > 0#32 then
      (List.range mbinfo.mods_count.toNat).foldlM
        (fun bm mod_idx =>
          let m := mbinfo.module mem mod_idx
          mark_range fuel bm m.mod_start m.mod_end) bm
    else some bm
  else some bm

def pmm_initialize (fuel : Nat) (pmm : Pmm) (mem : Mem) (mbinfo kernel_start kernel_end : Word) :
    Option Pmm := do
  let info := MultibootInfo.read mem mbinfo
  let bm := mark_all pmm.pmm_bitmap
  let serial := serial_print pmm.serial <|
    if info.flags &&& MULTIBOOT_FLAG_MEMMAP ≠ 0#32 then
      ascii "PMM: Multiboot Memory Map detectado!\n"
    else ascii "PMM: ERRO! GRUB bloqueou o Memory Map. Todo sistema travado como ocupado.\n"
  let bm ← free_available fuel mem info bm
  let bm ← mark_range fuel bm (kernel_start - KERNEL_VIRTUAL_BASE) (kernel_end - KERNEL_VIRTUAL_BASE)
  let bm ← mark_modules fuel mem info bm
  some
    { pmm_bitmap := bitmap_set bm 0
      serial := serial_print serial
        (ascii "PMM: Gerenciador de RAM Fisica Inicializado via Bitmap.\n") }

/-- What `pmm_initialize` prints. -/
def pmmTexts (mbinfo : MultibootInfo) : List (List Byte) :=
  [if mbinfo.flags &&& MULTIBOOT_FLAG_MEMMAP ≠ 0#32 then ascii "PMM: Multiboot Memory Map detectado!\n"
    else ascii "PMM: ERRO! GRUB bloqueou o Memory Map. Todo sistema travado como ocupado.\n",
    ascii "PMM: Gerenciador de RAM Fisica Inicializado via Bitmap.\n"]

/-- The bitmap does not depend on the line, and the line gets the texts. -/
theorem pmm_initialize_prints (fuel : Nat) (pmm : Pmm) (mem : Mem) (mbinfo ks ke : Word) :
    pmm_initialize fuel pmm mem mbinfo ks ke =
      (fun pmm' => Pmm.mk pmm'.pmm_bitmap <|
        (pmmTexts (MultibootInfo.read mem mbinfo)).foldl serial_print pmm.serial) <$>
        pmm_initialize fuel ⟨pmm.pmm_bitmap, []⟩ mem mbinfo ks ke := by
  unfold pmm_initialize
  simp only [Option.map_eq_map, Option.bind_eq_bind, Option.map_bind, Function.comp_def, Option.map_some]
  rfl

/-! ## The frames of one loop -/

theorem page_dvd : (BitVec.ofNat 32 PAGE_SIZE).toNat ∣ 2 ^ 32 := by decide

def strideFrames (p : Word → Bool) (first : Word) : Set Frame :=
  frameOf '' strideSet p (BitVec.ofNat 32 PAGE_SIZE) first

/-- In each frame from the first one up, the loop looks at one address: the one with the offset of
the first address. -/
theorem mem_strideFrames (p : Word → Bool) (first : Word) (f : Frame) :
    f ∈ strideFrames p first ↔ first.toNat / 4096 ≤ f.val ∧
      p (BitVec.ofNat 32 (f.val * 4096 + first.toNat % 4096)) = true := by
  have hf := f.lt
  have hval : (BitVec.ofNat 32 (f.val * 4096 + first.toNat % 4096)).toNat =
      f.val * 4096 + first.toNat % 4096 := by rw [BitVec.toNat_ofNat]; omega
  constructor
  · rintro ⟨x, ⟨⟨hle, hmod⟩, hpx⟩, rfl⟩
    simp only [PAGE_SIZE, BitVec.toNat_ofNat, Nat.reducePow, Nat.reduceMod] at hmod
    rw [frameOf_val] at hval ⊢
    have hx : BitVec.ofNat 32 (x.toNat / 4096 * 4096 + first.toNat % 4096) = x :=
      BitVec.eq_of_toNat_eq (by rw [hval]; omega)
    rw [hx]
    exact ⟨Nat.div_le_div_right hle, hpx⟩
  · rintro ⟨hle, hp⟩
    refine ⟨_, ⟨⟨?_, ?_⟩, hp⟩, ?_⟩
    · rw [hval]
      omega
    · simp only [PAGE_SIZE, hval, BitVec.toNat_ofNat, Nat.reducePow, Nat.reduceMod]
      omega
    · apply Fin.ext
      rw [frameOf_val, hval]
      omega

def regionFrames (region_start region_end : Word) : Set Frame :=
  strideFrames (fun addr => addr < region_end) region_start

def rangeFrames (first last : Word) : Set Frame := strideFrames (fun addr => addr ≤ last) first

theorem mem_regionFrames (s e : Word) (f : Frame) :
    f ∈ regionFrames s e ↔ s.toNat / 4096 ≤ f.val ∧ f.val * 4096 + s.toNat % 4096 < e.toNat := by
  have := f.lt
  rw [regionFrames, mem_strideFrames, decide_eq_true_eq, BitVec.lt_def, BitVec.toNat_ofNat,
    Nat.mod_eq_of_lt (by omega)]

theorem mem_rangeFrames (a b : Word) (f : Frame) :
    f ∈ rangeFrames a b ↔ a.toNat / 4096 ≤ f.val ∧ f.val * 4096 + a.toNat % 4096 ≤ b.toNat := by
  have := f.lt
  rw [rangeFrames, mem_strideFrames, decide_eq_true_eq, BitVec.le_def, BitVec.toNat_ofNat,
    Nat.mod_eq_of_lt (by omega)]

theorem clear_region_spec {fuel : Nat} {bm bm' : Bitmap} {s e : Word}
    (h : clear_region fuel bm s e = some bm') :
    freeFrames bm' = freeFrames bm ∪ regionFrames s e := by
  obtain ⟨l, rfl, hl⟩ := forStride_spec page_dvd (downClosed_lt e) h
  have hfold := clearBits_foldl_clearBit (w := 32) (n := PMM_BITMAP_SIZE) frameOf l bm
  rw [freeFrames_eq, freeFrames_eq, regionFrames, strideFrames]
  refine hfold.trans ?_
  ext f
  simp only [Set.mem_union, Set.mem_ofPred_eq, Set.mem_image, hl]

theorem mark_range_spec {fuel : Nat} {bm bm' : Bitmap} {a b : Word}
    (h : mark_range fuel bm a b = some bm') : freeFrames bm' = freeFrames bm \ rangeFrames a b := by
  obtain ⟨l, rfl, hl⟩ := forStride_spec page_dvd (downClosed_le b) h
  have hfold := clearBits_foldl_setBit (w := 32) (n := PMM_BITMAP_SIZE) frameOf l bm
  rw [freeFrames_eq, freeFrames_eq, rangeFrames, strideFrames]
  refine hfold.trans ?_
  ext f
  simp only [Set.mem_sdiff, Set.mem_ofPred_eq, Set.mem_image, hl]

/-! ## When a loop ends -/

/-- The last address of a residue class lies in the last frame. The region loop ends exactly when
it is not below the end. -/
def RegionEnds (s e : Word) : Prop := e.toNat ≤ 0xFFFFF000 + s.toNat % 4096

def RangeEnds (a b : Word) : Prop := b.toNat < 0xFFFFF000 + a.toNat % 4096

def lastAddr (a : Word) : Word := BitVec.ofNat 32 (0xFFFFF000 + a.toNat % 4096)

theorem lastAddr_toNat (a : Word) : (lastAddr a).toNat = 0xFFFFF000 + a.toNat % 4096 := by
  rw [lastAddr, BitVec.toNat_ofNat]
  omega

theorem lastAddr_ahead (a : Word) : Ahead (BitVec.ofNat 32 PAGE_SIZE) a (lastAddr a) := by
  have := a.isLt
  constructor
  · rw [lastAddr_toNat]
    omega
  · simp only [lastAddr_toNat, PAGE_SIZE, BitVec.toNat_ofNat, Nat.reducePow, Nat.reduceMod]
    omega

theorem ahead_le_last {a x : Word} (h : Ahead (BitVec.ofNat 32 PAGE_SIZE) a x) :
    x.toNat ≤ 0xFFFFF000 + a.toNat % 4096 := by
  have := x.isLt
  obtain ⟨-, hmod⟩ := h
  simp only [PAGE_SIZE, BitVec.toNat_ofNat, Nat.reducePow, Nat.reduceMod] at hmod
  omega

theorem rounds_le {a : Word} : ((lastAddr a).toNat - a.toNat) / (BitVec.ofNat 32 PAGE_SIZE).toNat ≤
    2 ^ 20 := by
  have := (lastAddr a).isLt
  simp only [PAGE_SIZE, BitVec.toNat_ofNat, Nat.reducePow, Nat.reduceMod] at *
  omega

theorem clear_region_ends {s e : Word} (h : RegionEnds s e) (bm : Bitmap) :
    ∃ bm', clear_region (2 ^ 20) bm s e = some bm' := by
  refine forStride_ends (lastAddr_ahead s) ?_ (by decide) rounds_le bm
  rw [decide_eq_false_iff_not, BitVec.lt_def, lastAddr_toNat]
  exact Nat.not_lt.mpr h

theorem clear_region_regionEnds {fuel : Nat} {bm bm' : Bitmap} {s e : Word}
    (h : clear_region fuel bm s e = some bm') : RegionEnds s e := by
  obtain ⟨x, hx, hlt⟩ := forStride_exit page_dvd (downClosed_lt e) h
  rw [decide_eq_false_iff_not, BitVec.lt_def] at hlt
  have := ahead_le_last hx
  simp only [RegionEnds]
  omega

theorem mark_range_ends {a b : Word} (h : RangeEnds a b) (bm : Bitmap) :
    ∃ bm', mark_range (2 ^ 20) bm a b = some bm' := by
  refine forStride_ends (lastAddr_ahead a) ?_ (by decide) rounds_le bm
  rw [decide_eq_false_iff_not, BitVec.le_def, lastAddr_toNat]
  exact Nat.not_le.mpr h

theorem mark_range_rangeEnds {fuel : Nat} {bm bm' : Bitmap} {a b : Word}
    (h : mark_range fuel bm a b = some bm') : RangeEnds a b := by
  obtain ⟨x, hx, hle⟩ := forStride_exit page_dvd (downClosed_le b) h
  rw [decide_eq_false_iff_not, BitVec.le_def] at hle
  have := ahead_le_last hx
  simp only [RangeEnds]
  omega

end MiniOS.Memory
