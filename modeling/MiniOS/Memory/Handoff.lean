import MiniOS.Memory.Edges
import MiniOS.Memory.FirstFit

/-!
# What GRUB hands over

The information record, the memory map and the module array lie in RAM themselves.
`kmain` reads them after it has allocated a page.
-/

open MiniOS.Lib

namespace MiniOS.Memory

/-- The frames of the `size` bytes that the kernel sees at `addr`. -/
def objectFrames (addr : Word) (size : Nat) : Set Frame :=
  {f | ∃ k < size, f = frameOf (addr + BitVec.ofNat 32 k - KERNEL_VIRTUAL_BASE)}

/-- `sizeof(multiboot_info_t)`. -/
abbrev INFO_SIZE : Nat := 88

abbrev MOD_SIZE : Nat := 16

def mapFrames (mbinfo : MultibootInfo) : Set Frame :=
  {f | mbinfo.flags &&& MULTIBOOT_FLAG_MEMMAP ≠ 0#32 ∧
    f ∈ objectFrames (mbinfo.mmap_addr + KERNEL_VIRTUAL_BASE) mbinfo.mmap_length.toNat}

def modArrayFrames (mbinfo : MultibootInfo) : Set Frame :=
  {f | mbinfo.flags &&& MULTIBOOT_FLAG_MODS ≠ 0#32 ∧
    f ∈ objectFrames (mbinfo.mods_addr + KERNEL_VIRTUAL_BASE) (MOD_SIZE * mbinfo.mods_count.toNat)}

def handedOver (mem : Mem) (p : Word) : Set Frame :=
  objectFrames p INFO_SIZE ∪ mapFrames (MultibootInfo.read mem p) ∪
    modArrayFrames (MultibootInfo.read mem p)

/-- No page of the set is free, and no run of the allocator returns one. -/
def Kept (pmm : Pmm) (fs : Set Frame) : Prop :=
  ∀ f ∈ fs, bitmap_test pmm.pmm_bitmap f ≠ 0#32 ∧
    ∀ calls c, Run Client.Step ⟨pmm, ∅⟩ calls c → ∀ a, Call.alloc a ∈ calls → a ≠ 0#32 → frameOf a ≠ f

theorem kept_iff {pmm : Pmm} (h0 : bitmap_test pmm.pmm_bitmap 0 ≠ 0#32) (fs : Set Frame) :
    Kept pmm fs ↔ ∀ f ∈ fs, f ∉ freeFrames pmm.pmm_bitmap := by
  constructor
  · exact fun h f hf => (h f hf).1
  · intro h f hf
    refine ⟨h f hf, ?_⟩
    rintro calls c hrun a ha hne rfl
    exact h _ hf (Client.run_returned h0 hrun ha hne)

/-- **What GRUB hands over is kept exactly where it lies outside the available regions, or with
the kernel, a module or frame 0.** -/
theorem handed_over_kept_iff (pmm : Pmm) (mem : Mem) (p ks ke : Word) (info : BootInfo)
    (hi : Carries mem p info) (fuel : Nat) (pmm' : Pmm)
    (h : pmm_initialize fuel pmm mem p ks ke = some pmm') :
    Kept pmm' (handedOver mem p) ↔ ∀ f ∈ handedOver mem p,
      f ∈ reservedFrames info.mods ks ke ∨ f ∉ availableFrames info.entries := by
  rw [kept_iff (pmm_initialize_zero h), pmm_initialize_spec hi h]
  refine forall₂_congr fun f _ => ?_
  rw [usableFrames, Set.mem_sdiff, not_and_or, not_not, or_comm]

/-! ## Two boots -/

theorem mem_objectFrames {addr : Word} {size : Nat} (hbase : 0xC0000000 ≤ addr.toNat)
    (hend : addr.toNat + size ≤ 2 ^ 32) (f : Frame) :
    f ∈ objectFrames addr size ↔
      Touches f (addr.toNat - 0xC0000000) (addr.toNat - 0xC0000000 + size) := by
  have hbyte : ∀ k < size, (frameOf (addr + BitVec.ofNat 32 k - KERNEL_VIRTUAL_BASE)).val =
      (addr.toNat - 0xC0000000 + k) / 4096 := by
    intro k hk
    have hk' : (addr + BitVec.ofNat 32 k).toNat = addr.toNat + k := by
      rw [BitVec.toNat_add, BitVec.toNat_ofNat]
      omega
    rw [frameOf_val, physical_toNat (by omega), hk', Nat.sub_add_comm hbase]
  constructor
  · rintro ⟨k, hk, rfl⟩
    exact ⟨addr.toNat - 0xC0000000 + k, by omega, by omega, (hbyte k hk).symm⟩
  · rintro ⟨b, hlo, hhi, hb⟩
    refine ⟨b - (addr.toNat - 0xC0000000), by omega, Fin.ext ?_⟩
    rw [hbyte _ (by omega), Nat.add_sub_cancel' hlo, hb]

theorem objectFrames_below {addr : Word} {size n : Nat} (hbase : 0xC0000000 ≤ addr.toNat)
    (hend : addr.toNat + size ≤ 2 ^ 32) (hbelow : addr.toNat - 0xC0000000 + size ≤ 4096 * n) {f : Frame}
    (hf : f ∈ objectFrames addr size) : f.val < n := by
  obtain ⟨b, -, hb, hbf⟩ := (mem_objectFrames hbase hend f).mp hf
  rw [← hbf]
  exact Nat.div_lt_of_lt_mul (by omega)

/-- RAM at 2 MiB only, far from the record, the map and the module array. -/
def highBoot : BootInfo := ⟨[ramAt 0x200000#32 0x100000#32], smallBoot.mods⟩

theorem highBoot_carries : Carries (bootImage highBoot) 0xC0001000#32 highBoot where
  entries := by
    rw [if_pos (by decide)]
    exact .next (by decide) (.done (by decide))
  mods := by decide

theorem highBoot_loopsEnd : LoopsEnd highBoot 0xC0100000#32 0xC0110000#32 where
  entries := by simp [highBoot, ramAt, MultibootMemoryMap.Ends, RegionEnds]
  kernel := bootKernel.rangeEnds
  mods m hm := (smallBoot_placed m hm).rangeEnds

theorem highBoot_handedOver {f : Frame} (hf : f ∈ handedOver (bootImage highBoot) 0xC0001000#32) :
    f.val < 0x200 := by
  rcases hf with (hf | ⟨-, hf⟩) | ⟨-, hf⟩
  · exact objectFrames_below (by decide) (by decide) (by decide) hf
  · exact objectFrames_below (by decide) (by decide) (by decide) hf
  · exact objectFrames_below (by decide) (by decide) (by decide) hf

theorem handed_over_kept_high :
    ∃ fuel pmm', pmm_initialize fuel onePage (bootImage highBoot) 0xC0001000#32 0xC0100000#32
        0xC0110000#32 = some pmm' ∧ Kept pmm' (handedOver (bootImage highBoot) 0xC0001000#32) := by
  obtain ⟨fuel, pmm', h⟩ := pmm_initialize_returns highBoot_carries highBoot_loopsEnd onePage
  refine ⟨fuel, pmm', h, (handed_over_kept_iff onePage (bootImage highBoot) 0xC0001000#32 0xC0100000#32
    0xC0110000#32 highBoot highBoot_carries fuel pmm' h).mpr fun f hf => Or.inr ?_⟩
  rintro ⟨e, he, -, hlo⟩
  obtain rfl := List.mem_singleton.mp he
  have hbase := ((mem_regionFrames _ _ f).mp hlo).1
  exact absurd (highBoot_handedOver hf) (Nat.not_lt.mpr hbase)

/-- The first page that the kernel allocates is the one that the record is in. -/
theorem record_page_allocated :
    ∃ fuel pmm', pmm_initialize fuel onePage (bootImage smallBoot) 0xC0001000#32 0xC0100000#32
        0xC0110000#32 = some pmm' ∧ (pmm_alloc_page pmm').1 = 0x1000#32 ∧
          frameOf 0x1000#32 ∈ handedOver (bootImage smallBoot) 0xC0001000#32 := by
  obtain ⟨fuel, pmm', h⟩ := pmm_initialize_returns smallBoot_carries smallBoot_loopsEnd onePage
  refine ⟨fuel, pmm', h, ?_, Or.inl (Or.inl ⟨0, by decide, by decide⟩)⟩
  have hfirst : IsFirst pmm'.pmm_bitmap 1 := by
    refine ⟨bitAt_eq_false.mpr ?_, fun g hg => ?_⟩
    · rw [← mem_freeFrames, pmm_initialize_spec smallBoot_carries h]
      refine ⟨⟨_, List.mem_singleton.mpr rfl, rfl, ?_⟩, ?_⟩
      · rw [mem_regionFrames]
        decide
      · rw [mem_reservedFrames bootKernel smallBoot_placed]
        decide
    · obtain rfl : g = 0 := Fin.ext (Nat.lt_one_iff.mp hg)
      exact (bitmap_test_ne_zero _ _).mp (pmm_initialize_zero h)
  rw [pmm_alloc_page_some (scan_eq_some_iff.mpr hfirst)]
  rfl

end MiniOS.Memory
