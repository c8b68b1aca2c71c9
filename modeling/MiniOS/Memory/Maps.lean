import MiniOS.Memory.Reserved

/-!
# What `pmm_initialize` makes of a memory map

On maps of whole pages below 4 GiB the free frames are exactly the usable RAM.
-/

open MiniOS.Lib

namespace MiniOS.Memory

def Frame.Inside (f : Frame) (e : MultibootMemoryMap) : Prop := ∀ b, b / 4096 = f.val → e.Holds b

def Frame.Outside (f : Frame) (e : MultibootMemoryMap) : Prop := ∀ b, b / 4096 = f.val → ¬ e.Holds b

theorem Frame.inside_iff (f : Frame) (e : MultibootMemoryMap) :
    f.Inside e ↔ e.base ≤ f.val * 4096 ∧ f.val * 4096 + 4096 ≤ e.base + e.length := by
  constructor
  · intro h
    have hfirst := (h (f.val * 4096) (by omega)).1
    have hlast := (h (f.val * 4096 + 4095) (by omega)).2
    exact ⟨hfirst, by omega⟩
  · intro h b hb
    rw [MultibootMemoryMap.Holds]
    omega

/-- An entry whose 64-bit numbers fit their low halves. -/
structure MultibootMemoryMap.Low (e : MultibootMemoryMap) : Prop where
  base : e.base_addr_high = 0#32
  length : e.length_high = 0#32

theorem MultibootMemoryMap.Low.base_eq {e : MultibootMemoryMap} (h : e.Low) :
    e.base = e.base_addr_low.toNat := by simp [MultibootMemoryMap.base, h.base]

theorem MultibootMemoryMap.Low.length_eq {e : MultibootMemoryMap} (h : e.Low) :
    e.length = e.length_low.toNat := by simp [MultibootMemoryMap.length, h.length]

theorem MultibootMemoryMap.Low.mem_frames {e : MultibootMemoryMap} (h : e.Low)
    (hend : e.base + e.length < 2 ^ 32) (f : Frame) :
    f ∈ e.frames ↔ e.type = 1#32 ∧ e.base / 4096 ≤ f.val ∧
      f.val * 4096 + e.base % 4096 < e.base + e.length := by
  rw [h.base_eq, h.length_eq] at *
  simp only [MultibootMemoryMap.frames, Set.mem_ofPred_eq, mem_regionFrames, BitVec.toNat_add,
    Nat.mod_eq_of_lt hend]

/-! ## Maps of whole pages -/

structure MultibootMemoryMap.WholePages (e : MultibootMemoryMap) : Prop extends e.Low where
  base_aligned : e.base % 4096 = 0
  length_aligned : e.length % 4096 = 0
  below : e.base + e.length < 2 ^ 32

theorem MultibootMemoryMap.WholePages.mem_frames {e : MultibootMemoryMap} (h : e.WholePages)
    (f : Frame) : f ∈ e.frames ↔ e.type = 1#32 ∧ f.Inside e := by
  have := h.base_aligned
  have := h.length_aligned
  rw [h.toLow.mem_frames h.below, f.inside_iff]
  refine and_congr_right fun _ => ?_
  omega

theorem MultibootMemoryMap.WholePages.ends {e : MultibootMemoryMap} (h : e.WholePages) : e.Ends := by
  intro _
  have hend := h.below
  have := h.base_aligned
  have := h.length_aligned
  rw [h.base_eq, h.length_eq] at *
  rw [RegionEnds, BitVec.toNat_add, Nat.mod_eq_of_lt hend]
  omega

theorem mem_rangeFrames_aligned {a b : Word} (ha : a.toNat % 4096 = 0) (f : Frame) :
    f ∈ rangeFrames a b ↔ a.toNat / 4096 ≤ f.val ∧ f.val ≤ b.toNat / 4096 := by
  rw [mem_rangeFrames]
  omega

theorem mem_reservedFrames {mods : List MultibootMod} {ks ke : Word} (hk : KernelRange ks ke)
    (hmods : ∀ m ∈ mods, m.Placed) (f : Frame) :
    f ∈ reservedFrames mods ks ke ↔ f = 0 ∨
      ((ks.toNat - 0xC0000000) / 4096 ≤ f.val ∧ f.val ≤ (ke.toNat - 0xC0000000) / 4096) ∨
      ∃ m ∈ mods, m.mod_start.toNat / 4096 ≤ f.val ∧ f.val ≤ m.mod_end.toNat / 4096 := by
  have hks := physical_toNat hk.base
  have hke := physical_toNat (hk.base.trans hk.le)
  have haligned : (ks - KERNEL_VIRTUAL_BASE).toNat % 4096 = 0 := by
    have := hk.aligned
    rw [hks]
    omega
  have hmod : f ∈ moduleFrames mods ↔
      ∃ m ∈ mods, m.mod_start.toNat / 4096 ≤ f.val ∧ f.val ≤ m.mod_end.toNat / 4096 :=
    exists_congr fun m => and_congr_right fun hm =>
      mem_rangeFrames_aligned (hmods m hm).aligned f
  rw [reservedFrames, Set.mem_union, Set.mem_union, Set.mem_singleton_iff, hmod,
    mem_rangeFrames_aligned haligned, hks, hke, or_comm]

/-- **Exactly the usable RAM.** On maps of whole pages, a frame is free if it lies inside an
available region and is not frame 0, the kernel's or a module's. -/
theorem usable_exact (pmm : Pmm) (mem : Mem) (p ks ke : Word) (info : BootInfo)
    (hi : Carries mem p info) (hmap : ∀ e ∈ info.entries, e.type = 1#32 → e.WholePages)
    (hk : KernelRange ks ke) (hmods : ∀ m ∈ info.mods, m.Placed) :
    (∃ fuel pmm', pmm_initialize fuel pmm mem p ks ke = some pmm') ∧
      ∀ fuel pmm', pmm_initialize fuel pmm mem p ks ke = some pmm' → ∀ f : Frame,
        bitmap_test pmm'.pmm_bitmap f = 0#32 ↔
          (∃ e ∈ info.entries, e.type = 1#32 ∧ f.Inside e) ∧ f ≠ 0 ∧
          ¬ ((ks.toNat - 0xC0000000) / 4096 ≤ f.val ∧ f.val ≤ (ke.toNat - 0xC0000000) / 4096) ∧
          ∀ m ∈ info.mods, ¬ (m.mod_start.toNat / 4096 ≤ f.val ∧ f.val ≤ m.mod_end.toNat / 4096) := by
  have hends : LoopsEnd info ks ke :=
    ⟨fun e he ht => (hmap e he ht).ends ht, hk.rangeEnds, fun m hm => (hmods m hm).rangeEnds⟩
  refine ⟨pmm_initialize_returns hi hends pmm, fun fuel pmm' h f => ?_⟩
  have havail : f ∈ availableFrames info.entries ↔
      ∃ e ∈ info.entries, e.type = 1#32 ∧ f.Inside e := by
    refine exists_congr fun e => and_congr_right fun he => ?_
    constructor
    · intro hf
      exact ((hmap e he hf.1).mem_frames f).mp hf
    · rintro ⟨ht, hin⟩
      exact ((hmap e he ht).mem_frames f).mpr ⟨ht, hin⟩
  rw [← mem_freeFrames, pmm_initialize_spec hi h, usableFrames, Set.mem_sdiff, havail,
    mem_reservedFrames hk hmods]
  simp only [not_or, not_exists, not_and]

/-- 1 MiB of whole pages: frame 0x30 is free, and frame 0x20 belongs to the module. -/
def pagedBoot : BootInfo := ⟨[ramAt 0#32 0x100000#32], [⟨0x20000#32, 0x21000#32⟩]⟩

theorem pagedBoot_carries : Carries (bootImage pagedBoot) 0xC0001000#32 pagedBoot where
  entries := by
    rw [if_pos (by decide)]
    exact .next (by decide) (.done (by decide))
  mods := by decide

theorem pagedBoot_pages : ∀ e ∈ pagedBoot.entries, e.type = 1#32 → e.WholePages := by
  intro e he _
  obtain rfl := List.mem_singleton.mp he
  exact ⟨⟨by decide, by decide⟩, by decide, by decide, by decide⟩

theorem pagedBoot_placed : ∀ m ∈ pagedBoot.mods, m.Placed := by
  intro m hm
  obtain rfl := List.mem_singleton.mp hm
  exact ⟨by decide, by decide, by decide⟩

theorem pagedBoot_ends : LoopsEnd pagedBoot 0xC0100000#32 0xC0110000#32 where
  entries e he := (pagedBoot_pages e he (by obtain rfl := List.mem_singleton.mp he; rfl)).ends
  kernel := bootKernel.rangeEnds
  mods m hm := (pagedBoot_placed m hm).rangeEnds

theorem usable_paged_boot :
    ∃ fuel pmm', pmm_initialize fuel onePage (bootImage pagedBoot) 0xC0001000#32 0xC0100000#32
        0xC0110000#32 = some pmm' ∧ bitmap_test pmm'.pmm_bitmap 0x30 = 0#32 := by
  obtain ⟨⟨fuel, pmm', h⟩, hexact⟩ := usable_exact onePage (bootImage pagedBoot) 0xC0001000#32
    0xC0100000#32 0xC0110000#32 pagedBoot pagedBoot_carries pagedBoot_pages bootKernel
    pagedBoot_placed
  refine ⟨fuel, pmm', h, (hexact fuel pmm' h 0x30).mpr ⟨?_, by decide, by decide, ?_⟩⟩
  · refine ⟨_, List.mem_singleton.mpr rfl, rfl, ?_⟩
    rw [Frame.inside_iff]
    decide
  · intro m hm
    obtain rfl := List.mem_singleton.mp hm
    decide

end MiniOS.Memory
