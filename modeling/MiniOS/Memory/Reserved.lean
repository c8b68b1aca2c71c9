import MiniOS.Memory.Usable

/-!
# Reserved memory is never handed out

Frame 0, the kernel and the modules are marked after the memory map is read, so
no map can free them, and no run of the allocator returns them.
-/

open MiniOS.Lib

namespace MiniOS.Memory

def Touches (f : Frame) (lo hi : Nat) : Prop := ∃ b, lo ≤ b ∧ b < hi ∧ b / 4096 = f.val

/-- What `link.ld` promises of `KERNEL_START` and `KERNEL_END`. -/
structure KernelRange (kernel_start kernel_end : Word) : Prop where
  base : 0xC0000000 ≤ kernel_start.toNat
  aligned : kernel_start.toNat % 4096 = 0
  le : kernel_start.toNat ≤ kernel_end.toNat

/-- A module as GRUB places it when asked to align modules, below the last page. -/
structure MultibootMod.Placed (m : MultibootMod) : Prop where
  aligned : m.mod_start.toNat % 4096 = 0
  le : m.mod_start.toNat ≤ m.mod_end.toNat
  below : m.mod_end.toNat < 0xFFFFF000

def bootFrames (mods : List MultibootMod) (kernel_start kernel_end : Word) : Set Frame :=
  {f | f = 0 ∨ Touches f (kernel_start.toNat - 0xC0000000) (kernel_end.toNat - 0xC0000000) ∨
    ∃ m ∈ mods, Touches f m.mod_start.toNat m.mod_end.toNat}

theorem physical_toNat {a : Word} (h : 0xC0000000 ≤ a.toNat) :
    (a - KERNEL_VIRTUAL_BASE).toNat = a.toNat - 0xC0000000 := by
  have := a.isLt
  rw [BitVec.toNat_sub]
  simp only [BitVec.toNat_ofNat, Nat.reducePow, Nat.reduceMod]
  omega

theorem KernelRange.rangeEnds {ks ke : Word} (h : KernelRange ks ke) :
    RangeEnds (ks - KERNEL_VIRTUAL_BASE) (ke - KERNEL_VIRTUAL_BASE) := by
  have := ke.isLt
  rw [RangeEnds, physical_toNat (h.base.trans h.le), physical_toNat h.base]
  omega

theorem MultibootMod.Placed.rangeEnds {m : MultibootMod} (h : m.Placed) :
    RangeEnds m.mod_start m.mod_end := by
  have := h.below
  simp only [RangeEnds]
  omega

theorem touches_rangeFrames {a b : Word} (ha : a.toNat % 4096 = 0) {f : Frame}
    (h : Touches f a.toNat b.toNat) : f ∈ rangeFrames a b := by
  obtain ⟨x, hax, hxb, hx⟩ := h
  rw [mem_rangeFrames]
  omega

theorem bootFrames_reserved {mods : List MultibootMod} {ks ke : Word} (hk : KernelRange ks ke)
    (hmods : ∀ m ∈ mods, m.Placed) : bootFrames mods ks ke ⊆ reservedFrames mods ks ke := by
  have hks := physical_toNat hk.base
  have hke := physical_toNat (hk.base.trans hk.le)
  rintro f (rfl | hf | ⟨m, hm, hf⟩)
  · exact Or.inr rfl
  · refine Or.inl (Or.inl (touches_rangeFrames ?_ (by rwa [hks, hke])))
    have := hk.aligned
    rw [hks]
    omega
  · exact Or.inl (Or.inr ⟨m, hm, touches_rangeFrames (hmods m hm).aligned hf⟩)

theorem pmm_initialize_zero {fuel : Nat} {pmm pmm' : Pmm} {mem : Mem} {p ks ke : Word}
    (h : pmm_initialize fuel pmm mem p ks ke = some pmm') :
    bitmap_test pmm'.pmm_bitmap 0 ≠ 0#32 := by
  obtain ⟨info, hi, -⟩ := pmm_initialize_carries h
  intro h0
  have hfree : (0 : Frame) ∈ freeFrames pmm'.pmm_bitmap := h0
  rw [pmm_initialize_spec hi h] at hfree
  exact hfree.2 (Or.inr rfl)

/-- **Reserved memory.** If the loops of step 2 end, the call returns, the frames of the kernel,
of the modules and frame 0 are occupied, and no run of the allocator returns one of them. -/
theorem reserved_never_allocated (pmm : Pmm) (mem : Mem) (p ks ke : Word)
    (hstep : ∃ fuel bm,
      free_available fuel mem (MultibootInfo.read mem p) (mark_all pmm.pmm_bitmap) = some bm)
    (hk : KernelRange ks ke) (hmods : ∀ m ∈ (MultibootInfo.read mem p).mods mem, m.Placed) :
    (∃ fuel pmm', pmm_initialize fuel pmm mem p ks ke = some pmm') ∧
      ∀ fuel pmm', pmm_initialize fuel pmm mem p ks ke = some pmm' →
        ∀ f ∈ bootFrames ((MultibootInfo.read mem p).mods mem) ks ke,
          bitmap_test pmm'.pmm_bitmap f ≠ 0#32 ∧
          ∀ calls c, Run Client.Step ⟨pmm', ∅⟩ calls c →
            ∀ a, Call.alloc a ∈ calls → a ≠ 0#32 → frameOf a ≠ f := by
  constructor
  · obtain ⟨fuel, bm, hbm⟩ := hstep
    obtain ⟨info, hi, hends⟩ := free_available_carries hbm
    refine pmm_initialize_returns hi ⟨hends, hk.rangeEnds, fun m hm => ?_⟩ pmm
    rw [hi.mods] at hm
    exact (hmods m hm).rangeEnds
  · intro fuel pmm' h f hf
    obtain ⟨info, hi, -⟩ := pmm_initialize_carries h
    have hfree := pmm_initialize_spec hi h
    have hocc : f ∉ freeFrames pmm'.pmm_bitmap := by
      rw [hfree, usableFrames, hi.mods]
      exact fun hu => hu.2 (bootFrames_reserved hk hmods hf)
    refine ⟨hocc, ?_⟩
    rintro calls c hrun a ha hne rfl
    exact hocc (Client.run_returned (pmm_initialize_zero h) hrun ha hne)

/-! ## A boot image -/

def wordsAt (p : Word) (ws : List Word) (mem : Mem) : Mem := fun a =>
  if (a - p).toNat < 4 * ws.length then
    ((ws.getD ((a - p).toNat / 4) 0#32) >>> (8 * ((a - p).toNat % 4))).setWidth 8
  else mem a

def MultibootMemoryMap.words (e : MultibootMemoryMap) : List Word :=
  [e.size, e.base_addr_low, e.base_addr_high, e.length_low, e.length_high, e.type]

/-- A record at 0xC0001000 with both flags, its map at 0xC0002000 and its modules at 0xC0003000. -/
def bootImage (info : BootInfo) : Mem :=
  wordsAt 0xC0001000#32
      [0x48#32, 0#32, 0#32, 0#32, 0#32, BitVec.ofNat 32 info.mods.length, 0x3000#32, 0#32, 0#32, 0#32,
        0#32, BitVec.ofNat 32 (24 * info.entries.length), 0x2000#32] <|
    wordsAt 0xC0002000#32 (info.entries.flatMap MultibootMemoryMap.words) <|
      wordsAt 0xC0003000#32 (info.mods.flatMap fun m => [m.mod_start, m.mod_end, 0#32, 0#32])
        fun _ => 0#8

def ramAt (base length : Word) : MultibootMemoryMap :=
  { size := 20#32, base_addr_low := base, base_addr_high := 0#32, length_low := length
    length_high := 0#32, type := 1#32 }

theorem bootKernel : KernelRange 0xC0100000#32 0xC0110000#32 := ⟨by decide, by decide, by decide⟩

def smallBoot : BootInfo := ⟨[ramAt 0#32 0x9FC00#32], [⟨0x20000#32, 0x21000#32⟩]⟩

theorem smallBoot_carries : Carries (bootImage smallBoot) 0xC0001000#32 smallBoot where
  entries := by
    rw [if_pos (by decide)]
    exact .next (by decide) (.done (by decide))
  mods := by decide

theorem smallBoot_ends : ∀ e ∈ smallBoot.entries, e.Ends := by
  simp [smallBoot, ramAt, MultibootMemoryMap.Ends, RegionEnds]

theorem smallBoot_placed : ∀ m ∈ smallBoot.mods, m.Placed := by
  intro m hm
  obtain rfl := List.mem_singleton.mp hm
  exact ⟨by decide, by decide, by decide⟩

theorem smallBoot_loopsEnd : LoopsEnd smallBoot 0xC0100000#32 0xC0110000#32 where
  entries := smallBoot_ends
  kernel := bootKernel.rangeEnds
  mods m hm := (smallBoot_placed m hm).rangeEnds

theorem reserved_small_boot :
    ∃ fuel pmm', pmm_initialize fuel onePage (bootImage smallBoot) 0xC0001000#32 0xC0100000#32
        0xC0110000#32 = some pmm' ∧ bitmap_test pmm'.pmm_bitmap 0x20 ≠ 0#32 := by
  obtain ⟨⟨fuel, pmm', h⟩, hres⟩ := reserved_never_allocated onePage (bootImage smallBoot)
    0xC0001000#32 0xC0100000#32 0xC0110000#32
    (free_available_ends smallBoot_carries smallBoot_ends _) bootKernel (smallBoot_carries.mods ▸ smallBoot_placed)
  refine ⟨fuel, pmm', h, (hres fuel pmm' h 0x20 ?_).1⟩
  rw [← smallBoot_carries.mods]
  exact Or.inr (Or.inr ⟨_, List.mem_singleton.mpr rfl, 0x20000, by decide, by decide, by decide⟩)

end MiniOS.Memory
