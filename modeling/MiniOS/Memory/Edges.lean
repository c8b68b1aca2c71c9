import MiniOS.Memory.Maps

/-!
# The regions that step 2 gets wrong

The region loop reads the low halves of base and length, adds them modulo 2^32, and
rounds both ends by division. So it frees pages that are RAM only in part, it runs
forever or clears nothing near 4 GiB, and it takes a region above 4 GiB for one below.
Each section says for which maps this happens.
-/

open MiniOS.Lib

namespace MiniOS.Memory

/-! ## Ends inside a page -/

def InRam (es : List MultibootMemoryMap) (b : Nat) : Prop := ∃ e ∈ es, e.type = 1#32 ∧ e.Holds b

/-- Byte `b` of frame `f` lies before the region in its first frame, or after it in the last frame
that the loop reaches. -/
def MultibootMemoryMap.Spills (e : MultibootMemoryMap) (f : Frame) (b : Nat) : Prop :=
  e.type = 1#32 ∧ 0 < e.length ∧ b / 4096 = f.val ∧
    ((f.val = e.base / 4096 ∧ b < e.base) ∨
      (f.val = e.base / 4096 + (e.length - 1) / 4096 ∧ e.base + e.length ≤ b))

theorem MultibootMemoryMap.Low.spills_iff {e : MultibootMemoryMap} (h : e.Low)
    (hend : e.base + e.length < 2 ^ 32) (f : Frame) (b : Nat) :
    e.Spills f b ↔ f ∈ e.frames ∧ b / 4096 = f.val ∧ ¬ e.Holds b := by
  rw [h.mem_frames hend, MultibootMemoryMap.Spills, MultibootMemoryMap.Holds, not_and_or, not_le,
    not_lt]
  generalize e.base = base at *
  generalize e.length = length at *
  generalize f.val = n at *
  constructor
  · rintro ⟨ht, hpos, hb, ⟨hn, hlt⟩ | ⟨hn, hle⟩⟩
    · exact ⟨⟨ht, by omega, by omega⟩, hb, Or.inl hlt⟩
    · exact ⟨⟨ht, by omega, by omega⟩, hb, Or.inr hle⟩
  · rintro ⟨⟨ht, hfirst, hlast⟩, hb, hlt | hle⟩
    · exact ⟨ht, by omega, hb, Or.inl ⟨by omega, hlt⟩⟩
    · exact ⟨ht, by omega, hb, Or.inr ⟨by omega, hle⟩⟩

structure MultibootMemoryMap.BelowLastPage (e : MultibootMemoryMap) : Prop extends e.Low where
  below : e.base + e.length ≤ 0xFFFFF000

theorem MultibootMemoryMap.BelowLastPage.ends {e : MultibootMemoryMap} (h : e.BelowLastPage) :
    e.Ends := by
  intro _
  have hend := h.below
  rw [h.base_eq, h.length_eq] at hend
  rw [RegionEnds, BitVec.toNat_add, Nat.mod_eq_of_lt (by omega)]
  omega

/-- **Partly available pages.** The call frees only RAM exactly when, at the edges of the available
regions, what lies outside a region is RAM of another one or in a frame that is reserved. -/
theorem free_frames_ram_iff (pmm : Pmm) (mem : Mem) (p ks ke : Word) (info : BootInfo)
    (hi : Carries mem p info) (hmap : ∀ e ∈ info.entries, e.BelowLastPage) :
    (∃ fuel bm,
      free_available fuel mem (MultibootInfo.read mem p) (mark_all pmm.pmm_bitmap) = some bm) ∧
      ∀ fuel pmm', pmm_initialize fuel pmm mem p ks ke = some pmm' →
        ((∀ f : Frame, bitmap_test pmm'.pmm_bitmap f = 0#32 →
            ∀ b, b / 4096 = f.val → InRam info.entries b) ↔
          ∀ e ∈ info.entries, ∀ f b, e.Spills f b → f ∉ reservedFrames info.mods ks ke →
            InRam info.entries b) := by
  refine ⟨free_available_ends hi (fun e he => (hmap e he).ends) _, fun fuel pmm' h => ?_⟩
  have hspills : ∀ e ∈ info.entries, ∀ f b,
      e.Spills f b ↔ f ∈ e.frames ∧ b / 4096 = f.val ∧ ¬ e.Holds b := fun e he =>
    (hmap e he).toLow.spills_iff (by have := (hmap e he).below; omega)
  simp only [← mem_freeFrames, pmm_initialize_spec hi h]
  constructor
  · intro hram e he f b hb hres
    obtain ⟨hf, hbf, -⟩ := (hspills e he f b).mp hb
    exact hram f ⟨⟨e, he, hf⟩, hres⟩ b hbf
  · rintro hedge f ⟨⟨e, he, hf⟩, hres⟩ b hb
    by_cases hin : e.Holds b
    · exact ⟨e, he, hf.1, hin⟩
    · exact hedge e he f b ((hspills e he f b).mpr ⟨hf, hb, hin⟩) hres

theorem free_frames_ram_paged :
    ∃ fuel pmm', pmm_initialize fuel onePage (bootImage pagedBoot) 0xC0001000#32 0xC0100000#32
        0xC0110000#32 = some pmm' ∧ ∀ f : Frame, bitmap_test pmm'.pmm_bitmap f = 0#32 →
          ∀ b, b / 4096 = f.val → InRam pagedBoot.entries b := by
  have hmap : ∀ e ∈ pagedBoot.entries, e.BelowLastPage := by
    intro e he
    obtain rfl := List.mem_singleton.mp he
    exact ⟨⟨by decide, by decide⟩, by decide⟩
  obtain ⟨fuel, pmm', h⟩ := pmm_initialize_returns pagedBoot_carries pagedBoot_ends onePage
  refine ⟨fuel, pmm', h, ((free_frames_ram_iff onePage (bootImage pagedBoot) 0xC0001000#32
    0xC0100000#32 0xC0110000#32 pagedBoot pagedBoot_carries hmap).2 fuel pmm' h).mpr ?_⟩
  rintro e he f b ⟨-, -, hb, hedge⟩ -
  obtain rfl := List.mem_singleton.mp he
  have hbase : (ramAt 0#32 0x100000#32).base = 0 := by decide
  have hlength : (ramAt 0#32 0x100000#32).length = 0x100000 := by decide
  rw [hbase, hlength] at hedge
  omega

/-- Between the module and the kernel nothing is reserved. -/
theorem smallBoot_unreserved {f : Frame} (hlo : 0x21 < f.val) (hhi : f.val < 0x100) :
    f ∉ reservedFrames smallBoot.mods 0xC0100000#32 0xC0110000#32 := by
  rw [mem_reservedFrames bootKernel smallBoot_placed]
  rintro (rfl | ⟨hk, -⟩ | ⟨m, hm, -, hend⟩)
  · exact absurd hlo (by decide)
  · have hstart : ((0xC0100000#32 : Word).toNat - 0xC0000000) / 4096 = 0x100 := by decide
    omega
  · obtain rfl := List.mem_singleton.mp hm
    exact absurd (hend.trans (show _ ≤ 0x21 by decide)) (Nat.not_le.mpr hlo)

def MultibootMemoryMap.Disjoint (e e' : MultibootMemoryMap) : Prop := ∀ b, e.Holds b → ¬ e'.Holds b

/-- The page at 0x9F000 is free, though the BIOS keeps its last KiB. -/
theorem partial_page_free :
    smallBoot.entries.Pairwise MultibootMemoryMap.Disjoint ∧
      (∀ e ∈ smallBoot.entries, e.BelowLastPage) ∧
      ∃ fuel pmm', pmm_initialize fuel onePage (bootImage smallBoot) 0xC0001000#32 0xC0100000#32
        0xC0110000#32 = some pmm' ∧ bitmap_test pmm'.pmm_bitmap 0x9F = 0#32 ∧
          0x9FC00 / 4096 = (0x9F : Frame).val ∧ ¬ InRam smallBoot.entries 0x9FC00 := by
  refine ⟨List.pairwise_singleton _ _, ?_, ?_⟩
  · intro e he
    obtain rfl := List.mem_singleton.mp he
    exact ⟨⟨by decide, by decide⟩, by decide⟩
  obtain ⟨fuel, pmm', h⟩ := pmm_initialize_returns smallBoot_carries smallBoot_loopsEnd onePage
  refine ⟨fuel, pmm', h, ?_, by decide, ?_⟩
  · rw [← mem_freeFrames, pmm_initialize_spec smallBoot_carries h]
    refine ⟨⟨_, List.mem_singleton.mpr rfl, rfl, ?_⟩, smallBoot_unreserved (by decide) (by decide)⟩
    rw [mem_regionFrames]
    decide
  · rintro ⟨e, he, -, -, hlt⟩
    obtain rfl := List.mem_singleton.mp he
    revert hlt
    decide

/-! ## Ends in the last page -/

/-- The region loop of `e` ends within 2^20 rounds, frees each frame inside the region, and frees
none outside it. -/
def MultibootMemoryMap.Cleared (e : MultibootMemoryMap) : Prop :=
  ∀ bm, ∃ bm', clear_region (2 ^ 20) bm e.base_addr_low (e.base_addr_low + e.length_low) = some bm' ∧
    (∀ f : Frame, f.Inside e → bitmap_test bm' f = 0#32) ∧
    ∀ f : Frame, f.Outside e → bitmap_test bm' f = 0#32 → bitmap_test bm f = 0#32

theorem MultibootMemoryMap.low_base (e : MultibootMemoryMap) :
    e.base_addr_low.toNat = e.base % 2 ^ 32 := by
  have := e.base_addr_low.isLt
  rw [MultibootMemoryMap.base]
  omega

theorem MultibootMemoryMap.low_end (e : MultibootMemoryMap) :
    (e.base_addr_low + e.length_low).toNat = (e.base + e.length) % 2 ^ 32 := by
  rw [BitVec.toNat_add, MultibootMemoryMap.base, MultibootMemoryMap.length]
  omega

theorem MultibootMemoryMap.mem_loop (e : MultibootMemoryMap) (f : Frame) :
    f ∈ regionFrames e.base_addr_low (e.base_addr_low + e.length_low) ↔
      e.base % 2 ^ 32 / 4096 ≤ f.val ∧
        f.val * 4096 + e.base % 4096 < (e.base + e.length) % 2 ^ 32 := by
  rw [mem_regionFrames, e.low_base, e.low_end, Nat.mod_mod_of_dvd _ (by decide)]

theorem MultibootMemoryMap.loop_ends (e : MultibootMemoryMap) :
    RegionEnds e.base_addr_low (e.base_addr_low + e.length_low) ↔
      (e.base + e.length) % 2 ^ 32 ≤ 0xFFFFF000 + e.base % 4096 := by
  rw [RegionEnds, e.low_base, e.low_end, Nat.mod_mod_of_dvd _ (by decide)]

/-- The region ends at or before the loop's last look at an address, or it holds no whole page. -/
def MultibootMemoryMap.Reached (e : MultibootMemoryMap) : Prop :=
  e.length = 0 ∨ e.base + e.length ≤ 0xFFFFF000 + e.base % 4096 ∨
    (e.base + e.length = 2 ^ 32 ∧ e.length < 4096)

theorem MultibootMemoryMap.Reached.ends {e : MultibootMemoryMap} (h : e.Reached)
    (hend : e.base + e.length ≤ 2 ^ 32) : RegionEnds e.base_addr_low (e.base_addr_low + e.length_low) := by
  rw [e.loop_ends]
  rcases h with h | h | h <;> omega

theorem MultibootMemoryMap.Reached.mem_loop {e : MultibootMemoryMap} (h : e.Reached)
    (hend : e.base + e.length ≤ 2 ^ 32) (f : Frame) :
    (f.Inside e → f ∈ regionFrames e.base_addr_low (e.base_addr_low + e.length_low)) ∧
      (f.Outside e → f ∉ regionFrames e.base_addr_low (e.base_addr_low + e.length_low)) := by
  rw [e.mem_loop, f.inside_iff]
  constructor
  · rintro ⟨hlo, hhi⟩
    rcases h with h | h | h <;> constructor <;> omega
  · rintro hout ⟨hlo, hhi⟩
    -- the first byte of the frame that is not below the base
    refine hout (max e.base (f.val * 4096)) ?_ ⟨le_max_left _ _, ?_⟩
    · rcases h with h | h | h <;> omega
    · rcases h with h | h | h <;> omega

/-- **The region loop.** For a region below 4 GiB the loop does its work exactly when the region is
empty, ends at or before the last address that the loop looks at, or ends at 4 GiB and holds less
than a page. -/
theorem region_cleared_iff (e : MultibootMemoryMap) (hend : e.base + e.length ≤ 2 ^ 32) :
    e.Cleared ↔ e.length = 0 ∨ e.base + e.length ≤ 0xFFFFF000 + e.base % 4096 ∨
      (e.base + e.length = 2 ^ 32 ∧ e.length < 4096) := by
  constructor
  · intro h
    obtain ⟨bm', hbm, hin, -⟩ := h (mark_all (Vector.replicate _ 0#32))
    have hends := clear_region_regionEnds hbm
    have hfree := clear_region_spec hbm
    rw [freeFrames_mark_all, Set.empty_union] at hfree
    rw [e.loop_ends] at hends
    -- a loop that ends on a region up to 4 GiB has cleared nothing, not even the last frame
    by_contra hnot
    have hlast : Frame.Inside 0xFFFFF e := by
      rw [Frame.inside_iff]
      have : (0xFFFFF : Frame).val = 0xFFFFF := rfl
      omega
    have hmem : (0xFFFFF : Frame) ∈ freeFrames bm' := hin _ hlast
    rw [hfree, e.mem_loop] at hmem
    omega
  · intro h bm
    have h : e.Reached := h
    obtain ⟨bm', hbm⟩ := clear_region_ends (h.ends hend) bm
    have hfree := clear_region_spec hbm
    refine ⟨bm', hbm, fun f hf => ?_, fun f hf hclear => ?_⟩
    · rw [← mem_freeFrames, hfree]
      exact Or.inr ((h.mem_loop hend f).1 hf)
    · rw [← mem_freeFrames, hfree] at hclear
      exact hclear.resolve_right ((h.mem_loop hend f).2 hf)

theorem region_cleared_low : (ramAt 0xFFE00000#32 0x100000#32).Cleared :=
  (region_cleared_iff _ (by decide)).mpr (Or.inr (Or.inl (by decide)))

/-- On 4 GiB less half a page the loop never ends. -/
theorem region_never_ends :
    (ramAt 0#32 0xFFFFF800#32).base + (ramAt 0#32 0xFFFFF800#32).length ≤ 2 ^ 32 ∧
      ¬ (ramAt 0#32 0xFFFFF800#32).Cleared := by
  refine ⟨by decide, fun h => ?_⟩
  obtain ⟨bm', hbm, -⟩ := h (Vector.replicate _ 0#32)
  have hends := clear_region_regionEnds hbm
  revert hends
  rw [RegionEnds]
  decide

/-! ## Regions above 4 GiB -/

structure MultibootMemoryMap.High (e : MultibootMemoryMap) : Prop where
  available : e.type = 1#32
  above : 2 ^ 32 ≤ e.base
  aligned : e.base % 4096 = 0

theorem MultibootMemoryMap.High.mem_frames {e : MultibootMemoryMap} (h : e.High) (f : Frame) :
    f ∈ e.frames ↔ e.base % 2 ^ 32 ≤ f.val * 4096 ∧
      f.val * 4096 < (e.base + e.length) % 2 ^ 32 := by
  have := h.aligned
  rw [MultibootMemoryMap.frames, Set.mem_ofPred_eq, e.mem_loop]
  constructor
  · rintro ⟨-, hlo, hhi⟩
    omega
  · rintro ⟨hlo, hhi⟩
    refine ⟨h.available, ?_, ?_⟩
    · omega
    · rwa [h.aligned, Nat.add_zero]

theorem MultibootMemoryMap.High.ends_iff {e : MultibootMemoryMap} (h : e.High) :
    e.Ends ↔ (e.base + e.length) % 2 ^ 32 ≤ 0xFFFFF000 := by
  have := h.aligned
  rw [MultibootMemoryMap.Ends, e.loop_ends, this]
  exact ⟨fun hends => hends h.available, fun hle _ => hle⟩

structure Extends (info info' : BootInfo) (extra : List MultibootMemoryMap) : Prop where
  entries : info'.entries.Perm (info.entries ++ extra)
  mods : info'.mods = info.mods

theorem Extends.available {info info' : BootInfo} {extra : List MultibootMemoryMap}
    (h : Extends info info' extra) :
    availableFrames info'.entries = availableFrames info.entries ∪ availableFrames extra := by
  ext f
  simp only [availableFrames, Set.mem_union, Set.mem_ofPred_eq, h.entries.mem_iff, List.mem_append,
    or_and_right, exists_or]

theorem Extends.loopsEnd {info info' : BootInfo} {extra : List MultibootMemoryMap}
    (h : Extends info info' extra) {ks ke : Word} (hends : LoopsEnd info ks ke) :
    LoopsEnd info' ks ke ↔ ∀ e ∈ extra, e.Ends := by
  constructor
  · exact fun h' e he => h'.entries e (h.entries.mem_iff.mpr (List.mem_append_right _ he))
  · refine fun hextra => ⟨fun e he => ?_, hends.kernel, h.mods ▸ hends.mods⟩
    rcases List.mem_append.mp (h.entries.mem_iff.mp he) with he | he
    · exact hends.entries e he
    · exact hextra e he

theorem freeFrames_ext {bm bm' : Bitmap} (h : freeFrames bm = freeFrames bm') : bm = bm' := by
  rw [freeFrames_eq, freeFrames_eq] at h
  exact words_ext h

theorem Extends.usable {info info' : BootInfo} {extra : List MultibootMemoryMap}
    (h : Extends info info' extra) (ks ke : Word) :
    usableFrames info' ks ke = usableFrames info ks ke ↔ ∀ e ∈ extra, ∀ f ∈ e.frames,
      f ∈ availableFrames info.entries ∨ f ∈ reservedFrames info.mods ks ke := by
  rw [usableFrames, usableFrames, h.available, h.mods]
  constructor
  · intro heq e he f hf
    by_cases hres : f ∈ reservedFrames info.mods ks ke
    · exact Or.inr hres
    · have hmem : f ∈ (availableFrames info.entries ∪ availableFrames extra) \
          reservedFrames info.mods ks ke := ⟨Or.inr ⟨e, he, hf⟩, hres⟩
      rw [heq] at hmem
      exact Or.inl hmem.1
  · intro hextra
    ext f
    constructor
    · rintro ⟨hf | ⟨e, he, hf⟩, hres⟩
      · exact ⟨hf, hres⟩
      · exact ⟨(hextra e he f hf).resolve_right hres, hres⟩
    · rintro ⟨hf, hres⟩
      exact ⟨Or.inl hf, hres⟩

/-- **Memory above 4 GiB.** High regions leave the bitmap alone exactly when, cut down to 32 bits,
each of them ends below the last page and lies in frames that are available or reserved without it. -/
theorem high_memory_ignored_iff (pmm : Pmm) (mem mem' : Mem) (p p' ks ke : Word)
    (info info' : BootInfo) (extra : List MultibootMemoryMap) (hi : Carries mem p info)
    (hi' : Carries mem' p' info') (hext : Extends info info' extra) (hhigh : ∀ e ∈ extra, e.High)
    (fuel : Nat) (r : Pmm) (h : pmm_initialize fuel pmm mem p ks ke = some r) :
    (∃ fuel' r', pmm_initialize fuel' pmm mem' p' ks ke = some r' ∧ r'.pmm_bitmap = r.pmm_bitmap) ↔
      ∀ e ∈ extra, (e.base + e.length) % 2 ^ 32 ≤ 0xFFFFF000 ∧
        ∀ f : Frame, e.base % 2 ^ 32 ≤ f.val * 4096 → f.val * 4096 < (e.base + e.length) % 2 ^ 32 →
          f ∈ availableFrames info.entries ∨ f ∈ reservedFrames info.mods ks ke := by
  have hends := hext.loopsEnd (pmm_initialize_loopsEnd hi h)
  have husable := hext.usable ks ke
  constructor
  · rintro ⟨fuel', r', h', heq⟩ e he
    refine ⟨((hhigh e he).ends_iff).mp (hends.mp (pmm_initialize_loopsEnd hi' h') e he), ?_⟩
    intro f hlo hhi
    have hsame : usableFrames info' ks ke = usableFrames info ks ke := by
      rw [← pmm_initialize_spec hi' h', heq, pmm_initialize_spec hi h]
    exact husable.mp hsame e he f (((hhigh e he).mem_frames f).mpr ⟨hlo, hhi⟩)
  · intro hcond
    obtain ⟨fuel', r', h'⟩ := pmm_initialize_returns hi'
      (hends.mpr fun e he => ((hhigh e he).ends_iff).mpr (hcond e he).1) pmm
    refine ⟨fuel', r', h', freeFrames_ext ?_⟩
    rw [pmm_initialize_spec hi' h', pmm_initialize_spec hi h]
    refine husable.mpr fun e he f hf => ?_
    obtain ⟨hlo, hhi⟩ := ((hhigh e he).mem_frames f).mp hf
    exact (hcond e he).2 f hlo hhi

def highRamAt (base length : Word) : MultibootMemoryMap := { ramAt base length with base_addr_high := 1#32 }

/-- A machine with 1 MiB and, above 4 GiB, what its low half takes for the same MiB. -/
def shadowBoot : BootInfo := ⟨highRamAt 0#32 0x100000#32 :: pagedBoot.entries, pagedBoot.mods⟩

theorem shadowBoot_carries : Carries (bootImage shadowBoot) 0xC0001000#32 shadowBoot where
  entries := by
    rw [if_pos (by decide)]
    exact .next (by decide) (.next (by decide) (.done (by decide)))
  mods := by decide

theorem high_memory_shadow :
    ∃ fuel r fuel' r', pmm_initialize fuel onePage (bootImage pagedBoot) 0xC0001000#32 0xC0100000#32
        0xC0110000#32 = some r ∧
      pmm_initialize fuel' onePage (bootImage shadowBoot) 0xC0001000#32 0xC0100000#32
        0xC0110000#32 = some r' ∧ r'.pmm_bitmap = r.pmm_bitmap := by
  obtain ⟨fuel, r, h⟩ := pmm_initialize_returns pagedBoot_carries pagedBoot_ends onePage
  have hhigh : ∀ e ∈ [highRamAt 0#32 0x100000#32], e.High := by
    intro e he
    obtain rfl := List.mem_singleton.mp he
    exact ⟨rfl, by decide, by decide⟩
  have hsame := (high_memory_ignored_iff onePage (bootImage pagedBoot) (bootImage shadowBoot)
    0xC0001000#32 0xC0001000#32 0xC0100000#32 0xC0110000#32 pagedBoot shadowBoot
    [highRamAt 0#32 0x100000#32] pagedBoot_carries shadowBoot_carries
    ⟨(List.perm_append_singleton _ _).symm, rfl⟩ hhigh fuel r h).mpr
  obtain ⟨fuel', r', h', heq⟩ := hsame fun e he => by
    obtain rfl := List.mem_singleton.mp he
    refine ⟨by decide, fun f hlo hhi => Or.inl ⟨_, List.mem_singleton.mpr rfl, rfl, ?_⟩⟩
    have hoffset : (0#32 : Word).toNat % 4096 = 0 := by decide
    have hend : (0#32 + 0x100000#32 : Word).toNat =
      ((highRamAt 0#32 0x100000#32).base + (highRamAt 0#32 0x100000#32).length) % 2 ^ 32 := by decide
    rw [mem_regionFrames]
    refine ⟨Nat.zero_le _, ?_⟩
    rwa [ramAt, hoffset, hend, Nat.add_zero]
  exact ⟨fuel, r, fuel', r', h, h', heq⟩

def bigBoot : BootInfo := ⟨highRamAt 0#32 0x40000000#32 :: smallBoot.entries, smallBoot.mods⟩

theorem bigBoot_carries : Carries (bootImage bigBoot) 0xC0001000#32 bigBoot where
  entries := by
    rw [if_pos (by decide)]
    exact .next (by decide) (.next (by decide) (.done (by decide)))
  mods := by decide

/-- The video memory at 0xA0000 is free on the big machine only. -/
theorem high_memory_frees_video :
    Extends smallBoot bigBoot [highRamAt 0#32 0x40000000#32] ∧
      (highRamAt 0#32 0x40000000#32).High ∧
      ∃ fuel r fuel' r', pmm_initialize fuel onePage (bootImage smallBoot) 0xC0001000#32 0xC0100000#32
          0xC0110000#32 = some r ∧
        pmm_initialize fuel' onePage (bootImage bigBoot) 0xC0001000#32 0xC0100000#32
          0xC0110000#32 = some r' ∧
        bitmap_test r.pmm_bitmap 0xA0 ≠ 0#32 ∧ bitmap_test r'.pmm_bitmap 0xA0 = 0#32 := by
  have hext : Extends smallBoot bigBoot [highRamAt 0#32 0x40000000#32] :=
    ⟨(List.perm_append_singleton _ _).symm, rfl⟩
  have hhigh : (highRamAt 0#32 0x40000000#32).High := ⟨rfl, by decide, by decide⟩
  have hends := (hext.loopsEnd smallBoot_loopsEnd).mpr fun e he => by
    obtain rfl := List.mem_singleton.mp he
    exact hhigh.ends_iff.mpr (by decide)
  obtain ⟨fuel, r, h⟩ := pmm_initialize_returns smallBoot_carries smallBoot_loopsEnd onePage
  obtain ⟨fuel', r', h'⟩ := pmm_initialize_returns bigBoot_carries hends onePage
  refine ⟨hext, hhigh, fuel, r, fuel', r', h, h', ?_, ?_⟩
  · intro hfree
    rw [← mem_freeFrames, pmm_initialize_spec smallBoot_carries h] at hfree
    obtain ⟨⟨e, he, -, hf⟩, -⟩ := hfree
    obtain rfl := List.mem_singleton.mp he
    rw [mem_regionFrames] at hf
    revert hf
    decide
  · rw [← mem_freeFrames, pmm_initialize_spec bigBoot_carries h']
    exact ⟨⟨_, List.mem_cons_self, (hhigh.mem_frames _).mpr (by decide)⟩,
      smallBoot_unreserved (by decide) (by decide)⟩

end MiniOS.Memory
