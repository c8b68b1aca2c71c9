import MiniOS.Memory.Edges

/-!
# The order of the boot information

Available regions are cleared and reserved ones set, all of the former before all of the
latter. Neither the order among the regions of a kind nor a repetition can be seen in the
bitmap.
-/

open MiniOS.Lib

namespace MiniOS.Memory

/-- The entries and modules of `info`, in any order, and each of them any number of times. -/
structure Rearranges (info info' : BootInfo) : Prop where
  entries : ∀ e, e ∈ info'.entries ↔ e ∈ info.entries
  mods : ∀ m, m ∈ info'.mods ↔ m ∈ info.mods

theorem mem_repeated {α : Type} {xs xs' more : List α} (h : xs'.Perm (xs ++ more)) (hmore : more ⊆ xs)
    (x : α) : x ∈ xs' ↔ x ∈ xs := by
  rw [h.mem_iff, List.mem_append]
  exact or_iff_left_of_imp fun hx => hmore hx

/-- A permutation after any repetitions. -/
theorem rearranges_perm {info info' : BootInfo} (es : List MultibootMemoryMap) (ms : List MultibootMod)
    (hentries : info'.entries.Perm (info.entries ++ es)) (hes : es ⊆ info.entries)
    (hmods : info'.mods.Perm (info.mods ++ ms)) (hms : ms ⊆ info.mods) : Rearranges info info' :=
  ⟨mem_repeated hentries hes, mem_repeated hmods hms⟩

variable {info info' : BootInfo}

theorem Rearranges.usable (h : Rearranges info info') (ks ke : Word) :
    usableFrames info' ks ke = usableFrames info ks ke := by
  have havailable : availableFrames info'.entries = availableFrames info.entries := by
    ext f
    simp only [availableFrames, Set.mem_ofPred_eq, h.entries]
  have hmods : moduleFrames info'.mods = moduleFrames info.mods := by
    ext f
    simp only [moduleFrames, Set.mem_ofPred_eq, h.mods]
  rw [usableFrames, usableFrames, reservedFrames, reservedFrames, havailable, hmods]

theorem Rearranges.loopsEnd (h : Rearranges info info') {ks ke : Word} (hends : LoopsEnd info ks ke) :
    LoopsEnd info' ks ke where
  entries e he := hends.entries e ((h.entries e).mp he)
  kernel := hends.kernel
  mods m hm := hends.mods m ((h.mods m).mp hm)

/-- **Order.** If `pmm_initialize` returns for one boot information, it returns for every rearrangement
of it, in whatever memory that stands, with the same bitmap. -/
theorem pmm_initialize_order (pmm pmm' : Pmm) (mem mem' : Mem) (p p' ks ke : Word)
    (info info' : BootInfo) (hi : Carries mem p info) (hi' : Carries mem' p' info')
    (hsame : Rearranges info info') (fuel : Nat) (r : Pmm)
    (h : pmm_initialize fuel pmm mem p ks ke = some r) :
    (∃ fuel' r', pmm_initialize fuel' pmm' mem' p' ks ke = some r') ∧
      ∀ fuel' r', pmm_initialize fuel' pmm' mem' p' ks ke = some r' →
        r'.pmm_bitmap = r.pmm_bitmap := by
  have hends := hsame.loopsEnd (pmm_initialize_loopsEnd hi h)
  refine ⟨pmm_initialize_returns hi' hends pmm', fun fuel' r' h' => freeFrames_ext ?_⟩
  rw [pmm_initialize_spec hi' h', pmm_initialize_spec hi h, hsame.usable]

/-- Two regions that share a page, and two modules. -/
def sharedBoot : BootInfo :=
  ⟨[ramAt 0#32 0x9FC00#32, ramAt 0x9F000#32 0x2000#32], [⟨0x20000#32, 0x21000#32⟩, ⟨0x30000#32, 0x30800#32⟩]⟩

def shuffledBoot : BootInfo :=
  ⟨[ramAt 0x9F000#32 0x2000#32, ramAt 0#32 0x9FC00#32, ramAt 0x9F000#32 0x2000#32],
    [⟨0x30000#32, 0x30800#32⟩, ⟨0x20000#32, 0x21000#32⟩]⟩

theorem sharedBoot_carries : Carries (bootImage sharedBoot) 0xC0001000#32 sharedBoot where
  entries := by
    rw [if_pos (by decide)]
    exact .next (by decide) (.next (by decide) (.done (by decide)))
  mods := by decide

theorem shuffledBoot_carries : Carries (bootImage shuffledBoot) 0xC0001000#32 shuffledBoot where
  entries := by
    rw [if_pos (by decide)]
    exact .next (by decide) (.next (by decide) (.next (by decide) (.done (by decide))))
  mods := by decide

theorem sharedBoot_loopsEnd : LoopsEnd sharedBoot 0xC0100000#32 0xC0110000#32 where
  entries := by simp [sharedBoot, ramAt, MultibootMemoryMap.Ends, RegionEnds]
  kernel := bootKernel.rangeEnds
  mods := by simp [sharedBoot, RangeEnds]

theorem pmm_initialize_order_shuffled :
    ∃ fuel r fuel' r', pmm_initialize fuel onePage (bootImage sharedBoot) 0xC0001000#32 0xC0100000#32
        0xC0110000#32 = some r ∧
      pmm_initialize fuel' onePage (bootImage shuffledBoot) 0xC0001000#32 0xC0100000#32
        0xC0110000#32 = some r' ∧ r'.pmm_bitmap = r.pmm_bitmap := by
  obtain ⟨fuel, r, h⟩ := pmm_initialize_returns sharedBoot_carries sharedBoot_loopsEnd onePage
  have hsame : Rearranges sharedBoot shuffledBoot :=
    rearranges_perm [ramAt 0x9F000#32 0x2000#32] [] (by decide) (by simp [sharedBoot]) (by decide)
      (by simp)
  obtain ⟨⟨fuel', r', h'⟩, heq⟩ := pmm_initialize_order onePage onePage (bootImage sharedBoot)
    (bootImage shuffledBoot) 0xC0001000#32 0xC0001000#32 0xC0100000#32 0xC0110000#32 sharedBoot
    shuffledBoot sharedBoot_carries shuffledBoot_carries hsame fuel r h
  exact ⟨fuel, r, fuel', r', h, h', heq fuel' r' h'⟩

end MiniOS.Memory
