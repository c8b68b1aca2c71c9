import MiniOS.Boot.Loader

/-!
# The tables of the loader

One entry maps the kernel's 4 MiB, another one the same 4 MiB at 0 for as long as the
loader needs it. An access that keeps to them ends where the address stands for.
-/

open MiniOS.Lib

namespace MiniOS.Boot

/-- Entry 768, and entry 0 as long as `low`. -/
def Mapped (low : Bool) (n : Nat) : Prop := n = KERNEL_PAGE_NUMBER ∨ low = true ∧ n = 0

instance (low : Bool) (n : Nat) : Decidable (Mapped low n) := inferInstanceAs (Decidable (_ ∨ _))

structure Tables (D : BitVec 20) (low : Bool) (u : Mmu) : Prop where
  on : u.on = true
  pse : u.cr4.getLsbD 4 = true
  pae : u.cr4.getLsbD 5 = false
  directory : u.directory = D
  entry : ∀ i : BitVec 10,
    SameEntry (if Mapped low i.toNat then PDE_FLAGS else 0#32) (peek u.mem (entryAt D i))

variable {D : BitVec 20} {low : Bool} {u u' : Mmu}

theorem Tables.pde (h : Tables D low u) (page : BitVec 20) :
    SameEntry (if Mapped low (page.extractLsb' 10 10).toNat then PDE_FLAGS else 0#32) (u.pde page) := by
  unfold Mmu.pde Mmu.pdeAt
  rw [h.directory]
  exact h.entry _

theorem Tables.large (h : Tables D low u) {page : BitVec 20}
    (hm : Mapped low (page.extractLsb' 10 10).toNat) :
    SameEntry PDE_FLAGS (u.pde page) ∧ u.Large (u.pde page) = true := by
  have hpde := h.pde page
  rw [if_pos hm] at hpde
  refine ⟨hpde, ?_⟩
  unfold Mmu.Large
  rw [hpde 7 (by decide) (by decide), h.pse]
  rfl

theorem Tables.absent (h : Tables D low u) {page : BitVec 20}
    (hm : ¬Mapped low (page.extractLsb' 10 10).toNat) : Present (u.pde page) = false := by
  have hpde := h.pde page
  rw [if_neg hm] at hpde
  exact hpde.present

theorem Tables.walk (h : Tables D low u) (page : BitVec 20) :
    u.walk page = if Mapped low (page.extractLsb' 10 10).toNat then
      some ⟨page, 0#10 ++ page.extractLsb' 0 10, true⟩ else none := by
  unfold Mmu.walk
  rw [h.pae]
  by_cases hmapped : Mapped low (page.extractLsb' 10 10).toNat
  · obtain ⟨hpde, hlarge⟩ := h.large hmapped
    rw [if_pos hmapped, hpde.present, hlarge, hpde.extract (by decide), hpde.extract (by decide)]
    rfl
  · rw [if_neg hmapped, h.absent hmapped]
    rfl

theorem Tables.entries (h : Tables D low u) {page : BitVec 20} {a : Address} (ha : a ∈ u.entries page) :
    ∃ i : BitVec 10, Mapped low i.toNat ∧ a = entryAt D i := by
  unfold Mmu.entries at ha
  by_cases hmapped : Mapped low (page.extractLsb' 10 10).toNat
  · obtain ⟨hpde, hlarge⟩ := h.large hmapped
    rw [hpde.present, hlarge] at ha
    refine ⟨_, hmapped, ?_⟩
    rw [← h.directory]
    exact List.mem_singleton.mp ha
  · rw [h.absent hmapped] at ha
    cases ha

theorem Tables.move (h : Tables D low u) (hm : u.Move u') : Tables D low u' := by
  have halike := hm.alike
  refine ⟨hm.on.trans h.on, halike.cr4 ▸ h.pse, halike.cr4 ▸ h.pae, ?_, fun i => ?_⟩
  · rw [← h.directory, Mmu.directory, halike.cr3]
    rfl
  · exact (h.entry i).trans (halike.entry D i)

/-- Where the bytes of a mapped page are, from the first one on. -/
theorem Tables.maps (h : Tables D low u) {old : Set Translation} (hc : u.Current old) {la pa : Address}
    (hold : ∀ t ∈ old, t.page ≠ la.extractLsb' 12 20) :
    u.Maps la pa ↔ Mapped low (la.toNat / 2 ^ 22) ∧ pa = 0#10 ++ la.extractLsb' 0 22 := by
  rw [hc.maps_iff h.on hold, h.walk, page_index]
  constructor
  · rintro ⟨t, ht, rfl⟩
    split at ht
    · obtain rfl := Option.some.inj ht
      exact ⟨‹_›, large_address _ _⟩
    · cases ht
  · rintro ⟨hmapped, rfl⟩
    rw [if_pos hmapped]
    exact ⟨_, rfl, (large_address _ _).symm⟩

/-! ## Addresses -/

theorem physical_word {a : Nat} (h : 0xC0000000 ≤ a) (h' : a < 2 ^ 32) :
    physical (word a) = word (a - KERNEL_VIRTUAL_BASE) := by
  unfold physical KERNEL_VIRTUAL_BASE
  rw [toNat_word h', if_neg (by omega), word_sub h]

theorem physical_low {a : Nat} (h : a < 0xC0000000) : physical (word a) = word a := by
  unfold physical KERNEL_VIRTUAL_BASE
  rw [toNat_word (by omega), if_pos h]

/-- A mapped address is an offset in the first 4 MiB of memory, in both halves. -/
theorem physical_mapped {low : Bool} {la : Word} (h : Mapped low (la.toNat / 2 ^ 22)) :
    physical la = 0#10 ++ la.extractLsb' 0 22 := by
  have hlt := la.isLt
  apply BitVec.eq_of_toNat_eq
  rw [toNat_large_address]
  unfold physical
  rcases h with h | ⟨-, h⟩
  · have h768 : la.toNat / 2 ^ 22 = 768 := h
    rw [if_neg (by unfold KERNEL_VIRTUAL_BASE; omega), BitVec.toNat_sub, BitVec.toNat_ofNat,
      BitVec.toNat_ofNat]
    unfold KERNEL_VIRTUAL_BASE
    omega
  · rw [if_pos (by unfold KERNEL_VIRTUAL_BASE; omega), BitVec.toNat_ofNat]
    omega

/-- `n` bytes from `a`, where the loader accesses memory after `k` instructions: below 4 MiB until it
has jumped, in the kernel's first 4 MiB once paging is on. -/
def Near (k a n : Nat) : Prop :=
  k < 15 ∧ a + n ≤ 0x400000 ∨ 12 ≤ k ∧ 0xC0000000 ≤ a ∧ a + n ≤ 0xC0400000

theorem Near.index {k a n j : Nat} (h : Near k a n) (hj : j < n) :
    Mapped (decide (k < 15)) ((word a + word j).toNat / 2 ^ 22) := by
  rw [← word_add, toNat_word (by unfold Near at h; omega)]
  rcases h with ⟨h15, h⟩ | ⟨-, hbase, h⟩
  · exact Or.inr ⟨decide_eq_true h15, by omega⟩
  · refine Or.inl ?_
    show _ = 768
    omega

theorem Near.physical {k a n j : Nat} (h : Near k a n) (hj : j < n) :
    physical (word a + word j) = physical (word a) + word j := by
  unfold MiniOS.Boot.physical KERNEL_VIRTUAL_BASE
  rw [← word_add, toNat_word (by unfold Near at h; omega),
    toNat_word (by unfold Near at h; omega)]
  rcases h with ⟨-, h⟩ | ⟨-, hbase, h⟩
  · rw [if_pos (by omega), if_pos (by omega), word_add]
  · rw [if_neg (by omega), if_neg (by omega), word_add]
    ring

/-- Without entry 0 and with nothing out of date, only the kernel's 4 MiB are mapped. -/
theorem Tables.kernel_maps (h : Tables D false u) (hc : u.Current ∅) (la pa : Word) :
    u.Maps la pa ↔
      0xC0000000 ≤ la.toNat ∧ la.toNat < 0xC0400000 ∧ pa = la - word KERNEL_VIRTUAL_BASE := by
  have hmapped : Mapped false (la.toNat / 2 ^ 22) ↔ 0xC0000000 ≤ la.toNat ∧ la.toNat < 0xC0400000 := by
    have hnumber : KERNEL_PAGE_NUMBER = 768 := rfl
    unfold Mapped
    simp only [Bool.false_eq_true, false_and, or_false]
    omega
  rw [h.maps hc (fun t ht => absurd ht (Set.notMem_empty t)), ← and_assoc, ← hmapped]
  refine and_congr_right fun hla => ?_
  rw [← physical_mapped hla, physical, if_neg (Nat.not_lt.mpr (hmapped.mp hla).1)]

/-! ## The page directory in the image -/

variable {img : Image}

abbrev Image.frame (img : Image) : BitVec 20 :=
  (word (img.boot_page_directory - KERNEL_VIRTUAL_BASE)).extractLsb' 12 20

def InDirectory (img : Image) (x : Word) : Prop :=
  ∃ i : BitVec 10, Mapped true i.toNat ∧ (x - entryAt img.frame i).toNat < 4

theorem Image.toNat_frame (hfit : img.Fits) :
    img.frame.toNat * 2 ^ 12 = img.boot_page_directory - KERNEL_VIRTUAL_BASE := by
  obtain ⟨-, -, hdirectory, hstack⟩ := hfit.low
  unfold Image.frame KERNEL_VIRTUAL_BASE
  rw [BitVec.extractLsb'_toNat, toNat_word (by omega), Nat.shiftRight_eq_div_pow]
  omega

theorem Image.entryAt_frame (hfit : img.Fits) (i : BitVec 10) :
    entryAt img.frame i = word (img.boot_page_directory - KERNEL_VIRTUAL_BASE + i.toNat * 4) := by
  have h := img.toNat_frame hfit
  obtain ⟨-, -, hdirectory, hstack⟩ := hfit.low
  have hi := i.isLt
  apply BitVec.eq_of_toNat_eq
  unfold KERNEL_VIRTUAL_BASE at h ⊢
  rw [toNat_entryAt, h, toNat_word (by omega)]
  rfl

theorem Image.physical_directory (hfit : img.Fits) :
    physical (word (img.boot_page_directory + 0 * 4)) = entryAt img.frame 0 := by
  obtain ⟨-, -, hdirectory, hstack⟩ := hfit.low
  have h0 : img.boot_page_directory + 0 * 4 - KERNEL_VIRTUAL_BASE =
      img.boot_page_directory - KERNEL_VIRTUAL_BASE + (0 : BitVec 10).toNat * 4 := by simp
  rw [img.entryAt_frame hfit, physical_word (by omega) (by omega), h0]

/-- The stack lies above the whole directory. -/
theorem Image.stack_above (hfit : img.Fits) {d j : Nat} (hd : d + 4 ≤ KERNEL_STACK_SIZE) (hj : j < 4)
    (i : BitVec 10) :
    4 ≤ (physical (word (img.kernel_stack + d)) + word j - entryAt img.frame i).toNat ∧
      ∀ n < 4, 4 ≤ (entryAt img.frame i + word n - physical (word (img.kernel_stack + d))).toNat := by
  obtain ⟨-, -, hdirectory, hstack⟩ := hfit.low
  have hi := i.isLt
  unfold KERNEL_STACK_SIZE at hd hstack
  rw [img.entryAt_frame hfit, physical_word (by omega) (by omega), ← word_add]
  unfold KERNEL_VIRTUAL_BASE
  constructor
  · rw [BitVec.toNat_sub, toNat_word (by omega), toNat_word (by omega)]
    omega
  · intro n hn
    rw [← word_add, BitVec.toNat_sub, toNat_word (by omega), toNat_word (by omega)]
    omega

theorem Image.stack_apart (hfit : img.Fits) {d j : Nat} (hd : d + 4 ≤ KERNEL_STACK_SIZE) (hj : j < 4) :
    ¬InDirectory img (physical (word (img.kernel_stack + d)) + word j) := by
  rintro ⟨i, -, hlt⟩
  exact absurd (img.stack_above hfit hd hj i).1 (Nat.not_le.mpr hlt)

/-- What goes to the stack leaves the directory alone. -/
theorem Image.peek_poke_stack (hfit : img.Fits) (m : Bytes) {d : Nat} (hd : d + 4 ≤ KERNEL_STACK_SIZE)
    (v : Word) (i : BitVec 10) :
    peek (poke m (physical (word (img.kernel_stack + d))) v) (entryAt img.frame i) =
      peek m (entryAt img.frame i) :=
  peek_congr fun n hn => poke_other ((img.stack_above hfit hd (j := 0) (by decide) i).2 n hn)

theorem Image.stack_words (hfit : img.Fits) :
    physical (word (img.kernel_stack + (KERNEL_STACK_SIZE - 4))) =
      physical (word (img.kernel_stack + (KERNEL_STACK_SIZE - 8))) + 4#32 := by
  obtain ⟨-, -, hdirectory, hstack⟩ := hfit.low
  unfold KERNEL_STACK_SIZE at hstack
  have hnear : Near 20 (img.kernel_stack + (KERNEL_STACK_SIZE - 8)) 8 :=
    Or.inr ⟨by decide, by omega, by unfold KERNEL_STACK_SIZE; omega⟩
  have hword : KERNEL_STACK_SIZE - 4 = KERNEL_STACK_SIZE - 8 + 4 := rfl
  rw [hword, ← Nat.add_assoc, word_add]
  exact hnear.physical (j := 4) (by decide)

end MiniOS.Boot
