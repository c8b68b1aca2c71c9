import MiniOS.Basic

/-!
# The kernel image

`link.ld`: where the sections of the kernel go, for any sizes of them. `loader.s` has its
code, its page directory and its stack somewhere in three of them.
-/

namespace MiniOS.Boot

abbrev KERNEL_VIRTUAL_BASE : Nat := 0xC0000000

abbrev KERNEL_STACK_SIZE : Nat := 16384

def ALIGN (n addr : Nat) : Nat := (addr + (n - 1)) / n * n

/-- An output section, loaded `AT(ADDR - 0xC0000000)`. -/
structure Section where
  addr : Nat
  size : Nat

abbrev Section.stop (s : Section) : Nat := s.addr + s.size

structure Sizes where
  text : Nat
  rodata : Nat
  data : Nat
  bss : Nat

namespace Sizes

variable (s : Sizes)

abbrev KERNEL_START : Nat := 0xC0100000

def sText : Section := ⟨ALIGN 0x1000 KERNEL_START, s.text⟩

def sRodata : Section := ⟨ALIGN 0x1000 s.sText.stop, s.rodata⟩

def sData : Section := ⟨ALIGN 0x1000 s.sRodata.stop, s.data⟩

def sBss : Section := ⟨ALIGN 0x1000 s.sData.stop, s.bss⟩

def KERNEL_END : Nat := ALIGN 0x1000 s.sBss.stop

end Sizes

/-! ## The labels of `loader.s` -/

/-- The loader has 21 instructions, of whatever lengths. The linker puts its pieces of the sections
where it likes. -/
structure Image extends Sizes where
  len : Nat → Nat
  loaderOffset : Nat
  kmainOffset : Nat
  directoryOffset : Nat
  stackOffset : Nat
  len_pos : ∀ k, 0 < len k
  loader_fits : loaderOffset + ((List.range 21).map len).sum ≤ text
  kmain_fits : kmainOffset < text
  kmain_apart : kmainOffset < loaderOffset ∨ loaderOffset + ((List.range 21).map len).sum ≤ kmainOffset
  directory_aligned : directoryOffset % 4096 = 0
  directory_fits : directoryOffset + 4096 ≤ data
  stack_aligned : stackOffset % 4 = 0
  stack_fits : stackOffset + KERNEL_STACK_SIZE ≤ bss

/-- An address as the code has it. -/
abbrev word (a : Nat) : Word := BitVec.ofNat 32 a

theorem word_add (a b : Nat) : word (a + b) = word a + word b := BitVec.ofNat_add a b

theorem word_sub {a b : Nat} (h : b ≤ a) : word a - word b = word (a - b) := by
  rw [sub_eq_iff_eq_add, ← word_add, Nat.sub_add_cancel h]

theorem toNat_word {a : Nat} (h : a < 2 ^ 32) : (word a).toNat = a := by
  rw [BitVec.toNat_ofNat, Nat.mod_eq_of_lt h]

namespace Image

variable (img : Image)

def loader : Nat := img.sText.addr + img.loaderOffset

/-- The address that the image gives to instruction `k` of the loader. -/
def codeAt (k : Nat) : Nat := img.loader + ((List.range k).map img.len).sum

def kmain : Nat := img.sText.addr + img.kmainOffset

def boot_page_directory : Nat := img.sData.addr + img.directoryOffset

def kernel_stack : Nat := img.sBss.addr + img.stackOffset

end Image

/-! ## Where everything is -/

theorem ALIGN_spec {n : Nat} (hn : 0 < n) (addr : Nat) :
    addr ≤ ALIGN n addr ∧ ALIGN n addr < addr + n ∧ ALIGN n addr % n = 0 := by
  have hdiv := Nat.div_add_mod (addr + (n - 1)) n
  have hmod := Nat.mod_lt (addr + (n - 1)) hn
  unfold ALIGN
  rw [Nat.mul_comm] at hdiv
  exact ⟨by omega, by omega, Nat.mul_mod_left _ n⟩

/-- The sections follow one another in pages of their own. -/
structure Sizes.Placed (s : Sizes) : Prop where
  text : s.sText.addr = Sizes.KERNEL_START
  rodata : s.sText.stop ≤ s.sRodata.addr ∧ s.sRodata.addr % 4096 = 0
  data : s.sRodata.stop ≤ s.sData.addr ∧ s.sData.addr % 4096 = 0
  bss : s.sData.stop ≤ s.sBss.addr ∧ s.sBss.addr % 4096 = 0
  stop : s.sBss.stop ≤ s.KERNEL_END ∧ s.KERNEL_END % 4096 = 0

theorem Sizes.placed (s : Sizes) : s.Placed := by
  have h : ∀ addr, addr ≤ ALIGN 0x1000 addr ∧ ALIGN 0x1000 addr % 4096 = 0 :=
    fun addr => ⟨(ALIGN_spec (by decide) addr).1, (ALIGN_spec (by decide) addr).2.2⟩
  exact ⟨rfl, h _, h _, h _, h _⟩

theorem Sizes.sections_le (s : Sizes) :
    s.sText.stop ≤ s.sData.addr ∧ s.sData.addr ≤ s.sData.stop ∧ s.sData.stop ≤ s.sBss.addr ∧
      s.sBss.addr ≤ s.sBss.stop ∧ s.sBss.stop ≤ s.KERNEL_END := by
  have h := s.placed
  exact ⟨h.rodata.1.trans ((Nat.le_add_right _ _).trans h.data.1), Nat.le_add_right _ _, h.bss.1,
    Nat.le_add_right _ _, h.stop.1⟩

namespace Image

variable {img : Image}

theorem codeAt_succ (k : Nat) : img.codeAt (k + 1) = img.codeAt k + img.len k := by
  unfold codeAt
  rw [List.range_succ, List.map_append, List.sum_append, List.map_singleton, List.sum_singleton]
  omega

theorem codeAt_strictMono : StrictMono img.codeAt := by
  apply strictMono_nat_of_lt_succ
  intro k
  rw [codeAt_succ]
  exact Nat.lt_add_of_pos_right (img.len_pos k)

theorem code_bounds {k : Nat} (hk : k < 21) :
    Sizes.KERNEL_START ≤ img.codeAt k ∧ img.codeAt k + img.len k ≤ img.sText.stop := by
  have htext := img.placed.text
  have hstart := img.codeAt_strictMono.monotone (Nat.zero_le k)
  have hstop := img.codeAt_strictMono.monotone (Nat.succ_le_of_lt hk)
  have hfits := img.loader_fits
  rw [codeAt_succ] at hstop
  unfold codeAt loader at hstart hstop ⊢
  simp only [List.range_zero, List.map_nil, List.sum_nil] at hstart
  refine ⟨by omega, hstop.trans ?_⟩
  show _ ≤ img.sText.addr + img.text
  omega

theorem directory_bounds :
    img.sData.addr ≤ img.boot_page_directory ∧ img.boot_page_directory + 4096 ≤ img.sData.stop ∧
      img.boot_page_directory % 4096 = 0 := by
  have hdata := img.placed.data
  have hfits := img.directory_fits
  have haligned := img.directory_aligned
  unfold boot_page_directory
  refine ⟨Nat.le_add_right _ _, ?_, by omega⟩
  show _ ≤ img.sData.addr + img.data
  omega

theorem stack_bounds :
    img.sBss.addr ≤ img.kernel_stack ∧ img.kernel_stack + KERNEL_STACK_SIZE ≤ img.sBss.stop ∧
      img.kernel_stack % 4 = 0 := by
  have hbss := img.placed.bss
  have hfits := img.stack_fits
  have haligned := img.stack_aligned
  unfold kernel_stack
  refine ⟨Nat.le_add_right _ _, ?_, by omega⟩
  show _ ≤ img.sBss.addr + img.bss
  omega

theorem kmain_bounds : Sizes.KERNEL_START ≤ img.kmain ∧ img.kmain < img.sText.stop := by
  have htext := img.placed.text
  have hfits := img.kmain_fits
  unfold kmain
  refine ⟨by omega, ?_⟩
  show _ < img.sText.addr + img.text
  omega

/-- The image ends within the first 4 MiB of memory. -/
def Fits (img : Image) : Prop := img.KERNEL_END ≤ 0xC0400000

/-- What the loader needs of that. -/
structure Low (img : Image) : Prop where
  code : ∀ k < 21, 0xC0100000 ≤ img.codeAt k ∧ img.codeAt k + img.len k ≤ 0xC0400000
  kmain : 0xC0100000 ≤ img.kmain ∧ img.kmain < 0xC0400000
  directory : 0xC0100000 ≤ img.boot_page_directory ∧ img.boot_page_directory % 4096 = 0
  stack : img.boot_page_directory + 4096 ≤ img.kernel_stack ∧
    img.kernel_stack + KERNEL_STACK_SIZE ≤ 0xC0400000

theorem Fits.low (h : img.Fits) : img.Low := by
  have hsections := img.sections_le
  have htext : 0xC0100000 ≤ img.sText.stop := Nat.le_add_right 0xC0100000 _
  obtain ⟨hdata, hdirectory, haligned⟩ := img.directory_bounds
  obtain ⟨hbss, hstack, -⟩ := img.stack_bounds
  obtain ⟨hkmain, hkmain'⟩ := img.kmain_bounds
  unfold Fits at h
  refine ⟨fun k hk => ?_, ⟨hkmain, by omega⟩, ⟨by omega, haligned⟩, by omega, by omega⟩
  obtain ⟨hstart, hstop⟩ := img.code_bounds hk
  exact ⟨hstart, by omega⟩

/-- `kmain` is not in the loader. -/
theorem codeAt_ne_kmain {k : Nat} (hk : k < 21) : img.codeAt k ≠ img.kmain := by
  have hlow := img.codeAt_strictMono.monotone (Nat.zero_le k)
  have hhigh := img.codeAt_strictMono hk
  have hapart := img.kmain_apart
  unfold codeAt loader at *
  unfold kmain
  simp only [List.range_zero, List.map_nil, List.sum_nil] at hlow
  omega

end Image

end MiniOS.Boot
