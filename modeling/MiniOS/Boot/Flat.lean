import MiniOS.Boot.Tables

/-!
# The loader on a flat memory

What `eip`, the control registers, the memory and the stack are after each instruction.
-/

open MiniOS.Lib

namespace MiniOS.Boot

open MiniOS.Interrupt (Reg)

variable {img : Image} {s₀ s : Machine} {k : Nat}

/-! ## `eip` -/

theorem Image.code_flat {k : Nat} {i : Instr} (h : img.code[k]? = some i) :
    img.flat s₀ (k + 1) = i.flat ((img.flat s₀ k).eip + word (img.len k)) (img.flat s₀ k) := by
  rw [Image.flat, h]

def Instr.Straight : Instr → Prop
  | .jmp_reg _ => False
  | .jmp _ => False
  | .call _ => False
  | _ => True

theorem Instr.Straight.eip {i : Instr} (h : i.Straight) (next : Word) (s : Machine) :
    (i.flat next s).eip = next := by
  cases i <;> first | rfl | exact absurd h id

theorem Image.code_straight {k : Nat} (hk : k < 20) (h13 : k ≠ 13) (h19 : k ≠ 19) :
    ∃ i, img.code[k]? = some i ∧ i.Straight := by
  interval_cases k <;> first | exact ⟨_, rfl, trivial⟩ | contradiction

theorem Image.flat_eip_low (h : s₀.eip = img.loadAt 0) {k : Nat} (hk : k ≤ 13) :
    (img.flat s₀ k).eip = img.loadAt k := by
  induction k with
  | zero => exact h
  | succ k ih =>
    obtain ⟨i, hi, hs⟩ := img.code_straight (k := k) (by omega) (by omega) (by omega)
    have hstart : 0xC0100000 ≤ img.codeAt k := (img.code_bounds (by omega)).1
    have hnext : img.codeAt (k + 1) - KERNEL_VIRTUAL_BASE =
        img.codeAt k - KERNEL_VIRTUAL_BASE + img.len k := by
      rw [codeAt_succ]
      unfold KERNEL_VIRTUAL_BASE
      omega
    rw [img.code_flat hi, hs.eip, ih (by omega), loadAt, loadAt, hnext, word_add]

variable (s₀) in
theorem Image.flat_ebx : (img.flat s₀ 13).reg .ebx = word (img.codeAt 14) := by
  rw [img.code_flat rfl]
  rfl

theorem Image.flat_eip_high {k : Nat} (hk : 14 ≤ k) (hk' : k < 20) :
    (img.flat s₀ k).eip = word (img.codeAt k) := by
  induction k, hk using Nat.le_induction with
  | base =>
    rw [img.code_flat rfl]
    exact img.flat_ebx s₀
  | succ k hk ih =>
    obtain ⟨i, hi, hs⟩ := img.code_straight (k := k) (by omega) (by omega) (by omega)
    rw [img.code_flat hi, hs.eip, ih (by omega), codeAt_succ, word_add]

theorem Image.flat_kmain : (img.flat s₀ 20).eip = word img.kmain := by
  have h19 : (img.flat s₀ 19).eip = word (img.codeAt 19) := img.flat_eip_high (by decide) (by decide)
  rw [img.code_flat rfl]
  show (img.flat s₀ 19).eip + word (img.len 19) + (word img.kmain - word (img.codeAt 20)) = _
  rw [h19, ← word_add, ← codeAt_succ]
  abel

/-! ## One instruction -/

theorem Instr.flat_mov (d r : Reg) (next : Word) (s : Machine) :
    ((Instr.mov d r).flat next s).reg d = s.reg r := Function.update_self _ _ _

theorem Instr.flat_mov_imm (d : Reg) (v next : Word) (s : Machine) :
    ((Instr.mov_imm d v).flat next s).reg d = v := Function.update_self _ _ _

theorem Instr.flat_or_imm (d : Reg) (v next : Word) (s : Machine) :
    ((Instr.or_imm d v).flat next s).reg d = s.reg d ||| v := Function.update_self _ _ _

theorem Instr.flat_add_imm (d : Reg) (v next : Word) (s : Machine) :
    ((Instr.add_imm d v).flat next s).reg d = s.reg d + v := Function.update_self _ _ _

theorem Instr.flat_read_cr0 (d : Reg) (next : Word) (s : Machine) :
    ((Instr.read_cr0 d).flat next s).reg d = s.mmu.cr0 := Function.update_self _ _ _

theorem Instr.flat_read_cr4 (d : Reg) (next : Word) (s : Machine) :
    ((Instr.read_cr4 d).flat next s).reg d = s.mmu.cr4 := Function.update_self _ _ _

theorem Instr.flat_mov_cr0 (r : Reg) (next : Word) (s : Machine) :
    ((Instr.mov_cr0 r).flat next s).mmu.cr0 = s.reg r ∧
      ((Instr.mov_cr0 r).flat next s).mmu.cr3 = s.mmu.cr3 ∧
      ((Instr.mov_cr0 r).flat next s).mmu.cr4 = s.mmu.cr4 := ⟨rfl, rfl, rfl⟩

theorem Instr.flat_mov_cr3 (r : Reg) (next : Word) (s : Machine) :
    ((Instr.mov_cr3 r).flat next s).mmu.cr0 = s.mmu.cr0 ∧
      ((Instr.mov_cr3 r).flat next s).mmu.cr3 = s.reg r ∧
      ((Instr.mov_cr3 r).flat next s).mmu.cr4 = s.mmu.cr4 := ⟨rfl, rfl, rfl⟩

theorem Instr.flat_mov_cr4 (r : Reg) (next : Word) (s : Machine) :
    ((Instr.mov_cr4 r).flat next s).mmu.cr0 = s.mmu.cr0 ∧
      ((Instr.mov_cr4 r).flat next s).mmu.cr3 = s.mmu.cr3 ∧
      ((Instr.mov_cr4 r).flat next s).mmu.cr4 = s.reg r := ⟨rfl, rfl, rfl⟩

theorem Instr.flat_store (a : Word) (r : Reg) (next : Word) (s : Machine) :
    ((Instr.store a r).flat next s).mmu.mem = poke s.mmu.mem (physical a) (s.reg r) := rfl

theorem Instr.flat_reg_store (a : Word) (r : Reg) (next : Word) (s : Machine) :
    ((Instr.store a r).flat next s).reg = s.reg := rfl

theorem Instr.flat_store_imm (a v next : Word) (s : Machine) :
    ((Instr.store_imm a v).flat next s).mmu.mem = poke s.mmu.mem (physical a) v := rfl

theorem Instr.flat_push (r : Reg) (next : Word) (s : Machine) :
    ((Instr.push r).flat next s).esp = s.esp - 4#32 := rfl

theorem Instr.flat_push_mem (r : Reg) (next : Word) (s : Machine) :
    ((Instr.push r).flat next s).mmu.mem = poke s.mmu.mem (physical (s.esp - 4#32)) (s.reg r) := rfl

theorem Instr.flat_call (d next : Word) (s : Machine) :
    ((Instr.call d).flat next s).mmu.mem = poke s.mmu.mem (physical (s.esp - 4#32)) next := rfl

theorem Instr.flat_call_esp (d next : Word) (s : Machine) :
    ((Instr.call d).flat next s).reg .esp = s.esp - 4#32 := rfl

/-! ## The control registers -/

def Instr.Control : Instr → Prop
  | .mov_cr3 _ => True
  | .mov_cr4 _ => True
  | .mov_cr0 _ => True
  | _ => False

theorem Instr.flat_control {i : Instr} (h : ¬i.Control) (next : Word) (s : Machine) :
    SameControl s (i.flat next s) := by
  cases i <;> first | exact ⟨rfl, rfl, rfl⟩ | exact absurd trivial h

theorem Image.code_control {k : Nat} (hk : k < 20) (h5 : k ≠ 5) (h8 : k ≠ 8) (h11 : k ≠ 11) :
    ∃ i, img.code[k]? = some i ∧ ¬i.Control := by
  interval_cases k <;> first | exact ⟨_, rfl, id⟩ | contradiction

structure Control (img : Image) (s₀ : Machine) (k : Nat) (u : Mmu) : Prop where
  cr0 : u.cr0 = if k < 12 then s₀.mmu.cr0 else s₀.mmu.cr0 ||| 0x80000000#32
  cr3 : u.cr3 = if k < 6 then s₀.mmu.cr3 else word (img.boot_page_directory - KERNEL_VIRTUAL_BASE)
  cr4 : u.cr4 = if k < 9 then s₀.mmu.cr4 else s₀.mmu.cr4 ||| 0x10#32

theorem Image.flat_directory :
    (img.flat s₀ 5).reg .eax = word (img.boot_page_directory - KERNEL_VIRTUAL_BASE) := by
  rw [img.code_flat rfl]
  rfl

theorem Image.flat_ebx_eight : (img.flat s₀ 8).reg .ebx = (img.flat s₀ 6).mmu.cr4 ||| 0x10#32 := by
  rw [img.code_flat rfl, Instr.flat_or_imm, img.code_flat rfl, Instr.flat_read_cr4]

theorem Image.flat_ebx_eleven :
    (img.flat s₀ 11).reg .ebx = (img.flat s₀ 9).mmu.cr0 ||| 0x80000000#32 := by
  rw [img.code_flat rfl, Instr.flat_or_imm, img.code_flat rfl, Instr.flat_read_cr0]

theorem Image.flat_control {k : Nat} (hk : k ≤ 20) : Control img s₀ k (img.flat s₀ k).mmu := by
  induction k using Nat.strong_induction_on with
  | h k ih =>
    cases k with
    | zero => exact ⟨rfl, rfl, rfl⟩
    | succ k =>
      obtain ⟨hcr0, hcr3, hcr4⟩ := ih k (Nat.lt_succ_self k) (by omega)
      by_cases h5 : k = 5
      · subst h5
        rw [img.code_flat rfl]
        obtain ⟨h0, h3, h4⟩ :=
          Instr.flat_mov_cr3 .eax ((img.flat s₀ 5).eip + word (img.len 5)) (img.flat s₀ 5)
        exact ⟨h0.trans hcr0, h3.trans img.flat_directory, h4.trans hcr4⟩
      by_cases h8 : k = 8
      · subst h8
        rw [img.code_flat rfl]
        obtain ⟨h0, h3, h4⟩ :=
          Instr.flat_mov_cr4 .ebx ((img.flat s₀ 8).eip + word (img.len 8)) (img.flat s₀ 8)
        rw [img.flat_ebx_eight, (ih 6 (by decide) (by decide)).cr4] at h4
        exact ⟨h0.trans hcr0, h3.trans hcr3, h4⟩
      by_cases h11 : k = 11
      · subst h11
        rw [img.code_flat rfl]
        obtain ⟨h0, h3, h4⟩ :=
          Instr.flat_mov_cr0 .ebx ((img.flat s₀ 11).eip + word (img.len 11)) (img.flat s₀ 11)
        rw [img.flat_ebx_eleven, (ih 9 (by decide) (by decide)).cr0] at h0
        exact ⟨h0, h3.trans hcr3, h4.trans hcr4⟩
      obtain ⟨i, hi, hcontrol⟩ := img.code_control (k := k) (by omega) h5 h8 h11
      obtain ⟨h0, h3, h4⟩ :=
        Instr.flat_control hcontrol ((img.flat s₀ k).eip + word (img.len k)) (img.flat s₀ k)
      rw [img.code_flat hi]
      refine ⟨h0.trans (hcr0.trans ?_), h3.trans (hcr3.trans ?_), h4.trans (hcr4.trans ?_)⟩
      · exact if_congr (by omega) rfl rfl
      · exact if_congr (by omega) rfl rfl
      · exact if_congr (by omega) rfl rfl

/-! ## Stores -/

variable (s₀) in
/-- The two words that are pushed. -/
theorem Image.flat_esp :
    (img.flat s₀ 18).esp - 4#32 = word (img.kernel_stack + (KERNEL_STACK_SIZE - 4)) ∧
      (img.flat s₀ 19).esp - 4#32 = word (img.kernel_stack + (KERNEL_STACK_SIZE - 8)) := by
  have h18 : (img.flat s₀ 18).esp = word (img.kernel_stack + KERNEL_STACK_SIZE) := by
    rw [img.code_flat rfl, img.code_flat rfl]
    rfl
  have h19 : (img.flat s₀ 19).esp = (img.flat s₀ 18).esp - 4#32 := by
    rw [img.code_flat rfl, Instr.flat_push]
  have hsub : ∀ d ≤ KERNEL_STACK_SIZE, word (img.kernel_stack + KERNEL_STACK_SIZE) - word d =
      word (img.kernel_stack + (KERNEL_STACK_SIZE - d)) := by
    intro d hd
    rw [word_sub (le_add_left hd), Nat.add_sub_assoc hd]
  rw [h19, h18, sub_sub]
  exact ⟨hsub 4 (by decide), hsub 8 (by decide)⟩

/-- What the loader stores, and where. -/
theorem Image.code_stored (hk : k < 20) {i : Instr} (hi : img.code[k]? = some i) {a v : Word}
    (h : i.stored s = some (a, v)) :
    k = 2 ∧ a = word (img.boot_page_directory - KERNEL_VIRTUAL_BASE + 0 * 4) ∨
    k = 3 ∧ a = word (img.boot_page_directory - KERNEL_VIRTUAL_BASE + KERNEL_PAGE_NUMBER * 4) ∨
    k = 14 ∧ a = word (img.boot_page_directory + 0 * 4) ∧ v = 0#32 ∨
    (k = 18 ∨ k = 19) ∧ a = s.esp - 4#32 := by
  interval_cases k <;> obtain rfl := Option.some.inj hi <;>
    simp only [Instr.stored, reduceCtorEq, Option.some.injEq, Prod.mk.injEq] at h <;>
    simp [← h.1, ← h.2]

/-- Between two stores the memory stays. -/
theorem Image.flat_mem_keep {n : Nat} (hkn : k ≤ n) (hn : n ≤ 20)
    (h : ∀ j, k ≤ j → j < n → j ≠ 2 ∧ j ≠ 3 ∧ j ≠ 14 ∧ j ≠ 18 ∧ j ≠ 19) :
    (img.flat s₀ n).mmu.mem = (img.flat s₀ k).mmu.mem := by
  induction n, hkn using Nat.le_induction with
  | base => rfl
  | succ n hkn ih =>
    rw [← ih (by omega) fun j hj hjn => h j hj (by omega)]
    have hlength : n < img.code.length := lt_of_lt_of_le hn (Nat.le_succ 20)
    have hi := List.getElem?_eq_getElem hlength
    rw [img.code_flat hi, Instr.flat_mem]
    cases hstored : (img.code[n]).stored
        { img.flat s₀ n with eip := (img.flat s₀ n).eip + word (img.len n) } with
    | none => rfl
    | some w =>
      have hcases := img.code_stored hn hi hstored
      have hne := h n hkn (Nat.lt_succ_self n)
      omega

/-- Both entries are set when paging goes on. -/
theorem Image.flat_mem_twelve (hfit : img.Fits) :
    (img.flat s₀ 12).mmu.mem =
      poke (poke s₀.mmu.mem (entryAt img.frame 0) PDE_FLAGS) (entryAt img.frame 768) PDE_FLAGS := by
  obtain ⟨-, -, hdirectory, hstack⟩ := hfit.low
  have heax : (img.flat s₀ 2).reg .eax = PDE_FLAGS := by
    rw [img.code_flat rfl, Instr.flat_mov_imm]
  have heax' : (img.flat s₀ 3).reg .eax = PDE_FLAGS := by
    rw [img.code_flat rfl, Instr.flat_reg_store, heax]
  have hfirst : (img.flat s₀ 2).mmu.mem = s₀.mmu.mem :=
    img.flat_mem_keep (Nat.zero_le 2) (by decide) (by omega)
  have hlast : (img.flat s₀ 12).mmu.mem = (img.flat s₀ 4).mmu.mem :=
    img.flat_mem_keep (by decide) (by decide) (by omega)
  have hentry : ∀ i : BitVec 10,
      physical (word (img.boot_page_directory - KERNEL_VIRTUAL_BASE + i.toNat * 4)) =
        entryAt img.frame i := by
    intro i
    have hi := i.isLt
    rw [img.entryAt_frame hfit, physical_low]
    unfold KERNEL_VIRTUAL_BASE
    omega
  have h0 : physical (word (img.boot_page_directory - KERNEL_VIRTUAL_BASE + 0 * 4)) = _ := hentry 0
  have h768 : physical (word (img.boot_page_directory - KERNEL_VIRTUAL_BASE + KERNEL_PAGE_NUMBER * 4)) = _ :=
    hentry 768
  rw [hlast, img.code_flat rfl, Instr.flat_store, heax', img.code_flat rfl, Instr.flat_store, heax, hfirst,
    h0, h768]

theorem Image.entries_twelve (hfit : img.Fits)
    (hzero : ∀ i : BitVec 10, peek s₀.mmu.mem (entryAt img.frame i) = 0#32) (i : BitVec 10) :
    peek (img.flat s₀ 12).mmu.mem (entryAt img.frame i) =
      if Mapped true i.toNat then PDE_FLAGS else 0#32 := by
  have hentry : ∀ j : BitVec 10, entryAt img.frame i = entryAt img.frame j ↔ i.toNat = j.toNat := by
    intro j
    rw [BitVec.toNat_inj]
    exact ⟨fun h => (entryAt_inj h).2, fun h => h ▸ rfl⟩
  rw [img.flat_mem_twelve hfit, peek_poke_entryAt, peek_poke_entryAt, hzero]
  simp only [hentry]
  unfold Mapped
  grind

/-- The multiboot pointer waits in `ecx` while `ebx` is in use. -/
theorem Image.flat_ecx : (img.flat s₀ 18).reg .ecx = s₀.reg .ebx + word KERNEL_VIRTUAL_BASE := by
  have hkeep : ∀ n, 1 ≤ n → n ≤ 17 → (img.flat s₀ n).reg .ecx = s₀.reg .ebx := by
    intro n hn hn'
    induction n, hn using Nat.le_induction with
    | base =>
      rw [img.code_flat rfl, Instr.flat_mov]
      rfl
    | succ n hn ih =>
      rw [← ih (by omega)]
      obtain ⟨i, hi, hecx⟩ : ∃ i, img.code[n]? = some i ∧
          ∀ next s, (i.flat next s).reg .ecx = s.reg .ecx := by
        have : n < 17 := hn'
        interval_cases n <;> exact ⟨_, rfl, fun _ _ => rfl⟩
      rw [img.code_flat hi, hecx]
  rw [img.code_flat rfl, Instr.flat_add_imm, hkeep 17 (by decide) (by decide)]

theorem Image.flat_mem_kmain (hfit : img.Fits) :
    (img.flat s₀ 20).mmu.mem =
      poke (poke (poke (img.flat s₀ 12).mmu.mem (entryAt img.frame 0) 0#32)
        (physical (word (img.kernel_stack + (KERNEL_STACK_SIZE - 4))))
          (s₀.reg .ebx + word KERNEL_VIRTUAL_BASE))
        (physical (word (img.kernel_stack + (KERNEL_STACK_SIZE - 8)))) (word (img.codeAt 20)) := by
  obtain ⟨h18, h19⟩ := img.flat_esp s₀
  have heip : (img.flat s₀ 19).eip + word (img.len 19) = word (img.codeAt 20) := by
    rw [img.flat_eip_high (by decide) (by decide), ← word_add, ← codeAt_succ]
  have hstack : (img.flat s₀ 18).mmu.mem = (img.flat s₀ 15).mmu.mem :=
    img.flat_mem_keep (by decide) (by decide) (by omega)
  have htables : (img.flat s₀ 14).mmu.mem = (img.flat s₀ 12).mmu.mem :=
    img.flat_mem_keep (by decide) (by decide) (by omega)
  rw [img.code_flat rfl, Instr.flat_call, h19, heip, img.code_flat rfl, Instr.flat_push_mem, h18, img.flat_ecx,
    hstack, img.code_flat rfl, Instr.flat_store_imm, img.physical_directory hfit, htables]

/-! ## What is accessed -/

theorem Image.fetch_near (hfit : img.Fits) (hs : s₀.eip = img.loadAt 0) (hk : k < 20) :
    ∃ a, (img.flat s₀ k).eip = word a ∧ Near k a (img.len k) ∧ physical (word a) = img.loadAt k := by
  obtain ⟨hstart, hstop⟩ := hfit.low.code k (by omega)
  by_cases hk14 : k < 14
  · refine ⟨img.codeAt k - KERNEL_VIRTUAL_BASE, img.flat_eip_low hs (by omega),
      Or.inl ⟨by omega, ?_⟩, ?_⟩
    · unfold KERNEL_VIRTUAL_BASE
      omega
    · refine physical_low ?_
      unfold KERNEL_VIRTUAL_BASE
      omega
  · refine ⟨img.codeAt k, img.flat_eip_high (by omega) hk, Or.inr ⟨by omega, by omega, hstop⟩, ?_⟩
    exact physical_word (by omega) (by omega)

theorem loadAt_inj {a b : Nat} (ha : 0xC0100000 ≤ a) (ha' : a < 0xC0400000) (hb : 0xC0100000 ≤ b)
    (hb' : b < 0xC0400000) (h : word (a - KERNEL_VIRTUAL_BASE) = word (b - KERNEL_VIRTUAL_BASE)) :
    a = b := by
  have hnat := congrArg BitVec.toNat h
  unfold KERNEL_VIRTUAL_BASE at hnat
  rw [toNat_word (by omega), toNat_word (by omega)] at hnat
  omega

theorem Image.stored_near (hfit : img.Fits) (hk : k < 20) {i : Instr} (hi : img.code[k]? = some i)
    {next a v : Word} (h : i.stored { img.flat s₀ k with eip := next } = some (a, v)) :
    ∃ n, a = word n ∧ Near k n 4 := by
  obtain ⟨-, -, hdirectory, hstack⟩ := hfit.low
  have hnumber : KERNEL_PAGE_NUMBER = 768 := rfl
  obtain ⟨h18, h19⟩ := img.flat_esp s₀
  unfold KERNEL_STACK_SIZE at hstack h18 h19
  rcases img.code_stored hk hi h with ⟨rfl, rfl⟩ | ⟨rfl, rfl⟩ | ⟨rfl, rfl, -⟩ | ⟨rfl | rfl, rfl⟩
  · exact ⟨_, rfl, Or.inl ⟨by decide, by unfold KERNEL_VIRTUAL_BASE; omega⟩⟩
  · exact ⟨_, rfl, Or.inl ⟨by decide, by unfold KERNEL_VIRTUAL_BASE; omega⟩⟩
  · exact ⟨_, rfl, Or.inr ⟨by decide, by omega, by omega⟩⟩
  · exact ⟨_, h18, Or.inr ⟨by decide, by omega, by omega⟩⟩
  · exact ⟨_, h19, Or.inr ⟨by decide, by omega, by omega⟩⟩

end MiniOS.Boot
