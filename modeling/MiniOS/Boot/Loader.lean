import MiniOS.Boot.Link
import MiniOS.Interrupt.Handlers
import MiniOS.Lib.Paging
import MiniOS.Lib.Run

/-!
# From GRUB to `kmain`

`loader.s`, instruction by instruction, on a processor that translates every byte it
fetches or stores and that may keep translations. Beside it, what the loader does to a
memory without paging.
-/

open MiniOS.Lib

namespace MiniOS.Boot

open MiniOS.Interrupt (Reg)

/-- `P`, `R/W` and `PS`. -/
abbrev PDE_FLAGS : Word := 0x83#32

abbrev KERNEL_PAGE_NUMBER : Nat := KERNEL_VIRTUAL_BASE >>> 22

/-! ## The processor -/

structure Machine where
  reg : Reg → Word
  eip : Word
  mmu : Mmu

inductive Instr
  | mov (d r : Reg)
  | mov_imm (d : Reg) (v : Word)
  | store (a : Word) (r : Reg)
  | store_imm (a v : Word)
  | mov_cr3 (r : Reg)
  | read_cr4 (d : Reg)
  | mov_cr4 (r : Reg)
  | read_cr0 (d : Reg)
  | mov_cr0 (r : Reg)
  | or_imm (d : Reg) (v : Word)
  | add_imm (d : Reg) (v : Word)
  | lea (d : Reg) (a : Word)
  | jmp_reg (r : Reg)
  | jmp (d : Word)
  | invlpg (a : Word)
  | push (r : Reg)
  | call (d : Word)
  deriving DecidableEq

def Machine.set (s : Machine) (r : Reg) (v : Word) : Machine :=
  { s with reg := Function.update s.reg r v }

abbrev Machine.esp (s : Machine) : Word := s.reg .esp

/-- What the instruction stores and where. `eip` is past it already. -/
def Instr.stored (s : Machine) : Instr → Option (Word × Word)
  | .store a r => some (a, s.reg r)
  | .store_imm a v => some (a, v)
  | .push r => some (s.esp - 4#32, s.reg r)
  | .call _ => some (s.esp - 4#32, s.eip)
  | _ => none

/-- The rest of what it does. -/
def Instr.exec (s : Machine) : Instr → Machine
  | .mov d r => s.set d (s.reg r)
  | .mov_imm d v => s.set d v
  | .store _ _ => s
  | .store_imm _ _ => s
  | .mov_cr3 r => { s with mmu := s.mmu.setCr3 (s.reg r) }
  | .read_cr4 d => s.set d s.mmu.cr4
  | .mov_cr4 r => { s with mmu := s.mmu.setCr4 (s.reg r) }
  | .read_cr0 d => s.set d s.mmu.cr0
  | .mov_cr0 r => { s with mmu := s.mmu.setCr0 (s.reg r) }
  | .or_imm d v => s.set d (s.reg d ||| v)
  | .add_imm d v => s.set d (s.reg d + v)
  | .lea d a => s.set d a
  | .jmp_reg r => { s with eip := s.reg r }
  | .jmp d => { s with eip := s.eip + d }
  | .invlpg a => { s with mmu := s.mmu.invlpg a }
  | .push _ => s.set .esp (s.esp - 4#32)
  | .call d => { s.set .esp (s.esp - 4#32) with eip := s.eip + d }

/-! ## The code -/

namespace Image

variable (img : Image)

def code : List Instr :=
  let directory := img.boot_page_directory
  [ -- loader:
    .mov .ecx .ebx,
    .mov_imm .eax PDE_FLAGS,
    .store (word (directory - KERNEL_VIRTUAL_BASE + 0 * 4)) .eax,
    .store (word (directory - KERNEL_VIRTUAL_BASE + KERNEL_PAGE_NUMBER * 4)) .eax,
    .mov_imm .eax (word (directory - KERNEL_VIRTUAL_BASE)),
    .mov_cr3 .eax,
    .read_cr4 .ebx,
    .or_imm .ebx 0x00000010#32,
    .mov_cr4 .ebx,
    .read_cr0 .ebx,
    .or_imm .ebx 0x80000000#32,
    .mov_cr0 .ebx,
    .lea .ebx (word (img.codeAt 14)),
    .jmp_reg .ebx,
    -- higher_half:
    .store_imm (word (directory + 0 * 4)) 0#32,
    .invlpg 0#32,
    .mov_imm .esp (word (img.kernel_stack + KERNEL_STACK_SIZE)),
    .add_imm .ecx (word KERNEL_VIRTUAL_BASE),
    .push .ecx,
    .call (word img.kmain - word (img.codeAt 20)),
    -- .loop:
    .jmp (word (img.codeAt 20) - word (img.codeAt 21))]

/-- Where GRUB puts instruction `k`. -/
def loadAt (k : Nat) : Word := word (img.codeAt k - KERNEL_VIRTUAL_BASE)

/-- The bytes at `eip` are those of instruction `k`. -/
def Fetches (k : Nat) (s : Machine) : Prop :=
  ∀ j < img.len k, s.mmu.Maps (s.eip + word j) (img.loadAt k + word j)

end Image

inductive Label
  | exec
  | move
  deriving DecidableEq

/-- From the memory of `u` to `m` by a store, or by none. -/
def Stored (u : Mmu) (m : Bytes) : Option (Word × Word) → Prop
  | some (a, v) => u.Stores a (wordBytes v) u.mem m
  | none => m = u.mem

/-- An instruction, or something that the processor does with its translations. -/
inductive Step (img : Image) : Machine → Label → Machine → Prop
  | exec {s : Machine} {k : Nat} {i : Instr} {m : Bytes} :
      img.code[k]? = some i → img.Fetches k s →
      Stored s.mmu m (i.stored { s with eip := s.eip + word (img.len k) }) →
      Step img s .exec
        (i.exec { s with eip := s.eip + word (img.len k), mmu := { s.mmu with mem := m } })
  | move {s : Machine} {u : Mmu} : s.mmu.Move u → Step img s .move { s with mmu := u }

/-! ## The loader on a flat memory -/

/-- The kernel half of the addresses stands for the memory from 0 on. -/
def physical (a : Word) : Word := if a.toNat < KERNEL_VIRTUAL_BASE then a else a - word KERNEL_VIRTUAL_BASE

def flatStore (m : Bytes) : Option (Word × Word) → Bytes
  | some (a, v) => poke m (physical a) v
  | none => m

def Instr.flat (next : Word) (s : Machine) (i : Instr) : Machine :=
  let s := { s with eip := next }
  i.exec { s with mmu := { s.mmu with mem := flatStore s.mmu.mem (i.stored s) } }

def Image.flat (img : Image) (s : Machine) : Nat → Machine
  | 0 => s
  | k + 1 =>
    match img.code[k]? with
    | some i => i.flat ((img.flat s k).eip + word (img.len k)) (img.flat s k)
    | none => img.flat s k

/-! ## What an instruction does to both -/

theorem Instr.exec_mem (s : Machine) (i : Instr) : (i.exec s).mmu.mem = s.mmu.mem := by
  cases i <;> rfl

/-- No instruction adds a translation. -/
theorem Instr.exec_tlb (s : Machine) (i : Instr) : (i.exec s).mmu.tlb ⊆ s.mmu.tlb := by
  cases i with
  | mov_cr3 r => exact Set.empty_subset _
  | mov_cr4 r => exact Mmu.setCr4_tlb _
  | mov_cr0 r => exact Mmu.setCr0_tlb _
  | invlpg a => exact fun _ ht => ht.1
  | _ => exact Set.Subset.rfl

theorem Instr.flat_mem (i : Instr) (next : Word) (s : Machine) :
    (i.flat next s).mmu.mem = flatStore s.mmu.mem (i.stored { s with eip := next }) :=
  Instr.exec_mem _ i

theorem flatStore_congr {m m' : Bytes} {x : Word} (h : m x = m' x) (o : Option (Word × Word)) :
    flatStore m o x = flatStore m' o x := by
  cases o with
  | none => exact h
  | some w =>
    show poke m _ _ x = poke m' _ _ x
    unfold poke
    rw [h]

/-- Two machines with the same control registers. -/
structure SameControl (s t : Machine) : Prop where
  cr0 : t.mmu.cr0 = s.mmu.cr0
  cr3 : t.mmu.cr3 = s.mmu.cr3
  cr4 : t.mmu.cr4 = s.mmu.cr4

structure Agree (s a : Machine) : Prop where
  reg : s.reg = a.reg
  eip : s.eip = a.eip
  control : SameControl a s

theorem Agree.stored {s a : Machine} (h : Agree s a) (i : Instr) : i.stored s = i.stored a := by
  cases i <;> simp [Instr.stored, Machine.esp, h.reg, h.eip]

theorem Agree.exec {s a : Machine} (h : Agree s a) (i : Instr) : Agree (i.exec s) (i.exec a) := by
  obtain ⟨hreg, heip, hcr0, hcr3, hcr4⟩ := h
  cases i <;> refine ⟨?_, ?_, ?_, ?_, ?_⟩ <;>
    simp [Instr.exec, Machine.set, Machine.esp, Mmu.setCr0, Mmu.setCr3, Mmu.setCr4, Mmu.invlpg, *]

end MiniOS.Boot
