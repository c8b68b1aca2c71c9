import MiniOS.Basic
import MiniOS.Lib.Stack

/-!
# The Multiboot information

What GRUB leaves in memory: the information record, the memory map and the module
array. Only the fields that the kernel reads are here, each at its offset.
-/

namespace MiniOS.Memory

abbrev Mem := Word → Byte

/-- An `unsigned int` at `p`, little-endian. -/
def load (mem : Mem) (p : Word) : Word := Lib.peek mem p

abbrev MULTIBOOT_FLAG_MODS : Word := 0x8#32

abbrev MULTIBOOT_FLAG_MEMMAP : Word := 0x40#32

/-- Where physical memory is mapped: GRUB's addresses are physical. -/
abbrev KERNEL_VIRTUAL_BASE : Word := 0xC0000000#32

structure MultibootMod where
  mod_start : Word
  mod_end : Word
  deriving DecidableEq

def MultibootMod.read (mem : Mem) (p : Word) : MultibootMod :=
  { mod_start := load mem p, mod_end := load mem (p + 4#32) }

/-- `multiboot_memory_map_t`. `size` does not count itself. -/
structure MultibootMemoryMap where
  size : Word
  base_addr_low : Word
  base_addr_high : Word
  length_low : Word
  length_high : Word
  type : Word
  deriving DecidableEq

def MultibootMemoryMap.read (mem : Mem) (p : Word) : MultibootMemoryMap :=
  { size := load mem p, base_addr_low := load mem (p + 4#32), base_addr_high := load mem (p + 8#32),
    length_low := load mem (p + 12#32), length_high := load mem (p + 16#32),
    type := load mem (p + 20#32) }

structure MultibootInfo where
  flags : Word
  mods_count : Word
  mods_addr : Word
  mmap_length : Word
  mmap_addr : Word

def MultibootInfo.read (mem : Mem) (p : Word) : MultibootInfo :=
  { flags := load mem p, mods_count := load mem (p + 20#32), mods_addr := load mem (p + 24#32),
    mmap_length := load mem (p + 44#32), mmap_addr := load mem (p + 48#32) }

def MultibootInfo.module (mem : Mem) (mbinfo : MultibootInfo) (mod_idx : Nat) : MultibootMod :=
  MultibootMod.read mem (mbinfo.mods_addr + KERNEL_VIRTUAL_BASE + BitVec.ofNat 32 (16 * mod_idx))

def MultibootInfo.mods (mem : Mem) (mbinfo : MultibootInfo) : List MultibootMod :=
  if mbinfo.flags &&& MULTIBOOT_FLAG_MODS ≠ 0#32 then
    (List.range mbinfo.mods_count.toNat).map (mbinfo.module mem)
  else []

/-! ## What the information says -/

def MultibootMemoryMap.base (e : MultibootMemoryMap) : Nat :=
  e.base_addr_high.toNat * 2 ^ 32 + e.base_addr_low.toNat

def MultibootMemoryMap.length (e : MultibootMemoryMap) : Nat :=
  e.length_high.toNat * 2 ^ 32 + e.length_low.toNat

def MultibootMemoryMap.Holds (e : MultibootMemoryMap) (b : Nat) : Prop :=
  e.base ≤ b ∧ b < e.base + e.length

/-- The entries that a walk from `mmap` meets before `stop`, in order. -/
inductive Entries (mem : Mem) (stop : Word) : Word → List MultibootMemoryMap → Prop
  | done {mmap : Word} : ¬ mmap < stop → Entries mem stop mmap []
  | next {mmap : Word} {es : List MultibootMemoryMap} :
      mmap < stop → Entries mem stop (mmap + (MultibootMemoryMap.read mem mmap).size + 4#32) es →
      Entries mem stop mmap (MultibootMemoryMap.read mem mmap :: es)

theorem Entries.unique {mem : Mem} {stop mmap : Word} {es es' : List MultibootMemoryMap}
    (h : Entries mem stop mmap es) (h' : Entries mem stop mmap es') : es = es' := by
  induction h generalizing es' with
  | done hstop =>
    cases h' with
    | done _ => rfl
    | next hlt _ => exact absurd hlt hstop
  | next hlt _ ih =>
    cases h' with
    | done hstop => exact absurd hlt hstop
    | next _ h' => rw [ih h']

structure BootInfo where
  entries : List MultibootMemoryMap
  mods : List MultibootMod

/-- The record at `p` carries `info`. Without its flag there is no memory map. -/
structure Carries (mem : Mem) (p : Word) (info : BootInfo) : Prop where
  entries :
    if (MultibootInfo.read mem p).flags &&& MULTIBOOT_FLAG_MEMMAP ≠ 0#32 then
      Entries mem
        ((MultibootInfo.read mem p).mmap_addr + KERNEL_VIRTUAL_BASE +
          (MultibootInfo.read mem p).mmap_length)
        ((MultibootInfo.read mem p).mmap_addr + KERNEL_VIRTUAL_BASE) info.entries
    else info.entries = []
  mods : info.mods = (MultibootInfo.read mem p).mods mem

theorem Carries.unique {mem : Mem} {p : Word} {info info' : BootInfo} (h : Carries mem p info)
    (h' : Carries mem p info') : info = info' := by
  obtain ⟨entries, mods⟩ := info
  obtain ⟨entries', mods'⟩ := info'
  obtain ⟨hes, hmods⟩ := h
  obtain ⟨hes', hmods'⟩ := h'
  have heq : entries = entries' := by
    split at hes
    · exact hes.unique (by rwa [if_pos ‹_›] at hes')
    · rw [if_neg ‹_›] at hes'
      exact hes.trans hes'.symm
  simp only at hmods hmods'
  rw [heq, hmods, hmods']

/-- `entries` stand back to back from `addr` to `stop`, each in `size + 4` bytes. -/
def LaidOut (mem : Mem) : Nat → List MultibootMemoryMap → Nat → Prop
  | addr, [], stop => addr = stop
  | addr, e :: es, stop =>
    MultibootMemoryMap.read mem (BitVec.ofNat 32 addr) = e ∧
      LaidOut mem (addr + e.size.toNat + 4) es stop

theorem LaidOut.le {mem : Mem} {es : List MultibootMemoryMap} {addr stop : Nat}
    (h : LaidOut mem addr es stop) : addr ≤ stop := by
  induction es generalizing addr with
  | nil => exact Nat.le_of_eq h
  | cons e es ih =>
    have := ih h.2
    omega

theorem LaidOut.entries {mem : Mem} {es : List MultibootMemoryMap} {addr stop : Nat}
    (hstop : stop < 2 ^ 32) (h : LaidOut mem addr es stop) :
    Entries mem (BitVec.ofNat 32 stop) (BitVec.ofNat 32 addr) es := by
  induction es generalizing addr with
  | nil =>
    obtain rfl : addr = stop := h
    exact .done (BitVec.lt_irrefl _)
  | cons e es ih =>
    obtain ⟨rfl, hrest⟩ := h
    have hle := hrest.le
    refine .next ?_ ?_
    · rw [BitVec.lt_def, BitVec.toNat_ofNat, BitVec.toNat_ofNat]
      omega
    · have := ih hrest
      simpa [BitVec.ofNat_add] using this

end MiniOS.Memory
