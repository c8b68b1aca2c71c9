import MiniOS.Interrupt.Idt

/-!
# The segment descriptors

`gdt.c`: the three descriptors and the pointer for `lgdt`. Base and limit of a segment
are spread over the eight bytes of its descriptor. The CPU puts them together again.
-/

open MiniOS.Interrupt

namespace MiniOS.Segment

abbrev GDT_NUM_ENTRIES : Nat := 3

/-- `struct gdt_entry`, packed. -/
structure GdtEntry where
  limit_low : BitVec 16
  base_low : BitVec 16
  base_mid : Byte
  access : Byte
  granularity : Byte
  base_high : Byte
  deriving DecidableEq

/-- `struct gdt_ptr`, packed. -/
structure GdtPtr where
  limit : BitVec 16
  base : Word
  deriving DecidableEq

abbrev GdtEntries := Vector GdtEntry GDT_NUM_ENTRIES

structure Gdt where
  gdt_entries : GdtEntries
  gdt_pointer : GdtPtr

def gdt_set_entry (gdt_entries : GdtEntries) (index : Fin GDT_NUM_ENTRIES) (base limit : Word)
    (access granularity : Byte) : GdtEntries :=
  gdt_entries.set index.val
    { base_low := (base &&& 0xFFFF#32).setWidth 16
      base_mid := (base >>> 16 &&& 0xFF#32).setWidth 8
      base_high := (base >>> 24 &&& 0xFF#32).setWidth 8
      limit_low := (limit &&& 0xFFFF#32).setWidth 16
      granularity := (limit >>> 16 &&& 0x0F#32).setWidth 8 ||| (granularity &&& 0xF0#8)
      access := access } index.isLt

/-- Up to `gdt_flush`, which loads what is here. `entries` is the address of `gdt_entries`. -/
def gdt_initialize (entries : Word) (gdt : Gdt) : Gdt :=
  let gdt_pointer : GdtPtr := { limit := BitVec.ofNat 16 (8 * GDT_NUM_ENTRIES - 1), base := entries }
  let gdt_entries := gdt_set_entry gdt.gdt_entries 0 0#32 0#32 0#8 0#8
  let gdt_entries := gdt_set_entry gdt_entries 1 0#32 0xFFFFFFFF#32 0x9A#8 0xCF#8
  { gdt_entries := gdt_set_entry gdt_entries 2 0#32 0xFFFFFFFF#32 0x92#8 0xCF#8
    gdt_pointer := gdt_pointer }

/-! ## The bytes in memory -/

def le16 (x : BitVec 16) : List Byte := [x.setWidth 8, (x >>> 8).setWidth 8]

def GdtEntry.bytes (e : GdtEntry) : List Byte :=
  le16 e.limit_low ++ le16 e.base_low ++ [e.base_mid, e.access, e.granularity, e.base_high]

def gateBytes (e : IdtEntry) : List Byte :=
  le16 e.offset_low ++ le16 e.selector ++ [e.zero, e.type_attr] ++ le16 e.offset_high

/-- What the CPU takes a segment descriptor for. -/
structure Descriptor where
  base : Word
  limit : BitVec 20
  access : Byte
  flags : BitVec 4
  deriving DecidableEq

def Descriptor.decode : List Byte → Option Descriptor
  | [b0, b1, b2, b3, b4, b5, b6, b7] =>
    some
      { base := (b7 ++ b4) ++ (b3 ++ b2)
        limit := b6.setWidth 4 ++ (b1 ++ b0)
        access := b5
        flags := (b6 >>> 4).setWidth 4 }
  | _ => none

/-- What the CPU takes a gate for. -/
structure Gate where
  offset : Word
  selector : BitVec 16
  reserved : Byte
  type_attr : Byte
  deriving DecidableEq

def Gate.decode : List Byte → Option Gate
  | [b0, b1, b2, b3, b4, b5, b6, b7] =>
    some
      { offset := (b7 ++ b6) ++ (b1 ++ b0)
        selector := b3 ++ b2
        reserved := b4
        type_attr := b5 }
  | _ => none

/-! ## Back again -/

theorem half_bytes (x : BitVec 16) : (x >>> 8).setWidth 8 ++ x.setWidth 8 = x :=
  (Lib.shift_append x 8 8).trans (BitVec.setWidth_eq x)

/-- The high half of a word, in two bytes. -/
theorem high_bytes (x : Word) :
    (x >>> 24).setWidth 8 ++ (x >>> 16).setWidth 8 = (x >>> 16).setWidth 16 := by
  have hshift : x >>> 24 = x >>> 16 >>> 8 := BitVec.shiftRight_add x 16 8
  rw [hshift]
  exact Lib.shift_append (x >>> 16) 8 8

/-- One byte holds the top of the limit and the flags. -/
theorem nibbles (limit granularity : Byte) :
    ((limit &&& 0x0F#8) ||| (granularity &&& 0xF0#8)).setWidth 4 = limit.setWidth 4 ∧
      (((limit &&& 0x0F#8) ||| (granularity &&& 0xF0#8)) >>> 4).setWidth 4 =
        (granularity >>> 4).setWidth 4 := by
  constructor
  · ext i hi
    interval_cases i <;> simp
  · ext i hi
    interval_cases i <;> simp

def descriptor (base limit : Word) (access granularity : Byte) : GdtEntry :=
  { base_low := (base &&& 0xFFFF#32).setWidth 16
    base_mid := (base >>> 16 &&& 0xFF#32).setWidth 8
    base_high := (base >>> 24 &&& 0xFF#32).setWidth 8
    limit_low := (limit &&& 0xFFFF#32).setWidth 16
    granularity := (limit >>> 16 &&& 0x0F#32).setWidth 8 ||| (granularity &&& 0xF0#8)
    access := access }

theorem get_gdt_set_entry (t : GdtEntries) (index v : Fin GDT_NUM_ENTRIES) (base limit : Word)
    (access granularity : Byte) :
    (gdt_set_entry t index base limit access granularity).get v =
      if v = index then descriptor base limit access granularity else t.get v := by
  unfold gdt_set_entry
  rw [Vector.get_eq_getElem, Vector.getElem_set]
  by_cases hv : v = index
  · rw [if_pos (by rw [hv]), if_pos hv]
    rfl
  · rw [if_neg fun h => hv (Fin.ext h.symm), if_neg hv]
    rfl

theorem decode_descriptor (base limit : Word) (access granularity : Byte) :
    Descriptor.decode (descriptor base limit access granularity).bytes =
      some
        { base := base
          limit := limit.setWidth 20
          access := access
          flags := (granularity >>> 4).setWidth 4 } := by
  have hbyte : ∀ x : Word, (x &&& 0xFF#32).setWidth 8 = x.setWidth 8 := fun x => Lib.setWidth_mask rfl
  have hnibble : (limit >>> 16 &&& 0x0F#32).setWidth 8 = (limit >>> 16).setWidth 8 &&& 0x0F#8 :=
    BitVec.setWidth_and
  have htop : ((limit >>> 16).setWidth 8 : Byte).setWidth 4 = (limit >>> 16).setWidth 4 :=
    BitVec.setWidth_setWidth_of_le _ (by decide)
  have hbase : (base >>> 16).setWidth 16 ++ base.setWidth 16 = base :=
    (Lib.shift_append base 16 16).trans (BitVec.setWidth_eq base)
  obtain ⟨hlimit, hflags⟩ := nibbles ((limit >>> 16).setWidth 8) granularity
  rw [← hnibble] at hlimit hflags
  rw [htop] at hlimit
  unfold descriptor
  rw [hbyte, hbyte, low_half, low_half]
  show some (Descriptor.mk _ _ _ _) = _
  rw [Option.some.injEq, Descriptor.mk.injEq]
  refine ⟨?_, ?_, rfl, hflags⟩
  · exact (congrArg₂ (· ++ ·) (high_bytes base) (half_bytes _)).trans hbase
  · exact (congrArg₂ (· ++ ·) hlimit (half_bytes _)).trans (Lib.shift_append limit 4 16)

theorem decode_gate (handler : Word) (selector : BitVec 16) (type_attr : Byte) :
    Gate.decode (gateBytes (gate handler selector type_attr)) =
      some { offset := handler, selector := selector, reserved := 0#8, type_attr := type_attr } := by
  show some (Gate.mk _ _ _ _) = _
  rw [Option.some.injEq, Gate.mk.injEq]
  refine ⟨?_, half_bytes selector, rfl, rfl⟩
  exact (congrArg₂ (· ++ ·) (half_bytes _) (half_bytes _)).trans (gate_offset handler selector type_attr)

/-- **Descriptors.** The CPU reads from the eight bytes of an entry what went into it: all 32 bits of
the base or of the handler, the low 20 bits of the limit, and the upper half of the granularity byte.
The other entries of the table stay. -/
theorem descriptors_lossless :
    (∀ (t : GdtEntries) (index : Fin GDT_NUM_ENTRIES) (base limit : Word) (access granularity : Byte),
      let t' := gdt_set_entry t index base limit access granularity
      (∃ d, Descriptor.decode (t'.get index).bytes = some d ∧ d.base = base ∧
        d.limit.toNat = limit.toNat % 2 ^ 20 ∧
        (limit.toNat < 2 ^ 20 → d.limit.toNat = limit.toNat) ∧ d.access = access ∧
        d.flags = (granularity >>> 4).setWidth 4) ∧
      ∀ v, v ≠ index → t'.get v = t.get v) ∧
    ∀ (t : Idt) (index : Fin IDT_NUM_ENTRIES) (handler : Word) (selector : BitVec 16) (type_attr : Byte),
      let t' := idt_set_entry t index handler selector type_attr
      (∃ g, Gate.decode (gateBytes (t'.get index)) = some g ∧ g.offset = handler ∧
        g.selector = selector ∧ g.type_attr = type_attr ∧ g.reserved = 0#8) ∧
      ∀ v, v ≠ index → t'.get v = t.get v := by
  constructor
  · intro t index base limit access granularity t'
    have hget := get_gdt_set_entry t index
    refine ⟨⟨⟨base, limit.setWidth 20, access, (granularity >>> 4).setWidth 4⟩, ?_, rfl,
      BitVec.toNat_setWidth _ _, fun hlt => ?_, rfl, rfl⟩, fun v hv => ?_⟩
    · rw [hget, if_pos rfl, decode_descriptor]
    · rw [BitVec.toNat_setWidth, Nat.mod_eq_of_lt hlt]
    · rw [hget, if_neg hv]
  · intro t index handler selector type_attr t'
    have hget := get_idt_set_entry t index
    refine ⟨⟨⟨handler, selector, 0#8, type_attr⟩, ?_, rfl, rfl, rfl, rfl⟩, fun v hv => ?_⟩
    · rw [hget, if_pos rfl, decode_gate]
    · rw [hget, if_neg hv]

/-! ## The kernel's table -/

end MiniOS.Segment
