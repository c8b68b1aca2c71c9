import MiniOS.Basic
import MiniOS.Lib.Bits

/-!
# The interrupt descriptor table

`idt.c`: 48 gates of 256. The CPU reads from a gate where to go, and whether to clear
the interrupt flag on the way.
-/

namespace MiniOS.Interrupt

abbrev IDT_NUM_ENTRIES : Nat := 256

/-- `struct idt_entry`, packed. -/
structure IdtEntry where
  offset_low : BitVec 16
  selector : BitVec 16
  zero : Byte
  type_attr : Byte
  offset_high : BitVec 16
  deriving DecidableEq

abbrev Idt := Vector IdtEntry IDT_NUM_ENTRIES

def idt_set_entry (idt_entries : Idt) (index : Fin IDT_NUM_ENTRIES) (handler : Word)
    (selector : BitVec 16) (type_attr : Byte) : Idt :=
  idt_entries.set index.val
    { offset_low := (handler &&& 0xFFFF#32).setWidth 16
      offset_high := (handler >>> 16 &&& 0xFFFF#32).setWidth 16
      selector := selector
      zero := 0#8
      type_attr := type_attr } index.isLt

/-- `interrupt_handler n` is the address of the label `interrupt_handler_n`. -/
def idt_initialize (interrupt_handler : Fin 48 → Word) (idt_entries : Idt) : Idt :=
  let idt_entries := (List.finRange IDT_NUM_ENTRIES).foldl
    (fun idt_entries i => idt_set_entry idt_entries i 0#32 0#16 0#8) idt_entries
  (List.finRange 48).foldl
    (fun idt_entries n => idt_set_entry idt_entries (Fin.castLE (by decide) n) (interrupt_handler n)
      0x08#16 0x8E#8) idt_entries

/-! ## What the CPU reads -/

def IdtEntry.offset (e : IdtEntry) : Word := e.offset_high ++ e.offset_low

/-- Present, and an interrupt gate: the flag is clear while the handler runs. -/
def IdtEntry.Masks (e : IdtEntry) : Prop := e.type_attr &&& 0x8F#8 = 0x8E#8

instance (e : IdtEntry) : Decidable e.Masks := inferInstanceAs (Decidable (_ = _))

def gate (handler : Word) (selector : BitVec 16) (type_attr : Byte) : IdtEntry :=
  { offset_low := (handler &&& 0xFFFF#32).setWidth 16
    offset_high := (handler >>> 16 &&& 0xFFFF#32).setWidth 16
    selector := selector
    zero := 0#8
    type_attr := type_attr }

theorem low_half (x : Word) : (x &&& 0xFFFF#32).setWidth 16 = x.setWidth 16 := Lib.setWidth_mask rfl

theorem gate_offset (handler : Word) (selector : BitVec 16) (type_attr : Byte) :
    (gate handler selector type_attr).offset = handler := by
  unfold IdtEntry.offset gate
  rw [low_half, low_half]
  exact (Lib.shift_append handler 16 16).trans (BitVec.setWidth_eq handler)

theorem get_idt_set_entry (t : Idt) (index v : Fin IDT_NUM_ENTRIES) (handler : Word)
    (selector : BitVec 16) (type_attr : Byte) :
    (idt_set_entry t index handler selector type_attr).get v =
      if v = index then gate handler selector type_attr else t.get v := by
  unfold idt_set_entry
  rw [Vector.get_eq_getElem, Vector.getElem_set]
  by_cases hv : v = index
  · rw [if_pos (by rw [hv]), if_pos hv]
    rfl
  · rw [if_neg fun h => hv (Fin.ext h.symm), if_neg hv]
    rfl

section
variable {ι : Type} {g : ι → Fin IDT_NUM_ENTRIES} {handler : ι → Word} {selector : BitVec 16}
  {type_attr : Byte}

theorem foldl_set_other {v : Fin IDT_NUM_ENTRIES} {is : List ι} (h : ∀ i ∈ is, v ≠ g i) (t : Idt) :
    (is.foldl (fun t i => idt_set_entry t (g i) (handler i) selector type_attr) t).get v = t.get v := by
  induction is generalizing t with
  | nil => rfl
  | cons i is ih =>
    rw [List.foldl_cons, ih fun j hj => h j (List.mem_cons_of_mem i hj), get_idt_set_entry,
      if_neg (h i List.mem_cons_self)]

theorem foldl_set_mem (hg : Function.Injective g) {i : ι} {is : List ι} (h : i ∈ is) (t : Idt) :
    (is.foldl (fun t i => idt_set_entry t (g i) (handler i) selector type_attr) t).get (g i) =
      gate (handler i) selector type_attr := by
  induction is generalizing t with
  | nil => exact absurd h List.not_mem_nil
  | cons j is ih =>
    rw [List.foldl_cons]
    by_cases hi : i ∈ is
    · exact ih hi _
    · have hij : i = j := (List.mem_cons.mp h).resolve_right hi
      have hother : ∀ k ∈ is, g i ≠ g k := fun k hk hgk => hi (hg hgk ▸ hk)
      rw [foldl_set_other hother, get_idt_set_entry, if_pos (by rw [hij]), hij]

end

/-- The table does not depend on what it held. -/
theorem idt_initialize_get {interrupt_handler : Fin 48 → Word} {old t : Idt}
    (ht : t = idt_initialize interrupt_handler old) (v : Fin IDT_NUM_ENTRIES) :
    t.get v = if h : v.val < 48 then gate (interrupt_handler ⟨v.val, h⟩) 0x08#16 0x8E#8
      else gate 0#32 0#16 0#8 := by
  rw [ht]
  unfold idt_initialize
  by_cases h : v.val < 48
  · rw [dif_pos h]
    exact foldl_set_mem (g := Fin.castLE (by decide)) (i := ⟨v.val, h⟩) (Fin.castLE_injective _)
      (List.mem_finRange _) _
  · rw [dif_neg h, foldl_set_other fun n _ hv => h (by rw [hv]; exact n.isLt)]
    exact foldl_set_mem (g := id) (i := v) Function.injective_id (List.mem_finRange v) old

/-- The gates of the labels clear the flag. -/
def Masking (t : Idt) : Prop := ∀ v : Fin IDT_NUM_ENTRIES, v.val < 48 → (t.get v).Masks

theorem idt_initialize_masks (interrupt_handler : Fin 48 → Word) (t : Idt) :
    Masking <| idt_initialize interrupt_handler t := by
  intro v h
  rw [idt_initialize_get rfl, dif_pos h]
  exact show 0x8E#8 &&& 0x8F#8 = 0x8E#8 by decide

end MiniOS.Interrupt
