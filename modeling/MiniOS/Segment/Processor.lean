import MiniOS.Interrupt.Handlers
import MiniOS.Segment.Gdt

/-!
# What the processor does with descriptors

A segment register keeps the descriptor that it was loaded with. Every access goes through
one, and every load, jump and interrupt is checked against the tables. Anything that fails
raises an exception.
-/

open MiniOS.Lib MiniOS.Interrupt

namespace MiniOS.Segment

/-! ## Descriptors -/

/-- `G` counts the limit in pages. -/
def Descriptor.last (d : Descriptor) : Nat :=
  if d.flags.getLsbD 3 then d.limit.toNat * 4096 + 4095 else d.limit.toNat

def Descriptor.present (d : Descriptor) : Bool := d.access.getLsbD 7

def Descriptor.dpl (d : Descriptor) : Nat := (d.access >>> 5 &&& 3#8).toNat

def Descriptor.isCode (d : Descriptor) : Bool := d.access.getLsbD 4 && d.access.getLsbD 3

def Descriptor.isData (d : Descriptor) : Bool := d.access.getLsbD 4 && !d.access.getLsbD 3

def Descriptor.conforming (d : Descriptor) : Bool := d.isCode && d.access.getLsbD 2

def Descriptor.expandsDown (d : Descriptor) : Bool := d.isData && d.access.getLsbD 2

def Descriptor.readable (d : Descriptor) : Bool := d.isData || (d.isCode && d.access.getLsbD 1)

def Descriptor.writable (d : Descriptor) : Bool := d.isData && d.access.getLsbD 1

/-- The `n` bytes at `offset` are in the segment. -/
def Descriptor.Covers (d : Descriptor) (offset : Word) (n : Nat) : Prop :=
  if d.expandsDown then
    d.last < offset.toNat ∧ offset.toNat + n ≤ if d.flags.getLsbD 2 then 2 ^ 32 else 2 ^ 16
  else offset.toNat + n ≤ d.last + 1

instance (d : Descriptor) (offset : Word) (n : Nat) : Decidable (d.Covers offset n) :=
  inferInstanceAs (Decidable (ite ..))

/-- `A`, which the processor sets when it loads the descriptor. -/
def Descriptor.accessed (d : Descriptor) : Descriptor := { d with access := d.access ||| 1#8 }

/-! ## The machine -/

inductive Seg
  | cs
  | ss
  | ds
  | es
  | fs
  | gs
  deriving DecidableEq

/-- What is seen of a segment register, and what is kept behind it. -/
structure SegReg where
  selector : BitVec 16
  descriptor : Descriptor

structure Machine where
  reg : Reg → Word
  eip : Word
  eflags : Word
  mem : Bytes
  seg : Seg → SegReg
  gdtr : GdtPtr
  idtr : GdtPtr

/-- `#GP`, `#NP` and `#SS`, with their error codes. -/
inductive Fault
  | gp (code : Word)
  | np (code : Word)
  | ss (code : Word)
  deriving DecidableEq

def rpl (selector : BitVec 16) : Nat := (selector &&& 3#16).toNat

def isNull (selector : BitVec 16) : Prop := selector &&& 0xFFFC#16 = 0#16

instance (selector : BitVec 16) : Decidable (isNull selector) := inferInstanceAs (Decidable (_ = _))

/-- The error code that names a selector. -/
def named (selector : BitVec 16) : Word := (selector &&& 0xFFFC#16).setWidth 32

namespace Machine

variable (s : Machine)

abbrev esp : Word := s.reg .esp

def cpl : Nat := rpl (s.seg .cs).selector

def set (r : Reg) (v : Word) : Machine := { s with reg := Function.update s.reg r v }

def load (r : Seg) (v : SegReg) : Machine := { s with seg := Function.update s.seg r v }

/-- Without the tables, and with the visible half of `cs`. -/
def cpu : Cpu := ⟨s.reg, s.eip, (s.seg .cs).selector, s.eflags, s.mem⟩

/-- From an offset to a linear address. -/
def linear (r : Seg) (offset : Word) (n : Nat) : Except Fault Word :=
  if (s.seg r).descriptor.Covers offset n then .ok ((s.seg r).descriptor.base + offset)
  else .error (if r = .ss then .ss 0#32 else .gp 0#32)

end Machine

/-- The index and the table come off the selector. -/
def entryAt (table : Word) (selector : BitVec 16) : Address :=
  table + (selector &&& 0xFFF8#16).setWidth 32

namespace Machine

variable (s : Machine)

/-- There is no local table. -/
def descriptor (selector : BitVec 16) : Except Fault Descriptor :=
  if selector.getLsbD 2 ∨ s.gdtr.limit.toNat < (selector &&& 0xFFF8#16).toNat + 7 then
    .error (.gp (named selector))
  else
    match Descriptor.decode (bytesAt s.mem (entryAt s.gdtr.base selector) 8) with
    | some d => .ok d
    | none => .error (.gp (named selector))

/-- The byte with `A` goes back into the table. -/
def touch (selector : BitVec 16) (d : Descriptor) : Machine :=
  { s with mem := Function.update s.mem (entryAt s.gdtr.base selector + 5#32) d.accessed.access }

/-- `mov` to `ds`, `es`, `fs` or `gs`. The null selector can be loaded, but not used. -/
def movData (r : Seg) (selector : BitVec 16) : Except Fault Machine :=
  if isNull selector then .ok (s.load r ⟨selector, ⟨0#32, 0#20, 0#8, 0#4⟩⟩)
  else do
    let d ← s.descriptor selector
    if !d.readable then throw (.gp (named selector))
    if !d.conforming && (d.dpl < s.cpl || d.dpl < rpl selector) then throw (.gp (named selector))
    if !d.present then throw (.np (named selector))
    return (s.touch selector d).load r ⟨selector, d.accessed⟩

def movStack (selector : BitVec 16) : Except Fault Machine :=
  if isNull selector then .error (.gp 0#32)
  else do
    let d ← s.descriptor selector
    if rpl selector ≠ s.cpl || !d.writable || d.dpl ≠ s.cpl then throw (.gp (named selector))
    if !d.present then throw (.ss (named selector))
    return (s.touch selector d).load .ss ⟨selector, d.accessed⟩

/-- A far jump in the same ring. Gates and task segments, of which the table has none, are refused. -/
def jmpFar (selector : BitVec 16) (offset : Word) : Except Fault Machine :=
  if isNull selector then .error (.gp 0#32)
  else do
    let d ← s.descriptor selector
    if !d.isCode then throw (.gp (named selector))
    if d.conforming then
      if s.cpl < d.dpl then throw (.gp (named selector))
    else
      if s.cpl < rpl selector || d.dpl ≠ s.cpl then throw (.gp (named selector))
    if !d.present then throw (.np (named selector))
    if ¬ d.Covers offset 1 then throw (.gp 0#32)
    return { (s.touch selector d).load .cs
      ⟨selector &&& 0xFFFC#16 ||| BitVec.ofNat 16 s.cpl, d.accessed⟩ with eip := offset }

def readWord (r : Seg) (offset : Word) : Except Fault Word := do
  let a ← s.linear r offset 4
  return peek s.mem a

/-- The six bytes for `lgdt` and `lidt`. -/
def readPtr (offset : Word) : Except Fault GdtPtr := do
  let a ← s.linear .ds offset 6
  return ⟨s.mem (a + 1#32) ++ s.mem a, peek s.mem (a + 2#32)⟩

def push (v : Word) : Except Fault Machine := do
  let a ← s.linear .ss (s.esp - 4#32) 4
  return { s.set .esp (s.esp - 4#32) with mem := poke s.mem a v }

def pop : Except Fault (Word × Machine) := do
  let v ← s.readWord .ss s.esp
  return (v, s.set .esp (s.esp + 4#32))

/-! ## Interrupts -/

/-- The error code that names a gate. `ext` marks what does not come from an instruction. -/
def gateCode (vector : Nat) (ext : Bool) : Word := BitVec.ofNat 32 (8 * vector + 2 + ext.toNat)

/-- The type of a gate of 32 bits. Those of 16 bits and of tasks, of which the table has none, are refused. -/
def gateKind (g : Gate) : Byte := g.type_attr &&& 0x1F#8

/-- What an interrupt gate clears, and what a trap gate clears. -/
def gateFlags (g : Gate) : Word := if gateKind g = 0x0E#8 then GATE_FLAGS else 0x34100#32

/-- The gate of a vector and the segment that it names. There is no other stack to change to. -/
def checkGate (vector : Nat) (ext : Bool) : Except Fault (Gate × Descriptor) :=
  if s.idtr.limit.toNat < 8 * vector + 7 then .error (.gp (gateCode vector ext))
  else
    match Gate.decode (bytesAt s.mem (s.idtr.base + BitVec.ofNat 32 (8 * vector)) 8) with
    | none => .error (.gp (gateCode vector ext))
    | some g => do
      if gateKind g ≠ 0x0E#8 ∧ gateKind g ≠ 0x0F#8 then throw (.gp (gateCode vector ext))
      if !g.type_attr.getLsbD 7 then throw (.np (gateCode vector ext))
      if isNull g.selector then throw (.gp (BitVec.ofNat 32 ext.toNat))
      let d ← s.descriptor g.selector
      if !d.isCode || s.cpl < d.dpl then throw (.gp (named g.selector))
      if !d.present then throw (.np (named g.selector))
      if !d.conforming && d.dpl < s.cpl then throw (.gp (named g.selector))
      if ¬ d.Covers g.offset 1 then throw (.gp (BitVec.ofNat 32 ext.toNat))
      return (g, d)

def pushFrame (vector : Nat) (error_code : Word) : Except Fault Machine := do
  let t ← s.push s.eflags
  let t ← t.push ((s.seg .cs).selector.setWidth 32)
  let t ← t.push s.eip
  if HasErrorCode vector then t.push error_code else return t

/-- The processor takes the vector. -/
def interrupt (vector : Nat) (error_code : Word) (ext : Bool) : Except Fault Machine := do
  let (g, d) ← s.checkGate vector ext
  let t ← s.pushFrame vector error_code
  return { (t.touch g.selector d).load .cs
      ⟨g.selector &&& 0xFFFC#16 ||| BitVec.ofNat 16 s.cpl, d.accessed⟩ with
    eip := g.offset
    eflags := s.eflags &&& ~~~(gateFlags g) }

/-- A vector that has no gate is an exception of its own. -/
def event (vector : Nat) (error_code : Word) (ext : Bool) : Except Fault Machine :=
  match s.interrupt vector error_code ext with
  | .ok t => .ok t
  | .error (.gp code) => s.interrupt 13 code true
  | .error (.np code) => s.interrupt 11 code true
  | .error (.ss code) => s.interrupt 12 code true

def popFrame : Except Fault (Word × Word × Word × Machine) := do
  let (eip, t) ← s.pop
  let (cs, t) ← t.pop
  let (eflags, t) ← t.pop
  return (eip, cs, eflags, t)

/-- What a return to the same ring needs. -/
def checkReturn (selector : BitVec 16) (eip : Word) : Except Fault Descriptor :=
  if isNull selector then .error (.gp 0#32)
  else do
    let d ← s.descriptor selector
    if !d.isCode || rpl selector ≠ s.cpl then throw (.gp (named selector))
    if d.conforming then
      if rpl selector < d.dpl then throw (.gp (named selector))
    else
      if d.dpl ≠ rpl selector then throw (.gp (named selector))
    if !d.present then throw (.np (named selector))
    if ¬ d.Covers eip 1 then throw (.gp 0#32)
    return d

/-- Another ring, to which the kernel never returns, is refused. -/
def iret : Except Fault Machine := do
  let (eip, cs, eflags, t) ← s.popFrame
  let d ← s.checkReturn (cs.setWidth 16) eip
  return { (t.touch (cs.setWidth 16) d).load .cs ⟨cs.setWidth 16, d.accessed⟩ with
    eip := eip
    eflags := eflags }

end Machine

@[simp] theorem Machine.reg_set (s : Machine) (r q : Reg) (v : Word) :
    (s.set r v).reg q = if q = r then v else s.reg q := Function.update_apply ..

@[simp] theorem Machine.seg_load (s : Machine) (r q : Seg) (v : SegReg) :
    (s.load r v).seg q = if q = r then v else s.seg q := Function.update_apply ..

end MiniOS.Segment
