import MiniOS.Chat.Keyboard
import MiniOS.Lib.Prog

/-!
# The interrupt controllers

Two 8259A chips, the second behind line 2 of the first, and the code that talks to them:
`pic.c` and the C side of an interrupt.
-/

open MiniOS.Lib

namespace MiniOS.Interrupt

/-! ## One chip -/

/-- What a chip takes the next write to its data port for. -/
inductive Phase
  | icw2
  | icw3
  | icw4
  | ready
  deriving DecidableEq

structure Chip where
  imr : Byte
  isr : Byte
  icw1 : Byte
  base : Byte
  icw3 : Byte
  icw4 : Byte
  phase : Phase

/-- ICW1 starts the chip anew, a non-specific EOI ends the service of the lowest line in service. No
other command word is written. -/
def Chip.command (c : Chip) (data : Byte) : Chip :=
  if data.getLsbD 4 then { c with imr := 0#8, isr := 0#8, icw1 := data, icw4 := 0#8, phase := .icw2 }
  else if data &&& 0xF8#8 = 0x20#8 then { c with isr := c.isr &&& (c.isr - 1#8) }
  else c

/-- ICW3 is there for a chip in a cascade, ICW4 for one that was told to expect it. -/
def Chip.data (c : Chip) (data : Byte) : Chip :=
  let last := if c.icw1.getLsbD 0 then Phase.icw4 else Phase.ready
  match c.phase with
  | .icw2 => { c with base := data &&& 0xF8#8, phase := if c.icw1.getLsbD 1 then last else .icw3 }
  | .icw3 => { c with icw3 := data, phase := last }
  | .icw4 => { c with icw4 := data, phase := .ready }
  | .ready => { c with imr := data }

/-- It answers the CPU with a vector, as the 8086 wants it. -/
def Chip.Answers (c : Chip) : Prop := c.phase = .ready ∧ c.icw4.getLsbD 0 = true

instance (c : Chip) : Decidable c.Answers := inferInstanceAs (Decidable (_ ∧ _))

/-- A line gets through if it is not masked, and neither it nor a lower one is in service. -/
def Chip.Accepts (c : Chip) (i : Fin 8) : Prop :=
  c.Answers ∧ c.imr.getLsbD i = false ∧ ∀ j ≤ i, c.isr.getLsbD j = false

instance (c : Chip) (i : Fin 8) : Decidable (c.Accepts i) := inferInstanceAs (Decidable (_ ∧ _))

def Chip.vector (c : Chip) (i : Fin 8) : Byte := c.base ||| BitVec.ofNat 8 i

/-- With automatic EOI a line would not stay in service. -/
def Chip.serve (c : Chip) (i : Fin 8) : Chip :=
  if c.icw4.getLsbD 1 then c else { c with isr := c.isr ||| 1#8 <<< i.val }

/-! ## Both, and the keyboard -/

/-- `written` only records. `codes` is what the keyboard's controller has for the handler. -/
structure Device where
  master : Chip
  slave : Chip
  codes : List Byte
  kbd : Chat.Queue
  written : List (BitVec 16 × Byte)

/-- Line 2 of the master is the slave's. A line that falls before the CPU acknowledges is spurious. -/
inductive Request
  | master (i : Fin 8) (h : i ≠ 2)
  | slave (i : Fin 8)
  | spurious_master
  | spurious_slave

def Request.irq : Request → Nat
  | .master i _ => i
  | .slave i => 8 + i
  | .spurious_master => 7
  | .spurious_slave => 15

/-- The master has a slave on line 2, and the slave knows that it is the one. -/
def Device.Cascaded (d : Device) : Prop :=
  d.master.icw3.getLsbD 2 = true ∧ d.slave.icw3 &&& 0x07#8 = 0x02#8

instance (d : Device) : Decidable d.Cascaded := inferInstanceAs (Decidable (_ ∧ _))

/-- The CPU acknowledges, and gets a vector. A spurious one puts nothing in service on its own chip. -/
def Device.deliver (d : Device) : Request → Option (Byte × Device)
  | .master i _ =>
    if d.master.Accepts i then some (d.master.vector i, { d with master := d.master.serve i }) else none
  | .slave i =>
    if d.slave.Accepts i ∧ d.master.Accepts 2 ∧ d.Cascaded then
      some (d.slave.vector i, { d with master := d.master.serve 2, slave := d.slave.serve i })
    else none
  | .spurious_master => if d.master.Answers then some (d.master.vector 7, d) else none
  | .spurious_slave =>
    if d.slave.Answers ∧ d.master.Accepts 2 ∧ d.Cascaded then
      some (d.slave.vector 7, { d with master := d.master.serve 2 })
    else none

/-! ## The code -/

abbrev PIC1_COMMAND : BitVec 16 := 0x20#16

abbrev PIC1_DATA : BitVec 16 := 0x21#16

abbrev PIC2_COMMAND : BitVec 16 := 0xA0#16

abbrev PIC2_DATA : BitVec 16 := 0xA1#16

abbrev PIC1_START_INTERRUPT : Byte := 0x20#8

abbrev PIC2_START_INTERRUPT : Byte := 0x28#8

abbrev PIC2_END_INTERRUPT : Byte := PIC2_START_INTERRUPT + 7#8

abbrev PIC_ACK : Byte := 0x20#8

abbrev ICW1_INIT : Byte := 0x11#8

abbrev ICW4_8086 : Byte := 0x01#8

abbrev KEYBOARD_INTERRUPT : Word := 33#32

abbrev Action := Prog Empty Device

def Device.out (d : Device) (port : BitVec 16) (data : Byte) : Device :=
  let d := { d with written := d.written ++ [(port, data)] }
  if port = PIC1_COMMAND then { d with master := d.master.command data }
  else if port = PIC1_DATA then { d with master := d.master.data data }
  else if port = PIC2_COMMAND then { d with slave := d.slave.command data }
  else if port = PIC2_DATA then { d with slave := d.slave.data data }
  else d

def outb (port : BitVec 16) (data : Byte) : Action Unit := Prog.modify fun d => d.out port data

/-- Read at the two data ports only, where a chip shows its mask. -/
def inb (port : BitVec 16) : Action Byte :=
  Prog.read fun d => if port = PIC1_DATA then d.master.imr else d.slave.imr

def pic_remap : Action Unit := do
  let mask1 ← inb PIC1_DATA
  let mask2 ← inb PIC2_DATA
  outb PIC1_COMMAND ICW1_INIT
  outb PIC2_COMMAND ICW1_INIT
  outb PIC1_DATA PIC1_START_INTERRUPT
  outb PIC2_DATA PIC2_START_INTERRUPT
  outb PIC1_DATA 0x04#8
  outb PIC2_DATA 0x02#8
  outb PIC1_DATA ICW4_8086
  outb PIC2_DATA ICW4_8086
  outb PIC1_DATA mask1
  outb PIC2_DATA mask2

def pic_acknowledge (interrupt : Word) : Action Unit :=
  if interrupt < PIC1_START_INTERRUPT.setWidth 32 ∨ interrupt > PIC2_END_INTERRUPT.setWidth 32 then
    pure ()
  else do
    if interrupt ≥ PIC2_START_INTERRUPT.setWidth 32 then
      outb PIC2_COMMAND PIC_ACK
    outb PIC1_COMMAND PIC_ACK

/-- `keyboard_handler` empties the keyboard's controller. -/
def keyboard : Action Unit :=
  Prog.modify fun d => { d with codes := [], kbd := Chat.keyboard_handler d.codes d.kbd }

/-- Of its arguments, `interrupt_handler` uses the number only. -/
def interrupt_handler (interrupt : Word) : Action Unit := do
  if interrupt = KEYBOARD_INTERRUPT then
    keyboard
  pic_acknowledge interrupt

/-! ## A chip at work -/

/-- What `pic_remap` makes of a chip, with its mask and what is in service. -/
def remapped (base icw3 imr isr : Byte) : Chip where
  imr := imr
  isr := isr
  icw1 := ICW1_INIT
  base := base
  icw3 := icw3
  icw4 := ICW4_8086
  phase := .ready

theorem command_init (c : Chip) : c.command ICW1_INIT =
    { c with imr := 0#8, isr := 0#8, icw1 := ICW1_INIT, icw4 := 0#8, phase := .icw2 } := rfl

theorem data_icw2 {c : Chip} (h : c.phase = .icw2) (h₁ : c.icw1 = ICW1_INIT) (data : Byte) :
    c.data data = { c with base := data &&& 0xF8#8, phase := .icw3 } := by
  unfold Chip.data
  rw [h, h₁]
  rfl

theorem data_icw3 {c : Chip} (h : c.phase = .icw3) (h₁ : c.icw1 = ICW1_INIT) (data : Byte) :
    c.data data = { c with icw3 := data, phase := .icw4 } := by
  unfold Chip.data
  rw [h, h₁]
  rfl

theorem data_icw4 {c : Chip} (h : c.phase = .icw4) (data : Byte) :
    c.data data = { c with icw4 := data, phase := .ready } := by
  unfold Chip.data
  rw [h]

theorem data_ready {c : Chip} (h : c.phase = .ready) (data : Byte) :
    c.data data = { c with imr := data } := by
  unfold Chip.data
  rw [h]

/-- The four words, and the mask. -/
theorem init_chip (c : Chip) (base icw3 mask : Byte) :
    ((((c.command ICW1_INIT).data base).data icw3).data ICW4_8086).data mask =
      remapped (base &&& 0xF8#8) icw3 mask 0#8 := by
  rw [command_init, data_icw2 rfl rfl base, data_icw3 rfl rfl icw3, data_icw4 rfl ICW4_8086,
    data_ready rfl mask]
  rfl

/-! ## The code at work -/

/-- Both chips are set up, with these masks. -/
structure Device.Remapped (mask1 mask2 : Byte) (d : Device) : Prop where
  master : d.master = remapped PIC1_START_INTERRUPT 0x04#8 mask1 d.master.isr
  slave : d.slave = remapped PIC2_START_INTERRUPT 0x02#8 mask2 d.slave.isr

/-- Nothing is in service. -/
structure Device.Idle (d : Device) : Prop where
  master : d.master.isr = 0#8
  slave : d.slave.isr = 0#8

theorem pic_remap_spec (d : Device) :
    ∃ t, pic_remap.exec d = .ok ((), t) ∧ t.Remapped d.master.imr d.slave.imr ∧ t.Idle := by
  have hmaster := init_chip d.master PIC1_START_INTERRUPT 0x04#8 d.master.imr
  have hslave := init_chip d.slave PIC2_START_INTERRUPT 0x02#8 d.slave.imr
  obtain ⟨t, hrun, hm, hs⟩ : ∃ t, pic_remap.exec d = .ok ((), t) ∧
      t.master = remapped PIC1_START_INTERRUPT 0x04#8 d.master.imr 0#8 ∧
      t.slave = remapped PIC2_START_INTERRUPT 0x02#8 d.slave.imr 0#8 := ⟨_, rfl, hmaster, hslave⟩
  refine ⟨t, hrun, ⟨?_, ?_⟩, ⟨?_, ?_⟩⟩
  · rw [hm]
    rfl
  · rw [hs]
    rfl
  · rw [hm]
    rfl
  · rw [hs]
    rfl

/-- At most one line is in service. -/
def Single (isr : Byte) : Prop := isr &&& (isr - 1#8) = 0#8

theorem single_zero : Single 0#8 := by
  unfold Single
  decide

theorem single_line (i : Fin 8) : Single (1#8 <<< i.val) := by
  unfold Single
  revert i
  decide

/-- A statement of the handler: the setup stays, and nothing new is in service. -/
structure Narrows (d t : Device) : Prop where
  master : t.master = { d.master with isr := t.master.isr }
  slave : t.slave = { d.slave with isr := t.slave.isr }
  master_isr : ∀ i, t.master.isr.getLsbD i = true → d.master.isr.getLsbD i = true
  slave_isr : ∀ i, t.slave.isr.getLsbD i = true → d.slave.isr.getLsbD i = true

theorem and_narrows (isr other : Byte) (i : Nat) (h : (isr &&& other).getLsbD i = true) :
    isr.getLsbD i = true := by
  rw [BitVec.getLsbD_and, Bool.and_eq_true] at h
  exact h.1

theorem narrows_same {d t : Device} (hmaster : t.master = d.master) (hslave : t.slave = d.slave) :
    Narrows d t := by
  refine ⟨by rw [hmaster], by rw [hslave], fun i h => ?_, fun i h => ?_⟩
  · rwa [hmaster] at h
  · rwa [hslave] at h

theorem narrows_ack1 (d : Device) : Narrows d (d.out PIC1_COMMAND PIC_ACK) :=
  ⟨rfl, rfl, fun i h => and_narrows _ _ i h, fun _ h => h⟩

theorem narrows_ack2 (d : Device) : Narrows d (d.out PIC2_COMMAND PIC_ACK) :=
  ⟨rfl, rfl, fun _ h => h, fun i h => and_narrows _ _ i h⟩

theorem Device.Remapped.narrows {mask1 mask2 : Byte} {d t : Device} (h : d.Remapped mask1 mask2)
    (hn : Narrows d t) : t.Remapped mask1 mask2 := by
  refine ⟨?_, ?_⟩
  · rw [hn.master, h.master]
    rfl
  · rw [hn.slave, h.slave]
    rfl

theorem pic_acknowledge_narrows (interrupt : Word) : (pic_acknowledge interrupt).Each Narrows := by
  have hack1 : (outb PIC1_COMMAND PIC_ACK).Each Narrows := Prog.each_modify narrows_ack1
  have hack2 : (outb PIC2_COMMAND PIC_ACK).Each Narrows := Prog.each_modify narrows_ack2
  unfold pic_acknowledge
  split
  · trivial
  split
  · exact hack2.bind fun _ => hack1
  · exact hack1

theorem interrupt_handler_narrows (interrupt : Word) : (interrupt_handler interrupt).Each Narrows := by
  have hkeyboard : keyboard.Each Narrows := Prog.each_modify fun d => narrows_same rfl rfl
  unfold interrupt_handler
  split
  · exact hkeyboard.bind fun _ => pic_acknowledge_narrows interrupt
  · exact pic_acknowledge_narrows interrupt

/-- An exception is not acknowledged, and nothing else is done about it. -/
theorem interrupt_handler_exception {interrupt : Word} (h : interrupt < 32#32) (d : Device) :
    (interrupt_handler interrupt).exec d = .ok ((), d) := by
  have hkeyboard : ¬ interrupt = KEYBOARD_INTERRUPT := by
    rintro rfl
    exact absurd h (by decide)
  have hrange : interrupt < PIC1_START_INTERRUPT.setWidth 32 ∨ interrupt > PIC2_END_INTERRUPT.setWidth 32 :=
    Or.inl h
  unfold interrupt_handler pic_acknowledge
  rw [if_neg hkeyboard, if_pos hrange]
  rfl

theorem pic_acknowledge_spec {mask1 mask2 : Byte} {d : Device} {interrupt : Word}
    (h : d.Remapped mask1 mask2) (hlow : 32#32 ≤ interrupt) (hhigh : interrupt ≤ 47#32)
    (hmaster : Single d.master.isr) (hslave : Single d.slave.isr)
    (hown : interrupt < 40#32 → d.slave.isr = 0#8) :
    (pic_acknowledge interrupt).wp (fun _ t => t.Remapped mask1 mask2 ∧ t.Idle) d := by
  have hrange : ¬ (interrupt < PIC1_START_INTERRUPT.setWidth 32 ∨
      interrupt > PIC2_END_INTERRUPT.setWidth 32) := by
    rw [not_or]
    exact ⟨BitVec.not_lt.mpr hlow, BitVec.not_lt.mpr hhigh⟩
  unfold pic_acknowledge
  rw [if_neg hrange]
  by_cases hboth : interrupt ≥ PIC2_START_INTERRUPT.setWidth 32
  · rw [if_pos hboth, Prog.wp_bind, outb, Prog.wp_modify, outb, Prog.wp_modify]
    exact ⟨(h.narrows (narrows_ack2 d)).narrows (narrows_ack1 _), hmaster, hslave⟩
  · rw [if_neg hboth, outb, Prog.wp_modify]
    exact ⟨h.narrows (narrows_ack1 d), hmaster, hown (BitVec.not_le.mp hboth)⟩

theorem interrupt_handler_spec {mask1 mask2 : Byte} {d : Device} {interrupt : Word}
    (h : d.Remapped mask1 mask2) (hlow : 32#32 ≤ interrupt) (hhigh : interrupt ≤ 47#32)
    (hmaster : Single d.master.isr) (hslave : Single d.slave.isr)
    (hown : interrupt < 40#32 → d.slave.isr = 0#8) :
    (interrupt_handler interrupt).wp (fun _ t => t.Remapped mask1 mask2 ∧ t.Idle) d := by
  unfold interrupt_handler
  split
  · rw [Prog.wp_bind, keyboard, Prog.wp_modify]
    exact pic_acknowledge_spec (h.narrows (narrows_same rfl rfl)) hlow hhigh hmaster hslave hown
  · exact pic_acknowledge_spec h hlow hhigh hmaster hslave hown

/-! ## What the chips deliver -/

theorem remapped_answers (base icw3 imr isr : Byte) : (remapped base icw3 imr isr).Answers :=
  ⟨rfl, show ICW4_8086.getLsbD 0 = true by decide⟩

theorem remapped_accepts (base icw3 imr : Byte) (i : Fin 8) :
    (remapped base icw3 imr 0#8).Accepts i ↔ imr.getLsbD i = false := by
  unfold Chip.Accepts
  constructor
  · exact fun h => h.2.1
  · exact fun h => ⟨remapped_answers _ _ _ _, h, fun j _ => by simp [remapped]⟩

theorem remapped_serve (base icw3 imr : Byte) (i : Fin 8) :
    (remapped base icw3 imr 0#8).serve i = remapped base icw3 imr (1#8 <<< i.val) := by
  have hmanual : ¬ (remapped base icw3 imr 0#8).icw4.getLsbD 1 = true :=
    show ¬ ICW4_8086.getLsbD 1 = true by decide
  unfold Chip.serve
  rw [if_neg hmanual]
  simp [remapped]

/-- What is in service for a request, at the master and at the slave. -/
def Request.inService : Request → Byte × Byte
  | .master i _ => (1#8 <<< i.val, 0#8)
  | .slave i => (1#8 <<< 2, 1#8 <<< i.val)
  | .spurious_master => (0#8, 0#8)
  | .spurious_slave => (1#8 <<< 2, 0#8)

/-- No mask is in the way. -/
def Request.Unmasked (mask1 mask2 : Byte) : Request → Prop
  | .master i _ => mask1.getLsbD i = false
  | .slave i => mask2.getLsbD i = false ∧ mask1.getLsbD 2 = false
  | .spurious_master => True
  | .spurious_slave => mask1.getLsbD 2 = false

theorem vector_eq : ∀ i : Fin 8, PIC1_START_INTERRUPT ||| BitVec.ofNat 8 i = BitVec.ofNat 8 (32 + i) ∧
    PIC2_START_INTERRUPT ||| BitVec.ofNat 8 i = BitVec.ofNat 8 (32 + (8 + i)) := by
  decide

/-- Both chips set up and idle, whatever else there is. -/
theorem Device.Remapped.idle_eq {mask1 mask2 : Byte} {d : Device} (h : d.Remapped mask1 mask2)
    (hidle : d.Idle) :
    d = ⟨remapped PIC1_START_INTERRUPT 0x04#8 mask1 0#8, remapped PIC2_START_INTERRUPT 0x02#8 mask2 0#8,
      d.codes, d.kbd, d.written⟩ := by
  have hm := h.master
  have hs := h.slave
  rw [hidle.master] at hm
  rw [hidle.slave] at hs
  rw [← hm, ← hs]

theorem remapped_cascaded (mask1 mask2 isr1 isr2 : Byte) (codes : List Byte) (kbd : Chat.Queue)
    (written : List (BitVec 16 × Byte)) :
    Device.Cascaded ⟨remapped PIC1_START_INTERRUPT 0x04#8 mask1 isr1,
      remapped PIC2_START_INTERRUPT 0x02#8 mask2 isr2, codes, kbd, written⟩ :=
  show (0x04#8).getLsbD 2 = true ∧ 0x02#8 &&& 0x07#8 = 0x02#8 by decide

/-- With both chips idle, a request that no mask is in the way of is delivered, as vector 32 and its
line. -/
theorem deliver_unmasked {mask1 mask2 : Byte} {d : Device} (h : d.Remapped mask1 mask2)
    (hidle : d.Idle) {r : Request} (hr : r.Unmasked mask1 mask2) :
    d.deliver r = some (BitVec.ofNat 8 (32 + r.irq),
      { d with
        master := remapped PIC1_START_INTERRUPT 0x04#8 mask1 r.inService.1
        slave := remapped PIC2_START_INTERRUPT 0x02#8 mask2 r.inService.2 }) := by
  rw [h.idle_eq hidle]
  have hcascaded := remapped_cascaded mask1 mask2 0#8 0#8 d.codes d.kbd d.written
  cases r with
  | master i hi =>
    have haccepts := (remapped_accepts PIC1_START_INTERRUPT 0x04#8 mask1 i).mpr hr
    refine (if_pos haccepts).trans ?_
    exact congrArg₂ (fun v master => some (v, Device.mk master _ _ _ _)) (vector_eq i).1
      (remapped_serve _ _ _ i)
  | slave i =>
    have hslave := (remapped_accepts PIC2_START_INTERRUPT 0x02#8 mask2 i).mpr hr.1
    have hmaster := (remapped_accepts PIC1_START_INTERRUPT 0x04#8 mask1 2).mpr hr.2
    refine (if_pos ⟨hslave, hmaster, hcascaded⟩).trans ?_
    show some (PIC2_START_INTERRUPT ||| BitVec.ofNat 8 i,
      Device.mk ((remapped PIC1_START_INTERRUPT 0x04#8 mask1 0#8).serve 2)
        ((remapped PIC2_START_INTERRUPT 0x02#8 mask2 0#8).serve i) d.codes d.kbd d.written) = _
    rw [(vector_eq i).2, remapped_serve, remapped_serve]
    rfl
  | spurious_master =>
    refine (if_pos (remapped_answers _ _ _ _)).trans ?_
    exact congrArg (fun v => some (v, _)) (vector_eq 7).1
  | spurious_slave =>
    have hmaster := (remapped_accepts PIC1_START_INTERRUPT 0x04#8 mask1 2).mpr hr
    refine (if_pos ⟨remapped_answers _ _ _ _, hmaster, hcascaded⟩).trans ?_
    exact congrArg₂ (fun v master => some (v, Device.mk master _ _ _ _)) (vector_eq 7).2
      (remapped_serve _ _ _ 2)

theorem deliver_masked {mask1 mask2 : Byte} {d : Device} (h : d.Remapped mask1 mask2) (hidle : d.Idle)
    {r : Request} (hr : ¬ r.Unmasked mask1 mask2) : d.deliver r = none := by
  rw [h.idle_eq hidle]
  cases r with
  | master i hi => exact if_neg fun hacc => hr ((remapped_accepts _ _ _ _).mp hacc)
  | slave i =>
    exact if_neg fun hacc =>
      hr ⟨(remapped_accepts _ _ _ _).mp hacc.1, (remapped_accepts _ _ _ _).mp hacc.2.1⟩
  | spurious_master => exact absurd trivial hr
  | spurious_slave =>
    exact if_neg fun hacc => hr ((remapped_accepts PIC1_START_INTERRUPT 0x04#8 mask1 2).mp hacc.2.1)

theorem deliver_some {mask1 mask2 : Byte} {d t : Device} (h : d.Remapped mask1 mask2) (hidle : d.Idle)
    {r : Request} {vector : Byte} (hd : d.deliver r = some (vector, t)) :
    r.Unmasked mask1 mask2 ∧ vector = BitVec.ofNat 8 (32 + r.irq) ∧
      t = { d with
        master := remapped PIC1_START_INTERRUPT 0x04#8 mask1 r.inService.1
        slave := remapped PIC2_START_INTERRUPT 0x02#8 mask2 r.inService.2 } := by
  by_cases hr : r.Unmasked mask1 mask2
  · rw [deliver_unmasked h hidle hr] at hd
    obtain ⟨rfl, rfl⟩ := Prod.mk.inj (Option.some.inj hd)
    exact ⟨hr, rfl, rfl⟩
  · rw [deliver_masked h hidle hr] at hd
    cases hd

theorem inService_single (r : Request) : Single r.inService.1 ∧ Single r.inService.2 := by
  cases r with
  | master i hi => exact ⟨single_line i, single_zero⟩
  | slave i => exact ⟨single_line 2, single_line i⟩
  | spurious_master => exact ⟨single_zero, single_zero⟩
  | spurious_slave => exact ⟨single_line 2, single_zero⟩

end MiniOS.Interrupt
