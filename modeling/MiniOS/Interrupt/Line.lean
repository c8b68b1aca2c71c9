import MiniOS.Interrupt.Acknowledge

/-!
# The keyboard's line

`keyboard_handler`, one access of a port at a time, between any steps of the keyboard. Its controller raises
line 1 when a byte comes, and lowers it when the byte is read. The master notices only that a line rises.
-/

open MiniOS.Lib

namespace MiniOS.Interrupt

/-- In `keyboard_handler`, before `inb(0x64)` or `inb(0x60)`, or in what comes after it. -/
inductive At
  | status
  | read_scan_code
  | rest (p : Action Unit)

/-- The controller has one byte in `output`, and the keyboard more of them. `asked` is line 1 in the
master's request register, `kernel` what is left of `pic_remap`. `read` and `missed` only record: what the
handler has read, and whether a byte was there when the master was started anew. -/
structure Wired where
  device : Device
  keys : List Byte
  output : Option Byte
  asked : Bool
  interrupts : Bool
  kernel : Action Unit
  handler : Option (Byte × At)
  read : List Byte
  missed : Bool

def Wired.start (d : Device) (keys : List Byte) (output : Option Byte) (asked : Bool) : Wired :=
  ⟨d, keys, output, asked, false, pic_remap, none, [], false⟩

def Restarts (d t : Device) : Prop := t.written = d.written ++ [(PIC1_COMMAND, ICW1_INIT)]

instance (d t : Device) : Decidable (Restarts d t) := inferInstanceAs (Decidable (_ = _))

/-- With ICW1 the master forgets which lines rose. -/
def Wired.perform (w : Wired) (f : Device → Device) : Wired :=
  { w with
    device := f w.device
    asked := if Restarts w.device (f w.device) then false else w.asked
    missed := if Restarts w.device (f w.device) then w.output.isSome else w.missed }

/-- The first statement of `interrupt_handler`. -/
def entry (vector : Byte) : At :=
  if vector.setWidth 32 = KEYBOARD_INTERRUPT then .status else .rest (pic_acknowledge (vector.setWidth 32))

inductive Wired.Label
  | key (b : Byte)
  | fill
  | fall
  | kernel
  | flag (interrupts : Bool)
  | chat (kbd : Chat.Queue)
  | request (r : Request)
  | status
  | read
  | statement
  | iret

/-- A request may be forgotten when the line falls before it is answered. After `pic_remap` the kernel sets
and clears the flag and uses the queue as it likes. The gates clear the flag: `idt_initialize_masks`. -/
inductive Wired.Step (w : Wired) : Wired.Label → Wired → Prop
  | key (b : Byte) : Step w (.key b) { w with keys := w.keys ++ [b] }
  | fill {b : Byte} {keys : List Byte} : w.keys = b :: keys → w.output = none →
      Step w .fill { w with keys := keys, output := some b, asked := true }
  | fall : w.output = none → Step w .fall { w with asked := false }
  | kernel {f : Device → Device} {rest : Device → Action Unit} :
      w.kernel = .stmt f rest → w.handler = none →
      Step w .kernel { w.perform f with kernel := rest w.device }
  | flag (interrupts : Bool) : w.kernel = .ret () → w.handler = none →
      Step w (.flag interrupts) { w with interrupts := interrupts }
  | chat (kbd : Chat.Queue) : w.kernel = .ret () → w.handler = none →
      Step w (.chat kbd) { w with device := { w.device with kbd := kbd } }
  | request {r : Request} {vector : Byte} {d : Device} : w.interrupts = true →
      w.device.deliver r = some (vector, d) → (r.irq = 1 → w.asked = true) →
      Step w (.request r) { w with
        device := d
        asked := if r.irq = 1 then false else w.asked
        interrupts := false
        handler := some (vector, entry vector) }
  | status {vector : Byte} : w.handler = some (vector, .status) →
      Step w .status { w with
        handler := some (vector,
          if w.output.isSome then .read_scan_code else .rest (pic_acknowledge (vector.setWidth 32))) }
  | read (junk : Byte) {vector : Byte} : w.handler = some (vector, .read_scan_code) →
      Step w .read { w with
        device := { w.device with kbd := Chat.keyboard_handler [w.output.getD junk] w.device.kbd }
        output := none
        handler := some (vector, .status)
        read := w.read ++ [w.output.getD junk] }
  | statement {vector : Byte} {f : Device → Device} {rest : Device → Action Unit} :
      w.handler = some (vector, .rest (.stmt f rest)) →
      Step w .statement { w.perform f with handler := some (vector, .rest (rest w.device)) }
  | iret {vector : Byte} : w.handler = some (vector, .rest (.ret ())) →
      Step w .iret { w with interrupts := true, handler := none }

/-! ## Starting the master anew -/

def Keeps (d t : Device) : Prop := ¬Restarts d t

theorem out_written (d : Device) (port : BitVec 16) (data : Byte) :
    (d.out port data).written = d.written ++ [(port, data)] := by
  unfold Device.out
  dsimp only
  split
  · rfl
  split
  · rfl
  split
  · rfl
  split <;> rfl

theorem keeps_outb {port : BitVec 16} {data : Byte} (h : (port, data) ≠ (PIC1_COMMAND, ICW1_INIT)) :
    (outb port data).Each Keeps :=
  Prog.each_modify fun d hd => by
    unfold Restarts at hd
    rw [out_written] at hd
    exact h (List.cons.inj (List.append_cancel_left hd)).1

theorem keeps_id (d : Device) : Keeps d d := fun h => by
  have := congrArg List.length h
  rw [List.length_append, List.length_singleton] at this
  omega

theorem pic_acknowledge_keeps (interrupt : Word) : (pic_acknowledge interrupt).Each Keeps := by
  have hack1 : (outb PIC1_COMMAND PIC_ACK).Each Keeps := keeps_outb (by decide)
  have hack2 : (outb PIC2_COMMAND PIC_ACK).Each Keeps := keeps_outb (by decide)
  unfold pic_acknowledge
  split
  · trivial
  split
  · exact hack2.bind fun _ => hack1
  · exact hack1

/-- What `pic_remap` does after it has started the master anew. -/
def remapRest (mask1 mask2 : Byte) : Action Unit := do
  outb PIC2_COMMAND ICW1_INIT
  outb PIC1_DATA PIC1_START_INTERRUPT
  outb PIC2_DATA PIC2_START_INTERRUPT
  outb PIC1_DATA 0x04#8
  outb PIC2_DATA 0x02#8
  outb PIC1_DATA ICW4_8086
  outb PIC2_DATA ICW4_8086
  outb PIC1_DATA mask1
  outb PIC2_DATA mask2

def remapMasked (mask1 mask2 : Byte) : Action Unit :=
  .stmt (fun d => d.out PIC1_COMMAND ICW1_INIT) fun _ => remapRest mask1 mask2

def remapMask1 (mask1 : Byte) : Action Unit := .stmt id fun d => remapMasked mask1 d.slave.imr

theorem remapRest_keeps (mask1 mask2 : Byte) : (remapRest mask1 mask2).Each Keeps := by
  have hports : ∀ data, (PIC1_DATA, data) ≠ (PIC1_COMMAND, ICW1_INIT) ∧
      (PIC2_DATA, data) ≠ (PIC1_COMMAND, ICW1_INIT) ∧ (PIC2_COMMAND, data) ≠ (PIC1_COMMAND, ICW1_INIT) := by
    decide
  unfold remapRest
  refine (keeps_outb (hports _).2.2).bind fun _ => ?_
  refine (keeps_outb (hports _).1).bind fun _ => ?_
  refine (keeps_outb (hports _).2.1).bind fun _ => ?_
  refine (keeps_outb (hports _).1).bind fun _ => ?_
  refine (keeps_outb (hports _).2.1).bind fun _ => ?_
  refine (keeps_outb (hports _).1).bind fun _ => ?_
  refine (keeps_outb (hports _).2.1).bind fun _ => ?_
  exact (keeps_outb (hports _).1).bind fun _ => keeps_outb (hports _).2.1

theorem Wired.perform_keeps {w : Wired} {f : Device → Device} (h : Keeps w.device (f w.device)) :
    w.perform f = { w with device := f w.device } := by
  unfold perform
  rw [if_neg h, if_neg h]

/-! ## The chips -/

section
variable {mask1 mask2 : Byte} {w t : Wired} {l : Wired.Label}

/-- Run to its end, this leaves both chips set up and idle. -/
def Settles (mask1 mask2 : Byte) (p : Action Unit) (d : Device) : Prop :=
  p.Each Keeps ∧ p.wp (fun _ t => t.Remapped mask1 mask2 ∧ t.Idle) d

theorem Settles.stmt {f : Device → Device} {rest : Device → Action Unit} {d : Device}
    (h : Settles mask1 mask2 (.stmt f rest) d) :
    Keeps d (f d) ∧ Settles mask1 mask2 (rest d) (f d) :=
  ⟨(h.1 d).1, (h.1 d).2, h.2⟩

theorem settles_ret {d : Device} :
    Settles mask1 mask2 (.ret ()) d ↔ d.Remapped mask1 mask2 ∧ d.Idle :=
  ⟨fun h => (Prog.wp_ret ()).mp h.2, fun h => ⟨trivial, (Prog.wp_ret ()).mpr h⟩⟩

/-- Line 1 is in service, and nothing else. -/
structure Serving (mask1 mask2 : Byte) (d : Device) : Prop where
  setup : d.Remapped mask1 mask2
  master : d.master.isr = 1#8 <<< 1
  slave : d.slave.isr = 0#8

theorem Serving.settles {d : Device} (h : Serving mask1 mask2 d) :
    Settles mask1 mask2 (pic_acknowledge KEYBOARD_INTERRUPT) d := by
  refine ⟨pic_acknowledge_keeps _,
    pic_acknowledge_spec h.setup (by decide) (by decide) ?_ ?_ fun _ => h.slave⟩
  · rw [h.master]
    exact single_line 1
  · rw [h.slave]
    exact single_zero

def At.Ends (mask1 mask2 vector : Byte) (d : Device) (output : Option Byte) : At → Prop
  | .status => vector = 33#8 ∧ Serving mask1 mask2 d
  | .read_scan_code => vector = 33#8 ∧ Serving mask1 mask2 d ∧ output ≠ none
  | .rest p => Settles mask1 mask2 p d

structure Wired.Sound (mask1 mask2 : Byte) (w : Wired) : Prop where
  main : w.handler = none → Settles mask1 mask2 w.kernel w.device
  busy : ∀ v a, w.handler = some (v, a) → w.kernel = .ret () ∧ a.Ends mask1 mask2 v w.device w.output
  closed : w.interrupts = true → w.handler = none ∧ w.kernel = .ret ()

theorem Wired.Sound.ready (h : w.Sound mask1 mask2) (hset : w.interrupts = true) :
    w.device.Remapped mask1 mask2 ∧ w.device.Idle := by
  obtain ⟨hnone, hret⟩ := h.closed hset
  have hmain := h.main hnone
  rw [hret] at hmain
  exact settles_ret.mp hmain

theorem irq_eq_one {r : Request} (h : r.irq = 1) : r = .master 1 (by decide) := by
  cases r with
  | master i hi =>
    obtain rfl : i = 1 := Fin.ext h
    rfl
  | slave i => exact absurd h (by show 8 + i.val ≠ 1; omega)
  | spurious_master => cases h
  | spurious_slave => cases h

theorem number_keyboard (r : Request) :
    (BitVec.ofNat 8 (32 + r.irq)).setWidth 32 = KEYBOARD_INTERRUPT ↔ r.irq = 1 := by
  rw [← BitVec.toNat_inj, number_toNat]
  show 32 + r.irq = 33 ↔ r.irq = 1
  omega

/-- What the CPU finds when it answers a request. -/
theorem Wired.Sound.request (h : w.Sound mask1 mask2) (hset : w.interrupts = true) {r : Request}
    {vector : Byte} {d : Device} (hd : w.device.deliver r = some (vector, d)) :
    (entry vector).Ends mask1 mask2 vector d w.output ∧ (entry vector = .status ↔ r.irq = 1) ∧
      entry vector ≠ .read_scan_code := by
  obtain ⟨hsetup, hidle⟩ := h.ready hset
  obtain ⟨-, rfl, rfl⟩ := deliver_some hsetup hidle hd
  by_cases hline : r.irq = 1
  · obtain rfl := irq_eq_one hline
    exact ⟨⟨rfl, ⟨rfl, rfl⟩, rfl, rfl⟩, ⟨fun _ => rfl, fun _ => rfl⟩, At.noConfusion⟩
  · have hother := mt (number_keyboard r).mp hline
    have hspec := handler_serves mask1 mask2 r w.device
    unfold interrupt_handler at hspec
    rw [if_neg hother] at hspec
    unfold entry
    rw [if_neg hother]
    exact ⟨⟨pic_acknowledge_keeps _, hspec⟩, ⟨At.noConfusion, fun h => absurd h hline⟩, At.noConfusion⟩

theorem Wired.Sound.step (h : w.Sound mask1 mask2) (hs : Wired.Step w l t) : t.Sound mask1 mask2 := by
  obtain ⟨hmain, hbusy, hclosed⟩ := h
  cases hs with
  | key b => exact ⟨hmain, hbusy, hclosed⟩
  | @fill b keys hkeys hout =>
    refine ⟨hmain, fun v a ha => ?_, hclosed⟩
    obtain ⟨hkernel, hends⟩ := hbusy v a ha
    refine ⟨hkernel, ?_⟩
    cases a with
    | status => exact hends
    | read_scan_code => exact absurd hout hends.2.2
    | rest p => exact hends
  | fall => exact ⟨hmain, hbusy, hclosed⟩
  | kernel hk hnone =>
    have hsettles := hmain hnone
    rw [hk] at hsettles
    obtain ⟨hkeeps, hrest⟩ := hsettles.stmt
    rw [Wired.perform_keeps hkeeps]
    refine ⟨fun _ => hrest, fun v a ha => ?_, fun hset => ?_⟩
    · rw [hnone] at ha
      cases ha
    · rw [(hclosed hset).2] at hk
      cases hk
  | flag interrupts hk hnone => exact ⟨hmain, hbusy, fun _ => ⟨hnone, hk⟩⟩
  | chat kbd hk hnone =>
    refine ⟨fun _ => ?_, fun v a ha => ?_, hclosed⟩
    · have hsettles := hmain hnone
      rw [hk] at hsettles
      obtain ⟨⟨hm, hs⟩, hidle⟩ := settles_ret.mp hsettles
      rw [show Wired.kernel _ = w.kernel from rfl, hk]
      exact settles_ret.mpr ⟨⟨hm, hs⟩, ⟨hidle.master, hidle.slave⟩⟩
    · rw [hnone] at ha
      cases ha
  | @request r vector d hset hd hasked =>
    have hends := (Wired.Sound.request ⟨hmain, hbusy, hclosed⟩ hset hd).1
    refine ⟨nofun, fun v a ha => ?_, nofun⟩
    obtain ⟨rfl, rfl⟩ := Prod.mk.inj (Option.some.inj ha)
    exact ⟨(hclosed hset).2, hends⟩
  | @status vector hh =>
    obtain ⟨hkernel, rfl, hserving⟩ := hbusy _ _ hh
    refine ⟨nofun, fun v a ha => ?_, fun hset => ?_⟩
    · obtain ⟨rfl, rfl⟩ := Prod.mk.inj (Option.some.inj ha)
      refine ⟨hkernel, ?_⟩
      split
      · exact ⟨rfl, hserving, Option.isSome_iff_ne_none.mp ‹_›⟩
      · exact hserving.settles
    · rw [(hclosed hset).1] at hh
      cases hh
  | @read junk vector hh =>
    obtain ⟨hkernel, rfl, ⟨⟨hm, hs⟩, hmaster, hslave⟩, -⟩ := hbusy _ _ hh
    refine ⟨nofun, fun v a ha => ?_, fun hset => ?_⟩
    · obtain ⟨rfl, rfl⟩ := Prod.mk.inj (Option.some.inj ha)
      exact ⟨hkernel, rfl, ⟨⟨hm, hs⟩, hmaster, hslave⟩⟩
    · rw [(hclosed hset).1] at hh
      cases hh
  | statement hh =>
    obtain ⟨hkernel, hsettles⟩ := hbusy _ _ hh
    obtain ⟨hkeeps, hrest⟩ := Settles.stmt hsettles
    rw [Wired.perform_keeps hkeeps]
    refine ⟨nofun, fun v a ha => ?_, fun hset => ?_⟩
    · obtain ⟨rfl, rfl⟩ := Prod.mk.inj (Option.some.inj ha)
      exact ⟨hkernel, hrest⟩
    · rw [(hclosed hset).1] at hh
      cases hh
  | iret hh =>
    obtain ⟨hkernel, hsettles⟩ := hbusy _ _ hh
    refine ⟨fun _ => ?_, fun _ _ => nofun, fun _ => ⟨rfl, hkernel⟩⟩
    rw [show Wired.kernel _ = w.kernel from rfl, hkernel]
    exact hsettles

end

end MiniOS.Interrupt
