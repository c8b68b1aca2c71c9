import MiniOS.Interrupt.Idt
import MiniOS.Interrupt.Pic
import MiniOS.Lib.Run

/-!
# Every interrupt is acknowledged

The machine takes interrupts at any time at which the flag is set, and exceptions at any
time at all, one on top of another. The gates clear the flag, so no interrupt comes on
top of one that is not yet acknowledged.
-/

open MiniOS.Lib

namespace MiniOS.Interrupt

/-- A handler that runs: what is left of it, and the flag that `iret` will restore. -/
structure Frame where
  vector : Byte
  interrupts : Bool
  rest : Action Unit

structure Machine where
  device : Device
  interrupts : Bool
  frames : List Frame

/-- The label `interrupt_handler_N` hands `N` on to C. -/
def Machine.enter (idt : Idt) (m : Machine) (vector : Byte) (d : Device) : Machine where
  device := d
  interrupts := if (idt.get vector.toFin).Masks then false else m.interrupts
  frames := ⟨vector, m.interrupts, interrupt_handler (vector.setWidth 32)⟩ :: m.frames

/-- The main program sets and clears the flag when it likes. -/
inductive Label
  | request (r : Request) (codes : List Byte)
  | exception (vector : Byte)
  | statement
  | iret
  | flag (interrupts : Bool)

inductive Machine.Step (idt : Idt) : Machine → Label → Machine → Prop
  | request {m : Machine} {r : Request} {codes : List Byte} {vector : Byte} {d : Device} :
      m.interrupts = true → m.device.deliver r = some (vector, d) →
      Step idt m (.request r codes) (m.enter idt vector { d with codes := d.codes ++ codes })
  | exception {m : Machine} {vector : Byte} : vector < 32#8 →
      Step idt m (.exception vector) (m.enter idt vector m.device)
  | statement {m : Machine} {vector : Byte} {interrupts : Bool} {f : Device → Device}
      {rest : Device → Action Unit} {frames : List Frame} :
      m.frames = ⟨vector, interrupts, .stmt f rest⟩ :: frames →
      Step idt m .statement
        { m with device := f m.device, frames := ⟨vector, interrupts, rest m.device⟩ :: frames }
  | iret {m : Machine} {vector : Byte} {interrupts : Bool} {frames : List Frame} :
      m.frames = ⟨vector, interrupts, .ret ()⟩ :: frames →
      Step idt m .iret { m with interrupts := interrupts, frames := frames }
  | flag {m : Machine} {interrupts : Bool} : m.frames = [] →
      Step idt m (.flag interrupts) { m with interrupts := interrupts }

/-- The handlers that run, to their end. -/
def finish : List Frame → Device → Except Empty Device
  | [], d => .ok d
  | f :: frames, d => (f.rest.exec d).bind fun x => finish frames x.2

/-! ## Whose line it is -/

/-- The master's line 2 is in service for every line of the slave. -/
def Frame.OwnsMaster (f : Frame) (i : Nat) : Prop :=
  f.vector.toNat = 32 + i ∨ i = 2 ∧ 40 ≤ f.vector.toNat ∧ f.vector.toNat ≤ 47

def Frame.OwnsSlave (f : Frame) (i : Nat) : Prop := f.vector.toNat = 40 + i

/-- Whatever is in service is in service for a handler that runs. -/
structure Owned (d : Device) (frames : List Frame) : Prop where
  master : ∀ i, d.master.isr.getLsbD i = true → ∃ f ∈ frames, f.OwnsMaster i
  slave : ∀ i, d.slave.isr.getLsbD i = true → ∃ f ∈ frames, f.OwnsSlave i

theorem Device.Idle.owned {d : Device} (h : d.Idle) (frames : List Frame) : Owned d frames := by
  refine ⟨fun i hi => ?_, fun i hi => ?_⟩
  · rw [h.master] at hi
    simp at hi
  · rw [h.slave] at hi
    simp at hi

theorem getLsbD_line {i j : Nat} (h : (1#8 <<< i).getLsbD j = true) : j = i := by
  rw [← BitVec.twoPow_eq, BitVec.getLsbD_twoPow] at h
  simp only [Bool.and_eq_true, decide_eq_true_eq] at h
  exact h.2.symm

theorem Request.irq_lt (r : Request) : r.irq < 16 := by
  cases r with
  | master i hi => exact lt_of_lt_of_le i.isLt (by decide)
  | slave i =>
    have := i.isLt
    show 8 + i.val < 16
    omega
  | spurious_master => decide
  | spurious_slave => decide

theorem vector_toNat (r : Request) : (BitVec.ofNat 8 (32 + r.irq)).toNat = 32 + r.irq := by
  have := r.irq_lt
  rw [BitVec.toNat_ofNat]
  omega

theorem inService_master {r : Request} {i : Nat} (h : r.inService.1.getLsbD i = true) :
    r.irq = i ∨ i = 2 ∧ 8 ≤ r.irq := by
  cases r with
  | master j hj => exact Or.inl (getLsbD_line h).symm
  | slave j => exact Or.inr ⟨getLsbD_line h, Nat.le_add_right 8 j⟩
  | spurious_master => simp [Request.inService] at h
  | spurious_slave => exact Or.inr ⟨getLsbD_line h, by decide⟩

theorem inService_slave {r : Request} {i : Nat} (h : r.inService.2.getLsbD i = true) :
    r.irq = 8 + i := by
  cases r with
  | master j hj => simp [Request.inService] at h
  | slave j => exact congrArg (8 + ·) (getLsbD_line h).symm
  | spurious_master => simp [Request.inService] at h
  | spurious_slave => simp [Request.inService] at h

theorem inService_low {r : Request} (h : r.irq < 8) : r.inService.2 = 0#8 := by
  cases r with
  | slave i => exact absurd h (Nat.not_lt.mpr (Nat.le_add_right 8 i))
  | _ => rfl

/-- The number that C gets. -/
theorem number_toNat (r : Request) :
    ((BitVec.ofNat 8 (32 + r.irq)).setWidth 32).toNat = 32 + r.irq := by
  have := r.irq_lt
  rw [BitVec.toNat_setWidth, vector_toNat]
  omega

/-- The handler of a request that was delivered leaves nothing in service. -/
theorem handler_acknowledges {mask1 mask2 : Byte} {d : Device} {r : Request}
    (h : d.Remapped mask1 mask2) (hmaster : d.master.isr = r.inService.1)
    (hslave : d.slave.isr = r.inService.2) :
    (interrupt_handler ((BitVec.ofNat 8 (32 + r.irq)).setWidth 32)).wp
      (fun _ t => t.Remapped mask1 mask2 ∧ t.Idle) d := by
  have hnumber := number_toNat r
  have hirq := r.irq_lt
  obtain ⟨hsingle1, hsingle2⟩ := inService_single r
  apply interrupt_handler_spec h
  · rw [BitVec.le_def, hnumber]
    exact Nat.le_add_right 32 r.irq
  · rw [BitVec.le_def, hnumber]
    show 32 + r.irq ≤ 47
    omega
  · rwa [hmaster]
  · rwa [hslave]
  · intro hlow
    rw [BitVec.lt_def, hnumber] at hlow
    have hlow' : 32 + r.irq < 40 := hlow
    rw [hslave]
    exact inService_low (by omega)

/-- From what the chips deliver. -/
theorem handler_serves (mask1 mask2 : Byte) (r : Request) (d : Device) :
    (interrupt_handler ((BitVec.ofNat 8 (32 + r.irq)).setWidth 32)).wp
      (fun _ t => t.Remapped mask1 mask2 ∧ t.Idle)
      { d with
        master := remapped PIC1_START_INTERRUPT 0x04#8 mask1 r.inService.1
        slave := remapped PIC2_START_INTERRUPT 0x02#8 mask2 r.inService.2 } :=
  handler_acknowledges ⟨rfl, rfl⟩ rfl rfl

/-! ## The invariant -/

/-- At the bottom there may be an interrupt. On top of it there are exceptions only. -/
structure Machine.Inv (mask1 mask2 : Byte) (m : Machine) : Prop where
  setup : m.device.Remapped mask1 mask2
  closed : m.interrupts = true → m.frames = []
  nested : ∀ f ∈ m.frames.dropLast, f.vector < 32#8 ∧ f.interrupts = false
  narrows : ∀ f ∈ m.frames, f.rest.Each Narrows
  ends : ∃ d, finish m.frames m.device = .ok d ∧ d.Idle
  owned : Owned m.device m.frames

theorem Machine.Inv.idle {mask1 mask2 : Byte} {m : Machine} (h : m.Inv mask1 mask2)
    (hframes : m.frames = []) : m.device.Idle := by
  obtain ⟨d, hd, hidle⟩ := h.ends
  rw [hframes] at hd
  rwa [Except.ok.inj hd]

section
variable {idt : Idt} {mask1 mask2 : Byte} {m : Machine}

theorem Machine.enter_masked (h : Masking idt)
    {vector : Byte} (hv : vector.toNat < 48) (d : Device) :
    m.enter idt vector d =
      ⟨d, false, ⟨vector, m.interrupts, interrupt_handler (vector.setWidth 32)⟩ :: m.frames⟩ := by
  unfold enter
  rw [if_pos (h vector.toFin hv)]

theorem Machine.Inv.request (h : m.Inv mask1 mask2) (hset : m.interrupts = true) {r : Request}
    {vector : Byte} {d : Device} (hd : m.device.deliver r = some (vector, d)) (codes : List Byte) :
    Machine.Inv mask1 mask2 ⟨{ d with codes := d.codes ++ codes }, false,
      ⟨vector, m.interrupts, interrupt_handler (vector.setWidth 32)⟩ :: m.frames⟩ := by
  have hframes := h.closed hset
  have hidle := h.idle hframes
  obtain ⟨-, rfl, rfl⟩ := deliver_some h.setup hidle hd
  have hvector := vector_toNat r
  have hirq := r.irq_lt
  rw [hframes]
  refine ⟨⟨rfl, rfl⟩, fun hset => absurd hset Bool.false_ne_true,
    fun f hf => absurd hf List.not_mem_nil, ?_, ?_, ?_⟩
  · intro f hf
    rw [List.mem_singleton.mp hf]
    exact interrupt_handler_narrows _
  · obtain ⟨⟨⟩, t, hrun, -, ht⟩ :=
      handler_serves mask1 mask2 r { m.device with codes := m.device.codes ++ codes }
    refine ⟨t, ?_, ht⟩
    rw [finish, hrun]
    rfl
  · refine ⟨fun i hi => ⟨_, List.mem_singleton_self _, ?_⟩, fun i hi => ⟨_, List.mem_singleton_self _, ?_⟩⟩
    · unfold Frame.OwnsMaster
      rw [hvector]
      rcases inService_master hi with hline | ⟨hcascade, hline⟩
      · exact Or.inl (by omega)
      · exact Or.inr ⟨hcascade, by omega, by omega⟩
    · unfold Frame.OwnsSlave
      rw [hvector, inService_slave hi]
      omega

/-- An exception comes on top of whatever runs, and changes nothing. -/
theorem Machine.Inv.exception (h : m.Inv mask1 mask2) {vector : Byte} (hv : vector < 32#8) :
    Machine.Inv mask1 mask2 ⟨m.device, false,
      ⟨vector, m.interrupts, interrupt_handler (vector.setWidth 32)⟩ :: m.frames⟩ := by
  have hnumber : vector.setWidth 32 < 32#32 := by
    rw [BitVec.lt_def] at hv ⊢
    rw [BitVec.toNat_setWidth]
    show vector.toNat % 2 ^ 32 < 32
    have : vector.toNat < 32 := hv
    omega
  refine ⟨h.setup, fun hset => absurd hset Bool.false_ne_true, ?_, ?_, ?_, ?_⟩
  · intro f hf
    cases hframes : m.frames with
    | nil =>
      rw [hframes] at hf
      exact absurd hf List.not_mem_nil
    | cons g frames =>
      have hclear : m.interrupts = false := by
        by_contra hset
        rw [h.closed (by simpa using hset)] at hframes
        cases hframes
      rw [List.dropLast_cons_of_ne_nil (by rw [hframes]; simp)] at hf
      rcases List.mem_cons.mp hf with rfl | hf
      · exact ⟨hv, hclear⟩
      · exact h.nested f hf
  · intro f hf
    rcases List.mem_cons.mp hf with rfl | hf
    · exact interrupt_handler_narrows _
    · exact h.narrows f hf
  · obtain ⟨d, hd, hidle⟩ := h.ends
    refine ⟨d, ?_, hidle⟩
    rw [finish, interrupt_handler_exception hnumber]
    exact hd
  · refine ⟨fun i hi => ?_, fun i hi => ?_⟩
    · obtain ⟨f, hf, howns⟩ := h.owned.master i hi
      exact ⟨f, List.mem_cons_of_mem _ hf, howns⟩
    · obtain ⟨f, hf, howns⟩ := h.owned.slave i hi
      exact ⟨f, List.mem_cons_of_mem _ hf, howns⟩

theorem Machine.Inv.statement (h : m.Inv mask1 mask2) {vector : Byte} {interrupts : Bool}
    {f : Device → Device} {rest : Device → Action Unit} {frames : List Frame}
    (hframes : m.frames = ⟨vector, interrupts, .stmt f rest⟩ :: frames) :
    Machine.Inv mask1 mask2
      { m with device := f m.device, frames := ⟨vector, interrupts, rest m.device⟩ :: frames } := by
  obtain ⟨hsetup, hclosed, hnested, hnarrows, hends, howned⟩ := h
  rw [hframes] at hclosed hnested hnarrows hends howned
  obtain ⟨hstep, hrest⟩ := hnarrows _ List.mem_cons_self m.device
  refine ⟨hsetup.narrows hstep, fun hset => absurd (hclosed hset) (by simp), ?_, ?_, ?_, ?_⟩
  · intro g hg
    cases frames with
    | nil => exact absurd hg List.not_mem_nil
    | cons g' frames =>
      rcases List.mem_cons.mp hg with rfl | hg
      · exact hnested ⟨vector, interrupts, .stmt f rest⟩ List.mem_cons_self
      · exact hnested g (List.mem_cons_of_mem _ hg)
  · intro g hg
    rcases List.mem_cons.mp hg with rfl | hg
    · exact hrest
    · exact hnarrows g (List.mem_cons_of_mem _ hg)
  · exact hends
  · have hmem : ∀ g ∈ (⟨vector, interrupts, .stmt f rest⟩ :: frames : List Frame),
        ∃ g' ∈ (⟨vector, interrupts, rest m.device⟩ :: frames : List Frame), g'.vector = g.vector := by
      intro g hg
      rcases List.mem_cons.mp hg with rfl | hg
      · exact ⟨_, List.mem_cons_self, rfl⟩
      · exact ⟨g, List.mem_cons_of_mem _ hg, rfl⟩
    refine ⟨fun i hi => ?_, fun i hi => ?_⟩
    · obtain ⟨g, hg, howns⟩ := howned.master i (hstep.master_isr i hi)
      obtain ⟨g', hg', hvector⟩ := hmem g hg
      exact ⟨g', hg', by rwa [Frame.OwnsMaster, hvector]⟩
    · obtain ⟨g, hg, howns⟩ := howned.slave i (hstep.slave_isr i hi)
      obtain ⟨g', hg', hvector⟩ := hmem g hg
      exact ⟨g', hg', by rwa [Frame.OwnsSlave, hvector]⟩

theorem Machine.Inv.iret (h : m.Inv mask1 mask2) {vector : Byte} {interrupts : Bool}
    {frames : List Frame} (hframes : m.frames = ⟨vector, interrupts, .ret ()⟩ :: frames) :
    Machine.Inv mask1 mask2 { m with interrupts := interrupts, frames := frames } := by
  obtain ⟨hsetup, -, hnested, hnarrows, hends, howned⟩ := h
  rw [hframes] at hnested hnarrows hends howned
  have hends' : ∃ d, finish frames m.device = .ok d ∧ d.Idle := hends
  cases frames with
  | nil =>
    obtain ⟨d, hd, hidle⟩ := hends'
    obtain rfl := Except.ok.inj hd
    exact ⟨hsetup, fun _ => rfl, fun f hf => absurd hf List.not_mem_nil,
      fun f hf => absurd hf List.not_mem_nil, hends, hidle.owned []⟩
  | cons g frames =>
    -- what returns here is an exception, and the flag stays clear
    obtain ⟨hexception, hclear⟩ := hnested _ List.mem_cons_self
    have hlow : vector.toNat < 32 := hexception
    refine ⟨hsetup, fun hset => absurd (hclear.symm.trans hset) (by decide), ?_, ?_, hends', ?_⟩
    · exact fun f hf => hnested f (List.mem_cons_of_mem _ hf)
    · exact fun f hf => hnarrows f (List.mem_cons_of_mem _ hf)
    · refine ⟨fun i hi => ?_, fun i hi => ?_⟩
      · obtain ⟨f, hf, howns⟩ := howned.master i hi
        rcases List.mem_cons.mp hf with rfl | hf
        · rcases howns with howns | ⟨-, howns, -⟩
          · have : vector.toNat = 32 + i := howns
            omega
          · have : 40 ≤ vector.toNat := howns
            omega
        · exact ⟨f, hf, howns⟩
      · obtain ⟨f, hf, howns⟩ := howned.slave i hi
        rcases List.mem_cons.mp hf with rfl | hf
        · have : vector.toNat = 40 + i := howns
          omega
        · exact ⟨f, hf, howns⟩

theorem Machine.Inv.step (h : m.Inv mask1 mask2)
    (hmasks : Masking idt) {l : Label} {m' : Machine}
    (hs : Machine.Step idt m l m') : m'.Inv mask1 mask2 := by
  cases hs with
  | @request r codes vector d hset hd =>
    have hvector : vector.toNat < 48 := by
      obtain ⟨-, rfl, -⟩ := deliver_some h.setup (h.idle (h.closed hset)) hd
      have := r.irq_lt
      rw [vector_toNat]
      omega
    rw [Machine.enter_masked hmasks hvector]
    exact h.request hset hd codes
  | @exception vector hv =>
    have hvector : vector.toNat < 48 := lt_trans (show vector.toNat < 32 from hv) (by decide)
    rw [Machine.enter_masked hmasks hvector]
    exact h.exception hv
  | statement hframes => exact h.statement hframes
  | iret hframes => exact h.iret hframes
  | flag hframes =>
    exact ⟨h.setup, fun _ => hframes, h.nested, h.narrows, h.ends, h.owned⟩

end

/-! ## From `pic_remap` on -/

/-- **Every interrupt is acknowledged, and no other with it.** `pic_remap` keeps both masks. In every run
after it, at most one request is being handled, under exceptions only, and whatever is in service is in
service for a handler that runs. Once no handler runs, nothing is in service. Every line that is not
masked gets through whenever the flag is set, as vector 32 and its number. An exception does nothing to
the chips. -/
theorem interrupts_acknowledged (d : Device) (label : Fin 48 → Word) (idt_entries : Idt) :
    ∃ t, pic_remap.exec d = .ok ((), t) ∧ t.master.imr = d.master.imr ∧ t.slave.imr = d.slave.imr ∧
      ∀ interrupts ls m,
        Run (Machine.Step <| idt_initialize label idt_entries) ⟨t, interrupts, []⟩ ls m →
        m.device.master.imr = d.master.imr ∧ m.device.slave.imr = d.slave.imr ∧
        (∀ f ∈ m.frames.dropLast, f.vector < 32#8) ∧ Owned m.device m.frames ∧
        (m.frames = [] → m.device.Idle) ∧
        (∀ v < 32#32, (interrupt_handler v).exec m.device = .ok ((), m.device)) ∧
        (m.interrupts = true → ∀ r : Request,
          (r.Unmasked d.master.imr d.slave.imr ↔ ∃ v t', m.device.deliver r = some (v, t')) ∧
          ∀ v t', m.device.deliver r = some (v, t') → v.toNat = 32 + r.irq) := by
  obtain ⟨t, hremap, hsetup, hidle⟩ := pic_remap_spec d
  refine ⟨t, hremap, by rw [hsetup.master]; rfl, by rw [hsetup.slave]; rfl, fun interrupts ls m hrun => ?_⟩
  have hstart : Machine.Inv d.master.imr d.slave.imr ⟨t, interrupts, []⟩ :=
    ⟨hsetup, fun _ => rfl, fun f hf => absurd hf List.not_mem_nil, fun f hf => absurd hf List.not_mem_nil,
      ⟨t, rfl, hidle⟩, hidle.owned []⟩
  have hm : m.Inv d.master.imr d.slave.imr := hrun.state_inv (Machine.Inv _ _) hstart
    fun _ _ _ h hs => h.step (idt_initialize_masks label idt_entries) hs
  refine ⟨by rw [hm.setup.master]; rfl, by rw [hm.setup.slave]; rfl, fun f hf => (hm.nested f hf).1,
    hm.owned, hm.idle, fun v hv => interrupt_handler_exception hv _, fun hset r => ?_⟩
  have hquiet := hm.idle (hm.closed hset)
  refine ⟨⟨fun hr => ⟨_, _, deliver_unmasked hm.setup hquiet hr⟩, ?_⟩, fun v t' hd => ?_⟩
  · rintro ⟨v, t', hd⟩
    exact (deliver_some hm.setup hquiet hd).1
  · rw [(deliver_some hm.setup hquiet hd).2.1]
    exact vector_toNat r

def bootChip : Chip := ⟨0#8, 0#8, 0#8, 0#8, 0#8, 0#8, .ready⟩

def bootDevice : Device := ⟨bootChip, bootChip, [], ⟨Vector.replicate _ 0#8, 0#8, 0#8⟩, []⟩

def bootIdt : Idt := idt_initialize (fun _ => 0xC0100000#32) (Vector.replicate _ (gate 0#32 0#16 0#8))

/-- The mouse, on line 4 of the slave: two acknowledgements, and nothing is left in service. -/
theorem interrupts_acknowledged_mouse :
    ∃ t ls m, pic_remap.exec bootDevice = .ok ((), t) ∧ Run (Machine.Step bootIdt) ⟨t, true, []⟩ ls m ∧
      ls = [.request (.slave 4) [], .statement, .statement, .iret] ∧ m.device.Idle := by
  obtain ⟨t, hremap, -, -, hall⟩ := interrupts_acknowledged bootDevice (fun _ => 0xC0100000#32)
    (Vector.replicate _ (gate 0#32 0#16 0#8))
  obtain ⟨t', hremap', hsetup, hidle⟩ := pic_remap_spec bootDevice
  obtain ⟨-, rfl⟩ := Prod.mk.inj (Except.ok.inj (hremap'.symm.trans hremap))
  have hdeliver := deliver_unmasked hsetup hidle (r := .slave 4) ⟨by decide, by decide⟩
  have hhandler : interrupt_handler ((BitVec.ofNat 8 (32 + Request.irq (.slave 4))).setWidth 32) =
      .stmt (fun d => d.out PIC2_COMMAND PIC_ACK) fun _ =>
        .stmt (fun d => d.out PIC1_COMMAND PIC_ACK) fun _ => .ret () := rfl
  have hrequest : Machine.Step bootIdt ⟨t', true, []⟩ (.request (.slave 4) []) _ := .request rfl hdeliver
  have hrun := (((Run.nil.snoc hrequest).snoc (.statement (congrArg (fun p => [Frame.mk _ _ p]) hhandler))).snoc
    (.statement rfl)).snoc (.iret rfl)
  exact ⟨t', _, _, hremap', hrun, rfl, (hall _ _ _ hrun).2.2.2.2.1 rfl⟩

end MiniOS.Interrupt
