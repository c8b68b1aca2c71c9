import MiniOS.Lib.Run
import MiniOS.Segment.Flush

/-!
# Every vector arrives

With both tables loaded, every interrupt and exception reaches a label of
`interrupt_handlers.s` on the kernel's stack, and `iret` gets back. Nothing the kernel does
to its other memory takes the segments away.
-/

open MiniOS.Lib MiniOS.Interrupt

namespace MiniOS.Segment

variable {gdt idt : Word} {handler : Fin 48 → Word} {old : Idt} {s t : Machine}

/-- A byte of the two tables. -/
def InTables (gdt idt x : Word) : Prop := (x - gdt).toNat < 24 ∨ (x - idt).toNat < 2048

/-- What `idt_initialize` gives to `load_idt`. `entries` is the address of `idt_entries`. -/
def idt_pointer (entries : Word) : GdtPtr :=
  { limit := BitVec.ofNat 16 (8 * IDT_NUM_ENTRIES - 1), base := entries }

/-- The bytes of `idt_entries` are at `idt`. -/
def GatesAt (idt : Word) (m : Bytes) (t : Idt) : Prop :=
  ∀ v : Fin IDT_NUM_ENTRIES, bytesAt m (idt + BitVec.ofNat 32 (8 * v)) 8 = gateBytes (t.get v)

/-- `idt_initialize` and `load_idt` are done, too. -/
structure Machine.Ready (s : Machine) (gdt idt : Word) (handler : Fin 48 → Word) (old : Idt) : Prop extends
    s.Kernel gdt where
  idtr : s.idtr = idt_pointer idt
  gates : GatesAt idt s.mem <| idt_initialize handler old

/-- The segments and the tables are as before. -/
structure SameTables (gdt idt : Word) (s t : Machine) : Prop where
  seg : t.seg = s.seg
  gdtr : t.gdtr = s.gdtr
  idtr : t.idtr = s.idtr
  mem : ∀ x, InTables gdt idt x → t.mem x = s.mem x

/-! ## What keeps the tables -/

theorem GdtAt.congr {c d : Byte} {m m' : Bytes} (h : GdtAt gdt c d m)
    (hm : ∀ x, (x - gdt).toNat < 24 → m' x = m x) : GdtAt gdt c d m' := by
  refine ⟨?_, ?_⟩
  · rw [← h.code]
    exact bytesAt_congr fun k hk => hm _ (by bv_omega)
  · rw [← h.data]
    exact bytesAt_congr fun k hk => hm _ (by bv_omega)

theorem Machine.Ready.same (h : s.Ready gdt idt handler old) (ht : SameTables gdt idt s t) :
    t.Ready gdt idt handler old := by
  refine ⟨⟨?_, ?_, ?_, fun r hr => ?_⟩, ?_, fun v => ?_⟩
  · rw [ht.gdtr, h.gdtr]
  · exact h.table.congr fun x hx => ht.mem x (Or.inl hx)
  · rw [ht.seg, h.cs]
  · rw [ht.seg, h.data r hr]
  · rw [ht.idtr, h.idtr]
  · rw [← h.gates v]
    refine bytesAt_congr fun k hk => ht.mem _ (Or.inr ?_)
    have hv : v.val < 256 := v.isLt
    bv_omega

/-! ## The kernel's stack -/

/-- The 16 bytes under the stack are no part of a table. -/
structure Machine.Apart (s : Machine) (gdt idt : Word) : Prop where
  room : 16 ≤ s.esp.toNat
  tables : ∀ x, InTables gdt idt x → 16 ≤ (x - (s.esp - 16#32)).toNat

def Machine.pushed (s : Machine) (v : Word) : Machine :=
  { s.set .esp (s.esp - 4#32) with mem := poke s.mem (s.esp - 4#32) v }

theorem Machine.push_flat (h : (s.seg .ss).descriptor.Flat) (hroom : 4 ≤ s.esp.toNat) (v : Word) :
    s.push v = .ok (s.pushed v) := by
  unfold Machine.push
  rw [Machine.linear_flat h _ (by bv_omega)]
  rfl

@[simp] theorem Machine.esp_pushed (s : Machine) (v : Word) : (s.pushed v).esp = s.esp - 4#32 :=
  (Machine.reg_set s .esp .esp _).trans (if_pos rfl)

/-! ## One vector -/

theorem Machine.Kernel.sees (h : s.Kernel gdt) : s.Sees gdt 0x9B#8 0x93#8 := by
  refine ⟨h.gdtr, h.table, Or.inr rfl, Or.inr rfl, ?_⟩
  unfold Machine.cpl
  rw [h.cs]
  rfl

theorem Machine.Ready.decode (h : s.Ready gdt idt handler old) (v : Fin IDT_NUM_ENTRIES) :
    Gate.decode (bytesAt s.mem (s.idtr.base + BitVec.ofNat 32 (8 * v)) 8) =
      some (if hv : v.val < 48 then ⟨handler ⟨v.val, hv⟩, 0x08#16, 0#8, 0x8E#8⟩
        else ⟨0#32, 0#16, 0#8, 0#8⟩) := by
  have hbase : s.idtr.base = idt := by rw [h.idtr]; rfl
  rw [hbase, h.gates, idt_initialize_get rfl]
  by_cases hv : v.val < 48
  · rw [dif_pos hv, dif_pos hv, decode_gate]
  · rw [dif_neg hv, dif_neg hv, decode_gate]

theorem Machine.Ready.limit (h : s.Ready gdt idt handler old) (v : Fin IDT_NUM_ENTRIES) :
    ¬ s.idtr.limit.toNat < 8 * v.val + 7 := by
  have hv : v.val < 256 := v.isLt
  have hlimit : s.idtr.limit.toNat = 2047 := by rw [h.idtr]; rfl
  omega

theorem gateKind_interrupt (x : Word) : Machine.gateKind ⟨x, 0x08#16, 0#8, 0x8E#8⟩ = 0x0E#8 := by
  show 0x8E#8 &&& 0x1F#8 = 0x0E#8
  decide

theorem Machine.Ready.checkGate (h : s.Ready gdt idt handler old) {v : Fin IDT_NUM_ENTRIES}
    (hv : v.val < 48) (ext : Bool) :
    s.checkGate v ext = .ok (⟨handler ⟨v.val, hv⟩, 0x08#16, 0#8, 0x8E#8⟩, flat 0x9B#8) := by
  have hcovers : (flat 0x9B#8).Covers (handler ⟨v.val, hv⟩) 1 := flat_code.covers _ (handler _).isLt
  unfold Machine.checkGate
  rw [if_neg (h.limit v), h.decode, dif_pos hv, h.sees.cpl]
  have hnull : ¬ isNull 0x08#16 := by decide
  simp only [gateKind_interrupt, hnull, h.sees.descriptor_code, if_false]
  exact if_neg (not_not.mpr hcovers)

/-- The rest of the gates are zero. -/
theorem Machine.Ready.checkGate_high (h : s.Ready gdt idt handler old) {v : Fin IDT_NUM_ENTRIES}
    (hv : ¬ v.val < 48) (ext : Bool) : s.checkGate v ext = .error (.gp (Machine.gateCode v ext)) := by
  unfold Machine.checkGate
  rw [if_neg (h.limit v), h.decode, dif_neg hv]
  rfl

/-- The stack with what the processor saves. -/
def Machine.framed (s : Machine) (vector : Nat) (error_code : Word) : Machine :=
  let t := ((s.pushed s.eflags).pushed ((s.seg .cs).selector.setWidth 32)).pushed s.eip
  if HasErrorCode vector then t.pushed error_code else t

theorem Machine.cpu_framed (s : Machine) (vector : Nat) (error_code : Word) :
    (s.framed vector error_code).cpu =
      if HasErrorCode vector then
        (((s.cpu.push s.cpu.eflags).push (s.cpu.cs.setWidth 32)).push s.cpu.eip).push error_code
      else ((s.cpu.push s.cpu.eflags).push (s.cpu.cs.setWidth 32)).push s.cpu.eip := by
  unfold Machine.framed
  by_cases hcode : HasErrorCode vector
  · rw [if_pos hcode, if_pos hcode]
    rfl
  · rw [if_neg hcode, if_neg hcode]
    rfl

theorem Machine.pushFrame_flat (h : (s.seg .ss).descriptor.Flat) (hroom : 16 ≤ s.esp.toNat) (vector : Nat)
    (error_code : Word) : s.pushFrame vector error_code = .ok (s.framed vector error_code) := by
  have h₁ := Machine.push_flat h (by omega) s.eflags
  have h₂ := Machine.push_flat (s := s.pushed s.eflags) h (by rw [Machine.esp_pushed]; bv_omega)
    ((s.seg .cs).selector.setWidth 32)
  have h₃ := Machine.push_flat (s := (s.pushed s.eflags).pushed ((s.seg .cs).selector.setWidth 32)) h
    (by rw [Machine.esp_pushed, Machine.esp_pushed]; bv_omega) s.eip
  unfold Machine.pushFrame Machine.framed
  simp only [h₁, h₂, h₃, bind, Except.bind]
  by_cases hcode : HasErrorCode vector
  · rw [if_pos hcode, if_pos hcode]
    exact Machine.push_flat
      (s := ((s.pushed s.eflags).pushed ((s.seg .cs).selector.setWidth 32)).pushed s.eip) h
      (by rw [Machine.esp_pushed, Machine.esp_pushed, Machine.esp_pushed]; bv_omega) error_code
  · rw [if_neg hcode, if_neg hcode]
    rfl

theorem SameTables.refl (s : Machine) : SameTables gdt idt s s := ⟨rfl, rfl, rfl, fun _ _ => rfl⟩

theorem SameTables.pushed (h : SameTables gdt idt s t)
    (hx : ∀ x, InTables gdt idt x → 4 ≤ (x - (t.esp - 4#32)).toNat) (v : Word) :
    SameTables gdt idt s (t.pushed v) :=
  ⟨h.seg, h.gdtr, h.idtr, fun x htable => (poke_other (hx x htable)).trans (h.mem x htable)⟩

theorem Machine.Apart.framed (h : s.Apart gdt idt) (vector : Nat) (error_code : Word) :
    SameTables gdt idt s (s.framed vector error_code) := by
  have h₁ : SameTables gdt idt s (s.pushed s.eflags) :=
    (SameTables.refl s).pushed (fun x hx => by have := h.tables x hx; bv_omega) _
  have h₂ := h₁.pushed (fun x hx => by have := h.tables x hx; rw [Machine.esp_pushed]; bv_omega)
    ((s.seg .cs).selector.setWidth 32)
  have h₃ := h₂.pushed (fun x hx => by
    have := h.tables x hx
    rw [Machine.esp_pushed, Machine.esp_pushed]
    bv_omega) s.eip
  unfold Machine.framed
  by_cases hcode : HasErrorCode vector
  · rw [if_pos hcode]
    refine h₃.pushed (fun x hx => ?_) _
    have := h.tables x hx
    rw [Machine.esp_pushed, Machine.esp_pushed, Machine.esp_pushed]
    bv_omega
  · rw [if_neg hcode]
    exact h₃

/-- `A` is set already, and `cs` is the kernel's. -/
theorem Machine.Kernel.reload (h : s.Kernel gdt) :
    (s.touch 0x08#16 (flat 0x9B#8)).load .cs ⟨0x08#16, flat 0x9B#8⟩ = s := by
  have hbase : s.gdtr.base = gdt := by rw [h.gdtr]
  have haccess : s.mem (gdt + 8#32 + 5#32) = 0x9B#8 := by
    have hbytes := congrArg (·[5]?) h.table.code
    exact Option.some.inj hbytes
  have hmem : Function.update s.mem (gdt + 8#32 + 5#32) 0x9B#8 = s.mem := by
    rw [← haccess, Function.update_eq_self]
  have hseg : Function.update s.seg .cs ⟨0x08#16, flat 0x9B#8⟩ = s.seg := by
    rw [← h.cs, Function.update_eq_self]
  have htouch : s.touch 0x08#16 (flat 0x9B#8) =
      { s with mem := Function.update s.mem (gdt + 8#32 + 5#32) 0x9B#8 } := by
    unfold Machine.touch
    rw [hbase]
    rfl
  rw [htouch, hmem]
  unfold Machine.load
  rw [hseg]

theorem Machine.Ready.interrupt (h : s.Ready gdt idt handler old) (hapart : s.Apart gdt idt)
    {v : Fin IDT_NUM_ENTRIES} (hv : v.val < 48) (error_code : Word) (ext : Bool) :
    ∃ t, s.interrupt v error_code ext = .ok t ∧
      t.cpu = s.cpu.interrupt (handler ⟨v.val, hv⟩) v error_code ∧ t.Ready gdt idt handler old := by
  have hss : (s.seg .ss).descriptor.Flat := by
    rw [h.data .ss (by decide)]
    exact flat_data
  have hframed := h.same (hapart.framed v error_code)
  have hreload := hframed.reload
  refine ⟨{ s.framed v error_code with
      eip := handler ⟨v.val, hv⟩
      eflags := s.eflags &&& ~~~GATE_FLAGS }, ?_, ?_, hframed.same ⟨rfl, rfl, rfl, fun _ _ => rfl⟩⟩
  · have hflags : Machine.gateFlags ⟨handler ⟨v.val, hv⟩, 0x08#16, 0#8, 0x8E#8⟩ = GATE_FLAGS :=
      if_pos (gateKind_interrupt _)
    have hselector : 0x08#16 &&& 0xFFFC#16 ||| BitVec.ofNat 16 0 = 0x08#16 := by decide
    have haccessed : (flat 0x9B#8).accessed = flat 0x9B#8 := congrArg flat (by decide)
    unfold Machine.interrupt
    rw [h.checkGate hv, Machine.pushFrame_flat hss hapart.room, h.sees.cpl]
    simp only [bind, Except.bind, pure, Except.pure, hflags, hselector, haccessed, hreload]
  · have hcs : ((s.framed v error_code).seg .cs).selector = 0x08#16 := by rw [hframed.cs]
    unfold Cpu.interrupt
    dsimp only
    rw [← Machine.cpu_framed, ← hcs]
    rfl

/-- Where a vector ends up, and with which error code. -/
def arrives (vector : Nat) (error_code : Word) (ext : Bool) : Fin 48 × Word :=
  if h : vector < 48 then (⟨vector, h⟩, error_code) else (13, Machine.gateCode vector ext)

theorem Machine.Ready.event (h : s.Ready gdt idt handler old) (hapart : s.Apart gdt idt)
    (v : Fin IDT_NUM_ENTRIES) (error_code : Word) (ext : Bool) :
    ∃ t, s.event v error_code ext = .ok t ∧ t.Ready gdt idt handler old ∧
      t.cpu = s.cpu.interrupt (handler (arrives v error_code ext).1) (arrives v error_code ext).1
        (arrives v error_code ext).2 := by
  unfold Machine.event arrives
  by_cases hv : v.val < 48
  · obtain ⟨t, ht, hcpu, hready⟩ := h.interrupt hapart hv error_code ext
    rw [ht, dif_pos hv]
    exact ⟨t, rfl, hready, hcpu⟩
  · have hfault : s.interrupt v error_code ext = .error (.gp (Machine.gateCode v ext)) := by
      unfold Machine.interrupt
      rw [h.checkGate_high hv]
      rfl
    rw [hfault, dif_neg hv]
    obtain ⟨t, ht, hcpu, hready⟩ := h.interrupt hapart (v := 13) (by decide) (Machine.gateCode v ext) true
    exact ⟨t, ht, hready, hcpu⟩

/-! ## Back -/

def Machine.dropped (s : Machine) : Machine := s.set .esp (s.esp + 4#32)

@[simp] theorem Machine.esp_dropped (s : Machine) : s.dropped.esp = s.esp + 4#32 :=
  (Machine.reg_set s .esp .esp _).trans (if_pos rfl)

theorem Machine.pop_flat (h : (s.seg .ss).descriptor.Flat) (hroom : s.esp.toNat + 4 ≤ 2 ^ 32) :
    s.pop = .ok (peek s.mem s.esp, s.dropped) := by
  unfold Machine.pop Machine.readWord
  rw [Machine.linear_flat h s.esp hroom]
  rfl

theorem Machine.popFrame_flat (h : (s.seg .ss).descriptor.Flat) (hroom : s.esp.toNat + 12 ≤ 2 ^ 32) :
    s.popFrame = .ok (peek s.mem s.esp, peek s.mem (s.esp + 4#32), peek s.mem (s.esp + 4#32 + 4#32),
      s.dropped.dropped.dropped) := by
  have h₁ := Machine.pop_flat h (by omega)
  have h₂ := Machine.pop_flat (s := s.dropped) h (by rw [Machine.esp_dropped]; bv_omega)
  have h₃ := Machine.pop_flat (s := s.dropped.dropped) h
    (by rw [Machine.esp_dropped, Machine.esp_dropped]; bv_omega)
  unfold Machine.popFrame
  simp only [h₁, h₂, h₃, Machine.esp_dropped, bind, Except.bind, pure, Except.pure]
  rfl

theorem Machine.Kernel.checkReturn (h : s.Kernel gdt) (eip : Word) :
    s.checkReturn 0x08#16 eip = .ok (flat 0x9B#8) := by
  have hcovers : (flat 0x9B#8).Covers eip 1 := flat_code.covers eip eip.isLt
  unfold Machine.checkReturn
  rw [if_neg (by decide), h.sees.descriptor_code, h.sees.cpl]
  exact if_neg (not_not.mpr hcovers)

theorem Machine.Ready.iret (h : s.Ready gdt idt handler old) (hroom : s.esp.toNat + 12 ≤ 2 ^ 32)
    (hcs : (peek s.mem (s.esp + 4#32)).setWidth 16 = 0x08#16) :
    ∃ t, s.iret = .ok t ∧ t.Ready gdt idt handler old ∧ t.cpu = s.cpu.iret := by
  have hss : (s.seg .ss).descriptor.Flat := by
    rw [h.data .ss (by decide)]
    exact flat_data
  have hdropped : s.dropped.dropped.dropped.Ready gdt idt handler old :=
    h.same ⟨rfl, rfl, rfl, fun _ _ => rfl⟩
  have haccessed : (flat 0x9B#8).accessed = flat 0x9B#8 := congrArg flat (by decide)
  refine ⟨{ s.dropped.dropped.dropped with
      eip := peek s.mem s.esp
      eflags := peek s.mem (s.esp + 4#32 + 4#32) }, ?_, hdropped.same ⟨rfl, rfl, rfl, fun _ _ => rfl⟩, ?_⟩
  · unfold Machine.iret
    rw [Machine.popFrame_flat hss hroom]
    simp only [bind, Except.bind, pure, Except.pure, hcs, h.checkReturn, haccessed, hdropped.reload]
  · have hselector : (s.dropped.dropped.dropped.seg .cs).selector = 0x08#16 := by rw [hdropped.cs]
    have htop : s.cpu.drop.top.setWidth 16 = 0x08#16 := hcs
    unfold Machine.cpu Cpu.iret
    rw [hselector, ← htop]
    rfl

/-! ## Any run -/

inductive Label
  | work
  | event (v : Fin IDT_NUM_ENTRIES) (error_code : Word) (ext : Bool)
  | iret

/-- The kernel works on anything but segments and tables. Interrupts and exceptions come at any time, and a
handler returns through a frame that has the kernel's `cs`. The stack is no part of a table. -/
inductive Step (gdt idt : Word) (s : Machine) : Label → Machine → Prop
  | work {t : Machine} : SameTables gdt idt s t → Step gdt idt s .work t
  | event {v : Fin IDT_NUM_ENTRIES} {error_code : Word} {ext : Bool} {t : Machine} :
      s.Apart gdt idt → s.event v error_code ext = .ok t → Step gdt idt s (.event v error_code ext) t
  | iret {t : Machine} : s.esp.toNat + 12 ≤ 2 ^ 32 → (peek s.mem (s.esp + 4#32)).setWidth 16 = 0x08#16 →
      s.iret = .ok t → Step gdt idt s .iret t

theorem Step.ready {l : Label} (h : Step gdt idt s l t) (hs : s.Ready gdt idt handler old) :
    t.Ready gdt idt handler old := by
  cases h with
  | work hsame => exact hs.same hsame
  | event hapart hevent =>
    obtain ⟨t', ht', hready, -⟩ := hs.event hapart _ _ _
    obtain rfl := Except.ok.inj (hevent.symm.trans ht')
    exact hready
  | iret hroom hcs hiret =>
    obtain ⟨t', ht', hready, -⟩ := hs.iret hroom hcs
    obtain rfl := Except.ok.inj (hiret.symm.trans ht')
    exact hready

theorem Machine.Called.load_idt {p : Word} {ptr : GdtPtr} (h : s.Called p ptr) :
    Machine.run load_idt s = .ok { (s.set .eax p).set .esp (s.esp + 4#32) with
      idtr := ptr
      eip := peek s.mem s.esp } := by
  have hroom := h.stack_room
  have hlidt : (s.set .eax p).exec .lidt = .ok { s.set .eax p with idtr := ptr } := by
    unfold Machine.exec
    rw [h.readPtr]
    rfl
  have hesp : (s.set .eax p).esp = s.esp := (Machine.reg_set s .eax .esp p).trans (if_neg (by decide))
  have hret := Machine.ret_flat (s := { s.set .eax p with idtr := ptr }) h.stack
    (by show (s.set .eax p).esp.toNat + 4 ≤ 2 ^ 32; rw [hesp]; omega)
  unfold Segment.load_idt
  rw [Machine.run_cons h.mov_eax_arg, Machine.run_cons hlidt, Machine.run_cons hret]
  rfl

/-- **Every vector arrives.** With the kernel's segments loaded, `load_idt` returns, and in every run from
there all accesses are to the address that the kernel means. Each of the 256 vectors goes to its label, or
without one to that of the general protection fault, with the frame that the handlers expect: there is never
a second fault. A return from there gets back, and the segments never change. -/
theorem every_vector_arrives {p : Word} (hk : s.Kernel gdt) (hcall : s.Called p (idt_pointer idt))
    (hgates : GatesAt idt s.mem <| idt_initialize handler old) :
    ∃ s₁, Machine.run load_idt s = .ok s₁ ∧ s₁.eip = peek s.mem s.esp ∧
      ∀ ls t, Run (Step gdt idt) s₁ ls t → t.Kernel gdt ∧
        (∀ r offset n, offset.toNat + n ≤ 2 ^ 32 → t.linear r offset n = .ok offset) ∧
        (t.Apart gdt idt → ∀ (v : Fin IDT_NUM_ENTRIES) error_code ext,
          ∃ t', t.event v error_code ext = .ok t' ∧
            t'.cpu = t.cpu.interrupt (handler (arrives v error_code ext).1) (arrives v error_code ext).1
              (arrives v error_code ext).2) ∧
        (t.esp.toNat + 12 ≤ 2 ^ 32 → (peek t.mem (t.esp + 4#32)).setWidth 16 = 0x08#16 →
          ∃ t', t.iret = .ok t' ∧ t'.cpu = t.cpu.iret) := by
  have hready : ({ (s.set .eax p).set .esp (s.esp + 4#32) with
      idtr := idt_pointer idt
      eip := peek s.mem s.esp } : Machine).Ready gdt idt handler old :=
    ⟨⟨hk.gdtr, hk.table, hk.cs, hk.data⟩, rfl, hgates⟩
  refine ⟨_, hcall.load_idt, rfl, fun ls t hrun => ?_⟩
  have ht := hrun.state_inv (fun t => t.Ready gdt idt handler old) hready fun _ _ _ hs h => h.ready hs
  refine ⟨ht.toKernel, fun r offset n hn => Machine.linear_flat ?_ offset hn,
    fun hapart v error_code ext => ?_, fun hroom hcs => ?_⟩
  · by_cases hr : r = .cs
    · rw [hr, ht.cs]
      exact flat_code
    · rw [ht.data r hr]
      exact flat_data
  · obtain ⟨t', hevent, -, hcpu⟩ := ht.event hapart v error_code ext
    exact ⟨t', hevent, hcpu⟩
  · obtain ⟨t', hiret, -, hcpu⟩ := ht.iret hroom hcs
    exact ⟨t', hiret, hcpu⟩

def noIdt : Idt := Vector.replicate IDT_NUM_ENTRIES ⟨0#16, 0#16, 0#8, 0#8, 0#16⟩

/-- `gates` is at `idt`. -/
def placeGates (idt : Word) (gates : Idt) (m : Bytes) : Bytes := fun x =>
  if h : (x - idt).toNat < 2048 then
    (gateBytes (gates.get ⟨(x - idt).toNat / 8, Nat.div_lt_of_lt_mul h⟩)).getD ((x - idt).toNat % 8) 0#8
  else m x

theorem gatesAt_placeGates (idt : Word) (gates : Idt) (m : Bytes) :
    GatesAt idt (placeGates idt gates m) gates := by
  intro v
  have hbytes : ∀ k < 8, placeGates idt gates m (idt + BitVec.ofNat 32 (8 * v) + BitVec.ofNat 32 k) =
      (gateBytes (gates.get v)).getD k 0#8 := by
    intro k hk
    have hv : v.val < 256 := v.isLt
    have hx : (idt + BitVec.ofNat 32 (8 * v) + BitVec.ofNat 32 k - idt).toNat = 8 * v + k := by bv_omega
    have hindex : ∀ h, (⟨(8 * v + k) / 8, h⟩ : Fin IDT_NUM_ENTRIES) = v := fun _ =>
      Fin.ext (show (8 * v.val + k) / 8 = v by omega)
    have hbyte : (8 * v.val + k) % 8 = k := by omega
    unfold placeGates
    simp only [hx, hindex, hbyte]
    rw [dif_pos (by omega)]
  exact List.map_congr_left fun k hk => hbytes k (List.mem_range.mp hk)

def kernelIdt : Idt := idt_initialize (fun n => BitVec.ofNat 32 (0xC0101000 + n)) noIdt

/-- The kernel after `gdt_flush`, in the call of `load_idt`. -/
def kernel : Machine where
  reg q := if q = .esp then 0xC0106000#32 else 0#32
  eip := 0xC0100000#32
  eflags := 2#32
  mem := placeGates 0xC0107000#32 kernelIdt
    (place [(0xC0104008#32, flatBytes 0x9B#8 ++ flatBytes 0x93#8),
      (0xC0105000#32, (idt_pointer 0xC0107000#32).bytes),
      (0xC0106000#32, [0x34#8, 0x12#8, 0x10#8, 0xC0#8, 0#8, 0x50#8, 0x10#8, 0xC0#8])])
  seg r := if r = .cs then ⟨0x08#16, flat 0x9B#8⟩ else ⟨0x10#16, flat 0x93#8⟩
  gdtr := ⟨23#16, 0xC0104000#32⟩
  idtr := ⟨0#16, 0#32⟩

theorem kernel_kernel : kernel.Kernel 0xC0104000#32 :=
  ⟨rfl, ⟨by decide, by decide⟩, rfl, fun _ hr => if_neg hr⟩

theorem kernel_called : kernel.Called 0xC0105000#32 (idt_pointer 0xC0107000#32) :=
  ⟨flat_flat rfl, flat_flat rfl, by decide, by decide, by decide, by decide⟩

theorem every_vector_arrives_keyboard :
    ∃ s₁, Machine.run load_idt kernel = .ok s₁ ∧
      ∀ ls t, Run (Step 0xC0104000#32 0xC0107000#32) s₁ ls t → t.esp = 0xC0106000#32 →
        ∃ t', t.event 33 0#32 true = .ok t' ∧ t'.cpu = t.cpu.interrupt 0xC0101021#32 33 0#32 := by
  obtain ⟨s₁, hrun, -, hall⟩ := every_vector_arrives kernel_kernel kernel_called
    (gatesAt_placeGates 0xC0107000#32 kernelIdt _)
  refine ⟨s₁, hrun, fun ls t ht hesp => (hall ls t ht).2.2.1 ⟨?_, fun x hx => ?_⟩ 33 0#32 true⟩
  · rw [hesp]
    decide
  · rw [hesp]
    unfold InTables at hx
    bv_omega

end MiniOS.Segment
