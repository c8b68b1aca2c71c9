import MiniOS.Segment.Processor

/-!
# Into the kernel's segments

`gdt_flush.s`, and `load_idt`, instruction by instruction. GRUB leaves flat segments with
unknown selectors. After `gdt_flush` every register has a descriptor of the kernel's table.
-/

open MiniOS.Lib MiniOS.Interrupt

namespace MiniOS.Segment

/-! ## The code -/

inductive Instr
  | mov_eax_arg
  | lgdt
  | lidt
  | mov_ax (v : BitVec 16)
  | mov_seg (r : Seg)
  | jmp_far (selector : BitVec 16) (offset : Word)
  | ret

/-- `flush_cs` is the address of the label. -/
def gdt_flush (flush_cs : Word) : List Instr :=
  [.mov_eax_arg, .lgdt, .mov_ax 0x10#16, .mov_seg .ds, .mov_seg .es, .mov_seg .fs, .mov_seg .gs,
    .mov_seg .ss, .jmp_far 0x08#16 flush_cs,
    -- .flush_cs:
    .ret]

def load_idt : List Instr := [.mov_eax_arg, .lidt, .ret]

namespace Machine

variable (s : Machine)

/-- The low half of `eax`. -/
def ax : BitVec 16 := (s.reg .eax).setWidth 16

/-- `eip` is written where a jump or a return does. -/
def exec : Instr → Except Fault Machine
  | .mov_eax_arg => do
    let v ← s.readWord .ss (s.esp + 4#32)
    return s.set .eax v
  | .lgdt => do
    let p ← s.readPtr (s.reg .eax)
    return { s with gdtr := p }
  | .lidt => do
    let p ← s.readPtr (s.reg .eax)
    return { s with idtr := p }
  | .mov_ax v => .ok (s.set .eax ((s.reg .eax).extractLsb' 16 16 ++ v))
  | .mov_seg .ss => s.movStack s.ax
  | .mov_seg r => s.movData r s.ax
  | .jmp_far selector offset => s.jmpFar selector offset
  | .ret => do
    let (eip, t) ← s.pop
    return { t with eip := eip }

end Machine

def Machine.run : List Instr → Machine → Except Fault Machine
  | [], s => .ok s
  | i :: code, s => do
    let t ← s.exec i
    Machine.run code t

/-! ## The table in memory -/

/-- A segment over all of the address space. -/
def flatBytes (access : Byte) : List Byte := [0xFF#8, 0xFF#8, 0#8, 0#8, 0#8, access, 0xCF#8, 0#8]

def flat (access : Byte) : Descriptor := ⟨0#32, 0xFFFFF#20, access, 0xC#4⟩

/-- `c` and `d` are the access bytes of code and data. -/
structure GdtAt (gdt : Word) (c d : Byte) (m : Bytes) : Prop where
  code : bytesAt m (gdt + 8#32) 8 = flatBytes c
  data : bytesAt m (gdt + 16#32) 8 = flatBytes d

theorem decode_flat (access : Byte) : Descriptor.decode (flatBytes access) = some (flat access) := rfl

variable {gdt : Word} {c d : Byte} {m : Bytes} {s : Machine}

theorem GdtAt.touch_code (h : GdtAt gdt c d m) (v : Byte) :
    GdtAt gdt v d (Function.update m (gdt + 8#32 + 5#32) v) := by
  refine ⟨?_, ?_⟩
  · rw [show 5#32 = BitVec.ofNat 32 5 from rfl, bytesAt_update (by decide) (by decide), h.code]
    rfl
  · rw [← h.data]
    apply bytesAt_congr
    intro k hk
    rw [Function.update_of_ne]
    bv_omega

theorem GdtAt.touch_data (h : GdtAt gdt c d m) (v : Byte) :
    GdtAt gdt c v (Function.update m (gdt + 16#32 + 5#32) v) := by
  refine ⟨?_, ?_⟩
  · rw [← h.code]
    apply bytesAt_congr
    intro k hk
    rw [Function.update_of_ne]
    bv_omega
  · rw [show 5#32 = BitVec.ofNat 32 5 from rfl, bytesAt_update (by decide) (by decide), h.data]
    rfl

/-! ## Flat segments -/

structure Descriptor.Flat (d : Descriptor) : Prop where
  base : d.base = 0#32
  up : d.expandsDown = false
  last : d.last + 1 = 2 ^ 32

theorem Descriptor.Flat.covers {d : Descriptor} (h : d.Flat) (offset : Word) {n : Nat}
    (hn : offset.toNat + n ≤ 2 ^ 32) : d.Covers offset n := by
  unfold Descriptor.Covers
  rw [h.up, if_neg Bool.false_ne_true, h.last]
  exact hn

theorem Machine.linear_flat {r : Seg} (h : (s.seg r).descriptor.Flat) (offset : Word) {n : Nat}
    (hn : offset.toNat + n ≤ 2 ^ 32) : s.linear r offset n = .ok offset := by
  unfold Machine.linear
  rw [if_pos (h.covers offset hn), h.base, BitVec.zero_add]

theorem flat_flat {access : Byte} (h : (flat access).expandsDown = false) : (flat access).Flat :=
  ⟨rfl, h, by simp [Descriptor.last, flat]⟩

/-! ## Loads -/

/-- What the kernel's table has for the two selectors. -/
structure Machine.Sees (s : Machine) (gdt : Word) (c d : Byte) : Prop where
  gdtr : s.gdtr = ⟨23#16, gdt⟩
  table : GdtAt gdt c d s.mem
  code : c = 0x9A#8 ∨ c = 0x9B#8
  data : d = 0x92#8 ∨ d = 0x93#8
  cpl : s.cpl = 0

theorem Machine.Sees.limit (h : s.Sees gdt c d) : s.gdtr.limit = 23#16 := by rw [h.gdtr]

theorem Machine.Sees.base (h : s.Sees gdt c d) : s.gdtr.base = gdt := by rw [h.gdtr]

theorem Machine.Sees.descriptor_code (h : s.Sees gdt c d) : s.descriptor 0x08#16 = .ok (flat c) := by
  have hbytes : bytesAt s.mem (entryAt s.gdtr.base 0x08#16) 8 = flatBytes c := by
    rw [h.base]
    exact h.table.code
  unfold Machine.descriptor
  rw [if_neg (by rw [h.limit]; decide), hbytes, decode_flat]

theorem Machine.Sees.descriptor_data (h : s.Sees gdt c d) : s.descriptor 0x10#16 = .ok (flat d) := by
  have hbytes : bytesAt s.mem (entryAt s.gdtr.base 0x10#16) 8 = flatBytes d := by
    rw [h.base]
    exact h.table.data
  unfold Machine.descriptor
  rw [if_neg (by rw [h.limit]; decide), hbytes, decode_flat]

/-- A data segment is loaded. -/
def Machine.loadData (s : Machine) (gdt : Word) (r : Seg) : Machine :=
  { s.load r ⟨0x10#16, flat 0x93#8⟩ with
    mem := Function.update s.mem (gdt + 16#32 + 5#32) 0x93#8 }

theorem Machine.Sees.movData (h : s.Sees gdt c d) (r : Seg) :
    s.movData r 0x10#16 = .ok (s.loadData gdt r) := by
  unfold Machine.movData
  rw [if_neg (by decide), h.descriptor_data, h.cpl]
  unfold Machine.touch
  rw [h.base]
  rcases h.data with rfl | rfl <;> rfl

theorem Machine.Sees.movStack (h : s.Sees gdt c d) : s.movStack 0x10#16 = .ok (s.loadData gdt .ss) := by
  unfold Machine.movStack
  rw [if_neg (by decide), h.descriptor_data, h.cpl]
  unfold Machine.touch
  rw [h.base]
  rcases h.data with rfl | rfl <;> rfl

/-- The code segment is loaded. -/
def Machine.loadCode (s : Machine) (gdt offset : Word) : Machine :=
  { s.load .cs ⟨0x08#16, flat 0x9B#8⟩ with
    mem := Function.update s.mem (gdt + 8#32 + 5#32) 0x9B#8
    eip := offset }

theorem Machine.Sees.jmpFar (h : s.Sees gdt c d) (offset : Word) :
    s.jmpFar 0x08#16 offset = .ok (s.loadCode gdt offset) := by
  have hup : (flat c).expandsDown = false := by rcases h.code with rfl | rfl <;> rfl
  have hcovers : (flat c).Covers offset 1 := (flat_flat hup).covers offset offset.isLt
  unfold Machine.jmpFar
  rw [if_neg (by decide), h.descriptor_code, h.cpl]
  unfold Machine.touch
  rw [h.base]
  rcases h.code with rfl | rfl <;> exact if_neg (not_not.mpr hcovers)

/-! ## Calls -/

/-- The bytes of the packed structure. -/
def GdtPtr.bytes (p : GdtPtr) : List Byte := le16 p.limit ++ wordBytes p.base

theorem GdtPtr.read {ptr : GdtPtr} {p : Address} (h : bytesAt m p 6 = ptr.bytes) :
    GdtPtr.mk (m (p + 1#32) ++ m p) (peek m (p + 2#32)) = ptr := by
  have hlist : [m (p + 0#32), m (p + 1#32), m (p + 2#32), m (p + 3#32), m (p + 4#32), m (p + 5#32)] =
      ptr.bytes := h
  simp only [GdtPtr.bytes, le16, wordBytes, List.cons_append, List.nil_append, List.cons.injEq, BitVec.add_zero] at hlist
  obtain ⟨h0, h1, h2, h3, h4, h5, -⟩ := hlist
  have hbase : peek m (p + 2#32) = ptr.base := by
    unfold peek
    simp only [add_assoc, BitVec.reduceAdd, h2, h3, h4, h5]
    exact wordBytes_append ptr.base
  rw [h0, h1, half_bytes, hbase]

/-- C has called with the address `p` of a pointer, on segments that GRUB or the kernel made flat. -/
structure Machine.Called (s : Machine) (p : Word) (ptr : GdtPtr) : Prop where
  stack : (s.seg .ss).descriptor.Flat
  data : (s.seg .ds).descriptor.Flat
  arg : peek s.mem (s.esp + 4#32) = p
  pointer : bytesAt s.mem p 6 = ptr.bytes
  stack_room : s.esp.toNat + 8 ≤ 2 ^ 32
  pointer_room : p.toNat + 6 ≤ 2 ^ 32

theorem Machine.run_cons {i : Instr} {code : List Instr} {t : Machine} (h : s.exec i = .ok t) :
    Machine.run (i :: code) s = Machine.run code t := by
  rw [Machine.run, h]
  rfl

theorem Machine.Called.mov_eax_arg {p : Word} {ptr : GdtPtr} (h : s.Called p ptr) :
    s.exec .mov_eax_arg = .ok (s.set .eax p) := by
  have hroom := h.stack_room
  have hlinear : s.linear .ss (s.esp + 4#32) 4 = .ok (s.esp + 4#32) :=
    Machine.linear_flat h.stack _ (by bv_omega)
  unfold Machine.exec Machine.readWord
  rw [hlinear, ← h.arg]
  rfl

theorem Machine.Called.readPtr {p : Word} {ptr : GdtPtr} (h : s.Called p ptr) :
    (s.set .eax p).readPtr ((s.set .eax p).reg .eax) = .ok ptr := by
  have heax : (s.set .eax p).reg .eax = p := by rw [reg_set, if_pos rfl]
  have hlinear : (s.set .eax p).linear .ds p 6 = .ok p := Machine.linear_flat h.data p h.pointer_room
  unfold Machine.readPtr
  rw [heax, hlinear]
  exact congrArg Except.ok (GdtPtr.read h.pointer)

theorem Machine.ret_flat (h : (s.seg .ss).descriptor.Flat) (hroom : s.esp.toNat + 4 ≤ 2 ^ 32) :
    s.exec .ret = .ok { s.set .esp (s.esp + 4#32) with eip := peek s.mem s.esp } := by
  unfold Machine.exec Machine.pop Machine.readWord
  rw [Machine.linear_flat h s.esp hroom]
  rfl

/-! ## The whole of `gdt_flush` -/

theorem Machine.Sees.mov_seg (h : s.Sees gdt c d) (hax : s.ax = 0x10#16) (r : Seg) :
    s.exec (.mov_seg r) = .ok (s.loadData gdt r) := by
  cases r
  case ss => exact (congrArg s.movStack hax).trans h.movStack
  all_goals exact (congrArg (s.movData _) hax).trans (h.movData _)

theorem Machine.Sees.loadData (h : s.Sees gdt c d) {r : Seg} (hr : r ≠ .cs) :
    (s.loadData gdt r).Sees gdt c 0x93#8 := by
  refine ⟨h.gdtr, h.table.touch_data _, h.code, Or.inr rfl, ?_⟩
  have hcs : (s.load r ⟨0x10#16, flat 0x93#8⟩).seg .cs = s.seg .cs := by
    rw [Machine.seg_load, if_neg hr.symm]
  show rpl ((s.load r ⟨0x10#16, flat 0x93#8⟩).seg .cs).selector = 0
  rw [hcs]
  exact h.cpl

/-- Other than `cs`, all that the loads leave to be seen. -/
structure LoadedFrom (gdt : Word) (rs : List Seg) (s t : Machine) : Prop where
  reg : t.reg = s.reg
  eflags : t.eflags = s.eflags
  idtr : t.idtr = s.idtr
  seg : ∀ r, t.seg r = if r ∈ rs then ⟨0x10#16, flat 0x93#8⟩ else s.seg r
  mem : ∀ x, x ≠ gdt + 16#32 + 5#32 → t.mem x = s.mem x

/-- Only the first load finds `A` clear. -/
theorem Machine.Sees.loads (h : s.Sees gdt c d) (hax : s.ax = 0x10#16) (rs : List Seg) (hrs : .cs ∉ rs)
    (code : List Instr) : ∃ t, Machine.run (rs.map .mov_seg ++ code) s = Machine.run code t ∧
      t.Sees gdt c (if rs = [] then d else 0x93#8) ∧ LoadedFrom gdt rs s t := by
  induction rs generalizing s d with
  | nil => exact ⟨s, rfl, h, rfl, rfl, rfl, fun r => by simp, fun _ _ => rfl⟩
  | cons r rs ih =>
    rw [List.mem_cons, not_or] at hrs
    obtain ⟨t, hrun, ht, hloaded⟩ := ih (h.loadData (Ne.symm hrs.1)) hax hrs.2
    rw [ite_self] at ht
    rw [if_neg (List.cons_ne_nil r rs)]
    refine ⟨t, ?_, ht, hloaded.reg, hloaded.eflags, hloaded.idtr, fun q => ?_, fun x hx => ?_⟩
    · rw [List.map_cons, List.cons_append, Machine.run_cons (h.mov_seg hax r), hrun]
    · have hfirst : (s.loadData gdt r).seg q = if q = r then ⟨0x10#16, flat 0x93#8⟩ else s.seg q :=
        Machine.seg_load s r q _
      rw [hloaded.seg, hfirst]
      by_cases hq : q = r <;> simp [hq]
    · rw [hloaded.mem x hx]
      exact Function.update_of_ne hx _ _

/-- The segments of the kernel, and their table with `A` set. -/
structure Machine.Kernel (s : Machine) (gdt : Word) : Prop where
  gdtr : s.gdtr = ⟨23#16, gdt⟩
  table : GdtAt gdt 0x9B#8 0x93#8 s.mem
  cs : s.seg .cs = ⟨0x08#16, flat 0x9B#8⟩
  data : ∀ r, r ≠ .cs → s.seg r = ⟨0x10#16, flat 0x93#8⟩

/-- The bytes of `gdt_entries` are at `gdt`. -/
def EntriesAt (gdt : Word) (m : Bytes) (t : Gdt) : Prop :=
  ∀ v : Fin GDT_NUM_ENTRIES, bytesAt m (gdt + BitVec.ofNat 32 (8 * v)) 8 = (t.gdt_entries.get v).bytes

theorem EntriesAt.initialized {m : Bytes} {g : Gdt} (h : EntriesAt gdt m <| gdt_initialize gdt g) :
    GdtAt gdt 0x9A#8 0x92#8 m := by
  refine ⟨(h 1).trans ?_, (h 2).trans ?_⟩ <;> unfold gdt_initialize
  · rw [get_gdt_set_entry, if_neg (by decide), get_gdt_set_entry, if_pos rfl]
    rfl
  · rw [get_gdt_set_entry, if_pos rfl]
    rfl

/-- The table is loaded, and `ax` holds a selector. -/
structure Selected (ptr : GdtPtr) (v : BitVec 16) (s t : Machine) : Prop where
  gdtr : t.gdtr = ptr
  ax : t.ax = v
  mem : t.mem = s.mem
  seg : t.seg = s.seg
  eflags : t.eflags = s.eflags
  idtr : t.idtr = s.idtr
  reg : ∀ q, q ≠ .eax → t.reg q = s.reg q

theorem Machine.Called.select {p : Word} {ptr : GdtPtr} (h : s.Called p ptr) (v : BitVec 16)
    (code : List Instr) : ∃ t, Machine.run (.mov_eax_arg :: .lgdt :: .mov_ax v :: code) s =
      Machine.run code t ∧ Selected ptr v s t := by
  have hlgdt : (s.set .eax p).exec .lgdt = .ok { s.set .eax p with gdtr := ptr } := by
    unfold Machine.exec
    rw [h.readPtr]
    rfl
  rw [Machine.run_cons h.mov_eax_arg, Machine.run_cons hlgdt, Machine.run_cons rfl]
  refine ⟨_, rfl, rfl, ?_, rfl, rfl, rfl, rfl, fun q hq => ?_⟩
  · unfold Machine.ax
    rw [Machine.reg_set, if_pos rfl]
    apply BitVec.eq_of_getLsbD_eq
    intro i hi
    rw [BitVec.getLsbD_setWidth, BitVec.getLsbD_append]
    simp [hi]
  · rw [Machine.reg_set, if_neg hq]
    exact (Machine.reg_set s .eax q p).trans (if_neg hq)

theorem flat_code : (flat 0x9B#8).Flat := flat_flat rfl

theorem flat_data : (flat 0x93#8).Flat := flat_flat rfl

/-- **Into the kernel's segments.** Called on flat segments of ring 0, whatever their selectors,
`gdt_flush` raises no exception and returns. All six registers then hold a flat segment of the kernel's
table, and nothing else has changed in memory but the two bits that the processor sets in the table. -/
theorem gdt_flush_loads {p : Word} {g : Gdt} (flush_cs : Word)
    (hs : s.Called p <| Gdt.gdt_pointer <| gdt_initialize gdt g) (hcpl : s.cpl = 0)
    (htable : EntriesAt gdt s.mem <| gdt_initialize gdt g)
    (hapart : ∀ k < 4, 24 ≤ (s.esp + BitVec.ofNat 32 k - gdt).toNat) :
    ∃ t, Machine.run (gdt_flush flush_cs) s = .ok t ∧ t.Kernel gdt ∧ t.eip = peek s.mem s.esp ∧
      t.esp = s.esp + 4#32 ∧ t.eflags = s.eflags ∧ t.idtr = s.idtr ∧
      (∀ q, q ≠ .eax → q ≠ .esp → t.reg q = s.reg q) ∧
      ∀ x, x ≠ gdt + 13#32 → x ≠ gdt + 21#32 → t.mem x = s.mem x := by
  obtain ⟨u, hselect, hu⟩ := hs.select 0x10#16 ([.ds, .es, .fs, .gs, .ss].map .mov_seg ++
    [.jmp_far 0x08#16 flush_cs, .ret])
  have husees : u.Sees gdt 0x9A#8 0x92#8 :=
    ⟨hu.gdtr, by rw [hu.mem]; exact htable.initialized, Or.inl rfl, Or.inl rfl, by rwa [Machine.cpl, hu.seg]⟩
  obtain ⟨t, hloads, ht, hloaded⟩ := husees.loads hu.ax [.ds, .es, .fs, .gs, .ss] (by decide)
    [.jmp_far 0x08#16 flush_cs, .ret]
  have hjmp : t.exec (.jmp_far 0x08#16 flush_cs) = .ok (t.loadCode gdt flush_cs) := ht.jmpFar flush_cs
  have hdata' : ∀ r, r ≠ .cs → (t.loadCode gdt flush_cs).seg r = ⟨0x10#16, flat 0x93#8⟩ := by
    intro r hr
    have hseg : (t.loadCode gdt flush_cs).seg r = t.seg r := (Machine.seg_load t .cs r _).trans (if_neg hr)
    have hmem : r ∈ [.ds, .es, .fs, .gs, .ss] := by cases r <;> first | exact absurd rfl hr | decide
    rw [hseg, hloaded.seg, if_pos hmem]
  have hesp : (t.loadCode gdt flush_cs).esp = s.esp := by
    show t.reg .esp = s.reg .esp
    rw [hloaded.reg, hu.reg .esp (by decide)]
  have hmem : ∀ x, x ≠ gdt + 13#32 → x ≠ gdt + 21#32 → (t.loadCode gdt flush_cs).mem x = s.mem x := by
    intro x h13 h21
    have hx : t.mem x = s.mem x := by
      rw [hloaded.mem x (by rwa [add_assoc]), hu.mem]
    rw [← hx]
    exact Function.update_of_ne (by rwa [add_assoc]) _ _
  have hret := Machine.ret_flat (s := t.loadCode gdt flush_cs) (by rw [hdata' .ss (by decide)]; exact flat_data)
    (by have := hs.stack_room; rw [hesp]; omega)
  have hback : peek (t.loadCode gdt flush_cs).mem s.esp = peek s.mem s.esp := by
    apply peek_congr
    intro k hk
    have hout := hapart k hk
    refine hmem _ ?_ ?_
    · bv_omega
    · bv_omega
  rw [if_neg (by decide)] at ht
  rw [hesp, hback] at hret
  refine ⟨{ (t.loadCode gdt flush_cs).set .esp (s.esp + 4#32) with eip := peek s.mem s.esp }, ?_,
    ⟨ht.gdtr, ht.table.touch_code 0x9B#8, ?_, hdata'⟩, rfl, ?_, ?_, ?_, fun q hax hsp => ?_, hmem⟩
  · refine hselect.trans (hloads.trans ?_)
    rw [Machine.run_cons hjmp, Machine.run_cons hret]
    rfl
  · exact (Machine.seg_load t .cs .cs _).trans (if_pos rfl)
  · exact (Machine.reg_set (t.loadCode gdt flush_cs) .esp .esp _).trans (if_pos rfl)
  · exact hloaded.eflags.trans hu.eflags
  · exact hloaded.idtr.trans hu.idtr
  · refine (Machine.reg_set (t.loadCode gdt flush_cs) .esp q _).trans ((if_neg hsp).trans ?_)
    show t.reg q = s.reg q
    rw [hloaded.reg, hu.reg q hax]

/-- Memory with the given bytes at the given addresses. -/
def place : List (Word × List Byte) → Bytes
  | [], _ => 0#8
  | (p, l) :: rest, x => if (x - p).toNat < l.length then l.getD (x - p).toNat 0#8 else place rest x

def noGdt : Gdt := ⟨Vector.replicate 3 ⟨0#16, 0#16, 0#8, 0#8, 0#8, 0#8⟩, ⟨0#16, 0#32⟩⟩

def grubGdt : Gdt := gdt_initialize 0xC0104000#32 noGdt

/-- GRUB's segments are flat, and their selectors are not the kernel's. -/
def grub : Machine where
  reg q := if q = .esp then 0xC0106000#32 else 0#32
  eip := 0xC0100000#32
  eflags := 2#32
  mem := place [(0xC0104000#32, grubGdt.gdt_entries.toList.flatMap GdtEntry.bytes),
    (0xC0105000#32, grubGdt.gdt_pointer.bytes),
    (0xC0106000#32, [0x34#8, 0x12#8, 0x10#8, 0xC0#8, 0#8, 0x50#8, 0x10#8, 0xC0#8])]
  seg r := if r = .cs then ⟨0x10#16, flat 0x9B#8⟩ else ⟨0x18#16, flat 0x93#8⟩
  gdtr := ⟨0x20#16, 0x9000#32⟩
  idtr := ⟨0#16, 0#32⟩

theorem grub_called : grub.Called 0xC0105000#32 grubGdt.gdt_pointer :=
  ⟨flat_flat rfl, flat_flat rfl, by decide, by decide, by decide, by decide⟩

theorem grub_entries : EntriesAt 0xC0104000#32 grub.mem grubGdt := by
  unfold EntriesAt
  decide

theorem gdt_flush_loads_grub :
    ∃ t, Machine.run (gdt_flush 0xC0101000#32) grub = .ok t ∧ t.Kernel 0xC0104000#32 ∧
      t.eip = 0xC0101234#32 := by
  obtain ⟨t, hrun, hkernel, heip, -⟩ := gdt_flush_loads (g := noGdt) 0xC0101000#32 grub_called (by decide)
    grub_entries (by decide)
  exact ⟨t, hrun, hkernel, heip.trans (by decide)⟩

end MiniOS.Segment
