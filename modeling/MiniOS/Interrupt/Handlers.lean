import MiniOS.Basic
import MiniOS.Lib.Stack

/-!
# From an interrupt to C and back

`interrupt_handlers.s`, instruction by instruction, on a CPU with a stack. The labels
`interrupt_handler_N` come out of two macros. Which of them an `N` needs depends on
whether the CPU pushes an error code.
-/

open MiniOS.Lib

namespace MiniOS.Interrupt

/-! ## The CPU -/

inductive Reg
  | eax
  | ecx
  | edx
  | ebx
  | esp
  | ebp
  | esi
  | edi
  deriving DecidableEq

@[ext]
structure Cpu where
  reg : Reg → Word
  eip : Word
  cs : BitVec 16
  eflags : Word
  mem : Bytes

def Cpu.set (s : Cpu) (r : Reg) (v : Word) : Cpu := { s with reg := Function.update s.reg r v }

abbrev Cpu.esp (s : Cpu) : Word := s.reg .esp

def Cpu.push (s : Cpu) (v : Word) : Cpu :=
  { s.set .esp (s.esp - 4#32) with mem := poke s.mem (s.esp - 4#32) v }

def Cpu.top (s : Cpu) : Word := peek s.mem s.esp

def Cpu.drop (s : Cpu) : Cpu := s.set .esp (s.esp + 4#32)

def Cpu.pop (s : Cpu) (r : Reg) : Cpu := s.drop.set r s.top

def Cpu.pushad (s : Cpu) : Cpu :=
  ((((((((s.push (s.reg .eax)).push (s.reg .ecx)).push (s.reg .edx)).push (s.reg .ebx)).push
    (s.reg .esp)).push (s.reg .ebp)).push (s.reg .esi)).push (s.reg .edi))

/-- The saved `esp` is skipped. -/
def Cpu.popad (s : Cpu) : Cpu :=
  ((((((s.pop .edi).pop .esi).pop .ebp).drop.pop .ebx).pop .edx).pop .ecx).pop .eax

def Cpu.iret (s : Cpu) : Cpu :=
  { s.drop.drop.drop with eip := s.top, cs := s.drop.top.setWidth 16, eflags := s.drop.drop.top }

def Cpu.add_esp (s : Cpu) (n eflags : Word) : Cpu := { s.set .esp (s.esp + n) with eflags := eflags }

def HasErrorCode (vector : Nat) : Prop := vector = 8 ∨ (10 ≤ vector ∧ vector ≤ 14) ∨ vector = 17

instance (vector : Nat) : Decidable (HasErrorCode vector) := inferInstanceAs (Decidable (_ ∨ _))

/-- What an interrupt gate clears: `TF`, `IF`, `NT`, `RF` and `VM`. -/
abbrev GATE_FLAGS : Word := 0x34300#32

/-- The gate of the vector names the code segment and the `handler`. -/
def Cpu.interrupt (s : Cpu) (handler : Word) (vector : Nat) (error_code : Word) : Cpu :=
  let t := ((s.push s.eflags).push (s.cs.setWidth 32)).push s.eip
  let t := if HasErrorCode vector then t.push error_code else t
  { t with eip := handler, cs := 0x08#16, eflags := s.eflags &&& ~~~GATE_FLAGS }

/-! ## The code -/

inductive Instr
  | push (v : Word)
  | pushad
  | call_interrupt_handler
  | popad
  | add_esp (n : Word)
  | iret
  deriving DecidableEq

def common_interrupt_handler : List Instr :=
  [.pushad, .call_interrupt_handler, .popad, .add_esp 8#32, .iret]

/-- A label and its code. -/
def no_error_code_interrupt_handler (n : Nat) : Nat × List Instr :=
  (n, [.push 0#32, .push (BitVec.ofNat 32 n)] ++ common_interrupt_handler)

def error_code_interrupt_handler (n : Nat) : Nat × List Instr :=
  (n, [.push (BitVec.ofNat 32 n)] ++ common_interrupt_handler)

def handlers : List (Nat × List Instr) :=
  [no_error_code_interrupt_handler 0, no_error_code_interrupt_handler 1,
    no_error_code_interrupt_handler 2, no_error_code_interrupt_handler 3,
    no_error_code_interrupt_handler 4, no_error_code_interrupt_handler 5,
    no_error_code_interrupt_handler 6, no_error_code_interrupt_handler 7,
    error_code_interrupt_handler 8,
    no_error_code_interrupt_handler 9,
    error_code_interrupt_handler 10, error_code_interrupt_handler 11,
    error_code_interrupt_handler 12, error_code_interrupt_handler 13,
    error_code_interrupt_handler 14,
    no_error_code_interrupt_handler 15,
    no_error_code_interrupt_handler 16,
    error_code_interrupt_handler 17,
    no_error_code_interrupt_handler 18, no_error_code_interrupt_handler 19,
    no_error_code_interrupt_handler 20, no_error_code_interrupt_handler 21,
    no_error_code_interrupt_handler 22, no_error_code_interrupt_handler 23,
    no_error_code_interrupt_handler 24, no_error_code_interrupt_handler 25,
    no_error_code_interrupt_handler 26, no_error_code_interrupt_handler 27,
    no_error_code_interrupt_handler 28, no_error_code_interrupt_handler 29,
    no_error_code_interrupt_handler 30, no_error_code_interrupt_handler 31,
    no_error_code_interrupt_handler 32, no_error_code_interrupt_handler 33,
    no_error_code_interrupt_handler 34, no_error_code_interrupt_handler 35,
    no_error_code_interrupt_handler 36, no_error_code_interrupt_handler 37,
    no_error_code_interrupt_handler 38, no_error_code_interrupt_handler 39,
    no_error_code_interrupt_handler 40, no_error_code_interrupt_handler 41,
    no_error_code_interrupt_handler 42, no_error_code_interrupt_handler 43,
    no_error_code_interrupt_handler 44, no_error_code_interrupt_handler 45,
    no_error_code_interrupt_handler 46, no_error_code_interrupt_handler 47]

/-- The code at the label `interrupt_handler_N`. -/
def handlerCode (n : Nat) : List Instr := (handlers.lookup n).getD []

/-! ## The C side -/

/-- `struct cpu_state`, packed. -/
structure CpuState where
  edi : Word
  esi : Word
  ebp : Word
  esp : Word
  ebx : Word
  edx : Word
  ecx : Word
  eax : Word

def CpuState.read (m : Bytes) (p : Word) : CpuState :=
  { edi := peek m p, esi := peek m (p + 4#32), ebp := peek m (p + 8#32), esp := peek m (p + 12#32),
    ebx := peek m (p + 16#32), edx := peek m (p + 20#32), ecx := peek m (p + 24#32),
    eax := peek m (p + 28#32) }

/-- `struct stack_state`, packed. -/
structure StackState where
  eip : Word
  cs : Word
  eflags : Word

def StackState.read (m : Bytes) (p : Word) : StackState :=
  { eip := peek m p, cs := peek m (p + 4#32), eflags := peek m (p + 8#32) }

/-- The arguments of `interrupt_handler`, one after the other over the return address. -/
structure Args where
  cpu : CpuState
  interrupt : Word
  error_code : Word
  stack : StackState

def Args.read (m : Bytes) (esp : Word) : Args :=
  { cpu := CpuState.read m (esp + 4#32), interrupt := peek m (esp + 36#32),
    error_code := peek m (esp + 40#32), stack := StackState.read m (esp + 44#32) }

/-- What is not in the file: the address behind the call, what an addition makes of the flags, and
the C function, up to its return. -/
structure Env where
  ret : Word
  flags : Word → Word
  interrupt_handler : Cpu → Cpu

def Env.exec (env : Env) : Instr → Cpu → Cpu
  | .push v, s => s.push v
  | .pushad, s => s.pushad
  | .call_interrupt_handler, s => env.interrupt_handler (s.push env.ret)
  | .popad, s => s.popad
  | .add_esp n, s => s.add_esp n (env.flags s.eflags)
  | .iret, s => s.iret

def Env.run (env : Env) (code : List Instr) (s : Cpu) : Cpu := code.foldl (fun s i => env.exec i s) s

/-- From the interrupt to the next instruction of the interrupted code. -/
def Env.serve (env : Env) (handler : Word) (vector : Nat) (error_code : Word) (s : Cpu) : Cpu :=
  env.run (handlerCode vector) (s.interrupt handler vector error_code)

/-- The calls of the C function, with what each finds on the stack. -/
def Env.calls (env : Env) : List Instr → Cpu → List Args
  | [], _ => []
  | i :: code, s =>
    (if i = .call_interrupt_handler then [Args.read (s.push env.ret).mem (s.push env.ret).esp] else []) ++
      env.calls code (env.exec i s)

/-- Called at `esp`, the C function gives the stack back, and leaves the `n` bytes over the return
address alone. It may do what it likes to registers, flags and everything else in memory. -/
def Env.Cdecl (env : Env) (esp : Word) (n : Nat) : Prop :=
  ∀ c, c.esp = esp → (env.interrupt_handler c).esp = esp + 4#32 ∧
    ∀ k < n, (env.interrupt_handler c).mem (esp + 4#32 + BitVec.ofNat 32 k) =
      c.mem (esp + 4#32 + BitVec.ofNat 32 k)

/-! ## Words on the stack -/

def Cpu.StackHolds (s : Cpu) (old : Bytes) (n : Nat) (ws : List Word) : Prop :=
  StackIs old n s.mem s.esp ws

variable {s : Cpu} {old : Bytes} {n : Nat} {ws : List Word}

@[simp] theorem Cpu.reg_set (s : Cpu) (r q : Reg) (v : Word) :
    (s.set r v).reg q = if q = r then v else s.reg q := Function.update_apply ..

@[simp] theorem Cpu.reg_push (s : Cpu) (v : Word) (q : Reg) :
    (s.push v).reg q = if q = .esp then s.esp - 4#32 else s.reg q := Function.update_apply ..

@[simp] theorem Cpu.reg_drop (s : Cpu) (q : Reg) :
    s.drop.reg q = if q = .esp then s.esp + 4#32 else s.reg q := Function.update_apply ..

@[simp] theorem Cpu.reg_pop (s : Cpu) (r q : Reg) :
    (s.pop r).reg q = if q = r then s.top else s.drop.reg q := Function.update_apply ..

theorem Cpu.StackHolds.push (h : s.StackHolds old n ws) (hfit : 4 * (ws.length + 1) + n ≤ 2 ^ 32)
    (v : Word) : (s.push v).StackHolds old n (v :: ws) := by
  unfold StackHolds
  rw [Cpu.esp, Cpu.reg_push, if_pos rfl]
  exact StackIs.push h hfit v

theorem Cpu.StackHolds.top {v : Word} (h : s.StackHolds old n (v :: ws)) : s.top = v := h.1

theorem Cpu.StackHolds.drop {v : Word} (h : s.StackHolds old n (v :: ws)) :
    s.drop.StackHolds old n ws := by
  unfold StackHolds
  rw [Cpu.esp, Cpu.reg_drop, if_pos rfl]
  exact h.2

theorem Cpu.StackHolds.pop {v : Word} (h : s.StackHolds old n (v :: ws)) {r : Reg} (hr : r ≠ .esp) :
    (s.pop r).StackHolds old n ws := by
  unfold StackHolds
  rw [Cpu.esp, Cpu.reg_pop, if_neg hr.symm]
  exact h.drop

/-- The registers in the order in which `pushad` leaves them. -/
def saved (reg : Reg → Word) : List Word :=
  [reg .edi, reg .esi, reg .ebp, reg .esp, reg .ebx, reg .edx, reg .ecx, reg .eax]

theorem Cpu.StackHolds.pushad (h : s.StackHolds old n ws) (hfit : 4 * (ws.length + 8) + n ≤ 2 ^ 32) :
    s.pushad.StackHolds old n (saved s.reg ++ ws) := by
  have h₁ := h.push (by omega) (s.reg .eax)
  have h₂ := h₁.push (by simp only [List.length_cons]; omega) (s.reg .ecx)
  have h₃ := h₂.push (by simp only [List.length_cons]; omega) (s.reg .edx)
  have h₄ := h₃.push (by simp only [List.length_cons]; omega) (s.reg .ebx)
  have h₅ := h₄.push (by simp only [List.length_cons]; omega) (s.reg .esp)
  have h₆ := h₅.push (by simp only [List.length_cons]; omega) (s.reg .ebp)
  have h₇ := h₆.push (by simp only [List.length_cons]; omega) (s.reg .esi)
  exact h₇.push (by simp only [List.length_cons]; omega) (s.reg .edi)

theorem Cpu.reg_pushad (s : Cpu) (q : Reg) :
    s.pushad.reg q = if q = .esp then s.esp - 32#32 else s.reg q := by
  unfold Cpu.pushad
  simp only [reg_push, Cpu.esp, if_true]
  split
  · simp only [sub_sub, BitVec.reduceAdd]
  · rfl

theorem Cpu.StackHolds.popad {reg : Reg → Word} (h : s.StackHolds old n (saved reg ++ ws)) :
    s.popad.StackHolds old n ws ∧
      ∀ q, s.popad.reg q = if q = .esp then s.esp + 32#32 else reg q := by
  have h₁ := h.pop (r := .edi) (by decide)
  have h₂ := h₁.pop (r := .esi) (by decide)
  have h₃ := h₂.pop (r := .ebp) (by decide)
  have h₄ := h₃.drop
  have h₅ := h₄.pop (r := .ebx) (by decide)
  have h₆ := h₅.pop (r := .edx) (by decide)
  have h₇ := h₆.pop (r := .ecx) (by decide)
  refine ⟨h₇.pop (by decide), fun q => ?_⟩
  unfold Cpu.popad
  simp only [reg_pop, reg_drop, h.top, h₁.top, h₂.top, h₄.top, h₅.top, h₆.top, h₇.top]
  cases q <;> simp [Cpu.esp, add_assoc]

theorem Cpu.StackHolds.iret {eip cs eflags : Word} (h : s.StackHolds old n [eip, cs, eflags]) :
    s.iret.StackHolds old n [] ∧ s.iret.eip = eip ∧ s.iret.cs = cs.setWidth 16 ∧
      s.iret.eflags = eflags ∧ ∀ q, s.iret.reg q = if q = .esp then s.esp + 12#32 else s.reg q := by
  have h₁ := h.drop
  have h₂ := h₁.drop
  refine ⟨h₂.drop, h.top, ?_, h₂.top, fun q => ?_⟩
  · rw [← h₁.top]
    rfl
  · show s.drop.drop.drop.reg q = _
    simp only [reg_drop, Cpu.esp, if_true]
    split
    · simp only [add_assoc, BitVec.reduceAdd]
    · rfl

/-- What C reads as its arguments. -/
theorem Cpu.StackHolds.args {ret edi esi ebp esp ebx edx ecx eax interrupt error_code eip cs eflags : Word}
    (h : s.StackHolds old n [ret, edi, esi, ebp, esp, ebx, edx, ecx, eax, interrupt, error_code, eip,
      cs, eflags]) :
    Args.read s.mem s.esp =
      ⟨⟨edi, esi, ebp, esp, ebx, edx, ecx, eax⟩, interrupt, error_code, ⟨eip, cs, eflags⟩⟩ := by
  obtain ⟨-, hedi, hesi, hebp, hesp, hebx, hedx, hecx, heax, hint, hcode, heip, hcs, heflags, -⟩ := h
  simp only [add_assoc, BitVec.reduceAdd] at *
  unfold Args.read CpuState.read StackState.read
  simp only [add_assoc, BitVec.reduceAdd, *]

/-! ## There and back -/

/-- One macro for the vectors with an error code, the other for the rest. -/
theorem handlerCode_eq : ∀ vector < 48, handlerCode vector =
    (if HasErrorCode vector then [] else [.push 0#32]) ++ [.push (BitVec.ofNat 32 vector)] ++
      common_interrupt_handler := by
  decide

/-- `common_interrupt_handler` is reached with the two numbers over what the CPU saved. -/
structure Entered (s t : Cpu) (n vector : Nat) (error_code : Word) : Prop where
  stack : t.StackHolds s.mem n [BitVec.ofNat 32 vector, error_code, s.eip, s.cs.setWidth 32, s.eflags]
  reg : ∀ q, t.reg q = if q = .esp then s.esp - 20#32 else s.reg q

theorem Env.run_append (env : Env) (code code' : List Instr) (s : Cpu) :
    env.run (code ++ code') s = env.run code' (env.run code s) := List.foldl_append

theorem Env.calls_append (env : Env) (code code' : List Instr) (s : Cpu) :
    env.calls (code ++ code') s = env.calls code s ++ env.calls code' (env.run code s) := by
  induction code generalizing s with
  | nil => rfl
  | cons i code ih =>
    show _ ++ env.calls (code ++ code') _ = (_ ++ env.calls code _) ++ _
    rw [ih, List.append_assoc]
    rfl

/-- With a real error code or with a false one, the frame is the same. -/
theorem Env.entered (env : Env) (s : Cpu) (handler error_code : Word) (vector : Nat) (n : Nat)
    (hfit : 20 + n ≤ 2 ^ 32) :
    Entered s (env.run ((if HasErrorCode vector then [] else [.push 0#32]) ++
        [.push (BitVec.ofNat 32 vector)]) (s.interrupt handler vector error_code)) n vector
      (if HasErrorCode vector then error_code else 0#32) := by
  have h₀ : s.StackHolds s.mem n [] := fun k _ => rfl
  have h₁ := h₀.push (by simp only [List.length_nil]; omega) s.eflags
  have h₂ := h₁.push (by simp only [List.length_cons, List.length_nil]; omega) (s.cs.setWidth 32)
  have h₃ := h₂.push (by simp only [List.length_cons, List.length_nil]; omega) s.eip
  have hcode (code : Word) := h₃.push (by simp only [List.length_cons, List.length_nil]; omega) code
  have hvector (code : Word) := (hcode code).push (by simp only [List.length_cons, List.length_nil]; omega)
    (BitVec.ofNat 32 vector)
  by_cases hhas : HasErrorCode vector
  · simp only [if_pos hhas, Cpu.interrupt]
    refine ⟨hvector error_code, fun q => ?_⟩
    show (((((s.push s.eflags).push (s.cs.setWidth 32)).push s.eip).push error_code).push
      (BitVec.ofNat 32 vector)).reg q = _
    simp only [Cpu.reg_push, Cpu.esp, if_true, sub_sub, BitVec.reduceAdd]
    split <;> rfl
  · simp only [if_neg hhas, Cpu.interrupt]
    refine ⟨hvector 0#32, fun q => ?_⟩
    show (((((s.push s.eflags).push (s.cs.setWidth 32)).push s.eip).push 0#32).push
      (BitVec.ofNat 32 vector)).reg q = _
    simp only [Cpu.reg_push, Cpu.esp, if_true, sub_sub, BitVec.reduceAdd]
    split <;> rfl

@[simp] theorem Cpu.reg_add_esp (s : Cpu) (n eflags : Word) (q : Reg) :
    (s.add_esp n eflags).reg q = if q = .esp then s.esp + n else s.reg q := Function.update_apply ..

theorem Cpu.StackHolds.add_esp {v w : Word} (h : s.StackHolds old n (v :: w :: ws)) (eflags : Word) :
    (s.add_esp 8#32 eflags).StackHolds old n ws := by
  have hdrop := h.drop.drop
  unfold StackHolds at *
  have hesp : s.drop.drop.esp = (s.add_esp 8#32 eflags).esp := by
    simp only [Cpu.esp, Cpu.reg_drop, Cpu.reg_add_esp, if_true, add_assoc, BitVec.reduceAdd]
  rw [hesp] at hdrop
  exact hdrop

/-- The C function finds the frame, and gives it back. -/
theorem Env.call_spec (env : Env) (h : s.StackHolds old n ws) (hfit : 4 * (ws.length + 1) + n ≤ 2 ^ 32)
    (hc : env.Cdecl (s.esp - 4#32) (4 * ws.length + n)) :
    (s.push env.ret).StackHolds old n (env.ret :: ws) ∧
      (env.exec .call_interrupt_handler s).StackHolds old n ws ∧
      (env.exec .call_interrupt_handler s).esp = s.esp := by
  have hpush := h.push hfit env.ret
  have hcall : (s.push env.ret).esp = s.esp - 4#32 := by simp [Cpu.esp]
  obtain ⟨hesp, hmem⟩ := hc _ hcall
  rw [sub_add_cancel] at hesp hmem
  refine ⟨hpush, ?_, hesp⟩
  have hframe := hpush.drop
  have hdrop : (s.push env.ret).drop.esp = s.esp := by simp [Cpu.esp]
  unfold Cpu.StackHolds at hframe ⊢
  rw [hdrop] at hframe
  rw [exec, hesp]
  exact hframe.congr hmem

/-- What C gets to see of an interrupt. -/
def argsOf (s : Cpu) (vector : Nat) (error_code : Word) : Args where
  cpu := ⟨s.reg .edi, s.reg .esi, s.reg .ebp, s.esp - 20#32, s.reg .ebx, s.reg .edx, s.reg .ecx, s.reg .eax⟩
  interrupt := BitVec.ofNat 32 vector
  error_code := if HasErrorCode vector then error_code else 0#32
  stack := ⟨s.eip, s.cs.setWidth 32, s.eflags⟩

/-- **Interrupts are transparent.** For every vector, C is called once, with what was interrupted and the
error code, if there is one. After `iret` the registers, the flags and the code address are what they
were, and so are the `n` bytes from the interrupted `esp` up. -/
theorem interrupt_transparent (env : Env) (s : Cpu) (handler error_code : Word) (vector n : Nat)
    (hv : vector < 48) (hfit : 56 + n ≤ 2 ^ 32) (hc : env.Cdecl (s.esp - 56#32) (52 + n)) :
    env.calls (handlerCode vector) (s.interrupt handler vector error_code) = [argsOf s vector error_code] ∧
      (env.serve handler vector error_code s).reg = s.reg ∧
      (env.serve handler vector error_code s).eip = s.eip ∧
      (env.serve handler vector error_code s).cs = s.cs ∧
      (env.serve handler vector error_code s).eflags = s.eflags ∧
      ∀ k < n, (env.serve handler vector error_code s).mem (s.esp + BitVec.ofNat 32 k) =
        s.mem (s.esp + BitVec.ofNat 32 k) := by
  unfold Env.serve
  rw [handlerCode_eq vector hv, Env.run_append, Env.calls_append]
  obtain ⟨hstack, hreg⟩ := env.entered s handler error_code vector n (by omega)
  have hquiet : env.calls ((if HasErrorCode vector then [] else [.push 0#32]) ++
      [.push (BitVec.ofNat 32 vector)]) (s.interrupt handler vector error_code) = [] := by
    split <;> rfl
  rw [hquiet, List.nil_append]
  generalize env.run _ (s.interrupt handler vector error_code) = t at hstack hreg ⊢
  -- down to C
  have ha := hstack.pushad (by simp only [List.length_cons, List.length_nil]; omega)
  have hesp : t.pushad.esp = s.esp - 52#32 := by
    simp only [Cpu.esp, Cpu.reg_pushad, hreg, if_true, sub_sub, BitVec.reduceAdd]
  obtain ⟨hargs, hc', hcesp⟩ := env.call_spec ha
    (by simp only [saved, List.length_append, List.length_cons, List.length_nil]; omega)
    (by rw [hesp, sub_sub]; exact hc)
  have hrun : env.run common_interrupt_handler t =
      ((env.exec .call_interrupt_handler t.pushad).popad.add_esp 8#32
        (env.flags (env.exec .call_interrupt_handler t.pushad).popad.eflags)).iret := rfl
  have hcalls : env.calls common_interrupt_handler t =
      [Args.read (t.pushad.push env.ret).mem (t.pushad.push env.ret).esp] := rfl
  rw [hrun, hcalls]
  generalize env.exec .call_interrupt_handler t.pushad = c at hc' hcesp ⊢
  -- and back
  obtain ⟨hd, hdreg⟩ := hc'.popad
  obtain ⟨hf, hfeip, hfcs, hfflags, hfreg⟩ := (hd.add_esp (env.flags c.popad.eflags)).iret
  have hback : ∀ q, (c.popad.add_esp 8#32 (env.flags c.popad.eflags)).iret.reg q = s.reg q := by
    intro q
    rw [hfreg]
    simp only [Cpu.esp, Cpu.reg_add_esp, if_true, hdreg]
    by_cases hq : q = .esp
    · subst hq
      rw [if_pos rfl, ← Cpu.esp, hcesp, hesp]
      simp only [add_assoc, BitVec.reduceAdd, sub_add_cancel]
    · simp only [if_neg hq, hreg]
  refine ⟨?_, funext hback, hfeip, ?_, hfflags, fun k hk => ?_⟩
  · rw [hargs.args]
    simp [argsOf, hreg]
  · rw [hfcs]
    simp
  · rw [Cpu.esp, ← hback .esp]
    exact hf k hk

/-- A C function that spoils the registers it may, the flags, and the stack below its frame. -/
def clobbering : Env where
  ret := 0xC0100040#32
  flags := fun _ => 0x46#32
  interrupt_handler := fun c =>
    { (((c.drop.set .eax 0#32).set .ecx 0#32).set .edx 0#32) with
      eflags := 0x2#32
      mem := poke c.mem (c.esp - 4#32) 0xDEADBEEF#32 }

theorem clobbering_cdecl (esp : Word) {n : Nat} (h : n + 8 ≤ 2 ^ 32) : clobbering.Cdecl esp n := by
  rintro c rfl
  refine ⟨by simp [clobbering, Cpu.esp], fun k hk => ?_⟩
  apply poke_other
  have hoff : c.esp + 4#32 + BitVec.ofNat 32 k - (c.esp - 4#32) = BitVec.ofNat 32 (k + 4 + 4) := by
    rw [BitVec.ofNat_add, BitVec.ofNat_add]
    ring
  rw [hoff, BitVec.toNat_ofNat]
  omega

def interrupted : Cpu where
  reg := fun r => match r with
    | .esp => 0x00200000#32
    | .eax => 0x12345678#32
    | _ => 0x1#32
  eip := 0xC0101000#32
  cs := 0x08#16
  eflags := 0x202#32
  mem := fun x => x.setWidth 8

/-- A page fault, with error code 2, and the 4096 bytes over the interrupted `esp`. -/
theorem interrupt_transparent_page_fault :
    clobbering.calls (handlerCode 14) (interrupted.interrupt 0xC0100200#32 14 2#32) =
        [argsOf interrupted 14 2#32] ∧
      (clobbering.serve 0xC0100200#32 14 2#32 interrupted).reg = interrupted.reg ∧
      (clobbering.serve 0xC0100200#32 14 2#32 interrupted).eip = interrupted.eip ∧
      (clobbering.serve 0xC0100200#32 14 2#32 interrupted).cs = interrupted.cs ∧
      (clobbering.serve 0xC0100200#32 14 2#32 interrupted).eflags = interrupted.eflags ∧
      ∀ k < 4096, (clobbering.serve 0xC0100200#32 14 2#32 interrupted).mem
        (interrupted.esp + BitVec.ofNat 32 k) = interrupted.mem (interrupted.esp + BitVec.ofNat 32 k) :=
  interrupt_transparent clobbering interrupted 0xC0100200#32 2#32 14 4096 (by decide) (by decide)
    (clobbering_cdecl _ (by decide))

end MiniOS.Interrupt
