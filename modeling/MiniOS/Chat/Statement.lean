import MiniOS.Chat.Editor

/-!
# What the statements of an editor do

Each statement of one user's editor is a write to that user's buffer or to a file, an
output, a move of the interrupt flag, or a record in that user's name. What every
statement keeps is read off this list.
-/

open MiniOS.Lib MiniOS.Vga

namespace MiniOS.Chat

/-- The statements of `v`'s editor. -/
inductive Statement (v : User) (s : State) : State → Prop
  | nothing : Statement v s s
  | line (l : Line) : Statement v s (s.setBuf v l)
  | file (w : User) (file : UserFile) : Statement v s (s.setFile w file)
  | serial (m : List Byte) : Statement v s { s with serial := serial_print s.serial m }
  | console (text : List Byte) (fg : Byte) :
      Statement v s { s with console := console_write_colored s.console text fg CONSOLE_BLACK }
  | backspace : Statement v s { s with console := console_backspace s.console }
  | interrupts (b : Bool) : Statement v s { s with interrupts := b }
  | record {e : Event} : e.user = v → Statement v s { s with events := s.events ++ [e] }

variable {v : User}

/-! ## The parts -/

theorem serialPrint_statements (m : List Byte) : (serialPrint m).Each (Statement v) :=
  Prog.each_modify fun _ => .serial m

theorem consoleWrite_statements (text : List Byte) (fg : Byte) :
    (consoleWrite text fg).Each (Statement v) := Prog.each_modify fun _ => .console text fg

theorem setInterrupts_statements (b : Bool) : (setInterrupts b).Each (Statement v) :=
  Prog.each_modify fun _ => .interrupts b

theorem setLocked_statements (w : User) (locked : Word) : (setLocked w locked).Each (Statement v) :=
  Prog.each_modify fun _ => .file w _

theorem read_statements {α : Type} (g : State → α) : (Prog.read g : Action α).Each (Statement v) :=
  Prog.each_read (fun _ => .nothing) g

theorem record_statements {e : Event} (h : e.user = v) : (record e).Each (Statement v) :=
  Prog.each_modify fun _ => .record h

theorem spin_lock_statements (w : User) : (spin_lock w).Each (Statement v) := by
  intro s
  refine ⟨.file w _, ?_⟩
  by_cases h : (atomic_xchg (s.file w).locked 1#32).1 ≠ 0#32
  · simp only [if_pos h]
    trivial
  · simp only [if_neg h]
    trivial

theorem copyToFile_statements (w : User) (src : List Byte) : (copyToFile w src).Each (Statement v) := by
  apply Prog.each_update fun _ => .nothing
  intro s t h
  obtain ⟨data, -, rfl⟩ := Option.map_eq_some_iff.mp h
  exact .file w _

theorem putChar_statements (i : Line → Nat) (b : Byte) : (putChar v i b).Each (Statement v) := by
  apply Prog.each_update fun _ => .nothing
  intro s t ht
  obtain ⟨line, -, rfl⟩ := Option.map_eq_some_iff.mp ht
  exact .line _

theorem setLen_statements (f : Nat → Nat) : (setLen v f).Each (Statement v) :=
  Prog.each_modify fun _ => .line _

theorem say_statements (outs : List Print) : (say outs).Each (Statement v) := by
  induction outs with
  | nil => trivial
  | cons out outs ih =>
    cases out with
    | serial m => exact (serialPrint_statements m).bind fun _ => ih
    | console text fg => exact (consoleWrite_statements text fg).bind fun _ => ih

/-! ## The commands -/

theorem swapFiles_statements : swapFiles.Each (Statement v) := by
  unfold swapFiles
  apply (read_statements _).bind
  intro _
  apply (Prog.each_get _ _).bind
  intro _
  apply (read_statements _).bind
  exact fun _ => (copyToFile_statements _ _).bind fun _ => copyToFile_statements _ _

theorem deadlock_demo_unsafe_statements : deadlock_demo_unsafe.Each (Statement v) := by
  refine (setLocked_statements _ _).bind fun _ => (setLocked_statements _ _).bind fun _ =>
    (say_statements _).bind fun _ => (spin_lock_statements _).bind fun _ =>
    (say_statements _).bind fun _ => ?_
  refine (setLocked_statements _ _).bind fun _ => (say_statements _).bind fun _ =>
    (spin_lock_statements _).bind fun _ => ?_
  exact say_statements _

theorem deadlock_demo_safe_statements : deadlock_demo_safe.Each (Statement v) := by
  refine (setLocked_statements _ _).bind fun _ => (setLocked_statements _ _).bind fun _ =>
    (say_statements _).bind fun _ => (spin_lock_statements _).bind fun _ =>
    (say_statements _).bind fun _ => ?_
  refine (spin_lock_statements _).bind fun _ => (read_statements _).bind fun _ =>
    (say_statements _).bind fun _ => ?_
  exact swapFiles_statements.bind fun _ => (setLocked_statements _ _).bind fun _ =>
    (setLocked_statements _ _).bind fun _ => say_statements _

theorem chat_submit_statements (msg : List Byte) : (chat_submit v msg).Each (Statement v) := by
  unfold chat_submit
  apply (Prog.each_get _ _).bind
  intro _
  split
  · trivial
  · refine (Prog.each_get _ _).bind fun _ => (record_statements (by rfl)).bind fun _ => ?_
    exact (setInterrupts_statements _).bind fun _ => (consoleWrite_statements _ _).bind fun _ =>
      (serialPrint_statements _).bind fun _ => setInterrupts_statements _

theorem chat_try_command_statements (line : List Byte) :
    (chat_try_command v line).Each (Statement v) := by
  unfold chat_try_command
  apply (Prog.each_get _ _).bind
  intro _
  split
  · exact (record_statements (by rfl)).bind fun _ => deadlock_demo_unsafe_statements.bind fun _ => trivial
  apply (Prog.each_get _ _).bind
  intro _
  split
  · exact (record_statements (by rfl)).bind fun _ => deadlock_demo_safe_statements.bind fun _ => trivial
  apply (Prog.each_get _ _).bind
  intro _
  split
  · exact (record_statements (by rfl)).bind fun _ => (say_statements _).bind fun _ => trivial
  · trivial

/-! ## The editors -/

theorem handOver_statements (line : List Byte) : (handOver v line).Each (Statement v) := by
  unfold handOver
  refine (record_statements (by rfl)).bind fun _ => (chat_try_command_statements line).bind fun _ => ?_
  split
  · exact chat_submit_statements line
  · trivial

theorem endLine_statements : (endLine v).Each (Statement v) := by
  unfold endLine
  refine (putChar_statements _ _).bind fun _ => (read_statements _).bind fun _ => ?_
  exact (handOver_statements _).bind fun _ => (setLen_statements _).bind fun _ => putChar_statements _ _

theorem backUp_statements : (backUp v).Each (Statement v) := by
  unfold backUp
  apply (read_statements _).bind
  intro _
  split
  · exact setLen_statements _
  · trivial

theorem appendChar_statements (c : Byte) : (appendChar v c).Each (Statement v) :=
  (putChar_statements _ _).bind fun _ => (setLen_statements _).bind fun _ => putChar_statements _ _

theorem kbd_process_char_statements (c : Byte) : (kbd_process_char c).Each (Statement .vga) := by
  unfold kbd_process_char
  split
  · exact endLine_statements
  split
  · apply (read_statements _).bind
    intro _
    split
    · exact (setLen_statements _).bind fun _ => (putChar_statements _ _).bind fun _ =>
        Prog.each_modify fun _ => .backspace
    · trivial
  split
  · trivial
  apply (read_statements _).bind
  intro _
  split
  · exact (appendChar_statements c).bind fun _ => consoleWrite_statements _ _
  · trivial

theorem ser_process_char_statements (c : Byte) : (ser_process_char c).Each (Statement .serial) := by
  unfold ser_process_char
  split
  · exact (serialPrint_statements _).bind fun _ => endLine_statements
  split
  · exact backUp_statements.bind fun _ => putChar_statements _ _
  split
  · trivial
  apply (read_statements _).bind
  intro _
  split
  · exact (appendChar_statements c).bind fun _ => serialPrint_statements _
  · trivial

/-! ## The other user -/

def State.eventsOf (s : State) (u : User) : List Event := s.events.filter fun e => e.user = u

def Spares (u : User) (s t : State) : Prop := t.buf u = s.buf u ∧ t.eventsOf u = s.eventsOf u

theorem Quiet.spares {u : User} {s t : State} (h : Quiet s t) : Spares u s t :=
  ⟨h.buf u, by rw [State.eventsOf, h.events]; rfl⟩

theorem Statement.spares {u : User} {s t : State} (h : Statement v s t) (hv : v ≠ u) : Spares u s t := by
  cases h with
  | nothing => exact ⟨rfl, rfl⟩
  | line l =>
    refine ⟨by rw [buf_setBuf, if_neg hv.symm], ?_⟩
    rw [State.eventsOf, events_setBuf]
    rfl
  | file w file => exact (quiet_setFile s w file).spares
  | serial m => exact (printed_serialPrint s _).toQuiet.spares
  | console text fg => exact (printed_console s _).toQuiet.spares
  | backspace => exact (printed_console s _).toQuiet.spares
  | interrupts b => exact (printed_interrupts s b).toQuiet.spares
  | record he =>
    subst he
    exact ⟨buf_events s _ u, by simp [State.eventsOf, hv]⟩

theorem ser_process_char_spares (c : Byte) : (ser_process_char c).Each (Spares .vga) :=
  (ser_process_char_statements c).mono fun _ _ h => h.spares (by decide)

end MiniOS.Chat
