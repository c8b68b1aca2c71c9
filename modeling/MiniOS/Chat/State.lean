import MiniOS.Lib.Prog
import MiniOS.Strings
import MiniOS.Vga.Framebuffer

/-!
# What the main loop works on

The line buffers of both users, their files, and the two outputs. The keyboard's
queue is not here: of all this, an interrupt touches nothing.
-/

open MiniOS.Lib MiniOS.Vga

namespace MiniOS.Chat

abbrev LINE_MAX : Nat := 120

inductive User
  | vga
  | serial
  deriving DecidableEq

structure Line where
  line : Vector Byte (LINE_MAX + 1)
  len : Nat

/-- `user_file_t`, with `lock.locked` for its lock. The names in it are never read. -/
structure UserFile where
  locked : Word
  data : Vector Byte 64

/-- What the chat does for a user. `line` is a line handed over, before anything is done with it. -/
inductive Event
  | line (user : User) (text : List Byte)
  | command (user : User) (name : List Byte)
  | broadcast (user : User) (text : List Byte)
  deriving DecidableEq

def Event.user : Event → User
  | .line user _ => user
  | .command user _ => user
  | .broadcast user _ => user

/-- `interrupts` is the flag that `cli` and `sti` move. `events` only records. -/
structure State where
  kbd : Line
  ser : Line
  file_vga : UserFile
  file_serial : UserFile
  console : Console
  serial : Serial
  interrupts : Bool
  events : List Event

def State.buf (s : State) : User → Line
  | .vga => s.kbd
  | .serial => s.ser

def State.setBuf (s : State) (u : User) (l : Line) : State :=
  match u with
  | .vga => { s with kbd := l }
  | .serial => { s with ser := l }

def State.file (s : State) : User → UserFile
  | .vga => s.file_vga
  | .serial => s.file_serial

def State.setFile (s : State) (u : User) (file : UserFile) : State :=
  match u with
  | .vga => { s with file_vga := file }
  | .serial => { s with file_serial := file }

/-- `bounds` is an access outside an array, `spin` a lock that nobody will release. -/
inductive Fault
  | bounds
  | spin
  deriving DecidableEq

abbrev Action := Prog Fault State

def serialPrint (mensagem : List Byte) : Action Unit :=
  Prog.modify fun s => { s with serial := serial_print s.serial mensagem }

/-- `console_write_colored` on black, as every caller has it. -/
def consoleWrite (text : List Byte) (fg : Byte) : Action Unit :=
  Prog.modify fun s => { s with console := console_write_colored s.console text fg CONSOLE_BLACK }

inductive Print
  | serial (mensagem : List Byte)
  | console (text : List Byte) (fg : Byte)

def say : List Print → Action Unit
  | [] => pure ()
  | .serial mensagem :: rest => do
    serialPrint mensagem
    say rest
  | .console text fg :: rest => do
    consoleWrite text fg
    say rest

def record (e : Event) : Action Unit := Prog.modify fun s => { s with events := s.events ++ [e] }

/-- From here every array access of the chat stays inside. -/
structure State.Ok (s : State) : Prop where
  len : ∀ u, (s.buf u).len ≤ LINE_MAX
  file : ∀ u, 0#8 ∈ (s.file u).data.toList

/-- Only outputs, flag and files may differ. -/
structure Quiet (s t : State) : Prop where
  buf : ∀ u, t.buf u = s.buf u
  events : t.events = s.events

structure Printed (s t : State) : Prop extends Quiet s t where
  file : ∀ u, t.file u = s.file u

theorem Quiet.refl (s : State) : Quiet s s := ⟨fun _ => rfl, rfl⟩

theorem Quiet.trans {s t v : State} (h : Quiet s t) (h' : Quiet t v) : Quiet s v :=
  ⟨fun u => (h'.buf u).trans (h.buf u), h'.events.trans h.events⟩

theorem Printed.refl (s : State) : Printed s s := ⟨Quiet.refl s, fun _ => rfl⟩

theorem Printed.trans {s t v : State} (h : Printed s t) (h' : Printed t v) : Printed s v :=
  ⟨h.toQuiet.trans h'.toQuiet, fun u => (h'.file u).trans (h.file u)⟩

@[simp] theorem file_setFile (s : State) (u v : User) (file : UserFile) :
    (s.setFile u file).file v = if v = u then file else s.file v := by
  cases u <;> cases v <;> rfl

@[simp] theorem buf_setBuf (s : State) (u v : User) (l : Line) :
    (s.setBuf u l).buf v = if v = u then l else s.buf v := by
  cases u <;> cases v <;> rfl

@[simp] theorem setBuf_setBuf (s : State) (u : User) (l l' : Line) :
    (s.setBuf u l).setBuf u l' = s.setBuf u l' := by
  cases u <;> rfl

@[simp] theorem file_setBuf (s : State) (u v : User) (l : Line) : (s.setBuf u l).file v = s.file v := by
  cases u <;> cases v <;> rfl

@[simp] theorem buf_setFile (s : State) (u v : User) (file : UserFile) :
    (s.setFile u file).buf v = s.buf v := by
  cases u <;> cases v <;> rfl

@[simp] theorem events_setBuf (s : State) (u : User) (l : Line) : (s.setBuf u l).events = s.events := by
  cases u <;> rfl

@[simp] theorem events_setFile (s : State) (u : User) (file : UserFile) :
    (s.setFile u file).events = s.events := by
  cases u <;> rfl

@[simp] theorem console_setBuf (s : State) (u : User) (l : Line) : (s.setBuf u l).console = s.console := by
  cases u <;> rfl

@[simp] theorem console_setFile (s : State) (u : User) (file : UserFile) :
    (s.setFile u file).console = s.console := by
  cases u <;> rfl

@[simp] theorem serial_setBuf (s : State) (u : User) (l : Line) : (s.setBuf u l).serial = s.serial := by
  cases u <;> rfl

@[simp] theorem buf_events (s : State) (es : List Event) (u : User) :
    State.buf { s with events := es } u = s.buf u := by
  cases u <;> rfl

@[simp] theorem file_events (s : State) (es : List Event) (u : User) :
    State.file { s with events := es } u = s.file u := by
  cases u <;> rfl

theorem quiet_setFile (s : State) (u : User) (file : UserFile) : Quiet s (s.setFile u file) :=
  ⟨fun v => buf_setFile s u v file, events_setFile s u file⟩

theorem printed_serialPrint (s : State) (sent : Serial) : Printed s { s with serial := sent } :=
  ⟨⟨fun u => by cases u <;> rfl, rfl⟩, fun u => by cases u <;> rfl⟩

theorem printed_console (s : State) (console : Console) : Printed s { s with console := console } :=
  ⟨⟨fun u => by cases u <;> rfl, rfl⟩, fun u => by cases u <;> rfl⟩

theorem printed_interrupts (s : State) (interrupts : Bool) :
    Printed s { s with interrupts := interrupts } :=
  ⟨⟨fun u => by cases u <;> rfl, rfl⟩, fun u => by cases u <;> rfl⟩

theorem say_spec {outs : List Print} {s : State} {Q : Unit → State → Prop}
    (hQ : ∀ t, Printed s t → Q () t) : (say outs).wp Q s := by
  induction outs generalizing s with
  | nil => exact (Prog.wp_pure ()).mpr (hQ s (Printed.refl s))
  | cons out outs ih =>
    cases out with
    | serial mensagem =>
      rw [say, Prog.wp_bind, serialPrint, Prog.wp_modify]
      exact ih fun t ht => hQ t ((printed_serialPrint s _).trans ht)
    | console text fg =>
      rw [say, Prog.wp_bind, consoleWrite, Prog.wp_modify]
      exact ih fun t ht => hQ t ((printed_console s _).trans ht)

theorem say_each (outs : List Print) : (say outs).Each Printed := by
  induction outs with
  | nil => trivial
  | cons out outs ih =>
    cases out with
    | serial mensagem => exact (Prog.each_modify fun s => printed_serialPrint s _).bind fun _ => ih
    | console text fg => exact (Prog.each_modify fun s => printed_console s _).bind fun _ => ih

end MiniOS.Chat
