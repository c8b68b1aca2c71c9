import MiniOS.Chat.Deadlock

/-!
# Lines that users send

The part of `chat.c` that takes a finished line: it is a command, or it goes out to
everybody.
-/

open MiniOS.Lib MiniOS.Vga

namespace MiniOS.Chat

def append_formatted {n : Nat} (user msg : List Byte) (out : Vector Byte n) (out_sz : Nat) :
    Option (Vector Byte n) := do
  let (o, out) ← copyLoop out_sz (lit "[") 0 out
  let (o, out) ← copyLoop out_sz user o out
  let (o, out) ← copyLoop out_sz (lit "] ") o out
  let (o, out) ← copyLoop out_sz msg o out
  let (o, out) ←
    (if o + 1 < out_sz then (store out o 0x0A#8).map fun out => (o + 1, out) else some (o, out))
  store out o 0#8

def User.name : User → List Byte
  | .vga => ascii "vga"
  | .serial => ascii "serial"

def setInterrupts (interrupts : Bool) : Action Unit :=
  Prog.modify fun s => { s with interrupts := interrupts }

/-- `buf` is written before it is read, so its first contents do not matter. -/
def chat_submit (user : User) (msg : List Byte) : Action Unit := do
  if (← Prog.get .bounds msg.head?) = 0#8 then
    return
  let buf ← Prog.get .bounds (append_formatted (user.name ++ [0#8]) msg
    (Vector.replicate (LINE_MAX + 16) 0#8) (LINE_MAX + 16))
  record (.broadcast user (cString msg))
  setInterrupts false
  consoleWrite buf.toList CONSOLE_LIGHT_GREEN
  serialPrint buf.toList
  setInterrupts true

/-- The user is only for the record. -/
def chat_try_command (user : User) (line : List Byte) : Action Bool := do
  if ← Prog.get .bounds (str_equal line (lit "/deadlock")) then
    record (.command user (ascii "/deadlock"))
    deadlock_demo_unsafe
    return true
  if ← Prog.get .bounds (str_equal line (lit "/transferir")) then
    record (.command user (ascii "/transferir"))
    deadlock_demo_safe
    return true
  if ← Prog.get .bounds (str_equal line (lit "/help")) then
    record (.command user (ascii "/help"))
    say [.console (lit "\nComandos:\n") CONSOLE_LIGHT_CYAN,
      .console (lit "  /transferir  - troca de arquivos (com hierarquia)\n") CONSOLE_LIGHT_GREEN,
      .console (lit "  /deadlock  - provoca deadlock (trava tudo!)\n") CONSOLE_LIGHT_RED]
    return true
  return false

/-! ## What becomes of a line -/

/-- No more than `out_sz - 1` bytes of the message, and the NUL. -/
theorem append_formatted_spec {n out_sz : Nat} {user msg u m : List Byte} (hu : IsCString user u)
    (hm : IsCString msg m) (h0 : 0 < out_sz) (hsz : out_sz ≤ n) (out : Vector Byte n) :
    ∃ out', append_formatted user msg out out_sz = some out' ∧
      IsCString out'.toList
        ((ascii "[" ++ u ++ ascii "] " ++ m ++ ascii "\n").take (out_sz - 1)) := by
  obtain ⟨o₁, out₁, hloop₁, h₁⟩ :=
    copyLoop_spec (lit_isCString (s := "[") (by decide)) hsz (written_nil out)
  obtain ⟨o₂, out₂, hloop₂, h₂⟩ := copyLoop_spec hu hsz h₁
  obtain ⟨o₃, out₃, hloop₃, h₃⟩ := copyLoop_spec (lit_isCString (s := "] ") (by decide)) hsz h₂
  obtain ⟨o₄, out₄, hloop₄, h₄⟩ := copyLoop_spec hm hsz h₃
  have hnl : ∃ o₅ out₅, (if o₄ + 1 < out_sz then (store out₄ o₄ 0x0A#8).map fun out => (o₄ + 1, out)
      else some (o₄, out₄)) = some (o₅, out₅) ∧
      Written out_sz out₅ o₅ ([] ++ ascii "[" ++ u ++ ascii "] " ++ m ++ ascii "\n") := by
    by_cases hfit : o₄ + 1 < out_sz
    · obtain ⟨out₅, hstore, h₅⟩ := h₄.store hfit hsz 0x0A#8
      exact ⟨o₄ + 1, out₅, by rw [if_pos hfit, hstore]; rfl, h₅⟩
    · exact ⟨o₄, out₄, if_neg hfit, h₄.stop hfit _⟩
  obtain ⟨o₅, out₅, hstore₅, h₅⟩ := hnl
  have htext : 0#8 ∉ [] ++ ascii "[" ++ u ++ ascii "] " ++ m ++ ascii "\n" := by
    simp only [List.mem_append, not_or]
    exact ⟨⟨⟨⟨⟨by decide, by decide⟩, hu.1⟩, by decide⟩, hm.1⟩, by decide⟩
  obtain ⟨out', hstore, h'⟩ := h₅.close h0 hsz htext
  refine ⟨out', ?_, h'⟩
  unfold append_formatted
  simp only [hloop₁, hloop₂, hloop₃, hloop₄, Option.bind_eq_bind, Option.bind_some]
  rw [hstore₅]
  exact hstore

/-- The line buffers stay, the files stay strings, and `es` is on record. -/
structure Handled (s t : State) (es : List Event) : Prop where
  buf : ∀ u, t.buf u = s.buf u
  file : ∀ u, 0#8 ∈ (t.file u).data.toList
  events : t.events = s.events ++ es

theorem Printed.handled {s t : State} (h : Printed s t) (hs : s.Ok) : Handled s t [] :=
  ⟨h.buf, fun u => by rw [h.file]; exact hs.file u, by rw [h.events, List.append_nil]⟩

theorem Printed.handled_record {s t : State} {e : Event}
    (h : Printed { s with events := s.events ++ [e] } t) (hs : s.Ok) : Handled s t [e] := by
  refine ⟨fun u => ?_, fun u => ?_, h.events⟩
  · rw [h.buf, buf_events]
  · rw [h.file, file_events]
    exact hs.file u

def submitted (user : User) (m : List Byte) : List Event := if m = [] then [] else [.broadcast user m]

def message (user : User) (m : List Byte) : List Byte :=
  (ascii "[" ++ user.name ++ ascii "] " ++ m ++ ascii "\n").take (LINE_MAX + 15)

/-- The two outputs got the message, or nothing if the text is empty. -/
structure Sent (user : User) (m : List Byte) (s t : State) : Prop where
  console : t.console =
    if m = [] then s.console
    else console_write_colored s.console (message user m) CONSOLE_LIGHT_GREEN CONSOLE_BLACK
  serial : t.serial = if m = [] then s.serial else serial_print s.serial (message user m)

theorem User.isCString_name (user : User) : IsCString (user.name ++ [0#8]) user.name := by
  cases user
  · exact ⟨by decide, [], rfl⟩
  · exact ⟨by decide, [], rfl⟩

theorem format_message (user : User) {msg m : List Byte} (hm : IsCString msg m) :
    ∃ buf, append_formatted (user.name ++ [0#8]) msg (Vector.replicate (LINE_MAX + 16) 0#8)
        (LINE_MAX + 16) = some buf ∧ cString buf.toList = cString (message user m) := by
  obtain ⟨buf, hbuf, htext⟩ := append_formatted_spec user.isCString_name hm
    (show 0 < LINE_MAX + 16 by decide) (le_refl _) (Vector.replicate (LINE_MAX + 16) 0#8)
  refine ⟨buf, hbuf, ?_⟩
  have hmessage : message user m =
      (ascii "[" ++ user.name ++ ascii "] " ++ m ++ ascii "\n").take (LINE_MAX + 16 - 1) := rfl
  rw [htext.cString, hmessage, cString_of_not_mem htext.1]

theorem wp_chat_submit {user : User} {msg m : List Byte} {s : State} (hm : IsCString msg m) (hne : m ≠ [])
    {Q : Unit → State → Prop} :
    (chat_submit user msg).wp Q s ↔
      Q () { s with
        console := console_write_colored s.console (message user m) CONSOLE_LIGHT_GREEN CONSOLE_BLACK
        serial := serial_print s.serial (message user m)
        interrupts := true
        events := s.events ++ [.broadcast user m] } := by
  obtain ⟨buf, hbuf, htext⟩ := format_message user hm
  have hmsg := hm.cString
  unfold chat_submit
  cases m with
  | nil => exact absurd rfl hne
  | cons c m =>
    have hc : (c :: m).headD 0#8 ≠ 0#8 := fun h => hm.1 (List.mem_cons.mpr (Or.inl h.symm))
    rw [Prog.wp_bind, Prog.wp_get hm.head?, if_neg hc, Prog.wp_bind, Prog.wp_get hbuf]
    simp only [record, setInterrupts, consoleWrite, serialPrint, Prog.wp_bind, Prog.wp_modify, hmsg,
      console_write_colored, serial_print, htext]

theorem chat_submit_spec {user : User} {msg m : List Byte} {s : State} (hs : s.Ok)
    (hm : IsCString msg m) :
    (chat_submit user msg).wp (fun _ t => Handled s t (submitted user m) ∧ Sent user m s t) s := by
  cases m with
  | nil =>
    unfold chat_submit
    rw [Prog.wp_bind, Prog.wp_get hm.head?, if_pos (show [].headD 0#8 = 0#8 from rfl)]
    exact (Prog.wp_pure ()).mpr ⟨(Printed.refl s).handled hs, rfl, rfl⟩
  | cons c m =>
    rw [wp_chat_submit hm (by simp)]
    refine ⟨?_, rfl, rfl⟩
    exact Printed.handled_record ((printed_console _ _).trans ((printed_serialPrint _ _).trans
      (printed_interrupts _ true))) hs

def IsCommand (m : List Byte) : Prop := m = ascii "/transferir" ∨ m = ascii "/help"

instance (m : List Byte) : Decidable (IsCommand m) := inferInstanceAs (Decidable (_ ∨ _))

theorem isCString_deadlock : IsCString (lit "/deadlock") (ascii "/deadlock") :=
  lit_isCString (by decide)

theorem isCString_transferir : IsCString (lit "/transferir") (ascii "/transferir") :=
  lit_isCString (by decide)

theorem isCString_help : IsCString (lit "/help") (ascii "/help") := lit_isCString (by decide)

/-! ## Commands -/

inductive Command
  | deadlock
  | transferir
  | help
  deriving DecidableEq

def Command.name : Command → List Byte
  | .deadlock => ascii "/deadlock"
  | .transferir => ascii "/transferir"
  | .help => ascii "/help"

def Command.demo : Command → Action Unit
  | .deadlock => deadlock_demo_unsafe
  | .transferir => deadlock_demo_safe
  | .help => say [.console (lit "\nComandos:\n") CONSOLE_LIGHT_CYAN,
      .console (lit "  /transferir  - troca de arquivos (com hierarquia)\n") CONSOLE_LIGHT_GREEN,
      .console (lit "  /deadlock  - provoca deadlock (trava tudo!)\n") CONSOLE_LIGHT_RED]

/-- The command and nothing else, and then `return 1`. -/
def Command.run (user : User) (c : Command) : Action Bool := do
  record (.command user c.name)
  c.demo
  return true

/-- The three tests of a line, with what it holds. -/
theorem chat_try_command_eq {user : User} {line m : List Byte} (hline : IsCString line m) :
    chat_try_command user line =
      if m = ascii "/deadlock" then Command.deadlock.run user
      else if m = ascii "/transferir" then Command.transferir.run user
      else if m = ascii "/help" then Command.help.run user
      else pure false := by
  unfold chat_try_command
  rw [Prog.get_bind (str_equal_spec hline isCString_deadlock),
    Prog.get_bind (str_equal_spec hline isCString_transferir),
    Prog.get_bind (str_equal_spec hline isCString_help)]
  simp only [decide_eq_true_eq]
  rfl

theorem chat_try_command_name {user : User} {line : List Byte} {c : Command} (hline : IsCString line c.name) :
    chat_try_command user line = c.run user := by
  rw [chat_try_command_eq hline]
  cases c
  · exact if_pos rfl
  · rw [if_neg (by decide)]
    exact if_pos rfl
  · rw [if_neg (by decide), if_neg (by decide)]
    exact if_pos rfl

theorem chat_try_command_other {user : User} {line m : List Byte} (hline : IsCString line m)
    (hm : ∀ c : Command, m ≠ c.name) : chat_try_command user line = pure false := by
  have hdeadlock : m ≠ ascii "/deadlock" := hm .deadlock
  have htransferir : m ≠ ascii "/transferir" := hm .transferir
  have hhelp : m ≠ ascii "/help" := hm .help
  rw [chat_try_command_eq hline, if_neg hdeadlock, if_neg htransferir, if_neg hhelp]

theorem chat_try_command_deadlock {user : User} {line : List Byte} {s : State}
    (hline : IsCString line (ascii "/deadlock")) :
    (chat_try_command user line).exec s = .error .spin := by
  rw [chat_try_command_name (c := .deadlock) hline]
  unfold Command.run
  simp [-bind_pure_comp, Prog.exec_bind, Except.bind, record, Command.demo, deadlock_demo_unsafe_spec]

theorem transfer_handled {s : State} (hs : s.Ok) (e : Event) :
    deadlock_demo_safe.wp (fun _ t => Handled s t [e]) { s with events := s.events ++ [e] } := by
  have hfile : ∀ u, IsCString (State.file { s with events := s.events ++ [e] } u).data.toList
      (cString (s.file u).data.toList) := by
    intro u
    rw [file_events]
    exact isCString_of_mem (hs.file u)
  apply Prog.wp_mono (deadlock_demo_safe_spec (hfile .vga) (hfile .serial))
  rintro - t ⟨hquiet, -, hvga, hserial⟩
  refine ⟨fun u => ?_, fun u => ?_, hquiet.events⟩
  · rw [hquiet.buf, buf_events]
  · cases u
    · exact hvga.mem
    · exact hserial.mem

theorem chat_try_command_spec {user : User} {line m : List Byte} {s : State} (hs : s.Ok)
    (hline : IsCString line m) (hm : m ≠ ascii "/deadlock") :
    (chat_try_command user line).wp (fun r t => r = decide (IsCommand m) ∧
      if IsCommand m then Handled s t [.command user m] else t = s) s := by
  by_cases htransferir : m = ascii "/transferir"
  · have hcommand : IsCommand m := Or.inl htransferir
    subst htransferir
    rw [chat_try_command_name (c := .transferir) hline]
    unfold Command.run
    simp only [if_pos hcommand]
    rw [Prog.wp_bind, record, Prog.wp_modify, Prog.wp_bind]
    apply Prog.wp_mono (transfer_handled hs _)
    intro _ t ht
    exact (Prog.wp_pure true).mpr ⟨by simp [hcommand], ht⟩
  by_cases hhelp : m = ascii "/help"
  · have hcommand : IsCommand m := Or.inr hhelp
    subst hhelp
    rw [chat_try_command_name (c := .help) hline]
    unfold Command.run
    simp only [if_pos hcommand]
    rw [Prog.wp_bind, record, Prog.wp_modify, Prog.wp_bind]
    apply say_spec
    intro t ht
    exact (Prog.wp_pure true).mpr ⟨by simp [hcommand], ht.handled_record hs⟩
  · have hcommand : ¬ IsCommand m := fun h => h.elim htransferir hhelp
    have hother : ∀ c : Command, m ≠ c.name := by
      intro c
      cases c
      · exact hm
      · exact htransferir
      · exact hhelp
    rw [chat_try_command_other hline hother]
    simp only [if_neg hcommand]
    exact (Prog.wp_pure false).mpr ⟨by simp [hcommand], rfl⟩

end MiniOS.Chat
