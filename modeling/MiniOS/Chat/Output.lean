import MiniOS.Chat.Statement

/-!
# What goes out

The statements of the chat write to two outputs. Both get whole blocks, and a broadcast
is one of them.
-/

open MiniOS.Lib MiniOS.Vga

namespace MiniOS.Chat

/-- `line` is a broadcast. Everything else that goes out is one of the first three. -/
inductive Out
  | serial (mensagem : List Byte)
  | console (text : List Byte) (fg : Byte)
  | backspace
  | line (u : User) (m : List Byte)

def broadcastLine (u : User) (m : List Byte) : List Byte :=
  ascii "[" ++ u.name ++ ascii "] " ++ m ++ ascii "\n"

def Out.onSerial : Out → List Byte
  | .serial mensagem => cString mensagem
  | .line u m => broadcastLine u m
  | _ => []

def Out.onConsole (c : Console) : Out → Console
  | .console text fg => console_write_colored c text fg CONSOLE_BLACK
  | .backspace => console_backspace c
  | .line u m => console_write_colored c (broadcastLine u m) CONSOLE_LIGHT_GREEN CONSOLE_BLACK
  | _ => c

def Out.sent : Out → Option (User × List Byte)
  | .line u m => some (u, m)
  | _ => none

def sentOf (es : List Event) : List (User × List Byte) :=
  es.filterMap fun e => match e with
    | .broadcast u m => some (u, m)
    | _ => none

/-- From `s` to `t`, `outs` went out, one after the other. -/
structure Shown (s t : State) (outs : List Out) : Prop where
  serial : t.serial = s.serial ++ outs.flatMap Out.onSerial
  console : t.console = outs.foldl Out.onConsole s.console

theorem Shown.refl (s : State) : Shown s s [] := ⟨by simp, rfl⟩

theorem Shown.trans {s t v : State} {outs outs' : List Out} (h : Shown s t outs)
    (h' : Shown t v outs') : Shown s v (outs ++ outs') := by
  refine ⟨?_, ?_⟩
  · rw [h'.serial, h.serial, List.flatMap_append, List.append_assoc]
  · rw [h'.console, h.console, List.foldl_append]

/-- Broadcasts apart, all that goes out is plain. -/
def Plain (s t : State) : Prop := ∃ outs, outs.filterMap Out.sent = [] ∧ Shown s t outs

theorem Plain.refl (s : State) : Plain s s := ⟨[], rfl, Shown.refl s⟩

theorem Plain.trans {s t v : State} (h : Plain s t) (h' : Plain t v) : Plain s v := by
  obtain ⟨outs, hsent, hshown⟩ := h
  obtain ⟨outs', hsent', hshown'⟩ := h'
  exact ⟨outs ++ outs', by rw [List.filterMap_append, hsent, hsent']; rfl, hshown.trans hshown'⟩

theorem Statement.plain {v : User} {s t : State} (h : Statement v s t) : Plain s t := by
  cases h with
  | serial m => exact ⟨[.serial m], rfl, by simp [serial_print, Out.onSerial], rfl⟩
  | console text fg => exact ⟨[.console text fg], rfl, by simp [Out.onSerial], rfl⟩
  | backspace => exact ⟨[.backspace], rfl, by simp [Out.onSerial], rfl⟩
  | line l => exact ⟨[], rfl, by simp, console_setBuf _ _ _⟩
  | file w file => exact ⟨[], rfl, by cases w <;> simp [State.setFile], console_setFile _ _ _⟩
  | _ => exact ⟨[], rfl, by simp, rfl⟩

/-- From `s` to `t` whole blocks went out, the broadcasts on record among them. Each is one line. -/
structure Contiguous (s t : State) (outs : List Out) (es : List Event) : Prop extends
    Shown s t outs where
  events : t.events = s.events ++ es
  sent : outs.filterMap Out.sent = sentOf es
  lines : ∀ x ∈ sentOf es, 0x0A#8 ∉ x.2 ∧ 0#8 ∉ x.2

theorem Contiguous.refl (s : State) : Contiguous s s [] [] :=
  ⟨Shown.refl s, (List.append_nil _).symm, rfl, fun _ hx => absurd hx List.not_mem_nil⟩

theorem Contiguous.trans {s t v : State} {outs outs' : List Out} {es es' : List Event}
    (h : Contiguous s t outs es) (h' : Contiguous t v outs' es') :
    Contiguous s v (outs ++ outs') (es ++ es') := by
  have hsent : sentOf (es ++ es') = sentOf es ++ sentOf es' := List.filterMap_append
  refine ⟨h.toShown.trans h'.toShown, ?_, ?_, ?_⟩
  · rw [h'.events, h.events, List.append_assoc]
  · rw [List.filterMap_append, h.sent, h'.sent, hsent]
  · rw [hsent]
    intro x hx
    rcases List.mem_append.mp hx with hx | hx
    · exact h.lines x hx
    · exact h'.lines x hx

/-! ## One message -/

theorem message_eq {u : User} {m : List Byte} (h : m.length ≤ LINE_MAX) :
    message u m = broadcastLine u m := by
  have hmax : LINE_MAX = 120 := rfl
  have hname : u.name.length ≤ 6 := by cases u <;> decide
  apply List.take_of_length_le
  simp only [List.length_append]
  have h₁ : (ascii "[").length = 1 := rfl
  have h₂ : (ascii "] ").length = 2 := rfl
  have h₃ : (ascii "\n").length = 1 := rfl
  omega

theorem sentOf_handled (u : User) (m : List Byte) :
    sentOf (handled u m) = if IsCommand m ∨ m = [] then [] else [(u, m)] := by
  unfold sentOf
  rw [filterMap_handled rfl rfl]
  rfl

theorem broadcastLine_nul {u : User} {m : List Byte} (hm : 0#8 ∉ m) : 0#8 ∉ broadcastLine u m := by
  unfold broadcastLine
  simp only [List.mem_append, not_or]
  exact ⟨⟨⟨⟨by decide, by cases u <;> decide⟩, by decide⟩, hm⟩, by decide⟩

theorem Sent.shown {u : User} {m : List Byte} {s t : State} (h : Sent u m s t) (hne : m ≠ [])
    (hlen : m.length ≤ LINE_MAX) (hnul : 0#8 ∉ m) : Shown s t [.line u m] := by
  have hconsole := h.console
  have hserial := h.serial
  rw [if_neg hne, message_eq hlen] at hconsole hserial
  refine ⟨?_, hconsole⟩
  rw [hserial, serial_print, cString_of_not_mem (broadcastLine_nul hnul)]
  simp [Out.onSerial]

end MiniOS.Chat
