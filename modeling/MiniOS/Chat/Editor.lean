import MiniOS.Chat.Commands

/-!
# The line editors

`kbd_process_char` and `ser_process_char`, each on the line buffer of its user. The two
differ in their keys and their echo. What they do to a buffer is a function of the
buffer and the key alone.
-/

open MiniOS.Lib MiniOS.Vga

namespace MiniOS.Chat

def putChar (u : User) (i : Line → Nat) (b : Byte) : Action Unit :=
  Prog.update .bounds fun s => (store (s.buf u).line (i (s.buf u)) b).map fun line =>
    s.setBuf u { s.buf u with line := line }

def setLen (u : User) (f : Nat → Nat) : Action Unit :=
  Prog.modify fun s => s.setBuf u { s.buf u with len := f (s.buf u).len }

def lineLen (u : User) : Action Nat := Prog.read fun s => (s.buf u).len

/-- `if (!chat_try_command(line)) chat_submit(user, line);`. -/
def handOver (u : User) (line : List Byte) : Action Unit := do
  record (.line u (cString line))
  if !(← chat_try_command u line) then
    chat_submit u line

def endLine (u : User) : Action Unit := do
  putChar u Line.len 0#8
  handOver u (← Prog.read fun s => (s.buf u).line.toList)
  setLen u fun _ => 0
  putChar u (fun _ => 0) 0#8

/-- `line[len++] = c; line[len] = '\0';`. -/
def appendChar (u : User) (c : Byte) : Action Unit := do
  putChar u Line.len c
  setLen u (· + 1)
  putChar u Line.len 0#8

/-- `if (len > 0) len--;`. -/
def backUp (u : User) : Action Unit := do
  if (← lineLen u) > 0 then
    setLen u (· - 1)

def kbd_process_char (c : Byte) : Action Unit :=
  if c = 0x0A#8 then endLine .vga
  else if c = 0x08#8 then do
    if (← lineLen .vga) > 0 then
      setLen .vga (· - 1)
      putChar .vga Line.len 0#8
      Prog.modify fun s => { s with console := console_backspace s.console }
  else if c < 32#8 then pure ()
  else do
    if (← lineLen .vga) < LINE_MAX then
      appendChar .vga c
      consoleWrite [c, 0#8] CONSOLE_WHITE

def ser_process_char (c : Byte) : Action Unit :=
  if c = 0x0A#8 ∨ c = 0x0D#8 then do
    serialPrint (lit "\r\n")
    endLine .serial
  else if c = 0x08#8 ∨ c = 127#8 then do
    backUp .serial
    putChar .serial Line.len 0#8
  else if c < 32#8 then pure ()
  else do
    if (← lineLen .serial) < LINE_MAX then
      appendChar .serial c
      serialPrint [c, 0#8]

/-- `chat_init`, but for the queue, which it empties. -/
def chat_init : Action Unit := do
  setLen .vga fun _ => 0
  putChar .vga (fun _ => 0) 0#8
  setLen .serial fun _ => 0
  putChar .serial (fun _ => 0) 0#8
  deadlock_init

/-! ## What happens to a buffer -/

def Line.put (l : Line) (i : Nat) (b : Byte) : Line := { l with line := l.line.setIfInBounds i b }

def Line.close (l : Line) : Line := l.put l.len 0#8

/-- The line that is handed over. -/
def Line.text (l : Line) : List Byte := cString l.close.line.toList

def Line.reset (l : Line) : Line := Line.put { l.close with len := 0 } 0 0#8

def Line.append (l : Line) (c : Byte) : Line := Line.close { l.put l.len c with len := l.len + 1 }

def Line.erase (l : Line) : Line := Line.close { l with len := l.len - 1 }

def kbdEdit (l : Line) (c : Byte) : Line :=
  if c = 0x0A#8 then l.reset
  else if c = 0x08#8 then if l.len > 0 then l.erase else l
  else if c < 32#8 then l
  else if l.len < LINE_MAX then l.append c else l

def serEdit (l : Line) (c : Byte) : Line :=
  if c = 0x0A#8 ∨ c = 0x0D#8 then l.reset
  else if c = 0x08#8 ∨ c = 127#8 then l.erase
  else if c < 32#8 then l
  else if l.len < LINE_MAX then l.append c else l

def Line.chars (l : Line) : List Byte := l.line.toList.take l.len

theorem Line.chars_put {l : Line} {i : Nat} (h : l.len ≤ i) (b : Byte) : (l.put i b).chars = l.chars := by
  unfold Line.chars Line.put
  rw [Vector.toList_setIfInBounds, List.take_set_of_le h]

theorem Line.length_chars {l : Line} (h : l.len ≤ LINE_MAX) : l.chars.length = l.len := by
  simp only [Line.chars, List.length_take, Vector.length_toList]
  omega

theorem Line.chars_append {l : Line} (h : l.len < LINE_MAX) (c : Byte) :
    (l.append c).chars = l.chars ++ [c] := by
  have hlen : l.len < (l.line.toList.set l.len c).length := by
    rw [List.length_set, Vector.length_toList]
    omega
  unfold Line.append Line.close
  rw [Line.chars_put (le_refl _)]
  unfold Line.chars Line.put
  rw [Vector.toList_setIfInBounds, List.take_succ_eq_append_getElem hlen, List.getElem_set_self,
    List.take_set_of_le (le_refl _)]

theorem Line.chars_erase {l : Line} (h : l.len ≤ LINE_MAX) : l.erase.chars = l.chars.dropLast := by
  have hlen : l.len < l.line.toList.length := by
    rw [Vector.length_toList]
    omega
  unfold Line.erase Line.close
  rw [Line.chars_put (le_refl _)]
  unfold Line.chars
  rw [List.dropLast_take hlen]

theorem Line.text_eq_chars {l : Line} (h : l.len ≤ LINE_MAX) (hnul : 0#8 ∉ l.chars) :
    l.text = l.chars := by
  have hlen : l.len < l.line.toList.length := by
    rw [Vector.length_toList]
    omega
  have hstring : IsCString l.close.line.toList l.chars := by
    refine ⟨hnul, l.line.toList.drop (l.len + 1), ?_⟩
    unfold Line.close Line.put Line.chars
    rw [Vector.toList_setIfInBounds, List.set_eq_take_append_cons_drop, if_pos hlen]
  exact hstring.cString

theorem Line.text_empty {l : Line} (h : l.len = 0) : l.text = [] := by
  have hchars : l.chars = [] := by rw [Line.chars, h, List.take_zero]
  rw [Line.text_eq_chars (by omega) (by simp [hchars]), hchars]

theorem Line.chars_first {l : Line} (h : l.len = 0) (c : Byte) : (l.append c).chars = [c] := by
  have hfit : l.len < LINE_MAX := by rw [h]; decide
  rw [Line.chars_append hfit, Line.chars, h, List.take_zero, List.nil_append]

def handled (u : User) (m : List Byte) : List Event :=
  .line u m :: if IsCommand m then [.command u m] else submitted u m

/-- What only looks at broadcasts sees the message of a line, if there is one. -/
theorem filterMap_handled {α : Type} {f : Event → Option α} {u : User} {m : List Byte}
    (hline : f (.line u m) = none) (hcommand : f (.command u m) = none) :
    (handled u m).filterMap f = if IsCommand m ∨ m = [] then [] else (f (.broadcast u m)).toList := by
  unfold handled submitted
  rw [List.filterMap_cons_none hline]
  by_cases hm : IsCommand m
  · simp [hm, hcommand]
  by_cases hempty : m = []
  · rw [if_neg hm, if_pos hempty, if_pos (Or.inr hempty)]
    rfl
  · cases hf : f (.broadcast u m) <;> simp [hm, hempty, hf]

def kbdEcho (len : Nat) (c : Byte) (console : Console) : Console :=
  if c = 0x08#8 then if len > 0 then console_backspace console else console
  else if c < 32#8 then console
  else if len < LINE_MAX then console_write console [c, 0#8] else console

/-- `u`'s buffer is `l`, and `es` is on record. -/
structure Edited (u : User) (s t : State) (l : Line) (es : List Event) : Prop where
  buf : t.buf u = l
  other : ∀ v, v ≠ u → t.buf v = s.buf v
  file : ∀ v, 0#8 ∈ (t.file v).data.toList
  events : t.events = s.events ++ es

theorem kbdEdit_len {l : Line} (h : l.len ≤ LINE_MAX) (c : Byte) : (kbdEdit l c).len ≤ LINE_MAX := by
  unfold kbdEdit Line.reset Line.append Line.erase Line.close Line.put
  split_ifs <;> simp only [LINE_MAX] at * <;> omega

theorem kbdEdit_letter {l : Line} {c : Byte} (hl : l.len < LINE_MAX)
    (hc : c ≠ 0x0A#8 ∧ c ≠ 0x08#8 ∧ ¬c < 32#8) :
    kbdEdit l c = l.append c := by
  unfold kbdEdit
  rw [if_neg hc.1, if_neg hc.2.1, if_neg hc.2.2, if_pos hl]

theorem serEdit_len {l : Line} (h : l.len ≤ LINE_MAX) (c : Byte) : (serEdit l c).len ≤ LINE_MAX := by
  unfold serEdit Line.reset Line.append Line.erase Line.close Line.put
  split_ifs <;> simp only [LINE_MAX] at * <;> omega

theorem Edited.ok {u : User} {s t : State} {l : Line} {es : List Event} (h : Edited u s t l es)
    (hs : s.Ok) (hl : l.len ≤ LINE_MAX) : t.Ok := by
  refine ⟨fun v => ?_, h.file⟩
  by_cases hv : v = u
  · rw [hv, h.buf]
    exact hl
  · rw [h.other v hv]
    exact hs.len v

theorem exec_putChar {u : User} {i : Line → Nat} {b : Byte} {s : State}
    (hi : i (s.buf u) ≤ LINE_MAX) :
    (putChar u i b).exec s = .ok ((), s.setBuf u ((s.buf u).put (i (s.buf u)) b)) := by
  have hlt : i (s.buf u) < LINE_MAX + 1 := by omega
  have hput : (s.buf u).line.setIfInBounds (i (s.buf u)) b = (s.buf u).line.set (i (s.buf u)) b hlt := by
    ext k hk
    simp only [Vector.getElem_set, Vector.getElem_setIfInBounds]
  apply Prog.exec_update
  rw [store, dif_pos hlt, Line.put, hput]
  rfl

theorem wp_putChar {u : User} {i : Line → Nat} {b : Byte} {s : State} (hi : i (s.buf u) ≤ LINE_MAX)
    {Q : Unit → State → Prop} :
    (putChar u i b).wp Q s ↔ Q () (s.setBuf u ((s.buf u).put (i (s.buf u)) b)) :=
  Prog.wp_of_exec (exec_putChar hi)

theorem text_isCString {l : Line} (h : l.len ≤ LINE_MAX) : IsCString l.close.line.toList l.text := by
  apply isCString_of_mem
  rw [Vector.mem_toList_iff, Vector.mem_iff_getElem]
  exact ⟨l.len, by omega, by simp [Line.close, Line.put]⟩

theorem State.Ok.record {s : State} (hs : s.Ok) (es : List Event) :
    State.Ok { s with events := es } :=
  ⟨fun u => by rw [buf_events]; exact hs.len u, fun u => by rw [file_events]; exact hs.file u⟩

theorem Handled.ok {s t : State} {es : List Event} (h : Handled s t es) (hs : s.Ok) : t.Ok :=
  ⟨fun u => by rw [h.buf]; exact hs.len u, h.file⟩

theorem Handled.trans {s t v : State} {es es' : List Event} (h : Handled s t es)
    (h' : Handled t v es') : Handled s v (es ++ es') :=
  ⟨fun u => (h'.buf u).trans (h.buf u), h'.file, by rw [h'.events, h.events, List.append_assoc]⟩

theorem handOver_spec {u : User} {line m : List Byte} {s : State} (hs : s.Ok)
    (hline : IsCString line m) (hm : m ≠ ascii "/deadlock") :
    (handOver u line).wp (fun _ t => Handled s t (handled u m) ∧ (¬ IsCommand m → Sent u m s t)) s := by
  have hrecord : Handled s { s with events := s.events ++ [.line u m] } [.line u m] :=
    (Printed.refl _).handled_record hs
  have hs' := hs.record (s.events ++ [.line u m])
  unfold handOver
  rw [Prog.wp_bind, record, Prog.wp_modify, Prog.wp_bind, hline.cString]
  apply Prog.wp_mono (chat_try_command_spec hs' hline hm)
  rintro r t ⟨rfl, ht⟩
  by_cases hcommand : IsCommand m
  · rw [if_pos hcommand] at ht
    simp only [hcommand, decide_true, Bool.not_true, Bool.false_eq_true, if_false, handled, if_true]
    exact (Prog.wp_pure _).mpr ⟨hrecord.trans ht, fun hne => absurd trivial hne⟩
  · rw [if_neg hcommand] at ht
    subst ht
    simp only [hcommand, decide_false, Bool.not_false, if_true, handled, if_false]
    apply Prog.wp_mono (chat_submit_spec hs' hline)
    rintro - v ⟨hv, hsent⟩
    exact ⟨by simpa using hrecord.trans hv, fun _ => ⟨hsent.console, hsent.serial⟩⟩

theorem handOver_deadlock {u : User} {line : List Byte} {s : State}
    (hline : IsCString line (ascii "/deadlock")) : (handOver u line).exec s = .error .spin := by
  unfold handOver
  simp [Prog.exec_bind, Except.bind, record, chat_try_command_deadlock hline]

theorem State.Ok.put {u : User} {s : State} (hs : s.Ok) (i : Nat) (b : Byte) :
    (s.setBuf u ((s.buf u).put i b)).Ok := by
  refine ⟨fun v => ?_, fun v => by rw [file_setBuf]; exact hs.file v⟩
  rw [buf_setBuf]
  split
  · exact hs.len u
  · exact hs.len v

theorem endLine_deadlock {u : User} {s : State} (hs : s.Ok)
    (htext : (s.buf u).text = ascii "/deadlock") : (endLine u).exec s = .error .spin := by
  have hline := text_isCString (hs.len u)
  rw [htext] at hline
  have hread : (s.setBuf u (s.buf u).close).buf u = (s.buf u).close := by simp
  unfold endLine
  rw [Prog.exec_bind_ok (exec_putChar (hs.len u)), Prog.exec_bind_ok (Prog.exec_read _ _)]
  apply Prog.exec_bind_error
  rw [← hread] at hline
  exact handOver_deadlock hline

theorem endLine_spec {u : User} {s : State} (hs : s.Ok) (htext : (s.buf u).text ≠ ascii "/deadlock") :
    (endLine u).wp (fun _ t => Edited u s t (s.buf u).reset (handled u (s.buf u).text) ∧
      (¬ IsCommand (s.buf u).text → Sent u (s.buf u).text s t)) s := by
  have hline := text_isCString (hs.len u)
  unfold endLine
  rw [Prog.wp_bind, wp_putChar (hs.len u), Prog.wp_bind, Prog.wp_read, buf_setBuf, if_pos rfl,
    Prog.wp_bind]
  apply Prog.wp_mono (handOver_spec (hs.put _ _) hline htext)
  rintro - t ⟨ht, hsent⟩
  rw [Prog.wp_bind, setLen, Prog.wp_modify, wp_putChar (Nat.zero_le _)]
  refine ⟨⟨?_, fun v hv => ?_, fun v => ?_, ?_⟩, fun hcommand => ?_⟩
  · simp [ht.buf, Line.reset, Line.close]
  · simp [ht.buf, hv]
  · simpa using ht.file v
  · simp [ht.events]
  · obtain ⟨hconsole, hserial⟩ := hsent hcommand
    exact ⟨by simpa using hconsole, by simpa using hserial⟩

/-! ## The keyboard -/

def Hangs (l : Line) (c : Byte) : Prop := c = 0x0A#8 ∧ l.text = ascii "/deadlock"

theorem kbd_process_char_hangs {s : State} {c : Byte} (hs : s.Ok) (h : Hangs (s.buf .vga) c) :
    (kbd_process_char c).exec s = .error .spin := by
  unfold kbd_process_char
  rw [if_pos h.1]
  exact endLine_deadlock hs h.2

theorem appendChar_spec {u : User} {c : Byte} {s : State} (h : (s.buf u).len < LINE_MAX)
    {Q : Unit → State → Prop} :
    (appendChar u c).wp Q s ↔ Q () (s.setBuf u ((s.buf u).append c)) := by
  unfold appendChar
  rw [Prog.wp_bind, wp_putChar (by omega), Prog.wp_bind, setLen, Prog.wp_modify, wp_putChar]
  · simp [Line.append, Line.close, Line.put]
  · simpa [Line.put] using h

theorem edited_setBuf {u : User} {s t : State} (hs : s.Ok) (l : Line)
    (h : Printed (s.setBuf u l) t) : Edited u s t l [] := by
  refine ⟨?_, fun v hv => ?_, fun v => ?_, ?_⟩
  · rw [h.buf, buf_setBuf, if_pos rfl]
  · rw [h.buf, buf_setBuf, if_neg hv]
  · rw [h.file, file_setBuf]
    exact hs.file v
  · rw [h.events, events_setBuf, List.append_nil]

theorem edited_same {u : User} {s t : State} (hs : s.Ok) (h : Printed s t) :
    Edited u s t (s.buf u) [] := by
  refine ⟨h.buf u, fun v _ => h.buf v, fun v => ?_, ?_⟩
  · rw [h.file]
    exact hs.file v
  · rw [h.events, List.append_nil]

theorem State.Ok.len_back {s : State} (hs : s.Ok) (u : User) :
    ((s.setBuf u { s.buf u with len := (s.buf u).len - 1 }).buf u).len ≤ LINE_MAX := by
  have := hs.len u
  rw [buf_setBuf, if_pos rfl]
  show (s.buf u).len - 1 ≤ LINE_MAX
  omega

theorem kbd_process_char_spec {s : State} {c : Byte} (hs : s.Ok) (h : ¬ Hangs (s.buf .vga) c) :
    (kbd_process_char c).wp (fun _ t =>
      Edited .vga s t (kbdEdit (s.buf .vga) c)
        (if c = 0x0A#8 then handled .vga (s.buf .vga).text else []) ∧
      (c = 0x0A#8 → ¬ IsCommand (s.buf .vga).text → Sent .vga (s.buf .vga).text s t) ∧
      (c ≠ 0x0A#8 → t.console = kbdEcho (s.buf .vga).len c s.console)) s := by
  unfold kbd_process_char kbdEdit kbdEcho
  by_cases hnl : c = 0x0A#8
  · simp only [if_pos hnl]
    apply Prog.wp_mono (endLine_spec hs fun htext => h ⟨hnl, htext⟩)
    exact fun _ t ht => ⟨ht.1, fun _ => ht.2, fun hne => absurd hnl hne⟩
  · simp only [if_neg hnl]
    by_cases hbs : c = 0x08#8
    · simp only [if_pos hbs]
      rw [Prog.wp_bind, lineLen, Prog.wp_read]
      by_cases hlen : (s.buf .vga).len > 0
      · rw [if_pos hlen, if_pos hlen, if_pos hlen]
        rw [Prog.wp_bind, setLen, Prog.wp_modify, Prog.wp_bind, wp_putChar, Prog.wp_modify]
        · refine ⟨edited_setBuf hs _ ?_, fun h => absurd h hnl, fun _ => by simp⟩
          simp only [buf_setBuf, if_pos, setBuf_setBuf]
          exact printed_console _ _
        · exact hs.len_back .vga
      · rw [if_neg hlen, if_neg hlen, if_neg hlen]
        exact (Prog.wp_pure _).mpr ⟨edited_same hs (Printed.refl s), fun h => absurd h hnl, fun _ => rfl⟩
    · simp only [if_neg hbs]
      by_cases hctl : c < 32#8
      · simp only [if_pos hctl]
        exact (Prog.wp_pure _).mpr ⟨edited_same hs (Printed.refl s), fun h => absurd h hnl, fun _ => rfl⟩
      · simp only [if_neg hctl]
        rw [Prog.wp_bind, lineLen, Prog.wp_read]
        by_cases hfit : (s.buf .vga).len < LINE_MAX
        · rw [if_pos hfit, if_pos hfit, if_pos hfit]
          rw [Prog.wp_bind, appendChar_spec hfit, consoleWrite, Prog.wp_modify]
          refine ⟨edited_setBuf hs _ (printed_console _ _), fun h => absurd h hnl, fun _ => ?_⟩
          rw [console_setBuf, console_write]
        · rw [if_neg hfit, if_neg hfit, if_neg hfit]
          exact (Prog.wp_pure _).mpr ⟨edited_same hs (Printed.refl s), fun h => absurd h hnl, fun _ => rfl⟩

theorem kbd_process_char_post {s t : State} {c : Byte} (hs : s.Ok)
    (hrun : (kbd_process_char c).exec s = .ok ((), t)) :
    ¬ Hangs (s.buf .vga) c ∧
      Edited .vga s t (kbdEdit (s.buf .vga) c)
        (if c = 0x0A#8 then handled .vga (s.buf .vga).text else []) ∧
      (c ≠ 0x0A#8 → t.console = kbdEcho (s.buf .vga).len c s.console) := by
  have hfree : ¬ Hangs (s.buf .vga) c := by
    intro h
    rw [kbd_process_char_hangs hs h] at hrun
    cases hrun
  obtain ⟨ht, -, hecho⟩ := (Prog.wp_of_exec hrun).mp (kbd_process_char_spec hs hfree)
  exact ⟨hfree, ht, hecho⟩

/-! ## The serial port -/

theorem Printed.ok {s t : State} (h : Printed s t) (hs : s.Ok) : t.Ok :=
  ⟨fun u => by rw [h.buf]; exact hs.len u, fun u => by rw [h.file]; exact hs.file u⟩

theorem Printed.edited {u : User} {s t v : State} {l : Line} {es : List Event} (h : Printed s t)
    (h' : Edited u t v l es) : Edited u s v l es :=
  ⟨h'.buf, fun w hw => (h'.other w hw).trans (h.buf w), h'.file, by rw [h'.events, h.events]⟩

theorem backUp_spec {u : User} {s : State} {Q : Unit → State → Prop} :
    (backUp u).wp Q s ↔ Q () (s.setBuf u { s.buf u with len := (s.buf u).len - 1 }) := by
  unfold backUp
  rw [Prog.wp_bind, lineLen, Prog.wp_read]
  split
  · rw [setLen, Prog.wp_modify]
  · -- nothing to take back
    have hsame : s.setBuf u { s.buf u with len := (s.buf u).len - 1 } = s := by
      have hlen : (s.buf u).len - 1 = (s.buf u).len := by omega
      rw [hlen]
      cases u <;> rfl
    rw [hsame]
    exact Prog.wp_pure ()

def EndsLine (c : Byte) : Prop := c = 0x0A#8 ∨ c = 0x0D#8

instance (c : Byte) : Decidable (EndsLine c) := inferInstanceAs (Decidable (_ ∨ _))

theorem ser_process_char_hangs {s : State} {c : Byte} (hs : s.Ok) (hc : EndsLine c)
    (h : (s.buf .serial).text = ascii "/deadlock") : (ser_process_char c).exec s = .error .spin := by
  have hc' : c = 0x0A#8 ∨ c = 0x0D#8 := hc
  unfold ser_process_char
  rw [if_pos hc', serialPrint, Prog.exec_bind_ok (Prog.exec_modify _ s)]
  have hprint := printed_serialPrint s (serial_print s.serial (lit "\r\n"))
  apply endLine_deadlock (hprint.ok hs)
  rwa [hprint.buf]

theorem ser_process_char_spec {s : State} {c : Byte} (hs : s.Ok)
    (h : ¬ (EndsLine c ∧ (s.buf .serial).text = ascii "/deadlock")) :
    (ser_process_char c).wp (fun _ t =>
      Edited .serial s t (serEdit (s.buf .serial) c)
        (if EndsLine c then handled .serial (s.buf .serial).text else []) ∧
      (EndsLine c → ¬ IsCommand (s.buf .serial).text → Sent .serial (s.buf .serial).text
        { s with serial := serial_print s.serial (lit "\r\n") } t) ∧
      (¬ EndsLine c → t.console = s.console)) s := by
  unfold ser_process_char serEdit
  by_cases hnl : EndsLine c
  · have hnl' : c = 0x0A#8 ∨ c = 0x0D#8 := hnl
    simp only [if_pos hnl, if_pos hnl']
    have hprint := printed_serialPrint s (serial_print s.serial (lit "\r\n"))
    rw [Prog.wp_bind, serialPrint, Prog.wp_modify]
    have hend := endLine_spec (u := .serial) (hprint.ok hs) fun htext =>
      h ⟨hnl, by rwa [hprint.buf] at htext⟩
    rw [hprint.buf] at hend
    apply Prog.wp_mono hend
    exact fun _ t ht => ⟨hprint.edited ht.1, fun _ => ht.2, fun hne => absurd hnl hne⟩
  · have hnl' : ¬ (c = 0x0A#8 ∨ c = 0x0D#8) := hnl
    simp only [if_neg hnl, if_neg hnl']
    by_cases hbs : c = 0x08#8 ∨ c = 127#8
    · simp only [if_pos hbs]
      rw [Prog.wp_bind, backUp_spec, wp_putChar]
      · refine ⟨edited_setBuf hs _ ?_, fun h => absurd h hnl, fun _ => by simp⟩
        simp only [buf_setBuf, if_pos, setBuf_setBuf]
        exact Printed.refl _
      · exact hs.len_back .serial
    · simp only [if_neg hbs]
      by_cases hctl : c < 32#8
      · simp only [if_pos hctl]
        exact (Prog.wp_pure _).mpr ⟨edited_same hs (Printed.refl s), fun h => absurd h hnl, fun _ => rfl⟩
      · simp only [if_neg hctl]
        rw [Prog.wp_bind, lineLen, Prog.wp_read]
        by_cases hfit : (s.buf .serial).len < LINE_MAX
        · rw [if_pos hfit, if_pos hfit]
          rw [Prog.wp_bind, appendChar_spec hfit, serialPrint, Prog.wp_modify]
          exact ⟨edited_setBuf hs _ (printed_serialPrint _ _), fun h => absurd h hnl,
            fun _ => console_setBuf _ _ _⟩
        · rw [if_neg hfit, if_neg hfit]
          exact (Prog.wp_pure _).mpr ⟨edited_same hs (Printed.refl s), fun h => absurd h hnl, fun _ => rfl⟩

theorem ser_process_char_post {s t : State} {c : Byte} (hs : s.Ok)
    (hrun : (ser_process_char c).exec s = .ok ((), t)) :
    Edited .serial s t (serEdit (s.buf .serial) c)
        (if EndsLine c then handled .serial (s.buf .serial).text else []) ∧
      (EndsLine c → ¬ IsCommand (s.buf .serial).text → Sent .serial (s.buf .serial).text
        { s with serial := serial_print s.serial (lit "\r\n") } t) ∧
      (¬ EndsLine c → t.console = s.console) := by
  apply (Prog.wp_of_exec hrun).mp (ser_process_char_spec hs _)
  rintro ⟨hc, htext⟩
  rw [ser_process_char_hangs hs hc htext] at hrun
  cases hrun

/-! ## The start -/

def powerOn : State where
  kbd := ⟨Vector.replicate _ 0#8, 0⟩
  ser := ⟨Vector.replicate _ 0#8, 0⟩
  file_vga := ⟨0#32, Vector.replicate _ 0#8⟩
  file_serial := ⟨0#32, Vector.replicate _ 0#8⟩
  console := ⟨fun _ => 0#8, 0#16, ⟨0#8, fun _ => 0#8⟩⟩
  serial := []
  interrupts := true
  events := []

/-- Both lines are closed at their start, both locks free, and both files hold a name. -/
theorem wp_chat_init {s : State} {Q : Unit → State → Prop}
    (hQ : ∀ vga serial : Vector Byte 64, 0#8 ∈ vga.toList → 0#8 ∈ serial.toList →
      Q () { s with
        kbd := Line.close { s.kbd with len := 0 }
        ser := Line.close { s.ser with len := 0 }
        file_vga := ⟨0#32, vga⟩
        file_serial := ⟨0#32, serial⟩ }) : chat_init.wp Q s := by
  have hvga : IsCString (lit "foto_ferias.png") (ascii "foto_ferias.png") := lit_isCString (by decide)
  have hserial : IsCString (lit "trabalho.pdf") (ascii "trabalho.pdf") := lit_isCString (by decide)
  unfold chat_init deadlock_init
  rw [Prog.wp_bind, setLen, Prog.wp_modify, Prog.wp_bind, wp_putChar (Nat.zero_le _)]
  rw [Prog.wp_bind, setLen, Prog.wp_modify, Prog.wp_bind, wp_putChar (Nat.zero_le _)]
  rw [Prog.wp_bind, setLocked, Prog.wp_modify, Prog.wp_bind]
  apply copyToFile_spec hvga
  intro vga hvga'
  rw [Prog.wp_bind, setLocked, Prog.wp_modify]
  apply copyToFile_spec hserial
  intro serial hserial'
  exact hQ vga serial hvga'.mem hserial'.mem

theorem chat_init_spec (s : State) : chat_init.wp (fun _ t => t.Ok ∧ (∀ u, (t.buf u).len = 0) ∧
    t.events = s.events ∧ t.console = s.console ∧ t.interrupts = s.interrupts) s := by
  apply wp_chat_init
  intro vga serial hvga hserial
  refine ⟨⟨fun u => ?_, fun u => ?_⟩, fun u => ?_, rfl, rfl, rfl⟩
  · cases u <;> exact Nat.zero_le _
  · cases u
    · exact hvga
    · exact hserial
  · cases u <;> rfl

end MiniOS.Chat
