import MiniOS.Chat.Statement
import MiniOS.Lib.Run
import MiniOS.Vga.Terminal

/-!
# The screen and the line

The keyboard's user sees the line in front of the cursor. A serial line with a text
that ends in the middle of it moves the cursor away. Until one does, screen and line
agree, through typing, backspace and scrolling.
-/

open MiniOS.Lib MiniOS.Vga

namespace MiniOS.Chat

inductive Key
  | kbd (c : Byte)
  | ser (c : Byte)

def Key.process : Key → Action Unit
  | .kbd c => kbd_process_char c
  | .ser c => ser_process_char c

def Processed (s : State) (k : Key) (t : State) : Prop := k.process.exec s = .ok ((), t)

/-- A serial line that ends while the keyboard's user has typed something is empty. -/
def Undisturbed (s : State) : Key → Prop
  | .kbd _ => True
  | .ser c => EndsLine c → s.kbd.len = 0 ∨ s.ser.len = 0

def UndisturbedStep (s : State) (k : Key) (t : State) : Prop := Undisturbed s k ∧ Processed s k t

def echoCell (b : Byte) : Cell := (b, colour CONSOLE_WHITE CONSOLE_BLACK)

/-- The `kbd_len` cells before the cursor hold the line. -/
structure ScreenAgrees (s : State) : Prop where
  fits : s.kbd.len ≤ s.console.current_position.toNat
  cells : s.console.before s.kbd.len = s.kbd.chars.map echoCell

/-- From `s` to `t`, the last character of the line went, with the cell that showed it. -/
structure ErasesLast (s t : State) (b : Byte) : Prop where
  line : s.kbd.chars = t.kbd.chars ++ [b]
  shown : cellAt s.console (s.console.current_position.toNat - 1) = echoCell b
  cells : cellAt t.console =
    Function.update (cellAt s.console) (s.console.current_position.toNat - 1) blank
  cursor : t.console.current_position.toNat = s.console.current_position.toNat - 1

/-! ## The invariant -/

structure ScreenInv (s : State) : Prop extends ScreenAgrees s where
  ok : s.Ok
  onScreen : s.console.OnScreen

theorem Statement.onScreen {v : User} {s t : State} (h : Statement v s t) (hs : s.console.OnScreen) :
    t.console.OnScreen := by
  cases h with
  | line l => rwa [console_setBuf]
  | file w file => rwa [console_setFile]
  | console text fg => exact console_write_colored_onScreen hs text fg CONSOLE_BLACK
  | backspace => exact console_backspace_onScreen hs
  | _ => exact hs

theorem Processed.onScreen {s t : State} {k : Key} (h : Processed s k t) (hs : s.console.OnScreen) :
    t.console.OnScreen := by
  have heach : k.process.Each fun s t => s.console.OnScreen → t.console.OnScreen := by
    cases k with
    | kbd c => exact (kbd_process_char_statements c).mono fun _ _ h => h.onScreen
    | ser c => exact (ser_process_char_statements c).mono fun _ _ h => h.onScreen
  exact heach.exec (fun _ h => h) (fun _ _ _ h h' hs => h' (h hs)) h hs

theorem ScreenAgrees.empty {s : State} (h : s.kbd.len = 0) : ScreenAgrees s := by
  refine ⟨by omega, ?_⟩
  unfold Console.before Line.chars
  rw [h]
  rfl

theorem ScreenAgrees.same {s t : State} (h : ScreenAgrees s) (hkbd : t.kbd = s.kbd)
    (hconsole : t.console = s.console) : ScreenAgrees t := by
  refine ⟨?_, ?_⟩
  · rw [hkbd, hconsole]
    exact h.fits
  · rw [hkbd, hconsole]
    exact h.cells

/-! ## The keyboard -/

theorem cString_echo {c : Byte} (hc : ¬ c < 32#8) : cString [c, 0#8] = [c] := by
  have hne : c ≠ 0#8 := by
    rintro rfl
    exact hc (by decide)
  simp [cString, hne]

theorem ScreenInv.append {s t : State} (h : ScreenInv s) {c : Byte} (hc : ¬ c < 32#8)
    (hlen : s.kbd.len < LINE_MAX) (hkbd : t.kbd = s.kbd.append c)
    (hconsole : t.console = console_write s.console [c, 0#8]) : ScreenAgrees t := by
  have hnl : c ≠ 0x0A#8 := by
    rintro rfl
    exact hc (by decide)
  have hmax : LINE_MAX = 120 := rfl
  obtain ⟨hfits, hcells⟩ := writeChar_before h.onScreen CONSOLE_WHITE CONSOLE_BLACK hnl h.fits
    (by omega)
  have hwrite : t.console = update_cursor_position (writeChar CONSOLE_WHITE CONSOLE_BLACK s.console c)
      (writeChar CONSOLE_WHITE CONSOLE_BLACK s.console c).current_position := by
    rw [hconsole, console_write, console_write_colored, cString_echo hc]
    rfl
  have hlen' : t.kbd.len = s.kbd.len + 1 := by rw [hkbd]; rfl
  refine ⟨?_, ?_⟩
  · rw [hlen', hwrite]
    exact hfits
  · rw [hlen', hkbd, Line.chars_append hlen, List.map_append, ← h.cells, hwrite]
    exact hcells

theorem ScreenInv.erase {s t : State} (h : ScreenInv s) (hlen : 0 < s.kbd.len)
    (hkbd : t.kbd = s.kbd.erase) (hconsole : t.console = console_backspace s.console) :
    ScreenAgrees t ∧ ∃ b, ErasesLast s t b := by
  obtain ⟨n, hn⟩ : ∃ n, s.kbd.len = n + 1 := ⟨s.kbd.len - 1, by omega⟩
  have hmax : s.kbd.len ≤ LINE_MAX := h.ok.len .vga
  have hfits := h.fits
  have hcells := h.cells
  rw [hn] at hfits hcells
  obtain ⟨hblank, hpos⟩ := console_backspace_spec h.onScreen (by omega)
  rw [console_backspace_before h.onScreen hfits] at hcells
  -- the line, too, is its last character behind the rest
  have hchars : s.kbd.chars ≠ [] := by
    rw [← List.length_pos_iff, Line.length_chars hmax]
    exact hlen
  have hline : s.kbd.chars = t.kbd.chars ++ [s.kbd.chars.getLast hchars] := by
    rw [hkbd, Line.chars_erase hmax, List.dropLast_append_getLast]
  rw [hline, List.map_append, List.map_singleton] at hcells
  obtain ⟨hbefore, hlast⟩ := List.append_inj' hcells rfl
  have hlen' : t.kbd.len = n := by
    rw [hkbd]
    show s.kbd.len - 1 = n
    omega
  refine ⟨⟨?_, ?_⟩, _, hline, List.singleton_inj.mp hlast, ?_, ?_⟩
  · rw [hlen', hconsole, hpos]
    omega
  · rw [hlen', hconsole]
    exact hbefore
  · rw [hconsole]
    exact hblank
  · rw [hconsole]
    exact hpos

theorem ScreenInv.kbd {s t : State} (h : ScreenInv s) {c : Byte} (hs : Processed s (.kbd c) t) :
    ScreenAgrees t := by
  obtain ⟨-, hedit, hecho⟩ := kbd_process_char_post h.ok hs
  have hkbd : t.kbd = kbdEdit s.kbd c := hedit.buf
  by_cases hnl : c = 0x0A#8
  · -- a new line starts empty, wherever the message left the cursor
    apply ScreenAgrees.empty
    rw [hkbd, kbdEdit, if_pos hnl]
    rfl
  have hconsole := hecho hnl
  unfold kbdEcho at hconsole
  rw [kbdEdit, if_neg hnl] at hkbd
  by_cases hbs : c = 0x08#8
  · rw [if_pos hbs] at hkbd hconsole
    by_cases hlen : s.kbd.len > 0
    · rw [if_pos hlen] at hkbd
      exact (h.erase hlen hkbd (hconsole.trans (if_pos hlen))).1
    · rw [if_neg hlen] at hkbd
      exact h.same hkbd (hconsole.trans (if_neg hlen))
  rw [if_neg hbs] at hkbd hconsole
  by_cases hctl : c < 32#8
  · rw [if_pos hctl] at hkbd hconsole
    exact h.same hkbd hconsole
  rw [if_neg hctl] at hkbd hconsole
  by_cases hfit : s.kbd.len < LINE_MAX
  · rw [if_pos hfit] at hkbd
    exact h.append hctl hfit hkbd (hconsole.trans (if_pos hfit))
  · rw [if_neg hfit] at hkbd
    exact h.same hkbd (hconsole.trans (if_neg hfit))

/-! ## The serial port -/

theorem ScreenInv.ser_console {s t : State} (h : ScreenInv s) {c : Byte}
    (hu : Undisturbed s (.ser c)) (hs : Processed s (.ser c) t) (hlen : 0 < s.kbd.len) :
    t.console = s.console := by
  obtain ⟨-, hsent, hecho⟩ := ser_process_char_post h.ok hs
  by_cases hc : EndsLine c
  · have hempty : (s.buf .serial).text = [] := by
      rcases hu hc with hkbd | hser
      · omega
      · exact Line.text_empty hser
    rw [hempty] at hsent
    exact (hsent hc (by decide)).console
  · exact hecho hc

theorem ScreenInv.ser {s t : State} (h : ScreenInv s) {c : Byte} (hu : Undisturbed s (.ser c))
    (hs : Processed s (.ser c) t) : ScreenAgrees t := by
  obtain ⟨hedit, -⟩ := ser_process_char_post h.ok hs
  have hkbd : t.kbd = s.kbd := hedit.other .vga (by decide)
  by_cases hlen : 0 < s.kbd.len
  · exact h.same hkbd (h.ser_console hu hs hlen)
  · apply ScreenAgrees.empty
    rw [hkbd]
    omega

theorem ScreenInv.step {s t : State} {k : Key} (h : ScreenInv s) (hs : UndisturbedStep s k t) :
    ScreenInv t := by
  obtain ⟨hu, hrun⟩ := hs
  cases k with
  | kbd c =>
    obtain ⟨-, hedit, -⟩ := kbd_process_char_post h.ok hrun
    exact ⟨h.kbd hrun, hedit.ok h.ok (kbdEdit_len (h.ok.len .vga) c), hrun.onScreen h.onScreen⟩
  | ser c =>
    obtain ⟨hedit, -⟩ := ser_process_char_post h.ok hrun
    exact ⟨h.ser hu hrun, hedit.ok h.ok (serEdit_len (h.ok.len .serial) c), hrun.onScreen h.onScreen⟩

theorem chat_init_screen (c : Console) (s : State) :
    ∃ t, chat_init.exec { s with console := console_clear c } = .ok ((), t) ∧ ScreenInv t ∧
      t.kbd.len = 0 ∧ t.ser.len = 0 ∧ t.console = console_clear c := by
  obtain ⟨⟨⟩, t, hrun, hok, hlen, -, hconsole, -⟩ := chat_init_spec { s with console := console_clear c }
  refine ⟨t, hrun, ⟨.empty (hlen .vga), hok, ?_⟩, hlen .vga, hlen .serial, hconsole⟩
  rw [hconsole]
  exact console_clear_onScreen c

/-- **Screen and line agree**, in every run in which no serial line with a text ends while the
keyboard's user has typed something. A backspace takes the cell of the character that it takes from
the line, and while something is typed nobody else writes. -/
theorem screen_agrees_undisturbed (c : Console) (s : State) :
    ∃ t, chat_init.exec { s with console := console_clear c } = .ok ((), t) ∧
      ∀ ls u, Run UndisturbedStep t ls u → ScreenAgrees u ∧
        (∀ v, Processed u (.kbd 0x08#8) v → 0 < u.kbd.len → ∃ b, ErasesLast u v b) ∧
        ∀ b v, UndisturbedStep u (.ser b) v → 0 < u.kbd.len → v.console = u.console := by
  obtain ⟨t, hinit, ht, -⟩ := chat_init_screen c s
  refine ⟨t, hinit, fun ls u hrun => ?_⟩
  have hu : ScreenInv u := hrun.state_inv ScreenInv ht fun _ _ _ h hs => h.step hs
  refine ⟨hu.toScreenAgrees, fun v hv hlen => ?_, fun b v hv hlen => hu.ser_console hv.1 hv.2 hlen⟩
  obtain ⟨-, hedit, hecho⟩ := kbd_process_char_post hu.ok hv
  have hkbd : v.kbd = u.kbd.erase := hedit.buf.trans (if_pos hlen)
  exact (hu.erase hlen hkbd ((hecho (by decide)).trans (if_pos hlen))).2

/-! ## A line that ends in the middle of another -/

theorem kbd_types {s : State} (hs : s.Ok) {c : Byte} (hc : ¬ c < 32#8) (hlen : s.kbd.len < LINE_MAX) :
    ∃ t, Processed s (.kbd c) t ∧ t.Ok ∧ t.kbd = s.kbd.append c ∧ t.ser = s.ser ∧
      t.console = console_write s.console [c, 0#8] := by
  have hnl : c ≠ 0x0A#8 := by
    rintro rfl
    exact hc (by decide)
  have hbs : c ≠ 0x08#8 := by
    rintro rfl
    exact hc (by decide)
  obtain ⟨⟨⟩, t, hrun, hedit, -, hecho⟩ := kbd_process_char_spec (c := c) hs fun h => hnl h.1
  have hok : t.Ok := hedit.ok hs (kbdEdit_len (hs.len .vga) c)
  refine ⟨t, hrun, hok, hedit.buf.trans ?_, hedit.other .serial (by decide), (hecho hnl).trans ?_⟩
  · exact kbdEdit_letter hlen ⟨hnl, hbs, hc⟩
  · exact (if_neg hbs).trans ((if_neg hc).trans (if_pos hlen))

theorem ser_types {s : State} (hs : s.Ok) {c : Byte} (hc : ¬ c < 32#8) (hdel : c ≠ 127#8)
    (hlen : s.ser.len < LINE_MAX) :
    ∃ t, Processed s (.ser c) t ∧ t.Ok ∧ t.ser = s.ser.append c ∧ t.kbd = s.kbd ∧
      t.console = s.console := by
  have hnl : ¬ EndsLine c := by
    rintro (rfl | rfl) <;> exact hc (by decide)
  have hbs : ¬ (c = 0x08#8 ∨ c = 127#8) := by
    rintro (rfl | h)
    · exact hc (by decide)
    · exact hdel h
  obtain ⟨⟨⟩, t, hrun, hedit, -, hconsole⟩ := ser_process_char_spec (c := c) hs fun h => hnl h.1
  have hok : t.Ok := hedit.ok hs (serEdit_len (hs.len .serial) c)
  refine ⟨t, hrun, hok, hedit.buf.trans ?_, hedit.other .vga (by decide), hconsole hnl⟩
  exact (if_neg hnl).trans ((if_neg hbs).trans ((if_neg hc).trans (if_pos hlen)))

/-- A serial line that is no command goes out, whatever the keyboard's user is doing. -/
theorem ser_submits {s : State} (hs : s.Ok) {c : Byte} (hc : EndsLine c) (hne : s.ser.text ≠ [])
    (hcommand : ¬ IsCommand s.ser.text) (hdeadlock : s.ser.text ≠ ascii "/deadlock") :
    ∃ t, Processed s (.ser c) t ∧ t.kbd = s.kbd ∧ t.console =
      console_write_colored s.console (message .serial s.ser.text) CONSOLE_LIGHT_GREEN CONSOLE_BLACK := by
  obtain ⟨⟨⟩, t, hrun, hedit, hsent, -⟩ := ser_process_char_spec (c := c) hs fun h => hdeadlock h.2
  exact ⟨t, hrun, hedit.other .vga (by decide), (hsent hc hcommand).console.trans (if_neg hne)⟩

theorem Line.text_first {l : Line} (h : l.len = 0) {c : Byte} (hc : c ≠ 0#8) : (l.append c).text = [c] := by
  have hchars := Line.chars_first h c
  have hlen : (l.append c).len = 1 := congrArg (· + 1) h
  rw [Line.text_eq_chars (by rw [hlen]; decide) (by rw [hchars]; simpa using hc.symm), hchars]

/-- The serial line `x` ends before the keyboard's user types `a`. -/
theorem screen_agrees_two_users :
    ∃ t u, chat_init.exec { powerOn with console := console_clear powerOn.console } = .ok ((), t) ∧
      Run UndisturbedStep t [.ser 0x78#8, .ser 0x0D#8, .kbd 0x61#8] u ∧ u.kbd.len = 1 ∧
      u.console.before 1 = [echoCell 0x61#8] := by
  obtain ⟨t, hinit, hall⟩ := screen_agrees_undisturbed powerOn.console powerOn
  obtain ⟨t', hinit', ht, hkbd, hser, -⟩ := chat_init_screen powerOn.console powerOn
  obtain ⟨-, rfl⟩ := Prod.mk.inj (Except.ok.inj (hinit'.symm.trans hinit))
  obtain ⟨x, hx, hxok, hxline, hxkbd, -⟩ := ser_types ht.ok (show ¬ 0x78#8 < 32#8 by decide)
    (by decide) (show t'.ser.len < LINE_MAX by rw [hser]; decide)
  have htext : x.ser.text = [0x78#8] := by rw [hxline, Line.text_first hser (by decide)]
  obtain ⟨m, hm, hmkbd, -⟩ := ser_submits hxok (show EndsLine 0x0D#8 by decide)
    (by rw [htext]; decide) (by rw [htext]; decide) (by rw [htext]; decide)
  have hempty : m.kbd.len = 0 := (congrArg Line.len (hmkbd.trans hxkbd)).trans hkbd
  have hline : Run UndisturbedStep t' [.ser 0x78#8, .ser 0x0D#8] m :=
    (Run.nil.snoc ⟨nofun, hx⟩).snoc ⟨fun _ => Or.inl ((congrArg Line.len hxkbd).trans hkbd), hm⟩
  have hmok := (hline.state_inv ScreenInv ht fun _ _ _ h hs => h.step hs).ok
  obtain ⟨u, hu, -, hukbd, -⟩ := kbd_types hmok (show ¬ 0x61#8 < 32#8 by decide)
    (show m.kbd.len < LINE_MAX by rw [hempty]; decide)
  have hrun := hline.snoc (show UndisturbedStep m (.kbd 0x61#8) u from ⟨trivial, hu⟩)
  have hlen : u.kbd.len = 1 := by
    rw [hukbd]
    exact congrArg (· + 1) hempty
  have hcells := (hall _ u hrun).1.cells
  rw [hlen, hukbd, Line.chars_first hempty] at hcells
  exact ⟨t', u, hinit, hrun, hlen, hcells⟩

/-- The keyboard's user types `a`, the serial line `x` ends, and the cell before the cursor is
blank. -/
theorem serial_line_disturbs :
    ∃ t u, chat_init.exec { powerOn with console := console_clear powerOn.console } = .ok ((), t) ∧
      Run Processed t [.kbd 0x61#8, .ser 0x78#8, .ser 0x0D#8] u ∧ u.kbd.chars = [0x61#8] ∧
      u.console.before 1 = [blank] ∧ ¬ ScreenAgrees u := by
  obtain ⟨t, hinit, ht, hkbd, hser, hclear⟩ := chat_init_screen powerOn.console powerOn
  obtain ⟨a, ha, haok, haline, haser, haconsole⟩ := kbd_types ht.ok (show ¬ 0x61#8 < 32#8 by decide)
    (show t.kbd.len < LINE_MAX by rw [hkbd]; decide)
  have hempty : a.ser.len = 0 := (congrArg Line.len haser).trans hser
  obtain ⟨x, hx, hxok, hxline, hxkbd, hxconsole⟩ := ser_types haok (show ¬ 0x78#8 < 32#8 by decide)
    (by decide) (show a.ser.len < LINE_MAX by rw [hempty]; decide)
  have htext : x.ser.text = [0x78#8] := by rw [hxline, Line.text_first hempty (by decide)]
  obtain ⟨u, hu, hukbd, huconsole⟩ := ser_submits hxok (show EndsLine 0x0D#8 by decide)
    (by rw [htext]; decide) (by rw [htext]; decide) (by rw [htext]; decide)
  have hline : u.kbd = t.kbd.append 0x61#8 := hukbd.trans (hxkbd.trans haline)
  have hchars : u.kbd.chars = [0x61#8] := by rw [hline, Line.chars_first hkbd]
  have hlen : u.kbd.len = 1 := by
    rw [hline]
    show t.kbd.len + 1 = 1
    rw [hkbd]
  -- what the screen shows, on the tape
  have hshows := console_write_colored_shows
    (console_write_colored_shows (console_clear_shows powerOn.console) [0x61#8, 0#8] CONSOLE_WHITE
      CONSOLE_BLACK) (message .serial [0x78#8]) CONSOLE_LIGHT_GREEN CONSOLE_BLACK
  rw [← console_write, ← hclear, ← haconsole, ← hxconsole, ← htext, ← huconsole, htext] at hshows
  obtain ⟨hcells, hpos⟩ := hshows.view
  have hcursor : (tapeWrite (tapeWrite (Tape.start blank) (cString [0x61#8, 0#8]) CONSOLE_WHITE
      CONSOLE_BLACK) (cString (message .serial [0x78#8])) CONSOLE_LIGHT_GREEN CONSOLE_BLACK).cursor =
      80 := by decide
  have hcell : (tapeWrite (tapeWrite (Tape.start blank) (cString [0x61#8, 0#8]) CONSOLE_WHITE
      CONSOLE_BLACK) (cString (message .serial [0x78#8])) CONSOLE_LIGHT_GREEN CONSOLE_BLACK).cells 79 =
      blank := by decide
  rw [hcursor] at hcells hpos
  have hscreen : u.console.before 1 = [blank] := by
    unfold Console.before
    rw [hpos]
    exact congrArg (fun x => [x]) ((hcells 79 (by decide)).trans hcell)
  refine ⟨t, u, hinit, .snoc (.snoc (.snoc .nil ha) hx) hu, hchars, hscreen, fun h => ?_⟩
  have hagrees := h.cells
  rw [hlen, hscreen, hchars] at hagrees
  exact absurd hagrees (by decide)

end MiniOS.Chat
