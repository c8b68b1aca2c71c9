import MiniOS.Lib.Prog
import MiniOS.Vga.Session

/-!
# The console with every access checked

The functions of `framebuffer.c` once more, as programs that stop when a byte outside the
4000 of the video memory is read or written, when `current_position` would wrap, and when
a round of `console_write_colored` starts or ends with the cursor off the screen.
-/

open MiniOS.Lib

namespace MiniOS.Vga

inductive Trap
  | outside (i : Nat)
  | wrap
  | offScreen
  deriving DecidableEq

abbrev Checked := Prog Trap Console

namespace Checked

def peek (i : Nat) : Checked Byte :=
  if i < 4000 then Prog.read fun c => c.video_memory i else .fault (.outside i)

def poke (i : Nat) (b : Byte) : Checked Unit :=
  if i < 4000 then Prog.modify fun c => { c with video_memory := Function.update c.video_memory i b }
  else .fault (.outside i)

def position : Checked Nat := Prog.read fun c => c.current_position.toNat

/-- `current_position = n`, for the int that the right side is. -/
def setPosition (n : Int) : Checked Unit :=
  if 0 ≤ n ∧ n < 2 ^ 16 then Prog.modify fun c => { c with current_position := BitVec.ofInt 16 n }
  else .fault .wrap

def onScreen : Checked Unit := do
  if (← position) < VGA_WIDTH * VGA_HEIGHT then pure () else .fault .offScreen

def moveCursor : Checked Unit := Prog.modify fun c => update_cursor_position c c.current_position

def set_character (idx : Word) (ch fg bg : Byte) : Checked Unit := do
  let vga_idx := idx * 2#32
  poke vga_idx.toNat ch
  poke (vga_idx + 1#32).toNat (colour fg bg)

def blankCell (i : Nat) : Checked Unit :=
  set_character (BitVec.ofNat 32 i) (0x20#8) CONSOLE_WHITE CONSOLE_BLACK

def console_clear : Checked Unit := do
  (List.range (VGA_WIDTH * VGA_HEIGHT)).forM blankCell
  setPosition 0
  moveCursor

def copyCell (i : Nat) : Checked Unit := do
  let next_row := i + VGA_WIDTH
  poke (i * 2) (← peek (next_row * 2))
  poke (i * 2 + 1) (← peek (next_row * 2 + 1))

def scroll_console : Checked Unit := do
  (List.range ((VGA_HEIGHT - 1) * VGA_WIDTH)).forM copyCell
  let last_row_start := (VGA_HEIGHT - 1) * VGA_WIDTH
  (List.range' last_row_start (VGA_HEIGHT * VGA_WIDTH - last_row_start)).forM blankCell
  setPosition last_row_start

def advance (fg bg character : Byte) : Checked Unit :=
  if character = 0x0A#8 then do
    let pos ← position
    setPosition (pos + (VGA_WIDTH - pos % VGA_WIDTH))
  else do
    set_character (BitVec.ofNat 32 (← position)) character fg bg
    setPosition ((← position) + 1)

def scrollIfFull : Checked Unit := do
  if (← position) ≥ VGA_WIDTH * VGA_HEIGHT then scroll_console else pure ()

def writeChar (fg bg character : Byte) : Checked Unit := do
  onScreen
  advance fg bg character
  scrollIfFull
  onScreen

def console_write_colored (text : List Byte) (fg bg : Byte) : Checked Unit := do
  (cString text).forM (writeChar fg bg)
  moveCursor

def console_backspace : Checked Unit := do
  let pos ← position
  if pos = 0 then
    return
  setPosition (pos - 1)
  set_character (BitVec.ofNat 32 (← position)) (0x20#8) CONSOLE_WHITE CONSOLE_BLACK
  moveCursor

def run : ConsoleCall → Checked Unit
  | .clear => console_clear
  | .write_colored text fg bg => console_write_colored text fg bg
  | .write text => console_write_colored text CONSOLE_WHITE CONSOLE_BLACK
  | .backspace => console_backspace

def runCalls (calls : List ConsoleCall) : Checked Unit := calls.forM run

/-! ## Nothing stops -/

variable {c : Console}

theorem exec_poke {i : Nat} (h : i < 4000) (b : Byte) :
    (poke i b).exec c = .ok ((), { c with video_memory := Function.update c.video_memory i b }) := by
  rw [poke, if_pos h]
  rfl

theorem exec_peek {i : Nat} (h : i < 4000) : (peek i).exec c = .ok (c.video_memory i, c) := by
  rw [peek, if_pos h]
  rfl

theorem exec_position : position.exec c = .ok (c.current_position.toNat, c) := rfl

theorem exec_setPosition {n : Int} {k : Nat} (hn : n = k) (h : k < 2 ^ 16) :
    (setPosition n).exec c = .ok ((), { c with current_position := BitVec.ofNat 16 k }) := by
  subst hn
  rw [setPosition, if_pos (by omega), BitVec.ofInt_natCast]
  rfl

theorem exec_onScreen (h : c.OnScreen) : onScreen.exec c = .ok ((), c) := by
  have hlt : c.current_position.toNat < VGA_WIDTH * VGA_HEIGHT := h
  rw [onScreen, Prog.exec_bind_ok exec_position, if_pos hlt]
  rfl

theorem exec_set_character (idx : Word) (h : idx.toNat < 2000) (ch fg bg : Byte) :
    (set_character idx ch fg bg).exec c = .ok ((), Vga.set_character c idx ch fg bg) := by
  have hlo : (idx * 2#32).toNat = idx.toNat * 2 := by
    rw [BitVec.toNat_mul, BitVec.toNat_ofNat]
    omega
  have hhi : (idx * 2#32 + 1#32).toNat = idx.toNat * 2 + 1 := by
    rw [BitVec.toNat_add, hlo, BitVec.toNat_ofNat]
    omega
  unfold set_character
  rw [Prog.exec_bind_ok (exec_poke (by omega) _), exec_poke (by omega)]
  rfl

theorem exec_blankCells (is : List Nat) (h : ∀ i ∈ is, i < 2000) :
    (is.forM blankCell).exec c = .ok ((), is.foldl
      (fun c i => Vga.set_character c (BitVec.ofNat 32 i) (0x20#8) CONSOLE_WHITE CONSOLE_BLACK) c) := by
  refine (Prog.exec_forM (I := fun _ => True) (fun i hi s _ => ⟨?_, trivial⟩) trivial).1
  have := h i hi
  apply exec_set_character
  rw [BitVec.toNat_ofNat]
  omega

theorem exec_copyCell {i : Nat} (h : i < 1920) :
    (copyCell i).exec c = .ok ((), Vga.copyCell c i) := by
  have hrow : i + VGA_WIDTH < 2000 := by
    show i + 80 < 2000
    omega
  unfold copyCell
  rw [Prog.exec_bind_ok (exec_peek (by omega)), Prog.exec_bind_ok (exec_poke (by omega) _),
    Prog.exec_bind_ok (exec_peek (by omega)), exec_poke (by omega)]
  rfl

theorem exec_copyCells : ((List.range 1920).forM copyCell).exec c =
    .ok ((), (List.range 1920).foldl Vga.copyCell c) :=
  (Prog.exec_forM (I := fun _ => True)
    (fun _ hi _ _ => ⟨exec_copyCell (List.mem_range.mp hi), trivial⟩) trivial).1

theorem exec_console_clear : console_clear.exec c = .ok ((), Vga.console_clear c) := by
  have hcells := exec_blankCells (c := c) (List.range (VGA_WIDTH * VGA_HEIGHT))
    fun i hi => List.mem_range.mp hi
  unfold console_clear
  rw [Prog.exec_bind_ok hcells, Prog.exec_bind_ok (exec_setPosition (n := 0) (k := 0) rfl (by decide))]
  rfl

theorem exec_scroll_console : scroll_console.exec c = .ok ((), Vga.scroll_console c) := by
  have hblank := exec_blankCells (c := (List.range 1920).foldl Vga.copyCell c)
    (List.range' 1920 80) fun i hi => by
      rw [List.mem_range'_1] at hi
      omega
  unfold scroll_console
  refine (Prog.exec_bind_ok exec_copyCells).trans ((Prog.exec_bind_ok hblank).trans ?_)
  exact exec_setPosition (k := 1920) rfl (by decide)

theorem exec_advance (h : c.OnScreen) (fg bg character : Byte) :
    (advance fg bg character).exec c = .ok ((), Vga.advance fg bg c character) := by
  have hlt : c.current_position.toNat < 2000 := h
  unfold advance Vga.advance
  by_cases hnl : character = 0x0A#8
  · rw [if_pos hnl, if_pos hnl, Prog.exec_bind_ok exec_position]
    apply exec_setPosition
    · simp only [VGA_WIDTH]
      omega
    · simp only [VGA_WIDTH]
      omega
  · have hidx : BitVec.ofNat 32 c.current_position.toNat = c.current_position.setWidth 32 :=
      BitVec.eq_of_toNat_eq (by rw [index_toNat, BitVec.toNat_ofNat]; omega)
    have hset := exec_set_character (c := c) (c.current_position.setWidth 32)
      (by rw [index_toNat]; exact hlt) character fg bg
    have hsum : BitVec.ofNat 16 (c.current_position.toNat + 1) = c.current_position + 1#16 :=
      BitVec.eq_of_toNat_eq (by rw [BitVec.toNat_add, BitVec.toNat_ofNat, BitVec.toNat_ofNat])
    rw [if_neg hnl, if_neg hnl, Prog.exec_bind_ok exec_position, hidx, Prog.exec_bind_ok hset,
      Prog.exec_bind_ok exec_position]
    refine (exec_setPosition (k := c.current_position.toNat + 1) rfl (by omega)).trans ?_
    rw [hsum]
    rfl

theorem exec_writeChar (h : c.OnScreen) (fg bg character : Byte) :
    (writeChar fg bg character).exec c = .ok ((), Vga.writeChar fg bg c character) ∧
      (Vga.writeChar fg bg c character).OnScreen := by
  have hafter := writeChar_onScreen fg bg c character
  refine ⟨?_, hafter⟩
  have hscroll : scrollIfFull.exec (Vga.advance fg bg c character) =
      .ok ((), Vga.writeChar fg bg c character) := by
    rw [writeChar_advance, scrollIfFull, Prog.exec_bind_ok exec_position]
    by_cases hfull : (Vga.advance fg bg c character).current_position.toNat ≥ VGA_WIDTH * VGA_HEIGHT
    · rw [if_pos hfull, exec_scroll_console, if_pos (show Scrolls fg bg c character from hfull)]
    · rw [if_neg hfull, if_neg (show ¬ Scrolls fg bg c character from hfull)]
      rfl
  unfold writeChar
  rw [Prog.exec_bind_ok (exec_onScreen h), Prog.exec_bind_ok (exec_advance h fg bg character),
    Prog.exec_bind_ok hscroll, exec_onScreen hafter]

theorem exec_console_write_colored (h : c.OnScreen) (text : List Byte) (fg bg : Byte) :
    (console_write_colored text fg bg).exec c = .ok ((), Vga.console_write_colored c text fg bg) := by
  have hchars : ((cString text).forM (writeChar fg bg)).exec c =
      .ok ((), (cString text).foldl (Vga.writeChar fg bg) c) :=
    (Prog.exec_forM (fun character _ s hs => exec_writeChar (c := s) hs fg bg character) h).1
  unfold console_write_colored
  rw [Prog.exec_bind_ok hchars]
  rfl

theorem exec_console_backspace (h : c.OnScreen) :
    console_backspace.exec c = .ok ((), Vga.console_backspace c) := by
  have hlt : c.current_position.toNat < 2000 := h
  unfold console_backspace
  rw [Prog.exec_bind_ok exec_position]
  by_cases h0 : c.current_position.toNat = 0
  · rw [if_pos h0, console_backspace_start (BitVec.eq_of_toNat_eq h0)]
    rfl
  · have hidx : BitVec.ofNat 32 (c.current_position - 1#16).toNat = (c.current_position - 1#16).setWidth 32 :=
      BitVec.eq_of_toNat_eq (by rw [index_toNat, BitVec.toNat_ofNat]; omega)
    have hpos : (c.current_position - 1#16).toNat = c.current_position.toNat - 1 := by
      rw [BitVec.toNat_sub, BitVec.toNat_ofNat]
      omega
    have hback : BitVec.ofNat 16 (c.current_position.toNat - 1) = c.current_position - 1#16 := by
      rw [← hpos, BitVec.ofNat_toNat, BitVec.setWidth_eq]
    have hset := exec_set_character (c := { c with current_position := c.current_position - 1#16 })
      ((c.current_position - 1#16).setWidth 32) (by rw [index_toNat, hpos]; omega) (0x20#8)
      CONSOLE_WHITE CONSOLE_BLACK
    have hmove := exec_setPosition (c := c) (n := c.current_position.toNat - 1)
      (k := c.current_position.toNat - 1) (by omega) (by omega)
    rw [hback] at hmove
    have hne : c.current_position ≠ 0#16 := fun heq => h0 (by rw [heq]; rfl)
    rw [if_neg h0, Prog.exec_bind_ok hmove, Prog.exec_bind_ok exec_position, hidx,
      Prog.exec_bind_ok hset, Vga.console_backspace, if_neg hne]
    rfl

theorem exec_run (h : c.OnScreen) (call : ConsoleCall) :
    (run call).exec c = .ok ((), call.run c) ∧ (call.run c).OnScreen := by
  cases call with
  | clear => exact ⟨exec_console_clear, console_clear_onScreen c⟩
  | write_colored text fg bg =>
    exact ⟨exec_console_write_colored h text fg bg, console_write_colored_onScreen h text fg bg⟩
  | write text =>
    exact ⟨exec_console_write_colored h text _ _, console_write_colored_onScreen h text _ _⟩
  | backspace => exact ⟨exec_console_backspace h, console_backspace_onScreen h⟩

/-- **Inside the video memory.** From `current_position = 0` on, whatever the video memory holds, no
sequence of calls touches a byte outside the 4000, wraps the position or is off the screen before or
after a character. The checked calls do what the calls do. -/
theorem calls_stay_inside (video_memory : Nat → Byte) (crtc : Crtc) (calls : List ConsoleCall) :
    let c : Console := ⟨video_memory, 0#16, crtc⟩
    (runCalls calls).exec c = .ok ((), Vga.runCalls c calls) ∧ (Vga.runCalls c calls).OnScreen :=
  Prog.exec_forM (fun call _ _ hs => exec_run hs call) (show (0#16).toNat < 2000 by decide)

end Checked

end MiniOS.Vga
