import MiniOS.Lib.Tape
import MiniOS.Vga.Framebuffer

/-!
# The console is a terminal

The reference terminal writes on a tape that never ends. The console shows its last
25 rows, through any sequence of writes.
-/

open MiniOS.Lib

namespace MiniOS.Vga

def tapeChar (fg bg : Byte) (t : Tape Cell) (character : Byte) : Tape Cell :=
  if character = 0x0A#8 then t.newline 80 else t.put (character, colour fg bg)

def tapeWrite (t : Tape Cell) (text : List Byte) (fg bg : Byte) : Tape Cell :=
  text.foldl (tapeChar fg bg) t

def Console.Shows (c : Console) (t : Tape Cell) : Prop :=
  Lib.Shows 80 25 blank t (cellAt c) c.current_position.toNat

theorem Console.Shows.position_lt {c : Console} {t : Tape Cell} (h : c.Shows t) :
    c.current_position.toNat < 2000 := Lib.Shows.pos_lt (by decide) h

theorem console_clear_shows (c : Console) : (console_clear c).Shows (Tape.start blank) := by
  obtain ⟨hcells, hpos⟩ := console_clear_spec c
  unfold Console.Shows
  rw [hpos]
  exact shows_start hcells (by decide)

theorem update_cursor_shows {c : Console} {t : Tape Cell} (h : c.Shows t) (pos : BitVec 16) :
    (update_cursor_position c pos).Shows t := h

theorem scroll_shows {c : Console} {t : Tape Cell} (pos : Nat)
    (hpos : c.current_position.toNat = pos)
    (h : (pos < 80 * 25 ∧ Lib.Shows 80 25 blank t (cellAt c) pos) ∨
      (pos = 80 * 25 ∧ Lib.Shows 80 25 blank t (scrollUp 80 25 blank (cellAt c)) (80 * (25 - 1)))) :
    (if c.current_position.toNat ≥ VGA_WIDTH * VGA_HEIGHT then scroll_console c else c).Shows t := by
  have hsize : VGA_WIDTH * VGA_HEIGHT = 2000 := rfl
  unfold Console.Shows
  rcases h with ⟨hlt, hs⟩ | ⟨heq, hs⟩
  · rw [if_neg (by omega), hpos]
    exact hs
  · obtain ⟨hcells, hscroll⟩ := scroll_console_spec c
    rw [if_pos (by omega), hscroll]
    refine ⟨fun i hi => ?_, hs.pos, hs.blank⟩
    rw [hcells i hi, ← hs.cells i hi]
    rfl

theorem writeChar_shows {c : Console} {t : Tape Cell} (h : c.Shows t) (fg bg character : Byte) :
    (writeChar fg bg c character).Shows (tapeChar fg bg t character) := by
  have hlt := h.position_lt
  unfold writeChar tapeChar
  by_cases hnl : character = 0x0A#8
  · rw [if_pos hnl, if_pos hnl]
    refine scroll_shows _ rfl (Lib.Shows.newline (by decide) (by decide) h ?_)
    -- the base is the start of a row
    have hpos : t.cursor = 80 * t.top 80 25 + c.current_position.toNat := Lib.Shows.pos h
    simp only [Tape.newline, Tape.base, VGA_WIDTH, BitVec.toNat_ofNat]
    omega
  · rw [if_neg hnl, if_neg hnl]
    have hidx : (c.current_position.setWidth 32).toNat = c.current_position.toNat := by
      rw [BitVec.toNat_setWidth]
      omega
    obtain ⟨hcells, hsame⟩ := set_character_spec c (c.current_position.setWidth 32) character fg bg
      (by omega)
    apply scroll_shows (c.current_position.toNat + 1)
    · simp only [hsame, BitVec.toNat_add, BitVec.toNat_ofNat]
      omega
    · rw [cellAt_position, hcells, hidx]
      exact Lib.Shows.put (by decide) (by decide) h _

theorem writeChars_shows {c : Console} {t : Tape Cell} (h : c.Shows t) (text : List Byte)
    (fg bg : Byte) : (text.foldl (writeChar fg bg) c).Shows (tapeWrite t text fg bg) := by
  unfold tapeWrite
  induction text generalizing c t with
  | nil => exact h
  | cons character text ih => exact ih (writeChar_shows h fg bg character)

theorem console_write_colored_shows {c : Console} {t : Tape Cell} (h : c.Shows t) (text : List Byte)
    (fg bg : Byte) :
    (console_write_colored c text fg bg).Shows (tapeWrite t (cString text) fg bg) :=
  update_cursor_shows (writeChars_shows h (cString text) fg bg) _

theorem Console.Shows.view {c : Console} {t : Tape Cell} (h : c.Shows t) :
    (∀ i < 2000, cellAt c i = t.cells (80 * (t.cursor / 80 - 24) + i)) ∧
      c.current_position.toNat = t.cursor - 80 * (t.cursor / 80 - 24) := by
  have htop : t.base 80 25 = 80 * (t.cursor / 80 - 24) := by
    simp only [Tape.base, Tape.top]
    omega
  have hpos := Lib.Shows.pos h
  rw [← htop]
  exact ⟨Lib.Shows.cells h, by omega⟩

/-! ## Any writes -/

structure Write where
  text : List Byte
  fg : Byte
  bg : Byte

def writeAll (c : Console) (writes : List Write) : Console :=
  writes.foldl (fun c x => console_write_colored c x.text x.fg x.bg) c

def tapeAll (t : Tape Cell) (writes : List Write) : Tape Cell :=
  writes.foldl (fun t x => tapeWrite t x.text x.fg x.bg) t

theorem writeAll_shows {c : Console} {t : Tape Cell} (h : c.Shows t) (writes : List Write)
    (hnul : ∀ x ∈ writes, 0#8 ∉ x.text) : (writeAll c writes).Shows (tapeAll t writes) := by
  unfold writeAll tapeAll
  induction writes generalizing c t with
  | nil => exact h
  | cons x writes ih =>
    have hx := console_write_colored_shows h x.text x.fg x.bg
    rw [cString_of_not_mem (hnul x List.mem_cons_self)] at hx
    exact ih hx fun y hy => hnul y (List.mem_cons_of_mem _ hy)

/-- **The last 25 rows.** After any writes, cell `i` of the video memory is cell `b + i` of the
tape, and the cursor is the tape's less `b`. -/
theorem console_shows_tape (c : Console) (writes : List Write) (hnul : ∀ x ∈ writes, 0#8 ∉ x.text) :
    let c' := writeAll (console_clear c) writes
    let t := tapeAll (Tape.start blank) writes
    let b := 80 * (t.cursor / 80 - 24)
    (∀ i < 2000, cellAt c' i = t.cells (b + i)) ∧ c'.current_position.toNat = t.cursor - b :=
  (writeAll_shows (console_clear_shows c) writes hnul).view

def darkScreen : Console := ⟨fun _ => 0#8, 0#16, ⟨0#8, fun _ => 0#8⟩⟩

/-- A line and a character: the character stands at the start of the second row. -/
theorem console_shows_two_rows :
    (writeAll (console_clear darkScreen) [⟨ascii "oi\n", 15#8, 0#8⟩, ⟨ascii "x", 10#8, 0#8⟩]).current_position.toNat = 81 ∧
      cellAt (writeAll (console_clear darkScreen)
        [⟨ascii "oi\n", 15#8, 0#8⟩, ⟨ascii "x", 10#8, 0#8⟩]) 80 = (0x78#8, 0x0A#8) := by
  obtain ⟨hcells, hpos⟩ := console_shows_tape darkScreen
    [⟨ascii "oi\n", 15#8, 0#8⟩, ⟨ascii "x", 10#8, 0#8⟩] (by decide)
  have hcursor : (tapeAll (Tape.start blank)
    [⟨ascii "oi\n", 15#8, 0#8⟩, ⟨ascii "x", 10#8, 0#8⟩]).cursor = 81 := by decide
  have hcell : (tapeAll (Tape.start blank)
    [⟨ascii "oi\n", 15#8, 0#8⟩, ⟨ascii "x", 10#8, 0#8⟩]).cells 80 = (0x78#8, 0x0A#8) := by decide
  rw [hcursor] at hcells hpos
  exact ⟨hpos, (hcells 80 (by decide)).trans hcell⟩

end MiniOS.Vga
