import MiniOS.Lib.Window
import MiniOS.Vga.Terminal

/-!
# Any calls to the console

Clears, writes and backspaces in any order. The console is a window on a tape that can
also be erased, so no cell from the cursor on has anything on it, and backspaces undo
typing up to the rows that scrolled away.
-/

open MiniOS.Lib

namespace MiniOS.Vga

inductive ConsoleCall
  | clear
  | write_colored (text : List Byte) (fg bg : Byte)
  | write (text : List Byte)
  | backspace

def ConsoleCall.run (c : Console) : ConsoleCall → Console
  | .clear => console_clear c
  | .write_colored text fg bg => console_write_colored c text fg bg
  | .write text => console_write c text
  | .backspace => console_backspace c

def runCalls (c : Console) (calls : List ConsoleCall) : Console := calls.foldl ConsoleCall.run c

theorem runCalls_inv {P : Console → Prop} (hstep : ∀ c call, P c → P (ConsoleCall.run c call))
    {c : Console} (h : P c) (calls : List ConsoleCall) : P (runCalls c calls) := by
  unfold runCalls
  induction calls generalizing c with
  | nil => exact h
  | cons call calls ih => exact ih (hstep c call h)

/-! ## A round, up to its scroll -/

/-- What a round of `console_write_colored` does before it looks at the capacity. -/
def advance (fg bg : Byte) (c : Console) (character : Byte) : Console :=
  if character = 0x0A#8 then
    let pos := c.current_position.toNat
    { c with current_position := BitVec.ofNat 16 (pos + (VGA_WIDTH - pos % VGA_WIDTH)) }
  else
    let c := set_character c (c.current_position.setWidth 32) character fg bg
    { c with current_position := c.current_position + 1#16 }

def Scrolls (fg bg : Byte) (c : Console) (character : Byte) : Prop :=
  (advance fg bg c character).current_position.toNat ≥ VGA_WIDTH * VGA_HEIGHT

instance (fg bg : Byte) (c : Console) (character : Byte) : Decidable (Scrolls fg bg c character) :=
  inferInstanceAs (Decidable (_ ≥ _))

/-- How often the console scrolls while it writes `text`. -/
def scrolls (fg bg : Byte) : Console → List Byte → Nat
  | _, [] => 0
  | c, character :: text =>
    (if Scrolls fg bg c character then 1 else 0) + scrolls fg bg (writeChar fg bg c character) text

theorem writeChar_advance (fg bg : Byte) (c : Console) (character : Byte) :
    writeChar fg bg c character =
      if Scrolls fg bg c character then scroll_console (advance fg bg c character)
      else advance fg bg c character := rfl

theorem index_toNat (pos : BitVec 16) : (pos.setWidth 32).toNat = pos.toNat := by
  rw [BitVec.toNat_setWidth]
  omega

/-- The position before the scroll, as a sum that does not wrap. -/
theorem advance_position {c : Console} (h : c.OnScreen) (fg bg character : Byte) :
    (advance fg bg c character).current_position.toNat =
      if character = 0x0A#8 then c.current_position.toNat + (80 - c.current_position.toNat % 80)
      else c.current_position.toNat + 1 := by
  have hlt : c.current_position.toNat < 2000 := h
  unfold advance
  by_cases hnl : character = 0x0A#8
  · simp only [if_pos hnl, VGA_WIDTH, BitVec.toNat_ofNat]
    omega
  · have hsame := (set_character_spec c (c.current_position.setWidth 32) character fg bg
      (by rw [index_toNat]; omega)).2
    simp only [if_neg hnl, hsame, BitVec.toNat_add, BitVec.toNat_ofNat]
    omega

theorem advance_le {c : Console} (h : c.OnScreen) (fg bg character : Byte) :
    c.current_position.toNat < (advance fg bg c character).current_position.toNat ∧
      (advance fg bg c character).current_position.toNat ≤ 2000 := by
  have hlt : c.current_position.toNat < 2000 := h
  rw [advance_position h]
  split
  · omega
  · omega

theorem advance_cells {c : Console} (h : c.OnScreen) (fg bg character : Byte) :
    cellAt (advance fg bg c character) =
      if character = 0x0A#8 then cellAt c
      else Function.update (cellAt c) c.current_position.toNat (character, colour fg bg) := by
  have hlt : c.current_position.toNat < 2000 := h
  unfold advance
  by_cases hnl : character = 0x0A#8
  · simp only [if_pos hnl, cellAt_position]
  · have hcells := (set_character_spec c (c.current_position.setWidth 32) character fg bg
      (by rw [index_toNat]; omega)).1
    simp only [if_neg hnl, cellAt_position, hcells, index_toNat]

theorem writeChar_onScreen (fg bg : Byte) (c : Console) (character : Byte) :
    (writeChar fg bg c character).OnScreen := scroll_onScreen _

/-! ## The window -/

def Console.Views (c : Console) (t : Tape Cell) (base : Nat) : Prop :=
  Window 80 25 blank t base (cellAt c) c.current_position.toNat

variable {c : Console} {t : Tape Cell} {base : Nat}

theorem Console.Views.onScreen (h : c.Views t base) : c.OnScreen := Window.fits h

theorem console_clear_views (c : Console) : (console_clear c).Views (Tape.start blank) 0 := by
  obtain ⟨hcells, hpos⟩ := console_clear_spec c
  unfold Console.Views
  rw [hpos]
  exact window_start hcells (by decide)

theorem scroll_views {pos : Nat} (hpos : c.current_position.toNat = pos)
    (h : (pos < 80 * 25 ∧ Window 80 25 blank t base (cellAt c) pos) ∨
      (pos = 80 * 25 ∧
        Window 80 25 blank t (base + 80) (scrollUp 80 25 blank (cellAt c)) (80 * (25 - 1)))) :
    (if c.current_position.toNat ≥ VGA_WIDTH * VGA_HEIGHT then scroll_console c else c).Views t
      (base + 80 * if c.current_position.toNat ≥ VGA_WIDTH * VGA_HEIGHT then 1 else 0) := by
  have hsize : VGA_WIDTH * VGA_HEIGHT = 2000 := rfl
  unfold Console.Views
  rcases h with ⟨hlt, hv⟩ | ⟨heq, hv⟩
  · rw [if_neg (by omega), if_neg (by omega), hpos]
    exact hv
  · obtain ⟨hcells, hscroll⟩ := scroll_console_spec c
    rw [if_pos (by omega), if_pos (by omega), hscroll]
    refine ⟨fun i hi => ?_, hv.cursor, by decide, hv.fresh, hv.row⟩
    rw [hcells i hi, ← hv.cells i hi]
    rfl

theorem writeChar_views (h : c.Views t base) (fg bg character : Byte) :
    (writeChar fg bg c character).Views (tapeChar fg bg t character)
      (base + 80 * if Scrolls fg bg c character then 1 else 0) := by
  have hpos := advance_position h.onScreen fg bg character
  have hcells := advance_cells h.onScreen fg bg character
  have hle := (advance_le h.onScreen fg bg character).2
  rw [writeChar_advance]
  unfold Scrolls tapeChar
  apply scroll_views rfl
  rw [hcells, hpos]
  rw [hpos] at hle
  by_cases hnl : character = 0x0A#8
  · simp only [if_pos hnl] at hle ⊢
    refine Window.newline (by decide) (by decide) h ?_ hle
    -- the base is the start of a row
    obtain ⟨q, hq⟩ := Window.row h
    have hcursor := Window.cursor h
    simp only [Tape.newline]
    omega
  · simp only [if_neg hnl]
    exact Window.put (by decide) (by decide) h _

theorem writeChars_views (h : c.Views t base) (fg bg : Byte) (text : List Byte) :
    (text.foldl (writeChar fg bg) c).Views (tapeWrite t text fg bg)
      (base + 80 * scrolls fg bg c text) := by
  unfold tapeWrite
  induction text generalizing c t base with
  | nil => exact h
  | cons character text ih =>
    have hrest := ih (writeChar_views h fg bg character)
    rwa [Nat.add_assoc, ← Nat.mul_add] at hrest

theorem console_write_colored_views (h : c.Views t base) (text : List Byte) (fg bg : Byte) :
    (console_write_colored c text fg bg).Views (tapeWrite t (cString text) fg bg)
      (base + 80 * scrolls fg bg c (cString text)) := writeChars_views h fg bg (cString text)

theorem console_backspace_views (h : c.Views t base) (h0 : 0 < c.current_position.toNat) :
    (console_backspace c).Views (t.erase blank) base := by
  obtain ⟨hcells, hpos⟩ := console_backspace_spec h.onScreen h0
  unfold Console.Views
  rw [hcells, hpos]
  exact Window.erase h h0

theorem console_backspace_start (h : c.current_position = 0#16) : console_backspace c = c := if_pos h

theorem run_views (h : ∃ t base, c.Views t base) (call : ConsoleCall) :
    ∃ t base, (call.run c).Views t base := by
  obtain ⟨t, base, h⟩ := h
  cases call with
  | clear => exact ⟨_, _, console_clear_views c⟩
  | write_colored text fg bg => exact ⟨_, _, console_write_colored_views h text fg bg⟩
  | write text => exact ⟨_, _, console_write_colored_views h text CONSOLE_WHITE CONSOLE_BLACK⟩
  | backspace =>
    by_cases h0 : c.current_position = 0#16
    · rw [ConsoleCall.run, console_backspace_start h0]
      exact ⟨t, base, h⟩
    · refine ⟨_, _, console_backspace_views h ?_⟩
      rw [Nat.pos_iff_ne_zero]
      exact fun hz => h0 (BitVec.eq_of_toNat_eq hz)

theorem runCalls_views (c : Console) (calls : List ConsoleCall) :
    ∃ t base, (runCalls (console_clear c) calls).Views t base :=
  runCalls_inv (P := fun c => ∃ t base, c.Views t base) (fun _ call h => run_views h call)
    ⟨_, _, console_clear_views c⟩ calls

/-- **Nothing behind the cursor.** After any calls, every cell from the cursor on is blank. -/
theorem cells_from_cursor_blank (c : Console) (calls : List ConsoleCall) :
    let c' := runCalls (console_clear c) calls
    ∀ i, c'.current_position.toNat ≤ i → i < 2000 → cellAt c' i = blank := by
  intro c' i hi hfit
  obtain ⟨t, base, h⟩ := runCalls_views c calls
  exact Window.blank_tail h hi hfit

/-- A newline jumps over the rest of the first row, and a backspace goes back into it. -/
theorem cells_from_cursor_blank_row :
    cellAt (runCalls (console_clear darkScreen) [.write (ascii "oi\n"), .backspace]) 79 = blank :=
  cells_from_cursor_blank darkScreen [.write (ascii "oi\n"), .backspace] 79 (by decide) (by decide)

/-! ## The blinking cursor and the bytes past the screen -/

/-- The blinking cursor of `d` is that of `c`, moved to where `d` is. -/
def Points (c d : Console) : Prop := d.crtc = (update_cursor_position c d.current_position).crtc

theorem update_cursor_crtc (c : Console) (pos : BitVec 16) :
    (update_cursor_position c pos).crtc =
      { index := VGA_CURSOR_LOW_BYTE
        regs := Function.update
          (Function.update c.crtc.regs VGA_CURSOR_HIGH_BYTE ((pos >>> 8 &&& 0x00FF#16).setWidth 8))
          VGA_CURSOR_LOW_BYTE ((pos &&& 0x00FF#16).setWidth 8) } := rfl

theorem update_cursor_twice {c d : Console} {p : BitVec 16}
    (h : d.crtc = (update_cursor_position c p).crtc) (q : BitVec 16) :
    (update_cursor_position d q).crtc = (update_cursor_position c q).crtc := by
  have hne : VGA_CURSOR_HIGH_BYTE ≠ VGA_CURSOR_LOW_BYTE := by decide
  simp only [update_cursor_crtc, h, Crtc.mk.injEq, true_and]
  rw [Function.update_comm hne.symm, Function.update_idem, Function.update_idem]

theorem Points.trans {d e : Console} (h : Points c d) (h' : Points d e) : Points c e :=
  Eq.trans h' (update_cursor_twice h _)

theorem points_update {d : Console} (h : d.crtc = c.crtc) :
    Points c (update_cursor_position d d.current_position) := by
  unfold Points update_cursor_position
  rw [h]

theorem foldl_crtc {β : Type} {f : Console → β → Console} (hf : ∀ c x, (f c x).crtc = c.crtc)
    (xs : List β) (c : Console) : (xs.foldl f c).crtc = c.crtc := by
  induction xs generalizing c with
  | nil => rfl
  | cons x xs ih => rw [List.foldl_cons, ih, hf]

theorem scroll_console_crtc (c : Console) : (scroll_console c).crtc = c.crtc := by
  unfold scroll_console
  rw [foldl_crtc fun _ _ => by rfl, foldl_crtc fun _ _ => by rfl]

theorem writeChar_crtc (fg bg : Byte) (c : Console) (character : Byte) :
    (writeChar fg bg c character).crtc = c.crtc := by
  have hadvance : (advance fg bg c character).crtc = c.crtc := by
    unfold advance
    split <;> rfl
  rw [writeChar_advance]
  split
  · rw [scroll_console_crtc, hadvance]
  · exact hadvance

theorem console_clear_points (c : Console) : Points c (console_clear c) := by
  unfold console_clear
  apply points_update
  rw [foldl_crtc fun _ _ => by rfl]

theorem console_write_colored_points (c : Console) (text : List Byte) (fg bg : Byte) :
    Points c (console_write_colored c text fg bg) :=
  points_update (foldl_crtc (writeChar_crtc fg bg) _ c)

theorem console_backspace_points (h : Points c c) : Points c (console_backspace c) := by
  by_cases h0 : c.current_position = 0#16
  · rwa [console_backspace_start h0]
  · have hrun : console_backspace c = update_cursor_position (set_character
        { c with current_position := c.current_position - 1#16 }
        ((c.current_position - 1#16).setWidth 32) (0x20#8) CONSOLE_WHITE CONSOLE_BLACK)
        (c.current_position - 1#16) := if_neg h0
    rw [hrun]
    exact points_update rfl

theorem run_points (h : Points c c) (call : ConsoleCall) : Points c (call.run c) := by
  cases call with
  | clear => exact console_clear_points c
  | write_colored text fg bg => exact console_write_colored_points c text fg bg
  | write text => exact console_write_colored_points c text _ _
  | backspace => exact console_backspace_points h

theorem Points.self {d : Console} (h : Points c d) : Points d d := by
  unfold Points
  rw [update_cursor_twice h]
  exact h

theorem runCalls_points (c : Console) (calls : List ConsoleCall) :
    Points (runCalls (console_clear c) calls) (runCalls (console_clear c) calls) :=
  runCalls_inv (P := fun c => Points c c) (fun _ call h => (run_points h call).self)
    (console_clear_points c).self calls

theorem scroll_console_beyond (c : Console) {i : Nat} (hi : 2000 ≤ i) :
    cellAt (scroll_console c) i = cellAt c i := by
  rw [cellAt_scroll_console, if_neg (by omega), if_neg (by omega)]

theorem writeChar_beyond (h : c.OnScreen) (fg bg character : Byte) {i : Nat} (hi : 2000 ≤ i) :
    cellAt (writeChar fg bg c character) i = cellAt c i := by
  have hlt : c.current_position.toNat < 2000 := h
  have hadvance : cellAt (advance fg bg c character) i = cellAt c i := by
    rw [advance_cells h]
    split
    · rfl
    · rw [Function.update_of_ne (by omega)]
  rw [writeChar_advance]
  split
  · rw [scroll_console_beyond _ hi, hadvance]
  · exact hadvance

theorem writeChars_beyond (h : c.OnScreen) (fg bg : Byte) (text : List Byte) {i : Nat}
    (hi : 2000 ≤ i) : cellAt (text.foldl (writeChar fg bg) c) i = cellAt c i := by
  induction text generalizing c with
  | nil => rfl
  | cons character text ih =>
    rw [List.foldl_cons, ih (writeChar_onScreen _ _ _ _), writeChar_beyond h fg bg character hi]

theorem console_backspace_beyond (h : c.OnScreen) (h0 : 0 < c.current_position.toNat) {i : Nat}
    (hi : 2000 ≤ i) : cellAt (console_backspace c) i = cellAt c i := by
  have hlt : c.current_position.toNat < 2000 := h
  rw [(console_backspace_spec h h0).1, Function.update_of_ne (by omega)]

theorem video_memory_eq {c d : Console} (h : cellAt c = cellAt d) : c.video_memory = d.video_memory := by
  funext j
  have hcell := congrFun h (j / 2)
  simp only [cellAt, Prod.mk.injEq] at hcell
  rcases Nat.mod_two_eq_zero_or_one j with heven | hodd
  · have hj : j / 2 * 2 = j := by omega
    rw [hj] at hcell
    exact hcell.1
  · have hj : j / 2 * 2 + 1 = j := by omega
    rw [hj] at hcell
    exact hcell.2

/-! ## Typing and taking back -/

theorem tapeWrite_puts (t : Tape Cell) {text : List Byte} (hnl : 0x0A#8 ∉ text) (fg bg : Byte) :
    tapeWrite t text fg bg = t.puts (text.map fun character => (character, colour fg bg)) := by
  unfold tapeWrite Tape.puts
  induction text generalizing t with
  | nil => rfl
  | cons character text ih =>
    rw [List.mem_cons, not_or] at hnl
    rw [List.foldl_cons, List.map_cons, List.foldl_cons, ih _ hnl.2, tapeChar, if_neg (Ne.symm hnl.1)]

theorem backspaces_spec (h : c.Views t base) (hp : Points c c) {k : Nat}
    (hk : k ≤ c.current_position.toNat) :
    (console_backspace^[k] c).Views ((Tape.erase blank)^[k] t) base ∧
      Points c (console_backspace^[k] c) ∧
      ∀ i, 2000 ≤ i → cellAt (console_backspace^[k] c) i = cellAt c i := by
  induction k generalizing c t with
  | zero => exact ⟨h, hp, fun _ _ => rfl⟩
  | succ k ih =>
    have h0 : 0 < c.current_position.toNat := by omega
    have hpoints := console_backspace_points hp
    obtain ⟨hviews, hrest, hsame⟩ := ih (console_backspace_views h h0) hpoints.self (by
      rw [(console_backspace_spec h.onScreen h0).2]
      omega)
    rw [Function.iterate_succ_apply, Function.iterate_succ_apply]
    refine ⟨hviews, hpoints.trans hrest, fun i hi => ?_⟩
    rw [hsame i hi, console_backspace_beyond h.onScreen h0 hi]

/-- After a scroll the cursor stays in the last row. -/
theorem writeChars_last_row (h : c.OnScreen) (fg bg : Byte) {text : List Byte}
    (hlast : 1920 ≤ c.current_position.toNat ∨ 0 < scrolls fg bg c text) :
    1920 ≤ (text.foldl (writeChar fg bg) c).current_position.toNat := by
  induction text generalizing c with
  | nil => exact hlast.resolve_right (Nat.lt_irrefl 0)
  | cons character text ih =>
    apply ih (writeChar_onScreen fg bg c character)
    have hle := (advance_le h fg bg character).1
    rw [writeChar_advance]
    by_cases hscroll : Scrolls fg bg c character
    · rw [if_pos hscroll, (scroll_console_spec _).2]
      exact Or.inl (le_refl 1920)
    · rw [scrolls, if_neg hscroll, Nat.zero_add, writeChar_advance, if_neg hscroll] at hlast
      rw [if_neg hscroll]
      exact hlast.imp_left fun hpos => by omega

/-- Typed and taken back, the text is gone from the tape, and only the window has moved. -/
theorem typed_back (h : c.Views t base) {text : List Byte} {fg bg : Byte}
    (hlen : text.length ≤ 1920) (hnl : 0x0A#8 ∉ text) (hnul : 0#8 ∉ text) :
    let c' := console_backspace^[text.length] (console_write_colored c text fg bg)
    c'.Views t (base + 80 * scrolls fg bg c text) ∧ Points c c' ∧
      ∀ i, 2000 ≤ i → cellAt c' i = cellAt c i := by
  have hpoints := console_write_colored_points c text fg bg
  have hviews := console_write_colored_views h text fg bg
  rw [cString_of_not_mem hnul, tapeWrite_puts t hnl] at hviews
  -- no more characters than cells before the cursor
  have hroom : text.length ≤ (console_write_colored c text fg bg).current_position.toNat := by
    by_cases hm : 0 < scrolls fg bg c text
    · rw [← cString_of_not_mem hnul] at hm
      exact hlen.trans (writeChars_last_row h.onScreen fg bg (Or.inr hm))
    · have hstart := Window.cursor h
      have hend := Window.cursor hviews
      rw [Tape.puts_cursor, List.length_map] at hend
      omega
  obtain ⟨hback, hpoints', hbeyond⟩ := backspaces_spec hviews hpoints.self hroom
  have hundo := Tape.erase_puts (Window.fresh h) (text.map fun character => (character, colour fg bg))
  rw [List.length_map] at hundo
  rw [hundo] at hback
  exact ⟨hback, hpoints.trans hpoints', fun i hi =>
    (hbeyond i hi).trans (writeChars_beyond h.onScreen fg bg (cString text) hi)⟩

theorem Points.console_eq {d : Console} (hp : Points c c) (h : Points c d) (hcells : cellAt d = cellAt c)
    (hpos : d.current_position = c.current_position) : d = c := by
  have hcrtc : d.crtc = c.crtc := by
    rw [h, hpos]
    exact hp.symm
  calc d = ⟨d.video_memory, d.current_position, d.crtc⟩ := rfl
    _ = ⟨c.video_memory, c.current_position, c.crtc⟩ := by rw [video_memory_eq hcells, hpos, hcrtc]
    _ = c := rfl

/-- **Backspaces undo typing.** However `c` came about: a text that fits 24 rows is written, scrolling
`m` rows on its way, and each of its characters is taken back. The screen is as it was, but `m` rows
up, and so is the cursor. If no row scrolled, the whole state is as it was. -/
theorem backspaces_undo_typing (c₀ : Console) (calls : List ConsoleCall) (text : List Byte) (fg bg : Byte)
    (hlen : text.length ≤ 1920) (hnl : 0x0A#8 ∉ text) (hnul : 0#8 ∉ text) :
    let c := runCalls (console_clear c₀) calls
    let m := scrolls fg bg c text
    let c' := console_backspace^[text.length] (console_write_colored c text fg bg)
    (∀ i < 2000, cellAt c' i = (scrollUp 80 25 blank)^[m] (cellAt c) i) ∧
      c'.current_position.toNat + 80 * m = c.current_position.toNat ∧ (m = 0 → c' = c) := by
  intro c m c'
  obtain ⟨t, base, h⟩ := runCalls_views c₀ calls
  have hp := runCalls_points c₀ calls
  obtain ⟨hback, hpoints, hbeyond⟩ : c'.Views t (base + 80 * m) ∧ Points c c' ∧
      ∀ i, 2000 ≤ i → cellAt c' i = cellAt c i := typed_back h hlen hnl hnul
  obtain ⟨hcells, hpos⟩ := Window.scrolled h hback
  refine ⟨hcells, hpos, fun hm => hp.console_eq hpoints ?_ ?_⟩
  · funext i
    by_cases hi : i < 2000
    · rw [hcells i hi, hm, Function.iterate_zero_apply]
    · exact hbeyond i (by omega)
  · apply BitVec.eq_of_toNat_eq
    rwa [hm, Nat.mul_zero, Nat.add_zero] at hpos

set_option maxRecDepth 20000 in
/-- From the start of the last row, a row and a character: one row scrolls. -/
theorem backspaces_undo_row :
    let c := runCalls (console_clear darkScreen) [.write (List.replicate 24 0x0A#8)]
    let c' := console_backspace^[81] (console_write_colored c (List.replicate 81 0x61#8) 10#8 0#8)
    (∀ i < 2000, cellAt c' i = scrollUp 80 25 blank (cellAt c) i) ∧
      c'.current_position.toNat + 80 = c.current_position.toNat := by
  obtain ⟨hcells, hpos, -⟩ := backspaces_undo_typing darkScreen [.write (List.replicate 24 0x0A#8)]
    (List.replicate 81 0x61#8) 10#8 0#8 (by decide) (by decide) (by decide)
  have hm : scrolls 10#8 0#8 (runCalls (console_clear darkScreen) [.write (List.replicate 24 0x0A#8)])
      (List.replicate 81 0x61#8) = 1 := by decide
  rw [hm] at hcells hpos
  exact ⟨hcells, hpos⟩

end MiniOS.Vga
