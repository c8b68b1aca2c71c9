import MiniOS.Basic
import MiniOS.Lib.Bits

/-!
# The VGA console

`framebuffer.c`: 2000 cells of two bytes, a 16-bit cursor, and the two ports of the
blinking cursor. `cellAt` reads the bytes back as cells, and each function has a spec
that says what it does to cells and cursor.
-/

namespace MiniOS.Vga

abbrev VGA_WIDTH : Nat := 80

abbrev VGA_HEIGHT : Nat := 25

abbrev VGA_CMD_PORT : Nat := 0x3D4

abbrev VGA_DATA_PORT : Nat := 0x3D5

abbrev VGA_CURSOR_HIGH_BYTE : Byte := 14#8

abbrev VGA_CURSOR_LOW_BYTE : Byte := 15#8

abbrev CONSOLE_BLACK : Byte := 0#8

abbrev CONSOLE_MAGENTA : Byte := 5#8

abbrev CONSOLE_LIGHT_GREY : Byte := 7#8

abbrev CONSOLE_LIGHT_GREEN : Byte := 10#8

abbrev CONSOLE_LIGHT_CYAN : Byte := 11#8

abbrev CONSOLE_LIGHT_RED : Byte := 12#8

abbrev CONSOLE_LIGHT_MAGENTA : Byte := 13#8

abbrev CONSOLE_LIGHT_BROWN : Byte := 14#8

abbrev CONSOLE_WHITE : Byte := 15#8

/-- The registers behind the two ports: a command selects one, a datum goes to it. -/
structure Crtc where
  index : Byte
  regs : Byte → Byte

def Crtc.outb (crtc : Crtc) (port : Nat) (data : Byte) : Crtc :=
  if port = VGA_CMD_PORT then { crtc with index := data }
  else if port = VGA_DATA_PORT then { crtc with regs := Function.update crtc.regs crtc.index data }
  else crtc

def Crtc.cursor (crtc : Crtc) : BitVec 16 :=
  crtc.regs VGA_CURSOR_HIGH_BYTE ++ crtc.regs VGA_CURSOR_LOW_BYTE

/-- `video_memory` holds the bytes from `VGA_ADDRESS` up. -/
structure Console where
  video_memory : Nat → Byte
  current_position : BitVec 16
  crtc : Crtc

def update_cursor_position (c : Console) (pos : BitVec 16) : Console :=
  let crtc := c.crtc.outb VGA_CMD_PORT VGA_CURSOR_HIGH_BYTE
  let crtc := crtc.outb VGA_DATA_PORT ((pos >>> 8 &&& 0x00FF#16).setWidth 8)
  let crtc := crtc.outb VGA_CMD_PORT VGA_CURSOR_LOW_BYTE
  { c with crtc := crtc.outb VGA_DATA_PORT ((pos &&& 0x00FF#16).setWidth 8) }

def colour (fg bg : Byte) : Byte := (bg &&& 0x0F#8) <<< 4 ||| (fg &&& 0x0F#8)

def set_character (c : Console) (idx : Word) (ch fg bg : Byte) : Console :=
  let vga_idx := idx * 2#32
  let video_memory := Function.update c.video_memory vga_idx.toNat ch
  { c with video_memory := Function.update video_memory (vga_idx + 1#32).toNat (colour fg bg) }

def console_clear (c : Console) : Console :=
  let c := (List.range (VGA_WIDTH * VGA_HEIGHT)).foldl
    (fun c i => set_character c (BitVec.ofNat 32 i) (0x20#8) CONSOLE_WHITE CONSOLE_BLACK) c
  let c := { c with current_position := 0#16 }
  update_cursor_position c c.current_position

def copyCell (c : Console) (i : Nat) : Console :=
  let next_row := i + VGA_WIDTH
  let video_memory := Function.update c.video_memory (i * 2) (c.video_memory (next_row * 2))
  { c with video_memory := Function.update video_memory (i * 2 + 1) (video_memory (next_row * 2 + 1)) }

def scroll_console (c : Console) : Console :=
  let c := (List.range ((VGA_HEIGHT - 1) * VGA_WIDTH)).foldl copyCell c
  let last_row_start := (VGA_HEIGHT - 1) * VGA_WIDTH
  let c := (List.range' last_row_start (VGA_HEIGHT * VGA_WIDTH - last_row_start)).foldl
    (fun c i => set_character c (BitVec.ofNat 32 i) (0x20#8) CONSOLE_WHITE CONSOLE_BLACK) c
  { c with current_position := BitVec.ofNat 16 last_row_start }

/-- One round of `console_write_colored`. The sums are of ints, cut down to 16 bits when stored. -/
def writeChar (fg bg : Byte) (c : Console) (character : Byte) : Console :=
  let c :=
    if character = 0x0A#8 then
      let pos := c.current_position.toNat
      { c with current_position := BitVec.ofNat 16 (pos + (VGA_WIDTH - pos % VGA_WIDTH)) }
    else
      let c := set_character c (c.current_position.setWidth 32) character fg bg
      { c with current_position := c.current_position + 1#16 }
  if c.current_position.toNat ≥ VGA_WIDTH * VGA_HEIGHT then scroll_console c else c

def console_write_colored (c : Console) (text : List Byte) (fg bg : Byte) : Console :=
  let c := (cString text).foldl (writeChar fg bg) c
  update_cursor_position c c.current_position

def console_write (c : Console) (text : List Byte) : Console :=
  console_write_colored c text CONSOLE_WHITE CONSOLE_BLACK

def console_backspace (c : Console) : Console :=
  if c.current_position = 0#16 then c
  else
    let c := { c with current_position := c.current_position - 1#16 }
    let c := set_character c (c.current_position.setWidth 32) (0x20#8) CONSOLE_WHITE CONSOLE_BLACK
    update_cursor_position c c.current_position

/-! ## Cells -/

abbrev Cell := Byte × Byte

def blank : Cell := (0x20#8, colour CONSOLE_WHITE CONSOLE_BLACK)

def cellAt (c : Console) (i : Nat) : Cell := (c.video_memory (i * 2), c.video_memory (i * 2 + 1))

@[simp] theorem update_cursor_position_position (c : Console) (pos : BitVec 16) :
    (update_cursor_position c pos).current_position = c.current_position := rfl

@[simp] theorem cellAt_update_cursor (c : Console) (pos : BitVec 16) :
    cellAt (update_cursor_position c pos) = cellAt c := rfl

@[simp] theorem cellAt_position (c : Console) (pos : BitVec 16) :
    cellAt { c with current_position := pos } = cellAt c := rfl

theorem low_byte (x : BitVec 16) : (x &&& 0x00FF#16).setWidth 8 = x.setWidth 8 := Lib.setWidth_mask rfl

theorem update_cursor_position_spec (c : Console) (pos : BitVec 16) :
    (update_cursor_position c pos).crtc.cursor = pos := by
  have hhigh : (update_cursor_position c pos).crtc.regs VGA_CURSOR_HIGH_BYTE =
      (pos >>> 8 &&& 0x00FF#16).setWidth 8 := rfl
  have hlow : (update_cursor_position c pos).crtc.regs VGA_CURSOR_LOW_BYTE =
      (pos &&& 0x00FF#16).setWidth 8 := rfl
  unfold Crtc.cursor
  rw [hhigh, hlow, low_byte, low_byte]
  exact (Lib.shift_append pos 8 8).trans (BitVec.setWidth_eq pos)

theorem set_character_spec (c : Console) (idx : Word) (ch fg bg : Byte) (h : idx.toNat < 2 ^ 31) :
    cellAt (set_character c idx ch fg bg) = Function.update (cellAt c) idx.toNat (ch, colour fg bg) ∧
      (set_character c idx ch fg bg).current_position = c.current_position := by
  have hlo : (idx * 2#32).toNat = idx.toNat * 2 := by
    rw [BitVec.toNat_mul, BitVec.toNat_ofNat]
    omega
  have hhi : (idx * 2#32 + 1#32).toNat = idx.toNat * 2 + 1 := by
    rw [BitVec.toNat_add, hlo, BitVec.toNat_ofNat]
    omega
  refine ⟨?_, rfl⟩
  funext i
  unfold cellAt set_character
  simp only [hlo, hhi, Function.update_apply]
  by_cases hi : i = idx.toNat
  · simp [hi]
  · have h1 : i * 2 ≠ idx.toNat * 2 + 1 := by omega
    have h2 : i * 2 ≠ idx.toNat * 2 := by omega
    have h3 : i * 2 + 1 ≠ idx.toNat * 2 := by omega
    simp [hi, h1, h2, h3]

theorem blankCells_spec (c : Console) (a n : Nat) (h : a + n ≤ 2 ^ 31) :
    let c' := (List.range' a n).foldl
      (fun c i => set_character c (BitVec.ofNat 32 i) (0x20#8) CONSOLE_WHITE CONSOLE_BLACK) c
    (∀ i, cellAt c' i = if a ≤ i ∧ i < a + n then blank else cellAt c i) ∧
      c'.current_position = c.current_position := by
  induction n generalizing c a with
  | zero =>
    refine ⟨fun i => ?_, rfl⟩
    rw [if_neg (by omega)]
    rfl
  | succ n ih =>
    have hidx : (BitVec.ofNat 32 a).toNat = a := by rw [BitVec.toNat_ofNat]; omega
    obtain ⟨hcell, hpos⟩ := set_character_spec c (BitVec.ofNat 32 a) (0x20#8) CONSOLE_WHITE CONSOLE_BLACK
      (by omega)
    obtain ⟨ihcell, ihpos⟩ := ih (set_character c (BitVec.ofNat 32 a) (0x20#8) CONSOLE_WHITE CONSOLE_BLACK)
      (a + 1) (by omega)
    rw [List.range'_succ, List.foldl_cons]
    refine ⟨fun i => ?_, ihpos.trans hpos⟩
    rw [ihcell, hcell, hidx]
    by_cases hi : i = a
    · subst hi
      simp [blank]
    · rw [Function.update_of_ne hi]
      apply if_congr _ rfl rfl
      omega

theorem console_clear_spec (c : Console) :
    (∀ i < 2000, cellAt (console_clear c) i = blank) ∧ (console_clear c).current_position = 0#16 := by
  obtain ⟨hcell, -⟩ := blankCells_spec c 0 2000 (by omega)
  refine ⟨fun i hi => ?_, rfl⟩
  unfold console_clear
  rw [List.range_eq_range', cellAt_update_cursor, cellAt_position]
  exact (hcell i).trans (if_pos (by omega))

theorem copyCell_spec (c : Console) (i : Nat) :
    cellAt (copyCell c i) = Function.update (cellAt c) i (cellAt c (i + 80)) := by
  funext j
  unfold cellAt copyCell
  by_cases hj : j = i
  · subst hj
    have h1 : (j + 80) * 2 + 1 ≠ j * 2 := by omega
    simp [h1]
  · have h1 : j * 2 ≠ i * 2 + 1 := by omega
    have h2 : j * 2 ≠ i * 2 := by omega
    have h3 : j * 2 + 1 ≠ i * 2 := by omega
    simp [Function.update_apply, hj, h1, h2, h3]

/-- After `n` rounds the first `n` cells hold what was a row below them. A round reads a cell that
no round has written. -/
theorem copyCells_spec (c : Console) (n : Nat) :
    (∀ i, cellAt ((List.range n).foldl copyCell c) i =
        if i < n then cellAt c (i + 80) else cellAt c i) ∧
      ((List.range n).foldl copyCell c).current_position = c.current_position := by
  induction n with
  | zero => exact ⟨fun i => rfl, rfl⟩
  | succ n ih =>
    obtain ⟨ihcell, ihpos⟩ := ih
    rw [List.range_succ, List.foldl_append, List.foldl_cons, List.foldl_nil, copyCell_spec]
    refine ⟨fun i => ?_, ihpos⟩
    rw [ihcell, if_neg (by omega)]
    by_cases hi : i = n
    · subst hi
      simp
    · rw [Function.update_of_ne hi, ihcell]
      apply if_congr _ rfl rfl
      omega

/-- The rows move up, the last one is blank, and what is not on the screen stays. -/
theorem cellAt_scroll_console (c : Console) (i : Nat) :
    cellAt (scroll_console c) i =
      if i < 1920 then cellAt c (i + 80) else if i < 2000 then blank else cellAt c i := by
  obtain ⟨hcopy, -⟩ := copyCells_spec c 1920
  obtain ⟨hcell, -⟩ := blankCells_spec ((List.range 1920).foldl copyCell c) 1920 80 (by omega)
  unfold scroll_console
  rw [cellAt_position]
  refine (hcell i).trans ?_
  by_cases h : i < 1920
  · rw [if_neg (by omega), if_pos h, hcopy, if_pos h]
  · rw [if_neg h, hcopy, if_neg h]
    apply if_congr _ rfl rfl
    omega

theorem scroll_console_spec (c : Console) :
    (∀ i < 2000, cellAt (scroll_console c) i = if i < 1920 then cellAt c (i + 80) else blank) ∧
      (scroll_console c).current_position = 1920#16 := by
  refine ⟨fun i hi => ?_, rfl⟩
  rw [cellAt_scroll_console, if_pos hi]

/-! ## The cells before the cursor -/

def Console.OnScreen (c : Console) : Prop := c.current_position.toNat < 2000

theorem scroll_onScreen (c : Console) :
    (if c.current_position.toNat ≥ VGA_WIDTH * VGA_HEIGHT then scroll_console c else c).OnScreen := by
  have hsize : VGA_WIDTH * VGA_HEIGHT = 2000 := rfl
  unfold Console.OnScreen
  by_cases h : c.current_position.toNat ≥ VGA_WIDTH * VGA_HEIGHT
  · rw [if_pos h, (scroll_console_spec c).2]
    decide
  · rw [if_neg h]
    omega

theorem console_write_colored_onScreen {c : Console} (h : c.OnScreen) (text : List Byte) (fg bg : Byte) :
    (console_write_colored c text fg bg).OnScreen := by
  unfold console_write_colored
  show (List.foldl (writeChar fg bg) c (cString text)).OnScreen
  induction cString text generalizing c with
  | nil => exact h
  | cons character text ih => exact ih (scroll_onScreen _)

theorem console_clear_onScreen (c : Console) : (console_clear c).OnScreen := by
  unfold Console.OnScreen
  rw [(console_clear_spec c).2]
  decide

/-- A character goes behind the `n` cells before the cursor, and the cells stay in order when the
screen scrolls. -/
theorem writeChar_cells {c : Console} (h : c.OnScreen) (fg bg : Byte) {character : Byte}
    (hnl : character ≠ 0x0A#8) {n : Nat} (hn : n ≤ c.current_position.toNat) (hrows : n < 1920) :
    let c' := writeChar fg bg c character
    n + 1 ≤ c'.current_position.toNat ∧ ∀ i ≤ n, cellAt c' (c'.current_position.toNat - (n + 1) + i) =
      Function.update (cellAt c) c.current_position.toNat (character, colour fg bg)
        (c.current_position.toNat - n + i) := by
  have hsize : VGA_WIDTH * VGA_HEIGHT = 2000 := rfl
  have hidx : (c.current_position.setWidth 32).toNat = c.current_position.toNat := by
    rw [BitVec.toNat_setWidth]
    omega
  have hlt : c.current_position.toNat < 2000 := h
  obtain ⟨hcells, hsame⟩ := set_character_spec c (c.current_position.setWidth 32) character fg bg (by omega)
  rw [hidx] at hcells
  set d := set_character c (c.current_position.setWidth 32) character fg bg with hd
  have hpos : (d.current_position + 1#16).toNat = c.current_position.toNat + 1 := by
    rw [hsame, BitVec.toNat_add, BitVec.toNat_ofNat]
    omega
  intro c'
  have hc' : c' = if c.current_position.toNat + 1 ≥ 2000 then
      scroll_console { d with current_position := d.current_position + 1#16 }
      else { d with current_position := d.current_position + 1#16 } := by
    show writeChar fg bg c character = _
    unfold writeChar
    rw [if_neg hnl, ← hd]
    show (if (d.current_position + 1#16).toNat ≥ VGA_WIDTH * VGA_HEIGHT then _ else _) = _
    rw [hpos, hsize]
  by_cases hlast : c.current_position.toNat + 1 ≥ 2000
  · -- the last cell: what was before the cursor is a row further up now
    rw [if_pos hlast] at hc'
    obtain ⟨hscroll, hrow⟩ := scroll_console_spec { d with current_position := d.current_position + 1#16 }
    have hpos' : c'.current_position.toNat = 1920 := by rw [hc', hrow]; rfl
    refine ⟨by omega, fun i hi => ?_⟩
    have hcell := (hscroll (1920 - (n + 1) + i) (by omega)).trans (if_pos (by omega))
    have hsum : 1920 - (n + 1) + i + 80 = c.current_position.toNat - n + i := by omega
    rw [hpos', hc', hcell, hsum]
    exact congrFun hcells _
  · rw [if_neg hlast] at hc'
    have hpos' : c'.current_position.toNat = c.current_position.toNat + 1 := by
      rw [hc']
      exact hpos
    refine ⟨by omega, fun i hi => ?_⟩
    have hsum : c.current_position.toNat + 1 - (n + 1) + i = c.current_position.toNat - n + i := by omega
    rw [hpos', hc', hsum]
    exact congrFun hcells _

def Console.before (c : Console) (n : Nat) : List Cell :=
  (List.range n).map fun i => cellAt c (c.current_position.toNat - n + i)

/-- One cell more, if the others are those of `c`. -/
theorem Console.before_succ {c d : Console} {n : Nat}
    (h : ∀ i < n, cellAt d (d.current_position.toNat - (n + 1) + i) =
      cellAt c (c.current_position.toNat - n + i)) :
    d.before (n + 1) = c.before n ++ [cellAt d (d.current_position.toNat - (n + 1) + n)] := by
  unfold Console.before
  rw [List.range_succ, List.map_append, List.map_singleton]
  congr 1
  exact List.map_congr_left fun i hi => h i (List.mem_range.mp hi)

theorem writeChar_before {c : Console} (h : c.OnScreen) (fg bg : Byte) {character : Byte}
    (hnl : character ≠ 0x0A#8) {n : Nat} (hn : n ≤ c.current_position.toNat) (hrows : n < 1920) :
    n + 1 ≤ (writeChar fg bg c character).current_position.toNat ∧
      (writeChar fg bg c character).before (n + 1) = c.before n ++ [(character, colour fg bg)] := by
  obtain ⟨hpos, hcells⟩ := writeChar_cells h fg bg hnl hn hrows
  refine ⟨hpos, ?_⟩
  have hsum : c.current_position.toNat - n + n = c.current_position.toNat := by omega
  rw [Console.before_succ (c := c), hcells n (le_refl n), hsum, Function.update_self]
  intro i hi
  rw [hcells i hi.le, Function.update_of_ne (by omega)]

theorem console_backspace_spec {c : Console} (h : c.OnScreen) (h0 : 0 < c.current_position.toNat) :
    cellAt (console_backspace c) = Function.update (cellAt c) (c.current_position.toNat - 1) blank ∧
      (console_backspace c).current_position.toNat = c.current_position.toNat - 1 := by
  have hlt : c.current_position.toNat < 2000 := h
  have hpos : (c.current_position - 1#16).toNat = c.current_position.toNat - 1 := by
    rw [BitVec.toNat_sub, BitVec.toNat_ofNat]
    omega
  have hidx : ((c.current_position - 1#16).setWidth 32).toNat = c.current_position.toNat - 1 := by
    rw [BitVec.toNat_setWidth, hpos]
    omega
  have hne : c.current_position ≠ 0#16 := fun heq => by simp [heq] at h0
  obtain ⟨hcells, hsame⟩ := set_character_spec { c with current_position := c.current_position - 1#16 }
    ((c.current_position - 1#16).setWidth 32) (0x20#8) CONSOLE_WHITE CONSOLE_BLACK (by omega)
  unfold console_backspace
  rw [if_neg hne]
  constructor
  · rw [cellAt_update_cursor, hcells, hidx]
    rfl
  · rw [update_cursor_position_position, hsame, hpos]

theorem console_backspace_before {c : Console} (h : c.OnScreen) {n : Nat}
    (hn : n + 1 ≤ c.current_position.toNat) :
    c.before (n + 1) = (console_backspace c).before n ++ [cellAt c (c.current_position.toNat - 1)] := by
  obtain ⟨hcells, hpos⟩ := console_backspace_spec h (by omega)
  have hsum : c.current_position.toNat - (n + 1) + n = c.current_position.toNat - 1 := by omega
  rw [Console.before_succ (c := console_backspace c), hsum]
  intro i hi
  have hsum : c.current_position.toNat - 1 - n + i = c.current_position.toNat - (n + 1) + i := by omega
  rw [hpos, hcells, hsum, Function.update_of_ne (by omega)]

theorem console_backspace_onScreen {c : Console} (h : c.OnScreen) : (console_backspace c).OnScreen := by
  by_cases h0 : c.current_position = 0#16
  · unfold console_backspace
    rwa [if_pos h0]
  · have hpos : 0 < c.current_position.toNat := by
      rw [Nat.pos_iff_ne_zero]
      exact fun h => h0 (BitVec.eq_of_toNat_eq h)
    unfold Console.OnScreen at *
    rw [(console_backspace_spec h hpos).2]
    omega

end MiniOS.Vga
