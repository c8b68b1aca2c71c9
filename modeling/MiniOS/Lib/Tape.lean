import Mathlib

/-!
# A screen over an endless tape

A terminal of `w` columns writes on a tape that never ends. A screen of `h` rows
shows the last rows of it. `Shows` ties the two together, and one lemma for each
way to move says that it stays.
-/

namespace MiniOS.Lib

variable {α : Type}

structure Tape (α : Type) where
  cells : Nat → α
  cursor : Nat

def Tape.start (blank : α) : Tape α := ⟨fun _ => blank, 0⟩

def Tape.newline (w : Nat) (t : Tape α) : Tape α := { t with cursor := (t.cursor / w + 1) * w }

def Tape.put (t : Tape α) (x : α) : Tape α :=
  { cells := Function.update t.cells t.cursor x, cursor := t.cursor + 1 }

/-- The row at the top of the screen, and the cell that it starts at. -/
def Tape.top (w h : Nat) (t : Tape α) : Nat := t.cursor / w + 1 - h

def Tape.base (w h : Nat) (t : Tape α) : Nat := w * t.top w h

def scrollUp (w h : Nat) (blank : α) (screen : Nat → α) (i : Nat) : α :=
  if i < w * (h - 1) then screen (i + w) else blank

/-- Cells `0..w*h` of the screen are the tape's from its base, `pos` is the cursor, and the tape is
blank from the cursor on. -/
structure Shows (w h : Nat) (blank : α) (t : Tape α) (screen : Nat → α) (pos : Nat) : Prop where
  cells : ∀ i < w * h, screen i = t.cells (t.base w h + i)
  pos : t.cursor = t.base w h + pos
  blank : ∀ i, t.cursor ≤ i → t.cells i = blank

variable {w h : Nat} {blank : α} {t t' : Tape α} {screen : Nat → α} {pos : Nat}

theorem shows_start (hs : ∀ i < w * h, screen i = blank) (hh : 0 < h) :
    Shows w h blank (Tape.start blank) screen 0 where
  cells := hs
  pos := by
    have htop : 1 - h = 0 := by omega
    simp [Tape.start, Tape.base, Tape.top, htop]
  blank _ _ := rfl

theorem row_le (w h : Nat) (t : Tape α) : w * (t.cursor / w + 1) ≤ t.base w h + w * h := by
  unfold Tape.base Tape.top
  rw [← Nat.mul_add]
  apply Nat.mul_le_mul_left
  omega

theorem Shows.pos_lt (hw : 0 < w) (hs : Shows w h blank t screen pos) : pos < w * h := by
  have hpos := hs.pos
  have hrow : t.cursor < w * (t.cursor / w + 1) := Nat.lt_mul_div_succ _ hw
  have hle := row_le w h t
  omega

/-- A move within the row, or to its end, keeps the base, unless it leaves the screen. Then it goes
to the screen's end, and the base moves by a row. -/
theorem base_move (hw : 0 < w) (hlt : t.cursor < t'.cursor)
    (hle : t'.cursor ≤ (t.cursor / w + 1) * w) :
    (t'.cursor < t.base w h + w * h ∧ t'.base w h = t.base w h) ∨
      (t'.cursor = t.base w h + w * h ∧ t'.base w h = t.base w h + w) := by
  have hdiv : t.cursor / w ≤ t'.cursor / w := Nat.div_le_div_right hlt.le
  rcases Nat.lt_or_eq_of_le hle with hrow | hrow
  · -- the same row
    have hsame : t'.cursor / w = t.cursor / w := by
      have := Nat.div_lt_of_lt_mul (show t'.cursor < w * (t.cursor / w + 1) by
        rwa [Nat.mul_comm] at hrow)
      omega
    left
    have hfit := row_le w h t
    rw [Nat.mul_comm] at hrow
    refine ⟨by omega, ?_⟩
    unfold Tape.base Tape.top
    rw [hsame]
  · -- the next row
    have hnext : t'.cursor / w = t.cursor / w + 1 := by rw [hrow, Nat.mul_div_cancel _ hw]
    rw [Nat.mul_comm] at hrow
    unfold Tape.base Tape.top
    rw [hnext]
    by_cases hfull : t.cursor / w + 1 < h
    · left
      have h0 : t.cursor / w + 1 - h = 0 := by omega
      have h1 : t.cursor / w + 1 + 1 - h = 0 := by omega
      have := Nat.mul_lt_mul_of_pos_left hfull hw
      rw [h0, h1]
      exact ⟨by omega, rfl⟩
    · right
      have h1 : t.cursor / w + 1 + 1 - h = t.cursor / w + 1 - h + 1 := by omega
      have hrows : t.cursor / w + 1 = t.cursor / w + 1 - h + h := by omega
      rw [h1, Nat.mul_succ]
      refine ⟨?_, rfl⟩
      rw [hrow, ← Nat.mul_add, ← hrows]

/-- A picture of the tape from `b` whose cells are used up, scrolled, is one from the next row. -/
theorem scrollUp_cells {b : Nat} (hh : 0 < h) (hcells : ∀ i < w * h, screen i = t.cells (b + i))
    (hblank : ∀ i, t.cursor ≤ i → t.cells i = blank) (hcursor : t.cursor = b + w * h) (i : Nat) :
    scrollUp w h blank screen i = t.cells (b + w + i) := by
  have hrows : w * h = w * (h - 1) + w := by
    rw [← Nat.mul_succ, show (h - 1).succ = h by omega]
  unfold scrollUp
  split
  · rw [hcells _ (by omega)]
    congr 1
    omega
  · -- the row that comes in lies past the cursor
    exact (hblank _ (by omega)).symm

theorem put_cells {b : Nat} (hcursor : t.cursor = b + pos) (x : α) {i : Nat}
    (h : screen i = t.cells (b + i)) : Function.update screen pos x i = (t.put x).cells (b + i) := by
  by_cases heq : i = pos
  · subst heq
    simp [Tape.put, hcursor]
  · have hne : b + i ≠ t.cursor := by omega
    simp [Tape.put, heq, hne, h]

theorem shows_move (hw : 0 < w) (hh : 0 < h)
    (hlt : t.cursor < t'.cursor) (hle : t'.cursor ≤ (t.cursor / w + 1) * w) {screen' : Nat → α}
    (hcells : ∀ i < w * h, screen' i = t'.cells (t.base w h + i))
    (hblank : ∀ i, t'.cursor ≤ i → t'.cells i = blank) {pos' : Nat}
    (hpos : t'.cursor = t.base w h + pos') :
    (pos' < w * h ∧ Shows w h blank t' screen' pos') ∨
      (pos' = w * h ∧ Shows w h blank t' (scrollUp w h blank screen') (w * (h - 1))) := by
  have hrows : w * h = w * (h - 1) + w := by
    rw [← Nat.mul_succ, show (h - 1).succ = h by omega]
  rcases base_move (h := h) hw hlt hle with ⟨hin, hbase⟩ | ⟨hout, hbase⟩
  · exact Or.inl ⟨by omega, by rwa [hbase], by rwa [hbase], hblank⟩
  · refine Or.inr ⟨by omega, fun i _ => ?_, by omega, hblank⟩
    rw [hbase]
    exact scrollUp_cells hh hcells hblank hout i

theorem Shows.put (hw : 0 < w) (hh : 0 < h) (hs : Shows w h blank t screen pos) (x : α) :
    (pos + 1 < w * h ∧ Shows w h blank (t.put x) (Function.update screen pos x) (pos + 1)) ∨
      (pos + 1 = w * h ∧
        Shows w h blank (t.put x) (scrollUp w h blank (Function.update screen pos x)) (w * (h - 1))) := by
  have hpos := hs.pos
  have hrow : t.cursor < w * (t.cursor / w + 1) := Nat.lt_mul_div_succ _ hw
  apply shows_move hw hh
  · exact Nat.lt_succ_self _
  · rw [Nat.mul_comm]
    exact hrow
  · exact fun i hi => put_cells hpos x (hs.cells i hi)
  · intro i hi
    have hne : i ≠ t.cursor := by simp only [Tape.put] at hi; omega
    simp only [Tape.put, Function.update_of_ne hne]
    exact hs.blank i (by simp only [Tape.put] at hi; omega)
  · simp only [Tape.put]
    omega

theorem Shows.newline (hw : 0 < w) (hh : 0 < h) (hs : Shows w h blank t screen pos) {pos' : Nat}
    (hpos' : (t.newline w).cursor = t.base w h + pos') :
    (pos' < w * h ∧ Shows w h blank (t.newline w) screen pos') ∨
      (pos' = w * h ∧ Shows w h blank (t.newline w) (scrollUp w h blank screen) (w * (h - 1))) := by
  have hrow : t.cursor < (t.cursor / w + 1) * w := by
    rw [Nat.mul_comm]
    exact Nat.lt_mul_div_succ _ hw
  refine shows_move hw hh hrow (le_refl (t.newline w).cursor) hs.cells ?_ hpos'
  intro i hi
  exact hs.blank i (by simp only [Tape.newline] at hi; omega)

end MiniOS.Lib
