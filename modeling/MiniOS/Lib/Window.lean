import MiniOS.Lib.Tape

/-!
# A window on the tape

A terminal that can also erase. The screen shows the tape from a base on, a row that
falls off its end moves the base, and erasing never moves it back. What was typed and
erased again is as if it had not been typed.
-/

namespace MiniOS.Lib

variable {α : Type} {w h : Nat} {blank : α} {t t' : Tape α} {base pos : Nat} {screen : Nat → α}

def Tape.erase (blank : α) (t : Tape α) : Tape α :=
  { cells := Function.update t.cells (t.cursor - 1) blank, cursor := t.cursor - 1 }

def Tape.puts (t : Tape α) (xs : List α) : Tape α := xs.foldl Tape.put t

theorem Tape.puts_cursor (t : Tape α) (xs : List α) : (t.puts xs).cursor = t.cursor + xs.length := by
  unfold Tape.puts
  induction xs generalizing t with
  | nil => rfl
  | cons x xs ih =>
    rw [List.foldl_cons, ih, List.length_cons]
    simp only [Tape.put]
    omega

/-- Nothing is on the tape from the cursor on. -/
def Tape.Fresh (blank : α) (t : Tape α) : Prop := ∀ i, t.cursor ≤ i → t.cells i = blank

theorem Tape.Fresh.put (ht : t.Fresh blank) (x : α) : (t.put x).Fresh blank := by
  intro i hi
  simp only [Tape.put] at hi ⊢
  rw [Function.update_of_ne (by omega)]
  exact ht i (by omega)

theorem Tape.Fresh.puts (ht : t.Fresh blank) (xs : List α) : (t.puts xs).Fresh blank := by
  unfold Tape.puts
  induction xs generalizing t with
  | nil => exact ht
  | cons x xs ih => exact ih (ht.put x)

theorem Tape.Fresh.newline (ht : t.Fresh blank) (hw : 0 < w) : (t.newline w).Fresh blank := by
  intro i hi
  have hrow : t.cursor < w * (t.cursor / w + 1) := Nat.lt_mul_div_succ _ hw
  simp only [Tape.newline, Nat.mul_comm _ w] at hi
  exact ht i (by omega)

theorem Tape.Fresh.erase (ht : t.Fresh blank) : (t.erase blank).Fresh blank := by
  intro i hi
  simp only [Tape.erase] at hi ⊢
  by_cases heq : i = t.cursor - 1
  · rw [heq, Function.update_self]
  · rw [Function.update_of_ne heq]
    exact ht i (by omega)

theorem Tape.erase_put (ht : t.Fresh blank) (x : α) : (t.put x).erase blank = t := by
  have hcell : blank = t.cells t.cursor := (ht _ (le_refl _)).symm
  simp only [Tape.erase, Tape.put, Nat.add_sub_cancel, Function.update_idem]
  rw [hcell, Function.update_eq_self]

theorem Tape.erase_puts (ht : t.Fresh blank) (xs : List α) :
    (Tape.erase blank)^[xs.length] (t.puts xs) = t := by
  induction xs using List.reverseRecOn with
  | nil => rfl
  | append_singleton xs x ih =>
    have hlast : t.puts (xs ++ [x]) = (t.puts xs).put x := by
      unfold Tape.puts
      rw [List.foldl_append]
      rfl
    rw [List.length_append, List.length_singleton, Function.iterate_succ_apply, hlast,
      Tape.erase_put (ht.puts xs), ih]

/-! ## What the screen shows -/

/-- Cells `0..w*h` of the screen are the tape's from `base`, which is the start of a row. -/
structure Window (w h : Nat) (blank : α) (t : Tape α) (base : Nat) (screen : Nat → α) (pos : Nat) :
    Prop where
  cells : ∀ i < w * h, screen i = t.cells (base + i)
  cursor : t.cursor = base + pos
  fits : pos < w * h
  fresh : t.Fresh blank
  row : w ∣ base

theorem window_start (hs : ∀ i < w * h, screen i = blank) (hpos : 0 < w * h) :
    Window w h blank (Tape.start blank) 0 screen 0 where
  cells := hs
  cursor := rfl
  fits := hpos
  fresh _ _ := rfl
  row := Nat.dvd_zero w

/-- The screen is blank from the cursor on. -/
theorem Window.blank_tail (hv : Window w h blank t base screen pos) {i : Nat} (hi : pos ≤ i)
    (hfit : i < w * h) : screen i = blank := by
  have hpos := hv.cursor
  rw [hv.cells i hfit]
  exact hv.fresh _ (by omega)

/-- A move past the last cell scrolls. -/
theorem Window.move (hh : 0 < h) (hrow : w ∣ base) {screen' : Nat → α} {pos' : Nat}
    (hcells : ∀ i < w * h, screen' i = t'.cells (base + i)) (hpos : t'.cursor = base + pos')
    (hfresh : t'.Fresh blank) (hle : pos' ≤ w * h) (hw : 0 < w) :
    (pos' < w * h ∧ Window w h blank t' base screen' pos') ∨
      (pos' = w * h ∧
        Window w h blank t' (base + w) (scrollUp w h blank screen') (w * (h - 1))) := by
  have hrows : w * h = w * (h - 1) + w := by
    rw [← Nat.mul_succ, show (h - 1).succ = h by omega]
  rcases Nat.lt_or_eq_of_le hle with hlt | heq
  · exact Or.inl ⟨hlt, hcells, hpos, hlt, hfresh, hrow⟩
  · rw [heq] at hpos
    refine Or.inr ⟨heq, fun i _ => ?_, by omega, by omega, hfresh, Nat.dvd_add hrow (Nat.dvd_refl w)⟩
    exact scrollUp_cells hh hcells hfresh hpos i

theorem Window.put (hw : 0 < w) (hh : 0 < h) (hv : Window w h blank t base screen pos) (x : α) :
    (pos + 1 < w * h ∧ Window w h blank (t.put x) base (Function.update screen pos x) (pos + 1)) ∨
      (pos + 1 = w * h ∧ Window w h blank (t.put x) (base + w)
        (scrollUp w h blank (Function.update screen pos x)) (w * (h - 1))) := by
  have hpos := hv.cursor
  apply Window.move hh hv.row _ _ (hv.fresh.put x) hv.fits hw
  · exact fun i hi => put_cells hpos x (hv.cells i hi)
  · simp only [Tape.put]
    omega

theorem Window.newline (hw : 0 < w) (hh : 0 < h) (hv : Window w h blank t base screen pos)
    {pos' : Nat} (hpos' : (t.newline w).cursor = base + pos') (hle : pos' ≤ w * h) :
    (pos' < w * h ∧ Window w h blank (t.newline w) base screen pos') ∨
      (pos' = w * h ∧
        Window w h blank (t.newline w) (base + w) (scrollUp w h blank screen) (w * (h - 1))) :=
  Window.move hh hv.row hv.cells hpos' (hv.fresh.newline hw) hle hw

theorem Window.erase (hv : Window w h blank t base screen pos) (h0 : 0 < pos) :
    Window w h blank (t.erase blank) base (Function.update screen (pos - 1) blank) (pos - 1) := by
  have hpos := hv.cursor
  have hfits := hv.fits
  refine ⟨fun i hi => ?_, ?_, by omega, hv.fresh.erase, hv.row⟩
  · by_cases heq : i = pos - 1
    · have hcell : base + (pos - 1) = t.cursor - 1 := by omega
      simp only [Tape.erase, heq, hcell, Function.update_self]
    · have hne : base + i ≠ t.cursor - 1 := by omega
      simp [Tape.erase, heq, hne, hv.cells i hi]
  · simp only [Tape.erase]
    omega

/-! ## Two windows on one tape -/

theorem scrollUp_iterate (screen : Nat → α) (m : Nat) {i : Nat} (hi : i < w * h) :
    (scrollUp w h blank)^[m] screen i = if i + w * m < w * h then screen (i + w * m) else blank := by
  induction m generalizing i with
  | zero => simp [hi]
  | succ m ih =>
    have hrows : w * h = w * (h - 1) + w := by
      rw [← Nat.mul_succ]
      congr 1
      rcases Nat.eq_zero_or_pos h with rfl | hpos
      · omega
      · omega
    have hmul : w * (m + 1) = w * m + w := Nat.mul_succ w m
    rw [Function.iterate_succ_apply', scrollUp]
    by_cases hlast : i < w * (h - 1)
    · have hsum : i + w + w * m = i + w * (m + 1) := by omega
      rw [if_pos hlast, ih (by omega), hsum]
    · rw [if_neg hlast, if_neg (by omega)]

/-- A window `m` rows further down shows the screen scrolled up by `m` rows. -/
theorem Window.scrolled {m pos' : Nat} {screen' : Nat → α} (hv : Window w h blank t base screen pos)
    (hv' : Window w h blank t (base + w * m) screen' pos') :
    (∀ i < w * h, screen' i = (scrollUp w h blank)^[m] screen i) ∧ pos' + w * m = pos := by
  have hpos := hv.cursor
  have hpos' := hv'.cursor
  have hfits := hv.fits
  refine ⟨fun i hi => ?_, by omega⟩
  rw [scrollUp_iterate screen m hi, hv'.cells i hi]
  by_cases hin : i + w * m < w * h
  · rw [if_pos hin, hv.cells _ hin]
    congr 1
    omega
  · rw [if_neg hin]
    exact hv.fresh _ (by omega)

end MiniOS.Lib
