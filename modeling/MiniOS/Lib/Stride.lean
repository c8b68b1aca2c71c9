import MiniOS.Lib.Loop

/-!
# Counting loops on machine words

`for (a = start; p a; a += d)` on `w`-bit words, where `a + d` wraps. When the
stride divides `2 ^ w` and the test is a bound from above, the loop ends exactly
when some address that it can reach fails the test, and then it has not wrapped.
-/

namespace MiniOS.Lib

variable {σ : Type} {w : Nat}

def forStride (p : BitVec w → Bool) (d : BitVec w) (body : σ → BitVec w → σ) (fuel : Nat)
    (start : BitVec w) (s : σ) : Option σ :=
  (whileLoop (fun x : BitVec w × σ => p x.1) (fun x => some (x.1 + d, body x.2 x.1)) fuel
    (start, s)).map Prod.snd

/-- A test that holds of everything below a word it holds of, as `a < e` and `a ≤ e` do. -/
def DownClosed (p : BitVec w → Bool) : Prop :=
  ∀ x y, x.toNat ≤ y.toNat → p y = true → p x = true

/-- The words of the loop's residue class, from `a` up. -/
def Ahead (d a x : BitVec w) : Prop :=
  a.toNat ≤ x.toNat ∧ x.toNat % d.toNat = a.toNat % d.toNat

def strideSet (p : BitVec w → Bool) (d a : BitVec w) : Set (BitVec w) :=
  {x | Ahead d a x ∧ p x = true}

section
variable {p : BitVec w → Bool} {d : BitVec w} {body : σ → BitVec w → σ}

theorem forStride_stop {n : Nat} {a : BitVec w} {s : σ} (h : p a = false) :
    forStride p d body n a s = some s := by
  rw [forStride, whileLoop_stop (by exact h)]
  rfl

theorem forStride_step {n : Nat} {a : BitVec w} {s : σ} (h : p a = true) :
    forStride p d body (n + 1) a s = forStride p d body n (a + d) (body s a) := by
  simp [forStride, whileLoop, h]

theorem forStride_zero {a : BitVec w} {s : σ} (h : p a = true) :
    forStride p d body 0 a s = none := by
  simp [forStride, whileLoop, h]

theorem forStride_mono {n m : Nat} (hnm : n ≤ m) {a : BitVec w} {s r : σ}
    (h : forStride p d body n a s = some r) : forStride p d body m a s = some r := by
  simp only [forStride, Option.map_eq_some_iff] at h ⊢
  obtain ⟨x, hx, rfl⟩ := h
  exact ⟨x, whileLoop_mono (fun _ _ h => h) hnm hx, rfl⟩

theorem downClosed_lt (e : BitVec w) : DownClosed (fun a => decide (a < e)) := by
  intro x y hxy hy
  simp only [decide_eq_true_eq, BitVec.lt_def] at *
  omega

theorem downClosed_le (e : BitVec w) : DownClosed (fun a => decide (a ≤ e)) := by
  intro x y hxy hy
  simp only [decide_eq_true_eq, BitVec.le_def] at *
  omega

theorem add_mod_stride (hd : d.toNat ∣ 2 ^ w) (a : BitVec w) :
    (a + d).toNat % d.toNat = a.toNat % d.toNat := by
  rw [BitVec.toNat_add, Nat.mod_mod_of_dvd _ hd, Nat.add_mod_right]

theorem ahead_gap {a x : BitVec w} (h : x.toNat % d.toNat = a.toNat % d.toNat)
    (hlt : a.toNat < x.toNat) : a.toNat + d.toNat ≤ x.toNat := by
  have hdvd : d.toNat ∣ x.toNat - a.toNat := (Nat.modEq_iff_dvd' hlt.le).mp h.symm
  have := Nat.le_of_dvd (by omega) hdvd
  omega

theorem forStride_exit (hd : d.toNat ∣ 2 ^ w) (hp : DownClosed p) {n : Nat} {a : BitVec w} {s r : σ}
    (h : forStride p d body n a s = some r) : ∃ x, Ahead d a x ∧ p x = false := by
  induction n generalizing a s with
  | zero =>
    cases ha : p a with
    | false => exact ⟨a, ⟨le_refl _, rfl⟩, ha⟩
    | true => rw [forStride_zero ha] at h; exact absurd h (by simp)
  | succ n ih =>
    cases ha : p a with
    | false => exact ⟨a, ⟨le_refl _, rfl⟩, ha⟩
    | true =>
      rw [forStride_step ha] at h
      obtain ⟨x, ⟨-, hmod⟩, hx⟩ := ih h
      refine ⟨x, ⟨?_, hmod.trans (add_mod_stride hd a)⟩, hx⟩
      -- below `a` the test would hold
      by_contra hlt
      rw [hp x a (by omega) ha] at hx
      exact absurd hx (by simp)

theorem forStride_ends {a x : BitVec w} (hx : Ahead d a x) (hpx : p x = false) (hd0 : 0 < d.toNat)
    {n : Nat} (hn : (x.toNat - a.toNat) / d.toNat ≤ n) (s : σ) :
    ∃ r, forStride p d body n a s = some r := by
  induction n generalizing a s with
  | zero =>
    rcases Nat.eq_or_lt_of_le hx.1 with heq | hlt
    · obtain rfl := BitVec.eq_of_toNat_eq heq
      exact ⟨s, forStride_stop hpx⟩
    · have hgap := ahead_gap hx.2 hlt
      have := Nat.div_pos (show d.toNat ≤ x.toNat - a.toNat by omega) hd0
      omega
  | succ n ih =>
    cases ha : p a with
    | false => exact ⟨s, forStride_stop ha⟩
    | true =>
      have hlt : a.toNat < x.toNat := by
        rcases Nat.eq_or_lt_of_le hx.1 with heq | hlt
        · rw [BitVec.eq_of_toNat_eq heq, hpx] at ha
          exact absurd ha (by simp)
        · exact hlt
      have hgap := ahead_gap hx.2 hlt
      have hadd : (a + d).toNat = a.toNat + d.toNat := by
        rw [BitVec.toNat_add, Nat.mod_eq_of_lt (hgap.trans_lt x.isLt)]
      have hx' : Ahead d (a + d) x := ⟨by omega, by rw [hadd, Nat.add_mod_right]; exact hx.2⟩
      rw [forStride_step ha]
      refine ih hx' ?_ _
      have hdiv := Nat.div_eq_sub_div hd0 (show d.toNat ≤ x.toNat - a.toNat by omega)
      rw [hadd, Nat.sub_add_eq]
      omega

/-- A loop that ends has run its body on each word of `strideSet`, and on no other. -/
theorem forStride_spec (hd : d.toNat ∣ 2 ^ w) (hp : DownClosed p) {n : Nat} {a : BitVec w} {s r : σ}
    (h : forStride p d body n a s = some r) :
    ∃ l : List (BitVec w), r = l.foldl body s ∧ ∀ x, x ∈ l ↔ x ∈ strideSet p d a := by
  -- a loop that stops at once has an empty set
  have hstop : ∀ {n a s}, p a = false → forStride p d body n a s = some r →
      ∃ l : List (BitVec w), r = l.foldl body s ∧ ∀ x, x ∈ l ↔ x ∈ strideSet p d a := by
    intro n a s ha h
    rw [forStride_stop ha] at h
    refine ⟨[], (Option.some.inj h).symm, fun x => iff_of_false List.not_mem_nil ?_⟩
    rintro ⟨⟨hle, -⟩, hx⟩
    rw [hp a x hle hx] at ha
    exact absurd ha (by simp)
  induction n generalizing a s with
  | zero =>
    cases ha : p a with
    | false => exact hstop ha h
    | true => rw [forStride_zero ha] at h; exact absurd h (by simp)
  | succ n ih =>
    cases ha : p a with
    | false => exact hstop ha h
    | true =>
      obtain ⟨y, ⟨hay, hmod⟩, hy⟩ := forStride_exit hd hp h
      -- the failing word lies above `a`, so the step from `a` does not wrap
      have hlt : a.toNat < y.toNat := by
        by_contra hle
        rw [hp y a (by omega) ha] at hy
        exact absurd hy (by simp)
      have hgap := ahead_gap hmod hlt
      have hadd : (a + d).toNat = a.toNat + d.toNat := by
        rw [BitVec.toNat_add, Nat.mod_eq_of_lt (hgap.trans_lt y.isLt)]
      rw [forStride_step ha] at h
      obtain ⟨l, rfl, hl⟩ := ih h
      refine ⟨a :: l, rfl, fun x => ?_⟩
      rw [List.mem_cons, hl]
      constructor
      · rintro (rfl | ⟨⟨hle, hx⟩, hpx⟩)
        · exact ⟨⟨le_refl _, rfl⟩, ha⟩
        · exact ⟨⟨by omega, hx.trans (add_mod_stride hd a)⟩, hpx⟩
      · rintro ⟨⟨hle, hx⟩, hpx⟩
        rcases Nat.eq_or_lt_of_le hle with heq | hlt'
        · exact Or.inl (BitVec.eq_of_toNat_eq heq).symm
        · exact Or.inr ⟨⟨by have := ahead_gap hx hlt'; omega,
            hx.trans (add_mod_stride hd a).symm⟩, hpx⟩

end

end MiniOS.Lib
