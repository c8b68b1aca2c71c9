import Mathlib

/-!
# Loops with fuel

`whileLoop cond body n s` is `while (cond) body`, given up after `n` rounds.
`none` means that the fuel ran out, or that a round itself did not end.
-/

namespace MiniOS.Lib

variable {σ : Type}

def whileLoop (cond : σ → Bool) (body : σ → Option σ) : Nat → σ → Option σ
  | 0, s => if cond s then none else some s
  | n + 1, s => if cond s then (body s).bind (whileLoop cond body n) else some s

/-- The states in which a round begins, up to `n` of them. -/
def whileVisits (cond : σ → Bool) (body : σ → Option σ) : Nat → σ → List σ
  | 0, _ => []
  | n + 1, s => if cond s then s :: (body s).elim [] (whileVisits cond body n) else []

section
variable {cond : σ → Bool} {body body' : σ → Option σ}

theorem whileLoop_stop {n : Nat} {s : σ} (h : cond s = false) :
    whileLoop cond body n s = some s := by
  cases n <;> simp [whileLoop, h]

theorem whileLoop_step {n : Nat} {s t : σ} (hc : cond s = true) (hb : body s = some t) :
    whileLoop cond body (n + 1) s = whileLoop cond body n t := by
  simp [whileLoop, hc, hb]

theorem whileLoop_some {n : Nat} {s r : σ} (h : whileLoop cond body n s = some r) :
    (cond s = false ∧ r = s) ∨
      ∃ m t, n = m + 1 ∧ cond s = true ∧ body s = some t ∧ whileLoop cond body m t = some r := by
  cases hc : cond s with
  | false =>
    left
    rw [whileLoop_stop hc] at h
    exact ⟨rfl, (Option.some.inj h).symm⟩
  | true =>
    right
    cases n with
    | zero => simp [whileLoop, hc] at h
    | succ m =>
      simp only [whileLoop, hc, if_true, Option.bind_eq_some_iff] at h
      obtain ⟨t, ht, hr⟩ := h
      exact ⟨m, t, rfl, rfl, ht, hr⟩

/-- More fuel, and rounds that end more often, never change a result. -/
theorem whileLoop_mono (hb : ∀ s t, body s = some t → body' s = some t) {n m : Nat} (hnm : n ≤ m)
    {s r : σ} (h : whileLoop cond body n s = some r) : whileLoop cond body' m s = some r := by
  induction n generalizing m s with
  | zero =>
    rcases whileLoop_some h with ⟨hc, rfl⟩ | ⟨k, t, hk, -⟩
    · exact whileLoop_stop hc
    · omega
  | succ n ih =>
    rcases whileLoop_some h with ⟨hc, rfl⟩ | ⟨k, t, hk, hc, ht, hr⟩
    · exact whileLoop_stop hc
    · obtain ⟨m, rfl⟩ : ∃ m', m = m' + 1 := ⟨m - 1, by omega⟩
      obtain rfl : n = k := by omega
      rw [whileLoop_step hc (hb _ _ ht)]
      exact ih (by omega) hr

theorem whileVisits_stop {n : Nat} {s : σ} (h : cond s = false) : whileVisits cond body n s = [] := by
  cases n <;> simp [whileVisits, h]

theorem whileVisits_step {n : Nat} {s t : σ} (hc : cond s = true) (hb : body s = some t) :
    whileVisits cond body (n + 1) s = s :: whileVisits cond body n t := by
  simp [whileVisits, hc, hb]

end

end MiniOS.Lib
