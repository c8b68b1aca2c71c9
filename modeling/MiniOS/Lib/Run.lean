import Mathlib

/-!
# Labelled runs

A system is a relation `step : σ → ℓ → σ → Prop`. A run is the list of its
labels, so a statement about all runs covers every order of the steps.
-/

namespace MiniOS.Lib

variable {σ τ ℓ κ : Type*}

/-- `Run step s₀ ls s`: from `s₀`, the steps `ls` in order lead to `s`. -/
inductive Run (step : σ → ℓ → σ → Prop) (s₀ : σ) : List ℓ → σ → Prop
  | nil : Run step s₀ [] s₀
  | snoc {ls : List ℓ} {l : ℓ} {s t : σ} :
      Run step s₀ ls s → step s l t → Run step s₀ (ls ++ [l]) t

variable {step : σ → ℓ → σ → Prop} {s₀ : σ}

/-- An invariant may speak of the steps taken so far. -/
theorem Run.inv (P : List ℓ → σ → Prop) (h0 : P [] s₀)
    (hstep : ∀ ls s l t, P ls s → step s l t → P (ls ++ [l]) t) {ls : List ℓ} {s : σ}
    (h : Run step s₀ ls s) : P ls s := by
  induction h with
  | nil => exact h0
  | snoc _ hs ih => exact hstep _ _ _ _ ih hs

theorem Run.state_inv (P : σ → Prop) (h0 : P s₀) (hstep : ∀ s l t, P s → step s l t → P t)
    {ls : List ℓ} {s : σ} (h : Run step s₀ ls s) : P s :=
  h.inv (fun _ => P) h0 (fun _ => hstep)

theorem Run.simulation {astep : τ → κ → τ → Prop} {a₀ : τ} (R : σ → τ → Prop) (f : ℓ → κ)
    (h0 : R s₀ a₀)
    (hstep : ∀ s a l t, R s a → step s l t → ∃ b, astep a (f l) b ∧ R t b)
    {ls : List ℓ} {s : σ} (h : Run step s₀ ls s) : ∃ a, Run astep a₀ (ls.map f) a ∧ R s a := by
  induction h with
  | nil => exact ⟨a₀, .nil, h0⟩
  | snoc _ hs ih =>
    obtain ⟨a, ha, hR⟩ := ih
    obtain ⟨b, hb, hR'⟩ := hstep _ _ _ _ hR hs
    refine ⟨b, ?_, hR'⟩
    rw [List.map_append]
    exact .snoc ha hb

theorem Run.append {ls ms : List ℓ} {s t : σ} (h : Run step s₀ ls s) (h' : Run step s ms t) :
    Run step s₀ (ls ++ ms) t := by
  induction h' with
  | nil => rwa [List.append_nil]
  | snoc _ hs ih =>
    rw [← List.append_assoc]
    exact .snoc ih hs

theorem Run.split {ls ms : List ℓ} {t : σ} (h : Run step s₀ (ls ++ ms) t) :
    ∃ s, Run step s₀ ls s ∧ Run step s ms t := by
  generalize hlm : ls ++ ms = ns at h
  induction h generalizing ms with
  | nil =>
    obtain ⟨rfl, rfl⟩ := List.append_eq_nil_iff.mp hlm
    exact ⟨s₀, .nil, .nil⟩
  | @snoc ns l s t hrun hs ih =>
    rcases List.eq_nil_or_concat ms with rfl | ⟨ms, m, rfl⟩
    · rw [List.append_nil] at hlm
      exact ⟨t, hlm ▸ hrun.snoc hs, .nil⟩
    · rw [List.concat_eq_append, ← List.append_assoc] at hlm
      obtain ⟨hns, rfl⟩ := List.append_singleton_inj.mp hlm
      obtain ⟨u, hu, hrest⟩ := ih hns
      rw [List.concat_eq_append]
      exact ⟨u, hu, hrest.snoc hs⟩

theorem Run.eq_of_nil {t : σ} (h : Run step s₀ [] t) : t = s₀ := by
  generalize hls : ([] : List ℓ) = ls at h
  cases h with
  | nil => rfl
  | snoc => exact absurd hls.symm (List.append_ne_nil_of_right_ne_nil _ (List.cons_ne_nil _ []))

theorem Run.head {l : ℓ} {ls : List ℓ} {t : σ} (h : Run step s₀ (l :: ls) t) :
    ∃ s, step s₀ l s ∧ Run step s ls t := by
  obtain ⟨s, hs, hrest⟩ : ∃ s, Run step s₀ [l] s ∧ Run step s ls t := Run.split h
  refine ⟨s, ?_, hrest⟩
  generalize hms : [l] = ms at hs
  cases hs with
  | nil => cases hms
  | snoc hrun hstep =>
    obtain ⟨rfl, rfl⟩ := List.append_singleton_inj.mp (show [] ++ [l] = _ from hms)
    rwa [hrun.eq_of_nil] at hstep

/-- Where something can always be done that lowers the rank, it can be brought to zero. -/
theorem Run.descend (P : σ → Prop) (L : ℓ → Prop) (rank : σ → Nat)
    (hstep : ∀ s, P s → rank s ≠ 0 → ∃ l t, step s l t ∧ L l ∧ P t ∧ rank t < rank s) {s : σ} (h : P s) :
    ∃ ls t, Run step s ls t ∧ (∀ l ∈ ls, L l) ∧ P t ∧ rank t = 0 ∧ ls.length ≤ rank s := by
  induction hr : rank s using Nat.strong_induction_on generalizing s with
  | _ r ih =>
    subst hr
    by_cases hzero : rank s = 0
    · exact ⟨[], s, .nil, nofun, h, hzero, Nat.zero_le _⟩
    · obtain ⟨l, t, hs, hl, ht, hlt⟩ := hstep s h hzero
      obtain ⟨ls, v, hrun, hls, hv, hvzero, hlen⟩ := ih (rank t) hlt ht rfl
      refine ⟨l :: ls, v, (Run.snoc .nil hs).append hrun, ?_, hv, hvzero, ?_⟩
      · exact List.forall_mem_cons.mpr ⟨hl, hls⟩
      · rw [List.length_cons]
        omega

end MiniOS.Lib
