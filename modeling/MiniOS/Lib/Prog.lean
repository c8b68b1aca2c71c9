import Mathlib

/-!
# Programs, one statement at a time

A program over a state `σ` returns, faults, or does a statement and goes on. `exec`
runs it in one go. A machine that interleaves it with other code takes it apart at
`stmt`, and `exec` of what is left says how it will end.
-/

namespace MiniOS.Lib

/-- What comes after a statement may depend on the state that the statement found. -/
inductive Prog (ε σ α : Type)
  | ret (a : α)
  | fault (e : ε)
  | stmt (f : σ → σ) (k : σ → Prog ε σ α)

namespace Prog

variable {ε σ α β : Type}

def bind : Prog ε σ α → (α → Prog ε σ β) → Prog ε σ β
  | ret a, q => q a
  | fault e, _ => fault e
  | stmt f k, q => stmt f fun s => (k s).bind q

instance : Monad (Prog ε σ) where
  pure := ret
  bind := bind

instance : LawfulMonad (Prog ε σ) := LawfulMonad.mk' _
  (fun p => by
    show p.bind ret = p
    induction p with
    | ret a => rfl
    | fault e => rfl
    | stmt f k ih => simp only [bind, ih])
  (fun _ _ => rfl)
  (fun p q r => by
    show (p.bind q).bind r = p.bind fun a => (q a).bind r
    induction p with
    | ret a => rfl
    | fault e => rfl
    | stmt f k ih => simp only [bind, ih])

def modify (f : σ → σ) : Prog ε σ Unit := stmt f fun _ => ret ()

def read (g : σ → α) : Prog ε σ α := stmt id fun s => ret (g s)

def get (e : ε) : Option α → Prog ε σ α
  | some a => ret a
  | none => fault e

def update (e : ε) (f : σ → Option σ) : Prog ε σ Unit :=
  stmt (fun s => (f s).getD s) fun s => get e ((f s).map fun _ => ())

def exec : Prog ε σ α → σ → Except ε (α × σ)
  | ret a, s => .ok (a, s)
  | fault e, _ => .error e
  | stmt f k, s => (k s).exec (f s)

/-- How many statements that takes. -/
def steps : Prog ε σ α → σ → Nat
  | ret _, _ => 0
  | fault _, _ => 0
  | stmt f k, s => (k s).steps (f s) + 1

theorem exec_bind (p : Prog ε σ α) (q : α → Prog ε σ β) (s : σ) :
    (p >>= q).exec s = (p.exec s).bind fun x => (q x.1).exec x.2 := by
  show (p.bind q).exec s = _
  induction p generalizing s with
  | ret a => rfl
  | fault e => rfl
  | stmt f k ih => exact ih s (f s)

@[simp] theorem exec_ret (a : α) (s : σ) : (ret a : Prog ε σ α).exec s = .ok (a, s) := rfl

@[simp] theorem exec_pure (a : α) (s : σ) : (pure a : Prog ε σ α).exec s = .ok (a, s) := rfl

@[simp] theorem exec_fault (e : ε) (s : σ) : (fault e : Prog ε σ α).exec s = .error e := rfl

@[simp] theorem exec_modify (f : σ → σ) (s : σ) :
    (modify f : Prog ε σ Unit).exec s = .ok ((), f s) := rfl

@[simp] theorem exec_read (g : σ → α) (s : σ) :
    (read g : Prog ε σ α).exec s = .ok (g s, s) := rfl

theorem exec_update {e : ε} {f : σ → Option σ} {s t : σ} (h : f s = some t) :
    (update e f).exec s = .ok ((), t) := by
  simp [update, exec, h, get]

theorem get_bind {e : ε} {x : Option α} {a : α} (h : x = some a) (q : α → Prog ε σ β) :
    get e x >>= q = q a := by
  subst h
  rfl

theorem exec_bind_ok {p : Prog ε σ α} {q : α → Prog ε σ β} {s t : σ} {a : α}
    (h : p.exec s = .ok (a, t)) : (p >>= q).exec s = (q a).exec t := by
  rw [exec_bind, h]
  rfl

theorem exec_bind_error {p : Prog ε σ α} {q : α → Prog ε σ β} {s : σ} {e : ε}
    (h : p.exec s = .error e) : (p >>= q).exec s = .error e := by
  rw [exec_bind, h]
  rfl

/-- A loop over a list, each round of which does what `f` does as long as `I` holds. -/
theorem exec_forM {I : σ → Prop} {f : σ → β → σ} {body : β → Prog ε σ Unit} {xs : List β}
    (h : ∀ x ∈ xs, ∀ s, I s → (body x).exec s = .ok ((), f s x) ∧ I (f s x)) {s : σ} (hs : I s) :
    (xs.forM body).exec s = .ok ((), xs.foldl f s) ∧ I (xs.foldl f s) := by
  induction xs generalizing s with
  | nil => exact ⟨rfl, hs⟩
  | cons x xs ih =>
    obtain ⟨hx, hI⟩ := h x List.mem_cons_self s hs
    show (body x >>= fun _ => xs.forM body).exec s = .ok ((), xs.foldl f (f s x)) ∧ I (xs.foldl f (f s x))
    rw [exec_bind_ok hx]
    exact ih (fun y hy => h y (List.mem_cons_of_mem x hy)) hI

/-! ## Specifications -/

/-- From `s` the program runs to its end, and `Q` holds there. -/
def wp (p : Prog ε σ α) (Q : α → σ → Prop) (s : σ) : Prop := ∃ a t, p.exec s = .ok (a, t) ∧ Q a t

variable {Q Q' : α → σ → Prop} {s : σ}

theorem wp_of_exec {p : Prog ε σ α} {a : α} {t : σ} (h : p.exec s = .ok (a, t)) :
    p.wp Q s ↔ Q a t := by
  unfold wp
  rw [h]
  constructor
  · rintro ⟨a', t', ⟨⟩, hq⟩
    exact hq
  · exact fun hq => ⟨a, t, rfl, hq⟩

theorem wp_bind {p : Prog ε σ α} {q : α → Prog ε σ β} {Q : β → σ → Prop} :
    (p >>= q).wp Q s ↔ p.wp (fun a => (q a).wp Q) s := by
  unfold wp
  rw [exec_bind]
  cases h : p.exec s with
  | error e => simp [Except.bind]
  | ok x =>
    obtain ⟨a, t⟩ := x
    simp only [Except.bind, Except.ok.injEq, Prod.mk.injEq]
    constructor
    · exact fun hq => ⟨a, t, ⟨rfl, rfl⟩, hq⟩
    · rintro ⟨a', t', ⟨rfl, rfl⟩, hq⟩
      exact hq

theorem wp_mono {p : Prog ε σ α} (h : p.wp Q s) (hQ : ∀ a t, Q a t → Q' a t) : p.wp Q' s := by
  obtain ⟨a, t, hrun, hq⟩ := h
  exact ⟨a, t, hrun, hQ a t hq⟩

@[simp] theorem wp_ret (a : α) : (ret a : Prog ε σ α).wp Q s ↔ Q a s := wp_of_exec rfl

@[simp] theorem wp_pure (a : α) : (pure a : Prog ε σ α).wp Q s ↔ Q a s := wp_of_exec rfl

@[simp] theorem wp_modify (f : σ → σ) {Q : Unit → σ → Prop} :
    (modify f : Prog ε σ Unit).wp Q s ↔ Q () (f s) := wp_of_exec rfl

@[simp] theorem wp_read (g : σ → α) : (read g : Prog ε σ α).wp Q s ↔ Q (g s) s := wp_of_exec rfl

theorem wp_and {p : Prog ε σ α} (h : p.wp Q s) (h' : p.wp Q' s) : p.wp (fun a t => Q a t ∧ Q' a t) s := by
  obtain ⟨a, t, hrun, hq⟩ := h
  exact ⟨a, t, hrun, hq, (wp_of_exec hrun).mp h'⟩

theorem wp_get {e : ε} {x : Option α} {a : α} (h : x = some a) :
    (get e x : Prog ε σ α).wp Q s ↔ Q a s := by
  subst h
  exact wp_ret a

theorem wp_update {e : ε} {f : σ → Option σ} {t : σ} (h : f s = some t) {Q : Unit → σ → Prop} :
    (update e f).wp Q s ↔ Q () t := wp_of_exec (exec_update h)

/-! ## What every statement keeps -/

/-- Each statement of the program, from any state, is in `R`. -/
def Each (R : σ → σ → Prop) : Prog ε σ α → Prop
  | ret _ => True
  | fault _ => True
  | stmt f k => ∀ s, R s (f s) ∧ (k s).Each R

variable {R : σ → σ → Prop}

theorem Each.bind {p : Prog ε σ α} {q : α → Prog ε σ β} (hp : p.Each R) (hq : ∀ a, (q a).Each R) :
    (p >>= q).Each R := by
  show (p.bind q).Each R
  induction p with
  | ret a => exact hq a
  | fault e => trivial
  | stmt f k ih => exact fun s => ⟨(hp s).1, ih s (hp s).2⟩

theorem Each.mono {R' : σ → σ → Prop} {p : Prog ε σ α} (hp : p.Each R) (h : ∀ s t, R s t → R' s t) :
    p.Each R' := by
  induction p with
  | ret a => trivial
  | fault e => trivial
  | stmt f k ih => exact fun s => ⟨h s _ (hp s).1, ih s (hp s).2⟩

theorem each_modify {f : σ → σ} (h : ∀ s, R s (f s)) : (modify f : Prog ε σ Unit).Each R :=
  fun s => ⟨h s, trivial⟩

theorem each_read (h : ∀ s, R s s) (g : σ → α) : (read g : Prog ε σ α).Each R :=
  fun s => ⟨h s, trivial⟩

theorem each_get (e : ε) (x : Option α) : (get e x : Prog ε σ α).Each R := by
  cases x <;> trivial

theorem each_update {e : ε} {f : σ → Option σ} (hrefl : ∀ s, R s s)
    (h : ∀ s t, f s = some t → R s t) : (update e f).Each R := by
  intro s
  cases hf : f s with
  | none => exact ⟨by simpa [hf] using hrefl s, each_get e _⟩
  | some t => exact ⟨by simpa [hf] using h s t hf, each_get e _⟩

theorem Each.exec (hrefl : ∀ s, R s s) (htrans : ∀ s t u, R s t → R t u → R s u) {p : Prog ε σ α}
    (hp : p.Each R) {s t : σ} {a : α} (h : p.exec s = .ok (a, t)) : R s t := by
  induction p generalizing s with
  | ret b =>
    obtain ⟨-, rfl⟩ := Prod.mk.inj (Except.ok.inj h)
    exact hrefl _
  | fault e => cases h
  | stmt f k ih => exact htrans _ _ _ (hp s).1 (ih s (hp s).2 h)

theorem Each.wp (hrefl : ∀ s, R s s) (htrans : ∀ s t u, R s t → R t u → R s u) {p : Prog ε σ α}
    (hp : p.Each R) (h : p.wp Q s) : p.wp (fun a t => Q a t ∧ R s t) s := by
  obtain ⟨a, t, hrun, hq⟩ := h
  exact ⟨a, t, hrun, hq, hp.exec hrefl htrans hrun⟩

/-! ## Both ends -/

/-- `Q` holds where the program returns, and `E` where it faults. -/
def ends (Q : α → σ → Prop) (E : ε → σ → Prop) : Prog ε σ α → σ → Prop
  | ret a, s => Q a s
  | fault e, s => E e s
  | stmt f k, s => (k s).ends Q E (f s)

variable {E E' : ε → σ → Prop}

theorem ends_bind {p : Prog ε σ α} {q : α → Prog ε σ β} {Q : β → σ → Prop} :
    (p >>= q).ends Q E s ↔ p.ends (fun a => (q a).ends Q E) E s := by
  show (p.bind q).ends Q E s ↔ _
  induction p generalizing s with
  | ret a => rfl
  | fault e => rfl
  | stmt f k ih => exact ih s

@[simp] theorem ends_modify (f : σ → σ) {Q : Unit → σ → Prop} :
    (modify f : Prog ε σ Unit).ends Q E s ↔ Q () (f s) := Iff.rfl

@[simp] theorem ends_read (g : σ → α) : (read g : Prog ε σ α).ends Q E s ↔ Q (g s) s := Iff.rfl

theorem ends_update {e : ε} {f : σ → Option σ} {Q : Unit → σ → Prop} (hsome : ∀ t, f s = some t → Q () t)
    (hnone : f s = none → E e s) : (update e f).ends Q E s := by
  cases h : f s with
  | none => simpa [update, ends, h, get] using hnone h
  | some t => simpa [update, ends, h, get] using hsome t h

theorem ends_mono {p : Prog ε σ α} (h : p.ends Q E s) (hQ : ∀ a t, Q a t → Q' a t)
    (hE : ∀ e t, E e t → E' e t) : p.ends Q' E' s := by
  induction p generalizing s with
  | ret a => exact hQ a s h
  | fault e => exact hE e s h
  | stmt f k ih => exact ih s h

/-- The state in which the program returns or faults. -/
def last : Prog ε σ α → σ → σ
  | ret _, s => s
  | fault _, s => s
  | stmt f k, s => (k s).last (f s)

theorem ends_last {p : Prog ε σ α} (h : p.ends Q E s) :
    (∃ a, p.exec s = .ok (a, p.last s) ∧ Q a (p.last s)) ∨ ∃ e, p.exec s = .error e ∧ E e (p.last s) := by
  induction p generalizing s with
  | ret a => exact Or.inl ⟨a, rfl, h⟩
  | fault e => exact Or.inr ⟨e, rfl, h⟩
  | stmt f k ih => exact ih s h

theorem ends_exec {p : Prog ε σ α} {a : α} {t : σ} (h : p.ends Q E s) (hrun : p.exec s = .ok (a, t)) :
    Q a t := by
  rcases ends_last h with ⟨a', hrun', hq⟩ | ⟨e, herror, -⟩
  · obtain ⟨rfl, ht⟩ := Prod.mk.inj (Except.ok.inj (hrun'.symm.trans hrun))
    rwa [ht] at hq
  · rw [hrun] at herror
    cases herror

theorem exec_of_ends {p : Prog ε σ α} {a : α} {t : σ}
    (h : p.ends (fun a' t' => a' = a ∧ t' = t) (fun _ _ => False) s) : p.exec s = .ok (a, t) := by
  rcases ends_last h with ⟨a', hrun, ha, ht⟩ | ⟨_, -, hfalse⟩
  · rwa [ha, ht] at hrun
  · exact hfalse.elim

theorem ends_of_wp {p : Prog ε σ α} (h : p.wp Q s) : p.ends Q E s := by
  obtain ⟨a, t, hrun, hq⟩ := h
  induction p generalizing s with
  | ret b =>
    obtain ⟨rfl, rfl⟩ := Prod.mk.inj (Except.ok.inj hrun)
    exact hq
  | fault e => cases hrun
  | stmt f k ih => exact ih s hrun

/-! ## On a part of the state -/

/-- The program, on the part of a larger state that `view` shows and `set` puts back. -/
def on {ε' τ : Type} (view : τ → σ) (set : τ → σ → τ) (wrap : ε → ε') : Prog ε σ α → Prog ε' τ α
  | ret a => ret a
  | fault e => fault (wrap e)
  | stmt f k => stmt (fun t => set t (f (view t))) fun t => (k (view t)).on view set wrap

theorem ends_on {ε' τ : Type} {view : τ → σ} {set : τ → σ → τ} {wrap : ε → ε'}
    (hview : ∀ t s, view (set t s) = s) (hset : ∀ t s s', set (set t s) s' = set t s')
    (hsame : ∀ t, set t (view t) = t) {p : Prog ε σ α} {Q : α → τ → Prop} {E : ε' → τ → Prop} {t : τ}
    (h : p.ends (fun a s => Q a (set t s)) (fun e s => E (wrap e) (set t s)) (view t)) :
    (p.on view set wrap).ends Q E t := by
  induction p generalizing t with
  | ret a =>
    rw [ends, hsame] at h
    exact h
  | fault e =>
    rw [ends, hsame] at h
    exact h
  | stmt f k ih =>
    apply ih (view t)
    simp only [hview, hset]
    exact h

theorem Each.on {ε' τ : Type} {view : τ → σ} {set : τ → σ → τ} {wrap : ε → ε'} {R : σ → σ → Prop}
    {R' : τ → τ → Prop} {p : Prog ε σ α} (hp : p.Each R) (h : ∀ t s, R (view t) s → R' t (set t s)) :
    (p.on view set wrap).Each R' := by
  induction p with
  | ret a => trivial
  | fault e => trivial
  | stmt f k ih => exact fun t => ⟨h t _ (hp (view t)).1, ih (view t) (hp (view t)).2⟩

/-! ## What goes on beside the program -/

/-- What `beside` does to the state, at any time, makes no difference to the program. -/
def Spares {δ : Type} (beside : δ → σ → σ) : Prog ε σ α → Prop
  | ret _ => True
  | fault _ => True
  | stmt f k => ∀ s, (∀ d, f (beside d s) = beside d (f s) ∧ k (beside d s) = k s) ∧ (k s).Spares beside

variable {δ : Type} {beside : δ → σ → σ}

theorem Spares.bind {p : Prog ε σ α} {q : α → Prog ε σ β} (hp : p.Spares beside)
    (hq : ∀ a, (q a).Spares beside) : (p >>= q).Spares beside := by
  show (p.bind q).Spares beside
  induction p with
  | ret a => exact hq a
  | fault e => trivial
  | stmt f k ih =>
    intro s
    obtain ⟨hs, hrest⟩ := hp s
    exact ⟨fun d => ⟨(hs d).1, congrArg (fun p => p.bind q) (hs d).2⟩, ih s hrest⟩

theorem spares_update {e : ε} {f : σ → Option σ} (h : ∀ d s, f (beside d s) = (f s).map (beside d)) :
    (update e f).Spares beside := by
  intro s
  cases hf : f s with
  | none => exact ⟨fun d => by simp [h, hf], by simp [hf, get, Spares]⟩
  | some t => exact ⟨fun d => by simp [h, hf], by simp [hf, get, Spares]⟩

theorem Spares.on {ε' τ : Type} {view : τ → σ} {set : τ → σ → τ} {wrap : ε → ε'} {beside : δ → τ → τ}
    (hview : ∀ d t, view (beside d t) = view t) (hset : ∀ d t s, set (beside d t) s = beside d (set t s))
    (p : Prog ε σ α) : (p.on view set wrap).Spares beside := by
  induction p with
  | ret a => trivial
  | fault e => trivial
  | stmt f k ih =>
    intro t
    refine ⟨fun d => ⟨?_, ?_⟩, ih (view t)⟩
    · dsimp only
      rw [hview, hset]
    · dsimp only
      rw [hview]

theorem Spares.ends {p : Prog ε σ α} (h : p.Spares beside) (hQ : ∀ a d s, Q a s → Q a (beside d s))
    (hE : ∀ e d s, E e s → E e (beside d s)) (d : δ) (hs : p.ends Q E s) : p.ends Q E (beside d s) := by
  induction p generalizing s with
  | ret a => exact hQ a d s hs
  | fault e => exact hE e d s hs
  | stmt f k ih =>
    obtain ⟨hstep, hrest⟩ := h s
    show (k (beside d s)).ends Q E (f (beside d s))
    rw [(hstep d).1, (hstep d).2]
    exact ih s hrest hs

theorem Spares.steps {p : Prog ε σ α} (h : Spares beside p) (d : δ) :
    p.steps (beside d s) = p.steps s := by
  induction p generalizing s with
  | ret a => rfl
  | fault e => rfl
  | stmt f k ih =>
    obtain ⟨hstep, hrest⟩ := h s
    show (k (beside d s)).steps (f (beside d s)) + 1 = (k s).steps (f s) + 1
    rw [(hstep d).1, (hstep d).2, ih s hrest]

end Prog

end MiniOS.Lib
