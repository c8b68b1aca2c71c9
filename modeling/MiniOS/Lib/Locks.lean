import MiniOS.Lib.Run

/-!
# Agents and spinlocks

Any number of agents, each with a straight line of operations on shared lock words. A
lock is taken by an atomic exchange, tried again until it finds the word clear. An agent
may also store to a word directly.
-/

namespace MiniOS.Lib

inductive LockOp (L W : Type)
  | clear (l : L)
  | lock (l : L)
  | unlock (l : L)
  | work (w : W)

variable {A L W : Type}

/-- The lock is among those that the agent has taken and not yet released. -/
def Due (l : L) : List (LockOp L W) → Prop
  | [] => False
  | .clear _ :: ops => Due l ops
  | .lock k :: ops => k ≠ l ∧ Due l ops
  | .unlock k :: ops => k = l ∨ Due l ops
  | .work _ :: ops => Due l ops

instance decidableDue [DecidableEq L] (l : L) : (ops : List (LockOp L W)) → Decidable (Due l ops)
  | [] => inferInstanceAs (Decidable False)
  | .clear _ :: ops => decidableDue l ops
  | .lock k :: ops =>
    have := decidableDue l ops
    inferInstanceAs (Decidable (k ≠ l ∧ Due l ops))
  | .unlock k :: ops =>
    have := decidableDue l ops
    inferInstanceAs (Decidable (k = l ∨ Due l ops))
  | .work _ :: ops => decidableDue l ops

/-- Locks are taken and released in pairs, and no agent clears a lock that it has. -/
def Paired : List (LockOp L W) → Prop
  | [] => True
  | .clear k :: ops => ¬ Due k ops ∧ Paired ops
  | .lock k :: ops => Due k ops ∧ Paired ops
  | .unlock k :: ops => ¬ Due k ops ∧ Paired ops
  | .work _ :: ops => Paired ops

/-- Each lock is taken after those of lower rank, and no word is cleared from then on. -/
def Ranked (rank : L → ℕ) : List (LockOp L W) → Prop
  | [] => True
  | .clear _ :: ops => Ranked rank ops
  | .lock k :: ops =>
    (∀ l, l ≠ k → Due l ops → rank l < rank k) ∧ (∀ l, .clear l ∉ ops) ∧ Ranked rank ops
  | .unlock _ :: ops => Ranked rank ops
  | .work _ :: ops => Ranked rank ops

variable {op : LockOp L W} {ops : List (LockOp L W)}

theorem Paired.tail (h : Paired (op :: ops)) : Paired ops := by
  cases op with
  | work w => exact h
  | _ => exact h.2

theorem Ranked.tail {rank : L → ℕ} (h : Ranked rank (op :: ops)) : Ranked rank ops := by
  cases op with
  | lock k => exact h.2.2
  | _ => exact h

/-! ## Steps -/

/-- What each agent has still to do. -/
structure Locks (A L W : Type) where
  word : L → BitVec 32
  rest : A → List (LockOp L W)

namespace Locks

def store [DecidableEq L] (s : Locks A L W) (l : L) (v : BitVec 32) : Locks A L W :=
  { s with word := Function.update s.word l v }

def next [DecidableEq A] (s : Locks A L W) (a : A) (ops : List (LockOp L W)) : Locks A L W :=
  { s with rest := Function.update s.rest a ops }

@[simp] theorem rest_next [DecidableEq A] (s : Locks A L W) (a b : A) (ops : List (LockOp L W)) :
    (s.next a ops).rest b = if b = a then ops else s.rest b := Function.update_apply ..

@[simp] theorem word_next [DecidableEq A] (s : Locks A L W) (a : A) (ops : List (LockOp L W)) :
    (s.next a ops).word = s.word := rfl

@[simp] theorem rest_store [DecidableEq L] (s : Locks A L W) (l : L) (v : BitVec 32) :
    (s.store l v).rest = s.rest := rfl

@[simp] theorem word_store [DecidableEq L] (s : Locks A L W) (l k : L) (v : BitVec 32) :
    (s.store l v).word k = if k = l then v else s.word k := Function.update_apply ..

/-- One step of one agent. `spin` is an exchange that finds the lock taken. -/
inductive Step [DecidableEq A] [DecidableEq L] : Locks A L W → A → Locks A L W → Prop
  | clear {s : Locks A L W} {a : A} {l : L} {ops : List (LockOp L W)} :
      s.rest a = .clear l :: ops → Step s a ((s.store l 0#32).next a ops)
  | acquire {s : Locks A L W} {a : A} {l : L} {ops : List (LockOp L W)} :
      s.rest a = .lock l :: ops → s.word l = 0#32 → Step s a ((s.store l 1#32).next a ops)
  | spin {s : Locks A L W} {a : A} {l : L} {ops : List (LockOp L W)} :
      s.rest a = .lock l :: ops → s.word l ≠ 0#32 → Step s a (s.store l 1#32)
  | unlock {s : Locks A L W} {a : A} {l : L} {ops : List (LockOp L W)} :
      s.rest a = .unlock l :: ops → Step s a ((s.store l 0#32).next a ops)
  | work {s : Locks A L W} {a : A} {w : W} {ops : List (LockOp L W)} :
      s.rest a = .work w :: ops → Step s a (s.next a ops)

/-- The next operation of `a` does not clear a lock that another agent has. -/
def Respects (l : L) (s : Locks A L W) (a : A) : Prop :=
  ∀ ops, s.rest a = .clear l :: ops → ∀ b, b ≠ a → ¬ Due l (s.rest b)

/-- The agent waits for a lock. -/
def Spins (s : Locks A L W) (a : A) : Prop :=
  ∃ l ops, s.rest a = .lock l :: ops ∧ s.word l ≠ 0#32

end Locks

variable {s t : Locks A L W} {a : A} {l : L}

/-- What holds of an agent's operations, and of the rest of them, holds after any step. -/
theorem Locks.Step.forall_rest [DecidableEq A] [DecidableEq L] {P : List (LockOp L W) → Prop}
    (htail : ∀ op ops, P (op :: ops) → P ops) (h : ∀ a, P (s.rest a)) (hs : Locks.Step s a t) :
    ∀ b, P (t.rest b) := by
  have hnext : ∀ op ops, s.rest a = op :: ops → ∀ b, P (if b = a then ops else s.rest b) := by
    intro op ops hops b
    split
    · have ha := h a
      rw [hops] at ha
      exact htail op ops ha
    · exact h b
  intro b
  cases hs with
  | clear hops => simpa using hnext _ _ hops b
  | acquire hops _ => simpa using hnext _ _ hops b
  | spin hops _ => exact h b
  | unlock hops => simpa using hnext _ _ hops b
  | work hops => simpa using hnext _ _ hops b

theorem Locks.due_of_next [DecidableEq A] (hops : s.rest a = op :: ops) (hop : Due l ops → Due l (op :: ops)) {b : A}
    (hb : Due l ((s.next a ops).rest b)) : Due l (s.rest b) := by
  rw [Locks.rest_next] at hb
  split at hb
  · next hba =>
    rw [hba, hops]
    exact hop hb
  · exact hb

theorem Locks.not_due_next [DecidableEq A] (hmine : ¬ Due l ops)
    (hothers : ∀ b, b ≠ a → ¬ Due l (s.rest b)) (b : A) : ¬ Due l ((s.next a ops).rest b) := by
  rw [Locks.rest_next]
  split
  · exact hmine
  · next hba => exact hothers b hba

theorem Locks.Step.rest_ne_nil [DecidableEq A] [DecidableEq L] (hs : Locks.Step s a t) :
    s.rest a ≠ [] := by
  cases hs with
  | clear hops | acquire hops _ | spin hops _ | unlock hops | work hops => simp [hops]

/-! ## Exclusion -/

structure Exclusive (l : L) (s : Locks A L W) : Prop where
  paired : ∀ a, Paired (s.rest a)
  taken : ∀ a, Due l (s.rest a) → s.word l ≠ 0#32
  one : ∀ a b, Due l (s.rest a) → Due l (s.rest b) → a = b

/-- Nobody new has the lock. -/
theorem Exclusive.keep (h : Exclusive l s) (hpaired : ∀ a, Paired (t.rest a))
    (hdue : ∀ b, Due l (t.rest b) → Due l (s.rest b)) (hword : ∀ b, Due l (t.rest b) → t.word l ≠ 0#32) :
    Exclusive l t :=
  ⟨hpaired, hword, fun a b ha hb => h.one a b (hdue a ha) (hdue b hb)⟩

section

variable [DecidableEq A] [DecidableEq L]

theorem Locks.Step.paired (hs : Locks.Step s a t) (h : ∀ a, Paired (s.rest a)) : ∀ a, Paired (t.rest a) :=
  hs.forall_rest (P := Paired) (fun _ _ h => h.tail) h

/-- A lock word is cleared, and if it is the word of `l`, nobody has `l` from then on. -/
theorem Exclusive.freed {k : L} (h : Exclusive l s)
    (hpaired : ∀ b, Paired (((s.store k 0#32).next a ops).rest b)) (hops : s.rest a = op :: ops)
    (hop : Due l ops → Due l (op :: ops)) (hnone : l = k → ∀ b, ¬ Due l ((s.next a ops).rest b)) :
    Exclusive l ((s.store k 0#32).next a ops) := by
  refine h.keep hpaired (fun b => Locks.due_of_next hops hop) fun b hb => ?_
  rw [Locks.word_next, Locks.word_store]
  split
  · next hk => exact absurd hb (hnone hk b)
  · exact h.taken b (Locks.due_of_next hops hop hb)

theorem Exclusive.clear {k : L} (h : Exclusive l s) (hrespects : s.Respects l a)
    (hpaired : ∀ b, Paired (((s.store k 0#32).next a ops).rest b)) (hops : s.rest a = .clear k :: ops) :
    Exclusive l ((s.store k 0#32).next a ops) := by
  refine h.freed hpaired hops (fun hdue => hdue) ?_
  -- neither `a` nor another has it
  rintro rfl
  have ha := h.paired a
  rw [hops] at ha
  exact Locks.not_due_next ha.1 (hrespects ops hops)

theorem Exclusive.unlock {k : L} (h : Exclusive l s)
    (hpaired : ∀ b, Paired (((s.store k 0#32).next a ops).rest b)) (hops : s.rest a = .unlock k :: ops) :
    Exclusive l ((s.store k 0#32).next a ops) := by
  refine h.freed hpaired hops Or.inr ?_
  -- `a` had it, so nobody else had
  rintro rfl
  have hmine : Due l (s.rest a) := by
    rw [hops]
    exact Or.inl rfl
  have ha := h.paired a
  rw [hops] at ha
  exact Locks.not_due_next ha.1 fun b hba hb => hba (h.one b a hb hmine)

theorem Exclusive.acquire {k : L} (h : Exclusive l s)
    (hpaired : ∀ b, Paired (((s.store k 1#32).next a ops).rest b)) (hops : s.rest a = .lock k :: ops)
    (hfree : s.word k = 0#32) : Exclusive l ((s.store k 1#32).next a ops) := by
  by_cases hk : k = l
  · -- it was free, so nobody had it
    subst hk
    have honly : ∀ b, Due k ((s.next a ops).rest b) → b = a := by
      intro b hb
      by_contra hba
      rw [Locks.rest_next, if_neg hba] at hb
      exact h.taken b hb hfree
    refine ⟨hpaired, fun b _ => by simp, fun b c hb hc => ?_⟩
    rw [honly b hb, honly c hc]
  · have hop : Due l ops → Due l (.lock k :: ops) := fun hdue => ⟨hk, hdue⟩
    refine h.keep hpaired (fun b => Locks.due_of_next hops hop) fun b hb => ?_
    rw [Locks.word_next, Locks.word_store, if_neg (Ne.symm hk)]
    exact h.taken b (Locks.due_of_next hops hop hb)

theorem Exclusive.step (h : Exclusive l s) (hrespects : s.Respects l a) (hs : Locks.Step s a t) :
    Exclusive l t := by
  have hpaired := hs.paired h.paired
  cases hs with
  | clear hops => exact h.clear hrespects hpaired hops
  | acquire hops hfree => exact h.acquire hpaired hops hfree
  | spin hops htaken =>
    refine h.keep hpaired (fun b hb => hb) fun b hb => ?_
    rw [Locks.word_store]
    split
    · decide
    · exact h.taken b hb
  | unlock hops => exact h.unlock hpaired hops
  | work hops =>
    exact h.keep hpaired (fun b => Locks.due_of_next hops fun hdue => hdue) fun b hb =>
      h.taken b (Locks.due_of_next hops (fun hdue => hdue) hb)

/-- While nobody clears a lock that another has, at most one has it. -/
theorem Locks.exclusive_run {s₀ : Locks A L W} (hpaired : ∀ a, Paired (s₀.rest a))
    (hfree : ∀ a, ¬ Due l (s₀.rest a)) {ls : List A}
    (h : Run (fun s a t => s.Respects l a ∧ Locks.Step s a t) s₀ ls s) : Exclusive l s :=
  h.state_inv (Exclusive l) ⟨hpaired, fun a ha => absurd ha (hfree a), fun a _ ha => absurd ha (hfree a)⟩
    fun _ _ _ hs hstep => hs.step hstep.1 hstep.2

end

/-! ## Progress -/

/-- A lock found taken has an agent that will release it, or was taken before the start. -/
structure Live (rank : L → ℕ) (s : Locks A L W) : Prop where
  paired : ∀ a, Paired (s.rest a)
  ranked : ∀ a, Ranked rank (s.rest a)
  owed : ∀ l, s.word l ≠ 0#32 → (∃ a, Due l (s.rest a)) ∨ ∀ a, .clear l ∈ s.rest a

variable {rank : L → ℕ}

theorem Live.holder (h : Live rank s) (hops : s.rest a = .lock l :: ops) (htaken : s.word l ≠ 0#32) :
    ∃ b, Due l (s.rest b) := by
  apply (h.owed l htaken).resolve_right
  intro hall
  have ha := hall a
  have hranked := h.ranked a
  rw [hops] at ha hranked
  -- an agent that has come to a lock has cleared all that it will
  exact hranked.2.1 l ((List.mem_cons.mp ha).resolve_left (by simp))

/-- An operation that leaves the word of `l` as it is leaves its releaser too. -/
theorem Live.owed_next [DecidableEq A] (h : Live rank s) (hops : s.rest a = op :: ops)
    (hdue : Due l (op :: ops) → Due l ops) (hclear : op ≠ .clear l) (hword : s.word l ≠ 0#32) :
    (∃ b, Due l ((s.next a ops).rest b)) ∨ ∀ b, .clear l ∈ (s.next a ops).rest b := by
  simp only [Locks.rest_next]
  cases h.owed l hword with
  | inl hb =>
    obtain ⟨b, hb⟩ := hb
    refine Or.inl ⟨b, ?_⟩
    split
    · next hba =>
      rw [hba, hops] at hb
      exact hdue hb
    · exact hb
  | inr hall =>
    refine Or.inr fun b => ?_
    split
    · have ha := hall a
      rw [hops, List.mem_cons] at ha
      exact ha.resolve_left (Ne.symm hclear)
    · exact hall b

variable [DecidableEq A] [DecidableEq L]

/-- A lock that is still taken after a word was cleared is another one. -/
theorem Locks.taken_store {k : L} (h : ((s.store k 0#32).next a ops).word l ≠ 0#32) :
    l ≠ k ∧ s.word l ≠ 0#32 := by
  rw [Locks.word_next, Locks.word_store] at h
  split at h
  · exact absurd rfl h
  · next hk => exact ⟨hk, h⟩

theorem Live.step (h : Live rank s) (hs : Locks.Step s a t) : Live rank t := by
  refine ⟨hs.paired h.paired, hs.forall_rest (P := Ranked rank) (fun _ _ h => h.tail) h.ranked, ?_⟩
  intro l hword
  cases hs with
  | @clear k ops hops =>
    obtain ⟨hk, hword⟩ := Locks.taken_store hword
    exact h.owed_next hops (fun h => h) (by simpa using Ne.symm hk) hword
  | @acquire k ops hops _ =>
    rw [Locks.word_next, Locks.word_store] at hword
    by_cases hk : l = k
    · -- `a` has it now
      subst hk
      have ha := h.paired a
      rw [hops] at ha
      exact Or.inl ⟨a, by simpa using ha.1⟩
    · rw [if_neg hk] at hword
      exact h.owed_next hops (fun h => h.2) (by simp) hword
  | @spin k ops hops htaken =>
    rw [Locks.word_store] at hword
    apply h.owed l
    split at hword
    · next hk => rwa [hk]
    · exact hword
  | @unlock k ops hops =>
    obtain ⟨hk, hword⟩ := Locks.taken_store hword
    exact h.owed_next hops (fun h => h.resolve_left (Ne.symm hk)) (by simp) hword
  | work hops => exact h.owed_next hops (fun h => h) (by simp) hword

/-- An agent that does not wait can step. -/
theorem Locks.exists_step (hrest : s.rest a ≠ []) (hspins : ¬ s.Spins a) :
    ∃ t, Locks.Step s a t := by
  cases hops : s.rest a with
  | nil => exact absurd hops hrest
  | cons op ops =>
    cases op with
    | clear l => exact ⟨_, .clear hops⟩
    | lock l =>
      have hfree : s.word l = 0#32 := by
        by_contra htaken
        exact hspins ⟨l, ops, hops, htaken⟩
      exact ⟨_, .acquire hops hfree⟩
    | unlock l => exact ⟨_, .unlock hops⟩
    | work w => exact ⟨_, .work hops⟩

/-- Whoever waits for a lock waits for an agent that waits for a lock of higher rank, or for none. -/
theorem Live.exists_step (h : Live rank s) {bound : ℕ} (hbound : ∀ l, rank l ≤ bound)
    (hdue : Due l (s.rest a)) : ∃ b t, Locks.Step s b t ∧ ¬ s.Spins b := by
  induction hn : bound - rank l using Nat.strong_induction_on generalizing l a with
  | _ n ih =>
    have hrest : s.rest a ≠ [] := by
      intro hnil
      rw [hnil] at hdue
      exact hdue
    by_cases hspins : s.Spins a
    · obtain ⟨k, ops, hops, htaken⟩ := hspins
      have hranked := h.ranked a
      rw [hops] at hranked hdue
      have hlt : rank l < rank k := hranked.1 l (Ne.symm hdue.1) hdue.2
      have hk := hbound k
      obtain ⟨b, hb⟩ := h.holder hops htaken
      exact ih (bound - rank k) (by omega) hb rfl
    · obtain ⟨t, ht⟩ := Locks.exists_step hrest hspins
      exact ⟨a, t, ht, hspins⟩

/-- With a fixed order of locks somebody can go on until all have finished. -/
theorem Live.progress [Finite L] (h : Live rank s) (hrest : s.rest a ≠ []) :
    ∃ b t, Locks.Step s b t ∧ ¬ s.Spins b := by
  by_cases hspins : s.Spins a
  · obtain ⟨k, ops, hops, htaken⟩ := hspins
    obtain ⟨bound, hbound⟩ := (Set.finite_range rank).bddAbove
    obtain ⟨b, hb⟩ := h.holder hops htaken
    exact h.exists_step (fun l => hbound ⟨l, rfl⟩) hb
  · obtain ⟨t, ht⟩ := Locks.exists_step hrest hspins
    exact ⟨a, t, ht, hspins⟩

theorem Locks.live_run {s₀ : Locks A L W} (h₀ : Live rank s₀) {ls : List A}
    (h : Run Locks.Step s₀ ls s) : Live rank s :=
  h.state_inv (Live rank) h₀ fun _ _ _ hs hstep => hs.step hstep

end MiniOS.Lib
