import MiniOS.Lib.Locks
import MiniOS.Chat.Deadlock

/-!
# Transfers at the same time

`deadlock_demo_safe` by any number of agents. One step of an agent is one access to a lock
word, or the code between two accesses.
-/

open MiniOS.Lib MiniOS.Vga

namespace MiniOS.Chat

/-- Up to the second `spin_lock`. -/
def takeLocks : List (LockOp User (Action Unit)) :=
  [.clear .vga, .clear .serial,
    .work (say [.serial (lit "  TRANSFERENCIA SEGURA (hierarquia)\r\n"),
      .console (lit "\nTRANSFERENCIA SEGURA\n") CONSOLE_LIGHT_GREEN,
      .console (lit "Regra: lock_vga sempre antes de lock_serial\n") CONSOLE_LIGHT_GREY,
      .serial (lit "[Seguro] Pegando lock_vga (1o)...\r\n"),
      .console (lit "[Seguro] Pegando lock_vga...\n") CONSOLE_LIGHT_CYAN]),
    .lock .vga,
    .work (say [.serial (lit "[Seguro] lock_vga ok!\r\n"),
      .console (lit "[Seguro] lock_vga ok!\n") CONSOLE_LIGHT_GREEN,
      .serial (lit "[Seguro] Pegando lock_serial (2o)...\r\n"),
      .console (lit "[Seguro] Pegando lock_serial...\n") CONSOLE_LIGHT_CYAN]),
    .lock .serial]

def showFiles : Action Unit := do
  let (vga, serial) ← Prog.read fun s => ((s.file .vga).data.toList, (s.file .serial).data.toList)
  say [.serial (lit "[Seguro] lock_serial ok!\r\n"),
    .console (lit "[Seguro] lock_serial ok!\n") CONSOLE_LIGHT_GREEN,
    .serial (lit "[Seguro] Transferindo dados...\r\n"),
    .console (lit "[Seguro] Trocando: ") CONSOLE_WHITE, .console vga CONSOLE_LIGHT_MAGENTA,
    .console (lit " <-> ") CONSOLE_WHITE, .console serial CONSOLE_LIGHT_MAGENTA,
    .console (lit "\n") CONSOLE_WHITE]

def swapUnderLocks : List (LockOp User (Action Unit)) := [.work showFiles, .work swapFiles]

/-- From the first `spin_unlock`. -/
def releaseLocks : List (LockOp User (Action Unit)) :=
  [.unlock .serial, .unlock .vga,
    .work (say [.serial (lit "[Seguro] Locks liberados!\r\n\r\n"),
      .console (lit "[Seguro] Sem deadlock.\n") CONSOLE_LIGHT_GREEN])]

def transfer : List (LockOp User (Action Unit)) := takeLocks ++ (swapUnderLocks ++ releaseLocks)

/-- One agent alone. -/
def inOrder : List (LockOp User (Action Unit)) → Action Unit
  | [] => pure ()
  | .clear u :: ops => do
    setLocked u 0#32
    inOrder ops
  | .lock u :: ops => do
    spin_lock u
    inOrder ops
  | .unlock u :: ops => do
    spin_unlock u
    inOrder ops
  | .work action :: ops => do
    action
    inOrder ops

theorem transfer_inOrder : inOrder transfer = deadlock_demo_safe := by
  unfold deadlock_demo_safe transfer takeLocks swapUnderLocks releaseLocks showFiles
  simp only [List.cons_append, List.nil_append, inOrder, bind_assoc, bind_pure_unit]

/-! ## Locks and swap -/

/-- Past the second `spin_lock` and before the first `spin_unlock`. -/
def Swapping (rest : List (LockOp User (Action Unit))) : Prop :=
  releaseLocks <:+ rest ∧ rest <:+ swapUnderLocks ++ releaseLocks

theorem swapping_iff_length {rest : List (LockOp User (Action Unit))} (h : rest <:+ transfer) :
    Swapping rest ↔ 3 ≤ rest.length ∧ rest.length ≤ 5 := by
  have hswap : swapUnderLocks ++ releaseLocks <:+ transfer := List.suffix_append ..
  have hrelease : releaseLocks <:+ transfer := (List.suffix_append ..).trans hswap
  constructor
  · rintro ⟨hlow, hhigh⟩
    exact ⟨hlow.length_le, hhigh.length_le⟩
  · rintro ⟨hlow, hhigh⟩
    exact ⟨List.suffix_of_suffix_length_le hrelease h hlow, List.suffix_of_suffix_length_le h hswap hhigh⟩

theorem due_drop_iff : ∀ k ≤ 11, Due .serial (transfer.drop k) ↔ 6 ≤ k ∧ k < 9 := by decide

/-- The swap runs under `lock_serial`, and nothing else does. -/
theorem swapping_iff {rest : List (LockOp User (Action Unit))} (h : rest <:+ transfer) :
    Swapping rest ↔ Due .serial rest := by
  have htotal : transfer.length = 11 := rfl
  have hlen := h.length_le
  have hdrop := List.suffix_iff_eq_drop.mp h
  rw [htotal] at hlen hdrop
  have hdue := due_drop_iff (11 - rest.length) (by omega)
  rw [← hdrop] at hdue
  rw [swapping_iff_length h, hdue]
  constructor <;> intro hk <;> constructor <;> omega

theorem transfer_paired : Paired transfer := by
  simp [transfer, takeLocks, swapUnderLocks, releaseLocks, Paired, Due]

/-- `lock_vga` before `lock_serial`. -/
def hierarchy : User → ℕ
  | .vga => 0
  | .serial => 1

theorem transfer_ranked : Ranked hierarchy transfer := by
  simp only [transfer, takeLocks, swapUnderLocks, releaseLocks, List.cons_append, List.nil_append, Ranked, Due]
  refine ⟨?_, by simp, ?_, by simp, trivial⟩
  · intro l hvga hdue
    cases l with
    | vga => exact absurd rfl hvga
    | serial => exact absurd rfl hdue.1
  · intro l hserial _
    cases l with
    | vga => exact Nat.zero_lt_one
    | serial => exact absurd rfl hserial

/-- Each agent at the start of the transfer, whatever is in the lock words. -/
def transfers {A : Type} (words : User → Word) : Locks A User (Action Unit) := ⟨words, fun _ => transfer⟩

def SameLocked (s t : State) : Prop := ∀ u, (t.file u).locked = (s.file u).locked

theorem say_keeps_locked (outs : List Print) : (say outs).Each SameLocked :=
  (say_each outs).mono fun _ _ h u => by rw [h.file]

theorem read_keeps_locked {α : Type} (g : State → α) : (Prog.read g : Action α).Each SameLocked :=
  Prog.each_read (fun _ _ => rfl) g

theorem copyToFile_keeps_locked (u : User) (src : List Byte) : (copyToFile u src).Each SameLocked := by
  apply Prog.each_update fun _ _ => rfl
  intro s t h v
  obtain ⟨data, -, rfl⟩ := Option.map_eq_some_iff.mp h
  rw [file_setFile]
  split
  · next hv => rw [hv]
  · rfl

theorem swapFiles_keeps_locked : swapFiles.Each SameLocked :=
  (read_keeps_locked _).bind fun _ => (Prog.each_get _ _).bind fun _ => (read_keeps_locked _).bind fun _ =>
    (copyToFile_keeps_locked _ _).bind fun _ => copyToFile_keeps_locked _ _

/-- What lies between two accesses to a lock word writes neither. -/
theorem work_keeps_locked {action : Action Unit} (h : .work action ∈ transfer) : action.Each SameLocked := by
  simp only [transfer, takeLocks, swapUnderLocks, releaseLocks, List.cons_append, List.nil_append,
    List.mem_cons, reduceCtorEq, LockOp.work.injEq, List.not_mem_nil, false_or, or_false] at h
  rcases h with rfl | rfl | rfl | rfl | rfl
  · exact say_keeps_locked _
  · exact say_keeps_locked _
  · exact (read_keeps_locked _).bind fun _ => say_keeps_locked _
  · exact swapFiles_keeps_locked
  · exact say_keeps_locked _

/-! ## Any interleaving -/

instance : Finite User := .of_surjective (fun b : Bool => cond b User.vga .serial) fun u => by
  cases u with
  | vga => exact ⟨true, rfl⟩
  | serial => exact ⟨false, rfl⟩

variable {A : Type} {words : User → Word} {s t : Locks A User (Action Unit)} {a : A} {ls : List A}

/-- The next step of `a` does not clear `lock_serial` while another agent swaps. -/
def SparesSwap (s : Locks A User (Action Unit)) (a : A) : Prop :=
  ∀ ops, s.rest a = .clear .serial :: ops → ∀ b, b ≠ a → ¬ Swapping (s.rest b)

theorem spares_of_start (h : ∀ b, b ≠ a → s.rest b = transfer) : SparesSwap s a := by
  intro ops _ b hb hswap
  rw [h b hb, swapping_iff (List.suffix_refl _)] at hswap
  exact absurd hswap (by decide)

variable [DecidableEq A]

theorem suffix_step (h : ∀ a, s.rest a <:+ transfer) (hs : Locks.Step s a t) :
    ∀ a, t.rest a <:+ transfer :=
  hs.forall_rest (P := (· <:+ transfer)) (fun op ops h => (List.suffix_cons op ops).trans h) h

theorem swapping_release : Swapping (swapUnderLocks ++ releaseLocks) :=
  ⟨List.suffix_append .., List.suffix_refl _⟩

/-- Whoever starts gets both locks in six steps, whoever had them. -/
theorem start_takes_locks {step : Locks A User (Action Unit) → A → Locks A User (Action Unit) → Prop}
    {s₀ : Locks A User (Action Unit)} (h : Run step s₀ ls s) (hstart : s.rest a = transfer)
    (hstep : ∀ u v, (∀ b, b ≠ a → u.rest b = s.rest b) → Locks.Step u a v → step u a v) :
    ∃ ms t, Run step s₀ ms t ∧ t.rest a = swapUnderLocks ++ releaseLocks ∧
      ∀ b, b ≠ a → t.rest b = s.rest b := by
  have hvga := h.snoc (hstep _ _ (fun _ _ => rfl) (.clear hstart))
  have hserial := hvga.snoc (hstep _ _ (fun b hb => by simp [hb]) (.clear (Function.update_self ..)))
  have hsay := hserial.snoc (hstep _ _ (fun b hb => by simp [hb]) (.work (Function.update_self ..)))
  have hfirst := hsay.snoc
    (hstep _ _ (fun b hb => by simp [hb]) (.acquire (Function.update_self ..) (by simp)))
  have hwait := hfirst.snoc (hstep _ _ (fun b hb => by simp [hb]) (.work (Function.update_self ..)))
  have hsecond := hwait.snoc
    (hstep _ _ (fun b hb => by simp [hb]) (.acquire (Function.update_self ..) (by simp)))
  refine ⟨_, _, hsecond, ?_, fun b hb => ?_⟩
  · simp
  · simp [hb]

/-- **No two swaps at once, as long as no start of a transfer clears `lock_serial` under a swap.** -/
theorem transfers_exclusive
    (h : Run (fun s a t => SparesSwap s a ∧ Locks.Step s a t) (transfers words) ls s) (a b : A)
    (ha : Swapping (s.rest a)) (hb : Swapping (s.rest b)) : a = b := by
  obtain ⟨hrun, hsuffix⟩ := h.inv
    (fun ls s => Run (fun s a t => s.Respects .serial a ∧ Locks.Step s a t) (transfers words) ls s ∧
      ∀ a, s.rest a <:+ transfer)
    ⟨.nil, fun _ => List.suffix_refl _⟩ fun ls s a t ⟨hrun, hsuffix⟩ ⟨hspares, hstep⟩ => by
      refine ⟨hrun.snoc ⟨fun ops hops b hba hdue => ?_, hstep⟩, suffix_step hsuffix hstep⟩
      exact hspares ops hops b hba ((swapping_iff (hsuffix b)).mpr hdue)
  have hfree : ¬ Due .serial transfer := by decide
  have hexclusive := Locks.exclusive_run (fun _ => transfer_paired) (fun _ => hfree) hrun
  exact hexclusive.one a b ((swapping_iff (hsuffix a)).mp ha) ((swapping_iff (hsuffix b)).mp hb)

theorem transfers_exclusive_two : ∃ (ls : List Bool) (s : Locks Bool User (Action Unit)),
    Run (fun s a t => SparesSwap s a ∧ Locks.Step s a t) (transfers fun _ => 0#32) ls s ∧
      Swapping (s.rest true) ∧ ∀ b, Swapping (s.rest b) → b = true := by
  obtain ⟨ls, s, hs, hfirst, hother⟩ := start_takes_locks (a := true)
    (Run.nil : Run (fun s a t => SparesSwap s a ∧ Locks.Step s a t) (transfers fun _ => 0#32) [] _) rfl
    fun u v hstart hstep => ⟨spares_of_start hstart, hstep⟩
  have hswapping : Swapping (s.rest true) := by
    rw [hfirst]
    exact swapping_release
  exact ⟨ls, s, hs, hswapping, fun b hb => transfers_exclusive hs b true hb hswapping⟩

/-- The second agent starts while the first swaps. It frees both locks and takes them too. -/
theorem second_start_swaps : ¬ ∀ (words : User → Word) (ls : List Bool) (s : Locks Bool User (Action Unit)),
    Run Locks.Step (transfers words) ls s → ∀ a b, Swapping (s.rest a) → Swapping (s.rest b) → a = b := by
  intro h
  obtain ⟨ls, s, hs, hfirst, hother⟩ := start_takes_locks (a := true)
    (Run.nil : Run Locks.Step (transfers fun _ => 0#32) [] _) rfl fun _ _ _ hstep => hstep
  obtain ⟨ms, t, ht, hsecond, hsame⟩ := start_takes_locks (a := false) hs (hother false (by decide))
    fun _ _ _ hstep => hstep
  have heq := h _ ms t ht true false (by rw [hsame true (by decide), hfirst]; exact swapping_release)
    (by rw [hsecond]; exact swapping_release)
  exact absurd heq (by decide)

/-- **Whoever has not finished, somebody has a step that is not a failed attempt at a lock.** -/
theorem transfers_progress (h : Run Locks.Step (transfers words) ls s) (hrest : s.rest a ≠ []) :
    ∃ b t, s.rest b ≠ [] ∧ Locks.Step s b t ∧ ¬ s.Spins b := by
  have hlive : Live hierarchy s := by
    refine Locks.live_run ⟨fun _ => transfer_paired, fun _ => transfer_ranked, fun l _ => Or.inr fun _ => ?_⟩ h
    cases l with
    | vga => exact .head _
    | serial => exact .tail _ (.head _)
  obtain ⟨b, t, hstep, hspins⟩ := hlive.progress hrest
  exact ⟨b, t, hstep.rest_ne_nil, hstep, hspins⟩

theorem transfers_progress_two : ∃ (ls : List Bool) (s : Locks Bool User (Action Unit)),
    Run Locks.Step (transfers fun _ => 0#32) ls s ∧ s.rest true = swapUnderLocks ++ releaseLocks ∧
      ∃ b t, s.rest b ≠ [] ∧ Locks.Step s b t ∧ ¬ s.Spins b := by
  obtain ⟨ls, s, hs, hfirst, -⟩ := start_takes_locks (a := true)
    (Run.nil : Run Locks.Step (transfers fun _ => 0#32) [] _) rfl fun _ _ _ hstep => hstep
  have hrest : s.rest true ≠ [] := by
    rw [hfirst]
    exact List.cons_ne_nil _ _
  exact ⟨ls, s, hs, hfirst, transfers_progress hs hrest⟩

/-! ## On the files -/

/-- The agents on the chat's own state. -/
structure Agents (A : Type) where
  state : State
  rest : A → List (LockOp User (Action Unit))

def Agents.next (s : Agents A) (a : A) (ops : List (LockOp User (Action Unit))) (t : State) : Agents A :=
  ⟨t, Function.update s.rest a ops⟩

inductive Agents.Step : Agents A → A → Agents A → Prop
  | clear {s : Agents A} {a : A} {u : User} {ops : List (LockOp User (Action Unit))} {t : State} :
      s.rest a = .clear u :: ops → (setLocked u 0#32).exec s.state = .ok ((), t) → Step s a (s.next a ops t)
  | acquire {s : Agents A} {a : A} {u : User} {ops : List (LockOp User (Action Unit))} {t : State} :
      s.rest a = .lock u :: ops → (spin_lock u).exec s.state = .ok ((), t) → Step s a (s.next a ops t)
  | spin {s : Agents A} {a : A} {u : User} {ops : List (LockOp User (Action Unit))} {t : State} :
      s.rest a = .lock u :: ops → (spin_lock u).exec s.state = .error .spin →
        (setLocked u 1#32).exec s.state = .ok ((), t) → Step s a { s with state := t }
  | unlock {s : Agents A} {a : A} {u : User} {ops : List (LockOp User (Action Unit))} {t : State} :
      s.rest a = .unlock u :: ops → (spin_unlock u).exec s.state = .ok ((), t) → Step s a (s.next a ops t)
  | work {s : Agents A} {a : A} {action : Action Unit} {ops : List (LockOp User (Action Unit))} {t : State} :
      s.rest a = .work action :: ops → action.exec s.state = .ok ((), t) → Step s a (s.next a ops t)

def Agents.locks (s : Agents A) : Locks A User (Action Unit) := ⟨fun u => (s.state.file u).locked, s.rest⟩

theorem locked_of_setLocked {u : User} {v : Word} {s t : State} (h : (setLocked u v).exec s = .ok ((), t)) :
    (fun w => (t.file w).locked) = Function.update (fun w => (s.file w).locked) u v := by
  cases h
  funext w
  rw [file_setFile, Function.update_apply]
  split <;> rfl

theorem exec_spin_lock (u : User) (s : State) : (spin_lock u).exec s =
    if (s.file u).locked ≠ 0#32 then .error .spin else (setLocked u 1#32).exec s := by
  by_cases hfree : (s.file u).locked = 0#32
  · simp [spin_lock, setLocked, Prog.exec, atomic_xchg, hfree]
  · simp [spin_lock, Prog.exec, atomic_xchg, hfree]

theorem Agents.locks_setLocked {s : Agents A} {u : User} {v : Word} {t : State}
    (h : (setLocked u v).exec s.state = .ok ((), t)) (ops : List (LockOp User (Action Unit))) :
    (s.next a ops t).locks = (s.locks.store u v).next a ops :=
  congrArg (fun word => (⟨word, _⟩ : Locks A User (Action Unit))) (locked_of_setLocked h)

theorem Agents.Step.locks {s t : Agents A} (h : Agents.Step s a t) (hrest : s.rest a <:+ transfer) :
    Locks.Step s.locks a t.locks := by
  cases h with
  | clear hops hexec =>
    rw [Agents.locks_setLocked hexec]
    exact .clear hops
  | @acquire u ops t hops hexec =>
    rw [exec_spin_lock] at hexec
    by_cases hfree : (s.state.file u).locked = 0#32
    · rw [if_neg (not_not.mpr hfree)] at hexec
      rw [Agents.locks_setLocked hexec]
      exact .acquire hops hfree
    · rw [if_pos hfree] at hexec
      cases hexec
  | @spin u ops t hops hspin hexec =>
    rw [exec_spin_lock] at hspin
    by_cases hfree : (s.state.file u).locked = 0#32
    · rw [if_neg (not_not.mpr hfree)] at hspin
      cases hspin
    · have hword : (⟨t, s.rest⟩ : Agents A).locks = s.locks.store u 1#32 :=
        congrArg (fun word => (⟨word, s.rest⟩ : Locks A User (Action Unit))) (locked_of_setLocked hexec)
      rw [hword]
      exact .spin hops hfree
  | unlock hops hexec =>
    rw [Agents.locks_setLocked hexec]
    exact .unlock hops
  | @work action ops t hops hexec =>
    have haction : .work action ∈ transfer := by
      rw [hops] at hrest
      exact hrest.subset (.head _)
    have hkept : SameLocked s.state t := (work_keeps_locked haction).exec (fun _ _ => rfl)
      (fun _ _ _ h h' u => (h' u).trans (h u)) hexec
    have hword : (s.next a ops t).locks = s.locks.next a ops :=
      congrArg (fun word => (⟨word, _⟩ : Locks A User (Action Unit))) (funext hkept)
    rw [hword]
    exact .work hops

/-- What the agents do to the two words on the chat's state, they do on the words alone. -/
theorem agents_run {s₀ s : Agents A} (h : Run Agents.Step s₀ ls s) (hstart : ∀ a, s₀.rest a = transfer) :
    Run Locks.Step (transfers fun u => (s₀.state.file u).locked) ls s.locks := by
  have hlocks : s₀.locks = transfers fun u => (s₀.state.file u).locked := by
    rw [Agents.locks, transfers, funext hstart]
  obtain ⟨t, ht, rfl, -⟩ := h.simulation (fun s t => t = s.locks ∧ ∀ a, t.rest a <:+ transfer) id
    ⟨rfl, fun a => by rw [hlocks]; exact List.suffix_refl _⟩ fun s _ a t ⟨hs, hsuffix⟩ hstep => by
      subst hs
      have hlocks := hstep.locks (hsuffix a)
      exact ⟨_, hlocks, rfl, suffix_step hsuffix hlocks⟩
  rwa [List.map_id, hlocks] at ht

end MiniOS.Chat
