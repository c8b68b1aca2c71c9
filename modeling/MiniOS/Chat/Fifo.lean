import MiniOS.Chat.Queue

/-!
# The queue under interrupts

`kbd_pop` runs statement by statement, and an interrupt may come before any of them
that finds the interrupt flag set. `Popping` is the invariant: from `cli` to `sti` the
flag is clear, so what `kbd_pop` has seen of the queue stays true.
-/

open MiniOS.Lib

namespace MiniOS.Chat

def Pop.Masked (pc : Pop) : Prop := pc ≠ .cli

def Pop.takes : Pop → List Byte
  | .advance c => [c]
  | _ => []

def After.pc : After → Option Pop
  | .next pc => some pc
  | .returned _ => none

/-- The machine, with two lists that only record: the bytes accepted and the bytes popped so far. -/
structure Fifo where
  queue : Queue
  interrupts : Bool
  pc : Option Pop
  accepted : List Byte
  popped : List Byte

/-- `chat_init` empties the queue. Its slots keep what they held. -/
def Fifo.start (kbd_ring : Vector Byte KBD_RING_SZ) (interrupts : Bool) : Fifo :=
  ⟨⟨kbd_ring, 0#8, 0#8⟩, interrupts, none, [], []⟩

inductive Fifo.Label
  | irq (c : Byte)
  | call
  | statement
  | caller (interrupts : Bool)

/-- The caller may set and clear the flag too, as `chat_submit` does. -/
inductive Fifo.Step : Fifo → Fifo.Label → Fifo → Prop
  | irq {s : Fifo} {c : Byte} : s.interrupts = true →
      Step s (.irq c)
        { s with
          queue := chat_kbd_enqueue s.queue c
          accepted := if s.queue.Accepts c then s.accepted ++ [c] else s.accepted }
  | call {s : Fifo} : s.pc = none → Step s .call { s with pc := some .cli }
  | statement {s : Fifo} {pc : Pop} {after : After} {q : Queue} {interrupts : Bool} :
      s.pc = some pc → kbd_pop pc s.queue s.interrupts = (after, q, interrupts) →
      Step s .statement
        { s with queue := q, interrupts := interrupts, pc := after.pc, popped := s.popped ++ pc.takes }
  | caller {s : Fifo} {interrupts : Bool} : s.pc = none →
      Step s (.caller interrupts) { s with interrupts := interrupts }

/-! ## The invariant -/

structure Popping (q : Queue) (interrupts : Bool) (pc : Option Pop) (accepted popped : List Byte) :
    Prop where
  fifo : popped ++ q.pending = accepted
  masked : ∀ p, pc = some p → p.Masked → interrupts = false
  read : pc = some .read → q.kbd_head ≠ q.kbd_tail
  advance : ∀ c, pc = some (.advance c) →
    q.kbd_head ≠ q.kbd_tail ∧ q.kbd_ring.get q.kbd_head.toFin = c
  empty : pc = some (.sti none) → q.pending = []
  taken : ∀ c, pc = some (.sti (some c)) → popped.getLast? = some c

variable {q : Queue} {interrupts : Bool} {accepted popped : List Byte}

theorem Popping.outside (pc : Option Pop) (hpc : pc = none ∨ pc = some .cli)
    (h : popped ++ q.pending = accepted) : Popping q interrupts pc accepted popped := by
  refine ⟨h, ?_, ?_, ?_, ?_, ?_⟩ <;> rcases hpc with rfl | rfl <;> simp [Pop.Masked]

theorem Popping.unmasked {pc : Option Pop} (h : Popping q true pc accepted popped) :
    pc = none ∨ pc = some .cli := by
  cases pc with
  | none => exact Or.inl rfl
  | some p =>
    by_cases hp : p = .cli
    · exact Or.inr (congrArg some hp)
    · exact absurd (h.masked p rfl hp) (by simp)

theorem Popping.irq {pc : Option Pop} (h : Popping q true pc accepted popped) (c : Byte) :
    Popping (chat_kbd_enqueue q c) true pc (if q.Accepts c then accepted ++ [c] else accepted)
      popped := by
  apply Popping.outside pc h.unmasked
  by_cases hc : q.Accepts c
  · rw [if_pos hc, pending_enqueue hc, ← List.append_assoc, h.fifo]
  · rw [if_neg hc, chat_kbd_enqueue_rejected hc, h.fifo]

theorem Popping.statement {pc : Pop} (h : Popping q interrupts (some pc) accepted popped)
    {after : After} {q' : Queue} {interrupts' : Bool}
    (hs : kbd_pop pc q interrupts = (after, q', interrupts')) :
    Popping q' interrupts' after.pc accepted (popped ++ pc.takes) := by
  have hfifo := h.fifo
  cases pc with
  | cli =>
    obtain ⟨rfl, rfl, rfl⟩ : After.next .compare = after ∧ q = q' ∧ false = interrupts' := by
      simpa [kbd_pop] using hs
    exact ⟨by simpa [Pop.takes] using hfifo, by simp, by simp [After.pc], by simp [After.pc],
      by simp [After.pc], by simp [After.pc]⟩
  | compare =>
    have hmask := h.masked _ rfl (by simp [Pop.Masked])
    subst hmask
    by_cases heq : q.kbd_head = q.kbd_tail
    · obtain ⟨rfl, rfl, rfl⟩ : After.next (.sti none) = after ∧ q = q' ∧ false = interrupts' := by
        simpa [kbd_pop, heq] using hs
      exact ⟨by simpa [Pop.takes] using hfifo, by simp, by simp [After.pc], by simp [After.pc],
        fun _ => (pending_eq_nil q).mpr heq, by simp [After.pc]⟩
    · obtain ⟨rfl, rfl, rfl⟩ : After.next .read = after ∧ q = q' ∧ false = interrupts' := by
        simpa [kbd_pop, heq] using hs
      exact ⟨by simpa [Pop.takes] using hfifo, by simp, fun _ => heq, by simp [After.pc],
        by simp [After.pc], by simp [After.pc]⟩
  | read =>
    have hmask := h.masked _ rfl (by simp [Pop.Masked])
    subst hmask
    obtain ⟨rfl, rfl, rfl⟩ : After.next (.advance (q.kbd_ring.get q.kbd_head.toFin)) = after ∧
        q = q' ∧ false = interrupts' := by simpa [kbd_pop] using hs
    refine ⟨by simpa [Pop.takes] using hfifo, by simp, by simp [After.pc], ?_, by simp [After.pc],
      by simp [After.pc]⟩
    rintro c ⟨⟩
    exact ⟨h.read rfl, rfl⟩
  | advance c =>
    have hmask := h.masked _ rfl (by simp [Pop.Masked])
    subst hmask
    obtain ⟨hne, rfl⟩ := h.advance c rfl
    obtain ⟨rfl, rfl, rfl⟩ : After.next (.sti (some (q.kbd_ring.get q.kbd_head.toFin))) = after ∧
        q.advance = q' ∧ false = interrupts' := by simpa [kbd_pop] using hs
    refine ⟨?_, by simp, by simp [After.pc], by simp [After.pc], by simp [After.pc], ?_⟩
    · rw [pending_advance hne] at hfifo
      simpa [Pop.takes] using hfifo
    · rintro c ⟨⟩
      simp [Pop.takes]
  | sti ret =>
    obtain ⟨rfl, rfl, rfl⟩ : After.returned ret = after ∧ q = q' ∧ true = interrupts' := by
      simpa [kbd_pop] using hs
    exact Popping.outside _ (Or.inl rfl) (by simpa [Pop.takes] using hfifo)

def Fifo.Inv (s : Fifo) : Prop := Popping s.queue s.interrupts s.pc s.accepted s.popped

theorem Fifo.start_inv (kbd_ring : Vector Byte KBD_RING_SZ) (interrupts : Bool) :
    (Fifo.start kbd_ring interrupts).Inv :=
  Popping.outside _ (Or.inl rfl) ((pending_eq_nil _).mpr rfl)

theorem Fifo.step_inv {s t : Fifo} {l : Fifo.Label} (h : s.Inv) (hs : Fifo.Step s l t) : t.Inv := by
  cases hs with
  | irq hset =>
    unfold Fifo.Inv at h ⊢
    rw [hset] at h
    simpa only [hset] using h.irq _
  | call hpc => exact Popping.outside _ (Or.inr rfl) h.fifo
  | statement hpc hrun =>
    unfold Fifo.Inv at h
    rw [hpc] at h
    exact h.statement hrun
  | caller hpc => exact Popping.outside _ (Or.inl hpc) h.fifo

theorem kbd_pop_returned {pc : Pop} {q' : Queue} {interrupts' : Bool} {ret : Option Byte}
    (h : kbd_pop pc q interrupts = (.returned ret, q', interrupts')) : pc = .sti ret ∧ q' = q := by
  cases pc with
  | sti ret' =>
    obtain ⟨rfl, rfl, -⟩ : ret' = ret ∧ q = q' ∧ true = interrupts' := by simpa [kbd_pop] using h
    exact ⟨rfl, rfl⟩
  | _ => simp [kbd_pop] at h

/-- **A bounded FIFO.** In every run the bytes popped and the bytes pending are the bytes accepted,
in order. A byte is accepted below 255 pending ones, and one that is not leaves no trace. When `kbd_pop`
returns 0 nothing is pending, and when it returns a byte, that is the one popped last. -/
theorem kbd_queue_fifo (kbd_ring : Vector Byte KBD_RING_SZ) (interrupts : Bool)
    {ls : List Fifo.Label} {s : Fifo} (h : Run Fifo.Step (Fifo.start kbd_ring interrupts) ls s) :
    s.popped ++ s.queue.pending = s.accepted ∧
      (∀ c, s.queue.Accepts c ↔ s.queue.pending.length < 255) ∧
      (∀ c, ¬ s.queue.Accepts c → chat_kbd_enqueue s.queue c = s.queue) ∧
      (∀ pc q set, s.pc = some pc →
        kbd_pop pc s.queue s.interrupts = (.returned none, q, set) →
        s.queue.pending = [] ∧ q.pending = [] ∧ pc.takes = []) ∧
      ∀ pc c q set, s.pc = some pc →
        kbd_pop pc s.queue s.interrupts = (.returned (some c), q, set) →
        q = s.queue ∧ (s.popped ++ pc.takes).getLast? = some c := by
  have hinv : s.Inv := h.state_inv Fifo.Inv (Fifo.start_inv _ _) fun _ _ _ => Fifo.step_inv
  refine ⟨hinv.fifo, accepts_iff s.queue, fun c hc => chat_kbd_enqueue_rejected hc, ?_, ?_⟩
  · intro pc q set hpc hpop
    obtain ⟨rfl, rfl⟩ := kbd_pop_returned hpop
    exact ⟨hinv.empty hpc, hinv.empty hpc, rfl⟩
  · intro pc c q set hpc hpop
    obtain ⟨rfl, rfl⟩ := kbd_pop_returned hpop
    exact ⟨rfl, (congrArg List.getLast? (List.append_nil s.popped)).trans (hinv.taken c hpc)⟩

/-- A key that comes before `cli` is popped by the call that it interrupted. -/
theorem kbd_queue_one_key :
    ∃ s, Run Fifo.Step (Fifo.start (Vector.replicate _ 0#8) true)
        [.call, .irq 0x61#8, .statement, .statement, .statement, .statement] s ∧
      s.popped = [0x61#8] ∧ s.queue.pending = [] := by
  have hrun : ∃ s, Run Fifo.Step (Fifo.start (Vector.replicate _ 0#8) true)
      [.call, .irq 0x61#8, .statement, .statement, .statement, .statement] s ∧
      s.popped = [0x61#8] ∧ s.accepted = [0x61#8] :=
    ⟨_, .snoc (.snoc (.snoc (.snoc (.snoc (.snoc .nil (.call rfl)) (.irq rfl)) (.statement rfl rfl))
      (.statement rfl rfl)) (.statement rfl rfl)) (.statement rfl rfl), by decide, by decide⟩
  obtain ⟨s, hrun, hpopped, haccepted⟩ := hrun
  obtain ⟨hfifo, -⟩ := kbd_queue_fifo _ _ hrun
  rw [hpopped, haccepted] at hfifo
  exact ⟨s, hrun, hpopped, List.append_cancel_left (hfifo.trans (List.append_nil _).symm)⟩

end MiniOS.Chat
