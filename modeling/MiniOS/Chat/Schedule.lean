import MiniOS.Chat.Poll
import MiniOS.Chat.Transcript

/-!
# The chat on any schedule

`chat_init` and the endless loop, statement by statement. Wherever the keyboard interrupts
and whenever the port is ready, the chat is the machine on lists, on some interleaving of
what both users send.
-/

open MiniOS.Lib MiniOS.Vga

namespace MiniOS.Chat

/-- The first two statements of `chat_init` empty the queue. -/
inductive Place
  | head
  | tail
  | init (rest : Action Unit)
  | loop (pc : Pc)

/-- The two lists only record: what the queue has accepted since it was emptied, and the keys that went to
the editors. -/
structure Session where
  queue : Queue
  state : State
  place : Place
  accepted : List Byte
  keys : List Key

def Session.start (q : Queue) (s : State) : Session := ⟨q, s, .head, [], []⟩

/-- Of the characters of one interrupt, those for which the queue has room. -/
def accepts : Queue → List Byte → List Byte
  | _, [] => []
  | q, c :: cs => (if q.Accepts c then [c] else []) ++ accepts (chat_kbd_enqueue q c) cs

/-- The key that goes to its editor with the step. -/
def Pc.begins : Pc → Kernel.Label → List Key
  | .pop (.sti (some c)), _ => [.kbd c]
  | .rx, .rx c => [.ser c]
  | _, _ => []

inductive Session.Step (s : Session) : Kernel.Label → Session → Prop
  | irq {codes : List Byte} : s.state.interrupts = true →
      Step s (.irq codes)
        { s with
          queue := keyboard_handler codes s.queue
          accepted := s.accepted ++ accepts s.queue (codes.filterMap translate) }
  | head : s.place = .head →
      Step s .statement { s with queue := { s.queue with kbd_head := 0#8 }, place := .tail }
  | tail : s.place = .tail →
      Step s .statement
        { s with queue := { s.queue with kbd_tail := 0#8 }, place := .init chat_init, accepted := [] }
  | init {f : State → State} {rest : State → Action Unit} : s.place = .init (.stmt f rest) →
      Step s .statement { s with state := f s.state, place := .init (rest s.state) }
  | initReturn : s.place = .init (.ret ()) → Step s .statement { s with place := .loop (.pop .cli) }
  | loop {pc : Pc} {l : Kernel.Label} {k : Kernel} : s.place = .loop pc → (∀ codes, l ≠ .irq codes) →
      Kernel.Step ⟨s.queue, s.state, pc⟩ l k →
      Step s l ⟨k.queue, k.state, .loop k.pc, s.accepted, s.keys ++ pc.begins l⟩

/-- What is left of the editor at work. -/
def Pc.rest : Pc → Action Unit
  | .kbd rest => rest
  | .ser rest => rest
  | _ => .ret ()

/-- Where the editor at work will leave the state. -/
def Session.settled (s : Session) : State :=
  match s.place with
  | .loop pc => pc.rest.last s.state
  | _ => s.state

def typed (ks : List Key) : List Byte := ks.filterMap fun k => match k with
  | .kbd c => some c
  | .ser _ => none

def received (ks : List Key) : List Byte := ks.filterMap fun k => match k with
  | .kbd _ => none
  | .ser c => some c

/-- What came in at the port. -/
def receivedIn (ls : List Kernel.Label) : List Byte := ls.filterMap fun l => match l with
  | .rx c => some c
  | _ => none

/-- The character that `kbd_pop` is about to return. -/
def Pc.held : Pc → List Byte
  | .pop (.sti (some c)) => [c]
  | _ => []

/-! ## The queue -/

theorem Popping.accepts {q : Queue} {pc : Option Pop} {accepted popped : List Byte} {cs : List Byte}
    (h : Popping q true pc accepted popped) :
    Popping (cs.foldl chat_kbd_enqueue q) true pc (accepted ++ accepts q cs) popped := by
  induction cs generalizing q accepted with
  | nil => simpa [Chat.accepts] using h
  | cons c cs ih =>
    have hnext := ih (h.irq c)
    rw [List.foldl_cons, Chat.accepts]
    by_cases hc : q.Accepts c
    · simpa [hc] using hnext
    · simpa [hc] using hnext

/-- Wherever the tail is, and whatever came meanwhile. -/
theorem pending_emptied {q : Queue} (h : q.kbd_head = 0#8) :
    Queue.pending { q with kbd_tail := 0#8 } = [] :=
  (pending_eq_nil _).mpr h

theorem head_enqueue (q : Queue) (c : Byte) : (chat_kbd_enqueue q c).kbd_head = q.kbd_head := by
  unfold chat_kbd_enqueue
  dsimp only
  split <;> rfl

theorem head_keyboard_handler (codes : List Byte) (q : Queue) :
    (keyboard_handler codes q).kbd_head = q.kbd_head := by
  rw [keyboard_handler_eq]
  induction codes.filterMap translate generalizing q with
  | nil => rfl
  | cons c cs ih => rw [List.foldl_cons, ih, head_enqueue]

/-! ## One key -/

theorem Talk.run_snoc {d d' : Talk} {ks : List Key} (h : (d.run ks).2 = some d') (k : Key) :
    d.run (ks ++ [k]) = ((d.run ks).1 ++ (d'.key k.user k.byte).1, (d'.key k.user k.byte).2) := by
  induction ks generalizing d with
  | nil =>
    obtain rfl := Option.some.inj h
    cases hkey : (d.key k.user k.byte).2 with
    | none => simp [Talk.run_none hkey, Talk.run]
    | some d'' => simp [Talk.run_some hkey, Talk.run]
  | cons k' ks ih =>
    cases hkey : (d.key k'.user k'.byte).2 with
    | none =>
      rw [Talk.run_none hkey] at h
      cases h
    | some d'' =>
      rw [Talk.run_some hkey] at h
      rw [List.cons_append, Talk.run_some hkey, Talk.run_some hkey, ih h, List.append_assoc]

/-- The chat is between two keys. -/
structure Between (s₀ : State) (keys : List Key) (d : Talk) (s : State) : Prop where
  run : (Talk.start.run keys).2 = some d
  shown : Shown s₀ s (Talk.start.run keys).1
  of : d.Of s

/-- Of the editor's program for `k` there is `rest` left. -/
structure Editing (s₀ : State) (keys : List Key) (rest : Action Unit) (s : State) (done : List Key) (k : Key)
    (d : Talk) (t : State) : Prop where
  keys : keys = done ++ [k]
  before : Between s₀ done d t
  exec : rest.exec s = k.process.exec t
  last : rest.last s = k.process.last t

theorem Editing.ends {s₀ s t : State} {keys done : List Key} {k : Key} {rest : Action Unit} {d : Talk}
    (h : Editing s₀ keys rest s done k d t) :
    (rest.exec s = .ok ((), rest.last s) ∧ ∃ d', Between s₀ keys d' (rest.last s)) ∨
      rest.exec s = .error .spin ∧ (Talk.start.run keys).2 = none ∧
        Shown s₀ (rest.last s) (Talk.start.run keys).1 := by
  obtain ⟨rfl, hbetween, hexec, hlast⟩ := h
  rw [hexec, hlast]
  rcases Prog.ends_last (Key.process_answered hbetween.of k) with
    ⟨_, hrun, d', hd', hshown, hof⟩ | ⟨e, hrun, rfl, hnone, hshown⟩
  · refine Or.inl ⟨hrun, d', ?_, ?_, hof⟩
    · rw [Talk.run_snoc hbetween.run, hd']
    · rw [Talk.run_snoc hbetween.run]
      exact hbetween.shown.trans hshown
  · refine Or.inr ⟨hrun, ?_, ?_⟩
    · rw [Talk.run_snoc hbetween.run, hnone]
    · rw [Talk.run_snoc hbetween.run]
      exact hbetween.shown.trans hshown

/-! ## One step -/

theorem Between.interrupts {s₀ s : State} {keys : List Key} {d : Talk} (h : Between s₀ keys d s) (b : Bool) :
    Between s₀ keys d { s with interrupts := b } :=
  ⟨h.run, ⟨h.shown.serial, h.shown.console⟩, h.of.printed (printed_interrupts s b)⟩

/-- What the chat has done, by where the loop is. -/
def Progress (s₀ : State) (keys : List Key) (s : State) : Pc → Prop
  | .kbd rest => ∃ done c d t, Editing s₀ keys rest s done (.kbd c) d t
  | .ser rest => ∃ done c d t, Editing s₀ keys rest s done (.ser c) d t
  | _ => ∃ d, Between s₀ keys d s

theorem Progress.pop {s₀ s : State} {keys : List Key} {pc : Pop} {q q' : Queue} {after : After}
    {interrupts : Bool} (h : Progress s₀ keys s (.pop pc))
    (hs : kbd_pop pc q s.interrupts = (after, q', interrupts)) :
    Progress s₀ (keys ++ (Pc.pop pc).begins .statement) { s with interrupts := interrupts } after.resume := by
  obtain ⟨rfl, -, rfl⟩ : (kbd_pop pc q s.interrupts).1 = after ∧ (kbd_pop pc q s.interrupts).2.1 = q' ∧
      (kbd_pop pc q s.interrupts).2.2 = interrupts := by simp [hs]
  obtain ⟨d, hd⟩ : ∃ d, Between s₀ keys d s := h
  have hnone : ∀ b, ∃ d, Between s₀ (keys ++ []) d { s with interrupts := b } := fun b =>
    ⟨d, by rw [List.append_nil]; exact hd.interrupts b⟩
  cases pc with
  | sti ret =>
    cases ret with
    | none => exact hnone true
    | some c => exact ⟨keys, c, d, _, rfl, hd.interrupts true, rfl, rfl⟩
  | compare =>
    by_cases heq : q.kbd_head = q.kbd_tail
    · simp only [kbd_pop, if_pos heq]
      exact hnone _
    · simp only [kbd_pop, if_neg heq]
      exact hnone _
  | cli => exact hnone false
  | read => exact hnone _
  | advance c => exact hnone _

/-- What `kbd_pop` takes goes to the editor when it returns. -/
theorem typed_held (keys : List Key) (pc : Pop) (q : Queue) (interrupts : Bool) :
    typed (keys ++ (Pc.pop pc).begins .statement) ++ (kbd_pop pc q interrupts).1.resume.held =
      typed keys ++ (Pc.pop pc).held ++ pc.takes := by
  cases pc with
  | compare =>
    by_cases heq : q.kbd_head = q.kbd_tail <;>
      simp [kbd_pop, heq, Pc.begins, Pc.held, Pop.takes, After.resume]
  | sti ret => cases ret <;> simp [typed, kbd_pop, Pc.begins, Pc.held, Pop.takes, After.resume]
  | _ => simp [kbd_pop, Pc.begins, Pc.held, Pop.takes, After.resume]

def Session.Inv (s₀ : State) (s : Session) : Prop :=
  match s.place with
  | .head => s.state = s₀ ∧ s.keys = []
  | .tail => s.state = s₀ ∧ s.keys = [] ∧ s.queue.kbd_head = 0#8
  | .init rest => s.keys = [] ∧ Popping s.queue s.state.interrupts none s.accepted [] ∧
      rest.exec s.state = chat_init.exec s₀
  | .loop pc => Popping s.queue s.state.interrupts pc.inPop s.accepted (typed s.keys ++ pc.held) ∧
      Progress s₀ s.keys s.state pc

theorem Session.start_inv (q : Queue) (s : State) : (Session.start q s).Inv s := ⟨rfl, rfl⟩

theorem Session.Inv.irq {s₀ : State} {s : Session} (h : s.Inv s₀) (hset : s.state.interrupts = true)
    (codes : List Byte) :
    Session.Inv s₀
      { s with
        queue := keyboard_handler codes s.queue
        accepted := s.accepted ++ Chat.accepts s.queue (codes.filterMap translate) } := by
  obtain ⟨queue, state, place, accepted, keys⟩ := s
  cases place with
  | head => exact h
  | tail => exact ⟨h.1, h.2.1, (head_keyboard_handler codes queue).trans h.2.2⟩
  | init rest =>
    obtain ⟨hkeys, hpop, hexec⟩ := h
    refine ⟨hkeys, ?_, hexec⟩
    rw [keyboard_handler_eq]
    dsimp only at hset hpop ⊢
    rw [hset] at hpop ⊢
    exact hpop.accepts
  | loop pc =>
    obtain ⟨hpop, hprogress⟩ := h
    refine ⟨?_, hprogress⟩
    rw [keyboard_handler_eq]
    dsimp only at hset hpop ⊢
    rw [hset] at hpop ⊢
    exact hpop.accepts

/-- A statement of the editor moves on in what is left of it. -/
theorem Editing.stmt {s₀ s t : State} {keys done : List Key} {k : Key} {f : State → State}
    {rest : State → Action Unit} {d : Talk} (h : Editing s₀ keys (.stmt f rest) s done k d t) :
    Editing s₀ keys (rest s) (f s) done k d t :=
  ⟨h.keys, h.before, h.exec, h.last⟩

theorem Editing.ret {s₀ s t : State} {keys done : List Key} {k : Key} {d : Talk}
    (h : Editing s₀ keys (.ret ()) s done k d t) : ∃ d', Between s₀ keys d' s := by
  rcases h.ends with ⟨-, hbetween⟩ | ⟨hrun, -⟩
  · exact hbetween
  · cases hrun

theorem Session.Inv.step {s₀ : State} {s t : Session} {l : Kernel.Label} (h : s.Inv s₀)
    (hs : Session.Step s l t) : t.Inv s₀ := by
  cases hs with
  | irq hset => exact h.irq hset _
  | head hplace =>
    rw [Session.Inv, hplace] at h
    exact ⟨h.1, h.2, rfl⟩
  | tail hplace =>
    rw [Session.Inv, hplace] at h
    obtain ⟨hstate, hkeys, hhead⟩ := h
    exact ⟨hkeys, .outside _ (Or.inl rfl) (pending_emptied hhead), congrArg _ hstate⟩
  | init hplace =>
    rw [Session.Inv, hplace] at h
    obtain ⟨hkeys, hpop, hexec⟩ := h
    exact ⟨hkeys, .outside _ (Or.inl rfl) hpop.fifo, hexec⟩
  | initReturn hplace =>
    rw [Session.Inv, hplace] at h
    obtain ⟨hkeys, hpop, hexec⟩ := h
    obtain ⟨hof, hshown⟩ := (Prog.wp_of_exec hexec.symm).mp (chat_init_talk s₀)
    refine ⟨.outside _ (Or.inr rfl) ?_, Talk.start, ?_⟩
    · simpa [hkeys, typed, Pc.held] using hpop.fifo
    · rw [hkeys]
      exact ⟨rfl, hshown, hof⟩
  | @loop pc l k hplace hirq hstep =>
    rw [Session.Inv, hplace] at h
    obtain ⟨hpop, hprogress⟩ := h
    cases hstep with
    | irq => exact absurd rfl (hirq _)
    | pop hpc hrun =>
      obtain rfl : pc = _ := hpc
      obtain rfl : (kbd_pop _ s.queue s.state.interrupts).1 = _ := congrArg Prod.fst hrun
      refine ⟨?_, hprogress.pop hrun⟩
      dsimp only
      rw [typed_held, resume_inPop]
      exact hpop.statement hrun
    | kbd hpc =>
      obtain rfl : pc = _ := hpc
      simp only [Pc.begins, List.append_nil]
      obtain ⟨done, c, d, t, hedit⟩ := hprogress
      exact ⟨.outside _ (Or.inl rfl) hpop.fifo, done, c, d, t, hedit.stmt⟩
    | kbdReturn hpc =>
      obtain rfl : pc = _ := hpc
      simp only [Pc.begins, List.append_nil]
      obtain ⟨done, c, d, t, hedit⟩ := hprogress
      exact ⟨.outside _ (Or.inr rfl) hpop.fifo, hedit.ret⟩
    | @ready yes hpc =>
      obtain rfl : pc = _ := hpc
      simp only [Pc.begins, List.append_nil]
      cases yes with
      | true => exact ⟨.outside _ (Or.inl rfl) hpop.fifo, hprogress⟩
      | false => exact ⟨.outside _ (Or.inr rfl) hpop.fifo, hprogress⟩
    | @rx c hpc =>
      obtain rfl : pc = _ := hpc
      obtain ⟨d, hd⟩ := hprogress
      refine ⟨.outside _ (Or.inl rfl) ?_, s.keys, c, d, s.state, rfl, hd, rfl, rfl⟩
      simpa [typed, Pc.begins, Pc.held] using hpop.fifo
    | ser hpc =>
      obtain rfl : pc = _ := hpc
      simp only [Pc.begins, List.append_nil]
      obtain ⟨done, c, d, t, hedit⟩ := hprogress
      exact ⟨.outside _ (Or.inl rfl) hpop.fifo, done, c, d, t, hedit.stmt⟩
    | serReturn hpc =>
      obtain rfl : pc = _ := hpc
      simp only [Pc.begins, List.append_nil]
      obtain ⟨done, c, d, t, hedit⟩ := hprogress
      exact ⟨.outside _ (Or.inl rfl) hpop.fifo, hedit.ret⟩

theorem Progress.outcome {s₀ s : State} {keys : List Key} {pc : Pc} (h : Progress s₀ keys s pc) :
    Shown s₀ (pc.rest.last s) (Talk.start.run keys).1 ∧
      match (Talk.start.run keys).2 with
      | some d => pc.rest.exec s = .ok ((), pc.rest.last s) ∧ d.Of (pc.rest.last s)
      | none => pc.rest.exec s = .error .spin := by
  have hbetween : (∃ d, Between s₀ keys d s) → Shown s₀ s (Talk.start.run keys).1 ∧
      match (Talk.start.run keys).2 with
      | some d => (Prog.ret () : Action Unit).exec s = .ok ((), s) ∧ d.Of s
      | none => (Prog.ret () : Action Unit).exec s = .error .spin := by
    rintro ⟨d, hd⟩
    rw [hd.run]
    exact ⟨hd.shown, rfl, hd.of⟩
  have hediting : ∀ {done k d t rest}, Editing s₀ keys rest s done k d t →
      Shown s₀ (rest.last s) (Talk.start.run keys).1 ∧
        match (Talk.start.run keys).2 with
        | some d => rest.exec s = .ok ((), rest.last s) ∧ d.Of (rest.last s)
        | none => rest.exec s = .error .spin := by
    intro done k d t rest hedit
    rcases hedit.ends with ⟨hrun, d', hd'⟩ | ⟨hrun, hnone, hshown⟩
    · rw [hd'.run]
      exact ⟨hd'.shown, hrun, hd'.of⟩
    · rw [hnone]
      exact ⟨hshown, hrun⟩
  cases pc with
  | kbd rest =>
    obtain ⟨_, _, _, _, hedit⟩ := h
    exact hediting hedit
  | ser rest =>
    obtain ⟨_, _, _, _, hedit⟩ := h
    exact hediting hedit
  | _ => exact hbetween h

/-! ## Any run -/

/-- The editor at work will spin. -/
structure Session.Hung (s t : Session) : Prop where
  spin : ∃ pc, t.place = .loop pc ∧ pc.rest.exec t.state = .error .spin
  keys : t.keys = s.keys
  settled : t.settled = s.settled

theorem Session.Hung.step {s t u : Session} {l : Kernel.Label} (h : s.Hung t) (hs : Session.Step t l u) :
    s.Hung u := by
  obtain ⟨⟨pc, hplace, hspin⟩, hkeys, hsettled⟩ := h
  cases hs with
  | irq => exact ⟨⟨pc, hplace, hspin⟩, hkeys, hsettled⟩
  | @loop pc' l k hplace' hirq hstep =>
    obtain rfl : pc' = pc := Place.loop.inj (hplace'.symm.trans hplace)
    have hlast : t.settled = pc'.rest.last t.state := by rw [Session.settled, hplace]
    rw [hlast] at hsettled
    cases hstep with
    | irq => exact absurd rfl (hirq _)
    | kbd hpc =>
      obtain rfl : pc' = _ := hpc
      simp only [Pc.begins, List.append_nil]
      exact ⟨⟨_, rfl, hspin⟩, hkeys, hsettled⟩
    | ser hpc =>
      obtain rfl : pc' = _ := hpc
      simp only [Pc.begins, List.append_nil]
      exact ⟨⟨_, rfl, hspin⟩, hkeys, hsettled⟩
    | _ hpc =>
      obtain rfl : pc' = _ := hpc
      cases hspin
  | _ hplace' =>
    rw [hplace] at hplace'
    cases hplace'

theorem Session.Step.receives {s t : Session} {l : Kernel.Label} (h : Session.Step s l t) :
    received t.keys = received s.keys ++ receivedIn [l] := by
  cases h with
  | @loop pc l k hplace hirq hstep =>
    have hbegins : received (pc.begins l) = receivedIn [l] := by
      cases hstep with
      | irq => exact absurd rfl (hirq _)
      | @pop pc' after q interrupts hpc hrun =>
        obtain rfl : pc = .pop pc' := hpc
        rcases pc' with _ | _ | _ | _ | ret
        case sti => cases ret <;> rfl
        all_goals rfl
      | _ hpc =>
        obtain rfl : pc = _ := hpc
        rfl
    rw [← hbegins]
    exact List.filterMap_append
  | _ => exact (List.append_nil _).symm

theorem Session.run_inv {q : Queue} {s₀ : State} {ls : List Kernel.Label} {s : Session}
    (h : Run Session.Step (Session.start q s₀) ls s) : s.Inv s₀ :=
  h.state_inv (Session.Inv s₀) (Session.start_inv q s₀) fun _ _ _ hs hstep => hs.step hstep

/-- What goes out is what the machine on lists says. -/
theorem Session.run_shown {q : Queue} {s₀ : State} {ls : List Kernel.Label} {s : Session} {pc : Pc}
    (h : Run Session.Step (Session.start q s₀) ls s) (hloop : s.place = .loop pc) :
    Shown s₀ s.settled (Talk.start.run s.keys).1 := by
  have hinv := Session.run_inv h
  rw [Session.Inv, hloop] at hinv
  rw [Session.settled, hloop]
  exact hinv.2.outcome.1

/-- **The chat on any schedule.** Whatever the queue holds when `chat_init` is called, and wherever
interrupts come, also in `chat_init`: once the loop is reached, the editors were given all that came in at
the port and all that the queue has accepted since it was emptied, each in order, but for what waits. What
goes out is exactly what the machine on lists says of those keys, and it goes on or hangs as that does. -/
theorem chat_any_schedule {q : Queue} {s₀ : State} {ls : List Kernel.Label} {s : Session} {pc : Pc}
    (h : Run Session.Step (Session.start q s₀) ls s) (hloop : s.place = .loop pc) :
    typed s.keys ++ pc.held ++ s.queue.pending = s.accepted ∧ received s.keys = receivedIn ls ∧
      Shown s₀ s.settled (Talk.start.run s.keys).1 ∧
      match (Talk.start.run s.keys).2 with
      | some d => pc.rest.exec s.state = .ok ((), s.settled) ∧ d.Of s.settled
      | none => ∀ ls' t, Run Session.Step s ls' t → t.keys = s.keys ∧ t.settled = s.settled := by
  have hinv := Session.run_inv h
  have hreceived : received s.keys = receivedIn ls :=
    h.inv (fun ls s => received s.keys = receivedIn ls) rfl fun ls s l t hs hstep => by
      rw [hstep.receives, hs]
      exact List.filterMap_append.symm
  have hsettled : s.settled = pc.rest.last s.state := by rw [Session.settled, hloop]
  rw [Session.Inv, hloop] at hinv
  obtain ⟨hpop, hprogress⟩ := hinv
  obtain ⟨-, hends⟩ := hprogress.outcome
  refine ⟨hpop.fifo, hreceived, Session.run_shown h hloop, ?_⟩
  cases hrun : (Talk.start.run s.keys).2 with
  | some d =>
    rw [hrun] at hends
    rwa [hsettled]
  | none =>
    rw [hrun] at hends
    intro ls' t ht
    have hhung : s.Hung t := ht.state_inv s.Hung ⟨⟨pc, hloop, hends⟩, rfl, rfl⟩ fun _ _ _ h hs => h.step hs
    exact ⟨hhung.keys, hhung.settled⟩

/-- `chat_init` returns, whatever came before. -/
theorem Session.init_returns {s₁ s : Session} {ls : List Kernel.Label} {rest : Action Unit} {t : State}
    (h : Run Session.Step s₁ ls s) (hplace : s.place = .init rest) (hexec : rest.exec s.state = .ok ((), t)) :
    ∃ ls', Run Session.Step s₁ ls' { s with state := t, place := .loop (.pop .cli) } := by
  induction rest generalizing ls s with
  | ret a =>
    obtain rfl : s.state = t := congrArg Prod.snd (Except.ok.inj hexec)
    exact ⟨_, h.snoc (.initReturn hplace)⟩
  | fault e => cases hexec
  | stmt f k ih =>
    exact ih s.state (s := { s with state := f s.state, place := .init (k s.state) })
      (h.snoc (.init hplace)) rfl hexec

/-- Of the keys `H` and `I`, the first comes before the queue is emptied. -/
theorem chat_any_schedule_early :
    ∃ ls s, Run Session.Step (Session.start emptyQueue powerOn) ls s ∧ s.place = .loop (.pop .cli) ∧
      s.queue.pending = ascii "i" := by
  obtain ⟨⟨⟩, t, hinit, -⟩ := chat_init_talk powerOn
  have hearly : Run Session.Step (Session.start emptyQueue powerOn) [.irq [0x23#8], .statement, .statement]
      { Session.start emptyQueue powerOn with
        queue := { keyboard_handler [0x23#8] emptyQueue with kbd_head := 0#8, kbd_tail := 0#8 }
        place := .init chat_init } :=
    ((Run.snoc .nil (.irq rfl)).snoc (.head rfl)).snoc (.tail rfl)
  obtain ⟨ls, hrun⟩ := Session.init_returns (hearly.snoc (@Session.Step.irq _ [0x17#8] rfl)) rfl hinit
  have haccepted : accepts { keyboard_handler [0x23#8] emptyQueue with kbd_head := 0#8, kbd_tail := 0#8 }
      ([0x17#8].filterMap translate) = ascii "i" := by decide
  exact ⟨ls, _, hrun, rfl, (chat_any_schedule hrun rfl).1.trans haccepted⟩

end MiniOS.Chat
