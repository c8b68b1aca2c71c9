import MiniOS.Chat.Keyboard
import MiniOS.Chat.Statement

/-!
# The main loop under interrupts

`chat_poll` in its endless loop, statement by statement. An interrupt may come before
any of them that finds the flag set. Once the queue is drained, the keyboard's user is
where the characters alone would have led, fed to the editor in order.
-/

open MiniOS.Lib

namespace MiniOS.Chat

/-- Where the main loop is. An editor is given by what is left of it. -/
inductive Pc
  | pop (pc : Pop)
  | kbd (rest : Action Unit)
  | ready
  | rx
  | ser (rest : Action Unit)

structure Kernel where
  queue : Queue
  state : State
  pc : Pc

def After.resume : After → Pc
  | .next pc => .pop pc
  | .returned none => .ready
  | .returned (some c) => .kbd (kbd_process_char c)

/-- An interrupt finds some codes in the controller. The serial port is ready when it likes. -/
inductive Kernel.Label
  | irq (codes : List Byte)
  | statement
  | ready (yes : Bool)
  | rx (c : Byte)

inductive Kernel.Step : Kernel → Kernel.Label → Kernel → Prop
  | irq {k : Kernel} {codes : List Byte} : k.state.interrupts = true →
      Step k (.irq codes) { k with queue := keyboard_handler codes k.queue }
  | pop {k : Kernel} {pc : Pop} {after : After} {q : Queue} {interrupts : Bool} : k.pc = .pop pc →
      kbd_pop pc k.queue k.state.interrupts = (after, q, interrupts) →
      Step k .statement ⟨q, { k.state with interrupts := interrupts }, after.resume⟩
  | kbd {k : Kernel} {f : State → State} {rest : State → Action Unit} : k.pc = .kbd (.stmt f rest) →
      Step k .statement ⟨k.queue, f k.state, .kbd (rest k.state)⟩
  | kbdReturn {k : Kernel} : k.pc = .kbd (.ret ()) → Step k .statement { k with pc := .pop .cli }
  | ready {k : Kernel} {yes : Bool} : k.pc = .ready →
      Step k (.ready yes) { k with pc := if yes then .rx else .pop .cli }
  | rx {k : Kernel} {c : Byte} : k.pc = .rx → Step k (.rx c) { k with pc := .ser (ser_process_char c) }
  | ser {k : Kernel} {f : State → State} {rest : State → Action Unit} : k.pc = .ser (.stmt f rest) →
      Step k .statement ⟨k.queue, f k.state, .ser (rest k.state)⟩
  | serReturn {k : Kernel} : k.pc = .ser (.ret ()) → Step k .statement { k with pc := .ready }

def codesOf (ls : List Kernel.Label) : List Byte :=
  ls.flatMap fun l => match l with
    | .irq codes => codes
    | _ => []

def Kernel.Fits (k : Kernel) : Kernel.Label → Prop
  | .irq codes => k.queue.pending.length + (codes.filterMap translate).length ≤ 255
  | _ => True

def Kernel.FitStep (k : Kernel) (l : Kernel.Label) (k' : Kernel) : Prop := k.Fits l ∧ Kernel.Step k l k'

/-- Nothing is in the queue, and no character of it is on its way. -/
structure Kernel.Drained (k : Kernel) : Prop where
  pending : k.queue.pending = []
  popped : ∀ c, k.pc ≠ .pop (.sti (some c))
  processed : ∀ rest, k.pc ≠ .kbd rest

/-- The characters go straight to the editor. -/
def feed (bytes : List Byte) (s : State) : Except Fault State :=
  bytes.foldlM (fun s c => ((kbd_process_char c).exec s).map Prod.snd) s

/-! ## Two editors on the same line -/

def SameKbd (s t : State) : Prop := s.buf .vga = t.buf .vga ∧ s.eventsOf .vga = t.eventsOf .vga

theorem kbd_agrees {s t ref : State} {c : Byte} (hs : s.Ok) (href : ref.Ok) (hsame : SameKbd s ref)
    (hrun : (kbd_process_char c).exec s = .ok ((), t)) :
    ∃ ref', (kbd_process_char c).exec ref = .ok ((), ref') ∧ t.Ok ∧ ref'.Ok ∧ SameKbd t ref' := by
  obtain ⟨hfree, ht, -⟩ := kbd_process_char_post hs hrun
  have hlen := kbdEdit_len (hs.len .vga) c
  obtain ⟨hbuf, hevents⟩ := hsame
  rw [hbuf] at hfree ht hlen
  obtain ⟨⟨⟩, ref', hrun', href', -⟩ := kbd_process_char_spec href hfree
  refine ⟨ref', hrun', ht.ok hs hlen, href'.ok href hlen, ht.buf.trans href'.buf.symm, ?_⟩
  unfold State.eventsOf at *
  rw [ht.events, href'.events, List.filter_append, List.filter_append, hevents]

/-- `s` is, for the keyboard's user, where `bytes` lead. -/
def Fed (s₀ : State) (bytes : List Byte) (s : State) : Prop :=
  ∃ ref, feed bytes s₀ = .ok ref ∧ ref.Ok ∧ SameKbd s ref

theorem Fed.spares {s₀ s t : State} {bytes : List Byte} (h : Fed s₀ bytes s) (hst : Spares .vga s t) :
    Fed s₀ bytes t := by
  obtain ⟨ref, hrun, href, hsame⟩ := h
  exact ⟨ref, hrun, href, hst.1.trans hsame.1, hst.2.trans hsame.2⟩

theorem Fed.next {s₀ s t : State} {bytes : List Byte} {c : Byte} (h : Fed s₀ bytes s) (hs : s.Ok)
    (hrun : (kbd_process_char c).exec s = .ok ((), t)) : t.Ok ∧ Fed s₀ (bytes ++ [c]) t := by
  obtain ⟨ref, hfeed, href, hsame⟩ := h
  obtain ⟨ref', hrun', ht, href', hsame'⟩ := kbd_agrees hs href hsame hrun
  refine ⟨ht, ref', ?_, href', hsame'⟩
  unfold feed at *
  rw [List.foldlM_append, hfeed]
  show (((kbd_process_char c).exec ref).map Prod.snd >>= fun s => pure s) = .ok ref'
  rw [hrun']
  rfl

/-! ## The invariant -/

def Pc.inPop : Pc → Option Pop
  | .pop pc => some pc
  | _ => none

/-- How far the keyboard's user is, given the bytes popped. -/
def Phase (s₀ : State) (popped : List Byte) (s : State) : Pc → Prop
  | .pop (.sti (some c)) => ∃ done, popped = done ++ [c] ∧ s.Ok ∧ Fed s₀ done s
  | .kbd rest => ∃ done c s₁, popped = done ++ [c] ∧ s₁.Ok ∧ Fed s₀ done s₁ ∧
      rest.exec s = (kbd_process_char c).exec s₁
  | .ser rest => ∃ c s₁, s₁.Ok ∧ Fed s₀ popped s ∧ rest.Each (Spares .vga) ∧
      rest.exec s = (ser_process_char c).exec s₁
  | _ => s.Ok ∧ Fed s₀ popped s

def Kernel.Inv (s₀ : State) (ls : List Kernel.Label) (k : Kernel) : Prop :=
  ∃ popped, Popping k.queue k.state.interrupts k.pc.inPop ((codesOf ls).filterMap translate) popped ∧
    Phase s₀ popped k.state k.pc

theorem codesOf_snoc (ls : List Kernel.Label) (l : Kernel.Label) :
    codesOf (ls ++ [l]) = codesOf ls ++ codesOf [l] := by simp [codesOf]

theorem phase_pop {s₀ s : State} {popped : List Byte} {pc : Pop} (h : ∀ c, pc ≠ .sti (some c)) :
    Phase s₀ popped s (.pop pc) ↔ s.Ok ∧ Fed s₀ popped s := by
  cases pc with
  | sti ret =>
    cases ret with
    | none => rfl
    | some c => exact absurd rfl (h c)
  | _ => rfl

theorem ok_interrupts {s : State} (hs : s.Ok) (interrupts : Bool) :
    State.Ok { s with interrupts := interrupts } := (printed_interrupts s interrupts).ok hs

theorem fed_interrupts {s₀ s : State} {bytes : List Byte} (h : Fed s₀ bytes s) (interrupts : Bool) :
    Fed s₀ bytes { s with interrupts := interrupts } :=
  h.spares (printed_interrupts s interrupts).toQuiet.spares

theorem Phase.pop {s₀ s : State} {popped : List Byte} {pc : Pop} {q q' : Queue} {after : After}
    {interrupts : Bool} (h : Phase s₀ popped s (.pop pc))
    (hs : kbd_pop pc q s.interrupts = (after, q', interrupts)) :
    Phase s₀ (popped ++ pc.takes) { s with interrupts := interrupts } after.resume := by
  obtain ⟨rfl, -, rfl⟩ : (kbd_pop pc q s.interrupts).1 = after ∧ (kbd_pop pc q s.interrupts).2.1 = q' ∧
      (kbd_pop pc q s.interrupts).2.2 = interrupts := by simp [hs]
  cases pc with
  | cli =>
    obtain ⟨hok, hfed⟩ := (phase_pop (by simp)).mp h
    simp only [Pop.takes, List.append_nil]
    exact (phase_pop (by simp)).mpr ⟨ok_interrupts hok _, fed_interrupts hfed _⟩
  | compare =>
    obtain ⟨hok, hfed⟩ := (phase_pop (by simp)).mp h
    simp only [Pop.takes, List.append_nil]
    refine (phase_pop fun c => ?_).mpr ⟨ok_interrupts hok _, fed_interrupts hfed _⟩
    split <;> simp
  | read =>
    obtain ⟨hok, hfed⟩ := (phase_pop (by simp)).mp h
    simp only [Pop.takes, List.append_nil]
    exact (phase_pop (by simp)).mpr ⟨ok_interrupts hok _, fed_interrupts hfed _⟩
  | advance c =>
    -- the byte is popped, and not yet fed
    obtain ⟨hok, hfed⟩ := (phase_pop (by simp)).mp h
    exact ⟨popped, rfl, ok_interrupts hok _, fed_interrupts hfed _⟩
  | sti ret =>
    simp only [Pop.takes, List.append_nil]
    cases ret with
    | none => exact ⟨ok_interrupts h.1 _, fed_interrupts h.2 _⟩
    | some c =>
      obtain ⟨done, hpopped, hok, hfed⟩ := h
      exact ⟨done, c, _, hpopped, ok_interrupts hok _, fed_interrupts hfed _, rfl⟩

theorem resume_inPop (after : After) : after.resume.inPop = after.pc := by
  rcases after with pc | (_ | c) <;> rfl

theorem inv_of_phase {s₀ : State} {ls : List Kernel.Label} {l : Kernel.Label} {k : Kernel}
    {popped : List Byte} (hl : codesOf [l] = [])
    (hpop : Popping k.queue k.state.interrupts k.pc.inPop ((codesOf ls).filterMap translate) popped)
    (hphase : Phase s₀ popped k.state k.pc) : k.Inv s₀ (ls ++ [l]) := by
  refine ⟨popped, ?_, hphase⟩
  rwa [codesOf_snoc, hl, List.append_nil]

theorem Kernel.step_inv {s₀ : State} {ls : List Kernel.Label} {k k' : Kernel} {l : Kernel.Label}
    (h : k.Inv s₀ ls) (hs : Kernel.FitStep k l k') : k'.Inv s₀ (ls ++ [l]) := by
  obtain ⟨popped, hpop, hphase⟩ := h
  obtain ⟨hfit, hstep⟩ := hs
  cases hstep with
  | @irq codes hset =>
    refine ⟨popped, ?_, hphase⟩
    rw [hset] at hpop
    rw [codesOf_snoc, List.filterMap_append]
    simpa [codesOf, hset] using hpop.handler hfit
  | pop hpc hrun =>
    rw [hpc] at hpop hphase
    apply inv_of_phase rfl _ (hphase.pop hrun)
    rw [resume_inPop]
    exact hpop.statement hrun
  | kbd hpc =>
    rw [hpc] at hphase
    obtain ⟨done, c, s₁, hpopped, hs₁, hfed, hrest⟩ := hphase
    exact inv_of_phase rfl (.outside _ (Or.inl rfl) hpop.fifo)
      ⟨done, c, s₁, hpopped, hs₁, hfed, hrest⟩
  | kbdReturn hpc =>
    rw [hpc] at hphase
    obtain ⟨done, c, s₁, rfl, hs₁, hfed, hrest⟩ := hphase
    obtain ⟨hok, hfed'⟩ := hfed.next hs₁ hrest.symm
    exact inv_of_phase rfl (.outside _ (Or.inr rfl) hpop.fifo) ⟨hok, hfed'⟩
  | @ready yes hpc =>
    rw [hpc] at hphase
    obtain ⟨hok, hfed⟩ := hphase
    cases yes with
    | true => exact inv_of_phase rfl (.outside _ (Or.inl rfl) hpop.fifo) ⟨hok, hfed⟩
    | false => exact inv_of_phase rfl (.outside _ (Or.inr rfl) hpop.fifo) ⟨hok, hfed⟩
  | @rx c hpc =>
    rw [hpc] at hphase
    obtain ⟨hok, hfed⟩ := hphase
    exact inv_of_phase rfl (.outside _ (Or.inl rfl) hpop.fifo)
      ⟨c, _, hok, hfed, ser_process_char_spares c, rfl⟩
  | ser hpc =>
    rw [hpc] at hphase
    obtain ⟨c, s₁, hs₁, hfed, heach, hrest⟩ := hphase
    exact inv_of_phase rfl (.outside _ (Or.inl rfl) hpop.fifo)
      ⟨c, s₁, hs₁, hfed.spares (heach _).1, (heach _).2, hrest⟩
  | serReturn hpc =>
    rw [hpc] at hphase
    obtain ⟨c, s₁, hs₁, hfed, -, hrest⟩ := hphase
    exact inv_of_phase rfl (.outside _ (Or.inl rfl) hpop.fifo)
      ⟨(ser_process_char_post hs₁ hrest.symm).1.ok hs₁ (serEdit_len (hs₁.len .serial) _), hfed⟩

/-! ## From `chat_init` on -/

def Kernel.start (q : Queue) (s : State) : Except Fault Kernel :=
  (chat_init.exec s).map fun x => ⟨{ q with kbd_head := 0#8, kbd_tail := 0#8 }, x.2, .pop .cli⟩

theorem Kernel.start_inv (q : Queue) (s : State) :
    ∃ k, Kernel.start q s = .ok k ∧ k.Inv k.state [] := by
  obtain ⟨⟨⟩, t, hrun, hok, -⟩ := chat_init_spec s
  refine ⟨⟨{ q with kbd_head := 0#8, kbd_tail := 0#8 }, t, .pop .cli⟩, ?_, [], ?_, hok, ?_⟩
  · rw [Kernel.start, hrun]
    rfl
  · exact .outside _ (Or.inr rfl) ((pending_eq_nil _).mpr rfl)
  · exact ⟨t, rfl, hok, rfl, rfl⟩

/-- **The keyboard does not depend on the schedule.** In every run whose interrupts fit the queue,
whenever it is drained, line, length and record of the keyboard's user are those of the editor fed
with the characters directly. -/
theorem keyboard_schedule_independent (q : Queue) (s : State) :
    ∃ k₀, Kernel.start q s = .ok k₀ ∧ ∀ ls k, Run Kernel.FitStep k₀ ls k → k.Drained →
      ∃ ref, feed ((codesOf ls).filterMap translate) k₀.state = .ok ref ∧
        k.state.kbd.line = ref.kbd.line ∧ k.state.kbd.len = ref.kbd.len ∧
        k.state.eventsOf .vga = ref.eventsOf .vga := by
  obtain ⟨k₀, hstart, hinv₀⟩ := Kernel.start_inv q s
  refine ⟨k₀, hstart, fun ls k hrun hd => ?_⟩
  obtain ⟨popped, hpop, hphase⟩ := hrun.inv (fun ls k => k.Inv k₀.state ls) hinv₀
    fun _ _ _ _ h hs => Kernel.step_inv h hs
  have hall : popped = (codesOf ls).filterMap translate := by
    have hfifo := hpop.fifo
    rwa [hd.pending, List.append_nil] at hfifo
  have hfed : Fed k₀.state popped k.state := by
    cases hpc : k.pc with
    | pop pc =>
      rw [hpc] at hphase
      exact ((phase_pop fun c heq => hd.popped c (by rw [hpc, heq])).mp hphase).2
    | kbd rest => exact absurd hpc (hd.processed rest)
    | ready =>
      rw [hpc] at hphase
      exact hphase.2
    | rx =>
      rw [hpc] at hphase
      exact hphase.2
    | ser rest =>
      rw [hpc] at hphase
      obtain ⟨_, _, _, hfed, _⟩ := hphase
      exact hfed
  obtain ⟨ref, hfeed, -, hbuf, hevents⟩ := hfed
  exact ⟨ref, hall ▸ hfeed, congrArg Line.line hbuf, congrArg Line.len hbuf, hevents⟩

def emptyQueue : Queue := ⟨Vector.replicate _ 0#8, 0#8, 0#8⟩

theorem Kernel.Step.fit {k k' : Kernel} (h : Kernel.Step k .statement k') :
    Kernel.FitStep k .statement k' := ⟨trivial, h⟩

theorem Kernel.FitStep.pop (q : Queue) (s : State) (pc : Pop) :
    Kernel.FitStep ⟨q, s, .pop pc⟩ .statement
      ⟨(kbd_pop pc q s.interrupts).2.1, { s with interrupts := (kbd_pop pc q s.interrupts).2.2 },
        (kbd_pop pc q s.interrupts).1.resume⟩ := (Kernel.Step.pop rfl rfl).fit

section
variable {k₀ : Kernel} {ls : List Kernel.Label} {q : Queue} {s t : State} {c : Byte} {rest : List Byte}

theorem Kernel.run_pop (h : Run Kernel.FitStep k₀ ls ⟨q, s, .pop .cli⟩) (hq : q.pending = c :: rest) :
    ∃ ls' q', Run Kernel.FitStep k₀ ls' ⟨q', { s with interrupts := true }, .kbd (kbd_process_char c)⟩ ∧
      codesOf ls' = codesOf ls ∧ q'.pending = rest := by
  have hne : q.kbd_head ≠ q.kbd_tail := fun heq => by
    rw [(pending_eq_nil q).mpr heq] at hq
    cases hq
  rw [pending_advance hne] at hq
  obtain ⟨rfl, rfl⟩ := List.cons.inj hq
  let off : State := { s with interrupts := false }
  have hpop : kbd_pop .compare q off.interrupts = (.next .read, q, off.interrupts) := by
    rw [kbd_pop, if_neg hne]
  have hcompare := (@Kernel.Step.pop ⟨q, off, .pop .compare⟩ _ _ _ _ rfl hpop).fit
  have hread := ((h.snoc (.pop q s .cli)).snoc hcompare).snoc (.pop q off .read)
  have hsti := (hread.snoc (.pop q off (.advance _))).snoc (.pop q.advance off (.sti (some _)))
  refine ⟨_, _, hsti, ?_, rfl⟩
  simp [codesOf]

theorem Kernel.run_kbd {p : Action Unit} (h : Run Kernel.FitStep k₀ ls ⟨q, s, .kbd p⟩)
    (hp : p.exec s = .ok ((), t)) :
    ∃ ls', Run Kernel.FitStep k₀ ls' ⟨q, t, .pop .cli⟩ ∧ codesOf ls' = codesOf ls := by
  induction p generalizing ls s with
  | ret a =>
    obtain rfl : s = t := congrArg Prod.snd (Except.ok.inj hp)
    refine ⟨_, h.snoc (Kernel.Step.kbdReturn rfl).fit, ?_⟩
    simp [codesOf]
  | fault e => cases hp
  | stmt f k ih =>
    obtain ⟨ls', hrun, hcodes⟩ := ih s (h.snoc (Kernel.Step.kbd rfl).fit) hp
    refine ⟨ls', hrun, hcodes.trans ?_⟩
    simp [codesOf]

theorem Kernel.run_irq {pc : Pc} (h : Run Kernel.FitStep k₀ ls ⟨q, s, pc⟩) (hset : s.interrupts = true)
    (codes : List Byte) (hfit : q.pending.length + (codes.filterMap translate).length ≤ 255) :
    ∃ ls' q', Run Kernel.FitStep k₀ ls' ⟨q', s, pc⟩ ∧ codesOf ls' = codesOf ls ++ codes ∧
      q'.pending = q.pending ++ codes.filterMap translate := by
  have hpop : Popping (keyboard_handler codes q) true none (q.pending ++ codes.filterMap translate) [] :=
    (Popping.outside none (Or.inl rfl) (List.nil_append _)).handler hfit
  have hirq : Kernel.FitStep ⟨q, s, pc⟩ (.irq codes) ⟨keyboard_handler codes q, s, pc⟩ := ⟨hfit, .irq hset⟩
  refine ⟨_, _, h.snoc hirq, ?_, hpop.fifo⟩
  simp [codesOf]

/-- A key that ends no line with a command. -/
theorem kbd_returns (hs : s.Ok) (h : ¬Hangs (s.buf .vga) c) :
    ∃ t, (kbd_process_char c).exec s = .ok ((), t) ∧ t.Ok ∧ t.buf .vga = kbdEdit (s.buf .vga) c := by
  obtain ⟨⟨⟩, t, hrun, hedit, -⟩ := kbd_process_char_spec hs h
  exact ⟨t, hrun, hedit.ok hs (kbdEdit_len (hs.len .vga) c), hedit.buf⟩

theorem Kernel.run_key (h : Run Kernel.FitStep k₀ ls ⟨q, s, .pop .cli⟩) (hq : q.pending = c :: rest)
    (hs : s.Ok) (hc : ¬Hangs (s.buf .vga) c) :
    ∃ ls' q' t, Run Kernel.FitStep k₀ ls' ⟨q', t, .pop .cli⟩ ∧ codesOf ls' = codesOf ls ∧
      q'.pending = rest ∧ t.Ok ∧ t.buf .vga = kbdEdit (s.buf .vga) c := by
  obtain ⟨ls₁, q', hpop, hcodes, hrest⟩ := Kernel.run_pop h hq
  obtain ⟨t, hexec, ht, hbuf⟩ := kbd_returns (ok_interrupts hs true) hc
  obtain ⟨ls₂, hkbd, hcodes'⟩ := Kernel.run_kbd hpop hexec
  exact ⟨ls₂, q', t, hkbd, hcodes'.trans hcodes, hrest, ht, hbuf⟩

end

/-- The keys `H`, `I` and Enter. The second interrupt comes while `H` is being processed. -/
theorem keyboard_two_interrupts :
    ∃ k₀ ls k ref, Kernel.start emptyQueue powerOn = .ok k₀ ∧ Run Kernel.FitStep k₀ ls k ∧
      codesOf ls = [0x23#8, 0xA3#8, 0x17#8, 0x97#8, 0x1C#8] ∧ k.Drained ∧
      feed [0x68#8, 0x69#8, 0x0A#8] k₀.state = .ok ref ∧ k.state.kbd.len = 0 ∧ ref.kbd.len = 0 ∧
      k.state.eventsOf .vga = ref.eventsOf .vga := by
  obtain ⟨k₀, hstart, hall⟩ := keyboard_schedule_independent emptyQueue powerOn
  obtain ⟨⟨⟩, state, hinit, hok, hlen, -, -, hset⟩ := chat_init_spec powerOn
  obtain rfl : ⟨emptyQueue, state, .pop .cli⟩ = k₀ := by
    rw [Kernel.start, hinit] at hstart
    exact Except.ok.inj hstart
  have hnil : Run Kernel.FitStep ⟨emptyQueue, state, .pop .cli⟩ [] ⟨emptyQueue, state, .pop .cli⟩ := .nil
  obtain ⟨_, q₁, hfirst, hcodes₁, hq₁⟩ := Kernel.run_irq hnil hset [0x23#8, 0xA3#8] (by decide)
  replace hq₁ : q₁.pending = [0x68#8] := hq₁.trans (by decide)
  obtain ⟨_, q₂, hpopped, hcodes₂, hq₂⟩ := Kernel.run_pop hfirst hq₁
  obtain ⟨_, q₃, hsecond, hcodes₃, hq₃⟩ := Kernel.run_irq hpopped rfl [0x17#8, 0x97#8, 0x1C#8]
    (by rw [hq₂]; decide)
  replace hq₃ : q₃.pending = [0x69#8, 0x0A#8] := by
    rw [hq₃, hq₂]
    decide
  obtain ⟨h, hexec, hh, hbuf⟩ := kbd_returns (c := 0x68#8) (ok_interrupts hok true) nofun
  obtain ⟨_, hrun, hcodes₄⟩ := Kernel.run_kbd hsecond hexec
  obtain ⟨_, q₄, i, hrun, hcodes₅, hq₄, hi, hbuf'⟩ := Kernel.run_key hrun hq₃ hh nofun
  -- Enter, with both letters in the line
  have hchars : (i.buf .vga).chars = [0x68#8, 0x69#8] := by
    have hempty : (state.buf .vga).len = 0 := hlen .vga
    have hone : h.buf .vga = (state.buf .vga).append 0x68#8 := hbuf.trans (kbdEdit_letter (hempty ▸ by decide) (by decide))
    have hlen : (h.buf .vga).len = 1 := by
      rw [hone]
      exact congrArg (· + 1) hempty
    have htwo : i.buf .vga = (h.buf .vga).append 0x69#8 := hbuf'.trans (kbdEdit_letter (hlen ▸ by decide) (by decide))
    rw [htwo, Line.chars_append (by rw [hlen]; decide), hone, Line.chars_first hempty]
    rfl
  obtain ⟨_, q₅, e, hrun, hcodes₆, hq₅, -, hbuf''⟩ := Kernel.run_key hrun hq₄ hi fun hangs => by
    have htext : (i.buf .vga).text = ascii "/deadlock" := hangs.2
    rw [Line.text_eq_chars (hi.len .vga) (by rw [hchars]; decide), hchars] at htext
    exact absurd htext (by decide)
  have hcodes := hcodes₆.trans (hcodes₅.trans (hcodes₄.trans (hcodes₃.trans
    (congrArg (· ++ _) (hcodes₂.trans hcodes₁)))))
  have hdrained : Kernel.Drained ⟨q₅, e, .pop .cli⟩ := ⟨hq₅, by simp, by simp⟩
  obtain ⟨ref, hfeed, -, hsame, hevents⟩ := hall _ _ hrun hdrained
  rw [hcodes] at hfeed
  have hzero : e.kbd.len = 0 := congrArg Line.len hbuf''
  exact ⟨_, _, _, ref, hstart, hrun, hcodes, hdrained, hfeed, hzero, hsame ▸ hzero, hevents⟩

end MiniOS.Chat
