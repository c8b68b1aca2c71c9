import MiniOS.Chat.Users

/-!
# The buffers of the chat

From `chat_init` on, whatever keys come in whatever order: both line buffers hold typed
lines with their terminator, no access leaves an array, and a line always fits the buffer
in which it is formatted.
-/

open MiniOS.Lib MiniOS.Vga

namespace MiniOS.Chat

/-- The chat from its start, over the keys of both users. -/
def session (ks : List Key) : Action Unit := do
  chat_init
  Key.processAll ks

theorem chat_init_buf (s : State) : chat_init.wp
    (fun _ t => ∀ u, t.buf u = Line.close { s.buf u with len := 0 }) s := by
  apply wp_chat_init
  intro _ _ _ _ u
  cases u <;> rfl

theorem chat_init_empty (s : State) :
    ∃ t, chat_init.exec s = .ok ((), t) ∧ t.Ok ∧ ∀ u, (t.buf u).Holds [] := by
  obtain ⟨⟨⟩, t, hrun, hbuf⟩ := chat_init_buf s
  obtain ⟨hok, -⟩ := (Prog.wp_of_exec hrun).mp (chat_init_spec s)
  refine ⟨t, hrun, hok, fun u => ?_⟩
  rw [hbuf]
  apply Line.holds_close (l := { s.buf u with len := 0 }) (Nat.zero_le _) _ (by simp)
  rw [Line.chars, List.take_zero]

/-- A key is processed, or the kernel spins on a lock. -/
theorem Typed.process {s : State} (h : Typed s) (k : Key) :
    k.process.exec s = .error .spin ∨ ∃ t, Processed s k t ∧ Typed t := by
  rw [Key.process_eq]
  by_cases hline : k.user.EndsLine k.byte ∧ (s.buf k.user).text = ascii "/deadlock"
  · exact Or.inl (User.process_hangs h.ok hline.1 hline.2)
  · obtain ⟨⟨⟩, t, hrun, -⟩ := User.process_spec h.ok hline
    have hprocessed : Processed s k t := by rwa [Processed, Key.process_eq]
    exact Or.inr ⟨t, hprocessed, (h.step hprocessed).1⟩

theorem Typed.processAll {s : State} (h : Typed s) (ks : List Key) :
    (Key.processAll ks).exec s = .error .spin ∨
      ∃ t, (Key.processAll ks).exec s = .ok ((), t) ∧ Typed t := by
  induction ks generalizing s with
  | nil => exact Or.inr ⟨s, rfl, h⟩
  | cons k ks ih =>
    rw [Key.processAll]
    rcases h.process k with hspin | ⟨t, hrun, ht⟩
    · exact Or.inl (Prog.exec_bind_error hspin)
    · rw [Prog.exec_bind_ok hrun]
      exact ih ht

theorem session_typed (s : State) (ks : List Key) :
    (session ks).exec s = .error .spin ∨ ∃ t, (session ks).exec s = .ok ((), t) ∧ Typed t := by
  obtain ⟨t, hinit, hok, hempty⟩ := chat_init_empty s
  rw [session, Prog.exec_bind_ok hinit]
  exact (typed_start hok hempty).processAll ks

theorem session_reached {s t : State} {ks : List Key} (h : (session ks).exec s = .ok ((), t)) :
    Typed t := by
  rcases session_typed s ks with hspin | ⟨t', hrun, ht⟩
  · rw [hspin] at h
    cases h
  · rw [hrun] at h
    obtain ⟨-, rfl⟩ := Prod.mk.inj (Except.ok.inj h)
    exact ht

/-! ## The line buffers -/

/-- A line with its terminator in it, and nothing below a blank before that. -/
structure Line.Sound (l : Line) : Prop where
  len : l.len ≤ LINE_MAX
  closed : l.line.toList[l.len]? = some 0#8
  printable : ∀ i < l.len, ∀ b, l.line.toList[i]? = some b → 32#8 ≤ b
  text : (cString l.line.toList).length = l.len

theorem Line.Holds.sound {l : Line} {m : List Byte} (h : l.Holds m) (hm : ∀ b ∈ m, ¬ b < 32#8) :
    l.Sound := by
  obtain ⟨-, rest, hrest⟩ := h.text
  refine ⟨h.le, ?_, fun i hi b hb => ?_, ?_⟩
  · rw [hrest, h.len]
    simp
  · rw [h.len] at hi
    rw [hrest, List.getElem?_append_left hi] at hb
    exact BitVec.not_lt.mp (hm b (List.mem_of_getElem? hb))
  · rw [IsCString.cString h.text, h.len]

/-- **The line buffers.** From `chat_init` on, over any keys of both users: no access leaves an array,
and in every state reached the length of either line is at most 120, its terminator stands there, and
every byte before it is printable. -/
theorem line_buffers_sound (s : State) (ks : List Key) :
    (session ks).exec s ≠ .error .bounds ∧
      ∀ t, (session ks).exec s = .ok ((), t) → ∀ u, (t.buf u).Sound := by
  constructor
  · intro hbounds
    rcases session_typed s ks with hspin | ⟨t, hrun, -⟩
    · rw [hspin] at hbounds
      cases hbounds
    · rw [hrun] at hbounds
      cases hbounds
  · intro t hrun u
    obtain ⟨m, hm, htyped⟩ := (session_reached hrun).holds u
    exact hm.sound htyped

/-! ## The formatted message -/

theorem store_beyond {n i j : Nat} {out out' : Vector Byte n} {b : Byte} (h : store out i b = some out')
    (hj : i < j) : out'.toList[j]? = out.toList[j]? := by
  unfold store at h
  split at h
  · obtain rfl := Option.some.inj h
    rw [Vector.toList_set, List.getElem?_set_ne (by omega)]
  · cases h

theorem copyLoop_beyond {n out_sz : Nat} {p : List Byte} {o o' : Nat} {out out' : Vector Byte n}
    (h : copyLoop out_sz p o out = some (o', out')) (ho : o < out_sz) :
    o' < out_sz ∧ ∀ i, out_sz ≤ i → out'.toList[i]? = out.toList[i]? := by
  induction p generalizing o out with
  | nil => cases h
  | cons b p ih =>
    rw [copyLoop] at h
    by_cases hc : b ≠ 0#8 ∧ o + 1 < out_sz
    · rw [if_pos hc, Option.bind_eq_some_iff] at h
      obtain ⟨mid, hstore, hrest⟩ := h
      obtain ⟨ho', hsame⟩ := ih hrest hc.2
      refine ⟨ho', fun i hi => ?_⟩
      rw [hsame i hi, store_beyond hstore (by omega)]
    · rw [if_neg hc] at h
      obtain ⟨rfl, rfl⟩ := Prod.mk.inj (Option.some.inj h)
      exact ⟨ho, fun _ _ => rfl⟩

theorem append_formatted_beyond {n out_sz : Nat} {user msg : List Byte} {out out' : Vector Byte n}
    (h : append_formatted user msg out out_sz = some out') (h0 : 0 < out_sz) :
    ∀ i, out_sz ≤ i → out'.toList[i]? = out.toList[i]? := by
  unfold append_formatted at h
  simp only [Option.bind_eq_bind, Option.bind_eq_some_iff, Prod.exists] at h
  obtain ⟨o₁, out₁, h₁, o₂, out₂, h₂, o₃, out₃, h₃, o₄, out₄, h₄, o₅, out₅, h₅, hclose⟩ := h
  obtain ⟨ho₁, hsame₁⟩ := copyLoop_beyond h₁ h0
  obtain ⟨ho₂, hsame₂⟩ := copyLoop_beyond h₂ ho₁
  obtain ⟨ho₃, hsame₃⟩ := copyLoop_beyond h₃ ho₂
  obtain ⟨ho₄, hsame₄⟩ := copyLoop_beyond h₄ ho₃
  obtain ⟨ho₅, hsame₅⟩ : o₅ < out_sz ∧ ∀ i, out_sz ≤ i → out₅.toList[i]? = out₄.toList[i]? := by
    by_cases hfit : o₄ + 1 < out_sz
    · rw [if_pos hfit, Option.map_eq_some_iff] at h₅
      obtain ⟨mid, hstore, heq⟩ := h₅
      obtain ⟨rfl, rfl⟩ := Prod.mk.inj heq
      exact ⟨hfit, fun i hi => store_beyond hstore (by omega)⟩
    · rw [if_neg hfit] at h₅
      obtain ⟨rfl, rfl⟩ := Prod.mk.inj (Option.some.inj h₅)
      exact ⟨ho₄, fun _ _ => rfl⟩
  intro i hi
  rw [store_beyond hclose (by omega), hsame₅ i hi, hsame₄ i hi, hsame₃ i hi, hsame₂ i hi, hsame₁ i hi]

/-- To submit a text sends the whole of its line, from any state. -/
theorem chat_submit_sends {user : User} {msg m : List Byte} (hm : IsCString msg m) (hne : m ≠ [])
    (hlen : m.length ≤ LINE_MAX) (s : State) :
    (chat_submit user msg).wp (fun _ t =>
      t.console = console_write_colored s.console (broadcastLine user m) CONSOLE_LIGHT_GREEN CONSOLE_BLACK ∧
        t.serial = s.serial ++ broadcastLine user m) s := by
  rw [wp_chat_submit hm hne, message_eq hlen]
  refine ⟨rfl, ?_⟩
  rw [serial_print, cString_of_not_mem (broadcastLine_nul hm.1)]

theorem chat_submit_nothing {user : User} {msg : List Byte} (hm : IsCString msg []) (s : State) :
    (chat_submit user msg).exec s = .ok ((), s) := by
  unfold chat_submit
  rw [hm.head?]
  rfl

/-- **Messages.** `append_formatted` writes the message into `out_sz` bytes, as much of it as fits
before the NUL, and no byte past them. A line of a user that says something goes out whole to console
and serial port, its newline included, and an empty one not at all. -/
theorem messages_whole :
    (∀ (n out_sz : Nat) (user msg u m : List Byte) (out : Vector Byte n),
      IsCString user u → IsCString msg m → 0 < out_sz → out_sz ≤ n →
      ∃ out', append_formatted user msg out out_sz = some out' ∧
        IsCString out'.toList
          ((ascii "[" ++ u ++ ascii "] " ++ m ++ ascii "\n").take (out_sz - 1)) ∧
        ∀ i, out_sz ≤ i → out'.toList[i]? = out.toList[i]?) ∧
    ∀ (s₀ t : State) (ks : List Key), (session ks).exec s₀ = .ok ((), t) → ∀ (u : User) (s : State),
      let m := cString (t.buf u).line.toList
      (m ≠ [] → (chat_submit u (t.buf u).line.toList).wp (fun _ s' =>
        s'.console = console_write_colored s.console (ascii "[" ++ u.name ++ ascii "] " ++ m ++ ascii "\n")
            CONSOLE_LIGHT_GREEN CONSOLE_BLACK ∧
          s'.serial = s.serial ++ (ascii "[" ++ u.name ++ ascii "] " ++ m ++ ascii "\n")) s) ∧
      (m = [] → (chat_submit u (t.buf u).line.toList).exec s = .ok ((), s)) := by
  constructor
  · intro n out_sz user msg u m out hu hm h0 hsz
    obtain ⟨out', hout, htext⟩ := append_formatted_spec hu hm h0 hsz out
    exact ⟨out', hout, htext, append_formatted_beyond hout h0⟩
  · intro s₀ t ks hrun u s m
    obtain ⟨m', hm', -⟩ := (session_reached hrun).holds u
    have htext : m = m' := hm'.text.cString
    have hle := hm'.le
    rw [hm'.len] at hle
    rw [htext]
    refine ⟨fun hne => chat_submit_sends hm'.text hne hle s, fun hempty => ?_⟩
    subst hempty
    exact chat_submit_nothing hm'.text s

/-- The empty line is reached, and nothing is sent for it. -/
theorem empty_line_not_sent : ∃ t, (session []).exec powerOn = .ok ((), t) ∧
    ¬ (chat_submit .vga (t.buf .vga).line.toList).wp (fun _ s' =>
      s'.serial = t.serial ++
        (ascii "[" ++ User.vga.name ++ ascii "] " ++ cString (t.buf .vga).line.toList ++ ascii "\n")) t := by
  obtain ⟨t, hinit, -, hempty⟩ := chat_init_empty powerOn
  refine ⟨t, ?_, ?_⟩
  · rw [session, Prog.exec_bind_ok hinit]
    rfl
  · rw [Prog.wp_of_exec (chat_submit_nothing (hempty .vga).text t)]
    intro hsent
    have hlen := congrArg List.length hsent
    have hopen : (ascii "[").length = 1 := rfl
    simp only [List.length_append, hopen] at hlen
    omega

/-! ## The files -/

/-- The files after `n` transfers. -/
structure Swapped (a b : List Byte) (n : Nat) (s : State) : Prop where
  vga : IsCString s.file_vga.data.toList (if n % 2 = 1 then b else a)
  serial : IsCString s.file_serial.data.toList (if n % 2 = 1 then a else b)

theorem Swapped.transfer {a b : List Byte} {n : Nat} {s : State} (h : Swapped a b n s) :
    ∃ t, deadlock_demo_safe.exec s = .ok ((), t) ∧ (∀ u, (t.file u).locked = 0#32) ∧
      Swapped a b (n + 1) t := by
  obtain ⟨⟨⟩, t, hrun, -, hfree, hvga, hserial⟩ :=
    deadlock_demo_safe_spec (s := s) h.vga h.serial
  refine ⟨t, hrun, hfree, ?_⟩
  by_cases hodd : n % 2 = 1
  · have heven : ¬ (n + 1) % 2 = 1 := by omega
    rw [if_pos hodd] at hvga hserial
    exact ⟨by rwa [if_neg heven], by rwa [if_neg heven]⟩
  · have hodd' : (n + 1) % 2 = 1 := by omega
    rw [if_neg hodd] at hvga hserial
    exact ⟨by rwa [if_pos hodd'], by rwa [if_pos hodd']⟩

/-- **Transfers in a row.** Whatever the lock words hold: `t n` is the state after `n` transfers. Each
of them comes back and leaves both locks free, and the contents are swapped after an odd number of
them and as they were after an even one. -/
theorem transfers_swap (s : State) (a b : List Byte) (ha : IsCString s.file_vga.data.toList a)
    (hb : IsCString s.file_serial.data.toList b) :
    ∃ t : Nat → State, t 0 = s ∧ ∀ n,
      deadlock_demo_safe.exec (t n) = .ok ((), t (n + 1)) ∧
      (∀ u, ((t (n + 1)).file u).locked = 0#32) ∧
      IsCString (t n).file_vga.data.toList (if n % 2 = 1 then b else a) ∧
      IsCString (t n).file_serial.data.toList (if n % 2 = 1 then a else b) := by
  have : Nonempty State := ⟨s⟩
  choose! next hrun hfree hswap using fun n s (h : Swapped a b n s) => h.transfer
  have hall : ∀ n, Swapped a b n (Nat.rec s next n) := by
    intro n
    induction n with
    | zero => exact ⟨ha, hb⟩
    | succ n ih => exact hswap n _ ih
  refine ⟨fun n => Nat.rec s next n, rfl, fun n => ?_⟩
  exact ⟨hrun n _ (hall n), hfree n _ (hall n), (hall n).vga, (hall n).serial⟩

/-- A longer name and a shorter one, with both locks taken. -/
def takenFiles : State :=
  { powerOn with
    file_vga := ⟨1#32, #v[0x66#8, 0x6F#8, 0x74#8, 0x6F#8] ++ Vector.replicate 60 0#8⟩
    file_serial := ⟨1#32, #v[0x70#8] ++ Vector.replicate 63 0#8⟩ }

theorem transfers_swap_names :
    ∃ t : Nat → State, t 0 = takenFiles ∧ ∀ n,
      deadlock_demo_safe.exec (t n) = .ok ((), t (n + 1)) ∧
      (∀ u, ((t (n + 1)).file u).locked = 0#32) ∧
      IsCString (t n).file_vga.data.toList (if n % 2 = 1 then [0x70#8] else ascii "foto") ∧
      IsCString (t n).file_serial.data.toList (if n % 2 = 1 then ascii "foto" else [0x70#8]) :=
  transfers_swap takenFiles (ascii "foto") [0x70#8] ⟨by decide, List.replicate 59 0#8, by decide⟩
    ⟨by decide, List.replicate 62 0#8, by decide⟩

end MiniOS.Chat
