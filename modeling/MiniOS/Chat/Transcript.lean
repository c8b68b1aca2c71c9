import MiniOS.Chat.Talk

/-!
# The transcript

The code of the chat does what the machine on lists does, on any keys, down to the
`/deadlock` that ends it.
-/

open MiniOS.Lib MiniOS.Vga

namespace MiniOS.Chat

/-- The arrays hold the lists. -/
structure Talk.Of (d : Talk) (s : State) : Prop where
  cur : ∀ u, (s.buf u).Holds (d.cur u)
  file : ∀ u, IsCString (s.file u).data.toList (d.file u)

theorem Talk.Of.ok {d : Talk} {s : State} (h : d.Of s) : s.Ok :=
  ⟨fun u => (h.cur u).le, fun u => (h.file u).mem⟩

theorem Talk.Of.printed {d : Talk} {s t : State} (hs : d.Of s) (h : Printed s t) : d.Of t :=
  ⟨fun u => by rw [h.buf]; exact hs.cur u, fun u => by rw [h.file]; exact hs.file u⟩

/-! ## What is printed -/

theorem cString_cString (bytes : List Byte) : cString (cString bytes) = cString bytes :=
  List.takeWhile_idem

theorem shown_serial (s : State) (m : List Byte) :
    Shown s { s with serial := serial_print s.serial m } [.serial (cString m)] :=
  ⟨by simp [serial_print, Out.onSerial, cString_cString], rfl⟩

theorem shown_console (s : State) (text : List Byte) (fg : Byte) :
    Shown s { s with console := console_write_colored s.console text fg CONSOLE_BLACK }
      [.console (cString text) fg] :=
  ⟨by simp [Out.onSerial], by simp [Out.onConsole, console_write_colored, cString_cString]⟩

theorem shown_backspace (s : State) :
    Shown s { s with console := console_backspace s.console } [.backspace] :=
  ⟨by simp [Out.onSerial], rfl⟩

theorem say_shown {prints : List Print} {s : State} {Q : Unit → State → Prop}
    (hQ : ∀ t, Printed s t → Shown s t (prints.map Print.out) → Q () t) : (say prints).wp Q s := by
  induction prints generalizing s with
  | nil => exact (Prog.wp_pure ()).mpr (hQ s (Printed.refl s) (Shown.refl s))
  | cons print prints ih =>
    cases print with
    | serial mensagem =>
      rw [say, Prog.wp_bind, serialPrint, Prog.wp_modify]
      exact ih fun t ht hshown =>
        hQ t ((printed_serialPrint s _).trans ht) ((shown_serial s mensagem).trans hshown)
    | console text fg =>
      rw [say, Prog.wp_bind, consoleWrite, Prog.wp_modify]
      exact ih fun t ht hshown =>
        hQ t ((printed_console s _).trans ht) ((shown_console s text fg).trans hshown)

/-- Nothing goes out. -/
def Silent (s t : State) : Prop := t.serial = s.serial ∧ t.console = s.console

theorem Silent.shown {s t : State} (h : Silent s t) : Shown s t [] := ⟨by simp [h.1], h.2⟩

theorem Silent.before {s t v : State} {outs : List Out} (h : Silent s t) (h' : Shown t v outs) :
    Shown s v outs := h.shown.trans h'

theorem Silent.after {s t v : State} {outs : List Out} (h' : Silent t v) (h : Shown s t outs) :
    Shown s v outs := by
  simpa using h.trans h'.shown

theorem silent_setFile (s : State) (u : User) (file : UserFile) : Silent s (s.setFile u file) := by
  cases u <;> exact ⟨rfl, rfl⟩

theorem silent_setBuf (s : State) (u : User) (l : Line) : Silent s (s.setBuf u l) :=
  ⟨serial_setBuf s u l, console_setBuf s u l⟩

theorem copyToFile_silent (u : User) (src : List Byte) : (copyToFile u src).Each Silent := by
  apply Prog.each_update fun _ => ⟨rfl, rfl⟩
  intro s t h
  obtain ⟨data, -, rfl⟩ := Option.map_eq_some_iff.mp h
  exact silent_setFile s u _

theorem swapFiles_silent : swapFiles.Each Silent := by
  unfold swapFiles
  apply (Prog.each_read (fun _ => ⟨rfl, rfl⟩) _).bind
  intro _
  apply (Prog.each_get _ _).bind
  intro _
  apply (Prog.each_read (fun _ => ⟨rfl, rfl⟩) _).bind
  exact fun _ => (copyToFile_silent _ _).bind fun _ => copyToFile_silent _ _

theorem deadlock_demo_safe_shown {s : State} {a b : List Byte}
    (ha : IsCString (s.file .vga).data.toList a) (hb : IsCString (s.file .serial).data.toList b) :
    deadlock_demo_safe.wp (fun _ t => Shown s t ((transferPrints a b).map Print.out)) s := by
  unfold deadlock_demo_safe
  simp only [setLocked, spin_unlock, Prog.wp_bind, Prog.wp_modify]
  apply say_shown
  intro t ht htshown
  have hvga : (t.file .vga).locked = 0#32 := by rw [ht.file]; simp
  rw [Prog.wp_bind, wp_spin_lock hvga, Prog.wp_bind]
  apply say_shown
  intro u hu hushown
  have hserial : (u.file .serial).locked = 0#32 := by rw [hu.file]; simp [ht.file]
  rw [Prog.wp_bind, wp_spin_lock hserial, Prog.wp_bind, Prog.wp_read, Prog.wp_bind]
  apply say_shown
  intro v hv hvshown
  have hdata : ∀ w, (v.file w).data = (s.file w).data := by
    intro w
    cases w <;> simp [hv.file, hu.file, ht.file]
  rw [Prog.wp_bind]
  apply Prog.wp_mono (swapFiles_silent.wp (fun _ => ⟨rfl, rfl⟩)
    (fun _ _ _ h h' => ⟨h'.1.trans h.1, h'.2.trans h.2⟩)
    (swapFiles_spec (Q := fun _ _ => True) (by rwa [hdata]) (by rwa [hdata]) fun _ _ _ _ => trivial))
  rintro - w ⟨-, hw⟩
  rw [Prog.wp_bind, Prog.wp_modify, Prog.wp_bind, Prog.wp_modify]
  apply say_shown
  intro x hx hxshown
  have hfirst := (silent_setFile s _ _).before ((silent_setFile _ _ _).before htshown)
  have hmiddle := (hfirst.trans ((silent_setFile t _ _).before hushown)).trans
    ((silent_setFile u _ _).before hvshown)
  have hlast := hw.before ((silent_setFile w _ _).before ((silent_setFile _ _ _).before hxshown))
  have hshown := hmiddle.trans hlast
  simpa [transferPrints, Print.out, hu.file, ht.file, ha.cString, hb.cString, cString_of_not_mem ha.1,
    cString_of_not_mem hb.1] using hshown

theorem ends_setLocked {u : User} {locked : Word} {s : State} {Q : Unit → State → Prop}
    {E : Fault → State → Prop} :
    (setLocked u locked).ends Q E s ↔ Q () (s.setFile u { s.file u with locked := locked }) := Iff.rfl

theorem ends_spin_lock_taken {u : User} {s : State} (h : (s.file u).locked ≠ 0#32)
    {Q : Unit → State → Prop} {E : Fault → State → Prop} :
    (spin_lock u).ends Q E s ↔ E .spin (s.setFile u { s.file u with locked := 1#32 }) := by
  have hold : (atomic_xchg (s.file u).locked 1#32).1 ≠ 0#32 := h
  unfold spin_lock Prog.ends
  beta_reduce
  rw [if_pos hold]
  rfl

/-- What goes out before the second lock is all there is. -/
theorem deadlock_demo_unsafe_ends (s : State) {Q : Unit → State → Prop} :
    deadlock_demo_unsafe.ends Q (fun e t => e = .spin ∧ Shown s t (deadlockPrints.map Print.out)) s := by
  unfold deadlock_demo_unsafe
  rw [Prog.ends_bind, ends_setLocked, Prog.ends_bind, ends_setLocked, Prog.ends_bind]
  apply Prog.ends_of_wp
  apply say_shown
  intro t ht htshown
  have hvga : (t.file .vga).locked = 0#32 := by rw [ht.file]; simp
  rw [Prog.ends_bind]
  apply Prog.ends_of_wp
  rw [wp_spin_lock hvga, Prog.ends_bind]
  apply Prog.ends_of_wp
  apply say_shown
  intro u hu hushown
  rw [Prog.ends_bind, ends_setLocked, Prog.ends_bind]
  apply Prog.ends_of_wp
  apply say_shown
  intro v hv hvshown
  have hserial : (v.file .serial).locked ≠ 0#32 := by rw [hv.file]; simp
  have hfirst := (silent_setFile s _ _).before ((silent_setFile _ _ _).before htshown)
  have hshown := (hfirst.trans ((silent_setFile t _ _).before hushown)).trans
    ((silent_setFile u _ _).before hvshown)
  rw [Prog.ends_bind, ends_spin_lock_taken hserial]
  exact ⟨rfl, (silent_setFile v _ _).after hshown⟩

/-! ## One line -/

/-- The line buffers stay, `outs` went out, and the files hold `file`. -/
structure Answered (s t : State) (outs : List Out) (file : User → List Byte) : Prop extends
    Shown s t outs where
  buf : ∀ u, t.buf u = s.buf u
  file : ∀ u, IsCString (t.file u).data.toList (file u)

theorem Print.answered {s t : State} {prints : List Print} {d : Talk} (h : Printed s t)
    (hs : d.Of s) (hshown : Shown s t (prints.map Print.out)) :
    Answered s t (prints.map Print.out) d.file := by
  exact ⟨hshown, h.buf, (hs.printed h).file⟩

theorem Talk.Of.record {d : Talk} {s : State} (h : d.Of s) (es : List Event) :
    d.Of { s with events := es } :=
  ⟨fun u => by rw [buf_events]; exact h.cur u, fun u => by rw [file_events]; exact h.file u⟩

theorem transfer_answered {d : Talk} {s : State} (h : d.Of s) :
    deadlock_demo_safe.wp (fun _ t =>
      Answered s t ((transferPrints (d.file .vga) (d.file .serial)).map Print.out) d.swapped) s := by
  apply Prog.wp_mono (Prog.wp_and (deadlock_demo_safe_shown (h.file .vga) (h.file .serial))
    (deadlock_demo_safe_spec (h.file .vga) (h.file .serial)))
  rintro - t ⟨hshown, hquiet, -, hvga, hserial⟩
  refine ⟨hshown, hquiet.buf, fun u => ?_⟩
  cases u
  · exact hvga
  · exact hserial

theorem Answered.of_record {s t : State} {es : List Event} {outs : List Out} {file : User → List Byte}
    (h : Answered { s with events := es } t outs file) : Answered s t outs file :=
  ⟨⟨h.serial, h.console⟩, fun u => by rw [h.buf, buf_events], h.file⟩

theorem ends_record {e : Event} {s : State} {Q : Unit → State → Prop} {E : Fault → State → Prop} :
    (record e).ends Q E s ↔ Q () { s with events := s.events ++ [e] } := Iff.rfl

/-- What a line does is what `answer` says. -/
theorem handOver_answered {d : Talk} {s : State} {u : User} {line m : List Byte} (hs : d.Of s)
    (hline : IsCString line m) (hlen : m.length ≤ LINE_MAX) :
    (handOver u line).ends
      (fun _ t => ∃ file, (d.answer u m).2 = some file ∧ Answered s t (d.answer u m).1 file)
      (fun e t => e = .spin ∧ (d.answer u m).2 = none ∧ Shown s t (d.answer u m).1) s := by
  unfold handOver
  rw [Prog.ends_bind, ends_record, Prog.ends_bind, chat_try_command_eq hline]
  have hs' := hs.record (s.events ++ [.line u (cString line)])
  unfold Talk.answer
  by_cases hdeadlock : m = ascii "/deadlock"
  · simp only [if_pos hdeadlock]
    unfold Command.run
    rw [Prog.ends_bind, ends_record, Prog.ends_bind]
    apply Prog.ends_mono (deadlock_demo_unsafe_ends _ (Q := fun _ _ => False))
    · exact fun _ _ h => h.elim
    · exact fun e t h => ⟨h.1, trivial, h.2.serial, h.2.console⟩
  simp only [if_neg hdeadlock]
  by_cases htransferir : m = ascii "/transferir"
  · simp only [if_pos htransferir]
    unfold Command.run
    rw [Prog.ends_bind, ends_record, Prog.ends_bind]
    apply Prog.ends_of_wp
    apply Prog.wp_mono (transfer_answered (hs'.record _))
    exact fun _ t h => ⟨_, rfl, h.of_record.of_record⟩
  simp only [if_neg htransferir]
  by_cases hhelp : m = ascii "/help"
  · simp only [if_pos hhelp]
    unfold Command.run
    rw [Prog.ends_bind, ends_record, Prog.ends_bind]
    apply Prog.ends_of_wp
    apply say_shown
    exact fun t h hshown => ⟨_, rfl, (Print.answered h (hs'.record _) hshown).of_record.of_record⟩
  simp only [if_neg hhelp]
  show (chat_submit u line).ends _ _ _
  apply Prog.ends_of_wp
  by_cases hempty : m = []
  · subst hempty
    unfold chat_submit
    rw [Prog.wp_bind, Prog.wp_get hline.head?, if_pos (show [].headD 0#8 = 0#8 from rfl), Prog.wp_pure]
    exact ⟨_, rfl, Answered.of_record ⟨Shown.refl _, fun _ => rfl, hs'.file⟩⟩
  · simp only [if_neg hempty]
    rw [wp_chat_submit hline hempty, message_eq hlen]
    refine ⟨_, rfl, ⟨?_, rfl⟩, fun v => ?_, fun v => ?_⟩
    · rw [serial_print, cString_of_not_mem (broadcastLine_nul hline.1)]
      simp [Out.onSerial]
    · cases v <;> rfl
    · cases v
      · exact hs.file .vga
      · exact hs.file .serial

/-! ## One key -/

/-- After a line: the buffer of `u` starts again. -/
theorem endLine_answered {d : Talk} {s : State} {u : User} (hs : d.Of s) :
    (endLine u).ends
      (fun _ t => ∃ file, (d.answer u (d.cur u)).2 = some file ∧ Shown s t (d.answer u (d.cur u)).1 ∧
        Talk.Of ⟨Function.update d.cur u [], file⟩ t)
      (fun e t => e = .spin ∧ (d.answer u (d.cur u)).2 = none ∧ Shown s t (d.answer u (d.cur u)).1) s := by
  have hline := text_isCString (hs.cur u).le
  rw [(hs.cur u).text_eq] at hline
  have hlen : (d.cur u).length ≤ LINE_MAX := by
    rw [← (hs.cur u).len]
    exact (hs.cur u).le
  have hclose : d.Of (s.setBuf u (s.buf u).close) := by
    refine ⟨fun v => ?_, fun v => by rw [file_setBuf]; exact hs.file v⟩
    rw [buf_setBuf]
    by_cases hv : v = u
    · subst hv
      rw [if_pos rfl]
      exact Line.holds_close (hs.cur v).le (hs.cur v).chars (hs.cur v).text.1
    · rw [if_neg hv]
      exact hs.cur v
  unfold endLine
  rw [Prog.ends_bind]
  apply Prog.ends_of_wp
  rw [wp_putChar (hs.cur u).le, Prog.ends_bind, Prog.ends_read, Prog.ends_bind, buf_setBuf, if_pos rfl]
  apply Prog.ends_mono (handOver_answered hclose hline hlen)
  · rintro - t ⟨file, hfile, ht⟩
    apply Prog.ends_of_wp
    rw [Prog.wp_bind, setLen, Prog.wp_modify, wp_putChar (Nat.zero_le _)]
    have hshown := (silent_setBuf s u _).before ht.toShown
    refine ⟨file, hfile, (silent_setBuf _ _ _).after ((silent_setBuf _ _ _).after hshown),
      fun v => ?_, fun v => ?_⟩
    · by_cases hv : v = u
      · subst hv
        simpa [ht.buf, Line.reset, Line.close] using Line.holds_reset (l := s.buf v)
      · simpa [ht.buf, hv] using hs.cur v
    · simpa using ht.file v
  · rintro e t ⟨he, hnone, hshown⟩
    exact ⟨he, hnone, (silent_setBuf s u _).before hshown⟩

theorem Talk.Of.setCur {d : Talk} {s t : State} {u : User} {l : Line} {m : List Byte} (hs : d.Of s)
    (h : Printed (s.setBuf u l) t) (hl : l.Holds m) : (d.setCur u m).Of t := by
  refine ⟨fun v => ?_, fun v => ?_⟩
  · show (t.buf v).Holds (Function.update d.cur u m v)
    rw [h.buf, buf_setBuf]
    by_cases hv : v = u
    · subst hv
      rw [if_pos rfl, Function.update_self]
      exact hl
    · rw [if_neg hv, Function.update_of_ne hv]
      exact hs.cur v
  · rw [h.file, file_setBuf]
    exact hs.file v

theorem Talk.setCur_nil (d : Talk) {u : User} (h : d.cur u = []) : d.setCur u (d.cur u).dropLast = d := by
  rw [h, List.dropLast_nil, ← h, Talk.setCur, Function.update_eq_self]

def Talk.Follows (d : Talk) (u : User) (c : Byte) (s t : State) : Prop :=
  ∃ d', (d.key u c).2 = some d' ∧ Shown s t (d.key u c).1 ∧ d'.Of t

theorem kbd_process_char_answered {d : Talk} {s : State} (hs : d.Of s) (c : Byte) :
    (kbd_process_char c).ends (fun _ t => d.Follows .vga c s t)
      (fun e t => e = .spin ∧ (d.key .vga c).2 = none ∧ Shown s t (d.key .vga c).1) s := by
  have hholds := hs.cur .vga
  unfold kbd_process_char Talk.Follows Talk.key
  by_cases hend : c = 0x0A#8
  · have hend' : User.vga.EndsLine c := hend
    simp only [if_pos hend, if_pos hend']
    apply Prog.ends_mono (endLine_answered hs)
    · rintro - t ⟨file, hfile, hshown, ht⟩
      rw [hfile]
      exact ⟨_, rfl, hshown, ht⟩
    · rintro e t ⟨he, hnone, hshown⟩
      rw [hnone]
      exact ⟨he, rfl, hshown⟩
  have hend' : ¬ User.vga.EndsLine c := hend
  simp only [if_neg hend, if_neg hend']
  apply Prog.ends_of_wp
  by_cases hbs : c = 0x08#8
  · have hbs' : User.vga.Erases c := hbs
    simp only [if_pos hbs, if_pos hbs']
    rw [Prog.wp_bind, lineLen, Prog.wp_read, hholds.len]
    by_cases hempty : d.cur .vga = []
    · rw [if_neg (by rw [hempty]; decide), if_pos hempty, Prog.wp_pure, d.setCur_nil hempty]
      exact ⟨d, rfl, Shown.refl s, hs⟩
    · rw [if_pos (List.length_pos_iff.mpr hempty), if_neg hempty]
      rw [Prog.wp_bind, setLen, Prog.wp_modify, Prog.wp_bind, wp_putChar (hs.ok.len_back .vga),
        Prog.wp_modify]
      simp only [buf_setBuf, if_pos, setBuf_setBuf]
      exact ⟨_, rfl, (silent_setBuf s .vga _).before (shown_backspace _),
        hs.setCur (printed_console _ _) hholds.erase⟩
  have hbs' : ¬ User.vga.Erases c := hbs
  simp only [if_neg hbs, if_neg hbs']
  by_cases hctl : c < 32#8
  · simp only [if_pos hctl]
    exact (Prog.wp_pure _).mpr ⟨d, rfl, Shown.refl s, hs⟩
  simp only [if_neg hctl]
  rw [Prog.wp_bind, lineLen, Prog.wp_read]
  by_cases hfit : (s.buf .vga).len < LINE_MAX
  · have hfit' : (d.cur .vga).length < LINE_MAX := by rwa [← hholds.len]
    rw [if_pos hfit, if_pos hfit', Prog.wp_bind, appendChar_spec hfit, consoleWrite, Prog.wp_modify]
    have hecho := shown_console (s.setBuf .vga ((s.buf .vga).append c)) [c, 0#8] CONSOLE_WHITE
    rw [cString_echo hctl] at hecho
    exact ⟨_, rfl, (silent_setBuf s .vga _).before hecho,
      hs.setCur (printed_console _ _) (hholds.append hfit' hctl)⟩
  · have hfit' : ¬ (d.cur .vga).length < LINE_MAX := by rwa [← hholds.len]
    rw [if_neg hfit, if_neg hfit']
    exact (Prog.wp_pure _).mpr ⟨d, rfl, Shown.refl s, hs⟩

theorem ser_process_char_answered {d : Talk} {s : State} (hs : d.Of s) (c : Byte) :
    (ser_process_char c).ends (fun _ t => d.Follows .serial c s t)
      (fun e t => e = .spin ∧ (d.key .serial c).2 = none ∧ Shown s t (d.key .serial c).1) s := by
  have hholds := hs.cur .serial
  unfold ser_process_char Talk.Follows Talk.key
  by_cases hend : c = 0x0A#8 ∨ c = 0x0D#8
  · have hend' : User.serial.EndsLine c := hend
    simp only [if_pos hend, if_pos hend']
    have hprinted := printed_serialPrint s (serial_print s.serial (lit "\r\n"))
    have hshown := shown_serial s (lit "\r\n")
    rw [Prog.ends_bind, serialPrint, Prog.ends_modify]
    apply Prog.ends_mono (endLine_answered (hs.printed hprinted))
    · rintro - t ⟨file, hfile, ht, hof⟩
      rw [hfile]
      exact ⟨_, rfl, hshown.trans ht, hof⟩
    · rintro e t ⟨he, hnone, ht⟩
      rw [hnone]
      exact ⟨he, rfl, hshown.trans ht⟩
  have hend' : ¬ User.serial.EndsLine c := hend
  simp only [if_neg hend, if_neg hend']
  apply Prog.ends_of_wp
  by_cases hbs : c = 0x08#8 ∨ c = 127#8
  · have hbs' : User.serial.Erases c := hbs
    simp only [if_pos hbs, if_pos hbs']
    rw [Prog.wp_bind, backUp_spec, wp_putChar (hs.ok.len_back .serial)]
    simp only [buf_setBuf, if_pos, setBuf_setBuf, User.eraseEcho, ite_self]
    exact ⟨_, rfl, (silent_setBuf s .serial _).shown, hs.setCur (Printed.refl _) hholds.erase⟩
  have hbs' : ¬ User.serial.Erases c := hbs
  simp only [if_neg hbs, if_neg hbs']
  by_cases hctl : c < 32#8
  · simp only [if_pos hctl]
    exact (Prog.wp_pure _).mpr ⟨d, rfl, Shown.refl s, hs⟩
  simp only [if_neg hctl]
  rw [Prog.wp_bind, lineLen, Prog.wp_read]
  by_cases hfit : (s.buf .serial).len < LINE_MAX
  · have hfit' : (d.cur .serial).length < LINE_MAX := by rwa [← hholds.len]
    rw [if_pos hfit, if_pos hfit', Prog.wp_bind, appendChar_spec hfit, serialPrint, Prog.wp_modify]
    have hecho := shown_serial (s.setBuf .serial ((s.buf .serial).append c)) [c, 0#8]
    rw [cString_echo hctl] at hecho
    exact ⟨_, rfl, (silent_setBuf s .serial _).before hecho,
      hs.setCur (printed_serialPrint _ _) (hholds.append hfit' hctl)⟩
  · have hfit' : ¬ (d.cur .serial).length < LINE_MAX := by rwa [← hholds.len]
    rw [if_neg hfit, if_neg hfit']
    exact (Prog.wp_pure _).mpr ⟨d, rfl, Shown.refl s, hs⟩

theorem Key.process_answered {d : Talk} {s : State} (hs : d.Of s) (k : Key) :
    k.process.ends (fun _ t => d.Follows k.user k.byte s t)
      (fun e t => e = .spin ∧ (d.key k.user k.byte).2 = none ∧ Shown s t (d.key k.user k.byte).1) s := by
  cases k with
  | kbd c => exact kbd_process_char_answered hs c
  | ser c => exact ser_process_char_answered hs c

/-! ## Any keys -/

theorem Key.processAll_answered {d : Talk} {s : State} (hs : d.Of s) (ks : List Key) :
    (Key.processAll ks).ends
      (fun _ t => ∃ d', (d.run ks).2 = some d' ∧ Shown s t (d.run ks).1 ∧ d'.Of t)
      (fun e t => e = .spin ∧ (d.run ks).2 = none ∧ Shown s t (d.run ks).1) s := by
  induction ks generalizing d s with
  | nil => exact ⟨d, rfl, Shown.refl s, hs⟩
  | cons k ks ih =>
    rw [Key.processAll, Prog.ends_bind]
    apply Prog.ends_mono (Key.process_answered hs k)
    · rintro - t ⟨d', hd', hshown, ht⟩
      rw [Talk.run_some hd']
      apply Prog.ends_mono (ih ht)
      · rintro - v ⟨d'', hd'', hrest, hv⟩
        exact ⟨d'', hd'', hshown.trans hrest, hv⟩
      · rintro e v ⟨he, hnone, hrest⟩
        exact ⟨he, hnone, hshown.trans hrest⟩
    · rintro e t ⟨he, hnone, hshown⟩
      rw [Talk.run_none hnone]
      exact ⟨he, rfl, hshown⟩

theorem Key.processAll_bind (ks ks' : List Key) :
    Key.processAll (ks ++ ks') = Key.processAll ks >>= fun _ => Key.processAll ks' := by
  induction ks with
  | nil => rfl
  | cons k ks ih =>
    rw [List.cons_append, Key.processAll, ih, Key.processAll, bind_assoc]

theorem chat_polls_eq (polls : List (List Byte × List Byte)) :
    chat_polls polls = Key.processAll (polled polls) := by
  induction polls with
  | nil => rfl
  | cons p polls ih =>
    obtain ⟨typed, received⟩ := p
    show chat_polls ((typed, received) :: polls) =
      Key.processAll ((typed.map .kbd ++ received.map .ser) ++ polled polls)
    rw [chat_polls, chat_poll, Key.processAll_bind, Key.processAll_bind, ih]

theorem chat_init_talk (s : State) :
    chat_init.wp (fun _ t => Talk.start.Of t ∧ Shown s t []) s := by
  have hvga : IsCString (lit "foto_ferias.png") (ascii "foto_ferias.png") := lit_isCString (by decide)
  have hserial : IsCString (lit "trabalho.pdf") (ascii "trabalho.pdf") := lit_isCString (by decide)
  unfold chat_init deadlock_init
  rw [Prog.wp_bind, setLen, Prog.wp_modify, Prog.wp_bind, wp_putChar (Nat.zero_le _)]
  rw [Prog.wp_bind, setLen, Prog.wp_modify, Prog.wp_bind, wp_putChar (Nat.zero_le _)]
  rw [Prog.wp_bind, setLocked, Prog.wp_modify, Prog.wp_bind]
  apply copyToFile_spec hvga
  intro vga hvga'
  rw [Prog.wp_bind, setLocked, Prog.wp_modify]
  apply copyToFile_spec hserial
  intro serial hserial'
  refine ⟨⟨fun u => ?_, fun u => ?_⟩, Silent.shown ⟨rfl, rfl⟩⟩
  · cases u <;> exact Line.holds_close (Nat.zero_le _) rfl List.not_mem_nil
  · cases u
    · exact hvga'
    · exact hserial'

/-- What `kmain` does in the end. -/
def chat_loop (polls : List (List Byte × List Byte)) : Action Unit := do
  chat_init
  chat_polls polls

theorem chat_loop_answered (s : State) (polls : List (List Byte × List Byte)) :
    (chat_loop polls).ends
      (fun _ t => ∃ d, (Talk.start.run (polled polls)).2 = some d ∧
        Shown s t (Talk.start.run (polled polls)).1 ∧ d.Of t)
      (fun e t => e = .spin ∧ (Talk.start.run (polled polls)).2 = none ∧
        Shown s t (Talk.start.run (polled polls)).1) s := by
  unfold chat_loop
  rw [Prog.ends_bind]
  apply Prog.ends_of_wp
  apply Prog.wp_mono (chat_init_talk s)
  rintro - t ⟨hstart, hshown⟩
  rw [chat_polls_eq]
  apply Prog.ends_mono (Key.processAll_answered hstart (polled polls))
  · rintro - v ⟨d, hd, hrest, hv⟩
    exact ⟨d, hd, hshown.trans hrest, hv⟩
  · rintro e v ⟨he, hnone, hrest⟩
    exact ⟨he, hnone, hshown.trans hrest⟩

/-- **The chat, from `chat_init` on.** However `chat_poll` finds the keys of both users, what goes out on
the screen and the port is exactly what the machine on lists says, block by block, and the buffers and
files hold its lists. The code hangs where that machine ends, after the last block, and nowhere else. -/
theorem chat_transcript (s : State) (polls : List (List Byte × List Byte)) :
    Shown s ((chat_loop polls).last s) (Talk.start.run (polled polls)).1 ∧
      match (Talk.start.run (polled polls)).2 with
      | some d => (chat_loop polls).exec s = .ok ((), (chat_loop polls).last s) ∧
          d.Of ((chat_loop polls).last s)
      | none => (chat_loop polls).exec s = .error .spin := by
  rcases Prog.ends_last (chat_loop_answered s polls) with
    ⟨_, hrun, d, hd, hshown, hof⟩ | ⟨e, hrun, rfl, hnone, hshown⟩
  · rw [hd]
    exact ⟨hshown, hrun, hof⟩
  · rw [hnone]
    exact ⟨hshown, hrun⟩

end MiniOS.Chat
