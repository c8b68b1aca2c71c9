import MiniOS.Chat.Output

/-!
# The line discipline

An editor on plain lists says what a user's keys mean: `Editor.step`. The arrays of
`kbd_process_char` and `ser_process_char` follow it over any stream, and what they send
is what it says.
-/

open MiniOS.Lib

namespace MiniOS.Chat

/-! ## The two users' code, as one -/

def User.process : User → Byte → Action Unit
  | .vga => kbd_process_char
  | .serial => ser_process_char

def User.EndsLine : User → Byte → Prop
  | .vga, c => c = 0x0A#8
  | .serial, c => Chat.EndsLine c

def User.Erases : User → Byte → Prop
  | .vga, c => c = 0x08#8
  | .serial, c => c = 0x08#8 ∨ c = 127#8

instance : (u : User) → (c : Byte) → Decidable (u.EndsLine c)
  | .vga, c => inferInstanceAs (Decidable (c = 0x0A#8))
  | .serial, c => inferInstanceAs (Decidable (Chat.EndsLine c))

instance : (u : User) → (c : Byte) → Decidable (u.Erases c)
  | .vga, c => inferInstanceAs (Decidable (c = 0x08#8))
  | .serial, c => inferInstanceAs (Decidable (c = 0x08#8 ∨ c = 127#8))

def User.edit : User → Line → Byte → Line
  | .vga => kbdEdit
  | .serial => serEdit

/-- The state in which a line of `u` is handed over: the serial line end is echoed first. -/
def User.echoed : User → State → State
  | .vga, s => s
  | .serial, s => { s with serial := serial_print s.serial (lit "\r\n") }

def User.feed (u : User) (bytes : List Byte) (s : State) : Except Fault State :=
  bytes.foldlM (fun s c => ((u.process c).exec s).map Prod.snd) s

theorem User.feed_cons {u : User} {c : Byte} {bytes : List Byte} {s t : State}
    (h : (u.process c).exec s = .ok ((), t)) : u.feed (c :: bytes) s = u.feed bytes t := by
  unfold User.feed
  rw [List.foldlM_cons, h]
  rfl

theorem User.edit_len {u : User} {l : Line} (h : l.len ≤ LINE_MAX) (c : Byte) :
    (u.edit l c).len ≤ LINE_MAX := by
  cases u
  · exact kbdEdit_len h c
  · exact serEdit_len h c

theorem User.process_spec {u : User} {s : State} {c : Byte} (hs : s.Ok)
    (h : ¬ (u.EndsLine c ∧ (s.buf u).text = ascii "/deadlock")) :
    (u.process c).wp (fun _ t =>
      Edited u s t (u.edit (s.buf u) c) (if u.EndsLine c then handled u (s.buf u).text else []) ∧
      (u.EndsLine c → ¬ IsCommand (s.buf u).text → Sent u (s.buf u).text (u.echoed s) t)) s := by
  cases u with
  | vga =>
    apply Prog.wp_mono (kbd_process_char_spec hs h)
    exact fun _ t ht => ⟨ht.1, ht.2.1⟩
  | serial =>
    apply Prog.wp_mono (ser_process_char_spec hs h)
    exact fun _ t ht => ⟨ht.1, ht.2.1⟩

theorem User.process_hangs {u : User} {s : State} {c : Byte} (hs : s.Ok) (hc : u.EndsLine c)
    (htext : (s.buf u).text = ascii "/deadlock") : (u.process c).exec s = .error .spin := by
  cases u
  · exact kbd_process_char_hangs hs ⟨hc, htext⟩
  · exact ser_process_char_hangs hs hc htext

theorem User.process_free {u : User} {s t : State} {c : Byte} (hs : s.Ok)
    (hrun : (u.process c).exec s = .ok ((), t)) :
    ¬ (u.EndsLine c ∧ (s.buf u).text = ascii "/deadlock") := by
  rintro ⟨hc, htext⟩
  rw [User.process_hangs hs hc htext] at hrun
  cases hrun

theorem User.process_statements (u : User) (c : Byte) : (u.process c).Each (Statement u) := by
  cases u
  · exact kbd_process_char_statements c
  · exact ser_process_char_statements c

theorem echoed_plain (u : User) (s : State) : Plain s (u.echoed s) := by
  cases u with
  | vga => exact Plain.refl s
  | serial => exact (Statement.serial (v := .serial) (lit "\r\n")).plain

/-! ## The editor on lists -/

structure Editor where
  cur : List Byte
  lines : List (List Byte)

def Editor.step (u : User) (e : Editor) (c : Byte) : Editor :=
  if u.EndsLine c then ⟨[], e.lines ++ [e.cur]⟩
  else if u.Erases c then { e with cur := e.cur.dropLast }
  else if c < 32#8 then e
  else if e.cur.length < LINE_MAX then { e with cur := e.cur ++ [c] } else e

def Editor.empty : Editor := ⟨[], []⟩

def Editor.run (u : User) (bytes : List Byte) : Editor := bytes.foldl (Editor.step u) Editor.empty

def Editor.Printable (e : Editor) : Prop := ∀ b ∈ e.cur, ¬ b < 32#8

theorem Editor.printable_step {u : User} {e : Editor} (h : e.Printable) (c : Byte) :
    (Editor.step u e c).Printable := by
  unfold Editor.step
  by_cases hend : u.EndsLine c
  · rw [if_pos hend]
    exact fun b hb => absurd hb (List.not_mem_nil)
  rw [if_neg hend]
  by_cases hbs : u.Erases c
  · rw [if_pos hbs]
    exact fun b hb => h b (List.mem_of_mem_dropLast hb)
  rw [if_neg hbs]
  by_cases hctl : c < 32#8
  · rwa [if_pos hctl]
  rw [if_neg hctl]
  by_cases hfit : e.cur.length < LINE_MAX
  · rw [if_pos hfit]
    intro b hb
    rcases List.mem_append.mp hb with hb | hb
    · exact h b hb
    · rwa [List.mem_singleton.mp hb]
  · rwa [if_neg hfit]

theorem Editor.lines_step (u : User) (e : Editor) (c : Byte) :
    (Editor.step u e c).lines = e.lines ++ if u.EndsLine c then [e.cur] else [] := by
  unfold Editor.step
  split_ifs <;> simp

theorem Editor.lines_prefix (u : User) (bytes : List Byte) (e : Editor) :
    e.lines <+: (bytes.foldl (Editor.step u) e).lines := by
  induction bytes generalizing e with
  | nil => exact List.prefix_refl _
  | cons c bytes ih =>
    refine List.IsPrefix.trans ?_ (ih _)
    rw [Editor.lines_step]
    exact List.prefix_append _ _

/-! ## The array holds the list -/

/-- `m` is in the array, up to its terminator. -/
structure Line.Holds (l : Line) (m : List Byte) : Prop where
  len : l.len = m.length
  text : IsCString l.line.toList m

theorem Line.Holds.le {l : Line} {m : List Byte} (h : l.Holds m) : l.len ≤ LINE_MAX := by
  obtain ⟨-, rest, hrest⟩ := h.text
  have hlen := congrArg List.length hrest
  have hmax : LINE_MAX = 120 := rfl
  simp only [Vector.length_toList, List.length_append, List.length_cons] at hlen
  rw [h.len]
  omega

theorem Line.Holds.chars {l : Line} {m : List Byte} (h : l.Holds m) : l.chars = m := by
  obtain ⟨-, rest, hrest⟩ := h.text
  unfold Line.chars
  rw [hrest, h.len, List.take_left]

theorem Line.Holds.text_eq {l : Line} {m : List Byte} (h : l.Holds m) : l.text = m := by
  have hchars := h.chars
  rw [Line.text_eq_chars h.le (by rw [hchars]; exact h.text.1), hchars]

theorem Line.holds_close {l : Line} {m : List Byte} (hlen : l.len ≤ LINE_MAX) (hchars : l.chars = m)
    (hnul : 0#8 ∉ m) : l.close.Holds m := by
  have hclose : l.close.chars = m := by
    rw [Line.close, Line.chars_put (le_refl _), hchars]
  refine ⟨?_, ?_⟩
  · rw [← hchars, Line.length_chars hlen]
    rfl
  · have htext := text_isCString hlen
    rwa [Line.text_eq_chars hlen (by rwa [hchars]), hchars] at htext

theorem Line.holds_reset {l : Line} : l.reset.Holds [] := by
  apply Line.holds_close (l := { l.close with len := 0 }) (Nat.zero_le _) _ (by simp)
  rw [Line.chars, List.take_zero]

theorem Line.Holds.append {l : Line} {m : List Byte} (h : l.Holds m) (hfit : m.length < LINE_MAX)
    {c : Byte} (hc : ¬ c < 32#8) : (l.append c).Holds (m ++ [c]) := by
  have hlen : l.len < LINE_MAX := by rwa [h.len]
  have hnul : 0#8 ∉ m ++ [c] := by
    rw [List.mem_append, List.mem_singleton, not_or]
    refine ⟨h.text.1, ?_⟩
    rintro rfl
    exact hc (by decide)
  have hchars := Line.chars_append hlen c
  rw [h.chars] at hchars
  apply Line.holds_close (l := { l.put l.len c with len := l.len + 1 }) hlen _ hnul
  rwa [Line.append, Line.close, Line.chars_put (le_refl _)] at hchars

theorem Line.Holds.erase {l : Line} {m : List Byte} (h : l.Holds m) : l.erase.Holds m.dropLast := by
  have hchars := Line.chars_erase h.le
  rw [h.chars] at hchars
  apply Line.holds_close _ _ fun hb => h.text.1 (List.mem_of_mem_dropLast hb)
  · exact le_trans (Nat.sub_le _ _) h.le
  · rwa [Line.erase, Line.close, Line.chars_put (le_refl _)] at hchars

/-- The serial port rewrites the terminator of an empty line, the keyboard leaves it. -/
theorem User.edit_erase {u : User} {l : Line} {m : List Byte} (h : l.Holds m) {c : Byte}
    (hend : ¬ u.EndsLine c) (hc : u.Erases c) : (u.edit l c).Holds m.dropLast := by
  cases u with
  | vga =>
    have hedit : User.vga.edit l c = if l.len > 0 then l.erase else l := (if_neg hend).trans (if_pos hc)
    rw [hedit]
    by_cases hlen : l.len > 0
    · rw [if_pos hlen]
      exact h.erase
    · have hempty : m = [] := List.length_eq_zero_iff.mp (by rw [← h.len]; omega)
      rw [if_neg hlen]
      subst hempty
      exact h
  | serial =>
    have hedit : User.serial.edit l c = l.erase := (if_neg hend).trans (if_pos hc)
    rw [hedit]
    exact h.erase

theorem User.edit_type {u : User} {l : Line} {c : Byte} (hend : ¬ u.EndsLine c) (hbs : ¬ u.Erases c) :
    u.edit l c = if c < 32#8 then l else if l.len < LINE_MAX then l.append c else l := by
  cases u
  · exact (if_neg hend).trans (if_neg hbs)
  · exact (if_neg hend).trans (if_neg hbs)

theorem User.edit_end {u : User} {l : Line} {c : Byte} (hend : u.EndsLine c) : u.edit l c = l.reset := by
  cases u
  · exact if_pos hend
  · exact if_pos hend

theorem Editor.step_holds {u : User} {l : Line} {e : Editor} (h : l.Holds e.cur) (c : Byte) :
    (u.edit l c).Holds (Editor.step u e c).cur := by
  unfold Editor.step
  by_cases hend : u.EndsLine c
  · rw [if_pos hend, User.edit_end hend]
    exact Line.holds_reset
  rw [if_neg hend]
  by_cases hbs : u.Erases c
  · rw [if_pos hbs]
    exact User.edit_erase h hend hbs
  rw [if_neg hbs, User.edit_type hend hbs]
  by_cases hctl : c < 32#8
  · rwa [if_pos hctl, if_pos hctl]
  rw [if_neg hctl, if_neg hctl, h.len]
  by_cases hfit : e.cur.length < LINE_MAX
  · rw [if_pos hfit, if_pos hfit]
    exact h.append hfit hctl
  · rwa [if_neg hfit, if_neg hfit]

/-! ## One key -/

/-- Of a line that could be typed, an end of it sends all, and another key nothing. -/
theorem User.process_contiguous {u : User} {s t : State} {c : Byte} {m : List Byte} (hs : s.Ok)
    (hm : (s.buf u).Holds m) (htyped : ∀ b ∈ m, ¬ b < 32#8) (hrun : (u.process c).exec s = .ok ((), t)) :
    ∃ outs, Contiguous s t outs (if u.EndsLine c then handled u m else []) := by
  obtain ⟨hedit, hsent⟩ := (Prog.wp_of_exec hrun).mp (User.process_spec hs (User.process_free hs hrun))
  rw [hm.text_eq] at hedit hsent
  by_cases hout : u.EndsLine c ∧ ¬ (IsCommand m ∨ m = [])
  · -- the only broadcast, behind the echo of the line end
    obtain ⟨hend, hout⟩ := hout
    obtain ⟨outs, hplain, hecho⟩ := echoed_plain u s
    have hlen : m.length ≤ LINE_MAX := by
      rw [← hm.len]
      exact hm.le
    have hmessage := (hsent hend fun hc => hout (Or.inl hc)).shown (fun hc => hout (Or.inr hc)) hlen
      hm.text.1
    refine ⟨outs ++ [.line u m], hecho.trans hmessage, hedit.events, ?_, ?_⟩
    · rw [if_pos hend, List.filterMap_append, hplain, sentOf_handled, if_neg hout]
      rfl
    · rw [if_pos hend, sentOf_handled, if_neg hout]
      intro x hx
      rw [List.mem_singleton.mp hx]
      exact ⟨fun hb => htyped _ hb (by decide), hm.text.1⟩
  · have heach := (User.process_statements u c).mono fun _ _ h => h.plain
    obtain ⟨outs, hplain, hshown⟩ := heach.exec Plain.refl (fun _ _ _ => Plain.trans) hrun
    have hnone : sentOf (if u.EndsLine c then handled u m else []) = [] := by
      by_cases hend : u.EndsLine c
      · rw [if_pos hend, sentOf_handled, if_pos (not_not.mp fun hc => hout ⟨hend, hc⟩)]
      · rw [if_neg hend]
        rfl
    refine ⟨outs, hshown, hedit.events, ?_, ?_⟩
    · rw [hplain, hnone]
    · rw [hnone]
      exact fun x hx => absurd hx List.not_mem_nil

/-! ## A stream of keys -/

/-- From `s₀`, `u`'s code is where the editor is. -/
structure Follows (u : User) (s₀ : State) (e : Editor) (s : State) : Prop where
  ok : s.Ok
  holds : (s.buf u).Holds e.cur
  printable : e.Printable
  out : ∃ outs, Contiguous s₀ s outs (e.lines.flatMap (handled u))

theorem follows_start {u : User} {s : State} (hs : s.Ok) (hempty : (s.buf u).Holds []) :
    Follows u s Editor.empty s :=
  ⟨hs, hempty, fun _ hb => absurd hb List.not_mem_nil, [], Contiguous.refl s⟩

theorem Follows.text {u : User} {s₀ s : State} {e : Editor} (h : Follows u s₀ e s) :
    (s.buf u).text = e.cur := h.holds.text_eq

theorem Follows.step {u : User} {s₀ s : State} {e : Editor} (h : Follows u s₀ e s) {c : Byte}
    (hfree : ascii "/deadlock" ∉ (Editor.step u e c).lines) :
    ∃ t, (u.process c).exec s = .ok ((), t) ∧ Follows u s₀ (Editor.step u e c) t := by
  have hline : ¬ (u.EndsLine c ∧ (s.buf u).text = ascii "/deadlock") := by
    rintro ⟨hend, htext⟩
    rw [Editor.lines_step, if_pos hend, ← h.text, htext] at hfree
    exact hfree (by simp)
  obtain ⟨⟨⟩, t, hrun, hedit, -⟩ := User.process_spec h.ok hline
  refine ⟨t, hrun, hedit.ok h.ok (User.edit_len h.holds.le c), ?_, Editor.printable_step h.printable c, ?_⟩
  · rw [hedit.buf]
    exact Editor.step_holds h.holds c
  · obtain ⟨outs, hout⟩ := h.out
    obtain ⟨outs', hstep⟩ := User.process_contiguous h.ok h.holds h.printable hrun
    refine ⟨outs ++ outs', ?_⟩
    rw [Editor.lines_step, List.flatMap_append]
    by_cases hend : u.EndsLine c
    · rw [if_pos hend] at hstep ⊢
      rw [List.flatMap_singleton]
      exact hout.trans hstep
    · rw [if_neg hend] at hstep ⊢
      exact hout.trans hstep

theorem Follows.run {u : User} {s₀ s : State} {e : Editor} (h : Follows u s₀ e s) (bytes : List Byte)
    (hfree : ascii "/deadlock" ∉ (bytes.foldl (Editor.step u) e).lines) :
    ∃ t, u.feed bytes s = .ok t ∧ Follows u s₀ (bytes.foldl (Editor.step u) e) t := by
  induction bytes generalizing s e with
  | nil => exact ⟨s, rfl, h⟩
  | cons c bytes ih =>
    obtain ⟨t, hstep, ht⟩ :=
      h.step fun hmem => hfree ((Editor.lines_prefix u bytes _).subset hmem)
    rw [User.feed_cons hstep]
    exact ih ht hfree

/-! ## What the record says -/

/-- The lines of `u` that were handed over. -/
def linesOf (u : User) (es : List Event) : List (List Byte) :=
  es.filterMap fun e => match e with
    | .line v m => if v = u then some m else none
    | _ => none

def broadcastsOf (u : User) (es : List Event) : List (List Byte) :=
  es.filterMap fun e => match e with
    | .broadcast v m => if v = u then some m else none
    | _ => none

def commands : List (List Byte) := [ascii "/deadlock", ascii "/transferir", ascii "/help"]

theorem linesOf_handled (u : User) (lines : List (List Byte)) :
    linesOf u (lines.flatMap (handled u)) = lines := by
  induction lines with
  | nil => rfl
  | cons m lines ih =>
    have hone : linesOf u (handled u m) = [m] := by
      unfold linesOf handled submitted
      split_ifs <;> simp
    rw [List.flatMap_cons, linesOf, List.filterMap_append]
    exact congrArg₂ (· ++ ·) hone ih

theorem broadcastsOf_handled (u : User) (m : List Byte) :
    broadcastsOf u (handled u m) = if IsCommand m ∨ m = [] then [] else [m] := by
  unfold broadcastsOf
  rw [filterMap_handled rfl rfl]
  simp

theorem broadcastsOf_lines (u : User) {lines : List (List Byte)} (h : ascii "/deadlock" ∉ lines) :
    broadcastsOf u (lines.flatMap (handled u)) = lines.filter fun m => m ≠ [] ∧ m ∉ commands := by
  induction lines with
  | nil => rfl
  | cons m lines ih =>
    rw [List.mem_cons, not_or] at h
    have hkeep : (m ≠ [] ∧ m ∉ commands) ↔ ¬ (IsCommand m ∨ m = []) := by
      have hm : m ≠ ascii "/deadlock" := fun heq => h.1 heq.symm
      simp only [commands, IsCommand, List.mem_cons, List.not_mem_nil, or_false, hm, false_or]
      tauto
    rw [List.flatMap_cons, broadcastsOf, List.filterMap_append]
    show broadcastsOf u (handled u m) ++ broadcastsOf u (lines.flatMap (handled u)) = _
    rw [broadcastsOf_handled, ih h.2, List.filter_cons]
    by_cases hout : IsCommand m ∨ m = []
    · rw [if_pos hout, if_neg (by simpa using fun hm hc => hkeep.mp ⟨hm, hc⟩ hout)]
      rfl
    · rw [if_neg hout, if_pos (decide_eq_true (hkeep.mpr hout))]
      rfl

theorem sentOf_broadcasts (u : User) (lines : List (List Byte)) :
    sentOf (lines.flatMap (handled u)) = (broadcastsOf u (lines.flatMap (handled u))).map fun m => (u, m) := by
  induction lines with
  | nil => rfl
  | cons m lines ih =>
    have hone : sentOf (handled u m) = (broadcastsOf u (handled u m)).map fun m => (u, m) := by
      rw [sentOf_handled, broadcastsOf_handled]
      split <;> rfl
    rw [List.flatMap_cons, sentOf, broadcastsOf, List.filterMap_append, List.filterMap_append, List.map_append]
    exact congrArg₂ (· ++ ·) hone ih

/-- **The line discipline.** From an empty buffer, over any stream in which no line is `/deadlock`, the
code of either user ends with the editor's list in its buffer, hands over the editor's lines, and
broadcasts those of them that say something and are no command: these go out, each as one block. -/
theorem line_discipline (u : User) (bytes : List Byte) (s : State) (hs : s.Ok)
    (hempty : (s.buf u).Holds []) (hfree : ascii "/deadlock" ∉ (Editor.run u bytes).lines) :
    ∃ t es outs, u.feed bytes s = .ok t ∧ (t.buf u).Holds (Editor.run u bytes).cur ∧
      t.events = s.events ++ es ∧ linesOf u es = (Editor.run u bytes).lines ∧
      broadcastsOf u es = ((Editor.run u bytes).lines.filter fun m => m ≠ [] ∧ m ∉ commands) ∧
      Contiguous s t outs es ∧ outs.filterMap Out.sent = (broadcastsOf u es).map fun m => (u, m) := by
  obtain ⟨t, hrun, ht⟩ := (follows_start hs hempty).run bytes hfree
  obtain ⟨outs, hout⟩ := ht.out
  exact ⟨t, _, outs, hrun, ht.holds, hout.events, linesOf_handled u _, broadcastsOf_lines u hfree, hout,
    hout.sent.trans (sentOf_broadcasts u _)⟩

theorem powerOn_ok : powerOn.Ok := by
  refine ⟨fun u => ?_, fun u => ?_⟩
  · cases u <;> exact Nat.zero_le _
  · cases u <;> simp [powerOn, State.file]

theorem powerOn_empty (u : User) : (powerOn.buf u).Holds [] := by
  cases u
  · exact ⟨rfl, by simp, List.replicate 120 0#8, rfl⟩
  · exact ⟨rfl, by simp, List.replicate 120 0#8, rfl⟩

/-- `a`, a backspace that takes it, `b`, `DEL` that takes it on the serial port, and `c`. -/
theorem serial_line_discipline :
    ∃ t es outs, User.serial.feed [0x61#8, 0x08#8, 0x62#8, 0x7F#8, 0x63#8, 0x0D#8, 0x64#8] powerOn = .ok t ∧
      (t.buf .serial).Holds [0x64#8] ∧ t.events = es ∧ linesOf .serial es = [[0x63#8]] ∧
      broadcastsOf .serial es = [[0x63#8]] ∧ Contiguous powerOn t outs es ∧
      outs.filterMap Out.sent = (broadcastsOf .serial es).map fun m => (.serial, m) :=
  line_discipline .serial [0x61#8, 0x08#8, 0x62#8, 0x7F#8, 0x63#8, 0x0D#8, 0x64#8] powerOn powerOn_ok
    (powerOn_empty .serial) (by decide)

end MiniOS.Chat
