import MiniOS.Chat.Users

/-!
# Streams that mean the same

The two editors do the same with every stream that holds neither `\r` nor `DEL`. To the
serial editor all line ends are one, and the empty lines between them are nothing.
-/

open MiniOS.Lib

namespace MiniOS.Chat

/-! ## The two editors -/

/-- The same event in the name of `v`. -/
def Event.by (v : User) : Event → Event
  | .line _ m => .line v m
  | .command _ m => .command v m
  | .broadcast _ m => .broadcast v m

theorem handled_by (u v : User) (m : List Byte) : (handled u m).map (Event.by v) = handled v m := by
  unfold handled submitted
  split_ifs <;> rfl

theorem flatMap_handled_by (u v : User) (lines : List (List Byte)) :
    (lines.flatMap (handled u)).map (Event.by v) = lines.flatMap (handled v) := by
  rw [List.map_flatMap]
  simp only [handled_by]

theorem sentOf_by (v : User) (es : List Event) :
    sentOf (es.map (Event.by v)) = (sentOf es).map fun x => (v, x.2) := by
  unfold sentOf
  rw [List.filterMap_map, List.map_filterMap]
  refine List.filterMap_congr fun e _ => ?_
  cases e <;> rfl

theorem Editor.step_agree {c : Byte} (hcr : c ≠ 0x0D#8) (hdel : c ≠ 127#8) (e : Editor) :
    Editor.step .vga e c = Editor.step .serial e c := by
  have hend : User.vga.EndsLine c ↔ User.serial.EndsLine c := (or_iff_left hcr).symm
  have hbs : User.vga.Erases c ↔ User.serial.Erases c := (or_iff_left hdel).symm
  unfold Editor.step
  simp only [hend, hbs]

theorem Editor.run_agree {bytes : List Byte} (hcr : 0x0D#8 ∉ bytes) (hdel : 127#8 ∉ bytes) (e : Editor) :
    bytes.foldl (Editor.step .vga) e = bytes.foldl (Editor.step .serial) e := by
  induction bytes generalizing e with
  | nil => rfl
  | cons c bytes ih =>
    rw [List.mem_cons, not_or] at hcr hdel
    rw [List.foldl_cons, List.foldl_cons, Editor.step_agree (Ne.symm hcr.1) (Ne.symm hdel.1)]
    exact ih hcr.2 hdel.2 _

theorem Line.Holds.cString {l : Line} {m : List Byte} (h : l.Holds m) :
    cString l.line.toList = m := IsCString.cString h.text

/-- **The editors agree.** Over a stream with neither `\r` nor `DEL`, in which no line is `/deadlock`,
both do the same in the name of their users, from empty buffers to equal ones, and the same messages
go out. -/
theorem editors_agree (bytes : List Byte) (hcr : 0x0D#8 ∉ bytes) (hdel : 127#8 ∉ bytes) (s s' : State)
    (hs : s.Ok) (hs' : s'.Ok) (hempty : s.kbd.Holds []) (hempty' : s'.ser.Holds [])
    (hfree : ascii "/deadlock" ∉ (Editor.run .vga bytes).lines) :
    ∃ t t' es outs outs', User.vga.feed bytes s = .ok t ∧ User.serial.feed bytes s' = .ok t' ∧
      t.events = s.events ++ es ∧ t'.events = s'.events ++ es.map (Event.by .serial) ∧
      t.kbd.len = t'.ser.len ∧ cString t.kbd.line.toList = cString t'.ser.line.toList ∧
      Contiguous s t outs es ∧ Contiguous s' t' outs' (es.map (Event.by .serial)) ∧
      outs'.filterMap Out.sent = (outs.filterMap Out.sent).map fun x => (.serial, x.2) := by
  have hsame : Editor.run .serial bytes = Editor.run .vga bytes :=
    (Editor.run_agree hcr hdel Editor.empty).symm
  have hfree' : ascii "/deadlock" ∉ (Editor.run .serial bytes).lines := by rwa [hsame]
  obtain ⟨t, hrun, ht⟩ := (follows_start (u := .vga) hs hempty).run bytes hfree
  obtain ⟨t', hrun', ht'⟩ := (follows_start (u := .serial) hs' hempty').run bytes hfree'
  obtain ⟨outs, hout⟩ := ht.out
  obtain ⟨outs', hout'⟩ := ht'.out
  have hholds : t.kbd.Holds (Editor.run .vga bytes).cur := ht.holds
  have hholds' : t'.ser.Holds (Editor.run .serial bytes).cur := ht'.holds
  change Contiguous s' t' outs' ((Editor.run .serial bytes).lines.flatMap (handled .serial)) at hout'
  rw [hsame] at hholds'
  rw [hsame, ← flatMap_handled_by .vga] at hout'
  refine ⟨t, t', _, outs, outs', hrun, hrun', hout.events, hout'.events, ?_, ?_, hout, hout', ?_⟩
  · rw [hholds.len, hholds'.len]
  · rw [hholds.cString, hholds'.cString]
  · rw [hout'.sent, sentOf_by, hout.sent]
    rfl

/-- `a`, a backspace too many, a control byte, a command and a line that goes on. -/
theorem editors_agree_mixed :
    ∃ t t' es outs outs',
      User.vga.feed ([0x61#8, 0x08#8, 0x08#8, 0x01#8] ++ ascii "/help\nb") powerOn = .ok t ∧
      User.serial.feed ([0x61#8, 0x08#8, 0x08#8, 0x01#8] ++ ascii "/help\nb") powerOn = .ok t' ∧
      t.events = es ∧ t'.events = es.map (Event.by .serial) ∧ t.kbd.len = t'.ser.len ∧
      cString t.kbd.line.toList = cString t'.ser.line.toList ∧ Contiguous powerOn t outs es ∧
      Contiguous powerOn t' outs' (es.map (Event.by .serial)) ∧
      outs'.filterMap Out.sent = (outs.filterMap Out.sent).map fun x => (.serial, x.2) :=
  editors_agree ([0x61#8, 0x08#8, 0x08#8, 0x01#8] ++ ascii "/help\nb") (by decide) (by decide) powerOn
    powerOn powerOn_ok powerOn_ok (powerOn_empty .vga) (powerOn_empty .serial) (by decide)

/-! ## Line ends -/

def IsEnding (r : List Byte) : Prop := r ≠ [] ∧ ∀ c ∈ r, EndsLine c

/-- The streams are the same but for their line ends. Each end in one, a run of `\r` and `\n`, has
some such run in its place in the other. -/
inductive SameLines : List Byte → List Byte → Prop
  | nil : SameLines [] []
  | key {c : Byte} {a b : List Byte} : ¬ EndsLine c → SameLines a b → SameLines (c :: a) (c :: b)
  | ends {r r' a b : List Byte} : IsEnding r → IsEnding r' → SameLines a b →
      SameLines (r ++ a) (r' ++ b)

/-- The lines that say something. -/
def said (lines : List (List Byte)) : List (List Byte) := lines.filter fun m => m ≠ []

/-- What was done, and not only read: commands and broadcasts. -/
def acts (es : List Event) : List Event :=
  es.filter fun e => match e with
    | .line _ _ => false
    | _ => true

theorem said_append (lines lines' : List (List Byte)) : said (lines ++ lines') = said lines ++ said lines' :=
  List.filter_append _ _

theorem acts_append (es es' : List Event) : acts (es ++ es') = acts es ++ acts es' :=
  List.filter_append _ _

theorem sentOf_acts (es : List Event) : sentOf (acts es) = sentOf es := by
  unfold sentOf acts
  rw [List.filterMap_filter]
  refine List.filterMap_congr fun e _ => ?_
  cases e <;> rfl

theorem acts_handled (u : User) (lines : List (List Byte)) :
    acts (lines.flatMap (handled u)) = acts ((said lines).flatMap (handled u)) := by
  induction lines with
  | nil => rfl
  | cons m lines ih =>
    have hsplit : said (m :: lines) = said [m] ++ said lines := said_append [m] lines
    have hone : acts (handled u m) = acts ((said [m]).flatMap (handled u)) := by
      by_cases hm : m = []
      · subst hm
        rfl
      · simp [said, hm]
    rw [hsplit, List.flatMap_cons, List.flatMap_append, acts_append, acts_append, ih, hone]

/-- Two editors with the same line before them, which were handed the same lines, empty ones apart. -/
structure Editor.Alike (e e' : Editor) : Prop where
  cur : e.cur = e'.cur
  said : said e.lines = said e'.lines

theorem Editor.Alike.acts {e e' : Editor} (h : e.Alike e') {u : User} :
    acts (e.lines.flatMap (handled u)) = acts (e'.lines.flatMap (handled u)) := by
  rw [acts_handled, h.said, ← acts_handled]

theorem Editor.Alike.key {e e' : Editor} (h : e.Alike e') {c : Byte} (hc : ¬ EndsLine c) :
    (Editor.step .serial e c).Alike (Editor.step .serial e' c) := by
  have hend : ¬ User.serial.EndsLine c := hc
  refine ⟨?_, ?_⟩
  · unfold Editor.step
    rw [if_neg hend, if_neg hend, h.cur]
    split_ifs <;> simp [h.cur]
  · simp [Editor.lines_step, hend, h.said]

theorem Editor.run_ending {r : List Byte} (hr : IsEnding r) (e : Editor) :
    (r.foldl (Editor.step .serial) e).Alike ⟨[], e.lines ++ [e.cur]⟩ := by
  obtain ⟨hne, hr⟩ := hr
  induction r generalizing e with
  | nil => exact absurd rfl hne
  | cons c r ih =>
    have hend : User.serial.EndsLine c := hr c List.mem_cons_self
    have hstep : Editor.step .serial e c = ⟨[], e.lines ++ [e.cur]⟩ := if_pos hend
    rw [List.foldl_cons, hstep]
    by_cases hrest : r = []
    · subst hrest
      exact ⟨rfl, rfl⟩
    · -- the line is empty by now
      have hlast := ih ⟨[], e.lines ++ [e.cur]⟩ hrest fun c hc => hr c (List.mem_cons_of_mem _ hc)
      refine ⟨hlast.cur, hlast.said.trans ?_⟩
      show said ((e.lines ++ [e.cur]) ++ [[]]) = said (e.lines ++ [e.cur])
      rw [said_append _ [[]]]
      exact List.append_nil _

theorem SameLines.alike {a b : List Byte} (h : SameLines a b) {e e' : Editor} (hee : e.Alike e') :
    (a.foldl (Editor.step .serial) e).Alike (b.foldl (Editor.step .serial) e') := by
  induction h generalizing e e' with
  | nil => exact hee
  | key hc _ ih => exact ih (hee.key hc)
  | ends hr hr' _ ih =>
    rw [List.foldl_append, List.foldl_append]
    have hleft := Editor.run_ending hr e
    have hright := Editor.run_ending hr' e'
    apply ih
    refine ⟨hleft.cur.trans hright.cur.symm, hleft.said.trans (Eq.trans ?_ hright.said.symm)⟩
    simp only [said_append, hee.said, hee.cur]

/-! ## The array -/

theorem User.feed_buf {u : User} {bytes : List Byte} {s t : State} (hs : s.Ok)
    (h : u.feed bytes s = .ok t) : t.buf u = bytes.foldl u.edit (s.buf u) := by
  induction bytes generalizing s with
  | nil =>
    obtain rfl : s = t := Except.ok.inj h
    rfl
  | cons c bytes ih =>
    cases hrun : (u.process c).exec s with
    | error e =>
      rw [User.feed, List.foldlM_cons, hrun] at h
      cases h
    | ok x =>
      have hstep : (u.process c).exec s = .ok ((), x.2) := hrun
      have hedit := ((Prog.wp_of_exec hstep).mp (User.process_spec hs (User.process_free hs hstep))).1
      rw [User.feed_cons hstep] at h
      rw [ih (hedit.ok hs (User.edit_len (hs.len u) c)) h, hedit.buf]
      rfl

theorem Line.reset_reset (l : Line) : l.reset.reset = l.reset := by
  unfold Line.reset Line.close Line.put
  congr 1
  ext i hi
  simp only [Vector.getElem_setIfInBounds]
  split_ifs <;> rfl

theorem serEdit_ending {r : List Byte} (hr : IsEnding r) (l : Line) : r.foldl serEdit l = l.reset := by
  obtain ⟨hne, hr⟩ := hr
  induction r generalizing l with
  | nil => exact absurd rfl hne
  | cons c r ih =>
    have hstep : serEdit l c = l.reset := if_pos (hr c List.mem_cons_self)
    rw [List.foldl_cons, hstep]
    by_cases hrest : r = []
    · subst hrest
      rfl
    · rw [ih _ hrest fun c hc => hr c (List.mem_cons_of_mem _ hc), Line.reset_reset]

theorem SameLines.edit {a b : List Byte} (h : SameLines a b) (l : Line) :
    a.foldl serEdit l = b.foldl serEdit l := by
  induction h generalizing l with
  | nil => rfl
  | key _ _ ih => exact ih _
  | ends hr hr' _ ih =>
    rw [List.foldl_append, List.foldl_append, serEdit_ending hr, serEdit_ending hr']
    exact ih _

/-- **Line ends.** Two serial streams that differ in their line ends alone, with no line that is
`/deadlock`, give the same commands and broadcasts in the same order, and the same buffer. What goes out
differs in echoes only. -/
theorem line_ends_interchangeable {a b : List Byte} (h : SameLines a b) (s : State) (hs : s.Ok)
    (hempty : s.ser.Holds []) (hfree : ascii "/deadlock" ∉ (Editor.run .serial a).lines) :
    ∃ t t' es es' outs outs', User.serial.feed a s = .ok t ∧ User.serial.feed b s = .ok t' ∧
      acts t.events = acts t'.events ∧ t.ser = t'.ser ∧
      Contiguous s t outs es ∧ Contiguous s t' outs' es' ∧ acts es = acts es' ∧
      outs.filterMap Out.sent = outs'.filterMap Out.sent := by
  have halike : (Editor.run .serial a).Alike (Editor.run .serial b) := h.alike ⟨rfl, rfl⟩
  have hfree' : ascii "/deadlock" ∉ (Editor.run .serial b).lines := by
    intro hmem
    have hsaid : ascii "/deadlock" ∈ said (Editor.run .serial b).lines :=
      List.mem_filter.mpr ⟨hmem, by decide⟩
    rw [← halike.said] at hsaid
    exact hfree (List.mem_of_mem_filter hsaid)
  have hstart := follows_start (u := .serial) hs hempty
  obtain ⟨t, hrun, ht⟩ := hstart.run a hfree
  obtain ⟨t', hrun', ht'⟩ := hstart.run b hfree'
  obtain ⟨outs, hout⟩ := ht.out
  obtain ⟨outs', hout'⟩ := ht'.out
  refine ⟨t, t', _, _, outs, outs', hrun, hrun', ?_, ?_, hout, hout', halike.acts, ?_⟩
  · rw [hout.events, hout'.events, acts_append, acts_append]
    exact congrArg (acts s.events ++ ·) halike.acts
  · have hbuf : t.ser = a.foldl serEdit s.ser := User.feed_buf hs hrun
    have hbuf' : t'.ser = b.foldl serEdit s.ser := User.feed_buf hs hrun'
    rw [hbuf, hbuf', h.edit]
  · rw [hout.sent, hout'.sent, ← sentOf_acts, ← sentOf_acts (List.flatMap _ _)]
    exact congrArg sentOf halike.acts

/-- `\r\n` and then `\n`, against `\n` and then `\r`. -/
theorem line_ends_interchangeable_crlf :
    ∃ t t' es es' outs outs',
      User.serial.feed (0x61#8 :: ([0x0D#8, 0x0A#8] ++ 0x62#8 :: ([0x0A#8] ++ []))) powerOn = .ok t ∧
      User.serial.feed (0x61#8 :: ([0x0A#8] ++ 0x62#8 :: ([0x0D#8] ++ []))) powerOn = .ok t' ∧
      acts t.events = acts t'.events ∧ t.ser = t'.ser ∧ Contiguous powerOn t outs es ∧
      Contiguous powerOn t' outs' es' ∧ acts es = acts es' ∧
      outs.filterMap Out.sent = outs'.filterMap Out.sent :=
  line_ends_interchangeable
    (.key (by decide) (.ends ⟨by decide, by decide⟩ ⟨by decide, by decide⟩
      (.key (by decide) (.ends ⟨by decide, by decide⟩ ⟨by decide, by decide⟩ .nil))))
    powerOn powerOn_ok (powerOn_empty .serial) (by decide)

end MiniOS.Chat
