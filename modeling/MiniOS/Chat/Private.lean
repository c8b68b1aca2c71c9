import MiniOS.Chat.Transcript

/-!
# What a user can see of the other

The screen tells its user nothing of the other's keys but the lines that they end, and the
port tells its user nothing more of the screen's.
-/

open MiniOS.Lib MiniOS.Vga

namespace MiniOS.Chat

inductive Notice
  | key (c : Byte)
  | line (m : List Byte)
  deriving DecidableEq

/-- The keys of `u` and the lines of the other, where they end. `m` is the other's line so far. -/
def notices (u : User) (m : List Byte) : List Key → List Notice
  | [] => []
  | k :: ks =>
    if k.user = u then .key k.byte :: notices u m ks
    else if k.user.EndsLine k.byte then .line m :: notices u [] ks
    else notices u (Editor.step k.user ⟨m, []⟩ k.byte).cur ks

def User.other : User → User
  | .vga => .serial
  | .serial => .vga

/-- The screen is `vga`'s, and the port `serial`'s. -/
def User.sees : User → Out → Bool
  | .vga, .serial _ => false
  | .vga, _ => true
  | .serial, .serial _ => true
  | .serial, .line _ _ => true
  | .serial, _ => false

/-- The two cannot be told apart on the device of `u`. -/
def SameView : User → State → State → Prop
  | .vga, s, t => s.console = t.console
  | .serial, s, t => s.serial = t.serial

/-- What `u` sees, and whether it goes on, from what `u` notices. -/
def told (u : User) (d : Talk) : List Notice → List Out × Bool
  | [] => ([], true)
  | .key c :: ns => match d.key u c with
    | (outs, none) => (outs.filter u.sees, false)
    | (outs, some d') => (outs.filter u.sees ++ (told u d' ns).1, (told u d' ns).2)
  | .line m :: ns => match d.answer u.other m with
    | (outs, none) => (outs.filter u.sees, false)
    | (outs, some file) =>
      (outs.filter u.sees ++ (told u { d with file := file } ns).1, (told u { d with file := file } ns).2)

theorem User.other_ne (u : User) : u.other ≠ u := by
  cases u <;> exact User.noConfusion

theorem User.eq_other {u v : User} (h : v ≠ u) : v = u.other := by
  cases u <;> cases v <;> first | rfl | exact absurd rfl h

/-! ## One key -/

theorem Talk.answer_congr {d e : Talk} (h : e.file = d.file) (u : User) (m : List Byte) :
    e.answer u m = d.answer u m := by
  unfold Talk.answer Talk.swapped
  rw [h]

/-- A key does what the line of its user and the files make it do. -/
theorem Talk.key_congr {d e : Talk} {u : User} (hcur : e.cur u = d.cur u) (hfile : e.file = d.file)
    (c : Byte) : e.key u c =
      ((d.key u c).1, (d.key u c).2.map fun d' => ⟨Function.update e.cur u (d'.cur u), d'.file⟩) := by
  have hsame : e = ⟨Function.update e.cur u (d.cur u), d.file⟩ := by
    rw [← hcur, ← hfile, Function.update_eq_self]
  unfold Talk.key Talk.setCur
  rw [hcur, Talk.answer_congr hfile, hfile]
  split_ifs
  · simp [Function.comp_def]
  · simp
  · simp
  · exact congrArg (fun x => ([], some x)) hsame
  · simp
  · exact congrArg (fun x => ([], some x)) hsame

/-- On a line, the chat is the editor. -/
theorem Talk.key_cur {d d' : Talk} {u : User} {c : Byte} (h : (d.key u c).2 = some d') :
    d'.cur = Function.update d.cur u (Editor.step u ⟨d.cur u, []⟩ c).cur := by
  unfold Talk.key Talk.setCur at h
  unfold Editor.step
  by_cases hend : u.EndsLine c
  · simp only [if_pos hend] at h ⊢
    obtain ⟨file, -, rfl⟩ := Option.map_eq_some_iff.mp h
    rfl
  simp only [if_neg hend] at h ⊢
  split_ifs at h ⊢ <;> obtain rfl := Option.some.inj h
  · rfl
  · rfl
  · exact (Function.update_eq_self u d.cur).symm
  · rfl
  · exact (Function.update_eq_self u d.cur).symm

/-- Only a line that ends shows anything to the other. -/
theorem Talk.key_hidden (d : Talk) {u v : User} {c : Byte} (hv : v ≠ u) (hend : ¬ v.EndsLine c) :
    ∃ d', (d.key v c).2 = some d' ∧ d'.file = d.file ∧ (d.key v c).1.filter u.sees = [] := by
  obtain rfl := User.eq_other hv
  unfold Talk.key Talk.setCur
  simp only [if_neg hend]
  split_ifs
  · exact ⟨_, rfl, rfl, rfl⟩
  · refine ⟨_, rfl, rfl, ?_⟩
    cases u <;> rfl
  · exact ⟨_, rfl, rfl, rfl⟩
  · refine ⟨_, rfl, rfl, ?_⟩
    cases u <;> rfl
  · exact ⟨_, rfl, rfl, rfl⟩

theorem Talk.key_line (d : Talk) {u v : User} {c : Byte} (hv : v ≠ u) (hend : v.EndsLine c) :
    (d.key v c).2 = (d.answer v (d.cur v)).2.map (fun file => ⟨Function.update d.cur v [], file⟩) ∧
      (d.key v c).1.filter u.sees = (d.answer v (d.cur v)).1.filter u.sees := by
  obtain rfl := User.eq_other hv
  unfold Talk.key
  rw [if_pos hend]
  refine ⟨rfl, ?_⟩
  rw [List.filter_append]
  cases u <;> rfl

/-! ## All keys -/

/-- What `u` sees of a run is told by the keys of `u` and the lines of the other. -/
theorem told_run {u : User} {d e : Talk} (hcur : e.cur u = d.cur u) (hfile : e.file = d.file)
    (ks : List Key) :
    ((d.run ks).1.filter u.sees, (d.run ks).2.isSome) = told u e (notices u (d.cur u.other) ks) := by
  induction ks generalizing d e with
  | nil => rfl
  | cons k ks ih =>
    unfold notices
    by_cases hk : k.user = u
    · -- an own key
      rw [if_pos hk]
      subst hk
      rw [told, Talk.key_congr hcur hfile]
      cases hnext : (d.key k.user k.byte).2 with
      | none =>
        rw [Talk.run_none hnext]
        rfl
      | some d' =>
        have hother : d'.cur k.user.other = d.cur k.user.other := by
          rw [Talk.key_cur hnext, Function.update_of_ne k.user.other_ne]
        have hrest := ih (d := d') (e := ⟨Function.update e.cur k.user (d'.cur k.user), d'.file⟩)
          (Function.update_self _ _ _) rfl
        rw [hother] at hrest
        rw [Talk.run_some hnext, List.filter_append]
        simp only [Option.map_some, ← hrest]
    rw [if_neg hk]
    have hv := User.eq_other hk
    have hseen : ∀ d', (d.key k.user k.byte).2 = some d' → d'.cur u = d.cur u := by
      intro d' hnext
      rw [Talk.key_cur hnext, Function.update_of_ne (Ne.symm hk)]
    by_cases hend : k.user.EndsLine k.byte
    · -- the other hands a line over
      obtain ⟨hnext, hsees⟩ := d.key_line hk hend
      rw [if_pos hend, told, Talk.answer_congr hfile, ← hv]
      cases hanswer : d.answer k.user (d.cur k.user) with
      | mk outs next =>
        rw [hanswer] at hnext hsees
        cases next with
        | none =>
          rw [Talk.run_none hnext, hsees]
          rfl
        | some file =>
          have hrest := ih (d := ⟨Function.update d.cur k.user [], file⟩) (e := { e with file := file })
            (by rw [hcur]; exact (hseen _ hnext).symm) rfl
          have hcleared : (Talk.mk (Function.update d.cur k.user []) file).cur u.other = [] := by
            rw [← hv]
            exact Function.update_self _ _ _
          rw [hcleared] at hrest
          rw [Talk.run_some hnext, List.filter_append, hsees]
          simp only [← hrest]
    · -- the other edits
      obtain ⟨d', hnext, hfile', hnone⟩ := d.key_hidden hk hend
      have hrest := ih (d := d') (e := e) (by rw [hcur]; exact (hseen d' hnext).symm)
        (hfile.trans hfile'.symm)
      rw [if_neg hend, Talk.run_some hnext, List.filter_append, hnone, List.nil_append]
      rw [Talk.key_cur hnext, ← hv, Function.update_self] at hrest
      rw [← hv]
      exact hrest

/-! ## Both devices -/

theorem Out.onSerial_unseen {out : Out} (h : User.serial.sees out = false) : out.onSerial = [] := by
  cases out <;> first | rfl | cases h

theorem Out.onConsole_unseen {out : Out} (h : User.vga.sees out = false) (c : Console) :
    out.onConsole c = c := by
  cases out <;> first | rfl | cases h

theorem flatMap_seen (outs : List Out) :
    (outs.filter User.serial.sees).flatMap Out.onSerial = outs.flatMap Out.onSerial := by
  induction outs with
  | nil => rfl
  | cons out outs ih =>
    cases h : User.serial.sees out with
    | true => rw [List.filter_cons_of_pos h, List.flatMap_cons, List.flatMap_cons, ih]
    | false =>
      rw [List.filter_cons_of_neg (by simp [h]), List.flatMap_cons, Out.onSerial_unseen h, ih,
        List.nil_append]

theorem foldl_seen (outs : List Out) (c : Console) :
    (outs.filter User.vga.sees).foldl Out.onConsole c = outs.foldl Out.onConsole c := by
  induction outs generalizing c with
  | nil => rfl
  | cons out outs ih =>
    cases h : User.vga.sees out with
    | true => rw [List.filter_cons_of_pos h, List.foldl_cons, List.foldl_cons, ih]
    | false => rw [List.filter_cons_of_neg (by simp [h]), List.foldl_cons, Out.onConsole_unseen h, ih]

theorem SameView.shown {u : User} {s s' t t' : State} {outs outs' : List Out} (h : SameView u s s')
    (hs : Shown s t outs) (hs' : Shown s' t' outs') (hsees : outs.filter u.sees = outs'.filter u.sees) :
    SameView u t t' := by
  cases u with
  | vga =>
    have hsame : s.console = s'.console := h
    show t.console = t'.console
    rw [hs.console, hs'.console, ← foldl_seen, hsees, hsame, foldl_seen]
  | serial =>
    have hsame : s.serial = s'.serial := h
    show t.serial = t'.serial
    rw [hs.serial, hs'.serial, ← flatMap_seen, hsees, hsame, flatMap_seen]

theorem chat_loop_shown (s : State) (polls : List (List Byte × List Byte)) :
    Shown s ((chat_loop polls).last s) (Talk.start.run (polled polls)).1 ∧
      ((chat_loop polls).exec s).isOk = (Talk.start.run (polled polls)).2.isSome := by
  rcases Prog.ends_last (chat_loop_answered s polls) with
    ⟨_, hrun, d, hd, hshown, -⟩ | ⟨e, hrun, -, hnone, hshown⟩
  · rw [hrun, hd]
    exact ⟨hshown, rfl⟩
  · rw [hrun, hnone]
    exact ⟨hshown, rfl⟩

/-- **What is typed stays private until Enter.** Take two sessions from `chat_init` on in which a user
types the same and the other ends the same lines at the same points. The user's device shows the same in
both, and both hang or neither does, whatever else the other typed and erased. -/
theorem typing_private {u : User} {s s' : State} {polls polls' : List (List Byte × List Byte)}
    (h : SameView u s s') (hsame : notices u [] (polled polls) = notices u [] (polled polls')) :
    SameView u ((chat_loop polls).last s) ((chat_loop polls').last s') ∧
      ((chat_loop polls).exec s).isOk = ((chat_loop polls').exec s').isOk := by
  obtain ⟨hshown, hok⟩ := chat_loop_shown s polls
  obtain ⟨hshown', hok'⟩ := chat_loop_shown s' polls'
  have htold : ∀ ks, ((Talk.start.run ks).1.filter u.sees, (Talk.start.run ks).2.isSome) =
      told u Talk.start (notices u [] ks) := told_run rfl rfl
  have hrun := (htold (polled polls)).trans ((congrArg _ hsame).trans (htold (polled polls')).symm)
  obtain ⟨hsees, hsome⟩ := Prod.mk.inj hrun
  exact ⟨h.shown hshown hshown' hsees, hok.trans (hsome.trans hok'.symm)⟩

/-- The keyboard's user types a letter, or another and a backspace. -/
theorem typing_private_letter :
    SameView .serial ((chat_loop [([0x61#8], [0x62#8])]).last powerOn)
        ((chat_loop [([0x63#8, 0x08#8], [0x62#8])]).last powerOn) ∧
      ((chat_loop [([0x61#8], [0x62#8])]).exec powerOn).isOk =
        ((chat_loop [([0x63#8, 0x08#8], [0x62#8])]).exec powerOn).isOk :=
  typing_private rfl (by decide)

end MiniOS.Chat
