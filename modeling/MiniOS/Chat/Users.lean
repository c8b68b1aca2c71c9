import MiniOS.Chat.Discipline
import MiniOS.Chat.Screen

/-!
# Two users

Both users' keys go through one dispatcher to one console and one serial port. What a
key does to its user's line and record depends on nothing of the other's. What goes out
is a sequence of whole blocks, and a broadcast is one of them.
-/

open MiniOS.Lib MiniOS.Vga

namespace MiniOS.Chat

/-! ## The two streams -/

def Key.user : Key → User
  | .kbd _ => .vga
  | .ser _ => .serial

def Key.byte : Key → Byte
  | .kbd c => c
  | .ser c => c

theorem Key.process_eq (k : Key) : k.process = k.user.process k.byte := by
  cases k <;> rfl

def Key.processAll : List Key → Action Unit
  | [] => pure ()
  | k :: ks => do
    k.process
    Key.processAll ks

/-- What `u` typed, of the keys of both. -/
def keysOf (u : User) (ks : List Key) : List Byte :=
  ks.filterMap fun k => if k.user = u then some k.byte else none

/-- One call, in which the queue yields `typed` and the port `received`. -/
def chat_poll (typed received : List Byte) : Action Unit := do
  Key.processAll (typed.map .kbd)
  Key.processAll (received.map .ser)

def chat_polls : List (List Byte × List Byte) → Action Unit
  | [] => pure ()
  | (typed, received) :: polls => do
    chat_poll typed received
    chat_polls polls

def bytesOf : User → List (List Byte × List Byte) → List Byte
  | .vga, polls => polls.flatMap Prod.fst
  | .serial, polls => polls.flatMap Prod.snd

def polled (polls : List (List Byte × List Byte)) : List Key :=
  polls.flatMap fun p => p.1.map .kbd ++ p.2.map .ser

theorem Key.processAll_append (ks ks' : List Key) (s : State) :
    (Key.processAll (ks ++ ks')).exec s =
      ((Key.processAll ks).exec s).bind fun x => (Key.processAll ks').exec x.2 := by
  induction ks generalizing s with
  | nil => rfl
  | cons k ks ih =>
    show (k.process >>= fun _ => Key.processAll (ks ++ ks')).exec s =
      ((k.process >>= fun _ => Key.processAll ks).exec s).bind _
    rw [Prog.exec_bind, Prog.exec_bind]
    cases k.process.exec s with
    | error e => rfl
    | ok x => exact ih x.2

theorem chat_polls_exec (polls : List (List Byte × List Byte)) (s : State) :
    (chat_polls polls).exec s = (Key.processAll (polled polls)).exec s := by
  induction polls generalizing s with
  | nil => rfl
  | cons p polls ih =>
    obtain ⟨typed, received⟩ := p
    show (chat_poll typed received >>= fun _ => chat_polls polls).exec s =
      (Key.processAll ((typed.map .kbd ++ received.map .ser) ++ polled polls)).exec s
    rw [Prog.exec_bind, Key.processAll_append, Key.processAll_append, chat_poll, Prog.exec_bind]
    congr
    funext x
    exact ih x.2

theorem keysOf_append (u : User) (ks ks' : List Key) :
    keysOf u (ks ++ ks') = keysOf u ks ++ keysOf u ks' := List.filterMap_append

theorem keysOf_polled (u : User) (polls : List (List Byte × List Byte)) :
    keysOf u (polled polls) = bytesOf u polls := by
  induction polls with
  | nil => cases u <;> rfl
  | cons p polls ih =>
    obtain ⟨typed, received⟩ := p
    show keysOf u ((typed.map .kbd ++ received.map .ser) ++ polled polls) = _
    rw [keysOf_append, keysOf_append, ih]
    have htyped : ∀ v, keysOf v (typed.map .kbd) = if v = .vga then typed else [] := by
      intro v
      cases v <;> simp [keysOf, Key.user, Key.byte, List.filterMap_map]
    have hreceived : ∀ v, keysOf v (received.map .ser) = if v = .serial then received else [] := by
      intro v
      cases v <;> simp [keysOf, Key.user, Key.byte, List.filterMap_map]
    rw [htyped, hreceived]
    cases u <;> simp [bytesOf]

/-! ## One user alone -/

/-- To `u`, the two states are the same. -/
structure SameFor (u : User) (s t : State) : Prop where
  buf : s.buf u = t.buf u
  events : s.eventsOf u = t.eventsOf u

/-- A key of `u` does the same where `u` sees the same. -/
theorem SameFor.step {u : User} {s ref ref' : State} {c : Byte} (h : SameFor u s ref) (hs : s.Ok)
    (href : ref.Ok) (hrun : (u.process c).exec ref = .ok ((), ref')) :
    ∃ t, (u.process c).exec s = .ok ((), t) ∧ t.Ok ∧ ref'.Ok ∧ SameFor u t ref' := by
  have hfree := User.process_free href hrun
  have hedit' := ((Prog.wp_of_exec hrun).mp (User.process_spec href hfree)).1
  rw [← h.buf] at hfree hedit'
  obtain ⟨⟨⟩, t, hrun', hedit, -⟩ := User.process_spec hs hfree
  have hlen : (u.edit (s.buf u) c).len ≤ LINE_MAX := User.edit_len (hs.len u) c
  refine ⟨t, hrun', hedit.ok hs hlen, hedit'.ok href hlen, hedit.buf.trans hedit'.buf.symm, ?_⟩
  have hevents := h.events
  unfold State.eventsOf at *
  rw [hedit.events, hedit'.events, List.filter_append, List.filter_append, hevents]

/-- A key of another user is nothing to `u`. -/
theorem SameFor.other {u v : User} {s t ref : State} {c : Byte} (h : SameFor u s ref) (hv : v ≠ u)
    (hrun : (v.process c).exec s = .ok ((), t)) : SameFor u t ref := by
  have heach := (User.process_statements v c).mono fun _ _ h => h.spares hv
  obtain ⟨hbuf, hevents⟩ := heach.exec (fun _ => ⟨rfl, rfl⟩)
    (fun _ _ _ h h' => ⟨h'.1.trans h.1, h'.2.trans h.2⟩) hrun
  exact ⟨hbuf.trans h.buf, hevents.trans h.events⟩

/-- Two runs: the keys of both in any order, and for each user its own alone. -/
theorem processAll_alone {ks : List Key} {s : State} {ref ref' : User → State} (hs : s.Ok)
    (href : ∀ u, (ref u).Ok) (hsame : ∀ u, SameFor u s (ref u))
    (halone : ∀ u : User, u.feed (keysOf u ks) (ref u) = .ok (ref' u)) :
    ∃ t, (Key.processAll ks).exec s = .ok ((), t) ∧ ∀ u, SameFor u t (ref' u) := by
  induction ks generalizing s ref with
  | nil =>
    refine ⟨s, rfl, fun u => ?_⟩
    have hu : ref u = ref' u := Except.ok.inj (halone u)
    rw [← hu]
    exact hsame u
  | cons k ks ih =>
    have hown := halone k.user
    have hkeys : keysOf k.user (k :: ks) = k.byte :: keysOf k.user ks := by simp [keysOf]
    rw [hkeys] at hown
    obtain ⟨mid, hmid⟩ : ∃ mid, (k.user.process k.byte).exec (ref k.user) = .ok ((), mid) := by
      cases h : (k.user.process k.byte).exec (ref k.user) with
      | ok x => exact ⟨x.2, rfl⟩
      | error e =>
        rw [User.feed, List.foldlM_cons, h] at hown
        cases hown
    rw [User.feed_cons hmid] at hown
    obtain ⟨t, hrun, ht, hmidok, hsame'⟩ := (hsame k.user).step hs (href k.user) hmid
    have hrest : ∀ u, u ≠ k.user → keysOf u (k :: ks) = keysOf u ks := by
      intro u hu
      simp [keysOf, hu.symm]
    have hrefs : ∀ u, (Function.update ref k.user mid u).Ok :=
      (Function.forall_update_iff ref fun _ r => r.Ok).mpr ⟨hmidok, fun u _ => href u⟩
    have hsames : ∀ u, SameFor u t (Function.update ref k.user mid u) :=
      (Function.forall_update_iff ref fun u r => SameFor u t r).mpr
        ⟨hsame', fun u hu => (hsame u).other hu.symm hrun⟩
    have halones : ∀ u : User, u.feed (keysOf u ks) (Function.update ref k.user mid u) = .ok (ref' u) :=
      (Function.forall_update_iff ref fun u r => u.feed (keysOf u ks) r = .ok (ref' u)).mpr
        ⟨hown, fun u hu => by rw [← hrest u hu]; exact halone u⟩
    obtain ⟨v, hall, hv⟩ := ih ht hrefs hsames halones
    refine ⟨v, ?_, hv⟩
    rw [Key.processAll, Key.process_eq, Prog.exec_bind_ok hrun]
    exact hall

/-! ## One key -/

/-- Each buffer holds a line that could be typed. -/
structure Typed (s : State) : Prop where
  ok : s.Ok
  holds : ∀ u, ∃ m, (s.buf u).Holds m ∧ ∀ b ∈ m, ¬ b < 32#8

theorem typed_start {s : State} (hs : s.Ok) (hempty : ∀ u, (s.buf u).Holds []) : Typed s :=
  ⟨hs, fun u => ⟨[], hempty u, fun _ hb => absurd hb List.not_mem_nil⟩⟩

theorem Typed.step {s t : State} {k : Key} (h : Typed s) (hrun : Processed s k t) :
    Typed t ∧ ∃ outs es, Contiguous s t outs es := by
  have hrun' : (k.user.process k.byte).exec s = .ok ((), t) := by rwa [← Key.process_eq]
  obtain ⟨hedit, -⟩ := (Prog.wp_of_exec hrun').mp
    (User.process_spec h.ok (User.process_free h.ok hrun'))
  obtain ⟨m, hm, htyped⟩ := h.holds k.user
  obtain ⟨outs, hout⟩ := User.process_contiguous h.ok hm htyped hrun'
  refine ⟨⟨hedit.ok h.ok (User.edit_len hm.le k.byte), fun u => ?_⟩, outs, _, hout⟩
  by_cases hu : u = k.user
  · subst hu
    rw [hedit.buf]
    exact ⟨_, Editor.step_holds (e := ⟨m, []⟩) hm k.byte, Editor.printable_step (e := ⟨m, []⟩) htyped k.byte⟩
  · rw [hedit.other u hu]
    exact h.holds u

theorem Typed.run {ks : List Key} {s t : State} (h : Typed s)
    (hrun : (Key.processAll ks).exec s = .ok ((), t)) :
    ∃ outs es, Contiguous s t outs es := by
  induction ks generalizing s with
  | nil =>
    obtain ⟨-, rfl⟩ := Prod.mk.inj (Except.ok.inj hrun)
    exact ⟨[], [], Contiguous.refl _⟩
  | cons k ks ih =>
    rw [Key.processAll, Prog.exec_bind] at hrun
    cases hstep : k.process.exec s with
    | error e =>
      rw [hstep] at hrun
      cases hrun
    | ok x =>
      rw [hstep] at hrun
      obtain ⟨hmid, outs, es, hfirst⟩ := h.step (t := x.2) (k := k) hstep
      obtain ⟨outs', es', hrest⟩ := ih hmid hrun
      exact ⟨outs ++ outs', es ++ es', hfirst.trans hrest⟩

/-! ## Any interleaving -/

theorem broadcastsOf_eventsOf (u : User) (s : State) :
    broadcastsOf u (s.eventsOf u) = broadcastsOf u s.events := by
  unfold broadcastsOf State.eventsOf
  rw [List.filterMap_filter]
  apply List.filterMap_congr
  intro e _
  cases e with
  | broadcast v m => by_cases hv : v = u <;> simp [Event.user, hv]
  | _ => simp

/-- **The users do not disturb each other.** However `chat_poll` interleaves two streams in which no line
is `/deadlock`, each user's buffer and broadcasts are those of the user's own stream alone, and every
broadcast goes out in one piece, as one line. -/
theorem users_undisturbed (polls : List (List Byte × List Byte)) (s : State) (hs : s.Ok)
    (hempty : ∀ u, (s.buf u).Holds [])
    (hfree : ∀ u, ascii "/deadlock" ∉ (Editor.run u (bytesOf u polls)).lines) :
    ∃ t, (chat_polls polls).exec s = .ok ((), t) ∧
      (∀ u, ∃ ref, u.feed (bytesOf u polls) s = .ok ref ∧ t.buf u = ref.buf u ∧
        broadcastsOf u t.events = broadcastsOf u ref.events) ∧
      ∃ outs es, Contiguous s t outs es := by
  have halone : ∀ u : User, ∃ ref, u.feed (keysOf u (polled polls)) s = .ok ref := by
    intro u
    obtain ⟨ref, hrun, -⟩ := (follows_start hs (hempty u)).run (bytesOf u polls) (hfree u)
    rw [keysOf_polled]
    exact ⟨ref, hrun⟩
  choose ref href using halone
  obtain ⟨t, hrun, hsame⟩ := processAll_alone hs (fun _ => hs) (fun u => ⟨rfl, rfl⟩) href
  refine ⟨t, by rw [chat_polls_exec, hrun], fun u => ?_, (typed_start hs hempty).run hrun⟩
  refine ⟨ref u, by rw [← keysOf_polled, href], (hsame u).buf, ?_⟩
  rw [← broadcastsOf_eventsOf, ← broadcastsOf_eventsOf, (hsame u).events]

/-- Both type a letter, and both end the line. -/
theorem users_undisturbed_letters :
    ∃ t, (chat_polls [([0x61#8], [0x62#8]), ([0x0A#8], [0x0D#8])]).exec powerOn = .ok ((), t) ∧
      (∀ u, ∃ ref, u.feed (bytesOf u [([0x61#8], [0x62#8]), ([0x0A#8], [0x0D#8])]) powerOn = .ok ref ∧
        t.buf u = ref.buf u ∧ broadcastsOf u t.events = broadcastsOf u ref.events) ∧
      ∃ outs es, Contiguous powerOn t outs es :=
  users_undisturbed _ powerOn powerOn_ok powerOn_empty (by intro u; cases u <;> decide)

end MiniOS.Chat
